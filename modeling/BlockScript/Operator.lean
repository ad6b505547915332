/-
  BlockScript — the operators on values.

  Numbers have arithmetic and comparisons, truth values have conjunction,
  disjunction and equality, and `+` joins a text with any value.  Every other
  combination is a mismatch.  An operator is any text, because a loaded tree
  may hold any.

  * `applyUnary op v`, `applyBinary op a b`: the value or the cause of failure.
-/
import BlockScript.Fault
import BlockScript.Number.Remainder

namespace BlockScript

/-- A prefix operator applied to a value. -/
def applyUnary (op : String) : Value → Except Fault Value
  | .number x => if op = "-" then .ok (.number (-x)) else .error (.unaryMismatch op (.number x))
  | .boolean b => if op = "!" then .ok (.boolean !b) else .error (.unaryMismatch op (.boolean b))
  | v => .error (.unaryMismatch op v)

/-- An operator between two numbers, if it is one of theirs. -/
def applyNumeric? (op : String) (x y : Float) : Option (Except Fault Value) :=
  match op with
  | "+" => some (.ok (.number (x + y)))
  | "-" => some (.ok (.number (x - y)))
  | "*" => some (.ok (.number (x * y)))
  | "/" => some (if y == 0.0 then .error .divisionByZero else .ok (.number (x / y)))
  | "%" => some (if y == 0.0 then .error .moduloByZero else
      match remainder? x y with
      | some r => .ok (.number r)
      | none => .error .noRemainder)
  | "==" => some (.ok (.boolean (x == y)))
  | "!=" => some (.ok (.boolean (x != y)))
  | "<" => some (.ok (.boolean (x < y)))
  | ">" => some (.ok (.boolean (x > y)))
  | "<=" => some (.ok (.boolean (x ≤ y)))
  | ">=" => some (.ok (.boolean (x ≥ y)))
  | _ => none

/-- An operator between two truth values, if it is one of theirs. -/
def applyLogical? (op : String) (p q : Bool) : Option Bool :=
  match op with
  | "&&" => some (p && q)
  | "||" => some (p || q)
  | "==" => some (p == q)
  | "!=" => some (p != q)
  | _ => none

/-- Whether a value is a text. -/
def Value.isString : Value → Bool
  | .string _ => true
  | _ => false

/-- An operator between two values. -/
def applyBinary (op : String) (a b : Value) : Except Fault Value :=
  match a, b with
  | .number x, .number y => (applyNumeric? op x y).getD (.error (.binaryMismatch op a b))
  | .boolean p, .boolean q => match applyLogical? op p q with
    | some r => .ok (.boolean r)
    | none => .error (.binaryMismatch op a b)
  | _, _ =>
    if op = "+" && (a.isString || b.isString) then .ok (.string (a.joined ++ b.joined))
    else .error (.binaryMismatch op a b)

end BlockScript
