/-
  BlockScript — values.

  A value is a number, a truth value, a text or null.  It has four texts: the
  name of its type, what `print` writes, what it adds to a text when joined to
  one, and how it is shown with its type.

  * `Value.printed`: numbers in the form of `NumberLayout.printed`, so that two
    prints as `2.0`;
  * `Value.joined`: as printed, except that an integral number below `10 ^ 16`
    loses its fraction, so that `"x=" + 5` is `x=5`;
  * `Value.shown`: the value with the name of its type around it.
-/
import BlockScript.Number.Layout
import BlockScript.Text.Quoted

namespace BlockScript

/-- A value of the language. -/
inductive Value where
  | number (x : Float)
  | boolean (b : Bool)
  | string (s : String)
  | null

/-- The name of a value's type. -/
def Value.typeName : Value → String
  | .number _ => "Number"
  | .boolean _ => "Boolean"
  | .string _ => "String"
  | .null => "Null"

/-- What `print` writes. -/
def Value.printed : Value → String
  | .number x => NumberLayout.printed.text x
  | .boolean b => if b then "true" else "false"
  | .string s => s
  | .null => "null"

/-- The digits of an integer, with a minus in front if it is negative. -/
def integerText (n : Int) : String :=
  if n < 0 then "-" ++ Nat.repr n.natAbs else Nat.repr n.natAbs

/-- The number of digits that an integer may have in a text. -/
def maxIntegerDigits : Nat := 4300

/-- The integer that a number is, if its magnitude is below `10 ^ 16`. -/
def smallInteger? (x : Float) : Option Int :=
  match NumberForm.ofFloat x with
  | .finite b => b.toInt?.filter fun n => n.natAbs < 10000000000000000
  | _ => none

/-- What a value adds to a text that it is joined to. -/
def Value.joined : Value → String
  | .number x => match smallInteger? x with
    | some n => integerText n
    | none => Value.printed (.number x)
  | v => v.printed

/-- A value together with its type. -/
def Value.shown : Value → String
  | .number x => "Number(" ++ NumberLayout.printed.text x ++ ")"
  | .boolean b => if b then "Boolean(True)" else "Boolean(False)"
  | .string s => "String(" ++ quoted s ++ ")"
  | .null => "Null"

/-- A value with its type in brackets after it, as error messages name it. -/
def Value.described (v : Value) : String :=
  v.printed ++ " (" ++ v.typeName ++ ")"

end BlockScript
