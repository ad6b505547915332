/-
  BlockScript — what can go wrong while a program runs.

  * `Fault`: the causes;
  * `Mishap`: those of them that only the data of a loaded tree can bring about;
  * `FaultKind`: the three kinds of error that a program can bring about;
  * `Fault.kind?`: the kind of a cause.  A tree in which an expression stands
    for a statement, or the other way round, a remainder that does not exist,
    a scope that is left too often, and a mishap are no errors of the program,
    and have none;
  * `Fault.message`: its wording.
-/
import BlockScript.Text.CodePoint
import BlockScript.Value

namespace BlockScript

/-- A failure to use data as a name or as a text. -/
inductive Mishap where
  /-- a list or an object was used as a name -/
  | unhashable (type : String)
  /-- data of these types have no sum -/
  | notJoinable (left right : String)
  /-- an integer beyond every floating-point number was added to one -/
  | integerTooLarge
  /-- an integer has too many digits to be shown -/
  | tooManyDigits
  /-- a text with a lone surrogate was written to a file or to the output -/
  | notEncodable (text : Text)

/-- A cause that ends a run. -/
inductive Fault where
  | undefinedVariable (name : String)
  /-- the condition of a branch is not a truth value -/
  | conditionNotBoolean (value : Value)
  | unaryMismatch (op : String) (operand : Value)
  | binaryMismatch (op : String) (left right : Value)
  | divisionByZero
  | moduloByZero
  /-- a remainder that does not exist was computed -/
  | noRemainder
  /-- a tree of the given kind was run as a statement -/
  | notStatement (kind : String)
  /-- a tree of the given kind was evaluated as an expression -/
  | notExpression (kind : String)
  /-- there is no scope to leave -/
  | globalScope
  | mishap (cause : Mishap)

/-- The kinds of error that a program can bring about. -/
inductive FaultKind where
  | name
  | type
  | arithmetic
  deriving DecidableEq

/-- The word for a kind of error. -/
def FaultKind.word : FaultKind → String
  | .name => "NameError"
  | .type => "TypeError"
  | .arithmetic => "ArithmeticError"

/-- The kind of error that a cause is. -/
def Fault.kind? : Fault → Option FaultKind
  | .undefinedVariable _ => some .name
  | .conditionNotBoolean _ | .unaryMismatch _ _ | .binaryMismatch _ _ _ => some .type
  | .divisionByZero | .moduloByZero => some .arithmetic
  | .noRemainder | .notStatement _ | .notExpression _ | .globalScope | .mishap _ => none

/-- The first lone surrogates of a text in a row: the place of the first one,
    and their number. -/
def Text.surrogates (t : Text) : Nat × Nat :=
  let isChar (p : CodePoint) := p.char?.isSome
  ((t.takeWhile isChar).length, ((t.dropWhile isChar).takeWhile (!isChar ·)).length)

/-- The wording of a mishap. -/
def Mishap.message : Mishap → String
  | .unhashable type => "unhashable type: '" ++ type ++ "'"
  | .notJoinable left right =>
    if left = "str" ∨ left = "list" then
      "can only concatenate " ++ left ++ " (not \"" ++ right ++ "\") to " ++ left
    else "unsupported operand type(s) for +: '" ++ left ++ "' and '" ++ right ++ "'"
  | .integerTooLarge => "int too large to convert to float"
  | .tooManyDigits =>
    "Exceeds the limit (" ++ Nat.repr maxIntegerDigits ++ " digits) for integer string " ++
      "conversion; use sys.set_int_max_str_digits() to increase the limit"
  | .notEncodable text =>
    let (start, count) := text.surrogates
    let shown := Text.escaped ((text.drop start).take 1)
    if count ≤ 1 then
      "'utf-8' codec can't encode character '" ++ shown ++ "' in position " ++ Nat.repr start ++
        ": surrogates not allowed"
    else
      "'utf-8' codec can't encode characters in position " ++ Nat.repr start ++ "-" ++
        Nat.repr (start + count - 1) ++ ": surrogates not allowed"

/-- The wording of a cause. -/
def Fault.message : Fault → String
  | .undefinedVariable name => "undefined variable " ++ name
  | .conditionNotBoolean v => "condition must evaluate to a Boolean, got " ++ v.typeName
  | .unaryMismatch op v => "invalid operand for unary " ++ op ++ ": " ++ v.described
  | .binaryMismatch op a b =>
    "type mismatch in binary expression: " ++ a.described ++ " " ++ op ++ " " ++ b.described
  | .divisionByZero => "division by zero"
  | .moduloByZero => "modulo by zero"
  | .noRemainder => "math domain error"
  | .notStatement kind => "execute: unexpected node type " ++ kind
  | .notExpression kind => "evaluate: unexpected node type " ++ kind
  | .globalScope => "cannot exit the global scope"
  | .mishap m => m.message

end BlockScript
