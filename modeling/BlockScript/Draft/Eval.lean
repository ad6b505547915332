/-
  BlockScript — the value of a draft.

  A draft is evaluated as a tree is.  Its data come in where a text is looked
  up, joined or shown: names are compared as data are, so that 1, 1.0 and true
  are one name; `+` adds the contents of two texts as data; and a message shows
  data by `Raw.written`.  All of this can fail (`Mishap`).

  * `Key`, `Raw.key?`: what a name is looked up by;
  * `Raw.add`: the sum of two data;
  * `DraftEnv`: the variables of a draft;
  * `Draft.eval env d`: the value of `d`, or the cause of failure.
-/
import BlockScript.Document
import BlockScript.Operator

namespace BlockScript

/-! ## Sums -/

/-- The number that a value is in a sum. -/
def Raw.summand? : Raw → Option (Int ⊕ Float)
  | .bool b => some (.inl (if b then 1 else 0))
  | .int n => some (.inl n)
  | .float x => some (.inr x)
  | _ => none

/-- The floating-point number that a summand is. -/
def floatOfSummand : Int ⊕ Float → Except Mishap Float
  | .inl n => match floatOfInteger? n with
    | some x => .ok x
    | none => .error .integerTooLarge
  | .inr x => .ok x

/-- The sum of two numbers. -/
def addNumbers : Int ⊕ Float → Int ⊕ Float → Except Mishap Raw
  | .inl m, .inl n => .ok (.int (m + n))
  | a, b => do
    let x ← floatOfSummand a
    let y ← floatOfSummand b
    return .float (x + y)

/-- The sum of two data: numbers are added, texts and lists are put together. -/
def Raw.add (a b : Raw) : Except Mishap Raw :=
  match a, b with
  | .str s, .str t => .ok (.str (s ++ t))
  | .arr xs, .arr ys => .ok (.arr (xs ++ ys))
  | a, b => match a.summand?, b.summand? with
    | some x, some y => addNumbers x y
    | _, _ => .error (.notJoinable a.typeName b.typeName)

/-! ## Values -/

/-- The name of a value's type. -/
def DraftValue.typeName : DraftValue → String
  | .number _ => "Number"
  | .boolean _ => "Boolean"
  | .string _ => "String"
  | .null => "Null"

/-- The content of a text, and the given text of any other value. -/
def DraftValue.contentOr (text : Value → String) : DraftValue → Raw
  | .number x => .str (.of (text (.number x)))
  | .boolean b => .str (.of (text (.boolean b)))
  | .string content => content
  | .null => .str (.of (text .null))

/-- What `print` writes. -/
def DraftValue.printed : DraftValue → Raw :=
  DraftValue.contentOr Value.printed

/-- What a value adds to a text that it is joined to. -/
def DraftValue.joined : DraftValue → Raw :=
  DraftValue.contentOr Value.joined

/-- A value as messages show it. -/
def DraftValue.display : DraftValue → Value
  | .number x => .number x
  | .boolean b => .boolean b
  | .string content => .string content.display
  | .null => .null

/-- Whether a value is a text. -/
def DraftValue.isString : DraftValue → Bool
  | .string _ => true
  | _ => false

/-- The fault whose message shows the given data, if they can be shown. -/
def faultShowing (shown : List Raw) (fault : Fault) : Fault :=
  if shown.all Raw.legible then fault else .mishap .tooManyDigits

/-! ## Operators -/

/-- A prefix operator that fits no operand of the given value. -/
def unaryMisfit (op : Raw) (v : DraftValue) : Except Fault DraftValue :=
  .error (faultShowing [op, v.printed] (.unaryMismatch op.display v.display))

/-- A prefix operator applied to a value. -/
def applyUnaryDraft (op : Raw) (v : DraftValue) : Except Fault DraftValue :=
  match op.word?, v with
  | some "-", .number x => .ok (.number (-x))
  | some "!", .boolean b => .ok (.boolean !b)
  | _, _ => unaryMisfit op v

/-- An operator that fits no operands of the given values. -/
def binaryMisfit (op : Raw) (a b : DraftValue) : Except Fault DraftValue :=
  .error (faultShowing [a.printed, op, b.printed]
    (.binaryMismatch op.display a.display b.display))

/-- An operator between values that are not both numbers or both truth
    values. -/
def joinDrafts (op : Raw) (a b : DraftValue) : Except Fault DraftValue :=
  if op.word? = some "+" && (a.isString || b.isString) then
    match a.joined.add b.joined with
    | .ok content => .ok (.string content)
    | .error m => .error (.mishap m)
  else binaryMisfit op a b

/-- An operator between two values. -/
def applyBinaryDraft (op : Raw) (a b : DraftValue) : Except Fault DraftValue :=
  match a, b with
  | .number x, .number y => match op.word?.bind (applyNumeric? · x y) with
    | some r => r.map Value.draft
    | none => binaryMisfit op a b
  | .boolean p, .boolean q => match op.word?.bind (applyLogical? · p q) with
    | some r => .ok (.boolean r)
    | none => binaryMisfit op a b
  | a, b => joinDrafts op a b

/-! ## Variables -/

/-- What a name is looked up by.  Numbers and truth values are one name if they
    are equal. -/
inductive Key where
  | null
  | integer (n : Int)
  /-- a number that is no integer -/
  | number (form : NumberForm)
  | text (t : Text)
  deriving DecidableEq

/-- The key of a name.  Lists and objects have none. -/
def Raw.key? : Raw → Option Key
  | .null => some .null
  | .bool b => some (.integer (if b then 1 else 0))
  | .int n => some (.integer n)
  | .float x => match NumberForm.ofFloat x with
    | .finite b => match b.toInt? with
      | some n => some (.integer n)
      | none => some (.number (.finite b))
    | form => some (.number form)
  | .str t => some (.text t)
  | .arr _ | .obj _ => none

/-- The variables of one scope. -/
abbrev DraftScope := Key → Option DraftValue

/-- A stack of scopes, from the innermost to the global one. -/
abbrev DraftEnv := List DraftScope

/-- The value of a name in the innermost scope that binds it. -/
def DraftEnv.get? (env : DraftEnv) (key : Key) : Option DraftValue :=
  env.findSome? (· key)

/-- Bind a name. -/
def DraftScope.put (key : Key) (v : DraftValue) (s : DraftScope) : DraftScope :=
  fun k => if k = key then some v else s k

/-- Give a name a value, in the innermost scope that binds it, or else in the
    innermost one. -/
def DraftEnv.set (env : DraftEnv) (key : Key) (v : DraftValue) : DraftEnv :=
  env.modify ((env.findIdx? fun s => (s key).isSome).getD 0) (DraftScope.put key v)

/-- A new innermost scope. -/
def DraftEnv.enter (env : DraftEnv) : DraftEnv :=
  (fun _ => none) :: env

/-- Leave the innermost scope, unless it is the global one. -/
def DraftEnv.exit? : DraftEnv → Option DraftEnv
  | _ :: s :: rest => some (s :: rest)
  | _ => none

/-! ## Evaluation -/

/-- The key of a name, which lists and objects do not have. -/
def Raw.key (x : Raw) : Except Fault Key :=
  match x.key? with
  | some key => .ok key
  | none => .error (.mishap (.unhashable x.typeName))

/-- The value of a draft in an environment. -/
def Draft.eval (env : DraftEnv) : Draft → Except Fault DraftValue
  | .literal v => .ok v
  | .var x => do
    match env.get? (← x.key) with
    | some v => return v
    | none => .error (faultShowing [x] (.undefinedVariable x.display))
  | .unary op e => do
    let v ← e.eval env
    applyUnaryDraft op v
  | .binary op l r => do
    let a ← l.eval env
    let b ← r.eval env
    applyBinaryDraft op a b
  | d => .error (.notExpression d.kind)

end BlockScript
