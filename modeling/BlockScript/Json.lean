/-
  BlockScript — JSON values.

  Integers and floating-point numbers are kept apart, as a document writes
  them, and the fields of an object keep the order in which their names first
  appear.  What is written has strings of characters in it; what is read may
  have lone surrogates.

  * `Datum`: a JSON value, `Json` as it is written and `Raw` as it is read;
  * `Json.raw`, `Raw.json?`: from the one to the other, and back;
  * `Datum.field?`: the value of a field of an object;
  * `putField`: fields with one more; a repeated name keeps its place and takes
    the new value;
  * `Raw.isTruthy`: everything but null, false, zeros and what is empty;
  * `Raw.written`, `Raw.display`: a one-line text for messages, as it is put
    into them and as the error output shows it.
-/
import BlockScript.Text.CodePoint
import BlockScript.Value

namespace BlockScript

/-- A JSON value with strings of a given type. -/
inductive Datum (τ : Type) where
  | null
  | bool (b : Bool)
  | int (n : Int)
  | float (x : Float)
  | str (s : τ)
  | arr (items : List (Datum τ))
  | obj (fields : List (τ × Datum τ))

/-- A value to be written. -/
abbrev Json := Datum String

/-- A value that was read. -/
abbrev Raw := Datum Text

/-! ## Fields -/

section

variable {τ : Type} [DecidableEq τ]

/-- The value of a field in a list of fields. -/
def lookupField (key : τ) : List (τ × Datum τ) → Option (Datum τ)
  | [] => none
  | (k, v) :: rest => if k = key then some v else lookupField key rest

/-- The value of a field of an object. -/
def Datum.field? (key : τ) : Datum τ → Option (Datum τ)
  | .obj fields => lookupField key fields
  | _ => none

/-- Fields with one more. -/
def putField (key : τ) (value : Datum τ) : List (τ × Datum τ) → List (τ × Datum τ)
  | [] => [(key, value)]
  | (k, v) :: rest => if k = key then (k, value) :: rest else (k, v) :: putField key value rest

/-- A field is smaller than the list of fields that holds it. -/
theorem sizeOf_lt_of_lookupField [SizeOf τ] {key : τ} {v : Datum τ} :
    ∀ {fields : List (τ × Datum τ)}, lookupField key fields = some v → sizeOf v < sizeOf fields
  | [], h => by simp [lookupField] at h
  | (k, w) :: rest, h => by
    rw [lookupField] at h
    split at h
    · cases h
      simp only [List.cons.sizeOf_spec, Prod.mk.sizeOf_spec]
      omega
    · have := sizeOf_lt_of_lookupField h
      simp only [List.cons.sizeOf_spec]
      omega

end

/-! ## Strings of characters -/

mutual

/-- A value as it is read. -/
def Json.raw : Json → Raw
  | .null => .null
  | .bool b => .bool b
  | .int n => .int n
  | .float x => .float x
  | .str s => .str (.of s)
  | .arr items => .arr (rawItems items)
  | .obj fields => .obj (rawFields fields)

/-- The items of a list. -/
def rawItems : List Json → List Raw
  | [] => []
  | v :: rest => v.raw :: rawItems rest

/-- The fields of an object. -/
def rawFields : List (String × Json) → List (Text × Raw)
  | [] => []
  | (k, v) :: rest => (.of k, v.raw) :: rawFields rest

end

mutual

/-- The value that is read as the given one, if it has no lone surrogates. -/
def Raw.json? : Raw → Option Json
  | .null => some .null
  | .bool b => some (.bool b)
  | .int n => some (.int n)
  | .float x => some (.float x)
  | .str s => s.string?.map .str
  | .arr items => (jsonItems? items).map .arr
  | .obj fields => (jsonFields? fields).map .obj

/-- The items of a list. -/
def jsonItems? : List Raw → Option (List Json)
  | [] => some []
  | v :: rest => do
    let w ← v.json?
    return w :: (← jsonItems? rest)

/-- The fields of an object. -/
def jsonFields? : List (Text × Raw) → Option (List (String × Json))
  | [] => some []
  | (k, v) :: rest => do
    let key ← Text.string? k
    let w ← v.json?
    return (key, w) :: (← jsonFields? rest)

end

/-- The string that a value is. -/
def Raw.word? : Raw → Option String
  | .str s => s.string?
  | _ => none

/-! ## Display -/

/-- Whether a value counts as true. -/
def Raw.isTruthy : Raw → Bool
  | .null => false
  | .bool b => b
  | .int n => n != 0
  | .float x => x != 0.0
  | .str s => !s.isEmpty
  | .arr items => !items.isEmpty
  | .obj fields => !fields.isEmpty

/-- The name of a value's type. -/
def Raw.typeName : Raw → String
  | .null => "NoneType"
  | .bool _ => "bool"
  | .int _ => "int"
  | .float _ => "float"
  | .str _ => "str"
  | .arr _ => "list"
  | .obj _ => "dict"

mutual

/-- A value inside a message, with texts in quotes. -/
def Raw.inspect : Raw → String
  | .null => "None"
  | .bool b => if b then "True" else "False"
  | .int n => integerText n
  | .float x => NumberLayout.printed.text x
  | .str s => s.quoted
  | .arr items => "[" ++ String.intercalate ", " (inspectItems items) ++ "]"
  | .obj fields => "\x7b" ++ String.intercalate ", " (inspectFields fields) ++ "\x7d"

/-- The items of a list. -/
def inspectItems : List Raw → List String
  | [] => []
  | v :: rest => v.inspect :: inspectItems rest

/-- The fields of an object. -/
def inspectFields : List (Text × Raw) → List String
  | [] => []
  | (k, v) :: rest => (Text.quoted k ++ ": " ++ v.inspect) :: inspectFields rest

end

mutual

/-- Whether every integer in a value has few enough digits to be shown. -/
def Raw.legible : Raw → Bool
  | .int n => n.natAbs < Nat.pow 10 maxIntegerDigits
  | .arr items => legibleItems items
  | .obj fields => legibleFields fields
  | _ => true

/-- The items of a list. -/
def legibleItems : List Raw → Bool
  | [] => true
  | v :: rest => v.legible && legibleItems rest

/-- The fields of an object. -/
def legibleFields : List (Text × Raw) → Bool
  | [] => true
  | (_, v) :: rest => v.legible && legibleFields rest

end

/-- A value as a message: a text stands for itself. -/
def Raw.written : Raw → Text
  | .str s => s
  | v => .of v.inspect

/-- A value as a message that the error output shows. -/
def Raw.display (v : Raw) : String :=
  v.written.escaped

end BlockScript
