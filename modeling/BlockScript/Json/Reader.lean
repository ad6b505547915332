/-
  BlockScript — reading JSON texts.

  The dialect has the words `NaN`, `Infinity` and `-Infinity` beside JSON's
  own, and blanks are space, tab, line feed and carriage return.  A number
  with a fraction or a power of ten is a floating-point number; every other
  number is an integer, of at most 4300 digits.  Raw control characters in a
  string and a byte order mark in front are refused.

  * `Raw.read s`: the value that `s` writes, or why it writes none;
  * `Json.read s`: the same, for a value without lone surrogates.
-/
import BlockScript.Json
import BlockScript.Number.Numeral

namespace BlockScript

/-- Why a text is not read. -/
inductive JsonError where
  /-- the text is not JSON -/
  | malformed
  /-- an integer has too many digits -/
  | tooManyDigits (count : Nat)
  deriving DecidableEq

/-- The wording of a refusal; that of a malformed text has no details. -/
def JsonError.message : JsonError → String
  | .malformed => "<json>"
  | .tooManyDigits count =>
    "Exceeds the limit (" ++ Nat.repr maxIntegerDigits ++
      " digits) for integer string conversion: value has " ++ Nat.repr count ++
      " digits; use sys.set_int_max_str_digits() to increase the limit"

/-- What is left of a text after a value, or a refusal. -/
abbrev JsonReading (α : Type) := Except JsonError (α × List Char)

/-- The blanks of JSON. -/
def isJsonBlank (c : Char) : Bool :=
  c = ' ' || c = '\t' || c = '\n' || c = '\r'

/-- A text without the blanks in front of it. -/
def skipBlanks (cs : List Char) : List Char :=
  cs.dropWhile isJsonBlank

/-! ## Strings -/

/-- The value of a hexadecimal digit. -/
def hexValue? (c : Char) : Option Nat :=
  let n := c.toNat
  if '0' ≤ c && c ≤ '9' then some (n - 48)
  else if 'a' ≤ c && c ≤ 'f' then some (n - 87)
  else if 'A' ≤ c && c ≤ 'F' then some (n - 55)
  else none

/-- The value of four hexadecimal digits. -/
def hexQuad? (a b c d : Char) : Option Nat := do
  let w ← hexValue? a
  let x ← hexValue? b
  let y ← hexValue? c
  let z ← hexValue? d
  return ((w * 16 + x) * 16 + y) * 16 + z

/-- The character that a one-letter escape stands for. -/
def letterEscape? : Char → Option Char
  | '"' => some '"'
  | '\\' => some '\\'
  | '/' => some '/'
  | 'b' => some '\x08'
  | 'f' => some '\x0c'
  | 'n' => some '\n'
  | 'r' => some '\r'
  | 't' => some '\t'
  | _ => none

/-- The code units of a string up to its closing quote, in front of which those
    in `done` were read, in reverse order. -/
def readUnits (done : List Nat) : List Char → JsonReading (List Nat)
  | [] => .error .malformed
  | '"' :: rest => .ok (done.reverse, rest)
  | '\\' :: 'u' :: a :: b :: c :: d :: rest => match hexQuad? a b c d with
    | some n => readUnits (n :: done) rest
    | none => .error .malformed
  | '\\' :: c :: rest => match letterEscape? c with
    | some e => readUnits (e.toNat :: done) rest
    | none => .error .malformed
  | c :: rest =>
    if c = '\\' || c.toNat < 0x20 then .error .malformed else readUnits (c.toNat :: done) rest

/-- The code points of a sequence of code units.  A high and a low surrogate
    make one character; a lone surrogate stays. -/
def joinUnits : List Nat → Text
  | [] => []
  | [n] => [.ofNat n]
  | high :: low :: rest =>
    if 0xd800 ≤ high ∧ high < 0xdc00 ∧ 0xdc00 ≤ low ∧ low < 0xe000 then
      .char (Char.ofNat (0x10000 + (high - 0xd800) * 0x400 + (low - 0xdc00))) :: joinUnits rest
    else .ofNat high :: joinUnits (low :: rest)

/-- A string after its opening quote. -/
def readString (cs : List Char) : JsonReading Text :=
  match readUnits [] cs with
  | .ok (units, rest) => .ok (joinUnits units, rest)
  | .error e => .error e

/-! ## Numbers -/

/-- Whether a character is an ASCII digit. -/
def isJsonDigit (c : Char) : Bool :=
  '0' ≤ c && c ≤ '9'

/-- The ASCII digits at the start of a text, and what follows them. -/
def spanDigits (cs : List Char) : List Char × List Char :=
  (cs.takeWhile isJsonDigit, cs.dropWhile isJsonDigit)

/-- The digits of an integer: a zero alone, or digits that do not begin with
    one. -/
def spanInteger : List Char → List Char × List Char
  | '0' :: rest => (['0'], rest)
  | cs => spanDigits cs

/-- A fraction: a point and at least one digit. -/
def spanFraction : List Char → List Char × List Char
  | '.' :: rest => match spanDigits rest with
    | ([], _) => ([], '.' :: rest)
    | (ds, rest) => ('.' :: ds, rest)
  | cs => ([], cs)

/-- The optional sign of a power of ten. -/
def spanSign : List Char → List Char × List Char
  | '+' :: rest => (['+'], rest)
  | '-' :: rest => (['-'], rest)
  | cs => ([], cs)

/-- A power of ten: a mark, an optional sign and at least one digit. -/
def spanPower : List Char → List Char × List Char
  | [] => ([], [])
  | c :: rest =>
    if c = 'e' || c = 'E' then
      let (sign, after) := spanSign rest
      match spanDigits after with
      | ([], _) => ([], c :: rest)
      | (ds, after) => (c :: sign ++ ds, after)
    else ([], c :: rest)

/-- The integer with the given sign and digits. -/
def integerOf (negative : Bool) (digits : List Char) : Except JsonError Raw :=
  if maxIntegerDigits < digits.length then .error (.tooManyDigits digits.length)
  else
    let n : Int := natOfDigits (digits.filterMap digitValue?)
    .ok (.int (if negative then -n else n))

/-- A number without its sign. -/
def readNumber (negative : Bool) (cs : List Char) : JsonReading Raw :=
  match spanInteger cs with
  | ([], _) => .error .malformed
  | (whole, rest) =>
    let (fraction, rest) := spanFraction rest
    let (power, rest) := spanPower rest
    if fraction.isEmpty && power.isEmpty then
      (integerOf negative whole).map (·, rest)
    else
      match unsignedDecimal? negative (whole ++ fraction ++ power) with
      | some n => .ok (.float n.toFloat, rest)
      | none => .error .malformed

/-! ## Values -/

/-- The words that stand for values. -/
def jsonWords : List (String × Raw) :=
  [("null", .null), ("true", .bool true), ("false", .bool false), ("NaN", .float (0.0 / 0.0)),
    ("Infinity", .float (1.0 / 0.0)), ("-Infinity", .float (-(1.0 / 0.0)))]

/-- What follows a word at the start of a text. -/
def afterWord? : List Char → List Char → Option (List Char)
  | [], cs => some cs
  | w :: word, c :: cs => if w = c then afterWord? word cs else none
  | _ :: _, [] => none

/-- A value that is one of the words. -/
def readWord? (cs : List Char) : Option (Raw × List Char) :=
  jsonWords.findSome? fun (word, value) => (afterWord? word.toList cs).map (value, ·)

/-- A value that has no parts. -/
def readAtom (cs : List Char) : JsonReading Raw :=
  match readWord? cs with
  | some reading => .ok reading
  | none => match cs with
    | '"' :: rest => (readString rest).map fun (s, rest) => (.str s, rest)
    | '-' :: rest => readNumber true rest
    | cs => readNumber false cs

mutual

/-- A value at the start of a text.  The first argument bounds the number of
    steps; the length of the text is enough. -/
def readValue : Nat → List Char → JsonReading Raw
  | 0, _ => .error .malformed
  | n + 1, '[' :: rest => match skipBlanks rest with
    | ']' :: rest => .ok (.arr [], rest)
    | rest => readItems n [] rest
  | n + 1, '\x7b' :: rest => match skipBlanks rest with
    | '\x7d' :: rest => .ok (.obj [], rest)
    | rest => readFields n [] rest
  | _ + 1, cs => readAtom cs

/-- The items of a list from the next one on, those in `done` before it, in
    reverse order. -/
def readItems : Nat → List Raw → List Char → JsonReading Raw
  | 0, _, _ => .error .malformed
  | n + 1, done, cs => match readValue n cs with
    | .error e => .error e
    | .ok (v, rest) => match skipBlanks rest with
      | ',' :: rest => readItems n (v :: done) (skipBlanks rest)
      | ']' :: rest => .ok (.arr (v :: done).reverse, rest)
      | _ => .error .malformed

/-- The fields of an object from the next one on, those in `done` before it. -/
def readFields : Nat → List (Text × Raw) → List Char → JsonReading Raw
  | 0, _, _ => .error .malformed
  | n + 1, done, '"' :: cs => match readString cs with
    | .error e => .error e
    | .ok (key, rest) => match skipBlanks rest with
      | ':' :: rest => match readValue n (skipBlanks rest) with
        | .error e => .error e
        | .ok (v, rest) => match skipBlanks rest with
          | ',' :: rest => readFields n (putField key v done) (skipBlanks rest)
          | '\x7d' :: rest => .ok (.obj (putField key v done), rest)
          | _ => .error .malformed
      | _ => .error .malformed
  | _ + 1, _, _ => .error .malformed

end

/-- The value that a list of characters writes, with blanks around it. -/
def readJsonChars (cs : List Char) : Except JsonError Raw :=
  match readValue (cs.length + 1) (skipBlanks cs) with
  | .error e => .error e
  | .ok (v, rest) => if (skipBlanks rest).isEmpty then .ok v else .error .malformed

/-- The value that a text writes. -/
def Raw.read (s : String) : Except JsonError Raw :=
  readJsonChars s.toList

/-- The value that a text writes without lone surrogates. -/
def Json.read (s : String) : Except JsonError Json :=
  match Raw.read s with
  | .error e => .error e
  | .ok v => match v.json? with
    | some j => .ok j
    | none => .error .malformed

end BlockScript
