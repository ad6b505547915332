/-
  BlockScript — reading a number from a text.

  A numeral is a sign, digits of any script with at most one point among them,
  and a power of ten; single underscores may stand between two digits.  The
  words for infinity and for an undefined number are read in any case.  Blanks
  around the numeral are skipped, except the four ASCII separators.

  * `Numeral`: what a text denotes, before rounding;
  * `Numeral.read? s`: the numeral that `s` writes, if it writes one;
  * `Numeral.toFloat n`: the nearest floating-point number; what is too large
    is infinite, what is too small is zero.
-/
import BlockScript.Text.Blank
import BlockScript.Text.Digit

namespace BlockScript

/-- A number as a text denotes it. -/
inductive Numeral where
  /-- `± 0.ddd… · 10 ^ place`, the digits from the left -/
  | decimal (negative : Bool) (digits : List Nat) (place : Int)
  | infinite (negative : Bool)
  | undefined
  deriving DecidableEq

/-! ## The grammar -/

/-- The blanks that may stand around a numeral. -/
def isNumeralBlank (c : Char) : Bool :=
  isBlank c && !(0x1c ≤ c.toNat && c.toNat ≤ 0x1f)

/-- A list of characters without the blanks around a numeral. -/
def stripNumeral (cs : List Char) : List Char :=
  ((cs.dropWhile isNumeralBlank).reverse.dropWhile isNumeralBlank).reverse

/-- Remove the underscores, if each of them stands between two digits. -/
def dropUnderscores? (afterDigit : Bool) : List Char → Option (List Char)
  | [] => some []
  | '_' :: c :: rest =>
    if afterDigit && isDecimal c then (dropUnderscores? true rest).map (c :: ·) else none
  | c :: rest => if c = '_' then none else (dropUnderscores? (isDecimal c) rest).map (c :: ·)

/-- An optional sign: whether it is a minus, and what follows it. -/
def takeSign : List Char → Bool × List Char
  | '-' :: rest => (true, rest)
  | '+' :: rest => (false, rest)
  | cs => (false, cs)

/-- The values of the digits at the start of a text, and what follows them. -/
def takeDigits (cs : List Char) : List Nat × List Char :=
  ((cs.takeWhile isDecimal).filterMap digitValue?, cs.dropWhile isDecimal)

/-- The natural number with the given digits. -/
def natOfDigits (ds : List Nat) : Nat :=
  ds.foldl (fun n d => 10 * n + d) 0

/-- An optional power of ten, which must be all that is left. -/
def readPower? : List Char → Option Int
  | [] => some 0
  | c :: rest =>
    if c = 'e' || c = 'E' then
      let (negative, rest) := takeSign rest
      match takeDigits rest with
      | ([], _) | (_, _ :: _) => none
      | (ds, []) => some (if negative then -(natOfDigits ds : Int) else natOfDigits ds)
    else none

/-- Digits with at most one point, and an optional power of ten. -/
def unsignedDecimal? (negative : Bool) (cs : List Char) : Option Numeral :=
  let (whole, rest) := takeDigits cs
  let (fraction, rest) := match rest with
    | '.' :: rest => takeDigits rest
    | rest => ([], rest)
  if whole.isEmpty && fraction.isEmpty then none
  else (readPower? rest).map fun e =>
    .decimal negative (whole ++ fraction) (whole.length + e)

/-- The numeral written by a list of characters without blanks around it. -/
def readNumeral? (cs : List Char) : Option Numeral :=
  let (negative, rest) := takeSign cs
  let word := String.ofList (rest.map Char.toLower)
  if word = "inf" || word = "infinity" then some (.infinite negative)
  else if word = "nan" then some .undefined
  else (dropUnderscores? false rest).bind (unsignedDecimal? negative)

/-- The numeral that a text writes. -/
def Numeral.read? (s : String) : Option Numeral :=
  readNumeral? (stripNumeral s.toList)

/-! ## Rounding -/

/-- The magnitude `0.ddd… · 10 ^ place`, rounded to the nearest number.  From
    `10 ^ 309` on every magnitude is infinite, and below `10 ^ -324` zero; the
    wide margins keep the power of ten small. -/
def roundDecimal (digits : List Nat) (place : Int) : Float :=
  let zeros := digits.takeWhile (· = 0)
  let digits := digits.dropWhile (· = 0)
  let place := place - zeros.length
  if digits.isEmpty || place < -400 then 0.0
  else if 400 < place then 1.0 / 0.0
  else
    let e := place - digits.length
    Float.ofScientific (natOfDigits digits) (e < 0) e.natAbs

/-- The number that a numeral denotes. -/
def Numeral.toFloat : Numeral → Float
  | .decimal negative digits place =>
    if negative then -roundDecimal digits place else roundDecimal digits place
  | .infinite negative => if negative then -(1.0 / 0.0) else 1.0 / 0.0
  | .undefined => 0.0 / 0.0

/-- The number that a text writes. -/
def readNumber? (s : String) : Option Float :=
  (Numeral.read? s).map Numeral.toFloat

end BlockScript
