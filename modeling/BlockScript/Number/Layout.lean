/-
  BlockScript — the text of a number.

  A number is written with the fewest digits that name it, with a point
  between digits if its magnitude is neither very large nor very small, and
  with a power of ten otherwise.

  * `NumberLayout`: the decisions of a written form, of which there are two:
    `NumberLayout.printed` for `print`, and `NumberLayout.stored` for saved
    programs;
  * `NumberLayout.text`: the text of a number in a layout.
-/
import BlockScript.Number.Shortest

namespace BlockScript

/-- The decisions of a written form of numbers. -/
structure NumberLayout where
  /-- positional notation needs a point place above this one … -/
  abovePlace : Int
  /-- … and at most this one -/
  uptoPlace : Int
  /-- the least number of digits of a power of ten -/
  exponentWidth : Nat
  infinity : String
  undefined : String

/-- The form that `print` writes: positional from `0.0001` to below `10 ^ 16`,
    a power of ten has two digits or more. -/
def NumberLayout.printed : NumberLayout := ⟨-4, 16, 2, "inf", "nan"⟩

/-- The form of saved programs, with words for the numbers that are not
    finite. -/
def NumberLayout.stored : NumberLayout :=
  { NumberLayout.printed with infinity := "Infinity", undefined := "NaN" }

/-- The digits of a decimal without the zeros at its end. -/
def Decimal.significantDigits (d : Decimal) : List Char :=
  ((Nat.toDigits 10 d.digits).reverse.dropWhile (· = '0')).reverse

/-- The point place of a decimal: its magnitude is `0.ddd… · 10 ^ place`. -/
def Decimal.place (d : Decimal) : Int :=
  digitCount d.digits + d.exponent

/-- Digits with a point after the first `place` of them, filled with zeros on
    both sides. -/
def positional (ds : List Char) (place : Int) : List Char :=
  if place ≤ 0 then ['0', '.'] ++ List.replicate (-place).toNat '0' ++ ds
  else
    let n := place.toNat
    if n < ds.length then ds.take n ++ '.' :: ds.drop n
    else ds ++ List.replicate (n - ds.length) '0' ++ ['.', '0']

/-- The power of ten `n`, with its sign and at least `width` digits. -/
def powerOfTen (width : Nat) (n : Int) : List Char :=
  let ds := Nat.toDigits 10 n.natAbs
  'e' :: (if n < 0 then '-' else '+') :: List.replicate (width - ds.length) '0' ++ ds

/-- Digits with a point after the first one, if there are more, and a power of
    ten. -/
def scientific (width : Nat) (ds : List Char) (place : Int) : List Char :=
  let fraction := if ds.length ≤ 1 then [] else '.' :: ds.drop 1
  ds.take 1 ++ fraction ++ powerOfTen width (place - 1)

/-- The text of a magnitude. -/
def NumberLayout.magnitude (layout : NumberLayout) (d : Decimal) : List Char :=
  if d.digits = 0 then ['0', '.', '0']
  else if layout.abovePlace < d.place ∧ d.place ≤ layout.uptoPlace then
    positional d.significantDigits d.place
  else scientific layout.exponentWidth d.significantDigits d.place

/-- The text of a number.  Only an undefined number has no sign. -/
def NumberLayout.text (layout : NumberLayout) (x : Float) : String :=
  let signed (negative : Bool) (s : String) := if negative then "-" ++ s else s
  match NumberForm.ofFloat x with
  | .finite b => signed b.negative (String.ofList (layout.magnitude b.shortest))
  | .infinite negative => signed negative layout.infinity
  | .undefined => layout.undefined

end BlockScript
