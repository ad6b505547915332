/-
  BlockScript — quoted texts, as messages show them.

  A text stands between single quotes, or between double quotes if it holds a
  single quote and no double one.  The backslash and the quote in use are
  escaped, line feed, carriage return and tab have their letter escapes, and a
  character without a visible form is written by its code point in lower-case
  hexadecimal, in the shortest of the widths two, four and eight.

  * `quoted s`: the quoted form of `s`.
-/
import BlockScript.Text.Printable

namespace BlockScript

/-- The quote that a text is shown in. -/
def quoteFor (cs : List Char) : Char :=
  if cs.contains '\'' && !cs.contains '"' then '"' else '\''

/-- The lower-case hexadecimal digits of `n`, with zeros in front up to the
    given width. -/
def hexDigits (width n : Nat) : List Char :=
  let ds := Nat.toDigits 16 n
  List.replicate (width - ds.length) '0' ++ ds

/-- A character written by its code point. -/
def codeEscape (c : Char) : List Char :=
  let n := c.toNat
  if n < 0x100 then '\\' :: 'x' :: hexDigits 2 n
  else if n < 0x10000 then '\\' :: 'u' :: hexDigits 4 n
  else '\\' :: 'U' :: hexDigits 8 n

/-- A character of a text shown in the quote `q`. -/
def quotedChar (q c : Char) : List Char :=
  if c = q || c = '\\' then ['\\', c]
  else if c = '\n' then ['\\', 'n']
  else if c = '\r' then ['\\', 'r']
  else if c = '\t' then ['\\', 't']
  else if isPrintable c then [c]
  else codeEscape c

/-- The quoted form of a text. -/
def quoted (s : String) : String :=
  let cs := s.toList
  let q := quoteFor cs
  String.ofList (q :: cs.flatMap (quotedChar q) ++ [q])

end BlockScript
