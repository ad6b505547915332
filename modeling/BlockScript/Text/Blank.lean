/-
  BlockScript — blank characters.

  The blanks are the ASCII layout characters (tab to carriage return, the four
  separators U+001C to U+001F and the space), the next-line character, and
  every character of Unicode's space separators, line and paragraph
  separators.

  * `isBlank c`: `c` is skipped between two tokens;
  * `strip s`: `s` without the blanks at its two ends.
-/
import BlockScript.Text.CharTable

namespace BlockScript

/-- The blank characters. -/
def blanks : CharTable :=
  [(0x9, 0xd), (0x1c, 0x20), (0x85, 0x85), (0xa0, 0xa0), (0x1680, 0x1680), (0x2000, 0x200a),
   (0x2028, 0x2029), (0x202f, 0x202f), (0x205f, 0x205f), (0x3000, 0x3000)]

/-- Whether a character is blank. -/
def isBlank (c : Char) : Bool :=
  blanks.has c

/-- A list of characters without the blanks at its two ends. -/
def stripChars (cs : List Char) : List Char :=
  ((cs.dropWhile isBlank).reverse.dropWhile isBlank).reverse

/-- A text without the blanks at its two ends. -/
def strip (s : String) : String :=
  String.ofList (stripChars s.toList)

end BlockScript
