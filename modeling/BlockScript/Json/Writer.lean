/-
  BlockScript — writing JSON texts.

  A list or an object with parts has each part on a line of its own, indented
  by two blanks a level; one without parts stands in one line.  In strings
  only the quote, the backslash and the control characters are escaped.

  * `Json.write v`: the text of `v`, without a line end at its end.
-/
import BlockScript.Json
import BlockScript.Text.Quoted

namespace BlockScript

/-- A character inside a string. -/
def jsonChar (c : Char) : List Char :=
  if c = '"' then ['\\', '"']
  else if c = '\\' then ['\\', '\\']
  else if c = '\n' then ['\\', 'n']
  else if c = '\r' then ['\\', 'r']
  else if c = '\t' then ['\\', 't']
  else if c = '\x08' then ['\\', 'b']
  else if c = '\x0c' then ['\\', 'f']
  else if c.toNat < 0x20 then '\\' :: 'u' :: hexDigits 4 c.toNat
  else [c]

/-- A string in its quotes. -/
def jsonString (s : String) : String :=
  String.ofList ('"' :: s.toList.flatMap jsonChar ++ ['"'])

/-- A line end and the indentation of a level. -/
def newLine (level : Nat) : String :=
  String.ofList ('\n' :: List.replicate (2 * level) ' ')

/-- The parts of a list or an object between its brackets, one on a line. -/
def bracketed (level : Nat) (opening closing : String) (parts : List String) : String :=
  match parts with
  | [] => opening ++ closing
  | parts =>
    let inner := newLine (level + 1)
    opening ++ inner ++ String.intercalate ("," ++ inner) parts ++ newLine level ++ closing

mutual

/-- The text of a value whose first line is indented by `level` levels. -/
def Json.writeAt (level : Nat) : Json → String
  | .null => "null"
  | .bool b => if b then "true" else "false"
  | .int n => integerText n
  | .float x => NumberLayout.stored.text x
  | .str s => jsonString s
  | .arr items => bracketed level "[" "]" (writeItems (level + 1) items)
  | .obj fields => bracketed level "\x7b" "\x7d" (writeFields (level + 1) fields)

/-- The texts of the items of a list. -/
def writeItems (level : Nat) : List Json → List String
  | [] => []
  | v :: rest => v.writeAt level :: writeItems level rest

/-- The texts of the fields of an object. -/
def writeFields (level : Nat) : List (String × Json) → List String
  | [] => []
  | (k, v) :: rest => (jsonString k ++ ": " ++ v.writeAt level) :: writeFields level rest

end

/-- The text of a value. -/
def Json.write (v : Json) : String :=
  v.writeAt 0

end BlockScript
