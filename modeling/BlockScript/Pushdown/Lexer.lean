/-
  BlockScript — the lexer of the pushdown machine.

  Where a regular expression of the grammar matches, it is taken, unless what
  it matches is a fixed text; elsewhere the longest fixed text is.

  * `fixedTexts`: the fixed texts of the grammar of programs;
  * `next`: the lexer.
-/
import BlockScript.Lark.Program

namespace BlockScript.Pushdown

open Lark

/-- The fixed texts of the grammar of programs. -/
def fixedTexts : List String :=
  ["if", "else", "while", "print", "true", "false", "==", "!=", "<", "<=", ">", ">=", "+", "-",
    "*", "/", "%", "!", "=", ";", "(", ")", "\x7b", "\x7d"]

/-- The longest of several texts. -/
def longest? : List (List Char) → Option (List Char)
  | [] => none
  | cs :: rest => match longest? rest with
    | some ds => some (if cs.length ≤ ds.length then ds else cs)
    | none => some cs

/-- The longest fixed text that the text `cs` starts with. -/
def fixedText? (cs : List Char) : Option (List Char) :=
  longest? ((fixedTexts.map String.toList).filter (·.isPrefixOf cs))

/-- The terminal that is matched at the start of the text `c :: rest`, and how
    many characters of `rest` it takes. -/
def next (c : Char) (rest : List Char) : Option (Terminal × Nat) :=
  match programGrammar.expression? c rest with
  | some (t, more) =>
    let word := String.ofList (c :: more)
    some (if fixedTexts.contains word then .fixed word else t, more.length)
  | none => (fixedText? (c :: rest)).map fun cs => (.fixed (String.ofList cs), cs.length - 1)

end BlockScript.Pushdown
