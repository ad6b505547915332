/-
  BlockScript — the two ways of parsing a source text.

  * `Strategy.parse`: the program that a source text writes.
-/
import BlockScript.Descent.Statement
import BlockScript.Pushdown.Package

namespace BlockScript

/-- A way of parsing. -/
inductive Strategy where
  /-- recursive descent with a bound on nesting -/
  | descent
  /-- a pushdown machine -/
  | pushdown
  deriving DecidableEq

/-- The name of a way of parsing on the command line. -/
def Strategy.name : Strategy → String
  | .descent => "recursive"
  | .pushdown => "lark"

/-- The way of parsing with the given name. -/
def Strategy.ofName? (name : String) : Option Strategy :=
  [Strategy.descent, .pushdown].find? fun s => s.name = name

/-- The program that a source text writes. -/
def Strategy.parse : Strategy → String → Except SourceError (List Node)
  | .descent => Descent.parse
  | .pushdown => Pushdown.parse

end BlockScript
