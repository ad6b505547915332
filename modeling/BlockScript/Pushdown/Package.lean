/-
  BlockScript — parsing with the pushdown machine.

  The lexer, the machine and a walk with a bound on its depth make a package
  that follows the grammar of programs, so it can be put in the place of
  another one.

  * `parseTree`: the parse tree of a source text;
  * `visit`: a walk of a tree with a bound on its depth;
  * `package`: the package;
  * `parse s`: the program that a source text writes.
-/
import BlockScript.Pushdown.Lexer
import BlockScript.Pushdown.Machine

namespace BlockScript.Pushdown

open Lark

/-- The parse tree of a source text. -/
def parseTree (source : String) : Except Failure Tree :=
  let lexing := lexFrom programGrammar programCallbacks next 0 .start source.toList
  match State.start.run (lexing.leaves.map Leaf.token) with
  | .error t => .error (.unexpectedLeaf (.ofToken t))
  | .ok s => match lexing.stop with
    | .unmatched c p offset => .error (.unexpectedCharacters c p offset)
    | .raised e => .error (.raised e)
    | .finished => match s.finish? with
      | some clauses => .ok (programTree clauses)
      | none => .error .unexpectedEnd

mutual

/-- What a tree becomes, if it has at most so many levels of nodes. -/
def visit (methods : Methods) (levels : Nat) : Tree → Except WalkError Item
  | .leaf t => .ok (.leaf t)
  | .node n children =>
    if levels = 0 then .error .recursion
    else do
      let items ← visitAll methods (levels - 1) children
      (methods n items).mapError .visit

/-- What several trees become. -/
def visitAll (methods : Methods) (levels : Nat) : List Tree → Except WalkError (List Item)
  | [] => .ok []
  | t :: rest => do
    let item ← visit methods levels t
    let items ← visitAll methods levels rest
    return item :: items

end

/-- The number of levels that the trees of this package may have. -/
def maxDepth : Nat := 490

/-- The package of the pushdown machine. -/
def package : Package := ⟨next, parseTree, fun methods => visit methods maxDepth⟩

/-- The program that a source text writes.  Parsing with this package gives
    nothing else than programs and failures of the source text. -/
def parse (source : String) : Except SourceError (List Node) :=
  match parseWith package source with
  | .ok (.program nodes) => .ok nodes
  | .error (.source e) => .error e
  | _ => .error (.parse .treeTooDeep)

end BlockScript.Pushdown
