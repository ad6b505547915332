/-
  BlockScript — statements, by recursive descent.

  The first token of a statement chooses its form; a name is the start of an
  assignment if `=` comes after it.  Branches, loops and blocks nest, together
  with the parentheses and prefix operators inside them, at most
  `maxNesting` levels deep.  An `else` belongs to the nearest branch that has
  none, and a `;` after a block is part of it.

  * `statement n`: a statement with at most `n` levels of nesting;
  * `parseTokens ts`: the program that a list of tokens writes, with the place
    where reading stopped;
  * `parse s`: the program that a source text writes.
-/
import BlockScript.Descent.Expression

namespace BlockScript.Descent

/-- The number of levels that a program may nest. -/
def maxNesting : Nat := 48

/-- Whether a token opens a branch, a loop or a block. -/
def opensCompound (t : Token) : Bool :=
  t.is .keyword "if" || t.is .keyword "while" || t.is .symbol "\x7b"

/-- Whether a statement starts with an assignment's name. -/
def startsAssignment : List Token → Bool
  | s :: t :: _ => s.kind = .identifier && t.is .symbol "="
  | _ => false

/-- A statement that nests no other. -/
def simpleStatement (expression : Reader Node) : Reader Node := do
  if ← accept .keyword "print" then
    let e ← expression
    symbol ";"
    return .print e
  else if startsAssignment (← get) then
    let x ← take
    symbol "="
    let e ← expression
    symbol ";"
    return .assign x.text e
  else
    let e ← expression
    symbol ";"
    return .expr e

/-- The condition of a branch or a loop. -/
def condition (expression : Reader Node) : Reader Node := do
  symbol "("
  let c ← expression
  symbol ")"
  return c

/-- A branch after its keyword. -/
def branch (expression statement : Reader Node) : Reader Node := do
  let c ← condition expression
  let t ← statement
  if ← accept .keyword "else" then
    let e ← statement
    return .cond c t e
  else return .cond c t .absent

/-- A loop after its keyword. -/
def loop (expression statement : Reader Node) : Reader Node := do
  let c ← condition expression
  let b ← statement
  return .loop c b

/-- Whether a token ends the statements of a block. -/
def endsBlock (t : Token) : Bool :=
  t.is .symbol "\x7d" || t.isEnd

/-- A block after its opening brace, with the `;` that may follow it. -/
def block (statement : Reader Node) : Reader Node := do
  let ts ← get
  let body ← manyUntil endsBlock statement ts.length
  symbol "\x7d"
  let _ ← accept .symbol ";"
  return .block body

/-- A statement that nests others. -/
def compoundStatement (expression statement : Reader Node) : Reader Node := do
  if ← accept .keyword "if" then branch expression statement
  else if ← accept .keyword "while" then loop expression statement
  else
    symbol "\x7b"
    block statement

/-- A statement with at most `budget` levels of nesting. -/
def statement (budget : Nat) : Reader Node := do
  let t ← peek
  if opensCompound t then
    match budget with
    | 0 => refuse (.nestedTooDeeply t)
    | n + 1 => compoundStatement (expression n) (statement n)
  else simpleStatement (expression budget)

/-- The statements of a program, up to the end of the input. -/
def program : Reader (List Node) := do
  let ts ← get
  manyUntil Token.isEnd (statement maxNesting) ts.length

/-! ## Programs -/

/-- Tokens with an end token after them, if they have none there. -/
def withEnd (ts : List Token) : List Token :=
  if ts.getLast?.any Token.isEnd then ts else ts ++ [Token.eof ⟨0, 0⟩]

/-- The outcome of parsing a list of tokens. -/
structure Outcome where
  result : Except ParseError (List Node)
  /-- the number of tokens taken when reading stopped -/
  taken : Nat
  /-- the number of tokens given, with the end token -/
  count : Nat

/-- The program that a list of tokens writes. -/
def parseTokens (ts : List Token) : Outcome :=
  let ts := withEnd ts
  match program ts with
  | .ok (nodes, rest) => ⟨.ok nodes, ts.length - rest.length, ts.length⟩
  | .error r => ⟨.error r.error, ts.length - r.rest.length, ts.length⟩

/-- The program that a source text writes.  The whole text is cut into tokens
    before any of them is read. -/
def parse (source : String) : Except SourceError (List Node) :=
  match tokenize source with
  | .error e => .error (.lex e)
  | .ok ts => match (parseTokens ts).result with
    | .error e => .error (.parse e)
    | .ok nodes => .ok nodes

end BlockScript.Descent
