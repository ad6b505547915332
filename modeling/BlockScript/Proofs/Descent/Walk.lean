/-
  BlockScript — recursive descent in place.

  The readers take tokens off the front of a list.  The same parser can be
  written with the whole list of tokens at hand: a cursor holds the index of the
  next token and the number of constructs that are open, and each look at a
  token goes to an index.  This makes visible what the readers hide: where the
  parser looks, whether it ever looks behind the last token, how the number of
  open constructs goes up and down, and whether its loops end.

  * `Cursor`: where the parser is, with all looks that it has taken;
  * `Walk α`: a walk over the tokens that gives an `α`.  It may halt, refusing
    or because it looked outside the tokens, and it may be given up;
  * `level`, `statement`, `program`: the parser.  Their first argument bounds
    how deep functions call each other, a turn of a loop included.  A walk that
    never ends is given up whatever the bound is.
-/
import BlockScript.Descent.Statement
import BlockScript.Proofs.Grammar

namespace BlockScript

namespace Walk

/-! ## Cursors -/

/-- A look at a token, from an index on so many tokens ahead. -/
structure Look where
  pos : Nat
  ahead : Nat

/-- The index of the token that is looked at. -/
def Look.index (l : Look) : Nat :=
  l.pos + l.ahead

/-- Where a parser is. -/
structure Cursor where
  /-- the index of the next token -/
  pos : Nat
  /-- the number of open constructs -/
  nesting : Int
  /-- all looks so far, the latest one first -/
  looks : List Look

/-- The cursor of a parser that has not started yet. -/
def Cursor.start : Cursor := ⟨0, 0, []⟩

/-- A look from the cursor. -/
def Cursor.look (c : Cursor) (ahead : Nat) : Cursor :=
  { c with looks := ⟨c.pos, ahead⟩ :: c.looks }

/-- Why a walk halts without a result. -/
inductive Halt where
  | refused (error : ParseError)
  /-- there is no token where it looked -/
  | outside

end Walk

/-- A walk over tokens.  It is nothing if it is given up. -/
abbrev Walk (α : Type) := ExceptT Walk.Halt (StateT Walk.Cursor Option) α

namespace Walk

open Grammar (levelOps)
open Descent (maxNesting unaryOps)

/-! ## Single tokens -/

section

variable (ts : List Token)

/-- Look at the next token. -/
def peek : Walk Token := fun c =>
  some (match ts[c.pos]? with
    | some t => .ok t
    | none => .error .outside, c.look 0)

/-- Look at the token after the next one; if there is none, at the last
    token. -/
def peekNext : Walk Token := fun c =>
  some (match ts[c.pos + 1]?.or ts.getLast? with
    | some t => .ok t
    | none => .error .outside, c.look 1)

/-- Refuse. -/
def refuse {α : Type} (error : ParseError) : Walk α := fun c =>
  some (.error (.refused error), c)

/-- Give up, as the bound is used up. -/
def giveUp {α : Type} : Walk α := fun _ => none

/-- Whether the next token is an end token. -/
def atEnd : Walk Bool := do
  let t ← peek ts
  return t.isEnd

/-- Take the next token.  An end token is not passed. -/
def advance : Walk Token := do
  let t ← peek ts
  if ← atEnd ts then return t
  else
    modify fun c => { c with pos := c.pos + 1 }
    return t

/-- Whether the next token has the kind and one of the texts, or any text if
    none is given. -/
def check (kind : TokenKind) (texts : List String) : Walk Bool := do
  let t ← peek ts
  return t.kind = kind && (texts.isEmpty || texts.contains t.text)

/-- Take the next token if it has the kind and one of the texts. -/
def accept (kind : TokenKind) (texts : List String) : Walk Bool := do
  if ← check ts kind texts then
    let _ ← advance ts
    return true
  else return false

/-- Take the given symbol, which must come. -/
def consume (text : String) : Walk Unit := do
  if ← check ts .symbol [text] then
    let _ ← advance ts
    return ()
  else
    let t ← peek ts
    refuse (.expectedSymbol text t)

/-! ## Nesting -/

/-- Open a construct. -/
def descend (t : Token) : Walk Unit := fun c =>
  some (if maxNesting < c.nesting + 1 then .error (.refused (.nestedTooDeeply t)) else .ok (),
    { c with nesting := c.nesting + 1 })

/-- Close a construct. -/
def ascend : Walk Unit := fun c =>
  some (.ok (), { c with nesting := c.nesting - 1 })

/-! ## Expressions -/

mutual

/-- An expression over the `k` tightest levels of operators. -/
def level : Nat → Nat → Walk Node
  | 0, _ => giveUp
  | n + 1, 0 => unary n
  | n + 1, k + 1 => do
    let left ← level n k
    chain n k left

/-- Join `left` with the operands that follow it on the level. -/
def chain : Nat → Nat → Node → Walk Node
  | 0, _, _ => giveUp
  | n + 1, k, left => do
    if ← check ts .operator (levelOps k) then
      let op ← advance ts
      let right ← level n k
      chain n k (.binary op.text left right)
    else return left

/-- An operand of the tightest level. -/
def unary : Nat → Walk Node
  | 0 => giveUp
  | n + 1 => do
    if ← check ts .operator unaryOps then
      let op ← advance ts
      descend op
      let e ← unary n
      ascend
      return .unary op.text e
    else primary n

/-- A literal, a variable or an expression in parentheses. -/
def primary : Nat → Walk Node
  | 0 => giveUp
  | n + 1 => do
    let t ← peek ts
    if t.kind = .number then
      let _ ← advance ts
      match readNumber? t.text with
      | some x => return .literal (.number x)
      | none => refuse (.malformedNumber t)
    else if t.kind = .string then
      let _ ← advance ts
      return .literal (.string t.text)
    else if ← accept ts .keyword ["true", "false"] then
      return .literal (.boolean (t.text = "true"))
    else if t.kind = .identifier then
      let _ ← advance ts
      return .var t.text
    else if ← accept ts .symbol ["("] then
      descend t
      let e ← level n 4
      consume ts ")"
      ascend
      return e
    else refuse (.expectedExpression t)

end

/-! ## Statements -/

/-- Whether a branch, a loop or a block comes. -/
def opensCompound : Walk Bool := do
  if ← check ts .keyword ["if", "while"] then return true
  else check ts .symbol ["\x7b"]

/-- Whether an assignment comes.  Only after a name it matters what follows. -/
def startsAssignment : Walk Bool := do
  if ← check ts .identifier [] then
    let t ← peekNext ts
    return t.is .symbol "="
  else return false

/-- Whether the statements of a block are over. -/
def endsBlock : Walk Bool := do
  if ← check ts .symbol ["\x7d"] then return true
  else atEnd ts

/-- A statement that nests no other. -/
def simpleStatement (n : Nat) : Walk Node := do
  if ← accept ts .keyword ["print"] then
    let e ← level ts n 4
    consume ts ";"
    return .print e
  else if ← startsAssignment ts then
    let x ← advance ts
    consume ts "="
    let e ← level ts n 4
    consume ts ";"
    return .assign x.text e
  else
    let e ← level ts n 4
    consume ts ";"
    return .expr e

/-- The condition of a branch or a loop. -/
def condition (n : Nat) : Walk Node := do
  consume ts "("
  let c ← level ts n 4
  consume ts ")"
  return c

mutual

/-- A statement. -/
def statement : Nat → Walk Node
  | 0 => giveUp
  | n + 1 => do
    let t ← peek ts
    if ← opensCompound ts then
      descend t
      let s ← compoundStatement n
      ascend
      return s
    else simpleStatement ts n

/-- A statement that nests others. -/
def compoundStatement : Nat → Walk Node
  | 0 => giveUp
  | n + 1 => do
    if ← accept ts .keyword ["if"] then
      let c ← condition ts n
      let t ← statement n
      if ← accept ts .keyword ["else"] then
        let e ← statement n
        return .cond c t e
      else return .cond c t .absent
    else if ← accept ts .keyword ["while"] then
      let c ← condition ts n
      let b ← statement n
      return .loop c b
    else
      consume ts "\x7b"
      let body ← blockBody n
      consume ts "\x7d"
      let _ ← accept ts .symbol [";"]
      return .block body

/-- The statements of a block. -/
def blockBody : Nat → Walk (List Node)
  | 0 => giveUp
  | n + 1 => do
    if ← endsBlock ts then return []
    else
      let first ← statement n
      let others ← blockBody n
      return first :: others

end

/-- The statements of a program. -/
def program : Nat → Walk (List Node)
  | 0 => giveUp
  | n + 1 => do
    if ← atEnd ts then return []
    else
      let first ← statement ts n
      let others ← program n
      return first :: others

end

end Walk

end BlockScript
