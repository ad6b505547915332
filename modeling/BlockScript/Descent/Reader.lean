/-
  BlockScript — reading tokens from left to right.

  A reader takes tokens off the front of a list, and either gives a result or
  refuses.  A refusal keeps the tokens that were left when it happened, so
  that its place is known.

  * `Reader α`: a reader of an `α`;
  * `peek`: the next token, which stays; at the end of the list it is an end
    token;
  * `symbol`, `accept`: take a token that must, or may, come.
-/
import BlockScript.SyntaxError

namespace BlockScript.Descent

/-- A failure and the tokens that were left. -/
structure Refusal where
  error : ParseError
  rest : List Token

/-- A reader of an `α` from the front of a list of tokens. -/
abbrev Reader (α : Type) := StateT (List Token) (Except Refusal) α

/-- The next token. -/
def next : List Token → Token
  | [] => Token.eof ⟨0, 0⟩
  | t :: _ => t

/-- Look at the next token. -/
def peek : Reader Token := fun ts => .ok (next ts, ts)

/-- Take the next token. -/
def take : Reader Token := fun ts => .ok (next ts, ts.tail)

/-- Refuse. -/
def refuse {α : Type} (error : ParseError) : Reader α := fun ts => .error ⟨error, ts⟩

/-- Take the given symbol, which must come. -/
def symbol (text : String) : Reader Unit := fun ts =>
  let t := next ts
  if t.is .symbol text then .ok ((), ts.tail) else .error ⟨.expectedSymbol text t, ts⟩

/-- Take a token of the given kind and text if it comes. -/
def accept (kind : TokenKind) (text : String) : Reader Bool := fun ts =>
  if (next ts).is kind text then .ok (true, ts.tail) else .ok (false, ts)

/-- Take an operator if it is one of the given ones. -/
def acceptOperator (ops : List String) : Reader (Option String) := fun ts =>
  let t := next ts
  if t.kind = .operator && ops.contains t.text then .ok (some t.text, ts.tail) else .ok (none, ts)

/-- Read items until a token stops them.  The first argument bounds their
    number; each item takes a token, so the number of tokens is enough. -/
def manyUntil {α : Type} (stop : Token → Bool) (item : Reader α) : Nat → Reader (List α)
  | 0 => pure []
  | fuel + 1 => do
    if stop (← peek) then return []
    let first ← item
    let others ← manyUntil stop item fuel
    return first :: others

end BlockScript.Descent
