/-
  BlockScript — expressions, by recursive descent.

  There are four levels of binary operators, from loose to tight: equality,
  comparison, sums and products.  Each level reads operands of the next
  tighter one and joins them from left to right.  The operands of the tightest
  level are prefix operators and atoms.

  Parentheses and prefix operators nest at most as deep as a budget allows,
  and the recursion runs on that budget: `operand n` reads an operand with `n`
  more levels of nesting.

  * `chain ops operand`: operands joined by operators of one level;
  * `expression n`: an expression with at most `n` levels of nesting.
-/
import BlockScript.Descent.Reader
import BlockScript.Node
import BlockScript.Number.Numeral

namespace BlockScript.Descent

/-- Operators of the loosest level. -/
def equalityOps : List String := ["==", "!="]

/-- Operators that compare. -/
def comparisonOps : List String := ["<", "<=", ">", ">="]

/-- Operators of sums. -/
def termOps : List String := ["+", "-"]

/-- Operators of products. -/
def factorOps : List String := ["*", "/", "%"]

/-- Operators in front of an operand. -/
def unaryOps : List String := ["!", "-"]

/-- Join `left` with the operands that follow it.  The first argument bounds
    their number; each takes a token, so the number of tokens is enough. -/
def chainFrom (ops : List String) (operand : Reader Node) : Nat → Node → Reader Node
  | 0, left => pure left
  | fuel + 1, left => do
    match ← acceptOperator ops with
    | none => return left
    | some op =>
      let right ← operand
      chainFrom ops operand fuel (.binary op left right)

/-- Operands joined from left to right by operators of one level. -/
def chain (ops : List String) (operand : Reader Node) : Reader Node := do
  let left ← operand
  let rest ← get
  chainFrom ops operand rest.length left

/-- An expression over the given operands of its tightest level. -/
def expressionOver (operand : Reader Node) : Reader Node :=
  chain equalityOps (chain comparisonOps (chain termOps (chain factorOps operand)))

/-- A literal or a variable. -/
def atom : Reader Node := do
  let t ← peek
  match t.kind with
  | .number =>
    let t ← take
    match readNumber? t.text with
    | some x => return .literal (.number x)
    | none => refuse (.malformedNumber t)
  | .string =>
    let t ← take
    return .literal (.string t.text)
  | .identifier =>
    let t ← take
    return .var t.text
  | .keyword =>
    if t.text = "true" || t.text = "false" then
      let t ← take
      return .literal (.boolean (t.text = "true"))
    else refuse (.expectedExpression t)
  | _ => refuse (.expectedExpression t)

/-- An operand of the tightest level, with `budget` levels of nesting left. -/
def operand (budget : Nat) : Reader Node := do
  let t ← peek
  if t.kind = .operator && unaryOps.contains t.text then
    let t ← take
    match budget with
    | 0 => refuse (.nestedTooDeeply t)
    | n + 1 =>
      let e ← operand n
      return .unary t.text e
  else if t.is .symbol "(" then
    let t ← take
    match budget with
    | 0 => refuse (.nestedTooDeeply t)
    | n + 1 =>
      let e ← expressionOver (operand n)
      symbol ")"
      return e
  else atom

/-- An expression with at most `budget` levels of nesting. -/
def expression (budget : Nat) : Reader Node :=
  expressionOver (operand budget)

end BlockScript.Descent
