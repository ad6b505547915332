/-
  BlockScript — the value of an expression.

  Both operands of an operator are evaluated, the left one first, before the
  operator is applied; the first failure is the failure of the expression.

  * `eval env e`: the value of `e`, or the cause of failure.
-/
import BlockScript.Env
import BlockScript.Node
import BlockScript.Operator

namespace BlockScript

/-- The value of an expression in an environment. -/
def eval (env : Env) : Node → Except Fault Value
  | .literal v => .ok v
  | .var x => match env.get? x with
    | some v => .ok v
    | none => .error (.undefinedVariable x)
  | .unary op e => do
    let v ← eval env e
    applyUnary op v
  | .binary op l r => do
    let a ← eval env l
    let b ← eval env r
    applyBinary op a b
  | node => .error (.notExpression node.kind)

end BlockScript
