/-
  BlockScript — program trees.

  A program is a list of statements.  Statements and expressions share one
  type, because a saved tree may hold either of them, or nothing, in any
  place; running such a tree fails where the wrong sort is met.

  * `Node`: a tree;
  * `Node.kind`: the name of its topmost construct.
-/
import BlockScript.Value

namespace BlockScript

/-- A program tree. -/
inductive Node where
  | literal (value : Value)
  | var (name : String)
  | unary (op : String) (operand : Node)
  | binary (op : String) (left right : Node)
  /-- an expression evaluated for its faults only -/
  | expr (body : Node)
  | assign (name : String) (value : Node)
  | print (body : Node)
  /-- a branch; without an alternative `other` is `absent` -/
  | cond (test body other : Node)
  | loop (test body : Node)
  | block (body : List Node)
  /-- no tree at all -/
  | absent

/-- The name of the topmost construct. -/
def Node.kind : Node → String
  | .literal _ => "Literal"
  | .var _ => "Variable"
  | .unary _ _ => "UnaryOp"
  | .binary _ _ _ => "BinaryOp"
  | .expr _ => "ExprStmt"
  | .assign _ _ => "Assign"
  | .print _ => "PrintStmt"
  | .cond _ _ _ => "IfStmt"
  | .loop _ _ => "WhileStmt"
  | .block _ => "Block"
  | .absent => "NoneType"

end BlockScript
