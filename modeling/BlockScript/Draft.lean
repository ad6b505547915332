/-
  BlockScript — drafts of program trees.

  A document may put any JSON value in the place of a name, of an operator, or
  of the text of a literal.  A tree as a document gives it, a draft, keeps
  these values.  The trees of programs are the drafts in which each of them is
  a string of characters.

  * `DraftValue`, `Draft`: values and trees with such data;
  * `Value.draft`, `Node.draft`: values and trees of programs as drafts;
  * `DraftValue.value?`, `Draft.node?`: back from those drafts that are.
-/
import BlockScript.Json
import BlockScript.Node

namespace BlockScript

/-- A value with any data for a text. -/
inductive DraftValue where
  | number (x : Float)
  | boolean (b : Bool)
  | string (content : Raw)
  | null

/-- A tree with any data for names, operators and texts. -/
inductive Draft where
  | literal (value : DraftValue)
  | var (name : Raw)
  | unary (op : Raw) (operand : Draft)
  | binary (op : Raw) (left right : Draft)
  | expr (body : Draft)
  | assign (name : Raw) (value : Draft)
  | print (body : Draft)
  | cond (test body other : Draft)
  | loop (test body : Draft)
  | block (body : List Draft)
  /-- no tree at all -/
  | absent

/-- The name of the topmost construct. -/
def Draft.kind : Draft → String
  | .literal _ => "Literal"
  | .var _ => "Variable"
  | .unary _ _ => "UnaryOp"
  | .binary _ _ _ => "BinaryOp"
  | .expr _ => "ExprStmt"
  | .assign _ _ => "Assign"
  | .print _ => "PrintStmt"
  | .cond _ _ _ => "IfStmt"
  | .loop _ _ => "WhileStmt"
  | .block _ => "Block"
  | .absent => "NoneType"

/-- Whether there is no tree. -/
def Draft.isAbsent : Draft → Bool
  | .absent => true
  | _ => false

/-! ## Programs as drafts -/

/-- A value as a draft. -/
def Value.draft : Value → DraftValue
  | .number x => .number x
  | .boolean b => .boolean b
  | .string s => .string (.str (.of s))
  | .null => .null

mutual

/-- A tree as a draft. -/
def Node.draft : Node → Draft
  | .literal v => .literal v.draft
  | .var x => .var (.str (.of x))
  | .unary op e => .unary (.str (.of op)) e.draft
  | .binary op l r => .binary (.str (.of op)) l.draft r.draft
  | .expr e => .expr e.draft
  | .assign x e => .assign (.str (.of x)) e.draft
  | .print e => .print e.draft
  | .cond c t e => .cond c.draft t.draft e.draft
  | .loop c b => .loop c.draft b.draft
  | .block ss => .block (drafts ss)
  | .absent => .absent

/-- Trees as drafts. -/
def drafts : List Node → List Draft
  | [] => []
  | s :: rest => s.draft :: drafts rest

end

/-- The value that a draft is. -/
def DraftValue.value? : DraftValue → Option Value
  | .number x => some (.number x)
  | .boolean b => some (.boolean b)
  | .string content => content.word?.map .string
  | .null => some .null

mutual

/-- The tree that a draft is. -/
def Draft.node? : Draft → Option Node
  | .literal v => v.value?.map .literal
  | .var x => x.word?.map .var
  | .unary op e => do return .unary (← op.word?) (← e.node?)
  | .binary op l r => do return .binary (← op.word?) (← l.node?) (← r.node?)
  | .expr e => e.node?.map .expr
  | .assign x e => do return .assign (← x.word?) (← e.node?)
  | .print e => e.node?.map .print
  | .cond c t e => do return .cond (← c.node?) (← t.node?) (← e.node?)
  | .loop c b => do return .loop (← c.node?) (← b.node?)
  | .block ss => (nodes? ss).map .block
  | .absent => some .absent

/-- The trees that drafts are. -/
def nodes? : List Draft → Option (List Node)
  | [] => some []
  | s :: rest => do return (← s.node?) :: (← nodes? rest)

end

end BlockScript
