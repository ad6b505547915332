/-
  BlockScript — concrete syntax trees.

  A concrete tree keeps what the pushdown machine read, parentheses included.
  In its parse tree the parentheses are gone, and the operators of one
  precedence make one flat chain.

  * `Phrase`, `Clause`: concrete expressions and statements;
  * `Growth`: the parse tree of an expression while operators may come;
  * `Phrase.tree`, `Clause.tree`, `programTree`: parse trees.
-/
import BlockScript.Lark.Leaf

namespace BlockScript.Pushdown

open Lark

/-- How tightly a binary operator binds: equality, comparison, sums and
    products, from loose to tight. -/
def precedence? : String → Option Nat
  | "==" | "!=" => some 0
  | "<" | "<=" | ">" | ">=" => some 1
  | "+" | "-" => some 2
  | "*" | "/" | "%" => some 3
  | _ => none

/-- A concrete expression. -/
inductive Phrase where
  | number (token : Token)
  | string (token : Token)
  | boolean (b : Bool)
  | var (name : Token)
  | unary (op : Token) (operand : Phrase)
  | binary (op : Token) (left right : Phrase)
  /-- an expression in parentheses -/
  | group (inner : Phrase)

/-- A concrete statement. -/
inductive Clause where
  | expr (body : Phrase)
  | assign (name : Token) (value : Phrase)
  | print (body : Phrase)
  | branch (test : Phrase) (body : Clause)
  | branchElse (test : Phrase) (body other : Clause)
  | loop (test : Phrase) (body : Clause)
  | block (body : List Clause)

/-- The rule for the chains of a precedence. -/
def chainName : Nat → Nonterminal
  | 0 => .equality
  | 1 => .comparison
  | 2 => .term
  | _ => .factor

/-- The precedence of a token as a binary operator. -/
def precedenceOf (op : Token) : Nat :=
  (precedence? op.text).getD 0

/-- The parse tree of an expression, as long as it may still go on as a chain. -/
inductive Growth where
  | whole (tree : Tree)
  /-- the children of a chain of the given precedence -/
  | chain (level : Nat) (children : List Tree)

/-- The parse tree of what has grown so far. -/
def Growth.tree : Growth → Tree
  | .whole tree => tree
  | .chain level children => .node (chainName level) children

/-- What has grown so far as the beginning of a chain of the given precedence. -/
def Growth.items (level : Nat) : Growth → List Tree
  | .whole tree => [tree]
  | .chain level' children =>
    if level' = level then children else [.node (chainName level') children]

/-- The parse tree of an expression as it grows. -/
def Phrase.growth : Phrase → Growth
  | .number t => .whole (.node .number [.leaf (.ofToken t)])
  | .string t => .whole (.node .string [.leaf (.ofToken t)])
  | .boolean b => .whole (.node (if b then .trueLit else .falseLit) [])
  | .var x => .whole (.node .variable [.leaf (.ofToken x)])
  | .unary op e => .whole (.node .unary [.leaf (.ofToken op), e.growth.tree])
  | .binary op l r =>
    let level := precedenceOf op
    .chain level (l.growth.items level ++ [.leaf (.ofToken op), r.growth.tree])
  | .group e => .whole e.growth.tree

/-- The parse tree of an expression. -/
def Phrase.tree (e : Phrase) : Tree :=
  e.growth.tree

mutual

/-- The parse tree of a statement. -/
def Clause.tree : Clause → Tree
  | .expr e => .node .exprStmt [e.tree]
  | .assign x e => .node .assignStmt [.leaf (.ofToken x), e.tree]
  | .print e => .node .printStmt [e.tree]
  | .branch c t => .node .ifStmt [c.tree, t.tree]
  | .branchElse c t e => .node .ifStmt [c.tree, t.tree, e.tree]
  | .loop c b => .node .whileStmt [c.tree, b.tree]
  | .block ss => .node .blockStmt [.node .block (clauseTrees ss)]

/-- The parse trees of several statements. -/
def clauseTrees : List Clause → List Tree
  | [] => []
  | s :: rest => s.tree :: clauseTrees rest

end

/-- The parse tree of a program. -/
def programTree (clauses : List Clause) : Tree :=
  .node .program (clauseTrees clauses)

end BlockScript.Pushdown
