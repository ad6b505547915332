/-
  BlockScript — the grammar of programs, by its derivations.

  A derivation is a tree with the tokens of the program at its leaves.  Its
  type says what it derives, so that only derivations of the grammar can be
  written down:

  * `Expr k`: an expression whose binary operators outside parentheses belong
    to the `k` tightest levels.  The rule for a level is left recursive, so a
    level associates to the left; prefix operators stand in front of an
    operand, so they associate to the right;
  * `Stmt b`: a statement, where `b` says whether it ends with a branch that
    has no alternative.  Only a statement that does not may stand in front of
    an `else`, so that an `else` belongs to the nearest branch without one;
  * `Stmts`: statements in a row, in a block or as a program.

  A derivation has its tokens (`yield`), its program tree (`tree`), and the
  number of constructs that are open at once (`nesting`).
-/
import BlockScript.Node
import BlockScript.Number.Numeral
import BlockScript.Token

namespace BlockScript.Grammar

/-! ## Terminals -/

/-- A token of the given kind and text. -/
abbrev Terminal (kind : TokenKind) (text : String) : Type :=
  {t : Token // t.kind = kind ∧ t.text = text}

/-- The token is one of the given operators. -/
def IsOperator (ops : List String) (t : Token) : Prop :=
  t.kind = .operator ∧ t.text ∈ ops

/-- A token that is one of the given operators. -/
abbrev Operator (ops : List String) : Type :=
  {t : Token // IsOperator ops t}

/-- The operators in front of an operand. -/
def prefixOps : List String := ["!", "-"]

/-- The binary operators of each level, from tight to loose: products, sums,
    comparisons and equality.  There are no looser ones. -/
def levelOps : Nat → List String
  | 0 => ["*", "/", "%"]
  | 1 => ["+", "-"]
  | 2 => ["<", "<=", ">", ">="]
  | 3 => ["==", "!="]
  | _ => []

/-- The token is an operand by itself: a literal or a variable. -/
def IsAtomToken (t : Token) : Prop :=
  t.kind = .number ∨ t.kind = .string ∨ t.kind = .identifier ∨
    (t.kind = .keyword ∧ (t.text = "true" ∨ t.text = "false"))

/-! ## Derivations -/

/-- A derivation of an expression over the `k` tightest levels. -/
inductive Expr : Nat → Type where
  | atom (t : Token) (h : IsAtomToken t) : Expr 0
  | unary (op : Operator prefixOps) (e : Expr 0) : Expr 0
  | group (l : Terminal .symbol "(") (e : Expr 4) (r : Terminal .symbol ")") : Expr 0
  /-- an expression without operators of the loosest level -/
  | tighter {k : Nat} (e : Expr k) : Expr (k + 1)
  | binary {k : Nat} (l : Expr (k + 1)) (op : Operator (levelOps k)) (r : Expr k) : Expr (k + 1)

/-- The condition of a branch or a loop. -/
structure Test where
  l : Terminal .symbol "("
  e : Expr 4
  r : Terminal .symbol ")"

mutual

/-- A derivation of a statement; the index says whether it ends with a branch
    that has no alternative. -/
inductive Stmt : Bool → Type where
  | expr (e : Expr 4) (semi : Terminal .symbol ";") : Stmt false
  | assign (x : {t : Token // t.kind = .identifier}) (eq : Terminal .symbol "=") (e : Expr 4)
      (semi : Terminal .symbol ";") : Stmt false
  | print (word : Terminal .keyword "print") (e : Expr 4) (semi : Terminal .symbol ";") :
      Stmt false
  | branch {b : Bool} (word : Terminal .keyword "if") (c : Test) (body : Stmt b) : Stmt true
  | branchElse {b : Bool} (word : Terminal .keyword "if") (c : Test) (body : Stmt false)
      (alt : Terminal .keyword "else") (other : Stmt b) : Stmt b
  | loop {b : Bool} (word : Terminal .keyword "while") (c : Test) (body : Stmt b) : Stmt b
  /-- a block, with the `;` that may follow it -/
  | block (l : Terminal .symbol "\x7b") (body : Stmts) (r : Terminal .symbol "\x7d")
      (semi : Option (Terminal .symbol ";")) : Stmt false

/-- A derivation of statements in a row. -/
inductive Stmts : Type where
  | nil : Stmts
  | cons {b : Bool} (s : Stmt b) (rest : Stmts) : Stmts

end

/-! ## Tokens -/

/-- The tokens of an expression. -/
def Expr.yield : {k : Nat} → Expr k → List Token
  | _, .atom t _ => [t]
  | _, .unary op e => op.1 :: e.yield
  | _, .group l e r => l.1 :: (e.yield ++ [r.1])
  | _, .tighter e => e.yield
  | _, .binary l op r => l.yield ++ op.1 :: r.yield

/-- The tokens of a condition. -/
def Test.yield (c : Test) : List Token :=
  c.l.1 :: (c.e.yield ++ [c.r.1])

mutual

/-- The tokens of a statement. -/
def Stmt.yield : {b : Bool} → Stmt b → List Token
  | _, .expr e semi => e.yield ++ [semi.1]
  | _, .assign x eq e semi => x.1 :: eq.1 :: (e.yield ++ [semi.1])
  | _, .print word e semi => word.1 :: (e.yield ++ [semi.1])
  | _, .branch word c body => word.1 :: (c.yield ++ body.yield)
  | _, .branchElse word c body alt other =>
    word.1 :: (c.yield ++ (body.yield ++ alt.1 :: other.yield))
  | _, .loop word c body => word.1 :: (c.yield ++ body.yield)
  | _, .block l body r semi => l.1 :: (body.yield ++ r.1 :: (semi.map (·.1)).toList)

/-- The tokens of statements in a row. -/
def Stmts.yield : Stmts → List Token
  | .nil => []
  | .cons s rest => s.yield ++ rest.yield

end

/-! ## Program trees -/

/-- The texts of all numbers among the tokens write numbers. -/
def Readable (ts : List Token) : Prop :=
  ∀ t ∈ ts, t.kind = .number → (readNumber? t.text).isSome

/-- The program tree of an atom; a text that writes no number counts as
    zero. -/
def atomTree (t : Token) : Node :=
  match t.kind with
  | .number => .literal (.number ((readNumber? t.text).getD 0))
  | .string => .literal (.string t.text)
  | .identifier => .var t.text
  | _ => .literal (.boolean (t.text = "true"))

/-- The program tree of an expression. -/
def Expr.tree : {k : Nat} → Expr k → Node
  | _, .atom t _ => atomTree t
  | _, .unary op e => .unary op.1.text e.tree
  | _, .group _ e _ => e.tree
  | _, .tighter e => e.tree
  | _, .binary l op r => .binary op.1.text l.tree r.tree

mutual

/-- The program tree of a statement. -/
def Stmt.tree : {b : Bool} → Stmt b → Node
  | _, .expr e _ => .expr e.tree
  | _, .assign x _ e _ => .assign x.1.text e.tree
  | _, .print _ e _ => .print e.tree
  | _, .branch _ c body => .cond c.e.tree body.tree .absent
  | _, .branchElse _ c body _ other => .cond c.e.tree body.tree other.tree
  | _, .loop _ c body => .loop c.e.tree body.tree
  | _, .block _ body _ _ => .block body.trees

/-- The program trees of statements in a row. -/
def Stmts.trees : Stmts → List Node
  | .nil => []
  | .cons s rest => s.tree :: rest.trees

end

/-! ## Nesting -/

/-- The largest number of parentheses and prefix operators that enclose a
    place of an expression. -/
def Expr.nesting : {k : Nat} → Expr k → Nat
  | _, .atom _ _ => 0
  | _, .unary _ e => e.nesting + 1
  | _, .group _ e _ => e.nesting + 1
  | _, .tighter e => e.nesting
  | _, .binary l _ r => max l.nesting r.nesting

mutual

/-- The largest number of parentheses, prefix operators, branches, loops and
    blocks that enclose a place of a statement.  The parentheses of a
    condition do not count. -/
def Stmt.nesting : {b : Bool} → Stmt b → Nat
  | _, .expr e _ | _, .assign _ _ e _ | _, .print _ e _ => e.nesting
  | _, .branch _ c body => max c.e.nesting body.nesting + 1
  | _, .branchElse _ c body _ other =>
    max c.e.nesting (max body.nesting other.nesting) + 1
  | _, .loop _ c body => max c.e.nesting body.nesting + 1
  | _, .block _ body _ _ => body.nesting + 1

/-- The largest number of constructs that enclose a place of statements in a
    row. -/
def Stmts.nesting : Stmts → Nat
  | .nil => 0
  | .cons s rest => max s.nesting rest.nesting

end

end BlockScript.Grammar
