/-
  BlockScript — derivations as concrete trees.

  A derivation has a concrete tree, and so a parse tree, in which the operators
  of a level make one chain: a chain of the next looser level takes it as one
  operand.

  * `Expr.phrase`, `Stmt.clause`, `Stmts.clauses`: the concrete trees;
  * `growth_binary`, `items_binary`: a chain grows at its end;
  * `Expr.items_of_looser`: an expression is one operand of a looser chain.
-/
import BlockScript.Proofs.Grammar.Shape
import BlockScript.Pushdown.Phrase

namespace BlockScript.Grammar

open Pushdown

/-! ## Concrete trees -/

/-- The concrete tree of an atom. -/
def atomPhrase (t : Token) : Phrase :=
  match t.kind with
  | .number => .number t
  | .string => .string t
  | .identifier => .var t
  | _ => .boolean (t.text = "true")

/-- The concrete tree of an expression. -/
def Expr.phrase : {k : Nat} → Expr k → Phrase
  | _, .atom t _ => atomPhrase t
  | _, .unary op e => .unary op.1 e.phrase
  | _, .group _ e _ => .group e.phrase
  | _, .tighter e => e.phrase
  | _, .binary l op r => .binary op.1 l.phrase r.phrase

mutual

/-- The concrete tree of a statement. -/
def Stmt.clause : {b : Bool} → Stmt b → Clause
  | _, .expr e _ => .expr e.phrase
  | _, .assign x _ e _ => .assign x.1 e.phrase
  | _, .print _ e _ => .print e.phrase
  | _, .branch _ c body => .branch c.e.phrase body.clause
  | _, .branchElse _ c body _ other => .branchElse c.e.phrase body.clause other.clause
  | _, .loop _ c body => .loop c.e.phrase body.clause
  | _, .block _ body _ _ => .block body.clauses

/-- The concrete trees of statements in a row. -/
def Stmts.clauses : Stmts → List Clause
  | .nil => []
  | .cons s rest => s.clause :: rest.clauses

end

/-! ## Levels -/

/-- The operators of a level have one precedence. -/
theorem precedence?_of_mem {x : String} {k : Nat} (h : x ∈ levelOps k) :
    precedence? x = some (3 - k) ∧ k ≤ 3 := by
  rcases k with _ | _ | _ | _ | k
  all_goals simp only [levelOps, List.mem_cons, List.not_mem_nil, or_false] at h
  · rcases h with rfl | rfl | rfl <;> decide
  · rcases h with rfl | rfl <;> decide
  · rcases h with rfl | rfl | rfl | rfl <;> decide
  · rcases h with rfl | rfl <;> decide

theorem precedenceOf_eq {k : Nat} (op : Operator (levelOps k)) : precedenceOf op.1 = 3 - k := by
  rw [precedenceOf, (precedence?_of_mem op.2.2).1, Option.getD_some]

section Binary

variable {k : Nat} (l : Expr (k + 1)) (op : Operator (levelOps k)) (r : Expr k)

/-- A chain grows at its end. -/
theorem growth_binary : (Expr.binary l op r).phrase.growth = .chain (3 - k)
    (l.phrase.growth.items (3 - k) ++ [.leaf (.ofToken op.1), r.phrase.tree]) := by
  rw [Expr.phrase, Phrase.growth, precedenceOf_eq]
  rfl

theorem tree_binary : (Expr.binary l op r).phrase.tree = .node (chainName (3 - k))
    (l.phrase.growth.items (3 - k) ++ [.leaf (.ofToken op.1), r.phrase.tree]) := by
  rw [Phrase.tree, growth_binary]
  rfl

theorem items_binary : (Expr.binary l op r).phrase.growth.items (3 - k) =
    l.phrase.growth.items (3 - k) ++ [.leaf (.ofToken op.1), r.phrase.tree] := by
  rw [growth_binary, Growth.items, if_pos rfl]

theorem items_binary_of_ne {level : Nat} (h : 3 - k ≠ level) :
    (Expr.binary l op r).phrase.growth.items level = [(Expr.binary l op r).phrase.tree] := by
  rw [tree_binary, growth_binary, Growth.items, if_neg h]

end Binary

/-- An expression over `k` levels is one operand of a chain of a looser
    level. -/
theorem Expr.items_of_looser : {k : Nat} → (e : Expr k) → {level : Nat} → level < 4 - k →
    e.phrase.growth.items level = [e.phrase.tree]
  | _, .atom t h, _, _ => by
    rcases h with hk | hk | hk | ⟨hk, -⟩ <;>
      simp [Expr.phrase, atomPhrase, hk, Phrase.tree, Phrase.growth, Growth.items, Growth.tree]
  | _, .unary op e, _, _ => rfl
  | _, .group l e r, _, _ => rfl
  | _, .tighter e, _, h => e.items_of_looser (by omega)
  | k + 1, .binary l op r, level, h => items_binary_of_ne l op r (by omega)

end BlockScript.Grammar
