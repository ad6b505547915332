/-
  BlockScript — what the walker makes of a parse tree.

  Numbers are read when the tree is walked, from left to right and each node
  after its children.  So the first number of the text that cannot be read is
  the one that is reported, and the program is that of the derivation
  otherwise, unless the stack is exhausted.

  * `unreadable? ts`: the first number that cannot be read;
  * `Walked r item ts`: the walk of a tree over these tokens comes to the item;
  * `walked_node`: one step, from the children to the node;
  * `foldChain_append`: a chain is folded from the left;
  * `Expr.walked`, `Stmt.walked`, `walked_program`: the trees of derivations.
-/
import BlockScript.Lark.Program
import BlockScript.Proofs.Pushdown.Phrase

namespace BlockScript.Grammar

open Lark hiding Grammar Terminal
open Pushdown

/-! ## Unreadable numbers -/

/-- Whether a token is a number that cannot be read. -/
def isUnreadable (t : Token) : Bool :=
  t.kind = .number && (readNumber? t.text).isNone

/-- The first number that cannot be read. -/
def unreadable? (ts : List Token) : Option Token :=
  ts.find? isUnreadable

theorem unreadable?_eq_none {ts : List Token} : unreadable? ts = none ↔ Readable ts := by
  simp only [unreadable?, List.find?_eq_none, isUnreadable, Readable, Bool.and_eq_true,
    decide_eq_true_eq, not_and, Option.isNone_iff_eq_none, Option.isSome_iff_ne_none, ne_eq]

theorem unreadable?_append (ts us : List Token) :
    unreadable? (ts ++ us) = (unreadable? ts).or (unreadable? us) :=
  List.find?_append

theorem unreadable?_cons {t : Token} (h : t.kind ≠ .number) (ts : List Token) :
    unreadable? (t :: ts) = unreadable? ts := by
  simp [unreadable?, isUnreadable, h]

theorem unreadable?_concat {t : Token} (h : t.kind ≠ .number) (ts : List Token) :
    unreadable? (ts ++ [t]) = unreadable? ts := by
  rw [unreadable?_append, unreadable?_cons h]
  exact Option.or_none

/-! ## Walks -/

/-- The stack has been exhausted. -/
def Exhausted {α : Type} (r : Except WalkError α) : Prop :=
  r = .error .recursion ∨ r = .error (.visit .recursion)

/-- What reading the tokens comes to: a failure at the first number that cannot
    be read, or else the result. -/
def reading {α : Type} (ts : List Token) (a : α) : Except WalkError α :=
  match unreadable? ts with
  | some t => .error (.visit (.source (.parse (.malformedNumber t))))
  | none => .ok a

/-- A walk over these tokens comes to the result, unless the stack is
    exhausted. -/
def Walked {α : Type} (r : Except WalkError α) (a : α) (ts : List Token) : Prop :=
  Exhausted r ∨ r = reading ts a

theorem Walked.congr {α : Type} {r : Except WalkError α} {a : α} {ts us : List Token}
    (h : Walked r a ts) (htokens : unreadable? us = unreadable? ts) : Walked r a us := by
  unfold Walked reading at *
  rwa [htokens]

theorem walked_nil {α : Type} (a : α) : Walked (.ok a) a [] :=
  Or.inr rfl

theorem Exhausted.bind {α β : Type} {r : Except WalkError α} (h : Exhausted r)
    (f : α → Except WalkError β) : Exhausted (r >>= f) := by
  rcases h with rfl | rfl
  · exact Or.inl rfl
  · exact Or.inr rfl

/-- One walk after the other. -/
theorem Walked.bind {α β : Type} {r : Except WalkError α} {a : α} {ts us : List Token}
    {f : α → Except WalkError β} {b : β} (h : Walked r a ts) (hf : Walked (f a) b us) :
    Walked (r >>= f) b (ts ++ us) := by
  rcases h with h | rfl
  · exact Or.inl (h.bind f)
  · unfold Walked reading at *
    rw [unreadable?_append]
    cases unreadable? ts with
    | some t => exact Or.inr rfl
    | none => exact hf

theorem walked_all_nil (f : Tree → Except WalkError Item) :
    Walked (([] : List Tree).mapM f) [] [] :=
  walked_nil []

theorem walked_all_cons {f : Tree → Except WalkError Item} {tree : Tree} {trees : List Tree}
    {item : Item} {items : List Item} {ts us : List Token} (h : Walked (f tree) item ts)
    (hrest : Walked (trees.mapM f) items us) :
    Walked ((tree :: trees).mapM f) (item :: items) (ts ++ us) := by
  rw [List.mapM_cons]
  refine h.bind ?_
  have hpure : Walked (.ok (item :: items)) (item :: items) [] := walked_nil _
  have hall := hrest.bind (f := fun items => .ok (item :: items)) hpure
  rwa [List.append_nil] at hall

theorem walked_all_append {f : Tree → Except WalkError Item} {xs ys : List Tree}
    {items items' : List Item} {ts us : List Token} (h : Walked (xs.mapM f) items ts)
    (hrest : Walked (ys.mapM f) items' us) :
    Walked ((xs ++ ys).mapM f) (items ++ items') (ts ++ us) := by
  rw [List.mapM_append]
  refine h.bind ?_
  have hpure : Walked (.ok (items ++ items')) (items ++ items') [] := walked_nil _
  have hall := hrest.bind (f := fun items' => .ok (items ++ items')) hpure
  rwa [List.append_nil] at hall

theorem walked_one {f : Tree → Except WalkError Item} {tree : Tree} {item : Item}
    {ts : List Token} (h : Walked (f tree) item ts) : Walked ([tree].mapM f) [item] ts := by
  have hall := walked_all_cons h (walked_all_nil f)
  rwa [List.append_nil] at hall

/-! ## Chains -/

theorem programMethods_chain (level : Nat) (left : Node) (rest : List Item) :
    programMethods (chainName level) (.node left :: rest) = made (foldChain left rest) := by
  rcases level with _ | _ | _ | level <;> rfl

theorem foldChain_append {left tree : Node} {items : List Item} (op : Leaf) (right : Node)
    (h : foldChain left items = some tree) :
    foldChain left (items ++ [.leaf op, .node right]) = some (.binary op.text tree right) := by
  induction left, items using foldChain.induct with
  | case1 left =>
    cases h
    rfl
  | case2 left op' right' rest ih => exact ih h
  | case3 items left hnil hcons =>
    rw [foldChain] at h
    · cases h
    · exact hnil
    · exact hcons

/-- The trees of statements, one after the other, are nodes. -/
theorem mapM_node? (nodes : List Node) : (nodes.map Item.node).mapM Item.node? = some nodes := by
  induction nodes with
  | nil => rfl
  | cons n nodes ih =>
    rw [List.map_cons, List.mapM_cons, ih]
    rfl

section Package

variable {P : Package} (hP : P.Follows programGrammar programCallbacks)

include hP

theorem walked_leaf (l : Leaf) : Walked (P.walk programMethods (.leaf l)) (.leaf l) [] := by
  rw [hP.walk_leaf]
  exact walked_nil _

/-- A node is visited after its children. -/
theorem walked_visit {n : Nonterminal} {trees : List Tree} {items : List Item} {ts : List Token}
    (h : Walked (trees.mapM (P.walk programMethods)) items ts) {item : Item} {us : List Token}
    (hmethod : Walked ((programMethods n items).mapError .visit) item us) :
    Walked (P.walk programMethods (.node n trees)) item (ts ++ us) := by
  rcases hP.walk_node programMethods n trees with hn | hn | hn
  · exact Or.inl (Or.inl hn)
  · exact Or.inl (Or.inr hn)
  · rw [hn]
    exact h.bind hmethod

theorem walked_node {n : Nonterminal} {trees : List Tree} {items : List Item} {ts : List Token}
    (h : Walked (trees.mapM (P.walk programMethods)) items ts) {item : Item}
    (hmethod : programMethods n items = .ok item) :
    Walked (P.walk programMethods (.node n trees)) item ts := by
  have hitem : Walked ((programMethods n items).mapError .visit) item [] := by
    rw [hmethod]
    exact walked_nil item
  have hvisit := walked_visit hP h hitem
  rwa [List.append_nil] at hvisit

/-- A number is read when its node is visited. -/
theorem walked_number {t : Token} (hk : t.kind = .number) :
    Walked (P.walk programMethods (.node .number [.leaf (.ofToken t)])) (.node (atomTree t))
      [t] := by
  refine walked_visit hP (walked_one (walked_leaf hP _)) (Or.inr ?_)
  rw [programMethods_number hk]
  simp only [reading, unreadable?, List.find?_cons, List.find?_nil, isUnreadable, hk, decide_true,
    Bool.true_and, atomTree]
  cases readNumber? t.text <;> rfl

theorem walked_atom {t : Token} (h : IsAtomToken t) :
    Walked (P.walk programMethods (atomPhrase t).tree) (.node (atomTree t)) [t] := by
  have hother : ∀ {n : Nonterminal} {trees : List Tree} {items : List Item}, t.kind ≠ .number →
      (atomPhrase t).tree = .node n trees →
      Walked (trees.mapM (P.walk programMethods)) items [] →
      programMethods n items = .ok (.node (atomTree t)) →
      Walked (P.walk programMethods (atomPhrase t).tree) (.node (atomTree t)) [t] := by
    intro n trees items hk htree hitems hmethod
    rw [htree]
    exact (walked_node hP hitems hmethod).congr (unreadable?_cons hk [])
  have hleaf := walked_one (walked_leaf hP (.ofToken t))
  rcases h with hk | hk | hk | ⟨hk, ht⟩
  · rw [atomPhrase, hk]
    exact walked_number hP hk
  · have htext : unquoted t.lexeme = t.text := by
      simp [Token.lexeme, hk, unquoted_quoted]
    refine hother (n := .string) (by simp [hk]) (by rw [atomPhrase, hk]; rfl) hleaf ?_
    simp [programMethods, Leaf.ofToken, htext, atomTree, hk]
  · refine hother (n := .variable) (by simp [hk]) (by rw [atomPhrase, hk]; rfl) hleaf ?_
    simp [programMethods, Leaf.ofToken, Token.lexeme, atomTree, hk]
  · have hnil := walked_all_nil (P.walk programMethods)
    rcases ht with ht | ht
    · refine hother (n := .trueLit) (by simp [hk]) ?_ hnil ?_
      · simp [atomPhrase, hk, ht, Phrase.tree, Phrase.growth, Growth.tree]
      · simp [programMethods, atomTree, hk, ht]
    · refine hother (n := .falseLit) (by simp [hk]) ?_ hnil ?_
      · simp [atomPhrase, hk, ht, Phrase.tree, Phrase.growth, Growth.tree]
      · simp [programMethods, atomTree, hk, ht]

/-- **The walk of an expression's tree**, and that of its chain. -/
theorem Expr.walked : {k : Nat} → (e : Expr k) →
    Walked (P.walk programMethods e.phrase.tree) (.node e.tree) e.yield ∧
      ∀ level, ∃ left rest, foldChain left rest = some e.tree ∧
        Walked ((e.phrase.growth.items level).mapM (P.walk programMethods)) (.node left :: rest)
          e.yield
  | _, .atom t h => by
    have hwhole := walked_atom hP h
    refine ⟨hwhole, fun level => ⟨atomTree t, [], rfl, ?_⟩⟩
    have hitems : (atomPhrase t).growth.items level = [(atomPhrase t).tree] := by
      rcases h with hk | hk | hk | ⟨hk, -⟩ <;> rw [atomPhrase, hk] <;> rfl
    rw [Expr.phrase, hitems]
    exact walked_one hwhole
  | _, .unary op e => by
    have hall := walked_all_cons (walked_leaf hP (.ofToken op.1)) (walked_one e.walked.1)
    have hwhole : Walked (P.walk programMethods (Expr.unary op e).phrase.tree)
        (.node (Expr.unary op e).tree) (Expr.unary op e).yield := by
      have hlexeme : op.1.lexeme = op.1.text := by simp [Token.lexeme, op.2.1]
      refine (walked_node hP (n := .unary) hall ?_).congr (unreadable?_cons (by simp [op.2.1]) _)
      simp only [programMethods, Leaf.ofToken, hlexeme, Expr.tree]
    exact ⟨hwhole, fun level => ⟨_, [], rfl, walked_one hwhole⟩⟩
  | _, .group l e r => by
    have hnumbers : unreadable? (Expr.group l e r).yield = unreadable? e.yield := by
      rw [Expr.yield, unreadable?_cons (by simp [l.2.1]), unreadable?_concat (by simp [r.2.1])]
    have hwhole : Walked (P.walk programMethods (Expr.group l e r).phrase.tree)
        (.node (Expr.group l e r).tree) (Expr.group l e r).yield :=
      e.walked.1.congr hnumbers
    exact ⟨hwhole, fun level => ⟨_, [], rfl, walked_one hwhole⟩⟩
  | _, .tighter e => e.walked
  | k + 1, .binary l op r => by
    have hnumbers : unreadable? (Expr.binary l op r).yield = unreadable? (l.yield ++ r.yield) := by
      rw [Expr.yield, unreadable?_append, unreadable?_cons (by simp [op.2.1]), unreadable?_append]
    have hlexeme : op.1.lexeme = op.1.text := by simp [Token.lexeme, op.2.1]
    obtain ⟨left, rest, hfold, hl⟩ := l.walked.2 (3 - k)
    have hlink := walked_all_cons (walked_leaf hP (.ofToken op.1)) (walked_one r.walked.1)
    have hall := (walked_all_append hl hlink).congr hnumbers
    have hfold' := foldChain_append (.ofToken op.1) r.tree hfold
    rw [show (Leaf.ofToken op.1).text = op.1.text from hlexeme] at hfold'
    rw [List.cons_append] at hall
    have hwhole : Walked (P.walk programMethods (Expr.binary l op r).phrase.tree)
        (.node (Expr.binary l op r).tree) (Expr.binary l op r).yield := by
      rw [tree_binary]
      refine walked_node hP hall ?_
      rw [programMethods_chain, hfold']
      rfl
    refine ⟨hwhole, fun level => ?_⟩
    by_cases hlevel : 3 - k = level
    · subst hlevel
      refine ⟨left, _, hfold', ?_⟩
      rw [items_binary]
      exact hall
    · refine ⟨_, [], rfl, ?_⟩
      rw [items_binary_of_ne l op r hlevel]
      exact walked_one hwhole

theorem Test.walked (c : Test) :
    Walked (P.walk programMethods c.e.phrase.tree) (.node c.e.tree) c.yield := by
  refine (c.e.walked hP).1.congr ?_
  rw [Test.yield, unreadable?_cons (by simp [c.l.2.1]), unreadable?_concat (by simp [c.r.2.1])]

end Package

mutual

/-- **The walk of a statement's tree.** -/
theorem Stmt.walked {P : Package} (hP : P.Follows programGrammar programCallbacks) :
    {b : Bool} → (s : Stmt b) →
      Walked (P.walk programMethods s.clause.tree) (.node s.tree) s.yield
  | _, .expr e semi => by
    refine (walked_node hP (n := .exprStmt) (walked_one (e.walked hP).1) rfl).congr ?_
    exact unreadable?_concat (by simp [semi.2.1]) _
  | _, .assign x eq e semi => by
    have hlexeme : x.1.lexeme = x.1.text := by simp [Token.lexeme, x.2]
    have hall := walked_all_cons (walked_leaf hP (.ofToken x.1)) (walked_one (e.walked hP).1)
    refine (walked_node hP (n := .assignStmt) hall ?_).congr ?_
    · simp only [programMethods, Leaf.ofToken, hlexeme, Stmt.tree]
    · rw [Stmt.yield, unreadable?_cons (by simp [x.2]), unreadable?_cons (by simp [eq.2.1]),
        unreadable?_concat (by simp [semi.2.1]), List.nil_append]
  | _, .print word e semi => by
    refine (walked_node hP (n := .printStmt) (walked_one (e.walked hP).1) rfl).congr ?_
    rw [Stmt.yield, unreadable?_cons (by simp [word.2.1]), unreadable?_concat (by simp [semi.2.1])]
  | _, .branch word c body => by
    have hall := walked_all_cons (c.walked hP) (walked_one (body.walked hP))
    refine (walked_node hP (n := .ifStmt) hall rfl).congr ?_
    rw [Stmt.yield, unreadable?_cons (by simp [word.2.1])]
  | _, .branchElse word c body alt other => by
    have hall := walked_all_cons (c.walked hP) (walked_all_cons (body.walked hP)
      (walked_one (other.walked hP)))
    refine (walked_node hP (n := .ifStmt) hall rfl).congr ?_
    rw [Stmt.yield, unreadable?_cons (by simp [word.2.1]), unreadable?_append, unreadable?_append,
      unreadable?_append, unreadable?_append, unreadable?_cons (by simp [alt.2.1])]
  | _, .loop word c body => by
    have hall := walked_all_cons (c.walked hP) (walked_one (body.walked hP))
    refine (walked_node hP (n := .whileStmt) hall rfl).congr ?_
    rw [Stmt.yield, unreadable?_cons (by simp [word.2.1])]
  | _, .block l body r semi => by
    have hblock : Walked (P.walk programMethods (.node .block (clauseTrees body.clauses)))
        (.node (.block body.trees)) body.yield :=
      walked_node hP (body.walked hP) (by rw [programMethods, mapM_node?]; rfl)
    refine (walked_node hP (n := .blockStmt) (walked_one hblock) rfl).congr ?_
    have hsemi : unreadable? (r.1 :: (semi.map (·.1)).toList) = none := by
      rw [unreadable?_cons (by simp [r.2.1])]
      cases semi with
      | none => rfl
      | some semi => exact unreadable?_cons (by simp [semi.2.1]) []
    rw [Stmt.yield, unreadable?_cons (by simp [l.2.1]), unreadable?_append, hsemi, Option.or_none]

theorem Stmts.walked {P : Package} (hP : P.Follows programGrammar programCallbacks) :
    (d : Stmts) → Walked ((clauseTrees d.clauses).mapM (P.walk programMethods))
      (d.trees.map Item.node) d.yield
  | .nil => walked_all_nil _
  | .cons s rest => walked_all_cons (s.walked hP) (rest.walked hP)

end

/-- **The walk of a program's tree** comes to the program, or to the first
    number that cannot be read. -/
theorem walked_program {P : Package} (hP : P.Follows programGrammar programCallbacks)
    (d : Stmts) :
    Walked (P.walk programMethods (programTree d.clauses)) (.program d.trees) d.yield :=
  walked_node hP (n := .program) (d.walked hP) (by rw [programMethods, mapM_node?])

end BlockScript.Grammar
