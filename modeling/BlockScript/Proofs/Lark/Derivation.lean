/-
  BlockScript — the rules derive every program.

  The derivations of the grammar of programs (`Stmts`) are indexed by the level
  of their operators and by the branches that may still take an `else`; the
  rules have repetitions and optional parts instead.  Each derivation is
  rewritten into one by the rules, with the same tokens and its parse tree.

  * `derives_marked`, `derives_node`, `derives_oneOf` and their like: parts of
    rules;
  * `Expr.derives`: expressions, whose chains grow at the end;
  * `Apart b rest`: what keeps an optional part out;
  * `Stmt.derives`, `Stmts.derives`, `Stmts.sentence`: statements and programs.
-/
import BlockScript.Proofs.Descent.Viable
import BlockScript.Proofs.Pushdown.Phrase

namespace BlockScript.Grammar

open Lark hiding Grammar Terminal
open Pushdown

/-- The tokens of the package for tokens of the scanner. -/
abbrev leavesOf (ts : List Token) : List Leaf :=
  ts.map Leaf.ofToken

theorem terminalOf_fixed {t : Token} {text : String}
    (hk : t.kind = .keyword ∨ t.kind = .operator ∨ t.kind = .symbol) (ht : t.text = text) :
    terminalOf t = .fixed text := by
  rcases hk with hk | hk | hk <;> simp [terminalOf, hk, ht]

theorem terminalOf_symbol {text : String} (t : Terminal .symbol text) :
    terminalOf t.1 = .fixed text :=
  terminalOf_fixed (Or.inr (Or.inr t.2.1)) t.2.2

theorem terminalOf_keyword {text : String} (t : Terminal .keyword text) :
    terminalOf t.1 = .fixed text :=
  terminalOf_fixed (Or.inl t.2.1) t.2.2

theorem terminalOf_operator {ops : List String} (op : Operator ops) :
    terminalOf op.1 = .fixed op.1.text :=
  terminalOf_fixed (Or.inr (Or.inl op.2.1)) rfl

/-! ## Rules for derivations -/

/-- The nonterminal of the expressions over `k` levels of operators. -/
def levelName : Nat → Nonterminal
  | 0 => .unary
  | 1 => .factor
  | 2 => .term
  | 3 => .comparison
  | _ => .equality

theorem programRule_level {k : Nat} (hk : k < 4) :
    programRule (levelName (k + 1)) = chainRule (levelName k) (levelOps k) := by
  rcases k with _ | _ | _ | _ | k
  · rfl
  · rfl
  · rfl
  · rfl
  · omega

theorem chainName_eq {k : Nat} (hk : k < 4) : chainName (3 - k) = levelName (k + 1) := by
  rcases k with _ | _ | _ | _ | k
  · rfl
  · rfl
  · rfl
  · rfl
  · omega

section Derives

variable {p : Part} {n : Nonterminal} {us mid vs : List Leaf} {cs ds : List Tree} {tree : Tree}

/-- The trees of a marked rule with one child. -/
theorem derives_marked (hm : (programRule n).marked = true)
    (h : Derives programGrammar (programRule n).body us vs [tree]) :
    Derives programGrammar (.rule n) us vs [tree] := by
  have htree : (programRule n).tree n [tree] = tree := by simp [Rule.tree, hm]
  have hr := Derives.rule (g := programGrammar) h
  rwa [show programGrammar.rule n = programRule n from rfl, htree] at hr

theorem derives_node (hm : (programRule n).marked = false)
    (h : Derives programGrammar (programRule n).body us vs cs) :
    Derives programGrammar (.rule n) us vs [.node n cs] := by
  have htree : (programRule n).tree n cs = .node n cs := by simp [Rule.tree, hm]
  have hr := Derives.rule (g := programGrammar) h
  rwa [show programGrammar.rule n = programRule n from rfl, htree] at hr

theorem derives_oneOf {ps : List Part} (hp : p ∈ ps) (h : Derives programGrammar p us vs cs) :
    Derives programGrammar (.oneOf ps) us vs cs := by
  induction ps with
  | nil => cases hp
  | cons q rest ih =>
    cases rest with
    | nil => rwa [← List.mem_singleton.1 hp]
    | cons q' rest =>
      rcases List.mem_cons.1 hp with rfl | hp
      · exact .first h
      · exact .second (ih hp)

theorem derives_named {t : Token} {terminal : Lark.Terminal} (h : terminalOf t = terminal)
    (rest : List Leaf) :
    Derives programGrammar (.named terminal) (Leaf.ofToken t :: rest) rest
      [.leaf (.ofToken t)] := by
  subst h
  exact Derives.named (t := Leaf.ofToken t)

theorem derives_quoted {t : Token} {text : String} (h : terminalOf t = .fixed text)
    (rest : List Leaf) :
    Derives programGrammar (.quoted text) (Leaf.ofToken t :: rest) rest [] :=
  .quoted h

theorem exists_of_derives_seq {q : Part} (h : Derives programGrammar (.seq p q) us vs cs) :
    ∃ mid ds es, Derives programGrammar p us mid ds ∧ Derives programGrammar q mid vs es ∧
      cs = ds ++ es := by
  cases h with
  | seq hp hq => exact ⟨_, _, _, hp, hq, rfl⟩

/-- A repetition and one more. -/
theorem derives_snoc (hmany : Derives programGrammar (.many p) us mid cs)
    (hp : Derives programGrammar p mid vs ds) :
    Derives programGrammar (.many p) us vs (cs ++ ds) := by
  generalize hq : Part.many p = q at hmany
  induction hmany with
  | done =>
    cases hq
    have h := Derives.more hp .done
    rwa [List.append_nil] at h
  | more hfirst _ _ ih =>
    cases hq
    rw [List.append_assoc]
    exact .more hfirst (ih hp rfl)
  | _ => cases hq

end Derives

theorem tree_append (r : Rule) (name : Nonterminal) (children : List Tree) (x y : Tree) :
    r.tree name (children ++ [x, y]) = .node name (children ++ [x, y]) := by
  rcases children with _ | ⟨c, _ | ⟨d, rest⟩⟩ <;> simp [Rule.tree]

/-- The tree of a chain of one operand is that of the operand. -/
theorem tree_of_items {k : Nat} (hk : k < 4) (d : Expr (k + 1)) :
    (programRule (levelName (k + 1))).tree (levelName (k + 1)) (d.phrase.growth.items (3 - k)) =
      d.phrase.tree := by
  rw [programRule_level hk]
  cases d with
  | tighter e =>
    rw [Expr.phrase, e.items_of_looser (by omega)]
    rfl
  | binary l op r =>
    rw [items_binary, tree_binary, chainName_eq hk]
    exact tree_append _ _ _ _ _

theorem derives_of_chain {k : Nat} (hk : k < 4) (d : Expr (k + 1)) {us vs : List Leaf}
    (h : Derives programGrammar (chainRule (levelName k) (levelOps k)).body us vs
      (d.phrase.growth.items (3 - k))) :
    Derives programGrammar (.rule (levelName (k + 1))) us vs [d.phrase.tree] := by
  rw [← programRule_level hk] at h
  rw [← tree_of_items hk d]
  exact .rule (g := programGrammar) h

/-- The operators of a level are one part of its rule. -/
theorem derives_operator {k : Nat} (op : Operator (levelOps k)) (rest : List Leaf) :
    Derives programGrammar (.oneOf ((levelOps k).map fun text => .named (.fixed text)))
      (Leaf.ofToken op.1 :: rest) rest [.leaf (.ofToken op.1)] :=
  derives_oneOf (List.mem_map.2 ⟨_, op.2.2, rfl⟩) (derives_named (terminalOf_operator op) rest)

/-- One of the literals, or a variable. -/
theorem derives_primary {n : Nonterminal} {us vs : List Leaf} {cs : List Tree}
    (hn : Part.rule n ∈ [Part.rule .number, .rule .string, .rule .trueLit, .rule .falseLit,
      .rule .variable]) (hm : (programRule n).marked = false)
    (h : Derives programGrammar (programRule n).body us vs cs) :
    Derives programGrammar (.rule .primary) us vs [.node n cs] := by
  have hmem : Part.rule n ∈ [Part.rule .number, .rule .string, .rule .trueLit, .rule .falseLit,
      .rule .variable] ++ [.all [.quoted "(", .rule .expression, .quoted ")"]] :=
    List.mem_append_left _ hn
  exact derives_marked rfl (derives_oneOf hmem (derives_node hm h))

theorem derives_atom {t : Token} (h : IsAtomToken t) (rest : List Leaf) :
    Derives programGrammar (.rule .primary) (Leaf.ofToken t :: rest) rest
      [(atomPhrase t).tree] := by
  rcases h with hk | hk | hk | ⟨hk, ht | ht⟩
  · have hd := derives_primary (n := .number) (by simp) rfl
      (derives_named (t := t) (by simp [terminalOf, hk]) rest)
    simpa [atomPhrase, hk, Phrase.tree, Phrase.growth, Growth.tree] using hd
  · have hd := derives_primary (n := .string) (by simp) rfl
      (derives_named (t := t) (by simp [terminalOf, hk]) rest)
    simpa [atomPhrase, hk, Phrase.tree, Phrase.growth, Growth.tree] using hd
  · have hd := derives_primary (n := .variable) (by simp) rfl
      (derives_named (t := t) (by simp [terminalOf, hk]) rest)
    simpa [atomPhrase, hk, Phrase.tree, Phrase.growth, Growth.tree] using hd
  · have hd := derives_primary (n := .trueLit) (by simp) rfl
      (derives_quoted (t := t) (by simp [terminalOf, hk, ht]) rest)
    simpa [atomPhrase, hk, ht, Phrase.tree, Phrase.growth, Growth.tree] using hd
  · have hd := derives_primary (n := .falseLit) (by simp) rfl
      (derives_quoted (t := t) (by simp [terminalOf, hk, ht]) rest)
    simpa [atomPhrase, hk, ht, Phrase.tree, Phrase.growth, Growth.tree] using hd

/-- **The rules derive every expression**, and over at least one level its
    chain. -/
theorem Expr.derives : {k : Nat} → (d : Expr k) → k ≤ 4 →
    (∀ rest, Derives programGrammar (.rule (levelName k)) (leavesOf (d.yield ++ rest))
      (leavesOf rest) [d.phrase.tree]) ∧
    ∀ j, k = j + 1 → ∀ rest, Derives programGrammar (chainRule (levelName j) (levelOps j)).body
      (leavesOf (d.yield ++ rest)) (leavesOf rest) (d.phrase.growth.items (3 - j))
  | _, .atom t h, _ => by
    refine ⟨fun rest => ?_, fun j hj => by cases hj⟩
    exact derives_marked (n := .unary) rfl (.second (derives_atom h (leavesOf rest)))
  | _, .unary op e, hk => by
    refine ⟨fun rest => ?_, fun j hj => by cases hj⟩
    have he := (e.derives hk).1 rest
    have hop : Derives programGrammar (.oneOf (prefixOps.map fun text => .named (.fixed text)))
        (Leaf.ofToken op.1 :: leavesOf (e.yield ++ rest)) (leavesOf (e.yield ++ rest))
        [.leaf (.ofToken op.1)] :=
      derives_oneOf (List.mem_map.2 ⟨_, op.2.2, rfl⟩) (derives_named (terminalOf_operator op) _)
    have htree : (programRule .unary).tree .unary [.leaf (.ofToken op.1), e.phrase.tree] =
        (Expr.unary op e).phrase.tree := rfl
    rw [← htree]
    exact .rule (g := programGrammar) (.first (.seq hop he))
  | _, .group l e r, hk => by
    refine ⟨fun rest => ?_, fun j hj => by cases hj⟩
    have he := (e.derives (Nat.le_refl 4)).1 (r.1 :: rest)
    have hgroup : Derives programGrammar
        (.all [.quoted "(", .rule .expression, .quoted ")"])
        (Leaf.ofToken l.1 :: leavesOf (e.yield ++ r.1 :: rest)) (leavesOf rest)
        [e.phrase.tree] := by
      have hexpr := derives_marked (n := .expression) rfl he
      exact .seq (derives_quoted (terminalOf_symbol l) _)
        (.seq hexpr (derives_quoted (terminalOf_symbol r) _))
    have hprimary := derives_marked (n := .primary) rfl (derives_oneOf (by simp) hgroup)
    rw [Expr.yield, List.cons_append, List.append_assoc]
    exact derives_marked (n := .unary) rfl (.second hprimary)
  | k + 1, .tighter e, hk => by
    have hchain : ∀ rest, Derives programGrammar (chainRule (levelName k) (levelOps k)).body
        (leavesOf (e.yield ++ rest)) (leavesOf rest)
        ((Expr.tighter e).phrase.growth.items (3 - k)) := by
      intro rest
      rw [Expr.phrase, e.items_of_looser (by omega)]
      exact .seq ((e.derives (by omega)).1 rest) .done
    refine ⟨fun rest => derives_of_chain hk _ (hchain rest), fun j hj => ?_⟩
    cases hj
    exact hchain
  | k + 1, .binary l op r, hk => by
    have hchain : ∀ rest, Derives programGrammar (chainRule (levelName k) (levelOps k)).body
        (leavesOf ((Expr.binary l op r).yield ++ rest)) (leavesOf rest)
        ((Expr.binary l op r).phrase.growth.items (3 - k)) := by
      intro rest
      obtain ⟨mid, ds, es, hoperand, hmany, hitems⟩ :=
        exists_of_derives_seq ((l.derives hk).2 k rfl (op.1 :: (r.yield ++ rest)))
      have hlink : Derives programGrammar (.seq
          (.oneOf ((levelOps k).map fun text => .named (.fixed text))) (.rule (levelName k)))
          (leavesOf (op.1 :: (r.yield ++ rest))) (leavesOf rest)
          [.leaf (.ofToken op.1), r.phrase.tree] :=
        .seq (derives_operator op _) ((r.derives (by omega)).1 rest)
      have hall := Derives.seq hoperand (derives_snoc hmany hlink)
      rw [← List.append_assoc, ← hitems] at hall
      rw [items_binary, Expr.yield, List.append_assoc, List.cons_append]
      exact hall
    refine ⟨fun rest => derives_of_chain hk _ (hchain rest), fun j hj => ?_⟩
    cases hj
    exact hchain

theorem Expr.derives_expression (e : Expr 4) (rest : List Token) :
    Derives programGrammar (.rule .expression) (leavesOf (e.yield ++ rest)) (leavesOf rest)
      [e.phrase.tree] :=
  derives_marked (n := .expression) rfl ((e.derives (Nat.le_refl 4)).1 rest)

/-- No rule for a statement goes on behind one with the first token of the rest:
    it is no `;`, and no `else` if the statement ends with a branch that may
    take one. -/
def Apart (b : Bool) (rest : List Token) : Prop :=
  ∀ t ∈ rest.head?, terminalOf t ≠ .fixed ";" ∧ (b = true → terminalOf t ≠ .fixed "else")

theorem apart_nil (b : Bool) : Apart b [] :=
  fun _ h => by cases h

theorem Apart.weaken {b : Bool} {rest : List Token} (h : Apart true rest) : Apart b rest :=
  fun t ht => ⟨(h t ht).1, fun _ => (h t ht).2 rfl⟩

theorem apart_else {alt : Terminal .keyword "else"} {rest : List Token} :
    Apart false (alt.1 :: rest) := by
  intro t ht
  cases ht
  simp [terminalOf_keyword]

theorem apart_close {r : Terminal .symbol "\x7d"} {rest : List Token} :
    Apart true (r.1 :: rest) := by
  intro t ht
  cases ht
  simp [terminalOf_symbol]

theorem StartsStmt.apart {b : Bool} {t : Token} {rest : List Token} (h : StartsStmt t) :
    Apart b (t :: rest) := by
  intro s hs
  cases hs
  simp only [StartsStmt, StartsExpr, IsAtomToken, IsOperator, prefixOps] at h
  simp only [terminalOf]
  grind

/-- A statement stands apart from the next one, or from what comes after them. -/
theorem Apart.after_stmts {b : Bool} {after : List Token} (h : Apart true after) (rest : Stmts) :
    Apart b (rest.yield ++ after) := by
  cases rest with
  | nil => exact h.weaken
  | cons s rest =>
    obtain ⟨t, ts, hs, ht⟩ := s.yield_eq_cons
    rw [Stmts.yield, hs]
    exact ht.apart

theorem derives_skip {text : String} {p : Part} {rest : List Token}
    (h : ∀ t ∈ rest.head?, terminalOf t ≠ .fixed text) :
    Derives programGrammar (.optional text p) (leavesOf rest) (leavesOf rest) [] := by
  refine .skip fun t ht => ?_
  rw [List.head?_map, Option.map_eq_some_iff] at ht
  obtain ⟨u, hu, rfl⟩ := ht
  exact h u hu

/-- One of the rules for statements. -/
theorem derives_statement {n : Nonterminal} {us vs : List Leaf} {cs : List Tree}
    (hn : Part.rule n ∈ [Part.rule .ifStmt, .rule .whileStmt, .rule .printStmt,
      .rule .assignStmt, .rule .blockStmt, .rule .exprStmt]) (hm : (programRule n).marked = false)
    (h : Derives programGrammar (programRule n).body us vs cs) :
    Derives programGrammar (.rule .statement) us vs [.node n cs] :=
  derives_marked (n := .statement) rfl (derives_oneOf hn (derives_node hm h))

/-- A condition with a statement after it. -/
theorem Test.derives (c : Test) {p : Part} {rest : List Token} {vs : List Leaf} {cs : List Tree}
    (h : Derives programGrammar p (leavesOf rest) vs cs) :
    Derives programGrammar (.seq (.quoted "(") (.seq (.rule .expression) (.seq (.quoted ")") p)))
      (leavesOf (c.yield ++ rest)) vs (c.e.phrase.tree :: cs) := by
  rw [Test.yield, List.cons_append, List.append_assoc]
  exact .seq (derives_quoted (terminalOf_symbol c.l) _) (.seq (c.e.derives_expression _)
    (.seq (derives_quoted (terminalOf_symbol c.r) _) h))

mutual

/-- **The rules derive every statement** that stands apart from the rest. -/
theorem Stmt.derives : {b : Bool} → (d : Stmt b) → (rest : List Token) → Apart b rest →
    Derives programGrammar (.rule .statement) (leavesOf (d.yield ++ rest)) (leavesOf rest)
      [d.clause.tree]
  | _, .expr e semi, rest, _ => by
    rw [Stmt.yield, List.append_assoc]
    exact derives_statement (n := .exprStmt) (by simp) rfl
      (.seq (e.derives_expression _) (derives_quoted (terminalOf_symbol semi) _))
  | _, .assign x eq e semi, rest, _ => by
    rw [Stmt.yield, List.cons_append, List.cons_append, List.append_assoc]
    exact derives_statement (n := .assignStmt) (by simp) rfl
      (.seq (derives_named (by simp [terminalOf, x.2]) _)
        (.seq (derives_quoted (terminalOf_symbol eq) _) (.seq (e.derives_expression _)
          (derives_quoted (terminalOf_symbol semi) _))))
  | _, .print word e semi, rest, _ => by
    rw [Stmt.yield, List.cons_append, List.append_assoc]
    exact derives_statement (n := .printStmt) (by simp) rfl
      (.seq (derives_quoted (terminalOf_keyword word) _) (.seq (e.derives_expression _)
        (derives_quoted (terminalOf_symbol semi) _)))
  | _, .branch word c body, rest, h => by
    have hskip : Derives programGrammar (.optional "else" (.rule .statement)) (leavesOf rest)
        (leavesOf rest) [] :=
      derives_skip fun t ht => (h t ht).2 rfl
    have hbody := body.derives rest h.weaken
    rw [Stmt.yield, List.cons_append, List.append_assoc]
    exact derives_statement (n := .ifStmt) (by simp) rfl
      (.seq (derives_quoted (terminalOf_keyword word) _) (c.derives (.seq hbody hskip)))
  | _, .branchElse word c body alt other, rest, h => by
    have hother := other.derives rest h
    have hbody := body.derives (alt.1 :: (other.yield ++ rest)) apart_else
    have htake : Derives programGrammar (.optional "else" (.rule .statement))
        (leavesOf (alt.1 :: (other.yield ++ rest))) (leavesOf rest) [other.clause.tree] :=
      .take (terminalOf_keyword alt) hother
    rw [Stmt.yield, List.cons_append, List.append_assoc, List.append_assoc, List.cons_append]
    exact derives_statement (n := .ifStmt) (by simp) rfl
      (.seq (derives_quoted (terminalOf_keyword word) _) (c.derives (.seq hbody htake)))
  | _, .loop word c body, rest, h => by
    have hbody := body.derives rest h
    rw [Stmt.yield, List.cons_append, List.append_assoc]
    exact derives_statement (n := .whileStmt) (by simp) rfl
      (.seq (derives_quoted (terminalOf_keyword word) _) (c.derives hbody))
  | _, .block l body r semi, rest, h => by
    have hblock : ∀ after : List Token, Derives programGrammar (.rule .block)
        (leavesOf (l.1 :: (body.yield ++ r.1 :: after))) (leavesOf after)
        [.node .block (clauseTrees body.clauses)] := by
      intro after
      have hbody := body.derives (r.1 :: after) apart_close
      have hall := Derives.seq (derives_quoted (terminalOf_symbol l) _)
        (.seq hbody (derives_quoted (terminalOf_symbol r) _))
      rw [List.append_nil, List.nil_append] at hall
      exact derives_node rfl hall
    rw [Stmt.yield, List.cons_append, List.append_assoc, List.cons_append]
    cases semi with
    | none =>
      exact derives_statement (n := .blockStmt) (by simp) rfl
        (.seq (hblock rest) (derives_skip fun t ht => (h t ht).1))
    | some semi =>
      exact derives_statement (n := .blockStmt) (by simp) rfl
        (.seq (hblock (semi.1 :: rest)) (.take (terminalOf_symbol semi) .empty))

/-- **The rules derive statements in a row.** -/
theorem Stmts.derives : (d : Stmts) → (rest : List Token) → Apart true rest →
    Derives programGrammar (.many (.rule .statement)) (leavesOf (d.yield ++ rest)) (leavesOf rest)
      (clauseTrees d.clauses)
  | .nil, _, _ => .done
  | .cons s d, rest, h => by
    rw [Stmts.yield, List.append_assoc]
    exact .more (s.derives _ (h.after_stmts d)) (d.derives rest h)

end

/-- The rules derive every program. -/
theorem Stmts.sentence (d : Stmts) :
    programGrammar.Sentence (leavesOf d.yield) (programTree d.clauses) := by
  have h := d.derives [] (apart_nil true)
  rw [List.append_nil] at h
  exact derives_marked (n := .start) rfl (derives_node (n := .program) rfl h)

end BlockScript.Grammar
