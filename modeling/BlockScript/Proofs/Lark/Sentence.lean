/-
  BlockScript — the rules derive nothing but programs.

  What the rules derive is read off them: a meaning is given to every
  nonterminal, and the meaning of a rule's body has to be that of its
  nonterminal.  The induction over the rules is made once, for any meaning.

  * `Leaf.regular_token`: the scanner's token for a token of the package is
    regular;
  * `Reads M p`: what a part of a rule takes and gives, where the nonterminals
    mean `M`; `reads_of_derives` is the induction;
  * `Meaning`: expressions and statements as derivations of the grammar of
    programs, with one lemma for each kind of rule;
  * `sentence_iff`, `viable_iff`: the tokens of whole programs, and those that
    begin one.
-/
import BlockScript.Proofs.Lark.Derivation
import BlockScript.Proofs.Pushdown.Viable

namespace BlockScript.Lark

/-! ## Regular tokens -/

theorem fixedKind_cases (text : String) :
    fixedKind text = .keyword ∨ fixedKind text = .operator ∨ fixedKind text = .symbol := by
  unfold fixedKind
  split
  · exact Or.inl rfl
  · split
    · exact Or.inr (Or.inl rfl)
    · exact Or.inr (Or.inr rfl)

/-- Only the kind of a fixed text has to follow from it. -/
theorem regular_of_kind {t : Token}
    (h : t.kind = .keyword ∨ t.kind = .operator ∨ t.kind = .symbol → t.kind = fixedKind t.text) :
    Regular t := by
  obtain ⟨kind, text, pos⟩ := t
  have hfixed : kind = fixedKind text →
      (⟨fixedKind text, text, pos⟩ : Token) = ⟨kind, text, pos⟩ := fun hk => by rw [← hk]
  cases kind with
  | keyword => exact hfixed (h (by simp))
  | operator => exact hfixed (h (by simp))
  | symbol => exact hfixed (h (by simp))
  | string => simp [Regular, Leaf.ofToken, Leaf.token, terminalOf, Token.lexeme, unquoted_quoted]
  | _ => rfl

theorem Leaf.regular_token (l : Leaf) : Regular l.token := by
  obtain ⟨terminal, text, pos⟩ := l
  apply regular_of_kind
  cases terminal with
  | fixed text => exact fun _ => rfl
  | _ => simp [Leaf.token]

theorem Leaf.terminal_token (l : Leaf) : terminalOf l.token = l.terminal := by
  obtain ⟨terminal, text, pos⟩ := l
  cases terminal with
  | fixed text =>
    rcases fixedKind_cases text with h | h | h <;> simp [Leaf.token, terminalOf, h]
  | _ => simp [Leaf.token, terminalOf]

/-- A regular token of a fixed text has its kind. -/
theorem Regular.kind_eq {t : Token} (h : Regular t) {text : String}
    (ht : terminalOf t = .fixed text) : t.kind = fixedKind text ∧ t.text = text := by
  rw [Regular, Leaf.token, show (Leaf.ofToken t).terminal = .fixed text from ht] at h
  rw [← h]
  exact ⟨rfl, rfl⟩

/-- The terminals that have a name of their own have a kind of their own. -/
theorem kind_of_terminalOf (t : Token) :
    (terminalOf t = .name → t.kind = .identifier) ∧ (terminalOf t = .number → t.kind = .number) ∧
      (terminalOf t = .string → t.kind = .string) := by
  obtain ⟨kind, text, pos⟩ := t
  cases kind <;> simp [terminalOf]

end BlockScript.Lark

namespace BlockScript.Grammar

open Lark hiding Grammar Terminal
open Pushdown

/-! ## Reading rules -/

/-- Something any number of times. -/
inductive Repeats (R : List Token → List Token → List Tree → Prop) :
    List Token → List Token → List Tree → Prop where
  | done {ts : List Token} : Repeats R ts ts []
  | more {ts mid rest : List Token} {cs ds : List Tree} (h : R ts mid cs)
      (hmore : Repeats R mid rest ds) : Repeats R ts rest (cs ++ ds)

/-- What a part of a rule takes from the tokens and gives, where the
    nonterminals mean `M`. -/
def Reads (M : Nonterminal → List Token → List Token → List Tree → Prop) :
    Part → List Token → List Token → List Tree → Prop
  | .empty, ts, rest, cs => ts = rest ∧ cs = []
  | .rule n, ts, rest, cs => M n ts rest cs
  | .named terminal, ts, rest, cs =>
    ∃ t, Regular t ∧ terminalOf t = terminal ∧ ts = t :: rest ∧ cs = [.leaf (.ofToken t)]
  | .quoted text, ts, rest, cs =>
    ∃ t, Regular t ∧ terminalOf t = .fixed text ∧ ts = t :: rest ∧ cs = []
  | .seq p q, ts, rest, cs =>
    ∃ mid ds es, Reads M p ts mid ds ∧ Reads M q mid rest es ∧ cs = ds ++ es
  | .either p q, ts, rest, cs => Reads M p ts rest cs ∨ Reads M q ts rest cs
  | .many p, ts, rest, cs => Repeats (Reads M p) ts rest cs
  | .optional opening p, ts, rest, cs =>
    (ts = rest ∧ cs = [] ∧ ∀ t ∈ rest.head?, terminalOf t ≠ .fixed opening) ∨
      ∃ t ts', Regular t ∧ terminalOf t = .fixed opening ∧ ts = t :: ts' ∧ Reads M p ts' rest cs

/-- All tokens are regular. -/
def AllRegular (ts : List Token) : Prop :=
  ∀ t ∈ ts, Regular t

/-- Tokens of the package for regular ones, where there is a first one. -/
theorem cons_of_leavesOf {l : Leaf} {us : List Leaf} {ts : List Token} (h : l :: us = leavesOf ts)
    (hts : AllRegular ts) : ∃ t rest, ts = t :: rest ∧ l = .ofToken t ∧ us = leavesOf rest ∧
      Regular t ∧ AllRegular rest := by
  cases ts with
  | nil => cases h
  | cons t rest =>
    obtain ⟨hl, hus⟩ := List.cons.inj h
    obtain ⟨ht, hrest⟩ := List.forall_mem_cons.1 hts
    exact ⟨t, rest, rfl, hl, hus, ht, hrest⟩

/-- **The induction over the rules**: where the meaning of every rule's body is
    that of its nonterminal, what the rules derive means so. -/
theorem reads_of_derives {M : Nonterminal → List Token → List Token → List Tree → Prop}
    (hM : ∀ n ts rest cs, Reads M (programRule n).body ts rest cs →
      M n ts rest [(programRule n).tree n cs])
    {p : Part} {us vs : List Leaf} {cs : List Tree} (h : Derives programGrammar p us vs cs) :
    ∀ {ts}, us = leavesOf ts → AllRegular ts →
      ∃ rest, vs = leavesOf rest ∧ AllRegular rest ∧ Reads M p ts rest cs := by
  induction h with
  | empty => exact fun hu hts => ⟨_, hu, hts, rfl, rfl⟩
  | @rule n us vs cs h ih =>
    intro ts hu hts
    obtain ⟨rest, hv, hrest, hreads⟩ := ih hu hts
    exact ⟨rest, hv, hrest, hM n ts rest cs hreads⟩
  | named =>
    intro ts hu hts
    obtain ⟨t, rest, rfl, rfl, hv, ht, hrest⟩ := cons_of_leavesOf hu hts
    exact ⟨rest, hv, hrest, t, ht, rfl, rfl, rfl⟩
  | quoted h =>
    intro ts hu hts
    obtain ⟨t, rest, rfl, rfl, hv, ht, hrest⟩ := cons_of_leavesOf hu hts
    exact ⟨rest, hv, hrest, t, ht, h, rfl, rfl⟩
  | seq _ _ ihp ihq =>
    intro ts hu hts
    obtain ⟨mid, hmid, hmids, hp⟩ := ihp hu hts
    obtain ⟨rest, hv, hrest, hq⟩ := ihq hmid hmids
    exact ⟨rest, hv, hrest, mid, _, _, hp, hq, rfl⟩
  | first _ ih =>
    intro ts hu hts
    obtain ⟨rest, hv, hrest, hp⟩ := ih hu hts
    exact ⟨rest, hv, hrest, Or.inl hp⟩
  | second _ ih =>
    intro ts hu hts
    obtain ⟨rest, hv, hrest, hq⟩ := ih hu hts
    exact ⟨rest, hv, hrest, Or.inr hq⟩
  | done => exact fun hu hts => ⟨_, hu, hts, .done⟩
  | more _ _ ihp ihq =>
    intro ts hu hts
    obtain ⟨mid, hmid, hmids, hp⟩ := ihp hu hts
    obtain ⟨rest, hv, hrest, hq⟩ := ihq hmid hmids
    exact ⟨rest, hv, hrest, .more hp hq⟩
  | skip h =>
    intro ts hu hts
    refine ⟨ts, hu, hts, Or.inl ⟨rfl, rfl, fun t ht => h (.ofToken t) ?_⟩⟩
    rw [hu, List.head?_map, Option.mem_def.1 ht]
    rfl
  | take ht _ ih =>
    intro ts hu hts
    obtain ⟨t, ts', rfl, rfl, hu', hr, hts'⟩ := cons_of_leavesOf hu hts
    obtain ⟨rest, hv, hrest, hp⟩ := ih hu' hts'
    exact ⟨rest, hv, hrest, Or.inr ⟨t, ts', hr, ht, rfl, hp⟩⟩

/-! ## Meanings -/

/-- An expression over `k` levels of operators. -/
def MeansExpr (k : Nat) (ts rest : List Token) (cs : List Tree) : Prop :=
  ∃ d : Expr k, ts = d.yield ++ rest ∧ cs = [d.phrase.tree]

/-- A statement, which goes on as long as it can. -/
def MeansStmt (ts rest : List Token) (cs : List Tree) : Prop :=
  ∃ (b : Bool) (d : Stmt b), ts = d.yield ++ rest ∧ cs = [d.clause.tree] ∧
    (b = true → ∀ t ∈ rest.head?, terminalOf t ≠ .fixed "else")

/-- A block, without the `;` that may come after it. -/
def MeansBlock (ts rest : List Token) (cs : List Tree) : Prop :=
  ∃ (l : Terminal .symbol "\x7b") (body : Stmts) (r : Terminal .symbol "\x7d"),
    ts = l.1 :: (body.yield ++ r.1 :: rest) ∧ cs = [.node .block (clauseTrees body.clauses)]

/-- Statements in a row, as a program. -/
def MeansProgram (ts rest : List Token) (cs : List Tree) : Prop :=
  ∃ d : Stmts, ts = d.yield ++ rest ∧ cs = [programTree d.clauses]

/-- What the nonterminals mean. -/
def Meaning : Nonterminal → List Token → List Token → List Tree → Prop
  | .start | .program => MeansProgram
  | .statement | .ifStmt | .whileStmt | .printStmt | .assignStmt | .blockStmt | .exprStmt =>
    MeansStmt
  | .block => MeansBlock
  | .expression | .equality => MeansExpr 4
  | .comparison => MeansExpr 3
  | .term => MeansExpr 2
  | .factor => MeansExpr 1
  | .unary | .primary | .number | .string | .trueLit | .falseLit | .variable => MeansExpr 0

theorem meaning_level {k : Nat} (hk : k ≤ 4) : Meaning (levelName k) = MeansExpr k := by
  rcases k with _ | _ | _ | _ | _ | k
  · rfl
  · rfl
  · rfl
  · rfl
  · rfl
  · omega

/-! ### Expressions -/

theorem fixedKind_of_level {k : Nat} {x : String} (h : x ∈ levelOps k) :
    fixedKind x = .operator := by
  rcases k with _ | _ | _ | _ | k
  all_goals simp only [levelOps, List.mem_cons, List.not_mem_nil, or_false] at h
  · rcases h with rfl | rfl | rfl <;> decide
  · rcases h with rfl | rfl <;> decide
  · rcases h with rfl | rfl | rfl | rfl <;> decide
  · rcases h with rfl | rfl <;> decide

theorem operator_of_reads (ops : List String) (hkind : ∀ x ∈ ops, fixedKind x = .operator)
    {ts rest : List Token} {cs : List Tree} (hops : ops ≠ [])
    (h : Reads Meaning (.oneOf (ops.map fun text => .named (.fixed text))) ts rest cs) :
    ∃ op : Operator ops, ts = op.1 :: rest ∧ cs = [.leaf (.ofToken op.1)] := by
  have hnamed : ∀ x ∈ ops, Reads Meaning (.named (.fixed x)) ts rest cs →
      ∃ op : Operator ops, ts = op.1 :: rest ∧ cs = [.leaf (.ofToken op.1)] := by
    rintro x hx ⟨t, ht, hterminal, hts, hcs⟩
    obtain ⟨hk, htext⟩ := ht.kind_eq hterminal
    exact ⟨⟨t, hk.trans (hkind x hx), htext ▸ hx⟩, hts, hcs⟩
  have hone : ∀ xs : List String, (∀ x ∈ xs, x ∈ ops) → xs ≠ [] →
      Reads Meaning (.oneOf (xs.map fun text => .named (.fixed text))) ts rest cs →
        ∃ op : Operator ops, ts = op.1 :: rest ∧ cs = [.leaf (.ofToken op.1)] := by
    intro xs
    induction xs with
    | nil => exact fun _ hne => absurd rfl hne
    | cons x xs ih =>
      intro hsub _ h
      cases xs with
      | nil => exact hnamed x (hsub x List.mem_cons_self) h
      | cons y ys =>
        rcases h with h | h
        · exact hnamed x (hsub x List.mem_cons_self) h
        · exact ih (fun z hz => hsub z (List.mem_cons_of_mem _ hz)) (by simp) h
  exact hone ops (fun _ hx => hx) hops h

/-- Operators and operands extend a chain. -/
theorem chain_of_repeats {k : Nat} (hk : k < 4) {ts rest : List Token} {cs : List Tree}
    (h : Repeats (Reads Meaning (.seq (.oneOf ((levelOps k).map fun text => .named (.fixed text)))
      (.rule (levelName k)))) ts rest cs) (l : Expr (k + 1)) :
    ∃ d : Expr (k + 1), l.yield ++ ts = d.yield ++ rest ∧
      d.phrase.growth.items (3 - k) = l.phrase.growth.items (3 - k) ++ cs := by
  induction h generalizing l with
  | done => exact ⟨l, rfl, (List.append_nil _).symm⟩
  | more h _ ih =>
    obtain ⟨mid, ds, es, hop, hoperand, rfl⟩ := h
    have hne : levelOps k ≠ [] := by
      rcases k with _ | _ | _ | _ | k
      · decide
      · decide
      · decide
      · decide
      · omega
    obtain ⟨op, rfl, rfl⟩ :=
      operator_of_reads (levelOps k) (fun x hx => fixedKind_of_level hx) hne hop
    rw [Reads, meaning_level (Nat.le_of_lt hk)] at hoperand
    obtain ⟨r, rfl, rfl⟩ := hoperand
    obtain ⟨d, hd, hitems⟩ := ih (.binary l op r)
    refine ⟨d, ?_, ?_⟩
    · rw [← hd, Expr.yield, List.append_assoc, List.cons_append]
    · rw [hitems, items_binary, List.append_assoc, List.append_assoc]
      rfl

theorem meaning_chain {k : Nat} (hk : k < 4) {ts rest : List Token} {cs : List Tree}
    (h : Reads Meaning (chainRule (levelName k) (levelOps k)).body ts rest cs) :
    MeansExpr (k + 1) ts rest [(programRule (levelName (k + 1))).tree (levelName (k + 1)) cs] := by
  obtain ⟨mid, ds, es, hoperand, hmany, rfl⟩ := h
  rw [Reads, meaning_level (Nat.le_of_lt hk)] at hoperand
  obtain ⟨e, rfl, rfl⟩ := hoperand
  obtain ⟨d, hd, hitems⟩ := chain_of_repeats hk hmany (.tighter e)
  have hone : (Expr.tighter e).phrase.growth.items (3 - k) = [e.phrase.tree] :=
    e.items_of_looser (by omega)
  rw [hone] at hitems
  refine ⟨d, hd, ?_⟩
  rw [← hitems, tree_of_items hk]

theorem meaning_unary {ts rest : List Token} {cs : List Tree}
    (h : Reads Meaning (programRule .unary).body ts rest cs) :
    MeansExpr 0 ts rest [(programRule .unary).tree .unary cs] := by
  rcases h with ⟨mid, ds, es, hop, he, rfl⟩ | ⟨d, rfl, rfl⟩
  · obtain ⟨op, rfl, rfl⟩ := operator_of_reads prefixOps (by decide) (by decide) hop
    obtain ⟨e, rfl, rfl⟩ := he
    exact ⟨.unary op e, rfl, rfl⟩
  · exact ⟨d, rfl, rfl⟩

/-- A literal or a variable is an atom. -/
theorem meaning_literal {n : Nonterminal}
    (hn : n ∈ [Nonterminal.number, .string, .trueLit, .falseLit, .variable])
    {ts rest : List Token} {cs : List Tree} (h : Reads Meaning (programRule n).body ts rest cs) :
    MeansExpr 0 ts rest [.node n cs] := by
  have hatom : ∀ {t : Token}, IsAtomToken t → ts = t :: rest →
      (atomPhrase t).tree = .node n cs → MeansExpr 0 ts rest [.node n cs] := by
    rintro t ht rfl htree
    exact ⟨.atom t ht, rfl, by rw [Expr.phrase, htree]⟩
  have htree : ∀ {t : Token} {e : Phrase}, atomPhrase t = e → (atomPhrase t).tree = e.tree :=
    fun he => by rw [he]
  simp only [List.mem_cons, List.not_mem_nil, or_false] at hn
  rcases hn with rfl | rfl | rfl | rfl | rfl
  · obtain ⟨t, -, hterminal, hts, rfl⟩ := h
    have hk := (kind_of_terminalOf t).2.1 hterminal
    exact hatom (Or.inl hk) hts (htree (by rw [atomPhrase, hk]))
  · obtain ⟨t, -, hterminal, hts, rfl⟩ := h
    have hk := (kind_of_terminalOf t).2.2 hterminal
    exact hatom (Or.inr (Or.inl hk)) hts (htree (by rw [atomPhrase, hk]))
  · obtain ⟨t, ht, hterminal, hts, rfl⟩ := h
    obtain ⟨hkind, htext⟩ := ht.kind_eq hterminal
    have hk : t.kind = .keyword := hkind.trans (by decide)
    have he : atomPhrase t = .boolean true := by simp [atomPhrase, hk, htext]
    exact hatom (Or.inr (Or.inr (Or.inr ⟨hk, Or.inl htext⟩))) hts (htree he)
  · obtain ⟨t, ht, hterminal, hts, rfl⟩ := h
    obtain ⟨hkind, htext⟩ := ht.kind_eq hterminal
    have hk : t.kind = .keyword := hkind.trans (by decide)
    have he : atomPhrase t = .boolean false := by simp [atomPhrase, hk, htext]
    exact hatom (Or.inr (Or.inr (Or.inr ⟨hk, Or.inr htext⟩))) hts (htree he)
  · obtain ⟨t, -, hterminal, hts, rfl⟩ := h
    have hk := (kind_of_terminalOf t).1 hterminal
    exact hatom (Or.inr (Or.inr (Or.inl hk))) hts (htree (by rw [atomPhrase, hk]))

/-! ### Statements -/

section

variable {ts rest : List Token} {cs : List Tree}

theorem symbol_of_reads {text : String} (hkind : fixedKind text = .symbol)
    (h : Reads Meaning (.quoted text) ts rest cs) :
    ∃ t : Terminal .symbol text, ts = t.1 :: rest ∧ cs = [] := by
  obtain ⟨t, ht, hterminal, hts, hcs⟩ := h
  obtain ⟨hk, htext⟩ := ht.kind_eq hterminal
  exact ⟨⟨t, hk.trans hkind, htext⟩, hts, hcs⟩

theorem keyword_of_reads {text : String} (hkind : fixedKind text = .keyword)
    (h : Reads Meaning (.quoted text) ts rest cs) :
    ∃ t : Terminal .keyword text, ts = t.1 :: rest ∧ cs = [] := by
  obtain ⟨t, ht, hterminal, hts, hcs⟩ := h
  obtain ⟨hk, htext⟩ := ht.kind_eq hterminal
  exact ⟨⟨t, hk.trans hkind, htext⟩, hts, hcs⟩

/-- A condition, and what comes after it. -/
theorem test_of_reads {p : Part}
    (h : Reads Meaning (.seq (.quoted "(") (.seq (.rule .expression) (.seq (.quoted ")") p)))
      ts rest cs) :
    ∃ (c : Test) (mid : List Token) (ds : List Tree), ts = c.yield ++ mid ∧
      Reads Meaning p mid rest ds ∧ cs = c.e.phrase.tree :: ds := by
  obtain ⟨_, _, _, hl, ⟨_, _, _, ⟨e, rfl, rfl⟩, ⟨mid, _, ds, hr, hp, rfl⟩, rfl⟩, rfl⟩ := h
  obtain ⟨l, rfl, rfl⟩ := symbol_of_reads (by decide) hl
  obtain ⟨r, rfl, rfl⟩ := symbol_of_reads (by decide) hr
  refine ⟨⟨l, e, r⟩, mid, ds, ?_, hp, rfl⟩
  rw [Test.yield, List.cons_append, List.append_assoc]
  rfl

theorem meaning_primary (h : Reads Meaning (programRule .primary).body ts rest cs) :
    MeansExpr 0 ts rest [(programRule .primary).tree .primary cs] := by
  have hexpr : MeansExpr 0 ts rest cs := by
    rcases h with h | h | h | h | h | ⟨_, _, _, hl, ⟨_, _, _, ⟨e, rfl, rfl⟩, hr, rfl⟩, rfl⟩
    · exact h
    · exact h
    · exact h
    · exact h
    · exact h
    · obtain ⟨l, rfl, rfl⟩ := symbol_of_reads (by decide) hl
      obtain ⟨r, rfl, rfl⟩ := symbol_of_reads (by decide) hr
      refine ⟨.group l e r, ?_, rfl⟩
      rw [Expr.yield, List.cons_append, List.append_assoc]
      rfl
  obtain ⟨d, hd, rfl⟩ := hexpr
  exact ⟨d, hd, rfl⟩

theorem meaning_if (h : Reads Meaning (programRule .ifStmt).body ts rest cs) :
    MeansStmt ts rest [.node .ifStmt cs] := by
  obtain ⟨_, _, _, hword, htest, rfl⟩ := h
  obtain ⟨word, rfl, rfl⟩ := keyword_of_reads (by decide) hword
  obtain ⟨c, _, _, rfl, ⟨_, _, _, ⟨b, body, rfl, rfl, helse⟩, hrest, rfl⟩, rfl⟩ :=
    test_of_reads htest
  rcases hrest with ⟨rfl, rfl, hskip⟩ | ⟨t, _, ht, hterminal, rfl, b', other, rfl, rfl, hother⟩
  · refine ⟨true, .branch word c body, ?_, rfl, fun _ => hskip⟩
    rw [Stmt.yield, List.cons_append, List.append_assoc]
  · -- a body in front of an `else` ends with no branch that could take it
    obtain rfl : b = false := by
      cases b with
      | false => rfl
      | true => exact absurd hterminal (helse rfl t rfl)
    obtain ⟨hk, htext⟩ := ht.kind_eq hterminal
    refine ⟨b', .branchElse word c body ⟨t, hk, htext⟩ other, ?_, rfl, hother⟩
    rw [Stmt.yield, List.cons_append, List.append_assoc, List.append_assoc, List.cons_append]

theorem meaning_while (h : Reads Meaning (programRule .whileStmt).body ts rest cs) :
    MeansStmt ts rest [.node .whileStmt cs] := by
  obtain ⟨_, _, _, hword, htest, rfl⟩ := h
  obtain ⟨word, rfl, rfl⟩ := keyword_of_reads (by decide) hword
  obtain ⟨c, _, _, rfl, ⟨b, body, rfl, rfl, helse⟩, rfl⟩ := test_of_reads htest
  refine ⟨b, .loop word c body, ?_, rfl, helse⟩
  rw [Stmt.yield, List.cons_append, List.append_assoc]

theorem meaning_print (h : Reads Meaning (programRule .printStmt).body ts rest cs) :
    MeansStmt ts rest [.node .printStmt cs] := by
  obtain ⟨_, _, _, hword, ⟨_, _, _, ⟨e, rfl, rfl⟩, hsemi, rfl⟩, rfl⟩ := h
  obtain ⟨word, rfl, rfl⟩ := keyword_of_reads (by decide) hword
  obtain ⟨semi, rfl, rfl⟩ := symbol_of_reads (by decide) hsemi
  refine ⟨false, .print word e semi, ?_, rfl, fun hb => by cases hb⟩
  rw [Stmt.yield, List.cons_append, List.append_assoc]
  rfl

theorem meaning_assign (h : Reads Meaning (programRule .assignStmt).body ts rest cs) :
    MeansStmt ts rest [.node .assignStmt cs] := by
  obtain ⟨_, _, _, ⟨x, hx, hname, rfl, rfl⟩,
    ⟨_, _, _, heq, ⟨_, _, _, ⟨e, rfl, rfl⟩, hsemi, rfl⟩, rfl⟩, rfl⟩ := h
  obtain ⟨eq, rfl, rfl⟩ := symbol_of_reads (by decide) heq
  obtain ⟨semi, rfl, rfl⟩ := symbol_of_reads (by decide) hsemi
  refine ⟨false, .assign ⟨x, (kind_of_terminalOf x).1 hname⟩ eq e semi, ?_, rfl,
    fun hb => by cases hb⟩
  rw [Stmt.yield, List.cons_append, List.cons_append, List.append_assoc]
  rfl

theorem meaning_expr (h : Reads Meaning (programRule .exprStmt).body ts rest cs) :
    MeansStmt ts rest [.node .exprStmt cs] := by
  obtain ⟨_, _, _, ⟨e, rfl, rfl⟩, hsemi, rfl⟩ := h
  obtain ⟨semi, rfl, rfl⟩ := symbol_of_reads (by decide) hsemi
  refine ⟨false, .expr e semi, ?_, rfl, fun hb => by cases hb⟩
  rw [Stmt.yield, List.append_assoc]
  rfl

theorem meaning_blockStmt (h : Reads Meaning (programRule .blockStmt).body ts rest cs) :
    MeansStmt ts rest [.node .blockStmt cs] := by
  obtain ⟨_, _, _, ⟨l, body, r, rfl, rfl⟩, hsemi, rfl⟩ := h
  rcases hsemi with ⟨rfl, rfl, -⟩ | ⟨t, _, ht, hterminal, rfl, rfl, rfl⟩
  · refine ⟨false, .block l body r none, ?_, rfl, fun hb => by cases hb⟩
    rw [Stmt.yield, List.cons_append, List.append_assoc, List.cons_append]
    rfl
  · obtain ⟨hk, htext⟩ := ht.kind_eq hterminal
    refine ⟨false, .block l body r (some ⟨t, hk, htext⟩), ?_, rfl, fun hb => by cases hb⟩
    rw [Stmt.yield, List.cons_append, List.append_assoc, List.cons_append]
    rfl

/-- Statements in a row. -/
theorem stmts_of_repeats (h : Repeats (Reads Meaning (.rule .statement)) ts rest cs) :
    ∃ d : Stmts, ts = d.yield ++ rest ∧ cs = clauseTrees d.clauses := by
  induction h with
  | done => exact ⟨.nil, rfl, rfl⟩
  | more h _ ih =>
    obtain ⟨b, s, rfl, rfl, -⟩ := h
    obtain ⟨d, rfl, rfl⟩ := ih
    refine ⟨.cons s d, ?_, rfl⟩
    rw [Stmts.yield, List.append_assoc]

theorem meaning_block (h : Reads Meaning (programRule .block).body ts rest cs) :
    MeansBlock ts rest [.node .block cs] := by
  obtain ⟨_, _, _, hl, ⟨_, _, _, hmany, hr, rfl⟩, rfl⟩ := h
  obtain ⟨l, rfl, rfl⟩ := symbol_of_reads (by decide) hl
  obtain ⟨r, rfl, rfl⟩ := symbol_of_reads (by decide) hr
  obtain ⟨body, rfl, rfl⟩ := stmts_of_repeats hmany
  refine ⟨l, body, r, rfl, ?_⟩
  rw [List.append_nil]
  rfl

end

/-- **The meaning of every rule's body is that of its nonterminal.** -/
theorem meaning_rule (n : Nonterminal) (ts rest : List Token) (cs : List Tree)
    (h : Reads Meaning (programRule n).body ts rest cs) :
    Meaning n ts rest [(programRule n).tree n cs] := by
  cases n with
  | start =>
    obtain ⟨d, hd, rfl⟩ := h
    exact ⟨d, hd, rfl⟩
  | program =>
    obtain ⟨d, hd, rfl⟩ := stmts_of_repeats h
    exact ⟨d, hd, rfl⟩
  | statement =>
    have hstmt : MeansStmt ts rest cs := by
      rcases h with h | h | h | h | h | h <;> exact h
    obtain ⟨b, d, hd, rfl, helse⟩ := hstmt
    exact ⟨b, d, hd, rfl, helse⟩
  | ifStmt => exact meaning_if h
  | whileStmt => exact meaning_while h
  | printStmt => exact meaning_print h
  | assignStmt => exact meaning_assign h
  | blockStmt => exact meaning_blockStmt h
  | block => exact meaning_block h
  | exprStmt => exact meaning_expr h
  | expression =>
    obtain ⟨d, hd, rfl⟩ := h
    exact ⟨d, hd, rfl⟩
  | equality => exact meaning_chain (k := 3) (by decide) h
  | comparison => exact meaning_chain (k := 2) (by decide) h
  | term => exact meaning_chain (k := 1) (by decide) h
  | factor => exact meaning_chain (k := 0) (by decide) h
  | unary => exact meaning_unary h
  | primary => exact meaning_primary h
  | _ => exact meaning_literal (by simp) h

/-! ## Whole programs -/

/-- What the rules derive from regular tokens is a program. -/
theorem exists_of_sentence {us : List Leaf} {tree : Tree} (h : programGrammar.Sentence us tree)
    {ts : List Token} (hu : us = leavesOf ts) (hts : AllRegular ts) :
    ∃ d : Stmts, d.yield = ts ∧ programTree d.clauses = tree := by
  obtain ⟨rest, hv, -, d, hd, htree⟩ := reads_of_derives meaning_rule h hu hts
  obtain rfl : rest = [] := List.map_eq_nil_iff.1 hv.symm
  rw [List.append_nil] at hd
  exact ⟨d, hd.symm, (List.cons.inj htree).1.symm⟩

/-- **The sentences of the rules are the programs**, with their parse trees. -/
theorem sentence_iff {ts : List Token} (hts : AllRegular ts) {tree : Tree} :
    programGrammar.Sentence (leavesOf ts) tree ↔
      ∃ d : Stmts, d.yield = ts ∧ programTree d.clauses = tree := by
  refine ⟨fun h => exists_of_sentence h rfl hts, ?_⟩
  rintro ⟨d, rfl, rfl⟩
  exact d.sentence

/-- The rules look at the terminals of tokens, and at nothing else. -/
theorem derives_map {f : Leaf → Leaf} (hf : ∀ l, (f l).terminal = l.terminal) {p : Part}
    {us vs : List Leaf} {cs : List Tree} (h : Derives programGrammar p us vs cs) :
    ∃ cs', Derives programGrammar p (us.map f) (vs.map f) cs' := by
  induction h with
  | empty => exact ⟨_, .empty⟩
  | rule _ ih =>
    obtain ⟨cs', h⟩ := ih
    exact ⟨_, .rule h⟩
  | @named t rest =>
    have h : Derives programGrammar (.named (f t).terminal) (f t :: rest.map f) (rest.map f)
        [.leaf (f t)] := .named
    rw [hf] at h
    exact ⟨_, h⟩
  | quoted h => exact ⟨_, .quoted ((hf _).trans h)⟩
  | seq _ _ ihp ihq =>
    obtain ⟨cs', hp⟩ := ihp
    obtain ⟨ds', hq⟩ := ihq
    exact ⟨_, .seq hp hq⟩
  | first _ ih =>
    obtain ⟨cs', h⟩ := ih
    exact ⟨_, .first h⟩
  | second _ ih =>
    obtain ⟨cs', h⟩ := ih
    exact ⟨_, .second h⟩
  | done => exact ⟨_, .done⟩
  | more _ _ ihp ihq =>
    obtain ⟨cs', hp⟩ := ihp
    obtain ⟨ds', hq⟩ := ihq
    exact ⟨_, .more hp hq⟩
  | skip h =>
    refine ⟨_, .skip fun t ht => ?_⟩
    rw [List.head?_map, Option.map_eq_some_iff] at ht
    obtain ⟨l, hl, rfl⟩ := ht
    rw [hf]
    exact h l hl
  | take ht _ ih =>
    obtain ⟨cs', h⟩ := ih
    exact ⟨_, .take ((hf _).trans ht) h⟩

/-- **The beginnings of sentences are those of programs.** -/
theorem viable_iff {ts : List Token} (hts : AllRegular ts) :
    programGrammar.Viable (leavesOf ts) ↔ Descent.Viable Derived ts := by
  constructor
  · rintro ⟨more, tree, h⟩
    -- what completes the tokens may be any tokens of the package
    obtain ⟨trees, hd⟩ := derives_map (f := fun l => .ofToken l.token) Leaf.terminal_token h
    have hu : (leavesOf ts ++ more).map (fun l => Leaf.ofToken l.token) =
        leavesOf (ts ++ more.map Leaf.token) := by
      have hkeep : ts.map (fun t => Leaf.ofToken (Leaf.ofToken t).token) = leavesOf ts :=
        List.map_congr_left fun t ht => by rw [show (Leaf.ofToken t).token = t from hts t ht]
      rw [List.map_append, List.map_map, leavesOf, List.map_append, List.map_map]
      exact congrArg (· ++ _) hkeep
    have hall : AllRegular (ts ++ more.map Leaf.token) := by
      intro t ht
      rcases List.mem_append.1 ht with ht | ht
      · exact hts t ht
      · obtain ⟨l, -, rfl⟩ := List.mem_map.1 ht
        exact l.regular_token
    obtain ⟨rest, hv, -, d, hyield, -⟩ := reads_of_derives meaning_rule hd hu hall
    obtain rfl : rest = [] := List.map_eq_nil_iff.1 hv.symm
    rw [List.append_nil] at hyield
    exact ⟨_, d, hyield.symm⟩
  · rintro ⟨more, d, hd⟩
    refine ⟨leavesOf more, programTree d.clauses, ?_⟩
    rw [← List.map_append, ← hd]
    exact d.sentence

end BlockScript.Grammar
