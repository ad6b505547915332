/-
  BlockScript — derivations of tokens that are put together.

  * `Expr.relocate`, `Stmts.relocate`: tokens that differ only in where they
    stand have derivations with the same trees and the same nesting;
  * `Stmts.append`: statements in a row, after others.
-/
import BlockScript.Proofs.Grammar.Shape
import BlockScript.Proofs.Scanner

namespace BlockScript

namespace Grammar

/-! ## Places -/

/-- The tokens are the same but for the places where they stand. -/
def SameForms (ts us : List Token) : Prop :=
  us.map Token.form = ts.map Token.form

theorem SameForms.of_append {ts ts' us : List Token} (h : SameForms (ts ++ ts') us) :
    ∃ vs vs', us = vs ++ vs' ∧ SameForms ts vs ∧ SameForms ts' vs' := by
  rw [SameForms, List.map_append] at h
  obtain ⟨vs, vs', hus, hvs, hvs'⟩ := List.map_eq_append_iff.1 h
  exact ⟨vs, vs', hus, hvs, hvs'⟩

theorem SameForms.of_cons {t : Token} {ts us : List Token} (h : SameForms (t :: ts) us) :
    ∃ u vs, us = u :: vs ∧ (u.kind = t.kind ∧ u.text = t.text) ∧ SameForms ts vs := by
  rw [SameForms, List.map_cons] at h
  obtain ⟨u, vs, hus, hu, hvs⟩ := List.map_eq_cons_iff.1 h
  exact ⟨u, vs, hus, Prod.mk.inj hu, hvs⟩

theorem SameForms.of_nil {us : List Token} (h : SameForms [] us) : us = [] :=
  List.map_eq_nil_iff.1 h

theorem SameForms.readable {ts us : List Token} (h : SameForms ts us) (hr : Readable ts) :
    Readable us := by
  intro u hu hk
  have hmem : u.form ∈ ts.map Token.form := by
    rw [← h]
    exact List.mem_map_of_mem hu
  obtain ⟨t, ht, hform⟩ := List.mem_map.1 hmem
  obtain ⟨hkind, htext⟩ := Prod.mk.inj hform
  rw [← htext]
  exact hr t ht (hkind.trans hk)

/-- A terminal at another place. -/
theorem SameForms.terminal {kind : TokenKind} {text : String} {s : Terminal kind text}
    {ts us : List Token} (h : SameForms (s.1 :: ts) us) :
    ∃ (s' : Terminal kind text) (vs : List Token), us = s'.1 :: vs ∧ SameForms ts vs := by
  obtain ⟨u, vs, hus, ⟨hk, ht⟩, hvs⟩ := h.of_cons
  exact ⟨⟨u, hk.trans s.2.1, ht.trans s.2.2⟩, vs, hus, hvs⟩

/-- An operator at another place. -/
theorem SameForms.operator {ops : List String} {op : Operator ops} {ts us : List Token}
    (h : SameForms (op.1 :: ts) us) :
    ∃ (op' : Operator ops) (vs : List Token),
      us = op'.1 :: vs ∧ op'.1.text = op.1.text ∧ SameForms ts vs := by
  obtain ⟨u, vs, hus, ⟨hk, ht⟩, hvs⟩ := h.of_cons
  exact ⟨⟨u, hk.trans op.2.1, ht ▸ op.2.2⟩, vs, hus, ht, hvs⟩

theorem Expr.relocate : {k : Nat} → (d : Expr k) → {ts : List Token} → SameForms d.yield ts →
    ∃ d' : Expr k, d'.yield = ts ∧ d'.tree = d.tree ∧ d'.nesting = d.nesting
  | _, .atom t h, ts, hts => by
    obtain ⟨u, vs, rfl, ⟨hk, ht⟩, hvs⟩ := SameForms.of_cons hts
    obtain rfl := hvs.of_nil
    refine ⟨.atom u (by simpa only [IsAtomToken, hk, ht] using h), rfl, ?_, rfl⟩
    simp only [Expr.tree, atomTree, hk, ht]
  | _, .unary op e, ts, hts => by
    obtain ⟨op', vs, rfl, hop, hvs⟩ := SameForms.operator hts
    obtain ⟨e', rfl, he, hn⟩ := e.relocate hvs
    exact ⟨.unary op' e', rfl, by simp only [Expr.tree, hop, he], by simp only [Expr.nesting, hn]⟩
  | _, .group l e r, ts, hts => by
    obtain ⟨l', vs, rfl, hvs⟩ := SameForms.terminal hts
    obtain ⟨ws, ws', rfl, hws, hws'⟩ := hvs.of_append
    obtain ⟨e', rfl, he, hn⟩ := e.relocate hws
    obtain ⟨r', xs, rfl, hxs⟩ := hws'.terminal
    obtain rfl := hxs.of_nil
    exact ⟨.group l' e' r', rfl, by simp only [Expr.tree, he], by simp only [Expr.nesting, hn]⟩
  | _, .tighter e, ts, hts => by
    obtain ⟨e', rfl, he, hn⟩ := e.relocate hts
    exact ⟨.tighter e', rfl, he, hn⟩
  | _, .binary l op r, ts, hts => by
    obtain ⟨vs, vs', rfl, hvs, hvs'⟩ := SameForms.of_append hts
    obtain ⟨l', rfl, hl, hln⟩ := l.relocate hvs
    obtain ⟨op', ws, rfl, hop, hws⟩ := hvs'.operator
    obtain ⟨r', rfl, hr, hrn⟩ := r.relocate hws
    exact ⟨.binary l' op' r', rfl, by simp only [Expr.tree, hl, hop, hr],
      by simp only [Expr.nesting, hln, hrn]⟩

theorem Test.relocate (c : Test) {ts ts' : List Token} (h : SameForms (c.yield ++ ts) ts') :
    ∃ (c' : Test) (us : List Token), ts' = c'.yield ++ us ∧ c'.e.tree = c.e.tree ∧
      c'.e.nesting = c.e.nesting ∧ SameForms ts us := by
  obtain ⟨vs, us, rfl, htest, hus⟩ := h.of_append
  obtain ⟨l', vs, rfl, hvs⟩ := SameForms.terminal htest
  obtain ⟨ws, ws', rfl, hws, hws'⟩ := hvs.of_append
  obtain ⟨e', rfl, he, hn⟩ := c.e.relocate hws
  obtain ⟨r', xs, rfl, hxs⟩ := hws'.terminal
  obtain rfl := hxs.of_nil
  exact ⟨⟨l', e', r'⟩, us, rfl, he, hn, hus⟩

/-- An expression and a symbol after it, at another place. -/
theorem Expr.relocate_before (e : Expr 4) {text : String} {s : Terminal .symbol text}
    {ts : List Token} (h : SameForms (e.yield ++ [s.1]) ts) :
    ∃ (e' : Expr 4) (s' : Terminal .symbol text), ts = e'.yield ++ [s'.1] ∧ e'.tree = e.tree ∧
      e'.nesting = e.nesting := by
  obtain ⟨vs, vs', rfl, hvs, hvs'⟩ := h.of_append
  obtain ⟨e', rfl, he, hn⟩ := e.relocate hvs
  obtain ⟨s', xs, rfl, hxs⟩ := hvs'.terminal
  obtain rfl := hxs.of_nil
  exact ⟨e', s', rfl, he, hn⟩

mutual

theorem Stmt.relocate : {b : Bool} → (d : Stmt b) → {ts : List Token} → SameForms d.yield ts →
    ∃ d' : Stmt b, d'.yield = ts ∧ d'.tree = d.tree ∧ d'.nesting = d.nesting
  | _, .expr e semi, ts, hts => by
    obtain ⟨e', semi', rfl, he, hn⟩ := e.relocate_before hts
    exact ⟨.expr e' semi', rfl, by simp only [Stmt.tree, he], hn⟩
  | _, .assign x eq e semi, ts, hts => by
    obtain ⟨y, us, rfl, ⟨hk, ht⟩, hus⟩ := SameForms.of_cons hts
    obtain ⟨eq', vs, rfl, hvs⟩ := hus.terminal
    obtain ⟨e', semi', rfl, he, hn⟩ := e.relocate_before hvs
    exact ⟨.assign ⟨y, hk.trans x.2⟩ eq' e' semi', rfl, by simp only [Stmt.tree, ht, he], hn⟩
  | _, .print word e semi, ts, hts => by
    obtain ⟨word', vs, rfl, hvs⟩ := SameForms.terminal hts
    obtain ⟨e', semi', rfl, he, hn⟩ := e.relocate_before hvs
    exact ⟨.print word' e' semi', rfl, by simp only [Stmt.tree, he], hn⟩
  | _, .branch word c body, ts, hts => by
    obtain ⟨word', vs, rfl, hvs⟩ := SameForms.terminal hts
    obtain ⟨c', us, rfl, hc, hcn, hus⟩ := c.relocate hvs
    obtain ⟨body', rfl, hb, hbn⟩ := body.relocate hus
    exact ⟨.branch word' c' body', rfl, by simp only [Stmt.tree, hc, hb],
      by simp only [Stmt.nesting, hcn, hbn]⟩
  | _, .branchElse word c body alt other, ts, hts => by
    obtain ⟨word', vs, rfl, hvs⟩ := SameForms.terminal hts
    obtain ⟨c', us, rfl, hc, hcn, hus⟩ := c.relocate hvs
    obtain ⟨ws, ws', rfl, hws, hws'⟩ := hus.of_append
    obtain ⟨body', rfl, hb, hbn⟩ := body.relocate hws
    obtain ⟨alt', xs, rfl, hxs⟩ := hws'.terminal
    obtain ⟨other', rfl, ho, hon⟩ := other.relocate hxs
    exact ⟨.branchElse word' c' body' alt' other', rfl, by simp only [Stmt.tree, hc, hb, ho],
      by simp only [Stmt.nesting, hcn, hbn, hon]⟩
  | _, .loop word c body, ts, hts => by
    obtain ⟨word', vs, rfl, hvs⟩ := SameForms.terminal hts
    obtain ⟨c', us, rfl, hc, hcn, hus⟩ := c.relocate hvs
    obtain ⟨body', rfl, hb, hbn⟩ := body.relocate hus
    exact ⟨.loop word' c' body', rfl, by simp only [Stmt.tree, hc, hb],
      by simp only [Stmt.nesting, hcn, hbn]⟩
  | _, .block l body r semi, ts, hts => by
    obtain ⟨l', vs, rfl, hvs⟩ := SameForms.terminal hts
    obtain ⟨ws, ws', rfl, hws, hws'⟩ := hvs.of_append
    obtain ⟨body', rfl, hb, hbn⟩ := body.relocate hws
    obtain ⟨r', xs, rfl, hxs⟩ := hws'.terminal
    cases semi with
    | none =>
      obtain rfl := hxs.of_nil
      exact ⟨.block l' body' r' none, rfl, by simp only [Stmt.tree, hb],
        by simp only [Stmt.nesting, hbn]⟩
    | some semi =>
      obtain ⟨semi', ys, rfl, hys⟩ := SameForms.terminal hxs
      obtain rfl := hys.of_nil
      exact ⟨.block l' body' r' (some semi'), rfl, by simp only [Stmt.tree, hb],
        by simp only [Stmt.nesting, hbn]⟩

/-- **Tokens at other places have a derivation with the same trees.** -/
theorem Stmts.relocate : (d : Stmts) → {ts : List Token} → SameForms d.yield ts →
    ∃ d' : Stmts, d'.yield = ts ∧ d'.trees = d.trees ∧ d'.nesting = d.nesting
  | .nil, ts, hts => ⟨.nil, (SameForms.of_nil hts).symm, rfl, rfl⟩
  | .cons s rest, ts, hts => by
    obtain ⟨vs, vs', rfl, hvs, hvs'⟩ := SameForms.of_append hts
    obtain ⟨s', rfl, hs, hsn⟩ := s.relocate hvs
    obtain ⟨rest', rfl, hr, hrn⟩ := rest.relocate hvs'
    exact ⟨.cons s' rest', rfl, by simp only [Stmts.trees, hs, hr],
      by simp only [Stmts.nesting, hsn, hrn]⟩

end

/-! ## Statements in a row -/

/-- Statements in a row, and others after them. -/
def Stmts.append : Stmts → Stmts → Stmts
  | .nil, others => others
  | .cons s rest, others => .cons s (rest.append others)

theorem Stmts.yield_append : (ss others : Stmts) →
    (ss.append others).yield = ss.yield ++ others.yield
  | .nil, others => rfl
  | .cons s rest, others => by
    simp only [Stmts.append, Stmts.yield, rest.yield_append others, List.append_assoc]

theorem Stmts.trees_append : (ss others : Stmts) →
    (ss.append others).trees = ss.trees ++ others.trees
  | .nil, others => rfl
  | .cons s rest, others => by
    simp only [Stmts.append, Stmts.trees, rest.trees_append others, List.cons_append]

theorem Stmts.nesting_append : (ss others : Stmts) →
    (ss.append others).nesting = max ss.nesting others.nesting
  | .nil, others => by simp only [Stmts.append, Stmts.nesting, Nat.zero_max]
  | .cons s rest, others => by
    simp only [Stmts.append, Stmts.nesting, rest.nesting_append others, Nat.max_assoc]

end Grammar

end BlockScript
