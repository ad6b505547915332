/-
  BlockScript — the grammar is unambiguous.

  Tokens are read from the left, and a derivation is determined by its tokens
  even if more of them follow, as long as these do not go on with it.  The
  proofs are by induction on the number of tokens.

  * `Expr.unique`, `Stmts.unique`: derivations with the same tokens are equal.
-/
import BlockScript.Proofs.Grammar.Shape

namespace BlockScript.Grammar

/-! ## Expressions -/

/-- Expressions over `k` levels with at most `n` tokens are determined by
    their tokens. -/
def Determined (k n : Nat) : Prop :=
  ∀ (d d' : Expr k) (r r' : List Token), d.yield.length ≤ n → d.yield ++ r = d'.yield ++ r' →
    Stops k r → Stops k r' → d = d' ∧ r = r'

theorem links_unique {k n : Nat} (ih : Determined k n) {links links' : List (Link k)}
    {r r' : List Token} (hn : (linksYield links).length ≤ n)
    (h : linksYield links ++ r = linksYield links' ++ r') (hr : Stops (k + 1) r)
    (hr' : Stops (k + 1) r') : links = links' ∧ r = r' := by
  induction links generalizing links' with
  | nil =>
    cases links' with
    | nil => exact ⟨rfl, h⟩
    | cons link' links' =>
      have hop := hr link'.1.1 (by rw [show r = _ from h]; rfl) k (by omega)
      exact absurd link'.1.2 hop
  | cons link links ihl =>
    obtain ⟨op, e⟩ := link
    cases links' with
    | nil =>
      have hop := hr' op.1 (by rw [show r' = _ from h.symm]; rfl) k (by omega)
      exact absurd op.2 hop
    | cons link' links' =>
      obtain ⟨op', e'⟩ := link'
      simp only [linksYield_cons, List.cons_append, List.append_assoc, List.cons.injEq,
        List.length_cons, List.length_append] at h hn
      obtain ⟨hop, he⟩ := h
      obtain ⟨rfl, hl⟩ := ih e e' _ _ (by omega) he (hr.links links) (hr'.links links')
      obtain ⟨rfl, rfl⟩ := ihl (by omega) hl
      exact ⟨by rw [Subtype.ext hop], rfl⟩

theorem determined_succ {k n : Nat} (ih : Determined k n) : Determined (k + 1) n := by
  intro d d' r r' hn h hr hr'
  obtain ⟨e, links, rfl⟩ := d.exists_links
  obtain ⟨e', links', rfl⟩ := d'.exists_links
  simp only [Expr.yield_extend, Expr.yield, List.append_assoc, List.length_append] at h hn
  obtain ⟨rfl, hl⟩ := ih e e' _ _ (by omega) h (hr.links links) (hr'.links links')
  obtain ⟨rfl, rfl⟩ := links_unique ih (by omega) hl hr hr'
  exact ⟨rfl, rfl⟩

/-- Operands of the tightest level differ in their first token, or are built
    from shorter expressions. -/
theorem determined_operand {n : Nat} (ih : ∀ k, Determined k n) : Determined 0 (n + 1) := by
  intro d d' r r' hn h hr hr'
  cases d with
  | atom t ht =>
    cases d' with
    | atom t' ht' =>
      obtain ⟨rfl, rfl⟩ := List.cons.inj h
      exact ⟨rfl, rfl⟩
    | unary op e =>
      obtain ⟨rfl, -⟩ := List.cons.inj h
      exact absurd op.2.1 ht.kind_ne_operator
    | group l e q =>
      obtain ⟨rfl, -⟩ := List.cons.inj h
      exact absurd l.2.1 ht.kind_ne_symbol
  | unary op e =>
    cases d' with
    | atom t' ht' =>
      obtain ⟨rfl, -⟩ := List.cons.inj h
      exact absurd op.2.1 ht'.kind_ne_operator
    | unary op' e' =>
      obtain ⟨hop, h⟩ := List.cons.inj h
      obtain ⟨rfl, rfl⟩ := ih 0 e e' r r' (Nat.le_of_succ_le_succ hn) h hr hr'
      exact ⟨by rw [Subtype.ext hop], rfl⟩
    | group l e' q =>
      have hl := (List.cons.inj h).1 ▸ l.2.1
      exact absurd (op.2.1.symm.trans hl) (by decide)
  | group l e q =>
    cases d' with
    | atom t' ht' =>
      obtain ⟨rfl, -⟩ := List.cons.inj h
      exact absurd l.2.1 ht'.kind_ne_symbol
    | unary op e' =>
      have hop := (List.cons.inj h).1 ▸ op.2.1
      exact absurd (l.2.1.symm.trans hop) (by decide)
    | group l' e' q' =>
      simp only [Expr.yield, List.cons_append, List.append_assoc, List.cons.injEq,
        List.nil_append, List.length_cons, List.length_append] at h hn
      obtain ⟨hl, h⟩ := h
      have stops : ∀ (p : Terminal .symbol ")") (s : List Token), Stops 4 (p.1 :: s) :=
        fun p s => stops_cons_of_kind (by simp [p.2.1])
      obtain ⟨rfl, hr⟩ := ih 4 e e' _ _ (by omega) h (stops q r) (stops q' r')
      obtain ⟨hq, rfl⟩ := List.cons.inj hr
      exact ⟨by rw [Subtype.ext hl, Subtype.ext hq], rfl⟩

theorem determined (n k : Nat) : Determined k n := by
  induction n generalizing k with
  | zero =>
    intro d d' r r' hn
    obtain ⟨t, ts, hd, -⟩ := d.yield_eq_cons
    simp [hd] at hn
  | succ n ih =>
    induction k with
    | zero => exact determined_operand ih
    | succ k ihk => exact determined_succ ihk

/-- **Expressions are determined by their tokens.** -/
theorem Expr.unique {k : Nat} {d d' : Expr k} {r r' : List Token}
    (h : d.yield ++ r = d'.yield ++ r') (hr : Stops k r) (hr' : Stops k r') : d = d' ∧ r = r' :=
  determined d.yield.length k d d' r r' (Nat.le_refl _) h hr hr'

theorem Expr.unique_before_symbol {k : Nat} {d d' : Expr k} {x x' : String}
    {s : Terminal .symbol x} {s' : Terminal .symbol x'} {r r' : List Token}
    (h : d.yield ++ s.1 :: r = d'.yield ++ s'.1 :: r') : d = d' ∧ s.1 = s'.1 ∧ r = r' := by
  obtain ⟨hd, hs⟩ := Expr.unique h (stops_cons_of_kind (by simp [s.2.1]))
    (stops_cons_of_kind (by simp [s'.2.1]))
  exact ⟨hd, (List.cons.inj hs).1, (List.cons.inj hs).2⟩

theorem Test.unique {c c' : Test} {r r' : List Token} (h : c.yield ++ r = c'.yield ++ r') :
    c = c' ∧ r = r' := by
  obtain ⟨l, e, q⟩ := c
  obtain ⟨l', e', q'⟩ := c'
  simp only [Test.yield, List.cons_append, List.append_assoc, List.cons.injEq,
    List.nil_append] at h
  obtain ⟨hl, h⟩ := h
  obtain ⟨rfl, hq, rfl⟩ := Expr.unique_before_symbol h
  exact ⟨by rw [Subtype.ext hl, Subtype.ext hq], rfl⟩

/-! ## The form of a statement -/

/-- The forms of statements that the first tokens tell apart. -/
inductive Form where
  | expr
  | assign
  | print
  | branch
  | loop
  | block

/-- The form of a statement. -/
def Stmt.form : {b : Bool} → Stmt b → Form
  | _, .expr .. => .expr
  | _, .assign .. => .assign
  | _, .print .. => .print
  | _, .branch .. | _, .branchElse .. => .branch
  | _, .loop .. => .loop
  | _, .block .. => .block

/-- The form that tokens start. -/
def formOf : List Token → Form
  | [] => .expr
  | t :: rest =>
    if t.kind = .keyword ∧ t.text = "print" then .print
    else if t.kind = .keyword ∧ t.text = "if" then .branch
    else if t.kind = .keyword ∧ t.text = "while" then .loop
    else if t.kind = .symbol ∧ t.text = "\x7b" then .block
    else if t.kind = .identifier ∧ ∃ s ∈ rest.head?, s.kind = .symbol ∧ s.text = "=" then .assign
    else .expr

theorem formOf_expr {k : Nat} (e : Expr k) (semi : Terminal .symbol ";") (r : List Token) :
    formOf (e.yield ++ semi.1 :: r) = .expr := by
  obtain ⟨t, ts, he, ht⟩ := e.yield_eq_cons
  have name : ¬ (t.kind = .identifier ∧
      ∃ s ∈ (ts ++ semi.1 :: r).head?, s.kind = .symbol ∧ s.text = "=") := by
    rintro ⟨hx, s, hs, hk, heq⟩
    obtain ⟨rest, hrest⟩ := List.head?_eq_some_iff.1 hs
    have h : e.yield ++ semi.1 :: r = t :: s :: rest := by rw [he, ← hrest]; rfl
    exact e.not_assigned h ⟨hx, hk, heq⟩
  simp only [he, List.cons_append, formOf, if_neg name]
  simp only [StartsExpr, IsAtomToken, IsOperator] at ht
  grind

/-- The first tokens of a statement show its form. -/
theorem Stmt.formOf_yield {b : Bool} (s : Stmt b) (r : List Token) :
    formOf (s.yield ++ r) = s.form := by
  cases s with
  | expr e semi =>
    simp only [Stmt.yield, List.append_assoc, List.singleton_append, Stmt.form]
    exact formOf_expr e semi r
  | assign x eq e semi => simp [Stmt.yield, formOf, Stmt.form, x.2, eq.2.1, eq.2.2]
  | print word e semi => simp [Stmt.yield, formOf, Stmt.form, word.2.1, word.2.2]
  | branch word c body => simp [Stmt.yield, formOf, Stmt.form, word.2.1, word.2.2]
  | branchElse word c body alt other => simp [Stmt.yield, formOf, Stmt.form, word.2.1, word.2.2]
  | loop word c body => simp [Stmt.yield, formOf, Stmt.form, word.2.1, word.2.2]
  | block l body q semi => simp [Stmt.yield, formOf, Stmt.form, l.2.1, l.2.2]

theorem Stmt.form_eq {b b' : Bool} {d : Stmt b} {d' : Stmt b'} {r r' : List Token}
    (h : d.yield ++ r = d'.yield ++ r') : d.form = d'.form := by
  rw [← d.formOf_yield r, h, d'.formOf_yield r']

/-! ## Statements -/

/-- Statements with at most `n` tokens are determined by their tokens. -/
def DeterminedStmt (n : Nat) : Prop :=
  ∀ {b b' : Bool} (d : Stmt b) (d' : Stmt b') (r r' : List Token), d.yield.length ≤ n →
    d.yield ++ r = d'.yield ++ r' → Leaves b r → Leaves b' r' →
    (⟨b, d⟩ : Sigma Stmt) = ⟨b', d'⟩ ∧ r = r'

/-- A statement is not where a row of statements ends. -/
theorem Stmt.not_closes {b : Bool} (s : Stmt b) {ts r : List Token} (h : r = s.yield ++ ts) :
    ¬ Closes r := by
  obtain ⟨t, us, hs, ht⟩ := s.yield_eq_cons
  intro hr
  have := hr t (by rw [h, hs]; rfl)
  simp only [StartsStmt, StartsExpr, IsAtomToken, IsOperator] at ht
  grind

theorem stmts_unique {n : Nat} (ih : DeterminedStmt n) : (d d' : Stmts) → (r r' : List Token) →
    d.yield.length ≤ n → d.yield ++ r = d'.yield ++ r' → Closes r → Closes r' →
    d = d' ∧ r = r'
  | .nil, .nil, _, _, _, h, _, _ => ⟨rfl, h⟩
  | .nil, .cons s rest, _, r', _, h, hr, _ => by
    rw [Stmts.yield, Stmts.yield, List.nil_append, List.append_assoc] at h
    exact absurd hr (s.not_closes h)
  | .cons s rest, .nil, r, _, _, h, _, hr' => by
    rw [Stmts.yield, Stmts.yield, List.nil_append, List.append_assoc] at h
    exact absurd hr' (s.not_closes h.symm)
  | .cons s rest, .cons s' rest', r, r', hn, h, hr, hr' => by
    simp only [Stmts.yield, List.append_assoc, List.length_append] at h hn
    obtain ⟨hs, ht⟩ := ih s s' _ _ (by omega) h (rest.leaves hr) (rest'.leaves hr')
    obtain ⟨rfl, rfl⟩ := stmts_unique ih rest rest' r r' (by omega) ht hr hr'
    cases hs
    exact ⟨rfl, rfl⟩

/-- A `;` after a block is part of it. -/
theorem semicolon_unique {semi semi' : Option (Terminal .symbol ";")} {r r' : List Token}
    (h : (semi.map (·.1)).toList ++ r = (semi'.map (·.1)).toList ++ r') (hr : Leaves false r)
    (hr' : Leaves false r') : semi = semi' ∧ r = r' := by
  cases semi with
  | none =>
    cases semi' with
    | none => exact ⟨rfl, h⟩
    | some q =>
      subst h
      exact absurd q.2 (hr q.1 rfl).1
  | some p =>
    cases semi' with
    | none =>
      subst h
      exact absurd p.2 (hr' p.1 rfl).1
    | some q =>
      obtain ⟨hp, ht⟩ := List.cons.inj h
      exact ⟨congrArg some (Subtype.ext hp), ht⟩

/-- An `else` is where a branch without one does not end. -/
theorem Leaves.not_else {r ts : List Token} {alt : Terminal .keyword "else"} (h : Leaves true r)
    (hr : r = alt.1 :: ts) : False :=
  (h alt.1 (by rw [hr]; rfl)).2 rfl alt.2

section
variable {n : Nat} (ih : DeterminedStmt n) {b b' : Bool} {d' : Stmt b'} {r r' : List Token}
include ih

theorem branch_unique {word : Terminal .keyword "if"} {c : Test} {body : Stmt b}
    (hn : body.yield.length ≤ n) (h : (Stmt.branch word c body).yield ++ r = d'.yield ++ r')
    (hr : Leaves true r) (hr' : Leaves b' r') :
    (⟨true, .branch word c body⟩ : Sigma Stmt) = ⟨b', d'⟩ ∧ r = r' := by
  have hform := Stmt.form_eq h
  cases d' with
  | branch word' c' body' =>
    simp only [Stmt.yield, List.cons_append, List.append_assoc, List.cons.injEq] at h
    obtain ⟨hw, hc⟩ := h
    obtain ⟨rfl, hb⟩ := Test.unique hc
    obtain ⟨hbody, rfl⟩ := ih body body' r r' hn hb hr.weaken hr'.weaken
    cases hbody
    exact ⟨by rw [Subtype.ext hw], rfl⟩
  | branchElse word' c' body' alt' other' =>
    simp only [Stmt.yield, List.cons_append, List.append_assoc, List.cons.injEq] at h
    obtain ⟨rfl, hb⟩ := Test.unique h.2
    -- after the same body, one side goes on with an `else`, where the other ends
    obtain ⟨-, helse⟩ := ih body body' _ _ hn hb hr.weaken (leaves_cons_else alt'.2.1)
    exact (hr.not_else helse).elim
  | _ => cases hform

theorem branchElse_unique {word : Terminal .keyword "if"} {c : Test} {body : Stmt false}
    {alt : Terminal .keyword "else"} {other : Stmt b} (hn : body.yield.length ≤ n)
    (hn' : other.yield.length ≤ n)
    (h : (Stmt.branchElse word c body alt other).yield ++ r = d'.yield ++ r')
    (hr : Leaves b r) (hr' : Leaves b' r') :
    (⟨b, .branchElse word c body alt other⟩ : Sigma Stmt) = ⟨b', d'⟩ ∧ r = r' := by
  have hform := Stmt.form_eq h
  cases d' with
  | branch word' c' body' =>
    simp only [Stmt.yield, List.cons_append, List.append_assoc, List.cons.injEq] at h
    obtain ⟨rfl, hb⟩ := Test.unique h.2
    obtain ⟨-, helse⟩ := ih body body' _ _ hn hb (leaves_cons_else alt.2.1) hr'.weaken
    exact (hr'.not_else helse.symm).elim
  | branchElse word' c' body' alt' other' =>
    simp only [Stmt.yield, List.cons_append, List.append_assoc, List.cons.injEq] at h
    obtain ⟨hw, hc⟩ := h
    obtain ⟨rfl, hb⟩ := Test.unique hc
    obtain ⟨hbody, helse⟩ := ih body body' _ _ hn hb (leaves_cons_else alt.2.1)
      (leaves_cons_else alt'.2.1)
    obtain ⟨ha, ho⟩ := List.cons.inj helse
    obtain ⟨hother, rfl⟩ := ih other other' r r' hn' ho hr hr'
    cases hbody
    cases hother
    exact ⟨by rw [Subtype.ext hw, Subtype.ext ha], rfl⟩
  | _ => cases hform

theorem loop_unique {word : Terminal .keyword "while"} {c : Test} {body : Stmt b}
    (hn : body.yield.length ≤ n) (h : (Stmt.loop word c body).yield ++ r = d'.yield ++ r')
    (hr : Leaves b r) (hr' : Leaves b' r') :
    (⟨b, .loop word c body⟩ : Sigma Stmt) = ⟨b', d'⟩ ∧ r = r' := by
  have hform := Stmt.form_eq h
  cases d' with
  | loop word' c' body' =>
    simp only [Stmt.yield, List.cons_append, List.append_assoc, List.cons.injEq] at h
    obtain ⟨hw, hc⟩ := h
    obtain ⟨rfl, hb⟩ := Test.unique hc
    obtain ⟨hbody, rfl⟩ := ih body body' r r' hn hb hr hr'
    cases hbody
    exact ⟨by rw [Subtype.ext hw], rfl⟩
  | _ => cases hform

theorem block_unique {l : Terminal .symbol "\x7b"} {body : Stmts} {q : Terminal .symbol "\x7d"}
    {semi : Option (Terminal .symbol ";")} (hn : body.yield.length ≤ n)
    (h : (Stmt.block l body q semi).yield ++ r = d'.yield ++ r') (hr : Leaves false r)
    (hr' : Leaves b' r') :
    (⟨false, .block l body q semi⟩ : Sigma Stmt) = ⟨b', d'⟩ ∧ r = r' := by
  have hform := Stmt.form_eq h
  cases d' with
  | block l' body' q' semi' =>
    simp only [Stmt.yield, List.cons_append, List.append_assoc, List.cons.injEq] at h
    obtain ⟨hl, hb⟩ := h
    have closes : ∀ (p : Terminal .symbol "\x7d") (s : List Token), Closes (p.1 :: s) := by
      intro p s t ht
      cases ht
      exact Or.inl p.2
    obtain ⟨rfl, hrest⟩ := stmts_unique ih body body' _ _ hn hb (closes q _) (closes q' _)
    obtain ⟨hq, hs⟩ := List.cons.inj hrest
    obtain ⟨rfl, rfl⟩ := semicolon_unique hs hr hr'
    exact ⟨by rw [Subtype.ext hl, Subtype.ext hq], rfl⟩
  | _ => cases hform

end

theorem determinedStmt_succ {n : Nat} (ih : DeterminedStmt n) : DeterminedStmt (n + 1) := by
  intro b b' d d' r r' hn h hr hr'
  have hform := Stmt.form_eq h
  cases d with
  | expr e semi =>
    cases d' with
    | expr e' semi' =>
      simp only [Stmt.yield, List.append_assoc, List.singleton_append] at h
      obtain ⟨rfl, hs, rfl⟩ := Expr.unique_before_symbol h
      exact ⟨by rw [Subtype.ext hs], rfl⟩
    | _ => cases hform
  | assign x eq e semi =>
    cases d' with
    | assign x' eq' e' semi' =>
      simp only [Stmt.yield, List.cons_append, List.append_assoc, List.cons.injEq] at h
      obtain ⟨hx, heq, he⟩ := h
      obtain ⟨rfl, hs, rfl⟩ := Expr.unique_before_symbol he
      exact ⟨by rw [Subtype.ext hx, Subtype.ext heq, Subtype.ext hs], rfl⟩
    | _ => cases hform
  | print word e semi =>
    cases d' with
    | print word' e' semi' =>
      simp only [Stmt.yield, List.cons_append, List.append_assoc, List.cons.injEq] at h
      obtain ⟨hw, he⟩ := h
      obtain ⟨rfl, hs, rfl⟩ := Expr.unique_before_symbol he
      exact ⟨by rw [Subtype.ext hw, Subtype.ext hs], rfl⟩
    | _ => cases hform
  | branch word c body =>
    simp only [Stmt.yield, List.length_cons, List.length_append] at hn
    exact branch_unique ih (by omega) h hr hr'
  | branchElse word c body alt other =>
    simp only [Stmt.yield, List.length_cons, List.length_append] at hn
    exact branchElse_unique ih (by omega) (by omega) h hr hr'
  | loop word c body =>
    simp only [Stmt.yield, List.length_cons, List.length_append] at hn
    exact loop_unique ih (by omega) h hr hr'
  | block l body q semi =>
    simp only [Stmt.yield, List.length_cons, List.length_append] at hn
    exact block_unique ih (by omega) h hr hr'

theorem determinedStmt (n : Nat) : DeterminedStmt n := by
  induction n with
  | zero =>
    intro b b' d d' r r' hn
    obtain ⟨t, ts, hd, -⟩ := d.yield_eq_cons
    simp [hd] at hn
  | succ n ih => exact determinedStmt_succ ih

/-- **Programs are determined by their tokens.** -/
theorem Stmts.unique {d d' : Stmts} (h : d.yield = d'.yield) : d = d' := by
  have closes : Closes [] := by intro t ht; cases ht
  exact (stmts_unique (determinedStmt d.yield.length) d d' [] [] (Nat.le_refl _) (by rw [h])
    closes closes).1

end BlockScript.Grammar
