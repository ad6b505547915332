/-
  BlockScript — the shape of derivations: how they start, what may follow
  them, and the chains of operators that they are made of.

  * `StartsExpr`, `StartsStmt`: the first tokens of expressions and
    statements; both derive at least one token;
  * `Stops k rest`, `Leaves b rest`, `Closes rest`: what follows does not go
    on with an expression, a statement, or statements in a row;
  * `Expr.readable_binary`, `Stmt.readable_branch` and their like: the numbers
    of a derivation can be read exactly if those of its parts can;
  * `Expr.exists_links`: an expression of a level is an operand of the next
    tighter level, followed by links of an operator and an operand each.
-/
import BlockScript.Proofs.Grammar

namespace BlockScript.Grammar

/-! ## First tokens -/

/-- The token may be the first one of an expression. -/
def StartsExpr (t : Token) : Prop :=
  IsAtomToken t ∨ IsOperator prefixOps t ∨ (t.kind = .symbol ∧ t.text = "(")

/-- The token may be the first one of a statement. -/
def StartsStmt (t : Token) : Prop :=
  StartsExpr t ∨ (t.kind = .keyword ∧ (t.text = "print" ∨ t.text = "if" ∨ t.text = "while")) ∨
    (t.kind = .symbol ∧ t.text = "\x7b")

theorem IsAtomToken.kind_ne_operator {t : Token} (h : IsAtomToken t) : t.kind ≠ .operator := by
  rcases h with h | h | h | ⟨h, -⟩ <;> rw [h] <;> decide

theorem IsAtomToken.kind_ne_symbol {t : Token} (h : IsAtomToken t) : t.kind ≠ .symbol := by
  rcases h with h | h | h | ⟨h, -⟩ <;> rw [h] <;> decide

theorem Expr.yield_eq_cons : {k : Nat} → (e : Expr k) →
    ∃ t ts, e.yield = t :: ts ∧ StartsExpr t
  | _, .atom t h => ⟨t, [], rfl, Or.inl h⟩
  | _, .unary op e => ⟨op.1, e.yield, rfl, Or.inr (Or.inl op.2)⟩
  | _, .group l e r => ⟨l.1, e.yield ++ [r.1], rfl, Or.inr (Or.inr l.2)⟩
  | _, .tighter e => e.yield_eq_cons
  | _, .binary l op r => by
    obtain ⟨t, ts, h, ht⟩ := l.yield_eq_cons
    exact ⟨t, ts ++ op.1 :: r.yield, by rw [Expr.yield, h]; rfl, ht⟩

theorem Stmt.yield_eq_cons {b : Bool} (s : Stmt b) :
    ∃ t ts, s.yield = t :: ts ∧ StartsStmt t := by
  cases s with
  | expr e semi =>
    obtain ⟨t, ts, h, ht⟩ := e.yield_eq_cons
    exact ⟨t, ts ++ [semi.1], by rw [Stmt.yield, h]; rfl, Or.inl ht⟩
  | assign x eq e semi =>
    exact ⟨x.1, _, by rw [Stmt.yield], Or.inl (Or.inl (Or.inr (Or.inr (Or.inl x.2))))⟩
  | print word e semi =>
    exact ⟨word.1, _, by rw [Stmt.yield], Or.inr (Or.inl ⟨word.2.1, Or.inl word.2.2⟩)⟩
  | branch word c body =>
    exact ⟨word.1, _, by rw [Stmt.yield], Or.inr (Or.inl ⟨word.2.1, Or.inr (Or.inl word.2.2)⟩)⟩
  | branchElse word c body alt other =>
    exact ⟨word.1, _, by rw [Stmt.yield], Or.inr (Or.inl ⟨word.2.1, Or.inr (Or.inl word.2.2)⟩)⟩
  | loop word c body =>
    exact ⟨word.1, _, by rw [Stmt.yield], Or.inr (Or.inl ⟨word.2.1, Or.inr (Or.inr word.2.2)⟩)⟩
  | block l body r semi => exact ⟨l.1, _, by rw [Stmt.yield], Or.inr (Or.inr l.2)⟩

/-- A name that starts an expression is followed by an operator, or it is the
    whole expression. -/
theorem Expr.after_name : {k : Nat} → (e : Expr k) → {r : List Token} → {x t : Token} →
    {ts : List Token} → e.yield ++ r = x :: t :: ts → x.kind = .identifier →
    t.kind = .operator ∨ r = t :: ts
  | _, .atom _ _, _, _, _, _, h, _ => Or.inr (List.cons.inj h).2
  | _, .unary op _, _, _, _, _, h, hx => by
    rw [← (List.cons.inj h).1, op.2.1] at hx
    cases hx
  | _, .group l _ _, _, _, _, _, h, hx => by
    rw [← (List.cons.inj h).1, l.2.1] at hx
    cases hx
  | _, .tighter e, _, _, _, _, h, hx => e.after_name h hx
  | _, .binary l op _, _, _, _, _, h, hx => by
    rw [Expr.yield, List.append_assoc] at h
    rcases l.after_name h hx with ht | ht
    · exact Or.inl ht
    · rw [← (List.cons.inj ht).1]
      exact Or.inl op.2.1

/-- An expression and a `;` are no assignment. -/
theorem Expr.not_assigned {k : Nat} (e : Expr k) {semi : Terminal .symbol ";"} {r : List Token}
    {x t : Token} {ts : List Token} (h : e.yield ++ semi.1 :: r = x :: t :: ts) :
    ¬ (x.kind = .identifier ∧ t.kind = .symbol ∧ t.text = "=") := by
  rintro ⟨hx, hk, heq⟩
  rcases e.after_name h hx with hop | hr
  · rw [hk] at hop
    cases hop
  · rw [← (List.cons.inj hr).1, semi.2.2] at heq
    exact absurd heq (by decide)

/-! ## What may follow -/

/-- The levels have no operator in common. -/
theorem levelOps_disjoint {x : String} {j k : Nat} (hj : x ∈ levelOps j) (hk : x ∈ levelOps k) :
    j = k := by
  have level : ∀ {i : Nat}, x ∈ levelOps i →
      (i = 0 ∧ (x = "*" ∨ x = "/" ∨ x = "%")) ∨ (i = 1 ∧ (x = "+" ∨ x = "-")) ∨
        (i = 2 ∧ (x = "<" ∨ x = "<=" ∨ x = ">" ∨ x = ">=")) ∨ (i = 3 ∧ (x = "==" ∨ x = "!=")) := by
    intro i h
    rcases i with _ | _ | _ | _ | i <;> simp_all [levelOps]
  grind

/-- The first token of the rest does not go on with an expression over `k`
    levels. -/
def Stops (k : Nat) (rest : List Token) : Prop :=
  ∀ t ∈ rest.head?, ∀ j < k, ¬ IsOperator (levelOps j) t

theorem stops_cons_of_kind {k : Nat} {t : Token} {rest : List Token} (h : t.kind ≠ .operator) :
    Stops k (t :: rest) := by
  intro s hs j _ hop
  cases hs
  exact h hop.1

/-- An operator of a level ends the expressions of the tighter levels. -/
theorem stops_cons_operator {k : Nat} (op : Operator (levelOps k)) (rest : List Token) :
    Stops k (op.1 :: rest) := by
  intro s hs j hj hop
  cases hs
  exact absurd (levelOps_disjoint hop.2 op.2.2) (Nat.ne_of_lt hj)

/-- The first token of the rest does not go on with a statement: it is no `;`,
    and no `else` if the statement ends with a branch that may take one. -/
def Leaves (b : Bool) (rest : List Token) : Prop :=
  ∀ t ∈ rest.head?, ¬ (t.kind = .symbol ∧ t.text = ";") ∧
    (b = true → ¬ (t.kind = .keyword ∧ t.text = "else"))

/-- The rest is empty or starts with a token that closes statements in a
    row. -/
def Closes (rest : List Token) : Prop :=
  ∀ t ∈ rest.head?, (t.kind = .symbol ∧ t.text = "\x7d") ∨ t.kind = .endOfInput

theorem leaves_cons_else {t : Token} {rest : List Token} (h : t.kind = .keyword) :
    Leaves false (t :: rest) := by
  intro s hs
  cases hs
  simp [h]

theorem StartsStmt.leaves {b : Bool} {t : Token} {rest : List Token} (h : StartsStmt t) :
    Leaves b (t :: rest) := by
  intro s hs
  cases hs
  simp only [StartsStmt, StartsExpr, IsAtomToken, IsOperator] at h
  grind

theorem StartsStmt.not_isEnd {t : Token} (h : StartsStmt t) : t.isEnd = false := by
  simp only [StartsStmt, StartsExpr, IsAtomToken, IsOperator] at h
  simp only [Token.isEnd]
  grind

theorem Closes.leaves {b : Bool} {rest : List Token} (h : Closes rest) : Leaves b rest := by
  intro t ht
  rcases h t ht with ⟨hk, hx⟩ | hk <;> simp_all

theorem Leaves.weaken {b : Bool} {rest : List Token} (h : Leaves true rest) : Leaves b rest :=
  fun t ht => ⟨(h t ht).1, fun _ => (h t ht).2 rfl⟩

/-- A statement is left where the next one starts, or where what comes after
    them does not go on with it. -/
theorem Leaves.after_stmts {b : Bool} {after : List Token} (h : Leaves true after) (rest : Stmts) :
    Leaves b (rest.yield ++ after) := by
  cases rest with
  | nil => exact h.weaken
  | cons s rest =>
    obtain ⟨t, ts, hs, ht⟩ := s.yield_eq_cons
    rw [Stmts.yield, hs]
    exact ht.leaves

/-- A statement is left where the next one starts, or where the row ends. -/
theorem Stmts.leaves {b : Bool} (rest : Stmts) {after : List Token} (h : Closes after) :
    Leaves b (rest.yield ++ after) :=
  h.leaves.after_stmts rest

/-! ## Numbers -/

theorem readable_append {ts us : List Token} :
    Readable (ts ++ us) ↔ Readable ts ∧ Readable us := by
  simp only [Readable, List.forall_mem_append]

theorem readable_cons {t : Token} {ts : List Token} (h : t.kind ≠ .number) :
    Readable (t :: ts) ↔ Readable ts := by
  simp only [Readable, List.forall_mem_cons, h, false_implies, true_and]

theorem readable_nil : Readable [] := by
  simp [Readable]

@[simp] theorem Expr.readable_unary (op : Operator prefixOps) (e : Expr 0) :
    Readable (Expr.unary op e).yield ↔ Readable e.yield := by
  simp [Expr.yield, readable_cons, op.2.1]

@[simp] theorem Expr.readable_group (l : Terminal .symbol "(") (e : Expr 4)
    (r : Terminal .symbol ")") : Readable (Expr.group l e r).yield ↔ Readable e.yield := by
  simp [Expr.yield, readable_cons, readable_append, readable_nil, l.2.1, r.2.1]

@[simp] theorem Expr.readable_binary {k : Nat} (l : Expr (k + 1)) (op : Operator (levelOps k))
    (r : Expr k) :
    Readable (Expr.binary l op r).yield ↔ Readable l.yield ∧ Readable r.yield := by
  simp [Expr.yield, readable_cons, readable_append, op.2.1]

@[simp] theorem Test.readable (c : Test) : Readable c.yield ↔ Readable c.e.yield := by
  simp [Test.yield, readable_cons, readable_append, readable_nil, c.l.2.1, c.r.2.1]

section Stmt

variable {b : Bool} (e : Expr 4) (c : Test) (semi : Terminal .symbol ";")

@[simp] theorem Stmt.readable_expr : Readable (Stmt.expr e semi).yield ↔ Readable e.yield := by
  simp [Stmt.yield, readable_cons, readable_append, readable_nil, semi.2.1]

@[simp] theorem Stmt.readable_assign (x : {t : Token // t.kind = .identifier})
    (eq : Terminal .symbol "=") :
    Readable (Stmt.assign x eq e semi).yield ↔ Readable e.yield := by
  simp [Stmt.yield, readable_cons, readable_append, readable_nil, x.2, eq.2.1, semi.2.1]

@[simp] theorem Stmt.readable_print (word : Terminal .keyword "print") :
    Readable (Stmt.print word e semi).yield ↔ Readable e.yield := by
  simp [Stmt.yield, readable_cons, readable_append, readable_nil, word.2.1, semi.2.1]

@[simp] theorem Stmt.readable_branch (word : Terminal .keyword "if") (body : Stmt b) :
    Readable (Stmt.branch word c body).yield ↔ Readable c.e.yield ∧ Readable body.yield := by
  simp [Stmt.yield, readable_cons, readable_append, word.2.1]

@[simp] theorem Stmt.readable_branchElse (word : Terminal .keyword "if") (body : Stmt false)
    (alt : Terminal .keyword "else") (other : Stmt b) :
    Readable (Stmt.branchElse word c body alt other).yield ↔
      Readable c.e.yield ∧ Readable body.yield ∧ Readable other.yield := by
  simp [Stmt.yield, readable_cons, readable_append, word.2.1, alt.2.1]

@[simp] theorem Stmt.readable_loop (word : Terminal .keyword "while") (body : Stmt b) :
    Readable (Stmt.loop word c body).yield ↔ Readable c.e.yield ∧ Readable body.yield := by
  simp [Stmt.yield, readable_cons, readable_append, word.2.1]

@[simp] theorem Stmt.readable_block (l : Terminal .symbol "\x7b") (body : Stmts)
    (r : Terminal .symbol "\x7d") (end? : Option (Terminal .symbol ";")) :
    Readable (Stmt.block l body r end?).yield ↔ Readable body.yield := by
  cases end? with
  | none => simp [Stmt.yield, readable_cons, readable_append, readable_nil, l.2.1, r.2.1]
  | some semi =>
    simp [Stmt.yield, readable_cons, readable_append, readable_nil, l.2.1, r.2.1, semi.2.1]

@[simp] theorem Stmts.readable_cons (s : Stmt b) (rest : Stmts) :
    Readable (Stmts.cons s rest).yield ↔ Readable s.yield ∧ Readable rest.yield := by
  simp [Stmts.yield, readable_append]

end Stmt

/-! ## End tokens -/

theorem Expr.yield_noEnd : {k : Nat} → (e : Expr k) → ∀ t ∈ e.yield, t.kind ≠ .endOfInput
  | _, .atom t h => by
    intro s hs
    rw [List.mem_singleton.1 hs]
    rcases h with h | h | h | ⟨h, -⟩ <;> rw [h] <;> decide
  | _, .unary op e => by
    simp only [Expr.yield, List.forall_mem_cons, op.2.1]
    exact ⟨by decide, e.yield_noEnd⟩
  | _, .group l e r => by
    simp only [Expr.yield, List.forall_mem_cons, List.forall_mem_append, l.2.1, r.2.1]
    exact ⟨by decide, e.yield_noEnd, by decide, by simp⟩
  | _, .tighter e => e.yield_noEnd
  | _, .binary l op r => by
    simp only [Expr.yield, List.forall_mem_cons, List.forall_mem_append, op.2.1]
    exact ⟨l.yield_noEnd, by decide, r.yield_noEnd⟩

theorem Test.yield_noEnd (c : Test) : ∀ t ∈ c.yield, t.kind ≠ .endOfInput := by
  simp only [Test.yield, List.forall_mem_cons, List.forall_mem_append, c.l.2.1, c.r.2.1]
  exact ⟨by decide, c.e.yield_noEnd, by decide, by simp⟩

mutual

theorem Stmt.yield_noEnd : {b : Bool} → (s : Stmt b) → ∀ t ∈ s.yield, t.kind ≠ .endOfInput
  | _, .expr e semi => by
    simp only [Stmt.yield, List.forall_mem_cons, List.forall_mem_append, semi.2.1]
    exact ⟨e.yield_noEnd, by decide, by simp⟩
  | _, .assign x eq e semi => by
    simp only [Stmt.yield, List.forall_mem_cons, List.forall_mem_append, x.2, eq.2.1, semi.2.1]
    exact ⟨by decide, by decide, e.yield_noEnd, by decide, by simp⟩
  | _, .print word e semi => by
    simp only [Stmt.yield, List.forall_mem_cons, List.forall_mem_append, word.2.1, semi.2.1]
    exact ⟨by decide, e.yield_noEnd, by decide, by simp⟩
  | _, .branch word c body => by
    simp only [Stmt.yield, List.forall_mem_cons, List.forall_mem_append, word.2.1]
    exact ⟨by decide, c.yield_noEnd, body.yield_noEnd⟩
  | _, .branchElse word c body alt other => by
    simp only [Stmt.yield, List.forall_mem_cons, List.forall_mem_append, word.2.1, alt.2.1]
    exact ⟨by decide, c.yield_noEnd, body.yield_noEnd, by decide, other.yield_noEnd⟩
  | _, .loop word c body => by
    simp only [Stmt.yield, List.forall_mem_cons, List.forall_mem_append, word.2.1]
    exact ⟨by decide, c.yield_noEnd, body.yield_noEnd⟩
  | _, .block l body r semi => by
    simp only [Stmt.yield, List.forall_mem_cons, List.forall_mem_append, l.2.1, r.2.1]
    refine ⟨by decide, body.yield_noEnd, by decide, ?_⟩
    cases semi with
    | none => simp
    | some semi => simp [semi.2.1]

theorem Stmts.yield_noEnd : (ss : Stmts) → ∀ t ∈ ss.yield, t.kind ≠ .endOfInput
  | .nil => by simp [Stmts.yield]
  | .cons s rest => by
    simp only [Stmts.yield, List.forall_mem_append]
    exact ⟨s.yield_noEnd, rest.yield_noEnd⟩

end

/-! ## Chains -/

/-- An operator of a level and the operand after it. -/
abbrev Link (k : Nat) : Type := Operator (levelOps k) × Expr k

/-- The tokens of links. -/
def linksYield {k : Nat} (links : List (Link k)) : List Token :=
  links.flatMap fun link => link.1.1 :: link.2.yield

theorem linksYield_cons {k : Nat} (op : Operator (levelOps k)) (e : Expr k)
    (links : List (Link k)) :
    linksYield ((op, e) :: links) = op.1 :: (e.yield ++ linksYield links) := by
  simp [linksYield]

/-- The operand in front of links ends where they start, or where they all
    end. -/
theorem Stops.links {k : Nat} {rest : List Token} (h : Stops (k + 1) rest)
    (links : List (Link k)) : Stops k (linksYield links ++ rest) := by
  cases links with
  | nil => exact fun t ht j hj => h t ht j (by omega)
  | cons link links => exact stops_cons_operator link.1 _

/-- Join an expression with the links after it, from left to right. -/
def Expr.extend {k : Nat} (e : Expr (k + 1)) (links : List (Link k)) : Expr (k + 1) :=
  links.foldl (fun l link => .binary l link.1 link.2) e

theorem Expr.yield_extend {k : Nat} (e : Expr (k + 1)) (links : List (Link k)) :
    (e.extend links).yield = e.yield ++ linksYield links := by
  induction links generalizing e with
  | nil => simp [Expr.extend, linksYield]
  | cons link links ih =>
    have h := ih (.binary e link.1 link.2)
    simp only [Expr.extend, List.foldl_cons] at h ⊢
    rw [h, Expr.yield, linksYield_cons, List.append_assoc, List.cons_append]

/-- An expression of a level is an operand and the links after it. -/
theorem Expr.exists_links {k : Nat} : (d : Expr (k + 1)) →
    ∃ (e : Expr k) (links : List (Link k)), d = (Expr.tighter e).extend links
  | .tighter e => ⟨e, [], rfl⟩
  | .binary l op r => by
    obtain ⟨e, links, h⟩ := l.exists_links
    refine ⟨e, links ++ [(op, r)], ?_⟩
    rw [h, Expr.extend, Expr.extend, List.foldl_append]
    rfl

end BlockScript.Grammar
