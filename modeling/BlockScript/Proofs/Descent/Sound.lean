/-
  BlockScript — what recursive descent accepts, the grammar derives.

  Whatever a reader takes off the front of the tokens is derived by the
  grammar, within the levels of nesting that it was given, and its result is
  the tree of that derivation.

  * `expression_sound`, `statement_sound`, `program_sound`.
-/
import BlockScript.Descent.Statement
import BlockScript.Proofs.Descent.Reader
import BlockScript.Proofs.Grammar.Shape

namespace BlockScript.Descent

open Grammar

/-! ## Expressions -/

/-- The expression is what was taken from the front of `ts` within `n` levels:
    `e` is its tree, and `rest` is left. -/
structure Taken {k : Nat} (d : Expr k) (n : Nat) (ts : List Token) (e : Node)
    (rest : List Token) : Prop where
  tokens : ts = d.yield ++ rest
  readable : Readable d.yield
  nesting : d.nesting ≤ n
  tree : d.tree = e

/-- The reader takes expressions over `k` levels of operators, within `n`
    levels of nesting. -/
def TakesExpr (k n : Nat) (r : Reader Node) : Prop :=
  ∀ ⦃ts rest : List Token⦄ ⦃e : Node⦄, r ts = .ok (e, rest) → ∃ d : Expr k, Taken d n ts e rest

/-- An expression and a symbol after it. -/
theorem TakesExpr.before_symbol {k n : Nat} {r : Reader Node} (h : TakesExpr k n r)
    {text : String} {f : Node → Node} {ts rest : List Token} {e : Node}
    (he : (r >>= fun e => symbol text >>= fun _ => pure (f e)) ts = .ok (e, rest)) :
    ∃ (d : Expr k) (s : Terminal .symbol text), ts = d.yield ++ s.1 :: rest ∧
      Readable d.yield ∧ d.nesting ≤ n ∧ f d.tree = e := by
  obtain ⟨inner, mid, hd, he⟩ := bind_eq_ok_iff.1 he
  obtain ⟨u, mid', hs, hp⟩ := bind_eq_ok_iff.1 he
  obtain ⟨rfl, rfl⟩ := pure_eq_ok_iff.1 hp
  obtain ⟨s, rfl⟩ := symbol_eq_ok hs
  obtain ⟨d, rfl, hread, hnest, rfl⟩ := h hd
  exact ⟨d, s, rfl, hread, hnest, rfl⟩

theorem chainFrom_sound {k n : Nat} {operand : Reader Node} (h : TakesExpr k n operand)
    {fuel : Nat} {l : Expr (k + 1)} {ts rest : List Token} {e : Node} (hl : Readable l.yield)
    (hn : l.nesting ≤ n) (he : chainFrom (levelOps k) operand fuel l.tree ts = .ok (e, rest)) :
    ∃ d : Expr (k + 1), Taken d n (l.yield ++ ts) e rest := by
  induction fuel generalizing l ts with
  | zero =>
    obtain ⟨rfl, rfl⟩ := pure_eq_ok_iff.1 he
    exact ⟨l, rfl, hl, hn, rfl⟩
  | succ fuel ih =>
    rw [chainFrom] at he
    obtain ⟨next, mid, hop, he⟩ := bind_eq_ok_iff.1 he
    cases next with
    | none =>
      obtain ⟨rfl, rfl⟩ := pure_eq_ok_iff.1 he
      rw [acceptOperator_eq_none hop]
      exact ⟨l, rfl, hl, hn, rfl⟩
    | some x =>
      obtain ⟨op, rfl, rfl⟩ := acceptOperator_eq_some hop
      obtain ⟨right, mid', hr, he⟩ := bind_eq_ok_iff.1 he
      obtain ⟨r, rfl, hread, hnest, rfl⟩ := h hr
      have hyield := (Expr.readable_binary l op r).2 ⟨hl, hread⟩
      have hnesting : (Expr.binary l op r).nesting ≤ n := by rw [Expr.nesting]; omega
      obtain ⟨d, hd⟩ := ih (l := .binary l op r) hyield hnesting he
      refine ⟨d, ?_, hd.readable, hd.nesting, hd.tree⟩
      rw [← hd.tokens, Expr.yield]
      simp only [List.append_assoc, List.cons_append]

theorem chain_sound {k n : Nat} {operand : Reader Node} (h : TakesExpr k n operand) :
    TakesExpr (k + 1) n (chain (levelOps k) operand) := by
  intro ts rest e he
  obtain ⟨left, mid, hl, he⟩ := bind_eq_ok_iff.1 he
  obtain ⟨d, rfl, hread, hnest, rfl⟩ := h hl
  exact chainFrom_sound h (l := .tighter d) hread hnest he

theorem expressionOver_sound {n : Nat} {operand : Reader Node} (h : TakesExpr 0 n operand) :
    TakesExpr 4 n (expressionOver operand) :=
  chain_sound (chain_sound (chain_sound (chain_sound h)))

/-- A token that is an atom, taken alone. -/
theorem taken_atom {n : Nat} {ts : List Token} {e : Node} (h : IsAtomToken (next ts))
    (hread : (next ts).kind = .number → (readNumber? (next ts).text).isSome)
    (he : atomTree (next ts) = e) : Taken (.atom (next ts) h) n ts e ts.tail where
  tokens := eq_next_cons (by rcases h with h | h | h | ⟨h, -⟩ <;> rw [h] <;> decide)
  readable := by simpa [Readable, Expr.yield] using hread
  nesting := Nat.zero_le n
  tree := he

theorem atom_sound {n : Nat} : TakesExpr 0 n atom := by
  intro ts rest e he
  obtain ⟨t, mid, hpeek, he⟩ := bind_eq_ok_iff.1 he
  cases hpeek
  cases hk : (next ts).kind with
  | number =>
    simp only [hk] at he
    obtain ⟨t, mid, htake, he⟩ := bind_eq_ok_iff.1 he
    cases htake
    cases hx : readNumber? (next ts).text with
    | none => rw [hx] at he; cases he
    | some x =>
      rw [hx] at he
      obtain ⟨rfl, rfl⟩ := pure_eq_ok_iff.1 he
      exact ⟨_, taken_atom (Or.inl hk) (by simp [hx]) (by simp [atomTree, hk, hx])⟩
  | string =>
    simp only [hk] at he
    obtain ⟨t, mid, htake, he⟩ := bind_eq_ok_iff.1 he
    cases htake
    obtain ⟨rfl, rfl⟩ := pure_eq_ok_iff.1 he
    exact ⟨_, taken_atom (Or.inr (Or.inl hk)) (by simp [hk]) (by simp [atomTree, hk])⟩
  | identifier =>
    simp only [hk] at he
    obtain ⟨t, mid, htake, he⟩ := bind_eq_ok_iff.1 he
    cases htake
    obtain ⟨rfl, rfl⟩ := pure_eq_ok_iff.1 he
    exact ⟨_, taken_atom (Or.inr (Or.inr (Or.inl hk))) (by simp [hk]) (by simp [atomTree, hk])⟩
  | keyword =>
    simp only [hk] at he
    split at he
    · next htext =>
      obtain ⟨t, mid, htake, he⟩ := bind_eq_ok_iff.1 he
      cases htake
      obtain ⟨rfl, rfl⟩ := pure_eq_ok_iff.1 he
      simp only [Bool.or_eq_true, decide_eq_true_eq] at htext
      exact ⟨_, taken_atom (Or.inr (Or.inr (Or.inr ⟨hk, htext⟩))) (by simp [hk])
        (by simp [atomTree, hk])⟩
    · cases he
  | operator | symbol | endOfInput => simp only [hk] at he; cases he

theorem operand_sound (n : Nat) : TakesExpr 0 n (operand n) := by
  induction n with
  | zero =>
    intro ts rest e he
    rw [operand] at he
    obtain ⟨t, mid, hpeek, he⟩ := bind_eq_ok_iff.1 he
    cases hpeek
    split at he
    · cases he
    · split at he
      · cases he
      · exact atom_sound he
  | succ n ih =>
    intro ts rest e he
    rw [operand] at he
    obtain ⟨t, mid, hpeek, he⟩ := bind_eq_ok_iff.1 he
    cases hpeek
    split at he
    · next hop =>
      simp only [Bool.and_eq_true, decide_eq_true_eq, List.contains_iff_mem] at hop
      obtain ⟨t, mid, htake, he⟩ := bind_eq_ok_iff.1 he
      cases htake
      obtain ⟨inner, mid, hd, he⟩ := bind_eq_ok_iff.1 he
      obtain ⟨rfl, rfl⟩ := pure_eq_ok_iff.1 he
      obtain ⟨d, htokens, hread, hnest, rfl⟩ := ih hd
      refine ⟨.unary ⟨next ts, hop⟩ d, ?_, ?_, Nat.succ_le_succ hnest, rfl⟩
      · rw [Expr.yield, List.cons_append, ← htokens]
        exact eq_next_cons (by simp [hop.1])
      · exact (Expr.readable_unary _ d).2 hread
    · split at he
      · next hl =>
        have hl := Token.is_iff.1 hl
        obtain ⟨t, mid, htake, he⟩ := bind_eq_ok_iff.1 he
        cases htake
        obtain ⟨d, r, htokens, hread, hnest, rfl⟩ := (expressionOver_sound ih).before_symbol he
        refine ⟨.group ⟨next ts, hl⟩ d r, ?_, ?_, Nat.succ_le_succ hnest, rfl⟩
        · rw [Expr.yield, List.cons_append, List.append_assoc, List.singleton_append, ← htokens]
          exact eq_next_cons (by simp [hl.1])
        · exact (Expr.readable_group _ d r).2 hread
      · exact atom_sound he

theorem expression_sound (n : Nat) : TakesExpr 4 n (expression n) :=
  expressionOver_sound (operand_sound n)

/-! ## Statements -/

/-- The statement is what was taken from the front of `ts` within `n` levels,
    and no `else` is left that belongs to it. -/
structure TakenStmt {b : Bool} (s : Stmt b) (n : Nat) (ts : List Token) (e : Node)
    (rest : List Token) : Prop where
  tokens : ts = s.yield ++ rest
  readable : Readable s.yield
  nesting : s.nesting ≤ n
  tree : s.tree = e
  noElse : b = true → ¬ ((next rest).kind = .keyword ∧ (next rest).text = "else")

/-- The reader takes statements within `n` levels of nesting. -/
def TakesStmt (n : Nat) (r : Reader Node) : Prop :=
  ∀ ⦃ts rest : List Token⦄ ⦃e : Node⦄, r ts = .ok (e, rest) →
    ∃ (b : Bool) (s : Stmt b), TakenStmt s n ts e rest

/-- The statements in a row are what was taken from the front of `ts` within
    `n` levels. -/
structure TakenStmts (ss : Stmts) (n : Nat) (ts : List Token) (es : List Node)
    (rest : List Token) : Prop where
  tokens : ts = ss.yield ++ rest
  readable : Readable ss.yield
  nesting : ss.nesting ≤ n
  trees : ss.trees = es

theorem kind_of_startsAssignment {ts : List Token} (h : startsAssignment ts = true) :
    (next ts).kind = .identifier := by
  unfold startsAssignment at h
  split at h
  · simp only [Bool.and_eq_true, decide_eq_true_eq] at h
    exact h.1
  · cases h

theorem simpleStatement_sound {n : Nat} {expression : Reader Node}
    (h : TakesExpr 4 n expression) : TakesStmt n (simpleStatement expression) := by
  intro ts rest e hstmt
  obtain ⟨isPrint, mid, hprint, hform⟩ := bind_eq_ok_iff.1 hstmt
  cases isPrint with
  | true =>
    obtain ⟨word, rfl⟩ := accept_eq_true (by decide) hprint
    obtain ⟨d, semi, rfl, hread, hnest, rfl⟩ := h.before_symbol hform
    refine ⟨false, .print word d semi, by simp [Stmt.yield], ?_, hnest, rfl, by simp⟩
    exact (Stmt.readable_print d semi word).2 hread
  | false =>
    obtain ⟨rfl, -⟩ := accept_eq_false hprint
    obtain ⟨all, mid, hget, he⟩ := bind_eq_ok_iff.1 hform
    cases hget
    split at he
    · next hassign =>
      obtain ⟨x, mid, htake, hassign'⟩ := bind_eq_ok_iff.1 he
      cases htake
      obtain ⟨u, mid, heq, hvalue⟩ := bind_eq_ok_iff.1 hassign'
      obtain ⟨eq, htail⟩ := symbol_eq_ok heq
      obtain ⟨d, semi, rfl, hread, hnest, rfl⟩ := h.before_symbol hvalue
      have hx := kind_of_startsAssignment hassign
      refine ⟨false, .assign ⟨next ts, hx⟩ eq d semi, ?_, ?_, hnest, rfl, by simp⟩
      · exact (eq_next_cons (by simp [hx])).trans (by rw [htail]; simp [Stmt.yield])
      · exact (Stmt.readable_assign d semi _ eq).2 hread
    · obtain ⟨d, semi, rfl, hread, hnest, rfl⟩ := h.before_symbol he
      refine ⟨false, .expr d semi, by simp [Stmt.yield], ?_, hnest, rfl, by simp⟩
      exact (Stmt.readable_expr d semi).2 hread

theorem condition_sound {n : Nat} {expression : Reader Node} (h : TakesExpr 4 n expression)
    {ts rest : List Token} {e : Node} (he : condition expression ts = .ok (e, rest)) :
    ∃ c : Test, ts = c.yield ++ rest ∧ Readable c.e.yield ∧ c.e.nesting ≤ n ∧ c.e.tree = e := by
  obtain ⟨u, mid, hl, hinner⟩ := bind_eq_ok_iff.1 he
  obtain ⟨l, rfl⟩ := symbol_eq_ok hl
  obtain ⟨d, r, rfl, hread, hnest, rfl⟩ := h.before_symbol hinner
  exact ⟨⟨l, d, r⟩, by simp [Test.yield], hread, hnest, rfl⟩

section
variable {n : Nat} {expression statement : Reader Node} (he : TakesExpr 4 n expression)
  (hs : TakesStmt n statement) {ts rest : List Token} {e : Node}

include he hs in
theorem branch_sound (word : Terminal .keyword "if")
    (h : branch expression statement ts = .ok (e, rest)) :
    ∃ (b : Bool) (s : Stmt b), TakenStmt s (n + 1) (word.1 :: ts) e rest := by
  obtain ⟨test, mid, hc, h⟩ := bind_eq_ok_iff.1 h
  obtain ⟨c, rfl, hcread, hcnest, rfl⟩ := condition_sound he hc
  obtain ⟨body, mid, hbody, h⟩ := bind_eq_ok_iff.1 h
  obtain ⟨b, s, rfl, hread, hnest, rfl, hno⟩ := hs hbody
  obtain ⟨isElse, mid, helse, hother⟩ := bind_eq_ok_iff.1 h
  cases isElse with
  | true =>
    obtain ⟨alt, rfl⟩ := accept_eq_true (by decide) helse
    obtain ⟨other, mid, ho, hp⟩ := bind_eq_ok_iff.1 hother
    obtain ⟨rfl, rfl⟩ := pure_eq_ok_iff.1 hp
    obtain ⟨b', o, rfl, horead, honest, rfl, hono⟩ := hs ho
    -- the body has its own `else`, or it would have taken this one
    cases b with
    | true => exact absurd alt.2 (hno rfl)
    | false =>
      refine ⟨b', .branchElse word c s alt o, by simp [Stmt.yield], ?_, ?_, rfl, hono⟩
      · exact (Stmt.readable_branchElse c word s alt o).2 ⟨hcread, hread, horead⟩
      · rw [Stmt.nesting]; omega
  | false =>
    obtain ⟨rfl, hno'⟩ := accept_eq_false helse
    obtain ⟨rfl, rfl⟩ := pure_eq_ok_iff.1 hother
    refine ⟨true, .branch word c s, by simp [Stmt.yield], ?_, ?_, rfl, fun _ => hno'⟩
    · exact (Stmt.readable_branch c word s).2 ⟨hcread, hread⟩
    · rw [Stmt.nesting]; omega

include he hs in
theorem loop_sound (word : Terminal .keyword "while")
    (h : loop expression statement ts = .ok (e, rest)) :
    ∃ (b : Bool) (s : Stmt b), TakenStmt s (n + 1) (word.1 :: ts) e rest := by
  obtain ⟨test, mid, hc, h⟩ := bind_eq_ok_iff.1 h
  obtain ⟨c, rfl, hcread, hcnest, rfl⟩ := condition_sound he hc
  obtain ⟨body, mid, hbody, hp⟩ := bind_eq_ok_iff.1 h
  obtain ⟨rfl, rfl⟩ := pure_eq_ok_iff.1 hp
  obtain ⟨b, s, rfl, hread, hnest, rfl, hno⟩ := hs hbody
  refine ⟨b, .loop word c s, by simp [Stmt.yield], ?_, ?_, rfl, hno⟩
  · exact (Stmt.readable_loop c word s).2 ⟨hcread, hread⟩
  · rw [Stmt.nesting]; omega

/-- Statements in a row, up to a token that stops them.  Each takes a token,
    so a bound that is the number of tokens is not reached. -/
theorem manyUntil_sound {stop : Token → Bool} (hend : ∀ t : Token, t.isEnd → stop t)
    (hs : TakesStmt n statement) {fuel : Nat} {es : List Node} (hfuel : ts.length ≤ fuel)
    (h : manyUntil stop statement fuel ts = .ok (es, rest)) :
    ∃ ss : Stmts, TakenStmts ss n ts es rest ∧ stop (next rest) = true := by
  induction fuel generalizing ts es with
  | zero =>
    obtain ⟨rfl, rfl⟩ := pure_eq_ok_iff.1 h
    rw [List.length_eq_zero_iff.1 (Nat.le_zero.1 hfuel)]
    exact ⟨.nil, ⟨rfl, readable_nil, Nat.zero_le n, rfl⟩, hend _ rfl⟩
  | succ fuel ih =>
    rw [manyUntil] at h
    obtain ⟨t, mid, hpeek, h⟩ := bind_eq_ok_iff.1 h
    cases hpeek
    split at h
    · next hstop =>
      obtain ⟨rfl, rfl⟩ := pure_eq_ok_iff.1 h
      exact ⟨.nil, ⟨rfl, readable_nil, Nat.zero_le n, rfl⟩, hstop⟩
    · obtain ⟨first, mid, hfirst, h⟩ := bind_eq_ok_iff.1 h
      obtain ⟨b, s, rfl, hread, hnest, rfl, -⟩ := hs hfirst
      obtain ⟨others, mid, hothers, hp⟩ := bind_eq_ok_iff.1 h
      obtain ⟨rfl, rfl⟩ := pure_eq_ok_iff.1 hp
      obtain ⟨t, us, hy, -⟩ := s.yield_eq_cons
      obtain ⟨ss, hss, hstop⟩ := ih (by simp [hy] at hfuel; omega) hothers
      refine ⟨.cons s ss, ⟨?_, ?_, ?_, ?_⟩, hstop⟩
      · rw [Stmts.yield, List.append_assoc, ← hss.tokens]
      · exact (Stmts.readable_cons s ss).2 ⟨hread, hss.readable⟩
      · rw [Stmts.nesting]
        exact Nat.max_le.2 ⟨hnest, hss.nesting⟩
      · rw [Stmts.trees, hss.trees]

include hs in
theorem block_sound (l : Terminal .symbol "\x7b") (h : block statement ts = .ok (e, rest)) :
    ∃ (b : Bool) (s : Stmt b), TakenStmt s (n + 1) (l.1 :: ts) e rest := by
  obtain ⟨all, mid, hget, h⟩ := bind_eq_ok_iff.1 h
  cases hget
  obtain ⟨es, mid, hbody, h⟩ := bind_eq_ok_iff.1 h
  have hend : ∀ t : Token, t.isEnd → endsBlock t := fun t ht => by simp [endsBlock, ht]
  obtain ⟨ss, ⟨rfl, hread, hnest, rfl⟩, -⟩ := manyUntil_sound hend hs (Nat.le_refl _) hbody
  obtain ⟨u, mid, hr, hrest⟩ := bind_eq_ok_iff.1 h
  obtain ⟨r, rfl⟩ := symbol_eq_ok hr
  obtain ⟨isSemi, mid, hsemi, hp⟩ := bind_eq_ok_iff.1 hrest
  obtain ⟨rfl, rfl⟩ := pure_eq_ok_iff.1 hp
  have hblock := fun semi => (Stmt.readable_block l ss r semi).2 hread
  cases isSemi with
  | true =>
    obtain ⟨semi, rfl⟩ := accept_eq_true (by decide) hsemi
    exact ⟨false, .block l ss r (some semi), by simp [Stmt.yield], hblock _,
      Nat.succ_le_succ hnest, rfl, by simp⟩
  | false =>
    obtain ⟨rfl, -⟩ := accept_eq_false hsemi
    exact ⟨false, .block l ss r none, by simp [Stmt.yield], hblock _,
      Nat.succ_le_succ hnest, rfl, by simp⟩

include he hs in
theorem compoundStatement_sound : TakesStmt (n + 1) (compoundStatement expression statement) := by
  intro ts rest e h
  obtain ⟨isIf, mid, hif, hform⟩ := bind_eq_ok_iff.1 h
  cases isIf with
  | true =>
    obtain ⟨word, rfl⟩ := accept_eq_true (by decide) hif
    exact branch_sound he hs word hform
  | false =>
    obtain ⟨rfl, -⟩ := accept_eq_false hif
    obtain ⟨isWhile, mid, hwhile, hother⟩ := bind_eq_ok_iff.1 hform
    cases isWhile with
    | true =>
      obtain ⟨word, rfl⟩ := accept_eq_true (by decide) hwhile
      exact loop_sound he hs word hother
    | false =>
      obtain ⟨rfl, -⟩ := accept_eq_false hwhile
      obtain ⟨u, mid, hl, hblock⟩ := bind_eq_ok_iff.1 hother
      obtain ⟨l, rfl⟩ := symbol_eq_ok hl
      exact block_sound hs l hblock

end

theorem statement_sound (n : Nat) : TakesStmt n (statement n) := by
  induction n with
  | zero =>
    intro ts rest e h
    rw [statement] at h
    obtain ⟨t, mid, hpeek, h⟩ := bind_eq_ok_iff.1 h
    cases hpeek
    split at h
    · cases h
    · exact simpleStatement_sound (expression_sound 0) h
  | succ n ih =>
    intro ts rest e h
    rw [statement] at h
    obtain ⟨t, mid, hpeek, h⟩ := bind_eq_ok_iff.1 h
    cases hpeek
    split at h
    · exact compoundStatement_sound (expression_sound n) ih h
    · exact simpleStatement_sound (expression_sound (n + 1)) h

/-- **What recursive descent accepts, the grammar derives.** -/
theorem program_sound {ts rest : List Token} {es : List Node} (h : program ts = .ok (es, rest)) :
    ∃ ss : Stmts, TakenStmts ss maxNesting ts es rest ∧ (next rest).isEnd = true := by
  obtain ⟨all, mid, hget, h⟩ := bind_eq_ok_iff.1 h
  cases hget
  exact manyUntil_sound (fun _ ht => ht) (statement_sound maxNesting) (Nat.le_refl _) h

end BlockScript.Descent
