/-
  BlockScript — what the grammar derives, the pushdown machine accepts.

  The machine finishes an operator only when a looser one comes, so after an
  expression some of its operators may still be unfinished.  What counts is
  that finishing them gives the concrete tree of the derivation: every token
  that can come next does that.  In the same way the branches and loops that
  end with a statement are finished by the token after it.

  * `Expr.run_operand`: after the tokens of an expression, its unfinished
    operators amount to its concrete tree;
  * `Stmt.run_statement`, `Stmts.run_statement`: the same for statements;
  * `run_clauses`: the machine reads every program that the grammar derives.
-/
import BlockScript.Proofs.Pushdown.Phrase
import BlockScript.Pushdown.Machine

namespace BlockScript.Pushdown

open Grammar

theorem run_cons {s s' : State} {t : Token} (h : s.step t = some s') (ts : List Token) :
    s.run (t :: ts) = s'.run ts := by
  rw [State.run, h]

theorem run_append {ts : List Token} : ∀ {s s' : State}, s.run ts = .ok s' → ∀ us : List Token,
    s.run (ts ++ us) = s'.run us := by
  induction ts with
  | nil =>
    intro s s' h us
    cases h
    rfl
  | cons t ts ih =>
    intro s s' h us
    simp only [State.run, List.cons_append] at h ⊢
    cases hs : s.step t with
    | none => simp [hs] at h
    | some m =>
      simp only [hs] at h ⊢
      exact ih h us

/-! ## Operands and operators -/

theorem atom?_eq {t : Token} (h : IsAtomToken t) : atom? t = some (atomPhrase t) := by
  rcases h with hk | hk | hk | ⟨hk, ht | ht⟩ <;> simp [atom?, atomPhrase, hk]
  all_goals simp [ht]

section Step

variable (pending : List Pending) (purpose : Purpose) (outer : Outer)

theorem stepOperand_atom {t : Token} (h : IsAtomToken t) :
    stepOperand pending purpose outer t = some (.operator (atomPhrase t) pending purpose outer) := by
  rw [stepOperand, atom?_eq h]

theorem stepOperand_unary (op : Operator prefixOps) :
    stepOperand pending purpose outer op.1 =
      some (.operand (.unary op.1 :: pending) purpose outer) := by
  obtain ⟨t, hk, ht⟩ := op
  simp only [prefixOps, List.mem_cons, List.not_mem_nil, or_false] at ht
  rcases ht with ht | ht <;> simp [stepOperand, atom?, hk, Token.is, ht]

theorem stepOperand_group (l : Terminal .symbol "(") :
    stepOperand pending purpose outer l.1 = some (.operand (.group :: pending) purpose outer) := by
  obtain ⟨t, hk, ht⟩ := l
  simp [stepOperand, atom?, hk, Token.is, ht]

variable {pending}

theorem stepOperator_binary {k : Nat} (op : Operator (levelOps k)) (e : Phrase) {left : Phrase}
    {rest : List Pending} (h : reduce (3 - k) e pending = (left, rest)) :
    stepOperator e pending purpose outer op.1 =
      some (.operand (.binary left op.1 :: rest) purpose outer) := by
  simp only [stepOperator, operatorPrecedence?, op.2.1, if_true, precedence?_of_mem op.2.2, h]

theorem stepOperator_close (r : Terminal .symbol ")") (e : Phrase) {whole : Phrase}
    {rest : List Pending} (h : reduce 0 e pending = (whole, .group :: rest)) :
    stepOperator e pending purpose outer r.1 =
      some (.operator (.group whole) rest purpose outer) := by
  simp [stepOperator, operatorPrecedence?, Token.is, r.2.1, r.2.2, h]

theorem stepOperator_test (r : Terminal .symbol ")") (e : Phrase) {whole : Phrase}
    (h : reduce 0 e pending = (whole, [])) :
    stepOperator e pending purpose outer r.1 = closeTest whole purpose outer := by
  simp [stepOperator, operatorPrecedence?, Token.is, r.2.1, r.2.2, h]

theorem stepOperator_semicolon (semi : Terminal .symbol ";") (e : Phrase) {whole : Phrase}
    (h : reduce 0 e pending = (whole, [])) :
    stepOperator e pending purpose outer semi.1 =
      (closeStatement? whole purpose).map fun c => .closed c false outer := by
  simp [stepOperator, operatorPrecedence?, Token.is, semi.2.1, semi.2.2, h]

end Step

/-! ## Expressions -/

/-- No operator of the `k` tightest levels finishes anything that is pending. -/
def Fits (k : Nat) (pending : List Pending) : Prop :=
  ∀ j < k, ∀ e, reduce (3 - j) e pending = (e, pending)

theorem Fits.mono {j k : Nat} {pending : List Pending} (h : Fits k pending) (hjk : j ≤ k) :
    Fits j pending :=
  fun i hi => h i (by omega)

theorem fits_nil (k : Nat) : Fits k [] :=
  fun _ _ _ => rfl

theorem fits_group (k : Nat) (pending : List Pending) : Fits k (.group :: pending) :=
  fun _ _ _ => rfl

/-- An operator is finished by the operators of its own level, and by no
    tighter one. -/
theorem fits_binary {k : Nat} (left : Phrase) (op : Operator (levelOps k))
    (pending : List Pending) : Fits k (.binary left op.1 :: pending) := by
  intro j hj e
  obtain ⟨hp, hk⟩ := precedence?_of_mem op.2.2
  rw [reduce, hp, if_neg]
  simp only [Option.any_some, decide_eq_true_eq]
  omega

theorem reduce_binary {k level : Nat} (left : Phrase) (op : Operator (levelOps k)) (e : Phrase)
    (pending : List Pending) (h : level ≤ 3 - k) :
    reduce level e (.binary left op.1 :: pending) =
      reduce level (.binary op.1 left e) pending := by
  rw [reduce, (precedence?_of_mem op.2.2).1, if_pos]
  simpa using h

/-- After the tokens of an expression over `k` levels, any operator that is not
    among them finishes its unfinished operators to its concrete tree. -/
theorem run_expr (purpose : Purpose) (outer : Outer) : {k : Nat} → (d : Expr k) →
    (pending : List Pending) → Fits k pending → ∃ e ps,
      (State.operand pending purpose outer).run d.yield = .ok (.operator e ps purpose outer) ∧
        ∀ level ≤ 4 - k, reduce level e ps = reduce level d.phrase pending
  | _, .atom t h, pending, _ => by
    refine ⟨atomPhrase t, pending, ?_, fun _ _ => rfl⟩
    exact run_cons (s := .operand pending purpose outer) (stepOperand_atom _ _ _ h) []
  | _, .unary op d, pending, _ => by
    obtain ⟨e, ps, hrun, hred⟩ := run_expr purpose outer d (.unary op.1 :: pending)
      (fun j hj => absurd hj (Nat.not_lt_zero j))
    refine ⟨e, ps, ?_, hred⟩
    rw [Expr.yield, run_cons (s := .operand pending purpose outer) (stepOperand_unary _ _ _ op)]
    exact hrun
  | _, .group l d r, pending, _ => by
    obtain ⟨e, ps, hrun, hred⟩ := run_expr purpose outer d _ (fits_group 4 pending)
    refine ⟨.group d.phrase, pending, ?_, fun _ _ => rfl⟩
    rw [Expr.yield, run_cons (s := .operand pending purpose outer) (stepOperand_group _ _ _ l),
      run_append hrun]
    exact run_cons (s := .operator e ps purpose outer)
      (stepOperator_close purpose outer r e (hred 0 (Nat.zero_le _))) []
  | k + 1, .tighter d, pending, hf => by
    obtain ⟨e, ps, hrun, hred⟩ := run_expr purpose outer d pending (hf.mono (Nat.le_succ k))
    exact ⟨e, ps, hrun, fun level hl => hred level (by omega)⟩
  | k + 1, .binary l op r, pending, hf => by
    obtain ⟨el, psl, hrunl, hredl⟩ := run_expr purpose outer l pending hf
    have hleft : reduce (3 - k) el psl = (l.phrase, pending) := by
      rw [hredl (3 - k) (by omega)]
      exact hf k (Nat.lt_succ_self k) l.phrase
    obtain ⟨e, ps, hrun, hred⟩ := run_expr purpose outer r _ (fits_binary l.phrase op pending)
    refine ⟨e, ps, ?_, fun level hl => ?_⟩
    · rw [Expr.yield, run_append hrunl, run_cons (s := .operator el psl purpose outer)
        (stepOperator_binary purpose outer op el hleft)]
      exact hrun
    · rw [hred level (by omega), reduce_binary _ _ _ _ (by omega)]
      rfl

/-- The same for a whole expression. -/
theorem run_whole (purpose : Purpose) (outer : Outer) (d : Expr 4) : ∃ e ps,
    (State.operand [] purpose outer).run d.yield = .ok (.operator e ps purpose outer) ∧
      reduce 0 e ps = (d.phrase, []) := by
  obtain ⟨e, ps, hrun, hred⟩ := run_expr purpose outer d [] (fits_nil 4)
  exact ⟨e, ps, hrun, hred 0 (Nat.zero_le _)⟩

/-- An expression and the `;` after it. -/
theorem run_before_semicolon {purpose : Purpose} {outer : Outer} (d : Expr 4)
    (semi : Terminal .symbol ";") {c : Clause} (h : closeStatement? d.phrase purpose = some c) :
    (State.operand [] purpose outer).run (d.yield ++ [semi.1]) = .ok (.closed c false outer) := by
  obtain ⟨e, ps, hrun, hred⟩ := run_whole purpose outer d
  have hstep := stepOperator_semicolon purpose outer semi e hred
  rw [h] at hstep
  rw [run_append hrun]
  exact run_cons (s := .operator e ps purpose outer) hstep []

/-- A condition in its parentheses. -/
theorem run_test {purpose : Purpose} {outer : Outer} (c : Test) {s : State}
    (h : closeTest c.e.phrase purpose outer = some s) :
    (State.opening purpose outer).run c.yield = .ok s := by
  obtain ⟨e, ps, hrun, hred⟩ := run_whole purpose outer c.e
  have hopen : (State.opening purpose outer).step c.l.1 = some (.operand [] purpose outer) := by
    simp [State.step, Token.is, c.l.2.1, c.l.2.2]
  have hstep := stepOperator_test purpose outer c.r e hred
  rw [h] at hstep
  rw [Test.yield, run_cons hopen, run_append hrun]
  exact run_cons (s := .operator e ps purpose outer) hstep []

/-! ## The end of a statement -/

/-- The state in which the statements that end here are finished. -/
def State.settled : State → State
  | .closed c _ outer => .statement (settle c outer.done outer.enclosures)
  | s => s

/-- A token that is no `;` and no `else` finishes the statements that end in
    front of it. -/
theorem step_settled (s : State) {t : Token} {rest : List Token} (h : Leaves true (t :: rest)) :
    s.step t = s.settled.step t := by
  obtain ⟨hsemi, helse⟩ := h t rfl
  cases s with
  | closed c semicolon outer =>
    have h1 : t.is .symbol ";" = false := by simpa [Token.is] using hsemi
    have h2 : t.is .keyword "else" = false := by simpa [Token.is] using helse
    simp [State.settled, State.step, h1, h2]
  | _ => rfl

theorem run_settled (s : State) {t : Token} {ts : List Token} (h : Leaves true (t :: ts)) :
    s.run (t :: ts) = s.settled.run (t :: ts) := by
  simp only [State.run, step_settled s h]

theorem finish?_settled (s : State) : s.finish? = s.settled.finish? := by
  cases s <;> rfl

/-- The state is the one at the end of a statement: finishing what ends here
    puts its concrete tree into what is around it, and so does an `else`, if the
    statement cannot take that for itself. -/
def Ends (b : Bool) (c : Clause) (outer : Outer) (s : State) : Prop :=
  ∃ c' semicolon enclosures, s = .closed c' semicolon ⟨enclosures, outer.done⟩ ∧
    settle c' outer.done enclosures = settle c outer.done outer.enclosures ∧
    (b = false → attachElse? c' enclosures = attachElse? c outer.enclosures)

theorem ends_closed (c : Clause) (semicolon : Bool) (outer : Outer) :
    Ends false c outer (.closed c semicolon outer) :=
  ⟨c, semicolon, outer.enclosures, rfl, rfl, fun _ => rfl⟩

theorem Ends.settled {b : Bool} {c : Clause} {outer : Outer} {s : State} (h : Ends b c outer s) :
    s.settled = .statement (settle c outer.done outer.enclosures) := by
  obtain ⟨c', semicolon, enclosures, rfl, hs, -⟩ := h
  rw [State.settled, hs]

theorem Ends.step_else {c : Clause} {outer : Outer} {s : State} (h : Ends false c outer s)
    (alt : Terminal .keyword "else") {enclosures : List Enclosure}
    (ha : attachElse? c outer.enclosures = some enclosures) :
    s.step alt.1 = some (.statement ⟨enclosures, outer.done⟩) := by
  obtain ⟨c', semicolon, enclosures', rfl, -, he⟩ := h
  simp [State.step, Token.is, alt.2.1, alt.2.2, he rfl, ha]

/-! ## Statements -/

theorem stepStatement_expr {t : Token} (h : StartsExpr t) (hk : t.kind ≠ .identifier)
    (outer : Outer) : stepStatement outer t = stepOperand [] .expr outer t := by
  rcases h with (h | h | h | ⟨h, ht | ht⟩) | ⟨h, -⟩ | ⟨h, ht⟩
  · simp [stepStatement, h]
  · simp [stepStatement, h]
  · exact absurd h hk
  · simp [stepStatement, h, ht]
  · simp [stepStatement, h, ht]
  · simp [stepStatement, h]
  · simp [stepStatement, h, ht]

/-- A statement that is an expression is read as one: its first token is no
    other start of a statement, and what follows a name is no `=`. -/
theorem run_expr_statement (outer : Outer) (d : Expr 4) (semi : Terminal .symbol ";") :
    (State.statement outer).run (d.yield ++ [semi.1]) =
      (State.operand [] .expr outer).run (d.yield ++ [semi.1]) := by
  obtain ⟨t, ts, hd, ht⟩ := d.yield_eq_cons
  by_cases hk : t.kind = .identifier
  · cases hu : ts ++ [semi.1] with
    | nil => simp at hu
    | cons u us =>
      have hy : d.yield ++ [semi.1] = t :: u :: us := by
        rw [hd, List.cons_append, hu]
      have hne : u.is .symbol "=" = false := by
        have h := d.not_assigned hy
        simpa [Token.is, hk] using h
      have h1 : (State.statement outer).step t = some (.named t outer) := by
        simp [State.step, stepStatement, hk]
      have h2 : (State.operand [] .expr outer).step t =
          some (.operator (.var t) [] .expr outer) := by
        simp [State.step, stepOperand, atom?, hk]
      have h3 : (State.named t outer).step u =
          (State.operator (.var t) [] .expr outer).step u := by
        simp [State.step, hne]
      rw [hy, run_cons h1, run_cons h2, State.run, State.run, h3]
  · have hstep : (State.statement outer).step t = (State.operand [] .expr outer).step t :=
      stepStatement_expr ht hk outer
    rw [hd, List.cons_append, State.run, State.run, hstep]

theorem step_if (word : Terminal .keyword "if") (outer : Outer) :
    (State.statement outer).step word.1 = some (.opening .branchTest outer) := by
  simp [State.step, stepStatement, word.2.1, word.2.2]

theorem step_while (word : Terminal .keyword "while") (outer : Outer) :
    (State.statement outer).step word.1 = some (.opening .loopTest outer) := by
  simp [State.step, stepStatement, word.2.1, word.2.2]

theorem step_open (l : Terminal .symbol "\x7b") (outer : Outer) :
    (State.statement outer).step l.1 =
      some (.statement { outer with enclosures := .block [] :: outer.enclosures }) := by
  simp [State.step, stepStatement, l.2.1, l.2.2]

theorem step_close (r : Terminal .symbol "\x7d") (inner : List Clause)
    (rest : List Enclosure) (done : List Clause) :
    (State.statement ⟨.block inner :: rest, done⟩).step r.1 =
      some (.closed (.block inner.reverse) true ⟨rest, done⟩) := by
  simp [State.step, stepStatement, r.2.1, r.2.2]

/-- Put a finished statement into what is around it. -/
def Outer.add (outer : Outer) (c : Clause) : Outer :=
  settle c outer.done outer.enclosures

theorem foldl_add_block (cs inner : List Clause) (rest : List Enclosure) (done : List Clause) :
    cs.foldl Outer.add ⟨.block inner :: rest, done⟩ =
      ⟨.block (cs.reverse ++ inner) :: rest, done⟩ := by
  induction cs generalizing inner with
  | nil => rfl
  | cons c cs ih =>
    rw [List.foldl_cons, Outer.add, settle, ih]
    simp

theorem foldl_add_nil (cs done : List Clause) :
    cs.foldl Outer.add ⟨[], done⟩ = ⟨[], cs.reverse ++ done⟩ := by
  induction cs generalizing done with
  | nil => rfl
  | cons c cs ih =>
    rw [List.foldl_cons, Outer.add, settle, ih]
    simp

mutual

/-- The machine reads every statement that the grammar derives. -/
theorem run_stmt : {b : Bool} → (d : Stmt b) → (outer : Outer) → ∃ s,
    (State.statement outer).run d.yield = .ok s ∧ Ends b d.clause outer s
  | _, .expr e semi, outer => by
    refine ⟨_, ?_, ends_closed (.expr e.phrase) false outer⟩
    rw [Stmt.yield, run_expr_statement]
    exact run_before_semicolon e semi rfl
  | _, .assign x eq e semi, outer => by
    refine ⟨_, ?_, ends_closed (.assign x.1 e.phrase) false outer⟩
    have h1 : (State.statement outer).step x.1 = some (.named x.1 outer) := by
      simp [State.step, stepStatement, x.2]
    have h2 : (State.named x.1 outer).step eq.1 =
        some (.operand [] (.assign x.1) outer) := by
      simp [State.step, Token.is, eq.2.1, eq.2.2]
    rw [Stmt.yield, run_cons h1, run_cons h2]
    exact run_before_semicolon e semi rfl
  | _, .print word e semi, outer => by
    refine ⟨_, ?_, ends_closed (.print e.phrase) false outer⟩
    have h : (State.statement outer).step word.1 = some (.operand [] .print outer) := by
      simp [State.step, stepStatement, word.2.1, word.2.2]
    rw [Stmt.yield, run_cons h]
    exact run_before_semicolon e semi rfl
  | _, .branch word c body, outer => by
    obtain ⟨s, hrun, c', semicolon, enclosures, rfl, hs, -⟩ :=
      run_stmt body ⟨.thenOf c.e.phrase :: outer.enclosures, outer.done⟩
    refine ⟨_, ?_, c', semicolon, enclosures, rfl, hs, fun h => by cases h⟩
    rw [Stmt.yield, run_cons (step_if word outer), run_append (run_test c rfl)]
    exact hrun
  | _, .branchElse word c body alt other, outer => by
    obtain ⟨s, hrun, hends⟩ := run_stmt body ⟨.thenOf c.e.phrase :: outer.enclosures, outer.done⟩
    obtain ⟨s', hrun', c', semicolon, enclosures, rfl, hs, he⟩ :=
      run_stmt other ⟨.elseOf c.e.phrase body.clause :: outer.enclosures, outer.done⟩
    refine ⟨_, ?_, c', semicolon, enclosures, rfl, hs, he⟩
    rw [Stmt.yield, run_cons (step_if word outer), run_append (run_test c rfl), run_append hrun,
      run_cons (hends.step_else alt rfl)]
    exact hrun'
  | _, .loop word c body, outer => by
    obtain ⟨s, hrun, c', semicolon, enclosures, rfl, hs, he⟩ :=
      run_stmt body ⟨.bodyOf c.e.phrase :: outer.enclosures, outer.done⟩
    refine ⟨_, ?_, c', semicolon, enclosures, rfl, hs, he⟩
    rw [Stmt.yield, run_cons (step_while word outer), run_append (run_test c rfl)]
    exact hrun
  | _, .block l body r semi, outer => by
    obtain ⟨s, hrun, hs⟩ := run_stmts body ⟨.block [] :: outer.enclosures, outer.done⟩
    rw [foldl_add_block, List.append_nil] at hs
    have hclose : s.step r.1 = some (.closed (.block body.clauses) true outer) := by
      have hleaves : Leaves true (r.1 :: []) := by
        intro t ht
        cases ht
        simp [r.2.1, r.2.2]
      rw [step_settled s hleaves, hs, step_close, List.reverse_reverse]
    cases semi with
    | none =>
      refine ⟨_, ?_, ends_closed (.block body.clauses) true outer⟩
      rw [Stmt.yield, run_cons (step_open l outer), run_append hrun]
      exact run_cons hclose []
    | some semi =>
      refine ⟨_, ?_, ends_closed (.block body.clauses) false outer⟩
      have hsemi : (State.closed (.block body.clauses) true outer).step semi.1 =
          some (.closed (.block body.clauses) false outer) := by
        simp [State.step, Token.is, semi.2.1, semi.2.2]
      rw [Stmt.yield, run_cons (step_open l outer), run_append hrun, run_cons hclose]
      exact run_cons hsemi []

theorem run_stmts : (d : Stmts) → (outer : Outer) → ∃ s,
    (State.statement outer).run d.yield = .ok s ∧
      s.settled = .statement (d.clauses.foldl Outer.add outer)
  | .nil, outer => ⟨.statement outer, rfl, rfl⟩
  | .cons d rest, outer => by
    obtain ⟨s, hrun, hends⟩ := run_stmt d outer
    obtain ⟨s', hrun', hs'⟩ := run_stmts rest (outer.add d.clause)
    cases rest with
    | nil =>
      refine ⟨s, ?_, hends.settled⟩
      rw [Stmts.yield, Stmts.yield, List.append_nil]
      exact hrun
    | cons d' rest =>
      refine ⟨s', ?_, hs'⟩
      obtain ⟨t, ts, ht, hstart⟩ := d'.yield_eq_cons
      rw [Stmts.yield, run_append hrun]
      have hy : (Stmts.cons d' rest).yield = t :: (ts ++ rest.yield) := by
        rw [Stmts.yield, ht, List.cons_append]
      rw [hy] at hrun' ⊢
      rw [run_settled s hstart.leaves, hends.settled]
      exact hrun'

end

/-- **The machine reads every program that the grammar derives.** -/
theorem run_clauses (d : Stmts) : ∃ s, State.start.run d.yield = .ok s ∧
    s.finish? = some d.clauses := by
  obtain ⟨s, hrun, hs⟩ := run_stmts d ⟨[], []⟩
  refine ⟨s, hrun, ?_⟩
  rw [foldl_add_nil, List.append_nil] at hs
  rw [finish?_settled, hs]
  simp [State.finish?]

end BlockScript.Pushdown
