/-
  BlockScript — what the pushdown machine accepts, the grammar derives.

  At every point of a run the tokens read so far are those of the finished
  statements, of the unfinished statements around the current one, and of the
  unfinished operators of its expression, each with a place that a derivation
  can fill.

  * `Hole k pending us`: the tokens `us` of unfinished operators, and the
    levels that may fill the place after them;
  * `Around outer ts`: the tokens `ts` of what is around a statement;
  * `Valid s ts`: the state is right about the tokens;
  * `step_valid`, `run_valid`: every step keeps it so, and every run;
  * `exists_derivation`: an accepted program has a derivation.
-/
import BlockScript.Proofs.Pushdown.Phrase
import BlockScript.Pushdown.Machine

namespace BlockScript.Pushdown

open Grammar

/-! ## Unfinished expressions -/

/-- An expression over few levels is one over more. -/
theorem exists_lift {j k : Nat} (h : j ≤ k) (d : Expr j) :
    ∃ d' : Expr k, d'.yield = d.yield ∧ d'.phrase = d.phrase := by
  induction k with
  | zero =>
    obtain rfl : j = 0 := Nat.le_zero.1 h
    exact ⟨d, rfl, rfl⟩
  | succ k ih =>
    rcases Nat.lt_or_ge j (k + 1) with hlt | hge
    · obtain ⟨d', hy, hp⟩ := ih (Nat.le_of_lt_succ hlt)
      exact ⟨.tighter d', hy, hp⟩
    · obtain rfl : j = k + 1 := Nat.le_antisymm h hge
      exact ⟨d, rfl, rfl⟩

/-- The tokens of unfinished operators, and the levels of the expressions that
    may come after them. -/
inductive Hole : Nat → List Pending → List Token → Prop where
  | nil : Hole 4 [] []
  | unary {k : Nat} {pending : List Pending} {us : List Token} (h : Hole k pending us)
      (op : Operator prefixOps) : Hole 0 (.unary op.1 :: pending) (us ++ [op.1])
  | binary {j k : Nat} {pending : List Pending} {us : List Token} (h : Hole k pending us)
      (hj : j < k) (l : Expr (j + 1)) (op : Operator (levelOps j)) :
      Hole j (.binary l.phrase op.1 :: pending) (us ++ (l.yield ++ [op.1]))
  | group {k : Nat} {pending : List Pending} {us : List Token} (h : Hole k pending us)
      (l : Terminal .symbol "(") : Hole 4 (.group :: pending) (us ++ [l.1])

/-- Finishing the operators that bind at least as tightly as those of the level
    `m` gives a left operand for an operator of that level, and leaves a place
    for what the operator makes. -/
theorem reduce_hole {m : Nat} (hm : m ≤ 3) {k : Nat} {pending : List Pending} {us : List Token}
    (h : Hole k pending us) {j : Nat} (d : Expr j) (hjk : j ≤ k) (hjm : j ≤ m + 1) :
    ∃ (k' : Nat) (d' : Expr (m + 1)) (us' : List Token),
      Hole k' (reduce (3 - m) d.phrase pending).2 us' ∧ m < k' ∧
        d'.phrase = (reduce (3 - m) d.phrase pending).1 ∧ us' ++ d'.yield = us ++ d.yield := by
  induction h generalizing j with
  | nil =>
    obtain ⟨d', hy, hp⟩ := exists_lift hjm d
    exact ⟨4, d', [], .nil, by omega, hp, by rw [hy]⟩
  | @unary k pending us h op ih =>
    obtain rfl : j = 0 := Nat.le_zero.1 hjk
    obtain ⟨k', d', us', hh, hk, hp, hy⟩ := ih (.unary op d) (Nat.zero_le k) (Nat.zero_le _)
    refine ⟨k', d', us', hh, hk, hp, ?_⟩
    rw [hy, Expr.yield, List.append_assoc, List.singleton_append]
  | @binary i k pending us h hj l op ih =>
    obtain ⟨hprec, hi⟩ := precedence?_of_mem op.2.2
    by_cases him : i ≤ m
    · -- the operator is finished, with the expression as its right operand
      obtain ⟨r, hry, hrp⟩ := exists_lift hjk d
      have hred : reduce (3 - m) d.phrase (.binary l.phrase op.1 :: pending) =
          reduce (3 - m) (Expr.binary l op r).phrase pending := by
        rw [reduce, hprec, if_pos (by simp only [Option.any_some, decide_eq_true_eq]; omega),
          Expr.phrase, hrp]
      obtain ⟨k', d', us', hh, hk, hp, hy⟩ := ih (.binary l op r) hj (by omega)
      rw [hred]
      refine ⟨k', d', us', hh, hk, hp, ?_⟩
      rw [hy, Expr.yield, hry]
      simp only [List.append_assoc, List.singleton_append]
    · have hred : reduce (3 - m) d.phrase (.binary l.phrase op.1 :: pending) =
          (d.phrase, .binary l.phrase op.1 :: pending) := by
        rw [reduce, hprec, if_neg (by simp only [Option.any_some, decide_eq_true_eq]; omega)]
      obtain ⟨d', hy, hp⟩ := exists_lift hjm d
      rw [hred]
      exact ⟨i, d', _, .binary h hj l op, by omega, hp, by rw [hy]⟩
  | @group k pending us h l ih =>
    obtain ⟨d', hy, hp⟩ := exists_lift hjm d
    exact ⟨4, d', _, .group h l, by omega, hp, by rw [hy]⟩

/-! ## Unfinished statements -/

/-- Statements in a row and one more. -/
def snoc {b : Bool} : Stmts → Stmt b → Stmts
  | .nil, d => .cons d .nil
  | .cons d' rest, d => .cons d' (snoc rest d)

theorem snoc_yield {b : Bool} (d : Stmt b) (ds : Stmts) :
    (snoc ds d).yield = ds.yield ++ d.yield := by
  cases ds with
  | nil => simp [snoc, Stmts.yield]
  | cons d' rest => rw [snoc, Stmts.yield, Stmts.yield, snoc_yield d rest, List.append_assoc]

theorem snoc_clauses {b : Bool} (d : Stmt b) (ds : Stmts) :
    (snoc ds d).clauses.reverse = d.clause :: ds.clauses.reverse := by
  cases ds with
  | nil => simp [snoc, Stmts.clauses]
  | cons d' rest =>
    rw [snoc, Stmts.clauses, Stmts.clauses, List.reverse_cons, snoc_clauses d rest,
      List.reverse_cons, List.cons_append]

/-- The tokens of what is around a statement. -/
inductive Around : List Enclosure → List Clause → List Token → Prop where
  | program (ds : Stmts) : Around [] ds.clauses.reverse ds.yield
  | thenOf {es : List Enclosure} {done : List Clause} {ts : List Token} (h : Around es done ts)
      (word : Terminal .keyword "if") (c : Test) :
      Around (.thenOf c.e.phrase :: es) done (ts ++ word.1 :: c.yield)
  | elseOf {es : List Enclosure} {done : List Clause} {ts : List Token} (h : Around es done ts)
      (word : Terminal .keyword "if") (c : Test) (body : Stmt false)
      (alt : Terminal .keyword "else") :
      Around (.elseOf c.e.phrase body.clause :: es) done
        (ts ++ word.1 :: (c.yield ++ (body.yield ++ [alt.1])))
  | bodyOf {es : List Enclosure} {done : List Clause} {ts : List Token} (h : Around es done ts)
      (word : Terminal .keyword "while") (c : Test) :
      Around (.bodyOf c.e.phrase :: es) done (ts ++ word.1 :: c.yield)
  | block {es : List Enclosure} {done : List Clause} {ts : List Token} (h : Around es done ts)
      (l : Terminal .symbol "\x7b") (ds : Stmts) :
      Around (.block ds.clauses.reverse :: es) done (ts ++ l.1 :: ds.yield)

/-- A finished statement goes into what is around it. -/
theorem Around.settle {es : List Enclosure} {done : List Clause} {ts : List Token}
    (h : Around es done ts) {b : Bool} (d : Stmt b) :
    Around (settle d.clause done es).enclosures (settle d.clause done es).done
      (ts ++ d.yield) := by
  induction h generalizing b with
  | program ds =>
    rw [Pushdown.settle, ← snoc_clauses, ← snoc_yield]
    exact .program (snoc ds d)
  | thenOf h word c ih =>
    have hd := ih (.branch word c d)
    rw [Stmt.yield] at hd
    simpa only [Stmt.clause, Pushdown.settle, List.append_assoc, List.cons_append] using hd
  | elseOf h word c body alt ih =>
    have hd := ih (.branchElse word c body alt d)
    rw [Stmt.yield] at hd
    simpa only [Stmt.clause, Pushdown.settle, List.append_assoc, List.cons_append,
      List.nil_append] using hd
  | bodyOf h word c ih =>
    have hd := ih (.loop word c d)
    rw [Stmt.yield] at hd
    simpa only [Stmt.clause, Pushdown.settle, List.append_assoc, List.cons_append] using hd
  | @block es done ts h l ds ih =>
    have hd := h.block l (snoc ds d)
    rw [snoc_clauses, snoc_yield] at hd
    simpa only [Pushdown.settle, List.append_assoc, List.cons_append] using hd

/-- An `else` makes a finished statement the body of a branch. -/
theorem Around.attachElse {es es' : List Enclosure} {done : List Clause} {ts : List Token}
    (h : Around es done ts) (d : Stmt false) (alt : Terminal .keyword "else")
    (ha : attachElse? d.clause es = some es') :
    Around es' done (ts ++ (d.yield ++ [alt.1])) := by
  induction h generalizing d with
  | program ds => cases ha
  | thenOf h word c ih =>
    cases ha
    have hd := h.elseOf word c d alt
    simpa only [List.append_assoc, List.cons_append] using hd
  | elseOf h word c body alt' ih =>
    have hd := ih (.branchElse word c body alt' d) ha
    rw [Stmt.yield] at hd
    simpa only [List.append_assoc, List.cons_append, List.nil_append] using hd
  | bodyOf h word c ih =>
    have hd := ih (.loop word c d) ha
    rw [Stmt.yield] at hd
    simpa only [List.append_assoc, List.cons_append] using hd
  | block h l ds ih => cases ha

/-! ## States -/

/-- The tokens in front of an expression that say what it is for. -/
inductive Leads : Purpose → List Token → Prop where
  | expr : Leads .expr []
  | print (word : Terminal .keyword "print") : Leads .print [word.1]
  | assign (x : {t : Token // t.kind = .identifier}) (eq : Terminal .symbol "=") :
      Leads (.assign x.1) [x.1, eq.1]
  | branchTest (word : Terminal .keyword "if") (l : Terminal .symbol "(") :
      Leads .branchTest [word.1, l.1]
  | loopTest (word : Terminal .keyword "while") (l : Terminal .symbol "(") :
      Leads .loopTest [word.1, l.1]

/-- A state is right about the tokens that have been read. -/
inductive Valid : State → List Token → Prop where
  | statement {outer : Outer} {ts : List Token} (h : Around outer.enclosures outer.done ts) :
      Valid (.statement outer) ts
  | named {outer : Outer} {ts : List Token} (h : Around outer.enclosures outer.done ts)
      (x : {t : Token // t.kind = .identifier}) : Valid (.named x.1 outer) (ts ++ [x.1])
  | branchTest {outer : Outer} {ts : List Token} (h : Around outer.enclosures outer.done ts)
      (word : Terminal .keyword "if") : Valid (.opening .branchTest outer) (ts ++ [word.1])
  | loopTest {outer : Outer} {ts : List Token} (h : Around outer.enclosures outer.done ts)
      (word : Terminal .keyword "while") : Valid (.opening .loopTest outer) (ts ++ [word.1])
  | operand {outer : Outer} {purpose : Purpose} {pending : List Pending} {k : Nat}
      {ts lead us : List Token} (h : Around outer.enclosures outer.done ts)
      (hp : Leads purpose lead) (hh : Hole k pending us) :
      Valid (.operand pending purpose outer) (ts ++ (lead ++ us))
  | operator {outer : Outer} {purpose : Purpose} {pending : List Pending} {k : Nat}
      {ts lead us : List Token} (h : Around outer.enclosures outer.done ts)
      (hp : Leads purpose lead) (hh : Hole k pending us) (d : Expr 0) :
      Valid (.operator d.phrase pending purpose outer) (ts ++ (lead ++ (us ++ d.yield)))
  | closed {outer : Outer} {ts : List Token} (h : Around outer.enclosures outer.done ts)
      (d : Stmt false) : Valid (.closed d.clause false outer) (ts ++ d.yield)
  /-- a block has been read, and a `;` may still come -/
  | closedBlock {outer : Outer} {ts : List Token} (h : Around outer.enclosures outer.done ts)
      (l : Terminal .symbol "\x7b") (ds : Stmts) (r : Terminal .symbol "\x7d") :
      Valid (.closed (.block ds.clauses) true outer) (ts ++ (Stmt.block l ds r none).yield)

theorem Valid.congr {s : State} {ts ts' : List Token} (h : Valid s ts) (hts : ts = ts') :
    Valid s ts' :=
  hts ▸ h

/-! ## Steps -/

theorem isAtomToken_of_atom? {t : Token} {e : Phrase} (h : atom? t = some e) :
    IsAtomToken t ∧ e = atomPhrase t := by
  unfold atom? at h
  split at h
  all_goals rename_i hk
  · cases h
    exact ⟨Or.inl hk, by simp [atomPhrase, hk]⟩
  · cases h
    exact ⟨Or.inr (Or.inl hk), by simp [atomPhrase, hk]⟩
  · cases h
    exact ⟨Or.inr (Or.inr (Or.inl hk)), by simp [atomPhrase, hk]⟩
  · split at h
    · rename_i ht
      cases h
      exact ⟨Or.inr (Or.inr (Or.inr ⟨hk, Or.inl ht⟩)), by simp [atomPhrase, hk, ht]⟩
    · split at h
      · rename_i ht
        cases h
        exact ⟨Or.inr (Or.inr (Or.inr ⟨hk, Or.inr ht⟩)), by simp [atomPhrase, hk, ht]⟩
      · cases h
  · cases h

theorem mem_levelOps_of_precedence? {x : String} {level : Nat} (h : precedence? x = some level) :
    ∃ m, m ≤ 3 ∧ level = 3 - m ∧ x ∈ levelOps m := by
  unfold precedence? at h
  split at h
  all_goals cases h
  · exact ⟨3, by decide, rfl, by decide⟩
  · exact ⟨3, by decide, rfl, by decide⟩
  · exact ⟨2, by decide, rfl, by decide⟩
  · exact ⟨2, by decide, rfl, by decide⟩
  · exact ⟨2, by decide, rfl, by decide⟩
  · exact ⟨2, by decide, rfl, by decide⟩
  · exact ⟨1, by decide, rfl, by decide⟩
  · exact ⟨1, by decide, rfl, by decide⟩
  · exact ⟨0, by decide, rfl, by decide⟩
  · exact ⟨0, by decide, rfl, by decide⟩
  · exact ⟨0, by decide, rfl, by decide⟩

section Step

variable {outer : Outer} {purpose : Purpose} {pending : List Pending} {k : Nat}
  {ts lead us : List Token} {t : Token} {s : State}

theorem stepOperand_valid (h : Around outer.enclosures outer.done ts) (hp : Leads purpose lead)
    (hh : Hole k pending us) (hs : stepOperand pending purpose outer t = some s) :
    Valid s (ts ++ (lead ++ (us ++ [t]))) := by
  unfold stepOperand at hs
  split at hs
  · rename_i e he
    obtain ⟨ht, rfl⟩ := isAtomToken_of_atom? he
    cases hs
    exact .operator h hp hh (.atom t ht)
  · split at hs
    · rename_i ht
      cases hs
      have hop : IsOperator prefixOps t := by
        simp only [Token.is, Bool.or_eq_true, Bool.and_eq_true, decide_eq_true_eq] at ht
        rcases ht with ⟨hk, hx⟩ | ⟨hk, hx⟩ <;> exact ⟨hk, by simp [prefixOps, hx]⟩
      exact .operand h hp (hh.unary ⟨t, hop⟩)
    · split at hs
      · rename_i ht
        cases hs
        simp only [Token.is, Bool.and_eq_true, decide_eq_true_eq] at ht
        exact .operand h hp (hh.group ⟨t, ht⟩)
      · cases hs

theorem closeTest_valid (h : Around outer.enclosures outer.done ts) (hp : Leads purpose lead)
    (d : Expr 4) (r : Terminal .symbol ")") (hs : closeTest d.phrase purpose outer = some s) :
    Valid s (ts ++ (lead ++ (d.yield ++ [r.1]))) := by
  cases hp with
  | branchTest word l =>
    cases hs
    exact (Valid.statement (h.thenOf word ⟨l, d, r⟩)).congr rfl
  | loopTest word l =>
    cases hs
    exact (Valid.statement (h.bodyOf word ⟨l, d, r⟩)).congr rfl
  | _ => cases hs

theorem closeStatement_valid {c : Clause} (h : Around outer.enclosures outer.done ts)
    (hp : Leads purpose lead) (d : Expr 4) (semi : Terminal .symbol ";")
    (hc : closeStatement? d.phrase purpose = some c) :
    Valid (.closed c false outer) (ts ++ (lead ++ (d.yield ++ [semi.1]))) := by
  cases hp with
  | expr =>
    cases hc
    exact .closed h (.expr d semi)
  | print word =>
    cases hc
    exact .closed h (.print word d semi)
  | assign x eq =>
    cases hc
    exact .closed h (.assign x eq d semi)
  | _ => cases hc

/-- A token after an operand: an operator, the end of a group or of a condition,
    or the end of a statement. -/
theorem stepOperator_valid (h : Around outer.enclosures outer.done ts) (hp : Leads purpose lead)
    (hh : Hole k pending us) (d : Expr 0)
    (hs : stepOperator d.phrase pending purpose outer t = some s) :
    Valid s (ts ++ (lead ++ (us ++ (d.yield ++ [t])))) := by
  simp only [stepOperator] at hs
  split at hs
  · rename_i level hlevel
    simp only [operatorPrecedence?, Option.ite_none_right_eq_some] at hlevel
    obtain ⟨hk, hlevel⟩ := hlevel
    obtain ⟨m, hm, rfl, hmem⟩ := mem_levelOps_of_precedence? hlevel
    obtain ⟨k', l, us', hh', hk', hphrase, hyield⟩ :=
      reduce_hole hm hh d (Nat.zero_le k) (Nat.zero_le _)
    cases hs
    rw [← hphrase]
    refine (Valid.operand h hp (hh'.binary hk' l ⟨t, hk, hmem⟩)).congr ?_
    rw [← List.append_assoc us', hyield, List.append_assoc]
  · obtain ⟨k', whole, us', hh', -, hphrase, hyield⟩ :=
      reduce_hole (Nat.le_refl 3) hh d (Nat.zero_le k) (Nat.zero_le _)
    rw [Nat.sub_self] at hh' hphrase
    rw [← List.append_assoc us, ← hyield, List.append_assoc]
    split at hs
    · rename_i ht
      simp only [Token.is, Bool.and_eq_true, decide_eq_true_eq] at ht
      split at hs
      · rename_i hrest
        rw [hrest] at hh'
        cases hh'
        rw [← hphrase] at hs
        exact closeTest_valid h hp whole ⟨t, ht⟩ hs
      · rename_i rest hrest
        rw [hrest] at hh'
        cases hh' with
        | @group k'' _ us'' hh'' l =>
          cases hs
          rw [← hphrase]
          refine (Valid.operator h hp hh'' (.group l whole ⟨t, ht⟩)).congr ?_
          simp only [Expr.yield, List.append_assoc, List.singleton_append]
      · cases hs
    · split at hs
      · rename_i ht
        simp only [Token.is, Bool.and_eq_true, decide_eq_true_eq] at ht
        split at hs
        · rename_i hrest
          rw [hrest] at hh'
          cases hh'
          obtain ⟨c, hc, rfl⟩ := Option.map_eq_some_iff.1 hs
          rw [← hphrase] at hc
          exact closeStatement_valid h hp whole ⟨t, ht⟩ hc
        · cases hs
      · cases hs

theorem close_valid {inner done : List Clause} {rest : List Enclosure}
    (h : Around (.block inner :: rest) done ts) (r : Terminal .symbol "\x7d") :
    Valid (.closed (.block inner.reverse) true ⟨rest, done⟩) (ts ++ [r.1]) := by
  cases h with
  | block h l ds =>
    rw [List.reverse_reverse]
    have hv : Valid (.closed (.block ds.clauses) true ⟨rest, done⟩) _ := .closedBlock h l ds r
    refine hv.congr ?_
    simp only [Stmt.yield, Option.map_none, Option.toList_none, List.append_assoc,
      List.cons_append]

/-- A token where a statement may start. -/
theorem stepStatement_valid (h : Around outer.enclosures outer.done ts)
    (hs : stepStatement outer t = some s) : Valid s (ts ++ [t]) := by
  have hexpr : stepOperand [] .expr outer t = some s → Valid s (ts ++ [t]) :=
    fun hs => stepOperand_valid h .expr .nil hs
  unfold stepStatement at hs
  split at hs
  · rename_i hk
    cases hs
    exact .named h ⟨t, hk⟩
  · rename_i hk
    split at hs
    · rename_i hx
      cases hs
      exact .branchTest h ⟨t, hk, hx⟩
    · rename_i hx
      cases hs
      exact .loopTest h ⟨t, hk, hx⟩
    · rename_i hx
      cases hs
      exact .operand h (.print ⟨t, hk, hx⟩) .nil
    · exact hexpr hs
  · rename_i hk
    split at hs
    · rename_i hx
      cases hs
      exact .statement (h.block ⟨t, hk, hx⟩ .nil)
    · rename_i inner rest hx he
      cases hs
      rw [he] at h
      exact close_valid h ⟨t, hk, hx⟩
    · exact hexpr hs
  · exact hexpr hs

/-- A token after a statement: an `else`, or the start of the next one. -/
theorem stepAfter_valid (h : Around outer.enclosures outer.done ts) (d : Stmt false)
    (hs : (if t.is .keyword "else" then
        (attachElse? d.clause outer.enclosures).map fun enclosures =>
          State.statement { outer with enclosures := enclosures }
      else stepStatement (settle d.clause outer.done outer.enclosures) t) = some s) :
    Valid s (ts ++ (d.yield ++ [t])) := by
  split at hs
  · rename_i ht
    simp only [Token.is, Bool.and_eq_true, decide_eq_true_eq] at ht
    obtain ⟨es, he, rfl⟩ := Option.map_eq_some_iff.1 hs
    exact .statement (h.attachElse d ⟨t, ht⟩ he)
  · rw [← List.append_assoc]
    exact stepStatement_valid (h.settle d) hs

/-- **Every step keeps the state right about the tokens.** -/
theorem step_valid (h : Valid s ts) {s' : State} (hs : s.step t = some s') :
    Valid s' (ts ++ [t]) := by
  cases h with
  | statement h => exact stepStatement_valid h hs
  | @named outer ts h x =>
    simp only [State.step] at hs
    rw [List.append_assoc]
    split at hs
    · rename_i ht
      simp only [Token.is, Bool.and_eq_true, decide_eq_true_eq] at ht
      cases hs
      exact (Valid.operand h (.assign x ⟨t, ht⟩) .nil).congr rfl
    · have hx : IsAtomToken x.1 := Or.inr (Or.inr (Or.inl x.2))
      have hphrase : (Expr.atom x.1 hx).phrase = .var x.1 := by
        simp [Expr.phrase, atomPhrase, x.2]
      rw [← hphrase] at hs
      exact stepOperator_valid h .expr .nil (.atom x.1 hx) hs
  | @branchTest outer ts h word =>
    simp only [State.step, Option.ite_none_right_eq_some, Token.is, Bool.and_eq_true,
      decide_eq_true_eq] at hs
    obtain ⟨ht, hs⟩ := hs
    cases hs
    rw [List.append_assoc]
    exact (Valid.operand h (.branchTest word ⟨t, ht⟩) .nil).congr rfl
  | @loopTest outer ts h word =>
    simp only [State.step, Option.ite_none_right_eq_some, Token.is, Bool.and_eq_true,
      decide_eq_true_eq] at hs
    obtain ⟨ht, hs⟩ := hs
    cases hs
    rw [List.append_assoc]
    exact (Valid.operand h (.loopTest word ⟨t, ht⟩) .nil).congr rfl
  | operand h hp hh =>
    rw [List.append_assoc, List.append_assoc]
    exact stepOperand_valid h hp hh hs
  | operator h hp hh d =>
    simp only [List.append_assoc]
    exact stepOperator_valid h hp hh d hs
  | closed h d =>
    simp only [State.step, Bool.false_and, Bool.false_eq_true, if_false] at hs
    rw [List.append_assoc]
    exact stepAfter_valid h d hs
  | closedBlock h l ds r =>
    simp only [State.step, Bool.true_and] at hs
    split at hs
    · rename_i ht
      simp only [Token.is, Bool.and_eq_true, decide_eq_true_eq] at ht
      cases hs
      refine (Valid.closed h (.block l ds r (some ⟨t, ht⟩))).congr ?_
      simp [Stmt.yield]
    · rw [List.append_assoc]
      exact stepAfter_valid h (.block l ds r none) hs

end Step

/-- Every run keeps the state right about the tokens. -/
theorem run_valid {us : List Token} : ∀ {s s' : State} {ts : List Token}, Valid s ts →
    s.run us = .ok s' → Valid s' (ts ++ us) := by
  induction us with
  | nil =>
    intro s s' ts h hs
    cases hs
    rwa [List.append_nil]
  | cons u us ih =>
    intro s s' ts h hs
    rw [State.run] at hs
    split at hs
    · rename_i m hm
      have hv := ih (step_valid h hm) hs
      rwa [List.append_assoc, List.singleton_append] at hv
    · cases hs

/-! ## Programs -/

/-- A program may end where no statement around is unfinished. -/
theorem Around.derivation {outer : Outer} {ts : List Token} {cs : List Clause}
    (h : Around outer.enclosures outer.done ts)
    (hf : (if outer.enclosures.isEmpty then some outer.done.reverse else none) = some cs) :
    ∃ d : Stmts, d.yield = ts ∧ d.clauses = cs := by
  simp only [Option.ite_none_right_eq_some, List.isEmpty_iff, Option.some.injEq] at hf
  obtain ⟨he, rfl⟩ := hf
  obtain ⟨es, done⟩ := outer
  cases he
  cases h with
  | program ds => exact ⟨ds, rfl, (List.reverse_reverse _).symm⟩

theorem Valid.derivation {s : State} {ts : List Token} {cs : List Clause} (h : Valid s ts)
    (hf : s.finish? = some cs) : ∃ d : Stmts, d.yield = ts ∧ d.clauses = cs := by
  cases h with
  | statement h => exact h.derivation hf
  | closed h d => exact (h.settle d).derivation hf
  | closedBlock h l ds r => exact (h.settle (.block l ds r none)).derivation hf
  | _ => cases hf

/-- **What the machine accepts has a derivation.** -/
theorem exists_derivation {ts : List Token} {s : State} {cs : List Clause}
    (hrun : State.start.run ts = .ok s) (hf : s.finish? = some cs) :
    ∃ d : Stmts, d.yield = ts ∧ d.clauses = cs := by
  have hstart : Valid State.start [] := .statement (.program .nil)
  exact (run_valid hstart hrun).derivation hf

end BlockScript.Pushdown
