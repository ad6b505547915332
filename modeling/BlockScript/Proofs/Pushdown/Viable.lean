/-
  BlockScript — the pushdown machine reads no token too many.

  The tokens that the machine has read begin a program, whatever its state is:
  each unfinished operator gets an operand, each unfinished statement a body or
  its closing brace.

  * `Derived ts`: the tokens of a program;
  * `Hole.complete`, `Leads.complete`, `Around.complete`: what is missing after
    unfinished operators, after the start of a statement, and after a statement
    with others around it;
  * `run_viable`: the tokens that the machine has read begin a program.
-/
import BlockScript.Proofs.Descent.Viable
import BlockScript.Proofs.Pushdown.Sound

namespace BlockScript.Pushdown

open Grammar

open Descent (Viable someExpr someSymbol)

/-- The tokens of statements in a row, with any nesting and any numbers. -/
def Derived (ts : List Token) : Prop :=
  ∃ d : Stmts, d.yield = ts

/-- A statement to complete tokens with. -/
def someStmt : Stmt false :=
  .expr (someExpr 4) (someSymbol ";")

/-- An expression in the place after unfinished operators makes one of the
    whole, after some closing parentheses. -/
theorem Hole.complete {k : Nat} {pending : List Pending} {us : List Token}
    (h : Hole k pending us) (e : Expr k) :
    ∃ (whole : Expr 4) (more : List Token), whole.yield = us ++ e.yield ++ more := by
  induction h with
  | nil => exact ⟨e, [], by simp⟩
  | @unary k pending us h op ih =>
    obtain ⟨e', hy, -⟩ := exists_lift (Nat.zero_le k) (.unary op e)
    obtain ⟨whole, more, hwhole⟩ := ih e'
    exact ⟨whole, more, by simp [hwhole, hy, Expr.yield]⟩
  | @binary j k pending us h hj l op ih =>
    obtain ⟨e', hy, -⟩ := exists_lift hj (.binary l op e)
    obtain ⟨whole, more, hwhole⟩ := ih e'
    exact ⟨whole, more, by simp [hwhole, hy, Expr.yield]⟩
  | @group k pending us h l ih =>
    obtain ⟨e', hy, -⟩ := exists_lift (Nat.zero_le k) (.group l e (someSymbol ")"))
    obtain ⟨whole, more, hwhole⟩ := ih e'
    exact ⟨whole, (someSymbol ")").1 :: more, by simp [hwhole, hy, Expr.yield]⟩

/-- An expression after the tokens that say what it is for makes a
    statement. -/
theorem Leads.complete {purpose : Purpose} {lead : List Token} (h : Leads purpose lead)
    (e : Expr 4) :
    ∃ (b : Bool) (s : Stmt b) (more : List Token), s.yield = lead ++ e.yield ++ more := by
  cases h with
  | expr => exact ⟨_, .expr e (someSymbol ";"), [(someSymbol ";").1], by simp [Stmt.yield]⟩
  | print word =>
    exact ⟨_, .print word e (someSymbol ";"), [(someSymbol ";").1], by simp [Stmt.yield]⟩
  | assign x eq =>
    exact ⟨_, .assign x eq e (someSymbol ";"), [(someSymbol ";").1], by simp [Stmt.yield]⟩
  | branchTest word l =>
    exact ⟨_, .branch word ⟨l, e, someSymbol ")"⟩ someStmt,
      (someSymbol ")").1 :: someStmt.yield, by simp [Stmt.yield, Test.yield]⟩
  | loopTest word l =>
    exact ⟨_, .loop word ⟨l, e, someSymbol ")"⟩ someStmt,
      (someSymbol ")").1 :: someStmt.yield, by simp [Stmt.yield, Test.yield]⟩

/-- A statement with others around it begins a program. -/
theorem Around.complete {es : List Enclosure} {done : List Clause} {ts : List Token}
    (h : Around es done ts) {b : Bool} (s : Stmt b) : Viable Derived (ts ++ s.yield) := by
  induction h generalizing b with
  | program ds => exact .of_mem ⟨snoc ds s, snoc_yield s ds⟩
  | thenOf h word c ih => simpa [Stmt.yield] using ih (.branch word c s)
  | elseOf h word c body alt ih => simpa [Stmt.yield] using ih (.branchElse word c body alt s)
  | bodyOf h word c ih => simpa [Stmt.yield] using ih (.loop word c s)
  | block h l ds ih =>
    obtain ⟨more, hmore⟩ := ih (.block l (snoc ds s) (someSymbol "\x7d") none)
    exact ⟨(someSymbol "\x7d").1 :: more, by simpa [Stmt.yield, snoc_yield] using hmore⟩

/-- The beginning of tokens that can be completed can be completed. -/
theorem viable_of_append {L : List Token → Prop} {ts : List Token} (us : List Token)
    (h : Viable L (ts ++ us)) : Viable L ts := by
  obtain ⟨more, hL⟩ := h
  exact ⟨us ++ more, by rwa [← List.append_assoc]⟩

/-- An expression that has been begun, in a statement with others around it. -/
theorem Around.complete_expr {es : List Enclosure} {done : List Clause} {pending : List Pending}
    {purpose : Purpose} {k : Nat} {ts lead us : List Token} (h : Around es done ts)
    (hp : Leads purpose lead) (hh : Hole k pending us) (e : Expr k) :
    Viable Derived (ts ++ (lead ++ (us ++ e.yield))) := by
  obtain ⟨whole, more, hwhole⟩ := hh.complete e
  obtain ⟨b, s, more', hs⟩ := hp.complete whole
  have hviable := h.complete s
  rw [hs, hwhole] at hviable
  refine viable_of_append (more ++ more') ?_
  simpa only [List.append_assoc] using hviable

/-- A state is right only about tokens that begin a program. -/
theorem Valid.viable {s : State} {ts : List Token} (h : Valid s ts) : Viable Derived ts := by
  cases h with
  | statement h => exact viable_of_append _ (h.complete someStmt)
  | named h x =>
    have hatom : IsAtomToken x.1 := Or.inr (Or.inr (Or.inl x.2))
    obtain ⟨e, hy, -⟩ := exists_lift (Nat.zero_le 4) (.atom x.1 hatom)
    have hviable := h.complete_expr .expr .nil e
    rwa [hy] at hviable
  | branchTest h word =>
    have hviable := h.complete_expr (.branchTest word (someSymbol "(")) .nil (someExpr 4)
    refine viable_of_append ((someSymbol "(").1 :: (someExpr 4).yield) ?_
    simpa only [List.append_assoc, List.cons_append, List.nil_append] using hviable
  | loopTest h word =>
    have hviable := h.complete_expr (.loopTest word (someSymbol "(")) .nil (someExpr 4)
    refine viable_of_append ((someSymbol "(").1 :: (someExpr 4).yield) ?_
    simpa only [List.append_assoc, List.cons_append, List.nil_append] using hviable
  | @operand outer purpose pending k ts lead us h hp hh =>
    have hviable := h.complete_expr hp hh (someExpr k)
    refine viable_of_append ((someExpr k).yield) ?_
    simpa only [List.append_assoc] using hviable
  | @operator outer purpose pending k ts lead us h hp hh d =>
    obtain ⟨e, hy, -⟩ := exists_lift (Nat.zero_le k) d
    have hviable := h.complete_expr hp hh e
    rwa [hy] at hviable
  | closed h d => exact h.complete d
  | closedBlock h l ds r => exact h.complete (.block l ds r none)

/-- **The tokens that the machine has read begin a program.** -/
theorem run_viable {ts : List Token} {s : State} (h : State.start.run ts = .ok s) :
    Viable Derived ts := by
  have hstart : Valid State.start [] := .statement (.program .nil)
  exact (run_valid hstart h).viable

end BlockScript.Pushdown
