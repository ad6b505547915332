/-
  BlockScript — trees in which every part is of its sort.

  A tree may hold an expression in the place of a statement, nothing in the
  place of either, and null as a literal.  A tree in which every part is in its
  place ends with no fault but the errors that a program can bring about.  The
  trees of a source text hold no null either, and so a run of them gives null to
  no variable.

  * `Evaluable`, `Executable`: trees whose parts are in their places;
  * `RunsAll.kind_isSome`: the faults of their runs;
  * `IsExpression`, `IsStatement`: such trees without null;
  * `Stmts.isStatement_trees`: the trees of a derivation are;
  * `Env.NoNull`: no variable is bound to null;
  * `RunsAll.sorted`: runs of trees without null.
-/
import BlockScript.Proofs.Grammar
import BlockScript.Proofs.Scopes

namespace BlockScript

/-! ## Sorts -/

/-- An expression, with expressions as its parts. -/
inductive Evaluable : Node → Prop where
  | literal {v : Value} : Evaluable (.literal v)
  | var {x : String} : Evaluable (.var x)
  | unary {op : String} {e : Node} (h : Evaluable e) : Evaluable (.unary op e)
  | binary {op : String} {l r : Node} (hl : Evaluable l) (hr : Evaluable r) :
      Evaluable (.binary op l r)

/-- A statement, with statements and expressions in their places. -/
inductive Executable : Node → Prop where
  | expr {e : Node} (h : Evaluable e) : Executable (.expr e)
  | assign {x : String} {e : Node} (h : Evaluable e) : Executable (.assign x e)
  | print {e : Node} (h : Evaluable e) : Executable (.print e)
  | cond {c t e : Node} (hc : Evaluable c) (ht : Executable t)
      (he : e.isAbsent = false → Executable e) : Executable (.cond c t e)
  | loop {c b : Node} (hc : Evaluable c) (hb : Executable b) : Executable (.loop c b)
  | block {ss : List Node} (h : ∀ s ∈ ss, Executable s) : Executable (.block ss)

/-- An expression, with expressions as its parts and without null. -/
inductive IsExpression : Node → Prop where
  | literal {v : Value} (h : v ≠ .null) : IsExpression (.literal v)
  | var {x : String} : IsExpression (.var x)
  | unary {op : String} {e : Node} (h : IsExpression e) : IsExpression (.unary op e)
  | binary {op : String} {l r : Node} (hl : IsExpression l) (hr : IsExpression r) :
      IsExpression (.binary op l r)

/-- A statement, with statements and expressions in their places and without
    null. -/
inductive IsStatement : Node → Prop where
  | expr {e : Node} (h : IsExpression e) : IsStatement (.expr e)
  | assign {x : String} {e : Node} (h : IsExpression e) : IsStatement (.assign x e)
  | print {e : Node} (h : IsExpression e) : IsStatement (.print e)
  | cond {c t e : Node} (hc : IsExpression c) (ht : IsStatement t)
      (he : e.isAbsent = false → IsStatement e) : IsStatement (.cond c t e)
  | loop {c b : Node} (hc : IsExpression c) (hb : IsStatement b) : IsStatement (.loop c b)
  | block {ss : List Node} (h : ∀ s ∈ ss, IsStatement s) : IsStatement (.block ss)

theorem IsExpression.evaluable {e : Node} (h : IsExpression e) : Evaluable e := by
  induction h with
  | literal _ => exact .literal
  | var => exact .var
  | unary _ ih => exact .unary ih
  | binary _ _ ihl ihr => exact .binary ihl ihr

theorem IsStatement.executable {s : Node} (h : IsStatement s) : Executable s := by
  induction h with
  | expr he => exact .expr he.evaluable
  | assign he => exact .assign he.evaluable
  | print he => exact .print he.evaluable
  | cond hc _ _ iht ihe => exact .cond hc.evaluable iht ihe
  | loop hc _ ihb => exact .loop hc.evaluable ihb
  | block _ ih => exact .block ih

namespace Grammar

theorem isExpression_atomTree (t : Token) : IsExpression (atomTree t) := by
  unfold atomTree
  split
  · exact .literal (by simp)
  · exact .literal (by simp)
  · exact .var
  · exact .literal (by simp)

theorem Expr.isExpression_tree : {k : Nat} → (e : Expr k) → IsExpression e.tree
  | _, .atom t _ => isExpression_atomTree t
  | _, .unary _ e => .unary e.isExpression_tree
  | _, .group _ e _ => e.isExpression_tree
  | _, .tighter e => e.isExpression_tree
  | _, .binary l _ r => .binary l.isExpression_tree r.isExpression_tree

mutual

theorem Stmt.isStatement_tree : {b : Bool} → (s : Stmt b) → IsStatement s.tree
  | _, .expr e _ => .expr e.isExpression_tree
  | _, .assign _ _ e _ => .assign e.isExpression_tree
  | _, .print _ e _ => .print e.isExpression_tree
  | _, .branch _ c body => .cond c.e.isExpression_tree body.isStatement_tree (by simp [Node.isAbsent])
  | _, .branchElse _ c body _ other =>
    .cond c.e.isExpression_tree body.isStatement_tree fun _ => other.isStatement_tree
  | _, .loop _ c body => .loop c.e.isExpression_tree body.isStatement_tree
  | _, .block _ body _ _ => .block body.isStatement_trees

/-- **The trees of a derivation are statements.** -/
theorem Stmts.isStatement_trees : (ss : Stmts) → ∀ s ∈ ss.trees, IsStatement s
  | .nil, s, h => nomatch h
  | .cons first rest, s, h => by
    rcases List.mem_cons.1 h with rfl | h
    · exact first.isStatement_tree
    · exact rest.isStatement_trees s h

end

end Grammar

/-! ## Faults -/

/-- An expression fails only with an error of the program. -/
theorem Evaluable.kind_isSome {get? : String → Option Value} {e : Node} {f : Fault}
    (he : Evaluable e) (h : valueIn get? e = .error f) : f.kind?.isSome = true := by
  induction he with
  | literal => cases h
  | var =>
    simp only [valueIn] at h
    split at h <;> cases h
    rfl
  | unary _ ih =>
    rcases bind_eq_error h with he | ⟨v, -, ho⟩
    · exact ih he
    · rw [applyUnary_error ho]
      rfl
  | binary _ _ ihl ihr =>
    rcases bind_eq_error h with hl | ⟨a, -, hb⟩
    · exact ihl hl
    · rcases bind_eq_error hb with hr | ⟨b, -, ho⟩
      · exact ihr hr
      · rcases applyBinary_error ho with rfl | rfl | rfl <;> rfl

theorem Executable.isStatement {node : Node} (h : Executable node) :
    node.isStatement = true := by
  cases h <;> rfl

theorem Executable.subject {node e : Node} (h : Executable node)
    (he : node.subject? = some e) : Evaluable e := by
  cases h <;> cases he <;> assumption

section Faults

variable {verbosity : Int} {f : Fault}

mutual

theorem Runs.kind_isSome {node : Node} {st : RunState} {o : RunState × Option Fault} :
    Runs (stack verbosity) node st o → Executable node → o.2 = some f → f.kind?.isSome = true
  | .misplaced h, hn, _ => by
    rw [hn.isStatement] at h
    cases h
  | .fault hs h, hn, hf => by
    cases hf
    exact (hn.subject hs).kind_isSome h
  | .unfit _ _, _, hf => by
    cases hf
    rfl
  | .body _ hr, .cond _ ht _, hf => hr.kind_isSome ht hf
  | .other _ ha hr, .cond _ _ he, hf => hr.kind_isSome (he ha) hf
  | .again _ _ _ hl, hn, hf => hl.kind_isSome hn hf
  | .broken _ _ hb, .loop _ hbody, hf => hb.kind_isSome hbody hf
  | .block h, .block hss, hf => by
    -- leaving the scope adds no fault to those of the statements
    obtain ⟨hx, -⟩ := runsAll_extends h
    rw [(leave_binds hx).2] at hf
    exact h.kind_isSome hss hf

/-- **Statements whose parts are in their places end with no fault but an error
    of the program.** -/
theorem RunsAll.kind_isSome {ss : List Node} {st : RunState} {o : RunState × Option Fault} :
    RunsAll (stack verbosity) ss st o → (∀ s ∈ ss, Executable s) → o.2 = some f →
      f.kind?.isSome = true
  | .cons _ hs, hss, hf => hs.kind_isSome (List.forall_mem_cons.1 hss).2 hf
  | .fault h, hss, hf => h.kind_isSome (List.forall_mem_cons.1 hss).1 hf

end

end Faults

/-! ## Values -/

theorem applyUnary_ne_null {op : String} {a v : Value} (h : applyUnary op a = .ok v) :
    v ≠ .null := by
  rintro rfl
  cases a <;> simp only [applyUnary] at h
  case number | boolean => split at h <;> cases h
  all_goals cases h

theorem applyBinary_ne_null {op : String} {a b v : Value} (h : applyBinary op a b = .ok v) :
    v ≠ .null := by
  rintro rfl
  unfold applyBinary at h
  split at h
  · unfold applyNumeric? at h
    split at h <;> simp only [Option.getD_some, Option.getD_none] at h
    case h_4 => split at h <;> cases h
    case h_5 =>
      split at h
      · cases h
      · split at h <;> cases h
    all_goals cases h
  · split at h <;> cases h
  · split at h <;> cases h

section Values

variable {get? : String → Option Value}

theorem bind_eq_ok {x : Except Fault Value} {next : Value → Except Fault Value} {v : Value}
    (h : x >>= next = .ok v) : ∃ a, x = .ok a ∧ next a = .ok v := by
  cases x with
  | error f => cases h
  | ok a => exact ⟨a, rfl, h⟩

/-- No expression has the value null where no name has. -/
theorem IsExpression.ne_null {e : Node} {v : Value} (he : IsExpression e)
    (hget : ∀ x, get? x ≠ some .null) (h : valueIn get? e = .ok v) : v ≠ .null := by
  cases he with
  | literal hv =>
    cases h
    exact hv
  | @var x =>
    rintro rfl
    simp only [valueIn] at h
    split at h
    · rename_i w hw
      cases h
      exact hget x hw
    · cases h
  | unary =>
    obtain ⟨a, -, ha⟩ := bind_eq_ok h
    exact applyUnary_ne_null ha
  | binary =>
    obtain ⟨a, -, ha⟩ := bind_eq_ok h
    obtain ⟨b, -, hb⟩ := bind_eq_ok ha
    exact applyBinary_ne_null hb

end Values

/-! ## Environments without null -/

/-- No variable is bound to null. -/
def Env.NoNull (env : Env) : Prop :=
  ∀ s ∈ env.scopes, ∀ b ∈ s, b.2 ≠ .null

theorem Scope.mem_of_get? {s : Scope} {x : String} {v : Value} (h : s.get? x = some v) :
    (x, v) ∈ s := by
  induction s with
  | nil => cases h
  | cons b rest ih =>
    obtain ⟨y, w⟩ := b
    simp only [Scope.get?] at h
    split at h
    · rename_i hy
      cases h
      rw [hy]
      exact List.mem_cons_self
    · exact List.mem_cons_of_mem _ (ih h)

theorem mem_of_lookupIn {x : String} {v : Value} : ∀ {scopes : List Scope},
    lookupIn x scopes = some v → ∃ s ∈ scopes, (x, v) ∈ s
  | [], h => by cases h
  | s :: rest, h => by
    simp only [lookupIn] at h
    split at h
    · rename_i w hw
      cases h
      exact ⟨s, List.mem_cons_self, Scope.mem_of_get? hw⟩
    · obtain ⟨s', hs', hx⟩ := mem_of_lookupIn h
      exact ⟨s', List.mem_cons_of_mem _ hs', hx⟩

theorem Env.NoNull.get? {env : Env} (h : env.NoNull) (x : String) : env.get? x ≠ some .null := by
  intro hx
  obtain ⟨s, hs, hb⟩ := mem_of_lookupIn hx
  exact h s hs _ hb rfl

theorem Scope.mem_put {s : Scope} {x : String} {v : Value} {b : String × Value}
    (h : b ∈ s.put x v) : b.2 = v ∨ b ∈ s := by
  induction s with
  | nil =>
    rw [Scope.put, List.mem_singleton] at h
    exact Or.inl (by rw [h])
  | cons a rest ih =>
    obtain ⟨y, w⟩ := a
    simp only [Scope.put] at h
    split at h
    · rcases List.mem_cons.1 h with rfl | h
      · exact Or.inl rfl
      · exact Or.inr (List.mem_cons_of_mem _ h)
    · rcases List.mem_cons.1 h with rfl | h
      · exact Or.inr List.mem_cons_self
      · exact (ih h).imp id (List.mem_cons_of_mem _)

theorem replaceIn?_noNull {x : String} {v : Value} (hv : v ≠ .null) :
    ∀ {scopes scopes' : List Scope}, replaceIn? x v scopes = some scopes' →
      (∀ s ∈ scopes, ∀ b ∈ s, b.2 ≠ .null) → ∀ s ∈ scopes', ∀ b ∈ s, b.2 ≠ .null
  | [], _, h, _ => by cases h
  | s :: rest, scopes', h, hs => by
    obtain ⟨hfirst, hrest⟩ := List.forall_mem_cons.1 hs
    simp only [replaceIn?] at h
    split at h
    · cases h
      refine List.forall_mem_cons.2 ⟨fun b hb => ?_, hrest⟩
      rcases Scope.mem_put hb with hbv | hb
      · exact hbv ▸ hv
      · exact hfirst b hb
    · obtain ⟨rest', hr, rfl⟩ := Option.map_eq_some_iff.1 h
      exact List.forall_mem_cons.2 ⟨hfirst, replaceIn?_noNull hv hr hrest⟩

theorem Env.NoNull.set {env : Env} {x : String} {v : Value} (h : env.NoNull) (hv : v ≠ .null) :
    (env.set x v).NoNull := by
  obtain ⟨hinner, houter⟩ := List.forall_mem_cons.1 h
  have hput : ∀ b ∈ env.innermost.put x v, b.2 ≠ .null := by
    intro b hb
    rcases Scope.mem_put hb with hbv | hb
    · exact hbv ▸ hv
    · exact hinner b hb
  unfold Env.set
  split
  · exact List.forall_mem_cons.2 ⟨hput, houter⟩
  · split
    · rename_i outer ho
      exact List.forall_mem_cons.2 ⟨hinner, replaceIn?_noNull hv ho houter⟩
    · exact List.forall_mem_cons.2 ⟨hput, houter⟩

theorem Env.NoNull.enter {env : Env} (h : env.NoNull) : env.enter.NoNull :=
  List.forall_mem_cons.2 ⟨by simp [Env.enter], h⟩

theorem Env.NoNull.exit? {env env' : Env} (h : env.NoNull) (he : env.exit? = some env') :
    env'.NoNull := by
  unfold Env.exit? at he
  split at he
  · cases he
  · rename_i s rest ho
    cases he
    intro s' hs'
    exact h s' (List.mem_cons_of_mem _ (ho ▸ hs'))

/-- A block that is left has given null to no variable if its statements have
    not. -/
theorem leave_noNull {verbosity : Int} {st : RunState} {o : RunState × Option Fault}
    (hx : ((stack verbosity).enter st).env.Extends o.1.env) (h : o.1.env.NoNull) :
    ((stack verbosity).leave st o).1.env.NoNull := by
  simp only [stack, RunState.enterScope_env] at hx
  obtain ⟨env, he, -⟩ := hx.exit?
  obtain ⟨henv, -, -⟩ := Ending.leaveScope_of_exit? ⟨o.1, o.2⟩ verbosity he
  simp only [stack, henv]
  exact h.exit? he

/-! ## Runs -/

/-- A run has given null to no variable, and ended with no fault but an error
    of the program. -/
def Proper (o : RunState × Option Fault) : Prop :=
  o.1.env.NoNull ∧ ∀ f, o.2 = some f → f.kind?.isSome = true

mutual

theorem Runs.noNull {verbosity : Int} {node : Node} {st : RunState}
    {o : RunState × Option Fault} :
    Runs (stack verbosity) node st o → IsStatement node → st.env.NoNull → o.1.env.NoNull
  | .misplaced _, _, hst | .fault _ _, _, hst | .expr _, _, hst | .print _, _, hst
  | .unfit _ _, _, hst => hst
  | .assign h, .assign he, hst => by
    simpa [stack] using hst.set (he.ne_null hst.get? h)
  | .body _ hr, .cond _ ht _, hst => hr.noNull ht (by simpa [stack] using hst)
  | .other _ ha hr, .cond _ _ he, hst => hr.noNull (he ha) (by simpa [stack] using hst)
  | .skip _, _, hst | .stop _ _, _, hst => by simpa [stack] using hst
  | .again _ _ hb hl, .loop hc hbody, hst =>
    hl.noNull (.loop hc hbody) (hb.noNull hbody (by simpa [stack] using hst))
  | .broken _ _ hb, .loop _ hbody, hst => hb.noNull hbody (by simpa [stack] using hst)
  | .block h, .block hss, hst =>
    leave_noNull (runsAll_extends h).1 (h.noNull hss (by simpa [stack] using hst.enter))

theorem RunsAll.noNull {verbosity : Int} {ss : List Node} {st : RunState}
    {o : RunState × Option Fault} :
    RunsAll (stack verbosity) ss st o → (∀ s ∈ ss, IsStatement s) → st.env.NoNull →
      o.1.env.NoNull
  | .nil, _, hst => hst
  | .cons h hs, hss, hst => by
    obtain ⟨hfirst, hrest⟩ := List.forall_mem_cons.1 hss
    exact hs.noNull hrest (h.noNull hfirst hst)
  | .fault h, hss, hst => h.noNull (List.forall_mem_cons.1 hss).1 hst

end

/-- **Statements without null end with no fault but an error of the program**,
    and give null to no variable. -/
theorem RunsAll.sorted {verbosity : Int} {ss : List Node} {st : RunState}
    {o : RunState × Option Fault} (h : RunsAll (stack verbosity) ss st o)
    (hss : ∀ s ∈ ss, IsStatement s) (hst : st.env.NoNull) : Proper o :=
  ⟨h.noNull hss hst, fun _ hf => h.kind_isSome (fun s hs => (hss s hs).executable) hf⟩

end BlockScript
