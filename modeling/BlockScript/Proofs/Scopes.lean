/-
  BlockScript — the scopes of a run.

  However a statement ends, it has left every scope that it entered: the
  scopes around the innermost one bind the names that they bound before, and
  the innermost one has at most gained names that were bound nowhere.

  * `Scope.get?_put`, `Env.get?_set`: a name that was assigned has its new
    value, and every other name the value that it had;
  * `Env.Extends`: how a run may change the names of an environment;
  * `stack_respects_extends`, `runs_extends`: every run changes them so;
  * `exec_balanced`: the scopes before and after a statement.
-/
import BlockScript.Proofs.Run

namespace BlockScript

/-! ## Assignment -/

theorem Scope.get?_put (s : Scope) (x y : String) (v : Value) :
    (s.put x v).get? y = if x = y then some v else s.get? y := by
  induction s with
  | nil => rfl
  | cons b rest ih =>
    obtain ⟨z, w⟩ := b
    by_cases hz : z = x
    · subst hz
      by_cases hy : z = y <;> simp [Scope.put, Scope.get?, hy]
    · by_cases hy : z = y
      · subst hy
        simp [Scope.put, Scope.get?, hz, Ne.symm hz]
      · simp [Scope.put, Scope.get?, hz, hy, ih]

theorem Scope.binds_put (s : Scope) (x y : String) (v : Value) :
    (s.put x v).binds y = (x == y || s.binds y) := by
  by_cases h : x = y <;> simp [Scope.binds, Scope.get?_put, h]

/-- Changing the value of a bound name does not change what is bound. -/
theorem Scope.binds_put_of_binds {s : Scope} {x : String} (v : Value) (h : s.binds x = true) :
    (s.put x v).binds = s.binds := by
  funext y
  by_cases hy : x = y
  · subst hy
    simp [Scope.binds_put, h]
  · simp [Scope.binds_put, hy]

theorem replaceIn?_binds {x : String} {v : Value} : ∀ {scopes scopes' : List Scope},
    replaceIn? x v scopes = some scopes' → scopes'.map Scope.binds = scopes.map Scope.binds
  | [], _, h => by simp [replaceIn?] at h
  | s :: rest, scopes', h => by
    by_cases hs : s.binds x = true
    · simp only [replaceIn?, hs, if_true, Option.some.injEq] at h
      subst h
      simp only [List.map_cons, Scope.binds_put_of_binds v hs]
    · simp only [replaceIn?, hs, Bool.false_eq_true, if_false, Option.map_eq_some_iff] at h
      obtain ⟨rest', hr, rfl⟩ := h
      simp only [List.map_cons, replaceIn?_binds hr]

theorem replaceIn?_eq_none {x : String} {v : Value} : ∀ {scopes : List Scope},
    replaceIn? x v scopes = none → scopes.any (·.binds x) = false
  | [], _ => rfl
  | s :: rest, h => by
    by_cases hs : s.binds x = true
    · simp only [replaceIn?, hs, if_true, reduceCtorEq] at h
    · simp only [replaceIn?, hs, Bool.false_eq_true, if_false, Option.map_eq_none_iff] at h
      rw [List.any_cons, replaceIn?_eq_none h]
      simpa using hs

/-! ## Lookup -/

theorem lookupIn_cons (x : String) (s : Scope) (rest : List Scope) :
    lookupIn x (s :: rest) = (s.get? x).or (lookupIn x rest) := by
  rw [lookupIn]
  cases s.get? x <;> rfl

theorem Scope.get?_eq_none {s : Scope} {x : String} (h : s.binds x = false) : s.get? x = none := by
  simpa [Scope.binds] using h

/-- A name has a value exactly if some scope binds it. -/
theorem lookupIn_isSome (x : String) : ∀ scopes : List Scope,
    (lookupIn x scopes).isSome = scopes.any (·.binds x)
  | [] => rfl
  | s :: rest => by
    rw [lookupIn_cons, List.any_cons, Option.isSome_or, lookupIn_isSome x rest, Scope.binds]

theorem replaceIn?_get? {x : String} {v : Value} (y : String) :
    ∀ {scopes scopes' : List Scope}, replaceIn? x v scopes = some scopes' →
      lookupIn y scopes' = if x = y then some v else lookupIn y scopes
  | [], _, h => by simp [replaceIn?] at h
  | s :: rest, scopes', h => by
    by_cases hs : s.binds x = true
    · simp only [replaceIn?, hs, if_true, Option.some.injEq] at h
      subst h
      rw [lookupIn_cons, lookupIn_cons, Scope.get?_put]
      by_cases hy : x = y <;> simp [hy]
    · simp only [replaceIn?, hs, Bool.false_eq_true, if_false, Option.map_eq_some_iff] at h
      obtain ⟨rest', hr, rfl⟩ := h
      rw [lookupIn_cons, lookupIn_cons, replaceIn?_get? y hr]
      by_cases hy : x = y
      · subst hy
        simp [Scope.get?_eq_none (by simpa using hs)]
      · simp [hy]

/-- A name that was assigned has its new value, and every other name the value
    that it had. -/
theorem Env.get?_set (env : Env) (x y : String) (v : Value) :
    (env.set x v).get? y = if x = y then some v else env.get? y := by
  have hput : lookupIn y (env.innermost.put x v :: env.outer) =
      if x = y then some v else env.get? y := by
    rw [Env.get?, Env.scopes, lookupIn_cons, lookupIn_cons, Scope.get?_put]
    by_cases hy : x = y <;> simp [hy]
  rw [Env.set]
  split
  · exact hput
  · rename_i hx
    split
    · rename_i outer ho
      rw [Env.get?, Env.get?, Env.scopes, Env.scopes, lookupIn_cons, lookupIn_cons,
        replaceIn?_get? y ho]
      by_cases hy : x = y
      · subst hy
        simp [Scope.get?_eq_none (by simpa using hx)]
      · simp [hy]
    · exact hput

/-! ## The names of an environment during a run -/

/-- How a run may change the names of an environment.  The scopes around the
    innermost one bind the names that they bound; the innermost one keeps its
    names, and gains only names that no scope around it binds. -/
structure Env.Extends (env env' : Env) : Prop where
  outer : env'.outer.map Scope.binds = env.outer.map Scope.binds
  kept : ∀ x, env.innermost.binds x = true → env'.innermost.binds x = true
  fresh : ∀ x, env'.innermost.binds x = true →
    env.innermost.binds x = true ∨ env.outer.any (·.binds x) = false

/-- Whether a name is bound in some scope depends only on what each binds. -/
theorem any_binds_congr {scopes scopes' : List Scope} (x : String)
    (h : scopes'.map Scope.binds = scopes.map Scope.binds) :
    scopes'.any (·.binds x) = scopes.any (·.binds x) := by
  have hmap : ∀ l : List Scope, l.any (·.binds x) = (l.map Scope.binds).any (· x) := by
    intro l
    simp only [List.any_map, Function.comp_def]
  rw [hmap, hmap, h]

theorem Env.Extends.refl (env : Env) : env.Extends env :=
  ⟨rfl, fun _ h => h, fun _ h => Or.inl h⟩

theorem Env.Extends.trans {env env' env'' : Env} (h : env.Extends env') (h' : env'.Extends env'') :
    env.Extends env'' := by
  refine ⟨h'.outer.trans h.outer, fun x hx => h'.kept x (h.kept x hx), fun x hx => ?_⟩
  rcases h'.fresh x hx with hi | ho
  · exact h.fresh x hi
  · rw [any_binds_congr x h.outer] at ho
    exact Or.inr ho

theorem Env.extends_set (env : Env) (x : String) (v : Value) : env.Extends (env.set x v) := by
  rw [Env.set]
  split
  · rename_i hx
    have hb := Scope.binds_put_of_binds v hx
    exact ⟨rfl, fun y hy => hb ▸ hy, fun y hy => Or.inl (hb ▸ hy)⟩
  · split
    · rename_i outer ho
      exact ⟨replaceIn?_binds ho, fun _ hy => hy, fun _ hy => Or.inl hy⟩
    · rename_i ho
      refine ⟨rfl, fun y hy => ?_, fun y hy => ?_⟩
      · simp [Scope.binds_put, hy]
      · rw [Scope.binds_put, Bool.or_eq_true, beq_iff_eq] at hy
        rcases hy with rfl | hy
        · exact Or.inr (replaceIn?_eq_none ho)
        · exact Or.inl hy

/-- Statements that ran in a new scope can leave it, and have changed what no
    scope binds. -/
theorem Env.Extends.exit? {env env' : Env} (h : env.enter.Extends env') :
    ∃ env'', env'.exit? = some env'' ∧
      env''.scopes.map Scope.binds = env.scopes.map Scope.binds := by
  have ho := h.outer
  rw [Env.enter] at ho
  cases hs : env'.outer with
  | nil => simp [hs] at ho
  | cons s rest =>
    refine ⟨⟨s, rest⟩, by rw [Env.exit?, hs], ?_⟩
    rw [hs] at ho
    exact ho

/-- Environments whose scopes bind the same names extend each other. -/
theorem Env.extends_of_binds {env env' : Env}
    (h : env'.scopes.map Scope.binds = env.scopes.map Scope.binds) : env.Extends env' := by
  obtain ⟨hi, ho⟩ := List.cons.inj h
  exact ⟨ho, fun x hx => hi ▸ hx, fun x hx => Or.inl (hi ▸ hx)⟩

@[simp] theorem RunState.record_env (st : RunState) (verbosity : Int) (e : Event) :
    (st.record verbosity e).env = st.env := by
  unfold RunState.record
  split <;> rfl

@[simp] theorem RunState.record_output (st : RunState) (verbosity : Int) (e : Event) :
    (st.record verbosity e).output = st.output := by
  unfold RunState.record
  split <;> rfl

@[simp] theorem RunState.enterScope_env (st : RunState) (verbosity : Int) :
    (st.enterScope verbosity).env = st.env.enter :=
  RunState.record_env _ _ _

/-- Leaving a scope changes the environment, and at most the trace besides. -/
theorem Ending.leaveScope_of_exit? (ending : Ending) (verbosity : Int) {env : Env}
    (h : ending.state.env.exit? = some env) :
    (ending.leaveScope verbosity).state.env = env ∧
      (ending.leaveScope verbosity).state.output = ending.state.output ∧
      (ending.leaveScope verbosity).fault = ending.fault := by
  rw [Ending.leaveScope, h]
  cases hf : ending.fault <;> simp

/-! ## Faults of expressions -/

theorem applyUnary_error {op : String} {v : Value} {f : Fault} (h : applyUnary op v = .error f) :
    f = .unaryMismatch op v := by
  cases v <;> simp only [applyUnary] at h
  case number | boolean => split at h <;> cases h; rfl
  all_goals cases h; rfl

/-- Two values do not fit an operator, or the operator divides by zero. -/
theorem applyBinary_error {op : String} {a b : Value} {f : Fault}
    (h : applyBinary op a b = .error f) :
    f = .binaryMismatch op a b ∨ f = .divisionByZero ∨ f = .moduloByZero := by
  unfold applyBinary at h
  split at h
  · unfold applyNumeric? at h
    split at h <;> simp only [Option.getD_some, Option.getD_none, reduceCtorEq] at h
    case h_4 =>
      split at h <;> cases h
      exact Or.inr (Or.inl rfl)
    case h_5 =>
      split at h
      · cases h
        exact Or.inr (Or.inr rfl)
      · rename_i hy
        split at h
        · cases h
        · rename_i hr
          exact absurd (eq_zero_of_remainder?_eq_none hr) hy
    case h_12 =>
      cases h
      exact Or.inl rfl
  · split at h <;> cases h
    exact Or.inl rfl
  · split at h <;> cases h
    exact Or.inl rfl

/-- A failure of two evaluations is one of the first or of the second. -/
theorem bind_eq_error {α β : Type} {x : Except Fault α} {next : α → Except Fault β} {f : Fault}
    (h : x >>= next = .error f) : x = .error f ∨ ∃ v, x = .ok v ∧ next v = .error f := by
  cases x with
  | error g =>
    cases h
    exact Or.inl rfl
  | ok v => exact Or.inr ⟨v, rfl, h⟩

/-- No expression fails for want of a scope. -/
theorem valueIn_ne_globalScope (get? : String → Option Value) :
    ∀ e : Node, valueIn get? e ≠ .error .globalScope
  | .literal v, h => by cases h
  | .var x, h => by
    simp only [valueIn] at h
    split at h <;> cases h
  | .unary op e, h => by
    rcases bind_eq_error h with he | ⟨v, -, ho⟩
    · exact valueIn_ne_globalScope get? e he
    · cases applyUnary_error ho
  | .binary op l r, h => by
    rcases bind_eq_error h with hl | ⟨a, -, hb⟩
    · exact valueIn_ne_globalScope get? l hl
    · rcases bind_eq_error hb with hr | ⟨b, -, ho⟩
      · exact valueIn_ne_globalScope get? r hr
      · rcases applyBinary_error ho with hf | hf | hf <;> cases hf
  | .expr _, h | .assign _ _, h | .print _, h | .cond _ _ _, h | .loop _ _, h | .block _, h
  | .absent, h => by cases h

/-! ## Balance -/

/-- After a block each scope binds what it bound before, and the block has the
    fault of its statements. -/
theorem leave_binds {verbosity : Int} {st : RunState} {o : RunState × Option Fault}
    (h : ((stack verbosity).enter st).env.Extends o.1.env) :
    ((stack verbosity).leave st o).1.env.scopes.map Scope.binds =
        st.env.scopes.map Scope.binds ∧
      ((stack verbosity).leave st o).2 = o.2 := by
  simp only [stack, RunState.enterScope_env] at h
  obtain ⟨env, he, hb⟩ := h.exit?
  obtain ⟨henv, -, hf⟩ := Ending.leaveScope_of_exit? ⟨o.1, o.2⟩ verbosity he
  refine ⟨?_, hf⟩
  simp only [stack, henv]
  exact hb

/-- Every rule extends the environment, and none fails for want of a scope. -/
theorem stack_respects_extends (verbosity : Int) :
    (stack verbosity).Respects fun st st' r =>
      st.env.Extends st'.env ∧ r ≠ some .globalScope where
  refl st := ⟨.refl _, by simp⟩
  trans h h' := ⟨h.1.trans h'.1, h'.2⟩
  assign st x v := ⟨by simpa [stack] using st.env.extends_set x v, by simp⟩
  print st v := ⟨.refl _, by simp⟩
  branched st v := ⟨by simpa [stack] using Env.Extends.refl st.env, by simp⟩
  looped st v := ⟨by simpa [stack] using Env.Extends.refl st.env, by simp⟩
  misplaced st kind := ⟨.refl _, by simp⟩
  fault {st e f} h := by
    refine ⟨.refl _, ?_⟩
    rintro ⟨⟩
    exact valueIn_ne_globalScope _ e h
  unfit st v := ⟨.refl _, by simp⟩
  scope {st o} h := by
    obtain ⟨hx, hr⟩ := h
    obtain ⟨hb, hf⟩ := leave_binds hx
    exact ⟨Env.extends_of_binds hb, hf ▸ hr⟩

theorem runs_extends {verbosity : Int} {node : Node} {st : RunState}
    {o : RunState × Option Fault} (h : Runs (stack verbosity) node st o) :
    st.env.Extends o.1.env ∧ o.2 ≠ some .globalScope :=
  h.respects (stack_respects_extends verbosity)

theorem runsAll_extends {verbosity : Int} {ss : List Node} {st : RunState}
    {o : RunState × Option Fault} (h : RunsAll (stack verbosity) ss st o) :
    st.env.Extends o.1.env ∧ o.2 ≠ some .globalScope :=
  h.respects (stack_respects_extends verbosity)

/-- A block binds no name and unbinds none, in any scope. -/
theorem runs_block_binds {verbosity : Int} {ss : List Node} {st : RunState}
    {o : RunState × Option Fault} (h : Runs (stack verbosity) (.block ss) st o) :
    o.1.env.scopes.map Scope.binds = st.env.scopes.map Scope.binds := by
  obtain ⟨o', hb, rfl⟩ := runs_block_iff.1 h
  exact (leave_binds (runsAll_extends hb).1).1

/-- **The scopes of a run are balanced.**  However a statement ends, there are
    as many scopes as before, each but the innermost one binds exactly the names
    that it bound, the innermost one keeps its names, and gains none if the
    statement is a block; and the global scope is never left. -/
theorem exec_balanced {bound : Nat} {verbosity : Int} {node : Node} {st : RunState}
    {ending : Ending} (h : exec bound verbosity node st = some ending) :
    ending.state.env.depth = st.env.depth ∧
      ending.state.env.outer.map Scope.binds = st.env.outer.map Scope.binds ∧
      (∀ x, st.env.innermost.binds x = true → ending.state.env.innermost.binds x = true) ∧
      (∀ ss, node = .block ss → ending.state.env.innermost.binds = st.env.innermost.binds) ∧
      ending.fault ≠ some .globalScope := by
  have hr := runs_of_exec node st ending h
  obtain ⟨hx, hf⟩ := runs_extends hr
  refine ⟨?_, hx.outer, hx.kept, ?_, hf⟩
  · have hl := congrArg List.length hx.outer
    rw [List.length_map, List.length_map] at hl
    exact congrArg (· + 1) hl
  · rintro ss rfl
    exact (List.cons.inj (runs_block_binds hr)).1

/-- A block that changes an outer variable, binds one of its own, and fails in
    a block inside it. -/
theorem exec_balanced_failing_block :
    ∃ ending, exec 1 3
        (.block [.assign "x" (.literal .null), .block [.assign "z" (.var "x"), .print (.var "u")]])
        ⟨⟨[("y", .null)], [[("x", .boolean true)]]⟩, "", #[]⟩ = some ending ∧
      ending.fault = some (.undefinedVariable "u") ∧
      ending.state.env.get? "x" = some .null ∧
      ending.state.env.depth = 2 ∧
      ending.state.env.outer.map Scope.binds = [Scope.binds [("x", .boolean true)]] ∧
      ending.state.env.innermost.binds = Scope.binds [("y", .null)] ∧
      ending.fault ≠ some .globalScope := by
  have h : exec 1 3
      (.block [.assign "x" (.literal .null), .block [.assign "z" (.var "x"), .print (.var "u")]])
      ⟨⟨[("y", .null)], [[("x", .boolean true)]]⟩, "", #[]⟩ = some _ := rfl
  obtain ⟨hd, ho, -, hb, hf⟩ := exec_balanced h
  exact ⟨_, h, rfl, rfl, hd, ho, hb _ rfl, hf⟩

end BlockScript
