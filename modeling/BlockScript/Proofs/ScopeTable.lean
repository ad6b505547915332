/-
  BlockScript — scopes as one table of names.

  No two scopes of an environment bind the same name, because a name gets a
  binding only where no scope has one.  So the scopes can be told by one table
  that gives each name its value and the level of its scope: leaving a scope
  deletes the names of the current level, and uncovers none.

  * `Table`, `Table.perform`: the table, and the steps of a script on it;
  * `Env.Exclusive`: no name is bound by two scopes;
  * `Env.table`: the table of an environment;
  * `Matches`, `Matches.perform`, `Matches.performAll`: environments and
    tables answer alike, step by step;
  * `Step.points`, `Env.points`: the environments that a script passes through;
  * `script_table`: whole scripts.
-/
import BlockScript.Env.Script
import BlockScript.Proofs.Scopes

namespace BlockScript

/-! ## Tables -/

/-- A value and a level for each name that has one, and the current level. -/
structure Table where
  depth : Nat
  entry : String → Option (Value × Nat)

/-- The table without names, at the first level. -/
def Table.empty : Table := ⟨1, fun _ => none⟩

/-- Go to the next level. -/
def Table.enter (t : Table) : Table :=
  { t with depth := t.depth + 1 }

/-- Delete the names of the current level and go back to the one before it,
    unless the current one is the first. -/
def Table.exit? (t : Table) : Option Table :=
  if t.depth = 1 then none
  else some ⟨t.depth - 1, fun x => (t.entry x).filter fun e => e.2 ≠ t.depth⟩

/-- Give a name a value.  A name that is there keeps its level, a new one has
    the current level. -/
def Table.set (t : Table) (name : String) (value : Value) : Table :=
  let level := match t.entry name with
    | some (_, level) => level
    | none => t.depth
  { t with entry := fun x => if name = x then some (value, level) else t.entry x }

/-- Go back a level after steps; where there is none, that is the failure. -/
def Table.leave (t : Table) (result : Except Fault Answer) : Table × Except Fault Answer :=
  match t.exit? with
  | some t => (t, result)
  | none => (t, .error .globalScope)

mutual

/-- The table after a step, and what the step answers. -/
def Table.perform (t : Table) : Step → Table × Except Fault Answer
  | .enter => (t.enter, .ok .nothing)
  | .exit => t.leave (.ok .nothing)
  | .set x v => (t.set x v, .ok .nothing)
  | .get x => match t.entry x with
    | some (v, _) => (t, .ok (.value v))
    | none => (t, .error (.undefinedVariable x))
  | .isDefined x => (t, .ok (.flag (t.entry x).isSome))
  | .depth => (t, .ok (.count t.depth))
  | .scoped steps =>
    let (t, result) := t.enter.performAll steps
    t.leave (result.map .answers)

/-- The table after several steps up to the first failure, and their
    answers. -/
def Table.performAll (t : Table) : List Step → Table × Except Fault (List Answer)
  | [] => (t, .ok [])
  | step :: rest => match t.perform step with
    | (t, .error f) => (t, .error f)
    | (t, .ok a) => match t.performAll rest with
      | (t, .ok others) => (t, .ok (a :: others))
      | (t, .error f) => (t, .error f)

end

/-! ## Names bound once -/

/-- Each name is bound in at most one scope. -/
def Env.Exclusive (env : Env) : Prop :=
  ∀ x, env.scopes.countP (·.binds x) ≤ 1

theorem countP_binds_eq_zero {scopes : List Scope} {x : String} :
    scopes.countP (·.binds x) = 0 ↔ scopes.any (·.binds x) = false := by
  simp [List.countP_eq_zero]

theorem countP_binds_congr {scopes scopes' : List Scope} (x : String)
    (h : scopes'.map Scope.binds = scopes.map Scope.binds) :
    scopes'.countP (·.binds x) = scopes.countP (·.binds x) := by
  have hmap : ∀ l : List Scope, l.countP (·.binds x) = (l.map Scope.binds).countP (· x) := by
    intro l
    simp only [List.countP_map, Function.comp_def]
  rw [hmap, hmap, h]

/-- The scopes that bind a name are the innermost one, if it does, and those
    around it that do. -/
theorem Env.countP_scopes (env : Env) (x : String) :
    env.scopes.countP (·.binds x) =
      env.outer.countP (·.binds x) + if env.innermost.binds x = true then 1 else 0 :=
  List.countP_cons

theorem Env.exclusive_empty : Env.empty.Exclusive := by
  intro x
  exact List.countP_le_length

/-- A name that the innermost scope binds is bound by no scope around it. -/
theorem Env.Exclusive.outer {env : Env} (h : env.Exclusive) {x : String}
    (hx : env.innermost.binds x = true) : env.outer.any (·.binds x) = false := by
  have hcount := h x
  rw [Env.countP_scopes, if_pos hx] at hcount
  exact countP_binds_eq_zero.1 (by omega)

/-- An environment that gains only names that were bound nowhere stays
    exclusive. -/
theorem Env.Exclusive.extend {env env' : Env} (h : env.Exclusive) (hx : env.Extends env') :
    env'.Exclusive := by
  intro x
  rw [Env.countP_scopes, countP_binds_congr x hx.outer]
  by_cases hi : env'.innermost.binds x = true
  · have hfree : env.outer.any (·.binds x) = false := by
      rcases hx.fresh x hi with hold | hfree
      · exact h.outer hold
      · exact hfree
    have hnone := countP_binds_eq_zero.2 hfree
    rw [if_pos hi]
    omega
  · have hcount := h x
    rw [Env.countP_scopes] at hcount
    rw [if_neg hi]
    omega

theorem Env.Exclusive.enter {env : Env} (h : env.Exclusive) : env.enter.Exclusive := by
  intro x
  rw [Env.countP_scopes]
  exact h x

theorem Env.scopes_of_exit? {env env' : Env} (h : env.exit? = some env') :
    env.outer = env'.scopes := by
  rw [Env.exit?] at h
  split at h
  · cases h
  · rename_i s rest ho
    cases h
    exact ho

theorem Env.Exclusive.exit? {env env' : Env} (h : env.Exclusive) (he : env.exit? = some env') :
    env'.Exclusive := by
  intro x
  have hcount := h x
  rw [Env.countP_scopes, Env.scopes_of_exit? he] at hcount
  omega

/-! ## The table of an environment -/

/-- The value of a name and the level of the innermost scope that binds it;
    the last scope has the first level. -/
def entryIn (name : String) : List Scope → Option (Value × Nat)
  | [] => none
  | s :: rest => match s.get? name with
    | some v => some (v, rest.length + 1)
    | none => entryIn name rest

/-- The table of an environment. -/
def Env.table (env : Env) : Table :=
  ⟨env.depth, fun x => entryIn x env.scopes⟩

theorem entryIn_cons (x : String) (s : Scope) (rest : List Scope) :
    entryIn x (s :: rest) = ((s.get? x).map (·, rest.length + 1)).or (entryIn x rest) := by
  rw [entryIn]
  cases s.get? x <;> rfl

theorem entryIn_value (x : String) : ∀ scopes : List Scope,
    (entryIn x scopes).map Prod.fst = lookupIn x scopes
  | [] => rfl
  | s :: rest => by
    rw [entryIn_cons, lookupIn_cons, ← entryIn_value x rest]
    cases s.get? x <;> rfl

theorem level_le_of_entryIn {x : String} {e : Value × Nat} : ∀ {scopes : List Scope},
    entryIn x scopes = some e → e.2 ≤ scopes.length
  | [], h => by cases h
  | s :: rest, h => by
    rw [entryIn] at h
    split at h
    · cases h
      exact Nat.le_refl _
    · exact Nat.le_succ_of_le (level_le_of_entryIn h)

theorem entryIn_isSome (x : String) (scopes : List Scope) :
    (entryIn x scopes).isSome = scopes.any (·.binds x) := by
  rw [← lookupIn_isSome, ← entryIn_value, Option.isSome_map]

theorem entryIn_eq_none {x : String} {scopes : List Scope}
    (h : scopes.any (·.binds x) = false) : entryIn x scopes = none := by
  rw [← entryIn_isSome] at h
  simpa using h

/-- Names deeper than all scopes are none of theirs. -/
theorem filter_entryIn (x : String) {scopes : List Scope} {n : Nat} (h : scopes.length < n) :
    (entryIn x scopes).filter (fun e => e.2 ≠ n) = entryIn x scopes := by
  cases he : entryIn x scopes with
  | none => rfl
  | some e =>
    have hlevel := level_le_of_entryIn he
    rw [Option.filter_some, if_pos]
    simp only [ne_eq, decide_eq_true_eq]
    omega

/-- Changing the value of a bound name keeps its level. -/
theorem replaceIn?_entryIn {x : String} {v : Value} (y : String) :
    ∀ {scopes scopes' : List Scope}, replaceIn? x v scopes = some scopes' →
      entryIn y scopes' =
        if x = y then (entryIn x scopes).map fun e => (v, e.2) else entryIn y scopes
  | [], _, h => by cases h
  | s :: rest, scopes', h => by
    by_cases hs : s.binds x = true
    · simp only [replaceIn?, hs, if_true, Option.some.injEq] at h
      subst h
      obtain ⟨w, hw⟩ := Option.isSome_iff_exists.1 hs
      rw [entryIn_cons, entryIn_cons, entryIn_cons, Scope.get?_put, hw]
      by_cases hy : x = y <;> simp [hy]
    · have hnone := Scope.get?_eq_none (by simpa using hs)
      simp only [replaceIn?, hs, Bool.false_eq_true, if_false, Option.map_eq_some_iff] at h
      obtain ⟨rest', hr, rfl⟩ := h
      have hlength : rest'.length = rest.length := by
        simpa using congrArg List.length (replaceIn?_binds hr)
      rw [entryIn_cons, entryIn_cons, entryIn_cons, replaceIn?_entryIn y hr, hlength, hnone]
      by_cases hy : x = y
      · subst hy
        simp [hnone]
      · simp [hy]

theorem Env.table_enter (env : Env) : env.enter.table = env.table.enter :=
  rfl

/-- Setting a name in the innermost scope, which binds it or else no scope
    does. -/
theorem table_put {env : Env} {x : String} (v : Value)
    (h : env.innermost.binds x = true ∨ env.scopes.any (·.binds x) = false) :
    Env.table { env with innermost := env.innermost.put x v } = env.table.set x v := by
  have hentry : (match env.table.entry x with
      | some (_, level) => level
      | none => env.table.depth) = env.outer.length + 1 := by
    rcases h with hx | hx
    · obtain ⟨w, hw⟩ := Option.isSome_iff_exists.1 hx
      simp [Env.table, Env.scopes, entryIn, hw]
    · simp [Env.table, entryIn_eq_none hx, Env.depth]
  rw [Table.set, hentry]
  simp only [Env.table, Env.depth, Env.scopes, Table.mk.injEq, true_and]
  funext y
  rw [entryIn_cons, entryIn_cons, Scope.get?_put]
  by_cases hy : x = y <;> simp [hy]

theorem Env.table_set (env : Env) (x : String) (v : Value) :
    (env.set x v).table = env.table.set x v := by
  rw [Env.set]
  split
  · rename_i hx
    exact table_put v (Or.inl hx)
  · rename_i hx
    split
    · rename_i outer ho
      -- some scope around the innermost one binds the name
      have hnone := Scope.get?_eq_none (by simpa using hx)
      have hlength : outer.length = env.outer.length := by
        simpa using congrArg List.length (replaceIn?_binds ho)
      have hbound : env.outer.any (·.binds x) = true := by
        rw [← any_binds_congr x (replaceIn?_binds ho), ← lookupIn_isSome, replaceIn?_get? x ho]
        simp
      rw [← entryIn_isSome] at hbound
      obtain ⟨e, he⟩ := Option.isSome_iff_exists.1 hbound
      have hentry : env.table.entry x = some e := by
        simp only [Env.table, Env.scopes, entryIn, hnone, he]
      rw [Table.set, hentry]
      simp only [Env.table, Env.depth, Env.scopes, hlength, Table.mk.injEq, true_and]
      funext y
      rw [entryIn_cons, entryIn_cons, hlength, replaceIn?_entryIn y ho, he]
      by_cases hy : x = y
      · subst hy
        simp [hnone]
      · simp [hy]
    · rename_i ho
      refine table_put v (Or.inr ?_)
      rw [Env.scopes, List.any_cons, replaceIn?_eq_none ho]
      simpa using hx

/-- **Leaving a scope deletes the names of its level**: as no other scope binds
    one of them, none is uncovered. -/
theorem Env.Exclusive.table_exit? {env : Env} (h : env.Exclusive) :
    env.exit?.map Env.table = env.table.exit? := by
  cases ho : env.outer with
  | nil => simp [Env.exit?, Table.exit?, Env.table, Env.depth, ho]
  | cons s rest =>
    have hexit : env.exit? = some ⟨s, rest⟩ := by rw [Env.exit?, ho]
    have hdepth : env.table.depth ≠ 1 := by simp [Env.table, Env.depth, ho]
    rw [hexit, Table.exit?, if_neg hdepth, Option.map_some]
    simp only [Env.table, Env.depth, ho, List.length_cons, Option.some.injEq, Table.mk.injEq,
      Nat.add_sub_cancel, true_and]
    funext x
    have hscopes : env.scopes = env.innermost :: s :: rest := by rw [Env.scopes, ho]
    rw [hscopes, entryIn_cons x env.innermost]
    cases hx : env.innermost.get? x with
    | some v =>
      have hfree := h.outer (show env.innermost.binds x = true by simp [Scope.binds, hx])
      rw [ho] at hfree
      simp [Env.scopes, entryIn_eq_none hfree, Option.filter_some]
    | none =>
      rw [Option.map_none, Option.none_or, filter_entryIn x (by simp)]
      rfl

/-! ## Steps -/

/-- An exclusive environment and its table. -/
structure Matches (env : Env) (t : Table) : Prop where
  exclusive : env.Exclusive
  table : env.table = t

/-- An environment and a table after a step that answered the same on both. -/
structure SameAnswer {α : Type} (o : Env × Except Fault α) (o' : Table × Except Fault α) :
    Prop where
  states : Matches o.1 o'.1
  answers : o.2 = o'.2

theorem Matches.leaveScope {env : Env} {t : Table} (h : Matches env t)
    (result : Except Fault Answer) : SameAnswer (leaveScope env result) (t.leave result) := by
  have htable := h.exclusive.table_exit?
  rw [h.table] at htable
  rw [BlockScript.leaveScope, Table.leave, ← htable]
  cases he : env.exit? with
  | none => exact ⟨h, rfl⟩
  | some env' => exact ⟨⟨h.exclusive.exit? he, rfl⟩, rfl⟩

mutual

/-- **A step does on an environment what it does on its table.** -/
theorem Matches.perform {env : Env} {t : Table} (h : Matches env t) :
    (step : Step) → SameAnswer (step.perform env) (t.perform step)
  | .enter => ⟨⟨h.exclusive.enter, h.table ▸ env.table_enter⟩, rfl⟩
  | .exit => h.leaveScope _
  | .set x v => ⟨⟨h.exclusive.extend (env.extends_set x v), h.table ▸ env.table_set x v⟩, rfl⟩
  | .get x => by
    have hvalue : (t.entry x).map Prod.fst = env.get? x := by
      rw [← h.table]
      exact entryIn_value x env.scopes
    rw [Step.perform, Table.perform, ← hvalue]
    cases t.entry x with
    | none => exact ⟨h, rfl⟩
    | some e => exact ⟨h, rfl⟩
  | .isDefined x => by
    have hdefined : (t.entry x).isSome = env.isDefined x := by
      rw [← h.table]
      exact entryIn_isSome x env.scopes
    rw [Step.perform, Table.perform, hdefined]
    exact ⟨h, rfl⟩
  | .depth => by
    rw [Step.perform, Table.perform, ← h.table]
    exact ⟨⟨h.exclusive, rfl⟩, rfl⟩
  | .scoped steps => by
    have hin : Matches env.enter t.enter :=
      ⟨h.exclusive.enter, h.table ▸ env.table_enter⟩
    obtain ⟨hstates, hanswers⟩ := hin.performAll steps
    rw [Step.perform, Table.perform]
    simp only [hanswers]
    exact hstates.leaveScope _

theorem Matches.performAll {env : Env} {t : Table} (h : Matches env t) :
    (steps : List Step) → SameAnswer (performAll env steps) (t.performAll steps)
  | [] => ⟨h, rfl⟩
  | step :: rest => by
    obtain ⟨hfirst, hanswer⟩ := h.perform step
    rcases hp : step.perform env with ⟨env', f | a⟩
    · rcases ht : t.perform step with ⟨t', r⟩
      rw [hp, ht] at hfirst hanswer
      subst hanswer
      simp only [BlockScript.performAll, Table.performAll, hp, ht]
      exact ⟨hfirst, rfl⟩
    · rcases ht : t.perform step with ⟨t', r⟩
      rw [hp, ht] at hfirst hanswer
      subst hanswer
      obtain ⟨hrest, hanswers⟩ := hfirst.performAll rest
      simp only [BlockScript.performAll, Table.performAll, hp, ht]
      rcases hp' : BlockScript.performAll env' rest with ⟨env'', f | others⟩ <;>
      · rcases ht' : t'.performAll rest with ⟨t'', r⟩
        rw [hp', ht'] at hrest hanswers
        subst hanswers
        exact ⟨hrest, rfl⟩

end

/-! ## Points of a script -/

mutual

/-- The environments after each operation that a step is made of.  A step in a
    scope of its own enters that scope, performs its steps and leaves it. -/
def Step.points (env : Env) : Step → List Env
  | .scoped steps =>
    env.enter :: pointsAll env.enter steps ++ [((Step.scoped steps).perform env).1]
  | step => [(step.perform env).1]

/-- The environments during several steps up to the first failure. -/
def pointsAll (env : Env) : List Step → List Env
  | [] => []
  | step :: rest => step.points env ++ match step.perform env with
    | (env, .ok _) => pointsAll env rest
    | (_, .error _) => []

end

theorem exclusive_perform {env : Env} (h : env.Exclusive) (step : Step) :
    (step.perform env).1.Exclusive :=
  (Matches.perform ⟨h, rfl⟩ step).states.exclusive

mutual

theorem Step.exclusive_points {env : Env} (h : env.Exclusive) :
    (step : Step) → ∀ point ∈ step.points env, point.Exclusive
  | .scoped steps => by
    have hend := exclusive_perform h (.scoped steps)
    intro point hpoint
    simp only [Step.points, List.cons_append, List.mem_cons, List.mem_append, List.not_mem_nil,
      or_false] at hpoint
    rcases hpoint with rfl | hin | rfl
    · exact h.enter
    · exact exclusive_pointsAll h.enter steps point hin
    · exact hend
  | .enter | .exit | .set _ _ | .get _ | .isDefined _ | .depth => by
    intro point hpoint
    rw [Step.points, List.mem_singleton] at hpoint
    · exact hpoint ▸ exclusive_perform h _
    · intro steps hstep
      cases hstep

theorem exclusive_pointsAll {env : Env} (h : env.Exclusive) :
    (steps : List Step) → ∀ point ∈ pointsAll env steps, point.Exclusive
  | [] => by
    intro point hpoint
    cases hpoint
  | step :: rest => by
    have hafter := exclusive_perform h step
    intro point hpoint
    rw [pointsAll, List.mem_append] at hpoint
    rcases hpoint with hfirst | hrest
    · exact step.exclusive_points h point hfirst
    · rcases hp : step.perform env with ⟨env', f | a⟩
      · simp [hp] at hrest
      · rw [hp] at hafter hrest
        exact exclusive_pointsAll hafter rest point hrest

end

/-! ## Scripts -/

/-- The environment after each step of a script, and what the step answers.  A
    step that fails does not end the script. -/
def Env.replay (env : Env) : List Step → List (Env × Except Fault Answer)
  | [] => []
  | step :: rest => step.perform env :: (step.perform env).1.replay rest

/-- The same on a table. -/
def Table.replay (t : Table) : List Step → List (Table × Except Fault Answer)
  | [] => []
  | step :: rest => t.perform step :: (t.perform step).1.replay rest

/-- All environments that a script passes through, from the first one on. -/
def Env.points (env : Env) : List Step → List Env
  | [] => [env]
  | step :: rest => env :: step.points env ++ (step.perform env).1.points rest

theorem Env.Exclusive.points {env : Env} (h : env.Exclusive) (script : List Step) :
    ∀ point ∈ env.points script, point.Exclusive := by
  induction script generalizing env with
  | nil =>
    intro point hpoint
    rw [Env.points, List.mem_singleton] at hpoint
    exact hpoint ▸ h
  | cons step rest ih =>
    intro point hpoint
    simp only [Env.points, List.cons_append, List.mem_cons, List.mem_append] at hpoint
    rcases hpoint with rfl | hfirst | hrest
    · exact h
    · exact step.exclusive_points h point hfirst
    · exact ih (exclusive_perform h step) point hrest

theorem Matches.replay {env : Env} {t : Table} (h : Matches env t) (script : List Step) :
    (env.replay script).map (fun o => (o.1.table, o.2)) = t.replay script := by
  induction script generalizing env t with
  | nil => rfl
  | cons step rest ih =>
    obtain ⟨hstates, hanswers⟩ := h.perform step
    rw [Env.replay, Table.replay, List.map_cons, ih hstates, hstates.table, hanswers]

/-- **Scopes are a table of names.**  Wherever a script on a new environment
    has got to, inside the scopes of its steps too, there is a scope, and each
    name is bound in at most one; and after every step the environment answers
    what the table answers, and has become its table. -/
theorem script_table (script : List Step) :
    (∀ env ∈ Env.empty.points script,
      1 ≤ env.scopes.length ∧ ∀ x, env.scopes.countP (·.binds x) ≤ 1) ∧
    (Env.empty.replay script).map (fun o => (o.1.table, o.2)) = Table.empty.replay script := by
  constructor
  · intro env henv
    exact ⟨by simp [Env.scopes], Env.exclusive_empty.points script env henv⟩
  · have hnew : Matches Env.empty Table.empty := ⟨Env.exclusive_empty, rfl⟩
    exact hnew.replay script

/-- Steps that leave the scope which was made for them. -/
example : (Env.empty.replay [.scoped [.set "x" .null, .exit], .scoped [.exit, .enter, .get "x"]]).map
    Prod.snd = [.error .globalScope, .error (.undefinedVariable "x")] := rfl

end BlockScript
