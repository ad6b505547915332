/-
  BlockScript — running without scopes.

  A flat state has one value for each name that has one.  An assignment changes
  or adds a name, and at the end of a block, be it normal or by a fault, every
  name that had no value before the block is forgotten.  All else is as with a
  stack of scopes, and so is everything that can be seen of a run.

  * `FlatState`, `flat`: the machine of flat states;
  * `RunState.view`: what a stack of scopes looks like from the innermost one;
  * `stack_simulates_flat`: the one machine is a view of the other;
  * `run_iff_flat`: programs have the same endings on both, and a block around
    a program only makes it forget the names that it added.
-/
import BlockScript.Proofs.Scopes

namespace BlockScript

/-! ## Flat states -/

/-- The values of the names, and all that was printed. -/
structure FlatState where
  store : String → Option Value
  output : String

/-- Give a name a value. -/
def FlatState.assign (s : FlatState) (x : String) (v : Value) : FlatState :=
  { s with store := fun y => if x = y then some v else s.store y }

/-- Print a line. -/
def FlatState.print (s : FlatState) (line : String) : FlatState :=
  { s with output := s.output ++ line ++ "\n" }

/-- Keep only the names that have a value in `before`. -/
def FlatState.forget (s before : FlatState) : FlatState :=
  { s with store := fun y => if (before.store y).isSome then s.store y else none }

/-- The machine of flat states. -/
def flat : Machine FlatState where
  get? s := s.store
  assign s x v := s.assign x v
  print s v := s.print v.printed
  branched s _ := s
  looped s _ := s
  enter s := s
  leave before o := (o.1.forget before, o.2)

/-- What the scopes of a state look like from the innermost one. -/
def RunState.view (st : RunState) : FlatState :=
  ⟨st.env.get?, st.output⟩

@[simp] theorem RunState.view_record (st : RunState) (verbosity : Int) (e : Event) :
    (st.record verbosity e).view = st.view := by
  simp [RunState.view]

/-! ## Scopes seen as a flat store -/

theorem Env.isSome_get? (env : Env) (x : String) :
    (env.get? x).isSome = env.scopes.any (·.binds x) :=
  lookupIn_isSome x env.scopes

/-- After the scope of a block the names have the values that they had inside,
    as far as they had one before the block. -/
theorem Env.Extends.get?_exit? {env env' env'' : Env} (h : env.enter.Extends env')
    (he : env'.exit? = some env'') (x : String) :
    env''.get? x = if (env.get? x).isSome then env'.get? x else none := by
  have ho : env''.scopes = env'.outer := by
    rw [Env.exit?] at he
    split at he
    · cases he
    · rename_i s rest hs
      cases he
      exact hs.symm
  have hb : env'.outer.any (·.binds x) = env.scopes.any (·.binds x) :=
    any_binds_congr x h.outer
  have hin : env'.get? x = (env'.innermost.get? x).or (lookupIn x env'.outer) :=
    lookupIn_cons x env'.innermost env'.outer
  rw [Env.isSome_get?, Env.get?, ho]
  by_cases hx : env.scopes.any (·.binds x) = true
  · -- a name that some scope around the block binds is not bound in the block
    have hi : env'.innermost.binds x = false := by
      rw [Bool.eq_false_iff]
      intro hi
      rcases h.fresh x hi with hn | hn
      · cases hn
      · exact absurd (hx.symm.trans hn) (by simp)
    rw [if_pos hx, hin, Scope.get?_eq_none hi, Option.none_or]
  · rw [if_neg hx, ← Option.not_isSome_iff_eq_none, lookupIn_isSome, hb]
    exact hx

/-- **A stack of scopes is seen as a flat store throughout a run.** -/
theorem stack_simulates_flat (verbosity : Int) :
    (stack verbosity).Simulates flat RunState.view where
  get? st := rfl
  assign st x v := by
    have hs : (st.env.set x v).get? = fun y => if x = y then some v else st.env.get? y :=
      funext fun y => Env.get?_set st.env x y v
    simp only [stack, RunState.view_record]
    simp only [flat, FlatState.assign, RunState.view, hs]
  print st v := rfl
  branched st v := (RunState.view_record _ _ _).symm
  looped st v := (RunState.view_record _ _ _).symm
  enter st := by
    simp only [stack, RunState.enterScope, RunState.view_record]
    rfl
  leave {ss st o} h := by
    have hx := (runsAll_extends h).1
    simp only [stack, RunState.enterScope_env] at hx
    obtain ⟨env, he, -⟩ := hx.exit?
    obtain ⟨henv, hout, hf⟩ := Ending.leaveScope_of_exit? ⟨o.1, o.2⟩ verbosity he
    have hs : env.get? = fun x => if (st.env.get? x).isSome then o.1.env.get? x else none :=
      funext fun x => hx.get?_exit? he x
    simp only [flat, stack, hf, FlatState.forget, RunState.view, henv, hout, hs]

/-! ## Programs -/

/-- A program takes a state to what is seen as `s`, and ends with `r`. -/
def Reaches (verbosity : Int) (program : List Node) (st : RunState) (s : FlatState)
    (r : Option Fault) : Prop :=
  ∃ bound st', run bound verbosity program st = some ⟨st', r⟩ ∧ st'.view = s

theorem reaches_iff_flat {verbosity : Int} {program : List Node} {st : RunState} {s : FlatState}
    {r : Option Fault} :
    Reaches verbosity program st s r ↔ RunsAll flat program st.view (s, r) := by
  have hsim := stack_simulates_flat verbosity
  constructor
  · rintro ⟨bound, st', h, rfl⟩
    have hr := (run_iff_runsAll.1 ⟨bound, h⟩).map hsim
    rwa [RunState.view_record] at hr
  · intro h
    obtain ⟨st', hs, hr⟩ := h.lift hsim (st.record verbosity (.started program.length)) (by simp)
    obtain ⟨bound, hb⟩ := run_iff_runsAll.2 hr
    exact ⟨bound, st', hb, hs⟩

/-- A block on a flat state runs its statements, and then forgets. -/
theorem runsAll_flat_block {ss : List Node} {s s' : FlatState} {r : Option Fault} :
    RunsAll flat [.block ss] s (s', r) ↔ ∃ s'', RunsAll flat ss s (s'', r) ∧ s' = s''.forget s := by
  rw [runsAll_singleton, runs_block_iff]
  constructor
  · rintro ⟨o, ho, hr⟩
    obtain ⟨rfl, rfl⟩ := Prod.mk.inj hr
    exact ⟨o.1, ho, rfl⟩
  · rintro ⟨s'', h, rfl⟩
    exact ⟨(s'', r), h, rfl⟩

/-- **Running on a stack of scopes is running on a flat store.**  From every
    state a program has an ending on its scopes exactly if it has one on their
    view, with the same output, the same fault and the same values of names.
    Hence a block around a program prints and fails as the program does, and
    only forgets the names that the program added. -/
theorem run_iff_flat (verbosity : Int) (program : List Node) (st : RunState) :
    (∀ s r, Reaches verbosity program st s r ↔ RunsAll flat program st.view (s, r)) ∧
      ∀ s r, Reaches verbosity [.block program] st s r ↔
        ∃ s', Reaches verbosity program st s' r ∧ s = s'.forget st.view := by
  refine ⟨fun s r => reaches_iff_flat, fun s r => ?_⟩
  simp only [reaches_iff_flat, runsAll_flat_block]

end BlockScript
