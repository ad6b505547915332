/-
  BlockScript — runs with a bound and runs by the rules.

  A bound only cuts off loops: a larger one keeps every ending, and a run has
  an ending for some bound exactly if the rules derive that ending.

  * `stack verbosity`: the machine of environments, output and trace;
  * `exec_mono`: a larger bound keeps an ending;
  * `exec_iff_runs`, `run_iff_runsAll`: endings and derivations.
-/
import BlockScript.Proofs.Run.Rules

namespace BlockScript

/-! ## Runs of environments -/

/-- The machine of environments, output and trace. -/
def stack (verbosity : Int) : Machine RunState where
  get? st := st.env.get?
  assign st x v := ({ st with env := st.env.set x v } : RunState).record verbosity (.assigned x v)
  print st v := st.print v.printed
  branched st v := st.record verbosity (.branched v)
  looped st v := st.record verbosity (.looped v)
  enter st := st.enterScope verbosity
  leave _ o :=
    let ending := Ending.leaveScope ⟨o.1, o.2⟩ verbosity
    (ending.state, ending.fault)

/-- The two parts of an ending. -/
def Ending.parts (ending : Ending) : RunState × Option Fault := (ending.state, ending.fault)

theorem eval_eq_valueIn (env : Env) : ∀ e : Node, eval env e = valueIn env.get? e
  | .unary op e => by simp only [eval, valueIn, eval_eq_valueIn env e]
  | .binary op l r => by simp only [eval, valueIn, eval_eq_valueIn env l, eval_eq_valueIn env r]
  | .literal _ | .var _ | .expr _ | .assign _ _ | .print _ | .cond _ _ _ | .loop _ _ | .block _
  | .absent => rfl

/-- Evaluating an expression either goes on with its value or ends with its
    fault. -/
theorem evaluating_eq_some {st : RunState} {e : Node} {next : Value → Option Ending}
    {ending : Ending} (h : st.evaluating e next = some ending) :
    (∃ v, valueIn st.env.get? e = .ok v ∧ next v = some ending) ∨
      ∃ f, valueIn st.env.get? e = .error f ∧ ending = ⟨st, some f⟩ := by
  simp only [RunState.evaluating, eval_eq_valueIn, RunState.fail] at h
  split at h
  · rename_i v hv
    exact Or.inl ⟨v, hv, h⟩
  · rename_i f hf
    exact Or.inr ⟨f, hf, (Option.some.inj h).symm⟩

theorem evaluating_of_ok {st : RunState} {e : Node} {v : Value} (next : Value → Option Ending)
    (h : valueIn st.env.get? e = .ok v) : st.evaluating e next = next v := by
  simp only [RunState.evaluating, eval_eq_valueIn, h]

theorem evaluating_of_error {st : RunState} {e : Node} {f : Fault} (next : Value → Option Ending)
    (h : valueIn st.env.get? e = .error f) : st.evaluating e next = some ⟨st, some f⟩ := by
  simp only [RunState.evaluating, eval_eq_valueIn, h, RunState.fail]

section Iterate

variable {verbosity : Int} {c : Node} {body : RunState → Option Ending} {n : Nat}
  {st mid : RunState} {v : Value}

/-- A loop goes on after a normal end of its body. -/
theorem iterate_of_done (h : valueIn st.env.get? c = .ok v) (hv : v.isTrue = true)
    (hb : body (st.record verbosity (.looped v)) = some ⟨mid, none⟩) :
    iterate verbosity c body (n + 1) st = iterate verbosity c body n mid := by
  rw [iterate, evaluating_of_ok _ h]
  simp only [hv, if_true, hb]

theorem iterate_of_fault {f : Fault} (h : valueIn st.env.get? c = .ok v) (hv : v.isTrue = true)
    (hb : body (st.record verbosity (.looped v)) = some ⟨mid, some f⟩) :
    iterate verbosity c body (n + 1) st = some ⟨mid, some f⟩ := by
  rw [iterate, evaluating_of_ok _ h]
  simp only [hv, if_true, hb]

theorem iterate_of_stop (h : valueIn st.env.get? c = .ok v) (hv : v.isTrue = false) :
    iterate verbosity c body (n + 1) st = some ⟨st.record verbosity (.looped v), none⟩ := by
  rw [iterate, evaluating_of_ok _ h]
  simp only [hv, Bool.false_eq_true, if_false, RunState.done]

/-- What a loop that ends does after one test of its condition. -/
theorem iterate_eq_some {ending : Ending} (h : iterate verbosity c body (n + 1) st = some ending) :
    (∃ f, valueIn st.env.get? c = .error f ∧ ending = ⟨st, some f⟩) ∨
      ∃ v, valueIn st.env.get? c = .ok v ∧
        (v.isTrue = false ∧ ending = ⟨st.record verbosity (.looped v), none⟩ ∨
          v.isTrue = true ∧
            ((∃ mid, body (st.record verbosity (.looped v)) = some ⟨mid, none⟩ ∧
                iterate verbosity c body n mid = some ending) ∨
              ∃ mid f, body (st.record verbosity (.looped v)) = some ⟨mid, some f⟩ ∧
                ending = ⟨mid, some f⟩)) := by
  rcases evaluating_eq_some h with ⟨v, hv, hn⟩ | ⟨f, hf, rfl⟩
  · refine Or.inr ⟨v, hv, ?_⟩
    by_cases ht : v.isTrue = true
    · simp only [ht, if_true] at hn
      refine Or.inr ⟨ht, ?_⟩
      rcases hs : body (st.record verbosity (.looped v)) with _ | ⟨mid, _ | f⟩
      · simp only [hs, reduceCtorEq] at hn
      · simp only [hs] at hn
        exact Or.inl ⟨mid, rfl, hn⟩
      · simp only [hs, Option.some.injEq] at hn
        exact Or.inr ⟨mid, f, rfl, hn.symm⟩
    · simp only [ht, Bool.false_eq_true, if_false, RunState.done, Option.some.injEq] at hn
      exact Or.inl ⟨by simpa using ht, hn.symm⟩
  · exact Or.inl ⟨f, hf, rfl⟩

end Iterate

/-! ## Every ending is derived -/

/-- A loop runs by the rules if its body does. -/
theorem iterate_runs {verbosity : Int} {c b : Node} {body : RunState → Option Ending}
    (hb : ∀ st ending, body st = some ending → Runs (stack verbosity) b st ending.parts) :
    ∀ (n : Nat) (st : RunState) (ending : Ending), iterate verbosity c body n st = some ending →
      Runs (stack verbosity) (.loop c b) st ending.parts
  | 0, _, _, h => by simp only [iterate, reduceCtorEq] at h
  | n + 1, st, ending, h => by
    rcases iterate_eq_some h with ⟨f, hf, rfl⟩ | ⟨v, hv, ⟨ht, rfl⟩ | ⟨ht, hs⟩⟩
    · exact .fault rfl hf
    · exact .stop hv ht
    · rcases hs with ⟨mid, hm, hn⟩ | ⟨mid, f, hm, rfl⟩
      · exact .again hv ht (hb _ _ hm) (iterate_runs hb n mid ending hn)
      · exact .broken hv ht (hb _ _ hm)

theorem eq_absent_of_isAbsent {node : Node} (h : node.isAbsent = true) : node = .absent := by
  cases node <;> simp_all [Node.isAbsent]

mutual

theorem runs_of_exec {bound : Nat} {verbosity : Int} : ∀ (node : Node) (st : RunState)
    (ending : Ending), exec bound verbosity node st = some ending →
      Runs (stack verbosity) node st ending.parts
  | .expr e, st, ending, h => by
    rcases evaluating_eq_some h with ⟨v, hv, hn⟩ | ⟨f, hf, rfl⟩
    · obtain rfl := Option.some.inj hn
      exact .expr hv
    · exact .fault rfl hf
  | .assign x e, st, ending, h => by
    rcases evaluating_eq_some h with ⟨v, hv, hn⟩ | ⟨f, hf, rfl⟩
    · obtain rfl := Option.some.inj hn
      exact .assign hv
    · exact .fault rfl hf
  | .print e, st, ending, h => by
    rcases evaluating_eq_some h with ⟨v, hv, hn⟩ | ⟨f, hf, rfl⟩
    · obtain rfl := Option.some.inj hn
      exact .print hv
    · exact .fault rfl hf
  | .cond c t e, st, ending, h => by
    rcases evaluating_eq_some h with ⟨v, hv, hn⟩ | ⟨f, hf, rfl⟩
    · cases v with
      | boolean b =>
        cases b with
        | true => exact .body hv (runs_of_exec t _ ending hn)
        | false =>
          by_cases he : e.isAbsent = true
          · obtain rfl := eq_absent_of_isAbsent he
            obtain rfl := Option.some.inj hn
            exact .skip hv
          · simp only [he, Bool.false_eq_true, if_false] at hn
            exact .other hv (by simpa using he) (runs_of_exec e _ ending hn)
      | _ =>
        obtain rfl := Option.some.inj hn
        exact .unfit hv (by simp)
    · exact .fault rfl hf
  | .loop c b, st, ending, h => iterate_runs (runs_of_exec b) bound st ending h
  | .block ss, st, ending, h => by
    simp only [exec, Option.map_eq_some_iff] at h
    obtain ⟨inner, hi, rfl⟩ := h
    exact .block (runsAll_of_execAll ss _ inner hi)
  | .literal _, _, _, h | .var _, _, _, h | .unary _ _, _, _, h | .binary _ _ _, _, _, h
  | .absent, _, _, h => by
    obtain rfl := Option.some.inj h
    exact .misplaced rfl

theorem runsAll_of_execAll {bound : Nat} {verbosity : Int} : ∀ (ss : List Node) (st : RunState)
    (ending : Ending), execAll bound verbosity ss st = some ending →
      RunsAll (stack verbosity) ss st ending.parts
  | [], st, ending, h => by
    obtain rfl := Option.some.inj h
    exact .nil
  | s :: rest, st, ending, h => by
    rcases hs : exec bound verbosity s st with _ | ⟨mid, _ | f⟩
    · simp only [execAll, hs, reduceCtorEq] at h
    · simp only [execAll, hs] at h
      exact .cons (runs_of_exec s st _ hs) (runsAll_of_execAll rest mid ending h)
    · simp only [execAll, hs, Option.some.injEq] at h
      subst h
      exact .fault (runs_of_exec s st _ hs)

end

/-! ## Larger bounds -/

/-- One way to run keeps every ending of another. -/
def Keeps (body body' : RunState → Option Ending) : Prop :=
  ∀ st ending, body st = some ending → body' st = some ending

theorem iterate_keeps {verbosity : Int} {c : Node} {body body' : RunState → Option Ending}
    (hb : Keeps body body') :
    ∀ {n n' : Nat}, n ≤ n' → Keeps (iterate verbosity c body n) (iterate verbosity c body' n')
  | 0, _, _, st, ending, h => by simp only [iterate, reduceCtorEq] at h
  | n + 1, 0, hn, _, _, _ => absurd hn (by omega)
  | n + 1, n' + 1, hn, st, ending, h => by
    rcases iterate_eq_some h with ⟨f, hf, rfl⟩ | ⟨v, hv, ⟨ht, rfl⟩ | ⟨ht, hs⟩⟩
    · exact evaluating_of_error _ hf
    · exact iterate_of_stop hv ht
    · rcases hs with ⟨mid, hm, hs⟩ | ⟨mid, f, hm, rfl⟩
      · rw [iterate_of_done hv ht (hb _ _ hm)]
        exact iterate_keeps hb (Nat.le_of_succ_le_succ hn) mid ending hs
      · exact iterate_of_fault hv ht (hb _ _ hm)

mutual

/-- **A larger bound keeps every ending of a statement.** -/
theorem exec_mono {n n' : Nat} {verbosity : Int} (hn : n ≤ n') :
    ∀ node : Node, Keeps (exec n verbosity node) (exec n' verbosity node)
  | .cond c t e, st, ending, h => by
    rcases evaluating_eq_some h with ⟨v, hv, hs⟩ | ⟨f, hf, rfl⟩
    · rw [exec, evaluating_of_ok _ hv]
      cases v with
      | boolean b =>
        cases b with
        | true => exact exec_mono hn t _ _ hs
        | false =>
          by_cases he : e.isAbsent = true
          · simpa only [he, Bool.false_eq_true, if_true, if_false] using hs
          · simp only [he, Bool.false_eq_true, if_false] at hs ⊢
            exact exec_mono hn e _ _ hs
      | _ => exact hs
    · exact evaluating_of_error _ hf
  | .loop c b, st, ending, h => iterate_keeps (exec_mono hn b) hn st ending h
  | .block ss, st, ending, h => by
    simp only [exec, Option.map_eq_some_iff] at h ⊢
    obtain ⟨inner, hi, rfl⟩ := h
    exact ⟨inner, execAll_mono hn ss _ _ hi, rfl⟩
  | .expr _, _, _, h | .assign _ _, _, _, h | .print _, _, _, h | .literal _, _, _, h
  | .var _, _, _, h | .unary _ _, _, _, h | .binary _ _ _, _, _, h | .absent, _, _, h => h

theorem execAll_mono {n n' : Nat} {verbosity : Int} (hn : n ≤ n') :
    ∀ ss : List Node, Keeps (execAll n verbosity ss) (execAll n' verbosity ss)
  | [], _, _, h => h
  | s :: rest, st, ending, h => by
    rcases hs : exec n verbosity s st with _ | ⟨mid, _ | f⟩
    · simp only [execAll, hs, reduceCtorEq] at h
    · simp only [execAll, hs] at h
      simp only [execAll, exec_mono hn s _ _ hs]
      exact execAll_mono hn rest _ _ h
    · simp only [execAll, hs] at h
      simpa only [execAll, exec_mono hn s _ _ hs] using h

end

/-! ## Every derivation is an ending -/

theorem exec_of_misplaced {bound : Nat} {verbosity : Int} {node : Node} (st : RunState)
    (h : node.isStatement = false) :
    exec bound verbosity node st = some ⟨st, some (.notStatement node.kind)⟩ := by
  cases node <;> first | rfl | simp [Node.isStatement, Node.subject?] at h

/-- A statement whose first expression fails ends with that fault, under any
    bound that allows one test of a condition. -/
theorem exec_of_fault {bound : Nat} {verbosity : Int} {node e : Node} {st : RunState} {f : Fault}
    (hs : node.subject? = some e) (h : valueIn st.env.get? e = .error f) :
    exec (bound + 1) verbosity node st = some ⟨st, some f⟩ := by
  cases node <;> simp only [Node.subject?, Option.some.injEq, reduceCtorEq] at hs <;> subst hs
  all_goals
    simp only [exec, iterate]
    exact evaluating_of_error _ h

mutual

theorem exec_of_runs {verbosity : Int} {node : Node} {st : RunState}
    {o : RunState × Option Fault} :
    Runs (stack verbosity) node st o → ∃ bound, exec bound verbosity node st = some ⟨o.1, o.2⟩
  | .misplaced h => ⟨0, exec_of_misplaced st h⟩
  | .fault hs h => ⟨1, exec_of_fault hs h⟩
  | .expr h | .assign h | .print h => ⟨0, evaluating_of_ok _ h⟩
  | .unfit (v := v) h hv => by
    refine ⟨0, ?_⟩
    rw [exec, evaluating_of_ok _ h]
    cases v with
    | boolean b => exact absurd rfl (hv b)
    | _ => rfl
  | .body h ht => by
    obtain ⟨bound, hb⟩ := exec_of_runs ht
    refine ⟨bound, ?_⟩
    rw [exec, evaluating_of_ok _ h]
    exact hb
  | .other h he hr => by
    obtain ⟨bound, hb⟩ := exec_of_runs hr
    refine ⟨bound, ?_⟩
    rw [exec, evaluating_of_ok _ h]
    simp only [he, Bool.false_eq_true, if_false]
    exact hb
  | .skip h => ⟨0, evaluating_of_ok _ h⟩
  | .stop h hv => ⟨1, iterate_of_stop h hv⟩
  | .again h hv hb hl => by
    obtain ⟨m, hm⟩ := exec_of_runs hb
    obtain ⟨n, hn⟩ := exec_of_runs hl
    -- one test more than the rest of the loop needs, with a bound for both
    refine ⟨max m n + 1, ?_⟩
    have hbody := exec_mono (Nat.le_trans (Nat.le_max_left m n) (Nat.le_succ _)) _ _ _ hm
    have hrest := iterate_keeps (exec_mono (Nat.le_trans (Nat.le_max_right m n) (Nat.le_succ _)) _)
      (Nat.le_max_right m n) _ _ hn
    rw [exec, iterate_of_done h hv hbody]
    exact hrest
  | .broken h hv hb => by
    obtain ⟨m, hm⟩ := exec_of_runs hb
    refine ⟨m + 1, ?_⟩
    exact iterate_of_fault h hv (exec_mono (Nat.le_succ m) _ _ _ hm)
  | .block h => by
    obtain ⟨bound, hb⟩ := execAll_of_runsAll h
    refine ⟨bound, ?_⟩
    rw [exec]
    exact congrArg (Option.map (·.leaveScope verbosity)) hb

theorem execAll_of_runsAll {verbosity : Int} {ss : List Node} {st : RunState}
    {o : RunState × Option Fault} :
    RunsAll (stack verbosity) ss st o →
      ∃ bound, execAll bound verbosity ss st = some ⟨o.1, o.2⟩
  | .nil => ⟨0, rfl⟩
  | .cons h hs => by
    obtain ⟨m, hm⟩ := exec_of_runs h
    obtain ⟨n, hn⟩ := execAll_of_runsAll hs
    refine ⟨max m n, ?_⟩
    rw [execAll, exec_mono (Nat.le_max_left m n) _ _ _ hm]
    exact execAll_mono (Nat.le_max_right m n) _ _ _ hn
  | .fault h => by
    obtain ⟨m, hm⟩ := exec_of_runs h
    refine ⟨m, ?_⟩
    rw [execAll, hm]

end

/-- **A statement has an ending for some bound exactly if the rules derive that
    ending.** -/
theorem exec_iff_runs {verbosity : Int} {node : Node} {st st' : RunState} {r : Option Fault} :
    (∃ bound, exec bound verbosity node st = some ⟨st', r⟩) ↔
      Runs (stack verbosity) node st (st', r) := by
  constructor
  · rintro ⟨bound, h⟩
    exact runs_of_exec node st _ h
  · intro h
    exact exec_of_runs h

/-- The same for a program. -/
theorem run_iff_runsAll {verbosity : Int} {program : List Node} {st st' : RunState}
    {r : Option Fault} :
    (∃ bound, run bound verbosity program st = some ⟨st', r⟩) ↔
      RunsAll (stack verbosity) program (st.record verbosity (.started program.length))
        (st', r) := by
  constructor
  · rintro ⟨bound, h⟩
    exact runsAll_of_execAll program _ _ h
  · intro h
    exact execAll_of_runsAll h

end BlockScript
