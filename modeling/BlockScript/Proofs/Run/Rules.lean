/-
  BlockScript — how a statement runs, as rules.

  The rules speak of a machine: what the names of a state stand for, and how
  assigning, printing and the scope of a block change a state.  They say
  nothing of bounds, so a run that has no ending has no derivation.

  * `valueIn`: the value of an expression, given the values of the names;
  * `Machine`, `Runs`, `RunsAll`: the rules, over any machine;
  * `Machine.Respects`, `Runs.respects`: what every rule respects, every run
    respects;
  * `Machine.Simulates`, `Runs.map`, `Runs.lift`: two machines of which one is
    a view of the other have the same runs.
-/
import BlockScript.Run.Exec

namespace BlockScript

/-! ## Rules -/

/-- The value of an expression, given the values of the names. -/
def valueIn (get? : String → Option Value) : Node → Except Fault Value
  | .literal v => .ok v
  | .var x => match get? x with
    | some v => .ok v
    | none => .error (.undefinedVariable x)
  | .unary op e => do
    let v ← valueIn get? e
    applyUnary op v
  | .binary op l r => do
    let a ← valueIn get? l
    let b ← valueIn get? r
    applyBinary op a b
  | node => .error (.notExpression node.kind)

/-- What a run does with its states. -/
structure Machine (σ : Type) where
  get? : σ → String → Option Value
  assign : σ → String → Value → σ
  print : σ → Value → σ
  /-- the condition of a branch, or of a loop, had the given value -/
  branched : σ → Value → σ
  looped : σ → Value → σ
  /-- the state in which the statements of a block start -/
  enter : σ → σ
  /-- how a block ends, given the state before it and how its statements ended -/
  leave : σ → σ × Option Fault → σ × Option Fault

/-- The expression that a statement evaluates before anything else. -/
def Node.subject? : Node → Option Node
  | .expr e | .assign _ e | .print e | .cond e _ _ | .loop e _ => some e
  | _ => none

/-- Whether a tree is a statement. -/
def Node.isStatement : Node → Bool
  | .block _ => true
  | node => node.subject?.isSome

mutual

/-- How a statement takes a state to an ending. -/
inductive Runs {σ : Type} (M : Machine σ) : Node → σ → σ × Option Fault → Prop where
  | misplaced {node s} (h : node.isStatement = false) :
      Runs M node s (s, some (.notStatement node.kind))
  | fault {node e s f} (hs : node.subject? = some e) (h : valueIn (M.get? s) e = .error f) :
      Runs M node s (s, some f)
  | expr {e s v} (h : valueIn (M.get? s) e = .ok v) : Runs M (.expr e) s (s, none)
  | assign {x e s v} (h : valueIn (M.get? s) e = .ok v) :
      Runs M (.assign x e) s (M.assign s x v, none)
  | print {e s v} (h : valueIn (M.get? s) e = .ok v) : Runs M (.print e) s (M.print s v, none)
  | unfit {c t e s v} (h : valueIn (M.get? s) c = .ok v) (hv : ∀ b, v ≠ .boolean b) :
      Runs M (.cond c t e) s (s, some (.conditionNotBoolean v))
  | body {c t e s o} (h : valueIn (M.get? s) c = .ok (.boolean true))
      (ht : Runs M t (M.branched s (.boolean true)) o) : Runs M (.cond c t e) s o
  | other {c t e s o} (h : valueIn (M.get? s) c = .ok (.boolean false))
      (he : e.isAbsent = false) (hr : Runs M e (M.branched s (.boolean false)) o) :
      Runs M (.cond c t e) s o
  | skip {c t s} (h : valueIn (M.get? s) c = .ok (.boolean false)) :
      Runs M (.cond c t .absent) s (M.branched s (.boolean false), none)
  | stop {c b s v} (h : valueIn (M.get? s) c = .ok v) (hv : v.isTrue = false) :
      Runs M (.loop c b) s (M.looped s v, none)
  | again {c b s v s' o} (h : valueIn (M.get? s) c = .ok v) (hv : v.isTrue = true)
      (hb : Runs M b (M.looped s v) (s', none)) (hl : Runs M (.loop c b) s' o) :
      Runs M (.loop c b) s o
  | broken {c b s v s' f} (h : valueIn (M.get? s) c = .ok v) (hv : v.isTrue = true)
      (hb : Runs M b (M.looped s v) (s', some f)) : Runs M (.loop c b) s (s', some f)
  | block {ss s o} (h : RunsAll M ss (M.enter s) o) : Runs M (.block ss) s (M.leave s o)

/-- How several statements take a state to an ending. -/
inductive RunsAll {σ : Type} (M : Machine σ) : List Node → σ → σ × Option Fault → Prop where
  | nil {s} : RunsAll M [] s (s, none)
  | cons {n ss s s' o} (h : Runs M n s (s', none)) (hs : RunsAll M ss s' o) :
      RunsAll M (n :: ss) s o
  | fault {n ss s s' f} (h : Runs M n s (s', some f)) : RunsAll M (n :: ss) s (s', some f)

end

/-- The rule for a block is the only one that a block has. -/
theorem runs_block_iff {σ : Type} {M : Machine σ} {ss : List Node} {s : σ}
    {o : σ × Option Fault} :
    Runs M (.block ss) s o ↔ ∃ o', RunsAll M ss (M.enter s) o' ∧ o = M.leave s o' := by
  constructor
  · intro h
    cases h with
    | misplaced hm => cases hm
    | fault hs => cases hs
    | block hb => exact ⟨_, hb, rfl⟩
  · rintro ⟨o', h, rfl⟩
    exact .block h

theorem runsAll_singleton {σ : Type} {M : Machine σ} {node : Node} {s : σ}
    {o : σ × Option Fault} : RunsAll M [node] s o ↔ Runs M node s o := by
  constructor
  · intro h
    cases h with
    | cons hn hs =>
      cases hs
      exact hn
    | fault hn => exact hn
  · intro h
    obtain ⟨s', _ | f⟩ := o
    · exact .cons h .nil
    · exact .fault h

/-- A relation between the states before and after a run that each rule
    respects. -/
structure Machine.Respects {σ : Type} (M : Machine σ) (R : σ → σ → Option Fault → Prop) :
    Prop where
  refl : ∀ s, R s s none
  trans : ∀ {s s' s'' r}, R s s' none → R s' s'' r → R s s'' r
  assign : ∀ s x v, R s (M.assign s x v) none
  print : ∀ s v, R s (M.print s v) none
  branched : ∀ s v, R s (M.branched s v) none
  looped : ∀ s v, R s (M.looped s v) none
  misplaced : ∀ s kind, R s s (some (.notStatement kind))
  fault : ∀ {s e f}, valueIn (M.get? s) e = .error f → R s s (some f)
  unfit : ∀ s v, R s s (some (.conditionNotBoolean v))
  scope : ∀ {s o}, R (M.enter s) o.1 o.2 → R s (M.leave s o).1 (M.leave s o).2

section Respects

variable {σ : Type} {M : Machine σ} {R : σ → σ → Option Fault → Prop}

mutual

/-- **A relation that each rule respects holds between the two ends of every
    run.** -/
theorem Runs.respects (hR : M.Respects R) {node : Node} {s : σ} {o : σ × Option Fault} :
    Runs M node s o → R s o.1 o.2
  | .misplaced _ => hR.misplaced _ _
  | .fault _ h => hR.fault h
  | .expr _ => hR.refl _
  | .assign _ => hR.assign _ _ _
  | .print _ => hR.print _ _
  | .unfit _ _ => hR.unfit _ _
  | .body _ ht => hR.trans (hR.branched _ _) (ht.respects hR)
  | .other _ _ hr => hR.trans (hR.branched _ _) (hr.respects hR)
  | .skip _ => hR.branched _ _
  | .stop _ _ => hR.looped _ _
  | .again _ _ hb hl =>
    hR.trans (hR.trans (hR.looped _ _) (hb.respects hR)) (hl.respects hR)
  | .broken _ _ hb => hR.trans (hR.looped _ _) (hb.respects hR)
  | .block h => hR.scope (h.respects hR)

theorem RunsAll.respects (hR : M.Respects R) {ss : List Node} {s : σ} {o : σ × Option Fault} :
    RunsAll M ss s o → R s o.1 o.2
  | .nil => hR.refl _
  | .cons h hs => hR.trans (h.respects hR) (hs.respects hR)
  | .fault h => h.respects hR

end

end Respects

/-! ## Simulation -/

/-- A machine `N` sees the states of `M` through a view: each operation of `N`
    on a view is the view of what `M` does.  For the end of a block this is asked
    only of states that statements reach in the scope of the block. -/
structure Machine.Simulates {σ τ : Type} (M : Machine σ) (N : Machine τ) (view : σ → τ) :
    Prop where
  get? : ∀ s, N.get? (view s) = M.get? s
  assign : ∀ s x v, N.assign (view s) x v = view (M.assign s x v)
  print : ∀ s v, N.print (view s) v = view (M.print s v)
  branched : ∀ s v, N.branched (view s) v = view (M.branched s v)
  looped : ∀ s v, N.looped (view s) v = view (M.looped s v)
  enter : ∀ s, N.enter (view s) = view (M.enter s)
  leave : ∀ {ss s o}, RunsAll M ss (M.enter s) o →
    N.leave (view s) (view o.1, o.2) = (view (M.leave s o).1, (M.leave s o).2)

section Simulates

variable {σ τ : Type} {M : Machine σ} {N : Machine τ} {view : σ → τ}

mutual

/-- A run of the one machine is seen as a run of the other. -/
theorem Runs.map (hv : M.Simulates N view) {node : Node} {s : σ} {o : σ × Option Fault} :
    Runs M node s o → Runs N node (view s) (view o.1, o.2)
  | .misplaced h => .misplaced h
  | .fault hs h => .fault hs (by rwa [hv.get?])
  | .expr h => .expr (by rwa [hv.get?])
  | .assign h => by
    rw [← hv.assign]
    exact .assign (by rwa [hv.get?])
  | .print h => by
    rw [← hv.print]
    exact .print (by rwa [hv.get?])
  | .unfit h hb => .unfit (by rwa [hv.get?]) hb
  | .body h ht => .body (by rwa [hv.get?]) (by rw [hv.branched]; exact ht.map hv)
  | .other h he hr => .other (by rwa [hv.get?]) he (by rw [hv.branched]; exact hr.map hv)
  | .skip h => by
    rw [← hv.branched]
    exact .skip (by rwa [hv.get?])
  | .stop h ht => by
    rw [← hv.looped]
    exact .stop (by rwa [hv.get?]) ht
  | .again h ht hb hl =>
    .again (by rwa [hv.get?]) ht (by rw [hv.looped]; exact hb.map hv) (hl.map hv)
  | .broken h ht hb => .broken (by rwa [hv.get?]) ht (by rw [hv.looped]; exact hb.map hv)
  | .block h => by
    rw [← hv.leave h]
    exact .block (by rw [hv.enter]; exact h.map hv)

theorem RunsAll.map (hv : M.Simulates N view) {ss : List Node} {s : σ} {o : σ × Option Fault} :
    RunsAll M ss s o → RunsAll N ss (view s) (view o.1, o.2)
  | .nil => .nil
  | .cons h hs => .cons (h.map hv) (hs.map hv)
  | .fault h => .fault (h.map hv)

end

mutual

/-- A run of the other machine from a view is the view of a run. -/
theorem Runs.lift (hv : M.Simulates N view) {node : Node} {t : τ} {o : τ × Option Fault} :
    Runs N node t o → ∀ s, view s = t → ∃ s', view s' = o.1 ∧ Runs M node s (s', o.2)
  | .misplaced h, s, ht => ⟨s, ht, .misplaced h⟩
  | .fault hs h, s, ht => ⟨s, ht, .fault hs (by rwa [← hv.get?, ht])⟩
  | .expr h, s, ht => ⟨s, ht, .expr (by rwa [← hv.get?, ht])⟩
  | .assign h, s, ht => by
    refine ⟨_, ?_, .assign (by rwa [← hv.get?, ht])⟩
    rw [← hv.assign, ht]
  | .print h, s, ht => by
    refine ⟨_, ?_, .print (by rwa [← hv.get?, ht])⟩
    rw [← hv.print, ht]
  | .unfit h hb, s, ht => ⟨s, ht, .unfit (by rwa [← hv.get?, ht]) hb⟩
  | .body h hr, s, ht => by
    obtain ⟨s', hs', hr'⟩ := hr.lift hv _ (by rw [← hv.branched, ht])
    exact ⟨s', hs', .body (by rwa [← hv.get?, ht]) hr'⟩
  | .other h he hr, s, ht => by
    obtain ⟨s', hs', hr'⟩ := hr.lift hv _ (by rw [← hv.branched, ht])
    exact ⟨s', hs', .other (by rwa [← hv.get?, ht]) he hr'⟩
  | .skip h, s, ht => by
    refine ⟨_, ?_, .skip (by rwa [← hv.get?, ht])⟩
    rw [← hv.branched, ht]
  | .stop h hs, s, ht => by
    refine ⟨_, ?_, .stop (by rwa [← hv.get?, ht]) hs⟩
    rw [← hv.looped, ht]
  | .again h hs hb hl, s, ht => by
    obtain ⟨s', hs', hb'⟩ := hb.lift hv _ (by rw [← hv.looped, ht])
    obtain ⟨s'', hs'', hl'⟩ := hl.lift hv s' hs'
    exact ⟨s'', hs'', .again (by rwa [← hv.get?, ht]) hs hb' hl'⟩
  | .broken h hs hb, s, ht => by
    obtain ⟨s', hs', hb'⟩ := hb.lift hv _ (by rw [← hv.looped, ht])
    exact ⟨s', hs', .broken (by rwa [← hv.get?, ht]) hs hb'⟩
  | .block (o := o) h, s, ht => by
    obtain ⟨s', hs', h'⟩ := h.lift hv (M.enter s) (by rw [← hv.enter, ht])
    have hl := hv.leave h'
    rw [ht, hs'] at hl
    rw [hl]
    exact ⟨_, rfl, .block h'⟩

theorem RunsAll.lift (hv : M.Simulates N view) {ss : List Node} {t : τ} {o : τ × Option Fault} :
    RunsAll N ss t o → ∀ s, view s = t → ∃ s', view s' = o.1 ∧ RunsAll M ss s (s', o.2)
  | .nil, s, ht => ⟨s, ht, .nil⟩
  | .cons h hs, s, ht => by
    obtain ⟨s', hs', h'⟩ := h.lift hv s ht
    obtain ⟨s'', hs'', hr⟩ := hs.lift hv s' hs'
    exact ⟨s'', hs'', .cons h' hr⟩
  | .fault h, s, ht => by
    obtain ⟨s', hs', h'⟩ := h.lift hv s ht
    exact ⟨s', hs', .fault h'⟩

end

end Simulates

end BlockScript
