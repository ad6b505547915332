/-
  BlockScript — drafts in which every part is of its sort.

  A run of such a draft ends in the scope in which it began.  It fails only with
  an error of the program, or because its data cannot be used as the names and
  texts that they stand for; and not even so if the draft is that of a program.

  * `Draft.Evaluable`, `Draft.Executable`: drafts whose parts are in their places;
  * `Fault.Regular`: an error of the program or of its data;
  * `EndsAt`: what is kept by every step of a run;
  * `runDrafts_regular`: the faults of drafts whose parts are in their places;
  * `runDrafts_drafts_kind`: those of them that are drafts of programs.
-/
import BlockScript.Proofs.Draft
import BlockScript.Proofs.Run.Sorts

namespace BlockScript

/-! ## Sorts -/

/-- An expression, with expressions as its parts. -/
inductive Draft.Evaluable : Draft → Prop where
  | literal {v : DraftValue} : Draft.Evaluable (.literal v)
  | var {x : Raw} : Draft.Evaluable (.var x)
  | unary {op : Raw} {e : Draft} (h : Draft.Evaluable e) : Draft.Evaluable (.unary op e)
  | binary {op : Raw} {l r : Draft} (hl : Draft.Evaluable l) (hr : Draft.Evaluable r) :
      Draft.Evaluable (.binary op l r)

/-- A statement, with statements and expressions in their places. -/
inductive Draft.Executable : Draft → Prop where
  | expr {e : Draft} (h : e.Evaluable) : Draft.Executable (.expr e)
  | assign {x : Raw} {e : Draft} (h : e.Evaluable) : Draft.Executable (.assign x e)
  | print {e : Draft} (h : e.Evaluable) : Draft.Executable (.print e)
  | cond {c t e : Draft} (hc : c.Evaluable) (ht : Draft.Executable t)
      (he : e.isAbsent = false → Draft.Executable e) : Draft.Executable (.cond c t e)
  | loop {c b : Draft} (hc : c.Evaluable) (hb : Draft.Executable b) : Draft.Executable (.loop c b)
  | block {ss : List Draft} (h : ∀ s ∈ ss, Draft.Executable s) : Draft.Executable (.block ss)

theorem evaluable_of_draft : (e : Node) → e.draft.Evaluable → Evaluable e
  | .literal _, _ => .literal
  | .var _, _ => .var
  | .unary _ e, .unary h => .unary (evaluable_of_draft e h)
  | .binary _ l r, .binary hl hr => .binary (evaluable_of_draft l hl) (evaluable_of_draft r hr)

mutual

theorem executable_of_draft : (s : Node) → s.draft.Executable → Executable s
  | .expr e, .expr h => .expr (evaluable_of_draft e h)
  | .assign _ e, .assign h => .assign (evaluable_of_draft e h)
  | .print e, .print h => .print (evaluable_of_draft e h)
  | .cond c t e, .cond hc ht he =>
    .cond (evaluable_of_draft c hc) (executable_of_draft t ht) fun ha =>
      executable_of_draft e (he (by rw [isAbsent_draft, ha]))
  | .loop c b, .loop hc hb => .loop (evaluable_of_draft c hc) (executable_of_draft b hb)
  | .block ss, .block h => .block (executable_of_drafts ss h)

theorem executable_of_drafts :
    (ss : List Node) → (∀ s ∈ drafts ss, s.Executable) → ∀ s ∈ ss, Executable s
  | [], _ => by simp
  | s :: rest, h => by
    obtain ⟨hfirst, hrest⟩ := List.forall_mem_cons.1 h
    exact List.forall_mem_cons.2 ⟨executable_of_draft s hfirst, executable_of_drafts rest hrest⟩

end

/-! ## Expressions -/

/-- A cause that is an error of the program, or of its data. -/
def Fault.Regular (f : Fault) : Prop :=
  f.kind?.isSome = true ∨ ∃ m, f = .mishap m

theorem Fault.regular_mishap (m : Mishap) : (Fault.mishap m).Regular :=
  Or.inr ⟨m, rfl⟩

section

variable {op : Raw} {v a b : DraftValue} {f : Fault}

theorem regular_faultShowing {shown : List Raw} (h : f.Regular) :
    (faultShowing shown f).Regular := by
  unfold faultShowing
  split
  · exact h
  · exact Fault.regular_mishap _

theorem regular_of_unaryMisfit (h : unaryMisfit op v = .error f) : f.Regular := by
  cases h
  exact regular_faultShowing (Or.inl rfl)

theorem regular_of_binaryMisfit (h : binaryMisfit op a b = .error f) : f.Regular := by
  cases h
  exact regular_faultShowing (Or.inl rfl)

theorem regular_of_applyUnaryDraft (h : applyUnaryDraft op v = .error f) : f.Regular := by
  unfold applyUnaryDraft at h
  split at h
  · cases h
  · cases h
  · exact regular_of_unaryMisfit h

/-- Two numbers fail to be combined only as those of a program do. -/
theorem regular_of_applyNumeric? {x y : Float} {w : String}
    (h : applyNumeric? w x y = some (.error f)) : f.Regular := by
  have happly : applyBinary w (.number x) (.number y) = .error f := by
    rw [applyBinary, h, Option.getD_some]
  rcases applyBinary_error happly with rfl | rfl | rfl <;> exact Or.inl rfl

theorem regular_of_joinDrafts (h : joinDrafts op a b = .error f) : f.Regular := by
  unfold joinDrafts at h
  split at h
  · split at h <;> cases h
    exact Fault.regular_mishap _
  · exact regular_of_binaryMisfit h

theorem regular_of_applyBinaryDraft (h : applyBinaryDraft op a b = .error f) : f.Regular := by
  unfold applyBinaryDraft at h
  split at h
  · split at h
    · rename_i r hr
      obtain ⟨w, -, hw⟩ := Option.bind_eq_some_iff.1 hr
      cases r with
      | ok v => cases h
      | error g =>
        cases h
        exact regular_of_applyNumeric? hw
    · exact regular_of_binaryMisfit h
  · split at h
    · cases h
    · exact regular_of_binaryMisfit h
  · exact regular_of_joinDrafts h

theorem regular_of_key {x : Raw} (h : x.key = .error f) : f.Regular := by
  unfold Raw.key at h
  split at h <;> cases h
  exact Fault.regular_mishap _

/-- **An expression fails only with an error of the program or of its data.** -/
theorem Draft.Evaluable.regular {env : DraftEnv} {e : Draft} (he : e.Evaluable)
    (h : e.eval env = .error f) : f.Regular := by
  induction he with
  | literal => cases h
  | var =>
    rcases bind_eq_error h with hkey | ⟨key, -, hget⟩
    · exact regular_of_key hkey
    · split at hget <;> cases hget
      exact regular_faultShowing (Or.inl rfl)
  | unary _ ih =>
    rcases bind_eq_error h with he | ⟨v, -, ho⟩
    · exact ih he
    · exact regular_of_applyUnaryDraft ho
  | binary _ _ ihl ihr =>
    rcases bind_eq_error h with hl | ⟨a, -, hb⟩
    · exact ihl hl
    · rcases bind_eq_error hb with hr | ⟨b, -, ho⟩
      · exact ihr hr
      · exact regular_of_applyBinaryDraft ho

theorem regular_of_text {piece : Piece} (h : piece.text = .error f) : f.Regular := by
  unfold Piece.text at h
  split at h
  · cases h
  · split at h <;> cases h
    exact Fault.regular_mishap _

theorem regular_of_texts {pieces : List Piece} (h : pieces.mapM Piece.text = .error f) :
    f.Regular := by
  induction pieces with
  | nil => cases h
  | cons piece rest ih =>
    rw [List.mapM_cons] at h
    rcases bind_eq_error h with hfirst | ⟨t, -, hrest⟩
    · exact regular_of_text hfirst
    · rcases bind_eq_error hrest with hrest | ⟨ts, -, hdone⟩
      · exact ih hrest
      · cases hdone

/-- A line is written unless its data have no text. -/
theorem regular_of_lineOf {pieces : List Piece} (h : lineOf pieces = .error f) : f.Regular := by
  rcases bind_eq_error h with htexts | ⟨texts, -, hline⟩
  · exact regular_of_texts htexts
  · split at hline <;> cases hline
    exact Fault.regular_mishap _

end

/-! ## Statements -/

/-- If a run ends, then with so many scopes, and without a fault or with a
    regular one. -/
def EndsAt (depth : Nat) (result : Option DraftEnding) : Prop :=
  ∀ ending, result = some ending →
    ending.state.env.length = depth ∧ ∀ f, ending.fault = some f → f.Regular

section

variable {depth : Nat} {st : DraftState} {verbosity : Int}
  {next : DraftState → Option DraftEnding}

theorem endsAt_done (hst : st.env.length = depth) : EndsAt depth st.done := by
  rintro _ ⟨⟩
  exact ⟨hst, by simp⟩

theorem endsAt_fail {f : Fault} (hst : st.env.length = depth) (hf : f.Regular) :
    EndsAt depth (st.fail f) := by
  rintro _ ⟨⟩
  exact ⟨hst, by simp [hf]⟩

theorem endsAt_trying {α : Type} {result : Except Fault α} {next : α → Option DraftEnding}
    (hst : st.env.length = depth) (hresult : ∀ f, result = .error f → f.Regular)
    (hnext : ∀ a, EndsAt depth (next a)) : EndsAt depth (st.trying result next) := by
  cases result with
  | ok a => exact hnext a
  | error f => exact endsAt_fail hst (hresult f rfl)

theorem endsAt_record {level : Int} {pieces : List Piece} (hst : st.env.length = depth)
    (hnext : ∀ st : DraftState, st.env.length = depth → EndsAt depth (next st)) :
    EndsAt depth (st.record verbosity level pieces next) := by
  unfold DraftState.record
  split
  · exact endsAt_trying hst (fun _ => regular_of_lineOf) fun line => hnext _ hst
  · exact hnext st hst

theorem endsAt_andThen {ending : Option DraftEnding} (h : EndsAt depth ending)
    (hnext : ∀ st : DraftState, st.env.length = depth → EndsAt depth (next st)) :
    EndsAt depth (andThen ending next) := by
  match ending with
  | none => exact h
  | some ⟨st, none⟩ => exact hnext st (h _ rfl).1
  | some ⟨st, some f⟩ => exact h

/-- A loop keeps what its body keeps. -/
theorem endsAt_iterate {test : Draft} {body : DraftState → Option DraftEnding}
    (htest : test.Evaluable)
    (hbody : ∀ st : DraftState, st.env.length = depth → EndsAt depth (body st)) (n : Nat) :
    ∀ st : DraftState, st.env.length = depth →
      EndsAt depth (iterateDraft verbosity test body n st) := by
  induction n with
  | zero => rintro st - _ ⟨⟩
  | succ n ih =>
    intro st hst
    refine endsAt_trying hst (fun _ => htest.regular) fun v => endsAt_record hst fun st hst => ?_
    split
    · exact endsAt_andThen (hbody st hst) ih
    · exact endsAt_done hst

theorem endsAt_leaveScope {ending : DraftEnding} (hdepth : 0 < depth)
    (h : EndsAt (depth + 1) (some ending)) : EndsAt depth (ending.leaveScope verbosity) := by
  obtain ⟨hlength, hfault⟩ := h ending rfl
  -- the scope that is left has another one around it
  obtain ⟨env, henv, hrest⟩ : ∃ env, ending.state.env.exit? = some env ∧ env.length = depth := by
    match hscopes : ending.state.env with
    | [] | [_] =>
      simp only [hscopes, List.length_nil, List.length_singleton] at hlength
      omega
    | _ :: s :: rest =>
      simp only [hscopes, List.length_cons] at hlength
      exact ⟨s :: rest, rfl, by simp only [List.length_cons]; omega⟩
  simp only [DraftEnding.leaveScope, henv]
  split
  · rename_i f hf
    exact endsAt_fail hrest (hfault f hf)
  · exact endsAt_record hrest fun st hst => endsAt_done hst

/-- A block keeps what its statements keep one scope further in. -/
theorem endsAt_inScope {body : DraftState → Option DraftEnding} (hdepth : 0 < depth)
    (hst : st.env.length = depth)
    (hbody : ∀ st : DraftState, st.env.length = depth + 1 → EndsAt (depth + 1) (body st)) :
    EndsAt depth (st.inScope verbosity body) := by
  intro last hlast
  obtain ⟨ending, hentered, hleave⟩ := Option.bind_eq_some_iff.1 hlast
  have henter : st.env.enter.length = depth + 1 := by
    rw [DraftEnv.enter, List.length_cons, hst]
  have hending : EndsAt (depth + 1) (some ending) := by
    rw [← hentered]
    exact endsAt_record henter hbody
  exact endsAt_leaveScope hdepth hending last hleave

end

section

variable {bound : Nat} {verbosity : Int}

mutual

/-- **A statement ends in the scope in which it began**, and fails only with an
    error of the program or of its data. -/
theorem endsAt_execDraft : {s : Draft} → s.Executable → {depth : Nat} → 0 < depth →
    (st : DraftState) → st.env.length = depth → EndsAt depth (execDraft bound verbosity s st)
  | .expr _, .expr he, _, _, st, hst =>
    endsAt_trying hst (fun _ => he.regular) fun _ => endsAt_done hst
  | .assign _ _, .assign he, _, _, st, hst => by
    refine endsAt_trying hst (fun _ => he.regular) fun v =>
      endsAt_trying hst (fun _ => regular_of_key) fun key => ?_
    refine endsAt_record ?_ fun st hst => endsAt_done hst
    simpa [DraftEnv.set] using hst
  | .print _, .print he, _, _, st, hst =>
    endsAt_trying hst (fun _ => he.regular) fun v =>
      endsAt_trying hst (fun _ => regular_of_lineOf) fun _ => endsAt_done hst
  | .cond _ _ _, .cond hc ht he, _, hdepth, st, hst => by
    refine endsAt_trying hst (fun _ => hc.regular) fun v => ?_
    cases v with
    | boolean b =>
      refine endsAt_record hst fun st hst => ?_
      split
      · exact endsAt_execDraft ht hdepth st hst
      · split
        · exact endsAt_done hst
        · rename_i ha
          exact endsAt_execDraft (he (by simpa using ha)) hdepth st hst
    | number | string | null => exact endsAt_fail hst (Or.inl rfl)
  | .loop _ _, .loop hc hb, _, hdepth, st, hst =>
    endsAt_iterate hc (endsAt_execDraft hb hdepth) bound st hst
  | .block ss, .block hss, depth, hdepth, st, hst =>
    endsAt_inScope hdepth hst (endsAt_execDrafts hss (Nat.succ_pos depth))

theorem endsAt_execDrafts : {ss : List Draft} → (∀ s ∈ ss, s.Executable) → {depth : Nat} →
    0 < depth → (st : DraftState) → st.env.length = depth →
      EndsAt depth (execDrafts bound verbosity ss st)
  | [], _, _, _, st, hst => endsAt_done hst
  | s :: rest, hss, _, hdepth, st, hst => by
    obtain ⟨hfirst, hrest⟩ := List.forall_mem_cons.1 hss
    exact endsAt_andThen (endsAt_execDraft hfirst hdepth st hst) (endsAt_execDrafts hrest hdepth)

end

/-! ## Programs -/

variable {ending : DraftEnding} {f : Fault}

/-- **Drafts whose parts are in their places fail only with an error of the
    program or of its data.** -/
theorem runDrafts_regular {p : List Draft} (hp : ∀ s ∈ p, s.Executable)
    (h : runDrafts bound verbosity p DraftState.new = some ending) (hf : ending.fault = some f) :
    f.Regular := by
  have hends : EndsAt 1 (runDrafts bound verbosity p DraftState.new) :=
    endsAt_record rfl (endsAt_execDrafts hp Nat.one_pos)
  exact (hends ending h).2 f hf

/-- The data of a program never fail. -/
theorem runDrafts_drafts_kind {p : List Node} (hp : ∀ s ∈ drafts p, s.Executable)
    (h : runDrafts bound verbosity (drafts p) DraftState.new = some ending)
    (hf : ending.fault = some f) : f.kind?.isSome = true := by
  rw [← new_draft, runDrafts_drafts] at h
  obtain ⟨last, hrun, rfl⟩ := Option.map_eq_some_iff.1 h
  exact (runsAll_of_execAll p _ last hrun).kind_isSome (executable_of_drafts p hp) hf

end

end BlockScript
