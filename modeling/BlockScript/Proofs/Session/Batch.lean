/-
  BlockScript — a session and a run of the whole text agree.

  A session that reports no failure has parsed and run its fragments one by
  one.  Each fragment ends with a line feed, so the tokens of the whole text
  are those of the fragments, the program of the whole text is made of theirs,
  and running it runs them in turn.

  * `Descent.parse_append`: the program of two texts in a row;
  * `execAll_append`: the statements of two programs in a row;
  * `History.ran_once`: the fragments that a session has run, as one text;
  * `session_batch`: running all that was fed at once.
-/
import BlockScript.Proofs.Grammar.Compose
import BlockScript.Proofs.Session.Safety

namespace BlockScript

open Grammar

/-! ## Programs in a row -/

/-- **Programs are put together by putting their texts together**, if a blank
    stands at the seam. -/
theorem Descent.parse_append {s t : String} {p q : List Node} (hs : parse s = .ok p)
    (ht : parse t = .ok q) (hseam : Seam s.toList t.toList) : parse (s ++ t) = .ok (p ++ q) := by
  obtain ⟨⟨pos, hending⟩, d, hyield, hread, hnest, rfl⟩ := exists_derivation_of_parse hs
  obtain ⟨⟨pos', hending'⟩, d', hyield', hread', hnest', rfl⟩ := exists_derivation_of_parse ht
  have hscan : scan (s ++ t) = ⟨(scan s).tokens ++ (scanFrom pos t.toList).tokens,
      (scanFrom pos t.toList).ending⟩ := by
    rw [scan, String.toList_append]
    exact scanFrom_append hending hseam
  -- the second text stands at another place, with the same tokens
  obtain ⟨⟨pos'', hending''⟩, hforms⟩ := @scanFrom_form _ pos _ _ hending'
  have hsame : SameForms d'.yield (scanFrom pos t.toList).tokens := by
    rw [hyield']
    exact hforms
  obtain ⟨d'', hyield'', htrees, hnest''⟩ := d'.relocate hsame
  have hall : (d.append d'').yield = (scan (s ++ t)).tokens := by
    rw [Stmts.yield_append, hyield, hyield'', hscan]
  have hreadable : Readable (d.append d'').yield := by
    rw [Stmts.yield_append, readable_append, hyield'']
    exact ⟨hread, hsame.readable hread'⟩
  have hend : (scan (s ++ t)).ending = .ok pos'' := by
    rw [hscan]
    exact hending''
  have hparse := (parse_of_derivation (d.append d'') hend hall hreadable).1
    (by rw [Stmts.nesting_append]; omega)
  rw [hparse, Stmts.trees_append, htrees]

/-- Statements after others that end normally. -/
theorem execAll_append {bound : Nat} {verbosity : Int} {st mid : RunState} {p q : List Node}
    (h : execAll bound verbosity p st = some ⟨mid, none⟩) :
    execAll bound verbosity (p ++ q) st = execAll bound verbosity q mid := by
  induction p generalizing st with
  | nil =>
    cases h
    rfl
  | cons s rest ih =>
    rcases hs : exec bound verbosity s st with _ | ⟨st', _ | f⟩
    · simp only [execAll, hs, reduceCtorEq] at h
    · simp only [List.cons_append, execAll, hs] at h ⊢
      exact ih h
    · simp only [execAll, hs] at h
      cases h

/-! ## Quiet sessions -/

theorem RunState.record_quiet (st : RunState) (e : Event) : st.record 0 e = st := by
  have hlevel : ¬ e.level ≤ 0 := by cases e <;> simp [Event.level]
  rw [RunState.record, if_neg hlevel]

theorem Ending.fault_eq_none {ending : Ending}
    (h : ∀ f, ending.fault = some f → f.kind?.isSome = true)
    (hreport : ending.verdict.report? = none) : ending.fault = none := by
  cases hf : ending.fault with
  | none => rfl
  | some f =>
    obtain ⟨kind, hk⟩ := Option.isSome_iff_exists.1 (h f hf)
    simp [Ending.verdict, hf, Verdict.report?, Fault.report?, hk] at hreport

section Quiet

variable {strategy : Strategy} {bound : Nat}

/-- A fragment about which nothing is reported ran to its end. -/
theorem runFragment_quiet {source : String} {st st' : RunState} {verdict : Verdict}
    (hrun : runFragment ⟨strategy, 0, bound⟩ source st = some (st', verdict))
    (h : st.env.Global) (hreport : verdict.report? = none) :
    ∃ program, strategy.parse source = .ok program ∧
      execAll bound 0 program st = some ⟨st', none⟩ := by
  rcases runFragment_cases hrun with ⟨e, -, rfl, -⟩ | ⟨program, ending, hparse, hexec, rfl, rfl⟩
  · cases hreport
  · simp only [RunState.starting, RunState.record_quiet] at hexec
    obtain ⟨-, hkind⟩ := @execAll_global ⟨strategy, 0, bound⟩ _ _ _ _ hparse hexec h
    have hfault := Ending.fault_eq_none hkind hreport
    refine ⟨program, hparse, ?_⟩
    rw [hexec, RunState.report, hreport, ← hfault]

/-- No failure was reported. -/
def Quiet (replies : List Reply) : Prop :=
  ∀ source verdict, .ran source verdict ∈ replies → verdict.report? = none

theorem getLast?_collect (line : String) (session : Session) :
    (session.collect line).text.toList.getLast? = some '\n' := by
  rw [Session.text_collect, String.toList_append, String.toList_append]
  simp

/-- **The fragments that a quiet session has run are one program**, and running
    it gives the state of the session. -/
theorem History.ran_once {lines : List String} {replies : List Reply} {session : Session}
    (h : History ⟨.descent, 0, bound⟩ lines replies session) (hquiet : Quiet replies) :
    (∀ c ∈ (ranText replies).toList.getLast?, isBlank c = true) ∧
      ∃ program, Descent.parse (ranText replies) = .ok program ∧
        execAll bound 0 program (RunState.of Env.empty) = some ⟨session.state, none⟩ := by
  induction h with
  | new => exact ⟨by simp [ranText], [], by cbv, rfl⟩
  | @feed lines replies session session' line reply h hf ih =>
    obtain ⟨hblank, program, hparse, hexec⟩ :=
      ih fun source verdict hmem => hquiet source verdict (List.mem_append_left _ hmem)
    rw [ranText_snoc]
    cases feed_eq_some_iff.1 hf with
    | finished _ | more _ _ =>
      simp only [Reply.source?, Option.getD_none, String.append_empty]
      exact ⟨hblank, program, hparse, hexec⟩
    | @ran st verdict _ _ hr =>
      obtain ⟨program', hparse', hexec'⟩ := runFragment_quiet hr h.global
        (hquiet _ verdict (List.mem_append_right _ List.mem_cons_self))
      simp only [Reply.source?, Option.getD_some]
      refine ⟨?_, program ++ program', ?_, ?_⟩
      · intro c hc
        rw [String.toList_append, List.getLast?_append, getLast?_collect] at hc
        cases hc
        decide
      · exact Descent.parse_append hparse hparse' (Or.inl hblank)
      · rw [execAll_append hexec, hexec']

end Quiet

/-- **A session and a run of the whole text agree.**  If no line ends the
    session, nothing is reported and nothing is left in the buffer, then all
    that was fed is a program that runs to its end, and leaves the output and
    the environment of the session. -/
theorem session_batch {bound : Nat} {lines : List String} {replies : List Reply}
    {session : Session} (h : History ⟨.descent, 0, bound⟩ lines replies session)
    (hexit : ∀ line ∈ lines, strip line ≠ exitLine)
    (hquiet : ∀ source verdict, .ran source verdict ∈ replies → verdict.report? = none)
    (hbuffer : session.buffer = []) :
    runSource ⟨.descent, 0, bound⟩ (String.join (lines.map (· ++ "\n")))
      (RunState.of Env.empty) = some (session.state, .succeeded) := by
  obtain ⟨-, program, hparse, hexec⟩ := h.ran_once hquiet
  have htext : ranText replies = String.join (lines.map (· ++ "\n")) := by
    have hall : lines.filter (fun line => strip line ≠ exitLine) = lines :=
      List.filter_eq_self.2 (by simpa using hexit)
    have hfed := h.text_eq
    rw [Session.text, hbuffer, fedText, hall] at hfed
    simpa using hfed
  rw [← htext]
  simp only [runSource, Strategy.parse, hparse, run, RunState.record_quiet, hexec, Option.map_some]
  rfl

set_option maxRecDepth 1024 in
/-- A fragment that prints, and a block over two lines. -/
theorem session_batch_block : ∃ replies session,
    History ⟨.descent, 0, 0⟩ ["print true;", "\x7b y = true;", "\x7d"] replies session ∧
      session.state.output = "true\n" ∧
      runSource ⟨.descent, 0, 0⟩ "print true;\n\x7b y = true;\n\x7d\n" (RunState.of Env.empty) =
        some (session.state, .succeeded) := by
  have hparse' : Strategy.descent.parse "\x7b y = true;\n\x7d\n" =
      .ok [.block [.assign "y" (.literal (.boolean true))]] := by cbv
  have hparse : Strategy.descent.parse "print true;\n" =
      .ok [.print (.literal (.boolean true))] := by cbv
  have hran : runFragment ⟨.descent, 0, 0⟩ "print true;\n" Session.new.state =
      some (⟨Env.empty, "true\n", #[]⟩, .succeeded) := by
    simp only [runFragment, runSource, hparse]
    rfl
  have hran' : runFragment ⟨.descent, 0, 0⟩ "\x7b y = true;\n\x7d\n"
      ⟨Env.empty, "true\n", #[]⟩ = some (⟨Env.empty, "true\n", #[]⟩, .succeeded) := by
    simp only [runFragment, runSource, hparse']
    rfl
  have hprint : History ⟨.descent, 0, 0⟩ ["print true;"] [.ran "print true;\n" .succeeded]
      ⟨⟨Env.empty, "true\n", #[]⟩, []⟩ :=
    .feed .new (feed_eq_some_iff.2 (.ran (by decide) (by decide) hran))
  have hopen : History ⟨.descent, 0, 0⟩ ["print true;", "\x7b y = true;"]
      [.ran "print true;\n" .succeeded, .more]
      ⟨⟨Env.empty, "true\n", #[]⟩, ["\x7b y = true;\n"]⟩ :=
    .feed hprint (feed_eq_some_iff.2 (.more (by decide) (by decide)))
  have h : History ⟨.descent, 0, 0⟩ ["print true;", "\x7b y = true;", "\x7d"]
      [.ran "print true;\n" .succeeded, .more, .ran "\x7b y = true;\n\x7d\n" .succeeded]
      ⟨⟨Env.empty, "true\n", #[]⟩, []⟩ :=
    .feed hopen (feed_eq_some_iff.2 (.ran (by decide) (by decide) hran'))
  have hquiet : ∀ source verdict, Reply.ran source verdict ∈
      [.ran "print true;\n" .succeeded, .more, .ran "\x7b y = true;\n\x7d\n" .succeeded] →
        verdict.report? = none := by
    intro source verdict hmem
    simp only [List.mem_cons, Reply.ran.injEq, reduceCtorEq, List.not_mem_nil, or_false,
      false_or] at hmem
    rcases hmem with ⟨-, rfl⟩ | ⟨-, rfl⟩ <;> rfl
  have hjoin : String.join (["print true;", "\x7b y = true;", "\x7d"].map (· ++ "\n")) =
      "print true;\n\x7b y = true;\n\x7d\n" := by decide
  have hbatch := session_batch h (by decide) hquiet rfl
  rw [hjoin] at hbatch
  exact ⟨_, _, h, rfl, hbatch⟩

end BlockScript
