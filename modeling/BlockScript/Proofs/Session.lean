/-
  BlockScript — the history of a session.

  * `Fed`: what a session does with a line, and what it answers;
  * `runFragment_cases`: how a fragment is refused or run;
  * `History`: a new session that was fed lines, with its answers;
  * `History.text_eq`: no line is lost between the fragments and the buffer.
-/
import BlockScript.Session

namespace BlockScript

/-! ## One line -/

/-- What a session does with a line, and what it answers. -/
inductive Fed (settings : Settings) (line : String) (session : Session) :
    Session → Reply → Prop where
  | finished (h : strip line = exitLine) : Fed settings line session session .finished
  | more (h : strip line ≠ exitLine) (hc : (session.collect line).completes line = false) :
      Fed settings line session (session.collect line) .more
  | ran {st : RunState} {verdict : Verdict} (h : strip line ≠ exitLine)
      (hc : (session.collect line).completes line = true)
      (hr : runFragment settings (session.collect line).text session.state = some (st, verdict)) :
      Fed settings line session ⟨st, []⟩ (.ran (session.collect line).text verdict)

theorem feed_eq_some_iff {settings : Settings} {line : String} {session session' : Session}
    {reply : Reply} : session.feed settings line = some (session', reply) ↔
      Fed settings line session session' reply := by
  constructor
  · intro h
    unfold Session.feed at h
    split at h
    · rename_i hexit
      cases h
      exact .finished hexit
    · rename_i hexit
      simp only at h
      split at h
      · rename_i hc
        obtain ⟨⟨st, verdict⟩, hr, hs⟩ := Option.map_eq_some_iff.1 h
        cases hs
        exact .ran hexit hc hr
      · rename_i hc
        cases h
        exact .more hexit (by simpa using hc)
  · intro h
    cases h with
    | finished h => simp only [Session.feed, h, if_true]
    | more h hc => simp only [Session.feed, h, hc, if_false, Bool.false_eq_true]
    | ran h hc hr =>
      simp only [Session.feed, h, hc, if_false, if_true]
      exact congrArg (Option.map _) hr

theorem Session.text_collect (line : String) (session : Session) :
    (session.collect line).text = session.text ++ (line ++ "\n") := by
  simp [Session.text, Session.collect]

theorem Session.text_of_nil (st : RunState) : Session.text ⟨st, []⟩ = "" := rfl

/-- The state in which the statements of a fragment start. -/
def RunState.starting (st : RunState) (verbosity : Int) (source : String) (program : List Node) :
    RunState :=
  (st.record verbosity (.fragment (strip source))).record verbosity (.started program.length)

/-- A fragment is refused, or its statements are run. -/
theorem runFragment_cases {settings : Settings} {source : String} {st st' : RunState}
    {verdict : Verdict} (h : runFragment settings source st = some (st', verdict)) :
    (∃ e, settings.strategy.parse source = .error e ∧ verdict = .refused e ∧
        st' = (st.record settings.verbosity (.fragment (strip source))).report verdict) ∨
      ∃ program ending, settings.strategy.parse source = .ok program ∧
        execAll settings.bound settings.verbosity program
            (st.starting settings.verbosity source program) = some ending ∧
        verdict = ending.verdict ∧ st' = ending.state.report verdict := by
  obtain ⟨⟨mid, v⟩, hrun, hst⟩ := Option.map_eq_some_iff.1 h
  cases hst
  unfold runSource at hrun
  split at hrun
  · rename_i e hparse
    cases hrun
    exact Or.inl ⟨e, hparse, rfl, rfl⟩
  · rename_i program hparse
    obtain ⟨ending, hending, hmid⟩ := Option.map_eq_some_iff.1 hrun
    cases hmid
    exact Or.inr ⟨program, ending, hparse, hending, rfl, rfl⟩

/-! ## Many lines -/

/-- The session that a new one is after the lines were fed to it, and what it
    answered. -/
inductive History (settings : Settings) : List String → List Reply → Session → Prop where
  | new : History settings [] [] Session.new
  | feed {lines : List String} {replies : List Reply} {session session' : Session}
      {line : String} {reply : Reply} (h : History settings lines replies session)
      (hf : session.feed settings line = some (session', reply)) :
      History settings (lines ++ [line]) (replies ++ [reply]) session'

/-- The text of the fragment that was run, if one was. -/
def Reply.source? : Reply → Option String
  | .ran source _ => some source
  | _ => none

/-- The texts of the fragments that were run, one after the other. -/
def ranText (replies : List Reply) : String :=
  String.join (replies.filterMap Reply.source?)

theorem ranText_snoc (replies : List Reply) (reply : Reply) :
    ranText (replies ++ [reply]) = ranText replies ++ reply.source?.getD "" := by
  rw [ranText, List.filterMap_append, String.join_append]
  cases reply with
  | ran source verdict => simp [ranText, Reply.source?]
  | more | finished => simp [ranText, Reply.source?, List.filterMap_cons]

/-- The text of the lines that do not end a session, each with its line feed. -/
def fedText (lines : List String) : String :=
  String.join ((lines.filter fun line => strip line ≠ exitLine).map (· ++ "\n"))

theorem fedText_snoc_exit {line : String} (lines : List String) (h : strip line = exitLine) :
    fedText (lines ++ [line]) = fedText lines := by
  simp [fedText, h]

theorem fedText_snoc {line : String} (lines : List String) (h : strip line ≠ exitLine) :
    fedText (lines ++ [line]) = fedText lines ++ (line ++ "\n") := by
  simp [fedText, h]

/-- The fragments that were run, and then the buffer, are all that was fed. -/
theorem History.text_eq {settings : Settings} {lines : List String} {replies : List Reply}
    {session : Session} (h : History settings lines replies session) :
    ranText replies ++ session.text = fedText lines := by
  induction h with
  | new => rfl
  | @feed lines replies session session' line reply _ hf ih =>
    rw [ranText_snoc]
    cases feed_eq_some_iff.1 hf with
    | finished hexit => simp only [fedText_snoc_exit lines hexit, ← ih, Reply.source?,
        Option.getD_none, String.append_empty]
    | more hexit _ => simp only [fedText_snoc lines hexit, ← ih, Session.text_collect,
        Reply.source?, Option.getD_none, String.append_empty, String.append_assoc]
    | ran hexit _ _ => simp only [fedText_snoc lines hexit, ← ih, Session.text_collect,
        Session.text_of_nil, Reply.source?, Option.getD_some, String.append_empty,
        String.append_assoc]

end BlockScript
