/-
  BlockScript — the fragments of a session.

  A session cuts what it is fed where a line ends with a terminator while no
  brace is open.  This loses nothing, and it waits for no text that is a program
  already: the text of a program has balanced braces and ends with a terminator,
  so that it was cut off with the line of this terminator at the latest.

  * `lastVisible`, `endsFragment_eq`: the last character that is not blank;
  * `completes_of_parse`: a program that is not blank completes a fragment;
  * `History.waiting`: what a session has collected completes none;
  * `session_fragments`: nothing is lost, and no finished program is withheld.
-/
import BlockScript.Proofs.Agreement
import BlockScript.Proofs.Braces
import BlockScript.Proofs.Session

namespace BlockScript

/-! ## The last visible character -/

/-- The last character that is not blank. -/
def lastVisible (cs : List Char) : Option Char :=
  cs.reverse.find? fun c => !isBlank c

theorem lastVisible_append (cs ds : List Char) :
    lastVisible (cs ++ ds) = (lastVisible ds).or (lastVisible cs) := by
  rw [lastVisible, List.reverse_append, List.find?_append]
  rfl

theorem lastVisible_of_blank {cs : List Char} (h : ∀ c ∈ cs, isBlank c = true) :
    lastVisible cs = none := by
  rw [lastVisible, List.find?_eq_none]
  intro c hc
  simp [h c (List.mem_reverse.1 hc)]

theorem blank_of_lastVisible {cs : List Char} (h : lastVisible cs = none) :
    ∀ c ∈ cs, isBlank c = true := by
  rw [lastVisible, List.find?_eq_none] at h
  intro c hc
  simpa using h c (List.mem_reverse.2 hc)

theorem lastVisible_of_getLast? {cs : List Char} {c : Char} (h : cs.getLast? = some c)
    (hc : isBlank c = false) : lastVisible cs = some c := by
  obtain ⟨ds, rfl⟩ := List.getLast?_eq_some_iff.1 h
  simp [lastVisible, hc]

theorem head?_dropWhile_eq_find? (p : Char → Bool) (cs : List Char) :
    (cs.dropWhile p).head? = cs.find? fun c => !p c := by
  induction cs with
  | nil => rfl
  | cons c cs ih => cases hp : p c <;> simp [hp, ih]

theorem getLast?_stripChars (cs : List Char) : (stripChars cs).getLast? = lastVisible cs := by
  have hlead : lastVisible (cs.takeWhile isBlank) = none :=
    lastVisible_of_blank fun c hc => List.all_eq_true.1 List.all_takeWhile c hc
  have hsplit := lastVisible_append (cs.takeWhile isBlank) (cs.dropWhile isBlank)
  rw [List.takeWhile_append_dropWhile, hlead, Option.or_none] at hsplit
  rw [stripChars, List.getLast?_reverse, head?_dropWhile_eq_find?, hsplit]
  rfl

/-- The characters that may end a fragment. -/
def isTerminator (c : Char) : Bool :=
  c = ';' || c = '\x7d'

theorem endsFragment_eq (text : String) :
    endsFragment text = (lastVisible text.toList).any isTerminator := by
  rw [endsFragment, getLast?_stripChars]
  cases lastVisible text.toList <;> rfl

/-! ## The last token -/

/-- The last visible character of a text is the last one of its last token. -/
theorem lastVisible_scan {p q : Position} {cs : List Char} (h : (scanFrom p cs).ending = .ok q) :
    match (scanFrom p cs).tokens.getLast? with
    | none => lastVisible cs = none
    | some t => ∃ c, t.lexeme.toList.getLast? = some c ∧ lastVisible cs = some c := by
  refine scanFrom_induction (motive := fun p cs => match (scanFrom p cs).tokens.getLast? with
    | none => lastVisible cs = none
    | some t => ∃ c, t.lexeme.toList.getLast? = some c ∧ lastVisible cs = some c)
    ?_ ?_ ?_ cs p q h
  · intro p
    rw [scanFrom]
    rfl
  · intro p c rest hb ih
    have hc : lastVisible (c :: rest) = lastVisible rest := by
      have hblank : lastVisible [c] = none := lastVisible_of_blank (by simpa using hb)
      have happend := lastVisible_append [c] rest
      rwa [hblank, Option.or_none] at happend
    rw [scanFrom_of_blank p rest hb, hc]
    exact ih
  · intro p c rest l after hb hcut ih
    obtain ⟨d, hd, hvisible⟩ := hcut.visible hb
    rw [scanFrom_of_cut p hb hcut, hcut.chars, lastVisible_append,
      lastVisible_of_getLast? hd hvisible]
    simp only [List.getLast?_cons]
    split at ih
    · rename_i hnone
      simp only [hnone, Option.getD_none, ih, Option.none_or]
      exact ⟨d, by rw [hcut.lexeme, hd], rfl⟩
    · rename_i t hsome
      obtain ⟨e, he, hafter⟩ := ih
      simp only [hsome, Option.getD_some, hafter, Option.some_or]
      exact ⟨e, he, rfl⟩

namespace Grammar

/-- The token is one that ends a statement. -/
def EndsStmt (t : Token) : Prop :=
  t.kind = .symbol ∧ (t.text = ";" ∨ t.text = "\x7d")

theorem Stmt.yield_eq_snoc : {b : Bool} → (s : Stmt b) → ∃ ts t, s.yield = ts ++ [t] ∧ EndsStmt t
  | _, .expr e semi => ⟨e.yield, semi.1, rfl, semi.2.1, Or.inl semi.2.2⟩
  | _, .assign x eq e semi =>
    ⟨x.1 :: eq.1 :: e.yield, semi.1, by simp [Stmt.yield], semi.2.1, Or.inl semi.2.2⟩
  | _, .print word e semi =>
    ⟨word.1 :: e.yield, semi.1, by simp [Stmt.yield], semi.2.1, Or.inl semi.2.2⟩
  | _, .branch word c body => by
    obtain ⟨ts, t, hy, ht⟩ := body.yield_eq_snoc
    exact ⟨word.1 :: (c.yield ++ ts), t, by simp [Stmt.yield, hy], ht⟩
  | _, .branchElse word c body alt other => by
    obtain ⟨ts, t, hy, ht⟩ := other.yield_eq_snoc
    exact ⟨word.1 :: (c.yield ++ (body.yield ++ alt.1 :: ts)), t, by simp [Stmt.yield, hy], ht⟩
  | _, .loop word c body => by
    obtain ⟨ts, t, hy, ht⟩ := body.yield_eq_snoc
    exact ⟨word.1 :: (c.yield ++ ts), t, by simp [Stmt.yield, hy], ht⟩
  | _, .block l body r none =>
    ⟨l.1 :: body.yield, r.1, by simp [Stmt.yield], r.2.1, Or.inr r.2.2⟩
  | _, .block l body r (some semi) =>
    ⟨l.1 :: (body.yield ++ [r.1]), semi.1, by simp [Stmt.yield], semi.2.1, Or.inl semi.2.2⟩

theorem Stmts.yield_eq_snoc (ss : Stmts) :
    ss.yield = [] ∨ ∃ ts t, ss.yield = ts ++ [t] ∧ EndsStmt t := by
  cases ss with
  | nil => exact Or.inl rfl
  | cons s rest =>
    refine Or.inr ?_
    rcases rest.yield_eq_snoc with hnil | ⟨ts, t, hy, ht⟩
    · obtain ⟨ts, t, hy, ht⟩ := s.yield_eq_snoc
      exact ⟨ts, t, by rw [Stmts.yield, hnil, List.append_nil, hy], ht⟩
    · exact ⟨s.yield ++ ts, t, by rw [Stmts.yield, hy, List.append_assoc], ht⟩

/-- The last character of a token that ends a statement. -/
theorem EndsStmt.lexeme {t : Token} (h : EndsStmt t) :
    ∃ c, t.lexeme.toList.getLast? = some c ∧ isTerminator c = true := by
  obtain ⟨hk, ht | ht⟩ := h <;> simp [Token.lexeme, hk, ht, isTerminator]

end Grammar

/-! ## Programs complete fragments -/

open Grammar

/-- A program that is not blank ends with a terminator and leaves no brace
    open. -/
theorem completes_of_parse {strategy : Strategy} {source : String} {p : List Node}
    (h : strategy.parse source = .ok p) (hvisible : ∃ c ∈ source.toList, isBlank c = false) :
    endsFragment source = true ∧ braceDepth source = 0 := by
  refine ⟨?_, braceDepth_of_parse h⟩
  obtain ⟨⟨pos, hending⟩, d, hyield, -, -⟩ := Strategy.exists_derivation h
  have hlast := lastVisible_scan hending
  change match (scan source).tokens.getLast? with
    | none => _
    | some t => _ at hlast
  rw [← hyield] at hlast
  rw [endsFragment_eq]
  rcases d.yield_eq_snoc with hnil | ⟨ts, t, hy, ht⟩
  · rw [hnil] at hlast
    obtain ⟨c, hc, hvisible⟩ := hvisible
    rw [blank_of_lastVisible hlast c hc] at hvisible
    cases hvisible
  · rw [hy, List.getLast?_concat] at hlast
    obtain ⟨c, hc, hvisible⟩ := hlast
    obtain ⟨c', hc', hterm⟩ := ht.lexeme
    cases hc.symm.trans hc'
    rw [hvisible]
    exact hterm

/-! ## What a session waits for -/

theorem braceDepthFrom_append_plain {ds : List Char} (h : ∀ c ∈ ds, isPlain c = true)
    (cs : List Char) (inString : Bool) :
    braceDepthFrom inString (cs ++ ds) = braceDepthFrom inString cs := by
  induction cs generalizing inString with
  | cons c cs ih => simp only [List.cons_append, braceDepthFrom, ih]
  | nil =>
    induction ds with
    | nil => rfl
    | cons d ds ih =>
      obtain ⟨hd, hds⟩ := List.forall_mem_cons.1 h
      simp only [isPlain, Bool.and_eq_true, decide_eq_true_eq] at hd
      have hrest := ih hds
      rw [List.nil_append] at hrest ⊢
      simp [braceDepthFrom, hd, hrest]

theorem lastVisible_collect (line : String) (session : Session) :
    lastVisible (session.collect line).text.toList =
      (lastVisible line.toList).or (lastVisible session.text.toList) := by
  have hfeed : lastVisible ['\n'] = none := lastVisible_of_blank (List.forall_mem_singleton.2 rfl)
  rw [Session.text_collect, String.toList_append, String.toList_append, lastVisible_append,
    lastVisible_append]
  change ((lastVisible ['\n']).or _).or _ = _
  rw [hfeed, Option.none_or]

/-- A blank line leaves the braces as they are. -/
theorem braceDepth_collect {line : String} (session : Session)
    (h : ∀ c ∈ line.toList, isBlank c = true) :
    braceDepth (session.collect line).text = braceDepth session.text := by
  rw [Session.text_collect, braceDepth, String.toList_append]
  refine braceDepthFrom_append_plain (fun c hc => isPlain_of_isBlank ?_) _ _
  rw [String.toList_append, List.mem_append] at hc
  rcases hc with hc | hc
  · exact h c hc
  · obtain rfl : c = '\n' := by simpa using hc
    decide

/-- What a session has collected completes no fragment. -/
theorem History.waiting {settings : Settings} {lines : List String} {replies : List Reply}
    {session : Session} (h : History settings lines replies session) :
    session.completes session.text = false := by
  induction h with
  | new => rfl
  | @feed lines replies session session' line reply _ hf ih =>
    cases feed_eq_some_iff.1 hf with
    | finished _ => exact ih
    | more _ hc =>
      have hlast := lastVisible_collect line session
      rw [Session.completes, endsFragment_eq] at hc ih ⊢
      cases hline : lastVisible line.toList with
      | none =>
        -- the line is blank, and the session waits for what it waited for
        rw [hline, Option.none_or] at hlast
        rw [hlast, braceDepth_collect session (blank_of_lastVisible hline)]
        exact ih
      | some c =>
        rw [hline, Option.some_or] at hlast
        rw [hlast, ← hline]
        exact hc
    | ran _ _ _ => rfl

/-- **A session neither loses input nor withholds a finished program.**  The
    fragments that were run, and then the buffer, are the lines that were fed;
    and what is in the buffer is blank, or no program. -/
theorem session_fragments {settings : Settings} {lines : List String} {replies : List Reply}
    {session : Session} (h : History settings lines replies session) :
    String.join (replies.filterMap Reply.source?) ++ session.text =
        String.join ((lines.filter fun line => strip line ≠ exitLine).map (· ++ "\n")) ∧
      ((∃ c ∈ session.text.toList, isBlank c = false) →
        ∀ p, settings.strategy.parse session.text ≠ .ok p) := by
  refine ⟨h.text_eq, fun hvisible p hp => ?_⟩
  obtain ⟨hends, hdepth⟩ := completes_of_parse hp hvisible
  have hwaiting := h.waiting
  simp [Session.completes, hends, hdepth] at hwaiting

/-- A block over two lines with an `exit;` between them, which ends nothing by
    itself, and a branch that waits for its body. -/
theorem session_fragments_branch : ∃ replies session,
    History ⟨.pushdown, 0, 0⟩ ["\x7b print \"\x7d;\";", "exit;", "\x7d", "if (true)"]
        replies session ∧
      String.join (replies.filterMap Reply.source?) ++ session.text =
        "\x7b print \"\x7d;\";\n\x7d\nif (true)\n" ∧
      session.text = "if (true)\n" ∧
      ∀ p, Strategy.pushdown.parse session.text ≠ .ok p := by
  have hran : runFragment ⟨.pushdown, 0, 0⟩ "\x7b print \"\x7d;\";\n\x7d\n" Session.new.state =
      some (⟨Env.empty, "\x7d;\n", #[]⟩, .succeeded) := by cbv
  have hopen : History ⟨.pushdown, 0, 0⟩ ["\x7b print \"\x7d;\";"] [.more]
      (Session.new.collect "\x7b print \"\x7d;\";") :=
    .feed .new (feed_eq_some_iff.2 (.more (by decide) (by decide)))
  have hexit : History ⟨.pushdown, 0, 0⟩ ["\x7b print \"\x7d;\";", "exit;"] [.more, .finished]
      (Session.new.collect "\x7b print \"\x7d;\";") :=
    .feed hopen (feed_eq_some_iff.2 (.finished (by decide)))
  have hclose : History ⟨.pushdown, 0, 0⟩ ["\x7b print \"\x7d;\";", "exit;", "\x7d"]
      [.more, .finished, .ran "\x7b print \"\x7d;\";\n\x7d\n" .succeeded]
      ⟨⟨Env.empty, "\x7d;\n", #[]⟩, []⟩ :=
    .feed hexit (feed_eq_some_iff.2 (.ran (by decide) (by decide) hran))
  have h : History ⟨.pushdown, 0, 0⟩ ["\x7b print \"\x7d;\";", "exit;", "\x7d", "if (true)"]
      [.more, .finished, .ran "\x7b print \"\x7d;\";\n\x7d\n" .succeeded, .more]
      ⟨⟨Env.empty, "\x7d;\n", #[]⟩, ["if (true)\n"]⟩ :=
    .feed hclose (feed_eq_some_iff.2 (.more (by decide) (by decide)))
  obtain ⟨htext, hwaits⟩ := session_fragments h
  exact ⟨_, _, h, htext.trans (by decide), by decide, hwaits ⟨'i', by decide, by decide⟩⟩

end BlockScript
