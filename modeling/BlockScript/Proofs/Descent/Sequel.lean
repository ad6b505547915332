/-
  BlockScript — a text after a program.

  What follows a program on a new line is read as it is read alone, only
  further down: the statements of the program are taken one by one, the last
  of them looks at the next token and leaves it unless it is an `else` or a
  `;`, and no level of nesting is left open.

  * `program_append`: recursive descent on the tokens of a derivation and any
    others that do not go on with it;
  * `Position.lower`, `scanFrom_lower`, `tokenize_sequel`: the tokens of the
    second text stand further down, and are the same otherwise;
  * `parse_sequel`: the programs are put together, or the second one is refused
    as it was alone.
-/
import BlockScript.Proofs.Agreement
import BlockScript.Proofs.Descent.Places
import BlockScript.Proofs.Diagnosis
import BlockScript.Proofs.Layout

namespace BlockScript

open Grammar

/-! ## Places further down -/

/-- The place so many lines further down.  In line 0 there is no place of a
    text. -/
def Position.lower (k : Nat) (p : Position) : Position :=
  if p.line = 0 then p else ⟨p.line + k, p.column⟩

theorem Position.after_line {p : Position} (hp : p.line ≠ 0) (c : Char) :
    (p.after c).line ≠ 0 := by
  unfold Position.after
  split
  · exact Nat.succ_ne_zero _
  · exact hp

theorem Position.lower_after {p : Position} (hp : p.line ≠ 0) (k : Nat) (c : Char) :
    (p.after c).lower k = (p.lower k).after c := by
  by_cases hc : c = '\n' <;> simp [Position.after, Position.lower, hp, hc, Nat.add_right_comm]

theorem Position.lower_afterAll (k : Nat) (cs : List Char) : ∀ {p : Position}, p.line ≠ 0 →
    (p.afterAll cs).line ≠ 0 ∧ (p.afterAll cs).lower k = (p.lower k).afterAll cs := by
  induction cs with
  | nil => exact fun hp => ⟨hp, rfl⟩
  | cons c cs ih =>
    intro p hp
    obtain ⟨hline, hlower⟩ := ih (Position.after_line hp c)
    rw [Position.lower_after hp] at hlower
    exact ⟨hline, hlower⟩

/-- A text that stands further down has the same tokens further down. -/
theorem scanFrom_lower (k : Nat) {p q : Position} {cs : List Char} (hp : p.line ≠ 0)
    (h : (scanFrom p cs).ending = .ok q) :
    scanFrom (p.lower k) cs =
      ⟨(scanFrom p cs).tokens.map (Token.move (Position.lower k)), .ok (q.lower k)⟩ := by
  refine scanFrom_induction (motive := fun p cs => p.line ≠ 0 → (scanFrom p cs).ending = .ok q →
    scanFrom (p.lower k) cs =
      ⟨(scanFrom p cs).tokens.map (Token.move (Position.lower k)), .ok (q.lower k)⟩)
    ?_ ?_ ?_ cs p q h hp h
  · intro p _ h
    rw [scanFrom] at h ⊢
    cases h
    rw [scanFrom]
    rfl
  · intro p c rest hb ih hp h
    rw [scanFrom_of_blank p rest hb] at h ⊢
    rw [scanFrom_of_blank _ rest hb, ← Position.lower_after hp]
    exact ih (Position.after_line hp c) h
  · intro p c rest l after hb hcut ih hp h
    obtain ⟨hline, hlower⟩ := Position.lower_afterAll k l.chars hp
    rw [scanFrom_of_cut p hb hcut] at h ⊢
    rw [scanFrom_of_cut _ hb hcut, ← hlower, ih hline h]
    rfl

theorem positionAt_line (before : List Char) : (positionAt before).line ≠ 0 :=
  Nat.ne_of_gt (Nat.lt_add_right _ Nat.one_pos)

theorem LaidOut.line {before cs : List Char} {ts : List Token} (h : LaidOut before ts cs) :
    ∀ t ∈ ts, t.pos.line ≠ 0 := by
  induction h with
  | done => simp
  | token _ _ hplace _ _ ih =>
    refine List.forall_mem_cons.2 ⟨?_, ih⟩
    rw [hplace]
    exact positionAt_line _

/-- Every token of a text stands in a line of it. -/
theorem tokenize_line {source : String} {ts : List Token} (h : tokenize source = .ok ts) :
    ∀ t ∈ ts, t.pos.line ≠ 0 := by
  obtain ⟨q, hending, rfl⟩ := tokenize_eq_ok_iff.1 h
  obtain ⟨hlaid, rfl⟩ := @scanFrom_laidOut [] _ _ hending
  rw [List.forall_mem_append]
  refine ⟨hlaid.line, ?_⟩
  rintro t ht
  rw [List.mem_singleton.1 ht]
  exact positionAt_line _

/-- The tokens of a text on a new line after another one. -/
theorem tokenize_sequel {s t : String} {pos : Position} {ts : List Token}
    (hs : (scan s).ending = .ok pos) (ht : tokenize t = .ok ts) :
    tokenize (s ++ "\n" ++ t) = .ok ((scan s).tokens ++
      ts.map (Token.move (Position.lower (s.toList.count '\n' + 1)))) := by
  obtain ⟨q, hending, rfl⟩ := tokenize_eq_ok_iff.1 ht
  -- the place after the line feed
  obtain ⟨-, hpos⟩ := @scanFrom_laidOut [] s.toList pos hs
  have hstart : pos.after '\n' = Position.start.lower (s.toList.count '\n' + 1) := by
    rw [hpos]
    simp [Position.after, Position.lower, Position.start, positionAt, Nat.add_assoc]
  have hscan : scan (s ++ "\n" ++ t) =
      ⟨(scan s).tokens ++ (scanFrom (pos.after '\n') t.toList).tokens,
        (scanFrom (pos.after '\n') t.toList).ending⟩ := by
    have hseam : Seam s.toList ('\n' :: t.toList) := by
      refine Or.inr fun c hc => ?_
      cases hc
      decide
    rw [← scanFrom_of_blank pos t.toList (by decide), scan, String.append_assoc,
      String.toList_append, String.toList_append]
    exact scanFrom_append hs hseam
  have hlower := scanFrom_lower (s.toList.count '\n' + 1) (p := .start) (by decide) hending
  rw [hstart, hlower] at hscan
  rw [tokenize_eq_ok_iff, hscan]
  refine ⟨_, rfl, ?_⟩
  rw [List.map_append, List.append_assoc]
  rfl

namespace Descent

/-! ## Statements in front of others -/

theorem leaves_moved (g : Position → Position) {ts : List Token}
    (helse : (next ts).is .keyword "else" = false) (hsemi : (next ts).is .symbol ";" = false) :
    Leaves true (ts.map (Token.move g)) := by
  have not_is : ∀ {kind : TokenKind} {text : String}, (next ts).is kind text = false →
      ¬ ((next ts).kind = kind ∧ (next ts).text = text) := by
    intro kind text h hkind
    rw [Token.is_iff.2 hkind] at h
    cases h
  intro u hu
  cases ts with
  | nil => cases hu
  | cons first ts =>
    cases hu
    exact ⟨not_is hsemi, fun _ => not_is helse⟩

/-- **Recursive descent takes the statements of a derivation**, whatever comes
    after them, unless it goes on with the last one. -/
theorem program_append {rest : List Token} (hrest : Leaves true rest) : (ss : Stmts) →
    Readable ss.yield → ss.nesting ≤ maxNesting →
      program (ss.yield ++ rest) = (program >>= fun q => pure (ss.trees ++ q)) rest
  | .nil, _, _ => by
    rw [bind_eq, Stmts.yield, List.nil_append]
    cases program rest <;> rfl
  | .cons s ss, hread, hnest => by
    obtain ⟨t, us, hyield, ht⟩ := s.yield_eq_cons
    rw [Stmts.readable_cons] at hread
    rw [Stmts.nesting] at hnest
    -- the token after the first statement starts the next one, or is that of the rest
    have hfirst : statement maxNesting (s.yield ++ (ss.yield ++ rest)) =
        .ok (s.tree, ss.yield ++ rest) :=
      (statement_reading maxNesting s _ hread.1 (hrest.after_stmts ss)).ok (by omega)
    have hnext : (next (s.yield ++ (ss.yield ++ rest))).isEnd = false := by
      rw [hyield]
      exact ht.not_isEnd
    have hothers := program_append hrest ss hread.2 (by omega)
    show manyLoop Token.isEnd (statement maxNesting) _ = _
    rw [Stmts.yield, List.append_assoc, manyLoop_eq (fun _ ht => ht) statement_length_lt, bind_eq]
    simp only [peek, hnext, Bool.false_eq_true, if_false]
    rw [bind_eq, hfirst]
    show (program >>= fun others => pure (s.tree :: others)) (ss.yield ++ rest) = _
    rw [bind_eq, bind_eq, hothers, bind_eq]
    cases program rest <;> rfl

/-! ## Texts -/

/-- The program of a text is that of its tokens. -/
theorem parse_of_tokenize {source : String} {ts : List Token} (h : tokenize source = .ok ts) :
    parse source = match program ts with
      | .ok (p, _) => .ok p
      | .error r => .error (.parse r.error) := by
  obtain ⟨q, hending, rfl⟩ := tokenize_eq_ok_iff.1 h
  exact parse_eq_program hending

/-- A text is refused at a token that stands in a line of it. -/
theorem program_error_line {source : String} {ts : List Token}
    (htokens : tokenize source = .ok ts) {r : Refusal} (h : program ts = .error r) :
    ∃ t, r.error.token? = some t ∧ t.pos.line ≠ 0 := by
  have hend : ∃ t ∈ ts, t.kind = .endOfInput := by
    obtain ⟨q, -, rfl⟩ := tokenize_eq_ok_iff.1 htokens
    exact ⟨Token.eof q, by simp, rfl⟩
  obtain ⟨k, t, hk, ht⟩ := program_error_token hend h
  exact ⟨t, ht, tokenize_line htokens t (List.mem_of_getElem? hk)⟩

/-- The whole of a program and a text on a new line after it is read as the
    program, and then the tokens of the text further down. -/
theorem parse_append_line {s t : String} {p : List Node} {ts : List Token}
    (hs : parse s = .ok p) (ht : tokenize t = .ok ts)
    (helse : (next ts).is .keyword "else" = false) (hsemi : (next ts).is .symbol ";" = false) :
    parse (s ++ "\n" ++ t) =
      match program (ts.map (Token.move (Position.lower (s.toList.count '\n' + 1)))) with
      | .ok (q, _) => .ok (p ++ q)
      | .error r => .error (.parse r.error) := by
  obtain ⟨⟨pos, hending⟩, d, hyield, hread, hnest, rfl⟩ := exists_derivation_of_parse hs
  rw [parse_of_tokenize (tokenize_sequel hending ht), ← hyield,
    program_append (leaves_moved _ helse hsemi) d hread hnest, bind_eq]
  cases program (ts.map (Token.move (Position.lower (s.toList.count '\n' + 1)))) <;> rfl

/-- **What follows a program on a new line is read as it is alone**, unless it
    starts with an `else` or a `;`.  If it is a program, the whole is the two
    programs in a row, and otherwise the whole is no program either and is
    refused at the same token, as many lines further down as the first text
    takes. -/
theorem parse_sequel {s t : String} {p : List Node} {ts : List Token} (hs : parse s = .ok p)
    (ht : tokenize t = .ok ts) (helse : (next ts).is .keyword "else" = false)
    (hsemi : (next ts).is .symbol ";" = false) :
    (∀ r, parse (s ++ "\n" ++ t) = .ok r ↔ ∃ q, parse t = .ok q ∧ r = p ++ q) ∧
    ∀ e, parse t = .error (.parse e) → ∃ e' u u', parse (s ++ "\n" ++ t) = .error (.parse e') ∧
      e.token? = some u ∧ e'.token? = some u' ∧ u.same u' = true ∧
      u'.pos.line = u.pos.line + 1 + s.toList.count '\n' := by
  have hg : Position.lower (s.toList.count '\n' + 1) ⟨0, 0⟩ = ⟨0, 0⟩ := rfl
  rw [parse_append_line hs ht helse hsemi, parse_of_tokenize ht]
  cases h : program ts with
  | ok o =>
    obtain ⟨q, rest⟩ := o
    rw [program_move_ok hg h]
    constructor
    · intro r
      simp [eq_comm]
    · rintro e he
      cases he
  | error r =>
    obtain ⟨u, hu, hline⟩ := program_error_line ht h
    rw [program_move_error hg h]
    constructor
    · simp
    · rintro e he
      cases he
      refine ⟨_, u, _, rfl, hu, by rw [relabelError_token?, hu]; rfl, ?_, ?_⟩
      · simp [Token.same, Token.move]
      · simp only [Token.move, Position.lower, if_neg hline]
        omega

/-- A branch that could take an `else`, and what may follow it on a third
    line. -/
theorem parse_sequel_branch :
    (∀ r, parse ("if (a)\n b;" ++ "\n" ++ "c") = .ok r ↔ ∃ q, parse "c" = .ok q ∧
      r = [.cond (.var "a") (.expr (.var "b")) .absent] ++ q) ∧
    ∃ e e' u u', parse "c" = .error (.parse e) ∧
      parse ("if (a)\n b;" ++ "\n" ++ "c") = .error (.parse e') ∧
      e.token? = some u ∧ e'.token? = some u' ∧ u.same u' = true ∧
      u.pos.line = 1 ∧ u'.pos.line = 3 := by
  have hbranch : tokenize "if (a)\n b;" = .ok [⟨.keyword, "if", ⟨1, 1⟩⟩, ⟨.symbol, "(", ⟨1, 4⟩⟩,
      ⟨.identifier, "a", ⟨1, 5⟩⟩, ⟨.symbol, ")", ⟨1, 6⟩⟩, ⟨.identifier, "b", ⟨2, 2⟩⟩,
      ⟨.symbol, ";", ⟨2, 3⟩⟩, Token.eof ⟨2, 4⟩] := tokenize_of_toOption (by decide +kernel)
  have hname : tokenize "c" = .ok [⟨.identifier, "c", ⟨1, 1⟩⟩, Token.eof ⟨1, 2⟩] :=
    tokenize_of_toOption (by decide +kernel)
  have hs : parse "if (a)\n b;" = .ok [.cond (.var "a") (.expr (.var "b")) .absent] := by
    rw [parse_of_tokenize hbranch]
    rfl
  have ht : parse "c" = .error (.parse (.expectedSymbol ";" (Token.eof ⟨1, 2⟩))) := by
    rw [parse_of_tokenize hname]
    rfl
  obtain ⟨hok, herror⟩ := parse_sequel hs hname rfl rfl
  obtain ⟨e', u, u', hwhole, hu, hu', hsame, hline⟩ := herror _ ht
  cases hu
  exact ⟨hok, _, e', _, u', ht, hwhole, rfl, hu', hsame, rfl, hline⟩

end Descent

end BlockScript
