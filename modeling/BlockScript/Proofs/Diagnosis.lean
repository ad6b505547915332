/-
  BlockScript — the two ways of parsing refuse a text at the same place.

  Recursive descent cuts the whole text into tokens first and reads numbers on
  its way; the package stops cutting where it refuses a token, and reads numbers
  at the end.  Still, both blame the same token.

  * `FirstUnreadable t ts`: the number that cannot be read, the first one;
  * `parse_eq_program`: what recursive descent reports;
  * `parseWith_of_expects`: the token in whose place something else was expected
    is the one that the package refuses;
  * `parse_of_firstUnreadable`: the number that the package reports is the one
    that recursive descent comes to;
  * `diagnoses_agree`: whatever text is refused, the two reports fit together.
-/
import Mathlib
import BlockScript.Proofs.Agreement
import BlockScript.Proofs.Descent.Relabel

namespace BlockScript

open Pushdown (Derived)

/-! ## Unreadable numbers -/

namespace Grammar

/-- The token is a number that cannot be read, and all those in front of it
    can. -/
def FirstUnreadable (t : Token) (ts : List Token) : Prop :=
  ∃ pre post, ts = pre ++ t :: post ∧ Readable pre ∧ t.kind = .number ∧ readNumber? t.text = none

theorem FirstUnreadable.not_readable {t : Token} {ts : List Token} (h : FirstUnreadable t ts) :
    ¬ Readable ts := by
  obtain ⟨pre, post, rfl, -, hkind, hnone⟩ := h
  intro hread
  have hsome := hread t (by simp) hkind
  rw [hnone] at hsome
  cases hsome

theorem firstUnreadable_of_eq_some {t : Token} {ts : List Token} (h : unreadable? ts = some t) :
    FirstUnreadable t ts := by
  obtain ⟨ht, pre, post, rfl, hpre⟩ := List.find?_eq_some_iff_append.1 h
  simp only [isUnreadable, Bool.and_eq_true, decide_eq_true_eq, Option.isNone_iff_eq_none] at ht
  refine ⟨pre, post, rfl, unreadable?_eq_none.1 ?_, ht.1, ht.2⟩
  exact List.find?_eq_none.2 fun u hu => by simpa using hpre u hu

end Grammar

open Grammar

/-! ## What recursive descent reports -/

namespace Descent

/-- Recursive descent reads the tokens of a text, up to an end token. -/
theorem parse_eq_program {source : String} {p : Position} (h : (scan source).ending = .ok p) :
    parse source = match program ((scan source).tokens ++ [Token.eof p]) with
      | .ok (nodes, _) => .ok nodes
      | .error g => .error (.parse g.error) := by
  have hwith : withEnd ((scan source).tokens ++ [Token.eof p]) =
      (scan source).tokens ++ [Token.eof p] := by
    simp [withEnd, Token.isEnd, Token.eof]
  simp only [parse, tokenize, h, parseTokens, hwith]
  cases program ((scan source).tokens ++ [Token.eof p]) <;> rfl

theorem program_of_parse_error {source : String} {e : ParseError}
    (h : parse source = .error (.parse e)) :
    ∃ p g, (scan source).ending = .ok p ∧
      program ((scan source).tokens ++ [Token.eof p]) = .error g ∧ g.error = e := by
  cases hending : (scan source).ending with
  | error e' => simp [parse, tokenize, hending] at h
  | ok p =>
    rw [parse_eq_program hending] at h
    split at h
    · cases h
    · rename_i g hg
      cases h
      exact ⟨p, g, rfl, hg, rfl⟩

end Descent

/-- The failure says what had to come in the place of the token. -/
def ParseError.Expects (e : ParseError) (t : Token) : Prop :=
  e = .expectedExpression t ∨ ∃ text, e = .expectedSymbol text t

/-- The wording for a token that is refused, whatever had to come. -/
def refusalText (t : Token) : String :=
  if t.isEnd then "unexpected end of input"
  else "unexpected token " ++ quoted t.lexeme ++ " at " ++ Nat.repr t.pos.line ++ ":" ++
    Nat.repr t.pos.column

namespace Descent

theorem not_expects_of_derived {d : Stmts} {rest : List Token} {g : Refusal} {t : Token}
    (h : program (d.yield ++ rest) = .error g) (hend : (next rest).isEnd = true) :
    ¬ g.error.Expects t := by
  rintro (ht | ⟨text, ht⟩) <;>
  rcases program_expects_none d hend h with ⟨u, hu⟩ | ⟨u, hu⟩ <;>
  · rw [ht] at hu
    cases hu

/-- The tokens of a text up to the one that is refused, which is one of them or
    the end token. -/
theorem split_at_refusal {ts taken onwards : List Token} {p : Position}
    (h : ts ++ [Token.eof p] = taken ++ onwards) (hnoEnd : ∀ t ∈ taken, t.kind ≠ .endOfInput) :
    (ts = taken ∧ onwards = [Token.eof p]) ∨
      ∃ t post, ts = taken ++ t :: post ∧ onwards = t :: (post ++ [Token.eof p]) := by
  rcases List.append_eq_append_iff.1 h with ⟨us, rfl, hus⟩ | ⟨us, rfl, hus⟩
  · cases us with
    | nil => exact Or.inl ⟨by simp, hus.symm⟩
    | cons u us =>
      rw [List.cons_append] at hus
      obtain rfl : Token.eof p = u := (List.cons.inj hus).1
      exact absurd rfl (hnoEnd (Token.eof p) (by simp))
  · cases us with
    | nil => exact Or.inl ⟨by simp, by simpa using hus⟩
    | cons t post => exact Or.inr ⟨t, post, rfl, hus⟩

/-- The token in whose place something else was expected is the first one that
    no program goes on with. -/
theorem parseWith_of_expects {P : Lark.Package}
    (hP : P.Follows Lark.programGrammar Lark.programCallbacks) {source : String} {e : ParseError}
    {t : Token} (h : parse source = .error (.parse e)) (ht : e.Expects t) :
    ∃ e', Lark.parseWith P source = .error (.source (.parse e')) ∧ e'.message = refusalText t := by
  obtain ⟨p, g, hending, hprogram, rfl⟩ := program_of_parse_error h
  obtain ⟨taken, htaken, htoken, more, d, hyield, -⟩ := program_fails _ hprogram
  obtain ⟨taken', htaken', hlocal⟩ := (program_local _).error hprogram
  obtain rfl : taken = taken' := List.append_cancel_right (htaken.symm.trans htaken')
  have hnext : next g.onwards = t := by
    rcases ht with ht | ⟨text, ht⟩ <;>
    · rw [ht] at htoken
      exact (Option.some.inj htoken).symm
  -- the tokens in front of the refused one begin a program
  have hviable : Viable Derived taken := ⟨more, d, hyield⟩
  have hnoEnd : ∀ u ∈ taken, u.kind ≠ .endOfInput := fun u hu =>
    d.yield_noEnd u (by rw [hyield]; exact List.mem_append_left _ hu)
  rcases split_at_refusal htaken hnoEnd with ⟨htokens, honwards⟩ | ⟨u, post, htokens, honwards⟩
  · obtain rfl : Token.eof p = t := by rw [honwards] at hnext; exact hnext
    have hend : ¬ Derived (scan source).tokens := by
      rintro ⟨d', hd'⟩
      rw [← hd'] at hprogram
      exact not_expects_of_derived hprogram rfl ht
    exact ⟨.unexpectedEnd, Lark.parseWith_of_unfinished hP hending (htokens ▸ hviable) hend, rfl⟩
  · obtain rfl : u = t := by rw [honwards] at hnext; exact hnext
    have hstop : ¬ Viable Derived (taken ++ [u]) := by
      rintro ⟨more', d', hd'⟩
      obtain ⟨g', hg', herror⟩ := hlocal (u :: (more' ++ [Token.eof p])) (by rw [honwards]; rfl)
      have htext : taken ++ u :: (more' ++ [Token.eof p]) = d'.yield ++ [Token.eof p] := by
        simp [hd']
      rw [htext] at hg'
      rw [← herror] at ht
      exact not_expects_of_derived hg' rfl ht
    have huend : u.isEnd = false := by
      have hu := scan_noEnd source u (by rw [htokens]; simp)
      simp only [Token.isEnd, hu, decide_false]
    refine ⟨_, Lark.parseWith_of_refused hP htokens hviable hstop, ?_⟩
    rw [refusalText, huend]
    exact u.pos.append_text _

/-- A number is refused only if it cannot be read. -/
theorem not_readable_of_malformed {d : Stmts} {rest taken onwards : List Token} {g : Refusal}
    {u : Token} (hprogram : program (d.yield ++ rest) = .error g)
    (hend : (next rest).isEnd = true) (hg : g.error = .malformedNumber u)
    (htaken : d.yield ++ rest = taken ++ g.onwards) (hread : Readable taken)
    (honwards : g.onwards = u :: onwards) : ¬ Readable [u] := by
  intro hu
  obtain ⟨taken', htaken', hlocal⟩ := (program_local _).error hprogram
  obtain rfl : taken = taken' := List.append_cancel_right (htaken.symm.trans htaken')
  have hkeep : taken.map legible = taken := by
    conv => rhs; rw [← List.map_id taken]
    exact List.map_congr_left fun t ht => legible_of_readable (hread t ht)
  -- with all numbers behind it readable, the number is refused as before
  obtain ⟨g', hg', hsame⟩ := hlocal (g.onwards.map legible) (by
    rw [honwards, List.map_cons, legible_of_readable (hu u (List.mem_singleton_self u))]
    rfl)
  rw [← hkeep, ← List.map_append, ← htaken] at hg'
  obtain ⟨t, ht⟩ := program_legible_error d hend hg'
  rw [hsame, hg] at ht
  cases ht

/-- The number that recursive descent refuses is the first unreadable one. -/
theorem malformed_eq_first {d : Stmts} {rest : List Token} {g : Refusal} {u t : Token}
    (hprogram : program (d.yield ++ rest) = .error g) (hend : (next rest).isEnd = true)
    (hg : g.error = .malformedNumber u) (hfirst : FirstUnreadable t d.yield) : u = t := by
  obtain ⟨taken, htaken, htoken, more, -, -, hread, -⟩ := program_fails _ hprogram
  have htakenRead := (readable_append.1 hread).1
  obtain ⟨rest', honwards⟩ : ∃ rest', g.onwards = u :: rest' := by
    simp only [Refusal.onwards, hg]
    exact ⟨_, rfl⟩
  have hu := not_readable_of_malformed hprogram hend hg htaken htakenRead honwards
  obtain ⟨pre, post, hyield, hpre, hkind, hnone⟩ := hfirst
  rw [hyield, honwards, List.append_assoc, List.cons_append] at htaken
  rcases List.append_eq_append_iff.1 htaken with ⟨us, rfl, hus⟩ | ⟨us, rfl, hus⟩
  · cases us with
    | nil => exact (List.cons.inj hus).1.symm
    | cons s us =>
      -- the first unreadable number has been read
      obtain rfl : t = s := (List.cons.inj hus).1
      have htaken : FirstUnreadable t (pre ++ t :: us) := ⟨pre, us, rfl, hpre, hkind, hnone⟩
      exact absurd htakenRead htaken.not_readable
  · cases us with
    | nil => exact (List.cons.inj hus).1
    | cons s us =>
      -- a number in front of it has been refused
      obtain rfl : u = s := (List.cons.inj hus).1
      refine absurd (fun s hs hk => ?_) hu
      rw [List.mem_singleton.1 hs] at hk ⊢
      exact hpre u (by simp) hk

/-- The number that the machine reports is the one that recursive descent
    comes to, unless the nesting is too deep before. -/
theorem parse_of_firstUnreadable {source : String} {p : Position} {t : Token}
    (hending : (scan source).ending = .ok p) (hfirst : FirstUnreadable t (scan source).tokens)
    (hderived : Derived (scan source).tokens) :
    parse source = .error (.parse (.malformedNumber t)) ∨
      ∃ u, parse source = .error (.parse (.nestedTooDeeply u)) := by
  obtain ⟨d, hd⟩ := hderived
  cases hprogram : program ((scan source).tokens ++ [Token.eof p]) with
  | ok r =>
    have hok : parse source = .ok r.1 := by rw [parse_eq_program hending, hprogram]
    obtain ⟨-, d', hd', hread, -⟩ := exists_derivation_of_parse hok
    exact absurd (hd' ▸ hread) hfirst.not_readable
  | error g =>
    have herror : parse source = .error (.parse g.error) := by
      rw [parse_eq_program hending, hprogram]
    rw [← hd] at hprogram
    rcases program_expects_none d rfl hprogram with ⟨u, hu⟩ | ⟨u, hu⟩
    · exact Or.inr ⟨u, by rw [herror, hu]⟩
    · refine Or.inl ?_
      rw [← hd] at hfirst
      rw [herror, hu, malformed_eq_first hprogram rfl hu hfirst]

end Descent

/-! ## Both reports -/

/-- Where the package finds no token, the scanner finds none. -/
theorem tokenize_of_parseWith {P : Lark.Package}
    (hP : P.Follows Lark.programGrammar Lark.programCallbacks) {source : String} {e : LexError}
    (h : Lark.parseWith P source = .error (.source (.lex e))) : tokenize source = .error e := by
  have houtcome := hP.outcome source
  rw [h] at houtcome
  cases houtcome with
  | stopped he =>
    rw [Lark.refusal?] at he
    split at he
    · cases he
    · cases hending : (scan source).ending with
      | ok p => simp [hending] at he
      | error e' =>
        simp only [hending, Option.some.injEq, SourceError.lex.injEq] at he
        simp only [tokenize, hending, he]

/-- A number is reported once all of the text has been parsed. -/
theorem firstUnreadable_of_parseWith {P : Lark.Package}
    (hP : P.Follows Lark.programGrammar Lark.programCallbacks) {source : String} {t : Token}
    (h : Lark.parseWith P source = .error (.source (.parse (.malformedNumber t)))) :
    (∃ p, (scan source).ending = .ok p) ∧ FirstUnreadable t (scan source).tokens ∧
      Derived (scan source).tokens := by
  have houtcome := hP.outcome source
  rw [h] at houtcome
  cases houtcome with
  | malformed d hyield hending ht =>
    exact ⟨⟨_, hending⟩, hyield ▸ firstUnreadable_of_eq_some ht, d, hyield⟩
  | stopped he =>
    rw [Lark.refusal?] at he
    split at he
    · cases he
    · cases hending : (scan source).ending <;> simp [hending] at he

/-- **The two ways of parsing refuse alike.**  Where the package finds no token,
    the scanner finds none.  Where recursive descent expects something else than
    a token, the package refuses this token.  A number that the package cannot
    read is the one that recursive descent refuses, unless it refuses the
    nesting. -/
theorem diagnoses_agree {P : Lark.Package}
    (hP : P.Follows Lark.programGrammar Lark.programCallbacks) (source : String) :
    (∀ e, Lark.parseWith P source = .error (.source (.lex e)) → tokenize source = .error e ∧
      ((∃ p, e = .unterminatedString p ∧ e.message =
          "unterminated string literal at " ++ Nat.repr p.line ++ ":" ++ Nat.repr p.column) ∨
        ∃ c p, e = .unexpectedCharacter c p ∧ e.message = "unexpected character " ++
          quoted (String.ofList [c]) ++ " at " ++ Nat.repr p.line ++ ":" ++ Nat.repr p.column)) ∧
    (∀ e t, Descent.parse source = .error (.parse e) → e.Expects t →
      ∃ e', Lark.parseWith P source = .error (.source (.parse e')) ∧
        e'.message = refusalText t) ∧
    (∀ t, Lark.parseWith P source = .error (.source (.parse (.malformedNumber t))) →
      (Descent.parse source = .error (.parse (.malformedNumber t)) ∧
        (ParseError.malformedNumber t).message = "malformed number literal " ++ quoted t.text ++
          " at " ++ Nat.repr t.pos.line ++ ":" ++ Nat.repr t.pos.column) ∨
        ∃ u, Descent.parse source = .error (.parse (.nestedTooDeeply u))) := by
  refine ⟨fun e h => ⟨tokenize_of_parseWith hP h, ?_⟩,
    fun e t h ht => Descent.parseWith_of_expects hP h ht, fun t h => ?_⟩
  · cases e with
    | unterminatedString p =>
      exact Or.inl ⟨p, rfl, p.append_text _⟩
    | unexpectedCharacter c p =>
      exact Or.inr ⟨c, p, rfl, p.append_text _⟩
  · obtain ⟨⟨p, hending⟩, hfirst, hderived⟩ := firstUnreadable_of_parseWith hP h
    refine (Descent.parse_of_firstUnreadable hending hfirst hderived).imp_left fun h => ⟨h, ?_⟩
    exact t.pos.append_text _

set_option maxRecDepth 10000 in
/-- A numeral that begins no name, an operator of no program on a line of its
    own, and a number with two points. -/
theorem diagnoses_agree_refused :
    tokenize "x ²" = .error (.unexpectedCharacter '²' ⟨1, 3⟩) ∧
    (∃ e, Lark.parseWith Pushdown.package "print \"\n\"\n&& b;" = .error (.source (.parse e)) ∧
      e.message = "unexpected token '&&' at 3:1") ∧
    ((Descent.parse "x = 1.2.3;" =
        .error (.parse (.malformedNumber ⟨.number, "1.2.3", ⟨1, 5⟩⟩)) ∧
      (ParseError.malformedNumber ⟨.number, "1.2.3", ⟨1, 5⟩⟩).message =
        "malformed number literal '1.2.3' at 1:5") ∨
      ∃ u, Descent.parse "x = 1.2.3;" = .error (.parse (.nestedTooDeeply u))) := by
  have hlex : Pushdown.parse "x ²" = .error (.lex (.unexpectedCharacter '²' ⟨1, 3⟩)) := by cbv
  have hexpected : Descent.parse "print \"\n\"\n&& b;" =
      .error (.parse (.expectedSymbol ";" ⟨.operator, "&&", ⟨3, 1⟩⟩)) := by cbv
  have hnumber : Pushdown.parse "x = 1.2.3;" =
      .error (.parse (.malformedNumber ⟨.number, "1.2.3", ⟨1, 5⟩⟩)) := by cbv
  obtain ⟨e, he, hmessage⟩ := (diagnoses_agree Pushdown.package_follows _).2.1 _ _ hexpected
    (Or.inr ⟨";", rfl⟩)
  refine ⟨((diagnoses_agree Pushdown.package_follows _).1 _
    (Pushdown.parse_eq_error_iff.1 hlex)).1, ⟨e, he, ?_⟩, ?_⟩
  · rw [hmessage]
    decide
  · refine ((diagnoses_agree Pushdown.package_follows _).2.2 _
      (Pushdown.parse_eq_error_iff.1 hnumber)).imp_left fun h => ⟨h.1, ?_⟩
    rw [h.2]
    decide

end BlockScript
