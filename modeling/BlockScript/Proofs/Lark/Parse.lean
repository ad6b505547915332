/-
  BlockScript — what the package makes of a text.

  What is relied upon of the package decides what it answers on every text: the
  tokens of the text make a program, or there is a first one that no program
  goes on with, or no token comes behind them.

  * `scan_regular`: the tokens of a text are regular;
  * `not_logical_of_derivation`: no program has a `&&` or a `||`;
  * `viable_or_refused`: tokens begin a program, or there is a first one with
    which they do not;
  * `parse_cases`: the four answers.
-/
import BlockScript.Proofs.Lark.Lexing
import BlockScript.Proofs.Lark.Sentence
import BlockScript.Proofs.Pushdown.Complete

namespace BlockScript

open Grammar

/-! ## Tokens of a text -/

theorem punctuation?_kind {cs : List Char} {kind : TokenKind} (h : punctuation? cs = some kind) :
    (kind = .operator ∧ operators.contains (String.ofList cs) = true) ∨
      (kind = .symbol ∧ symbols.contains (String.ofList cs) = true) := by
  simp only [punctuation?] at h
  split at h
  · rename_i ho
    cases h
    exact Or.inl ⟨rfl, ho⟩
  · split at h <;> cases h
    rename_i hs
    exact Or.inr ⟨rfl, hs⟩

/-- A token cut from a text is no end token, and its kind follows from its
    text. -/
theorem cutLexeme_regular {c : Char} {rest after : List Char} {l : Lexeme}
    (h : cutLexeme c rest = some (l, after)) (p : Position) :
    l.kind ≠ .endOfInput ∧ Lark.Regular ⟨l.kind, l.text, p⟩ := by
  have hpunctuation : ∀ {cs : List Char} {kind : TokenKind}, punctuation? cs = some kind →
      kind ≠ .endOfInput ∧ Lark.Regular ⟨kind, (Lexeme.mk kind cs).text, p⟩ := by
    intro cs kind hk
    have hoperator : ∀ x ∈ operators, Lark.fixedKind x = .operator := by decide
    have hsymbol : ∀ x ∈ symbols, Lark.fixedKind x = .symbol := by decide
    rcases punctuation?_kind hk with ⟨rfl, hmem⟩ | ⟨rfl, hmem⟩
    · refine ⟨by decide, Lark.regular_of_kind fun _ => ?_⟩
      exact (hoperator _ (List.contains_iff_mem.1 hmem)).symm
    · refine ⟨by decide, Lark.regular_of_kind fun _ => ?_⟩
      exact (hsymbol _ (List.contains_iff_mem.1 hmem)).symm
  unfold cutLexeme at h
  split at h
  · split at h <;> cases h
    exact ⟨by simp, Lark.regular_of_kind (by simp)⟩
  · split at h
    · cases h
      exact ⟨by simp, Lark.regular_of_kind (by simp)⟩
    · split at h
      · cases h
        simp only [wordKind]
        split
        · rename_i hk
          refine ⟨by simp, Lark.regular_of_kind fun _ => ?_⟩
          exact (if_pos hk).symm
        · exact ⟨by simp, Lark.regular_of_kind (by simp)⟩
      · unfold cutPunctuation at h
        split at h
        · obtain ⟨kind, hk, hl⟩ := Option.map_eq_some_iff.1 h
          cases hl
          exact hpunctuation hk
        · split at h
          · rename_i hk
            cases h
            exact hpunctuation hk
          · obtain ⟨kind, hk, hl⟩ := Option.map_eq_some_iff.1 h
            cases hl
            exact hpunctuation hk

theorem scanFrom_regular : ∀ (p : Position) (cs : List Char),
    ∀ t ∈ (scanFrom p cs).tokens, t.kind ≠ .endOfInput ∧ Lark.Regular t
  | p, [] => by simp [scanFrom]
  | p, c :: rest => by
    rcases Bool.eq_false_or_eq_true (isBlank c) with hb | hb
    · rw [scanFrom, if_pos hb]
      exact scanFrom_regular (p.after c) rest
    · rw [scanFrom_cons hb]
      split
      · simp
      · rename_i l after hc
        have hlen := length_le_of_cutLexeme hc
        simp only [List.forall_mem_cons]
        exact ⟨cutLexeme_regular hc p, scanFrom_regular (p.afterAll l.chars) after⟩
termination_by _ cs => cs.length

/-- No token of a text is an end token. -/
theorem scan_noEnd (source : String) : ∀ t ∈ (scan source).tokens, t.kind ≠ .endOfInput :=
  fun t ht => (scanFrom_regular _ _ t ht).1

/-- The kind of every token of a text follows from its text. -/
theorem scan_regular (source : String) : AllRegular (scan source).tokens :=
  fun t ht => (scanFrom_regular _ _ t ht).2

/-! ## Operators of no program -/

namespace Pushdown

/-- The machine goes on with no `&&` and no `||`. -/
theorem step_logical (s : State) {t : Token} (h : Lark.isLogicalToken t = true) :
    s.step t = none := by
  simp only [Lark.isLogicalToken, Token.is, Bool.or_eq_true, Bool.and_eq_true,
    decide_eq_true_eq] at h
  have hk : t.kind = .operator := by
    rcases h with h | h <;> exact h.1
  have ht : t.text = "&&" ∨ t.text = "||" := h.imp And.right And.right
  have hstatement : ∀ outer, stepStatement outer t = none := by
    intro outer
    rcases ht with ht | ht <;> simp [stepStatement, stepOperand, atom?, Token.is, hk, ht]
  have hoperator : ∀ e pending purpose outer, stepOperator e pending purpose outer t = none := by
    intro e pending purpose outer
    rcases ht with ht | ht <;>
      simp [stepOperator, operatorPrecedence?, precedence?, Token.is, hk, ht]
  cases s with
  | statement outer => exact hstatement outer
  | named x outer => simp [State.step, hoperator, Token.is, hk]
  | opening purpose outer => simp [State.step, Token.is, hk]
  | operand pending purpose outer =>
    rcases ht with ht | ht <;> simp [State.step, stepOperand, atom?, Token.is, hk, ht]
  | operator e pending purpose outer => exact hoperator e pending purpose outer
  | closed c semicolon outer => simp [State.step, hstatement, Token.is, hk]

theorem not_logical_of_run {ts : List Token} : ∀ {s s' : State}, s.run ts = .ok s' →
    ∀ t ∈ ts, Lark.isLogicalToken t = false := by
  induction ts with
  | nil => simp
  | cons u us ih =>
    intro s s' h t ht
    rw [State.run] at h
    split at h
    · rename_i m hm
      rcases List.mem_cons.1 ht with rfl | ht
      · rw [Bool.eq_false_iff]
        intro hl
        rw [step_logical s hl] at hm
        cases hm
      · exact ih h t ht
    · cases h

end Pushdown

namespace Lark

open Descent (Viable)
open Pushdown (Derived programTree)

/-- No program has an operator that stands in no rule. -/
theorem not_logical_of_derivation (d : Stmts) : ∀ t ∈ d.yield, isLogicalToken t = false := by
  obtain ⟨s, hrun, -⟩ := Pushdown.run_clauses d
  exact Pushdown.not_logical_of_run hrun

theorem allowed_of_none {s : Scan} (h : ∀ t ∈ s.tokens, isLogicalToken t = false) :
    allowed s = s.tokens := by
  have happend : (s.tokens ++ []).takeWhile (fun t => !isLogicalToken t) = s.tokens ++ [] :=
    List.takeWhile_append_of_pos fun t ht => by simp [h t ht]
  rwa [List.append_nil] at happend

/-- The tokens of a text are those up to its end exactly if nothing is refused
    behind them. -/
theorem refusal?_eq_none {s : Scan} :
    refusal? s = none ↔ (∃ p, s.ending = .ok p) ∧ ∀ t ∈ s.tokens, isLogicalToken t = false := by
  have hfind : s.tokens.find? isLogicalToken = none ↔ ∀ t ∈ s.tokens, isLogicalToken t = false := by
    simp
  rw [← hfind, refusal?]
  cases s.tokens.find? isLogicalToken with
  | some t => simp
  | none => cases s.ending <;> simp

/-! ## Answers -/

/-- Tokens begin a program, or there is a first one with which they do not. -/
theorem viable_or_refused (ts : List Token) : Viable Derived ts ∨
    ∃ pre t post, ts = pre ++ t :: post ∧ Viable Derived pre ∧
      ¬ Viable Derived (pre ++ [t]) := by
  have hall : ∀ post pre : List Token, Viable Derived pre →
      Viable Derived (pre ++ post) ∨ ∃ pre' t post', pre ++ post = pre' ++ t :: post' ∧
        Viable Derived pre' ∧ ¬ Viable Derived (pre' ++ [t]) := by
    intro post
    induction post with
    | nil =>
      intro pre hpre
      rw [List.append_nil]
      exact Or.inl hpre
    | cons t post ih =>
      intro pre hpre
      by_cases ht : Viable Derived (pre ++ [t])
      · have h := ih (pre ++ [t]) ht
        rwa [List.append_assoc, List.singleton_append] at h
      · exact Or.inr ⟨pre, t, post, rfl, hpre, ht⟩
  exact hall ts [] (.of_mem ⟨.nil, rfl⟩)

theorem allowed_regular (source : String) : AllRegular (allowed (scan source)) :=
  fun t ht => scan_regular source t ((List.takeWhile_sublist _).subset ht)

theorem Stop.failure?_eq_none {source : String} {stop : Stop} :
    stop.failure? source = none ↔ stop = .finished := by
  cases stop <;> simp [Stop.failure?]

section Answers

variable {P : Package} (hP : P.Follows programGrammar programCallbacks) {source : String}

include hP

/-- A program is accepted, with its parse tree. -/
theorem parse_of_derivation (d : Stmts) (hyield : d.yield = (scan source).tokens) {p : Position}
    (hending : (scan source).ending = .ok p) : P.parse source = .ok (programTree d.clauses) := by
  have hlogical : ∀ t ∈ (scan source).tokens, isLogicalToken t = false :=
    hyield ▸ not_logical_of_derivation d
  obtain ⟨hleaves, hstop⟩ := hP.lexing_eq source
  rw [refusal?_eq_none.2 ⟨⟨p, hending⟩, hlogical⟩, Stop.failure?_eq_none] at hstop
  rw [allowed_of_none hlogical, ← hyield] at hleaves
  refine hP.accepts hstop ?_
  rw [hleaves]
  exact d.sentence

/-- A token that no program goes on with is refused. -/
theorem parse_of_refused {pre post : List Token} {t : Token}
    (hsplit : allowed (scan source) = pre ++ t :: post)
    (hpre : Viable Derived pre)
    (ht : ¬ Viable Derived (pre ++ [t])) :
    P.parse source = .error (.unexpectedLeaf (.ofToken t)) := by
  have hregular := allowed_regular source
  rw [hsplit] at hregular
  have hpreRegular : AllRegular pre := fun u hu => hregular u (List.mem_append_left _ hu)
  have htRegular : AllRegular (pre ++ [t]) := by
    intro u hu
    rw [List.mem_append, List.mem_singleton] at hu
    exact hregular u (by simp [hu.imp_right Or.inl])
  have hleaves : (P.lexing programGrammar programCallbacks source).leaves =
      leavesOf pre ++ .ofToken t :: leavesOf post := by
    rw [(hP.lexing_eq source).1, hsplit, List.map_append, List.map_cons]
  refine hP.refuses_leaf hleaves ((viable_iff hpreRegular).2 hpre) ?_
  have h := mt (viable_iff htRegular).1 ht
  rwa [leavesOf, List.map_append] at h

/-- Where no token comes behind those that begin a program, it is reported
    why. -/
theorem parse_of_stopped (hviable : Viable Derived (allowed (scan source)))
    {e : SourceError} (he : refusal? (scan source) = some e) :
    ∃ f, P.parse source = .error f ∧ f.report source = e := by
  obtain ⟨hleaves, hstop⟩ := hP.lexing_eq source
  have h : programGrammar.Viable (P.lexing programGrammar programCallbacks source).leaves := by
    rw [hleaves]
    exact (viable_iff (allowed_regular source)).2 hviable
  rw [he] at hstop
  cases hs : (P.lexing programGrammar programCallbacks source).stop with
  | finished =>
    rw [hs] at hstop
    cases hstop
  | unmatched c p offset =>
    rw [hs] at hstop
    exact ⟨_, hP.stops_unmatched hs h, Option.some.inj hstop⟩
  | raised e' =>
    rw [hs] at hstop
    exact ⟨_, hP.stops_raised hs h, Option.some.inj hstop⟩

/-- Where no program may end, the end is reported. -/
theorem parse_of_unfinished (hviable : Viable Derived (allowed (scan source)))
    (hnone : refusal? (scan source) = none) (hend : ¬ Derived (allowed (scan source))) :
    P.parse source = .error .unexpectedEnd := by
  obtain ⟨hleaves, hstop⟩ := hP.lexing_eq source
  rw [hnone, Stop.failure?_eq_none] at hstop
  have hregular := allowed_regular source
  refine hP.refuses_end hstop ?_ fun tree h => hend ?_
  · rw [hleaves]
    exact (viable_iff hregular).2 hviable
  · rw [hleaves] at h
    obtain ⟨d, hd, -⟩ := (sentence_iff hregular).1 h
    exact ⟨d, hd⟩

end Answers

/-- What a text may be answered with, and when. -/
inductive Answer (source : String) : Except Failure Tree → Prop where
  | accepted (d : Stmts) (hyield : d.yield = (scan source).tokens) {p : Position}
      (hending : (scan source).ending = .ok p) : Answer source (.ok (programTree d.clauses))
  /-- the first token that no program goes on with -/
  | refused {pre post : List Token} {t : Token} (hsplit : allowed (scan source) = pre ++ t :: post)
      (hpre : Viable Derived pre)
      (ht : ¬ Viable Derived (pre ++ [t])) :
      Answer source (.error (.unexpectedLeaf (.ofToken t)))
  | stopped {f : Failure} (hf : refusal? (scan source) = some (f.report source)) :
      Answer source (.error f)
  | unfinished : Answer source (.error .unexpectedEnd)

/-- **What a package that follows the grammar answers on a text.** -/
theorem Package.Follows.answer {P : Package} (hP : P.Follows programGrammar programCallbacks)
    (source : String) : Answer source (P.parse source) := by
  rcases viable_or_refused (allowed (scan source)) with
    hviable | ⟨pre, t, post, hsplit, hpre, ht⟩
  · cases hrefusal : refusal? (scan source) with
    | some e =>
      obtain ⟨f, hf, rfl⟩ := parse_of_stopped hP hviable hrefusal
      rw [hf]
      exact .stopped hrefusal
    | none =>
      by_cases hderived : Derived (allowed (scan source))
      · obtain ⟨d, hd⟩ := hderived
        obtain ⟨⟨p, hending⟩, hlogical⟩ := refusal?_eq_none.1 hrefusal
        rw [allowed_of_none hlogical] at hd
        rw [parse_of_derivation hP d hd hending]
        exact .accepted d hd hending
      · rw [parse_of_unfinished hP hviable hrefusal hderived]
        exact .unfinished
  · rw [parse_of_refused hP hsplit hpre ht]
    exact .refused hsplit hpre ht

end Lark

end BlockScript
