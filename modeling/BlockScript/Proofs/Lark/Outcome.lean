/-
  BlockScript — what parsing with the package comes to.

  A text is parsed in two steps, and each can fail: the package answers with a
  tree or a failure, and a tree is walked.  Either way what comes out is a
  program, or a failure of the source text.

  * `Outcome source r`: what parsing a text may come to, and when;
  * `Package.Follows.outcome`: it comes to nothing else;
  * `parseWith_of_derivation`, `parseWith_of_refused`, `parseWith_of_unfinished`:
    what it comes to for given tokens.
-/
import BlockScript.Proofs.Lark.Parse
import BlockScript.Proofs.Lark.Walk

namespace BlockScript

open Grammar

namespace Lark

open Descent (Viable)
open Pushdown (Derived programTree)

/-- What parsing a text may come to, and when. -/
inductive Outcome (source : String) : Except Raised Item → Prop where
  | program (d : Stmts) (hyield : d.yield = (scan source).tokens) {p : Position}
      (hending : (scan source).ending = .ok p) (hread : Readable d.yield) :
      Outcome source (.ok (.program d.trees))
  /-- the first number that cannot be read -/
  | malformed (d : Stmts) (hyield : d.yield = (scan source).tokens) {p : Position}
      (hending : (scan source).ending = .ok p) {t : Token} (ht : unreadable? d.yield = some t) :
      Outcome source (.error (.source (.parse (.malformedNumber t))))
  | exhausted : Outcome source (.error (.source (.parse .treeTooDeep)))
  | refused (t : Token) :
      Outcome source (.error (.source (.parse (.unexpectedToken t.lexeme t.pos))))
  | stopped {e : SourceError} (he : refusal? (scan source) = some e) :
      Outcome source (.error (.source e))
  | unfinished : Outcome source (.error (.source (.parse .unexpectedEnd)))

section

variable {P : Package} (hP : P.Follows programGrammar programCallbacks) {source : String}

include hP

/-- The tree of a program is walked to it, or to the first number that cannot be
    read. -/
theorem parseWith_of_derivation (d : Stmts) (hyield : d.yield = (scan source).tokens)
    {p : Position} (hending : (scan source).ending = .ok p) :
    parseWith P source = .error (.source (.parse .treeTooDeep)) ∨
      parseWith P source = match unreadable? d.yield with
        | some t => .error (.source (.parse (.malformedNumber t)))
        | none => .ok (.program d.trees) := by
  simp only [parseWith, parse_of_derivation hP d hyield hending]
  rcases walked_program hP d with (h | h) | h
  · exact Or.inl (by rw [h]; rfl)
  · exact Or.inl (by rw [h]; rfl)
  · right
    rw [h, reading]
    cases unreadable? d.yield <;> rfl

/-- **Parsing a text comes to a program, or to a failure of the text.** -/
theorem Package.Follows.outcome (source : String) : Outcome source (parseWith P source) := by
  have hanswer := hP.answer source
  cases hparse : P.parse source with
  | ok tree =>
    rw [hparse] at hanswer
    cases hanswer with
    | accepted d hyield hending =>
      rcases parseWith_of_derivation hP d hyield hending with h | h
      · rw [h]
        exact .exhausted
      · rw [h]
        cases hread : unreadable? d.yield with
        | some t => exact .malformed d hyield hending hread
        | none => exact .program d hyield hending (unreadable?_eq_none.1 hread)
  | error f =>
    rw [parseWith, hparse]
    rw [hparse] at hanswer
    cases hanswer with
    | @refused pre post t hsplit hpre ht => exact .refused t
    | stopped hf => exact .stopped hf
    | unfinished => exact .unfinished

/-- The first token that no program goes on with is refused, also where it
    stands in no rule. -/
theorem parseWith_of_refused {pre post : List Token} {t : Token}
    (hsplit : (scan source).tokens = pre ++ t :: post) (hpre : Viable Derived pre)
    (ht : ¬ Viable Derived (pre ++ [t])) :
    parseWith P source = .error (.source (.parse (.unexpectedToken t.lexeme t.pos))) := by
  have hlogical : ∀ u ∈ pre, isLogicalToken u = false := by
    obtain ⟨more, d, hd⟩ := hpre
    intro u hu
    exact not_logical_of_derivation d u (by rw [hd]; exact List.mem_append_left _ hu)
  have hnot : ∀ u ∈ pre, (!isLogicalToken u) = true := fun u hu => by rw [hlogical u hu]; rfl
  cases hl : isLogicalToken t with
  | false =>
    have hallowed : allowed (scan source) =
        pre ++ t :: post.takeWhile fun t => !isLogicalToken t := by
      rw [allowed, hsplit, List.takeWhile_append_of_pos hnot, List.takeWhile_cons, hl]
      rfl
    rw [parseWith, parse_of_refused hP hallowed hpre ht]
    rfl
  | true =>
    have hallowed : allowed (scan source) = pre := by
      rw [allowed, hsplit, List.takeWhile_append_of_pos hnot, List.takeWhile_cons, hl]
      exact List.append_nil _
    have hrefusal : refusal? (scan source) =
        some (.parse (.unexpectedToken t.lexeme t.pos)) := by
      have hlexeme : t.lexeme = t.text := by
        simp only [isLogicalToken, Token.is, Bool.or_eq_true, Bool.and_eq_true,
          decide_eq_true_eq] at hl
        have hk : t.kind = .operator := by
          rcases hl with h | h <;> exact h.1
        simp [Token.lexeme, hk]
      have hfind : (scan source).tokens.find? isLogicalToken = some t := by
        rw [hsplit, List.find?_append, List.find?_eq_none.2 fun u hu => by simp [hlogical u hu],
          List.find?_cons, hl]
        rfl
      rw [refusal?, hfind, hlexeme]
    obtain ⟨f, hf, hreport⟩ := parse_of_stopped hP (hallowed ▸ hpre) hrefusal
    simp only [parseWith, hf, hreport]

/-- Where the tokens begin a program but are none, the end is reported. -/
theorem parseWith_of_unfinished {p : Position} (hending : (scan source).ending = .ok p)
    (hviable : Viable Derived (scan source).tokens) (hend : ¬ Derived (scan source).tokens) :
    parseWith P source = .error (.source (.parse .unexpectedEnd)) := by
  have hlogical : ∀ u ∈ (scan source).tokens, isLogicalToken u = false := by
    obtain ⟨more, d, hd⟩ := hviable
    intro u hu
    exact not_logical_of_derivation d u (by rw [hd]; exact List.mem_append_left _ hu)
  have hallowed := allowed_of_none hlogical
  have hnone := refusal?_eq_none.2 ⟨⟨p, hending⟩, hlogical⟩
  rw [parseWith, parse_of_unfinished hP (by rwa [hallowed]) hnone (by rwa [hallowed])]
  rfl

end

end Lark

end BlockScript
