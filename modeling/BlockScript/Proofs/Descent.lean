/-
  BlockScript — recursive descent accepts exactly the grammar.

  * `beforeEnd ts`: the tokens in front of the first end token;
  * `parseTokens_eq_ok_iff`: a program is the result of parsing exactly if it
    is the tree of a derivation of these tokens in which all numbers can be
    read and at most 48 constructs are open at once; there is at most one
    derivation.
-/
import BlockScript.Proofs.Descent.Complete
import BlockScript.Proofs.Descent.Sound
import BlockScript.Proofs.Grammar.Unique

namespace BlockScript.Descent

open Grammar

/-- The tokens in front of the first end token. -/
def beforeEnd (ts : List Token) : List Token :=
  ts.takeWhile fun t => !t.isEnd

theorem beforeEnd_append {ts rest : List Token} (h : ∀ t ∈ ts, t.kind ≠ .endOfInput)
    (hend : (next rest).isEnd = true) : beforeEnd (ts ++ rest) = ts := by
  have hts : ∀ t ∈ ts, (!t.isEnd) = true := by
    intro t ht
    simpa [Token.isEnd] using h t ht
  rw [beforeEnd, List.takeWhile_append_of_pos hts]
  cases rest with
  | nil => simp
  | cons e rest =>
    have he : e.isEnd = true := hend
    simp [he]

theorem beforeEnd_noEnd (ts : List Token) : ∀ t ∈ beforeEnd ts, t.kind ≠ .endOfInput := by
  intro t ht
  simpa [Token.isEnd] using List.all_eq_true.1 List.all_takeWhile t ht

/-- What follows the tokens in front of the first end token starts with an end
    token. -/
theorem exists_end (ts us : List Token) (hend : (next us).isEnd = true) :
    ∃ rest, ts ++ us = beforeEnd ts ++ rest ∧ (next rest).isEnd = true := by
  induction ts with
  | nil => exact ⟨us, rfl, hend⟩
  | cons t ts ih =>
    by_cases ht : t.isEnd = true
    · exact ⟨t :: (ts ++ us), by simp [beforeEnd, ht], ht⟩
    · obtain ⟨rest, h, hrest⟩ := ih
      refine ⟨rest, ?_, hrest⟩
      simp only [beforeEnd, List.takeWhile_cons, ht] at h ⊢
      simp [h]

theorem withEnd_eq_append (ts : List Token) :
    ∃ rest, withEnd ts = beforeEnd ts ++ rest ∧ (next rest).isEnd = true := by
  unfold withEnd
  split
  · obtain ⟨rest, h, hrest⟩ := exists_end ts [] rfl
    exact ⟨rest, by rw [← h, List.append_nil], hrest⟩
  · exact exists_end ts _ rfl

/-- What recursive descent accepts has a derivation. -/
theorem exists_derivation_of_result {ts : List Token} {p : List Node}
    (h : (parseTokens ts).result = .ok p) :
    ∃ d : Stmts, d.yield = beforeEnd ts ∧ Readable d.yield ∧ d.nesting ≤ maxNesting ∧
      d.trees = p := by
  obtain ⟨rest, hwith, hend⟩ := withEnd_eq_append ts
  simp only [parseTokens] at h
  split at h
  · rename_i nodes rest' hprogram
    cases h
    obtain ⟨ss, hss, hend'⟩ := program_sound hprogram
    have hyield : beforeEnd ts = ss.yield := by
      rw [← beforeEnd_append (beforeEnd_noEnd ts) hend, ← hwith, hss.tokens,
        beforeEnd_append ss.yield_noEnd hend']
    exact ⟨ss, hyield.symm, hss.readable, hss.nesting, hss.trees⟩
  · cases h

/-- What the grammar derives is accepted, or refused for its depth. -/
theorem result_of_derivation {ts : List Token} (d : Stmts) (hyield : d.yield = beforeEnd ts)
    (hread : Readable d.yield) :
    (d.nesting ≤ maxNesting → (parseTokens ts).result = .ok d.trees) ∧
      (maxNesting < d.nesting → ∃ t, (parseTokens ts).result = .error (.nestedTooDeeply t)) := by
  obtain ⟨rest, hwith, hend⟩ := withEnd_eq_append ts
  have hreading := program_reading d hread hend
  rw [hyield, ← hwith] at hreading
  constructor
  · intro hn
    simp only [parseTokens, hreading.ok hn]
  · intro hn
    obtain ⟨t, rest', ht⟩ := hreading.tooDeep hn
    exact ⟨t, by simp only [parseTokens, ht]⟩

/-- **Recursive descent accepts exactly the grammar**: a program is the result
    of parsing if and only if it is the tree of a derivation of the tokens in
    front of the first end token, in which all numbers can be read and no place
    is enclosed by more than 48 constructs.  The derivation is unique. -/
theorem parseTokens_eq_ok_iff (ts : List Token) (p : List Node) :
    ((parseTokens ts).result = .ok p ↔
      ∃ d : Stmts, d.yield = beforeEnd ts ∧ Readable (beforeEnd ts) ∧ d.nesting ≤ 48 ∧
        d.trees = p) ∧
    ∀ d d' : Stmts, d.yield = beforeEnd ts → d'.yield = beforeEnd ts → d = d' := by
  refine ⟨?_, fun d d' h h' => Stmts.unique (h.trans h'.symm)⟩
  constructor
  · intro h
    obtain ⟨d, hyield, hread, hnest, htrees⟩ := exists_derivation_of_result h
    exact ⟨d, hyield, hyield ▸ hread, hnest, htrees⟩
  · rintro ⟨d, hyield, hread, hnest, rfl⟩
    exact (result_of_derivation d hyield (hyield ▸ hread)).1 hnest

end BlockScript.Descent
