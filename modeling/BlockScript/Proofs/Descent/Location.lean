/-
  BlockScript — recursive descent refuses the first token that fits nowhere.

  The token that a refusal names is neither refused too early nor too late: the
  tokens in front of it begin a program, and together with it they begin none.

  * `parseTokens_error_located`: this, with the place where reading stopped.
-/
import BlockScript.Proofs.Descent
import BlockScript.Proofs.Descent.Viable

namespace BlockScript.Descent

open Grammar

/-- Tokens with an end token after them hold one. -/
theorem exists_end_mem_withEnd (ts : List Token) : ∃ t ∈ withEnd ts, t.kind = .endOfInput := by
  unfold withEnd
  split
  · next h =>
    obtain ⟨t, ht, hend⟩ := (Option.any_eq_true _ _).1 h
    exact ⟨t, List.mem_of_getLast? ht, of_decide_eq_true hend⟩
  · exact ⟨Token.eof ⟨0, 0⟩, by simp, rfl⟩

/-- Statements that nest within the limit are accepted. -/
theorem StmtsTokens.accepted {ts : List Token} (h : StmtsTokens maxNesting ts) :
    ∃ p, (parseTokens ts).result = .ok p := by
  obtain ⟨ss, rfl, hread, hnest⟩ := h
  have hyield : ss.yield = beforeEnd ss.yield := by
    conv => rhs; rw [← List.append_nil ss.yield]
    exact (beforeEnd_append ss.yield_noEnd rfl).symm
  exact ⟨_, (result_of_derivation ss hyield hread).1 hnest⟩

/-- The offending token has been taken, or it is the first one left. -/
theorem Refusal.rest_length (f : Refusal) :
    f.onwards.length = f.rest.length ∨ f.onwards.length = f.rest.length + 1 := by
  unfold Refusal.onwards
  split
  · exact Or.inr rfl
  · split
    · exact Or.inl rfl
    · exact Or.inr rfl
  · exact Or.inl rfl

/-- **Refusals are located at the first point of failure**: the named token is
    one of those given, the tokens in front of it begin a program that is
    accepted, and no tokens are accepted that begin with them and it.  Reading
    stopped right in front of this token or right after it. -/
theorem parseTokens_error_located (ts : List Token) (e : ParseError)
    (h : (parseTokens ts).result = .error e) :
    ∃ k t, (withEnd ts)[k]? = some t ∧ e.token? = some t ∧
      (∃ more p, (parseTokens ((withEnd ts).take k ++ more)).result = .ok p) ∧
      (∀ us p, (withEnd ts).take (k + 1) <+: withEnd us → (parseTokens us).result ≠ .ok p) ∧
      ((parseTokens ts).taken = k ∨ (parseTokens ts).taken = k + 1) := by
  cases hprogram : program (withEnd ts) with
  | ok r =>
    simp only [parseTokens, hprogram] at h
    cases h
  | error f =>
    simp only [parseTokens, hprogram] at h ⊢
    cases h
    obtain ⟨taken, htaken, htoken, more, hmore⟩ := program_fails _ hprogram
    obtain ⟨taken', htaken', hlocal⟩ := (program_local _).error hprogram
    obtain rfl : taken = taken' := List.append_cancel_right (htaken.symm.trans htaken')
    -- an end token is left, so there is an offending token
    obtain ⟨t, post, hpost⟩ : ∃ t post, f.onwards = t :: post := by
      obtain ⟨ss, hyield, -⟩ := hmore
      obtain ⟨s, hs, hend⟩ := exists_end_mem_withEnd ts
      cases hf : f.onwards with
      | cons t post => exact ⟨t, post, rfl⟩
      | nil =>
        rw [htaken, hf, List.append_nil] at hs
        exact absurd hend (ss.yield_noEnd s (by rw [hyield]; exact List.mem_append_left _ hs))
    rw [hpost] at htaken htoken hlocal
    refine ⟨taken.length, t, ?_, htoken, ?_, ?_, ?_⟩
    · rw [htaken]
      simp
    · rw [htaken, List.take_left]
      exact ⟨more, hmore.accepted⟩
    · rintro us p ⟨post', hus⟩ hp
      have hstart : (withEnd ts).take (taken.length + 1) = taken ++ [t] := by
        rw [htaken, List.take_length_add_append]
        rfl
      rw [hstart, List.append_assoc, List.singleton_append] at hus
      obtain ⟨f', hf', -⟩ := hlocal (t :: post') rfl
      rw [hus] at hf'
      simp only [hf'] at hp
      cases hp
    · have hlength := f.rest_length
      rw [hpost] at hlength
      simp only [htaken, List.length_append, List.length_cons] at hlength ⊢
      omega

/-- The tokens of `{ print x y; }`. -/
def strayName : List Token :=
  [⟨.symbol, "\x7b", ⟨1, 1⟩⟩, ⟨.keyword, "print", ⟨1, 3⟩⟩, ⟨.identifier, "x", ⟨1, 9⟩⟩,
    ⟨.identifier, "y", ⟨1, 11⟩⟩, ⟨.symbol, ";", ⟨1, 12⟩⟩, ⟨.symbol, "\x7d", ⟨1, 14⟩⟩]

/-- The second name is refused, since a `;` had to come. -/
theorem parseTokens_error_located_strayName :
    (parseTokens strayName).result =
        .error (.expectedSymbol ";" ⟨.identifier, "y", ⟨1, 11⟩⟩) ∧
      ∃ k, (withEnd strayName)[k]? = some ⟨.identifier, "y", ⟨1, 11⟩⟩ ∧
        (∃ more p, (parseTokens ((withEnd strayName).take k ++ more)).result = .ok p) ∧
        (∀ us p, (withEnd strayName).take (k + 1) <+: withEnd us →
          (parseTokens us).result ≠ .ok p) ∧
        ((parseTokens strayName).taken = k ∨ (parseTokens strayName).taken = k + 1) := by
  have h : (parseTokens strayName).result =
      .error (.expectedSymbol ";" ⟨.identifier, "y", ⟨1, 11⟩⟩) := rfl
  obtain ⟨k, t, hk, ht, hrest⟩ := parseTokens_error_located strayName _ h
  cases ht
  exact ⟨h, k, hk, hrest⟩

end BlockScript.Descent
