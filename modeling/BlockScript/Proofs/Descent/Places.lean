/-
  BlockScript — the places of tokens are only told, never used.

  Recursive descent goes the same way wherever its tokens stand.  A refusal
  tells the place of its token, but which token it is does not hang on places,
  not even where several tokens are given the same one.

  * `Token.move g`, `program_move_ok`, `program_move_error`: tokens that are
    moved are read alike;
  * `numbered`, `placesOf`: tokens at places that are all different, from which
    they can be moved to any others;
  * `program_error_token`: a refused token is one of those given;
  * `parse_ignores_layout`: tokens that differ in their places only, and texts
    that differ in their blanks only, are read alike.
-/
import BlockScript.Proofs.Descent.Location
import BlockScript.Proofs.Descent.Relabel
import BlockScript.Proofs.Rendering

namespace BlockScript

/-- A token at another place. -/
def Token.move (g : Position → Position) (t : Token) : Token :=
  { t with pos := g t.pos }

theorem Token.same_iff {s t : Token} : s.same t = true ↔ s.form = t.form := by
  simp [Token.same, Token.form]

/-- The tokens of a text, as computed. -/
theorem tokenize_of_toOption {source : String} {ts : List Token}
    (h : (tokenize source).toOption = some ts) : tokenize source = .ok ts := by
  cases htokens : tokenize source with
  | error e =>
    rw [htokens] at h
    cases h
  | ok us =>
    rw [htokens] at h
    exact congrArg _ (Option.some.inj h)

namespace Descent

open Grammar

/-! ## Tokens at other places -/

section Move

variable {g : Position → Position} (hg : g ⟨0, 0⟩ = ⟨0, 0⟩)
include hg

theorem move_relabels : Relabels (Token.move g) where
  kind _ := rfl
  text _ _ := rfl
  fallback := by simp [Token.move, Token.eof, hg]

theorem program_move_ok {ts rest : List Token} {p : List Node} (h : program ts = .ok (p, rest)) :
    program (ts.map (Token.move g)) = .ok (p, rest.map (Token.move g)) := by
  have hfollows := program_blind (move_relabels hg) ts
  rw [h] at hfollows
  generalize program (ts.map (Token.move g)) = o at hfollows ⊢
  cases hfollows
  rfl

theorem program_move_error {ts : List Token} {r : Refusal} (h : program ts = .error r) :
    program (ts.map (Token.move g)) =
      .error ⟨relabelError (Token.move g) r.error, r.rest.map (Token.move g)⟩ := by
  have hfollows := program_blind (move_relabels hg) ts
  rw [h] at hfollows
  generalize program (ts.map (Token.move g)) = o at hfollows ⊢
  cases hfollows with
  | error e rest => rfl
  | malformed htext rest other => exact absurd rfl htext

end Move

theorem relabelError_token? (f : Token → Token) (e : ParseError) :
    (relabelError f e).token? = e.token?.map f := by
  cases e <;> rfl

/-! ## Numbered tokens -/

/-- The tokens at places that count them. -/
def numbered (ts : List Token) : List Token :=
  ts.mapIdx fun i t => { t with pos := ⟨i + 1, 0⟩ }

/-- The place of the token that has the number, in a list of tokens. -/
def placesOf (us : List Token) (p : Position) : Position :=
  match p.line with
  | 0 => p
  | i + 1 => (us[i]?.map Token.pos).getD p

/-- Numbered tokens can be moved to any places. -/
theorem map_move_numbered {ts us : List Token} (h : ts.map Token.form = us.map Token.form) :
    (numbered ts).map (Token.move (placesOf us)) = us := by
  apply List.ext_getElem?
  intro i
  have hi : ts[i]?.map Token.form = us[i]?.map Token.form := by
    rw [← List.getElem?_map, h, List.getElem?_map]
  rw [List.getElem?_map, numbered, List.getElem?_mapIdx]
  cases ht : ts[i]? <;> cases hu : us[i]? <;> rw [ht, hu] at hi
  case none.none => rfl
  case some.some t u =>
    obtain ⟨hkind, htext⟩ := Prod.mk.inj (Option.some.inj hi)
    simp [Token.move, placesOf, hu, hkind, htext]
  all_goals cases hi

theorem numbered_length (ts : List Token) : (numbered ts).length = ts.length :=
  List.length_mapIdx

theorem exists_end_mem_numbered (ts : List Token) :
    ∃ t ∈ numbered (withEnd ts), t.kind = .endOfInput := by
  obtain ⟨t, ht, hkind⟩ := exists_end_mem_withEnd ts
  rw [← map_move_numbered (rfl : (withEnd ts).map Token.form = _)] at ht
  obtain ⟨s, hs, rfl⟩ := List.mem_map.1 ht
  exact ⟨s, hs, hkind⟩

theorem withEnd_form {ts us : List Token} (h : ts.map Token.form = us.map Token.form) :
    (withEnd ts).map Token.form = (withEnd us).map Token.form := by
  have hlast : ∀ l : List Token, l.getLast?.any Token.isEnd =
      (l.map Token.form).getLast?.any fun form => form.1 = .endOfInput := by
    intro l
    rw [List.getLast?_map]
    cases l.getLast? <;> rfl
  unfold withEnd
  rw [hlast, hlast, h]
  split
  · exact h
  · rw [List.map_append, List.map_append, h]

/-- A refused token is one of those given, if there is an end token. -/
theorem program_error_token {ts : List Token} (hend : ∃ t ∈ ts, t.kind = .endOfInput)
    {r : Refusal} (h : program ts = .error r) :
    ∃ (k : Nat) (t : Token), ts[k]? = some t ∧ r.error.token? = some t := by
  obtain ⟨taken, htaken, htoken, more, ss, hyield, -⟩ := program_fails ts h
  cases honwards : r.onwards with
  | cons t post =>
    rw [honwards] at htaken htoken
    exact ⟨taken.length, t, by rw [htaken]; simp, htoken⟩
  | nil =>
    obtain ⟨t, ht, hkind⟩ := hend
    rw [htaken, honwards, List.append_nil] at ht
    exact absurd hkind (ss.yield_noEnd t (by rw [hyield]; exact List.mem_append_left _ ht))

/-! ## Layouts -/

/-- The tokens are refused at the one with the index. -/
def RefusedAt (k : Nat) (ts : List Token) : Prop :=
  ∃ e t, (parseTokens ts).result = .error e ∧ (withEnd ts)[k]? = some t ∧ e.token? = some t

section Numbered

variable {ts us : List Token} (hsame : sameTokens ts us = true)
include hsame

theorem withEnd_eq_moved :
    withEnd us = (numbered (withEnd ts)).map (Token.move (placesOf (withEnd us))) :=
  (map_move_numbered (withEnd_form (sameTokens_iff.1 hsame))).symm

/-- Tokens are accepted as the numbered ones of the same kinds and texts are. -/
theorem parseTokens_of_numbered_ok {p : List Node} {rest : List Token}
    (h : program (numbered (withEnd ts)) = .ok (p, rest)) :
    (parseTokens us).result = .ok p ∧
      (parseTokens us).taken = (withEnd ts).length - rest.length := by
  have hmoved := program_move_ok (g := placesOf (withEnd us)) rfl h
  rw [← withEnd_eq_moved hsame] at hmoved
  have hlength := congrArg List.length (withEnd_eq_moved hsame)
  rw [List.length_map, numbered_length] at hlength
  simp only [parseTokens, hmoved, List.length_map, hlength, and_self]

/-- Tokens are refused as the numbered ones of the same kinds and texts are. -/
theorem parseTokens_of_numbered_error {r : Refusal} {k : Nat} {t : Token}
    (h : program (numbered (withEnd ts)) = .error r) (hk : (numbered (withEnd ts))[k]? = some t)
    (ht : r.error.token? = some t) :
    RefusedAt k us ∧ (parseTokens us).taken = (withEnd ts).length - r.rest.length := by
  have hmoved := program_move_error (g := placesOf (withEnd us)) rfl h
  rw [← withEnd_eq_moved hsame] at hmoved
  have hlength := congrArg List.length (withEnd_eq_moved hsame)
  rw [List.length_map, numbered_length] at hlength
  have hget := congrArg (·[k]?) (withEnd_eq_moved hsame)
  simp only [List.getElem?_map, hk, Option.map_some] at hget
  constructor
  · refine ⟨relabelError (Token.move (placesOf (withEnd us))) r.error, _, ?_, hget, ?_⟩
    · simp only [parseTokens, hmoved]
    · rw [relabelError_token?, ht]
      rfl
  · simp only [parseTokens, hmoved, List.length_map, hlength]

/-- Tokens of the same kinds and texts that are refused at the same index are
    refused at the same token. -/
theorem RefusedAt.same {k : Nat} (h : RefusedAt k ts) (h' : RefusedAt k us) :
    ∃ e e' t t', (parseTokens ts).result = .error e ∧ (parseTokens us).result = .error e' ∧
      e.token? = some t ∧ e'.token? = some t' ∧ t.same t' = true := by
  obtain ⟨e, t, hresult, hk, ht⟩ := h
  obtain ⟨e', t', hresult', hk', ht'⟩ := h'
  refine ⟨e, e', t, t', hresult, hresult', ht, ht', Token.same_iff.2 ?_⟩
  have hform := congrArg (·[k]?) (withEnd_form (sameTokens_iff.1 hsame))
  simp only [List.getElem?_map, hk, hk', Option.map_some, Option.some.injEq] at hform
  exact hform

end Numbered

/-- Tokens of given kinds and texts are read alike wherever they stand. -/
theorem parseTokens_ignores_places (ts : List Token) :
    (∃ p, ∀ us, sameTokens ts us = true →
      (parseTokens us).result = .ok p ∧ (parseTokens us).taken = (parseTokens ts).taken) ∨
    ∃ k, ∀ us, sameTokens ts us = true →
      RefusedAt k us ∧ (parseTokens us).taken = (parseTokens ts).taken := by
  have hrefl : sameTokens ts ts = true := sameTokens_iff.2 rfl
  cases h : program (numbered (withEnd ts)) with
  | ok r =>
    obtain ⟨p, rest⟩ := r
    refine Or.inl ⟨p, fun us hsame => ?_⟩
    obtain ⟨hresult, htaken⟩ := parseTokens_of_numbered_ok hsame h
    exact ⟨hresult, htaken.trans (parseTokens_of_numbered_ok hrefl h).2.symm⟩
  | error r =>
    obtain ⟨k, t, hk, ht⟩ := program_error_token (exists_end_mem_numbered ts) h
    refine Or.inr ⟨k, fun us hsame => ?_⟩
    obtain ⟨hrefused, htaken⟩ := parseTokens_of_numbered_error hsame h hk ht
    exact ⟨hrefused, htaken.trans (parseTokens_of_numbered_error hrefl h hk ht).2.symm⟩

/-- **Layout never affects parsing.**  Tokens of given kinds and texts are read
    alike wherever they stand: all as one program, or all refused at the token
    with one index; and reading always stops after as many of them.  So the
    tokens of a text, written with single blanks between them, are read as the
    text was: as the same program, or refused at the same token. -/
theorem parse_ignores_layout :
    (∀ ts : List Token,
      (∃ p, ∀ us, sameTokens ts us = true →
        (parseTokens us).result = .ok p ∧ (parseTokens us).taken = (parseTokens ts).taken) ∨
      ∃ k, ∀ us, sameTokens ts us = true →
        RefusedAt k us ∧ (parseTokens us).taken = (parseTokens ts).taken) ∧
    ∀ source ts, tokenize source = .ok ts →
      (∃ p, parse source = .ok p ∧ parse (render ts) = .ok p) ∨
        ∃ e e' t t', parse source = .error (.parse e) ∧
          parse (render ts) = .error (.parse e') ∧
          e.token? = some t ∧ e'.token? = some t' ∧ t.same t' = true := by
  refine ⟨parseTokens_ignores_places, fun source ts htokens => ?_⟩
  obtain ⟨us, htokens', hsame⟩ := (scannable_of_tokenize htokens).tokenize_render
  have hrefl : sameTokens ts ts = true := sameTokens_iff.2 rfl
  rcases parseTokens_ignores_places ts with ⟨p, hok⟩ | ⟨k, hrefused⟩
  · refine Or.inl ⟨p, ?_, ?_⟩
    · simp only [parse, htokens, (hok ts hrefl).1]
    · simp only [parse, htokens', (hok us hsame).1]
  · obtain ⟨e, e', t, t', he, he', htoken⟩ :=
      (hrefused ts hrefl).1.same hsame (hrefused us hsame).1
    refine Or.inr ⟨e, e', t, t', ?_, ?_, htoken⟩
    · simp only [parse, htokens, he]
    · simp only [parse, htokens', he']

/-- The tokens of `x ( (` at given places. -/
def strayParens (first second third : Position) : List Token :=
  [⟨.identifier, "x", first⟩, ⟨.symbol, "(", second⟩, ⟨.symbol, "(", third⟩]

/-- The first parenthesis is refused, also where the places do not tell it from
    the second one. -/
theorem parse_ignores_layout_strayParens :
    RefusedAt 1 (strayParens ⟨1, 1⟩ ⟨1, 1⟩ ⟨1, 1⟩) ∧
      RefusedAt 1 (strayParens ⟨1, 1⟩ ⟨2, 1⟩ ⟨3, 1⟩) ∧
      (parseTokens (strayParens ⟨1, 1⟩ ⟨2, 1⟩ ⟨3, 1⟩)).taken =
        (parseTokens (strayParens ⟨1, 1⟩ ⟨1, 1⟩ ⟨1, 1⟩)).taken ∧
      ∃ e e' t t', parse "x\n((" = .error (.parse e) ∧
        parse (render (strayParens ⟨1, 1⟩ ⟨2, 1⟩ ⟨2, 2⟩ ++ [Token.eof ⟨2, 3⟩])) =
          .error (.parse e') ∧
        e.token? = some t ∧ e'.token? = some t' ∧ t.same t' = true := by
  have hspread : (parseTokens (strayParens ⟨1, 1⟩ ⟨2, 1⟩ ⟨3, 1⟩)).result =
      .error (.expectedSymbol ";" ⟨.symbol, "(", ⟨2, 1⟩⟩) := rfl
  obtain ⟨hplaces, htexts⟩ := parse_ignores_layout
  rcases hplaces (strayParens ⟨1, 1⟩ ⟨1, 1⟩ ⟨1, 1⟩) with ⟨p, hok⟩ | ⟨k, hrefused⟩
  · cases hspread.symm.trans (hok _ (by decide)).1
  -- the places of the second list tell the index
  obtain ⟨hcrowded, -⟩ := hrefused (strayParens ⟨1, 1⟩ ⟨1, 1⟩ ⟨1, 1⟩) (by decide)
  obtain ⟨⟨e, t, he, hk, ht⟩, htaken⟩ := hrefused (strayParens ⟨1, 1⟩ ⟨2, 1⟩ ⟨3, 1⟩) (by decide)
  cases hspread.symm.trans he
  cases ht
  obtain rfl : k = 1 := by
    match k, hk with
    | 0, hk | 2, hk | 3, hk => cases hk
    | 1, _ => rfl
  refine ⟨hcrowded, ⟨_, _, he, hk, rfl⟩, htaken, ?_⟩
  have htokens : tokenize "x\n((" =
      .ok (strayParens ⟨1, 1⟩ ⟨2, 1⟩ ⟨2, 2⟩ ++ [Token.eof ⟨2, 3⟩]) :=
    tokenize_of_toOption (by decide +kernel)
  rcases htexts _ _ htokens with ⟨p, hp, -⟩ | hrefused'
  · simp only [parse, htokens] at hp
    cases hp
  · exact hrefused'

end Descent

end BlockScript
