/-
  BlockScript — JSON values without parts, read where they were written.

  A string is read back whatever its characters are.  Of a number only this is
  shown: how it is read does not depend on a comma or a line end after it, and
  its text has none of the characters that lay out a document.

  * `readString_written`: a string up to its closing quote;
  * `readAtom_append`: a number in front of a delimiter;
  * `ReadsBack`: the text of a number is read as that number.
-/
import BlockScript.Json.Writer
import BlockScript.Proofs.Json.Strings

namespace BlockScript

/-! ## Strings -/

/-- The digits of a control character's escape, and their value. -/
theorem hexDigits_control : ∀ n < 0x20,
    hexDigits 4 n = ['0', '0', Nat.digitChar (n / 16), Nat.digitChar (n % 16)] ∧
      hexQuad? '0' '0' (Nat.digitChar (n / 16)) (Nat.digitChar (n % 16)) = some n := by
  decide

/-- One character inside a string. -/
theorem readUnits_jsonChar (done : List Nat) (c : Char) (rest : List Char) :
    readUnits done (jsonChar c ++ rest) = readUnits (c.toNat :: done) rest := by
  unfold jsonChar
  -- the escapes of one letter
  iterate 7
    split
    · subst_vars
      rfl
  split
  · rename_i hcontrol
    obtain ⟨hdigits, hvalue⟩ := hexDigits_control c.toNat hcontrol
    rw [hdigits]
    simp only [List.cons_append, List.nil_append, readUnits, hvalue]
  · rename_i hquote hslash _ _ _ _ _ hcontrol
    rw [List.singleton_append, readUnits]
    · simp [hslash, hcontrol]
    all_goals simp_all

/-- The code units of a written string are those of its characters. -/
theorem readUnits_written (cs : List Char) (done : List Nat) (rest : List Char) :
    readUnits done (cs.flatMap jsonChar ++ '"' :: rest) =
      .ok (done.reverse ++ cs.map Char.toNat, rest) := by
  induction cs generalizing done with
  | nil => simp [readUnits]
  | cons c cs ih =>
    rw [List.flatMap_cons, List.append_assoc, readUnits_jsonChar, ih]
    simp

theorem not_surrogate (c : Char) : ¬ (0xd800 ≤ c.toNat ∧ c.toNat < 0xe000) := by
  rcases c.valid with h | h
  · have : c.toNat < 0xd800 := h
    omega
  · have : 0xdfff < c.toNat := h.1
    omega

theorem CodePoint.ofNat_toNat (c : Char) : CodePoint.ofNat c.toNat = .char c := by
  rw [CodePoint.ofNat, dif_neg (not_surrogate c), Char.ofNat_toNat]

/-- Characters are no surrogates, so their code units are kept apart. -/
theorem joinUnits_toNat (cs : List Char) :
    joinUnits (cs.map Char.toNat) = cs.map CodePoint.char := by
  induction cs with
  | nil => rfl
  | cons c cs ih =>
    cases cs with
    | nil => simp [joinUnits, CodePoint.ofNat_toNat]
    | cons d cs =>
      have hhigh : ¬ (0xd800 ≤ c.toNat ∧ c.toNat < 0xdc00 ∧ 0xdc00 ≤ d.toNat ∧
          d.toNat < 0xe000) := by
        have := not_surrogate c
        omega
      simp only [List.map_cons] at ih
      simp only [List.map_cons, joinUnits, if_neg hhigh, ih, CodePoint.ofNat_toNat]

theorem readString_written (s : String) (rest : List Char) :
    readString (s.toList.flatMap jsonChar ++ '"' :: rest) = .ok (.of s, rest) := by
  rw [readString, readUnits_written]
  simp [joinUnits_toNat, Text.of]

theorem jsonString_toList (s : String) :
    (jsonString s).toList = '"' :: (s.toList.flatMap jsonChar ++ ['"']) := by
  simp [jsonString]

/-- A quote starts no word. -/
theorem readAtom_string (s : String) (rest : List Char) :
    readAtom ((jsonString s).toList ++ rest) = .ok (.str (.of s), rest) := by
  have hword : ∀ cs, readWord? ('"' :: cs) = none := by
    intro cs
    simp [readWord?, jsonWords, afterWord?]
  have hread := readString_written s rest
  rw [jsonString_toList, List.cons_append, List.append_assoc, List.singleton_append, readAtom,
    hword]
  simp only [hread]
  rfl

/-! ## Words and numbers in front of a delimiter -/

/-- What may follow a value in a written text. -/
inductive Delimited : List Char → Prop where
  | nothing : Delimited []
  | comma (rest : List Char) : Delimited (',' :: rest)
  | lineEnd (rest : List Char) : Delimited ('\n' :: rest)

/-- A span leaves an end of the text, and does not look beyond a delimiter. -/
structure Confined (span : List Char → List Char × List Char) : Prop where
  suffix : ∀ cs, (span cs).2 <:+ cs
  append : ∀ cs {more}, Delimited more → span (cs ++ more) = ((span cs).1, (span cs).2 ++ more)

theorem confined_spanDigits : Confined spanDigits where
  suffix cs := List.dropWhile_suffix isJsonDigit
  append cs more hmore := by
    induction cs with
    | nil => cases hmore <;> rfl
    | cons c cs ih =>
      simp only [spanDigits, Prod.mk.injEq] at ih
      cases hc : isJsonDigit c <;> simp [spanDigits, hc, ih]

theorem confined_spanInteger : Confined spanInteger where
  suffix cs := by
    unfold spanInteger
    split
    · exact List.suffix_cons _ _
    · exact confined_spanDigits.suffix cs
  append cs more hmore := by
    cases cs with
    | nil => cases hmore <;> rfl
    | cons c cs =>
      by_cases hc : c = '0'
      · subst hc
        rfl
      · have happend := confined_spanDigits.append (c :: cs) hmore
        simp only [List.cons_append] at happend
        simp [spanInteger, hc, happend]

theorem confined_spanFraction : Confined spanFraction where
  suffix cs := by
    unfold spanFraction
    split
    · rename_i rest
      have hsuffix := (confined_spanDigits.suffix rest).trans (List.suffix_cons '.' rest)
      split
      · exact List.suffix_refl _
      · rename_i hdigits
        rwa [hdigits] at hsuffix
    · exact List.suffix_refl _
  append cs more hmore := by
    cases cs with
    | nil => cases hmore <;> rfl
    | cons c cs =>
      by_cases hc : c = '.'
      · subst hc
        have happend := confined_spanDigits.append cs hmore
        rcases hdigits : spanDigits cs with ⟨_ | ⟨d, ds⟩, after⟩
        all_goals
          rw [hdigits] at happend
          simp [spanFraction, hdigits, happend]
      · simp [spanFraction, hc]

theorem confined_spanSign : Confined spanSign where
  suffix cs := by
    unfold spanSign
    split
    · exact List.suffix_cons _ _
    · exact List.suffix_cons _ _
    · exact List.suffix_refl _
  append cs more hmore := by
    cases cs with
    | nil => cases hmore <;> rfl
    | cons c cs =>
      simp only [List.cons_append]
      unfold spanSign
      split <;> simp_all

theorem confined_spanPower : Confined spanPower where
  suffix cs := by
    cases cs with
    | nil => exact List.suffix_refl _
    | cons c rest =>
      rw [spanPower]
      split
      · have hsuffix := ((confined_spanDigits.suffix _).trans
          (confined_spanSign.suffix rest)).trans (List.suffix_cons c rest)
        dsimp only
        split
        · exact List.suffix_refl _
        · rename_i hdigits
          rwa [hdigits] at hsuffix
      · exact List.suffix_refl _
  append cs more hmore := by
    cases cs with
    | nil => cases hmore <;> rfl
    | cons c cs =>
      rw [List.cons_append, spanPower, spanPower]
      split
      · have hsign := confined_spanSign.append cs hmore
        have happend := confined_spanDigits.append (spanSign cs).2 hmore
        rw [hsign]
        rcases hdigits : spanDigits (spanSign cs).2 with ⟨_ | ⟨d, ds⟩, after⟩
        all_goals
          rw [hdigits] at happend
          simp [hdigits, happend]
      · rfl

theorem readNumber_append (negative : Bool) (cs : List Char) {more : List Char}
    (hmore : Delimited more) :
    readNumber negative (cs ++ more) =
      (readNumber negative cs).map fun (v, rest) => (v, rest ++ more) := by
  simp only [readNumber, confined_spanInteger.append cs hmore]
  rcases spanInteger cs with ⟨_ | ⟨d, whole⟩, rest⟩
  · rfl
  · simp only [confined_spanFraction.append rest hmore,
      confined_spanPower.append (spanFraction rest).2 hmore]
    split
    · cases integerOf negative (d :: whole) <;> rfl
    · cases unsignedDecimal? negative (d :: whole ++ (spanFraction rest).1 ++
          (spanPower (spanFraction rest).2).1) <;> rfl

theorem suffix_of_readNumber {negative : Bool} {cs rest : List Char} {v : Raw}
    (h : readNumber negative cs = .ok (v, rest)) : rest <:+ cs := by
  have hinteger := confined_spanInteger.suffix cs
  rw [readNumber] at h
  split at h
  · cases h
  · rename_i whole after _ hspan
    rw [hspan] at hinteger
    have hsuffix := ((confined_spanPower.suffix _).trans
      (confined_spanFraction.suffix after)).trans hinteger
    simp only at h
    split at h
    · cases hvalue : integerOf negative whole with
      | error e => simp [hvalue, Except.map] at h
      | ok n =>
        rw [hvalue] at h
        cases h
        exact hsuffix
    · split at h
      · cases h
        exact hsuffix
      · cases h

theorem afterWord?_append {more : List Char} (hmore : Delimited more) :
    ∀ (word cs : List Char), ',' ∉ word → '\n' ∉ word →
      afterWord? word (cs ++ more) = (afterWord? word cs).map (· ++ more)
  | [], cs, _, _ => by simp [afterWord?]
  | w :: word, [], hcomma, hline => by
    simp only [List.mem_cons, not_or] at hcomma hline
    cases hmore with
    | nothing => rfl
    | comma rest => simp [afterWord?, Ne.symm hcomma.1]
    | lineEnd rest => simp [afterWord?, Ne.symm hline.1]
  | w :: word, c :: cs, hcomma, hline => by
    simp only [List.mem_cons, not_or] at hcomma hline
    simp only [List.cons_append, afterWord?]
    split
    · exact afterWord?_append hmore word cs hcomma.2 hline.2
    · rfl

theorem suffix_of_afterWord? : ∀ {word cs rest : List Char}, afterWord? word cs = some rest →
    rest <:+ cs
  | [], cs, rest, h => by
    cases h
    exact List.suffix_refl _
  | w :: word, [], rest, h => by simp [afterWord?] at h
  | w :: word, c :: cs, rest, h => by
    rw [afterWord?] at h
    split at h
    · exact (suffix_of_afterWord? h).trans (List.suffix_cons c cs)
    · cases h

theorem readWord?_append (cs : List Char) {more : List Char} (hmore : Delimited more) :
    readWord? (cs ++ more) = (readWord? cs).map fun (v, rest) => (v, rest ++ more) := by
  have hwords : ∀ entry ∈ jsonWords, ',' ∉ entry.1.toList ∧ '\n' ∉ entry.1.toList := by
    simp [jsonWords]
  rw [readWord?, readWord?]
  generalize jsonWords = words at hwords
  induction words with
  | nil => rfl
  | cons entry words ih =>
    obtain ⟨hcomma, hline⟩ := hwords entry List.mem_cons_self
    have hrest := ih fun entry hentry => hwords entry (List.mem_cons_of_mem _ hentry)
    simp only [List.findSome?_cons, afterWord?_append hmore entry.1.toList cs hcomma hline]
    cases afterWord? entry.1.toList cs with
    | none => exact hrest
    | some rest => rfl

theorem suffix_of_readWord? {cs rest : List Char} {v : Raw} (h : readWord? cs = some (v, rest)) :
    rest <:+ cs := by
  obtain ⟨entry, -, hentry⟩ := List.exists_of_findSome?_eq_some h
  obtain ⟨after, hafter, heq⟩ := Option.map_eq_some_iff.1 hentry
  cases heq
  exact suffix_of_afterWord? hafter

/-- **A word or a number is read the same in front of a delimiter.** -/
theorem readAtom_append {c : Char} {cs more : List Char} (hc : c ≠ '"') (hmore : Delimited more) :
    readAtom (c :: cs ++ more) =
      (readAtom (c :: cs)).map fun (v, rest) => (v, rest ++ more) := by
  unfold readAtom
  rw [readWord?_append (c :: cs) hmore]
  cases readWord? (c :: cs) with
  | some reading => rfl
  | none =>
    by_cases hsign : c = '-'
    · subst hsign
      exact readNumber_append true cs hmore
    · have hnumber := readNumber_append false (c :: cs) hmore
      simpa [hc, hsign] using hnumber

theorem suffix_of_readAtom {c : Char} {cs rest : List Char} {v : Raw} (hc : c ≠ '"')
    (h : readAtom (c :: cs) = .ok (v, rest)) : rest <:+ c :: cs := by
  unfold readAtom at h
  split at h
  · rename_i reading hword
    cases h
    exact suffix_of_readWord? hword
  · split at h
    · rename_i heq
      cases heq
      exact absurd rfl hc
    · rename_i heq
      cases heq
      exact (suffix_of_readNumber h).trans (List.suffix_cons _ _)
    · exact suffix_of_readNumber h

/-! ## The texts of numbers -/

/-- The characters of the texts of numbers. -/
def writesNumber (c : Char) : Bool :=
  c.isDigit || "+-.INaefinty".toList.contains c

theorem writesNumber_toDigits (n : Nat) : ∀ c ∈ Nat.toDigits 10 n, writesNumber c = true := by
  intro c hc
  have hdigit := Nat.isDigit_of_mem_toDigits (by decide) (by decide) hc
  simp [writesNumber, hdigit]

theorem writesNumber_significantDigits (d : Decimal) :
    ∀ c ∈ d.significantDigits, writesNumber c = true := by
  intro c hc
  rw [Decimal.significantDigits, List.mem_reverse] at hc
  have hmem := (List.dropWhile_suffix _).subset hc
  exact writesNumber_toDigits d.digits c (List.mem_reverse.1 hmem)

theorem writesNumber_zeros (n : Nat) : ∀ c ∈ List.replicate n '0', writesNumber c = true := by
  intro c hc
  rw [List.eq_of_mem_replicate hc]
  decide

section

variable {ds : List Char} (hds : ∀ c ∈ ds, writesNumber c = true)
include hds

theorem writesNumber_positional (place : Int) :
    ∀ c ∈ positional ds place, writesNumber c = true := by
  have hfirst : ∀ n, ∀ c ∈ ds.take n, writesNumber c = true :=
    fun n c hc => hds c (List.mem_of_mem_take hc)
  have hlast : ∀ n, ∀ c ∈ ds.drop n, writesNumber c = true :=
    fun n c hc => hds c (List.mem_of_mem_drop hc)
  have hsigns : writesNumber '0' = true ∧ writesNumber '.' = true := by decide
  unfold positional
  dsimp only
  split
  · simp only [List.forall_mem_append, List.forall_mem_cons]
    exact ⟨⟨⟨hsigns.1, hsigns.2, by simp⟩, writesNumber_zeros _⟩, hds⟩
  · split
    · simp only [List.forall_mem_append, List.forall_mem_cons]
      exact ⟨hfirst _, hsigns.2, hlast _⟩
    · simp only [List.forall_mem_append, List.forall_mem_cons]
      exact ⟨⟨hds, writesNumber_zeros _⟩, hsigns.2, hsigns.1, by simp⟩

theorem writesNumber_scientific (width : Nat) (place : Int) :
    ∀ c ∈ scientific width ds place, writesNumber c = true := by
  have hfirst : ∀ c ∈ ds.take 1, writesNumber c = true :=
    fun c hc => hds c (List.mem_of_mem_take hc)
  have hlast : ∀ c ∈ ds.drop 1, writesNumber c = true :=
    fun c hc => hds c (List.mem_of_mem_drop hc)
  have hpower : ∀ c ∈ powerOfTen width (place - 1), writesNumber c = true := by
    simp only [powerOfTen, List.cons_append, List.forall_mem_append, List.forall_mem_cons]
    refine ⟨by decide, ?_, writesNumber_zeros _, writesNumber_toDigits _⟩
    split <;> decide
  unfold scientific
  simp only [List.forall_mem_append]
  refine ⟨⟨hfirst, ?_⟩, hpower⟩
  split
  · simp
  · exact List.forall_mem_cons.2 ⟨by decide, hlast⟩

end

theorem writesNumber_magnitude (layout : NumberLayout) (d : Decimal) :
    ∀ c ∈ layout.magnitude d, writesNumber c = true := by
  unfold NumberLayout.magnitude
  split
  · exact List.all_eq_true.1 (by decide)
  · split
    · exact writesNumber_positional (writesNumber_significantDigits d) d.place
    · exact writesNumber_scientific (writesNumber_significantDigits d) _ d.place

/-- The text of a number has no other characters. -/
theorem writesNumber_stored (x : Float) :
    ∀ c ∈ (NumberLayout.stored.text x).toList, writesNumber c = true := by
  have hsigned : ∀ (negative : Bool) (s : String), (∀ c ∈ s.toList, writesNumber c = true) →
      ∀ c ∈ (if negative then "-" ++ s else s).toList, writesNumber c = true := by
    intro negative s hs
    cases negative with
    | false => exact hs
    | true =>
      have hminus : "-".toList = ['-'] := rfl
      simp only [if_true, String.toList_append, hminus, List.singleton_append]
      exact List.forall_mem_cons.2 ⟨by decide, hs⟩
  unfold NumberLayout.text
  dsimp only
  split
  · refine hsigned _ _ ?_
    rw [String.toList_ofList]
    exact writesNumber_magnitude _ _
  · exact hsigned _ _ (List.all_eq_true.1 (by decide))
  · exact List.all_eq_true.1 (by decide)

/-- **The text of the number is read as that number.** -/
def ReadsBack (x : Float) : Prop :=
  Json.read (Json.write (.float x)) = .ok (.float x)

instance (x : Float) : Decidable (ReadsBack x) :=
  match h : Json.read (Json.write (.float x)) with
  | .ok (.float y) =>
    if hy : y.toBits.toNat = x.toBits.toNat then
      .isTrue (by rw [ReadsBack, h, eq_of_toBits hy])
    else .isFalse (by
      intro hx
      rw [ReadsBack, h] at hx
      cases hx
      exact hy rfl)
  | .ok .null | .ok (.bool _) | .ok (.int _) | .ok (.str _) | .ok (.arr _) | .ok (.obj _)
  | .error _ => .isFalse (by simp [ReadsBack, h])

theorem ne_of_writesNumber {c d : Char} (hc : writesNumber c = true)
    (hd : writesNumber d = false) : c ≠ d := by
  rintro rfl
  rw [hc] at hd
  cases hd

theorem isJsonBlank_of_writesNumber {c : Char} (hc : writesNumber c = true) :
    isJsonBlank c = false := by
  have hspace := ne_of_writesNumber hc (show writesNumber ' ' = false by decide)
  have htab := ne_of_writesNumber hc (show writesNumber '\t' = false by decide)
  have hline := ne_of_writesNumber hc (show writesNumber '\n' = false by decide)
  have hreturn := ne_of_writesNumber hc (show writesNumber '\r' = false by decide)
  simp [isJsonBlank, hspace, htab, hline, hreturn]

theorem skipBlanks_cons {c : Char} {cs : List Char} (h : isJsonBlank c = false) :
    skipBlanks (c :: cs) = c :: cs := by
  simp [skipBlanks, h]

theorem readValue_atom {c : Char} {cs : List Char} {n : Nat} (hlist : c ≠ '[')
    (hobj : c ≠ '\x7b') : readValue (n + 1) (c :: cs) = readAtom (c :: cs) := by
  rw [readValue]
  all_goals simp_all

/-- An empty text is not read. -/
theorem ReadsBack.text_eq_cons {x : Float} (h : ReadsBack x) :
    ∃ c cs, (NumberLayout.stored.text x).toList = c :: cs ∧ writesNumber c = true := by
  have hchars := writesNumber_stored x
  cases htext : (NumberLayout.stored.text x).toList with
  | nil =>
    rw [ReadsBack, Json.read_eq_ok_iff, Json.write, Json.writeAt, Raw.read, htext] at h
    cases h
  | cons c cs => exact ⟨c, cs, rfl, hchars c (by simp [htext])⟩

/-- All of a number's text is read. -/
theorem ReadsBack.readAtom_text {x : Float} (h : ReadsBack x) :
    readAtom (NumberLayout.stored.text x).toList = .ok (.float x, []) := by
  have hchars := writesNumber_stored x
  obtain ⟨c, cs, htext, hc⟩ := h.text_eq_cons
  rw [ReadsBack, Json.read_eq_ok_iff, Json.write, Json.writeAt, Raw.read, readJsonChars] at h
  rw [htext] at h hchars ⊢
  rw [skipBlanks_cons (isJsonBlank_of_writesNumber hc),
    readValue_atom (ne_of_writesNumber hc (by decide)) (ne_of_writesNumber hc (by decide))] at h
  split at h
  · cases h
  · rename_i v rest hread
    -- what is left of the text would have to be blanks, and it has none
    have hsuffix := suffix_of_readAtom (ne_of_writesNumber hc (by decide)) hread
    split at h
    · rename_i hblank
      cases h
      cases rest with
      | nil => exact hread
      | cons d rest =>
        have hd := hchars d (hsuffix.subset List.mem_cons_self)
        rw [skipBlanks_cons (isJsonBlank_of_writesNumber hd)] at hblank
        cases hblank
    · cases h

/-- A number is read back in front of a delimiter. -/
theorem ReadsBack.readAtom_text_append {x : Float} (h : ReadsBack x) {rest : List Char}
    (hrest : Delimited rest) :
    readAtom ((NumberLayout.stored.text x).toList ++ rest) = .ok (.float x, rest) := by
  have hread := h.readAtom_text
  obtain ⟨c, cs, htext, hc⟩ := h.text_eq_cons
  rw [htext] at hread ⊢
  rw [readAtom_append (ne_of_writesNumber hc (by decide)) hrest, hread]
  rfl

end BlockScript
