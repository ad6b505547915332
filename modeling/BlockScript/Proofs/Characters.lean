/-
  BlockScript — classes of characters, and what the scanner makes of them.

  The tables of blanks, of letters, digits and numerals, and of punctuation have
  no common characters, so the class of a character decides what can start with
  it.

  * `CharTable.has_of_apart`: tables that are apart have no common character;
  * `punctuation?_one`, `punctuation?_two`: the lexemes of punctuation;
  * `scanFrom_cons`, `scanFrom_skip`: one step of the scanner.
-/
import BlockScript.Token.Scanner

namespace BlockScript

/-! ## Classes of characters -/

/-- A character of a table lies in one of its ranges. -/
theorem CharTable.exists_range {c : Char} : ∀ {t : CharTable}, t.has c = true →
    ∃ r ∈ t, r.1 ≤ c.toNat ∧ c.toNat ≤ r.2
  | [], h => by cases h
  | (first, last) :: rest, h => by
    simp only [CharTable.has, CharTable.offset?] at h
    split at h
    · cases h
    · split at h
      · exact ⟨(first, last), List.mem_cons_self, by omega, by omega⟩
      · obtain ⟨r, hr, hc⟩ := CharTable.exists_range h
        exact ⟨r, List.mem_cons_of_mem _ hr, hc⟩

/-- No range of the one table meets a range of the other. -/
def CharTable.apart (t t' : CharTable) : Bool :=
  t.all fun r => t'.all fun r' => r.2 < r'.1 || r'.2 < r.1

theorem CharTable.has_of_apart {t t' : CharTable} {c : Char} (h : t.apart t' = true)
    (hc : t.has c = true) : t'.has c = false := by
  rw [Bool.eq_false_iff]
  intro hc'
  obtain ⟨r, hr, h1, h2⟩ := CharTable.exists_range hc
  obtain ⟨r', hr', h3, h4⟩ := CharTable.exists_range hc'
  have happart := List.all_eq_true.1 (List.all_eq_true.1 h r hr) r' hr'
  simp only [Bool.or_eq_true, decide_eq_true_eq] at happart
  omega

theorem isNameChar_of_startsName {c : Char} (h : startsName c = true) : isNameChar c = true := by
  simp only [startsName, isNameChar, isAlphanumeric, Bool.or_eq_true] at h ⊢
  rcases h with h | h
  · exact Or.inl (Or.inl (Or.inl h))
  · exact Or.inr h

/-- A table without letters, digits, numerals and the underscore has no
    character of names. -/
theorem not_isNameChar_of_has {t : CharTable} {c : Char} (hc : t.has c = true)
    (hl : t.apart letters = true) (hd : t.apart decimals = true) (hn : t.apart numerals = true)
    (hu : t.has '_' = false) : isNameChar c = false := by
  have hne : c ≠ '_' := by
    rintro rfl
    rw [hu] at hc
    cases hc
  simp [isNameChar, isAlphanumeric, isLetter, isDecimal, CharTable.has_of_apart hl hc,
    CharTable.has_of_apart hd hc, CharTable.has_of_apart hn hc, hne]

theorem not_isNameChar_of_isBlank {c : Char} (h : isBlank c = true) : isNameChar c = false :=
  not_isNameChar_of_has h (by decide +kernel) (by decide +kernel) (by decide +kernel) (by decide)

/-- The first characters of operators and symbols. -/
def punctuationMarks : List Char :=
  ['+', '-', '*', '/', '%', '<', '>', '!', '=', ';', '(', ')', '\x7b', '\x7d', '&', '|']

/-- The table of these and of the quote. -/
def markTable : CharTable :=
  [(0x21, 0x22), (0x25, 0x26), (0x28, 0x2b), (0x2d, 0x2d), (0x2f, 0x2f), (0x3b, 0x3e),
   (0x7b, 0x7d)]

theorem not_isNameChar_of_mark {c : Char} (h : c ∈ '"' :: punctuationMarks) :
    isNameChar c = false := by
  have hc : markTable.has c = true := by
    simp only [punctuationMarks, List.mem_cons, List.not_mem_nil, or_false] at h
    rcases h with rfl | rfl | rfl | rfl | rfl | rfl | rfl | rfl | rfl | rfl | rfl | rfl | rfl |
      rfl | rfl | rfl | rfl <;> decide
  exact not_isNameChar_of_has hc (by decide +kernel) (by decide +kernel) (by decide +kernel)
    (by decide)

theorem isDecimal_of_not_isNameChar {c : Char} (h : isNameChar c = false) :
    isDecimal c = false := by
  simp only [isNameChar, isAlphanumeric, Bool.or_eq_false_iff] at h
  exact h.1.1.2

/-! ## Punctuation -/

theorem contains_ofList (texts : List String) (cs : List Char) :
    texts.contains (String.ofList cs) = (texts.map String.toList).contains cs := by
  rw [Bool.eq_iff_iff, List.contains_iff_mem, List.contains_iff_mem, List.mem_map]
  constructor
  · intro h
    exact ⟨_, h, String.toList_ofList⟩
  · rintro ⟨s, hs, rfl⟩
    rwa [String.ofList_toList]

theorem operators_toList : operators.map String.toList =
    [['+'], ['-'], ['*'], ['/'], ['%'], ['=', '='], ['!', '='], ['<'], ['>'], ['<', '='],
      ['>', '='], ['&', '&'], ['|', '|'], ['!']] := by
  decide

theorem symbols_toList : symbols.map String.toList =
    [['='], [';'], ['('], [')'], ['\x7b'], ['\x7d']] := by
  decide

theorem punctuation?_one (c : Char) : punctuation? [c] =
    if c ∈ ['+', '-', '*', '/', '%', '<', '>', '!'] then some .operator
    else if c ∈ ['=', ';', '(', ')', '\x7b', '\x7d'] then some .symbol
    else none := by
  simp only [punctuation?, contains_ofList, operators_toList, symbols_toList]
  simp

theorem punctuation?_two (c d : Char) : punctuation? [c, d] =
    if c ∈ ['=', '!', '<', '>'] ∧ d = '=' ∨ c ∈ ['&', '|'] ∧ d = c then some .operator
    else none := by
  simp only [punctuation?, contains_ofList, operators_toList, symbols_toList]
  simp
  grind

theorem cutPunctuation_eq_none {c : Char} (h : c ∉ punctuationMarks) (rest : List Char) :
    cutPunctuation c rest = none := by
  simp only [punctuationMarks, List.mem_cons, List.not_mem_nil, or_false, not_or] at h
  have h1 : punctuation? [c] = none := by
    rw [punctuation?_one]
    simp [h]
  have h2 : ∀ d, punctuation? [c, d] = none := by
    intro d
    rw [punctuation?_two]
    simp [h]
  cases rest <;> simp [cutPunctuation, h1, h2]

theorem not_operator_of_punctuation? {cs : List Char} (h : punctuation? cs = none) :
    operators.contains (String.ofList cs) = false := by
  rw [Bool.eq_false_iff]
  intro ho
  simp only [punctuation?, ho, if_true, reduceCtorEq] at h

theorem startsName_of_keyword {c : Char} {more : List Char}
    (h : keywords.contains (String.ofList (c :: more)) = true) : startsName c = true := by
  rw [contains_ofList] at h
  have hk : keywords.map String.toList = [['i', 'f'], ['e', 'l', 's', 'e'],
      ['w', 'h', 'i', 'l', 'e'], ['t', 'r', 'u', 'e'], ['f', 'a', 'l', 's', 'e'],
      ['p', 'r', 'i', 'n', 't']] := by
    decide
  simp only [hk, List.contains_iff_mem, List.mem_cons, List.cons.injEq, List.not_mem_nil,
    or_false] at h
  rcases h with h | h | h | h | h | h <;> rw [h.1] <;> decide

/-! ## Steps of the scanner -/

theorem scanFrom_cons {c : Char} (hb : isBlank c = false) (p : Position) (rest : List Char) :
    scanFrom p (c :: rest) = match cutLexeme c rest with
      | none => ⟨[], .error (lexErrorAt c p)⟩
      | some (l, after) =>
        ⟨⟨l.kind, l.text, p⟩ :: (scanFrom (p.afterAll l.chars) after).tokens,
          (scanFrom (p.afterAll l.chars) after).ending⟩ := by
  rw [scanFrom, if_neg (by simp [hb])]
  split
  · rename_i hc
    rw [hc]
  · rename_i l after hc
    simp only [hc]

/-- The blanks in front of a text can be skipped all at once. -/
theorem scanFrom_skip : ∀ (p : Position) (cs : List Char),
    scanFrom p cs = scanFrom (p.afterAll (cs.takeWhile isBlank)) (cs.dropWhile isBlank)
  | p, [] => rfl
  | p, c :: rest => by
    by_cases hb : isBlank c = true
    · rw [scanFrom, if_pos hb, scanFrom_skip (p.after c) rest]
      simp [hb, Position.afterAll]
    · simp [hb, Position.afterAll]

end BlockScript
