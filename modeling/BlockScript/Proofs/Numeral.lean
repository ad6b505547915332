/-
  BlockScript — which number tokens write a number.

  The scanner takes any run of digits and points for a number, as long as it
  starts with a digit.  Such a run is a numeral exactly if it has at most one
  point: nothing else that a numeral may have (a sign, blanks, underscores, a
  power of ten, the words) can stand in it, and its first digit is enough for a
  point to stand anywhere after it.

  * `digitsOf`, `placeOf`: the digits of such a run, and where its point stands;
  * `readNumeral?_run`: how such a run is read;
  * `number_token_reads`: a number token of a text is refused exactly if it has
    two points or more.
-/
import BlockScript.Lark.Leaf
import BlockScript.Proofs.Descent.Complete
import BlockScript.Proofs.Rendering

namespace BlockScript

/-! ## Characters of a run -/

/-- No letter is a decimal digit, and digits have no other case. -/
theorem toLower_of_isDecimal {c : Char} (h : isDecimal c = true) : c.toLower = c := by
  have hupper : ¬ (c.val ≥ 'A'.val ∧ c.val ≤ 'Z'.val) := by
    rintro ⟨hlow, hhigh⟩
    have hlow : 65 ≤ c.toNat := hlow
    have hhigh : c.toNat ≤ 90 := hhigh
    simp only [isDecimal, CharTable.has, decimals, CharTable.offset?] at h
    rw [if_neg (by omega), if_neg (by omega), if_pos (by omega)] at h
    cases h
  exact dif_neg hupper

theorem ne_of_isDecimal {c d : Char} (h : isDecimal c = true) (hd : isDecimal d = false) :
    c ≠ d := by
  rintro rfl
  rw [h] at hd
  cases hd

theorem ne_underscore_of_isNumberChar {c : Char} (h : isNumberChar c = true) : c ≠ '_' := by
  rintro rfl
  exact absurd h (by decide)

theorem isNumeralBlank_of_isNumberChar {c : Char} (h : isNumberChar c = true) :
    isNumeralBlank c = false := by
  simp [isNumeralBlank, not_isBlank_of_isNumberChar h]

/-! ## What a run does not have -/

theorem dropWhile_of_all_not {p : Char → Bool} {cs : List Char} (h : ∀ c ∈ cs, p c = false) :
    cs.dropWhile p = cs := by
  cases cs with
  | nil => rfl
  | cons c cs => simp [h c List.mem_cons_self]

/-- A run has no blanks around it. -/
theorem stripNumeral_run {cs : List Char} (h : ∀ c ∈ cs, isNumberChar c = true) :
    stripNumeral cs = cs := by
  have hblank : ∀ c ∈ cs, isNumeralBlank c = false :=
    fun c hc => isNumeralBlank_of_isNumberChar (h c hc)
  rw [stripNumeral, dropWhile_of_all_not hblank, dropWhile_of_all_not (by simpa using hblank),
    List.reverse_reverse]

/-- A text that starts with a digit has no sign. -/
theorem takeSign_of_isDecimal {c : Char} (h : isDecimal c = true) (cs : List Char) :
    takeSign (c :: cs) = (false, c :: cs) := by
  have hminus : c ≠ '-' := ne_of_isDecimal h (by decide)
  have hplus : c ≠ '+' := ne_of_isDecimal h (by decide)
  simp [takeSign, hminus, hplus]

/-- A text that starts with a digit is no word. -/
theorem word_ne_of_isDecimal {c : Char} (h : isDecimal c = true) (cs : List Char)
    (word : String) (hword : word.toList.head?.all (fun d => !isDecimal d) = true) :
    String.ofList ((c :: cs).map Char.toLower) ≠ word := by
  intro heq
  rw [← heq, String.toList_ofList, List.map_cons, List.head?_cons, Option.all_some,
    toLower_of_isDecimal h, h] at hword
  cases hword

/-- A run has no underscores. -/
theorem dropUnderscores?_run {cs : List Char} (h : ∀ c ∈ cs, isNumberChar c = true)
    (afterDigit : Bool) : dropUnderscores? afterDigit cs = some cs := by
  induction cs generalizing afterDigit with
  | nil => rfl
  | cons c cs ih =>
    obtain ⟨hc, hcs⟩ := List.forall_mem_cons.1 h
    have hne := ne_underscore_of_isNumberChar hc
    rw [dropUnderscores?.eq_3 afterDigit c cs (fun _ _ heq _ => hne heq), if_neg hne, ih hcs]
    rfl

/-! ## Digits and points -/

/-- The values of the digits of a text. -/
def digitsOf (cs : List Char) : List Nat :=
  cs.filterMap digitValue?

/-- The number of digits in front of the point. -/
def placeOf (cs : List Char) : Nat :=
  (cs.takeWhile isDecimal).length

theorem digitsOf_append (cs ds : List Char) : digitsOf (cs ++ ds) = digitsOf cs ++ digitsOf ds :=
  List.filterMap_append

/-- A point is no digit. -/
theorem digitsOf_point (cs : List Char) : digitsOf ('.' :: cs) = digitsOf cs := by
  have hpoint : digitValue? '.' = none := by decide
  simp [digitsOf, hpoint]

theorem length_digitsOf {cs : List Char} (h : ∀ c ∈ cs, isDecimal c = true) :
    (digitsOf cs).length = cs.length := by
  induction cs with
  | nil => rfl
  | cons c cs ih =>
    obtain ⟨hc, hcs⟩ := List.forall_mem_cons.1 h
    rw [← isSome_digitValue?] at hc
    obtain ⟨d, hd⟩ := Option.isSome_iff_exists.1 hc
    have hlength := ih hcs
    simp only [digitsOf, List.filterMap_cons, hd, List.length_cons] at hlength ⊢
    rw [hlength]

/-- The digits at the start of a text. -/
theorem takeDigits_eq (cs : List Char) :
    takeDigits cs = (digitsOf (cs.takeWhile isDecimal), cs.dropWhile isDecimal) :=
  rfl

theorem takeWhile_isDecimal (cs : List Char) : ∀ c ∈ cs.takeWhile isDecimal, isDecimal c = true :=
  List.all_eq_true.1 List.all_takeWhile

/-- After its digits a run ends, or it goes on with a point and a run. -/
theorem after_digits {cs : List Char} (h : ∀ c ∈ cs, isNumberChar c = true) :
    cs.dropWhile isDecimal = [] ∨
      ∃ rest, cs.dropWhile isDecimal = '.' :: rest ∧ ∀ c ∈ rest, isNumberChar c = true := by
  cases hrest : cs.dropWhile isDecimal with
  | nil => exact Or.inl rfl
  | cons d rest =>
    have hsub : ∀ c ∈ d :: rest, c ∈ cs := by
      intro c hc
      rw [← hrest] at hc
      exact (List.dropWhile_suffix isDecimal).subset hc
    have hnot : isDecimal d = false := by
      have hhead := List.head?_dropWhile_not isDecimal cs
      rw [hrest] at hhead
      simpa using hhead
    have hd := h d (hsub d List.mem_cons_self)
    simp only [isNumberChar, hnot, Bool.false_or, decide_eq_true_eq] at hd
    subst hd
    exact Or.inr ⟨rest, rfl, fun c hc => h c (hsub c (List.mem_cons_of_mem _ hc))⟩

/-- The points of a text stand after its first digits. -/
theorem count_point (cs : List Char) : cs.count '.' = (cs.dropWhile isDecimal).count '.' := by
  have hdigits : (cs.takeWhile isDecimal).count '.' = 0 := by
    refine List.count_eq_zero.2 fun hmem => ?_
    exact absurd (takeWhile_isDecimal cs _ hmem) (by decide)
  conv => lhs; rw [← @List.takeWhile_append_dropWhile _ isDecimal cs]
  rw [List.count_append, hdigits, Nat.zero_add]

theorem digitsOf_split (cs : List Char) :
    digitsOf cs = digitsOf (cs.takeWhile isDecimal) ++ digitsOf (cs.dropWhile isDecimal) := by
  rw [← digitsOf_append, List.takeWhile_append_dropWhile]

/-! ## Reading a run -/

section Run

variable {c : Char} {cs : List Char} (hc : isDecimal c = true)
  (hcs : ∀ d ∈ c :: cs, isNumberChar d = true)
include hc hcs

/-- A run is a decimal with the point after its first digits, unless there is a
    second point, which nothing can be read for. -/
theorem unsignedDecimal?_run :
    unsignedDecimal? false (c :: cs) =
      if 2 ≤ (c :: cs).count '.' then none
      else some (.decimal false (digitsOf (c :: cs)) (placeOf (c :: cs))) := by
  have hlength : (digitsOf ((c :: cs).takeWhile isDecimal)).length = placeOf (c :: cs) :=
    length_digitsOf (takeWhile_isDecimal _)
  have hwhole : (digitsOf ((c :: cs).takeWhile isDecimal)).isEmpty = false := by
    rw [← Bool.not_eq_true, List.isEmpty_iff_length_eq_zero, hlength, placeOf,
      List.takeWhile_cons_of_pos hc]
    simp
  rw [unsignedDecimal?, takeDigits_eq, count_point (c :: cs), digitsOf_split (c :: cs)]
  rcases after_digits hcs with hrest | ⟨rest, hrest, hrun⟩
  · have hnone : digitsOf [] = [] := rfl
    simp [hrest, hwhole, hlength, readPower?, hnone]
  · rw [hrest, digitsOf_point, List.count_cons_self, count_point rest, digitsOf_split rest]
    simp only [takeDigits_eq, hwhole, Bool.false_and, Bool.false_eq_true, if_false]
    rcases after_digits hrun with hend | ⟨_, hend, -⟩
    · have hnone : digitsOf [] = [] := rfl
      simp [hend, hlength, readPower?, hnone]
    · simp [hend, readPower?]

/-- How a run is read. -/
theorem readNumeral?_run :
    readNumeral? (stripNumeral (c :: cs)) =
      if 2 ≤ (c :: cs).count '.' then none
      else some (.decimal false (digitsOf (c :: cs)) (placeOf (c :: cs))) := by
  have hinf := word_ne_of_isDecimal hc cs "inf" (by decide)
  have hinfinity := word_ne_of_isDecimal hc cs "infinity" (by decide)
  have hnan := word_ne_of_isDecimal hc cs "nan" (by decide)
  rw [stripNumeral_run hcs, readNumeral?, takeSign_of_isDecimal hc]
  simp only [hinf, hinfinity, hnan, decide_false, Bool.or_false, Bool.false_eq_true, if_false,
    dropUnderscores?_run hcs, Option.bind_some]
  exact unsignedDecimal?_run hc hcs

end Run

/-- The number that the text of a number token writes: the decimal of its
    digits, if there is at most one point. -/
theorem readNumber?_of_admits {text : String} (h : TokenKind.number.Admits text) :
    readNumber? text =
      if 2 ≤ text.toList.count '.' then none
      else some (roundDecimal (digitsOf text.toList) (placeOf text.toList)) := by
  obtain ⟨hhead, hall⟩ := h
  rw [readNumber?, Numeral.read?]
  cases hcs : text.toList with
  | nil => simp [hcs] at hhead
  | cons c cs =>
    rw [hcs] at hhead hall
    rw [readNumeral?_run (by simpa using hhead) (List.all_eq_true.1 hall)]
    split <;> rfl

/-! ## Tokens of a text -/

/-- The text of a number token starts with a digit, and digits and points
    follow. -/
theorem admits_of_tokenize {source : String} {ts : List Token} {t : Token}
    (h : tokenize source = .ok ts) (ht : t ∈ ts) (hkind : t.kind = .number) :
    TokenKind.number.Admits t.text := by
  obtain ⟨p, hending, rfl⟩ := tokenize_eq_ok_iff.1 h
  rcases List.mem_append.1 ht with ht | ht
  · have hadmits := admits_of_scanFrom hending t ht
    rwa [hkind] at hadmits
  · rw [List.mem_singleton.1 ht] at hkind
    cases hkind

/-- **The only number tokens that write no number are those with two points or
    more.**  Let a text be cut into tokens.  A number token among them is refused
    as malformed if it has two points or more, and else it is taken for the
    number that its digits write, whatever way the text is parsed. -/
theorem number_token_reads {source : String} {ts : List Token} {t : Token}
    (h : tokenize source = .ok ts) (ht : t ∈ ts) (hkind : t.kind = .number) :
    (readNumber? t.text = none ↔ 2 ≤ t.text.toList.count '.') ∧
    (∀ rest, Descent.atom (t :: rest) =
      if 2 ≤ t.text.toList.count '.' then .error ⟨.malformedNumber t, rest⟩
      else .ok (.literal (.number
        (roundDecimal (digitsOf t.text.toList) (placeOf t.text.toList))), rest)) ∧
    Lark.programMethods .number [.leaf (.ofToken t)] =
      if 2 ≤ t.text.toList.count '.' then .error (.source (.parse (.malformedNumber t)))
      else .ok (.node (.literal (.number
        (roundDecimal (digitsOf t.text.toList) (placeOf t.text.toList))))) := by
  have hread := readNumber?_of_admits (admits_of_tokenize h ht hkind)
  have hatom := Descent.atom_number hkind
  have hleaf := Lark.programMethods_number hkind
  by_cases hpoints : 2 ≤ t.text.toList.count '.'
  · rw [if_pos hpoints] at hread
    simp [hread, hatom, hleaf, hpoints]
  · rw [if_neg hpoints] at hread
    simp [hread, hatom, hleaf, hpoints]

/-- The tokens of `٣.14 1.2.3`, in which the first digit is an Arabic three. -/
def pointTokens : List Token :=
  [⟨.number, "٣.14", ⟨1, 1⟩⟩, ⟨.number, "1.2.3", ⟨1, 6⟩⟩, ⟨.endOfInput, "", ⟨1, 11⟩⟩]

/-- Digits of two scripts make one number; a second point makes none. -/
theorem number_token_reads_points :
    tokenize "٣.14 1.2.3" = .ok pointTokens ∧
      (Descent.atom pointTokens = .ok (.literal (.number (roundDecimal [3, 1, 4] 1)),
        pointTokens.tail)) ∧
      readNumber? "1.2.3" = none := by
  have h : tokenize "٣.14 1.2.3" = .ok pointTokens := by cbv
  refine ⟨h, ?_, ?_⟩
  · exact (number_token_reads h List.mem_cons_self rfl).2.1 pointTokens.tail
  · refine (number_token_reads (t := ⟨.number, "1.2.3", ⟨1, 6⟩⟩) h ?_ rfl).1.2 (by decide)
    exact List.mem_cons_of_mem _ List.mem_cons_self

end BlockScript
