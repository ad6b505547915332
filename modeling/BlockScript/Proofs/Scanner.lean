/-
  BlockScript — the tokens of a text that is put together.

  A lexeme is of one of five classes, and each says where it stops.  So a blank
  at the seam of two texts keeps their lexemes apart: the tokens of the whole
  are those of the first text and then those of the second, only at other
  places.

  * `Cut`, `cutLexeme_iff`: the lexeme at the start of a text, by its class;
  * `TokenKind.Maximal`, `Cut.maximal`, `Cut.append_of_maximal`: a lexeme is cut
    off exactly where it cannot go on;
  * `Cut.chars`, `Cut.lexeme`, `Cut.visible`, `Cut.append`: it is cut off the
    front and is what its token stands for, ends with a character that is not
    blank, and does not go on past a seam;
  * `scanFrom_append`: the scan of two texts in a row;
  * `Token.form`, `scanFrom_form`: what the tokens are does not hang on where
    the text stands.
-/
import BlockScript.Proofs.Characters

namespace BlockScript

/-! ## Lexemes -/

/-- The lexeme at the start of the text `c :: rest` and what follows it, by the
    class of the lexeme. -/
inductive Cut (c : Char) (rest : List Char) : Lexeme → List Char → Prop where
  | string {inner after : List Char} (hc : c = '"') (hrest : rest = inner ++ '"' :: after)
      (hinner : ∀ d ∈ inner, d ≠ '"') : Cut c rest ⟨.string, '"' :: (inner ++ ['"'])⟩ after
  | number (hq : c ≠ '"') (hd : isDecimal c = true) :
      Cut c rest ⟨.number, c :: rest.takeWhile isNumberChar⟩ (rest.dropWhile isNumberChar)
  | word (hq : c ≠ '"') (hd : isDecimal c = false) (hn : startsName c = true) :
      Cut c rest ⟨wordKind (c :: rest.takeWhile isNameChar), c :: rest.takeWhile isNameChar⟩
        (rest.dropWhile isNameChar)
  /-- two characters of punctuation -/
  | double {d : Char} {after : List Char} {kind : TokenKind} (hq : c ≠ '"')
      (hd : isDecimal c = false) (hn : startsName c = false) (hrest : rest = d :: after)
      (hk : punctuation? [c, d] = some kind) : Cut c rest ⟨kind, [c, d]⟩ after
  /-- one character of punctuation that does not go on -/
  | single {kind : TokenKind} (hq : c ≠ '"') (hd : isDecimal c = false)
      (hn : startsName c = false) (hk : punctuation? [c] = some kind)
      (hnext : ∀ d ∈ rest.head?, punctuation? [c, d] = none) : Cut c rest ⟨kind, [c]⟩ rest

theorem cut_of_cutPunctuation {c : Char} {rest after : List Char} {l : Lexeme} (hq : c ≠ '"')
    (hd : isDecimal c = false) (hn : startsName c = false)
    (h : cutPunctuation c rest = some (l, after)) : Cut c rest l after := by
  unfold cutPunctuation at h
  split at h
  · obtain ⟨kind, hk, hl⟩ := Option.map_eq_some_iff.1 h
    cases hl
    exact .single hq hd hn hk (by simp)
  · split at h
    · rename_i hk
      cases h
      exact .double hq hd hn rfl hk
    · rename_i hk2
      obtain ⟨kind, hk, hl⟩ := Option.map_eq_some_iff.1 h
      cases hl
      exact .single hq hd hn hk (by simpa using hk2)

/-- **A lexeme is cut off by its class.** -/
theorem cutLexeme_iff {c : Char} {rest after : List Char} {l : Lexeme} :
    cutLexeme c rest = some (l, after) ↔ Cut c rest l after := by
  constructor
  · intro h
    unfold cutLexeme at h
    split at h
    · rename_i hc
      split at h
      · cases h
      · rename_i quote after' hdrop
        cases h
        have hrest : rest = rest.takeWhile (· ≠ '"') ++ quote :: after := by
          rw [← hdrop, List.takeWhile_append_dropWhile]
        obtain rfl : quote = '"' := by
          have hhead := List.head?_dropWhile_not (· ≠ '"') rest
          rw [hdrop] at hhead
          simpa using hhead
        subst hc
        exact .string rfl hrest fun d hd => by
          simpa using List.all_eq_true.1 List.all_takeWhile d hd
    · rename_i hq
      split at h
      · rename_i hd
        cases h
        exact .number hq hd
      · rename_i hd
        split at h
        · rename_i hn
          cases h
          exact .word hq (by simpa using hd) hn
        · rename_i hn
          exact cut_of_cutPunctuation hq (by simpa using hd) (by simpa using hn) h
  · intro h
    cases h with
    | @string inner after hc hrest hinner =>
      have htake : (inner ++ '"' :: after).takeWhile (· ≠ '"') = inner := by
        rw [List.takeWhile_append_of_pos (by simpa using hinner)]
        simp
      have hdrop : (inner ++ '"' :: after).dropWhile (· ≠ '"') = '"' :: after := by
        rw [List.dropWhile_append_of_pos (by simpa using hinner)]
        simp
      rw [cutLexeme, if_pos hc, hrest, hdrop, htake, hc]
      rfl
    | number hq hd => simp [cutLexeme, hq, hd]
    | word hq hd hn => simp [cutLexeme, hq, hd, hn]
    | @double d after kind hq hd hn hrest hk => simp [cutLexeme, hq, hd, hn, cutPunctuation, hrest, hk]
    | @single kind hq hd hn hk hnext =>
      cases rest with
      | nil => simp [cutLexeme, hq, hd, hn, cutPunctuation, hk]
      | cons d rest =>
        have hd2 := hnext d rfl
        simp [cutLexeme, hq, hd, hn, cutPunctuation, hk, hd2]

theorem Lexeme.text_of_ne {kind : TokenKind} {cs : List Char} (h : kind ≠ .string) :
    Lexeme.text ⟨kind, cs⟩ = String.ofList cs := by
  simp [Lexeme.text, h]

theorem kind_of_punctuation? {cs : List Char} {kind : TokenKind}
    (h : punctuation? cs = some kind) : kind ≠ .string := by
  rintro rfl
  simp only [punctuation?] at h
  split at h
  · cases h
  · split at h <;> cases h

theorem not_isBlank_of_isNameChar {c : Char} (h : isNameChar c = true) : isBlank c = false := by
  rw [Bool.eq_false_iff]
  intro hb
  rw [not_isNameChar_of_isBlank hb] at h
  cases h

theorem not_isBlank_of_isNumberChar {c : Char} (h : isNumberChar c = true) : isBlank c = false := by
  simp only [isNumberChar, Bool.or_eq_true, decide_eq_true_eq] at h
  rcases h with h | rfl
  · rw [Bool.eq_false_iff]
    intro hb
    rw [isDecimal_of_not_isNameChar (not_isNameChar_of_isBlank hb)] at h
    cases h
  · decide

/-- No lexeme of punctuation goes on with a blank. -/
theorem punctuation?_blank {c d : Char} (hb : isBlank d = true) : punctuation? [c, d] = none := by
  rw [punctuation?_two, if_neg]
  rintro (⟨-, rfl⟩ | ⟨hc, rfl⟩)
  · exact absurd hb (by decide)
  · simp only [List.mem_cons, List.not_mem_nil, or_false] at hc
    rcases hc with rfl | rfl <;> exact absurd hb (by decide)

/-- A run of characters that stops, or that is followed by one that stops it,
    is the same with more text after it. -/
theorem run_append {p : Char → Bool} {cs ds : List Char}
    (h : cs.dropWhile p = [] → ∀ d ∈ ds.head?, p d = false) :
    (cs ++ ds).takeWhile p = cs.takeWhile p ∧ (cs ++ ds).dropWhile p = cs.dropWhile p ++ ds := by
  induction cs with
  | nil =>
    cases ds with
    | nil => exact ⟨rfl, rfl⟩
    | cons d ds => simp [h rfl d rfl]
  | cons c cs ih =>
    by_cases hc : p c = true
    · obtain ⟨htake, hdrop⟩ := ih fun hnil => h (by simpa [hc] using hnil)
      simp [hc, htake, hdrop]
    · simp [hc]

theorem exists_last_visible {p : Char → Bool} {c : Char} {cs : List Char}
    (hp : ∀ {d}, p d = true → isBlank d = false) (hb : isBlank c = false) :
    ∃ d, (c :: cs.takeWhile p).getLast? = some d ∧ isBlank d = false := by
  refine ⟨_, List.getLast?_eq_some_getLast (List.cons_ne_nil c _), ?_⟩
  rcases List.mem_cons.1 (List.getLast_mem (List.cons_ne_nil c (cs.takeWhile p))) with hlast | hlast
  · rw [hlast, hb]
  · exact hp (List.all_eq_true.1 List.all_takeWhile _ hlast)

/-! ## Tokens that cannot go on -/

/-- A token of the kind and text cannot go on into what follows it: a number
    into a digit or a point, a word into a letter, a digit or an underscore, and
    punctuation into a longer lexeme of punctuation. -/
def TokenKind.Maximal : TokenKind → String → List Char → Prop
  | .number, _, after => ∀ c ∈ after.head?, isDecimal c = false ∧ c ≠ '.'
  | .identifier, _, after | .keyword, _, after =>
    ∀ c ∈ after.head?, isAlphanumeric c = false ∧ c ≠ '_'
  | .operator, text, after | .symbol, text, after =>
    ∀ longer ∈ operators ++ symbols, longer.toList <+: text.toList ++ after →
      longer.length ≤ text.length
  | .string, _, _ | .endOfInput, _, _ => True

theorem isNumberChar_eq_false {c : Char} :
    isNumberChar c = false ↔ isDecimal c = false ∧ c ≠ '.' := by
  simp [isNumberChar]

theorem isNameChar_eq_false {c : Char} :
    isNameChar c = false ↔ isAlphanumeric c = false ∧ c ≠ '_' := by
  simp [isNameChar]

theorem maximal_wordKind (cs : List Char) {text : String} {after : List Char} :
    (wordKind cs).Maximal text after ↔
      ∀ c ∈ after.head?, isAlphanumeric c = false ∧ c ≠ '_' := by
  unfold wordKind
  split <;> exact Iff.rfl

theorem maximal_punctuation {cs : List Char} {kind : TokenKind} (h : punctuation? cs = some kind)
    {text : String} {after : List Char} :
    kind.Maximal text after ↔ ∀ longer ∈ operators ++ symbols,
      longer.toList <+: text.toList ++ after → longer.length ≤ text.length := by
  simp only [punctuation?] at h
  split at h
  · cases h
    exact Iff.rfl
  · split at h <;> cases h
    exact Iff.rfl

theorem length_le_two_of_mem : ∀ text ∈ operators ++ symbols, text.length ≤ 2 := by
  decide

theorem punctuation?_isSome {cs : List Char} :
    (punctuation? cs).isSome = true ↔ String.ofList cs ∈ operators ++ symbols := by
  simp only [punctuation?, ← List.contains_iff_mem]
  split
  · simp_all
  · split <;> simp_all

/-- A token that cannot go on into a text cannot go on into the start of it. -/
theorem TokenKind.Maximal.of_append {kind : TokenKind} {text : String} {xs ys : List Char}
    (h : kind.Maximal text (xs ++ ys)) : kind.Maximal text xs := by
  have hhead : ∀ c ∈ xs.head?, c ∈ (xs ++ ys).head? := by
    intro c hc
    cases xs with
    | nil => cases hc
    | cons x xs => exact hc
  have hprefix : text.toList ++ xs <+: text.toList ++ (xs ++ ys) := by simp
  cases kind with
  | number | identifier | keyword => exact fun c hc => h c (hhead c hc)
  | operator | symbol =>
    exact fun longer hmem hlonger => h longer hmem (hlonger.trans hprefix)
  | string | endOfInput => trivial

/-- Two characters of punctuation cannot go on. -/
theorem maximal_double {c d : Char} {kind : TokenKind} (h : punctuation? [c, d] = some kind)
    (after : List Char) : kind.Maximal (Lexeme.text ⟨kind, [c, d]⟩) after := by
  rw [maximal_punctuation h, Lexeme.text_of_ne (kind_of_punctuation? h)]
  intro longer hmem _
  rw [String.length_ofList]
  exact length_le_two_of_mem longer hmem

/-- One character of punctuation cannot go on exactly if it makes none with the
    next character. -/
theorem maximal_single {c : Char} {kind : TokenKind} (h : punctuation? [c] = some kind)
    {after : List Char} :
    kind.Maximal (Lexeme.text ⟨kind, [c]⟩) after ↔
      ∀ d ∈ after.head?, punctuation? [c, d] = none := by
  rw [maximal_punctuation h, Lexeme.text_of_ne (kind_of_punctuation? h), String.length_ofList,
    String.toList_ofList]
  constructor
  · intro hlonger d hd
    obtain ⟨after', rfl⟩ := List.head?_eq_some_iff.1 hd
    rw [← Option.not_isSome_iff_eq_none, punctuation?_isSome]
    intro hmem
    have hlength := hlonger _ hmem (by simp)
    simp at hlength
  · intro hnext longer hmem hprefix
    refine Nat.le_of_not_lt fun hlong => ?_
    have htwo := length_le_two_of_mem longer hmem
    rw [← String.length_toList] at hlong htwo
    -- a longer lexeme is the character and the next one
    match hcs : longer.toList with
    | [] | [_] => simp [hcs] at hlong
    | [a, d] =>
      rw [hcs] at hprefix
      obtain ⟨more, hmore⟩ := hprefix
      obtain ⟨rfl, rfl⟩ := List.cons.inj hmore
      have hnone := hnext d (by simp)
      rw [← Option.not_isSome_iff_eq_none, punctuation?_isSome, ← hcs, String.ofList_toList] at hnone
      exact hnone hmem
    | _ :: _ :: _ :: _ => simp [hcs] at htwo

section Cut

variable {c : Char} {rest after ds : List Char} {l : Lexeme}

/-- A lexeme and what follows it are the text. -/
theorem Cut.chars (h : Cut c rest l after) : c :: rest = l.chars ++ after := by
  cases h with
  | string hc hrest hinner => simp [hc, hrest]
  | number | word => simp
  | double _ _ _ hrest hk => simp [hrest]
  | single => rfl

/-- A token stands in the text as its lexeme. -/
theorem Cut.lexeme (h : Cut c rest l after) (p : Position) :
    (Token.lexeme ⟨l.kind, l.text, p⟩).toList = l.chars := by
  have hplain : l.kind ≠ .string → (Token.lexeme ⟨l.kind, l.text, p⟩).toList = l.chars := by
    intro hk
    simp [Token.lexeme, Lexeme.text, hk]
  cases h with
  | string => simp [Token.lexeme, Lexeme.text]
  | number => exact hplain (by simp)
  | word => exact hplain (by simp only [wordKind]; split <;> simp)
  | double _ _ _ _ hk => exact hplain (kind_of_punctuation? hk)
  | single _ _ _ hk _ => exact hplain (kind_of_punctuation? hk)

/-- A lexeme ends with a character that is not blank. -/
theorem Cut.visible (h : Cut c rest l after) (hb : isBlank c = false) :
    ∃ d, l.chars.getLast? = some d ∧ isBlank d = false := by
  cases h with
  | string hc hrest hinner => exact ⟨'"', by simp [List.getLast?_cons], by decide⟩
  | number => exact exists_last_visible not_isBlank_of_isNumberChar hb
  | word => exact exists_last_visible not_isBlank_of_isNameChar hb
  | @double d after kind _ _ _ hrest hk =>
    refine ⟨d, rfl, ?_⟩
    rw [Bool.eq_false_iff]
    intro hd
    rw [punctuation?_blank hd] at hk
    cases hk
  | single => exact ⟨c, rfl, hb⟩

/-- A lexeme cannot go on into what follows it. -/
theorem Cut.maximal (h : Cut c rest l after) : l.kind.Maximal l.text after := by
  have stops : ∀ {p : Char → Bool}, ∀ d ∈ (rest.dropWhile p).head?, p d = false := by
    intro p d hd
    have hhead := List.head?_dropWhile_not p rest
    rw [Option.mem_def.1 hd] at hhead
    simpa using hhead
  cases h with
  | string hc hrest hinner => trivial
  | number hq hd => exact fun d hd => isNumberChar_eq_false.1 (stops d hd)
  | word hq hd hn =>
    exact (maximal_wordKind _).2 fun d hd => isNameChar_eq_false.1 (stops d hd)
  | double hq hd hn hrest hk => exact maximal_double hk _
  | single hq hd hn hk hnext => exact (maximal_single hk).2 hnext

/-- A lexeme that reaches the end of its text, and cannot go on into what is
    added there, stays what it is. -/
theorem Cut.append_of_maximal (h : Cut c rest l after)
    (hmaximal : after = [] → l.kind.Maximal l.text ds) : Cut c (rest ++ ds) l (after ++ ds) := by
  cases h with
  | string hc hrest hinner => exact .string hc (by simp [hrest]) hinner
  | number hq hd =>
    obtain ⟨htake, hdrop⟩ := run_append fun hnil d hd =>
      isNumberChar_eq_false.2 (hmaximal hnil d hd)
    rw [← htake, ← hdrop]
    exact .number hq hd
  | word hq hd hn =>
    obtain ⟨htake, hdrop⟩ := run_append fun hnil d hd =>
      isNameChar_eq_false.2 ((maximal_wordKind _).1 (hmaximal hnil) d hd)
    rw [← htake, ← hdrop]
    exact .word hq hd hn
  | double hq hd hn hrest hk => exact .double hq hd hn (by simp [hrest]) hk
  | single hq hd hn hk hnext =>
    refine .single hq hd hn hk fun d hhead => ?_
    cases rest with
    | nil => exact (maximal_single hk).1 (hmaximal rfl) d hhead
    | cons e rest => exact hnext d hhead

/-- No lexeme goes on into a blank. -/
theorem Cut.maximal_of_blank (h : Cut c rest l after) (hblank : ∀ d ∈ ds.head?, isBlank d = true) :
    l.kind.Maximal l.text ds := by
  have stops : ∀ {p : Char → Bool}, (∀ {d}, p d = true → isBlank d = false) →
      ∀ d ∈ ds.head?, p d = false := by
    intro p hp d hd
    rw [Bool.eq_false_iff]
    intro hpd
    have hb := hblank d hd
    rw [hp hpd] at hb
    cases hb
  cases h with
  | string hc hrest hinner => trivial
  | number hq hd =>
    exact fun d hd => isNumberChar_eq_false.1 (stops not_isBlank_of_isNumberChar d hd)
  | word hq hd hn =>
    exact (maximal_wordKind _).2 fun d hd =>
      isNameChar_eq_false.1 (stops not_isBlank_of_isNameChar d hd)
  | double hq hd hn hrest hk => exact maximal_double hk _
  | single hq hd hn hk hnext =>
    exact (maximal_single hk).2 fun d hd => punctuation?_blank (hblank d hd)

/-- A lexeme does not go on past a seam: it stops before the end of its text,
    or the text after it starts with a blank. -/
theorem Cut.append (h : Cut c rest l after)
    (hseam : after = [] → ∀ d ∈ ds.head?, isBlank d = true) :
    Cut c (rest ++ ds) l (after ++ ds) :=
  h.append_of_maximal fun hnil => h.maximal_of_blank (hseam hnil)

end Cut

/-! ## Texts -/

/-- The scan of a text that starts with a lexeme. -/
theorem scanFrom_of_cut {c : Char} {rest after : List Char} {l : Lexeme} (p : Position)
    (hb : isBlank c = false) (h : Cut c rest l after) :
    scanFrom p (c :: rest) =
      ⟨⟨l.kind, l.text, p⟩ :: (scanFrom (p.afterAll l.chars) after).tokens,
        (scanFrom (p.afterAll l.chars) after).ending⟩ := by
  rw [scanFrom_cons hb, cutLexeme_iff.2 h]

theorem scanFrom_of_blank {c : Char} (p : Position) (rest : List Char) (hb : isBlank c = true) :
    scanFrom p (c :: rest) = scanFrom (p.after c) rest := by
  rw [scanFrom, if_pos hb]

/-- Blanks and lexemes in turn: induction over a text that is cut into tokens
    up to its end. -/
theorem scanFrom_induction {motive : Position → List Char → Prop}
    (nil : ∀ p, motive p [])
    (blank : ∀ p c rest, isBlank c = true → motive (p.after c) rest → motive p (c :: rest))
    (lexeme : ∀ p c rest l after, isBlank c = false → Cut c rest l after →
      motive (p.afterAll l.chars) after → motive p (c :: rest)) :
    ∀ (cs : List Char) (p q : Position), (scanFrom p cs).ending = .ok q → motive p cs
  | [], p, _, _ => nil p
  | c :: rest, p, q, h => by
    rcases Bool.eq_false_or_eq_true (isBlank c) with hb | hb
    · rw [scanFrom_of_blank p rest hb] at h
      exact blank p c rest hb (scanFrom_induction nil blank lexeme rest _ q h)
    · cases hc : cutLexeme c rest with
      | none =>
        rw [scanFrom_cons hb, hc] at h
        cases h
      | some cut =>
        obtain ⟨l, after⟩ := cut
        have hlen := length_le_of_cutLexeme hc
        have hcut := cutLexeme_iff.1 hc
        rw [scanFrom_of_cut p hb hcut] at h
        exact lexeme p c rest l after hb hcut
          (scanFrom_induction nil blank lexeme after _ q h)
termination_by cs => cs.length

/-- A blank at the end of the first text, or at the start of the second, keeps
    their lexemes apart. -/
def Seam (cs ds : List Char) : Prop :=
  (∀ c ∈ cs.getLast?, isBlank c = true) ∨ ∀ d ∈ ds.head?, isBlank d = true

theorem Seam.of_append {xs ys ds : List Char} (h : Seam (xs ++ ys) ds) : Seam ys ds := by
  refine h.imp_left fun hlast c hc => hlast c ?_
  rw [List.getLast?_append, Option.mem_def.1 hc]
  rfl

/-- A lexeme stops at a seam. -/
theorem Cut.seam {c : Char} {rest after ds : List Char} {l : Lexeme} (h : Cut c rest l after)
    (hb : isBlank c = false) (hseam : Seam (c :: rest) ds) (hnil : after = []) :
    ∀ d ∈ ds.head?, isBlank d = true := by
  rcases hseam with hlast | hhead
  · obtain ⟨d, hd, hvisible⟩ := h.visible hb
    rw [h.chars, hnil, List.append_nil] at hlast
    rw [hlast d hd] at hvisible
    cases hvisible
  · exact hhead

/-- **The tokens of two texts in a row** are those of the first, and then those
    of the second from where the first one ended. -/
theorem scanFrom_append {p q : Position} {cs ds : List Char}
    (h : (scanFrom p cs).ending = .ok q) (hseam : Seam cs ds) :
    scanFrom p (cs ++ ds) =
      ⟨(scanFrom p cs).tokens ++ (scanFrom q ds).tokens, (scanFrom q ds).ending⟩ := by
  refine scanFrom_induction (motive := fun p cs => (scanFrom p cs).ending = .ok q → Seam cs ds →
    scanFrom p (cs ++ ds) = ⟨(scanFrom p cs).tokens ++ (scanFrom q ds).tokens,
      (scanFrom q ds).ending⟩) ?_ ?_ ?_ cs p q h h hseam
  · intro p h _
    rw [scanFrom] at h ⊢
    cases h
    rfl
  · intro p c rest hb ih h hseam
    rw [scanFrom_of_blank p rest hb] at h ⊢
    rw [List.cons_append, scanFrom_of_blank p _ hb]
    exact ih h (Seam.of_append (show Seam ([c] ++ rest) ds from hseam))
  · intro p c rest l after hb hcut ih h hseam
    rw [scanFrom_of_cut p hb hcut] at h ⊢
    rw [List.cons_append, scanFrom_of_cut p hb (hcut.append (hcut.seam hb hseam))]
    rw [hcut.chars] at hseam
    rw [ih h hseam.of_append]
    rfl

/-- What a token is, wherever it stands. -/
def Token.form (t : Token) : TokenKind × String :=
  (t.kind, t.text)

/-- **Where a text stands does not change what its tokens are.** -/
theorem scanFrom_form {p p' q : Position} {cs : List Char} (h : (scanFrom p cs).ending = .ok q) :
    (∃ q', (scanFrom p' cs).ending = .ok q') ∧
      (scanFrom p' cs).tokens.map Token.form = (scanFrom p cs).tokens.map Token.form := by
  refine scanFrom_induction (motive := fun p cs => ∀ p',
    (∃ q', (scanFrom p' cs).ending = .ok q') ∧
      (scanFrom p' cs).tokens.map Token.form = (scanFrom p cs).tokens.map Token.form)
    ?_ ?_ ?_ cs p q h p'
  · intro p p'
    rw [scanFrom, scanFrom]
    exact ⟨⟨p', rfl⟩, rfl⟩
  · intro p c rest hb ih p'
    rw [scanFrom_of_blank p rest hb, scanFrom_of_blank p' rest hb]
    exact ih (p'.after c)
  · intro p c rest l after hb hcut ih p'
    rw [scanFrom_of_cut p hb hcut, scanFrom_of_cut p' hb hcut]
    obtain ⟨hending, hforms⟩ := ih (p'.afterAll l.chars)
    refine ⟨hending, ?_⟩
    simp only [List.map_cons, hforms]
    rfl

end BlockScript
