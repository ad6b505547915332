/-
  BlockScript — tokens written as source text, and scanned again.

  One blank between two lexemes keeps them apart, and a lexeme says its kind.
  So scanning undoes writing for exactly the tokens that scanning can give.

  * `TokenKind.Admits`: the texts of the tokens of a kind;
  * `Scannable ts`: tokens of admitted texts, closed by the only end token;
  * `Cut.admits`, `cut_of_admits`: a lexeme that is cut off has an admitted
    text, and the lexeme of an admitted text is cut off in front of a blank;
  * `scanFrom_rendered`: the scan of written tokens;
  * `tokenize_render_iff`: scanning written tokens gives them back exactly if
    they are scannable.
-/
import BlockScript.Proofs.Agreement
import BlockScript.Proofs.Scanner
import BlockScript.Token.Printer

namespace BlockScript

/-! ## Admitted texts -/

/-- The text is that of a token of the kind.  No text makes a token that ends
    the input. -/
def TokenKind.Admits : TokenKind → String → Prop
  | .number, text =>
    text.toList.head?.any isDecimal = true ∧ text.toList.all isNumberChar = true
  | .identifier, text =>
    text.toList.head?.any startsName = true ∧ text.toList.all isNameChar = true ∧ text ∉ keywords
  | .keyword, text => text ∈ keywords
  | .operator, text => text ∈ operators
  | .symbol, text => text ∈ symbols
  | .string, text => '"' ∉ text.toList
  | .endOfInput, _ => False

instance TokenKind.decidableAdmits : (kind : TokenKind) → (text : String) →
    Decidable (kind.Admits text)
  | .number, _ => inferInstanceAs (Decidable (_ ∧ _))
  | .identifier, _ => inferInstanceAs (Decidable (_ ∧ _ ∧ _))
  | .keyword, text => inferInstanceAs (Decidable (text ∈ keywords))
  | .operator, text => inferInstanceAs (Decidable (text ∈ operators))
  | .symbol, text => inferInstanceAs (Decidable (text ∈ symbols))
  | .string, text => inferInstanceAs (Decidable ('"' ∉ text.toList))
  | .endOfInput, _ => inferInstanceAs (Decidable False)

/-- Tokens of admitted texts, and after them the only end token, which has no
    text. -/
def Scannable (ts : List Token) : Prop :=
  ∃ body last, ts = body ++ [last] ∧ (∀ t ∈ body, t.kind.Admits t.text) ∧
    last.kind = .endOfInput ∧ last.text = ""

/-! ## What is cut off has an admitted text -/

theorem admits_of_punctuation? {cs : List Char} {kind : TokenKind}
    (h : punctuation? cs = some kind) : kind.Admits (String.ofList cs) := by
  simp only [punctuation?] at h
  split at h
  · rename_i ho
    cases h
    exact List.contains_iff_mem.1 ho
  · split at h
    · rename_i hs
      cases h
      exact List.contains_iff_mem.1 hs
    · cases h

theorem admits_wordKind {c : Char} {cs : List Char} (hc : startsName c = true)
    (hcs : ∀ d ∈ cs, isNameChar d = true) :
    (wordKind (c :: cs)).Admits (String.ofList (c :: cs)) := by
  unfold wordKind
  split
  · rename_i hk
    exact List.contains_iff_mem.1 hk
  · rename_i hk
    refine ⟨by simpa using hc, ?_, fun hmem => hk (List.contains_iff_mem.2 hmem)⟩
    simp only [String.toList_ofList, List.all_cons, Bool.and_eq_true, List.all_eq_true]
    exact ⟨isNameChar_of_startsName hc, hcs⟩

/-- A lexeme that is cut off has a text that its kind admits. -/
theorem Cut.admits {c : Char} {rest after : List Char} {l : Lexeme} (h : Cut c rest l after) :
    l.kind.Admits l.text := by
  cases h with
  | @string inner after hc hrest hinner =>
    have htext : Lexeme.text ⟨.string, '"' :: (inner ++ ['"'])⟩ = String.ofList inner := by
      simp [Lexeme.text]
    rw [htext]
    show '"' ∉ (String.ofList inner).toList
    rw [String.toList_ofList]
    exact fun hmem => hinner _ hmem rfl
  | number hq hd =>
    have hc : isNumberChar c = true := by simp [isNumberChar, hd]
    have hall : (rest.takeWhile isNumberChar).all isNumberChar = true := List.all_takeWhile
    show _ ∧ _
    rw [Lexeme.text_of_ne (by decide)]
    simp [hd, hc, -List.all_takeWhile, hall]
  | word hq hd hn =>
    have hk : ∀ cs, wordKind cs ≠ .string := by
      intro cs
      unfold wordKind
      split <;> decide
    rw [Lexeme.text_of_ne (hk _)]
    exact admits_wordKind hn (List.all_eq_true.1 List.all_takeWhile)
  | double hq hd hn hrest hk =>
    rw [Lexeme.text_of_ne (kind_of_punctuation? hk)]
    exact admits_of_punctuation? hk
  | single hq hd hn hk hnext =>
    rw [Lexeme.text_of_ne (kind_of_punctuation? hk)]
    exact admits_of_punctuation? hk

/-- The tokens of a scan have admitted texts. -/
theorem admits_of_scanFrom {p q : Position} {cs : List Char}
    (h : (scanFrom p cs).ending = .ok q) : ∀ t ∈ (scanFrom p cs).tokens, t.kind.Admits t.text := by
  refine scanFrom_induction (motive := fun p cs => ∀ t ∈ (scanFrom p cs).tokens,
    t.kind.Admits t.text) ?_ ?_ ?_ cs p q h
  · intro p t ht
    rw [scanFrom] at ht
    cases ht
  · intro p c rest hb ih
    rw [scanFrom_of_blank p rest hb]
    exact ih
  · intro p c rest l after hb hcut ih t ht
    rw [scanFrom_of_cut p hb hcut] at ht
    rcases List.mem_cons.1 ht with rfl | ht
    · exact hcut.admits
    · exact ih t ht

/-! ## The lexeme of an admitted text is cut off -/

theorem not_isDecimal_of_startsName {c : Char} (h : startsName c = true) : isDecimal c = false := by
  have hapart : letters.apart decimals = true := by decide +kernel
  simp only [startsName, Bool.or_eq_true, decide_eq_true_eq] at h
  rcases h with h | rfl
  · exact CharTable.has_of_apart hapart h
  · decide

theorem ne_quote_of_isNameChar {c : Char} (h : isNameChar c = true) : c ≠ '"' := by
  rintro rfl
  rw [not_isNameChar_of_mark List.mem_cons_self] at h
  cases h

theorem run_of_all {p : Char → Bool} {cs : List Char} (h : cs.all p = true) :
    cs.takeWhile p = cs ∧ cs.dropWhile p = [] := by
  have hall := List.all_eq_true.1 h
  have htake : (cs ++ []).takeWhile p = cs ++ [] := List.takeWhile_append_of_pos hall
  have hdrop : (cs ++ []).dropWhile p = [] := List.dropWhile_append_of_pos hall
  rw [List.append_nil] at htake hdrop
  exact ⟨htake, hdrop⟩

theorem cut_of_number {c : Char} {cs : List Char} (hc : isDecimal c = true)
    (hcs : cs.all isNumberChar = true) : Cut c cs ⟨.number, c :: cs⟩ [] := by
  have hname : isNameChar c = true := by simp [isNameChar, isAlphanumeric, hc]
  have hcut : Cut c cs ⟨.number, c :: cs.takeWhile isNumberChar⟩ (cs.dropWhile isNumberChar) :=
    .number (ne_quote_of_isNameChar hname) hc
  obtain ⟨htake, hdrop⟩ := run_of_all hcs
  rwa [htake, hdrop] at hcut

theorem cut_of_word {c : Char} {cs : List Char} (hc : startsName c = true)
    (hcs : cs.all isNameChar = true) : Cut c cs ⟨wordKind (c :: cs), c :: cs⟩ [] := by
  have hcut : Cut c cs ⟨wordKind (c :: cs.takeWhile isNameChar), c :: cs.takeWhile isNameChar⟩
      (cs.dropWhile isNameChar) :=
    .word (ne_quote_of_isNameChar (isNameChar_of_startsName hc)) (not_isDecimal_of_startsName hc) hc
  obtain ⟨htake, hdrop⟩ := run_of_all hcs
  rwa [htake, hdrop] at hcut

/-- Punctuation is a mark, or a mark and one more character. -/
theorem marks_of_punctuation? {cs : List Char} {kind : TokenKind}
    (h : punctuation? cs = some kind) :
    ∃ c rest, cs = c :: rest ∧ c ∈ punctuationMarks ∧ (rest = [] ∨ ∃ d, rest = [d]) := by
  have hmem : cs ∈ operators.map String.toList ∨ cs ∈ symbols.map String.toList := by
    simp only [punctuation?, contains_ofList] at h
    split at h
    · rename_i ho
      exact Or.inl (List.contains_iff_mem.1 ho)
    · split at h
      · rename_i hs
        exact Or.inr (List.contains_iff_mem.1 hs)
      · cases h
  rw [operators_toList, symbols_toList] at hmem
  simp only [List.mem_cons, List.not_mem_nil, or_false] at hmem
  rcases hmem with (rfl | rfl | rfl | rfl | rfl | rfl | rfl | rfl | rfl | rfl | rfl | rfl | rfl |
    rfl) | (rfl | rfl | rfl | rfl | rfl | rfl) <;>
  exact ⟨_, _, rfl, by decide, by simp⟩

theorem not_isBlank_of_punctuation? {c : Char} {cs : List Char} {kind : TokenKind}
    (h : punctuation? (c :: cs) = some kind) : isBlank c = false := by
  have hvisible : punctuationMarks.all (fun d => !isBlank d) = true := by decide
  obtain ⟨_, _, hcs, hmark, -⟩ := marks_of_punctuation? h
  cases hcs
  simpa using List.all_eq_true.1 hvisible c hmark

theorem cut_of_punctuation? {c : Char} {cs : List Char} {kind : TokenKind}
    (h : punctuation? (c :: cs) = some kind) : Cut c cs ⟨kind, c :: cs⟩ [] := by
  obtain ⟨_, _, hcs, hmark, hrest⟩ := marks_of_punctuation? h
  cases hcs
  have hname := not_isNameChar_of_mark (List.mem_cons_of_mem _ hmark)
  have hq : c ≠ '"' := by
    rintro rfl
    exact absurd hmark (by decide)
  have hd := isDecimal_of_not_isNameChar hname
  have hn : startsName c = false := by
    rw [Bool.eq_false_iff]
    intro hn
    rw [isNameChar_of_startsName hn] at hname
    cases hname
  rcases hrest with rfl | ⟨d, rfl⟩
  · exact .single hq hd hn h (by simp)
  · exact .double hq hd hn rfl h

theorem punctuation?_of_operator {text : String} (h : text ∈ operators) :
    punctuation? text.toList = some .operator := by
  simp [punctuation?, h]

theorem punctuation?_of_symbol {text : String} (h : text ∈ symbols) :
    punctuation? text.toList = some .symbol := by
  have hno : text ∉ operators := by
    revert h text
    decide
  simp [punctuation?, h, hno]

/-- The lexeme of an admitted text is cut off whole. -/
theorem cut_of_admits {t : Token} (h : t.kind.Admits t.text) :
    ∃ c rest, t.lexeme.toList = c :: rest ∧ Cut c rest ⟨t.kind, c :: rest⟩ [] := by
  obtain ⟨kind, text, pos⟩ := t
  -- only a string is written otherwise than as its text
  have hlexeme : kind ≠ .string → (Token.mk kind text pos).lexeme = text := by
    intro hk
    simp [Token.lexeme, hk]
  cases kind with
  | number =>
    obtain ⟨hhead, hall⟩ := h
    rw [hlexeme (by decide)]
    cases hcs : text.toList with
    | nil => simp [hcs] at hhead
    | cons c cs =>
      simp only [hcs, List.head?_cons, Option.any_some, List.all_cons, Bool.and_eq_true]
        at hhead hall
      exact ⟨c, cs, rfl, cut_of_number hhead hall.2⟩
  | identifier =>
    obtain ⟨hhead, hall, hnot⟩ := h
    rw [hlexeme (by decide)]
    cases hcs : text.toList with
    | nil => simp [hcs] at hhead
    | cons c cs =>
      have hk : wordKind (c :: cs) = .identifier := by
        simp [wordKind, ← hcs, hnot]
      simp only [hcs, List.head?_cons, Option.any_some, List.all_cons, Bool.and_eq_true]
        at hhead hall
      exact ⟨c, cs, rfl, hk ▸ cut_of_word hhead hall.2⟩
  | keyword =>
    rw [hlexeme (by decide)]
    have hall : ∀ word ∈ keywords, word.toList ≠ [] ∧ word.toList.all isNameChar = true := by
      decide
    obtain ⟨hne, hname⟩ := hall text h
    cases hcs : text.toList with
    | nil => exact absurd hcs hne
    | cons c cs =>
      have hkey : keywords.contains (String.ofList (c :: cs)) = true := by
        rw [← hcs, String.ofList_toList]
        exact List.contains_iff_mem.2 h
      have hk : wordKind (c :: cs) = .keyword := by
        simp only [wordKind, hkey, if_true]
      simp only [hcs, List.all_cons, Bool.and_eq_true] at hname
      exact ⟨c, cs, rfl, hk ▸ cut_of_word (startsName_of_keyword hkey) hname.2⟩
  | operator =>
    rw [hlexeme (by decide)]
    have hp := punctuation?_of_operator h
    obtain ⟨c, rest, hcs, -⟩ := marks_of_punctuation? hp
    rw [hcs] at hp
    exact ⟨c, rest, hcs, cut_of_punctuation? hp⟩
  | symbol =>
    rw [hlexeme (by decide)]
    have hp := punctuation?_of_symbol h
    obtain ⟨c, rest, hcs, -⟩ := marks_of_punctuation? hp
    rw [hcs] at hp
    exact ⟨c, rest, hcs, cut_of_punctuation? hp⟩
  | string =>
    have hcs : (Token.mk .string text pos).lexeme.toList = '"' :: (text.toList ++ ['"']) := by
      simp [Token.lexeme, String.toList_append]
    refine ⟨'"', text.toList ++ ['"'], hcs, .string rfl rfl ?_⟩
    rintro d hd rfl
    exact h hd
  | endOfInput => cases h

/-- The token of a lexeme has the text that the lexeme was written for. -/
theorem Lexeme.text_of_token (t : Token) : Lexeme.text ⟨t.kind, t.lexeme.toList⟩ = t.text := by
  unfold Lexeme.text Token.lexeme
  split
  · simp [String.toList_append]
  · simp

/-- No lexeme starts with a blank. -/
theorem Cut.not_isBlank {c : Char} {rest after : List Char} {l : Lexeme}
    (h : Cut c rest l after) : isBlank c = false := by
  cases h with
  | string hc hrest hinner => rw [hc]; decide
  | number hq hd => exact not_isBlank_of_isNumberChar (by simp [isNumberChar, hd])
  | word hq hd hn => exact not_isBlank_of_isNameChar (isNameChar_of_startsName hn)
  | double hq hd hn hrest hk => exact not_isBlank_of_punctuation? hk
  | single hq hd hn hk hnext => exact not_isBlank_of_punctuation? hk

/-- The scan of one lexeme that is written alone. -/
theorem scanFrom_lexeme {t : Token} (h : t.kind.Admits t.text) (p : Position) :
    scanFrom p t.lexeme.toList =
      ⟨[⟨t.kind, t.text, p⟩], .ok (p.afterAll t.lexeme.toList)⟩ := by
  obtain ⟨c, rest, hcs, hcut⟩ := cut_of_admits h
  have htext := Lexeme.text_of_token t
  rw [hcs] at htext ⊢
  rw [scanFrom_of_cut p hcut.not_isBlank hcut, htext, scanFrom]

/-- The scan of lexemes that are written with a blank between two of them. -/
theorem scanFrom_lexemes : ∀ {ts : List Token}, (∀ t ∈ ts, t.kind.Admits t.text) →
    ∀ p, ∃ q, (scanFrom p (String.intercalate " " (ts.map Token.lexeme)).toList).ending = .ok q ∧
      (scanFrom p (String.intercalate " " (ts.map Token.lexeme)).toList).tokens.map Token.form =
        ts.map Token.form
  | [], _, p => by
    refine ⟨p, ?_⟩
    simp [scanFrom]
  | [t], h, p => by
    have hscan := scanFrom_lexeme (h t List.mem_cons_self) p
    refine ⟨p.afterAll t.lexeme.toList, ?_⟩
    simp [hscan, Token.form]
  | t :: u :: ts, h, p => by
    have hscan := scanFrom_lexeme (h t List.mem_cons_self) p
    have htail : ∀ t ∈ u :: ts, t.kind.Admits t.text :=
      fun t ht => h t (List.mem_cons_of_mem _ ht)
    -- the blank stands at the start of what follows the lexeme
    obtain ⟨q, hending, hforms⟩ :=
      scanFrom_lexemes htail ((p.afterAll t.lexeme.toList).after ' ')
    have htext : (String.intercalate " " ((t :: u :: ts).map Token.lexeme)).toList =
        t.lexeme.toList ++ ' ' :: (String.intercalate " " ((u :: ts).map Token.lexeme)).toList := by
      simp [String.toList_intercalate]
    have hseam : Seam t.lexeme.toList
        (' ' :: (String.intercalate " " ((u :: ts).map Token.lexeme)).toList) := by
      refine Or.inr fun d hd => ?_
      cases hd
      decide
    rw [htext, scanFrom_append (by rw [hscan]) hseam, scanFrom_of_blank _ _ (by decide), hscan]
    refine ⟨q, hending, ?_⟩
    rw [List.map_append, hforms]
    rfl

/-! ## Writing and scanning -/

/-- Tokens that are equal in kinds and texts. -/
theorem sameTokens_iff : ∀ {ss ts : List Token},
    sameTokens ss ts = true ↔ ss.map Token.form = ts.map Token.form
  | [], [] => by simp [sameTokens]
  | [], t :: ts => by simp [sameTokens]
  | s :: ss, [] => by simp [sameTokens]
  | s :: ss, t :: ts => by
    have htail : sameTokens ss ts = true ↔ ss.map Token.form = ts.map Token.form := sameTokens_iff
    simp [sameTokens, Token.same, Token.form, htail]

theorem tokenize_eq_ok_iff {source : String} {ts : List Token} :
    tokenize source = .ok ts ↔
      ∃ p, (scan source).ending = .ok p ∧ ts = (scan source).tokens ++ [Token.eof p] := by
  simp only [tokenize]
  split
  · rename_i p hp
    simp [hp, eq_comm]
  · rename_i e he
    simp [he]

/-- The tokens of a text are scannable. -/
theorem scannable_of_tokenize {source : String} {ts : List Token}
    (h : tokenize source = .ok ts) : Scannable ts := by
  obtain ⟨p, hending, rfl⟩ := tokenize_eq_ok_iff.1 h
  exact ⟨_, _, rfl, admits_of_scanFrom hending, rfl, rfl⟩

/-- Tokens that are equal in kinds and texts to scannable ones are scannable. -/
theorem Scannable.of_forms {ss ts : List Token} (h : Scannable ts)
    (hforms : ss.map Token.form = ts.map Token.form) : Scannable ss := by
  obtain ⟨body, last, rfl, hbody, hkind, htext⟩ := h
  rw [List.map_append, List.map_eq_append_iff] at hforms
  obtain ⟨body', lasts, rfl, hforms, hlast⟩ := hforms
  obtain ⟨last', rest, rfl, hl, hrest⟩ := List.map_eq_cons_iff.1 hlast
  obtain rfl := List.map_eq_nil_iff.1 hrest
  simp only [Token.form, Prod.mk.injEq] at hl
  refine ⟨body', last', rfl, fun t ht => ?_, hl.1.trans hkind, hl.2.trans htext⟩
  have hmem : t.form ∈ body.map Token.form := hforms ▸ List.mem_map_of_mem ht
  obtain ⟨u, hu, hform⟩ := List.mem_map.1 hmem
  simp only [Token.form, Prod.mk.injEq] at hform
  rw [← hform.1, ← hform.2]
  exact hbody u hu

/-- Scanning gives back scannable tokens that are written. -/
theorem Scannable.tokenize_render {ts : List Token} (h : Scannable ts) :
    ∃ us, tokenize (render ts) = .ok us ∧ sameTokens ts us = true := by
  obtain ⟨body, last, rfl, hbody, hkind, htext⟩ := h
  have hkeep : ∀ t ∈ body, (!t.isEnd) = true := by
    intro t ht
    have hadmits := hbody t ht
    cases hk : t.kind <;> simp_all [Token.isEnd, TokenKind.Admits]
  have hrender : render (body ++ [last]) = String.intercalate " " (body.map Token.lexeme) := by
    have hdrop : (!last.isEnd) = false := by simp [Token.isEnd, hkind]
    unfold render
    rw [List.filter_append, List.filter_eq_self.2 hkeep, List.filter_cons_of_neg (by simp [hdrop]),
      List.filter_nil, List.append_nil]
  obtain ⟨q, hending, hforms⟩ := scanFrom_lexemes hbody .start
  rw [← hrender] at hending hforms
  refine ⟨_, tokenize_eq_ok_iff.2 ⟨q, hending, rfl⟩, sameTokens_iff.2 ?_⟩
  rw [List.map_append, List.map_append, ← hforms]
  simp [Token.form, Token.eof, hkind, htext, scan]

/-- **Scanning undoes writing on exactly the scannable tokens**, and those are
    what scanning any text gives. -/
theorem tokenize_render_iff :
    (∀ ts : List Token,
      (∃ us, tokenize (render ts) = .ok us ∧ sameTokens ts us = true) ↔ Scannable ts) ∧
    ∀ (source : String) (ts : List Token), tokenize source = .ok ts →
      ∃ us, tokenize (render ts) = .ok us ∧ sameTokens ts us = true := by
  constructor
  · intro ts
    constructor
    · rintro ⟨us, htokenize, hsame⟩
      exact (scannable_of_tokenize htokenize).of_forms (sameTokens_iff.1 hsame)
    · exact Scannable.tokenize_render
  · intro source ts h
    exact (scannable_of_tokenize h).tokenize_render

/-- The tokens of a text without blanks, but for those in a string. -/
def denseTokens : List Token :=
  [⟨.identifier, "a", ⟨1, 1⟩⟩, ⟨.operator, "<=", ⟨1, 2⟩⟩, ⟨.string, "b  1", ⟨1, 4⟩⟩,
    ⟨.number, "1.", ⟨1, 10⟩⟩, ⟨.keyword, "if", ⟨1, 12⟩⟩, ⟨.endOfInput, "", ⟨1, 14⟩⟩]

theorem tokenize_render_iff_dense :
    tokenize "a<=\"b  1\"1.if" = .ok denseTokens ∧
      ∃ us, tokenize (render denseTokens) = .ok us ∧ sameTokens denseTokens us = true := by
  have hscan : (tokenize "a<=\"b  1\"1.if").toOption = some denseTokens := by decide +kernel
  have h : tokenize "a<=\"b  1\"1.if" = .ok denseTokens := by
    cases htokens : tokenize "a<=\"b  1\"1.if" with
    | error e =>
      rw [htokens] at hscan
      cases hscan
    | ok ts =>
      rw [htokens] at hscan
      exact congrArg _ (Option.some.inj hscan)
  exact ⟨h, tokenize_render_iff.2 _ _ h⟩

end BlockScript
