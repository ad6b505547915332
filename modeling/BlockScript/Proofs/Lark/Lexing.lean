/-
  BlockScript — the tokens that the package finds in a text.

  What is relied upon of the package leaves its lexer no choice, and this lexer
  agrees with the scanner as far as no `&&` or `||` comes: the scanner
  dispatches on the class of a character, the grammar has regular expressions
  that are tried in order, and fixed texts.

  * `next_eq`: a package that follows the grammar has the lexer of the pushdown
    machine;
  * `Agreed`, `agreed_at`: what this lexer and the scanner find at one place;
  * `allowed`, `failure?`: a scan up to the first `&&` or `||`;
  * `lexFrom_eq`, `lexing_eq`: the lexing of a text is its scan up to there.
-/
import BlockScript.Lark.Leaf
import BlockScript.Proofs.Characters
import BlockScript.Pushdown.Lexer

namespace BlockScript

/-! ## Fixed texts -/

namespace Pushdown

open Lark

theorem hasText_iff {text : String} : programGrammar.HasText text ↔ text ∈ fixedTexts := by
  constructor
  · rintro ⟨n, h⟩
    have hall : ∀ text ∈ (programRule n).body.texts, text ∈ fixedTexts := by
      cases n <;> decide
    exact hall text h
  · intro h
    have hall : ∀ text ∈ fixedTexts, ∃ n ∈ [Nonterminal.ifStmt, .whileStmt, .printStmt, .trueLit,
        .falseLit, .equality, .comparison, .term, .factor, .unary, .assignStmt, .block],
        text ∈ (programRule n).body.texts := by
      decide
    obtain ⟨n, -, hn⟩ := hall text h
    exact ⟨n, hn⟩

theorem longest?_eq_none {texts : List (List Char)} : longest? texts = none ↔ texts = [] := by
  cases texts with
  | nil => simp [longest?]
  | cons cs rest =>
    simp only [longest?, reduceCtorEq, iff_false]
    split <;> simp

theorem longest?_spec {texts : List (List Char)} {cs : List Char} (h : longest? texts = some cs) :
    cs ∈ texts ∧ ∀ ds ∈ texts, ds.length ≤ cs.length := by
  induction texts generalizing cs with
  | nil => cases h
  | cons ds rest ih =>
    rw [longest?] at h
    split at h
    · rename_i es hes
      obtain ⟨hmem, hle⟩ := ih hes
      split at h
      · rename_i hlen
        cases h
        exact ⟨List.mem_cons_of_mem _ hmem, List.forall_mem_cons.2 ⟨hlen, hle⟩⟩
      · rename_i hlen
        cases h
        refine ⟨List.mem_cons_self, List.forall_mem_cons.2 ⟨Nat.le_refl _, fun es' hes' => ?_⟩⟩
        have hes'' := hle es' hes'
        omega
    · rename_i hnone
      cases h
      rw [longest?_eq_none.1 hnone]
      simp

/-- The fixed texts that a text starts with. -/
theorem mem_candidates {c : Char} {cs rest : List Char} :
    cs ∈ (fixedTexts.map String.toList).filter (·.isPrefixOf (c :: rest)) ↔
      ∃ more, cs = c :: more ∧ String.ofList (c :: more) ∈ fixedTexts ∧ more <+: rest := by
  simp only [List.mem_filter, List.mem_map, List.isPrefixOf_iff_prefix]
  constructor
  · rintro ⟨⟨text, htext, rfl⟩, hprefix⟩
    have hne : ∀ text ∈ fixedTexts, text.toList ≠ [] := by decide
    cases htl : text.toList with
    | nil => exact absurd htl (hne text htext)
    | cons d more =>
      rw [htl, List.cons_prefix_cons] at hprefix
      obtain ⟨rfl, hprefix⟩ := hprefix
      refine ⟨more, rfl, ?_, hprefix⟩
      rwa [← htl, String.ofList_toList]
  · rintro ⟨more, rfl, htext, hprefix⟩
    exact ⟨⟨_, htext, String.toList_ofList⟩, List.cons_prefix_cons.2 ⟨rfl, hprefix⟩⟩

theorem fixedText?_eq_none {c : Char} {rest : List Char} : fixedText? (c :: rest) = none ↔
    ∀ more, programGrammar.HasText (String.ofList (c :: more)) → ¬ more <+: rest := by
  simp only [hasText_iff]
  rw [fixedText?, longest?_eq_none, List.eq_nil_iff_forall_not_mem]
  simp only [mem_candidates, not_exists, not_and]
  exact ⟨fun h more ht => h _ more rfl ht, fun h _ more _ ht => h more ht⟩

theorem fixedText?_spec {c : Char} {rest cs : List Char} (h : fixedText? (c :: rest) = some cs) :
    ∃ more, cs = c :: more ∧ programGrammar.HasText (String.ofList (c :: more)) ∧
      more <+: rest ∧ ∀ other, programGrammar.HasText (String.ofList (c :: other)) →
        other <+: rest → other.length ≤ more.length := by
  simp only [hasText_iff]
  obtain ⟨hmem, hle⟩ := longest?_spec h
  obtain ⟨more, rfl, htext, hprefix⟩ := mem_candidates.1 hmem
  refine ⟨more, rfl, htext, hprefix, fun other ho hp => ?_⟩
  have hlen := hle (c :: other) (mem_candidates.2 ⟨other, rfl, ho, hp⟩)
  simpa using hlen

theorem contains_fixedTexts {text : String} :
    fixedTexts.contains text = true ↔ programGrammar.HasText text := by
  rw [List.contains_iff_mem, hasText_iff]

end Pushdown

namespace Lark

/-- **A package that follows the grammar has the lexer of the pushdown
    machine.** -/
theorem Package.Follows.next_eq {P : Package} (hP : P.Follows programGrammar programCallbacks)
    (c : Char) (rest : List Char) : P.next c rest = Pushdown.next c rest := by
  cases h : programGrammar.expression? c rest with
  | some m =>
    obtain ⟨t, more⟩ := m
    simp only [Pushdown.next, h, Pushdown.contains_fixedTexts]
    split
    · rename_i ht
      exact hP.next_keyword h (Pushdown.contains_fixedTexts.1 ht)
    · rename_i ht
      exact hP.next_expression h fun hn => ht (Pushdown.contains_fixedTexts.2 hn)
  | none =>
    simp only [Pushdown.next, h]
    cases hf : Pushdown.fixedText? (c :: rest) with
    | none => exact hP.next_none h (Pushdown.fixedText?_eq_none.1 hf)
    | some cs =>
      obtain ⟨more, rfl, ht, hmore, hlongest⟩ := Pushdown.fixedText?_spec hf
      exact hP.next_text h ht hmore hlongest

end Lark

/-! ## Classes of characters -/

namespace Pushdown

open Lark

/-- A fixed text is a keyword, or starts with punctuation. -/
theorem keyword_or_mark {c : Char} {more : List Char}
    (h : fixedTexts.contains (String.ofList (c :: more)) = true) :
    keywords.contains (String.ofList (c :: more)) = true ∨ c ∈ punctuationMarks := by
  have hall : (fixedTexts.all fun text => keywords.contains text ||
      text.toList.head?.all punctuationMarks.contains) = true := by
    decide
  have hmark := List.all_eq_true.1 hall _ (List.contains_iff_mem.1 h)
  simpa [String.toList_ofList] using hmark

/-- A fixed text that starts with a character of names is a keyword. -/
theorem contains_of_isNameChar {c : Char} (hw : isNameChar c = true) (more : List Char) :
    fixedTexts.contains (String.ofList (c :: more)) =
      keywords.contains (String.ofList (c :: more)) := by
  have hkeywords : ∀ text ∈ keywords, fixedTexts.contains text = true := by decide
  rw [Bool.eq_iff_iff]
  refine ⟨fun h => ?_, fun h => hkeywords _ (List.contains_iff_mem.1 h)⟩
  rcases keyword_or_mark h with h | h
  · exact h
  · rw [not_isNameChar_of_mark (List.mem_cons_of_mem _ h)] at hw
    cases hw

/-- No fixed text starts with a digit, a blank or a quote. -/
theorem start_of_contains {c : Char} {more : List Char}
    (h : fixedTexts.contains (String.ofList (c :: more)) = true) :
    isDecimal c = false ∧ isBlank c = false ∧ c ≠ '"' := by
  have hall : (fixedTexts.all fun text => text.toList.head?.all fun d =>
      !isDecimal d && !isBlank d && d != '"') = true := by
    decide +kernel
  have hstart := List.all_eq_true.1 hall _ (List.contains_iff_mem.1 h)
  simpa [String.toList_ofList, and_assoc] using hstart

theorem match?_run (first next : Char → Bool) (c : Char) (rest : List Char) :
    (Expression.run first next).match? c rest =
      if first c then some (rest.takeWhile next) else none :=
  rfl

section Next

variable {c : Char} (rest : List Char)

theorem next_of_expression? {t : Terminal} {more : List Char}
    (h : programGrammar.expression? c rest = some (t, more))
    (hf : fixedTexts.contains (String.ofList (c :: more)) = false) :
    next c rest = some (t, more.length) := by
  simp only [next, h, hf, Bool.false_eq_true, if_false]

theorem next_word (hd : isDecimal c = false) (hw : isNameChar c = true) :
    next c rest = some (if keywords.contains (String.ofList (c :: rest.takeWhile isNameChar))
      then .fixed (String.ofList (c :: rest.takeWhile isNameChar)) else .name,
      (rest.takeWhile isNameChar).length) := by
  have h : programGrammar.expression? c rest = some (.name, rest.takeWhile isNameChar) := by
    simp [Grammar.expression?, programGrammar, Expression.match?, startsWord, hd, hw]
  simp only [next, h, contains_of_isNameChar hw]

theorem next_number (hd : isDecimal c = true) :
    next c rest = some (.number, (rest.takeWhile isNumberChar).length) := by
  refine next_of_expression? rest ?_ ?_
  · simp [Grammar.expression?, programGrammar, Expression.match?, startsWord, hd]
  · rw [Bool.eq_false_iff]
    intro hf
    rw [(start_of_contains hf).1] at hd
    cases hd

theorem next_blank (hb : isBlank c = true) :
    next c rest = some (.blanks, (rest.takeWhile isBlank).length) := by
  have hw := not_isNameChar_of_isBlank hb
  have hd := isDecimal_of_not_isNameChar hw
  have hq : c ≠ '"' := by
    rintro rfl
    exact absurd hb (by decide)
  refine next_of_expression? rest ?_ ?_
  · simp [Grammar.expression?, programGrammar, Expression.match?, startsWord, hw, hd, hq, hb]
  · rw [Bool.eq_false_iff]
    intro hf
    rw [(start_of_contains hf).2.1] at hb
    cases hb

/-- Only fixed texts start with a character of no other class. -/
theorem next_of_no_class (hw : isNameChar c = false) (hq : c ≠ '"') (hb : isBlank c = false) :
    next c rest =
      (fixedText? (c :: rest)).map fun cs => (.fixed (String.ofList cs), cs.length - 1) := by
  have hd := isDecimal_of_not_isNameChar hw
  have h : programGrammar.expression? c rest = none := by
    simp [Grammar.expression?, programGrammar, Expression.match?, startsWord, hw, hd, hq, hb]
  simp only [next, h]

theorem next_quote : next '"' rest = match rest.dropWhile (· ≠ '"') with
    | [] => none
    | _ :: _ => some (.string, (rest.takeWhile (· ≠ '"')).length + 1) := by
  have hw : isNameChar '"' = false := not_isNameChar_of_mark List.mem_cons_self
  have hd := isDecimal_of_not_isNameChar hw
  have hb : isBlank '"' = false := by decide
  have hf : ∀ more, fixedTexts.contains (String.ofList ('"' :: more)) = false := by
    intro more
    rw [Bool.eq_false_iff]
    intro hf
    exact (start_of_contains hf).2.2 rfl
  have hnone : fixedText? ('"' :: rest) = none :=
    fixedText?_eq_none.2 fun more ht => by
      rw [← contains_fixedTexts, hf more] at ht
      cases ht
  cases hq : rest.dropWhile (· ≠ '"') with
  | nil =>
    have hm : (Expression.enclosed '"').match? '"' rest = none := by
      rw [Expression.match?, if_pos rfl, hq]
    have h : programGrammar.expression? '"' rest = none := by
      simp [Grammar.expression?, programGrammar, match?_run, startsWord, hw, hd, hb, hm]
    simp only [next, h, hnone, Option.map_none]
  | cons q after =>
    have hm : (Expression.enclosed '"').match? '"' rest =
        some (rest.takeWhile (· ≠ '"') ++ [q]) := by
      rw [Expression.match?, if_pos rfl, hq]
    have h : programGrammar.expression? '"' rest =
        some (.string, rest.takeWhile (· ≠ '"') ++ [q]) := by
      simp only [Grammar.expression?, programGrammar, List.findSome?_cons, match?_run, startsWord,
        hw, hd, hm, Bool.false_and, Bool.false_eq_true, if_false, Option.map_none, Option.map_some]
    rw [next_of_expression? rest h (hf _), List.length_append, List.length_singleton]

end Next

theorem fixedTexts_toList : fixedTexts.map String.toList =
    [['i', 'f'], ['e', 'l', 's', 'e'], ['w', 'h', 'i', 'l', 'e'], ['p', 'r', 'i', 'n', 't'],
      ['t', 'r', 'u', 'e'], ['f', 'a', 'l', 's', 'e'], ['=', '='], ['!', '='], ['<'], ['<', '='],
      ['>'], ['>', '='], ['+'], ['-'], ['*'], ['/'], ['%'], ['!'], ['='], [';'], ['('], [')'],
      ['\x7b'], ['\x7d']] := by
  decide

/-- The fixed texts that are no words have two characters where they are an
    operator of programs, and else one. -/
theorem fixedText?_eq {c : Char} (hw : isNameChar c = false) (rest : List Char) :
    fixedText? (c :: rest) =
      if c ∈ ['=', '!', '<', '>'] ∧ rest.head? = some '=' then some [c, '=']
      else (punctuation? [c]).map fun _ => [c] := by
  rw [punctuation?_one]
  by_cases hc : c ∈ punctuationMarks
  · rw [fixedText?, fixedTexts_toList]
    simp only [punctuationMarks, List.mem_cons, List.not_mem_nil, or_false] at hc
    rcases hc with rfl | rfl | rfl | rfl | rfl | rfl | rfl | rfl | rfl | rfl | rfl | rfl | rfl |
      rfl | rfl | rfl <;>
    cases rest with
    | nil => rfl
    | cons d after =>
      by_cases hd : d = '='
      · subst hd
        rfl
      · have hne : ('=' == d) = false := by simpa using Ne.symm hd
        simp [List.filter, List.isPrefixOf, longest?, hd, hne]
  · -- a fixed text that starts so is a keyword, and a keyword starts with a letter
    have hnone : fixedText? (c :: rest) = none := by
      refine fixedText?_eq_none.2 fun more ht => ?_
      have hk := (keyword_or_mark (contains_fixedTexts.2 ht)).resolve_right hc
      rw [isNameChar_of_startsName (startsName_of_keyword hk)] at hw
      cases hw
    simp only [punctuationMarks, List.mem_cons, List.not_mem_nil, or_false, not_or] at hc
    simp [hnone, hc]

end Pushdown

namespace Lark

/-! ## Places -/

/-- Whether a lexeme is an operator that stands in no program. -/
def isLogical (l : Lexeme) : Bool :=
  l.kind = .operator && (l.chars = ['&', '&'] || l.chars = ['|', '|'])

/-- What the lexer and the scanner find at the start of the text `c :: rest`. -/
inductive Agreed (c : Char) (rest : List Char) :
    Option (Terminal × Nat) → Option (Lexeme × List Char) → Prop where
  /-- the same token -/
  | same {t : Terminal} {n : Nat} {l : Lexeme} (hchars : l.chars = c :: rest.take n)
      (hleaf : ∀ p, Leaf.ofToken ⟨l.kind, l.text, p⟩ = ⟨t, String.ofList (c :: rest.take n), p⟩)
      (hblank : t ≠ .blanks) (hname : t = .name → startsName c = true)
      (hp : isLogical l = false) : Agreed c rest (some (t, n)) (some (l, rest.drop n))
  /-- an operator that stands in no program, for which there is no terminal -/
  | logical {l : Lexeme} {after : List Char} (hp : isLogical l = true)
      (hl : l.chars = (c :: rest).take 2) : Agreed c rest none (some (l, after))
  /-- a word that does not begin like a name, which is no token -/
  | refused {n : Nat} (hn : startsName c = false) (hq : c ≠ '"') :
      Agreed c rest (some (.name, n)) none
  | neither (h : c = '"' ∨ operators.contains (String.ofList ((c :: rest).take 2)) = false) :
      Agreed c rest none none

theorem take_takeWhile (p : Char → Bool) (rest : List Char) :
    rest.take (rest.takeWhile p).length = rest.takeWhile p := by
  have h : (rest.takeWhile p ++ rest.dropWhile p).take (rest.takeWhile p).length =
      rest.takeWhile p := List.take_left
  rwa [List.takeWhile_append_dropWhile] at h

theorem drop_takeWhile (p : Char → Bool) (rest : List Char) :
    rest.drop (rest.takeWhile p).length = rest.dropWhile p := by
  have h : (rest.takeWhile p ++ rest.dropWhile p).drop (rest.takeWhile p).length =
      rest.dropWhile p := List.drop_left
  rwa [List.takeWhile_append_dropWhile] at h

theorem Leaf.ofToken_fixed {kind : TokenKind}
    (h : kind = .keyword ∨ kind = .operator ∨ kind = .symbol) (text : String) (p : Position) :
    Leaf.ofToken ⟨kind, text, p⟩ = ⟨.fixed text, text, p⟩ := by
  rcases h with rfl | rfl | rfl <;> rfl

/-- Where no operator of two characters starts, both look at one character. -/
theorem agreed_single {c : Char} {rest : List Char}
    (h : operators.contains (String.ofList ((c :: rest).take 2)) = false ∨ rest = []) :
    Agreed c rest ((punctuation? [c]).map fun _ => (.fixed (String.ofList [c]), 0))
      ((punctuation? [c]).map fun kind => (⟨kind, [c]⟩, rest)) := by
  cases h1 : punctuation? [c] with
  | some kind =>
    have hkind : kind = .operator ∨ kind = .symbol := by
      rw [punctuation?] at h1
      grind
    refine .same rfl (fun p => ?_) (by simp) (by simp) (by simp [isLogical])
    have htext : Lexeme.text ⟨kind, [c]⟩ = String.ofList [c] := by
      rcases hkind with rfl | rfl <;> rfl
    rw [htext]
    exact Leaf.ofToken_fixed (Or.inr hkind) _ p
  | none =>
    refine .neither (Or.inr ?_)
    rcases h with h | rfl
    · exact h
    · exact not_operator_of_punctuation? h1

theorem agreed_punctuation {c : Char} (hw : isNameChar c = false) (hq : c ≠ '"')
    (hb : isBlank c = false) (rest : List Char) :
    Agreed c rest (Pushdown.next c rest) (cutPunctuation c rest) := by
  rw [Pushdown.next_of_no_class rest hw hq hb, Pushdown.fixedText?_eq hw]
  have hsingle : Option.map (fun cs => (Terminal.fixed (String.ofList cs), cs.length - 1))
      ((punctuation? [c]).map fun _ => [c]) =
        (punctuation? [c]).map fun _ => (.fixed (String.ofList [c]), 0) := by
    rw [Option.map_map]
    rfl
  cases rest with
  | nil =>
    rw [if_neg (by simp), hsingle]
    exact agreed_single (Or.inr rfl)
  | cons d after =>
    simp only [cutPunctuation, punctuation?_two, List.head?_cons, Option.some.injEq]
    by_cases hp : c ∈ ['=', '!', '<', '>'] ∧ d = '='
    · rw [if_pos hp, if_pos (Or.inl hp), hp.2]
      exact .same rfl (fun p => Leaf.ofToken_fixed (by simp) _ p) (by simp) (by simp)
        (by simp [isLogical])
    · rw [if_neg hp, hsingle]
      by_cases hl : c ∈ ['&', '|'] ∧ d = c
      · rw [if_pos (Or.inr hl)]
        obtain ⟨hc, rfl⟩ := hl
        simp only [List.mem_cons, List.not_mem_nil, or_false] at hc
        rcases hc with rfl | rfl
        · exact .logical rfl rfl
        · exact .logical rfl rfl
      · rw [if_neg (not_or.2 ⟨hp, hl⟩)]
        refine agreed_single (Or.inl (not_operator_of_punctuation? ?_))
        simp only [List.take_succ_cons, List.take_zero, punctuation?_two]
        exact if_neg (not_or.2 ⟨hp, hl⟩)

theorem agreed_string (rest : List Char) :
    Agreed '"' rest (Pushdown.next '"' rest) (cutLexeme '"' rest) := by
  rw [Pushdown.next_quote, cutLexeme, if_pos rfl]
  cases hq : rest.dropWhile (· ≠ '"') with
  | nil => exact .neither (Or.inl rfl)
  | cons q after =>
    have hrest : rest.takeWhile (· ≠ '"') ++ q :: after = rest := by
      rw [← hq, List.takeWhile_append_dropWhile]
    have hquote : q = '"' := by
      have h := List.head?_dropWhile_not (· ≠ '"') rest
      rw [hq] at h
      simpa using h
    generalize rest.takeWhile (· ≠ '"') = body at hrest
    subst hrest hquote
    have htake : (body ++ '"' :: after).take (body.length + 1) = body ++ ['"'] := by
      rw [List.take_length_add_append]
      rfl
    have hdrop : (body ++ '"' :: after).drop (body.length + 1) = after := by
      rw [List.drop_length_add_append]
      rfl
    have hagreed : Agreed '"' (body ++ '"' :: after) (some (.string, body.length + 1))
        (some (⟨.string, '"' :: (body ++ ['"'])⟩,
          (body ++ '"' :: after).drop (body.length + 1))) := by
      refine .same (by rw [htake]) (fun p => ?_) (by simp) (by simp) (by simp [isLogical])
      rw [htake, Leaf.ofToken, Token.lexeme]
      simp [Lexeme.text, terminalOf, String.ext_iff]
    rwa [hdrop] at hagreed

theorem agreed_number {c : Char} (hq : c ≠ '"') (hd : isDecimal c = true) (rest : List Char) :
    Agreed c rest (Pushdown.next c rest) (cutLexeme c rest) := by
  have hc : cutLexeme c rest = some (⟨.number, c :: rest.takeWhile isNumberChar⟩,
      rest.dropWhile isNumberChar) := by
    simp [cutLexeme, hq, hd]
  rw [hc, Pushdown.next_number rest hd, ← drop_takeWhile]
  refine .same (by rw [take_takeWhile]) (fun p => ?_) (by simp) (by simp) (by simp [isLogical])
  rw [take_takeWhile]
  rfl

theorem agreed_word {c : Char} (hq : c ≠ '"') (hd : isDecimal c = false)
    (hw : isNameChar c = true) (rest : List Char) :
    Agreed c rest (Pushdown.next c rest) (cutLexeme c rest) := by
  rw [Pushdown.next_word rest hd hw]
  by_cases hn : startsName c = true
  · have hc : cutLexeme c rest = some (⟨wordKind (c :: rest.takeWhile isNameChar),
        c :: rest.takeWhile isNameChar⟩, rest.dropWhile isNameChar) := by
      simp [cutLexeme, hq, hd, hn]
    rw [hc, ← drop_takeWhile]
    refine .same (by rw [take_takeWhile]) (fun p => ?_) ?_ (fun _ => hn) ?_
    · rw [take_takeWhile, wordKind]
      split <;> rfl
    · split <;> simp
    · simp only [isLogical, wordKind]
      split <;> rfl
  · -- a numeral may go on with a word, but begins none
    have hn' : startsName c = false := by simpa using hn
    have hmark : c ∉ punctuationMarks := by
      intro hmem
      rw [not_isNameChar_of_mark (List.mem_cons_of_mem _ hmem)] at hw
      cases hw
    have hc : cutLexeme c rest = none := by
      simp [cutLexeme, hq, hd, hn', cutPunctuation_eq_none hmark]
    have hk : keywords.contains (String.ofList (c :: rest.takeWhile isNameChar)) = false := by
      rw [Bool.eq_false_iff]
      intro hk
      exact hn (startsName_of_keyword hk)
    rw [hc, hk]
    exact .refused hn' hq

/-- **At every place the lexer and the scanner agree.** -/
theorem agreed_at {c : Char} (hb : isBlank c = false) (rest : List Char) :
    Agreed c rest (Pushdown.next c rest) (cutLexeme c rest) := by
  by_cases hq : c = '"'
  · subst hq
    exact agreed_string rest
  · rcases Bool.eq_false_or_eq_true (isDecimal c) with hd | hd
    · exact agreed_number hq hd rest
    · rcases Bool.eq_false_or_eq_true (isNameChar c) with hw | hw
      · exact agreed_word hq hd hw rest
      · have hn : startsName c = false := by
          rw [Bool.eq_false_iff]
          intro hn
          rw [isNameChar_of_startsName hn] at hw
          cases hw
        have hc : cutLexeme c rest = cutPunctuation c rest := by
          simp [cutLexeme, hq, hd, hn]
        rw [hc]
        exact agreed_punctuation hw hq hb rest

/-! ## Texts -/

/-- Whether a token is an operator that stands in no program. -/
def isLogicalToken (t : Token) : Bool :=
  t.is .operator "&&" || t.is .operator "||"

/-- The tokens of a scan in front of the first operator that stands in no
    program. -/
def allowed (s : Scan) : List Token :=
  s.tokens.takeWhile fun t => !isLogicalToken t

/-- Why a text is refused behind these tokens, if it goes on. -/
def refusal? (s : Scan) : Option SourceError :=
  match s.tokens.find? isLogicalToken with
  | some t => some (.parse (.unexpectedToken t.text t.pos))
  | none => match s.ending with
    | .ok _ => none
    | .error e => some (.lex e)

/-- The failure of the source text that the end of a lexing stands for. -/
def Stop.failure? (source : String) : Stop → Option SourceError
  | .finished => none
  | .unmatched c p offset => some (mismatchAt source c p offset)
  | .raised e => some (.lex e)

theorem isLogicalToken_of_lexeme (l : Lexeme) (p : Position) :
    isLogicalToken ⟨l.kind, l.text, p⟩ = isLogical l := by
  by_cases hk : l.kind = .operator
  · have ht : ∀ cs, (l.text = String.ofList cs) ↔ l.chars = cs := by
      intro cs
      simp [Lexeme.text, hk, String.ofList_inj]
    simp only [isLogicalToken, Token.is, isLogical, hk, decide_true, Bool.true_and,
      show "&&" = String.ofList ['&', '&'] from rfl, show "||" = String.ofList ['|', '|'] from rfl,
      ht]
  · simp [isLogicalToken, Token.is, isLogical, hk]

section Mismatch

variable {source : String} {before rest : List Char} {c : Char}

/-- Where both find nothing, both name the same failure. -/
theorem mismatchAt_of_neither (hsource : source.toList = before ++ c :: rest) (p : Position)
    (h : c = '"' ∨ operators.contains (String.ofList ((c :: rest).take 2)) = false) :
    mismatchAt source c p before.length = .lex (lexErrorAt c p) := by
  have htake : (source.toList.drop before.length).take 2 = (c :: rest).take 2 := by
    rw [hsource, List.drop_left]
  unfold mismatchAt lexErrorAt
  by_cases hq : c = '"'
  · simp [hq]
  · simp only [hq, if_false, htake, h.resolve_left hq, Bool.false_eq_true]

/-- An operator that stands in no program is named by its token. -/
theorem mismatchAt_of_logical (hsource : source.toList = before ++ c :: rest) {l : Lexeme}
    (p : Position) (hp : isLogical l = true) (hl : l.chars = (c :: rest).take 2) :
    mismatchAt source c p before.length = .parse (.unexpectedToken l.text p) := by
  have htake : (source.toList.drop before.length).take 2 = (c :: rest).take 2 := by
    rw [hsource, List.drop_left]
  simp only [isLogical, Bool.and_eq_true, Bool.or_eq_true, decide_eq_true_eq] at hp
  obtain ⟨hk, hchars⟩ := hp
  have ht : l.text = String.ofList ((c :: rest).take 2) := by
    simp [Lexeme.text, hk, hl]
  have hq : c ≠ '"' := by
    rintro rfl
    rcases hchars with h | h <;> rw [hl] at h <;> simp at h
  have ho : operators.contains (String.ofList ((c :: rest).take 2)) = true := by
    rw [← hl]
    rcases hchars with h | h <;> rw [h] <;> decide
  simp only [mismatchAt, hq, if_false, htake, ho, if_true, ht]

end Mismatch

theorem allowed_cons {t : Token} (h : isLogicalToken t = false) (s : Scan) :
    allowed ⟨t :: s.tokens, s.ending⟩ = t :: allowed s := by
  simp [allowed, h]

theorem refusal?_cons {t : Token} (h : isLogicalToken t = false) (s : Scan) :
    refusal? ⟨t :: s.tokens, s.ending⟩ = refusal? s := by
  simp [refusal?, h]

theorem lexFrom_cons (g : Grammar) (callbacks : Callbacks) (next : Lexer) (offset : Nat)
    (p : Position) (c : Char) (rest : List Char) :
    lexFrom g callbacks next offset p (c :: rest) = match next c rest with
      | none => ⟨[], .unmatched c p offset⟩
      | some (t, n) =>
        let following := lexFrom g callbacks next (offset + (c :: rest.take n).length)
          (p.afterAll (c :: rest.take n)) (rest.drop n)
        if g.ignored t then following
        else match callbacks.apply ⟨t, String.ofList (c :: rest.take n), p⟩ with
          | .error e => ⟨[], .raised e⟩
          | .ok leaf => ⟨leaf :: following.leaves, following.stop⟩ := by
  rcases hnext : next c rest with _ | ⟨t, n⟩
  · simp only [lexFrom, hnext]
  · by_cases ht : g.ignored t = true
    · simp only [lexFrom, hnext, if_pos ht]
    · cases happly : callbacks.apply ⟨t, String.ofList (c :: rest.take n), p⟩ <;>
        simp only [lexFrom, hnext, if_neg ht, happly]

theorem ignored_blanks : programGrammar.ignored .blanks = true :=
  rfl

theorem not_ignored {t : Terminal} (h : t ≠ .blanks) : programGrammar.ignored t = false :=
  decide_eq_false h

/-- Only names are checked. -/
theorem apply_eq {t : Terminal} {c : Char} {more : List Char} {p : Position}
    (h : t = .name → startsName c = true) :
    programCallbacks.apply ⟨t, String.ofList (c :: more), p⟩ =
      .ok ⟨t, String.ofList (c :: more), p⟩ := by
  cases t with
  | name => simp [Callbacks.apply, programCallbacks, checkName, h rfl]
  | _ => rfl

/-- The lexing from a place on is the scan up to the first operator that stands
    in no program. -/
theorem lexFrom_eq {source : String} (p : Position) : ∀ {before cs : List Char},
    source.toList = before ++ cs →
    (lexFrom programGrammar programCallbacks Pushdown.next before.length p cs).leaves =
        (allowed (scanFrom p cs)).map Leaf.ofToken ∧
      (lexFrom programGrammar programCallbacks Pushdown.next before.length p cs).stop.failure?
        source = refusal? (scanFrom p cs)
  | _, [], _ => by
    rw [lexFrom, scanFrom]
    exact ⟨rfl, rfl⟩
  | before, c :: rest, hsource => by
    have hnext : ∀ n, source.toList = (before ++ c :: rest.take n) ++ rest.drop n := by
      intro n
      rw [List.append_assoc, List.cons_append, List.take_append_drop, hsource]
    rw [lexFrom_cons]
    rcases Bool.eq_false_or_eq_true (isBlank c) with hb | hb
    · rw [Pushdown.next_blank rest hb, scanFrom, if_pos hb, scanFrom_skip]
      have ih := lexFrom_eq (p.afterAll (c :: rest.takeWhile isBlank))
        (hnext (rest.takeWhile isBlank).length)
      rw [List.length_append, take_takeWhile, drop_takeWhile] at ih
      simp only [take_takeWhile, drop_takeWhile, ignored_blanks, if_true]
      exact ih
    · have hagreed := agreed_at hb rest
      rw [scanFrom_cons hb]
      generalize Pushdown.next c rest = found at hagreed
      generalize cutLexeme c rest = cut at hagreed
      cases hagreed with
      | @same t n l hchars hleaf hblank hname hp =>
        have hl := isLogicalToken_of_lexeme l p
        rw [hp] at hl
        have ih := lexFrom_eq (p.afterAll (c :: rest.take n)) (hnext n)
        rw [List.length_append] at ih
        simp only [hchars]
        simp only [allowed_cons hl, refusal?_cons hl, apply_eq hname, not_ignored hblank,
          Bool.false_eq_true, if_false, List.map_cons, hleaf, ih.1, ih.2, and_self]
      | @logical l after hp hl =>
        have htoken := isLogicalToken_of_lexeme l p
        rw [hp] at htoken
        simp [allowed, refusal?, htoken, Stop.failure?, mismatchAt_of_logical hsource p hp hl]
      | @refused n hn hq =>
        simp [allowed, refusal?, programGrammar, Callbacks.apply, programCallbacks, checkName, hn,
          Stop.failure?, lexErrorAt, hq]
      | neither h =>
        simp [allowed, refusal?, Stop.failure?, mismatchAt_of_neither hsource p h]
termination_by _ cs => cs.length

/-- **The lexing of a text is its scan up to the first operator that stands in
    no program.** -/
theorem Package.Follows.lexing_eq {P : Package} (hP : P.Follows programGrammar programCallbacks)
    (source : String) :
    (P.lexing programGrammar programCallbacks source).leaves =
        (allowed (scan source)).map Leaf.ofToken ∧
      (P.lexing programGrammar programCallbacks source).stop.failure? source =
        refusal? (scan source) := by
  have hnext : P.next = Pushdown.next := funext fun c => funext fun rest => hP.next_eq c rest
  rw [Package.lexing, hnext]
  exact lexFrom_eq .start (List.nil_append _).symm

end Lark

end BlockScript
