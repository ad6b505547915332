/-
  BlockScript — how the tokens of a text lie in it.

  A text that can be cut into tokens is blanks and lexemes in turn.  Each token
  has the place of its first character, and none could be longer.  A text that
  cannot be cut has a first place where no token starts, and what stands before
  that place can be cut.

  * `positionAt`: the place after a text, by counting;
  * `LaidOut`: blanks and lexemes in turn, each token at its place and as long
    as it can be (`TokenKind.Maximal`);
  * `scanFrom_laidOut`, `LaidOut.scanFrom`: the tokens of a text are laid out
    in it, and tokens that are laid out in a text are its tokens;
  * `scanFrom_error`, `NoToken`: the place of a failure;
  * `tokenize_layout`: both endings of a scan.
-/
import BlockScript.Proofs.Rendering

namespace BlockScript

/-! ## Places -/

/-- The place of the character after a text: one more than the line feeds in
    it, and one more than the characters after the last of them. -/
def positionAt (before : List Char) : Position :=
  ⟨1 + before.count '\n', 1 + (before.reverse.takeWhile (· ≠ '\n')).length⟩

theorem positionAt_snoc (before : List Char) (c : Char) :
    positionAt (before ++ [c]) = (positionAt before).after c := by
  by_cases hc : c = '\n'
  · subst hc
    simp [positionAt, Position.after, Nat.add_assoc]
  · simp [positionAt, Position.after, hc, Nat.add_assoc, List.count_append]

theorem afterAll_positionAt (before cs : List Char) :
    (positionAt before).afterAll cs = positionAt (before ++ cs) := by
  induction cs generalizing before with
  | nil => rw [List.append_nil]; rfl
  | cons c cs ih =>
    have hstep : (positionAt before).afterAll (c :: cs) = ((positionAt before).after c).afterAll cs :=
      rfl
    rw [hstep, ← positionAt_snoc, ih, List.append_assoc]
    rfl

/-! ## Layouts -/

/-- The given tokens lie in a text, which stands after the text `before`: it is
    blanks and lexemes in turn, and each token is of its kind, has the place
    where it starts, and cannot go on. -/
inductive LaidOut : List Char → List Token → List Char → Prop where
  | done {before blanks : List Char} (hblank : ∀ c ∈ blanks, isBlank c = true) :
      LaidOut before [] blanks
  | token {before blanks after : List Char} {t : Token} {ts : List Token}
      (hblank : ∀ c ∈ blanks, isBlank c = true) (hadmits : t.kind.Admits t.text)
      (hplace : t.pos = positionAt (before ++ blanks)) (hmaximal : t.kind.Maximal t.text after)
      (h : LaidOut (before ++ blanks ++ t.lexeme.toList) ts after) :
      LaidOut before (t :: ts) (blanks ++ t.lexeme.toList ++ after)

/-- One more blank in front. -/
theorem LaidOut.blank {before cs : List Char} {c : Char} {ts : List Token}
    (hc : isBlank c = true) (h : LaidOut (before ++ [c]) ts cs) : LaidOut before ts (c :: cs) := by
  cases h with
  | done hblank => exact .done (List.forall_mem_cons.2 ⟨hc, hblank⟩)
  | @token _ blanks after t ts hblank hadmits hplace hmaximal h =>
    have hfront : before ++ [c] ++ blanks = before ++ c :: blanks := by simp
    rw [hfront] at hplace h
    exact .token (List.forall_mem_cons.2 ⟨hc, hblank⟩) hadmits hplace hmaximal h

/-- One more lexeme in front. -/
theorem LaidOut.lexeme {before rest after after' : List Char} {c : Char} {l : Lexeme}
    {ts : List Token} (hcut : Cut c rest l after) (hmaximal : l.kind.Maximal l.text after')
    (h : LaidOut (before ++ l.chars) ts after') :
    LaidOut before (⟨l.kind, l.text, positionAt before⟩ :: ts) (l.chars ++ after') := by
  have hlexeme := hcut.lexeme (positionAt before)
  have htoken : LaidOut before (⟨l.kind, l.text, positionAt before⟩ :: ts)
      ([] ++ (Token.lexeme ⟨l.kind, l.text, positionAt before⟩).toList ++ after') := by
    refine .token (by simp) hcut.admits (by rw [List.append_nil]) hmaximal ?_
    rw [List.append_nil, hlexeme]
    exact h
  rwa [hlexeme, List.nil_append] at htoken

/-- **The tokens of a text are laid out in it.** -/
theorem scanFrom_laidOut {before cs : List Char} {q : Position}
    (h : (scanFrom (positionAt before) cs).ending = .ok q) :
    LaidOut before (scanFrom (positionAt before) cs).tokens cs ∧ q = positionAt (before ++ cs) := by
  refine scanFrom_induction (motive := fun p cs => ∀ before, p = positionAt before →
    (scanFrom p cs).ending = .ok q →
      LaidOut before (scanFrom p cs).tokens cs ∧ q = positionAt (before ++ cs))
    ?_ ?_ ?_ cs _ q h before rfl h
  · rintro p before rfl h
    rw [scanFrom] at h ⊢
    cases h
    exact ⟨.done (by simp), by rw [List.append_nil]⟩
  · rintro p c rest hb ih before rfl h
    rw [scanFrom_of_blank _ rest hb] at h ⊢
    obtain ⟨hlaid, hq⟩ := ih (before ++ [c]) (positionAt_snoc before c).symm h
    exact ⟨hlaid.blank hb, by simpa using hq⟩
  · rintro p c rest l after hb hcut ih before rfl h
    rw [scanFrom_of_cut _ hb hcut] at h ⊢
    obtain ⟨hlaid, hq⟩ := ih (before ++ l.chars) (afterAll_positionAt before l.chars) h
    rw [hcut.chars]
    exact ⟨hlaid.lexeme hcut hcut.maximal, by simpa using hq⟩

/-- The lexeme of a token that cannot go on is cut off. -/
theorem cut_of_maximal {t : Token} {after : List Char} (h : t.kind.Admits t.text)
    (hmaximal : t.kind.Maximal t.text after) :
    ∃ c rest, t.lexeme.toList = c :: rest ∧
      Cut c (rest ++ after) ⟨t.kind, t.lexeme.toList⟩ after := by
  obtain ⟨c, rest, hcs, hcut⟩ := cut_of_admits h
  rw [← hcs] at hcut
  exact ⟨c, rest, hcs, hcut.append_of_maximal fun _ => (Lexeme.text_of_token t).symm ▸ hmaximal⟩

/-- Blanks in front of a text only move it. -/
theorem scanFrom_blanks {blanks : List Char} (h : ∀ c ∈ blanks, isBlank c = true)
    (before cs : List Char) :
    scanFrom (positionAt before) (blanks ++ cs) = scanFrom (positionAt (before ++ blanks)) cs := by
  induction blanks generalizing before with
  | nil => rw [List.append_nil, List.nil_append]
  | cons c blanks ih =>
    obtain ⟨hc, hblanks⟩ := List.forall_mem_cons.1 h
    rw [List.cons_append, scanFrom_of_blank _ _ hc, ← positionAt_snoc, ih hblanks]
    simp

/-- **Tokens that are laid out in a text are its tokens.** -/
theorem LaidOut.scanFrom {before cs : List Char} {ts : List Token} (h : LaidOut before ts cs) :
    scanFrom (positionAt before) cs = ⟨ts, .ok (positionAt (before ++ cs))⟩ := by
  induction h with
  | @done before blanks hblank =>
    have hskip := scanFrom_blanks hblank before []
    rw [List.append_nil] at hskip
    rw [hskip, BlockScript.scanFrom]
  | @token before blanks after t ts hblank hadmits hplace hmaximal _ ih =>
    obtain ⟨c, rest, hcs, hcut⟩ := cut_of_maximal hadmits hmaximal
    have hfront : t.lexeme.toList ++ after = c :: (rest ++ after) := by rw [hcs, List.cons_append]
    rw [List.append_assoc, scanFrom_blanks hblank, hfront, scanFrom_of_cut _ hcut.not_isBlank hcut,
      afterAll_positionAt, ih, Lexeme.text_of_token, ← hplace]
    simp [hcs]

/-! ## Failures -/

/-- No token of any kind starts a text. -/
def NoToken (cs : List Char) : Prop :=
  ∀ t : Token, t.kind.Admits t.text → ¬ t.lexeme.toList <+: cs

/-- A text that cannot be cut has a place before which it can be cut, and where
    no lexeme is cut off. -/
theorem scanFrom_error {e : LexError} : ∀ (before cs : List Char),
    (scanFrom (positionAt before) cs).ending = .error e →
      ∃ front c rest ts, cs = front ++ c :: rest ∧ LaidOut before ts front ∧
        isBlank c = false ∧ cutLexeme c rest = none ∧
          e = lexErrorAt c (positionAt (before ++ front))
  | before, [], h => by
    rw [scanFrom] at h
    cases h
  | before, c :: rest, h => by
    rcases Bool.eq_false_or_eq_true (isBlank c) with hb | hb
    · rw [scanFrom_of_blank _ rest hb, ← positionAt_snoc] at h
      obtain ⟨front, d, rest', ts, hcs, hlaid, hplace⟩ := scanFrom_error (before ++ [c]) rest h
      refine ⟨c :: front, d, rest', ts, by rw [hcs]; rfl, hlaid.blank hb, ?_⟩
      simpa using hplace
    · cases hc : cutLexeme c rest with
      | none =>
        rw [scanFrom_cons hb, hc] at h
        cases h
        exact ⟨[], c, rest, [], rfl, .done (by simp), hb, hc, by rw [List.append_nil]⟩
      | some cut =>
        obtain ⟨l, after⟩ := cut
        have hlength := length_le_of_cutLexeme hc
        have hcut := cutLexeme_iff.1 hc
        rw [scanFrom_of_cut _ hb hcut, afterAll_positionAt] at h
        obtain ⟨front, d, rest', ts, hcs, hlaid, hplace⟩ :=
          scanFrom_error (before ++ l.chars) after h
        -- what the lexeme cannot go on into is cut short, too
        have hmaximal : l.kind.Maximal l.text front := by
          have hlong := hcut.maximal
          rw [hcs] at hlong
          exact hlong.of_append
        refine ⟨l.chars ++ front, d, rest', _, ?_, hlaid.lexeme hcut hmaximal, ?_⟩
        · rw [hcut.chars, hcs, List.append_assoc]
        · simpa using hplace
termination_by _ cs => cs.length

/-- Where a lexeme starts, one starts whatever follows it. -/
theorem Cut.exists_append {c : Char} {rest after : List Char} {l : Lexeme}
    (h : Cut c rest l after) (ds : List Char) : ∃ l' after', Cut c (rest ++ ds) l' after' := by
  cases h with
  | string hc hrest hinner => exact ⟨_, after ++ ds, .string hc (by simp [hrest]) hinner⟩
  | number hq hd => exact ⟨_, _, .number hq hd⟩
  | word hq hd hn => exact ⟨_, _, .word hq hd hn⟩
  | double hq hd hn hrest hk => exact ⟨_, after ++ ds, .double hq hd hn (by simp [hrest]) hk⟩
  | single hq hd hn hk hnext =>
    by_cases hnone : ∀ d ∈ (rest ++ ds).head?, punctuation? [c, d] = none
    · exact ⟨_, _, .single hq hd hn hk hnone⟩
    · simp only [Classical.not_forall] at hnone
      obtain ⟨d, hhead, hsome⟩ := hnone
      obtain ⟨kind, hkind⟩ := Option.ne_none_iff_exists'.1 hsome
      obtain ⟨after', hafter⟩ := List.head?_eq_some_iff.1 hhead
      exact ⟨_, _, .double hq hd hn hafter hkind⟩

/-- Where no lexeme is cut off, no token starts. -/
theorem noToken_of_cutLexeme {c : Char} {rest : List Char} (h : cutLexeme c rest = none) :
    NoToken (c :: rest) := by
  rintro t hadmits ⟨after, hafter⟩
  obtain ⟨d, more, hcs, hcut⟩ := cut_of_admits hadmits
  rw [hcs, List.cons_append] at hafter
  obtain ⟨rfl, rfl⟩ := List.cons.inj hafter
  obtain ⟨l, after', hlonger⟩ := hcut.exists_append after
  rw [cutLexeme_iff.2 hlonger] at h
  cases h

/-- Where no string is cut off after a quote, the text has no other one. -/
theorem quote_not_mem_of_cutLexeme {rest : List Char} (h : cutLexeme '"' rest = none) :
    '"' ∉ rest := by
  rw [cutLexeme, if_pos rfl] at h
  split at h
  · rename_i hdrop
    have htake : rest.takeWhile (· ≠ '"') = rest := by
      have hparts := List.takeWhile_append_dropWhile (p := fun d => decide (d ≠ '"')) (l := rest)
      rwa [hdrop, List.append_nil] at hparts
    intro hmem
    rw [← htake] at hmem
    simpa using List.all_eq_true.1 List.all_takeWhile '"' hmem
  · cases h

/-! ## Texts -/

theorem ending_of_tokenize {source : String} {e : LexError} (h : tokenize source = .error e) :
    (scan source).ending = .error e := by
  simp only [tokenize] at h
  split at h
  · cases h
  · rename_i he
    cases h
    exact he

/-- **The tokens of a text.**  A text is cut into tokens exactly if these are
    laid out in it, with an end token at the place where the text ends.  A text
    that is not cut has a place before which it could be cut, and from where on
    it is a string that is not closed, or starts with a visible character with
    which no token starts; the failure and its message tell which, and the
    place. -/
theorem tokenize_layout (source : String) :
    (∀ ts, tokenize source = .ok ts ↔
      ∃ body, ts = body ++ [Token.eof (positionAt source.toList)] ∧
        LaidOut [] body source.toList) ∧
    ∀ e, tokenize source = .error e →
      ∃ before c rest, source.toList = before ++ c :: rest ∧
        (∃ ts, tokenize (String.ofList before) = .ok ts) ∧
        (c = '"' ∧ '"' ∉ rest ∧ e = .unterminatedString (positionAt before) ∧
            e.message = "unterminated string literal at " ++
              Nat.repr (positionAt before).line ++ ":" ++ Nat.repr (positionAt before).column ∨
          c ≠ '"' ∧ isBlank c = false ∧ NoToken (c :: rest) ∧
            e = .unexpectedCharacter c (positionAt before) ∧
            e.message = "unexpected character " ++ quoted (String.ofList [c]) ++ " at " ++
              Nat.repr (positionAt before).line ++ ":" ++
              Nat.repr (positionAt before).column) := by
  have hstart : scan source = scanFrom (positionAt []) source.toList := rfl
  constructor
  · intro ts
    rw [tokenize_eq_ok_iff, hstart]
    constructor
    · rintro ⟨p, hending, rfl⟩
      obtain ⟨hlaid, rfl⟩ := scanFrom_laidOut hending
      exact ⟨_, rfl, hlaid⟩
    · rintro ⟨body, rfl, hlaid⟩
      rw [hlaid.scanFrom]
      exact ⟨_, rfl, rfl⟩
  · intro e h
    have hending : (scanFrom (positionAt []) source.toList).ending = .error e := by
      rw [← hstart]
      exact ending_of_tokenize h
    obtain ⟨front, c, rest, ts, hcs, hlaid, hb, hnone, rfl⟩ := scanFrom_error [] _ hending
    refine ⟨front, c, rest, hcs, ?_, ?_⟩
    · have hfront : scan (String.ofList front) = ⟨ts, .ok (positionAt front)⟩ := by
        rw [scan, String.toList_ofList]
        exact hlaid.scanFrom
      exact ⟨_, tokenize_eq_ok_iff.2 ⟨positionAt front, by rw [hfront], rfl⟩⟩
    · rw [List.nil_append, lexErrorAt]
      by_cases hc : c = '"'
      · subst hc
        rw [if_pos rfl]
        exact Or.inl ⟨rfl, quote_not_mem_of_cutLexeme hnone, rfl, Position.append_text _ _⟩
      · rw [if_neg hc]
        exact Or.inr ⟨hc, hb, noToken_of_cutLexeme hnone, rfl, Position.append_text _ _⟩

/-- A superscript digit may go on a name, but starts nothing. -/
theorem tokenize_layout_superscript :
    tokenize "a²<=\n ²" = .error (.unexpectedCharacter '²' ⟨2, 2⟩) ∧
      ∃ before c rest, "a²<=\n ²".toList = before ++ c :: rest ∧
        (∃ ts, tokenize (String.ofList before) = .ok ts) ∧
        (⟨2, 2⟩ : Position) = positionAt before ∧ NoToken (c :: rest) ∧
        (LexError.unexpectedCharacter '²' ⟨2, 2⟩).message = "unexpected character '²' at 2:2" := by
  have hfails : (tokenize "a²<=\n ²").casesOn
      (fun e => decide (e = .unexpectedCharacter '²' ⟨2, 2⟩)) (fun _ => false) = true := by
    decide +kernel
  have herror : tokenize "a²<=\n ²" = .error (.unexpectedCharacter '²' ⟨2, 2⟩) := by
    cases htokens : tokenize "a²<=\n ²" with
    | error e =>
      rw [htokens] at hfails
      exact congrArg _ (of_decide_eq_true hfails)
    | ok ts =>
      rw [htokens] at hfails
      cases hfails
  obtain ⟨before, c, rest, hsplit, hbefore, hcase⟩ := (tokenize_layout _).2 _ herror
  refine ⟨herror, before, c, rest, hsplit, hbefore, ?_⟩
  rcases hcase with ⟨-, -, he, -⟩ | ⟨-, -, hnone, he, hmessage⟩
  · cases he
  · obtain ⟨rfl, hplace⟩ := LexError.unexpectedCharacter.inj he
    refine ⟨hplace, hnone, ?_⟩
    rw [hmessage, ← hplace]
    decide

end BlockScript
