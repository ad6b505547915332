/-
  BlockScript — cutting a source text into tokens.

  The scanner skips blanks and dispatches on the next character: a double
  quote opens a string that runs to the next double quote, a decimal digit
  opens a number (a run of digits and points), a letter or an underscore opens
  a name or keyword, and all else has to be an operator or a symbol, of which
  the longer one is taken.

  * `cutLexeme c rest`: the lexeme that starts with `c`;
  * `Scan`: the tokens read, and how the reading ended: at the end of the text
    or at a place where no token starts;
  * `scan s`: the scan of a source text;
  * `tokenize s`: all tokens of `s`, closed by an end token, or the failure.
-/
import BlockScript.Text.Blank
import BlockScript.Text.Letter
import BlockScript.Token

namespace BlockScript

/-! ## Places -/

/-- The first place of a source text. -/
def Position.start : Position := ⟨1, 1⟩

/-- The place after a character: only a line feed starts a new line. -/
def Position.after (p : Position) (c : Char) : Position :=
  if c = '\n' then ⟨p.line + 1, 1⟩ else ⟨p.line, p.column + 1⟩

/-- The place after several characters. -/
def Position.afterAll (p : Position) (cs : List Char) : Position :=
  cs.foldl Position.after p

/-! ## Lexemes -/

/-- A place where no token starts. -/
inductive LexError where
  /-- a string that is not closed -/
  | unterminatedString (pos : Position)
  | unexpectedCharacter (c : Char) (pos : Position)
  deriving DecidableEq

/-- The wording of a scanner's failure. -/
def LexError.message : LexError → String
  | .unterminatedString p => "unterminated string literal at " ++ p.text
  | .unexpectedCharacter c p => "unexpected character " ++ quoted (String.ofList [c]) ++ " at " ++
      p.text

/-- A piece of source text that makes a token. -/
structure Lexeme where
  kind : TokenKind
  chars : List Char

/-- Whether a character may stand in a number. -/
def isNumberChar (c : Char) : Bool :=
  isDecimal c || c = '.'

/-- Whether a character may begin a name. -/
def startsName (c : Char) : Bool :=
  isLetter c || c = '_'

/-- Whether a character may continue a name. -/
def isNameChar (c : Char) : Bool :=
  isAlphanumeric c || c = '_'

/-- The kind of a lexeme made of punctuation. -/
def punctuation? (cs : List Char) : Option TokenKind :=
  let text := String.ofList cs
  if operators.contains text then some .operator
  else if symbols.contains text then some .symbol
  else none

/-- The kind of a word. -/
def wordKind (cs : List Char) : TokenKind :=
  if keywords.contains (String.ofList cs) then .keyword else .identifier

/-- The longest operator or symbol at the start of a text, and what follows
    it.  No lexeme of punctuation has more than two characters. -/
def cutPunctuation (c : Char) (rest : List Char) : Option (Lexeme × List Char) :=
  let single := (punctuation? [c]).map fun kind => (⟨kind, [c]⟩, rest)
  match rest with
  | [] => single
  | d :: after => match punctuation? [c, d] with
    | some kind => some (⟨kind, [c, d]⟩, after)
    | none => single

/-- The lexeme at the start of the text `c :: rest`, where `c` is not blank,
    and what follows it; nothing if no token starts there. -/
def cutLexeme (c : Char) (rest : List Char) : Option (Lexeme × List Char) :=
  if c = '"' then
    match rest.dropWhile (· ≠ '"') with
    | [] => none
    | quote :: after => some (⟨.string, c :: rest.takeWhile (· ≠ '"') ++ [quote]⟩, after)
  else if isDecimal c then
    some (⟨.number, c :: rest.takeWhile isNumberChar⟩, rest.dropWhile isNumberChar)
  else if startsName c then
    let word := c :: rest.takeWhile isNameChar
    some (⟨wordKind word, word⟩, rest.dropWhile isNameChar)
  else cutPunctuation c rest

/-- The text of a lexeme's token: a string without its quotes. -/
def Lexeme.text (l : Lexeme) : String :=
  String.ofList (if l.kind = .string then (l.chars.drop 1).dropLast else l.chars)

/-- Why no token starts with a character. -/
def lexErrorAt (c : Char) (p : Position) : LexError :=
  if c = '"' then .unterminatedString p else .unexpectedCharacter c p

theorem length_dropWhile_le (p : Char → Bool) (cs : List Char) :
    (cs.dropWhile p).length ≤ cs.length :=
  (List.dropWhile_suffix p).length_le

/-- What follows a lexeme is no longer than what follows its first
    character. -/
theorem length_le_of_cutLexeme {c : Char} {rest after : List Char} {l : Lexeme}
    (h : cutLexeme c rest = some (l, after)) : after.length ≤ rest.length := by
  unfold cutLexeme at h
  split at h
  · split at h
    · cases h
    · next q r hr =>
      have := length_dropWhile_le (· ≠ '"') rest
      rw [hr] at this
      cases h
      simp only [List.length_cons] at this
      omega
  · split at h
    · cases h
      exact length_dropWhile_le isNumberChar rest
    · split at h
      · cases h
        exact length_dropWhile_le isNameChar rest
      · unfold cutPunctuation at h
        split at h
        · obtain ⟨k, -, hk⟩ := Option.map_eq_some_iff.1 h
          cases hk
          exact Nat.le_refl _
        · split at h
          · cases h
            simp
          · obtain ⟨k, -, hk⟩ := Option.map_eq_some_iff.1 h
            cases hk
            exact Nat.le_refl _

/-! ## Scanning -/

/-- The tokens of a text up to a place where none starts, or up to its end. -/
structure Scan where
  tokens : List Token
  /-- the place of the end, or the failure -/
  ending : Except LexError Position

/-- The scan of what is left of a text from a place on. -/
def scanFrom (p : Position) (cs : List Char) : Scan :=
  match cs with
  | [] => ⟨[], .ok p⟩
  | c :: rest =>
    if isBlank c then scanFrom (p.after c) rest
    else
      match h : cutLexeme c rest with
      | none => ⟨[], .error (lexErrorAt c p)⟩
      | some (l, after) =>
        have := length_le_of_cutLexeme h
        let remaining := scanFrom (p.afterAll l.chars) after
        ⟨⟨l.kind, l.text, p⟩ :: remaining.tokens, remaining.ending⟩
termination_by cs.length

/-- The scan of a source text. -/
def scan (source : String) : Scan :=
  scanFrom .start source.toList

/-- All tokens of a source text, with an end token after them. -/
def tokenize (source : String) : Except LexError (List Token) :=
  let s := scan source
  match s.ending with
  | .ok p => .ok (s.tokens ++ [Token.eof p])
  | .error e => .error e

end BlockScript
