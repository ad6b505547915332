/-
  BlockScript — tokens.

  A token is a kind and a text, with the place where it starts in the source.
  The text of a string token is what stands between its quotes; the text of
  every other token is its lexeme.

  * `Token`: a token; `Token.lexeme` is its form in the source;
  * `Token.same s t`: equal in kind and text, wherever they stand;
  * `Token.describe`: how a message names a token, `Token.shown` how it is
    shown with its kind.
-/
import BlockScript.Text.Quoted

namespace BlockScript

/-- A place in a source text, counted in lines and characters from one. -/
structure Position where
  line : Nat
  column : Nat
  deriving DecidableEq

/-- A place as messages give it. -/
def Position.text (p : Position) : String :=
  Nat.repr p.line ++ ":" ++ Nat.repr p.column

/-- A place at the end of a message. -/
theorem Position.append_text (message : String) (p : Position) :
    message ++ p.text = message ++ Nat.repr p.line ++ ":" ++ Nat.repr p.column := by
  rw [Position.text, ← String.append_assoc, ← String.append_assoc]

/-- The kinds of token. -/
inductive TokenKind where
  | number
  | identifier
  | keyword
  | operator
  | symbol
  | string
  | endOfInput
  deriving DecidableEq

/-- The word for a kind in messages. -/
def TokenKind.word : TokenKind → String
  | .number => "Number"
  | .identifier => "Identifier"
  | .keyword => "Keyword"
  | .operator => "Operator"
  | .symbol => "Symbol"
  | .string => "String"
  | .endOfInput => "EndOfInput"

/-- The label of a kind in the shown form of a token. -/
def TokenKind.label : TokenKind → String
  | .number => "NUMBER"
  | .identifier => "IDENTIFIER"
  | .keyword => "KEYWORD"
  | .operator => "OPERATOR"
  | .symbol => "SYMBOL"
  | .string => "STRING"
  | .endOfInput => "EOF"

/-- A token. -/
structure Token where
  kind : TokenKind
  text : String
  pos : Position
  deriving DecidableEq

/-- The words that are no names. -/
def keywords : List String :=
  ["if", "else", "while", "true", "false", "print"]

/-- The lexemes of operators. -/
def operators : List String :=
  ["+", "-", "*", "/", "%", "==", "!=", "<", ">", "<=", ">=", "&&", "||", "!"]

/-- The lexemes of symbols. -/
def symbols : List String :=
  ["=", ";", "(", ")", "\x7b", "\x7d"]

/-- The token for the end of the input. -/
def Token.eof (p : Position) : Token :=
  ⟨.endOfInput, "", p⟩

/-- Whether a token is the end of the input. -/
def Token.isEnd (t : Token) : Bool :=
  t.kind = .endOfInput

/-- Whether a token has the given kind and text. -/
def Token.is (t : Token) (kind : TokenKind) (text : String) : Bool :=
  t.kind = kind && t.text = text

/-- Whether two tokens are equal in kind and text. -/
def Token.same (s t : Token) : Bool :=
  s.kind = t.kind && s.text = t.text

/-- The form of a token in the source. -/
def Token.lexeme (t : Token) : String :=
  if t.kind = .string then "\"" ++ t.text ++ "\"" else t.text

/-- How a message names a token. -/
def Token.describe (t : Token) : String :=
  if t.isEnd then "end of input" else t.kind.word ++ " " ++ quoted t.lexeme

/-- A token together with its kind. -/
def Token.shown (t : Token) : String :=
  t.kind.label ++ "(" ++ quoted t.text ++ ")"

end BlockScript
