/-
  BlockScript — why a source text is not a program.

  * `ParseError`: the causes found in the tokens of a text.  The two ways of
    parsing word an unexpected token differently: one says what it expected,
    the other only what it found;
  * `SourceError`: a failure of the scanner or of a parser.
-/
import BlockScript.Token.Scanner

namespace BlockScript

/-- Why tokens are not a program. -/
inductive ParseError where
  /-- the given symbol had to come -/
  | expectedSymbol (text : String) (got : Token)
  | expectedExpression (got : Token)
  /-- the token opens one level more than allowed -/
  | nestedTooDeeply (opening : Token)
  /-- the token of a number whose text writes no number -/
  | malformedNumber (token : Token)
  /-- no program goes on with the token that is written so -/
  | unexpectedToken (lexeme : String) (pos : Position)
  /-- no program ends here -/
  | unexpectedEnd
  /-- the text is refused at a place, for no other reason -/
  | unexpectedInput (pos : Position)
  /-- the tree of the whole text is too deep -/
  | treeTooDeep
  deriving DecidableEq

/-- The wording of a parser's failure. -/
def ParseError.message : ParseError → String
  | .expectedSymbol text t =>
    "expected '" ++ text ++ "' at " ++ t.pos.text ++ ", got " ++ t.describe
  | .expectedExpression t => "expected expression at " ++ t.pos.text ++ ", got " ++ t.describe
  | .nestedTooDeeply t => "nested too deeply at " ++ t.pos.text
  | .malformedNumber t =>
    "malformed number literal " ++ quoted t.text ++ " at " ++ t.pos.text
  | .unexpectedToken lexeme p => "unexpected token " ++ quoted lexeme ++ " at " ++ p.text
  | .unexpectedEnd => "unexpected end of input"
  | .unexpectedInput p => "unexpected input at " ++ p.text
  | .treeTooDeep => "program nested too deeply"

/-- The token that a failure is located at, where it carries one. -/
def ParseError.token? : ParseError → Option Token
  | .expectedSymbol _ t | .expectedExpression t | .nestedTooDeeply t | .malformedNumber t => some t
  | .unexpectedToken _ _ | .unexpectedEnd | .unexpectedInput _ | .treeTooDeep => none

/-- Why a source text is not a program. -/
inductive SourceError where
  | lex (error : LexError)
  | parse (error : ParseError)
  deriving DecidableEq

/-- The word for the kind of a failure. -/
def SourceError.word : SourceError → String
  | .lex _ => "LexError"
  | .parse _ => "ParseError"

/-- The wording of a failure. -/
def SourceError.message : SourceError → String
  | .lex e => e.message
  | .parse e => e.message

end BlockScript
