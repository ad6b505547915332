/-
  BlockScript — writing tokens as source text.

  * `render ts`: the lexemes of the tokens with one blank between two of them;
    end tokens are left out.  Scanning the result gives the tokens back, if
    they are tokens that scanning can give.
-/
import BlockScript.Token

namespace BlockScript

/-- Tokens as source text. -/
def render (ts : List Token) : String :=
  String.intercalate " " ((ts.filter fun t => !t.isEnd).map Token.lexeme)

/-- Whether two token lists are equal in kinds and texts. -/
def sameTokens : List Token → List Token → Bool
  | [], [] => true
  | s :: ss, t :: ts => s.same t && sameTokens ss ts
  | _, _ => false

end BlockScript
