/-
  BlockScript — the tokens of the package and those of the scanner.

  The package keeps the whole lexeme of a token, and calls a fixed text by
  itself; the scanner gives each token a kind, and a string without its quotes.

  * `Leaf.token`, `Leaf.ofToken`: the one for the other;
  * `Regular t`: the kind of the token follows from its text, as that of every
    token of a text does.
-/
import BlockScript.Lark.Program

namespace BlockScript.Lark

theorem unquoted_quoted (text : String) : unquoted ("\"" ++ text ++ "\"") = text := by
  have h : ("\"" ++ text ++ "\"").toList = '"' :: (text.toList ++ ['"']) := by
    rw [String.toList_append, String.toList_append]
    rfl
  rw [unquoted, h, List.drop_one, List.tail_cons, List.dropLast_concat, String.ofList_toList]

/-- The kind of a fixed text. -/
def fixedKind (text : String) : TokenKind :=
  if keywords.contains text then .keyword
  else if operators.contains text then .operator
  else .symbol

/-- The scanner's token for a token of the package. -/
def Leaf.token (t : Leaf) : Token :=
  match t.terminal with
  | .name => ⟨.identifier, t.text, t.pos⟩
  | .number => ⟨.number, t.text, t.pos⟩
  | .string => ⟨.string, unquoted t.text, t.pos⟩
  | .fixed text => ⟨fixedKind text, text, t.pos⟩
  | .blanks => ⟨.endOfInput, t.text, t.pos⟩

/-- The terminal of a token. -/
def terminalOf (t : Token) : Terminal :=
  match t.kind with
  | .identifier => .name
  | .number => .number
  | .string => .string
  | .keyword | .operator | .symbol => .fixed t.text
  | .endOfInput => .blanks

/-- The package's token for a token of the scanner. -/
def Leaf.ofToken (t : Token) : Leaf :=
  ⟨terminalOf t, t.lexeme, t.pos⟩

/-- A number token is read as its text. -/
theorem programMethods_number {t : Token} (h : t.kind = .number) :
    programMethods .number [.leaf (.ofToken t)] = match readNumber? t.text with
      | some x => .ok (.node (.literal (.number x)))
      | none => .error (.source (.parse (.malformedNumber t))) := by
  have hlexeme : t.lexeme = t.text := by simp [Token.lexeme, h]
  have ht : (⟨.number, t.text, t.pos⟩ : Token) = t := by rw [← h]
  cases hread : readNumber? t.text <;>
    simp only [programMethods, readNumberLeaf, Leaf.ofToken, hlexeme, ht, hread]

/-- The kind of a token follows from its text. -/
def Regular (t : Token) : Prop :=
  (Leaf.ofToken t).token = t

end BlockScript.Lark
