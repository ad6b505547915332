/-
  BlockScript — the grammar of programs, and parsing with it.

  The operators of each precedence make a flat chain in a parse tree, which is
  folded from the left into program trees.  The texts `&&` and `||` are
  operators of the language, but stand in no rule, so the lexer finds no token
  where they are.  Numbers are read when the tree of the whole text is walked.

  * `programGrammar`, `programCallbacks`: the grammar, and what is done with
    names;
  * `programMethods`: what the nodes of a parse tree become;
  * `parseWith P source`: parsing with what the package makes of them.
-/
import BlockScript.Lark.Package
import BlockScript.Number.Numeral

namespace BlockScript.Lark

/-! ## The grammar -/

/-- Operands with operators of one precedence between them. -/
def chainRule (operand : Nonterminal) (ops : List String) : Rule :=
  let op := Part.oneOf (ops.map fun text => .named (.fixed text))
  ⟨true, .seq (.rule operand) (.many (.seq op (.rule operand)))⟩

/-- The rules. -/
def programRule : Nonterminal → Rule
  | .start => ⟨true, .rule .program⟩
  | .program => ⟨false, .many (.rule .statement)⟩
  | .statement => ⟨true, .oneOf [.rule .ifStmt, .rule .whileStmt, .rule .printStmt,
      .rule .assignStmt, .rule .blockStmt, .rule .exprStmt]⟩
  | .ifStmt => ⟨false, .all [.quoted "if", .quoted "(", .rule .expression, .quoted ")",
      .rule .statement, .optional "else" (.rule .statement)]⟩
  | .whileStmt => ⟨false, .all [.quoted "while", .quoted "(", .rule .expression, .quoted ")",
      .rule .statement]⟩
  | .printStmt => ⟨false, .all [.quoted "print", .rule .expression, .quoted ";"]⟩
  | .assignStmt => ⟨false, .all [.named .name, .quoted "=", .rule .expression, .quoted ";"]⟩
  | .blockStmt => ⟨false, .seq (.rule .block) (.optional ";" .empty)⟩
  | .block => ⟨false, .all [.quoted "\x7b", .many (.rule .statement), .quoted "\x7d"]⟩
  | .exprStmt => ⟨false, .seq (.rule .expression) (.quoted ";")⟩
  | .expression => ⟨true, .rule .equality⟩
  | .equality => chainRule .comparison ["==", "!="]
  | .comparison => chainRule .term ["<", "<=", ">", ">="]
  | .term => chainRule .factor ["+", "-"]
  | .factor => chainRule .unary ["*", "/", "%"]
  | .unary => ⟨true, .either
      (.seq (.either (.named (.fixed "!")) (.named (.fixed "-"))) (.rule .unary))
      (.rule .primary)⟩
  | .primary => ⟨true, .oneOf [.rule .number, .rule .string, .rule .trueLit, .rule .falseLit,
      .rule .variable, .all [.quoted "(", .rule .expression, .quoted ")"]]⟩
  | .number => ⟨false, .named .number⟩
  | .string => ⟨false, .named .string⟩
  | .trueLit => ⟨false, .quoted "true"⟩
  | .falseLit => ⟨false, .quoted "false"⟩
  | .variable => ⟨false, .named .name⟩

/-- Whether a character may begin a word: any that may continue one, except the
    decimal digits. -/
def startsWord (c : Char) : Bool :=
  isNameChar c && !isDecimal c

/-- The grammar of programs. -/
def programGrammar : Grammar where
  start := .start
  rule := programRule
  expressions := [(.name, .run startsWord isNameChar), (.number, .run isDecimal isNumberChar),
    (.string, .enclosed '"'), (.blanks, .run isBlank isBlank)]
  ignored t := t = .blanks

/-- A word that is no keyword has to begin like a name. -/
def checkName (t : Leaf) : Except LexError Leaf :=
  match t.text.toList with
  | [] => .ok t
  | c :: _ => if startsName c then .ok t else .error (.unexpectedCharacter c t.pos)

/-- The callbacks: names are checked. -/
def programCallbacks : Callbacks
  | .name => some checkName
  | _ => none

/-! ## Program trees -/

/-- An item that is a program tree. -/
def Item.node? : Item → Option Node
  | .node n => some n
  | _ => none

/-- The program tree of a chain, folded from the left. -/
def foldChain (left : Node) : List Item → Option Node
  | [] => some left
  | .leaf op :: .node right :: rest => foldChain (.binary op.text left right) rest
  | _ => none

/-- A program tree, where the items make one. -/
def made (n : Option Node) : Except Raised Item :=
  match n with
  | some n => .ok (.node n)
  | none => .error .other

/-- The program tree of a branch. -/
def branch? : List Item → Option Node
  | .node test :: .node body :: rest => match rest with
    | [] => some (.cond test body .absent)
    | .node other :: _ => some (.cond test body other)
    | _ => none
  | _ => none

/-- The program tree of a number. -/
def readNumberLeaf (t : Leaf) : Except Raised Item :=
  match readNumber? t.text with
  | some x => .ok (.node (.literal (.number x)))
  | none => .error (.source (.parse (.malformedNumber ⟨.number, t.text, t.pos⟩)))

/-- A text without its quotes. -/
def unquoted (text : String) : String :=
  String.ofList (text.toList.drop 1).dropLast

/-- What the nodes of a parse tree become, given what their children became. -/
def programMethods (rule : Nonterminal) (items : List Item) : Except Raised Item :=
  match rule with
  | .program => match items.mapM Item.node? with
    | some nodes => .ok (.program nodes)
    | none => .error .other
  | .ifStmt => made (branch? items)
  | .whileStmt => match items with
    | .node test :: .node body :: _ => .ok (.node (.loop test body))
    | _ => .error .other
  | .printStmt => match items with
    | .node e :: _ => .ok (.node (.print e))
    | _ => .error .other
  | .assignStmt => match items with
    | .leaf x :: .node e :: _ => .ok (.node (.assign x.text e))
    | _ => .error .other
  | .blockStmt => match items with
    | block :: _ => .ok block
    | _ => .error .other
  | .block => made ((items.mapM Item.node?).map .block)
  | .exprStmt => match items with
    | .node e :: _ => .ok (.node (.expr e))
    | _ => .error .other
  | .equality | .comparison | .term | .factor => match items with
    | .node left :: rest => made (foldChain left rest)
    | _ => .error .other
  | .unary => match items with
    | .leaf op :: .node e :: _ => .ok (.node (.unary op.text e))
    | _ => .error .other
  | .number => match items with
    | .leaf t :: _ => readNumberLeaf t
    | _ => .error .other
  | .string => match items with
    | .leaf t :: _ => .ok (.node (.literal (.string (unquoted t.text))))
    | _ => .error .other
  | .trueLit => .ok (.node (.literal (.boolean true)))
  | .falseLit => .ok (.node (.literal (.boolean false)))
  | .variable => match items with
    | .leaf t :: _ => .ok (.node (.var t.text))
    | _ => .error .other
  | .start | .statement | .expression | .primary => .ok (.tree rule items)

/-! ## Parsing -/

/-- Why no token is cut off at a place of a text.  An operator that stands in no
    rule is refused as a token. -/
def mismatchAt (source : String) (c : Char) (p : Position) (offset : Nat) : SourceError :=
  let text := String.ofList ((source.toList.drop offset).take 2)
  if c = '"' then .lex (.unterminatedString p)
  else if operators.contains text then .parse (.unexpectedToken text p)
  else .lex (.unexpectedCharacter c p)

/-- The failure of a source text that a failure of the package stands for. -/
def Failure.report (source : String) : Failure → SourceError
  | .unexpectedCharacters c p offset => mismatchAt source c p offset
  | .unexpectedLeaf t => .parse (.unexpectedToken t.text t.pos)
  | .unexpectedEnd => .parse .unexpectedEnd
  | .unexpectedInput p => .parse (.unexpectedInput p)
  | .raised e => .lex e

/-- What a walk that is not finished raises. -/
def WalkError.raised : WalkError → Raised
  | .recursion | .visit .recursion => .source (.parse .treeTooDeep)
  | .visit (.source e) => .source e
  | .visit .other => .other

/-- What a source text is parsed to. -/
def parseWith (P : Package) (source : String) : Except Raised Item :=
  match P.parse source with
  | .error failure => .error (.source (failure.report source))
  | .ok tree => (P.walk programMethods tree).mapError WalkError.raised

end BlockScript.Lark
