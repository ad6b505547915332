/-
  BlockScript — the package for grammars.

  The package `lark` makes a lexer, a parser and a walker of trees from a
  grammar.  It is no part of the project, so it is a parameter here, together
  with what is relied upon of it:

  * the lexer prefers regular expressions to fixed texts, takes a match that is
    a fixed text for this text, and takes the longest of several fixed texts;
  * the parser accepts what the grammar derives; it cuts off a token only when it
    needs the next one, and reports the first one that no text of the grammar
    goes on with;
  * the walker visits the children of a node from left to right, and then the
    node, as far as the stack allows.

  The main notions are:

  * `Lexing`, `lexFrom`: the tokens of a text for a given lexer;
  * `Package`: what the package makes of a grammar;
  * `Package.Follows`: what is relied upon.
-/
import BlockScript.Lark.Notation
import BlockScript.Node
import BlockScript.SyntaxError

namespace BlockScript.Lark

/-! ## Lexing -/

/-- A lexer: the terminal that is matched at the start of the text `c :: rest`,
    and how many characters of `rest` it takes. -/
abbrev Lexer := Char → List Char → Option (Terminal × Nat)

/-- Callbacks: what is done with the tokens of a terminal. -/
abbrev Callbacks := Terminal → Option (Leaf → Except LexError Leaf)

/-- What becomes of a token. -/
def Callbacks.apply (callbacks : Callbacks) (t : Leaf) : Except LexError Leaf :=
  match callbacks t.terminal with
  | some f => f t
  | none => .ok t

/-- How the cutting of a text into tokens ends. -/
inductive Stop where
  | finished
  /-- no terminal is matched at a place -/
  | unmatched (c : Char) (pos : Position) (offset : Nat)
  /-- a callback refuses a token -/
  | raised (e : LexError)

/-- The tokens of a text up to a place where none is cut off, or up to its
    end. -/
structure Lexing where
  leaves : List Leaf
  stop : Stop

/-- The lexing of what is left of a text from a place on. -/
def lexFrom (g : Grammar) (callbacks : Callbacks) (next : Lexer) (offset : Nat) (p : Position)
    (cs : List Char) : Lexing :=
  match cs with
  | [] => ⟨[], .finished⟩
  | c :: rest =>
    match next c rest with
    | none => ⟨[], .unmatched c p offset⟩
    | some (t, more) =>
      let taken := c :: rest.take more
      let following := lexFrom g callbacks next (offset + taken.length) (p.afterAll taken)
        (rest.drop more)
      if g.ignored t then following
      else match callbacks.apply ⟨t, String.ofList taken, p⟩ with
        | .error e => ⟨[], .raised e⟩
        | .ok leaf => ⟨leaf :: following.leaves, following.stop⟩
termination_by cs.length
decreasing_by
  simp only [List.length_drop, List.length_cons]
  omega

/-! ## Parsing and walking -/

/-- What a parse can raise. -/
inductive Raised where
  /-- a failure of the source text -/
  | source (e : SourceError)
  /-- the stack is exhausted -/
  | recursion
  /-- anything else -/
  | other

/-- Why a text is not parsed. -/
inductive Failure where
  | unexpectedCharacters (c : Char) (pos : Position) (offset : Nat)
  | unexpectedLeaf (t : Leaf)
  | unexpectedEnd
  /-- any other failure at a place -/
  | unexpectedInput (pos : Position)
  /-- a callback refuses a token -/
  | raised (e : LexError)

/-- What a tree and its parts become. -/
inductive Item where
  | leaf (t : Leaf)
  | node (n : Node)
  | program (nodes : List Node)
  /-- a node of the tree for whose rule there is no method -/
  | tree (rule : Nonterminal) (items : List Item)

/-- What the nodes of each rule become, given what their children became. -/
abbrev Methods := Nonterminal → List Item → Except Raised Item

/-- Why a tree is not walked to its end. -/
inductive WalkError where
  | recursion
  /-- a method fails -/
  | visit (cause : Raised)

/-- What the package makes of a grammar and of callbacks. -/
structure Package where
  next : Lexer
  parse : String → Except Failure Tree
  walk : Methods → Tree → Except WalkError Item

/-- The lexing of a source text. -/
def Package.lexing (P : Package) (g : Grammar) (callbacks : Callbacks) (source : String) : Lexing :=
  lexFrom g callbacks P.next 0 .start source.toList

/-- **What is relied upon of the package**, for a grammar and callbacks. -/
structure Package.Follows (P : Package) (g : Grammar) (callbacks : Callbacks) : Prop where
  /-- where a regular expression matches, the first one that does is taken -/
  next_expression {c : Char} {rest more : List Char} {t : Terminal}
    (h : g.expression? c rest = some (t, more)) (ht : ¬ g.HasText (String.ofList (c :: more))) :
    P.next c rest = some (t, more.length)
  /-- but a match that is a fixed text is this text -/
  next_keyword {c : Char} {rest more : List Char} {t : Terminal}
    (h : g.expression? c rest = some (t, more)) (ht : g.HasText (String.ofList (c :: more))) :
    P.next c rest = some (.fixed (String.ofList (c :: more)), more.length)
  /-- elsewhere the longest fixed text is taken -/
  next_text {c : Char} {rest more : List Char} (h : g.expression? c rest = none)
    (ht : g.HasText (String.ofList (c :: more))) (hmore : more <+: rest)
    (hlongest : ∀ other, g.HasText (String.ofList (c :: other)) → other <+: rest →
      other.length ≤ more.length) :
    P.next c rest = some (.fixed (String.ofList (c :: more)), more.length)
  next_none {c : Char} {rest : List Char} (h : g.expression? c rest = none)
    (ht : ∀ more, g.HasText (String.ofList (c :: more)) → ¬ more <+: rest) :
    P.next c rest = none
  /-- what the grammar derives is accepted, with its tree -/
  accepts {source : String} {tree : Tree} (hstop : (P.lexing g callbacks source).stop = .finished)
    (h : g.Sentence (P.lexing g callbacks source).leaves tree) : P.parse source = .ok tree
  /-- the first token that no text goes on with is reported, whatever comes
      behind it -/
  refuses_leaf {source : String} {pre post : List Leaf} {t : Leaf}
    (hlexing : (P.lexing g callbacks source).leaves = pre ++ t :: post) (hpre : g.Viable pre)
    (ht : ¬ g.Viable (pre ++ [t])) : P.parse source = .error (.unexpectedLeaf t)
  refuses_end {source : String} (hstop : (P.lexing g callbacks source).stop = .finished)
    (h : g.Viable (P.lexing g callbacks source).leaves)
    (hend : ∀ tree, ¬ g.Sentence (P.lexing g callbacks source).leaves tree) :
    P.parse source = .error .unexpectedEnd
  /-- the lexer's failures are reported when it comes to them -/
  stops_unmatched {source : String} {c : Char} {p : Position} {offset : Nat}
    (hstop : (P.lexing g callbacks source).stop = .unmatched c p offset)
    (h : g.Viable (P.lexing g callbacks source).leaves) :
    P.parse source = .error (.unexpectedCharacters c p offset)
  stops_raised {source : String} {e : LexError}
    (hstop : (P.lexing g callbacks source).stop = .raised e)
    (h : g.Viable (P.lexing g callbacks source).leaves) : P.parse source = .error (.raised e)
  walk_leaf (methods : Methods) (t : Leaf) : P.walk methods (.leaf t) = .ok (.leaf t)
  /-- a node is visited after its children, unless the stack is exhausted -/
  walk_node (methods : Methods) (n : Nonterminal) (children : List Tree) :
    P.walk methods (.node n children) = .error .recursion ∨
      P.walk methods (.node n children) = .error (.visit .recursion) ∨
      P.walk methods (.node n children) = (do
        let items ← children.mapM (P.walk methods)
        (methods n items).mapError .visit)

end BlockScript.Lark
