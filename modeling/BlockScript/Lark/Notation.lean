/-
  BlockScript — the notation of grammars.

  A grammar is written for the package `lark`: it has terminals, which are
  regular expressions or fixed texts, and a rule for each nonterminal.  Such a
  rule has alternatives, repetitions and optional parts.  A parse tree has a
  node for each use of a rule, unless the rule is marked and the node would have
  one child, which then takes its place.  The tokens of a terminal that a rule
  calls by its name are leaves of the tree, and the tokens of a text that a rule
  only quotes are left out of it.

  * `Expression`, `Expression.match?`: regular expressions, and what they match;
  * `Leaf`, `Tree`: the tokens and the parse trees of the package;
  * `Part`, `Rule`, `Grammar`: the right-hand sides of rules, and grammars;
  * `Derives`, `Grammar.Sentence`, `Grammar.Viable`: what the rules derive, the
    tokens of a whole text, and those that begin one.
-/
import BlockScript.Token.Scanner

namespace BlockScript.Lark

/-! ## Terminals -/

/-- A regular expression that matches no empty text. -/
inductive Expression where
  /-- a character of one class, and any number of characters of another -/
  | run (first next : Char → Bool)
  /-- a quote, and all up to the next one -/
  | enclosed (quote : Char)

/-- The longest match of a regular expression at the start of the text
    `c :: rest`: what it takes of `rest`. -/
def Expression.match? (c : Char) (rest : List Char) : Expression → Option (List Char)
  | .run first next => if first c then some (rest.takeWhile next) else none
  | .enclosed quote =>
    if c = quote then
      match rest.dropWhile (· ≠ quote) with
      | [] => none
      | q :: _ => some (rest.takeWhile (· ≠ quote) ++ [q])
    else none

/-- A terminal: a regular expression by its name, or a fixed text. -/
inductive Terminal where
  | name
  | number
  | string
  | blanks
  | fixed (text : String)
  deriving DecidableEq

/-- A token of the package. -/
structure Leaf where
  terminal : Terminal
  text : String
  pos : Position

/-! ## Trees -/

/-- The nonterminals. -/
inductive Nonterminal where
  | start
  | program
  | statement
  | ifStmt
  | whileStmt
  | printStmt
  | assignStmt
  | blockStmt
  | block
  | exprStmt
  | expression
  | equality
  | comparison
  | term
  | factor
  | unary
  | primary
  | number
  | string
  | trueLit
  | falseLit
  | variable

/-- A parse tree. -/
inductive Tree where
  | leaf (leaf : Leaf)
  | node (rule : Nonterminal) (children : List Tree)

/-! ## Rules -/

/-- The right-hand side of a rule, or a part of one. -/
inductive Part where
  | empty
  | rule (name : Nonterminal)
  /-- a terminal by its name -/
  | named (t : Terminal)
  /-- a text in quotes -/
  | quoted (text : String)
  | seq (first second : Part)
  | either (first second : Part)
  | many (part : Part)
  /-- a text in quotes with what follows it, or nothing -/
  | optional (opening : String) (more : Part)

/-- Parts in a row. -/
def Part.all : List Part → Part
  | [] => .empty
  | [p] => p
  | p :: rest => .seq p (Part.all rest)

/-- One of several parts. -/
def Part.oneOf : List Part → Part
  | [] => .empty
  | [p] => p
  | p :: rest => .either p (Part.oneOf rest)

/-- The fixed texts of a part. -/
def Part.texts : Part → List String
  | .empty | .rule _ => []
  | .named t => match t with
    | .fixed text => [text]
    | _ => []
  | .quoted text => [text]
  | .seq first second | .either first second => first.texts ++ second.texts
  | .many part => part.texts
  | .optional opening more => opening :: more.texts

/-- A rule; the mark is written `?`. -/
structure Rule where
  marked : Bool
  body : Part

/-- The tree of a rule with the given children. -/
def Rule.tree (r : Rule) (name : Nonterminal) (children : List Tree) : Tree :=
  match r.marked, children with
  | true, [child] => child
  | _, children => .node name children

/-- A grammar. -/
structure Grammar where
  start : Nonterminal
  rule : Nonterminal → Rule
  /-- the regular expressions, the longer definitions first -/
  expressions : List (Terminal × Expression)
  /-- whether the tokens of a terminal are skipped -/
  ignored : Terminal → Bool

/-- The text is a terminal of the grammar. -/
def Grammar.HasText (g : Grammar) (text : String) : Prop :=
  ∃ n, text ∈ (g.rule n).body.texts

/-- The first regular expression that matches at the start of the text
    `c :: rest`, and what it takes of `rest`. -/
def Grammar.expression? (g : Grammar) (c : Char) (rest : List Char) :
    Option (Terminal × List Char) :=
  g.expressions.findSome? fun (t, e) => (e.match? c rest).map (t, ·)

/-! ## Derivations -/

/-- **What the rules of a grammar derive**: the part `p` takes the tokens `ts`
    up to `rest`, and gives the trees.  An optional part is taken wherever the
    next token opens it, so an `else` belongs to the nearest `if`. -/
inductive Derives (g : Grammar) : Part → List Leaf → List Leaf → List Tree → Prop where
  | empty {ts : List Leaf} : Derives g .empty ts ts []
  | rule {n : Nonterminal} {ts rest : List Leaf} {cs : List Tree}
      (h : Derives g (g.rule n).body ts rest cs) :
      Derives g (.rule n) ts rest [(g.rule n).tree n cs]
  | named {t : Leaf} {rest : List Leaf} : Derives g (.named t.terminal) (t :: rest) rest [.leaf t]
  | quoted {t : Leaf} {text : String} {rest : List Leaf} (h : t.terminal = .fixed text) :
      Derives g (.quoted text) (t :: rest) rest []
  | seq {p q : Part} {ts mid rest : List Leaf} {cs ds : List Tree} (hp : Derives g p ts mid cs)
      (hq : Derives g q mid rest ds) : Derives g (.seq p q) ts rest (cs ++ ds)
  | first {p q : Part} {ts rest : List Leaf} {cs : List Tree} (h : Derives g p ts rest cs) :
      Derives g (.either p q) ts rest cs
  | second {p q : Part} {ts rest : List Leaf} {cs : List Tree} (h : Derives g q ts rest cs) :
      Derives g (.either p q) ts rest cs
  | done {p : Part} {ts : List Leaf} : Derives g (.many p) ts ts []
  | more {p : Part} {ts mid rest : List Leaf} {cs ds : List Tree} (hp : Derives g p ts mid cs)
      (hq : Derives g (.many p) mid rest ds) : Derives g (.many p) ts rest (cs ++ ds)
  | skip {opening : String} {p : Part} {ts : List Leaf}
      (h : ∀ t, ts.head? = some t → t.terminal ≠ .fixed opening) :
      Derives g (.optional opening p) ts ts []
  | take {opening : String} {p : Part} {t : Leaf} {ts rest : List Leaf} {cs : List Tree}
      (ht : t.terminal = .fixed opening) (h : Derives g p ts rest cs) :
      Derives g (.optional opening p) (t :: ts) rest cs

/-- The tokens are those of a whole text with the given tree. -/
def Grammar.Sentence (g : Grammar) (ts : List Leaf) (tree : Tree) : Prop :=
  Derives g (.rule g.start) ts [] [tree]

/-- The tokens begin a text of the grammar. -/
def Grammar.Viable (g : Grammar) (ts : List Leaf) : Prop :=
  ∃ more tree, g.Sentence (ts ++ more) tree

end BlockScript.Lark
