/-
  BlockScript — a pushdown machine.

  The machine reads one token after another and keeps what is unfinished on
  stacks, so nesting costs it no recursion.  A token is refused exactly when
  no program goes on with it.

  * `Pending`, `Purpose`, `Enclosure`: the unfinished operators of an
    expression, what the expression is for, and the unfinished statements
    around it;
  * `State`: what may come next;
  * `State.step s t`: the state after a token, if the token may come;
  * `State.finish? s`: the statements that have been read, where a program may
    end.
-/
import BlockScript.Pushdown.Phrase

namespace BlockScript.Pushdown

/-- An unfinished part of an expression. -/
inductive Pending where
  | unary (op : Token)
  /-- a left operand and its operator -/
  | binary (left : Phrase) (op : Token)
  /-- an opening parenthesis -/
  | group

/-- What an expression is read for. -/
inductive Purpose where
  | expr
  | print
  | assign (name : Token)
  | branchTest
  | loopTest

/-- An unfinished statement around the current one. -/
inductive Enclosure where
  | thenOf (test : Phrase)
  | elseOf (test : Phrase) (body : Clause)
  | bodyOf (test : Phrase)
  /-- a block, with its finished statements in reverse order -/
  | block (done : List Clause)

/-- All that is around the current statement. -/
structure Outer where
  /-- the unfinished statements, innermost first -/
  enclosures : List Enclosure
  /-- the finished statements of the program, in reverse order -/
  done : List Clause

/-- What the machine has read. -/
inductive State where
  /-- a statement may start -/
  | statement (outer : Outer)
  /-- a name has started a statement -/
  | named (name : Token) (outer : Outer)
  /-- the parenthesis of a condition must come -/
  | opening (purpose : Purpose) (outer : Outer)
  /-- an operand must come -/
  | operand (pending : List Pending) (purpose : Purpose) (outer : Outer)
  /-- an operand has been read -/
  | operator (e : Phrase) (pending : List Pending) (purpose : Purpose) (outer : Outer)
  /-- a statement has been read; after a block, `;` may still come -/
  | closed (c : Clause) (semicolon : Bool) (outer : Outer)

/-- The state before the first token. -/
def State.start : State := .statement ⟨[], []⟩

/-! ## Expressions -/

/-- Finish the unfinished operators that bind at least as tightly as the given
    precedence. -/
def reduce (level : Nat) (e : Phrase) : List Pending → Phrase × List Pending
  | .unary op :: rest => reduce level (.unary op e) rest
  | .binary left op :: rest =>
    if (precedence? op.text).any (level ≤ ·) then reduce level (.binary op left e) rest
    else (e, .binary left op :: rest)
  | pending => (e, pending)

/-- The atom that a token is. -/
def atom? (t : Token) : Option Phrase :=
  match t.kind with
  | .number => some (.number t)
  | .string => some (.string t)
  | .identifier => some (.var t)
  | .keyword =>
    if t.text = "true" then some (.boolean true)
    else if t.text = "false" then some (.boolean false)
    else none
  | _ => none

/-- A token where an operand must come. -/
def stepOperand (pending : List Pending) (purpose : Purpose) (outer : Outer) (t : Token) :
    Option State :=
  match atom? t with
  | some e => some (.operator e pending purpose outer)
  | none =>
    if t.is .operator "!" || t.is .operator "-" then
      some (.operand (.unary t :: pending) purpose outer)
    else if t.is .symbol "(" then some (.operand (.group :: pending) purpose outer)
    else none

/-- The precedence of a token, if it is a binary operator. -/
def operatorPrecedence? (t : Token) : Option Nat :=
  if t.kind = .operator then precedence? t.text else none

/-- The end of a condition. -/
def closeTest (e : Phrase) (purpose : Purpose) (outer : Outer) : Option State :=
  match purpose with
  | .branchTest => some (.statement { outer with enclosures := .thenOf e :: outer.enclosures })
  | .loopTest => some (.statement { outer with enclosures := .bodyOf e :: outer.enclosures })
  | _ => none

/-- The statement that an expression makes at its `;`. -/
def closeStatement? (e : Phrase) : Purpose → Option Clause
  | .expr => some (.expr e)
  | .print => some (.print e)
  | .assign x => some (.assign x e)
  | _ => none

/-- A token after an operand. -/
def stepOperator (e : Phrase) (pending : List Pending) (purpose : Purpose) (outer : Outer)
    (t : Token) : Option State :=
  match operatorPrecedence? t with
  | some level =>
    let (left, rest) := reduce level e pending
    some (.operand (.binary left t :: rest) purpose outer)
  | none =>
    let (whole, rest) := reduce 0 e pending
    if t.is .symbol ")" then
      match rest with
      | [] => closeTest whole purpose outer
      | .group :: rest => some (.operator (.group whole) rest purpose outer)
      | _ => none
    else if t.is .symbol ";" then
      match rest with
      | [] => (closeStatement? whole purpose).map fun c => .closed c false outer
      | _ => none
    else none

/-! ## Statements -/

/-- Put a finished statement into the innermost block, or into the program,
    finishing the statements that end with it. -/
def settle (c : Clause) (done : List Clause) : List Enclosure → Outer
  | [] => ⟨[], c :: done⟩
  | .thenOf test :: rest => settle (.branch test c) done rest
  | .elseOf test body :: rest => settle (.branchElse test body c) done rest
  | .bodyOf test :: rest => settle (.loop test c) done rest
  | .block inner :: rest => ⟨.block (c :: inner) :: rest, done⟩

/-- Give a finished statement's branch an `else`: the innermost branch that
    ends with the statement and has none. -/
def attachElse? (c : Clause) : List Enclosure → Option (List Enclosure)
  | .thenOf test :: rest => some (.elseOf test c :: rest)
  | .elseOf test body :: rest => attachElse? (.branchElse test body c) rest
  | .bodyOf test :: rest => attachElse? (.loop test c) rest
  | .block _ :: _ | [] => none

/-- A token where a statement may start. -/
def stepStatement (outer : Outer) (t : Token) : Option State :=
  match t.kind with
  | .identifier => some (.named t outer)
  | .keyword =>
    match t.text with
    | "if" => some (.opening .branchTest outer)
    | "while" => some (.opening .loopTest outer)
    | "print" => some (.operand [] .print outer)
    | _ => stepOperand [] .expr outer t
  | .symbol =>
    match t.text, outer.enclosures with
    | "\x7b", _ => some (.statement { outer with enclosures := .block [] :: outer.enclosures })
    | "\x7d", .block done :: rest =>
      some (.closed (.block done.reverse) true { outer with enclosures := rest })
    | _, _ => stepOperand [] .expr outer t
  | _ => stepOperand [] .expr outer t

/-- The state after a token, if the token may come. -/
def State.step : State → Token → Option State
  | .statement outer, t => stepStatement outer t
  | .named x outer, t =>
    if t.is .symbol "=" then some (.operand [] (.assign x) outer)
    else stepOperator (.var x) [] .expr outer t
  | .opening purpose outer, t =>
    if t.is .symbol "(" then some (.operand [] purpose outer) else none
  | .operand pending purpose outer, t => stepOperand pending purpose outer t
  | .operator e pending purpose outer, t => stepOperator e pending purpose outer t
  | .closed c semicolon outer, t =>
    if semicolon && t.is .symbol ";" then some (.closed c false outer)
    else if t.is .keyword "else" then
      (attachElse? c outer.enclosures).map fun enclosures =>
        .statement { outer with enclosures := enclosures }
    else stepStatement (settle c outer.done outer.enclosures) t

/-- The statements that have been read, if a program may end here. -/
def State.finish? : State → Option (List Clause)
  | .statement outer => if outer.enclosures.isEmpty then some outer.done.reverse else none
  | .closed c _ outer =>
    let settled := settle c outer.done outer.enclosures
    if settled.enclosures.isEmpty then some settled.done.reverse else none
  | _ => none

/-- The state after several tokens, or the first one that may not come. -/
def State.run (s : State) : List Token → Except Token State
  | [] => .ok s
  | t :: rest => match s.step t with
    | some s => s.run rest
    | none => .error t

end BlockScript.Pushdown
