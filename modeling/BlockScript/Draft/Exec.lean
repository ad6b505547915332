/-
  BlockScript — running drafts.

  A draft is run as a tree is (`exec`), with two more ways to fail: what is
  printed or traced has to be shown as a text, and the text must have no lone
  surrogates to be written.  A line that fails is not written at all.

  * `DraftState`, `DraftEnding`: the state of a run, and how it ends;
  * `execDraft`, `execDrafts`: running a statement, and several;
  * `runDrafts`: running a program.
-/
import BlockScript.Draft.Eval
import BlockScript.Run.Exec

namespace BlockScript

/-- The state of a run. -/
structure DraftState where
  env : DraftEnv
  /-- all that was printed -/
  output : String
  /-- the lines of the trace -/
  trace : Array String

/-- The state of a run that has done nothing. -/
def DraftState.new : DraftState := ⟨[fun _ => none], "", #[]⟩

/-- How a run ends: with a state, and normally unless there is a fault. -/
structure DraftEnding where
  state : DraftState
  fault : Option Fault

/-- A normal ending. -/
def DraftState.done (st : DraftState) : Option DraftEnding := some ⟨st, none⟩

/-- An ending by a fault. -/
def DraftState.fail (st : DraftState) (f : Fault) : Option DraftEnding := some ⟨st, some f⟩

/-- Go on with a result, or end with its fault. -/
def DraftState.trying {α : Type} (st : DraftState) (result : Except Fault α)
    (next : α → Option DraftEnding) : Option DraftEnding :=
  match result with
  | .ok a => next a
  | .error f => st.fail f

/-! ## Lines -/

/-- Part of a line: words, or data as a text. -/
inductive Piece where
  | words (s : String)
  | data (v : Raw)

/-- The text of a part. -/
def Piece.text : Piece → Except Fault Text
  | .words s => .ok (.of s)
  | .data v => if v.legible then .ok v.written else .error (.mishap .tooManyDigits)

/-- A line as it is written. -/
def lineOf (pieces : List Piece) : Except Fault String := do
  let texts ← pieces.mapM Piece.text
  match Text.string? texts.flatten with
  | some line => return line
  | none => .error (.mishap (.notEncodable texts.flatten))

/-- Print a line, and go on. -/
def DraftState.print (st : DraftState) (v : Raw) : Option DraftEnding :=
  st.trying (lineOf [.data v]) fun line =>
    DraftState.done { st with output := st.output ++ line ++ "\n" }

/-- Record a line of a level of detail, if that is asked for, and go on. -/
def DraftState.record (st : DraftState) (verbosity level : Int) (pieces : List Piece)
    (next : DraftState → Option DraftEnding) : Option DraftEnding :=
  if level ≤ verbosity then
    st.trying (lineOf pieces) fun line => next { st with trace := st.trace.push line }
  else next st

/-! ## Statements -/

/-- Whether a value is the truth value true. -/
def DraftValue.isTrue : DraftValue → Bool
  | .boolean b => b
  | _ => false

/-- Go on after a normal ending. -/
def andThen (ending : Option DraftEnding) (next : DraftState → Option DraftEnding) :
    Option DraftEnding :=
  match ending with
  | some ⟨st, none⟩ => next st
  | ending => ending

/-- Repeat a body as long as a condition is true, with at most so many tests of
    the condition. -/
def iterateDraft (verbosity : Int) (test : Draft) (body : DraftState → Option DraftEnding) :
    Nat → DraftState → Option DraftEnding
  | 0, _ => none
  | n + 1, st => st.trying (test.eval st.env) fun v =>
    st.record verbosity 3 [.words "while condition -> ", .data v.printed] fun st =>
      if v.isTrue then andThen (body st) (iterateDraft verbosity test body n) else st.done

/-- Leave the scope of a block.  The trace tells of it only after a normal end
    of the block. -/
def DraftEnding.leaveScope (ending : DraftEnding) (verbosity : Int) : Option DraftEnding :=
  match ending.state.env.exit? with
  | none => some { ending with fault := some .globalScope }
  | some env =>
    let st := { ending.state with env := env }
    match ending.fault with
    | some f => st.fail f
    | none => st.record verbosity 2
        [.words ("exit scope (depth " ++ Nat.repr env.length ++ ")")] DraftState.done

/-- Run the statements of a block in a scope of its own. -/
def DraftState.inScope (st : DraftState) (verbosity : Int)
    (body : DraftState → Option DraftEnding) : Option DraftEnding :=
  let env := st.env.enter
  let entered := DraftState.record { st with env := env } verbosity 2
    [.words ("enter scope (depth " ++ Nat.repr env.length ++ ")")] body
  entered.bind (·.leaveScope verbosity)

mutual

/-- Run a statement. -/
def execDraft (bound : Nat) (verbosity : Int) : Draft → DraftState → Option DraftEnding
  | .expr e, st => st.trying (e.eval st.env) fun _ => st.done
  | .assign x e, st => st.trying (e.eval st.env) fun v => st.trying x.key fun key =>
    DraftState.record { st with env := st.env.set key v } verbosity 2
      [.words "assign ", .data x, .words (": " ++ v.typeName ++ " = "), .data v.printed]
      DraftState.done
  | .print e, st => st.trying (e.eval st.env) fun v => st.print v.printed
  | .cond c t e, st => st.trying (c.eval st.env) fun v =>
    match v with
    | .boolean b => st.record verbosity 3 [.words "if condition -> ", .data v.printed] fun st =>
      if b then execDraft bound verbosity t st
      else if e.isAbsent then st.done
      else execDraft bound verbosity e st
    | v => st.fail (.conditionNotBoolean v.display)
  | .loop c b, st => iterateDraft verbosity c (execDraft bound verbosity b) bound st
  | .block ss, st => st.inScope verbosity (execDrafts bound verbosity ss)
  | d, st => st.fail (.notStatement d.kind)

/-- Run several statements, up to the first fault. -/
def execDrafts (bound : Nat) (verbosity : Int) : List Draft → DraftState → Option DraftEnding
  | [], st => st.done
  | s :: rest, st => andThen (execDraft bound verbosity s st) (execDrafts bound verbosity rest)

end

/-- Run a program. -/
def runDrafts (bound : Nat) (verbosity : Int) (program : List Draft) (st : DraftState) :
    Option DraftEnding :=
  st.record verbosity 1
    [.words ("run fragment: " ++ Nat.repr program.length ++ " statement(s)")]
    (execDrafts bound verbosity program)

end BlockScript
