/-
  BlockScript — running statements.

  A run changes an environment, prints, and records a trace.  It ends normally
  or with a fault, and keeps what it did before the fault.  A block runs in a
  scope of its own, which is left on every ending.  The condition of a branch
  has to be a truth value; a loop goes on exactly as long as its condition is
  true, and any other value ends it.

  The only unbounded construct is the loop: `bound` is the number of times
  that each loop may test its condition, and a run that needs more has no
  ending.

  * `RunState`, `Ending`: the state of a run, and how it ends;
  * `exec`, `execAll`: running a statement, and several;
  * `run`: running a program.
-/
import BlockScript.Run.Eval
import BlockScript.Run.Trace

namespace BlockScript

/-- The state of a run. -/
structure RunState where
  env : Env
  /-- all that was printed -/
  output : String
  trace : Array Event

/-- The state of a run in a given environment. -/
def RunState.of (env : Env) : RunState := ⟨env, "", #[]⟩

/-- How a run ends: with a state, and normally unless there is a fault. -/
structure Ending where
  state : RunState
  fault : Option Fault

/-- A normal ending. -/
def RunState.done (st : RunState) : Option Ending := some ⟨st, none⟩

/-- An ending by a fault. -/
def RunState.fail (st : RunState) (f : Fault) : Option Ending := some ⟨st, some f⟩

/-- Print a line. -/
def RunState.print (st : RunState) (line : String) : RunState :=
  { st with output := st.output ++ line ++ "\n" }

/-- Record an event, if it is not more detailed than asked for. -/
def RunState.record (st : RunState) (verbosity : Int) (e : Event) : RunState :=
  if e.level ≤ verbosity then { st with trace := st.trace.push e } else st

/-- Evaluate an expression, and go on with its value. -/
def RunState.evaluating (st : RunState) (e : Node) (next : Value → Option Ending) :
    Option Ending :=
  match eval st.env e with
  | .ok v => next v
  | .error f => st.fail f

/-- Whether a value is the truth value true. -/
def Value.isTrue : Value → Bool
  | .boolean b => b
  | _ => false

/-- Repeat a body as long as a condition is true, with at most so many tests of
    the condition. -/
def iterate (verbosity : Int) (test : Node) (body : RunState → Option Ending) :
    Nat → RunState → Option Ending
  | 0, _ => none
  | n + 1, st => st.evaluating test fun v =>
    let st := st.record verbosity (.looped v)
    if v.isTrue then
      match body st with
      | some ⟨st, none⟩ => iterate verbosity test body n st
      | ending => ending
    else st.done

/-- Enter the scope of a block. -/
def RunState.enterScope (st : RunState) (verbosity : Int) : RunState :=
  let st := { st with env := st.env.enter }
  st.record verbosity (.entered st.env.depth)

/-- Leave the scope of a block.  The trace tells of it only after a normal end
    of the block. -/
def Ending.leaveScope (ending : Ending) (verbosity : Int) : Ending :=
  match ending.state.env.exit? with
  | none => { ending with fault := some .globalScope }
  | some env =>
    let st := { ending.state with env := env }
    match ending.fault with
    | some f => ⟨st, some f⟩
    | none => ⟨st.record verbosity (.left env.depth), none⟩

/-- Whether there is no tree. -/
def Node.isAbsent : Node → Bool
  | .absent => true
  | _ => false

mutual

/-- Run a statement. -/
def exec (bound : Nat) (verbosity : Int) : Node → RunState → Option Ending
  | .expr e, st => st.evaluating e fun _ => st.done
  | .assign x e, st => st.evaluating e fun v =>
    let st := { st with env := st.env.set x v }
    (st.record verbosity (.assigned x v)).done
  | .print e, st => st.evaluating e fun v => (st.print v.printed).done
  | .cond c t e, st => st.evaluating c fun v =>
    match v with
    | .boolean b =>
      let st := st.record verbosity (.branched v)
      if b then exec bound verbosity t st
      else if e.isAbsent then st.done
      else exec bound verbosity e st
    | v => st.fail (.conditionNotBoolean v)
  | .loop c b, st => iterate verbosity c (exec bound verbosity b) bound st
  | .block ss, st =>
    (execAll bound verbosity ss (st.enterScope verbosity)).map (·.leaveScope verbosity)
  | node, st => st.fail (.notStatement node.kind)

/-- Run several statements, up to the first fault. -/
def execAll (bound : Nat) (verbosity : Int) : List Node → RunState → Option Ending
  | [], st => st.done
  | s :: rest, st =>
    match exec bound verbosity s st with
    | some ⟨st, none⟩ => execAll bound verbosity rest st
    | ending => ending

end

/-- Run a program. -/
def run (bound : Nat) (verbosity : Int) (program : List Node) (st : RunState) : Option Ending :=
  execAll bound verbosity program (st.record verbosity (.started program.length))

/-- A bound that no run reaches in practice. -/
def ampleBound : Nat := 1 <<< 62

end BlockScript
