/-
  BlockScript — sequences of steps on an environment.

  A script enters and leaves scopes, sets and asks for variables, and runs
  parts of itself inside a scope that is left at their end, also when one of
  them fails.

  * `Step`, `Answer`: what is done, and what it answers;
  * `Step.perform`: the environment after a step, with its answer or the cause
    of its failure.
-/
import BlockScript.Env
import BlockScript.Fault

namespace BlockScript

/-- A step on an environment. -/
inductive Step where
  | enter
  | exit
  | set (name : String) (value : Value)
  | get (name : String)
  | isDefined (name : String)
  | depth
  /-- steps inside a scope of their own -/
  | scoped (steps : List Step)

/-- What a step answers. -/
inductive Answer where
  | nothing
  | value (v : Value)
  | flag (b : Bool)
  | count (n : Nat)
  | answers (parts : List Answer)

/-- Leave a scope after the steps in it: if there is none to leave, that is the
    failure, whatever the steps answered. -/
def leaveScope (env : Env) (result : Except Fault Answer) : Env × Except Fault Answer :=
  match env.exit? with
  | some env => (env, result)
  | none => (env, .error .globalScope)

mutual

/-- The environment after a step, and what the step answers. -/
def Step.perform (env : Env) : Step → Env × Except Fault Answer
  | .enter => (env.enter, .ok .nothing)
  | .exit => leaveScope env (.ok .nothing)
  | .set x v => (env.set x v, .ok .nothing)
  | .get x => match env.get? x with
    | some v => (env, .ok (.value v))
    | none => (env, .error (.undefinedVariable x))
  | .isDefined x => (env, .ok (.flag (env.isDefined x)))
  | .depth => (env, .ok (.count env.depth))
  | .scoped steps =>
    let (env, result) := performAll env.enter steps
    leaveScope env (result.map .answers)

/-- The environment after several steps, of which the first failure is the
    last one performed, and their answers. -/
def performAll (env : Env) : List Step → Env × Except Fault (List Answer)
  | [] => (env, .ok [])
  | step :: rest => match step.perform env with
    | (env, .error f) => (env, .error f)
    | (env, .ok a) => match performAll env rest with
      | (env, .ok others) => (env, .ok (a :: others))
      | (env, .error f) => (env, .error f)

end

end BlockScript
