/-
  BlockScript — the trace of a run.

  Each event has a level of detail, and a run records the events up to the
  level that it is asked for.

  * `Event`: what happened, `Event.level` how detailed that is, and
    `Event.message` how it is worded.
-/
import BlockScript.Value

namespace BlockScript

/-- Something that happened in a run. -/
inductive Event where
  /-- a source text is about to be parsed -/
  | fragment (source : String)
  /-- a number of statements is about to be run -/
  | started (statements : Nat)
  | assigned (name : String) (value : Value)
  /-- a scope was entered, or left, and the depth afterwards -/
  | entered (depth : Nat)
  | left (depth : Nat)
  /-- the condition of a branch, or of a loop, had the given value -/
  | branched (value : Value)
  | looped (value : Value)

/-- The level of detail of an event. -/
def Event.level : Event → Int
  | .fragment _ | .started _ => 1
  | .assigned _ _ | .entered _ | .left _ => 2
  | .branched _ | .looped _ => 3

/-- The wording of an event. -/
def Event.message : Event → String
  | .fragment source => "fragment: " ++ source
  | .started n => "run fragment: " ++ Nat.repr n ++ " statement(s)"
  | .assigned x v => "assign " ++ x ++ ": " ++ v.typeName ++ " = " ++ v.printed
  | .entered d => "enter scope (depth " ++ Nat.repr d ++ ")"
  | .left d => "exit scope (depth " ++ Nat.repr d ++ ")"
  | .branched v => "if condition -> " ++ v.printed
  | .looped v => "while condition -> " ++ v.printed

/-- The text of lines. -/
def linesText (lines : Array String) : String :=
  lines.foldl (fun text line => text ++ line ++ "\n") ""

/-- The text of a trace: the wording of each event on a line. -/
def traceText (events : Array Event) : String :=
  linesText (events.map Event.message)

end BlockScript
