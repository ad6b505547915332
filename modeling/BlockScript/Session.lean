/-
  BlockScript — interactive sessions.

  A session collects lines until one ends with `;` or a closing brace while no
  brace is open.  What it has collected is then a fragment, which is parsed
  and run in an environment that lasts for the whole session.  A failure is
  reported and ends only its fragment.  The line `exit;` ends the session.

  * `braceDepth text`: the number of braces left open, not counting those in
    strings;
  * `runSource`, `Verdict`: running a source text, and how that ended;
  * `Session.feed`, `Reply`: the session after a line, and what it answers;
  * `Session.converse`: the text of a whole conversation.
-/
import BlockScript.Run.Exec
import BlockScript.Strategy
import BlockScript.Text.Lines

namespace BlockScript

/-! ## Braces -/

/-- The change of the number of open braces over a text that starts inside a
    string or not. -/
def braceDepthFrom (inString : Bool) : List Char → Int
  | [] => 0
  | c :: rest =>
    if c = '"' then braceDepthFrom (!inString) rest
    else if inString then braceDepthFrom inString rest
    else if c = '\x7b' then 1 + braceDepthFrom inString rest
    else if c = '\x7d' then braceDepthFrom inString rest - 1
    else braceDepthFrom inString rest

/-- The number of braces left open by a text, not counting those in strings. -/
def braceDepth (text : String) : Int :=
  braceDepthFrom false text.toList

/-! ## Errors as a session reports them -/

/-- A failure that is reported: its kind and its wording. -/
def reportText (kind message : String) : String :=
  kind ++ ": " ++ message

/-- The report of a source text that is no program. -/
def SourceError.report (e : SourceError) : String :=
  reportText e.word e.message

/-- The report of a fault, if it is an error of the program. -/
def Fault.report? (f : Fault) : Option String :=
  f.kind?.map fun kind => reportText kind.word f.message

/-! ## Running a source text -/

/-- What stays the same for a whole session. -/
structure Settings where
  strategy : Strategy
  verbosity : Int
  /-- the bound on the loops of a run -/
  bound : Nat

/-- How the running of a source text ended. -/
inductive Verdict where
  | succeeded
  /-- the text is no program -/
  | refused (error : SourceError)
  /-- the run of the program ended with a fault -/
  | faulted (fault : Fault)

/-- The verdict on a run. -/
def Ending.verdict (ending : Ending) : Verdict :=
  match ending.fault with
  | none => .succeeded
  | some f => .faulted f

/-- The report of a failure, if it is an error of the program. -/
def Verdict.report? : Verdict → Option String
  | .succeeded => none
  | .refused e => some e.report
  | .faulted f => f.report?

/-- The fault of a run, if it is no error of the program. -/
def Verdict.crash? : Verdict → Option Fault
  | .faulted f => if f.kind?.isSome then none else some f
  | _ => none

/-- Parse and run a source text. -/
def runSource (settings : Settings) (source : String) (st : RunState) :
    Option (RunState × Verdict) :=
  match settings.strategy.parse source with
  | .error e => some (st, .refused e)
  | .ok program => (run settings.bound settings.verbosity program st).map fun ending =>
      (ending.state, ending.verdict)

/-! ## Sessions -/

/-- A session: the state of its runs, and the lines collected so far, each with
    its line feed. -/
structure Session where
  state : RunState
  buffer : List String

/-- A new session. -/
def Session.new : Session := ⟨RunState.of Env.empty, []⟩

/-- What a session answers to a line. -/
inductive Reply where
  /-- the line was collected -/
  | more
  /-- the line completed a fragment, which was run -/
  | ran (source : String) (verdict : Verdict)
  | finished

/-- The text of the collected lines. -/
def Session.text (session : Session) : String :=
  String.join session.buffer

/-- Collect a line. -/
def Session.collect (line : String) (session : Session) : Session :=
  { session with buffer := session.buffer ++ [line ++ "\n"] }

/-- Whether a line may be the last one of a fragment. -/
def endsFragment (line : String) : Bool :=
  match (stripChars line.toList).getLast? with
  | some c => c = ';' || c = '\x7d'
  | none => false

/-- Print the report of a failure, if there is one. -/
def RunState.report (st : RunState) (verdict : Verdict) : RunState :=
  match verdict.report? with
  | some report => st.print ("Error: " ++ report)
  | none => st

/-- Run a fragment, and report its failure. -/
def runFragment (settings : Settings) (source : String) (st : RunState) :
    Option (RunState × Verdict) :=
  let st := st.record settings.verbosity (.fragment (strip source))
  (runSource settings source st).map fun (st, verdict) => (st.report verdict, verdict)

/-- Whether the collected lines, the last of which is given, are a fragment. -/
def Session.completes (line : String) (session : Session) : Bool :=
  endsFragment line && braceDepth session.text ≤ 0

/-- The line that ends a session. -/
def exitLine : String := "exit;"

/-- The session after a line, and what it answers. -/
def Session.feed (settings : Settings) (line : String) (session : Session) :
    Option (Session × Reply) :=
  if strip line = exitLine then some (session, .finished)
  else
    let session := session.collect line
    if session.completes line then
      (runFragment settings session.text session.state).map fun (st, verdict) =>
        (⟨st, []⟩, .ran session.text verdict)
    else some (session, .more)

/-! ## Conversations -/

/-- The first line of a conversation. -/
def banner : String := "minilang interpreter (type 'exit;' to quit)"

/-- What asks for a line. -/
def prompt : String := ">>> "

/-- Write without ending the line. -/
def RunState.write (st : RunState) (text : String) : RunState :=
  { st with output := st.output ++ text }

/-- The session after a prompt and a line for each of the given lines, up to
    the one that ends it, and the fault that broke it, if one did.  The end of
    the input is asked for, too. -/
def Session.converseFrom (settings : Settings) (session : Session) :
    List String → Option (Session × Option Fault)
  | [] => some ({ session with state := session.state.write prompt }, none)
  | line :: rest =>
    match Session.feed settings line { session with state := session.state.write prompt } with
    | none => none
    | some (session, .finished) => some (session, none)
    | some (session, .more) => Session.converseFrom settings session rest
    | some (session, .ran _ verdict) => match verdict.crash? with
      | some f => some (session, some f)
      | none => Session.converseFrom settings session rest

/-- A whole conversation over the given input. -/
def Session.converse (settings : Settings) (input : String) : Option (Session × Option Fault) :=
  let session := { Session.new with state := Session.new.state.print banner }
  session.converseFrom settings (splitLines input)

end BlockScript
