/-
  BlockScript — what a command does.

  A command writes a program as a document, runs a document, runs a program,
  or holds a conversation, in this order of preference; an empty name counts
  as none.  Errors of a program end the command with status one.  Other
  failures are not handled: a document whose literals are malformed in a way
  that is not reported, whose tree mixes statements and expressions, or whose
  data cannot be used as the names and texts that they stand for.

  * `Report`: how a command ends, what it writes, and the files after it;
  * `perform`: the report of a command line.
-/
import BlockScript.Command.Options
import BlockScript.Command.Store
import BlockScript.Draft.Exec
import BlockScript.Json.Reader
import BlockScript.Json.Writer
import BlockScript.Session

namespace BlockScript

/-- A failure that a command does not handle. -/
inductive Crash where
  | load (error : LoadError)
  | run (fault : Fault)

/-- How a command ends. -/
inductive CommandEnding where
  | exited (status : Nat)
  | crashed (cause : Crash)
  /-- the command line is not well formed -/
  | usage

/-- What a command does. -/
structure Report where
  ending : CommandEnding
  /-- the standard output -/
  output : String
  /-- the error output -/
  errors : String
  /-- the files afterwards -/
  store : Store

/-- The name of the file for traces. -/
def traceFile : String := "debug.txt"

/-- The ending of the name of a written document. -/
def documentEnding : String := ".ast.json"

/-- The files after a run: a trace that is not empty is written. -/
def storeTrace (lines : Array String) (store : Store) : Store :=
  if lines.isEmpty then store else store.put (Path.of traceFile) (linesText lines)

/-- The report of a command that fails before it runs anything. -/
def Report.refused (message : String) (store : Store) : Report :=
  ⟨.exited 1, "", "Error: " ++ message ++ "\n", store⟩

/-- The report of a run that printed `output`, with the lines of its trace and
    the fault that ended it. -/
def Report.ofRun (output : String) (lines : Array String) (fault : Option Fault)
    (store : Store) : Report :=
  let store := storeTrace lines store
  match fault with
  | none => ⟨.exited 0, output, "", store⟩
  | some f => match f.report? with
    | some report => ⟨.exited 1, output, "Runtime error: " ++ report ++ "\n", store⟩
    | none => ⟨.crashed (.run f), output, "", store⟩

/-- The report of a run of a program. -/
def Report.ofEnding (ending : Ending) (store : Store) : Report :=
  .ofRun ending.state.output (ending.state.trace.map Event.message) ending.fault store

/-- The report of a run of a draft. -/
def Report.ofDraft (ending : DraftEnding) (store : Store) : Report :=
  .ofRun ending.state.output ending.state.trace ending.fault store

/-- Run a program and report on it. -/
def runProgram (settings : Settings) (program : List Node) (store : Store) : Option Report :=
  (run settings.bound settings.verbosity program (RunState.of Env.empty)).map
    fun ending => .ofEnding ending store

/-- Run drafts and report on them. -/
def runLoaded (settings : Settings) (program : List Draft) (store : Store) : Option Report :=
  (runDrafts settings.bound settings.verbosity program DraftState.new).map
    fun ending => .ofDraft ending store

/-- Go on with the path of a file, which must exist, its place and its text. -/
def withFile (name : String) (store : Store)
    (next : Path → Path → String → Option Report) : Option Report :=
  let path := Path.of name
  match store.get? path with
  | none => some (.refused ("file " ++ path.text ++ " not found") store)
  | some (place, text) => next path place text

/-- Go on with the path of a source file, its place and its program. -/
def withSource (settings : Settings) (name : String) (store : Store)
    (next : Path → Path → List Node → Option Report) : Option Report :=
  withFile name store fun path place text =>
    match settings.strategy.parse (unifyLineEnds text) with
    | .error e => some (.refused e.report store)
    | .ok program => next path place program

/-- Write a program as a document beside its source. -/
def performEmit (settings : Settings) (name : String) (store : Store) : Option Report :=
  withSource settings name store fun path place program =>
    let document := (programToJson program).write
    let store := store.put (place.withEnding documentEnding) document
    some ⟨.exited 0, (path.withEnding documentEnding).text ++ "\n", "", store⟩

/-- Whether a command reports a reason why a document is not a program. -/
def LoadError.isReported : LoadError → Bool
  | .notValue _ | .integerTooLarge => false
  | _ => true

/-- Run a document. -/
def performLoad (settings : Settings) (name : String) (store : Store) : Option Report :=
  withFile name store fun path _ text =>
    let refused (message : String) : Option Report :=
      some (.refused ("invalid AST file " ++ path.text ++ ": " ++ message) store)
    match Raw.read (unifyLineEnds text) with
    | .error e => refused e.message
    | .ok document => match loadDrafts document with
      | .error e =>
        if e.isReported then refused e.message
        else some ⟨.crashed (.load e), "", "", store⟩
      | .ok program => runLoaded settings program store

/-- Hold a conversation. -/
def performSession (settings : Settings) (input : String) (store : Store) : Option Report :=
  (Session.converse settings (unifyLineEnds input)).map fun (session, fault) =>
    let store := storeTrace (session.state.trace.map Event.message) store
    match fault with
    | none => ⟨.exited 0, session.state.output, "", store⟩
    | some f => ⟨.crashed (.run f), session.state.output, "", store⟩

/-- The settings that options ask for. -/
def Options.settings (o : Options) (bound : Nat) : Settings :=
  ⟨o.strategy, o.verbosity, bound⟩

/-- What options ask for. -/
def Options.perform (o : Options) (bound : Nat) (store : Store) (input : String) : Option Report :=
  let settings := o.settings bound
  match nonEmpty? o.emit, nonEmpty? o.load, nonEmpty? o.program with
  | some name, _, _ => performEmit settings name store
  | none, some name, _ => performLoad settings name store
  | none, none, some name =>
    withSource settings name store fun _ _ program => runProgram settings program store
  | none, none, none => performSession settings input store

/-- How the command is used. -/
def usageText : String :=
  "usage: blockscript [-h] [-v] [--parser \x7blark,recursive\x7d]\n" ++
  "                   [--emit-ast PROGRAM_FILE | --ast AST_JSON_FILE]\n" ++
  "                   [program]\n"

/-- The help that the command gives. -/
def helpText : String :=
  usageText ++ "\nminilang interpreter\n\n" ++
  "positional arguments:\n" ++
  "  program               program file to execute; omit for an interactive\n" ++
  "                        session\n\n" ++
  "options:\n" ++
  "  -h, --help            show this help message and exit\n" ++
  "  -v                    increase debug verbosity (can be repeated)\n" ++
  "  --parser \x7blark,recursive\x7d\n" ++
  "                        parser used for source text\n" ++
  "  --emit-ast PROGRAM_FILE\n" ++
  "                        emit AST JSON for the given program file\n" ++
  "  --ast AST_JSON_FILE   execute AST from a JSON file\n"

/-- The report of a command line, over the given files and input. -/
def perform (bound : Nat) (words : List String) (store : Store) (input : String) : Option Report :=
  match Request.read words with
  | .misuse => some ⟨.usage, "", "", store⟩
  | .help => some ⟨.exited 0, helpText, "", store⟩
  | .command o => o.perform bound store input

end BlockScript
