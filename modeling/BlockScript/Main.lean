/-
  BlockScript — the command line program.

  Reads the files that the options name, performs the command on them, and
  writes what it reports.  A conversation is held line by line instead of on
  the whole input.
-/
import BlockScript.Command.Report

namespace BlockScript

/-- The file that options name. -/
def Options.file? (o : Options) : Option String :=
  (nonEmpty? o.emit).or ((nonEmpty? o.load).or (nonEmpty? o.program))

/-- The text of a file, if it can be read. -/
def readFile? (name : String) : IO (Option String) := do
  match ← (IO.FS.readFile name).toBaseIO with
  | .ok text => return some text
  | .error _ => return none

/-- What a failure that is not handled says. -/
def Crash.message : Crash → String
  | .load e => e.message
  | .run f => f.message

/-- Write a trace, if it is not empty. -/
def writeTrace (trace : Array Event) : IO Unit := do
  if !trace.isEmpty then IO.FS.writeFile traceFile (traceText trace)

/-- The status of a command's ending. -/
def CommandEnding.status : CommandEnding → UInt32
  | .exited status => status.toUInt32
  | .crashed _ => 1
  | .usage => 2

/-- Write what a command reports. -/
def Report.write (report : Report) (before : Store) : IO UInt32 := do
  let out ← IO.getStdout
  out.putStr report.output
  IO.eprint report.errors
  for (name, text) in before.changes report.store do
    IO.FS.writeFile name text
  match report.ending with
  | .crashed cause => IO.eprintln cause.message
  | .usage => IO.eprint usageText
  | .exited _ => pure ()
  return report.ending.status

/-- Hold a conversation line by line. -/
partial def converseLive (settings : Settings) (session : Session) : IO UInt32 := do
  let out ← IO.getStdout
  out.putStr prompt
  out.flush
  let line ← (← IO.getStdin).getLine
  match splitLines (unifyLineEnds line) with
  | [] =>
    writeTrace session.state.trace
    return 0
  | text :: _ =>
    match session.feed settings text with
    | none => return 1
    | some (session, reply) =>
      out.putStr session.state.output
      let quiet := { session with state := { session.state with output := "" } }
      match reply with
      | .more => converseLive settings quiet
      | .finished =>
        writeTrace session.state.trace
        return 0
      | .ran _ verdict => match verdict.crash? with
        | none => converseLive settings quiet
        | some f =>
          writeTrace session.state.trace
          IO.eprintln f.message
          return 1

end BlockScript

open BlockScript in
/-- The command line program. -/
def main (words : List String) : IO UInt32 := do
  match Request.read words with
  | .misuse =>
    IO.eprint usageText
    return 2
  | .help =>
    (← IO.getStdout).putStr helpText
    return 0
  | .command o => match o.file? with
    | none =>
      (← IO.getStdout).putStrLn banner
      converseLive (o.settings ampleBound) Session.new
    | some name =>
      let store : Store := match ← readFile? name with
        | some text => [(Path.of name, text)]
        | none => []
      match o.perform ampleBound store "" with
      | none => return 1
      | some report => report.write store
