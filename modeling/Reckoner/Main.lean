import Reckoner.CommandLine.Session

set_option autoImplicit false

/-!
# The program

Reads the command line, opens the log, and carries out the events of a session as
they come up.  All decisions are made elsewhere; here they meet the terminal and
the file system.
-/

namespace Reckoner.CommandLine

/-- How the program is called. -/
def usageText : String :=
  "usage: [-h] [--log-level LEVEL] [--log-file FILE] [expressions ...]\n"

/-- The directory part of a path, if it has one. -/
def directoryOf (path : String) : Option String :=
  match path.toList.reverse.dropWhile (· ≠ '/') with
  | [] => none
  | '/' :: [] => some "/"
  | _ :: directory => some (String.ofList directory.reverse)

/-- Opens the log file for writing at its end; its directory is made if need be. -/
def openLog (path : String) : IO (Option IO.FS.Handle) := do
  if path.isEmpty then return none
  if let some directory := directoryOf path then IO.FS.createDirAll directory
  return some (← IO.FS.Handle.mk path .append)

/-- Carries out one event. -/
def carryOut (level : Option Log.Level) (log : Option IO.FS.Handle) (e : Event) : IO Unit := do
  let out ← IO.getStdout
  out.putStr e.printed
  out.flush
  let entry := e.logged level
  unless entry.isEmpty do
    (← IO.getStderr).putStr entry
    if let some file := log then file.putStr entry

/-- Carries out a transcript, and gives the status to end with. -/
def carryOutAll (level : Option Log.Level) (log : Option IO.FS.Handle) (t : Transcript) :
    IO UInt32 := do
  t.events.forM (carryOut level log)
  match t.ending with
  | .ok status => return status.toUInt32
  | .error e => throw (IO.userError e.message)

/-- Converses with the terminal.  `pending` are the lines read and not yet used. -/
partial def talk (r : Registry) (level : Option Log.Level) (log : Option IO.FS.Handle)
    (pending : List String) : IO UInt32 := do
  carryOut level log .prompt
  let lines ← if pending.isEmpty then Text.lines <$> (← IO.getStdin).getLine else pure pending
  match lines with
  | [] => return 0
  | line :: rest => match Reading.ofLine line with
    | .quit => return 0
    | .skip => talk r level log rest
    | .expression =>
      discard (carryOutAll level log (respond r line))
      talk r level log rest

/-- Runs the program on its arguments. -/
def runProgram (arguments : List String) : IO UInt32 := do
  match Options.ofArguments arguments with
  | .error exit =>
    match exit with
    | .help => (← IO.getStdout).putStr usageText
    | .badUsage => (← IO.getStderr).putStr usageText
    return exit.status.toUInt32
  | .ok options =>
    if let some obstacle := options.obstacle? then throw (IO.userError obstacle.message)
    let log ← openLog options.logFile
    if options.expressions.isEmpty then
      opening.forM (carryOut options.level log)
      talk Standard.registry.freeze options.level log []
    else carryOutAll options.level log (session options "")

end Reckoner.CommandLine

/-- Evaluates the expressions on the command line, or else those typed in. -/
def main (arguments : List String) : IO UInt32 :=
  Reckoner.CommandLine.runProgram arguments
