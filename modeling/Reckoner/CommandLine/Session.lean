import Reckoner.Display
import Reckoner.Registry.Standard
import Reckoner.CommandLine.Arguments
import Reckoner.Text.Blank
import Reckoner.Text.Lines

set_option autoImplicit false

/-!
# Sessions

A session evaluates expressions under the standard definitions and says something
about each.  Expressions come either from the command line, all at once, or line
by line in answer to a prompt, until a line says `q` or there are no more lines.
Blank expressions are passed over.  What a session does is a list of events, in
order; the status of a one-shot session tells whether some expression had no
value.
-/

namespace Reckoner.CommandLine

/-- Something that a session does. -/
inductive Event where
  /-- asks for a line -/
  | prompt
  /-- prints a line -/
  | line (text : String)
  /-- hands a record to the log -/
  | record (r : Log.Record)

/-- Why a session breaks off. -/
inductive Interruption where
  /-- the path of the log file holds a character that no path can hold -/
  | invalidPath
  /-- the log has no level -/
  | noLevel
  | raised (e : Exception)
  | display (e : DisplayError)

/-- The text that explains why a session breaks off. -/
def Interruption.message : Interruption → String
  | invalidPath => "embedded null byte"
  | noLevel => "Level not an integer or a valid string: []"
  | raised e => e.shown
  | display e => e.message

/-- The events of a session, and its status unless it breaks off. -/
structure Transcript where
  events : List Event
  ending : Except Interruption Nat

/-- The text of the prompt. -/
def promptText : String := "Enter the expression to calculate(q to exit): "

/-- The line that ends a conversation. -/
def exitCommand : String := "q"

/-- Evaluates an expression and prints the answer; the status tells whether there
was a value. -/
def respond (r : Registry) (source : String) : Transcript :=
  let interpretation := r.interpret source
  let logged := interpretation.records.map Event.record
  match interpretation.answer with
  | .error e => ⟨logged, .error (.raised e)⟩
  | .ok answer => match answer.display source with
    | .error e => ⟨logged, .error (.display e)⟩
    | .ok text => ⟨logged ++ [.line text], .ok (match answer with
      | .value _ => 0
      | .error _ => 1)⟩

/-- What follows a response: the rest of the session, unless it broke off. -/
def Transcript.followedBy (first : Transcript) (rest : Nat → Transcript) : Transcript :=
  match first.ending with
  | .error e => ⟨first.events, .error e⟩
  | .ok status => ⟨first.events ++ (rest status).events, (rest status).ending⟩

/-- The transcript with a status that is at least this one. -/
def Transcript.withStatus (t : Transcript) (status : Nat) : Transcript :=
  ⟨t.events, t.ending.map (max status)⟩

/-- A one-shot session. -/
def oneShot (r : Registry) : List String → Transcript
  | [] => ⟨[], .ok 0⟩
  | e :: es =>
    if Text.isBlank e then oneShot r es
    else (respond r e).followedBy (oneShot r es).withStatus

/-- What becomes of a line in a conversation. -/
inductive Reading where
  | quit
  | skip
  | expression
  deriving DecidableEq, Repr

/-- A line is trimmed before it is compared with the exit command, and only then. -/
def Reading.ofLine (line : String) : Reading :=
  if Text.trim line == exitCommand then quit
  else if Text.isBlank line then skip
  else expression

/-- The transcript with one more event before it. -/
def Transcript.after (e : Event) (t : Transcript) : Transcript := ⟨e :: t.events, t.ending⟩

/-- A conversation over the lines of the input. -/
def converse (r : Registry) : List String → Transcript
  | [] => ⟨[.prompt], .ok 0⟩
  | line :: lines => match Reading.ofLine line with
    | .quit => ⟨[.prompt], .ok 0⟩
    | .skip => (converse r lines).after .prompt
    | .expression => ((respond r line).followedBy fun _ => converse r lines).after .prompt

/-- What keeps a session from starting: a log file that cannot be opened goes
before a log without a level. -/
def Options.obstacle? (o : Options) : Option Interruption :=
  if o.logFile.toList.contains (Char.ofNat 0) then some .invalidPath
  else if o.level.isNone then some .noLevel
  else none

/-- The records of the standard definitions, which are registered before anything else. -/
def opening : List Event :=
  (Registry.empty.enrol Standard.proposals).made.map fun made => .record (.registration made)

/-- The transcript with a last record of its status, unless it breaks off. -/
def Transcript.finished (t : Transcript) : Transcript :=
  match t.ending with
  | .error e => ⟨t.events, .error e⟩
  | .ok status => ⟨t.events ++ [.record (.finished status)], .ok status⟩

/-- What a session does once it has been started, on an input that is read only if there are
no expressions on the command line. -/
def Options.course (o : Options) (input : String) : Transcript :=
  let registry := Standard.registry.freeze
  if o.expressions.isEmpty then converse registry (Text.lines input)
  else (oneShot registry o.expressions).finished

/-- The session that options ask for. -/
def session (o : Options) (input : String) : Transcript :=
  match o.obstacle? with
  | some e => ⟨[], .error e⟩
  | none => ⟨opening ++ (o.course input).events, (o.course input).ending⟩

/-! ## What is seen of a session -/

/-- Whether an event is for the log only. -/
def Event.isRecord : Event → Bool
  | record _ => true
  | prompt | line _ => false

/-- The prompts and the lines of a session, without what is for the log. -/
def Transcript.shown (t : Transcript) : List Event := t.events.filter fun e => !e.isRecord

/-- The text of a line. -/
def Event.text? : Event → Option String
  | line text => some text
  | prompt | record _ => none

/-- The lines of a session. -/
def Transcript.lines (t : Transcript) : List String := t.shown.filterMap Event.text?

/-- What an event prints. -/
def Event.printed : Event → String
  | prompt => promptText
  | line text => text ++ "\n"
  | record _ => ""

/-- A name in at least four places, set to the right. -/
def padded (name : String) : String :=
  String.ofList (List.replicate (4 - name.length) ' ') ++ name

/-- A record as a line of the log. -/
def logLine (r : Log.Record) : String :=
  "[" ++ r.level.label ++ " - " ++ padded r.origin ++ "() ] " ++ r.message ++ "\n"

/-- What an event writes to a log of a level. -/
def Event.logged (level : Option Log.Level) : Event → String
  | record r => if level.any fun l => l.rank ≤ r.level.rank then logLine r else ""
  | _ => ""

/-- All that a session prints. -/
def Transcript.printed (t : Transcript) : String := String.join (t.events.map Event.printed)

/-- All that a session writes to a log of a level. -/
def Transcript.logged (t : Transcript) (level : Option Log.Level) : String :=
  String.join (t.events.map (Event.logged level))

end Reckoner.CommandLine
