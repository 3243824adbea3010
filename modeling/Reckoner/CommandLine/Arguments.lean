import Reckoner.Log
import Reckoner.Text.DecimalDigit

set_option autoImplicit false

/-!
# Command line arguments

The command line has two options with a value, `--log-level` and `--log-file`,
the option `-h` or `--help`, and any number of expressions.

Every argument is first classified by itself.  An argument is an option if it
starts with a dash, except for a lone dash, a negative number, and anything
unknown that holds a space; after `--` there are no options.  A long option may
be shortened as long as only one option starts that way, and may have its value
after an equals sign.

The arguments are then read in order.  Expressions have to stand together: once
an option follows them, there may be no more.  An option that is given twice has
the later value; the value `--`, which has to follow an equals sign, empties an
option.  Help ends the reading at once, and so does an option whose value is
missing or not among its choices; whatever cannot be placed is held against the
caller at the end only.
-/

namespace Reckoner.CommandLine

/-- An option with a value. -/
inductive Setting where
  | level
  | file
  deriving DecidableEq, Repr

/-- The long options. -/
inductive LongOption where
  | help
  | setting (s : Setting)
  deriving DecidableEq, Repr

namespace LongOption

/-- The written name of an option. -/
def label : LongOption → String
  | help => "--help"
  | setting .level => "--log-level"
  | setting .file => "--log-file"

/-- All long options. -/
def all : List LongOption := [help, setting .level, setting .file]

/-- The options whose names start in a given way. -/
def startingWith (start : List Char) : List LongOption :=
  all.filter fun o => start.isPrefixOf o.label.toList

/-- The option of a name. -/
def ofChars? (cs : List Char) : Option LongOption := all.find? fun o => o.label.toList == cs

end LongOption

/-- What an argument is, taken by itself. -/
inductive Argument where
  /-- an expression, or the value of the option before it -/
  | operand (s : String)
  /-- an option with its value, if that is written in the same argument -/
  | setting (s : Setting) (value : Option String)
  | help
  /-- a call for help with something attached that does not belong to it -/
  | spoiledHelp
  /-- the mark after which there are no options -/
  | separator
  /-- an option that does not exist -/
  | unknown
  deriving DecidableEq, Repr

/-- Why no expressions are evaluated. -/
inductive Exit where
  | help
  | badUsage
  deriving DecidableEq, Repr

/-- The status that an exit ends the program with. -/
def Exit.status : Exit → Nat
  | help => 0
  | badUsage => 2

/-! ## Classification -/

/-- Cuts a list of characters at the first equals sign. -/
def cutAtEquals : List Char → List Char × Option (List Char)
  | [] => ([], none)
  | '=' :: rest => ([], some rest)
  | c :: rest =>
    let (before, after) := cutAtEquals rest
    (c :: before, after)

/-- A negative number without an exponent; a line feed may come last. -/
def isNegativeNumber (cs : List Char) : Bool :=
  let body := if cs.getLast? = some '\n' then cs.dropLast else cs
  match body with
  | '-' :: digits =>
    match digits.dropWhile Text.isDecimalDigit with
    | [] => !digits.isEmpty
    | '.' :: fraction => !fraction.isEmpty && fraction.all Text.isDecimalDigit
    | _ => false
  | _ => false

/-- What `-h` is with these characters attached: a call for help as long as they
repeat the same option. -/
def helpWith (attached : List Char) : Argument :=
  if attached.all (· == 'h') then .help else .spoiledHelp

/-- A long option with the value after its equals sign, if there is one. -/
def ofLongOption (o : LongOption) (value : Option (List Char)) : Argument :=
  match o, value with
  | .help, none => .help
  | .help, some _ => .spoiledHelp
  | .setting s, _ => .setting s (value.map String.ofList)

/-- An argument that starts with a dash and names no option. -/
def classifyOther (cs : List Char) : Argument :=
  if isNegativeNumber cs || cs.contains ' ' then .operand (String.ofList cs) else .unknown

/-- What an argument is if there may be options. -/
def classifyChars (cs : List Char) : Except Exit Argument :=
  let (name, value) := cutAtEquals cs
  match cs with
  | '-' :: '-' :: _ =>
    if cs = ['-', '-'] then .ok .separator
    else match LongOption.ofChars? cs with
      | some o => .ok (ofLongOption o none)
      | none => match LongOption.ofChars? name with
        | some o => .ok (ofLongOption o value)
        | none => match LongOption.startingWith name with
          | [] => .ok (classifyOther cs)
          | [o] => .ok (ofLongOption o value)
          | _ => .error .badUsage
  | ['-', 'h', '='] => .ok .spoiledHelp
  | '-' :: 'h' :: '=' :: attached => .ok (helpWith attached)
  | '-' :: 'h' :: attached => .ok (helpWith attached)
  | '-' :: _ :: _ => .ok (classifyOther cs)
  | _ => .ok (.operand (String.ofList cs))

/-- What every argument is. -/
def classify : List String → Except Exit (List Argument)
  | [] => .ok []
  | s :: rest => match classifyChars s.toList with
    | .error e => .error e
    | .ok .separator => .ok (.separator :: rest.map .operand)
    | .ok a => (classify rest).map (a :: ·)

/-! ## Reading -/

/-- What the arguments ask for. -/
structure Options where
  /-- the level of the log; none if the option was emptied -/
  level : Option Log.Level
  /-- the path of the log file; empty if there is to be none -/
  logFile : String
  expressions : List String
  deriving DecidableEq, Repr

/-- What holds if there are no arguments. -/
def Options.default : Options := ⟨some .warning, "logs/calcterp.log", []⟩

/-- The value that empties an option, being the mark that ends the options. -/
def emptyingValue : String := "--"

/-- Sets an option, if the value is one of its choices. -/
def Options.set (o : Options) (s : Setting) (value : String) : Except Exit Options :=
  match s with
  | .file => .ok { o with logFile := if value = emptyingValue then "" else value }
  | .level =>
    if value = emptyingValue then .ok { o with level := none }
    else match Log.Level.ofLabel? value with
      | some level => .ok { o with level := some level }
      | none => .error .badUsage

/-- How far the reading of expressions has come. -/
inductive Progress where
  /-- no expression has been met -/
  | before
  /-- the last argument was an expression or the mark in front of some -/
  | among
  /-- an option came after the expressions -/
  | after
  deriving DecidableEq, Repr

/-- The progress at an option. -/
def Progress.atOption : Progress → Progress
  | before => before
  | among => after
  | after => after

/-- Reads classified arguments in order.  `misplaced` tells whether something
could not be placed so far. -/
def readArguments (progress : Progress) (misplaced : Bool) :
    List Argument → Options → Except Exit Options
  | [], o => if misplaced then .error .badUsage else .ok o
  | .operand s :: rest, o =>
    if progress = .after then readArguments .after true rest o
    else readArguments .among misplaced rest { o with expressions := o.expressions ++ [s] }
  | .separator :: rest, o =>
    if progress = .after then readArguments .after true rest o
    else readArguments .among misplaced rest o
  | .unknown :: rest, o => readArguments progress.atOption true rest o
  | .help :: _, _ => .error .help
  | .spoiledHelp :: _, _ => .error .badUsage
  | .setting s (some value) :: rest, o =>
    match o.set s value with
    | .error e => .error e
    | .ok o' => readArguments progress.atOption misplaced rest o'
  | .setting s none :: .operand value :: rest, o =>
    match o.set s value with
    | .error e => .error e
    | .ok o' => readArguments progress.atOption misplaced rest o'
  | .setting _ none :: _, _ => .error .badUsage

/-- What a command line asks for. -/
def Options.ofArguments (arguments : List String) : Except Exit Options :=
  match classify arguments with
  | .error e => .error e
  | .ok classified => readArguments .before false classified .default

end Reckoner.CommandLine
