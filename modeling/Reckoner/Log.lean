import Reckoner.Postfix.Machine
import Reckoner.Registry.Proposal

set_option autoImplicit false

/-!
# Log records

What the library has to say about its own work: registrations, the stages of an
interpretation, every call, how an interpretation ended if it has no value, and how a
session ended.  A record has a level, a message, and the name of the place in the program
that it comes from.  A stage that an exception leaves is recorded with the text of the
exception, so only if there is one; the traceback that a host adds is not part of a record.
-/

namespace Reckoner.Log

/-- How important a record is. -/
inductive Level where
  | debug
  | info
  | warning
  | error
  | critical
  deriving DecidableEq, Repr, Inhabited

namespace Level

/-- The written name of a level. -/
def label : Level → String
  | debug => "DEBUG"
  | info => "INFO"
  | warning => "WARNING"
  | error => "ERROR"
  | critical => "CRITICAL"

/-- The levels from the least important up. -/
def all : List Level := [debug, info, warning, error, critical]

/-- The level of a written name. -/
def ofLabel? (s : String) : Option Level := all.find? fun level => level.label == s

/-- The place of a level in the order of importance. -/
def rank : Level → Nat
  | debug => 0
  | info => 1
  | warning => 2
  | error => 3
  | critical => 4

end Level

/-- A stage of an interpretation. -/
inductive Stage where
  /-- cutting the text into tokens -/
  | tokens
  /-- putting the tokens into postfix order -/
  | order
  /-- evaluating the postfix nodes -/
  | evaluation
  deriving DecidableEq, Repr, Inhabited

/-- The written name of a stage. -/
def Stage.label : Stage → String
  | tokens => "tokenize"
  | order => "rpn"
  | evaluation => "calc_rpn"

/-- Something worth a line in the log. -/
inductive Record where
  | registration (r : Registration)
  | expression (source : String)
  | tokens (ts : List Token)
  | nodes (ns : List Node)
  | invocation (i : Invocation)
  /-- a stage that found the expression to have no value -/
  | failure (f : Failure) (stage : Stage)
  /-- a stage that was left by an exception with a text -/
  | raised (cls : ExceptionClass) (text : String) (stage : Stage)
  /-- a session that is over -/
  | finished (status : Nat)

/-! ## Written forms -/

/-- A token in the log. -/
def tokenText (t : Token) : String :=
  let index := "index=" ++ Number.intText t.index ++ ")"
  match t.lexeme with
  | .number x => "Number(value=" ++ Number.floatText x ++ ", " ++ index
  | .operator symbol => "InfixOperator(symbol=" ++ Text.quoted symbol ++ ", " ++ index
  | .name name => "FunctionName(name=" ++ Text.quoted name ++ ", " ++ index
  | .openParen => "OpenParen(" ++ index
  | .closeParen => "CloseParen(" ++ index
  | .comma => "Comma(" ++ index

/-- A definition in the log. -/
def definitionText : Definition → String
  | .operator o =>
    "Operator(symbol=" ++ Text.quoted o.symbol ++ ", precedence=" ++ Number.natText o.precedence ++
      ", callable_function=" ++ o.callback.form ++ ")"
  | .function f =>
    "Function(name=" ++ Text.quoted f.name ++ ", arity=" ++ Number.natText f.arity ++
      ", callable_function=" ++ f.callback.form ++ ")"

/-- A postfix node in the log. -/
def nodeText : Node → String
  | .literal x => "Literal(value=" ++ Number.floatText x ++ ")"
  | .call d => "Call(definition=" ++ definitionText d ++ ")"

/-- The status of a session in the log. -/
def statusText (status : Nat) : String := "finished with status " ++ Number.natText status

/-- The word for an exception in the log: the title of a failure, and one word for all faults. -/
def heading : ExceptionClass → String
  | .failure category => category.title
  | .fault _ => "Exception"

/-- Items in brackets. -/
def listText (items : List String) : String := "[" ++ ", ".intercalate items ++ "]"

namespace Record

/-- The level of a record. -/
def level : Record → Level
  | .failure _ _ | .raised (.failure _) _ _ => .info
  | .raised (.fault _) _ _ => .error
  | _ => .debug

/-- The name of the place in the program that a record comes from. -/
def origin : Record → String
  | .registration _ => "_register"
  | .expression _ => "interpret"
  | .tokens _ => "tokenize"
  | .nodes _ => "rpn"
  | .invocation _ => "call"
  | .failure _ _ | .raised _ _ _ => "wrapper"
  | .finished _ => "main"

/-- The message of a record. -/
def message : Record → String
  | .registration ⟨d, none⟩ => "registering " ++ definitionText d
  | .registration ⟨d, some old⟩ =>
    "overriding " ++ definitionText old ++ " with " ++ definitionText d
  | .expression source => "expression: " ++ Text.quoted source
  | .tokens ts => "tokens=" ++ listText (ts.map tokenText)
  | .nodes ns => "output=" ++ listText (ns.map nodeText)
  | .invocation i =>
    "Calling " ++ i.definition.name ++ "(" ++ listText (i.operands.map Number.floatText) ++ ")"
  | .failure f stage =>
    f.category.title ++ " in " ++ stage.label ++ ": " ++ f.message
  | .raised cls text stage => heading cls ++ " in " ++ stage.label ++ ": " ++ text
  | .finished status => statusText status

end Record

end Reckoner.Log
