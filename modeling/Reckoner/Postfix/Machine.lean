import Reckoner.Failure
import Reckoner.Postfix.Node

set_option autoImplicit false

/-!
# Evaluating postfix nodes

Nodes are evaluated in order on a stack of operands.  A literal is put on the
stack; a call takes its operands off, in the order in which they were written,
and puts its result there.  One value has to be left at the end.

A run stops at the first node that goes wrong.  It may stop for a *failure*, which
the expression is answered with, or for an *exception* that the host's code raises and
that is passed on.  The message of a failure quotes what the host's code has returned or
raised; if that cannot be written, an exception is passed on as well.  Every call that
has its operands is recorded before its callback is run.
-/

namespace Reckoner

/-- Why an evaluation stops. -/
inductive Halt where
  /-- the expression has no value -/
  | failure (f : Failure)
  /-- the host's code raised an exception that no failure was made of -/
  | raised (e : Exception)

/-- A call with the operands that its callback is given. -/
structure Invocation where
  definition : Definition
  operands : List Float

namespace Definition

/-- The number that a value returned by the callback stands for. -/
def accept (d : Definition) (v : Value) : Except Halt Float :=
  match v.reading with
  | .number x => .ok x
  | .raised e => .error (.raised e)
  | .notANumber => match v.shown with
    | .ok form => .error (.failure (.evaluation (.notANumber d.name form)))
    | .error e => .error (.raised e)

/-- Applies a definition to its operands. -/
def apply (d : Definition) (operands : List Float) : Except Halt Float :=
  match d.callback.run operands with
  | .ok v => d.accept v
  | .error e =>
    if e.cls.blamesOperands then match e.text with
      | .ok text => .error (.failure (.evaluation (.inapplicable d.name operands text)))
      | .error e' => .error (.raised e')
    else .error (.raised e)

end Definition

namespace Postfix

/-- The calls made by a run, in order, and how the run ended. -/
structure Run where
  invocations : List Invocation
  outcome : Except Halt Float

/-- The run after one more call that was made before it. -/
def Run.after (i : Invocation) (run : Run) : Run := ⟨i :: run.invocations, run.outcome⟩

/-- The value that is left at the end. -/
def result : List Float → Except Halt Float
  | [x] => .ok x
  | stack => .error (.failure (.evaluation (.leftOver stack.length)))

/-- Runs nodes on a stack of operands, the latest first. -/
def run : List Float → List Node → Run
  | stack, [] => ⟨[], result stack⟩
  | stack, .literal x :: nodes => run (x :: stack) nodes
  | stack, .call d :: nodes =>
    if stack.length < d.arity then
      ⟨[], .error (.failure (.evaluation (.underflow d.name d.arity stack.length)))⟩
    else
      let operands := (stack.take d.arity).reverse
      match d.apply operands with
      | .error halt => ⟨[⟨d, operands⟩], .error halt⟩
      | .ok x => (run (x :: stack.drop d.arity) nodes).after ⟨d, operands⟩

/-- The value of nodes. -/
def evaluate (nodes : List Node) : Except Halt Float := (run [] nodes).outcome

end Postfix

end Reckoner
