import Reckoner.Value

set_option autoImplicit false

/-!
# Definitions

A definition gives a symbol or a name its meaning.  An infix operator has a
precedence, a function has an arity, and both have a callback of the host, a pure
function from operands to a value.  Instead of returning a value a callback may
raise an exception.
-/

namespace Reckoner

/-- A function of the host, with its written form.  An operator's callback is given the left
operand and then the right one. -/
structure Callback where
  form : String
  run : List Float → Except Exception Value

/-- A callback that leaves nothing unsaid: what it raises has a text, what it returns instead of
a number can be written, and a number that does not convert to a double raises a fault that
has a text. -/
structure Callback.IsLegible (c : Callback) : Prop where
  raised : ∀ operands e, c.run operands = .error e → e.IsWorded
  returned : ∀ operands v, c.run operands = .ok v → v.reading = .notANumber →
    ∃ form, v.shown = .ok form
  converted : ∀ operands v e, c.run operands = .ok v → v.reading = .raised e →
    e.IsWorded ∧ e.cls.isFailure = false

/-- An infix operator.  A higher precedence binds tighter. -/
@[ext] structure InfixOperator where
  symbol : String
  precedence : Nat
  callback : Callback

/-- A function with a fixed number of arguments. -/
@[ext] structure NamedFunction where
  name : String
  arity : Nat
  callback : Callback

/-- The meaning of a symbol or a name. -/
inductive Definition where
  | operator (o : InfixOperator)
  | function (f : NamedFunction)

namespace Definition

/-- The symbol or name that is defined. -/
def name : Definition → String
  | .operator o => o.symbol
  | .function f => f.name

/-- How many operands the callback is given. -/
def arity : Definition → Nat
  | .operator _ => 2
  | .function f => f.arity

/-- The callback of a definition. -/
def callback : Definition → Callback
  | .operator o => o.callback
  | .function f => f.callback

end Definition

end Reckoner
