import Reckoner.Postfix.Machine

set_option autoImplicit false

/-!
# The course of a run

How far a run of postfix nodes gets and why it stops, said of the nodes one by one.
A call may return a number, make the expression fail, or be left by an exception; a
run *passes* the nodes that go well, and the first one that does not decides how it
ends.
-/

namespace Reckoner

namespace Definition

/-- A call whose callback returns a number. -/
def Returns (d : Definition) (operands : List Float) (x : Float) : Prop :=
  ∃ v, d.callback.run operands = .ok v ∧ v.reading = .number x

/-- A call that makes the expression fail: the callback raises an exception that blames the
operands, or returns something else than a number, and this can be written. -/
inductive Fails (d : Definition) (operands : List Float) : Failure → Prop
  | inapplicable {e : Exception} {text : String} :
      d.callback.run operands = .error e → e.cls.blamesOperands = true → e.text = .ok text →
      Fails d operands (.evaluation (.inapplicable d.name operands text))
  | notANumber {v : Value} {form : String} :
      d.callback.run operands = .ok v → v.reading = .notANumber → v.shown = .ok form →
      Fails d operands (.evaluation (.notANumber d.name form))

/-- A call that an exception leaves: the callback raises one that does not blame the
operands, or returns a number whose conversion to a double raises one, or there is one
because what the callback raised or returned cannot be written. -/
inductive Escapes (d : Definition) (operands : List Float) : Exception → Prop
  | raised {e : Exception} :
      d.callback.run operands = .error e → e.cls.blamesOperands = false → Escapes d operands e
  | unconvertible {v : Value} {e : Exception} :
      d.callback.run operands = .ok v → v.reading = .raised e → Escapes d operands e
  | unexplained {e e' : Exception} :
      d.callback.run operands = .error e → e.cls.blamesOperands = true → e.text = .error e' →
      Escapes d operands e'
  | unwritten {v : Value} {e : Exception} :
      d.callback.run operands = .ok v → v.reading = .notANumber → v.shown = .error e →
      Escapes d operands e

/-- A call whose callback reports a failure of the expression, one that is not at the same time
a fault of the operands. -/
def Reports (d : Definition) (operands : List Float) (e : Exception) : Prop :=
  d.callback.run operands = .error e ∧ e.cls.isFailure = true ∧ e.cls.blamesOperands = false

/-- A call that breaks off: the callback raises an exception that is neither a failure of the
expression nor a fault of the operands, or returns a number that does not convert to a double. -/
inductive Breaks (d : Definition) (operands : List Float) : Exception → Prop
  | raised {e : Exception} :
      d.callback.run operands = .error e → e.cls.isFailure = false →
      e.cls.blamesOperands = false → Breaks d operands e
  | unconvertible {v : Value} {e : Exception} :
      d.callback.run operands = .ok v → v.reading = .raised e → Breaks d operands e

end Definition

namespace Postfix

/-- Nodes that a run gets past, and the stacks of operands before and after them. -/
inductive Passes : List Float → List Node → List Float → Prop
  | done (stack : List Float) : Passes stack [] stack
  | literal {x : Float} {stack last : List Float} {nodes : List Node} :
      Passes (x :: stack) nodes last → Passes stack (.literal x :: nodes) last
  | call {d : Definition} {x : Float} {stack last : List Float} {nodes : List Node} :
      d.arity ≤ stack.length → d.Returns (stack.take d.arity).reverse x →
      Passes (x :: stack.drop d.arity) nodes last → Passes stack (.call d :: nodes) last

/-- A call that a run gets to, and the stack that it finds there. -/
def Arrives (start : List Float) (nodes : List Node) (d : Definition) (stack : List Float) : Prop :=
  ∃ before after, nodes = before ++ .call d :: after ∧ Passes start before stack

/-- Why a run does not end with a value: the first call that goes wrong, or else the
stack that is left at the end. -/
inductive Halts (start : List Float) (nodes : List Node) : Halt → Prop
  | underflow {d : Definition} {stack : List Float} :
      Arrives start nodes d stack → stack.length < d.arity →
      Halts start nodes (.failure (.evaluation (.underflow d.name d.arity stack.length)))
  | failure {d : Definition} {stack : List Float} {f : Failure} :
      Arrives start nodes d stack → d.arity ≤ stack.length →
      d.Fails (stack.take d.arity).reverse f → Halts start nodes (.failure f)
  | raised {d : Definition} {stack : List Float} {e : Exception} :
      Arrives start nodes d stack → d.arity ≤ stack.length →
      d.Escapes (stack.take d.arity).reverse e → Halts start nodes (.raised e)
  | leftOver {stack : List Float} :
      Passes start nodes stack → stack.length ≠ 1 →
      Halts start nodes (.failure (.evaluation (.leftOver stack.length)))

end Postfix

end Reckoner
