import Reckoner.Postfix.Course
import Reckoner.Postfix.Height

set_option autoImplicit false

/-!
# Endings

How a run of nodes ends, and which definitions it calls before, told by heights.
The nodes before a call leave as many operands as their height says, so the height
decides whether the call finds what it takes, and the height of all nodes is the
number of values that are left at the end.  Only what a callback does with its
operands is not told by arities.
-/

namespace Reckoner

/-- How many operands a call takes; a literal is no call. -/
def Node.arity? : Node → Option Nat
  | .literal _ => none
  | .call d => some d.arity

namespace Definition

/-- A call that does not return a number, and what the run stops for. -/
inductive Stops (d : Definition) (operands : List Float) : Halt → Prop
  | failure {f : Failure} : d.Fails operands f → Stops d operands (.failure f)
  | raised {e : Exception} : d.Escapes operands e → Stops d operands (.raised e)

/-- A definition whose callback returns a number for any operands of the right number. -/
def NeverFails (d : Definition) : Prop :=
  ∀ operands, operands.length = d.arity → ∃ x, d.Returns operands x

end Definition

namespace Postfix

/-- The definitions that a run of nodes calls, and how it ends: at the first node that
goes wrong, or else with what is left. -/
inductive Ends (nodes : List Node) : List Definition → Except Halt Float → Prop
  /-- a call finds fewer operands than it takes, and is not made -/
  | underflow {before after : List Node} {d : Definition} {stack : List Float} {available : Nat} :
      nodes = before ++ .call d :: after → Passes [] before stack →
      height before = available → available < d.arity →
      Ends nodes (calls before)
        (.error (.failure (.evaluation (.underflow d.name d.arity available))))
  /-- a call is made on the operands on top, and returns no number -/
  | stopped {before after : List Node} {d : Definition} {stack : List Float} {halt : Halt} :
      nodes = before ++ .call d :: after → Passes [] before stack →
      (d.arity : Int) ≤ height before → d.Stops (stack.take d.arity).reverse halt →
      Ends nodes (calls before ++ [d]) (.error halt)
  /-- no node goes wrong, and one value is left -/
  | value {x : Float} {stack : List Float} :
      Passes [] nodes (x :: stack) → height nodes = 1 → Ends nodes (calls nodes) (.ok x)
  /-- no node goes wrong, and another number of values is left -/
  | leftOver {stack : List Float} {count : Nat} :
      Passes [] nodes stack → height nodes = count → count ≠ 1 →
      Ends nodes (calls nodes) (.error (.failure (.evaluation (.leftOver count))))

/-- Endings that differ in values and names only: both with a value, or both for want of
operands or for a number of values left, with the same counts. -/
inductive SameVerdict : Except Halt Float → Except Halt Float → Prop
  | value (x y : Float) : SameVerdict (.ok x) (.ok y)
  | underflow (name name' : String) (needed available : Nat) :
      SameVerdict (.error (.failure (.evaluation (.underflow name needed available))))
        (.error (.failure (.evaluation (.underflow name' needed available))))
  | leftOver (count : Nat) :
      SameVerdict (.error (.failure (.evaluation (.leftOver count))))
        (.error (.failure (.evaluation (.leftOver count))))

end Postfix

end Reckoner
