import Reckoner.Number.Arithmetic
import Reckoner.Registry.Proposal

set_option autoImplicit false

/-!
# The standard definitions

Six operators and eight functions on doubles.  Division by a zero of either sign,
a remainder or power without a value, a power too large for a double and a square
root of a negative number are faults of the operands; everything else follows the
arithmetic of doubles, infinities and NaN included.

A callback is given as many operands as its definition has arguments.  Given any
other number of operands, it has a fault of its own.
-/

namespace Reckoner.Standard

/-- A fault of a callback. -/
def fault (kind : FaultKind) (text : String) : Except Exception Value := .error (.fault kind text)

/-- The fault of a callback that is given a wrong number of operands. -/
def wrongCount : Except Exception Value := fault .badType "wrong number of operands"

/-- The written form of every standard callback. -/
def form : String := "<default>"

/-- A callback without operands. -/
def constant (x : Float) : Callback :=
  ⟨form, fun
    | [] => .ok (.float x)
    | _ => wrongCount⟩

/-- A callback on one operand. -/
def unary (f : Float → Except Exception Value) : Callback :=
  ⟨form, fun
    | [x] => f x
    | _ => wrongCount⟩

/-- A callback on two operands. -/
def binary (f : Float → Float → Except Exception Value) : Callback :=
  ⟨form, fun
    | [x, y] => f x y
    | _ => wrongCount⟩

/-- A callback on three operands. -/
def ternary (f : Float → Float → Float → Except Exception Value) : Callback :=
  ⟨form, fun
    | [x, y, z] => f x y z
    | _ => wrongCount⟩

/-- A result of a partial operation as the result of a callback. -/
def ofPartial : Except Number.Undefined Float → Except Exception Value
  | .ok x => .ok (.float x)
  | .error .domain => fault .badValue "math domain error"
  | .error .range => fault .overflow "math range error"

/-- The quotient, unless the divisor is zero. -/
def divide (x y : Float) : Except Exception Value :=
  if y == 0.0 then fault .divisionByZero "division by zero" else .ok (.float (x / y))

/-- The square root, unless the operand is negative. -/
def squareRoot (x : Float) : Except Exception Value :=
  if x < 0.0 then fault .badValue ("square root of negative number " ++ Number.floatText x)
  else .ok (.float x.sqrt)

/-- The first of two operands, unless the second is greater. -/
def larger (x y : Float) : Float := if x < y then y else x

/-- The first of two operands, unless the second is less. -/
def smaller (x y : Float) : Float := if y < x then y else x

/-- The last operand, held between the first two; the lower bound goes first. -/
def clamp (low high x : Float) : Float :=
  if x < low then low else if high < x then high else x

/-- The double nearest to the ratio of a circle's circumference to its diameter. -/
def pi : Float := Number.ofRank false 0x400921fb54442d18

/-- The double nearest to the base of the natural logarithm. -/
def e : Float := Number.ofRank false 0x4005bf0a8b145769

/-- A proposal of an operator. -/
def operator (symbol : String) (precedence : Int) (callback : Callback) : Proposal :=
  .operator (.text symbol) (.int precedence) (some callback.callable)

/-- A proposal of a function. -/
def function (name : String) (arity : Int) (callback : Callback) : Proposal :=
  .function (.text name) (.int arity) (some callback.callable)

/-- The standard definitions, in the order in which they are registered. -/
def proposals : List Proposal :=
  [operator "+" 3 (binary fun x y => .ok (.float (x + y))),
   operator "-" 3 (binary fun x y => .ok (.float (x - y))),
   operator "*" 4 (binary fun x y => .ok (.float (x * y))),
   operator "/" 4 (binary divide),
   operator "%" 4 (binary fun x y => ofPartial (Number.remainder x y)),
   operator "^" 5 (binary fun x y => ofPartial (Number.power x y)),
   function "abs" 1 (unary fun x => .ok (.float (Number.magnitude x))),
   function "sqrt" 1 (unary squareRoot),
   function "max" 2 (binary fun x y => .ok (.float (larger x y))),
   function "min" 2 (binary fun x y => .ok (.float (smaller x y))),
   function "pow" 2 (binary fun x y => ofPartial (Number.power x y)),
   function "clamp" 3 (ternary fun low high x => .ok (.float (clamp low high x))),
   function "pi" 0 (constant pi),
   function "e" 0 (constant e)]

/-- The registry of the standard definitions, still open. -/
def registry : Registry := (Registry.empty.enrol proposals).registry

end Reckoner.Standard
