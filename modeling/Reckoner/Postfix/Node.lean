import Reckoner.Definition

set_option autoImplicit false

/-!
# Postfix nodes

An expression in postfix order is a list of nodes.  A literal is an operand; a
call takes as many operands as its definition has arguments from those before it.
-/

namespace Reckoner

/-- A node of an expression in postfix order. -/
inductive Node where
  | literal (value : Float)
  | call (definition : Definition)

namespace Node

/-- Whether a node takes no operands. -/
def isOperand : Node → Bool
  | .literal _ => true
  | .call d => d.arity == 0

/-- The value of a literal. -/
def literal? : Node → Option Float
  | .literal x => some x
  | .call _ => none

/-- The definition that a node calls. -/
def definition? : Node → Option Definition
  | .literal _ => none
  | .call d => some d

end Node

namespace Postfix

/-- The definitions that nodes call, in order. -/
def calls (nodes : List Node) : List Definition := nodes.filterMap Node.definition?

@[simp] theorem calls_nil : calls [] = [] := rfl

@[simp] theorem calls_literal (x : Float) (nodes : List Node) :
    calls (.literal x :: nodes) = calls nodes := rfl

@[simp] theorem calls_call (d : Definition) (nodes : List Node) :
    calls (.call d :: nodes) = d :: calls nodes := rfl

@[simp] theorem calls_append (nodes nodes' : List Node) :
    calls (nodes ++ nodes') = calls nodes ++ calls nodes' := List.filterMap_append

end Postfix

end Reckoner
