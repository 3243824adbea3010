import Reckoner.Postfix.Node

set_option autoImplicit false

/-!
# Stack heights

A literal raises the stack of operands by one; a call lowers it by its operands
and raises it by its result.  The height of a list of nodes is the sum of these
changes, so it depends on arities alone.
-/

namespace Reckoner.Postfix

/-- By how much a node raises the stack. -/
def change : Node → Int
  | .literal _ => 1
  | .call d => 1 - d.arity

/-- The height of the stack after a list of nodes. -/
def height : List Node → Int
  | [] => 0
  | n :: ns => change n + height ns

@[simp] theorem height_nil : height [] = 0 := rfl

@[simp] theorem height_cons (n : Node) (ns : List Node) :
    height (n :: ns) = change n + height ns := rfl

@[simp] theorem height_append (ms ns : List Node) : height (ms ++ ns) = height ms + height ns := by
  induction ms with
  | nil => simp
  | cons m ms ih => simp only [List.cons_append, height_cons, ih]; omega

/-- The height does not depend on the order of the nodes. -/
theorem height_perm {ms ns : List Node} (h : ms.Perm ns) : height ms = height ns := by
  induction h with
  | nil => rfl
  | cons n _ ih => rw [height_cons, height_cons, ih]
  | swap m n ns => simp only [height_cons]; omega
  | trans _ _ ihms ihns => rw [ihms, ihns]

end Reckoner.Postfix
