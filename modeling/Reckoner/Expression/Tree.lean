import Reckoner.Postfix.Machine

set_option autoImplicit false

/-!
# Expression trees

The structure of an expression, independent of how it is written: a literal, or a
call with one subtree for each argument.  A tree is listed in postorder as
postfix nodes, and it can be evaluated by itself, subtrees from left to right and
then the call.
-/

namespace Reckoner

/-- An expression tree. -/
inductive Tree where
  | literal (value : Float)
  | call (definition : Definition) (arguments : List Tree)

namespace Tree

mutual

/-- The nodes of a tree, every call after its arguments. -/
def postorder : Tree → List Node
  | .literal x => [.literal x]
  | .call d ts => postorderAll ts ++ [.call d]

/-- The nodes of trees, one tree after the other. -/
def postorderAll : List Tree → List Node
  | [] => []
  | t :: ts => postorder t ++ postorderAll ts

end

mutual

/-- Every call has as many arguments as its definition takes. -/
def WellFormed : Tree → Prop
  | .literal _ => True
  | .call d ts => ts.length = d.arity ∧ AllWellFormed ts

/-- Every tree of a list is well formed. -/
def AllWellFormed : List Tree → Prop
  | [] => True
  | t :: ts => WellFormed t ∧ AllWellFormed ts

end

mutual

/-- The value of a tree. -/
def evaluate : Tree → Except Halt Float
  | .literal x => .ok x
  | .call d ts => match evaluateAll ts with
    | .error halt => .error halt
    | .ok operands => d.apply operands

/-- The values of trees, from left to right. -/
def evaluateAll : List Tree → Except Halt (List Float)
  | [] => .ok []
  | t :: ts => match evaluate t with
    | .error halt => .error halt
    | .ok x => match evaluateAll ts with
      | .error halt => .error halt
      | .ok xs => .ok (x :: xs)

end

theorem allWellFormed_iff {ts : List Tree} : AllWellFormed ts ↔ ∀ t ∈ ts, t.WellFormed := by
  induction ts with
  | nil => simp [AllWellFormed]
  | cons t ts ih => simp [AllWellFormed, ih]

theorem postorderAll_append (ss ts : List Tree) :
    postorderAll (ss ++ ts) = postorderAll ss ++ postorderAll ts := by
  induction ss with
  | nil => rfl
  | cons s ss ih => simp [postorderAll, ih]

end Tree

/-! ## Chains

A chain is an operand followed by operators, each with its right operand. -/

/-- The operators of a chain, each with the operand to its right. -/
abbrev ChainLinks : Type := List (InfixOperator × Tree)

namespace ChainLinks

/-- Where a chain is cut in two: what stands before the operator, the operator
with its operand, and what comes after them. -/
structure Cut where
  before : ChainLinks
  operator : InfixOperator
  operand : Tree
  after : ChainLinks

/-- Cuts a chain at the last of its operators of lowest precedence. -/
def cut? : ChainLinks → Option Cut
  | [] => none
  | (o, x) :: rest => match cut? rest with
    | none => some ⟨[], o, x, []⟩
    | some c =>
      if c.operator.precedence ≤ o.precedence then
        some ⟨(o, x) :: c.before, c.operator, c.operand, c.after⟩
      else some ⟨[], o, x, rest⟩

theorem eq_of_cut? {links : ChainLinks} {c : Cut} (h : cut? links = some c) :
    links = c.before ++ (c.operator, c.operand) :: c.after := by
  induction links generalizing c with
  | nil => cases h
  | cons link rest ih =>
    obtain ⟨o, x⟩ := link
    unfold cut? at h
    split at h
    · next hnone =>
      cases rest with
      | nil => cases h; rfl
      | cons link rest =>
        unfold cut? at hnone
        split at hnone
        · cases hnone
        · split at hnone <;> cases hnone
    · next d hd =>
      split at h
      · cases h; simp [ih hd]
      · cases h; rfl

theorem length_of_cut? {links : ChainLinks} {c : Cut} (h : cut? links = some c) :
    links.length = c.before.length + c.after.length + 1 := by
  have := congrArg List.length (eq_of_cut? h)
  simp only [List.length_append, List.length_cons] at this
  omega

/-- The tree of a chain: its root is the last operator of lowest precedence, and
both sides are chains of their own. -/
def tree (first : Tree) (links : ChainLinks) : Tree :=
  match _cut : cut? links with
  | none => first
  | some c => .call (.operator c.operator) [tree first c.before, tree c.operand c.after]
  termination_by links.length
  decreasing_by
    all_goals
      have := length_of_cut? (by assumption)
      omega

end ChainLinks

end Reckoner
