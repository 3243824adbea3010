import Reckoner.Expression.Tree

set_option autoImplicit false

/-!
# Values of trees and of blocks of nodes

Running the postorder of a tree puts the value of the tree on the stack, whatever
lies below it and whatever comes after it, or stops as the tree does.
-/

namespace Reckoner.Postfix

open Reckoner.Tree

/-- A call with its operands on top of the stack is applied to them. -/
theorem run_call {d : Definition} {operands : List Float} (h : operands.length = d.arity)
    (stack : List Float) (nodes : List Node) :
    (run (operands.reverse ++ stack) (.call d :: nodes)).outcome =
      match d.apply operands with
      | .error halt => .error halt
      | .ok x => (run (x :: stack) nodes).outcome := by
  have hlength : operands.reverse.length = d.arity := by simpa using h
  have hnot : ¬ (operands.reverse ++ stack).length < d.arity := by
    rw [List.length_append, hlength]; omega
  have htake : ((operands.reverse ++ stack).take d.arity).reverse = operands := by
    rw [List.take_left' hlength, List.reverse_reverse]
  have hdrop : (operands.reverse ++ stack).drop d.arity = stack := List.drop_left' hlength
  rw [run, if_neg hnot, htake, hdrop]
  dsimp only
  cases d.apply operands <;> rfl

theorem length_of_evaluateAll {ts : List Tree} {xs : List Float}
    (h : evaluateAll ts = .ok xs) : xs.length = ts.length := by
  induction ts generalizing xs with
  | nil => cases h; rfl
  | cons t ts ih =>
    rw [evaluateAll] at h
    cases ht : t.evaluate with
    | error halt => rw [ht] at h; cases h
    | ok x =>
      cases hts : evaluateAll ts with
      | error halt => rw [ht, hts] at h; cases h
      | ok ys =>
        rw [ht, hts] at h
        cases h
        simp [ih hts]

mutual

/-- The postorder of a tree runs to the value of the tree. -/
theorem run_postorder (t : Tree) (h : t.WellFormed) (stack : List Float) (nodes : List Node) :
    (run stack (t.postorder ++ nodes)).outcome =
      match t.evaluate with
      | .error halt => .error halt
      | .ok x => (run (x :: stack) nodes).outcome := by
  match t, h with
  | .literal x, _ => rfl
  | .call d ts, h =>
    obtain ⟨hlength, hts⟩ := h
    rw [postorder, List.append_assoc, run_postorderAll ts hts, Tree.evaluate]
    cases hxs : evaluateAll ts with
    | error halt => rfl
    | ok xs => exact run_call ((length_of_evaluateAll hxs).trans hlength) stack nodes

/-- The postorders of trees run to the values of the trees, the last one on top. -/
theorem run_postorderAll (ts : List Tree) (h : AllWellFormed ts) (stack : List Float)
    (nodes : List Node) :
    (run stack (postorderAll ts ++ nodes)).outcome =
      match evaluateAll ts with
      | .error halt => .error halt
      | .ok xs => (run (xs.reverse ++ stack) nodes).outcome := by
  match ts, h with
  | [], _ => rfl
  | t :: ts, h =>
    rw [postorderAll, List.append_assoc, run_postorder t h.1, evaluateAll]
    cases t.evaluate with
    | error halt => rfl
    | ok x =>
      dsimp only
      rw [run_postorderAll ts h.2]
      cases evaluateAll ts with
      | error halt => rfl
      | ok xs => simp

end

/-- Evaluating the postorder of a tree is evaluating the tree. -/
theorem evaluate_postorder {t : Tree} (h : t.WellFormed) :
    Postfix.evaluate t.postorder = t.evaluate := by
  have hrun := run_postorder t h [] []
  rw [List.append_nil] at hrun
  rw [Postfix.evaluate, hrun]
  cases t.evaluate <;> rfl

/-! ## Blocks of nodes -/

/-- Nodes that have a value leave it on the stack, whatever lies below it and
whatever comes after them. -/
theorem run_append_of_value {nodes : List Node} {x : Float} {stack : List Float}
    (h : (run stack nodes).outcome = .ok x) (below : List Float) (more : List Node) :
    (run (stack ++ below) (nodes ++ more)).outcome = (run (x :: below) more).outcome := by
  induction nodes generalizing stack with
  | nil =>
    match stack, h with
    | [y], h => cases h; rfl
  | cons node nodes ih =>
    cases node with
    | literal y => exact ih h
    | call d =>
      rw [run] at h
      by_cases hfew : stack.length < d.arity
      · rw [if_pos hfew] at h
        cases h
      · have henough : d.arity ≤ stack.length := Nat.not_lt.mp hfew
        have hfew' : ¬ (stack ++ below).length < d.arity := by
          rw [List.length_append]; omega
        rw [if_neg hfew] at h
        rw [List.cons_append, run, if_neg hfew', List.take_append_of_le_length henough,
          List.drop_append_of_le_length henough]
        dsimp only at h ⊢
        cases happly : d.apply (stack.take d.arity).reverse with
        | error halt => rw [happly] at h; cases h
        | ok y =>
          rw [happly] at h
          exact ih h

/-- Blocks that do the same on every stack do the same after the same nodes. -/
theorem run_append_congr {block block' : List Node}
    (h : ∀ stack, (run stack block).outcome = (run stack block').outcome) (front : List Node)
    (stack : List Float) :
    (run stack (front ++ block)).outcome = (run stack (front ++ block')).outcome := by
  induction front generalizing stack with
  | nil => exact h stack
  | cons node front ih =>
    cases node with
    | literal x => exact ih (x :: stack)
    | call d =>
      rw [List.cons_append, List.cons_append, run, run]
      by_cases hfew : stack.length < d.arity
      · rw [if_pos hfew, if_pos hfew]
      · rw [if_neg hfew, if_neg hfew]
        dsimp only
        cases d.apply (stack.take d.arity).reverse with
        | error halt => rfl
        | ok y => exact ih (y :: stack.drop d.arity)

end Reckoner.Postfix
