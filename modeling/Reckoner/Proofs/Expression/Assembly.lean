import Reckoner.Postfix.Height
import Reckoner.Proofs.Postfix.Evaluation
import Reckoner.Registry.Standard

set_option autoImplicit false

/-!
# Putting trees together from nodes

A run of nodes can be followed on trees instead of values: a literal puts a tree on
the stack, and a call takes the trees of its operands off and puts its own tree
there.  The postorder of a tree leads to that tree, so no other tree has the same
postorder, and it leaves one value; and nodes that have a value are put together to
one tree, since a run that finds every operand and leaves one value does so on trees
as well.
-/

namespace Reckoner.Tree

/-- Puts nodes together on a stack of trees, the latest first. -/
def assemble : List Tree → List Node → List Tree
  | forest, [] => forest
  | forest, .literal x :: nodes => assemble (.literal x :: forest) nodes
  | forest, .call d :: nodes =>
    assemble (.call d (forest.take d.arity).reverse :: forest.drop d.arity) nodes

/-! ## The postorder of a tree -/

/-- A call takes the trees of its operands off the stack. -/
theorem assemble_call {d : Definition} {ts : List Tree} (h : ts.length = d.arity)
    (forest : List Tree) (nodes : List Node) :
    assemble (ts.reverse ++ forest) (.call d :: nodes) =
      assemble (.call d ts :: forest) nodes := by
  have hlength : ts.reverse.length = d.arity := by rw [List.length_reverse, h]
  rw [assemble, List.take_left' hlength, List.drop_left' hlength, List.reverse_reverse]

mutual

/-- The postorder of a tree puts the tree on the stack. -/
theorem assemble_postorder (t : Tree) (h : t.WellFormed) (forest : List Tree)
    (nodes : List Node) : assemble forest (t.postorder ++ nodes) = assemble (t :: forest) nodes := by
  match t, h with
  | .literal x, _ => rfl
  | .call d ts, ⟨hlength, hts⟩ =>
    rw [postorder, List.append_assoc, assemble_postorderAll ts hts]
    exact assemble_call hlength forest nodes

/-- The postorders of trees put the trees on the stack, the last one on top. -/
theorem assemble_postorderAll (ts : List Tree) (h : AllWellFormed ts) (forest : List Tree)
    (nodes : List Node) :
    assemble forest (postorderAll ts ++ nodes) = assemble (ts.reverse ++ forest) nodes := by
  match ts, h with
  | [], _ => rfl
  | t :: ts, ⟨ht, hts⟩ =>
    rw [postorderAll, List.append_assoc, assemble_postorder t ht, assemble_postorderAll ts hts,
      List.reverse_cons, List.append_assoc]
    rfl

end

/-- A well-formed tree is the only one with its postorder. -/
theorem eq_of_postorder_eq {t u : Tree} (ht : t.WellFormed) (hu : u.WellFormed)
    (h : t.postorder = u.postorder) : t = u := by
  have hassembled {v : Tree} (hv : v.WellFormed) : assemble [] v.postorder = [v] := by
    have hput := assemble_postorder v hv [] []
    rwa [List.append_nil] at hput
  have heq : [t] = [u] := by rw [← hassembled ht, ← hassembled hu, h]
  exact List.singleton_inj.mp heq

/-! ## The height that a tree leaves -/

mutual

/-- The nodes of a tree leave its value on the stack. -/
theorem height_postorder (t : Tree) (h : t.WellFormed) : Postfix.height t.postorder = 1 := by
  match t, h with
  | .literal x, _ => rfl
  | .call d ts, ⟨hlength, hts⟩ =>
    have hoperands := height_postorderAll ts hts
    rw [postorder, Postfix.height_append, hoperands, hlength, Postfix.height_cons,
      Postfix.height_nil, Postfix.change]
    omega

/-- The nodes of trees leave their values on the stack. -/
theorem height_postorderAll (ts : List Tree) (h : AllWellFormed ts) :
    Postfix.height (postorderAll ts) = ts.length := by
  match ts, h with
  | [], _ => rfl
  | t :: ts, ⟨ht, hts⟩ =>
    have hfirst := height_postorder t ht
    have hrest := height_postorderAll ts hts
    rw [postorderAll, Postfix.height_append, hfirst, hrest, List.length_cons]
    omega

end

/-! ## Nodes that have a value -/

/-- A call whose operands are trees that have been put together is one as well. -/
theorem wellFormed_call {d : Definition} {forest : List Tree} (hforest : AllWellFormed forest)
    (henough : d.arity ≤ forest.length) :
    (call d (forest.take d.arity).reverse).WellFormed ∧ AllWellFormed (forest.drop d.arity) := by
  rw [allWellFormed_iff] at hforest ⊢
  refine ⟨⟨?_, allWellFormed_iff.mpr ?_⟩, ?_⟩
  · rw [List.length_reverse, List.length_take, Nat.min_eq_left henough]
  · intro t ht
    exact hforest t (List.mem_of_mem_take (List.mem_reverse.mp ht))
  · intro t ht
    exact hforest t (List.mem_of_mem_drop ht)

/-- A call stands right after the nodes of its operands. -/
theorem postorderAll_call (d : Definition) (forest : List Tree) (nodes : List Node) :
    postorderAll (call d (forest.take d.arity).reverse :: forest.drop d.arity).reverse ++ nodes =
      postorderAll forest.reverse ++ .call d :: nodes := by
  have hsplit : forest.reverse = (forest.drop d.arity).reverse ++ (forest.take d.arity).reverse := by
    rw [← List.reverse_append, List.take_append_drop]
  rw [List.reverse_cons, hsplit, postorderAll_append, postorderAll_append]
  simp [postorderAll, postorder]

/-- If nodes have a value on a stack, they make one tree of the trees whose values
could stand there. -/
theorem exists_postorder_of_run {nodes : List Node} {stack : List Float} {x : Float}
    (h : (Postfix.run stack nodes).outcome = .ok x) {forest : List Tree}
    (hlength : forest.length = stack.length) (hforest : AllWellFormed forest) :
    ∃ t : Tree, t.WellFormed ∧ t.postorder = postorderAll forest.reverse ++ nodes := by
  induction nodes generalizing stack forest with
  | nil =>
    match stack, h with
    | [y], _ =>
      obtain ⟨t, rfl⟩ := List.length_eq_one_iff.mp hlength
      exact ⟨t, hforest.1, by simp [postorderAll]⟩
  | cons node nodes ih =>
    cases node with
    | literal y =>
      have hheight : (literal y :: forest).length = (y :: stack).length :=
        congrArg Nat.succ hlength
      obtain ⟨t, ht, hnodes⟩ := ih h hheight ⟨trivial, hforest⟩
      refine ⟨t, ht, ?_⟩
      rw [hnodes, List.reverse_cons, postorderAll_append]
      simp [postorderAll, postorder]
    | call d =>
      rw [Postfix.run] at h
      by_cases hfew : stack.length < d.arity
      · rw [if_pos hfew] at h
        cases h
      · rw [if_neg hfew] at h
        dsimp only at h
        cases happly : d.apply (stack.take d.arity).reverse with
        | error halt =>
          rw [happly] at h
          cases h
        | ok y =>
          rw [happly] at h
          obtain ⟨hcall, hrest⟩ := wellFormed_call (d := d) hforest (by omega)
          have hheight : (call d (forest.take d.arity).reverse :: forest.drop d.arity).length =
              (y :: stack.drop d.arity).length := by simp [hlength]
          obtain ⟨t, ht, hnodes⟩ := ih h hheight ⟨hcall, hrest⟩
          exact ⟨t, ht, hnodes.trans (postorderAll_call d forest nodes)⟩

/-- Nodes that have a value are the postorder of a tree. -/
theorem exists_of_evaluate {nodes : List Node} {x : Float} (h : Postfix.evaluate nodes = .ok x) :
    ∃ t : Tree, t.WellFormed ∧ t.postorder = nodes := by
  have hnone : ([] : List Tree).length = ([] : List Float).length := rfl
  exact exists_postorder_of_run h hnone trivial

end Reckoner.Tree

namespace Reckoner.Postfix

/-- Evaluating the postorder of a tree is evaluating the tree, and nodes that have a
value are the postorder of exactly one tree. -/
theorem evaluate_exactly_postorders :
    (∀ t : Tree, t.WellFormed → Postfix.evaluate t.postorder = t.evaluate) ∧
    ∀ (nodes : List Node) (x : Float), Postfix.evaluate nodes = .ok x →
      ∃ t : Tree, (t.WellFormed ∧ t.postorder = nodes) ∧
        ∀ u : Tree, u.WellFormed ∧ u.postorder = nodes → u = t := by
  refine ⟨fun t ht => evaluate_postorder ht, ?_⟩
  intro nodes x h
  obtain ⟨t, ht, hnodes⟩ := Tree.exists_of_evaluate h
  refine ⟨t, ⟨ht, hnodes⟩, ?_⟩
  rintro u ⟨hu, hsame⟩
  exact Tree.eq_of_postorder_eq hu ht (hsame.trans hnodes.symm)

/-- `clamp(1, 10 - 4, 20)` takes its operands in the order in which they are written, and
its nodes make no other tree. -/
theorem evaluate_clamp :
    ∃ minus clamp, Standard.registry.operator "-" = .ok minus ∧
      Standard.registry.function "clamp" = .ok clamp ∧
      Postfix.evaluate [.literal 1, .literal 10, .literal 4, .call (.operator minus), .literal 20,
        .call (.function clamp)] = .ok (Standard.clamp 1 (10 - 4) 20) ∧
      ∀ u : Tree, u.WellFormed →
        u.postorder = [.literal 1, .literal 10, .literal 4, .call (.operator minus), .literal 20,
          .call (.function clamp)] →
        u = .call (.function clamp)
          [.literal 1, .call (.operator minus) [.literal 10, .literal 4], .literal 20] := by
  obtain ⟨minus, hminus, hsubtracts⟩ : ∃ o, Standard.registry.operator "-" = .ok o ∧
      ∀ x y, (Definition.operator o).apply [x, y] = .ok (x - y) := ⟨_, rfl, fun _ _ => rfl⟩
  obtain ⟨clamp, hclamp, hternary, hholds⟩ : ∃ f, Standard.registry.function "clamp" = .ok f ∧
      f.arity = 3 ∧
      ∀ x y z, (Definition.function f).apply [x, y, z] = .ok (Standard.clamp x y z) :=
    ⟨_, rfl, rfl, fun _ _ _ => rfl⟩
  refine ⟨minus, clamp, hminus, hclamp, ?_⟩
  let t : Tree := .call (.function clamp)
    [.literal 1, .call (.operator minus) [.literal 10, .literal 4], .literal 20]
  have ht : t.WellFormed := ⟨hternary.symm, trivial, ⟨rfl, trivial, trivial, trivial⟩, trivial, trivial⟩
  have hvalue : Postfix.evaluate t.postorder = .ok (Standard.clamp 1 (10 - 4) 20) := by
    rw [evaluate_exactly_postorders.1 t ht]
    simp only [t, Tree.evaluate, Tree.evaluateAll, hsubtracts, hholds]
  refine ⟨hvalue, ?_⟩
  intro u hu hnodes
  obtain ⟨v, -, hunique⟩ := evaluate_exactly_postorders.2 _ _ hvalue
  exact (hunique u ⟨hu, hnodes⟩).trans (hunique t ⟨ht, rfl⟩).symm

end Reckoner.Postfix
