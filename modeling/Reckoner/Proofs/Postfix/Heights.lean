import Reckoner.Postfix.Ending
import Reckoner.Proofs.Interpretation.Invocations
import Reckoner.Registry.Standard

set_option autoImplicit false

/-!
# Runs by heights

The stack that passed nodes leave is as high as their height says.  So where a run
stops, what it has called until then and which numbers it reports are told by heights,
as far as callbacks do not stop it; and if no callback ever does, arities tell all of
it.
-/

namespace Reckoner

theorem Definition.apply_eq_error_iff {d : Definition} {operands : List Float} {halt : Halt} :
    d.apply operands = .error halt ↔ d.Stops operands halt := by
  constructor
  · intro h
    rcases of_apply_eq_error h with ⟨f, rfl, hfails⟩ | ⟨e, rfl, hescapes⟩
    · exact .failure hfails
    · exact .raised hescapes
  · intro h
    cases h with
    | failure hfails => exact apply_of_fails hfails
    | raised hescapes => exact apply_of_escapes hescapes

namespace Postfix

variable {start stack : List Float} {nodes nodes' before after : List Node} {d : Definition}

/-! ## Stacks and heights -/

/-- Passed nodes raise the stack by their height. -/
theorem length_of_passes (h : Passes start nodes stack) :
    (stack.length : Int) = start.length + height nodes := by
  induction h with
  | done stack => simp
  | literal _ ih =>
    rw [ih, height_cons, change, List.length_cons]
    omega
  | call henough _ _ ih =>
    rw [ih, height_cons, change, List.length_cons, List.length_drop]
    omega

/-- On an empty stack, passed nodes leave as many operands as their height. -/
theorem length_eq_height (h : Passes [] nodes stack) : (stack.length : Int) = height nodes := by
  rw [length_of_passes h, List.length_nil]
  omega

/-! ## The calls until a run stops -/

/-- A run calls the definitions of the nodes that it passes, and then those that the rest
of it calls. -/
theorem calls_of_passes (h : Passes start before stack) (after : List Node) :
    (run start (before ++ after)).invocations.map Invocation.definition =
      calls before ++ (run stack after).invocations.map Invocation.definition := by
  induction h with
  | done stack => rfl
  | literal _ ih => exact ih
  | call henough hreturns _ ih =>
    rw [List.cons_append, invocations_call henough, Definition.apply_eq_ok_iff.mpr hreturns,
      List.map_cons, ih]
    rfl

/-- An ending is the one that the run has. -/
theorem Ends.eq {called : List Definition} {outcome : Except Halt Float}
    (h : Ends nodes called outcome) :
    (run [] nodes).invocations.map Invocation.definition = called ∧ evaluate nodes = outcome := by
  cases h with
  | underflow hsplit hpasses hheight hfew =>
    subst hsplit
    have hlength := length_eq_height hpasses
    rw [hheight, Int.ofNat_inj] at hlength
    rw [evaluate, run_of_passes hpasses, calls_of_passes hpasses,
      invocations_underflow (hlength ▸ hfew), run, if_pos (hlength ▸ hfew), hlength]
    exact ⟨List.append_nil _, rfl⟩
  | stopped hsplit hpasses hheight hstops =>
    subst hsplit
    rw [← length_eq_height hpasses, Int.ofNat_le] at hheight
    have happly := Definition.apply_eq_error_iff.mpr hstops
    rw [evaluate, run_of_passes hpasses, calls_of_passes hpasses, invocations_call hheight,
      run_call_of_le hheight, happly]
    exact ⟨rfl, rfl⟩
  | @value x stack hpasses hheight =>
    have hlength := length_eq_height hpasses
    rw [hheight, List.length_cons] at hlength
    obtain rfl : stack = [] := List.eq_nil_of_length_eq_zero (by omega)
    have hcalls := calls_of_passes hpasses []
    rw [List.append_nil] at hcalls
    exact ⟨hcalls.trans (List.append_nil _), evaluate_eq_ok_iff.mpr hpasses⟩
  | leftOver hpasses hheight hcount =>
    have hlength := length_eq_height hpasses
    rw [hheight, Int.ofNat_inj] at hlength
    have hcalls := calls_of_passes hpasses []
    rw [List.append_nil] at hcalls
    subst hlength
    exact ⟨hcalls.trans (List.append_nil _), evaluate_eq_error_iff.mpr (.leftOver hpasses hcount)⟩

/-- Every run has an ending. -/
theorem exists_ends (nodes : List Node) : ∃ called outcome, Ends nodes called outcome := by
  cases hvalue : evaluate nodes with
  | ok x =>
    have hpasses := evaluate_eq_ok_iff.mp hvalue
    exact ⟨_, _, .value hpasses (length_eq_height hpasses).symm⟩
  | error halt =>
    cases evaluate_eq_error_iff.mp hvalue with
    | underflow harrives hfew =>
      obtain ⟨before, after, hsplit, hpasses⟩ := harrives
      exact ⟨_, _, .underflow hsplit hpasses (length_eq_height hpasses).symm hfew⟩
    | failure harrives henough hfails =>
      obtain ⟨before, after, hsplit, hpasses⟩ := harrives
      have hheight := length_eq_height hpasses ▸ Int.ofNat_le.mpr henough
      exact ⟨_, _, .stopped hsplit hpasses hheight (.failure hfails)⟩
    | raised harrives henough hescapes =>
      obtain ⟨before, after, hsplit, hpasses⟩ := harrives
      have hheight := length_eq_height hpasses ▸ Int.ofNat_le.mpr henough
      exact ⟨_, _, .stopped hsplit hpasses hheight (.raised hescapes)⟩
    | leftOver hpasses hcount =>
      exact ⟨_, _, .leftOver hpasses (length_eq_height hpasses).symm hcount⟩

/-! ## Callbacks that never fail -/

/-- If no callback fails, a call that has its operands puts one value in their place. -/
theorem exists_run_call (hd : d.NeverFails) (henough : d.arity ≤ stack.length)
    (nodes : List Node) :
    ∃ x, (run stack (.call d :: nodes)).outcome =
      (run (x :: stack.drop d.arity) nodes).outcome := by
  obtain ⟨x, hreturns⟩ := hd _ (length_operands henough)
  refine ⟨x, ?_⟩
  rw [run_call_of_le henough, Definition.apply_eq_ok_iff.mpr hreturns]

theorem sameVerdict_result {start' : List Float} (h : start.length = start'.length) :
    SameVerdict (result start) (result start') := by
  match start, start', h with
  | [], [], _ => exact .leftOver 0
  | [x], [y], _ => exact .value x y
  | x :: y :: stack, x' :: y' :: stack', h =>
    have hlength : stack'.length = stack.length := by simpa using h.symm
    have hresult : result (x' :: y' :: stack') = .error
        (.failure (.evaluation (.leftOver (x :: y :: stack).length))) := by
      simp [result, hlength]
    rw [hresult]
    exact .leftOver _

/-- Runs of nodes of the same arities on stacks of one height get to the same verdict, if
no callback fails. -/
theorem sameVerdict_run {start' : List Float} (hstart : start.length = start'.length)
    (harities : nodes.map Node.arity? = nodes'.map Node.arity?)
    (h : ∀ d ∈ calls nodes, d.NeverFails) (h' : ∀ d ∈ calls nodes', d.NeverFails) :
    SameVerdict (run start nodes).outcome (run start' nodes').outcome := by
  induction nodes generalizing start start' nodes' with
  | nil =>
    obtain rfl : nodes' = [] := by simpa using harities.symm
    exact sameVerdict_result hstart
  | cons node nodes ih =>
    obtain ⟨node', rest, rfl⟩ : ∃ node' rest, nodes' = node' :: rest := by
      cases nodes' with
      | nil => simp at harities
      | cons node' rest => exact ⟨node', rest, rfl⟩
    obtain ⟨hnode, hrest⟩ := List.cons.inj harities
    cases node with
    | literal x =>
      cases node' with
      | call d => cases hnode
      | literal y =>
        have hlength : (x :: start).length = (y :: start').length := congrArg Nat.succ hstart
        have hverdict := ih hlength hrest h h'
        exact hverdict
    | call d =>
      cases node' with
      | literal y => cases hnode
      | call d' =>
        have harity : d.arity = d'.arity := Option.some.inj hnode
        rw [calls_call] at h h'
        obtain ⟨hd, hcalls⟩ := List.forall_mem_cons.mp h
        obtain ⟨hd', hcalls'⟩ := List.forall_mem_cons.mp h'
        rcases Nat.lt_or_ge start.length d.arity with hfew | henough
        · rw [run, run, if_pos hfew, if_pos (hstart ▸ harity ▸ hfew), ← harity, ← hstart]
          exact .underflow _ _ _ _
        · obtain ⟨x, hrun⟩ := exists_run_call hd henough nodes
          obtain ⟨y, hrun'⟩ := exists_run_call hd' (hstart ▸ harity ▸ henough) rest
          have hlength : (x :: start.drop d.arity).length = (y :: start'.drop d'.arity).length := by
            simp [harity, hstart]
          rw [hrun, hrun']
          exact ih hlength hrest hcalls hcalls'

/-! ## Verdicts -/

/-- A run of nodes calls what it calls, and ends as it ends, for the first node that goes
wrong, or else for what is left: a call goes wrong if the height of the nodes before it is
less than its arity, or if its callback returns no number for the operands on top, and no
later call is made; if none goes wrong the height of all nodes is what is left.  And if no
callback fails, arities decide whether there is a value, and which counts are reported. -/
theorem ends_iff_run :
    (∀ (nodes : List Node) (called : List Definition) (outcome : Except Halt Float),
      Ends nodes called outcome ↔
        (run [] nodes).invocations.map Invocation.definition = called ∧
          evaluate nodes = outcome) ∧
    ∀ nodes nodes' : List Node, nodes.map Node.arity? = nodes'.map Node.arity? →
      (∀ d ∈ calls nodes, d.NeverFails) → (∀ d ∈ calls nodes', d.NeverFails) →
      SameVerdict (evaluate nodes) (evaluate nodes') := by
  refine ⟨fun nodes called outcome => ⟨Ends.eq, ?_⟩, fun nodes nodes' harities h h' => ?_⟩
  · rintro ⟨rfl, rfl⟩
    obtain ⟨called, outcome, hends⟩ := exists_ends nodes
    obtain ⟨rfl, rfl⟩ := hends.eq
    exact hends
  · exact sameVerdict_run rfl harities h h'

/-- The difference of two operands. -/
def difference : Definition := .operator ⟨"-", 3, Standard.binary fun x y => .ok (.float (x - y))⟩

/-- The greater of two operands. -/
def greater : Definition :=
  .function ⟨"max", 2, Standard.binary fun x y => .ok (.float (Standard.larger x y))⟩

/-- A difference with one operand is not called, and what would be called after it is not
called either; after three literals, a difference and a maximum both leave two values. -/
theorem ends_difference_short :
    ((run [] [.literal 1, .call difference, .call greater]).invocations.map
        Invocation.definition = [] ∧
      evaluate [.literal 1, .call difference, .call greater] =
        .error (.failure (.evaluation (.underflow "-" 2 1)))) ∧
    SameVerdict (evaluate [.literal 1, .literal 2, .literal 3, .call difference])
      (evaluate [.literal 4, .literal 5, .literal 6, .call greater]) := by
  have hdifference : difference.NeverFails := fun operands h =>
    match operands, h with
    | [x, y], _ => ⟨x - y, .float (x - y), rfl, rfl⟩
  have hgreater : greater.NeverFails := fun operands h =>
    match operands, h with
    | [x, y], _ => ⟨Standard.larger x y, .float (Standard.larger x y), rfl, rfl⟩
  obtain ⟨hends, hverdict⟩ := ends_iff_run
  have hshort : Ends [.literal 1, .call difference, .call greater] (calls [.literal 1])
      (.error (.failure (.evaluation (.underflow difference.name difference.arity 1)))) :=
    .underflow (d := difference) rfl (.literal (.done [1])) rfl (by decide)
  have harities : [.literal 1, .literal 2, .literal 3, .call difference].map Node.arity? =
      [.literal 4, .literal 5, .literal 6, .call greater].map Node.arity? := by decide
  refine ⟨(hends _ _ _).mp hshort, hverdict _ _ harities ?_ ?_⟩
  · exact List.forall_mem_cons.mpr ⟨hdifference, fun _ h => nomatch h⟩
  · exact List.forall_mem_cons.mpr ⟨hgreater, fun _ h => nomatch h⟩

end Postfix

end Reckoner
