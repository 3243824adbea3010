import Mathlib.Data.List.Basic
import Reckoner.Display
import Reckoner.Proofs.Interpretation.Invocations
import Reckoner.Proofs.Number.Rounding
import Reckoner.Proofs.Registry.Kinds
import Reckoner.Registry.Standard

set_option autoImplicit false

/-!
# The standard definitions answer every text

A standard callback is proposed with the number of operands that it takes.  Given
so many, it returns a double or raises a fault that they are to blame for and that has a
text; given any other number, it raises the fault of a wrong number of operands.  Calls
have as many operands as their definitions take, so that last fault never comes up, and no
exception ever leaves a call: with the standard definitions every text has an answer, and
every answer can be displayed.
-/

namespace Reckoner

/-- Every answer can be displayed. -/
theorem Answer.exists_display (a : Answer) (source : String) :
    ∃ line, a.display source = .ok line := by
  cases a with
  | value x =>
    obtain ⟨y, hy⟩ := Number.exists_roundTo 10 x
    have hrounded : Number.rounded? Number.displayPlaces x = some (Number.Rounded.ofFloat y) :=
      congrArg (Option.map Number.Rounded.ofFloat) hy
    exact ⟨(Number.Rounded.ofFloat y).text ++ " = " ++ source, by rw [display, hrounded]⟩
  | error message => exact ⟨_, rfl⟩

namespace Standard

/-! ## Callbacks -/

/-- A double, or a fault that the operands are to blame for, but not their number. -/
inductive Plain : Except Exception Value → Prop
  | float (x : Float) : Plain (.ok (.float x))
  | fault {kind : FaultKind} {text : String} :
      (ExceptionClass.fault kind).blamesOperands = true → kind ≠ .badType →
      Plain (Standard.fault kind text)

theorem plain_ofPartial (result : Except Number.Undefined Float) : Plain (ofPartial result) := by
  match result with
  | .ok x => exact .float x
  | .error .domain => exact .fault rfl (by decide)
  | .error .range => exact .fault rfl (by decide)

theorem plain_divide (x y : Float) : Plain (divide x y) := by
  unfold divide
  split
  · exact .fault rfl (by decide)
  · exact .float _

theorem plain_squareRoot (x : Float) : Plain (squareRoot x) := by
  unfold squareRoot
  split
  · exact .fault rfl (by decide)
  · exact .float _

/-- A callback that takes a certain number of operands, and no other. -/
structure Takes (c : Callback) (count : Nat) : Prop where
  plain : ∀ operands, operands.length = count → Plain (c.run operands)
  wrongCount : ∀ operands, operands.length ≠ count → c.run operands = Standard.wrongCount

theorem takes_constant (x : Float) : Takes (constant x) 0 := by
  constructor
  · intro operands h
    rw [List.length_eq_zero_iff.mp h]
    exact .float x
  · intro operands h
    match operands, h with
    | [], h => exact absurd rfl h
    | _ :: _, _ => rfl

theorem takes_unary {f : Float → Except Exception Value} (hf : ∀ x, Plain (f x)) :
    Takes (unary f) 1 := by
  constructor
  · intro operands h
    obtain ⟨x, rfl⟩ := List.length_eq_one_iff.mp h
    exact hf x
  · intro operands h
    match operands, h with
    | [], _ => rfl
    | [_], h => exact absurd rfl h
    | _ :: _ :: _, _ => rfl

theorem takes_binary {f : Float → Float → Except Exception Value} (hf : ∀ x y, Plain (f x y)) :
    Takes (binary f) 2 := by
  constructor
  · intro operands h
    obtain ⟨x, y, rfl⟩ := List.length_eq_two.mp h
    exact hf x y
  · intro operands h
    match operands, h with
    | [], _ => rfl
    | [_], _ => rfl
    | [_, _], h => exact absurd rfl h
    | _ :: _ :: _ :: _, _ => rfl

theorem takes_ternary {f : Float → Float → Float → Except Exception Value}
    (hf : ∀ x y z, Plain (f x y z)) : Takes (ternary f) 3 := by
  constructor
  · intro operands h
    obtain ⟨x, y, z, rfl⟩ := List.length_eq_three.mp h
    exact hf x y z
  · intro operands h
    match operands, h with
    | [], _ => rfl
    | [_], _ => rfl
    | [_, _], _ => rfl
    | [_, _, _], h => exact absurd rfl h
    | _ :: _ :: _ :: _ :: _, _ => rfl

namespace Takes

variable {c : Callback} {count : Nat}

theorem run_eq_wrongCount_iff (h : Takes c count) (operands : List Float) :
    c.run operands = Standard.wrongCount ↔ operands.length ≠ count := by
  refine ⟨fun hrun hlength => ?_, h.wrongCount operands⟩
  have hplain := h.plain operands hlength
  rw [hrun] at hplain
  cases hplain with
  | fault _ hkind => exact hkind rfl

/-- No exception leaves a call. -/
theorem not_escapes {d : Definition} (h : Takes d.callback d.arity) {operands : List Float}
    {e : Exception} (hlength : operands.length = d.arity) : ¬ d.Escapes operands e := by
  intro hescapes
  have hplain := h.plain operands hlength
  cases hescapes with
  | raised hrun hblames =>
    rw [hrun] at hplain
    cases hplain with
    | fault hoperands _ => cases hoperands.symm.trans hblames
  | unexplained hrun _ htext =>
    rw [hrun] at hplain
    cases hplain with
    | fault _ _ => cases htext
  | unconvertible hrun hreading | unwritten hrun hreading _ =>
    rw [hrun] at hplain
    cases hplain with
    | float x => cases hreading

end Takes

/-! ## Proposals -/

/-- A proposal of a callback that takes as many operands as it is going to be given. -/
inductive Suits : Proposal → Prop
  | operator {symbol : String} {precedence : Int} {callback : Callback} :
      Takes callback 2 → Suits (Standard.operator symbol precedence callback)
  | function {name : String} {arity : Nat} {callback : Callback} :
      Takes callback arity → Suits (Standard.function name arity callback)

/-- A definition has the callback and the number of operands that were proposed. -/
theorem Suits.takes {p : Proposal} {d : Definition} (h : Suits p) (hd : p.checked = .ok d) :
    Takes d.callback d.arity := by
  obtain ⟨hproposal, -⟩ := Proposal.checked_eq_ok_iff.mp hd
  cases h with
  | operator hcallback =>
    cases d with
    | operator o =>
      obtain ⟨-, -, hsame⟩ := Proposal.operator.inj hproposal
      have hcallbacks := Callback.eq_of_callable_eq (Option.some.inj hsame)
      show Takes o.callback 2
      rwa [← hcallbacks]
    | function f => cases hproposal
  | function hcallback =>
    cases d with
    | operator o => cases hproposal
    | function f =>
      obtain ⟨-, harity, hsame⟩ := Proposal.function.inj hproposal
      cases harity
      have hcallbacks := Callback.eq_of_callable_eq (Option.some.inj hsame)
      show Takes f.callback f.arity
      rwa [← hcallbacks]

theorem suits_proposals : proposals.Forall Suits :=
  ⟨.operator (takes_binary fun _ _ => .float _),
    .operator (takes_binary fun _ _ => .float _),
    .operator (takes_binary fun _ _ => .float _),
    .operator (takes_binary plain_divide),
    .operator (takes_binary fun _ _ => plain_ofPartial _),
    .operator (takes_binary fun _ _ => plain_ofPartial _),
    .function (takes_unary fun _ => .float _),
    .function (takes_unary plain_squareRoot),
    .function (takes_binary fun _ _ => .float _),
    .function (takes_binary fun _ _ => .float _),
    .function (takes_binary fun _ _ => plain_ofPartial _),
    .function (takes_ternary fun _ _ _ => .float _),
    .function (takes_constant pi),
    .function (takes_constant e)⟩

/-- Every standard definition has a callback that takes as many operands as it is given. -/
theorem takes_of_mem {d : Definition} (h : d ∈ registry.entries) : Takes d.callback d.arity := by
  rcases Registry.mem_of_enrol h with hnone | ⟨p, hp, hchecked⟩
  · cases hnone
  · exact (List.forall_iff_forall_mem.mp suits_proposals p hp).takes hchecked

/-! ## Texts -/

/-- With the standard definitions every text has an answer, and a line that displays it. -/
theorem exists_line (source : String) :
    ∃ line a, registry.freeze.answer source = .ok a ∧ a.display source = .ok line := by
  obtain ⟨a, hanswer⟩ := Registry.exists_answer (r := registry.freeze)
    (fun d hd _ _ => Takes.not_escapes (takes_of_mem hd)) source
  obtain ⟨line, hline⟩ := a.exists_display source
  exact ⟨line, a, hanswer, hline⟩

/-- With the standard definitions every text has an answer that can be displayed, and every
call that is made has as many operands as its callback takes. -/
theorem answer_total (source : String) :
    (Registry.empty.enrol proposals).refusal = none ∧
    ∃ a, registry.freeze.answer source = .ok a ∧ (∃ line, a.display source = .ok line) ∧
      ∀ i, .invocation i ∈ (registry.freeze.interpret source).records →
        i.definition ∈ registry.entries ∧ i.operands.length = i.definition.arity ∧
        ∀ operands, i.definition.callback.run operands = wrongCount ↔
          operands.length ≠ i.definition.arity := by
  obtain ⟨a, hanswer⟩ : ∃ a, registry.freeze.answer source = .ok a :=
    Registry.exists_answer (r := registry.freeze)
      (fun d hd _ _ => Takes.not_escapes (takes_of_mem hd)) source
  refine ⟨rfl, a, hanswer, a.exists_display source, ?_⟩
  intro i hi
  obtain ⟨hentry, hlength⟩ := Registry.invocation_of_records hi
  exact ⟨hentry, hlength, (takes_of_mem hentry).run_eq_wrongCount_iff⟩

end Standard

end Reckoner
