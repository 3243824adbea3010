import Reckoner.Proofs.Interpretation.Outcome
import Reckoner.Proofs.Postfix.Conservation

set_option autoImplicit false

/-!
# The calls of an interpretation

Every node of a text that is a call is a call of a definition of the registry, and
every call that is made has as many operands as its definition takes.  So what holds
of the callbacks of a registry on operands of the right number holds of all calls
that are ever made, and a registry of which no exception ever leaves a call answers every
text.
-/

namespace Reckoner

/-! ## Calls of definitions of the registry -/

namespace Registry

variable {r : Registry}

theorem mem_of_operator {symbol : String} {o : InfixOperator} (h : r.operator symbol = .ok o) :
    .operator o ∈ r.entries :=
  mem_of_lookup (operator_eq_ok_iff.mp h)

theorem mem_of_function {name : String} {f : NamedFunction} (h : r.function name = .ok f) :
    .function f ∈ r.entries :=
  mem_of_lookup (function_eq_ok_iff.mp h)

end Registry

theorem Lexeme.mem_of_mem_nodes {r : Registry} {l : Lexeme} {d : Definition}
    (h : .call d ∈ l.nodes r) : d ∈ r.entries := by
  cases l with
  | number x => cases List.mem_singleton.mp h
  | operator symbol =>
    cases ho : r.operator symbol with
    | error e =>
      rw [nodes, ho] at h
      cases h
    | ok o =>
      rw [nodes_operator ho] at h
      cases List.mem_singleton.mp h
      exact Registry.mem_of_operator ho
  | name name =>
    cases hf : r.function name with
    | error e =>
      rw [nodes, hf] at h
      cases h
    | ok f =>
      rw [nodes_name hf] at h
      cases List.mem_singleton.mp h
      exact Registry.mem_of_function hf
  | openParen | closeParen | comma => cases h

namespace Postfix

/-- The calls of nodes in postfix order are calls of definitions of the registry. -/
theorem mem_entries_of_ofTokens {r : Registry} {ts : List Token} {nodes : List Node}
    {d : Definition} (h : ofTokens r ts = .ok nodes) (hd : .call d ∈ nodes) : d ∈ r.entries := by
  have hwritten := (convert_perm_written (ofTokens_eq_ok_iff.mp h)).mem_iff.mp hd
  obtain ⟨t, -, ht⟩ := List.mem_flatMap.mp hwritten
  exact Lexeme.mem_of_mem_nodes ht

/-! ## Calls that are made -/

theorem length_operands {d : Definition} {stack : List Float} (h : d.arity ≤ stack.length) :
    (stack.take d.arity).reverse.length = d.arity := by
  rw [List.length_reverse, List.length_take_of_le h]

/-- A call that is made is one of the nodes, and has the operands that it takes. -/
theorem invocation_of_run {stack : List Float} {nodes : List Node} {i : Invocation}
    (h : i ∈ (run stack nodes).invocations) :
    .call i.definition ∈ nodes ∧ i.operands.length = i.definition.arity := by
  induction nodes generalizing stack with
  | nil => cases h
  | cons node nodes ih =>
    cases node with
    | literal x =>
      obtain ⟨hcall, hlength⟩ := ih h
      exact ⟨List.mem_cons_of_mem _ hcall, hlength⟩
    | call d =>
      rw [run] at h
      by_cases hfew : stack.length < d.arity
      · rw [if_pos hfew] at h
        cases h
      · rw [if_neg hfew] at h
        dsimp only at h
        have hlength := length_operands (Nat.not_lt.mp hfew)
        cases happly : d.apply (stack.take d.arity).reverse with
        | error halt =>
          rw [happly] at h
          cases List.mem_singleton.mp h
          exact ⟨List.mem_cons_self, hlength⟩
        | ok x =>
          rw [happly] at h
          rcases List.mem_cons.mp h with rfl | hlater
          · exact ⟨List.mem_cons_self, hlength⟩
          · obtain ⟨hcall, hlength'⟩ := ih hlater
            exact ⟨List.mem_cons_of_mem _ hcall, hlength'⟩

end Postfix

/-! ## Interpretations -/

namespace Registry

/-- The calls that are recorded are those of the run. -/
theorem invocation_mem_records {r : Registry} {source : String} {ts : List Token}
    {nodes : List Node} {i : Invocation} (htokens : Token.tokenize source = .ok ts)
    (hnodes : Postfix.ofTokens r ts = .ok nodes) :
    .invocation i ∈ (r.interpret source).records ↔ i ∈ (Postfix.run [] nodes).invocations := by
  have hclosing : ∀ outcome, .invocation i ∉ Interpretation.closing .evaluation outcome := by
    intro outcome
    rcases outcome with (_ | _ | _) | _ <;> simp [Interpretation.closing]
  simp [interpret, htokens, hnodes, hclosing]

/-- A call that is recorded is a call of a definition of the registry, and has the operands
that it takes. -/
theorem invocation_of_records {r : Registry} {source : String} {i : Invocation}
    (h : .invocation i ∈ (r.interpret source).records) :
    i.definition ∈ r.entries ∧ i.operands.length = i.definition.arity := by
  cases htokens : Token.tokenize source with
  | error e => simp [interpret, htokens, Interpretation.failed] at h
  | ok ts =>
    cases hnodes : Postfix.ofTokens r ts with
    | error e => simp [interpret, htokens, hnodes, Interpretation.failed] at h
    | ok nodes =>
      obtain ⟨hcall, hlength⟩ :=
        Postfix.invocation_of_run ((invocation_mem_records htokens hnodes).mp h)
      exact ⟨Postfix.mem_entries_of_ofTokens hnodes hcall, hlength⟩

/-- A call that is made is a call of a definition of the registry, with as many operands as it
takes. -/
theorem Calls.mem {r : Registry} {source : String} {d : Definition} {operands : List Float}
    (h : r.Calls source d operands) : d ∈ r.entries ∧ operands.length = d.arity := by
  obtain ⟨ts, nodes, stack, _, hnodes, ⟨before, after, rfl, _⟩, henough, rfl⟩ := h
  exact ⟨Postfix.mem_entries_of_ofTokens hnodes (by simp), Postfix.length_operands henough⟩

/-- If no exception leaves a call, every text is answered. -/
theorem exists_answer {r : Registry}
    (h : ∀ d ∈ r.entries, ∀ operands e, operands.length = d.arity → ¬ d.Escapes operands e)
    (source : String) : ∃ a, r.answer source = .ok a := by
  rcases answer_cases r source with ⟨_, _, x, _, _, _, hanswer⟩ | ⟨f, _, hanswer⟩ |
    ⟨e, hraises, _⟩
  · exact ⟨.value x, hanswer⟩
  · exact ⟨.error f.message, hanswer⟩
  · obtain ⟨d, operands, hcalls, hescapes⟩ := hraises
    obtain ⟨hd, hlength⟩ := hcalls.mem
    exact absurd hescapes (h d hd operands e hlength)

end Registry

end Reckoner
