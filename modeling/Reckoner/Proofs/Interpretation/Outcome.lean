import Reckoner.Interpreter
import Reckoner.Proofs.Postfix.Stopping
import Reckoner.Proofs.Token.LexicalGrammar

set_option autoImplicit false

/-!
# How an interpretation ends

A text has a value, a failure that it is answered with, or an exception that comes up in
its evaluation: the first call that does not go well then has its operands, and the
exception leaves it.  Such an exception is answered with its text if it is a failure of the
expression, and goes on if it is not; and if its text cannot be had, this is decided by the
exception that is raised instead.
-/

namespace Reckoner.Registry

/-- Why a text has no value: the first stage that does not go well, and within the
evaluation the first node. -/
inductive Fails (r : Registry) (source : String) : Failure → Prop
  | lexical {e : LexError} : Token.tokenize source = .error e → Fails r source (.lexical e)
  | structural {ts : List Token} {e : StructureError} :
      Token.tokenize source = .ok ts → Postfix.ofTokens r ts = .error e →
      Fails r source (.structural e)
  | evaluation {ts : List Token} {nodes : List Node} {f : Failure} :
      Token.tokenize source = .ok ts → Postfix.ofTokens r ts = .ok nodes →
      Postfix.Halts [] nodes (.failure f) → Fails r source f

/-- A call that the evaluation of a text gets to and makes, with the operands it hands over. -/
def Calls (r : Registry) (source : String) (d : Definition) (operands : List Float) : Prop :=
  ∃ ts nodes stack, Token.tokenize source = .ok ts ∧ Postfix.ofTokens r ts = .ok nodes ∧
    Postfix.Arrives [] nodes d stack ∧ d.arity ≤ stack.length ∧
    operands = (stack.take d.arity).reverse

/-- An exception that comes up in the evaluation of a text: it leaves the first call that does
not go well. -/
def Raises (r : Registry) (source : String) (e : Exception) : Prop :=
  ∃ d operands, r.Calls source d operands ∧ d.Escapes operands e

/-! ## Stage by stage -/

variable {r : Registry} {source : String}

theorem answer_of_lexical {e : LexError} (h : Token.tokenize source = .error e) :
    r.answer source = .ok (.error e.message) := by
  simp only [answer, interpret, h]
  rfl

theorem answer_of_structural {ts : List Token} {e : StructureError}
    (htokens : Token.tokenize source = .ok ts) (h : Postfix.ofTokens r ts = .error e) :
    r.answer source = .ok (.error e.message) := by
  simp only [answer, interpret, htokens, h]
  rfl

theorem answer_of_evaluate {ts : List Token} {nodes : List Node}
    (htokens : Token.tokenize source = .ok ts) (hnodes : Postfix.ofTokens r ts = .ok nodes) :
    r.answer source = match Postfix.evaluate nodes with
      | .ok x => .ok (.value x)
      | .error (.failure f) => .ok (.error f.message)
      | .error (.raised e) => e.told.answered.map .error := by
  simp only [answer, interpret, htokens, hnodes]
  rfl

/-- An exception leaves the first call that does not go well. -/
theorem halts_raised_iff {nodes : List Node} {e : Exception} :
    Postfix.Halts [] nodes (.raised e) ↔
      ∃ d stack, Postfix.Arrives [] nodes d stack ∧ d.arity ≤ stack.length ∧
        d.Escapes (stack.take d.arity).reverse e := by
  constructor
  · intro h
    cases h with
    | raised hstop henough hescapes => exact ⟨_, _, hstop, henough, hescapes⟩
  · rintro ⟨d, stack, hstop, henough, hescapes⟩
    exact .raised hstop henough hescapes

theorem raises_of_halts {ts : List Token} {nodes : List Node} {e : Exception}
    (htokens : Token.tokenize source = .ok ts) (hnodes : Postfix.ofTokens r ts = .ok nodes)
    (h : Postfix.Halts [] nodes (.raised e)) : r.Raises source e := by
  obtain ⟨d, stack, harrives, henough, hescapes⟩ := halts_raised_iff.mp h
  exact ⟨d, _, ⟨ts, nodes, stack, htokens, hnodes, harrives, henough, rfl⟩, hescapes⟩

/-- A text is answered with its value, or the message of its failure, or as the exception has
it that comes up in its evaluation. -/
theorem answer_cases (r : Registry) (source : String) :
    (∃ ts nodes x, Token.tokenize source = .ok ts ∧ Postfix.ofTokens r ts = .ok nodes ∧
      Postfix.Passes [] nodes [x] ∧ r.answer source = .ok (.value x)) ∨
    (∃ f, r.Fails source f ∧ r.answer source = .ok (.error f.message)) ∨
    (∃ e, r.Raises source e ∧ r.answer source = e.told.answered.map .error) := by
  cases htokens : Token.tokenize source with
  | error e => exact .inr (.inl ⟨_, .lexical htokens, answer_of_lexical htokens⟩)
  | ok ts =>
    cases hnodes : Postfix.ofTokens r ts with
    | error e =>
      exact .inr (.inl ⟨_, .structural htokens hnodes, answer_of_structural htokens hnodes⟩)
    | ok nodes =>
      have hanswer := answer_of_evaluate htokens hnodes
      cases hvalue : Postfix.evaluate nodes with
      | ok x =>
        rw [hvalue] at hanswer
        exact .inl ⟨ts, nodes, x, rfl, hnodes, Postfix.evaluate_eq_ok_iff.mp hvalue, hanswer⟩
      | error halt =>
        rw [hvalue] at hanswer
        have hhalts := Postfix.evaluate_eq_error_iff.mp hvalue
        cases halt with
        | failure f => exact .inr (.inl ⟨f, .evaluation htokens hnodes hhalts, hanswer⟩)
        | raised e => exact .inr (.inr ⟨e, raises_of_halts htokens hnodes hhalts, hanswer⟩)

/-! ## What the answer says -/

/-- An exception never makes a value. -/
theorem map_answered_ne_value (e : Exception) (x : Float) :
    e.answered.map Answer.error ≠ .ok (.value x) := by
  cases e.answered <;> simp [Except.map]

theorem answer_eq_value_iff {x : Float} :
    r.answer source = .ok (.value x) ↔
      ∃ ts nodes, Token.tokenize source = .ok ts ∧ Postfix.ofTokens r ts = .ok nodes ∧
        Postfix.Passes [] nodes [x] := by
  constructor
  · intro h
    rcases answer_cases r source with ⟨ts, nodes, y, htokens, hnodes, hpasses, hanswer⟩ |
      ⟨f, _, hanswer⟩ | ⟨e, _, hanswer⟩
    · rw [hanswer] at h
      cases h
      exact ⟨ts, nodes, htokens, hnodes, hpasses⟩
    · rw [hanswer] at h
      cases h
    · rw [hanswer] at h
      exact absurd h (map_answered_ne_value _ x)
  · rintro ⟨ts, nodes, htokens, hnodes, hpasses⟩
    rw [answer_of_evaluate htokens hnodes, Postfix.evaluate_eq_ok_iff.mpr hpasses]

end Reckoner.Registry
