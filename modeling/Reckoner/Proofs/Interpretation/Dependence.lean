import Mathlib.Order.Monotone.Basic
import Reckoner.Proofs.Interpretation.Outcome
import Reckoner.Proofs.Postfix.Lockstep
import Reckoner.Proofs.Registry.Enrolment
import Reckoner.Registry.Standard

set_option autoImplicit false

/-!
# What an answer depends on

The answer to a text depends on the definitions of the symbols and names that occur in
it, and on the order of the precedences of its operators.  Everything else about a
registry is out of sight: other definitions, the order in which definitions were
registered, and what numbers the precedences are.
-/

namespace Reckoner

open Postfix

/-! ## Evaluation -/

/-- A definition is applied by its callback; only its name goes into a message. -/
theorem Definition.apply_congr {d d' : Definition} (hname : d.name = d'.name)
    (hcallback : d.callback = d'.callback) (operands : List Float) :
    d.apply operands = d'.apply operands := by
  simp only [apply, accept, hname, hcallback]

/-- Calls of the same names have the same outcome under registries that agree. -/
theorem Postfix.outcome_run_congr {r r' : Registry} {ts : List Token} (h : r.AgreesOn r' ts)
    {nodes nodes' : List Node} (hnodes : List.Forall₂ (SameNode r r' ts) nodes nodes')
    (stack : List Float) : (run stack nodes).outcome = (run stack nodes').outcome := by
  induction hnodes generalizing stack with
  | nil => rfl
  | @cons node node' nodes nodes' hnode _ ih =>
    cases node with
    | literal x =>
      cases hnode
      exact ih (x :: stack)
    | call d =>
      obtain ⟨d', rfl⟩ : ∃ d', node' = .call d' := by cases hnode; exact ⟨_, rfl⟩
      obtain ⟨hname, harity, hcallback⟩ := name_and_arity_of_sameNode h hnode
      -- the operands are the same, so they are too few in both runs or in none
      by_cases hfew : stack.length < d.arity
      · have hfew' : stack.length < d'.arity := harity ▸ hfew
        rw [run, run, if_pos hfew, if_pos hfew', hname, harity]
      · have henough : d'.arity ≤ stack.length := harity ▸ Nat.not_lt.mp hfew
        rw [run_call_of_le (Nat.not_lt.mp hfew), run_call_of_le henough, ← harity,
          Definition.apply_congr hname hcallback]
        cases d'.apply (stack.take d.arity).reverse with
        | error halt => rfl
        | ok x => exact ih (x :: stack.drop d.arity)

namespace Registry

/-! ## Answers -/

variable {r r' : Registry} {source : String}

/-- Registries that agree on the tokens of a text answer it alike. -/
theorem answer_congr (h : ∀ ts, Token.tokenize source = .ok ts → r.AgreesOn r' ts) :
    r.answer source = r'.answer source := by
  cases htokens : Token.tokenize source with
  | error e => rw [answer_of_lexical htokens, answer_of_lexical htokens]
  | ok ts =>
    have hagrees := h ts htokens
    rcases ofTokens_parallel hagrees rfl with ⟨nodes, nodes', hnodes, hnodes', hsame⟩ |
      ⟨e, e', he, he', hsame⟩
    · rw [answer_of_evaluate htokens hnodes, answer_of_evaluate htokens hnodes', evaluate,
        evaluate, outcome_run_congr hagrees hsame]
    · rw [answer_of_structural htokens he, answer_of_structural htokens he', hsame.eq]

/-- Registries in which the symbols and names of a text mean the same answer it alike. -/
theorem answer_congr_of_lookup
    (h : ∀ ts, Token.tokenize source = .ok ts →
      ∀ name, Token.Mentions ts name → r.lookup name = r'.lookup name) :
    r.answer source = r'.answer source :=
  answer_congr fun ts hts => agreesOn_of_lookup (h ts hts)

/-! ## Renumbering -/

theorem operator_renumber_iff {f : Nat → Nat} {symbol : String} {o : InfixOperator} :
    (r.renumber f).operator symbol = .ok o ↔
      ∃ p, r.operator symbol = .ok p ∧ { p with precedence := f p.precedence } = o := by
  simp only [operator_eq_ok_iff, lookup_renumber, Option.map_eq_some_iff]
  constructor
  · rintro ⟨d, hd, hrenumber⟩
    cases d with
    | operator p => exact ⟨p, hd, by cases hrenumber; rfl⟩
    | function g => cases hrenumber
  · rintro ⟨p, hp, rfl⟩
    exact ⟨_, hp, rfl⟩

/-- A renumbering that keeps the order of precedences cannot be told. -/
theorem agreesOn_renumber {f : Nat → Nat} (hf : StrictMono f) (r : Registry) (ts : List Token) :
    (r.renumber f).AgreesOn r ts := by
  refine ⟨fun name _ => ?_, fun symbol other _ _ => ?_⟩
  · rw [lookup_renumber]
    cases r.lookup name with
    | none => exact .none
    | some d => exact .some (Definition.alike_renumber f d)
  · simp only [BindsLess, operator_renumber_iff]
    constructor
    · rintro ⟨_, _, ⟨o, ho, rfl⟩, ⟨p, hp, rfl⟩, hlt⟩
      exact ⟨o, p, ho, hp, hf.lt_iff_lt.mp hlt⟩
    · rintro ⟨o, p, ho, hp, hlt⟩
      exact ⟨_, _, ⟨o, ho, rfl⟩, ⟨p, hp, rfl⟩, hf hlt⟩

/-- A text is answered alike by registries in which each of its symbols and names is
undefined in both, or a function with the same arity and callback in both, or an
operator with the same callback in both, and in which its operators have the same order
of precedences.  So definitions of other names do not show in the answer, nor does the
order in which definitions of different names are registered, nor a renumbering of the
precedences that keeps their order. -/
theorem answer_depends_on_mentions (r : Registry) (source : String) :
    (∀ r' : Registry, (∀ ts, Token.tokenize source = .ok ts → r.AgreesOn r' ts) →
      r.answer source = r'.answer source) ∧
    (∀ ps : List Proposal,
      (∀ ts, Token.tokenize source = .ok ts →
        ∀ p ∈ ps, ∀ d, p.checked = .ok d → ¬ Token.Mentions ts d.name) →
      (r.enrol ps).registry.answer source = r.answer source) ∧
    (∀ ps qs : List Proposal, ps.Perm qs → (∀ p ∈ ps, ∃ d, p.checked = .ok d) →
      ps.Pairwise Proposal.Apart →
      (r.enrol ps).registry.answer source = (r.enrol qs).registry.answer source) ∧
    ∀ f : Nat → Nat, StrictMono f → (r.renumber f).answer source = r.answer source := by
  refine ⟨fun r' h => answer_congr h, fun ps h => ?_, fun ps qs hperm hps hapart => ?_,
    fun f hf => answer_congr fun ts _ => agreesOn_renumber hf r ts⟩
  · refine answer_congr_of_lookup fun ts hts name hname => lookup_enrol_of_ne ?_
    rintro p hp d hd rfl
    exact h ts hts p hp d hd hname
  · exact answer_congr_of_lookup fun _ _ name _ => lookup_enrol_perm hperm hps hapart r name

/-- A proposal to add. -/
def plus (precedence : Int) : Proposal :=
  Standard.operator "+" precedence (Standard.binary fun x y => .ok (.float (x + y)))

/-- A proposal to multiply. -/
def times (precedence : Int) : Proposal :=
  Standard.operator "*" precedence (Standard.binary fun x y => .ok (.float (x * y)))

/-- A proposal of a function that is not used. -/
def idle : Proposal := Standard.function "idle" 0 (Standard.constant 0)

theorem mentions_sum_of_product {ts : List Token} {name : String}
    (hts : Token.tokenize "1 + 2 * 3" = .ok ts) (hname : Token.Mentions ts name) :
    name = "+" ∨ name = "*" := by
  have htokens : Token.tokenize "1 + 2 * 3" =
      .ok [⟨.number (Numeral.mk none ['1'] none).value, 0⟩, ⟨.operator "+", 2⟩,
        ⟨.number (Numeral.mk none ['2'] none).value, 4⟩, ⟨.operator "*", 6⟩,
        ⟨.number (Numeral.mk none ['3'] none).value, 8⟩] :=
    Token.scan_chars (l := ⟨[⟨[], .numeral ⟨none, ['1'], none⟩⟩, ⟨[' '], .operator ['+']⟩,
      ⟨[' '], .numeral ⟨none, ['2'], none⟩⟩, ⟨[' '], .operator ['*']⟩,
      ⟨[' '], .numeral ⟨none, ['3'], none⟩⟩], []⟩) (by decide +kernel) 0
  rw [htokens] at hts
  cases hts
  simpa [Token.Mentions, eq_comm] using hname

/-- The value of `1 + 2 * 3` is the same with precedences 3 and 4, 1 and 70, and 6 and 8,
with a function that it does not use, and with sum and product registered the other way
round. -/
theorem answer_sum_of_product :
    (empty.enrol [plus 3, times 4]).registry.answer "1 + 2 * 3" =
      (empty.enrol [plus 1, times 70]).registry.answer "1 + 2 * 3" ∧
    ((empty.enrol [plus 3, times 4]).registry.enrol [idle]).registry.answer "1 + 2 * 3" =
      (empty.enrol [plus 3, times 4]).registry.answer "1 + 2 * 3" ∧
    (empty.enrol [plus 3, times 4]).registry.answer "1 + 2 * 3" =
      (empty.enrol [times 4, plus 3]).registry.answer "1 + 2 * 3" ∧
    ((empty.enrol [plus 3, times 4]).registry.renumber (2 * ·)).answer "1 + 2 * 3" =
      (empty.enrol [plus 3, times 4]).registry.answer "1 + 2 * 3" := by
  obtain ⟨hagree, -, -, hrenumber⟩ :=
    answer_depends_on_mentions (empty.enrol [plus 3, times 4]).registry "1 + 2 * 3"
  refine ⟨hagree _ fun ts hts => ⟨?_, ?_⟩, ?_, ?_, hrenumber _ ?_⟩
  · intro name hname
    rcases mentions_sum_of_product hts hname with rfl | rfl
    · exact .some rfl
    · exact .some rfl
  · intro symbol other hsymbol hother
    rcases mentions_sum_of_product hts hsymbol.mentions with rfl | rfl <;>
      rcases mentions_sum_of_product hts hother.mentions with rfl | rfl <;>
      · rw [bindsLess_iff rfl rfl, bindsLess_iff rfl rfl]
        decide
  · refine (answer_depends_on_mentions _ _).2.1 [idle] ?_
    intro ts hts p hp d hd hname
    cases List.mem_singleton.mp hp
    cases hd
    rcases mentions_sum_of_product hts hname with h | h
    · exact absurd h (by decide)
    · exact absurd h (by decide)
  · refine (answer_depends_on_mentions empty _).2.2.1 _ _ (List.Perm.swap _ _ _) ?_ ?_
    · intro p hp
      rcases List.mem_pair.mp hp with rfl | rfl <;> exact ⟨_, rfl⟩
    · refine List.pairwise_pair.mpr ?_
      intro d e hd he
      cases hd
      cases he
      decide
  · intro m n hlt
    show 2 * m < 2 * n
    omega

end Registry

end Reckoner
