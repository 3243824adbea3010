import Reckoner.Proofs.Interpretation.Legibility
import Reckoner.Trace

set_option autoImplicit false

/-!
# The trace of an interpretation

A run makes the calls that it gets to, one for each and in order, and the last of them is
the first that goes wrong, if any does.  So the lines that are logged of a text are those
of its trace, and what its nodes are evaluated to depends on what the callbacks do in the
calls that are logged, and on nothing else that they would do.
-/

namespace Reckoner

namespace Postfix

variable {start : List Float} {nodes : List Node} {d : Definition} {x : Float} {i : Invocation}

/-! ## The calls of a run -/

theorem not_callAt_nil (place : Nat) : ¬ CallAt start [] place i := by
  rintro ⟨before, after, _, hsplit, -⟩
  cases before <;> cases hsplit

/-- A literal is passed, and is no call. -/
theorem callAt_literal (place : Nat) :
    CallAt start (.literal x :: nodes) place i ↔ CallAt (x :: start) nodes place i := by
  constructor
  · rintro ⟨before, after, stack, hsplit, hplace, hpasses, hcall⟩
    cases hpasses with
    | done => cases hsplit
    | literal hpasses =>
      cases hsplit
      exact ⟨_, after, stack, rfl, hplace, hpasses, hcall⟩
    | call => cases hsplit
  · rintro ⟨before, after, stack, rfl, hplace, hpasses, hcall⟩
    exact ⟨.literal x :: before, after, stack, rfl, hplace, .literal hpasses, hcall⟩

/-- The first call is made if it has its operands. -/
theorem callAt_zero :
    CallAt start (.call d :: nodes) 0 i ↔
      d.arity ≤ start.length ∧ i = ⟨d, (start.take d.arity).reverse⟩ := by
  constructor
  · rintro ⟨before, after, stack, hsplit, hplace, hpasses, henough, hoperands⟩
    cases hpasses with
    | done =>
      cases hsplit
      exact ⟨henough, congrArg (Invocation.mk i.definition) hoperands⟩
    | literal => cases hsplit
    | call => cases hplace
  · rintro ⟨henough, rfl⟩
    exact ⟨[], nodes, start, rfl, rfl, .done start, henough, rfl⟩

/-- A later call is made if the first one returns and the rest of the run makes it. -/
theorem callAt_succ (place : Nat) :
    CallAt start (.call d :: nodes) (place + 1) i ↔
      ∃ x, d.arity ≤ start.length ∧ d.Returns (start.take d.arity).reverse x ∧
        CallAt (x :: start.drop d.arity) nodes place i := by
  constructor
  · rintro ⟨before, after, stack, hsplit, hplace, hpasses, hcall⟩
    cases hpasses with
    | done => cases hplace
    | literal => cases hsplit
    | call henough hreturns hpasses =>
      cases hsplit
      exact ⟨_, henough, hreturns, _, after, stack, rfl, Nat.succ.inj hplace, hpasses, hcall⟩
  · rintro ⟨x, henough, hreturns, before, after, stack, rfl, rfl, hpasses, hcall⟩
    exact ⟨.call d :: before, after, stack, rfl, rfl, .call henough hreturns hpasses, hcall⟩

/-- The calls that a run makes are found at their places. -/
theorem getElem?_invocations (start : List Float) (nodes : List Node) (place : Nat)
    (i : Invocation) :
    (run start nodes).invocations[place]? = some i ↔ CallAt start nodes place i := by
  induction nodes generalizing start place with
  | nil => simp [run, not_callAt_nil]
  | cons node nodes ih =>
    cases node with
    | literal x =>
      rw [callAt_literal]
      exact ih (x :: start) place
    | call d =>
      rcases Nat.lt_or_ge start.length d.arity with hfew | henough
      · have hnot : ¬ d.arity ≤ start.length := Nat.not_le.mpr hfew
        rw [invocations_underflow hfew]
        cases place with
        | zero => simp [callAt_zero, hnot]
        | succ place => simp [callAt_succ, hnot]
      · rw [invocations_call henough]
        cases place with
        | zero => simp [callAt_zero, henough, eq_comm]
        | succ place =>
          simp only [callAt_succ, henough, true_and, ← Definition.apply_eq_ok_iff,
            List.getElem?_cons_succ]
          cases d.apply (start.take d.arity).reverse with
          | error halt => simp
          | ok x => simp [ih]

theorem makes_invocations (nodes : List Node) : Makes nodes (run [] nodes).invocations :=
  getElem?_invocations [] nodes

/-- A run makes its calls and no others. -/
theorem Makes.eq {made : List Invocation} (h : Makes nodes made) :
    made = (run [] nodes).invocations := by
  refine List.ext_getElem? fun place => Option.ext fun i => ?_
  rw [h place i, makes_invocations nodes place i]

/-! ## Callbacks that are not called -/

end Postfix

/-! ## Traces -/

namespace Registry

open Log

variable {r : Registry} {source : String} {ts : List Token}

theorem line_failure (f : Failure) (stage : Stage) :
    (Record.failure f stage).line =
      ⟨.info, f.category.title ++ (" in " ++ stage.label ++ ": ") ++ f.message⟩ := by
  simp only [Record.line, Record.level, Record.message, String.append_assoc]

theorem line_raised_failure (c : Category) (text : String) (stage : Stage) :
    (Record.raised (.failure c) text stage).line =
      ⟨.info, c.title ++ (" in " ++ stage.label ++ ": ") ++ text⟩ := by
  simp only [Record.line, Record.level, Record.message, heading, String.append_assoc]

theorem line_raised_fault (kind : FaultKind) (text : String) (stage : Stage) :
    (Record.raised (.fault kind) text stage).line =
      ⟨.error, "Exception" ++ (" in " ++ stage.label ++ ": ") ++ text⟩ := by
  simp only [Record.line, Record.level, Record.message, heading, String.append_assoc]

theorem lines_of_lexical {e : LexError} (h : Token.tokenize source = .error e) :
    (r.interpret source).records.map Record.line =
      [opening source, ⟨.info, e.category.title ++ " in tokenize: " ++ e.message⟩] := by
  simp only [interpret, h, Interpretation.failed, List.map_append, List.map_cons, List.map_nil,
    line_failure]
  rfl

theorem lines_of_structural {e : StructureError} (htokens : Token.tokenize source = .ok ts)
    (h : Postfix.ofTokens r ts = .error e) :
    (r.interpret source).records.map Record.line =
      [opening source, cutting ts, ⟨.info, e.category.title ++ " in rpn: " ++ e.message⟩] := by
  simp only [interpret, htokens, h, Interpretation.failed, List.map_append, List.map_cons,
    List.map_nil, line_failure]
  rfl

/-! ### How an evaluation is closed -/

/-- The lines that close the evaluation. -/
def closing (outcome : Except Halt Float) : List Line :=
  (Interpretation.closing .evaluation outcome).map Record.line

theorem closing_value (x : Float) : closing (.ok x) = [] := rfl

theorem closing_failure (f : Failure) :
    closing (.error (.failure f)) =
      [⟨.info, f.category.title ++ " in calc_rpn: " ++ f.message⟩] :=
  congrArg (· :: []) (line_failure f .evaluation)

theorem closing_reported (c : Category) (text : String) :
    closing (.error (.raised (.failure c text))) =
      [⟨.info, c.title ++ " in calc_rpn: " ++ text⟩] :=
  congrArg (· :: []) (line_raised_failure c text .evaluation)

theorem closing_fault (kind : FaultKind) (text : String) :
    closing (.error (.raised (.fault kind text))) =
      [⟨.error, "Exception in calc_rpn: " ++ text⟩] :=
  congrArg (· :: []) (line_raised_fault kind text .evaluation)

theorem closing_wordless (c : ExceptionClass) (instead : Exception) :
    closing (.error (.raised (.wordless c instead))) = [] := rfl

/-- What is logged of the evaluation and answered is told by the calls that are made and by the
outcome. -/
theorem lines_and_answer {nodes : List Node} {made : List Invocation}
    {outcome : Except Halt Float} {last : List Line}
    (htokens : Token.tokenize source = .ok ts) (hnodes : Postfix.ofTokens r ts = .ok nodes)
    (hmakes : Postfix.Makes nodes made) (houtcome : Postfix.evaluate nodes = outcome)
    (hlast : closing outcome = last) :
    [opening source, cutting ts, ordering nodes] ++ made.map calling ++ last =
        (r.interpret source).records.map Record.line ∧
      Interpretation.answer ⟨[], outcome⟩ = r.answer source := by
  subst houtcome hlast
  rw [hmakes.eq, answer_of_evaluate htokens hnodes]
  refine ⟨?_, rfl⟩
  simp only [interpret, htokens, hnodes, Postfix.evaluate, List.map_append, List.map_map]
  rfl

/-- A text has no other trace. -/
theorem Traced.eq {lines : List Line} {answer : Except Exception Answer}
    (h : r.Traced source lines answer) :
    lines = (r.interpret source).records.map Record.line ∧ answer = r.answer source := by
  cases h with
  | lexical htokens => exact ⟨(lines_of_lexical htokens).symm, (answer_of_lexical htokens).symm⟩
  | structural htokens hnodes =>
    exact ⟨(lines_of_structural htokens hnodes).symm, (answer_of_structural htokens hnodes).symm⟩
  | value htokens hnodes hmakes hpasses =>
    have houtcome := Postfix.evaluate_eq_ok_iff.mpr hpasses
    have hboth := lines_and_answer htokens hnodes hmakes houtcome (closing_value _)
    rwa [List.append_nil] at hboth
  | failure htokens hnodes hmakes hhalts =>
    have houtcome := Postfix.evaluate_eq_error_iff.mpr hhalts
    exact lines_and_answer htokens hnodes hmakes houtcome (closing_failure _)
  | reported htokens hnodes hmakes hhalts =>
    have houtcome := Postfix.evaluate_eq_error_iff.mpr hhalts
    exact lines_and_answer htokens hnodes hmakes houtcome (closing_reported _ _)
  | fault htokens hnodes hmakes hhalts =>
    have houtcome := Postfix.evaluate_eq_error_iff.mpr hhalts
    exact lines_and_answer htokens hnodes hmakes houtcome (closing_fault _ _)
  | wordless htokens hnodes hmakes hhalts =>
    have houtcome := Postfix.evaluate_eq_error_iff.mpr hhalts
    have hboth := lines_and_answer htokens hnodes hmakes houtcome (closing_wordless _ _)
    rwa [List.append_nil] at hboth

end Registry

end Reckoner
