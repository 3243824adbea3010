import Reckoner.Postfix.Course

set_option autoImplicit false

/-!
# Where a run stops

Every call returns a number, makes the expression fail or is left by an exception, and
never two of these.  So a run either passes all its nodes, or stops at the
first one that it does not pass, for the reason that this one gives; what comes
after that node has no part in it.
-/

namespace Reckoner

/-! ## Single calls -/

namespace Definition

variable {d : Definition} {operands : List Float}

theorem apply_eq_ok_iff {x : Float} : d.apply operands = .ok x ↔ d.Returns operands x := by
  unfold apply Returns
  cases hrun : d.callback.run operands with
  | ok v =>
    cases hreading : v.reading with
    | number y => simp [accept, hreading]
    | raised e => simp [accept, hreading]
    | notANumber => cases hshown : v.shown <;> simp [accept, hreading, hshown]
  | error e =>
    cases hblames : e.cls.blamesOperands with
    | false => simp [hblames]
    | true => cases htext : e.text <;> simp [hblames, htext]

theorem apply_of_fails {f : Failure} (h : d.Fails operands f) :
    d.apply operands = .error (.failure f) := by
  unfold apply
  cases h with
  | inapplicable hrun hblames htext => simp only [hrun, hblames, if_true, htext]
  | notANumber hrun hreading hshown => simp only [hrun, accept, hreading, hshown]

theorem apply_of_escapes {e : Exception} (h : d.Escapes operands e) :
    d.apply operands = .error (.raised e) := by
  unfold apply
  cases h with
  | raised hrun hblames => simp [hrun, hblames]
  | unconvertible hrun hreading => simp only [hrun, accept, hreading]
  | unexplained hrun hblames htext => simp only [hrun, hblames, if_true, htext]
  | unwritten hrun hreading hshown => simp only [hrun, accept, hreading, hshown]

theorem of_accept_eq_error {v : Value} {halt : Halt} (hrun : d.callback.run operands = .ok v)
    (h : d.accept v = .error halt) :
    (∃ f, halt = .failure f ∧ d.Fails operands f) ∨
      ∃ e, halt = .raised e ∧ d.Escapes operands e := by
  cases hreading : v.reading with
  | number x => simp [accept, hreading] at h
  | raised e =>
    simp only [accept, hreading] at h
    cases h
    exact .inr ⟨e, rfl, .unconvertible hrun hreading⟩
  | notANumber =>
    cases hshown : v.shown with
    | ok form =>
      simp only [accept, hreading, hshown] at h
      cases h
      exact .inl ⟨_, rfl, .notANumber hrun hreading hshown⟩
    | error e =>
      simp only [accept, hreading, hshown] at h
      cases h
      exact .inr ⟨e, rfl, .unwritten hrun hreading hshown⟩

/-- A call that returns no number fails or is left by an exception. -/
theorem of_apply_eq_error {halt : Halt} (h : d.apply operands = .error halt) :
    (∃ f, halt = .failure f ∧ d.Fails operands f) ∨
      ∃ e, halt = .raised e ∧ d.Escapes operands e := by
  unfold apply at h
  cases hrun : d.callback.run operands with
  | ok v =>
    rw [hrun] at h
    exact of_accept_eq_error hrun h
  | error e =>
    rw [hrun] at h
    cases hblames : e.cls.blamesOperands with
    | false =>
      simp only [hblames] at h
      cases h
      exact .inr ⟨e, rfl, .raised hrun hblames⟩
    | true =>
      cases htext : e.text with
      | ok text =>
        simp only [hblames, if_true, htext] at h
        cases h
        exact .inl ⟨_, rfl, .inapplicable hrun hblames htext⟩
      | error e' =>
        simp only [hblames, if_true, htext] at h
        cases h
        exact .inr ⟨e', rfl, .unexplained hrun hblames htext⟩

end Definition

/-! ## Runs -/

namespace Postfix

/-- A call that has its operands is applied to them. -/
theorem run_call_of_le {d : Definition} {stack : List Float} (h : d.arity ≤ stack.length)
    (nodes : List Node) :
    (run stack (.call d :: nodes)).outcome =
      match d.apply (stack.take d.arity).reverse with
      | .error halt => .error halt
      | .ok x => (run (x :: stack.drop d.arity) nodes).outcome := by
  rw [run, if_neg (Nat.not_lt.mpr h)]
  dsimp only
  cases d.apply (stack.take d.arity).reverse <;> rfl

/-- A call that has its operands is made first, and the others if it returns. -/
theorem invocations_call {d : Definition} {start : List Float} (h : d.arity ≤ start.length)
    (nodes : List Node) :
    (run start (.call d :: nodes)).invocations =
      ⟨d, (start.take d.arity).reverse⟩ :: match d.apply (start.take d.arity).reverse with
        | .error _ => []
        | .ok x => (run (x :: start.drop d.arity) nodes).invocations := by
  rw [run, if_neg (Nat.not_lt.mpr h)]
  dsimp only
  cases d.apply (start.take d.arity).reverse <;> rfl

/-- No call is made without its operands, and none after it. -/
theorem invocations_underflow {d : Definition} {start : List Float} (h : start.length < d.arity)
    (nodes : List Node) :
    (run start (.call d :: nodes)).invocations = [] := by
  rw [run, if_pos h]

/-- What comes after nodes that are passed is run on the stack that they leave. -/
theorem run_of_passes {start stack : List Float} {before : List Node}
    (h : Passes start before stack) (after : List Node) :
    (run start (before ++ after)).outcome = (run stack after).outcome := by
  induction h with
  | done stack => rfl
  | literal _ ih => exact ih
  | call henough hreturns _ ih =>
    rw [List.cons_append, run_call_of_le henough, Definition.apply_eq_ok_iff.mpr hreturns]
    exact ih

/-- Why a run stops is not changed by a node that is passed before. -/
theorem Halts.after {node : Node} {start stack : List Float} {nodes : List Node} {halt : Halt}
    (hnode : ∀ {before : List Node} {last : List Float},
      Passes stack before last → Passes start (node :: before) last)
    (h : Halts stack nodes halt) : Halts start (node :: nodes) halt := by
  have harrives {d : Definition} {last : List Float} (hstop : Arrives stack nodes d last) :
      Arrives start (node :: nodes) d last := by
    obtain ⟨before, after, rfl, hpasses⟩ := hstop
    exact ⟨node :: before, after, rfl, hnode hpasses⟩
  cases h with
  | underflow hstop hfew => exact .underflow (harrives hstop) hfew
  | failure hstop henough hfails => exact .failure (harrives hstop) henough hfails
  | raised hstop henough hescapes => exact .raised (harrives hstop) henough hescapes
  | leftOver hpasses hone => exact .leftOver (hnode hpasses) hone

theorem halts_of_run {start : List Float} {nodes : List Node} {halt : Halt}
    (h : (run start nodes).outcome = .error halt) : Halts start nodes halt := by
  induction nodes generalizing start with
  | nil =>
    match start, h with
    | [], h => cases h; exact .leftOver (.done []) (by simp)
    | x :: y :: stack, h => cases h; exact .leftOver (.done _) (by simp)
  | cons node nodes ih =>
    cases node with
    | literal x => exact (ih h).after .literal
    | call d =>
      have hhere : Arrives start (.call d :: nodes) d start := ⟨[], nodes, rfl, .done start⟩
      by_cases hfew : start.length < d.arity
      · rw [run, if_pos hfew] at h
        cases h
        exact .underflow hhere hfew
      · have henough : d.arity ≤ start.length := Nat.not_lt.mp hfew
        rw [run_call_of_le henough] at h
        cases happly : d.apply (start.take d.arity).reverse with
        | ok x =>
          rw [happly] at h
          exact (ih h).after (.call henough (Definition.apply_eq_ok_iff.mp happly))
        | error halt' =>
          rw [happly] at h
          cases h
          rcases Definition.of_apply_eq_error happly with ⟨f, rfl, hfails⟩ | ⟨e, rfl, hescapes⟩
          · exact .failure hhere henough hfails
          · exact .raised hhere henough hescapes

theorem run_of_halts {start : List Float} {nodes : List Node} {halt : Halt}
    (h : Halts start nodes halt) : (run start nodes).outcome = .error halt := by
  cases h with
  | underflow hstop hfew =>
    obtain ⟨before, after, rfl, hpasses⟩ := hstop
    rw [run_of_passes hpasses, run, if_pos hfew]
  | failure hstop henough hfails =>
    obtain ⟨before, after, rfl, hpasses⟩ := hstop
    rw [run_of_passes hpasses, run_call_of_le henough, Definition.apply_of_fails hfails]
  | raised hstop henough hescapes =>
    obtain ⟨before, after, rfl, hpasses⟩ := hstop
    rw [run_of_passes hpasses, run_call_of_le henough, Definition.apply_of_escapes hescapes]
  | @leftOver stack hpasses hone =>
    have hrun := run_of_passes hpasses []
    rw [List.append_nil] at hrun
    rw [hrun]
    match stack, hone with
    | [], _ => rfl
    | [x], hone => exact absurd rfl hone
    | x :: y :: stack, _ => rfl

theorem passes_of_run {start : List Float} {nodes : List Node} {x : Float}
    (h : (run start nodes).outcome = .ok x) : Passes start nodes [x] := by
  induction nodes generalizing start with
  | nil =>
    match start, h with
    | [y], h => cases h; exact .done _
  | cons node nodes ih =>
    cases node with
    | literal y => exact .literal (ih h)
    | call d =>
      by_cases hfew : start.length < d.arity
      · rw [run, if_pos hfew] at h
        cases h
      · have henough : d.arity ≤ start.length := Nat.not_lt.mp hfew
        rw [run_call_of_le henough] at h
        cases happly : d.apply (start.take d.arity).reverse with
        | error halt =>
          rw [happly] at h
          cases h
        | ok y =>
          rw [happly] at h
          exact .call henough (Definition.apply_eq_ok_iff.mp happly) (ih h)

/-- Nodes have a value exactly if they are all passed and leave it alone on the stack. -/
theorem evaluate_eq_ok_iff {nodes : List Node} {x : Float} :
    evaluate nodes = .ok x ↔ Passes [] nodes [x] := by
  refine ⟨passes_of_run, fun h => ?_⟩
  have hrun := run_of_passes h []
  rw [List.append_nil] at hrun
  exact hrun

/-- Nodes have no value exactly for the reason that the first node that goes wrong
gives, or else the stack that is left. -/
theorem evaluate_eq_error_iff {nodes : List Node} {halt : Halt} :
    evaluate nodes = .error halt ↔ Halts [] nodes halt :=
  ⟨halts_of_run, run_of_halts⟩

end Postfix

end Reckoner
