import Reckoner.Proofs.Registry.Enrolment
import Reckoner.Workspace

set_option autoImplicit false

/-!
# What every registry keeps

A registry changes by insertions of definitions that have passed their checks, and by
freezing.  Whatever holds of the empty registry and is kept by these holds of every
registry that steps lead to.
-/

namespace Reckoner.Registry

/-- What holds of the empty registry, and is kept by freezing and by the insertion of
definitions that have passed their checks. -/
structure Kept (P : Registry → Prop) : Prop where
  empty : P Registry.empty
  freeze : ∀ r, P r → P r.freeze
  insert : ∀ (r : Registry) (p : Proposal) (d : Definition),
    p.checked = .ok d → P r → P (r.insert d)

namespace Kept

variable {P : Registry → Prop} {r : Registry}

theorem enrol (hP : Kept P) (h : P r) (ps : List Proposal) : P (r.enrol ps).registry := by
  induction ps generalizing r with
  | nil => exact h
  | cons p ps ih =>
    cases hregister : r.register p with
    | error e => rw [enrol_of_refused hregister]; exact h
    | ok result =>
      obtain ⟨hchecked, -, hresult, -⟩ := register_eq_ok_iff.mp hregister
      rw [enrol_of_registered hregister]
      exact ih (hresult ▸ hP.insert r p _ hchecked h)

theorem perform (hP : Kept P) (h : P r) (step : Step) : P (r.perform step).1 := by
  cases step with
  | new => exact hP.empty
  | register ps => exact hP.enrol h ps
  | freeze => exact hP.freeze r h
  | interpret source => exact hP.freeze r h
  | lookup key => exact h
  | contains key => exact h
  | names => exact h
  | postfixOf source => exact h

theorem after (hP : Kept P) (h : P r) (steps : List Step) : P (r.after steps) := by
  induction steps generalizing r with
  | nil => exact h
  | cons step steps ih => exact ih (hP.perform h step)

theorem reachable (hP : Kept P) (h : r.Reachable) : P r := by
  obtain ⟨steps, name, rfl⟩ := h
  rw [Workspace.get_performAll]
  exact hP.after hP.empty _

end Kept

/-! ## One entry to a name -/

/-- No two definitions have one name. -/
def Distinct (r : Registry) : Prop := (r.entries.map Definition.name).Nodup

theorem mem_names_put {d : Definition} {es : List Definition} {name : String}
    (h : name ∈ (put d es).map Definition.name) :
    name = d.name ∨ name ∈ es.map Definition.name := by
  obtain ⟨e, he, rfl⟩ := List.mem_map.mp h
  rcases mem_put he with rfl | hold
  · exact .inl rfl
  · exact .inr (List.mem_map.mpr ⟨e, hold, rfl⟩)

/-- A definition replaces the one with its name. -/
theorem nodup_put (d : Definition) {es : List Definition} (h : (es.map Definition.name).Nodup) :
    ((put d es).map Definition.name).Nodup := by
  induction es with
  | nil => simp [put]
  | cons e es ih =>
    obtain ⟨hnot, hrest⟩ := List.nodup_cons.mp h
    by_cases he : e.name = d.name
    · rw [put, if_pos he]
      exact List.nodup_cons.mpr ⟨he ▸ hnot, hrest⟩
    · rw [put, if_neg he]
      refine List.nodup_cons.mpr ⟨fun hmem => ?_, ih hrest⟩
      rcases mem_names_put hmem with hname | hold
      · exact he hname
      · exact hnot hold

/-! ## Frozen registries -/

theorem after_append (r : Registry) (steps later : List Step) :
    r.after (steps ++ later) = (r.after steps).after later := List.foldl_append

/-- A step does nothing to a frozen registry, unless it starts over. -/
theorem perform_of_frozen {r : Registry} (hfrozen : r.frozen = true) {step : Step}
    (hstep : step ≠ .new) : (r.perform step).1 = r := by
  have hfreeze : r.freeze = r := by rw [freeze, ← hfrozen]
  cases step with
  | new => exact absurd rfl hstep
  | register ps => exact registry_enrol_of_frozen hfrozen ps
  | freeze => exact hfreeze
  | interpret source => exact hfreeze
  | lookup key => rfl
  | contains key => rfl
  | names => rfl
  | postfixOf source => rfl

/-- A frozen registry stays as it is, unless it is started over. -/
theorem after_of_frozen {r : Registry} (hfrozen : r.frozen = true) {steps : List Step}
    (hsteps : ∀ step ∈ steps, step ≠ .new) : r.after steps = r := by
  induction steps with
  | nil => rfl
  | cons step steps ih =>
    have hfirst := perform_of_frozen hfrozen (hsteps step List.mem_cons_self)
    show ((r.perform step).1).after steps = r
    rw [hfirst]
    exact ih fun s hs => hsteps s (List.mem_cons_of_mem step hs)

end Reckoner.Registry
