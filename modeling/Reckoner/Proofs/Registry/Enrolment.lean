import Reckoner.Registry.Proposal

set_option autoImplicit false

/-!
# What a series of registrations leaves behind

An open registry takes every proposal that passes its checks and can be written; a frozen
one takes none.
After a series of registrations a name has the meaning that was registered last, and
a name that no proposal is about has the meaning it had.
-/

namespace Reckoner.Registry

variable {r : Registry} {p : Proposal} {ps : List Proposal}

/-! ## One proposal -/

theorem register_of_open {d : Definition} (hopen : r.frozen = false) (h : p.checked = .ok d) :
    r.register p = .ok (r.insert d, ⟨d, r.lookup d.name⟩) :=
  register_eq_ok_iff.mpr ⟨h, hopen, rfl, rfl⟩

theorem checked_of_written {draft : Draft} {d : Definition} (h : p.draft = .ok draft)
    (hwritten : draft.written = .ok d) : p.checked = .ok d := by
  simp only [Proposal.checked, h, hwritten]

theorem register_of_draft_error {e : RegistrationError} (r : Registry) (h : p.draft = .error e) :
    r.register p = .error e.refusal := by
  rw [register, h]

theorem register_of_frozen {draft : Draft} (hfrozen : r.frozen = true) (h : p.draft = .ok draft) :
    r.register p = .error (RegistrationError.frozen draft.name).refusal := by
  rw [register, h]
  exact if_pos hfrozen

/-- A proposal that passes its checks and cannot be written is refused by an open registry. -/
theorem register_of_unwritten {draft : Draft} {e : Exception} (hopen : r.frozen = false)
    (h : p.draft = .ok draft) (hwritten : draft.written = .error e) :
    r.register p = .error (.raised e) := by
  simp only [register, h, hopen, hwritten]
  rfl

/-- A frozen registry refuses every proposal. -/
theorem exists_register_of_frozen (hfrozen : r.frozen = true) (p : Proposal) :
    ∃ reason, r.register p = .error reason := by
  cases h : p.draft with
  | error e => exact ⟨_, register_of_draft_error r h⟩
  | ok draft => exact ⟨_, register_of_frozen hfrozen h⟩

/-- A proposal that is refused leaves the registry as it was. -/
theorem enrol_of_refused {reason : Refusal} (h : r.register p = .error reason)
    (ps : List Proposal) : r.enrol (p :: ps) = ⟨r, [], some reason⟩ := by
  rw [enrol, h]

theorem enrol_of_registered {r' : Registry} {made : Registration}
    (h : r.register p = .ok (r', made)) (ps : List Proposal) :
    r.enrol (p :: ps) =
      ⟨(r'.enrol ps).registry, made :: (r'.enrol ps).made, (r'.enrol ps).refusal⟩ := by
  rw [enrol, h]

/-! ## Series of proposals -/

theorem registry_enrol_of_frozen (hfrozen : r.frozen = true) (ps : List Proposal) :
    (r.enrol ps).registry = r := by
  cases ps with
  | nil => rfl
  | cons p ps =>
    obtain ⟨reason, hreason⟩ := exists_register_of_frozen hfrozen p
    rw [enrol_of_refused hreason]

/-- An open registry takes proposals that pass their checks and can be written. -/
theorem refusal_enrol_of_open (hopen : r.frozen = false) (h : ∀ p ∈ ps, ∃ d, p.checked = .ok d) :
    (r.enrol ps).refusal = none := by
  induction ps generalizing r with
  | nil => rfl
  | cons p ps ih =>
    obtain ⟨d, hd⟩ := h p List.mem_cons_self
    rw [enrol_of_registered (register_of_open hopen hd)]
    have hinsert : (r.insert d).frozen = false := hopen
    exact ih hinsert fun q hq => h q (List.mem_cons_of_mem p hq)

/-- A name that no proposal is about keeps its meaning. -/
theorem lookup_enrol_of_ne {name : String}
    (h : ∀ p ∈ ps, ∀ d, p.checked = .ok d → d.name ≠ name) :
    (r.enrol ps).registry.lookup name = r.lookup name := by
  induction ps generalizing r with
  | nil => rfl
  | cons p ps ih =>
    cases hregister : r.register p with
    | error e => rw [enrol_of_refused hregister]
    | ok result =>
      obtain ⟨hchecked, -, hinsert, -⟩ := register_eq_ok_iff.mp hregister
      have hne := h p List.mem_cons_self _ hchecked
      rw [enrol_of_registered hregister]
      dsimp only
      rw [ih fun q hq => h q (List.mem_cons_of_mem p hq), hinsert, lookup_insert, if_neg hne]

/-- A name that one proposal is about has the meaning that was proposed. -/
theorem lookup_enrol_of_mem (hopen : r.frozen = false) (hps : ∀ p ∈ ps, ∃ d, p.checked = .ok d)
    (hapart : ps.Pairwise Proposal.Apart) {d : Definition} (hp : p ∈ ps) (hd : p.checked = .ok d) :
    (r.enrol ps).registry.lookup d.name = some d := by
  induction ps generalizing r with
  | nil => cases hp
  | cons q ps ih =>
    obtain ⟨e, he⟩ := hps q List.mem_cons_self
    obtain ⟨hfirst, hrest⟩ := List.pairwise_cons.mp hapart
    rw [enrol_of_registered (register_of_open hopen he)]
    dsimp only
    rcases List.mem_cons.mp hp with rfl | hlater
    · have hne : ∀ q ∈ ps, ∀ e, q.checked = .ok e → e.name ≠ d.name :=
        fun q hq e he heq => hfirst q hq d e hd he heq.symm
      rw [lookup_enrol_of_ne hne, lookup_insert]
      rw [hd] at he
      cases he
      exact if_pos rfl
    · have hinsert : (r.insert e).frozen = false := hopen
      exact ih hinsert (fun q hq => hps q (List.mem_cons_of_mem _ hq)) hrest hlater

/-- The order in which definitions of different names are registered does not matter to
what they mean. -/
theorem lookup_enrol_perm {qs : List Proposal} (hperm : ps.Perm qs)
    (hps : ∀ p ∈ ps, ∃ d, p.checked = .ok d) (hapart : ps.Pairwise Proposal.Apart) (r : Registry)
    (name : String) : (r.enrol ps).registry.lookup name = (r.enrol qs).registry.lookup name := by
  have hqs : ∀ q ∈ qs, ∃ d, q.checked = .ok d := fun q hq => hps q (hperm.mem_iff.mpr hq)
  have hapart' : qs.Pairwise Proposal.Apart := (hperm.pairwise_iff Proposal.Apart.symm).mp hapart
  cases hfrozen : r.frozen with
  | true => rw [registry_enrol_of_frozen hfrozen, registry_enrol_of_frozen hfrozen]
  | false =>
    by_cases hname : ∃ p ∈ ps, ∃ d, p.checked = .ok d ∧ d.name = name
    · obtain ⟨p, hp, d, hd, rfl⟩ := hname
      rw [lookup_enrol_of_mem hfrozen hps hapart hp hd,
        lookup_enrol_of_mem hfrozen hqs hapart' (hperm.mem_iff.mp hp) hd]
    · have hne : ∀ p ∈ ps, ∀ d, p.checked = .ok d → d.name ≠ name :=
        fun p hp d hd heq => hname ⟨p, hp, d, hd, heq⟩
      rw [lookup_enrol_of_ne hne, lookup_enrol_of_ne fun q hq => hne q (hperm.mem_iff.mpr hq)]

end Reckoner.Registry
