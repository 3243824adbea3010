import Reckoner.Definition

set_option autoImplicit false

/-!
# Registries

A registry holds the definitions that expressions are evaluated with.  Operators
and functions share one space of names, and there is one entry to a name: `put`
replaces an entry where it stands.  A frozen registry takes no further
definitions and stays frozen.
-/

namespace Reckoner

/-- The definitions known so far, and whether more may come. -/
structure Registry where
  entries : List Definition
  frozen : Bool

namespace Registry

/-- No definitions, open for registration. -/
def empty : Registry := ⟨[], false⟩

instance : Inhabited Registry := ⟨empty⟩

/-- Puts a definition in place of the one with its name, or at the end. -/
def put (d : Definition) : List Definition → List Definition
  | [] => [d]
  | e :: es => if e.name = d.name then d :: es else e :: put d es

/-- The definition of a name. -/
def lookup (r : Registry) (name : String) : Option Definition :=
  r.entries.find? fun d => d.name == name

/-- Whether a name is defined. -/
def contains (r : Registry) (name : String) : Bool := (r.lookup name).isSome

/-- The number of names defined. -/
def size (r : Registry) : Nat := r.entries.length

/-- The names defined, ordered by code points. -/
def names (r : Registry) : List String :=
  (r.entries.map Definition.name).mergeSort fun a b => decide (a ≤ b)

/-- Ends registration. -/
def freeze (r : Registry) : Registry := { r with frozen := true }

/-- The registry with one more definition, whether it is frozen or not. -/
def insert (r : Registry) (d : Definition) : Registry := { r with entries := put d r.entries }

/-- A registry of callbacks that leave nothing unsaid. -/
def IsLegible (r : Registry) : Prop := ∀ d ∈ r.entries, d.callback.IsLegible

/-! ## Small laws -/

theorem find?_put (d : Definition) (name : String) (es : List Definition) :
    (put d es).find? (fun e => e.name == name) =
      if d.name = name then some d else es.find? (fun e => e.name == name) := by
  induction es with
  | nil => by_cases h : d.name = name <;> simp [put, h]
  | cons e es ih =>
    by_cases he : e.name = d.name
    · by_cases h : d.name = name <;> simp [put, he, h]
    · rw [put, if_neg he, List.find?_cons, List.find?_cons, ih]
      by_cases hn : e.name = name
      · have : d.name ≠ name := fun h => he (hn.trans h.symm)
        simp [hn, this]
      · have : (e.name == name) = false := by simpa using hn
        simp only [this]

/-- After an insertion the name inserted has its new meaning and every other name
the meaning it had. -/
theorem lookup_insert (r : Registry) (d : Definition) (name : String) :
    (r.insert d).lookup name = if d.name = name then some d else r.lookup name :=
  find?_put d name r.entries

@[simp] theorem lookup_freeze (r : Registry) (name : String) :
    r.freeze.lookup name = r.lookup name := rfl

@[simp] theorem lookup_empty (name : String) : empty.lookup name = none := rfl

theorem mem_of_lookup {r : Registry} {name : String} {d : Definition}
    (h : r.lookup name = some d) : d ∈ r.entries := List.mem_of_find?_eq_some h

/-- A definition that is put in comes to the others, if it replaces none of them. -/
theorem mem_put {d e : Definition} {es : List Definition} (h : d ∈ put e es) :
    d = e ∨ d ∈ es := by
  induction es with
  | nil => exact .inl (List.mem_singleton.mp h)
  | cons e' es ih =>
    unfold put at h
    split at h
    · rcases List.mem_cons.mp h with rfl | hold
      · exact .inl rfl
      · exact .inr (List.mem_cons_of_mem _ hold)
    · rcases List.mem_cons.mp h with rfl | hrest
      · exact .inr List.mem_cons_self
      · exact (ih hrest).imp_right (List.mem_cons_of_mem _)

theorem name_of_lookup {r : Registry} {name : String} {d : Definition}
    (h : r.lookup name = some d) : d.name = name := by
  simpa using List.find?_some h

end Registry

end Reckoner
