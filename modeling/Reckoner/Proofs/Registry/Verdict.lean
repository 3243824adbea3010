import Reckoner.Proofs.Registry.Kinds
import Reckoner.Registry.Objection

set_option autoImplicit false

/-!
# Verdicts on proposals

The checks that a proposal goes through raise the first objection to it, whatever else
could be held against it, and then nothing has happened.  A proposal that nothing can be
held against is registered, and one line tells so, unless it cannot be written: then nothing
has happened either.
-/

namespace Reckoner

/-! ## Texts -/

/-- There is only one first character. -/
theorem FirstOutside.unique {admits : Char → Bool} {s : String} {c d : Char}
    (hc : FirstOutside admits s c) (hd : FirstOutside admits s d) : c = d := by
  have hfind : ∀ {c}, FirstOutside admits s c → s.toList.find? (fun c => !admits c) = some c := by
    rintro c ⟨before, after, hs, hbefore, hc⟩
    exact List.find?_eq_some_iff_append.mpr
      ⟨by simp [hc], before, after, hs, fun b hb => by simp [hbefore b hb]⟩
  exact Option.some.inj ((hfind hc).symm.trans (hfind hd))

namespace Proposal

variable {symbol name : Value} {e : RegistrationError}

end Proposal

namespace Objection

variable {r : Registry} {p : Proposal} {symbol name precedence arity : Value} {s : String} {n : Int}
  {f : Callable} {callable : Option Callable} {turn : Nat} {kind kind' : RegistrationError.Kind}
  {e e' : RegistrationError}

/-- One objection at most has a turn. -/
theorem unique (h : Objection r p turn kind e) (h' : Objection r p turn kind' e') : e = e' := by
  cases h with
  | symbolCharacter hc => cases h' with | symbolCharacter hd => rw [hc.unique hd]
  | nameCharacter hc => cases h' with | nameCharacter hd => rw [hc.unique hd]
  | _ => cases h'; rfl

/-! ## Turns

Each check that is passed rules out one turn more. -/

end Objection

/-! ## The first objection -/

section First

variable {r : Registry} {p : Proposal} {kind kind' : RegistrationError.Kind}
  {e e' : RegistrationError}

theorem FirstObjection.unique (h : FirstObjection r p kind e) (h' : FirstObjection r p kind' e') :
    e = e' := by
  obtain ⟨turn, hraised, hfirst⟩ := h
  obtain ⟨turn', hraised', hfirst'⟩ := h'
  obtain rfl := Nat.le_antisymm (hfirst _ _ _ hraised') (hfirst' _ _ _ hraised)
  exact hraised.unique hraised'

end First

/-! ## Writing -/

namespace Registry

theorem Refuses.unique {r : Registry} {e : Enrolment} {reason reason' : Refusal}
    (h : r.Refuses reason e) (h' : e.refusal = some reason') : reason = reason' :=
  Option.some.inj (h.refused.symm.trans h')

end Registry

end Reckoner
