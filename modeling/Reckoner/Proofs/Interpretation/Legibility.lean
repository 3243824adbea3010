import Reckoner.Proofs.Interpretation.Invocations

set_option autoImplicit false

/-!
# Which exceptions go on

An exception that leaves a call has its text asked for, and what is raised by this takes its
place; so an exception may go on from an interpretation for want of a written form.  Where the
callbacks leave nothing unsaid, only calls that break off are left: everything else that the
host's code does is answered.
-/

namespace Reckoner

/-! ## Calls of legible callbacks -/

namespace Definition

variable {d : Definition} {operands : List Float} {e : Exception}

/-- If nothing is left unsaid, an exception leaves a call that breaks off, or one that reports
a failure. -/
theorem escapes_iff_of_isLegible (hd : d.callback.IsLegible) :
    d.Escapes operands e ↔ d.Reports operands e ∨ d.Breaks operands e := by
  constructor
  · intro h
    cases h with
    | raised hrun hblames =>
      cases hfailure : e.cls.isFailure with
      | true => exact .inl ⟨hrun, hfailure, hblames⟩
      | false => exact .inr (.raised hrun hfailure hblames)
    | unconvertible hrun hreading => exact .inr (.unconvertible hrun hreading)
    | unexplained hrun _ htext =>
      obtain ⟨text, hworded⟩ := hd.raised _ _ hrun
      cases htext.symm.trans hworded
    | unwritten hrun hreading hshown =>
      obtain ⟨form, hwritten⟩ := hd.returned _ _ hrun hreading
      cases hshown.symm.trans hwritten
  · rintro (⟨hrun, _, hblames⟩ | hbreaks)
    · exact .raised hrun hblames
    · cases hbreaks with
      | raised hrun _ hblames => exact .raised hrun hblames
      | unconvertible hrun hreading => exact .unconvertible hrun hreading

/-- A failure that is reported is answered with its text. -/
theorem Reports.answered (hd : d.callback.IsLegible) (h : d.Reports operands e) :
    e.told.answered = e.text := by
  obtain ⟨hrun, hfailure, -⟩ := h
  obtain ⟨text, htext⟩ := hd.raised _ _ hrun
  rw [Exception.told_of_text htext, Exception.answered, if_pos hfailure]

/-- An exception that breaks off a call has a text and is no failure. -/
theorem Breaks.isWorded (hd : d.callback.IsLegible) (h : d.Breaks operands e) :
    e.IsWorded ∧ e.cls.isFailure = false := by
  cases h with
  | raised hrun hfault _ => exact ⟨hd.raised _ _ hrun, hfault⟩
  | unconvertible hrun hreading => exact hd.converted _ _ _ hrun hreading

/-- So it goes on. -/
theorem Breaks.answered (hd : d.callback.IsLegible) (h : d.Breaks operands e) :
    e.told.answered = .error e := by
  obtain ⟨⟨text, htext⟩, hfault⟩ := h.isWorded hd
  rw [Exception.told_of_text htext, Exception.answered, if_neg (by simp [hfault])]

end Definition

/-! ## Interpretations -/

namespace Registry

variable {r : Registry} {source : String}

/-- If nothing is left unsaid, an exception that comes up has a text. -/
theorem IsLegible.isWorded (hr : r.IsLegible) {e : Exception} (h : r.Raises source e) :
    e.IsWorded := by
  obtain ⟨d, operands, hcalls, hescapes⟩ := h
  have hd := hr d hcalls.mem.1
  rcases (Definition.escapes_iff_of_isLegible hd).mp hescapes with ⟨hrun, -⟩ | hbreaks
  · exact hd.raised _ _ hrun
  · exact (hbreaks.isWorded hd).1

end Registry

end Reckoner
