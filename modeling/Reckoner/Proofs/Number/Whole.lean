import Reckoner.Number.Places
import Reckoner.Proofs.Number.Encoding
import Reckoner.Proofs.Number.Nearest

set_option autoImplicit false

/-!
# Whole doubles

A ratio that is the value of a double is nearest to that double.  So a double without a
fractional part is not changed by rounding to decimal places, and it is the double
nearest to its whole part; only the sign of a zero is lost on the way through an
integer.
-/

namespace Reckoner.Number

variable {n d r : Nat} {x : Float}

/-! ## Values of doubles -/

/-- The value of a double is nearest to that double. -/
theorem nearestRank_of_eq (hd : 0 < d) (h : n * unitsPerOne = units r * d) :
    nearestRank n d = r := by
  refine ((isNearest_iff hd).mp ?_).symm
  intro s hs
  have hapart : units s * d ≠ units r * d := by
    intro hsame
    rcases Nat.lt_or_gt_of_ne hs with hbelow | habove
    · exact Nat.ne_of_lt (Nat.mul_lt_mul_of_pos_right (units_lt_units hbelow) hd) hsame
    · exact Nat.ne_of_gt (Nat.mul_lt_mul_of_pos_right (units_lt_units habove) hd) hsame
  unfold distance
  dsimp only
  rw [h]
  omega

/-- A whole quotient is not changed by rounding. -/
theorem roundHalfEven_mul (m : Nat) (hd : 0 < d) : roundHalfEven (m * d) d = m := by
  unfold roundHalfEven
  dsimp only
  rw [Nat.mul_mod_left, Nat.mul_div_cancel m hd, if_pos (by omega)]

/-! ## Whole parts -/

theorem unitsPerOne_pos : 0 < unitsPerOne := by decide +kernel

theorem rank_lt_of_isWhole (h : isWhole x = true) : rank x < infiniteRank :=
  of_decide_eq_true (Bool.and_eq_true_iff.mp h).1

theorem natAbs_wholePart (x : Float) : (wholePart x).natAbs = units (rank x) / unitsPerOne := by
  unfold wholePart
  dsimp only
  split
  · rw [Int.natAbs_neg]
    exact Int.natAbs_natCast _
  · exact Int.natAbs_natCast _

/-- A whole double is its whole part. -/
theorem units_of_isWhole (h : isWhole x = true) :
    units (rank x) = (wholePart x).natAbs * unitsPerOne := by
  have hdvd : unitsPerOne ∣ units (rank x) :=
    Nat.dvd_of_mod_eq_zero (beq_iff_eq.mp (Bool.and_eq_true_iff.mp h).2)
  rw [natAbs_wholePart, Nat.div_mul_cancel hdvd]

/-- A double is whole with a whole part if it is finite, is that far from zero, and has
its sign. -/
theorem isWhole_and_wholePart {k : Int} (hfinite : rank x < infiniteRank)
    (hunits : units (rank x) = k.natAbs * unitsPerOne) (hsign : isNegative x = decide (k < 0)) :
    isWhole x = true ∧ wholePart x = k := by
  refine ⟨Bool.and_eq_true_iff.mpr ⟨decide_eq_true hfinite, beq_iff_eq.mpr ?_⟩, ?_⟩
  · rw [hunits, Nat.mul_mod_left]
  · unfold wholePart
    dsimp only
    rw [hunits, hsign, ← Int.natCast_ediv, Nat.mul_div_cancel _ unitsPerOne_pos]
    by_cases hnegative : k < 0
    · rw [decide_eq_true hnegative, if_pos rfl]
      omega
    · rw [decide_eq_false hnegative, if_neg Bool.false_ne_true]
      omega

/-! ## Rounding -/

/-- A whole double is not changed by rounding to decimal places after the point. -/
theorem roundTo_of_isWhole (places : Nat) (h : isWhole x = true) :
    roundTo? places x = some x := by
  by_cases hmost : isFinite x = true ∧ (places : Int) ≤ mostPlaces
  · have hfiner : 0 < 10 ^ places := Nat.pow_pos (by decide)
    have hmultiple : roundHalfEven (units (rank x) * 10 ^ places) unitsPerOne =
        (wholePart x).natAbs * 10 ^ places := by
      rw [units_of_isWhole h, Nat.mul_right_comm]
      exact roundHalfEven_mul _ unitsPerOne_pos
    have hnearest : nearestRank ((wholePart x).natAbs * 10 ^ places) (10 ^ places) = rank x := by
      refine nearestRank_of_eq hfiner ?_
      rw [units_of_isWhole h, Nat.mul_right_comm]
    rw [roundTo_of_isFinite hmost.1 hmost.2, hmultiple, ofRatio?, hnearest]
    exact (if_pos (rank_lt_of_isWhole h)).trans (congrArg some (ofRank_rank x))
  · exact roundTo_same hmost

/-- A whole double is shown by its whole part. -/
theorem rounded_of_isWhole (places : Nat) (h : isWhole x = true) :
    rounded? places x = some (.whole (wholePart x)) := by
  rw [rounded?, roundTo_of_isWhole places h, Option.map_some, Rounded.ofFloat, if_pos h]

/-- What is shown as an integer is the whole part of a whole double. -/
theorem exists_of_rounded_whole {places : Int} {k : Int} (h : rounded? places x = some (.whole k)) :
    ∃ y, roundTo? places x = some y ∧ isWhole y = true ∧ wholePart y = k := by
  obtain ⟨y, hround, hshown⟩ := Option.map_eq_some_iff.mp h
  unfold Rounded.ofFloat at hshown
  split at hshown
  · next hwhole =>
    cases hshown
    exact ⟨y, hround, hwhole, rfl⟩
  · cases hshown

/-! ## Through an integer -/

theorem ne_nan_of_rank_lt (h : rank x < infiniteRank) : x ≠ Float.nan := by
  rintro rfl
  exact absurd h (by decide +kernel)

/-- Two finite doubles with the same rank are equal as numbers, if their signs are the
same or they are zero. -/
theorem beq_of_rank_eq {y : Float} (hfinite : rank x < infiniteRank) (hrank : rank x = rank y)
    (hsign : isNegative x = isNegative y ∨ rank x = 0) : (x == y) = true := by
  refine Float.beq_iff_ne_nan_and_eq.mpr
    ⟨ne_nan_of_rank_lt hfinite, ne_nan_of_rank_lt (hrank ▸ hfinite), ?_⟩
  have hx := ofRank_rank x
  have hy := ofRank_rank y
  rw [← hrank] at hy
  rcases hsign with hsame | hzero
  · rw [← hsame] at hy
    exact .inl (hx.symm.trans hy)
  · rw [hzero] at hx hy
    have hplus : ofRank false 0 = 0 := by decide +kernel
    have hminus : ofRank true 0 = -0 := by decide +kernel
    generalize isNegative x = p at hx
    generalize isNegative y = q at hy
    cases p <;> cases q <;> simp_all

/-- A whole double other than zero has the sign of its whole part. -/
theorem sign_wholePart (h : isWhole x = true) (hpos : 0 < rank x) :
    decide (wholePart x < 0) = isNegative x := by
  have hunits : 0 < units (rank x) := units_lt_units hpos
  have hlarge : 0 < units (rank x) / unitsPerOne := by
    rw [units_of_isWhole h] at hunits ⊢
    rw [Nat.mul_div_cancel _ unitsPerOne_pos]
    exact Nat.pos_of_mul_pos_right hunits
  unfold wholePart
  dsimp only
  rw [← Int.natCast_ediv]
  generalize units (rank x) / unitsPerOne = k at hlarge
  cases isNegative x with
  | false => exact decide_eq_false (by simp)
  | true => exact decide_eq_true (by simpa using hlarge)

/-- A whole double is, up to the sign of a zero, the double nearest to its whole part. -/
theorem exists_ofInt_wholePart (h : isWhole x = true) :
    ∃ w, ofInt? (wholePart x) = some w ∧ (w == x) = true ∧ isWhole w = true ∧
      wholePart w = wholePart x := by
  have hfinite := rank_lt_of_isWhole h
  have hunits := units_of_isWhole h
  have hnearest : nearestRank (wholePart x).natAbs 1 = rank x :=
    nearestRank_of_eq Nat.one_pos (by rw [hunits, Nat.mul_one])
  obtain ⟨w, hw⟩ : ∃ w, ofRank (decide (wholePart x < 0)) (rank x) = w := ⟨_, rfl⟩
  have hrank : rank w = rank x := by rw [← hw, rank_ofRank _ (Nat.le_of_lt hfinite)]
  have hsign : isNegative w = decide (wholePart x < 0) := by
    rw [← hw, isNegative_ofRank _ (Nat.le_of_lt hfinite)]
  refine ⟨w, ?_, ?_, isWhole_and_wholePart (hrank ▸ hfinite) (by rw [hrank, hunits]) hsign⟩
  · rw [ofInt?, ofRatio?, hnearest, ← hw]
    exact if_pos hfinite
  · refine beq_of_rank_eq (hrank ▸ hfinite) hrank ?_
    rcases Nat.eq_zero_or_pos (rank x) with hzero | hpos
    · exact .inr (hrank.trans hzero)
    · exact .inl (hsign.trans (sign_wholePart h hpos))

end Reckoner.Number
