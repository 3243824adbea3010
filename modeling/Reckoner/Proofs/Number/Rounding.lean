import Mathlib.Algebra.Group.Nat.Defs
import Reckoner.Number.Places

set_option autoImplicit false

/-!
# Rounding below a bound

A rank stands for a significand and a shift, and its units grow with the rank.  The
double nearest to a ratio is no greater than any double that the ratio does not
exceed.  So a finite double can be rounded to decimal places without leaving the
finite doubles: the greatest of them is a whole number, and so it is a multiple of
the last decimal place.
-/

namespace Reckoner.Number

/-! ## Ranks -/

/-- A rank as a shift and a significand, which give the units of its double as well. -/
structure Decomposition (rank shift significand : Nat) : Prop where
  rank_eq : rank = shift * binade + significand
  units_eq : units rank = significand * 2 ^ shift
  lt : significand < 2 * binade
  /-- the significand fills a binade unless the shift is zero -/
  normal : shift = 0 ∨ binade ≤ significand

theorem exists_decomposition (rank : Nat) : ∃ s m, Decomposition rank s m := by
  have hmod : rank % binade < binade := Nat.mod_lt _ (by decide)
  by_cases hsmall : rank < binade
  · refine ⟨0, rank, ⟨?_, ?_, by omega, .inl rfl⟩⟩
    · rw [Nat.zero_mul, Nat.zero_add]
    · rw [units_of_lt hsmall, Nat.pow_zero, Nat.mul_one]
  · have hpos : 0 < rank / binade := Nat.div_pos (Nat.not_lt.mp hsmall) (by decide)
    refine ⟨rank / binade - 1, binade + rank % binade, ⟨?_, ?_, by omega, .inr ?_⟩⟩
    · calc rank = binade * (rank / binade) + rank % binade := (Nat.div_add_mod rank binade).symm
        _ = binade * (rank / binade - 1 + 1) + rank % binade := by rw [Nat.sub_add_cancel hpos]
        _ = (rank / binade - 1) * binade + (binade + rank % binade) := by
          rw [Nat.mul_succ, Nat.mul_comm, Nat.add_assoc]
    · rw [units, if_neg hsmall, Nat.pow_eq]
    · exact Nat.le_add_right _ _

namespace Decomposition

variable {r s m : Nat}

theorem units_lt (h : Decomposition r s m) : units r < 2 * binade * 2 ^ s := by
  rw [h.units_eq]
  exact Nat.mul_lt_mul_of_pos_right h.lt (Nat.two_pow_pos s)

/-- A rank with a greater shift is past all those with a smaller one. -/
theorem le_of_shift_lt {k : Nat} (h : Decomposition r s m) (hk : k < s) :
    2 * binade * 2 ^ k ≤ units r ∧ k * binade + 2 * binade ≤ r := by
  have hm : binade ≤ m := h.normal.resolve_left (by omega)
  constructor
  · calc 2 * binade * 2 ^ k = binade * 2 ^ (k + 1) := by rw [Nat.pow_succ]; ac_rfl
      _ ≤ binade * 2 ^ s := Nat.mul_le_mul_left binade (Nat.pow_le_pow_right (by decide) hk)
      _ ≤ m * 2 ^ s := Nat.mul_le_mul_right _ hm
      _ = units r := h.units_eq.symm
  · have hshift : (k + 1) * binade ≤ s * binade := Nat.mul_le_mul_right binade hk
    rw [Nat.succ_mul] at hshift
    have hrank := h.rank_eq
    omega

end Decomposition

/-- Units grow with the rank. -/
theorem units_le_units {r q : Nat} (h : r ≤ q) : units r ≤ units q := by
  obtain ⟨s, m, hr⟩ := exists_decomposition r
  obtain ⟨t, n, hq⟩ := exists_decomposition q
  have hr_eq := hr.rank_eq
  have hq_eq := hq.rank_eq
  rcases Nat.lt_trichotomy s t with hlt | rfl | hgt
  · exact Nat.le_trans (Nat.le_of_lt hr.units_lt) (hq.le_of_shift_lt hlt).1
  · rw [hr.units_eq, hq.units_eq]
    exact Nat.mul_le_mul_right _ (by omega)
  · have hpast := (hr.le_of_shift_lt hgt).2
    have hlt := hq.lt
    omega

/-- From `2 ^ 53` on the doubles are whole numbers. -/
theorem unitsPerOne_dvd_units {r : Nat} (h : 1075 * binade ≤ r) : unitsPerOne ∣ units r := by
  have hnormal : ¬ r < binade := by
    have hpos : 0 < binade := by decide
    omega
  have hshift : 1075 ≤ r / binade := (Nat.le_div_iff_mul_le (by decide)).mpr h
  have hone {e : Nat} (he : 1074 ≤ e) : unitsPerOne ∣ Nat.pow 2 e := by
    unfold unitsPerOne
    generalize 1074 = k at he
    exact Nat.pow_dvd_pow 2 he
  rw [units, if_neg hnormal]
  exact Nat.dvd_mul_left_of_dvd (hone (by omega)) _

/-! ## The nearest double -/

/-- A quotient that does not exceed a whole number is not rounded past it. -/
theorem roundHalfEven_le {n d m : Nat} (h : n ≤ m * d) : roundHalfEven n d ≤ m := by
  rcases Nat.eq_zero_or_pos d with rfl | hd
  · rw [Nat.mul_zero, Nat.le_zero] at h
    simp [roundHalfEven, h]
  · have hquotient : n / d ≤ m := Nat.div_le_of_le_mul (by rwa [Nat.mul_comm])
    have hup : 0 < n % d → n / d + 1 ≤ m := by
      intro hpos
      have hsplit := Nat.div_add_mod n d
      refine Nat.lt_of_mul_lt_mul_right (a := d) ?_
      rw [Nat.mul_comm (n / d)]
      omega
    unfold roundHalfEven
    dsimp only
    split
    · exact hquotient
    · next hhalf =>
      have hrounded : n / d + 1 ≤ m := hup (by omega)
      split
      · exact hrounded
      · split
        · exact hquotient
        · exact hrounded

/-- The shift that a number of units needs. -/
theorem log2_sub_le_iff {q k : Nat} : Nat.log2 q - 52 ≤ k ↔ q < 2 * binade * 2 ^ k := by
  have hbinades : 2 * binade * 2 ^ k = 2 ^ (k + 53) := by
    rw [Nat.pow_add, Nat.mul_comm]
    rfl
  rw [hbinades]
  rcases Nat.eq_zero_or_pos q with rfl | hpos
  · exact iff_of_true (Nat.zero_le k) (Nat.two_pow_pos _)
  · rw [← Nat.log2_lt (Nat.ne_of_gt hpos)]
    omega

/-- The double nearest to a ratio is no greater than one that the ratio does not
exceed. -/
theorem nearestRank_le {n d r : Nat} (hd : 0 < d) (h : n * unitsPerOne ≤ units r * d) :
    nearestRank n d ≤ r := by
  obtain ⟨s, m, hr⟩ := exists_decomposition r
  have hrank := hr.rank_eq
  unfold nearestRank
  dsimp only
  generalize n * unitsPerOne = scaled at h ⊢
  have hquotient : scaled / d ≤ units r := Nat.div_le_of_le_mul (by rwa [Nat.mul_comm])
  have hshift : Nat.log2 (scaled / d) - 52 ≤ s :=
    log2_sub_le_iff.mpr (Nat.lt_of_le_of_lt hquotient hr.units_lt)
  have hbelow := log2_sub_le_iff.mp (Nat.le_refl (Nat.log2 (scaled / d) - 52))
  generalize Nat.log2 (scaled / d) - 52 = shift at hshift hbelow ⊢
  rw [Nat.pow_eq]
  rcases Nat.eq_or_lt_of_le hshift with rfl | hlt
  · have hsignificand : roundHalfEven scaled (d * 2 ^ shift) ≤ m := by
      refine roundHalfEven_le ?_
      rw [hr.units_eq] at h
      calc scaled ≤ m * 2 ^ shift * d := h
        _ = m * (d * 2 ^ shift) := by ac_rfl
    omega
  · -- the significand is at most two binades, and the rank is past those
    have hsignificand : roundHalfEven scaled (d * 2 ^ shift) ≤ 2 * binade := by
      refine roundHalfEven_le ?_
      calc scaled ≤ 2 * binade * 2 ^ shift * d :=
          Nat.le_of_lt ((Nat.div_lt_iff_lt_mul hd).mp hbelow)
        _ = 2 * binade * (d * 2 ^ shift) := by ac_rfl
    have hpast := (hr.le_of_shift_lt hlt).2
    omega

/-! ## Rounding to decimal places -/

/-- A finite double does not exceed a whole number that is a double. -/
theorem exists_bound {x : Float} (h : isFinite x = true) :
    ∃ bound, units (rank x) ≤ bound * unitsPerOne ∧
      bound * unitsPerOne = units (infiniteRank - 1) := by
  obtain ⟨bound, hbound⟩ := unitsPerOne_dvd_units (r := infiniteRank - 1) (by decide)
  have hrank : rank x < infiniteRank := of_decide_eq_true h
  refine ⟨bound, ?_, ?_⟩
  · rw [Nat.mul_comm, ← hbound]
    exact units_le_units (by omega)
  · rw [hbound, Nat.mul_comm]

/-- The multiple of a fraction of one that is nearest to a finite double is nearest to a
finite double. -/
theorem nearestRank_roundHalfEven_lt {x : Float} (h : isFinite x = true) {finer : Nat}
    (hfiner : 0 < finer) :
    nearestRank (roundHalfEven (units (rank x) * finer) unitsPerOne) finer < infiniteRank := by
  obtain ⟨bound, hle, hbound⟩ := exists_bound h
  have hmultiple : roundHalfEven (units (rank x) * finer) unitsPerOne ≤ bound * finer := by
    refine roundHalfEven_le ?_
    calc units (rank x) * finer ≤ bound * unitsPerOne * finer := Nat.mul_le_mul_right finer hle
      _ = bound * finer * unitsPerOne := Nat.mul_right_comm bound unitsPerOne finer
  have hnearest : nearestRank (roundHalfEven (units (rank x) * finer) unitsPerOne) finer ≤
      infiniteRank - 1 := by
    refine nearestRank_le hfiner ?_
    calc roundHalfEven (units (rank x) * finer) unitsPerOne * unitsPerOne ≤
          bound * finer * unitsPerOne := Nat.mul_le_mul_right unitsPerOne hmultiple
      _ = bound * unitsPerOne * finer := Nat.mul_right_comm bound finer unitsPerOne
      _ = units (infiniteRank - 1) * finer := by rw [hbound]
  exact Nat.lt_of_le_of_lt hnearest (by decide)

/-- What has no decimal places, or none that would be rounded, stays as it is. -/
theorem roundTo_same {places : Nat} {x : Float}
    (h : ¬ (isFinite x = true ∧ (places : Int) ≤ mostPlaces)) : roundTo? places x = some x := by
  refine if_pos ?_
  rw [Bool.or_eq_true, decide_eq_true_iff]
  cases hx : isFinite x with
  | false => exact .inl rfl
  | true => exact .inr (Int.not_le.mp fun hle => h ⟨hx, hle⟩)

/-- A finite double is rounded to places after the point by rounding its multiple. -/
theorem roundTo_of_isFinite {places : Nat} {x : Float} (hfinite : isFinite x = true)
    (hmost : (places : Int) ≤ mostPlaces) :
    roundTo? places x = ofRatio? (isNegative x)
      (roundHalfEven (units (rank x) * 10 ^ places) unitsPerOne) (10 ^ places) := by
  have hsome : ¬ (!isFinite x || decide (mostPlaces < (places : Int))) = true := by
    rw [hfinite, decide_eq_false (Int.not_lt.mpr hmost)]
    exact Bool.false_ne_true
  have hleast : ¬ (places : Int) < leastPlaces := by
    simp only [leastPlaces]
    omega
  have hcoarser : Nat.pow 10 (-(places : Int)).toNat = 1 := by
    rw [Int.toNat_of_nonpos (by omega)]
  unfold roundTo?
  rw [if_neg hsome, if_neg hleast]
  dsimp only
  rw [hcoarser, Nat.mul_one, Nat.mul_one, Int.toNat_natCast, Nat.pow_eq]

/-- Rounding to decimal places after the point never leaves the doubles. -/
theorem exists_roundTo (places : Nat) (x : Float) : ∃ y, roundTo? places x = some y := by
  by_cases h : isFinite x = true ∧ (places : Int) ≤ mostPlaces
  · rw [roundTo_of_isFinite h.1 h.2]
    exact ⟨_, if_pos (nearestRank_roundHalfEven_lt h.1 (Nat.pow_pos (by decide)))⟩
  · exact ⟨x, roundTo_same h⟩

end Reckoner.Number
