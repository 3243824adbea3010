import Reckoner.Proofs.Number.Rounding

set_option autoImplicit false

/-!
# The nearest double

A ratio lies between two neighbouring doubles, whose ranks follow each other; every
other double is further away than one of these two.  `nearestRank` finds the lower one
by its shift and significand, and takes it or its neighbour as the significand is
rounded.  So its answer is nearest, and nothing else is.
-/

namespace Reckoner.Number

variable {n d r s m : Nat}

/-! ## Neighbours -/

/-- The units of a rank that is given by a shift and a significand, which may be the one
that ends the binade. -/
theorem units_shifted (hm : m ≤ 2 * binade) (hnormal : s = 0 ∨ binade ≤ m) :
    units (s * binade + m) = m * 2 ^ s := by
  have hpos : 0 < binade := by decide
  have hrank : s * binade + m < binade → s = 0 := by
    intro hlt
    rcases Nat.eq_zero_or_pos s with hzero | hs
    · exact hzero
    · have := Nat.le_mul_of_pos_left binade hs
      omega
  by_cases hsmall : s * binade + m < binade
  · obtain rfl := hrank hsmall
    rw [units_of_lt hsmall, Nat.zero_mul, Nat.zero_add, Nat.pow_zero, Nat.mul_one]
  · have hbinade : binade ≤ m := by
      rcases hnormal with rfl | h
      · omega
      · exact h
    rw [units, if_neg hsmall, Nat.pow_eq]
    obtain ⟨k, rfl⟩ := Nat.exists_eq_add_of_le hbinade
    rcases Nat.lt_or_ge k binade with hk | hk
    · have hsplit : s * binade + (binade + k) = k + binade * (s + 1) := by
        rw [Nat.mul_succ, Nat.mul_comm s]
        omega
      rw [hsplit, Nat.add_mul_mod_self_left, Nat.add_mul_div_left _ _ hpos, Nat.mod_eq_of_lt hk,
        Nat.div_eq_of_lt hk, Nat.zero_add, Nat.add_sub_cancel]
    · obtain rfl : k = binade := by omega
      have hsplit : s * binade + (binade + binade) = binade * (s + 2) := by
        rw [Nat.mul_add, Nat.mul_comm s]
        omega
      rw [hsplit, Nat.mul_mod_right, Nat.mul_div_cancel_left _ hpos, Nat.add_zero]
      have hexponent : s + 2 - 1 = s + 1 := rfl
      rw [hexponent, Nat.pow_succ, ← Nat.mul_two, Nat.mul_assoc, Nat.mul_comm 2]

/-- Units grow strictly with the rank. -/
theorem units_lt_units {q : Nat} (h : r < q) : units r < units q := by
  obtain ⟨s, m, hr⟩ := exists_decomposition r
  obtain ⟨t, k, hq⟩ := exists_decomposition q
  have hr_eq := hr.rank_eq
  have hq_eq := hq.rank_eq
  rcases Nat.lt_trichotomy s t with hlt | rfl | hgt
  · exact Nat.lt_of_lt_of_le hr.units_lt (hq.le_of_shift_lt hlt).1
  · rw [hr.units_eq, hq.units_eq]
    exact Nat.mul_lt_mul_of_pos_right (by omega) (Nat.two_pow_pos s)
  · have hpast := (hr.le_of_shift_lt hgt).2
    have hlt := hq.lt
    omega

/-- A ratio between a double and its neighbour: the lower one is nearest if it is nearer,
or as near and even. -/
theorem isNearest_lower (hle : units r * d ≤ n * unitsPerOne)
    (hlt : n * unitsPerOne < units (r + 1) * d)
    (h : n * unitsPerOne - units r * d < units (r + 1) * d - n * unitsPerOne ∨
      n * unitsPerOne - units r * d = units (r + 1) * d - n * unitsPerOne ∧ r % 2 = 0) :
    IsNearest n d r := by
  intro s hs
  have hd : 0 < d := Nat.pos_of_mul_pos_left (Nat.zero_lt_of_lt hlt)
  unfold distance
  dsimp only
  generalize n * unitsPerOne = scaled at *
  rcases Nat.lt_or_gt_of_ne hs with hbelow | habove
  · have hfar := Nat.mul_lt_mul_of_pos_right (units_lt_units hbelow) hd
    omega
  · have hfar := Nat.mul_le_mul_right d (units_le_units (Nat.succ_le_of_lt habove))
    rw [Nat.succ_eq_add_one] at hfar
    omega

/-- And the upper one is nearest if it is nearer, or as near and even. -/
theorem isNearest_upper (hle : units r * d ≤ n * unitsPerOne)
    (hlt : n * unitsPerOne < units (r + 1) * d)
    (h : units (r + 1) * d - n * unitsPerOne < n * unitsPerOne - units r * d ∨
      units (r + 1) * d - n * unitsPerOne = n * unitsPerOne - units r * d ∧ (r + 1) % 2 = 0) :
    IsNearest n d (r + 1) := by
  intro s hs
  have hd : 0 < d := Nat.pos_of_mul_pos_left (Nat.zero_lt_of_lt hlt)
  unfold distance
  dsimp only
  generalize n * unitsPerOne = scaled at *
  rcases Nat.lt_or_gt_of_ne hs with hbelow | habove
  · have hfar := Nat.mul_le_mul_right d (units_le_units (Nat.le_of_lt_succ hbelow))
    omega
  · have hfar := Nat.mul_lt_mul_of_pos_right (units_lt_units habove) hd
    omega

/-! ## The nearest rank -/

/-- The significand that a number of units has at its own shift fills a binade, unless
the shift is zero. -/
theorem significand_bounds (hd : 0 < d) {scaled shift : Nat}
    (hshift : Nat.log2 (scaled / d) - 52 = shift) :
    scaled / (d * 2 ^ shift) < 2 * binade ∧
      (shift = 0 ∨ binade ≤ scaled / (d * 2 ^ shift)) := by
  have hpos : 0 < d * 2 ^ shift := Nat.mul_pos hd (Nat.two_pow_pos shift)
  constructor
  · have hbelow := log2_sub_le_iff.mp (Nat.le_of_eq hshift)
    rw [Nat.div_lt_iff_lt_mul hpos]
    calc scaled < 2 * binade * 2 ^ shift * d := (Nat.div_lt_iff_lt_mul hd).mp hbelow
      _ = 2 * binade * (d * 2 ^ shift) := by ac_rfl
  · rcases Nat.eq_zero_or_pos shift with hzero | hshifted
    · exact .inl hzero
    · obtain ⟨k, rfl⟩ := Nat.exists_eq_add_of_lt hshifted
      rw [Nat.zero_add] at hshift hpos ⊢
      -- one shift less would leave the number of units too large
      have hmore : ¬ scaled / d < 2 * binade * 2 ^ k := by
        rw [← log2_sub_le_iff, hshift]
        omega
      refine .inr ((Nat.le_div_iff_mul_le hpos).mpr ?_)
      calc binade * (d * 2 ^ (k + 1)) = 2 * binade * 2 ^ k * d := by rw [Nat.pow_succ]; ac_rfl
        _ ≤ scaled := (Nat.le_div_iff_mul_le hd).mp (Nat.not_lt.mp hmore)

/-- No double is nearer to a ratio than the one that `nearestRank` finds, and of two that
are as near it is the even one. -/
theorem isNearest_nearestRank (n : Nat) (hd : 0 < d) : IsNearest n d (nearestRank n d) := by
  obtain ⟨shift, hshift⟩ : ∃ shift, Nat.log2 (n * unitsPerOne / d) - 52 = shift := ⟨_, rfl⟩
  obtain ⟨hlt, hnormal⟩ := significand_bounds hd hshift
  have hrank : nearestRank n d =
      shift * binade + roundHalfEven (n * unitsPerOne) (d * 2 ^ shift) := by
    rw [nearestRank, hshift, Nat.pow_eq]
  have hsplit := Nat.div_add_mod (n * unitsPerOne) (d * 2 ^ shift)
  have hmod := Nat.mod_lt (n * unitsPerOne) (Nat.mul_pos hd (Nat.two_pow_pos shift))
  rw [hrank]
  unfold roundHalfEven
  dsimp only
  generalize n * unitsPerOne / (d * 2 ^ shift) = lower at *
  generalize n * unitsPerOne % (d * 2 ^ shift) = remainder at *
  -- the ratio lies between the doubles of this significand and of the next one
  have hlower : units (shift * binade + lower) * d = d * 2 ^ shift * lower := by
    rw [units_shifted (Nat.le_of_lt hlt) hnormal]
    ac_rfl
  have hupper : units (shift * binade + lower + 1) * d = d * 2 ^ shift * lower + d * 2 ^ shift := by
    rw [Nat.add_assoc, units_shifted hlt (hnormal.imp_right (Nat.le_succ_of_le)), Nat.mul_assoc,
      Nat.succ_mul, Nat.mul_comm (2 ^ shift), Nat.mul_comm lower]
  have heven : (shift * binade + lower) % 2 = lower % 2 := by
    have hbinade : binade = 2 * 0x8000000000000 := rfl
    rw [hbinade, Nat.mul_left_comm, Nat.mul_add_mod]
  have hle : units (shift * binade + lower) * d ≤ n * unitsPerOne := by omega
  have habove : n * unitsPerOne < units (shift * binade + lower + 1) * d := by omega
  split
  · exact isNearest_lower hle habove (by omega)
  · split
    · rw [← Nat.add_assoc]
      exact isNearest_upper hle habove (by omega)
    · split
      · exact isNearest_lower hle habove (by omega)
      · rw [← Nat.add_assoc]
        exact isNearest_upper hle habove (by omega)

/-- Only one rank is nearest: of two that are equally near and even there is one between. -/
theorem IsNearest.not_lt (hd : 0 < d) (hr : IsNearest n d r) (hs : IsNearest n d s) : ¬ r < s := by
  intro hlt
  have hfirst := hr s (Nat.ne_of_gt hlt)
  have hsecond := hs r (Nat.ne_of_lt hlt)
  have hbetween := hr (r + 1) (Nat.succ_ne_self r)
  have hbelow := Nat.mul_lt_mul_of_pos_right (units_lt_units (Nat.lt_succ_self r)) hd
  rw [Nat.succ_eq_add_one] at hbelow
  unfold distance at hfirst hsecond hbetween
  dsimp only at hfirst hsecond hbetween
  generalize n * unitsPerOne = scaled at *
  rcases Nat.eq_or_lt_of_le (Nat.succ_le_of_lt hlt) with rfl | hapart
  · omega
  · have habove := Nat.mul_lt_mul_of_pos_right (units_lt_units hapart) hd
    rw [Nat.succ_eq_add_one] at habove
    omega

/-- The nearest rank is the one that `nearestRank` finds. -/
theorem isNearest_iff (hd : 0 < d) : IsNearest n d r ↔ r = nearestRank n d := by
  constructor
  · intro hr
    have hfound := isNearest_nearestRank n hd
    exact Nat.le_antisymm (Nat.not_lt.mp (hfound.not_lt hd hr)) (Nat.not_lt.mp (hr.not_lt hd hfound))
  · rintro rfl
    exact isNearest_nearestRank n hd

end Reckoner.Number
