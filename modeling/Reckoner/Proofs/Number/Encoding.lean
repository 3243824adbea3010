import Mathlib
import Reckoner.Number.Rank

set_option autoImplicit false

/-!
# Doubles and their encodings

A sign and a rank up to that of infinity are those of exactly one double, which is the
one encoded with them.

The round trip of an encoding, `pack_unpack`, is a lemma that only the library as a whole
brings in, so the whole of it is imported here and nowhere else.
-/

namespace Reckoner.Number

open Float.Model

/-- An encoding that is not one of NaN is the encoding of its double. -/
theorem toBits_ofBits {b : UInt64} (h : b.toNat % rankLimit ≤ infiniteRank) :
    (Float.ofBits b).toBits = b := by
  have hnumber : @UnpackedFloat.isNaNBits .binary64 b.toBitVec = false := by
    rw [UnpackedFloat.isNaNBits, decide_eq_false_iff_not, UnpackedFloat.unpackExponent_def,
      UnpackedFloat.unpackMantissa_def]
    rintro ⟨hexponent, hmantissa⟩
    -- the exponent has all its bits set, and then no bit of the significand may be
    have hlast : b.toNat >>> 52 % 2 ^ 11 = 2 ^ 11 - 1 := congrArg BitVec.toNat hexponent
    have hzero : b.toNat >>> 0 % 2 ^ 52 = 0 := by
      rw [Nat.shiftRight_eq_div_pow] at hlast ⊢
      simp only [rankLimit, infiniteRank] at h
      omega
    exact hmantissa (BitVec.eq_of_toNat_eq hzero)
  have hpack := @UnpackedFloat.pack_unpack .binary64 b.toBitVec
  rw [hnumber] at hpack
  exact congrArg UInt64.ofBitVec hpack

variable {r : Nat}

theorem toNat_toBits_ofRank (negative : Bool) (h : r ≤ infiniteRank) :
    (ofRank negative r).toBits.toNat = if negative then rankLimit + r else r := by
  have hsmall : (if negative then rankLimit + r else r) < 2 ^ 64 := by
    simp only [rankLimit, infiniteRank] at h ⊢
    split <;> omega
  have hencoding : (UInt64.ofNat (if negative then rankLimit + r else r)).toNat =
      if negative then rankLimit + r else r := UInt64.toNat_ofNat_of_lt' hsmall
  rw [ofRank, toBits_ofBits, hencoding]
  rw [hencoding]
  simp only [rankLimit, infiniteRank] at h ⊢
  split <;> omega

theorem rank_ofRank (negative : Bool) (h : r ≤ infiniteRank) : rank (ofRank negative r) = r := by
  rw [rank, toNat_toBits_ofRank negative h]
  simp only [rankLimit, infiniteRank] at h ⊢
  split <;> omega

theorem isNegative_ofRank (negative : Bool) (h : r ≤ infiniteRank) :
    isNegative (ofRank negative r) = negative := by
  rw [isNegative, toNat_toBits_ofRank negative h]
  simp only [rankLimit, infiniteRank] at h ⊢
  cases negative with
  | false => exact decide_eq_false (by simp; omega)
  | true => exact decide_eq_true (by simp)

/-- A double is the one with its sign and its rank. -/
theorem ofRank_rank (x : Float) : ofRank (isNegative x) (rank x) = x := by
  have hlt : x.toBits.toNat < 2 ^ 64 := x.toBits.toNat_lt
  have hencoding : (if isNegative x then rankLimit + rank x else rank x) = x.toBits.toNat := by
    rw [isNegative, rank, rankLimit]
    by_cases hnegative : 0x8000000000000000 ≤ x.toBits.toNat
    · rw [decide_eq_true hnegative, if_pos rfl]
      omega
    · rw [decide_eq_false hnegative, if_neg Bool.false_ne_true]
      omega
  rw [ofRank, hencoding, UInt64.ofNat_toNat, Float.ofBits_toBits]

end Reckoner.Number
