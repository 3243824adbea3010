import Reckoner.Display
import Reckoner.Proofs.Interpretation.Outcome
import Reckoner.Proofs.Number.Whole

set_option autoImplicit false

/-!
# Printed integers read back

An integer is written as a numeral without a point, and the numeral is read as the double
nearest to the integer.  An answer that is displayed as an integer is whole once it is
rounded, so the double that its numeral is read as is the rounded answer itself, but for
the sign of a zero, and it is displayed by the same numeral.
-/

namespace Reckoner

/-! ## Numerals of integers -/

namespace Numeral

/-- The numeral that an integer is written as. -/
def ofInt (k : Int) : Numeral :=
  ⟨if k < 0 then some .minus else none, Number.natDigits k.natAbs, none⟩

variable {k : Int}

theorem chars_ofInt (k : Int) : (ofInt k).chars = Number.intChars k := by
  unfold chars ofInt
  cases k with
  | ofNat m =>
    have hnonneg : ¬ Int.ofNat m < 0 := Int.not_lt.mpr (Int.natCast_nonneg m)
    rw [if_neg hnonneg]
    exact List.append_nil _
  | negSucc m =>
    rw [if_pos (Int.negSucc_lt_zero m)]
    exact List.append_nil _

theorem wellFormed_ofInt (k : Int) : (ofInt k).WellFormed := by
  refine ⟨⟨List.ne_nil_of_length_pos Nat.length_toDigits_pos, ?_⟩, ?_⟩
  · exact fun c hc => Nat.isDigit_of_mem_toDigits (by decide) (by decide) hc
  · rintro digits ⟨⟩

theorem isNegative_ofInt (k : Int) : (ofInt k).isNegative = decide (k < 0) := by
  by_cases hnegative : k < 0 <;> simp [isNegative, ofInt, hnegative]

/-- The numeral of an integer is nearest to what the integer is nearest to. -/
theorem rank_ofInt (k : Int) : (ofInt k).rank = Number.nearestRank k.natAbs 1 := by
  have hnumerator : (ofInt k).numerator = k.natAbs := by
    rw [numerator, ofInt, Option.getD_none, List.append_nil]
    exact Nat.ofDigitChars_ten_toDigits
  rw [rank, hnumerator]
  rfl

/-- The numeral of an integer denotes the double nearest to the integer. -/
theorem value_ofInt {x : Float} (h : Number.ofInt? k = some x) :
    (ofInt k).isReadable = true ∧ (ofInt k).value = x := by
  rw [isReadable, value, rank_ofInt, isNegative_ofInt]
  unfold Number.ofInt? Number.ofRatio? at h
  dsimp only at h
  split at h
  · next hfinite => exact ⟨decide_eq_true hfinite, Option.some.inj h⟩
  · cases h

end Numeral

/-- A written integer is a single number. -/
theorem Token.tokenize_intText {k : Int} {x : Float} (h : Number.ofInt? k = some x) :
    Token.tokenize (Number.intText k) = .ok [⟨.number x, 0⟩] := by
  obtain ⟨hreadable, hvalue⟩ := Numeral.value_ofInt h
  have hdivides : Layout.Divides ⟨[⟨[], .numeral (Numeral.ofInt k)⟩], []⟩ (Number.intText k) := by
    refine ⟨⟨?_, ?_, ?_, trivial⟩, ?_⟩
    · exact List.forall_mem_singleton.mpr ⟨Numeral.wellFormed_ofInt k, hreadable⟩
    · exact List.forall_mem_singleton.mpr fun c hc => nomatch hc
    · exact fun c hc => nomatch hc
    · rw [Number.intText, String.toList_ofList, ← Numeral.chars_ofInt]
      simp [Layout.chars, Layout.pieceChars, Spelling.chars]
  rw [hdivides.tokenize_eq, ← hvalue]
  rfl

/-- A text that is a single number has its value, whatever is defined. -/
theorem Registry.answer_of_number {source : String} {x : Float} {index : Int}
    (h : Token.tokenize source = .ok [⟨.number x, index⟩]) (r : Registry) :
    r.answer source = .ok (.value x) :=
  answer_of_evaluate h (Postfix.ofTokens_eq_ok_iff.mpr rfl)

theorem Answer.display_of_rounded {x : Float} {k : Int}
    (h : Number.rounded? Number.displayPlaces x = some (.whole k)) (source : String) :
    (Answer.value x).display source = .ok (Number.intText k ++ " = " ++ source) := by
  rw [display, h]
  rfl

/-- An answer that is displayed as an integer is displayed by a numeral that is a single
number of the grammar.  Under every registry that numeral has a value, which is the
rounded answer as a number, and which is displayed by the same numeral. -/
theorem Answer.displayed_integer_reads_back {x : Float} {k : Int}
    (h : Number.rounded? Number.displayPlaces x = some (.whole k)) :
    ∃ y w, Number.roundTo? Number.displayPlaces x = some y ∧
      (∀ source, (Answer.value x).display source =
        .ok (Number.intText k ++ " = " ++ source)) ∧
      Token.tokenize (Number.intText k) = .ok [⟨.number w, 0⟩] ∧
      (∀ r : Registry, r.answer (Number.intText k) = .ok (.value w)) ∧
      (w == y) = true ∧ Number.isWhole w = true ∧ Number.wholePart w = k ∧
      ∀ source, (Answer.value w).display source =
        .ok (Number.intText k ++ " = " ++ source) := by
  obtain ⟨y, hround, hwhole, rfl⟩ := Number.exists_of_rounded_whole h
  obtain ⟨w, hnearest, hsame, hwholeAgain, hpart⟩ := Number.exists_ofInt_wholePart hwhole
  have htokens := Token.tokenize_intText hnearest
  have hagain : Number.rounded? Number.displayPlaces w = some (.whole (Number.wholePart y)) := by
    rw [← hpart]
    exact Number.rounded_of_isWhole 10 hwholeAgain
  exact ⟨y, w, hround, display_of_rounded h, htokens, Registry.answer_of_number htokens, hsame,
    hwholeAgain, hpart, display_of_rounded hagain⟩

/-- The least finite double is displayed by a minus and 309 digits, and the greatest
negative one by a zero, which is rounded from a zero with the other sign. -/
theorem Answer.displayed_integer_reads_back_extremes :
    (Number.intChars (-(2 ^ 53 - 1) * 2 ^ 971)).length = 310 ∧
    Number.rounded? Number.displayPlaces (Number.ofRank true (Number.infiniteRank - 1)) =
      some (.whole (-(2 ^ 53 - 1) * 2 ^ 971)) ∧
    (∃ w, ∀ r : Registry,
      r.answer (Number.intText (-(2 ^ 53 - 1) * 2 ^ 971)) = .ok (.value w)) ∧
    Number.rounded? Number.displayPlaces (Number.ofRank true 1) = some (.whole 0) ∧
    ∃ w, (∀ r : Registry, r.answer (Number.intText 0) = .ok (.value w)) ∧
      Number.roundTo? Number.displayPlaces (Number.ofRank true 1) = some (-0) ∧
      (w == (-0 : Float)) = true := by
  have hleast : Number.rounded? Number.displayPlaces
      (Number.ofRank true (Number.infiniteRank - 1)) =
        some (.whole (-(2 ^ 53 - 1) * 2 ^ 971)) := by decide +kernel
  have hzero : Number.rounded? Number.displayPlaces (Number.ofRank true 1) = some (.whole 0) := by
    decide +kernel
  have hround : Number.roundTo? Number.displayPlaces (Number.ofRank true 1) = some (-0) := by
    decide +kernel
  obtain ⟨_, w, _, _, _, hvalue, _⟩ := displayed_integer_reads_back hleast
  obtain ⟨y, v, hy, _, _, hreadBack, hsame, _⟩ := displayed_integer_reads_back hzero
  rw [hround] at hy
  cases hy
  exact ⟨by decide +kernel, hleast, ⟨w, hvalue⟩, hzero, v, hreadBack, hround, hsame⟩

end Reckoner
