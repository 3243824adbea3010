import Reckoner.Failure
import Reckoner.Proofs.Number.Encoding
import Reckoner.Proofs.Number.Nearest
import Reckoner.Proofs.Token.Reading

set_option autoImplicit false

/-!
# Numerals and the doubles that they denote

A numeral is read exactly if it stands at the front of the input, can be made no longer,
and denotes a double: the one nearest to the decimal that is written, with the sign that
is written.  Otherwise the input starts with no digit, or breaks off after a point, or
starts with a numeral that is nearest to infinity.
-/

namespace Reckoner

/-- The same error in an input that starts further on. -/
def LexError.moved (distance : Nat) : LexError → LexError
  | .unexpectedCharacter c index => .unexpectedCharacter c (index + distance)
  | .noDigit index => .noDigit (index + distance)
  | e => e

namespace Numeral

variable {n : Numeral} {index : Nat} {cs rest : List Char} {e : LexError}

/-- The double that a numeral denotes: none is nearer to the decimal that is written, it
is finite, and it has the sign that is written. -/
structure Denotes (n : Numeral) (x : Float) : Prop where
  nearest : Number.IsNearest n.numerator n.denominator (Number.rank x)
  finite : Number.rank x < Number.infiniteRank
  sign : Number.isNegative x = n.isNegative

/-- A numeral that is nearest to infinity, or to what would lie beyond it. -/
def RoundsToInfinity (n : Numeral) : Prop :=
  ∃ r, Number.IsNearest n.numerator n.denominator r ∧ Number.infiniteRank ≤ r

/-- Why an input that starts like a numeral starts with none that can be read. -/
inductive Broken (cs : List Char) : LexError → Prop
  /-- a sign perhaps, all digits that come, and a point with no digit after it -/
  | noFraction {sign : Option Sign} {whole after : List Char} :
      cs = Sign.chars sign ++ whole ++ '.' :: after →
      whole ≠ [] → (∀ c ∈ whole, c.isDigit = true) → Ends Char.isDigit after →
      Broken cs (.noFraction (Sign.chars sign ++ whole ++ ['.']))
  /-- a numeral with all digits that come, which is too large -/
  | tooLarge {n : Numeral} {after : List Char} :
      cs = n.chars ++ after → n.WellFormed → n.EndsBefore after → n.RoundsToInfinity →
      Broken cs (.tooLarge n.chars)

/-! ## Values -/

theorem denominator_pos (n : Numeral) : 0 < n.denominator := Nat.pow_pos (by decide)

/-- A numeral that is not too large denotes its value, and no other double. -/
theorem denotes_iff {x : Float} : n.Denotes x ↔ n.isReadable = true ∧ x = n.value := by
  have hnearest : ∀ r, Number.IsNearest n.numerator n.denominator r ↔ r = n.rank :=
    fun _ => Number.isNearest_iff n.denominator_pos
  constructor
  · intro h
    have hrank : Number.rank x = n.rank := (hnearest _).mp h.nearest
    refine ⟨decide_eq_true (hrank ▸ h.finite), ?_⟩
    rw [value, ← h.sign, ← hrank, Number.ofRank_rank]
  · rintro ⟨hreadable, rfl⟩
    have hfinite : n.rank < Number.infiniteRank := of_decide_eq_true hreadable
    have hrank : Number.rank n.value = n.rank := Number.rank_ofRank _ (Nat.le_of_lt hfinite)
    exact ⟨(hnearest _).mpr hrank, hrank ▸ hfinite,
      Number.isNegative_ofRank _ (Nat.le_of_lt hfinite)⟩

theorem roundsToInfinity_iff : n.RoundsToInfinity ↔ n.isReadable = false := by
  rw [isReadable, decide_eq_false_iff_not, Nat.not_lt]
  constructor
  · rintro ⟨r, hnearest, hle⟩
    rwa [(Number.isNearest_iff n.denominator_pos).mp hnearest] at hle
  · exact fun hle => ⟨n.rank, Number.isNearest_nearestRank _ n.denominator_pos, hle⟩

/-! ## Reading -/

/-- What is read is what stands at the front, as long as it can be and not too large. -/
theorem read_eq_ok_iff :
    read index cs = .ok (n, rest) ↔
      cs = n.chars ++ rest ∧ n.WellFormed ∧ n.EndsBefore rest ∧ n.isReadable = true := by
  constructor
  · intro h
    obtain ⟨hwf, hreadable, hends⟩ := wellFormed_of_read h
    exact ⟨(chars_append_of_read h).symm, hwf, hends, hreadable⟩
  · rintro ⟨rfl, hwf, hends, hreadable⟩
    exact read_chars hwf hreadable hends index

theorem map_checked_eq_error {n : Numeral} (h : (n.checked.map fun m => (m, rest)) = .error e) :
    e = .tooLarge n.chars ∧ n.isReadable = false := by
  unfold checked at h
  split at h
  · cases h
  · next hreadable =>
    cases h
    exact ⟨rfl, by simpa using hreadable⟩

theorem broken_of_readFraction {sign : Option Sign} {whole : List Char} (hne : whole ≠ [])
    (hwhole : ∀ c ∈ whole, c.isDigit = true) (hends : Ends Char.isDigit cs)
    (h : readFraction sign whole cs = .error e) : Broken (Sign.chars sign ++ whole ++ cs) e := by
  unfold readFraction at h
  split at h
  · next hpoint =>
    obtain ⟨after, rfl⟩ := List.head?_eq_some_iff.mp hpoint
    dsimp only [List.tail_cons] at h
    split at h
    · next hempty =>
      cases h
      have hafter : Ends Char.isDigit after := ends_of_takeWhile (by simpa using hempty)
      exact .noFraction rfl hne hwhole hafter
    · next hempty =>
      obtain ⟨rfl, hlarge⟩ := map_checked_eq_error h
      have hwf : WellFormed ⟨sign, whole, some (after.takeWhile Char.isDigit)⟩ := by
        refine ⟨⟨hne, hwhole⟩, ?_⟩
        rintro _ ⟨⟩
        exact ⟨by simpa using hempty, all_takeWhile Char.isDigit after⟩
      have hends : EndsBefore ⟨sign, whole, some (after.takeWhile Char.isDigit)⟩
          (after.dropWhile Char.isDigit) :=
        ⟨ends_dropWhile Char.isDigit after, fun hnone => absurd hnone (Option.some_ne_none _)⟩
      refine .tooLarge ?_ hwf hends (roundsToInfinity_iff.mpr hlarge)
      simp [chars, fractionChars, List.takeWhile_append_dropWhile]
  · next hpoint =>
    obtain ⟨rfl, hlarge⟩ := map_checked_eq_error h
    have hwf : WellFormed ⟨sign, whole, none⟩ := by
      refine ⟨⟨hne, hwhole⟩, ?_⟩
      rintro _ ⟨⟩
    refine .tooLarge ?_ hwf ⟨hends, fun _ => hpoint⟩ (roundsToInfinity_iff.mpr hlarge)
    simp [chars, fractionChars]

/-- An input that no numeral is read from starts with no digit after its sign, or starts
with a broken one. -/
theorem noDigit_or_broken_of_read (h : read index cs = .error e) :
    ((Sign.split cs).2.takeWhile Char.isDigit = [] ∧
      e = .noDigit (index + (Sign.chars (Sign.split cs).1).length)) ∨ Broken cs e := by
  have hsign := Sign.chars_split cs
  unfold read at h
  generalize Sign.split cs = parts at h hsign ⊢
  obtain ⟨sign, unsigned⟩ := parts
  dsimp only at h hsign ⊢
  split at h
  · next hempty =>
    cases h
    exact .inl ⟨by simpa using hempty, rfl⟩
  · next hempty =>
    have hbroken := broken_of_readFraction (by simpa using hempty)
      (all_takeWhile Char.isDigit unsigned) (ends_dropWhile _ _) h
    rw [List.append_assoc, List.takeWhile_append_dropWhile, hsign] at hbroken
    exact .inr hbroken

theorem Broken.category (h : Broken cs e) : e.category = .malformedNumber := by
  cases h <;> rfl

theorem Broken.moved (h : Broken cs e) (distance : Nat) : e.moved distance = e := by
  cases h <;> rfl

/-- The place of the input matters only to the place that is reported. -/
theorem read_moved (index : Nat) (cs : List Char) :
    read index cs = (read 0 cs).mapError (LexError.moved index) := by
  have hsign := Sign.chars_split cs
  unfold read
  generalize Sign.split cs = parts at hsign ⊢
  obtain ⟨sign, unsigned⟩ := parts
  dsimp only at hsign ⊢
  split
  · rw [Nat.zero_add, Nat.add_comm]
    rfl
  · next hempty =>
    cases hread : readFraction sign (unsigned.takeWhile Char.isDigit)
        (unsigned.dropWhile Char.isDigit) with
    | ok p => rfl
    | error e =>
      have hbroken := broken_of_readFraction (by simpa using hempty)
        (all_takeWhile Char.isDigit unsigned) (ends_dropWhile _ _) hread
      exact congrArg Except.error (hbroken.moved index).symm

end Numeral

/-! ## Numerals at a place of a text -/

namespace Token

variable {source : String} {index stop : Nat} {t : Token}

/-- The token and the place that come with a numeral. -/
theorem numeralAt_eq_ok_iff :
    numeralAt source index = .ok (t, stop) ↔
      ∃ (n : Numeral) (rest : List Char) (x : Float), source.toList.drop index = n.chars ++ rest ∧ n.WellFormed ∧
        n.EndsBefore rest ∧ n.Denotes x ∧ t = ⟨.number x, index⟩ ∧
        stop = index + n.chars.length := by
  constructor
  · intro h
    cases hread : Numeral.read index (source.toList.drop index) with
    | error e => rw [numeralAt, hread] at h; cases h
    | ok p =>
      obtain ⟨n, rest⟩ := p
      obtain ⟨hchars, hwf, hends, hreadable⟩ := Numeral.read_eq_ok_iff.mp hread
      rw [numeralAt, hread] at h
      cases h
      exact ⟨n, rest, n.value, hchars, hwf, hends, Numeral.denotes_iff.mpr ⟨hreadable, rfl⟩,
        rfl, rfl⟩
  · rintro ⟨n, rest, x, hchars, hwf, hends, hdenotes, rfl, rfl⟩
    obtain ⟨hreadable, rfl⟩ := Numeral.denotes_iff.mp hdenotes
    rw [numeralAt, Numeral.read_eq_ok_iff.mpr ⟨hchars, hwf, hends, hreadable⟩]
    rfl

theorem read_of_numeralAt {e : LexError} (h : numeralAt source index = .error e) :
    Numeral.read index (source.toList.drop index) = .error e := by
  cases hread : Numeral.read index (source.toList.drop index) with
  | error e' => rw [numeralAt, hread] at h; exact congrArg Except.error (Except.error.inj h)
  | ok p => rw [numeralAt, hread] at h; cases h

/-- Right after a numeral stands no digit. -/
theorem isDigit_of_numeralAt (h : numeralAt source index = .ok (t, stop)) :
    index < stop ∧ ∀ c, source.toList[stop]? = some c → c.isDigit = false := by
  obtain ⟨n, rest, x, hchars, hwf, hends, -, -, rfl⟩ := numeralAt_eq_ok_iff.mp h
  have hne : n.chars ≠ [] := by simp [Numeral.chars, hwf.1.1]
  have hpos := List.length_pos_iff.mpr hne
  refine ⟨by omega, fun c hc => ?_⟩
  rw [← List.getElem?_drop, hchars, List.getElem?_append_right (Nat.le_refl _), Nat.sub_self,
    ← List.head?_eq_getElem?] at hc
  exact hends.1 c hc

/-- What is read at a place is what is read of the text from there on, moved to there. -/
theorem numeralAt_moved (source : String) (index : Nat) :
    numeralAt source index =
      match numeralAt (String.ofList (source.toList.drop index)) 0 with
      | .ok (t, stop) => .ok (⟨t.lexeme, t.index + index⟩, stop + index)
      | .error e => .error (e.moved index) := by
  rw [numeralAt, numeralAt, Numeral.read_moved, String.toList_ofList, List.drop_zero]
  cases Numeral.read 0 (source.toList.drop index) with
  | error e => rfl
  | ok p =>
    obtain ⟨n, rest⟩ := p
    simp [Except.map, Except.mapError, Nat.add_comm]

/-- A numeral is found at a place of a text, which may be past the end, exactly if an
optional sign, as many digits as come and perhaps a point and as many digits as come stand
there, a point not being left over, and they denote a double.  It comes with that double,
its place and the place right after it, where no digit stands; otherwise there is an error
of malformed numbers.  The text before the place takes no part in it. -/
theorem numeralAt_exact (source : String) (index : Nat) :
    (∀ t stop, numeralAt source index = .ok (t, stop) ↔
      ∃ (n : Numeral) (rest : List Char) (x : Float), source.toList.drop index = n.chars ++ rest ∧ n.WellFormed ∧
        n.EndsBefore rest ∧ n.Denotes x ∧ t = ⟨.number x, index⟩ ∧
        stop = index + n.chars.length) ∧
    (∀ t stop, numeralAt source index = .ok (t, stop) →
      index < stop ∧ ∀ c, source.toList[stop]? = some c → c.isDigit = false) ∧
    (∀ e, numeralAt source index = .error e → e.category = .malformedNumber) ∧
    numeralAt source index =
      match numeralAt (String.ofList (source.toList.drop index)) 0 with
      | .ok (t, stop) => .ok (⟨t.lexeme, t.index + index⟩, stop + index)
      | .error e => .error (e.moved index) := by
  refine ⟨fun t stop => numeralAt_eq_ok_iff, fun t stop => isDigit_of_numeralAt, fun e h => ?_,
    numeralAt_moved source index⟩
  rcases Numeral.noDigit_or_broken_of_read (read_of_numeralAt h) with ⟨-, rfl⟩ | hbroken
  · rfl
  · exact hbroken.category

/-- One half with a minus is read from the middle of a text, and `12.` is not read at all. -/
theorem numeralAt_exact_half :
    (∃ x, numeralAt "2-0.5y" 1 = .ok (⟨.number x, 1⟩, 5) ∧ Number.isNegative x = true ∧
      Number.rank x = 0x3fe0000000000000) ∧
    ∃ e, numeralAt "12." 0 = .error e ∧ e.category = .malformedNumber := by
  let half : Numeral := ⟨some .minus, ['0'], some ['5']⟩
  have hrank : half.rank = 0x3fe0000000000000 := by decide +kernel
  have hfinite : half.rank < Number.infiniteRank := by rw [hrank]; decide
  have hdenotes : half.Denotes half.value := Numeral.denotes_iff.mpr ⟨decide_eq_true hfinite, rfl⟩
  have hends : half.EndsBefore ['y'] := ⟨ends_cons.mpr rfl, fun hnone => nomatch hnone⟩
  refine ⟨⟨half.value, ?_, hdenotes.sign, ?_⟩, _, rfl, (numeralAt_exact "12." 0).2.2.1 _ rfl⟩
  · exact ((numeralAt_exact "2-0.5y" 1).1 _ _).mpr
      ⟨half, ['y'], half.value, rfl, by decide, hends, hdenotes, rfl, rfl⟩
  · rw [← hrank]
    exact Number.rank_ofRank _ (Nat.le_of_lt hfinite)

end Token

end Reckoner
