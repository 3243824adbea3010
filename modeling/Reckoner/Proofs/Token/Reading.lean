import Reckoner.Token.Layout

set_option autoImplicit false

/-!
# Reading single spellings

A spelling is read off the front of an input exactly if it is well formed and
*ends before* what is left: the next character, if there is one, neither belongs
to the spelling nor cuts it elsewhere.
-/

namespace Reckoner

/-- The next character, if there is one, is outside a class. -/
def Ends (inside : Char → Bool) (rest : List Char) : Prop :=
  ∀ c ∈ rest.head?, inside c = false

theorem ends_cons {inside : Char → Bool} {c : Char} {cs : List Char} :
    Ends inside (c :: cs) ↔ inside c = false := by
  simp [Ends]

theorem takeWhile_of_ends {inside : Char → Bool} {cs rest : List Char}
    (hcs : ∀ c ∈ cs, inside c = true) (h : Ends inside rest) :
    (cs ++ rest).takeWhile inside = cs := by
  rw [List.takeWhile_append_of_pos hcs]
  cases rest with
  | nil => simp
  | cons c rest =>
    rw [List.takeWhile_cons_of_neg (by simp [ends_cons.mp h]), List.append_nil]

theorem dropWhile_of_ends {inside : Char → Bool} {cs rest : List Char}
    (hcs : ∀ c ∈ cs, inside c = true) (h : Ends inside rest) :
    (cs ++ rest).dropWhile inside = rest := by
  rw [List.dropWhile_append_of_pos hcs]
  cases rest with
  | nil => rfl
  | cons c rest => rw [List.dropWhile_cons_of_neg (by simp [ends_cons.mp h])]

theorem ends_dropWhile (inside : Char → Bool) (cs : List Char) :
    Ends inside (cs.dropWhile inside) := by
  intro c hc
  have hnot := List.head?_dropWhile_not inside cs
  rw [Option.mem_def.mp hc] at hnot
  exact hnot

theorem ends_of_takeWhile {inside : Char → Bool} {cs : List Char}
    (h : cs.takeWhile inside = []) : Ends inside cs := by
  have hdrop := List.takeWhile_append_dropWhile (p := inside) (l := cs)
  rw [h, List.nil_append] at hdrop
  exact hdrop ▸ ends_dropWhile inside cs

theorem all_takeWhile (inside : Char → Bool) (cs : List Char) :
    ∀ c ∈ cs.takeWhile inside, inside c = true := by
  intro c hc
  exact List.all_eq_true.mp (List.all_takeWhile) c hc

/-! ## Classes of characters are disjoint -/

theorem isOperatorChar_iff {c : Char} :
    isOperatorChar c = true ↔ c = '%' ∨ c = '*' ∨ c = '+' ∨ c = '-' ∨ c = '/' ∨ c = '^' := by
  simp [isOperatorChar, operatorChars]

theorem isSignChar_iff {c : Char} : Sign.isSignChar c = true ↔ c = '+' ∨ c = '-' := by
  unfold Sign.isSignChar Sign.ofChar?
  split
  · simp_all
  · split <;> simp_all

theorem isDigit_of_isOperatorChar {c : Char} (h : isOperatorChar c = true) :
    c.isDigit = false := by
  rcases isOperatorChar_iff.mp h with rfl | rfl | rfl | rfl | rfl | rfl <;> rfl

theorem isAlpha_of_isOperatorChar {c : Char} (h : isOperatorChar c = true) :
    c.isAlpha = false := by
  rcases isOperatorChar_iff.mp h with rfl | rfl | rfl | rfl | rfl | rfl <;> rfl

theorem isOperatorChar_of_isSignChar {c : Char} (h : Sign.isSignChar c = true) :
    isOperatorChar c = true := by
  rcases isSignChar_iff.mp h with rfl | rfl <;> rfl

theorem isAlpha_of_isDigit {c : Char} (h : c.isDigit = true) : c.isAlpha = false := by
  rw [← Bool.not_eq_true]
  intro hletter
  have hdigit : (decide (c.val ≥ '0'.val) && decide (c.val ≤ '9'.val)) = true := h
  have halpha : (decide (c.val ≥ 'A'.val ∧ c.val ≤ 'Z'.val) ||
      decide (c.val ≥ 'a'.val) && decide (c.val ≤ 'z'.val)) = true := hletter
  simp only [Bool.and_eq_true, Bool.or_eq_true, decide_eq_true_eq, ge_iff_le,
    UInt32.le_iff_toNat_le] at hdigit halpha
  have h9 : '9'.val.toNat = 57 := rfl
  have hA : 'A'.val.toNat = 65 := rfl
  have ha : 'a'.val.toNat = 97 := rfl
  omega

theorem isOperatorChar_of_isDigit {c : Char} (h : c.isDigit = true) :
    isOperatorChar c = false := by
  rw [← Bool.not_eq_true]
  intro hoperator
  rw [isDigit_of_isOperatorChar hoperator] at h
  cases h

theorem isOperatorChar_of_isAlpha {c : Char} (h : c.isAlpha = true) :
    isOperatorChar c = false := by
  rw [← Bool.not_eq_true]
  intro hoperator
  rw [isAlpha_of_isOperatorChar hoperator] at h
  cases h

theorem isDigit_of_isAlpha {c : Char} (h : c.isAlpha = true) : c.isDigit = false := by
  rw [← Bool.not_eq_true]
  intro hdigit
  rw [isAlpha_of_isDigit hdigit] at h
  cases h

theorem isSignChar_of_not_isOperatorChar {c : Char} (h : isOperatorChar c = false) :
    Sign.isSignChar c = false := by
  rw [← Bool.not_eq_true]
  intro hsign
  rw [isOperatorChar_of_isSignChar hsign] at h
  cases h

/-! ## Numerals -/

namespace Sign

theorem isSignChar_char (s : Sign) : isSignChar s.char = true := by cases s <;> rfl

theorem split_of_not_sign {cs : List Char} (h : Ends isSignChar cs) : split cs = (none, cs) := by
  cases cs with
  | nil => rfl
  | cons c cs =>
    have hnone : ofChar? c = none := by simpa [isSignChar] using ends_cons.mp h
    simp [split, hnone]

theorem split_chars (sign : Option Sign) {cs : List Char} (h : Ends isSignChar cs) :
    split (chars sign ++ cs) = (sign, cs) := by
  cases sign with
  | none => exact split_of_not_sign h
  | some s => simp [chars, split, ofChar?_char]

end Sign

namespace Numeral

/-- What may follow a numeral: no digit, and no point if it has none. -/
def EndsBefore (n : Numeral) (rest : List Char) : Prop :=
  Ends Char.isDigit rest ∧ (n.fraction = none → rest.head? ≠ some '.')

theorem readFraction_chars {n : Numeral} (hwf : n.WellFormed) (hreadable : n.isReadable = true)
    {rest : List Char} (hends : n.EndsBefore rest) :
    readFraction n.sign n.whole (fractionChars n.fraction ++ rest) = .ok (n, rest) := by
  obtain ⟨sign, whole, fraction⟩ := n
  obtain ⟨hdigit, hpoint⟩ := hends
  cases fraction with
  | none =>
    rw [readFraction, fractionChars, List.nil_append, if_neg (hpoint rfl),
      checked_of_isReadable hreadable]
    rfl
  | some digits =>
    obtain ⟨hne, hdigits⟩ := hwf.2 digits rfl
    have hempty : ¬ digits.isEmpty = true := by simpa using hne
    rw [readFraction, fractionChars, List.cons_append, if_pos List.head?_cons, List.tail_cons]
    dsimp only
    rw [takeWhile_of_ends hdigits hdigit, dropWhile_of_ends hdigits hdigit, if_neg hempty,
      checked_of_isReadable hreadable]
    rfl

/-- A numeral that is not too large is read off the front of an input. -/
theorem read_chars {n : Numeral} (hwf : n.WellFormed) (hreadable : n.isReadable = true)
    {rest : List Char} (hends : n.EndsBefore rest) (index : Nat) :
    read index (n.chars ++ rest) = .ok (n, rest) := by
  obtain ⟨hne, hwhole⟩ := hwf.1
  have hsign : Ends Sign.isSignChar (n.whole ++ (fractionChars n.fraction ++ rest)) := by
    obtain ⟨d, digits, hdigits⟩ := List.exists_cons_of_ne_nil hne
    rw [hdigits] at hwhole ⊢
    exact ends_cons.mpr (isSignChar_of_not_isOperatorChar
      (isOperatorChar_of_isDigit (hwhole d List.mem_cons_self)))
  have hafter : Ends Char.isDigit (fractionChars n.fraction ++ rest) := by
    cases hf : n.fraction with
    | none => exact hends.1
    | some digits => exact ends_cons.mpr rfl
  have hempty : ¬ n.whole.isEmpty = true := by simpa using hne
  rw [chars, List.append_assoc, List.append_assoc, read, Sign.split_chars n.sign hsign]
  dsimp only
  rw [takeWhile_of_ends hwhole hafter, dropWhile_of_ends hwhole hafter, if_neg hempty]
  exact readFraction_chars hwf hreadable hends

/-- What is read is a numeral that is not too large, and as long as it can be. -/
theorem wellFormed_of_read {index : Nat} {cs rest : List Char} {n : Numeral}
    (h : read index cs = .ok (n, rest)) :
    n.WellFormed ∧ n.isReadable = true ∧ n.EndsBefore rest := by
  unfold read at h
  generalize Sign.split cs = parts at h
  obtain ⟨sign, unsigned⟩ := parts
  dsimp only at h
  have hwhole := all_takeWhile Char.isDigit unsigned
  split at h
  · cases h
  · next hempty =>
    have hne : unsigned.takeWhile Char.isDigit ≠ [] := by simpa using hempty
    unfold readFraction at h
    split at h
    · dsimp only at h
      split at h
      · cases h
      · next hempty' =>
        obtain ⟨rfl, rfl, hreadable⟩ := map_checked_eq_ok h
        refine ⟨⟨⟨hne, hwhole⟩, fun digits hdigits => ?_⟩, hreadable,
          ends_dropWhile _ _, fun hnone => by cases hnone⟩
        cases hdigits
        exact ⟨by simpa using hempty', all_takeWhile Char.isDigit _⟩
    · next hpoint =>
      obtain ⟨rfl, rfl, hreadable⟩ := map_checked_eq_ok h
      exact ⟨⟨⟨hne, hwhole⟩, fun digits hdigits => by cases hdigits⟩, hreadable,
        ends_dropWhile _ _, fun _ => hpoint⟩

end Numeral

/-! ## Spellings -/

namespace Spelling

/-- What may follow a spelling at once. -/
def EndsBefore (rest : List Char) : Spelling → Prop
  | .numeral n => n.EndsBefore rest
  | .operator symbol =>
    Ends isOperatorChar rest ∧ (isSignSymbol symbol = true → Ends Char.isDigit rest)
  | .name _ => Ends Char.isAlpha rest
  | .openParen | .closeParen | .comma => True

theorem isSignSymbol_singleton (c : Char) : isSignSymbol [c] = Sign.isSignChar c := by
  rw [Bool.eq_iff_iff, isSignChar_iff]
  simp [isSignSymbol]

theorem tail_of_isSignSymbol {c : Char} {cs : List Char} (h : isSignSymbol (c :: cs) = true) :
    cs = [] := by
  simp only [isSignSymbol, Bool.or_eq_true, beq_iff_eq, List.cons.injEq] at h
  rcases h with ⟨_, hnil⟩ | ⟨_, hnil⟩
  · exact hnil
  · exact hnil

theorem startsNumeral_chars {n : Numeral} (hwf : n.WellFormed) {c : Char} {cs : List Char}
    (h : n.chars = c :: cs) (rest : List Char) : startsNumeral c (cs ++ rest) = true := by
  obtain ⟨sign, whole, fraction⟩ := n
  obtain ⟨hne, hwhole⟩ := hwf.1
  obtain ⟨d, digits, rfl⟩ := List.exists_cons_of_ne_nil hne
  have hd : d.isDigit = true := hwhole d List.mem_cons_self
  cases sign with
  | none =>
    cases h
    simp [startsNumeral, hd]
  | some s =>
    cases h
    simp [startsNumeral, Sign.isSignChar_char, hd]

theorem startsNumeral_operator {c : Char} {cs rest : List Char}
    (hsymbol : ∀ d ∈ c :: cs, isOperatorChar d = true)
    (hends : EndsBefore rest (.operator (c :: cs))) : startsNumeral c (cs ++ rest) = false := by
  have hdigit := isDigit_of_isOperatorChar (hsymbol c List.mem_cons_self)
  cases cs with
  | cons d cs =>
    have hnext := isDigit_of_isOperatorChar (hsymbol d (by simp))
    simp [startsNumeral, hdigit, hnext]
  | nil =>
    by_cases hsign : Sign.isSignChar c = true
    · have hnext : Ends Char.isDigit rest := hends.2 (by rw [isSignSymbol_singleton, hsign])
      cases rest with
      | nil => simp [startsNumeral, hdigit]
      | cons d rest => simp [startsNumeral, hdigit, ends_cons.mp hnext]
    · simp [startsNumeral, hdigit, hsign]

theorem startsNumeral_of_not_operator {c : Char} (hdigit : c.isDigit = false)
    (hoperator : isOperatorChar c = false) (rest : List Char) : startsNumeral c rest = false := by
  simp [startsNumeral, hdigit, isSignChar_of_not_isOperatorChar hoperator]

/-- A well-formed spelling that ends before what follows it is read off the front. -/
theorem read_chars {s : Spelling} (hwf : s.WellFormed) {c : Char} {cs rest : List Char}
    (hchars : s.chars = c :: cs) (hends : s.EndsBefore rest) (index : Nat) :
    read index c (cs ++ rest) = .ok (s, rest) := by
  cases s with
  | numeral n =>
    have happend : c :: (cs ++ rest) = n.chars ++ rest := by
      rw [← List.cons_append]; exact congrArg (· ++ rest) hchars.symm
    rw [read, if_pos (startsNumeral_chars hwf.1 hchars rest), happend,
      Numeral.read_chars hwf.1 hwf.2 hends]
    rfl
  | operator symbol =>
    obtain ⟨_, hsymbol⟩ := hwf
    cases hchars
    have hcs : ∀ d ∈ cs, isOperatorChar d = true := fun d hd => hsymbol d (by simp [hd])
    have hstart : ¬ startsNumeral c (cs ++ rest) = true := by
      simp [startsNumeral_operator hsymbol hends]
    rw [read, if_neg hstart, if_pos (hsymbol c List.mem_cons_self),
      takeWhile_of_ends hcs hends.1, dropWhile_of_ends hcs hends.1]
  | name letters =>
    obtain ⟨_, hletters⟩ := hwf
    cases hchars
    have hcs : ∀ d ∈ cs, d.isAlpha = true := fun d hd => hletters d (by simp [hd])
    have hc := hletters c List.mem_cons_self
    have hoperator := isOperatorChar_of_isAlpha hc
    have hstart := startsNumeral_of_not_operator (isDigit_of_isAlpha hc) hoperator (cs ++ rest)
    rw [read, if_neg (by simp [hstart]), if_neg (by simp [hoperator]), if_pos hc,
      takeWhile_of_ends hcs hends, dropWhile_of_ends hcs hends]
  | openParen =>
    cases hchars
    rw [read, if_neg (by simp [startsNumeral_of_not_operator (c := '(') rfl rfl]),
      if_neg (by decide), if_neg (by decide), if_pos rfl]
    rfl
  | closeParen =>
    cases hchars
    rw [read, if_neg (by simp [startsNumeral_of_not_operator (c := ')') rfl rfl]),
      if_neg (by decide), if_neg (by decide), if_neg (by decide), if_pos rfl]
    rfl
  | comma =>
    cases hchars
    rw [read, if_neg (by simp [startsNumeral_of_not_operator (c := ',') rfl rfl]),
      if_neg (by decide), if_neg (by decide), if_neg (by decide), if_neg (by decide), if_pos rfl]
    rfl

/-- What is read is well formed and ends before what is left. -/
theorem wellFormed_of_read {index : Nat} {c : Char} {cs rest : List Char} {s : Spelling}
    (h : read index c cs = .ok (s, rest)) : s.WellFormed ∧ s.EndsBefore rest := by
  unfold read at h
  split at h
  · cases hn : Numeral.read index (c :: cs) with
    | error e => rw [hn] at h; cases h
    | ok p =>
      rw [hn] at h
      cases h
      obtain ⟨hwf, hreadable, hends⟩ := Numeral.wellFormed_of_read hn
      exact ⟨⟨hwf, hreadable⟩, hends⟩
  · next hstart =>
    split at h
    · next hc =>
      cases h
      have hsymbol : ∀ d ∈ c :: cs.takeWhile isOperatorChar, isOperatorChar d = true := by
        intro d hd
        cases List.mem_cons.mp hd with
        | inl heq => rw [heq]; exact hc
        | inr hmem => exact all_takeWhile isOperatorChar cs d hmem
      refine ⟨⟨by simp, hsymbol⟩, ends_dropWhile _ _, fun hsign => ?_⟩
      -- a sign that is all of the symbol starts no numeral, so no digit comes next
      have htake : cs.takeWhile isOperatorChar = [] := tail_of_isSignSymbol hsign
      have hdrop : cs.dropWhile isOperatorChar = cs := by
        have happend := List.takeWhile_append_dropWhile (p := isOperatorChar) (l := cs)
        rwa [htake, List.nil_append] at happend
      rw [htake, isSignSymbol_singleton] at hsign
      rw [hdrop]
      intro d hd
      rw [Option.mem_def] at hd
      have hnot : c.isDigit = false ∧ d.isDigit = false := by
        simpa [startsNumeral, hsign, hd] using hstart
      exact hnot.2
    · split at h
      · next hc =>
        cases h
        refine ⟨⟨by simp, fun d hd => ?_⟩, ends_dropWhile _ _⟩
        cases List.mem_cons.mp hd with
        | inl heq => rw [heq]; exact hc
        | inr hmem => exact all_takeWhile Char.isAlpha cs d hmem
      · split at h
        · cases h; exact ⟨trivial, trivial⟩
        · split at h
          · cases h; exact ⟨trivial, trivial⟩
          · split at h
            · cases h; exact ⟨trivial, trivial⟩
            · cases h

end Spelling

end Reckoner
