import Reckoner.Proofs.Token.LexicalGrammar
import Reckoner.Proofs.Token.Numerals

set_option autoImplicit false

/-!
# The first offence of a text

A text that cannot be cut into tokens offends at one place: what stands before that
place has tokens of its own, and at the place stands a character that starts no
spelling, or an input that starts like a numeral but starts with none.  What comes
after an unexpected character takes no part in the answer.
-/

namespace Reckoner

/-- The error is that of a broken numeral, and its message quotes what is written. -/
def LexError.Quotes (e : LexError) (written : List Char) : Prop :=
  e = .noFraction written ∧
      e.message = "Decimal point without fractional part: '" ++ String.ofList written ++ "'" ∨
    e = .tooLarge written ∧
      e.message = "Number literal is too large: '" ++ String.ofList written ++ "'"

/-- A character that starts no spelling and is no spacing. -/
structure StartsNothing (c : Char) : Prop where
  spacing : isSpacing c = false
  digit : c.isDigit = false
  letter : c.isAlpha = false
  operator : isOperatorChar c = false
  mark : c ≠ '(' ∧ c ≠ ')' ∧ c ≠ ','

namespace Numeral

variable {c : Char} {cs rest : List Char} {e : LexError} {index : Nat}

/-- What is broken is quoted from where the numeral starts. -/
theorem Broken.quoted (h : Broken cs e) :
    ∃ written, written <+: cs ∧ e.Quotes written := by
  cases h with
  | @noFraction sign whole after hcs =>
    refine ⟨Sign.chars sign ++ whole ++ ['.'], ⟨after, ?_⟩, .inl ⟨rfl, rfl⟩⟩
    rw [hcs, List.append_assoc, List.singleton_append]
  | @tooLarge n after hcs => exact ⟨n.chars, ⟨after, hcs.symm⟩, .inr ⟨rfl, rfl⟩⟩

/-- Where a numeral starts, there is a digit after the sign. -/
theorem takeWhile_split_of_startsNumeral (h : Spelling.startsNumeral c rest = true) :
    (Sign.split (c :: rest)).2.takeWhile Char.isDigit ≠ [] := by
  rcases Bool.or_eq_true _ _ |>.mp h with hdigit | hsigned
  · have hsign := isSignChar_of_not_isOperatorChar (isOperatorChar_of_isDigit hdigit)
    rw [Sign.split_of_not_sign (ends_cons.mpr hsign), List.takeWhile_cons_of_pos hdigit]
    exact List.cons_ne_nil _ _
  · obtain ⟨hsign, hnext⟩ := Bool.and_eq_true _ _ |>.mp hsigned
    obtain ⟨sign, hsign⟩ := Option.isSome_iff_exists.mp hsign
    obtain ⟨d, hd, hdigit⟩ := Option.any_eq_true _ _ |>.mp hnext
    obtain ⟨after, rfl⟩ := List.head?_eq_some_iff.mp hd
    rw [Sign.split, hsign, List.takeWhile_cons_of_pos hdigit]
    exact List.cons_ne_nil _ _

end Numeral

namespace Spelling

variable {c : Char} {rest rest' : List Char} {e : LexError} {index : Nat}

/-- A spelling looks no further than to the character after it. -/
theorem EndsBefore.of_head? {s : Spelling} (h : s.EndsBefore rest)
    (hhead : ∀ c ∈ rest'.head?, rest.head? = some c) : s.EndsBefore rest' := by
  have hends : ∀ {inside}, Ends inside rest → Ends inside rest' :=
    fun hinside c hc => hinside c (hhead c hc)
  cases s with
  | numeral n => exact ⟨hends h.1, fun hnone hpoint => h.2 hnone (hhead _ hpoint)⟩
  | operator symbol => exact ⟨hends h.1, fun hsign => hends (h.2 hsign)⟩
  | name letters => exact hends h
  | openParen | closeParen | comma => trivial

theorem read_of_startsNothing (h : StartsNothing c) (index : Nat) (rest : List Char) :
    read index c rest = .error (.unexpectedCharacter c index) := by
  rw [read, if_neg (by simp [startsNumeral_of_not_operator h.digit h.operator]),
    if_neg (by simp [h.operator]), if_neg (by simp [h.letter]), if_neg h.mark.1,
    if_neg h.mark.2.1, if_neg h.mark.2.2]

/-- No spelling is read where none starts, or where a broken numeral does.  The missing
digit after a sign is none of the reasons. -/
theorem startsNothing_or_broken_of_read (hspacing : isSpacing c = false)
    (h : read index c rest = .error e) :
    (e = .unexpectedCharacter c index ∧ StartsNothing c) ∨ Numeral.Broken (c :: rest) e := by
  unfold read at h
  split at h
  · next hstart =>
    cases hread : Numeral.read index (c :: rest) with
    | ok p => rw [hread] at h; cases h
    | error e' =>
      rw [hread] at h
      cases h
      rcases Numeral.noDigit_or_broken_of_read hread with ⟨hnone, -⟩ | hbroken
      · exact absurd hnone (Numeral.takeWhile_split_of_startsNumeral hstart)
      · exact .inr hbroken
  · next hstart =>
    split at h
    · cases h
    · next hoperator =>
      split at h
      · cases h
      · next hletter =>
        split at h
        · cases h
        · next hopen =>
          split at h
          · cases h
          · next hclose =>
            split at h
            · cases h
            · next hcomma =>
              cases h
              have hdigit : c.isDigit = false := by
                rw [startsNumeral, Bool.or_eq_true, not_or] at hstart
                simpa using hstart.1
              exact .inl ⟨rfl, hspacing, hdigit, by simpa using hletter, by simpa using hoperator,
                hopen, hclose, hcomma⟩

end Spelling

namespace Token

variable {source : String} {e : LexError} {cs : List Char} {index : Nat}

/-! ## Where the scan stops -/

theorem scan_of_read_error {c : Char} {rest : List Char} (hspacing : isSpacing c = false)
    (hread : Spelling.read index c rest = .error e) : scan index (c :: rest) = .error e := by
  rw [scan, if_neg (by simp [hspacing])]
  split
  · next he =>
    cases hread.symm.trans he
    rfl
  · next he => cases hread.symm.trans he

theorem scan_of_startsNothing {c : Char} (h : StartsNothing c) (index : Nat) (rest : List Char) :
    scan index (c :: rest) = .error (.unexpectedCharacter c index) :=
  scan_of_read_error h.spacing (Spelling.read_of_startsNothing h index rest)

/-- A scan that fails does so at a character that stands after spellings and spacing: these
are scanned alike before the end and before anything that starts with this character. -/
theorem exists_offence_of_scan (h : scan index cs = .error e) :
    ∃ front c rest tokens, cs = front ++ c :: rest ∧ isSpacing c = false ∧
      Spelling.read (index + front.length) c rest = .error e ∧
      ∀ tail : List Char, (∀ d ∈ tail.head?, d = c) →
        scan index (front ++ tail) = (scan (index + front.length) tail).map (tokens ++ ·) := by
  fun_induction scan index cs with
  | case1 index => cases h
  | case2 index c cs hspacing ih =>
    obtain ⟨front, d, rest, tokens, rfl, hd, hread, htail⟩ := ih h
    have hlength : index + 1 + front.length = index + (c :: front).length := by
      rw [List.length_cons]
      omega
    rw [hlength] at hread htail
    refine ⟨c :: front, d, rest, tokens, rfl, hd, hread, fun tail hhead => ?_⟩
    rw [List.cons_append, scan, if_pos hspacing, htail tail hhead]
  | case3 index c cs hspacing e' hread =>
    cases h
    refine ⟨[], c, cs, [], rfl, by simpa using hspacing, hread, fun tail _ => ?_⟩
    simp only [List.nil_append, List.length_nil, Nat.add_zero]
    cases scan index tail <;> rfl
  | case4 index c cs hspacing s rest hread ih =>
    obtain ⟨hs, hends⟩ := Spelling.wellFormed_of_read hread
    have hrest : scan (index + s.chars.length) rest = .error e := by
      cases hscan : scan (index + s.chars.length) rest with
      | ok tokens => rw [hscan] at h; cases h
      | error e' => rw [hscan] at h; exact h
    obtain ⟨front, d, after, tokens, rfl, hd, hread', htail⟩ := ih hrest
    have hlength : index + s.chars.length + front.length = index + (s.chars ++ front).length := by
      rw [List.length_append]
      omega
    rw [hlength] at hread' htail
    refine ⟨s.chars ++ front, d, after, ⟨s.lexeme, index⟩ :: tokens, ?_, hd, hread',
      fun tail hhead => ?_⟩
    · rw [← Spelling.chars_append_of_read hread, List.append_assoc]
    · -- the spelling is followed by what it was followed by, or by nothing
      have hnext : ∀ c ∈ (front ++ tail).head?, (front ++ d :: after).head? = some c := by
        cases front with
        | nil => exact fun c hc => congrArg some (hhead c hc).symm
        | cons f front => exact fun c hc => hc
      rw [List.append_assoc, scan_spelling hs (hends.of_head? hnext), htail tail hhead]
      cases scan (index + (s.chars ++ front).length) tail <;> rfl

/-! ## Offences -/

/-- A character that starts no spelling stands at a place of a text; what stands before it
has tokens, and it is reported whatever stands after it. -/
structure Unexpected (source : String) (c : Char) (i : Nat) : Prop where
  found : source.toList[i]? = some c
  nothing : StartsNothing c
  before : ∃ tokens, tokenize (String.ofList (source.toList.take i)) = .ok tokens
  always : ∀ after : String, tokenize (String.ofList (source.toList.take (i + 1)) ++ after) =
    .error (.unexpectedCharacter c i)

/-- A broken numeral starts at a place of a text, what stands before it has tokens, and it
is quoted. -/
structure Malformed (source : String) (start : Nat) (e : LexError) : Prop where
  before : ∃ tokens, tokenize (String.ofList (source.toList.take start)) = .ok tokens
  broken : Numeral.Broken (source.toList.drop start) e
  category : e.category = .malformedNumber
  quoted : ∃ written, written <+: source.toList.drop start ∧ e.Quotes written

theorem Malformed.not_unexpected {start : Nat} (h : Malformed source start e) (c : Char) (i : Nat) :
    e ≠ .unexpectedCharacter c i := by
  rintro rfl
  cases h.category

/-- A text without tokens has a first offence, either an unexpected character or a broken
numeral and not both, and it is this that is reported.  A missing digit after a sign never
is. -/
theorem tokenize_offence (h : tokenize source = .error e) :
    ((∃ c i, e = .unexpectedCharacter c i ∧ Unexpected source c i) ∨
      ∃ start, Malformed source start e) ∧
    ¬ ((∃ c i, e = .unexpectedCharacter c i ∧ Unexpected source c i) ∧
      ∃ start, Malformed source start e) ∧
    ∀ i, e ≠ .noDigit i := by
  have hapart : ¬ ((∃ c i, e = .unexpectedCharacter c i ∧ Unexpected source c i) ∧
      ∃ start, Malformed source start e) := by
    rintro ⟨⟨c, i, rfl, -⟩, start, hmalformed⟩
    exact hmalformed.not_unexpected c i rfl
  obtain ⟨front, c, rest, tokens, hsource, hspacing, hread, htail⟩ := exists_offence_of_scan h
  rw [Nat.zero_add] at hread htail
  have hbefore : ∃ tokens, tokenize (String.ofList (source.toList.take front.length)) =
      .ok tokens := by
    have hfront := htail [] (by simp)
    rw [List.append_nil, scan] at hfront
    refine ⟨tokens ++ [], ?_⟩
    rw [tokenize, String.toList_ofList, hsource, List.take_left, hfront]
    rfl
  rcases Spelling.startsNothing_or_broken_of_read hspacing hread with ⟨rfl, hnothing⟩ | hbroken
  · refine ⟨.inl ⟨c, front.length, rfl, ?_, hnothing, hbefore, fun after => ?_⟩, hapart, ?_⟩
    · rw [hsource, List.getElem?_append_right (Nat.le_refl _), Nat.sub_self]
      rfl
    · rw [tokenize, String.toList_append, String.toList_ofList, hsource, List.take_append,
        List.take_of_length_le (Nat.le_succ _), Nat.add_sub_cancel_left, List.append_assoc]
      have hafter := htail (c :: after.toList) (fun d hd => (Option.some.inj hd).symm)
      rwa [scan_of_startsNothing hnothing] at hafter
    · rintro i ⟨⟩
  · have hdrop : source.toList.drop front.length = c :: rest := by rw [hsource, List.drop_left]
    refine ⟨.inr ⟨front.length, hbefore, ?_, hbroken.category, ?_⟩, hapart, ?_⟩
    · rwa [hdrop]
    · rw [hdrop]
      exact hbroken.quoted
    · rintro i rfl
      cases hbroken

/-- The second point of `1.5.` is unexpected, but that of `5.` belongs to a broken numeral. -/
theorem tokenize_offence_points :
    Unexpected "1.5." '.' 3 ∧ ∃ start, Malformed "5." start (.noFraction ['5', '.']) := by
  have hsecond : tokenize "1.5." = .error (.unexpectedCharacter '.' 3) := by
    let s : Spelling := .numeral ⟨none, ['1'], some ['5']⟩
    have hs : s.WellFormed := by decide +kernel
    have hends : s.EndsBefore ['.'] := ⟨ends_cons.mpr rfl, fun hnone => nomatch hnone⟩
    have hpoint : StartsNothing '.' := ⟨rfl, rfl, rfl, rfl, by decide⟩
    have hscan := scan_spelling hs hends 0
    rw [scan_of_startsNothing hpoint] at hscan
    exact hscan
  have hlast : tokenize "5." = .error (.noFraction ['5', '.']) := by
    have hread : Spelling.read 0 '5' ['.'] = .error (.noFraction ['5', '.']) := rfl
    exact scan_of_read_error (by decide) hread
  constructor
  · rcases (tokenize_offence hsecond).1 with ⟨c, i, heq, hunexpected⟩ | ⟨start, hmalformed⟩
    · cases heq
      exact hunexpected
    · exact absurd rfl (hmalformed.not_unexpected '.' 3)
  · rcases (tokenize_offence hlast).1 with ⟨c, i, heq, -⟩ | hmalformed
    · cases heq
    · exact hmalformed

end Token

end Reckoner
