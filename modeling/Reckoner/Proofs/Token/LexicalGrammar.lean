import Reckoner.Proofs.Token.Reading

set_option autoImplicit false

/-!
# The tokens of a text are those of its layout

A text has tokens exactly if it has a layout, and the tokens are those that the
layout denotes.  No text has two layouts.  What two neighbouring spellings must
not run into, said of whole spellings, is what a spelling must end before, said of
the next character.
-/

namespace Reckoner

open Layout

/-! ## Neighbours -/

theorem isOperatorChar_of_isSpacing {c : Char} (h : isSpacing c = true) :
    isOperatorChar c = false ∧ c.isAlpha = false ∧ c.isDigit = false ∧ c ≠ '.' := by
  have hc : c = ' ' ∨ c = '\t' ∨ c = '\n' := by simpa [isSpacing, or_assoc] using h
  rcases hc with rfl | rfl | rfl <;> decide

namespace Spelling

/-- Any spelling ends before spacing, and before the end. -/
theorem endsBefore_of_spacing (s : Spelling) {rest : List Char}
    (h : ∀ c ∈ rest.head?, isSpacing c = true) : s.EndsBefore rest := by
  have hclasses := fun c hc => isOperatorChar_of_isSpacing (h c hc)
  cases s with
  | numeral n =>
    refine ⟨fun c hc => (hclasses c hc).2.2.1, fun _ hpoint => ?_⟩
    exact (hclasses '.' hpoint).2.2.2 rfl
  | operator symbol =>
    exact ⟨fun c hc => (hclasses c hc).1, fun _ c hc => (hclasses c hc).2.2.1⟩
  | name letters => exact fun c hc => (hclasses c hc).2.1
  | openParen | closeParen | comma => trivial

/-- Whether a spelling starts with a digit. -/
def leadsWithDigit : Spelling → Bool
  | .numeral n => n.sign.isNone
  | _ => false

/-- Whether a spelling starts with an operator character. -/
def leadsWithOperator : Spelling → Bool
  | .numeral n => n.sign.isSome
  | .operator _ => true
  | _ => false

/-- Whether a spelling starts with a letter. -/
def leadsWithLetter : Spelling → Bool
  | .name _ => true
  | _ => false

/-- The class of the first character of a spelling is told by the spelling. -/
structure Leads (c : Char) (s : Spelling) : Prop where
  digit : c.isDigit = s.leadsWithDigit
  operator : isOperatorChar c = s.leadsWithOperator
  letter : c.isAlpha = s.leadsWithLetter
  spacing : isSpacing c = false
  point : c ≠ '.'

theorem leads_digit {c : Char} (h : c.isDigit = true) {n : Numeral} (hn : n.sign = none) :
    Leads c (.numeral n) := by
  refine ⟨by simp [leadsWithDigit, hn, h], ?_, ?_, ?_, ?_⟩
  · simp [leadsWithOperator, hn, isOperatorChar_of_isDigit h]
  · exact isAlpha_of_isDigit h
  · rw [← Bool.not_eq_true]
    intro hspacing
    rw [(isOperatorChar_of_isSpacing hspacing).2.2.1] at h
    cases h
  · rintro rfl; cases h

theorem leads_operatorChar {c : Char} (h : isOperatorChar c = true) {s : Spelling}
    (hdigit : s.leadsWithDigit = false) (hoperator : s.leadsWithOperator = true)
    (hletter : s.leadsWithLetter = false) : Leads c s := by
  refine ⟨?_, h.trans hoperator.symm, ?_, ?_, ?_⟩
  · exact (isDigit_of_isOperatorChar h).trans hdigit.symm
  · exact (isAlpha_of_isOperatorChar h).trans hletter.symm
  · rcases isOperatorChar_iff.mp h with rfl | rfl | rfl | rfl | rfl | rfl <;> rfl
  · rintro rfl; cases h

theorem leads_letter {c : Char} (h : c.isAlpha = true) (letters : List Char) :
    Leads c (.name letters) := by
  refine ⟨isDigit_of_isAlpha h, isOperatorChar_of_isAlpha h, h, ?_, ?_⟩
  · rw [← Bool.not_eq_true]
    intro hspacing
    rw [(isOperatorChar_of_isSpacing hspacing).2.1] at h
    cases h
  · rintro rfl; cases h

theorem exists_leads {s : Spelling} (h : s.WellFormed) :
    ∃ c cs, s.chars = c :: cs ∧ Leads c s := by
  cases s with
  | numeral n =>
    obtain ⟨sign, whole, fraction⟩ := n
    obtain ⟨hne, hwhole⟩ := h.1.1
    obtain ⟨d, digits, rfl⟩ := List.exists_cons_of_ne_nil hne
    cases sign with
    | none => exact ⟨d, _, rfl, leads_digit (hwhole d List.mem_cons_self) rfl⟩
    | some sign =>
      exact ⟨sign.char, _, rfl,
        leads_operatorChar (isOperatorChar_of_isSignChar (Sign.isSignChar_char sign)) rfl rfl rfl⟩
  | operator symbol =>
    obtain ⟨c, cs, rfl⟩ := List.exists_cons_of_ne_nil h.1
    exact ⟨c, cs, rfl, leads_operatorChar (h.2 c List.mem_cons_self) rfl rfl rfl⟩
  | name letters =>
    obtain ⟨c, cs, rfl⟩ := List.exists_cons_of_ne_nil h.1
    exact ⟨c, cs, rfl, leads_letter (h.2 c List.mem_cons_self) _⟩
  | openParen | closeParen | comma => exact ⟨_, _, rfl, ⟨rfl, rfl, rfl, rfl, by decide⟩⟩

/-- A spelling ends before the next one exactly if it does not run into it. -/
theorem endsBefore_iff {s t : Spelling} (ht : t.WellFormed) (rest : List Char) :
    s.EndsBefore (t.chars ++ rest) ↔ s.runsInto t = false := by
  obtain ⟨c, cs, hchars, hleads⟩ := exists_leads ht
  have hpoint : c ≠ '.' := hleads.point
  rw [hchars, List.cons_append]
  cases s with
  | numeral n =>
    simp only [EndsBefore, Numeral.EndsBefore, ends_cons, hleads.digit]
    cases t <;> simp [leadsWithDigit, runsInto, hpoint]
  | operator symbol =>
    simp only [EndsBefore, ends_cons, hleads.digit, hleads.operator]
    cases t with
    | numeral n => cases hsign : n.sign <;> simp [leadsWithDigit, leadsWithOperator, runsInto, hsign]
    | _ => simp [leadsWithDigit, leadsWithOperator, runsInto]
  | name letters =>
    simp only [EndsBefore, ends_cons, hleads.letter]
    cases t <;> simp [leadsWithLetter, runsInto]
  | openParen | closeParen | comma => simp [EndsBefore, runsInto]

end Spelling

/-! ## Pieces -/

namespace Layout

/-- The text of a layout with one more piece in front. -/
theorem chars_mk (p : Piece) (ps : List Piece) (trailing : List Char) :
    (Layout.mk (p :: ps) trailing).chars =
      p.spacing ++ (p.spelling.chars ++ (Layout.mk ps trailing).chars) := by
  simp [chars, pieceChars]

/-- A spelling ends before a well-formed layout exactly if the two may be put
together without spacing between them. -/
theorem endsBefore_chars_iff {s : Spelling} {l : Layout} (hl : l.WellFormed) :
    s.EndsBefore l.chars ↔
      ∀ q ∈ l.pieces.head?, s.runsInto q.spelling = true → q.spacing ≠ [] := by
  obtain ⟨pieces, trailing⟩ := l
  cases pieces with
  | nil =>
    refine iff_of_true (Spelling.endsBefore_of_spacing s fun c hc => ?_) fun q hq => by cases hq
    exact hl.trailing c (List.mem_of_mem_head? hc)
  | cons q qs =>
    have hq : q.spelling.WellFormed := hl.spellings q List.mem_cons_self
    rw [chars_mk]
    cases hspacing : q.spacing with
    | nil => simp [Spelling.endsBefore_iff hq, hspacing]
    | cons c cs =>
      refine iff_of_true (Spelling.endsBefore_of_spacing s fun d hd => ?_) fun q' hq' _ => ?_
      · cases hd
        exact hl.spacings q List.mem_cons_self c (by rw [hspacing]; exact List.mem_cons_self)
      · cases hq'
        rw [hspacing]
        exact List.cons_ne_nil c cs

theorem wellFormed_empty : (Layout.mk [] []).WellFormed :=
  ⟨fun _ hp => (nomatch hp), fun _ hp => (nomatch hp), fun _ hc => (nomatch hc), trivial⟩

theorem separated_cons_iff {p : Piece} {ps : List Piece} :
    Separated (p :: ps) ↔
      (∀ q ∈ ps.head?, p.spelling.runsInto q.spelling = true → q.spacing ≠ []) ∧
        Separated ps := by
  cases ps <;> simp [Separated]

/-- What makes a layout well formed, piece by piece. -/
theorem wellFormed_mk_iff {p : Piece} {ps : List Piece} {trailing : List Char} :
    (Layout.mk (p :: ps) trailing).WellFormed ↔
      (∀ c ∈ p.spacing, isSpacing c = true) ∧ p.spelling.WellFormed ∧
        p.spelling.EndsBefore (Layout.mk ps trailing).chars ∧
        (Layout.mk ps trailing).WellFormed := by
  constructor
  · intro h
    have hl : (Layout.mk ps trailing).WellFormed :=
      ⟨fun q hq => h.spellings q (List.mem_cons_of_mem _ hq),
        fun q hq => h.spacings q (List.mem_cons_of_mem _ hq), h.trailing,
        (separated_cons_iff.mp h.separated).2⟩
    exact ⟨h.spacings _ List.mem_cons_self, h.spellings _ List.mem_cons_self,
      (endsBefore_chars_iff hl).mpr (separated_cons_iff.mp h.separated).1, hl⟩
  · rintro ⟨hspacing, hs, hends, hl⟩
    refine ⟨?_, ?_, hl.trailing, ?_⟩
    · intro q hq
      rcases List.mem_cons.mp hq with rfl | hmem
      · exact hs
      · exact hl.spellings q hmem
    · intro q hq
      rcases List.mem_cons.mp hq with rfl | hmem
      · exact hspacing
      · exact hl.spacings q hmem
    · exact separated_cons_iff.mpr ⟨(endsBefore_chars_iff hl).mp hends, hl.separated⟩

/-- A layout with one more spacing character in front. -/
def space (c : Char) : Layout → Layout
  | ⟨[], trailing⟩ => ⟨[], c :: trailing⟩
  | ⟨p :: ps, trailing⟩ => ⟨⟨c :: p.spacing, p.spelling⟩ :: ps, trailing⟩

theorem chars_space (c : Char) (l : Layout) : (space c l).chars = c :: l.chars := by
  obtain ⟨pieces, trailing⟩ := l
  cases pieces <;> simp [space, chars, pieceChars]

theorem pieceTokens_space (c : Char) (l : Layout) (index : Nat) :
    pieceTokens index (space c l).pieces = pieceTokens (index + 1) l.pieces := by
  obtain ⟨pieces, trailing⟩ := l
  cases pieces with
  | nil => rfl
  | cons p ps => simp [space, pieceTokens, Nat.add_right_comm, Nat.add_assoc, Nat.add_comm 1]

theorem wellFormed_space {c : Char} (hc : isSpacing c = true) {l : Layout} (hl : l.WellFormed) :
    (space c l).WellFormed := by
  obtain ⟨pieces, trailing⟩ := l
  cases pieces with
  | nil =>
    refine ⟨hl.spellings, hl.spacings, fun d hd => ?_, trivial⟩
    rcases List.mem_cons.mp hd with rfl | hmem
    · exact hc
    · exact hl.trailing d hmem
  | cons p ps =>
    obtain ⟨hspacing, hs, hends, hrest⟩ := wellFormed_mk_iff.mp hl
    refine wellFormed_mk_iff.mpr ⟨?_, hs, hends, hrest⟩
    intro d hd
    rcases List.mem_cons.mp hd with rfl | hmem
    · exact hc
    · exact hspacing d hmem

end Layout

/-! ## Scanning -/

namespace Token

theorem scan_spacing {w : List Char} (hw : ∀ c ∈ w, isSpacing c = true) (index : Nat)
    (cs : List Char) : scan index (w ++ cs) = scan (index + w.length) cs := by
  induction w generalizing index with
  | nil => rfl
  | cons c w ih =>
    rw [List.cons_append, scan, if_pos (hw c List.mem_cons_self),
      ih fun d hd => hw d (List.mem_cons_of_mem c hd)]
    rw [List.length_cons, Nat.add_right_comm, Nat.add_assoc]

theorem scan_spelling {s : Spelling} (hs : s.WellFormed) {rest : List Char}
    (hends : s.EndsBefore rest) (index : Nat) :
    scan index (s.chars ++ rest) =
      (scan (index + s.chars.length) rest).map fun tokens => ⟨s.lexeme, index⟩ :: tokens := by
  obtain ⟨c, cs, hchars, hleads⟩ := Spelling.exists_leads hs
  have hread := Spelling.read_chars hs hchars hends index
  rw [hchars, List.cons_append, scan, if_neg (by simp [hleads.spacing])]
  split
  · next e he => rw [hread] at he; cases he
  · next t after he =>
    rw [hread] at he
    cases he
    rw [hchars]

/-- The text of a layout has the tokens of the layout. -/
theorem scan_chars {l : Layout} (hl : l.WellFormed) (index : Nat) :
    scan index l.chars = .ok (pieceTokens index l.pieces) := by
  obtain ⟨pieces, trailing⟩ := l
  induction pieces generalizing index with
  | nil =>
    have hscan := scan_spacing hl.trailing index []
    rw [List.append_nil] at hscan
    rw [chars, pieceChars, List.nil_append, hscan, scan, pieceTokens]
  | cons p ps ih =>
    obtain ⟨hspacing, hs, hends, hrest⟩ := wellFormed_mk_iff.mp hl
    rw [chars_mk, scan_spacing hspacing, scan_spelling hs hends, ih _ hrest]
    rfl

/-- A text that has tokens has a layout that denotes them. -/
theorem exists_layout_of_scan {index : Nat} {cs : List Char} {ts : List Token}
    (h : scan index cs = .ok ts) :
    ∃ l : Layout, l.WellFormed ∧ l.chars = cs ∧ pieceTokens index l.pieces = ts := by
  fun_induction scan index cs generalizing ts with
  | case1 index =>
    cases h
    exact ⟨⟨[], []⟩, wellFormed_empty, rfl, rfl⟩
  | case2 index c cs hspacing ih =>
    obtain ⟨l, hl, hchars, htokens⟩ := ih h
    exact ⟨space c l, wellFormed_space hspacing hl, by rw [chars_space, hchars],
      by rw [pieceTokens_space, htokens]⟩
  | case3 index c cs hspacing e hread => cases h
  | case4 index c cs hspacing s rest hread ih =>
    cases hscan : scan (index + s.chars.length) rest with
    | error e => rw [hscan] at h; cases h
    | ok tokens =>
      rw [hscan] at h
      cases h
      obtain ⟨⟨ps, trailing⟩, hl, hchars, htokens⟩ := ih hscan
      obtain ⟨hs, hends⟩ := Spelling.wellFormed_of_read hread
      refine ⟨⟨⟨[], s⟩ :: ps, trailing⟩, ?_, ?_, ?_⟩
      · exact wellFormed_mk_iff.mpr ⟨fun d hd => (nomatch hd), hs, hchars ▸ hends, hl⟩
      · rw [chars_mk, List.nil_append, hchars, Spelling.chars_append_of_read hread]
      · simp [pieceTokens, ← htokens]

end Token

/-- A text that a layout takes apart has the tokens of the layout. -/
theorem Layout.Divides.tokenize_eq {l : Layout} {source : String} (h : l.Divides source) :
    Token.tokenize source = .ok l.tokens := by
  rw [Token.tokenize, ← h.chars, Token.scan_chars h.wellFormed]
  rfl

/-! ## No text has two layouts -/

namespace Spelling

theorem isSpacing_of_mem_chars {s : Spelling} (h : s.WellFormed) :
    ∀ c ∈ s.chars, isSpacing c = false := by
  intro c hc
  rw [← Bool.not_eq_true]
  intro hspacing
  obtain ⟨hoperator, hletter, hdigit, hpoint⟩ := isOperatorChar_of_isSpacing hspacing
  cases s with
  | numeral n =>
    obtain ⟨sign, whole, fraction⟩ := n
    obtain ⟨⟨⟨_, hwhole⟩, hfraction⟩, _⟩ := h
    simp only [chars, Numeral.chars, List.mem_append] at hc
    rcases hc with (hsign | hwholeMem) | hfractionMem
    · obtain ⟨t, _, rfl⟩ := List.mem_map.mp hsign
      rw [isOperatorChar_of_isSignChar (Sign.isSignChar_char t)] at hoperator
      cases hoperator
    · rw [hwhole c hwholeMem] at hdigit
      cases hdigit
    · cases fraction with
      | none => cases hfractionMem
      | some digits =>
        cases List.mem_cons.mp hfractionMem with
        | inl heq => exact hpoint heq
        | inr hmem =>
          rw [(hfraction digits rfl).2 c hmem] at hdigit
          cases hdigit
  | operator symbol => rw [h.2 c hc] at hoperator; cases hoperator
  | name letters => rw [h.2 c hc] at hletter; cases hletter
  | openParen | closeParen | comma =>
    rw [List.mem_singleton.mp hc] at hspacing
    cases hspacing

end Spelling

namespace Layout

/-- Two layouts of one text are the same. -/
theorem eq_of_chars_eq {l l' : Layout} (hl : l.WellFormed) (hl' : l'.WellFormed)
    (h : l.chars = l'.chars) : l = l' := by
  obtain ⟨pieces, trailing⟩ := l
  obtain ⟨pieces', trailing'⟩ := l'
  induction pieces generalizing pieces' with
  | nil =>
    cases pieces' with
    | nil =>
      have htrailing : trailing = trailing' := h
      rw [htrailing]
    | cons p ps =>
      obtain ⟨c, cs, hchars, hleads⟩ := Spelling.exists_leads (hl'.spellings p List.mem_cons_self)
      have hmem : c ∈ trailing := by
        have hc : c ∈ (Layout.mk (p :: ps) trailing').chars := by simp [chars, pieceChars, hchars]
        rw [← h] at hc
        exact hc
      have hspacing := hl.trailing c hmem
      rw [hleads.spacing] at hspacing
      cases hspacing
  | cons p ps ih =>
    cases pieces' with
    | nil =>
      obtain ⟨c, cs, hchars, hleads⟩ := Spelling.exists_leads (hl.spellings p List.mem_cons_self)
      have hmem : c ∈ trailing' := by
        have hc : c ∈ (Layout.mk (p :: ps) trailing).chars := by simp [chars, pieceChars, hchars]
        rw [h] at hc
        exact hc
      have hspacing := hl'.trailing c hmem
      rw [hleads.spacing] at hspacing
      cases hspacing
    | cons p' ps' =>
      obtain ⟨hw, hs, hends, hrest⟩ := wellFormed_mk_iff.mp hl
      obtain ⟨hw', hs', hends', hrest'⟩ := wellFormed_mk_iff.mp hl'
      rw [chars_mk, chars_mk] at h
      obtain ⟨c, cs, hchars, hleads⟩ := Spelling.exists_leads hs
      obtain ⟨c', cs', hchars', hleads'⟩ := Spelling.exists_leads hs'
      have hstop : Ends isSpacing (p.spelling.chars ++ (Layout.mk ps trailing).chars) := by
        rw [hchars]; exact ends_cons.mpr hleads.spacing
      have hstop' : Ends isSpacing (p'.spelling.chars ++ (Layout.mk ps' trailing').chars) := by
        rw [hchars']; exact ends_cons.mpr hleads'.spacing
      -- the spacing in front is what comes before the first character of a spelling
      have hspacing : p.spacing = p'.spacing := by
        rw [← takeWhile_of_ends hw hstop, h, takeWhile_of_ends hw' hstop']
      have hread : p.spelling.chars ++ (Layout.mk ps trailing).chars =
          p'.spelling.chars ++ (Layout.mk ps' trailing').chars := by
        rw [← dropWhile_of_ends hw hstop, h, dropWhile_of_ends hw' hstop']
      -- and the spelling is what is read after it
      have hfirst := Spelling.read_chars hs hchars hends 0
      have hsecond := Spelling.read_chars hs' hchars' hends' 0
      rw [hchars, hchars', List.cons_append, List.cons_append, List.cons.injEq] at hread
      rw [hread.1, hread.2, hsecond, Except.ok.injEq, Prod.mk.injEq] at hfirst
      obtain ⟨hspelling, htail⟩ := hfirst
      have hpiece : p = p' := Piece.ext hspacing hspelling.symm
      have hlayouts := ih hrest ps' hrest' htail.symm
      cases hlayouts
      rw [hpiece]

/-! ## Stretches -/

theorem lexeme_pieceTokens (index : Nat) (ps : List Piece) :
    (pieceTokens index ps).map Token.lexeme = ps.map fun p => p.spelling.lexeme := by
  induction ps generalizing index with
  | nil => rfl
  | cons p ps ih => simp [pieceTokens, ih]

theorem index_pieceTokens (index : Nat) (ps : List Piece) :
    (pieceTokens index ps).map Token.index =
      (pieceSpans index ps).map fun span => (span.1 : Int) := by
  induction ps generalizing index with
  | nil => rfl
  | cons p ps ih => simp [pieceTokens, pieceSpans, ih]

theorem le_of_mem_pieceSpans {index : Nat} {ps : List Piece}
    {span : Nat × Nat} (h : span ∈ pieceSpans index ps) : index ≤ span.1 := by
  induction ps generalizing index with
  | nil => cases h
  | cons p ps ih =>
    rcases List.mem_cons.mp h with rfl | hmem
    · exact Nat.le_add_right _ _
    · have hle := ih hmem
      omega

theorem pairwise_pieceSpans (index : Nat) (ps : List Piece) :
    (pieceSpans index ps).Pairwise fun a b => a.2 ≤ b.1 := by
  induction ps generalizing index with
  | nil => exact List.Pairwise.nil
  | cons p ps ih =>
    exact List.Pairwise.cons (fun span hspan => le_of_mem_pieceSpans hspan) (ih _)

theorem lt_of_mem_pieceSpans {index : Nat} {ps : List Piece}
    (hps : ∀ p ∈ ps, p.spelling.WellFormed) {span : Nat × Nat}
    (h : span ∈ pieceSpans index ps) : span.1 < span.2 := by
  induction ps generalizing index with
  | nil => cases h
  | cons p ps ih =>
    rcases List.mem_cons.mp h with rfl | hmem
    · obtain ⟨c, cs, hchars, -⟩ := Spelling.exists_leads (hps p List.mem_cons_self)
      rw [hchars]
      simp
    · exact ih (fun q hq => hps q (List.mem_cons_of_mem p hq)) hmem

/-- The stretches of the spellings hold every character that is not spacing, and
no other. -/
theorem spacing_iff_pieceSpans {ps : List Piece} {trailing : List Char}
    (h : (Layout.mk ps trailing).WellFormed) {k : Nat} {c : Char}
    (hk : (Layout.mk ps trailing).chars[k]? = some c) (index : Nat) :
    isSpacing c = false ↔
      ∃ span ∈ pieceSpans index ps, span.1 ≤ index + k ∧ index + k < span.2 := by
  induction ps generalizing k index with
  | nil =>
    have hc : isSpacing c = true := h.trailing c (List.mem_of_getElem? hk)
    simp [pieceSpans, hc]
  | cons p ps ih =>
    obtain ⟨hspacing, hs, hends, hrest⟩ := wellFormed_mk_iff.mp h
    rw [chars_mk] at hk
    have hlater : ∀ span ∈ pieceSpans (index + p.spacing.length + p.spelling.chars.length) ps,
        index + p.spacing.length + p.spelling.chars.length ≤ span.1 :=
      fun span hspan => le_of_mem_pieceSpans hspan
    rw [pieceSpans]
    simp only [List.mem_cons, exists_eq_or_imp]
    by_cases hbefore : k < p.spacing.length
    · -- in the spacing before the first spelling
      rw [List.getElem?_append_left hbefore] at hk
      have hc : isSpacing c = true := hspacing c (List.mem_of_getElem? hk)
      refine iff_of_false (by simp [hc]) ?_
      rintro (⟨hle, _⟩ | ⟨span, hspan, hle, _⟩)
      · omega
      · have := hlater span hspan
        omega
    · rw [List.getElem?_append_right (Nat.not_lt.mp hbefore)] at hk
      by_cases hinside : k - p.spacing.length < p.spelling.chars.length
      · -- in the first spelling
        rw [List.getElem?_append_left hinside] at hk
        have hc := Spelling.isSpacing_of_mem_chars hs c (List.mem_of_getElem? hk)
        exact iff_of_true hc (.inl ⟨by omega, by omega⟩)
      · -- further on
        rw [List.getElem?_append_right (Nat.not_lt.mp hinside)] at hk
        have hplace : index + p.spacing.length + p.spelling.chars.length +
            (k - p.spacing.length - p.spelling.chars.length) = index + k := by omega
        rw [ih hrest hk (index + p.spacing.length + p.spelling.chars.length), hplace]
        constructor
        · rintro ⟨span, hspan, hle, hlt⟩
          exact .inr ⟨span, hspan, hle, hlt⟩
        · rintro (⟨_, hlt⟩ | ⟨span, hspan, hle, hlt⟩)
          · omega
          · exact ⟨span, hspan, hle, hlt⟩

end Layout

namespace Token

/-- A text has tokens exactly if a layout takes it apart, and they are the tokens of
that layout.  There is only one such layout; the stretches of its spellings start
at the places of the tokens, follow each other, and hold every character of the
text that is not spacing, and no other. -/
theorem tokenize_eq_ok_iff_divides (source : String) :
    (∀ ts : List Token, tokenize source = .ok ts ↔
      ∃ l : Layout, l.Divides source ∧ l.tokens = ts) ∧
    (∀ l l' : Layout, l.Divides source → l'.Divides source → l = l') ∧
    ∀ l : Layout, l.Divides source →
      l.tokens.map Token.index = l.spans.map (fun span => (span.1 : Int)) ∧
      l.spans.Pairwise (fun a b => a.2 ≤ b.1) ∧
      (∀ span ∈ l.spans, span.1 < span.2) ∧
      ∀ (k : Nat) (c : Char), source.toList[k]? = some c →
        (isSpacing c = false ↔ ∃ span ∈ l.spans, span.1 ≤ k ∧ k < span.2) := by
  refine ⟨fun ts => ⟨fun h => ?_, ?_⟩, fun l l' hl hl' => ?_, fun l hl => ⟨?_, ?_, ?_, ?_⟩⟩
  · obtain ⟨l, hl, hchars, htokens⟩ := exists_layout_of_scan h
    exact ⟨l, ⟨hl, hchars⟩, htokens⟩
  · rintro ⟨l, ⟨hl, hchars⟩, rfl⟩
    rw [tokenize, ← hchars, scan_chars hl]
    rfl
  · exact Layout.eq_of_chars_eq hl.wellFormed hl'.wellFormed (hl.chars.trans hl'.chars.symm)
  · exact Layout.index_pieceTokens 0 l.pieces
  · exact Layout.pairwise_pieceSpans 0 l.pieces
  · exact fun span hspan => Layout.lt_of_mem_pieceSpans hl.wellFormed.spellings hspan
  · intro k c hk
    rw [← hl.chars] at hk
    have hspans := Layout.spacing_iff_pieceSpans hl.wellFormed hk 0
    rwa [Nat.zero_add] at hspans

/-- In `5-3 *-` the minus after the digit is the sign of a number, the one after the star
part of a symbol. -/
theorem tokenize_sign_or_symbol :
    tokenize "5-3 *-" = .ok [⟨.number (Numeral.mk none ['5'] none).value, 0⟩,
      ⟨.number (Numeral.mk (some .minus) ['3'] none).value, 1⟩, ⟨.operator "*-", 4⟩] := by
  refine ((tokenize_eq_ok_iff_divides "5-3 *-").1 _).mpr ?_
  refine ⟨⟨[⟨[], .numeral ⟨none, ['5'], none⟩⟩, ⟨[], .numeral ⟨some .minus, ['3'], none⟩⟩,
    ⟨[' '], .operator ['*', '-']⟩], []⟩, ⟨?_, rfl⟩, rfl⟩
  decide +kernel

end Token

end Reckoner
