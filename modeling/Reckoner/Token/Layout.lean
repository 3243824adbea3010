import Reckoner.Token.Lexer

set_option autoImplicit false

/-!
# The lexical grammar

A text is a sequence of spellings with spacing before, between and after them.
Spacing is optional except between two spellings that would otherwise be read as
one, or cut elsewhere: those that *run into* each other.  A `Layout` is a text
taken apart in this way, and `Layout.tokens` are the tokens that it denotes.
Nothing here refers to how a text is cut into tokens.
-/

namespace Reckoner

namespace Spelling

/-- A spelling that the grammar has. -/
def WellFormed : Spelling → Prop
  | .numeral n => n.WellFormed ∧ n.isReadable = true
  | .operator symbol => symbol ≠ [] ∧ ∀ c ∈ symbol, isOperatorChar c = true
  | .name letters => letters ≠ [] ∧ ∀ c ∈ letters, c.isAlpha = true
  | .openParen | .closeParen | .comma => True

/-- Whether the grammar has a spelling. -/
def isWellFormed : Spelling → Bool
  | .numeral n => n.isWellFormed && n.isReadable
  | .operator symbol => !symbol.isEmpty && symbol.all isOperatorChar
  | .name letters => !letters.isEmpty && letters.all Char.isAlpha
  | .openParen | .closeParen | .comma => true

theorem isWellFormed_iff (s : Spelling) : s.isWellFormed = true ↔ s.WellFormed := by
  cases s <;> simp [isWellFormed, WellFormed, Numeral.isWellFormed_iff]

instance (s : Spelling) : Decidable s.WellFormed := decidable_of_iff _ s.isWellFormed_iff

/-- Whether a symbol is a sign. -/
def isSignSymbol (symbol : List Char) : Bool := symbol == ['+'] || symbol == ['-']

/-- Whether two spellings cannot stand next to each other without spacing. -/
def runsInto : Spelling → Spelling → Bool
  | .name _, .name _ => true
  | .operator _, .operator _ => true
  | .numeral _, .numeral n => n.sign.isNone
  | .operator symbol, .numeral n => n.sign.isSome || isSignSymbol symbol
  | _, _ => false

end Spelling

/-- A spelling with the spacing before it. -/
@[ext] structure Piece where
  spacing : List Char
  spelling : Spelling
  deriving DecidableEq, Repr

/-- A text taken apart. -/
structure Layout where
  pieces : List Piece
  /-- the spacing after the last spelling -/
  trailing : List Char
  deriving DecidableEq, Repr

namespace Layout

/-- The characters of pieces. -/
def pieceChars : List Piece → List Char
  | [] => []
  | p :: ps => p.spacing ++ p.spelling.chars ++ pieceChars ps

/-- The text that was taken apart. -/
def chars (l : Layout) : List Char := pieceChars l.pieces ++ l.trailing

/-- The tokens of pieces whose first character is found at `index`. -/
def pieceTokens (index : Nat) : List Piece → List Token
  | [] => []
  | p :: ps =>
    let start := index + p.spacing.length
    ⟨p.spelling.lexeme, start⟩ :: pieceTokens (start + p.spelling.chars.length) ps

/-- The tokens that a layout denotes. -/
def tokens (l : Layout) : List Token := pieceTokens 0 l.pieces

/-- The stretches of the spellings of pieces whose first character is found at
`index`, each from its first character to right after its last one. -/
def pieceSpans (index : Nat) : List Piece → List (Nat × Nat)
  | [] => []
  | p :: ps =>
    let start := index + p.spacing.length
    let stop := start + p.spelling.chars.length
    (start, stop) :: pieceSpans stop ps

/-- The stretches of the spellings of a layout. -/
def spans (l : Layout) : List (Nat × Nat) := pieceSpans 0 l.pieces

/-- Spacing stands between any two spellings that run into each other. -/
def Separated : List Piece → Prop
  | [] => True
  | [_] => True
  | p :: q :: ps =>
    (p.spelling.runsInto q.spelling = true → q.spacing ≠ []) ∧ Separated (q :: ps)

/-- Whether spacing stands between any two spellings that run into each other. -/
def areSeparated : List Piece → Bool
  | [] => true
  | [_] => true
  | p :: q :: ps => (!p.spelling.runsInto q.spelling || !q.spacing.isEmpty) && areSeparated (q :: ps)

theorem areSeparated_iff (ps : List Piece) : areSeparated ps = true ↔ Separated ps := by
  fun_induction areSeparated ps with
  | case1 => simp [Separated]
  | case2 => simp [Separated]
  | case3 p q ps ih =>
    rw [Separated, Bool.and_eq_true, Bool.or_eq_true, ih]
    cases p.spelling.runsInto q.spelling <;> simp

/-- The layouts of the grammar. -/
structure WellFormed (l : Layout) : Prop where
  /-- every spelling is one of the grammar -/
  spellings : ∀ p ∈ l.pieces, p.spelling.WellFormed
  /-- spacing holds spacing characters only -/
  spacings : ∀ p ∈ l.pieces, ∀ c ∈ p.spacing, isSpacing c = true
  trailing : ∀ c ∈ l.trailing, isSpacing c = true
  separated : Separated l.pieces

/-- Whether a layout is one of the grammar. -/
def isWellFormed (l : Layout) : Bool :=
  l.pieces.all (fun p => p.spelling.isWellFormed && p.spacing.all isSpacing) &&
    l.trailing.all isSpacing && areSeparated l.pieces

theorem isWellFormed_iff (l : Layout) : l.isWellFormed = true ↔ l.WellFormed := by
  simp only [isWellFormed, Bool.and_eq_true, List.all_eq_true, Spelling.isWellFormed_iff,
    areSeparated_iff]
  constructor
  · rintro ⟨⟨hpieces, htrailing⟩, hseparated⟩
    exact ⟨fun p hp => (hpieces p hp).1, fun p hp => (hpieces p hp).2, htrailing, hseparated⟩
  · intro h
    exact ⟨⟨fun p hp => ⟨h.spellings p hp, h.spacings p hp⟩, h.trailing⟩, h.separated⟩

instance (l : Layout) : Decidable l.WellFormed := decidable_of_iff _ l.isWellFormed_iff

/-- The layouts that take a text apart. -/
structure Divides (l : Layout) (source : String) : Prop where
  wellFormed : l.WellFormed
  chars : l.chars = source.toList

end Layout

end Reckoner
