import Reckoner.Proofs.Interpretation.Outcome
import Reckoner.Proofs.Postfix.Lockstep
import Reckoner.Registry.Standard

set_option autoImplicit false

/-!
# Places show in messages about parentheses only

The same lexemes at other places have the same nodes or the same error.  An error of
parentheses names the place of its token, and that is all in which the errors may
differ.  So texts with the same spellings and other spacing are answered alike, but for
that place.
-/

namespace Reckoner

open Token

/-! ## Errors -/

namespace Postfix

variable {ts us : List Token} {e e' : StructureError}

/-- Errors that say the same are the same, or print the places of their own tokens in one
message about parentheses. -/
theorem SameError.eq_or_moved (h : SameError ts us e e') :
    e = e' ∨ e.category = .unbalanced ∧ e'.category = .unbalanced ∧
      SameButPlace ts us e.message e'.message := by
  cases h with
  | same _ => exact .inl rfl
  | unmatchedClose hplace =>
    exact .inr ⟨rfl, rfl, _, _, "Mismatched parens: ')' at index ", " has no matching '('",
      hplace, rfl, rfl⟩
  | strayComma hplace =>
    exact .inr ⟨rfl, rfl, _, _, "Mismatched parens: ',' at index ", " is outside of parenthesis",
      hplace, rfl, rfl⟩
  | unclosed hplace =>
    exact .inr ⟨rfl, rfl, _, _, "Mismatched parens: '(' at index ", " is never closed",
      hplace, rfl, rfl⟩

end Postfix

/-! ## Texts -/

/-- Layouts with the same spellings denote the same lexemes. -/
theorem Layout.lexeme_tokens_congr {l l' : Layout}
    (h : l.pieces.map Piece.spelling = l'.pieces.map Piece.spelling) :
    l.tokens.map Token.lexeme = l'.tokens.map Token.lexeme := by
  have hlexemes := congrArg (List.map Spelling.lexeme) h
  rw [List.map_map, List.map_map] at hlexemes
  rw [Layout.tokens, Layout.tokens, Layout.lexeme_pieceTokens, Layout.lexeme_pieceTokens]
  exact hlexemes

/-- Texts with the same lexemes are answered alike, but for a place. -/
theorem Registry.answer_of_same_lexemes (r : Registry) {source source' : String}
    {ts us : List Token} (hts : Token.tokenize source = .ok ts)
    (hus : Token.tokenize source' = .ok us) (hlexemes : ts.map Token.lexeme = us.map Token.lexeme) :
    r.answer source = r.answer source' ∨
    ∃ message message', r.answer source = .ok (.error message) ∧
      r.answer source' = .ok (.error message') ∧ SameButPlace ts us message message' := by
  rcases Postfix.ofTokens_congr (fun name _ => rfl) hlexemes with
    ⟨nodes, hnodes, hnodes'⟩ | ⟨e, e', he, he', hsame⟩
  · rw [answer_of_evaluate hts hnodes, answer_of_evaluate hus hnodes']
    exact .inl rfl
  · rw [answer_of_structural hts he, answer_of_structural hus he']
    rcases hsame.eq_or_moved with rfl | ⟨-, -, hmoved⟩
    · exact .inl rfl
    · exact .inr ⟨_, _, rfl, rfl, hmoved⟩

/-- The same lexemes at other places have the same nodes, or the same error, or errors
about parentheses whose messages differ at most in the place that they print, which is
the place of the token abreast.  So texts with the same spellings are answered alike
whatever their spacing, but for such a place. -/
theorem Postfix.ofTokens_of_same_lexemes (r : Registry) :
    (∀ ts us : List Token, ts.map Token.lexeme = us.map Token.lexeme →
      (∃ nodes, ofTokens r ts = .ok nodes ∧ ofTokens r us = .ok nodes) ∨
      ∃ e e', ofTokens r ts = .error e ∧ ofTokens r us = .error e' ∧
        (e = e' ∨ e.category = .unbalanced ∧ e'.category = .unbalanced ∧
          SameButPlace ts us e.message e'.message)) ∧
    ∀ (source source' : String) (l l' : Layout), l.Divides source → l'.Divides source' →
      l.pieces.map Piece.spelling = l'.pieces.map Piece.spelling →
      r.answer source = r.answer source' ∨
      ∃ message message', r.answer source = .ok (.error message) ∧
        r.answer source' = .ok (.error message') ∧
        SameButPlace l.tokens l'.tokens message message' := by
  constructor
  · intro ts us hlexemes
    rcases ofTokens_congr (fun name _ => rfl) hlexemes with hnodes | ⟨e, e', he, he', hsame⟩
    · exact .inl hnodes
    · exact .inr ⟨e, e', he, he', hsame.eq_or_moved⟩
  · intro source source' l l' hl hl' hspellings
    exact r.answer_of_same_lexemes hl.tokenize_eq hl'.tokenize_eq
      (Layout.lexeme_tokens_congr hspellings)

/-- A parenthesis and a numeral, with spacing before each. -/
def unclosed (spacing between : List Char) : Layout :=
  ⟨[⟨spacing, .openParen⟩, ⟨between, .numeral ⟨none, ['1'], none⟩⟩], []⟩

/-- With the blank before the parenthesis its place is 1, with the blank behind it 0;
the answers to both texts print it. -/
theorem Registry.answer_unclosed_moved :
    empty.answer " (1" = .ok (.error (StructureError.unclosed 1).message) ∧
    empty.answer "( 1" = .ok (.error (StructureError.unclosed 0).message) ∧
    SameButPlace (unclosed [' '] []).tokens (unclosed [] [' ']).tokens
      (StructureError.unclosed 1).message (StructureError.unclosed 0).message := by
  have hfirst : (unclosed [' '] []).Divides " (1" := ⟨by decide +kernel, rfl⟩
  have hsecond : (unclosed [] [' ']).Divides "( 1" := ⟨by decide +kernel, rfl⟩
  have hanswer := answer_of_structural (r := empty) hfirst.tokenize_eq (e := .unclosed 1) rfl
  have hanswer' := answer_of_structural (r := empty) hsecond.tokenize_eq (e := .unclosed 0) rfl
  refine ⟨hanswer, hanswer', ?_⟩
  rcases (Postfix.ofTokens_of_same_lexemes empty).2 _ _ _ _ hfirst hsecond rfl with
    hequal | ⟨message, message', hm, hm', hmoved⟩
  · rw [hanswer, hanswer'] at hequal
    exact absurd hequal (by decide +kernel)
  · rw [hanswer] at hm
    rw [hanswer'] at hm'
    cases hm
    cases hm'
    exact hmoved

end Reckoner
