import Reckoner.Number.Text
import Reckoner.Token.Basic

set_option autoImplicit false

/-!
# Tokens side by side

Two lists of tokens hold the same lexemes at other places: one of them was moved, or
spaced in another way.  What is said of one token then has a counterpart in what is
said of the token *abreast* of it, and if it prints the token's place it differs in
that alone.
-/

namespace Reckoner.Token

/-- Tokens that stand abreast in two lists: at one position, counted in tokens. -/
def Abreast (ts us : List Token) (t u : Token) : Prop :=
  ∃ k : Nat, ts[k]? = some t ∧ us[k]? = some u

theorem Abreast.cons {ts us : List Token} {t u : Token} (h : Abreast ts us t u) (v w : Token) :
    Abreast (v :: ts) (w :: us) t u := by
  obtain ⟨k, ht, hu⟩ := h
  exact ⟨k + 1, ht, hu⟩

theorem Abreast.eq {ts : List Token} {t u : Token} (h : Abreast ts ts t u) : t = u := by
  obtain ⟨k, ht, hu⟩ := h
  exact Option.some.inj (ht.symm.trans hu)

/-- Messages that differ only in a place that they print: each prints the place of one
of two tokens that stand abreast. -/
def SameButPlace (ts us : List Token) (message message' : String) : Prop :=
  ∃ t u front back, Abreast ts us t u ∧
    message = front ++ Number.intText t.index ++ back ∧
    message' = front ++ Number.intText u.index ++ back

end Reckoner.Token
