import Reckoner.Expression.Grammar
import Reckoner.Postfix.Height
import Reckoner.Proofs.Postfix.Conservation

set_option autoImplicit false

/-!
# Phrases

Tokens that may be a primary, an expression or arguments put at most one value on the
stack, or one for each argument.  If they put that many there, all their parts do so
as well, and then they have a derivation: an operator has found a value on both sides,
and a function without parentheses has exactly one operand.

There is a lemma for each production of the grammar.
-/

namespace Reckoner.Grammar

variable {r : Registry}

/-! ## A primary in front of an expression -/

theorem Chain.cons {ls ms : List Lexeme} {t u : Tree} {links : ChainLinks} {symbol : String}
    {o : InfixOperator} (hprimary : Primary r ls t) (ho : r.operator symbol = .ok o)
    (h : Chain r ms u links) : Chain r (ls ++ .operator symbol :: ms) t ((o, u) :: links) := by
  match h with
  | .first hfirst => exact .link (.first hprimary) ho hfirst
  | .link hchain ho' hlast =>
    have hlonger := Chain.link (Chain.cons hprimary ho hchain) ho' hlast
    rwa [List.append_assoc] at hlonger

/-- A primary and an operator in front of an expression. -/
theorem exists_expression_cons {ls ms : List Lexeme} {t u : Tree} {symbol : String}
    {o : InfixOperator} (hprimary : Primary r ls t) (ho : r.operator symbol = .ok o)
    (h : Expression r ms u) : ∃ v, Expression r (ls ++ .operator symbol :: ms) v := by
  match h with
  | .bare hbare => exact ⟨_, .chainBare (.first hprimary) ho hbare⟩
  | .chain hchain => exact ⟨_, .chain (hchain.cons hprimary ho)⟩
  | .chainBare hchain ho' hbare =>
    have hlonger := Expression.chainBare (hchain.cons hprimary ho) ho' hbare
    rw [List.append_assoc] at hlonger
    exact ⟨_, hlonger⟩

end Reckoner.Grammar

namespace Reckoner.Postfix

open Grammar

variable {r : Registry}

/-! ## What phrases are -/

/-- Tokens that put at most one value on the stack for each argument that their commas
divide them into, and that have a derivation if they put that many there. -/
structure Phrase (r : Registry) (ts : List Token) (commas : Nat) (derives : Prop) : Prop where
  balanced : Balanced ts
  ownCommas_eq : ownCommas ts = commas
  terms_pos : 0 < terms ts
  height_le : height (written r ts) ≤ commas + 1
  derived : height (written r ts) = commas + 1 → derives

/-- Tokens that would be a primary. -/
def PrimaryPhrase (r : Registry) (ts : List Token) : Prop :=
  Phrase r ts 0 (∃ t, Primary r (ts.map Token.lexeme) t)

/-- Tokens that would be an expression. -/
def ExpressionPhrase (r : Registry) (ts : List Token) : Prop :=
  Phrase r ts 0 (∃ t, Expression r (ts.map Token.lexeme) t)

/-- Tokens that would be arguments. -/
def ArgumentsPhrase (r : Registry) (ts : List Token) (commas : Nat) : Prop :=
  Phrase r ts commas (∃ us, Arguments r (ts.map Token.lexeme) us ∧ us.length = commas + 1)

/-! ## Heights of terms -/

theorem height_operator {t : Token} {symbol : String} {o : InfixOperator}
    (h : t.lexeme = .operator symbol) (ho : r.operator symbol = .ok o) :
    height (t.lexeme.nodes r) = -1 := by
  rw [h, Lexeme.nodes_operator ho]
  rfl

theorem height_name {t : Token} {name : String} {f : NamedFunction} (h : t.lexeme = .name name)
    (hf : r.function name = .ok f) : height (t.lexeme.nodes r) = 1 - f.arity := by
  rw [h, Lexeme.nodes_name hf]
  simp [change, Definition.arity]

/-! ## Phrases that are put together -/

/-- Two phrases with a token between them that stands for at most an operator. -/
theorem Phrase.join {ts us : List Token} {c : Token} {m n k : Nat} {D E F : Prop}
    (hts : Phrase r ts m D) (hus : Phrase r us n E) (hdepth : c.lexeme.depth = 0)
    (hcommas : m + ownCommas [c] + n = k)
    (hheight : height (c.lexeme.nodes r) + m + n + 1 = k)
    (hderives : D → E → F) : Phrase r (ts ++ c :: us) k F := by
  have hc : Balanced [c] := balanced_singleton hdepth
  have hsplit : ts ++ c :: us = ts ++ ([c] ++ us) := rfl
  have hsum : height (written r (ts ++ c :: us)) =
      height (written r ts) + (height (c.lexeme.nodes r) + height (written r us)) := by simp
  have hleft := hts.height_le
  have hright := hus.height_le
  refine ⟨?_, ?_, ?_, ?_, ?_⟩
  · exact hts.balanced.append (hc.append hus.balanced)
  · rw [hsplit, ownCommas_append hts.balanced.closed, ownCommas_append hc.closed, hts.ownCommas_eq,
      hus.ownCommas_eq, ← Nat.add_assoc]
    exact hcommas
  · rw [terms_append]
    exact Nat.add_pos_left hts.terms_pos _
  · omega
  · intro hfull
    exact hderives (hts.derived (by omega)) (hus.derived (by omega))

/-- A phrase in parentheses. -/
theorem Phrase.enclosed {p c : Token} {ts : List Token} {commas : Nat} {D : Prop}
    (h : Phrase r ts commas D) (hp : p.lexeme = .openParen) (hc : c.lexeme = .closeParen) :
    Balanced (p :: ts ++ [c]) ∧ ownCommas (p :: ts ++ [c]) = 0 ∧
      0 < terms (p :: ts ++ [c]) ∧
      height (written r (p :: ts ++ [c])) = height (written r ts) := by
  refine ⟨h.balanced.enclosed hp hc, ownCommas_enclosed h.balanced hp hc, ?_, ?_⟩
  · have hinside : terms ([] ++ p :: ts) = terms [] + terms ts := terms_unclosed hp
    have hpos := h.terms_pos
    rw [List.nil_append] at hinside
    rw [terms_append, hinside]
    omega
  · simp [hp, hc, Lexeme.nodes]

/-- A name in front of tokens. -/
theorem Phrase.named {n : Token} {ts : List Token} {name : String} {f : NamedFunction}
    {D : Prop} (hn : n.lexeme = .name name) (hf : r.function name = .ok f)
    (hbalanced : Balanced ts) (hcommas : ownCommas ts = 0)
    (hheight : height (written r ts) ≤ f.arity)
    (hderives : height (written r ts) = f.arity → D) : Phrase r (n :: ts) 0 D := by
  have hterm : n.lexeme.isTerm = true := by rw [hn]; rfl
  have hname := height_name hn hf
  have hsplit : n :: ts = [n] ++ ts := rfl
  have hsum : height (written r (n :: ts)) = 1 - f.arity + height (written r ts) := by
    simp [hname]
  refine ⟨?_, ?_, ?_, ?_, ?_⟩
  · exact (balanced_of_isTerm hterm).append hbalanced
  · rw [hsplit, ownCommas_append (balanced_of_isTerm hterm).closed, ownCommas_of_isTerm hterm,
      hcommas]
  · rw [hsplit, terms_append, terms_of_isTerm hterm]
    exact Nat.add_pos_left Nat.one_pos _
  · omega
  · intro hfull
    exact hderives (by omega)

/-! ## Productions -/

theorem primaryPhrase_number {t : Token} {x : Float} (h : t.lexeme = .number x) :
    PrimaryPhrase r [t] := by
  have hterm : t.lexeme.isTerm = true := by rw [h]; rfl
  have hheight : height (written r [t]) = 1 := by
    rw [written_cons, h]
    rfl
  refine ⟨balanced_of_isTerm hterm, ownCommas_of_isTerm hterm, ?_, Int.le_of_eq hheight, ?_⟩
  · rw [terms_of_isTerm hterm]
    exact Nat.one_pos
  · intro _
    rw [List.map_singleton, h]
    exact ⟨_, .number x⟩

theorem primaryPhrase_constant {n : Token} {name : String} {f : NamedFunction}
    (hn : n.lexeme = .name name) (hf : r.function name = .ok f) (harity : f.arity = 0) :
    PrimaryPhrase r [n] := by
  refine .named hn hf balanced_nil rfl ?_ fun _ => ⟨.call (.function f) [], ?_⟩
  · exact Int.natCast_nonneg f.arity
  · rw [List.map_singleton, hn]
    exact .constant hf harity

theorem primaryPhrase_constantCall {n p c : Token} {name : String} {f : NamedFunction}
    (hn : n.lexeme = .name name) (hp : p.lexeme = .openParen) (hc : c.lexeme = .closeParen)
    (hf : r.function name = .ok f) (harity : f.arity = 0) : PrimaryPhrase r [n, p, c] := by
  refine .named hn hf (balanced_nil.enclosed hp hc) (ownCommas_enclosed balanced_nil hp hc) ?_
    fun _ => ⟨.call (.function f) [], ?_⟩
  · simp [hp, hc, Lexeme.nodes]
  · rw [List.map_cons, List.map_cons, List.map_singleton, hn, hp, hc]
    exact .constantCall hf harity

theorem primaryPhrase_call {n p c : Token} {us : List Token} {commas : Nat} {name : String}
    {f : NamedFunction} (hn : n.lexeme = .name name) (hp : p.lexeme = .openParen)
    (hc : c.lexeme = .closeParen) (hf : r.function name = .ok f) (h : ArgumentsPhrase r us commas)
    (harity : f.arity = commas + 1) : PrimaryPhrase r (n :: (p :: us ++ [c])) := by
  obtain ⟨hbalanced, hcommas, -, hheight⟩ := h.enclosed hp hc
  have hle := h.height_le
  refine .named hn hf hbalanced hcommas (by omega) ?_
  intro hfull
  obtain ⟨ts, harguments, hlength⟩ := h.derived (by omega)
  refine ⟨.call (.function f) ts, ?_⟩
  have hcall := Primary.call hf harguments (hlength.trans harity.symm)
  simpa [hn, hp, hc] using hcall

theorem primaryPhrase_group {p c : Token} {us : List Token} (hp : p.lexeme = .openParen)
    (hc : c.lexeme = .closeParen) (h : ExpressionPhrase r us) :
    PrimaryPhrase r (p :: us ++ [c]) := by
  obtain ⟨hbalanced, hcommas, hterms, hheight⟩ := h.enclosed hp hc
  have hle := h.height_le
  refine ⟨hbalanced, hcommas, hterms, by omega, ?_⟩
  intro hfull
  obtain ⟨t, ht⟩ := h.derived (by omega)
  refine ⟨t, ?_⟩
  have hgroup := Primary.group ht
  simpa [hp, hc] using hgroup

theorem PrimaryPhrase.expression {us : List Token} (h : PrimaryPhrase r us) :
    ExpressionPhrase r us := by
  refine ⟨h.balanced, h.ownCommas_eq, h.terms_pos, h.height_le, ?_⟩
  intro hfull
  obtain ⟨t, ht⟩ := h.derived hfull
  exact ⟨_, .chain (.first ht)⟩

theorem expressionPhrase_operator {us vs : List Token} {c : Token} {symbol : String}
    {o : InfixOperator} (hus : PrimaryPhrase r us) (hc : c.lexeme = .operator symbol)
    (ho : r.operator symbol = .ok o) (hvs : ExpressionPhrase r vs) :
    ExpressionPhrase r (us ++ c :: vs) := by
  have hterm : c.lexeme.isTerm = true := by rw [hc]; rfl
  refine hus.join hvs ?_ ?_ ?_ ?_
  · rw [hc]
    rfl
  · rw [ownCommas_of_isTerm hterm]
  · rw [height_operator hc ho]
    rfl
  · rintro ⟨t, ht⟩ ⟨u, hu⟩
    have hlonger := exists_expression_cons ht ho hu
    simpa [hc] using hlonger

theorem expressionPhrase_bareCall {n : Token} {us : List Token} {name : String}
    {f : NamedFunction} (hn : n.lexeme = .name name) (hf : r.function name = .ok f)
    (harity : f.arity ≠ 0) (hstart : ¬ StartsWithParen (us.map Token.lexeme))
    (h : ExpressionPhrase r us) : ExpressionPhrase r (n :: us) := by
  have hle := h.height_le
  refine .named hn hf h.balanced h.ownCommas_eq (by omega) ?_
  intro hfull
  -- one value for at least one operand
  have hunary : f.arity = 1 := by omega
  obtain ⟨t, ht⟩ := h.derived (by omega)
  refine ⟨.call (.function f) [t], ?_⟩
  rw [List.map_cons, hn]
  exact .bare (.mk hf hunary ht hstart)

theorem argumentsPhrase_one {us : List Token} (h : ExpressionPhrase r us) :
    ArgumentsPhrase r us 0 := by
  refine ⟨h.balanced, h.ownCommas_eq, h.terms_pos, h.height_le, ?_⟩
  intro hfull
  obtain ⟨t, ht⟩ := h.derived hfull
  exact ⟨[t], .one ht, rfl⟩

theorem argumentsPhrase_more {us vs : List Token} {c : Token} {commas : Nat}
    (hus : ExpressionPhrase r us) (hc : c.lexeme = .comma) (hvs : ArgumentsPhrase r vs commas) :
    ArgumentsPhrase r (us ++ c :: vs) (commas + 1) := by
  refine hus.join hvs ?_ ?_ ?_ ?_
  · rw [hc]
    rfl
  · simp [ownCommas, commasAt, hc, Lexeme.isComma, Nat.add_comm]
  · simp [hc, Lexeme.nodes]
  · rintro ⟨t, ht⟩ ⟨ts, hts, hlength⟩
    refine ⟨t :: ts, ?_, congrArg Nat.succ hlength⟩
    have hmore := Arguments.more ht hts
    simpa [hc] using hmore

end Reckoner.Postfix
