import Reckoner.Postfix.Convert

set_option autoImplicit false

/-!
# Registries that tokens cannot tell apart

What tokens make use of in a registry: the meanings of the symbols and names that
occur among them, and which of their operators binds less tightly than which.  Two
registries *agree* on tokens if they do not differ in this.  They may differ in the
meanings of all other names, in the order of their entries, and in the numbers that
the precedences are.
-/

namespace Reckoner

/-! ## What occurs among tokens -/

namespace Token

/-- The symbol of an operator among tokens. -/
def Applies (ts : List Token) (symbol : String) : Prop := ∃ t ∈ ts, t.lexeme = .operator symbol

/-- A symbol or a name among tokens. -/
def Mentions (ts : List Token) (name : String) : Prop :=
  ∃ t ∈ ts, t.lexeme = .operator name ∨ t.lexeme = .name name

theorem Applies.mentions {ts : List Token} {symbol : String} (h : Applies ts symbol) :
    Mentions ts symbol := by
  obtain ⟨t, ht, hlexeme⟩ := h
  exact ⟨t, ht, .inl hlexeme⟩

end Token

/-! ## Agreement -/

namespace Definition

/-- Two definitions of one kind, with the same callback and as many operands. -/
def Alike : Definition → Definition → Prop
  | .operator o, .operator o' => o.callback = o'.callback
  | .function f, .function f' => f.arity = f'.arity ∧ f.callback = f'.callback
  | .operator _, .function _ | .function _, .operator _ => False

theorem Alike.refl (d : Definition) : d.Alike d := by
  cases d with
  | operator o => exact rfl
  | function f => exact ⟨rfl, rfl⟩

/-- The definition with another precedence, if it is an operator. -/
def renumber (f : Nat → Nat) : Definition → Definition
  | .operator o => .operator { o with precedence := f o.precedence }
  | .function g => .function g

theorem name_renumber (f : Nat → Nat) (d : Definition) : (d.renumber f).name = d.name := by
  cases d <;> rfl

theorem alike_renumber (f : Nat → Nat) (d : Definition) : (d.renumber f).Alike d := by
  cases d with
  | operator o => exact rfl
  | function g => exact ⟨rfl, rfl⟩

end Definition

namespace Registry

/-- Two operators of which the first binds less tightly. -/
def BindsLess (r : Registry) (symbol other : String) : Prop :=
  ∃ o p, r.operator symbol = .ok o ∧ r.operator other = .ok p ∧ o.precedence < p.precedence

theorem bindsLess_iff {r : Registry} {symbol other : String} {o p : InfixOperator}
    (ho : r.operator symbol = .ok o) (hp : r.operator other = .ok p) :
    r.BindsLess symbol other ↔ o.precedence < p.precedence := by
  constructor
  · rintro ⟨o', p', ho', hp', hlt⟩
    rw [ho] at ho'
    rw [hp] at hp'
    cases ho'
    cases hp'
    exact hlt
  · exact fun hlt => ⟨o, p, ho, hp, hlt⟩

/-- Registries that tokens cannot tell apart. -/
structure AgreesOn (r r' : Registry) (ts : List Token) : Prop where
  /-- a symbol or name means nothing in both, or much the same -/
  meanings : ∀ name, Token.Mentions ts name →
    Option.Rel Definition.Alike (r.lookup name) (r'.lookup name)
  /-- the operators have the same order -/
  order : ∀ symbol other, Token.Applies ts symbol → Token.Applies ts other →
    (r.BindsLess symbol other ↔ r'.BindsLess symbol other)

/-- The registry with its operators' precedences renumbered. -/
def renumber (f : Nat → Nat) (r : Registry) : Registry :=
  { r with entries := r.entries.map (Definition.renumber f) }

theorem lookup_renumber (f : Nat → Nat) (r : Registry) (name : String) :
    (r.renumber f).lookup name = (r.lookup name).map (Definition.renumber f) := by
  unfold lookup renumber
  rw [List.find?_map]
  congr 2
  funext d
  simp [Definition.name_renumber]

/-- What a symbol or name among the tokens means in both registries. -/
theorem AgreesOn.lookup_cases {r r' : Registry} {ts : List Token} (h : r.AgreesOn r' ts)
    {name : String} (hname : Token.Mentions ts name) :
    (r.lookup name = none ∧ r'.lookup name = none) ∨
    (∃ o o', r.lookup name = some (.operator o) ∧ r'.lookup name = some (.operator o') ∧
      o.callback = o'.callback) ∨
    ∃ f f', r.lookup name = some (.function f) ∧ r'.lookup name = some (.function f') ∧
      f.arity = f'.arity ∧ f.callback = f'.callback := by
  have hmeanings := h.meanings name hname
  generalize r.lookup name = meaning at hmeanings ⊢
  generalize r'.lookup name = meaning' at hmeanings ⊢
  cases hmeanings with
  | none => exact .inl ⟨rfl, rfl⟩
  | @some d d' halike =>
    match d, d', halike with
    | .operator o, .operator o', hcallback => exact .inr (.inl ⟨o, o', rfl, rfl, hcallback⟩)
    | .function f, .function f', ⟨harity, hcallback⟩ =>
      exact .inr (.inr ⟨f, f', rfl, rfl, harity, hcallback⟩)

/-- Registries agree on tokens if everything that occurs there means the same in both. -/
theorem agreesOn_of_lookup {r r' : Registry} {ts : List Token}
    (h : ∀ name, Token.Mentions ts name → r.lookup name = r'.lookup name) : r.AgreesOn r' ts := by
  have hoperator : ∀ symbol, Token.Applies ts symbol →
      ∀ o, r.operator symbol = .ok o ↔ r'.operator symbol = .ok o := by
    intro symbol hsymbol o
    rw [operator_eq_ok_iff, operator_eq_ok_iff, h symbol hsymbol.mentions]
  refine ⟨fun name hname => ?_, fun symbol other hsymbol hother => ?_⟩
  · rw [h name hname]
    cases r'.lookup name with
    | none => exact .none
    | some d => exact .some (Definition.Alike.refl d)
  · simp only [BindsLess, hoperator symbol hsymbol, hoperator other hother]

end Registry

end Reckoner
