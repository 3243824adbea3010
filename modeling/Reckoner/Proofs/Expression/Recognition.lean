import Reckoner.Expression.Alternation
import Reckoner.Proofs.Expression.Assembly
import Reckoner.Proofs.Expression.Parsing
import Reckoner.Proofs.Expression.Phrases
import Reckoner.Proofs.Interpretation.Outcome
import Reckoner.Proofs.Postfix.Acceptance

set_option autoImplicit false

/-!
# Which texts that have a value are expressions

A text has a value if its nodes make one tree, and they may do so although its
operators stand elsewhere than between their operands.  If operands and operators
take turns, that cannot happen: the text then divides into phrases, and one value is
left only if every phrase leaves as many as it can.  So a text that has a value is an
expression exactly if operands and operators take turns in it, and then its nodes make
the tree of the expression.
-/

namespace Reckoner.Grammar

variable {r : Registry}

/-! ## Expressions alternate -/

theorem startsWithParen_append {ls : List Lexeme} (h : StartsWithParen ls) (ms : List Lexeme) :
    StartsWithParen (ls ++ ms) := by
  match ls, h with
  | .openParen :: _, h => exact h

theorem OperandDone.not_startsWithParen {brackets : List Bool} {ls ms : List Lexeme}
    (hms : OperandDone r brackets ms) (hls : ¬ StartsWithParen ls) :
    ¬ StartsWithParen (ls ++ ms) := by
  match ls with
  | [] => cases hms <;> exact id
  | .openParen :: _ => exact absurd trivial hls
  | .number _ :: _ | .operator _ :: _ | .name _ :: _ | .closeParen :: _ | .comma :: _ => exact id

-- by induction on the derivation, with any lexemes that go on after it

mutual

theorem primary_due {ls ms : List Lexeme} {t : Tree} {brackets : List Bool}
    (h : Primary r ls t) (hms : OperandDone r brackets ms) : OperandDue r brackets (ls ++ ms) := by
  match h with
  | .number x => exact .number x hms
  | .constant hf harity => exact .constant hf harity hms
  | .constantCall _ _ => exact .emptyCall hms
  | .call _ harguments _ =>
    have hclose : OperandDone r (true :: brackets) (.closeParen :: ms) := .close hms
    simpa using OperandDue.call (arguments_due harguments hclose)
  | .group hexpression =>
    have hclose : OperandDone r (false :: brackets) (.closeParen :: ms) := .close hms
    simpa using OperandDue.group (expression_due hexpression hclose)

theorem arguments_due {ls ms : List Lexeme} {ts : List Tree} {brackets : List Bool}
    (h : Arguments r ls ts) (hms : OperandDone r (true :: brackets) ms) :
    OperandDue r (true :: brackets) (ls ++ ms) := by
  match h with
  | .one hexpression => exact expression_due hexpression hms
  | .more hexpression harguments =>
    rw [List.append_assoc]
    exact expression_due hexpression (.comma (arguments_due harguments hms))

theorem chain_due {ls ms : List Lexeme} {t : Tree} {links : ChainLinks} {brackets : List Bool}
    (h : Chain r ls t links) (hms : OperandDone r brackets ms) :
    OperandDue r brackets (ls ++ ms) := by
  match h with
  | .first hprimary => exact primary_due hprimary hms
  | .link hchain _ hprimary =>
    rw [List.append_assoc]
    exact chain_due hchain (.operator (primary_due hprimary hms))

theorem bareCall_due {ls ms : List Lexeme} {t : Tree} {brackets : List Bool}
    (h : BareCall r ls t) (hms : OperandDone r brackets ms) : OperandDue r brackets (ls ++ ms) := by
  match h with
  | .mk hf harity hexpression hstart =>
    refine .bareCall hf ?_ (hms.not_startsWithParen hstart) (expression_due hexpression hms)
    rw [harity]
    exact Nat.one_ne_zero

theorem expression_due {ls ms : List Lexeme} {t : Tree} {brackets : List Bool}
    (h : Expression r ls t) (hms : OperandDone r brackets ms) :
    OperandDue r brackets (ls ++ ms) := by
  match h with
  | .bare hbare => exact bareCall_due hbare hms
  | .chain hchain => exact chain_due hchain hms
  | .chainBare hchain _ hbare =>
    rw [List.append_assoc]
    exact chain_due hchain (.operator (bareCall_due hbare hms))

end

/-- In an expression operands and operators take turns. -/
theorem Parses.alternates {ts : List Token} {t : Tree} (h : Parses r ts t) : Alternates r ts := by
  have hdue := expression_due h .finish
  rwa [List.append_nil] at hdue

end Reckoner.Grammar

namespace Reckoner.Postfix

open Grammar

variable {r : Registry}

/-! ## Reading phrases -/

/-- Tokens with which accepted tokens end. -/
def EndOfAccepted (r : Registry) (ts : List Token) : Prop := ∃ before, Accepted r (before ++ ts)

namespace EndOfAccepted

theorem drop {us vs : List Token} (h : EndOfAccepted r (us ++ vs)) : EndOfAccepted r vs := by
  obtain ⟨before, h⟩ := h
  refine ⟨before ++ us, ?_⟩
  rwa [List.append_assoc]

theorem tail {t : Token} {ts : List Token} (h : EndOfAccepted r (t :: ts)) : EndOfAccepted r ts :=
  drop (show EndOfAccepted r ([t] ++ ts) from h)

theorem exists_operator {t : Token} {ts : List Token} {symbol : String}
    (h : EndOfAccepted r (t :: ts)) (ht : t.lexeme = .operator symbol) :
    ∃ o, r.operator symbol = .ok o := by
  obtain ⟨before, h⟩ := h
  exact h.operators t (by simp) symbol ht

theorem exists_function {t : Token} {ts : List Token} {name : String}
    (h : EndOfAccepted r (t :: ts)) (ht : t.lexeme = .name name) :
    ∃ f, r.function name = .ok f := by
  obtain ⟨before, h⟩ := h
  exact h.names t (by simp) name ht

/-- A call has the arguments that its function takes. -/
theorem argumentCount_eq {n p c : Token} {us vs : List Token} {name : String} {f : NamedFunction}
    (h : EndOfAccepted r (n :: p :: (us ++ c :: vs))) (hn : n.lexeme = .name name)
    (hp : p.lexeme = .openParen) (hc : c.lexeme = .closeParen) (hf : r.function name = .ok f)
    (hus : Balanced us) : argumentCount us = f.arity := by
  obtain ⟨before, h⟩ := h
  have hcall : CallIn (before ++ n :: p :: us) name us := ⟨⟨before, n, p, hn, hp, rfl⟩, hus⟩
  exact h.arguments _ c vs name us f (by simp) hc hcall hf

end EndOfAccepted

/-- A bare call starts here. -/
inductive BareCallAhead (r : Registry) (brackets : List Bool) : List Token → Prop
  | mk {n : Token} {us : List Token} {name : String} {f : NamedFunction} :
      n.lexeme = .name name → r.function name = .ok f → f.arity ≠ 0 →
      ¬ StartsWithParen (us.map Token.lexeme) → OperandDue r brackets (us.map Token.lexeme) →
      BareCallAhead r brackets (n :: us)

/-- A primary starts here, and what is after it goes on. -/
inductive PrimaryAhead (r : Registry) (brackets : List Bool) : List Token → Prop
  | mk {us vs : List Token} :
      PrimaryPhrase r us → OperandDone r brackets (vs.map Token.lexeme) →
      PrimaryAhead r brackets (us ++ vs)

/-- An expression starts here, and what is after it goes on, but not with an operator. -/
inductive ExpressionAhead (r : Registry) (brackets : List Bool) : List Token → Prop
  | mk {us vs : List Token} :
      ExpressionPhrase r us → OperandDone r brackets (vs.map Token.lexeme) →
      (∀ t ∈ vs.head?, ∀ symbol, t.lexeme ≠ .operator symbol) →
      ExpressionAhead r brackets (us ++ vs)

/-- Arguments and a closing parenthesis start here, and what is after it goes on. -/
inductive ArgumentsAhead (r : Registry) (brackets : List Bool) : List Token → Prop
  | mk {us vs : List Token} {c : Token} {commas : Nat} :
      ArgumentsPhrase r us commas → c.lexeme = .closeParen →
      OperandDone r brackets (vs.map Token.lexeme) → ArgumentsAhead r brackets (us ++ c :: vs)

/-- A call that has been read up to its closing parenthesis is a primary. -/
theorem ArgumentsAhead.primaryAhead {n p : Token} {ts : List Token} {name : String}
    {brackets : List Bool} (h : ArgumentsAhead r brackets ts) (hn : n.lexeme = .name name)
    (hp : p.lexeme = .openParen) (haccepted : EndOfAccepted r (n :: p :: ts)) :
    PrimaryAhead r brackets (n :: p :: ts) := by
  obtain ⟨f, hf⟩ := haccepted.exists_function hn
  cases h with
  | @mk us vs c commas hus hc hvs =>
    have hcount := haccepted.argumentCount_eq hn hp hc hf hus.balanced
    have hterms := hus.terms_pos
    rw [argumentCount, hus.ownCommas_eq, if_neg (by omega)] at hcount
    have hcall := PrimaryAhead.mk (primaryPhrase_call hn hp hc hf hus hcount.symm) hvs
    simpa using hcall

/-- After an operand an operator comes, or the expression has ended. -/
theorem operator_or_ends {brackets : List Bool} {vs : List Token}
    (h : OperandDone r brackets (vs.map Token.lexeme)) :
    (∃ c us symbol, vs = c :: us ∧ c.lexeme = .operator symbol ∧
      OperandDue r brackets (us.map Token.lexeme)) ∨
    ∀ t ∈ vs.head?, ∀ symbol, t.lexeme ≠ .operator symbol := by
  match vs with
  | [] => exact .inr fun t ht => nomatch ht
  | c :: us =>
    by_cases hoperator : ∃ symbol, c.lexeme = .operator symbol
    · obtain ⟨symbol, hc⟩ := hoperator
      rw [List.map_cons, hc] at h
      cases h with
      | operator hdue => exact .inl ⟨c, us, symbol, rfl, hc, hdue⟩
    · refine .inr ?_
      rintro t ⟨rfl⟩ symbol ht
      exact hoperator ⟨symbol, ht⟩

/-- An expression in a plain parenthesis is closed before anything else. -/
theorem ExpressionAhead.primaryAhead {p : Token} {ts : List Token} {brackets : List Bool}
    (h : ExpressionAhead r (false :: brackets) ts) (hp : p.lexeme = .openParen) :
    PrimaryAhead r brackets (p :: ts) := by
  cases h with
  | @mk us vs hus hvs hends =>
    generalize hls : vs.map Token.lexeme = ls at hvs
    cases hvs with
    | operator _ =>
      obtain ⟨t, vs, rfl, ht, -⟩ := List.map_eq_cons_iff.mp hls
      exact absurd ht (hends t rfl _)
    | close hrest =>
      obtain ⟨c, vs, rfl, hc, rfl⟩ := List.map_eq_cons_iff.mp hls
      have hgroup := PrimaryAhead.mk (primaryPhrase_group hp hc hus) hrest
      simpa using hgroup

/-- A bare call is its name and the expression after it. -/
theorem ExpressionAhead.bareCall {n : Token} {ts : List Token} {name : String}
    {f : NamedFunction} {brackets : List Bool} (h : ExpressionAhead r brackets ts)
    (hn : n.lexeme = .name name) (hf : r.function name = .ok f) (harity : f.arity ≠ 0)
    (hstart : ¬ StartsWithParen (ts.map Token.lexeme)) : ExpressionAhead r brackets (n :: ts) := by
  cases h with
  | @mk us vs hus hvs hends =>
    rw [List.map_append] at hstart
    have hphrase := expressionPhrase_bareCall hn hf harity (fun hparen => hstart (startsWithParen_append hparen _)) hus
    exact .mk hphrase hvs hends

/-- After an operator the expression goes on. -/
theorem ExpressionAhead.operator {us ts : List Token} {c : Token} {symbol : String}
    {brackets : List Bool} (h : ExpressionAhead r brackets ts) (hus : PrimaryPhrase r us)
    (hc : c.lexeme = .operator symbol) (haccepted : EndOfAccepted r (us ++ c :: ts)) :
    ExpressionAhead r brackets (us ++ c :: ts) := by
  obtain ⟨o, ho⟩ := haccepted.drop.exists_operator hc
  cases h with
  | mk hvs hrest hends =>
    have hlonger := ExpressionAhead.mk (expressionPhrase_operator hus hc ho hvs) hrest hends
    rwa [List.append_assoc] at hlonger

/-- After a comma the arguments go on. -/
theorem ArgumentsAhead.comma {us ts : List Token} {c : Token} {brackets : List Bool}
    (h : ArgumentsAhead r brackets ts) (hus : ExpressionPhrase r us) (hc : c.lexeme = .comma) :
    ArgumentsAhead r brackets (us ++ c :: ts) := by
  cases h with
  | mk hvs hclose hrest =>
    have hmore := ArgumentsAhead.mk (argumentsPhrase_more hus hc hvs) hclose hrest
    rwa [List.append_assoc] at hmore

mutual

/-- Where an operand is due, a bare call or a primary is read. -/
theorem bareCallAhead_or_primaryAhead {brackets : List Bool} (ts : List Token)
    (haccepted : EndOfAccepted r ts) (h : OperandDue r brackets (ts.map Token.lexeme)) :
    BareCallAhead r brackets ts ∨ PrimaryAhead r brackets ts := by
  generalize hls : ts.map Token.lexeme = ls at h
  cases h with
  | number x hdone =>
    obtain ⟨t, us, rfl, ht, rfl⟩ := List.map_eq_cons_iff.mp hls
    exact .inr (.mk (primaryPhrase_number ht) hdone)
  | constant hf harity hdone =>
    obtain ⟨n, us, rfl, hn, rfl⟩ := List.map_eq_cons_iff.mp hls
    exact .inr (.mk (primaryPhrase_constant hn hf harity) hdone)
  | emptyCall hdone =>
    obtain ⟨n, us, rfl, hn, hus⟩ := List.map_eq_cons_iff.mp hls
    obtain ⟨p, us, rfl, hp, hus⟩ := List.map_eq_cons_iff.mp hus
    obtain ⟨c, us, rfl, hc, rfl⟩ := List.map_eq_cons_iff.mp hus
    obtain ⟨f, hf⟩ := haccepted.exists_function hn
    have harity : argumentCount [] = f.arity :=
      haccepted.argumentCount_eq hn hp hc hf balanced_nil
    exact .inr (.mk (primaryPhrase_constantCall hn hp hc hf harity.symm) hdone)
  | call hdue =>
    obtain ⟨n, us, hts, hn, hus⟩ := List.map_eq_cons_iff.mp hls
    obtain ⟨p, us, rfl, hp, rfl⟩ := List.map_eq_cons_iff.mp hus
    rw [hts] at haccepted ⊢
    exact .inr ((argumentsAhead us haccepted.tail.tail hdue).primaryAhead hn hp haccepted)
  | bareCall hf harity hstart hdue =>
    obtain ⟨n, us, rfl, hn, rfl⟩ := List.map_eq_cons_iff.mp hls
    exact .inl (.mk hn hf harity hstart hdue)
  | group hdue =>
    obtain ⟨p, us, hts, hp, rfl⟩ := List.map_eq_cons_iff.mp hls
    rw [hts] at haccepted ⊢
    exact .inr ((expressionAhead us haccepted.tail hdue).primaryAhead hp)
  termination_by (ts.length, 0)
  decreasing_by
    all_goals
      subst hts
      simp only [List.length_cons]
      omega

/-- Where an operand is due, an expression is read. -/
theorem expressionAhead {brackets : List Bool} (ts : List Token) (haccepted : EndOfAccepted r ts)
    (h : OperandDue r brackets (ts.map Token.lexeme)) : ExpressionAhead r brackets ts := by
  rcases bareCallAhead_or_primaryAhead ts haccepted h with hbare | hprimary
  · generalize hts : ts = whole at haccepted hbare ⊢
    cases hbare with
    | @mk n us name f hn hf harity hstart hdue =>
      exact (expressionAhead us haccepted.tail hdue).bareCall hn hf harity hstart
  · generalize hts : ts = whole at haccepted hprimary ⊢
    cases hprimary with
    | @mk us vs hus hdone =>
      rcases operator_or_ends hdone with ⟨c, ws, symbol, rfl, hc, hdue⟩ | hends
      · exact (expressionAhead ws haccepted.drop.tail hdue).operator hus hc haccepted
      · exact .mk hus.expression hdone hends
  termination_by (ts.length, 1)
  decreasing_by
    · decreasing_tactic
    all_goals
      subst hts
      simp only [List.length_append, List.length_cons]
      omega

/-- Where an operand is due in the parenthesis of a call, its arguments are read. -/
theorem argumentsAhead {brackets : List Bool} (ts : List Token) (haccepted : EndOfAccepted r ts)
    (h : OperandDue r (true :: brackets) (ts.map Token.lexeme)) : ArgumentsAhead r brackets ts := by
  have hexpression := expressionAhead ts haccepted h
  generalize hts : ts = whole at haccepted hexpression ⊢
  cases hexpression with
  | @mk us vs hus hdone hends =>
    generalize hls : vs.map Token.lexeme = ls at hdone
    cases hdone with
    | operator _ =>
      obtain ⟨t, vs, rfl, ht, -⟩ := List.map_eq_cons_iff.mp hls
      exact absurd ht (hends t rfl _)
    | comma hdue =>
      obtain ⟨c, vs, rfl, hc, rfl⟩ := List.map_eq_cons_iff.mp hls
      exact (argumentsAhead vs haccepted.drop.tail hdue).comma hus hc
    | close hrest =>
      obtain ⟨c, vs, rfl, hc, rfl⟩ := List.map_eq_cons_iff.mp hls
      exact .mk (argumentsPhrase_one hus) hc hrest
  termination_by (ts.length, 2)
  decreasing_by
    · decreasing_tactic
    all_goals
      subst hts
      simp only [List.length_append, List.length_cons]
      omega

end

/-- Accepted tokens in which operands and operators take turns are one expression, if
they leave one value on the stack. -/
theorem Accepted.exists_parses {ts : List Token} (haccepted : Accepted r ts)
    (h : Alternates r ts) (hheight : height (written r ts) = 1) : ∃ t, Parses r ts t := by
  have hahead := expressionAhead ts ⟨[], haccepted⟩ h
  cases hahead with
  | @mk us vs hus hdone hends =>
    generalize hls : vs.map Token.lexeme = ls at hdone
    cases hdone with
    | operator _ =>
      obtain ⟨t, vs, rfl, ht, -⟩ := List.map_eq_cons_iff.mp hls
      exact absurd ht (hends t rfl _)
    | finish =>
      cases List.map_eq_nil_iff.mp hls
      rw [List.append_nil] at hheight ⊢
      exact hus.derived hheight

end Reckoner.Postfix

namespace Reckoner.Postfix

/-- Tokens that are put into the postorder of a tree are an expression exactly if operands
and operators take turns in them, and then it is the tree of the expression. -/
theorem parses_iff_of_convert {r : Registry} {ts : List Token} {t : Tree} (ht : t.WellFormed)
    (h : convert r ts = .ok t.postorder) :
    (Grammar.Parses r ts t ↔ Grammar.Alternates r ts) ∧
      ∀ u, Grammar.Parses r ts u → u = t := by
  have hunique : ∀ u, Grammar.Parses r ts u → u = t := by
    intro u hu
    have hsame := convert_of_parses hu
    rw [h] at hsame
    exact Tree.eq_of_postorder_eq (expression_suspends hu).1 ht (Except.ok.inj hsame).symm
  refine ⟨⟨Grammar.Parses.alternates, ?_⟩, hunique⟩
  intro halternates
  have haccepted := convert_follows r ts
  rw [h] at haccepted
  have hheight : height (written r ts) = 1 := by
    rw [← height_perm (convert_perm_written h)]
    exact t.height_postorder ht
  obtain ⟨u, hu⟩ := Accepted.exists_parses haccepted halternates hheight
  rwa [← hunique u hu]

end Reckoner.Postfix

namespace Reckoner.Registry

/-- A text whose nodes are the postorder of a tree has the value of the tree. -/
theorem answer_of_postorder {r : Registry} {source : String} {ts : List Token} {t : Tree}
    {x : Float} (htokens : Token.tokenize source = .ok ts)
    (hnodes : Postfix.ofTokens r ts = .ok t.postorder) (ht : t.WellFormed)
    (hvalue : t.evaluate = .ok x) : r.answer source = .ok (.value x) := by
  rw [answer_of_evaluate htokens hnodes, Postfix.evaluate_postorder ht, hvalue]

/-- The nodes of a text that has a value make exactly one tree, and the text is an
expression, namely that of this tree, exactly if operands and operators take turns in
it. -/
theorem parses_iff_alternates (r : Registry) (source : String) (x : Float)
    (h : r.answer source = .ok (.value x)) :
    ∃ ts t, Token.tokenize source = .ok ts ∧ Postfix.ofTokens r ts = .ok t.postorder ∧
      t.WellFormed ∧ t.evaluate = .ok x ∧
      (∀ u : Tree, u.WellFormed → Postfix.ofTokens r ts = .ok u.postorder → u = t) ∧
      (Grammar.Parses r ts t ↔ Grammar.Alternates r ts) ∧
      ∀ u, Grammar.Parses r ts u → u = t := by
  obtain ⟨ts, nodes, htokens, hnodes, hpasses⟩ := answer_eq_value_iff.mp h
  have hvalue := Postfix.evaluate_eq_ok_iff.mpr hpasses
  obtain ⟨t, ht, rfl⟩ := Tree.exists_of_evaluate hvalue
  rw [Postfix.evaluate_postorder ht] at hvalue
  have hparses := Postfix.parses_iff_of_convert ht (Postfix.ofTokens_eq_ok_iff.mp hnodes)
  refine ⟨ts, t, htokens, hnodes, ht, hvalue, ?_, hparses⟩
  intro u hu hsame
  rw [hnodes] at hsame
  exact Tree.eq_of_postorder_eq hu ht (Except.ok.inj hsame).symm

/-- `abs 1 - 2` has a value, and operands and operators take turns in it, so it is an
expression. -/
theorem parses_bareCall :
    ∃ ts t, Token.tokenize "abs 1 - 2" = .ok ts ∧ Grammar.Parses Standard.registry ts t ∧
      t.evaluate = .ok (Number.magnitude (digit '1' - digit '2')) := by
  have htokens : Token.tokenize "abs 1 - 2" =
      .ok [⟨.name "abs", 0⟩, ⟨.number (digit '1'), 4⟩, ⟨.operator "-", 6⟩,
        ⟨.number (digit '2'), 8⟩] :=
    Token.scan_chars (l := ⟨[⟨[], .name ['a', 'b', 's']⟩, ⟨[' '], .numeral ⟨none, ['1'], none⟩⟩,
      ⟨[' '], .operator ['-']⟩, ⟨[' '], .numeral ⟨none, ['2'], none⟩⟩], []⟩) (by decide +kernel) 0
  obtain ⟨minus, abs, habs, hbinary, hunary, hsubtracts, hmagnitude, hnodes⟩ :
      ∃ o f, Standard.registry.function "abs" = .ok f ∧ (Definition.operator o).arity = 2 ∧
        f.arity = 1 ∧ (∀ x y, (Definition.operator o).apply [x, y] = .ok (x - y)) ∧
        (∀ x, (Definition.function f).apply [x] = .ok (Number.magnitude x)) ∧
        ∀ x y, Postfix.ofTokens Standard.registry
          [⟨.name "abs", 0⟩, ⟨.number x, 4⟩, ⟨.operator "-", 6⟩, ⟨.number y, 8⟩] =
            .ok [.literal x, .literal y, .call (.operator o), .call (.function f)] :=
    ⟨_, _, rfl, rfl, rfl, fun _ _ => rfl, fun _ => rfl, fun _ _ => rfl⟩
  let t : Tree := .call (.function abs)
    [.call (.operator minus) [.literal (digit '1'), .literal (digit '2')]]
  have ht : t.WellFormed := ⟨hunary.symm, ⟨hbinary.symm, trivial, trivial, trivial⟩, trivial⟩
  have hvalue : t.evaluate = .ok (Number.magnitude (digit '1' - digit '2')) := by
    simp only [t, Tree.evaluate, Tree.evaluateAll, hsubtracts, hmagnitude]
  have hpostorder := hnodes (digit '1') (digit '2')
  have hanswer := answer_of_postorder (t := t) htokens hpostorder ht hvalue
  obtain ⟨ts, u, hts, -, -, hvalue', -, hparses, -⟩ := parses_iff_alternates _ _ _ hanswer
  refine ⟨ts, u, hts, hparses.mpr ?_, hvalue'⟩
  have hsame : ts = _ := Except.ok.inj (hts.symm.trans htokens)
  rw [hsame]
  refine .bareCall habs ?_ id (.number _ (.operator (.number _ .finish)))
  rw [hunary]
  exact Nat.one_ne_zero

/-- An operator after its operands is not between them: `1 2 +` has a value, but is no
expression. -/
theorem answer_postfix_sum :
    Standard.registry.answer "1 2 +" = .ok (.value (digit '1' + digit '2')) ∧
      ¬ ∃ ts t, Token.tokenize "1 2 +" = .ok ts ∧ Grammar.Parses Standard.registry ts t := by
  have htokens : Token.tokenize "1 2 +" =
      .ok [⟨.number (digit '1'), 0⟩, ⟨.number (digit '2'), 2⟩, ⟨.operator "+", 4⟩] :=
    Token.scan_chars (l := ⟨[⟨[], .numeral ⟨none, ['1'], none⟩⟩,
      ⟨[' '], .numeral ⟨none, ['2'], none⟩⟩, ⟨[' '], .operator ['+']⟩], []⟩) (by decide +kernel) 0
  constructor
  · obtain ⟨plus, hbinary, hadds, hnodes⟩ : ∃ o, (Definition.operator o).arity = 2 ∧
        (∀ x y, (Definition.operator o).apply [x, y] = .ok (x + y)) ∧
        ∀ x y, Postfix.ofTokens Standard.registry
          [⟨.number x, 0⟩, ⟨.number y, 2⟩, ⟨.operator "+", 4⟩] =
            .ok [.literal x, .literal y, .call (.operator o)] :=
      ⟨_, rfl, fun _ _ => rfl, fun _ _ => rfl⟩
    let t : Tree := .call (.operator plus) [.literal (digit '1'), .literal (digit '2')]
    have ht : t.WellFormed := ⟨hbinary.symm, trivial, trivial, trivial⟩
    have hvalue : t.evaluate = .ok (digit '1' + digit '2') := by
      simp only [t, Tree.evaluate, Tree.evaluateAll, hadds]
    exact answer_of_postorder (t := t) htokens (hnodes _ _) ht hvalue
  · have hnot : ∀ x y : Float, ¬ Grammar.Alternates Standard.registry
        [⟨.number x, 0⟩, ⟨.number y, 2⟩, ⟨.operator "+", 4⟩] := by
      intro x y halternates
      cases halternates with
      | number _ hdone => cases hdone
    rintro ⟨ts, t, hts, hparses⟩
    have hsame : ts = _ := Except.ok.inj (hts.symm.trans htokens)
    rw [hsame] at hparses
    exact hnot _ _ hparses.alternates

end Reckoner.Registry
