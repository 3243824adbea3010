import Mathlib.Data.List.Forall2
import Reckoner.Failure
import Reckoner.Proofs.Postfix.Draining
import Reckoner.Registry.Agreement
import Reckoner.Token.Abreast

set_option autoImplicit false

/-!
# Two conversions in step

The same lexemes, found at other places, are converted under two registries that
agree on them.  Both conversions take the same steps: the outputs hold calls of the
same names, the same symbols and names wait on the stacks, and the frames are equal.
So both succeed or both stop for the same reason, except that an error of parentheses
names the place of its own token.
-/

namespace Reckoner.Postfix

open Token

/-- Results that are related, or reasons to stop that are related. -/
def Parallel {α β : Type} (R : α → β → Prop) (E : Stop → Stop → Prop) :
    Except Stop α → Except Stop β → Prop
  | .ok a, .ok b => R a b
  | .error stop, .error stop' => E stop stop'
  | _, _ => False

/-- Parallel steps stay parallel one after the other. -/
theorem Parallel.bind {α β α' β' : Type} {R : α → β → Prop} {Q : α' → β' → Prop}
    {E : Stop → Stop → Prop} {x : Except Stop α} {y : Except Stop β} {f : α → Except Stop α'}
    {g : β → Except Stop β'} (hxy : Parallel R E x y)
    (hfg : ∀ a b, R a b → Parallel Q E (f a) (g b)) : Parallel Q E (x >>= f) (y >>= g) := by
  match x, y, hxy with
  | .ok a, .ok b, hab => exact hfg a b hab
  | .error _, .error _, hstop => exact hstop

/-- Errors that say the same of two lists of tokens, each with the place of its own
token. -/
inductive SameError (ts us : List Token) : StructureError → StructureError → Prop
  | same {e : StructureError} : e.category ≠ .unbalanced → SameError ts us e e
  | unmatchedClose {i j : Int} :
      Abreast ts us ⟨.closeParen, i⟩ ⟨.closeParen, j⟩ →
      SameError ts us (.unmatchedClose i) (.unmatchedClose j)
  | strayComma {i j : Int} :
      Abreast ts us ⟨.comma, i⟩ ⟨.comma, j⟩ → SameError ts us (.strayComma i) (.strayComma j)
  | unclosed {i j : Int} :
      Abreast ts us ⟨.openParen, i⟩ ⟨.openParen, j⟩ → SameError ts us (.unclosed i) (.unclosed j)

/-- Errors that say the same of one list of tokens are the same. -/
theorem SameError.eq {ts : List Token} {e e' : StructureError} (h : SameError ts ts e e') :
    e = e' := by
  cases h with
  | same _ => rfl
  | unmatchedClose hplace => cases hplace.eq; rfl
  | strayComma hplace => cases hplace.eq; rfl
  | unclosed hplace => cases hplace.eq; rfl

/-- Reasons to stop that say the same of two lists of tokens. -/
inductive SameStop (ts us : List Token) : Stop → Stop → Prop
  | error {e e' : StructureError} : SameError ts us e e' → SameStop ts us (.error e) (.error e')
  | breakdown (b : Breakdown) : SameStop ts us (.breakdown b) (.breakdown b)

/-- Equal literals, or calls of what two registries have under one name. -/
inductive SameNode (r r' : Registry) (ts : List Token) : Node → Node → Prop
  | literal (x : Float) : SameNode r r' ts (.literal x) (.literal x)
  | call {name : String} {d d' : Definition} :
      Mentions ts name → r.lookup name = some d → r'.lookup name = some d' →
      SameNode r r' ts (.call d) (.call d')

/-- Entries that wait for tokens at one place. -/
inductive SameEntry (ts us : List Token) : Entry → Entry → Prop
  | operator {symbol : String} :
      Applies ts symbol → SameEntry ts us (.operator symbol) (.operator symbol)
  | name {name : String} : Mentions ts name → SameEntry ts us (.name name) (.name name)
  | paren {i j : Int} :
      Abreast ts us ⟨.openParen, i⟩ ⟨.openParen, j⟩ → SameEntry ts us (.paren i) (.paren j)

/-- States of two conversions that are in step. -/
structure InStep (r r' : Registry) (ts us : List Token) (s s' : State) : Prop where
  output : List.Forall₂ (SameNode r r' ts) s.output s'.output
  stack : List.Forall₂ (SameEntry ts us) s.stack s'.stack
  frames : s.frames = s'.frames

variable {r r' : Registry} {ts us : List Token}

/-! ## Names -/

/-- A symbol is an operator in both registries or in none. -/
theorem operatorOf_parallel (h : r.AgreesOn r' ts) {symbol : String} (hsymbol : Applies ts symbol) :
    Parallel (fun o o' => r.operator symbol = .ok o ∧ r'.operator symbol = .ok o')
      (SameStop ts us) (operatorOf r symbol) (operatorOf r' symbol) := by
  have hundefined : SameStop ts us (.error (.undefinedOperator symbol))
      (.error (.undefinedOperator symbol)) :=
    .error (.same fun hcategory => by cases hcategory)
  unfold operatorOf Registry.operator
  rcases h.lookup_cases hsymbol.mentions with ⟨hd, hd'⟩ | ⟨o, o', hd, hd', -⟩ | ⟨f, f', hd, hd', -⟩
  · rw [hd, hd']; exact hundefined
  · rw [hd, hd']; exact ⟨rfl, rfl⟩
  · rw [hd, hd']; exact hundefined

/-- A name is a function in both registries or in none. -/
theorem functionOf_parallel (h : r.AgreesOn r' ts) {name : String} (hname : Mentions ts name) :
    Parallel (fun f f' => r.function name = .ok f ∧ r'.function name = .ok f')
      (SameStop ts us) (functionOf r name) (functionOf r' name) := by
  have hundefined : SameStop ts us (.error (.undefinedFunction name))
      (.error (.undefinedFunction name)) :=
    .error (.same fun hcategory => by cases hcategory)
  unfold functionOf Registry.function
  rcases h.lookup_cases hname with ⟨hd, hd'⟩ | ⟨o, o', hd, hd', -⟩ | ⟨f, f', hd, hd', -⟩
  · rw [hd, hd']; exact hundefined
  · rw [hd, hd']; exact hundefined
  · rw [hd, hd']; exact ⟨rfl, rfl⟩

/-- The definitions that entries for one token stand for. -/
theorem definitionOf_parallel (h : r.AgreesOn r' ts) {e e' : Entry} (he : SameEntry ts us e e') :
    Parallel (fun d d' => SameNode r r' ts (.call d) (.call d')) (SameStop ts us)
      (definitionOf r e) (definitionOf r' e') := by
  cases he with
  | operator hsymbol =>
    refine (operatorOf_parallel h hsymbol).bind ?_
    rintro o o' ⟨ho, ho'⟩
    exact .call hsymbol.mentions (Registry.operator_eq_ok_iff.mp ho)
      (Registry.operator_eq_ok_iff.mp ho')
  | name hname =>
    refine (functionOf_parallel h hname).bind ?_
    rintro f f' ⟨hf, hf'⟩
    exact .call hname (Registry.function_eq_ok_iff.mp hf) (Registry.function_eq_ok_iff.mp hf')
  | paren _ => exact .breakdown .misplacedParen

/-- Two calls of one name: the definitions have that name and as many operands. -/
theorem name_and_arity_of_sameNode (h : r.AgreesOn r' ts) {d d' : Definition}
    (hnode : SameNode r r' ts (.call d) (.call d')) :
    d.name = d'.name ∧ d.arity = d'.arity ∧ d.callback = d'.callback := by
  cases hnode with
  | call hname hd hd' =>
    refine ⟨(Registry.name_of_lookup hd).trans (Registry.name_of_lookup hd').symm, ?_⟩
    rcases h.lookup_cases hname with ⟨hnone, -⟩ | ⟨o, o', ho, ho', hcallback⟩ |
      ⟨f, f', hf, hf', harity, hcallback⟩
    · rw [hd] at hnone; cases hnone
    · rw [hd] at ho; rw [hd'] at ho'
      cases ho; cases ho'
      exact ⟨rfl, hcallback⟩
    · rw [hd] at hf; rw [hd'] at hf'
      cases hf; cases hf'
      exact ⟨harity, hcallback⟩

/-! ## Single operations -/

/-- Two outputs and two stacks in step. -/
def SameRelease (r r' : Registry) (ts us : List Token) (p p' : List Node × List Entry) : Prop :=
  List.Forall₂ (SameNode r r' ts) p.1 p'.1 ∧ List.Forall₂ (SameEntry ts us) p.2 p'.2

theorem releaseTighter_parallel (h : r.AgreesOn r' ts) {precedence precedence' : Nat}
    (hprecedence : ∀ symbol o o', Applies ts symbol → r.operator symbol = .ok o →
      r'.operator symbol = .ok o' → (o.precedence < precedence ↔ o'.precedence < precedence'))
    {output output' : List Node} (houtput : List.Forall₂ (SameNode r r' ts) output output')
    {stack stack' : List Entry} (hstack : List.Forall₂ (SameEntry ts us) stack stack') :
    Parallel (SameRelease r r' ts us) (SameStop ts us) (releaseTighter r precedence output stack)
      (releaseTighter r' precedence' output' stack') := by
  induction hstack generalizing output output' with
  | nil => exact ⟨houtput, .nil⟩
  | @cons e e' stack stack' he hstack ih =>
    cases he with
    | name hname => exact ⟨houtput, .cons (.name hname) hstack⟩
    | paren hplace => exact ⟨houtput, .cons (.paren hplace) hstack⟩
    | @operator symbol hsymbol =>
      refine (operatorOf_parallel h hsymbol).bind ?_
      rintro o o' ⟨ho, ho'⟩
      -- the precedences may differ, but both runs go on or both stop here
      have hless := hprecedence symbol o o' hsymbol ho ho'
      by_cases hlt : o.precedence < precedence
      · rw [if_pos hlt, if_pos (hless.mp hlt)]
        exact ⟨houtput, .cons (.operator hsymbol) hstack⟩
      · rw [if_neg hlt, if_neg fun hlt' => hlt (hless.mpr hlt')]
        refine ih (.cons ?_ houtput)
        exact .call hsymbol.mentions (Registry.operator_eq_ok_iff.mp ho)
          (Registry.operator_eq_ok_iff.mp ho')

theorem isParen_of_sameEntry {e e' : Entry} (h : SameEntry ts us e e') :
    e.isParen = e'.isParen := by
  cases h <;> rfl

theorem release_parallel (h : r.AgreesOn r' ts) {output output' : List Node}
    (houtput : List.Forall₂ (SameNode r r' ts) output output') {stack stack' : List Entry}
    (hstack : List.Forall₂ (SameEntry ts us) stack stack') :
    Parallel (SameRelease r r' ts us) (SameStop ts us) (release r output stack)
      (release r' output' stack') := by
  induction hstack generalizing output output' with
  | nil => exact ⟨houtput, .nil⟩
  | @cons e e' stack stack' he hstack ih =>
    rw [release, release, ← isParen_of_sameEntry he]
    split
    · exact ⟨houtput, .cons he hstack⟩
    · exact (definitionOf_parallel h he).bind fun d d' hd => ih (.cons hd houtput)

theorem finish_parallel (h : r.AgreesOn r' ts) {output output' : List Node}
    (houtput : List.Forall₂ (SameNode r r' ts) output output') {stack stack' : List Entry}
    (hstack : List.Forall₂ (SameEntry ts us) stack stack') :
    Parallel (List.Forall₂ (SameNode r r' ts)) (SameStop ts us) (finish r output stack)
      (finish r' output' stack') := by
  induction hstack generalizing output output' with
  | nil => exact List.rel_reverse houtput
  | @cons e e' stack stack' he hstack ih =>
    cases he with
    | paren hplace => exact .error (.unclosed hplace)
    | operator hsymbol =>
      exact (definitionOf_parallel h (.operator hsymbol)).bind fun d d' hd => ih (.cons hd houtput)
    | name hname =>
      exact (definitionOf_parallel h (.name hname)).bind fun d d' hd => ih (.cons hd houtput)

theorem readName_inStep (h : r.AgreesOn r' ts) {name : String} (hname : Mentions ts name)
    (parenNext : Bool) {s s' : State} (hs : InStep r r' ts us s s') :
    InStep r r' ts us (readName r name parenNext s) (readName r' name parenNext s') := by
  have hpush : InStep r r' ts us (s.push (.name name)) (s'.push (.name name)) :=
    ⟨hs.output, .cons (.name hname) hs.stack, hs.frames⟩
  unfold readName Registry.function
  rcases h.lookup_cases hname with ⟨hd, hd'⟩ | ⟨o, o', hd, hd', -⟩ | ⟨f, f', hd, hd', harity, -⟩
  · rw [hd, hd']; exact hpush
  · rw [hd, hd']; exact hpush
  · rw [hd, hd']
    dsimp only
    rw [← harity]
    split
    · exact ⟨.cons (.call hname hd hd') hs.output, hs.stack, hs.frames⟩
    · exact hpush

theorem readOperator_inStep (h : r.AgreesOn r' ts) {symbol : String} (hsymbol : Applies ts symbol)
    {s s' : State} (hs : InStep r r' ts us s s') :
    Parallel (InStep r r' ts us) (SameStop ts us) (readOperator r symbol s)
      (readOperator r' symbol s') := by
  refine (operatorOf_parallel h hsymbol).bind ?_
  rintro p p' ⟨hp, hp'⟩
  have hprecedence : ∀ other o o', Applies ts other → r.operator other = .ok o →
      r'.operator other = .ok o' →
      (o.precedence < p.precedence ↔ o'.precedence < p'.precedence) := by
    intro other o o' hother ho ho'
    rw [← Registry.bindsLess_iff ho hp, ← Registry.bindsLess_iff ho' hp']
    exact h.order other symbol hother hsymbol
  refine (releaseTighter_parallel h hprecedence hs.output hs.stack).bind ?_
  rintro ⟨output, stack⟩ ⟨output', stack'⟩ ⟨houtput, hstack⟩
  exact ⟨houtput, .cons (.operator hsymbol) hstack, hs.frames⟩

theorem readOpen_inStep {i j : Int} (hplace : Abreast ts us ⟨.openParen, i⟩ ⟨.openParen, j⟩)
    (afterName : Bool) {s s' : State} (hs : InStep r r' ts us s s') :
    InStep r r' ts us (readOpen i afterName s) (readOpen j afterName s') := by
  refine ⟨hs.output, .cons (.paren hplace) hs.stack, ?_⟩
  simp only [readOpen, hs.output.length_eq, hs.frames]

theorem closeBracket_inStep (h : r.AgreesOn r' ts) {output output' : List Node}
    (houtput : List.Forall₂ (SameNode r r' ts) output output') {stack stack' : List Entry}
    (hstack : List.Forall₂ (SameEntry ts us) stack stack') (frames : List (Option CallFrame)) :
    Parallel (InStep r r' ts us) (SameStop ts us) (closeBracket r output stack frames)
      (closeBracket r' output' stack' frames) := by
  match frames with
  | [] => exact .breakdown .missingFrame
  | none :: frames => exact ⟨houtput, hstack, rfl⟩
  | some frame :: frames =>
    cases hstack with
    | nil => exact .breakdown .missingName
    | cons he hstack =>
      refine (definitionOf_parallel h he).bind ?_
      intro d d' hnode
      obtain ⟨hname, harity, -⟩ := name_and_arity_of_sameNode h hnode
      rw [← houtput.length_eq, ← hname, ← harity]
      dsimp only
      split
      · exact ⟨.cons hnode houtput, hstack, rfl⟩
      · exact .error (.same fun hcategory => by cases hcategory)

theorem readClose_inStep (h : r.AgreesOn r' ts) {i j : Int}
    (hplace : Abreast ts us ⟨.closeParen, i⟩ ⟨.closeParen, j⟩) {s s' : State}
    (hs : InStep r r' ts us s s') :
    Parallel (InStep r r' ts us) (SameStop ts us) (readClose r i s) (readClose r' j s') := by
  have hunmatched : SameStop ts us (.error (.unmatchedClose i)) (.error (.unmatchedClose j)) :=
    .error (.unmatchedClose hplace)
  refine (release_parallel h hs.output hs.stack).bind ?_
  rintro ⟨output, stack⟩ ⟨output', stack'⟩ ⟨houtput, hstack⟩
  cases hstack with
  | nil => exact hunmatched
  | cons he hstack =>
    cases he with
    | operator _ => exact hunmatched
    | name _ => exact hunmatched
    | paren _ =>
      rw [hs.frames]
      exact closeBracket_inStep h houtput hstack s'.frames

theorem readComma_inStep (h : r.AgreesOn r' ts) {i j : Int}
    (hplace : Abreast ts us ⟨.comma, i⟩ ⟨.comma, j⟩) {s s' : State}
    (hs : InStep r r' ts us s s') :
    Parallel (InStep r r' ts us) (SameStop ts us) (readComma r i s) (readComma r' j s') := by
  refine (release_parallel h hs.output hs.stack).bind ?_
  rintro ⟨output, stack⟩ ⟨output', stack'⟩ ⟨houtput, hstack⟩
  cases hstack with
  | nil => exact .error (.strayComma hplace)
  | cons he hstack => exact ⟨houtput, .cons he hstack, congrArg countComma hs.frames⟩

/-! ## Runs -/

/-- The same lexeme at one place of both lists keeps the conversions in step. -/
theorem step_inStep (h : r.AgreesOn r' ts) {t u : Token} (hlexeme : t.lexeme = u.lexeme)
    (hplace : Abreast ts us t u) (afterName parenNext : Bool) {s s' : State}
    (hs : InStep r r' ts us s s') :
    Parallel (InStep r r' ts us) (SameStop ts us) (step r afterName parenNext t s)
      (step r' afterName parenNext u s') := by
  obtain ⟨k, ht, -⟩ := id hplace
  have hmem := List.mem_of_getElem? ht
  obtain ⟨lexeme, i⟩ := t
  obtain ⟨_, j⟩ := u
  cases hlexeme
  cases lexeme with
  | number x => exact ⟨.cons (.literal x) hs.output, hs.stack, hs.frames⟩
  | operator symbol => exact readOperator_inStep h ⟨_, hmem, rfl⟩ hs
  | name name => exact readName_inStep h ⟨_, hmem, .inr rfl⟩ parenNext hs
  | openParen => exact readOpen_inStep hplace afterName hs
  | closeParen => exact readClose_inStep h hplace hs
  | comma => exact readComma_inStep h hplace hs

theorem beforeParen_eq_of_lexemes {vs ws : List Token}
    (h : vs.map Token.lexeme = ws.map Token.lexeme) (next : Bool) :
    beforeParen vs next = beforeParen ws next := by
  match vs, ws, h with
  | [], [], _ => rfl
  | v :: vs, w :: ws, h =>
    rw [beforeParen, beforeParen, (List.cons.inj h).1]

/-- The same lexemes keep the conversions in step. -/
theorem readAll_inStep (h : r.AgreesOn r' ts) {vs ws : List Token}
    (hlexemes : vs.map Token.lexeme = ws.map Token.lexeme)
    (hplaces : ∀ t u, Abreast vs ws t u → Abreast ts us t u) (afterName next : Bool)
    {s s' : State} (hs : InStep r r' ts us s s') :
    Parallel (InStep r r' ts us) (SameStop ts us) (readAll r afterName vs next s)
      (readAll r' afterName ws next s') := by
  induction vs generalizing ws afterName s s' with
  | nil =>
    cases List.map_eq_nil_iff.mp hlexemes.symm
    exact hs
  | cons v vs ih =>
    cases ws with
    | nil => cases hlexemes
    | cons w ws =>
      obtain ⟨hlexeme, hrest⟩ := List.cons.inj hlexemes
      -- `ts` and `us` stay the whole lists; what is left to read is abreast in them
      have hfirst : Abreast ts us v w := hplaces v w ⟨0, rfl, rfl⟩
      have hlater : ∀ t u, Abreast vs ws t u → Abreast ts us t u :=
        fun t u htu => hplaces t u (htu.cons v w)
      rw [readAll, readAll, beforeParen_eq_of_lexemes hrest, ← hlexeme]
      exact (step_inStep h hlexeme hfirst afterName _ hs).bind fun s₁ s₁' hs₁ =>
        ih hrest hlater v.lexeme.isName hs₁

theorem convert_parallel (h : r.AgreesOn r' ts)
    (hlexemes : ts.map Token.lexeme = us.map Token.lexeme) :
    Parallel (List.Forall₂ (SameNode r r' ts)) (SameStop ts us) (convert r ts) (convert r' us) := by
  have hinitial : InStep r r' ts us .initial .initial := ⟨.nil, .nil, rfl⟩
  refine (readAll_inStep h hlexemes (fun _ _ htu => htu) false false hinitial).bind ?_
  intro s s' hs
  exact finish_parallel h hs.output hs.stack

/-- The same lexemes under two registries that agree on them lead to calls of the same
names, or to errors that say the same. -/
theorem ofTokens_parallel (h : r.AgreesOn r' ts)
    (hlexemes : ts.map Token.lexeme = us.map Token.lexeme) :
    (∃ nodes nodes', ofTokens r ts = .ok nodes ∧ ofTokens r' us = .ok nodes' ∧
      List.Forall₂ (SameNode r r' ts) nodes nodes') ∨
    ∃ e e', ofTokens r ts = .error e ∧ ofTokens r' us = .error e' ∧ SameError ts us e e' := by
  have hparallel := convert_parallel h hlexemes
  rw [convert_eq_ofTokens, convert_eq_ofTokens] at hparallel
  match hts : ofTokens r ts, hus : ofTokens r' us with
  | .ok nodes, .ok nodes' =>
    rw [hts, hus] at hparallel
    exact .inl ⟨nodes, nodes', rfl, rfl, hparallel⟩
  | .error e, .error e' =>
    rw [hts, hus] at hparallel
    cases hparallel with
    | error hsame => exact .inr ⟨e, e', rfl, rfl, hsame⟩
  | .ok _, .error _ => rw [hts, hus] at hparallel; cases hparallel
  | .error _, .ok _ => rw [hts, hus] at hparallel; cases hparallel

/-- Calls of one name in one registry are the same calls. -/
theorem eq_of_sameNode (h : ∀ name, Mentions ts name → r.lookup name = r'.lookup name)
    {nodes nodes' : List Node} (hnodes : List.Forall₂ (SameNode r r' ts) nodes nodes') :
    nodes = nodes' := by
  induction hnodes with
  | nil => rfl
  | cons hnode _ ih =>
    cases hnode with
    | literal x => rw [ih]
    | call hname hd hd' =>
      rw [h _ hname, hd'] at hd
      cases hd
      rw [ih]

/-- Lexemes that mean the same in two registries have the same nodes at all places, or
errors that say the same. -/
theorem ofTokens_congr (h : ∀ name, Mentions ts name → r.lookup name = r'.lookup name)
    (hlexemes : ts.map Token.lexeme = us.map Token.lexeme) :
    (∃ nodes, ofTokens r ts = .ok nodes ∧ ofTokens r' us = .ok nodes) ∨
    ∃ e e', ofTokens r ts = .error e ∧ ofTokens r' us = .error e' ∧ SameError ts us e e' := by
  rcases ofTokens_parallel (Registry.agreesOn_of_lookup h) hlexemes with
    ⟨nodes, nodes', hnodes, hnodes', hsame⟩ | herror
  · rw [← eq_of_sameNode h hsame] at hnodes'
    exact .inl ⟨nodes, hnodes, hnodes'⟩
  · exact .inr herror

end Reckoner.Postfix
