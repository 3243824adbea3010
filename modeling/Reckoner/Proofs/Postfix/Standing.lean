import Mathlib.Data.List.Forall2
import Mathlib.Data.List.Induction
import Reckoner.Postfix.Standing
import Reckoner.Proofs.Postfix.Tracking
import Reckoner.Registry.Standard

set_option autoImplicit false

/-!
# The stacks between two tokens

What a token does to the stacks is said once, by `Turn`: it releases entries from the
top, pushes at most one, and opens or closes at most one frame.  Everything that holds
between two tokens is kept by a turn, and so it holds along every conversion.
-/

namespace Reckoner.Postfix

variable {r : Registry}

/-! ## Releases -/

/-- Entries that are no parentheses have been taken off the top of the stack, and the
output has become no shorter. -/
structure Releases (output : List Node) (stack : List Entry) (output' : List Node)
    (stack' : List Entry) : Prop where
  entries : ∃ es, stack = es ++ stack' ∧ ∀ e ∈ es, e.isParen = false
  size : output.length ≤ output'.length

theorem Releases.refl (output : List Node) (stack : List Entry) :
    Releases output stack output stack :=
  ⟨⟨[], rfl, fun _ he => nomatch he⟩, Nat.le_refl _⟩

/-- One more entry is released. -/
theorem Releases.next {output output' : List Node} {stack stack' : List Entry} {e : Entry}
    {d : Definition} (hd : definitionOf r e = .ok d)
    (h : Releases output stack output' (e :: stack')) :
    Releases output stack (.call d :: output') stack' := by
  obtain ⟨es, rfl, hes⟩ := h.entries
  refine ⟨⟨es ++ [e], by simp, ?_⟩, Nat.le_succ_of_le h.size⟩
  intro e' he'
  rcases List.mem_append.mp he' with hmem | hlast
  · exact hes e' hmem
  · rw [List.mem_singleton.mp hlast]
    cases e with
    | paren index => cases hd
    | operator _ => rfl
    | name _ => rfl

theorem Releases.suffix {output output' : List Node} {stack stack' : List Entry}
    (h : Releases output stack output' stack') : stack' <:+ stack := by
  obtain ⟨es, rfl, -⟩ := h.entries
  exact List.suffix_append es stack'

theorem parens_append {es : List Entry} (hes : ∀ e ∈ es, e.isParen = false)
    (stack : List Entry) : parens (es ++ stack) = parens stack := by
  induction es with
  | nil => rfl
  | cons e es ih =>
    have hrest := ih fun e' he' => hes e' (List.mem_cons_of_mem _ he')
    cases e with
    | paren index => cases hes _ List.mem_cons_self
    | operator symbol => exact hrest
    | name name => exact hrest

theorem Releases.parens_eq {output output' : List Node} {stack stack' : List Entry}
    (h : Releases output stack output' stack') : parens stack = parens stack' := by
  obtain ⟨es, rfl, hes⟩ := h.entries
  exact parens_append hes stack'

theorem releases_of_release {output output' : List Node} {stack stack' : List Entry}
    (h : release r output stack = .ok (output', stack')) :
    Releases output stack output' stack' :=
  release_keeps (P := Releases output stack) (fun hd hp => hp.next hd) (.refl output stack) h

theorem releases_of_releaseTighter {precedence : Nat} {output output' : List Node}
    {stack stack' : List Entry}
    (h : releaseTighter r precedence output stack = .ok (output', stack')) :
    Releases output stack output' stack' :=
  releaseTighter_keeps (P := Releases output stack) (fun hd hp => hp.next hd)
    (.refl output stack) h

/-- What an operator leaves on top binds less tightly. -/
theorem holds_of_releaseTighter {precedence : Nat} {output output' : List Node}
    {stack stack' : List Entry}
    (h : releaseTighter r precedence output stack = .ok (output', stack')) :
    Holds r precedence stack' := by
  induction stack generalizing output with
  | nil => cases h; intro symbol rest hnil; cases hnil
  | cons e stack ih =>
    cases e with
    | name name => cases h; exact holds_name r precedence name stack
    | paren index => cases h; exact holds_paren r precedence index stack
    | operator symbol =>
      obtain ⟨o, ho, hrest⟩ := exists_of_bind_eq_ok h
      by_cases hlt : o.precedence < precedence
      · rw [if_pos hlt] at hrest
        cases hrest
        intro symbol' rest hstack
        cases hstack
        exact ⟨o, operator_of_operatorOf ho, hlt⟩
      · rw [if_neg hlt] at hrest
        exact ih hrest

/-! ## Turns -/

/-- What reading a token does to the stacks, and to the length of the output. -/
inductive Turn (r : Registry) (afterName parenNext : Bool) (s : State) : Token → State → Prop
  /-- a number, or a bare name without arguments -/
  | operand {t : Token} {n : Node} : Turn r afterName parenNext s t (s.emit n)
  | name {name : String} {index : Int} :
      (∀ f, r.function name = .ok f → f.arity = 0 → parenNext = true) →
      Turn r afterName parenNext s ⟨.name name, index⟩ (s.push (.name name))
  | operator {symbol : String} {index : Int} {o : InfixOperator} {output : List Node}
      {rest : List Entry} :
      r.operator symbol = .ok o → Releases s.output s.stack output rest →
      Holds r o.precedence rest →
      Turn r afterName parenNext s ⟨.operator symbol, index⟩
        ⟨output, .operator symbol :: rest, s.frames⟩
  | opening {index : Int} :
      Turn r afterName parenNext s ⟨.openParen, index⟩ (readOpen index afterName s)
  /-- below the parenthesis the name of the call is released, if there is a call -/
  | closing {index opened : Int} {output output' : List Node} {below rest : List Entry}
      {frame : Option CallFrame} {outer : List (Option CallFrame)} :
      Releases s.output s.stack output (.paren opened :: below) → s.frames = frame :: outer →
      Releases output below output' rest →
      Turn r afterName parenNext s ⟨.closeParen, index⟩ ⟨output', rest, outer⟩
  | comma {index : Int} {output : List Node} {rest : List Entry} :
      Releases s.output s.stack output rest →
      Turn r afterName parenNext s ⟨.comma, index⟩ ⟨output, rest, countComma s.frames⟩

section Steps

variable {afterName parenNext : Bool} {s s' : State}

theorem turn_readName (name : String) (index : Int) :
    Turn r afterName parenNext s ⟨.name name, index⟩ (readName r name parenNext s) := by
  unfold readName
  split
  · next f hf =>
    split
    · exact .operand
    · next hwaits =>
      refine .name ?_
      intro g hg harity
      rw [hf] at hg
      cases hg
      exact (Bool.not_eq_false _).mp fun hbare => hwaits ⟨harity, hbare⟩
  · next e he =>
    refine .name ?_
    intro f hf
    rw [he] at hf
    cases hf

theorem turn_of_readOperator {symbol : String} {index : Int}
    (h : readOperator r symbol s = .ok s') :
    Turn r afterName parenNext s ⟨.operator symbol, index⟩ s' := by
  obtain ⟨o, ho, hrest⟩ := exists_of_bind_eq_ok h
  obtain ⟨⟨output, rest⟩, hrelease, hs'⟩ := exists_of_bind_eq_ok hrest
  cases hs'
  exact .operator (operator_of_operatorOf ho) (releases_of_releaseTighter hrelease)
    (holds_of_releaseTighter hrelease)

theorem releases_of_closeBracket {output : List Node} {below : List Entry}
    (h : closeBracket r output below s.frames = .ok s') :
    ∃ frame, s.frames = frame :: s'.frames ∧ Releases output below s'.output s'.stack := by
  generalize hframes : s.frames = frames at h
  match frames, h with
  | none :: outer, h =>
    cases h
    exact ⟨none, rfl, .refl output below⟩
  | some frame :: outer, h =>
    cases below with
    | nil => cases h
    | cons e rest =>
      obtain ⟨d, hd, hrest⟩ := exists_of_bind_eq_ok h
      dsimp only at hrest
      split at hrest
      · cases hrest
        exact ⟨some frame, rfl, (Releases.refl output (e :: rest)).next hd⟩
      · cases hrest

theorem turn_of_readClose {index : Int} (h : readClose r index s = .ok s') :
    Turn r afterName parenNext s ⟨.closeParen, index⟩ s' := by
  obtain ⟨⟨output, stack⟩, hrelease, hrest⟩ := exists_of_bind_eq_ok h
  match stack, hrest with
  | .paren opened :: below, hrest =>
    obtain ⟨frame, hframes, hclosed⟩ := releases_of_closeBracket hrest
    exact .closing (releases_of_release hrelease) hframes hclosed

theorem turn_of_readComma {index : Int} (h : readComma r index s = .ok s') :
    Turn r afterName parenNext s ⟨.comma, index⟩ s' := by
  obtain ⟨⟨output, stack⟩, hrelease, hrest⟩ := exists_of_bind_eq_ok h
  match stack, hrest with
  | e :: rest, hrest =>
    cases hrest
    exact .comma (releases_of_release hrelease)

/-- Reading a token is a turn. -/
theorem turn_of_step {t : Token} (h : step r afterName parenNext t s = .ok s') :
    Turn r afterName parenNext s t s' := by
  obtain ⟨lexeme, index⟩ := t
  cases lexeme with
  | number x => cases h; exact .operand
  | operator symbol => exact turn_of_readOperator h
  | name name => cases h; exact turn_readName name index
  | openParen => cases h; exact .opening
  | closeParen => exact turn_of_readClose h
  | comma => exact turn_of_readComma h

end Steps

/-! ## States that are reached -/

/-- A state after one more token is a turn away from the one before it. -/
theorem reached_concat_iff {us vs : List Token} {t : Token} {s' : State} :
    Reached r (us ++ [t]) vs s' ↔
      ∃ s, Reached r us (t :: vs) s ∧
        step r (endsInName false us) (beforeParen vs false) t s = .ok s' := by
  have hone (s : State) : readAll r (endsInName false us) [t] (beforeParen vs false) s =
      step r (endsInName false us) (beforeParen vs false) t s := by
    show (step r (endsInName false us) (beforeParen vs false) t s >>= fun s' => .ok s') = _
    cases step r (endsInName false us) (beforeParen vs false) t s <;> rfl
  unfold Reached
  rw [readAll_append]
  constructor
  · intro h
    obtain ⟨s, hs, hstep⟩ := exists_of_bind_eq_ok h
    exact ⟨s, hs, (hone s).symm.trans hstep⟩
  · rintro ⟨s, hs, hstep⟩
    have hbefore : readAll r false us (beforeParen [t] (beforeParen vs false)) .initial = .ok s := hs
    rw [hbefore, ok_bind, hone, hstep]

/-- What holds at the start and is kept by every turn holds between any two tokens. -/
theorem Reached.induct {P : List Token → List Token → State → Prop}
    (start : ∀ vs, P [] vs .initial)
    (next : ∀ us t vs s s', Reached r (us ++ [t]) vs s' →
      Turn r (endsInName false us) (beforeParen vs false) s t s' → P us (t :: vs) s →
      P (us ++ [t]) vs s')
    {us vs : List Token} {s : State} (h : Reached r us vs s) : P us vs s := by
  induction us using List.reverseRecOn generalizing vs s with
  | nil => cases h; exact start vs
  | append_singleton us t ih =>
    obtain ⟨s₀, hbefore, hstep⟩ := reached_concat_iff.mp h
    exact next us t vs s₀ s h (turn_of_step hstep) (ih hbefore)

/-- A conversion that succeeds goes through a state before each token and after the last
one. -/
theorem exists_reached {us vs : List Token} {nodes : List Node}
    (h : convert r (us ++ vs) = .ok nodes) : ∃ s, Reached r us vs s := by
  obtain ⟨s', hread, -⟩ := exists_of_bind_eq_ok h
  rw [readAll_append] at hread
  obtain ⟨s, hs, -⟩ := exists_of_bind_eq_ok hread
  exact ⟨s, hs⟩

/-! ## Entries and their tokens -/

/-- What is known of an entry when it is pushed. -/
def Entry.Fits (r : Registry) (parenNext : Bool) (below : List Entry) : Entry → Prop
  | .operator s => ∃ o, r.operator s = .ok o ∧ Holds r o.precedence below
  | .name n => ∀ f, r.function n = .ok f → f.arity = 0 → parenNext = true
  | .paren _ => True

/-- An entry has been on the stack before, or has just been pushed. -/
theorem Turn.entry {afterName parenNext : Bool} {s s' : State} {t : Token} {e : Entry}
    {below : List Entry} (h : Turn r afterName parenNext s t s') (he : e :: below <:+ s'.stack) :
    e :: below <:+ s.stack ∨
      s'.stack = e :: below ∧ e.OfToken t ∧ e.Fits r parenNext below := by
  cases h with
  | operand => exact .inl he
  | name hbare =>
    rcases List.suffix_cons_iff.mp he with htop | hold
    · cases htop
      exact .inr ⟨rfl, rfl, hbare⟩
    · exact .inl hold
  | operator ho hreleases hholds =>
    rcases List.suffix_cons_iff.mp he with htop | hold
    · cases htop
      exact .inr ⟨rfl, rfl, _, ho, hholds⟩
    · exact .inl (hold.trans hreleases.suffix)
  | opening =>
    rcases List.suffix_cons_iff.mp he with htop | hold
    · cases htop
      exact .inr ⟨rfl, ⟨rfl, rfl⟩, trivial⟩
    · exact .inl hold
  | @closing _ opened _ _ below' _ _ _ hopen _ hcall =>
    have hbelow : below' <:+ s.stack := (List.suffix_cons _ _).trans hopen.suffix
    exact .inl ((he.trans hcall.suffix).trans hbelow)
  | comma hreleases => exact .inl (he.trans hreleases.suffix)

/-- An entry that one more token has left where it was. -/
theorem Stays.next {before after vs : List Token} {t u : Token} {e : Entry} {below : List Entry}
    {s : State} (h : Stays r before t after (u :: vs) e below)
    (hreached : Reached r (before ++ t :: (after ++ [u])) vs s) (he : e :: below <:+ s.stack) :
    Stays r before t (after ++ [u]) vs e below := by
  refine ⟨h.token, ?_, ?_⟩
  · rw [List.append_assoc]
    exact h.pushed
  · intro us ws hsplit
    rcases List.eq_nil_or_concat' ws with rfl | ⟨ws, w, rfl⟩
    · rw [List.append_nil] at hsplit
      subst hsplit
      exact ⟨s, hreached, he⟩
    · rw [← List.append_assoc] at hsplit
      obtain ⟨rfl, hlast⟩ := List.append_inj' hsplit rfl
      cases List.singleton_inj.mp hlast
      rw [List.append_assoc]
      exact h.kept us ws rfl

/-- An entry that has just been pushed. -/
theorem stays_of_pushed {us vs : List Token} {t : Token} {e : Entry} {below : List Entry}
    {s : State} (hreached : Reached r (us ++ [t]) vs s) (he : s.stack = e :: below)
    (htoken : e.OfToken t) : Stays r us t [] vs e below := by
  refine ⟨htoken, ⟨s, hreached, he⟩, ?_⟩
  intro ws xs hsplit
  obtain ⟨rfl, rfl⟩ := List.nil_eq_append_iff.mp hsplit
  exact ⟨s, hreached, he ▸ List.suffix_refl _⟩

/-- Every entry of a stack is a token that was read, and has been there since. -/
theorem Reached.exists_stays {us vs : List Token} {s : State} (h : Reached r us vs s) :
    ∀ e below, e :: below <:+ s.stack →
      ∃ before t after, us = before ++ t :: after ∧ Stays r before t after vs e below ∧
        e.Fits r (beforeParen (after ++ vs) false) below := by
  refine Reached.induct (P := fun us vs s => ∀ e below, e :: below <:+ s.stack →
    ∃ before t after, us = before ++ t :: after ∧ Stays r before t after vs e below ∧
      e.Fits r (beforeParen (after ++ vs) false) below) ?_ ?_ h
  · intro vs e below he
    exact absurd (List.suffix_nil.mp he) (List.cons_ne_nil e below)
  · intro us t vs s s' hreached hturn ih e below he
    rcases hturn.entry he with hold | ⟨htop, htoken, hfits⟩
    · obtain ⟨before, n, after, rfl, hstays, hfits⟩ := ih e below hold
      rw [List.append_assoc, List.cons_append] at hreached
      refine ⟨before, n, after ++ [t], by simp, hstays.next hreached he, ?_⟩
      rwa [List.append_assoc]
    · exact ⟨us, t, [], rfl, stays_of_pushed hreached htop htoken, hfits⟩

/-! ## Parentheses and frames -/

/-- A parenthesis that was opened, and whether that was behind a name. -/
def Opened (r : Registry) (us vs : List Token) (paren : Int × List Entry)
    (frame : Option CallFrame) : Prop :=
  ∃ before p after, us = before ++ p :: after ∧
    Stays r before p after vs (.paren paren.1) paren.2 ∧ frame.isSome = endsInName false before

theorem suffix_of_mem_parens {stack below : List Entry} {index : Int}
    (h : (index, below) ∈ parens stack) : .paren index :: below <:+ stack := by
  induction stack with
  | nil => cases h
  | cons e stack ih =>
    cases e with
    | paren i =>
      rcases List.mem_cons.mp h with htop | hrest
      · cases htop
        exact List.suffix_refl _
      · exact (ih hrest).trans (List.suffix_cons _ _)
    | operator symbol => exact (ih h).trans (List.suffix_cons _ _)
    | name name => exact (ih h).trans (List.suffix_cons _ _)

/-- Parentheses that are still open after one more token. -/
theorem opened_next {us vs : List Token} {t : Token} {s : State}
    {ps : List (Int × List Entry)} {frames : List (Option CallFrame)}
    (h : List.Forall₂ (Opened r us (t :: vs)) ps frames) (hreached : Reached r (us ++ [t]) vs s)
    (hps : ∀ p ∈ ps, p ∈ parens s.stack) :
    List.Forall₂ (Opened r (us ++ [t]) vs) ps frames := by
  induction h with
  | nil => exact .nil
  | @cons paren frame _ _ hopened _ ih =>
    refine .cons ?_ (ih fun p hp => hps p (List.mem_cons_of_mem _ hp))
    obtain ⟨before, p, after, rfl, hstays, hframe⟩ := hopened
    have hkept := suffix_of_mem_parens (hps paren List.mem_cons_self)
    rw [List.append_assoc, List.cons_append] at hreached
    exact ⟨before, p, after ++ [t], by simp, hstays.next hreached hkept, hframe⟩

theorem opened_countComma {us vs : List Token} {ps : List (Int × List Entry)}
    {frames : List (Option CallFrame)} (h : List.Forall₂ (Opened r us vs) ps frames) :
    List.Forall₂ (Opened r us vs) ps (countComma frames) := by
  match frames, h with
  | [], h => exact h
  | none :: _, h => exact h
  | some _ :: _, .cons hopened hrest => exact .cons hopened hrest

/-- The frames are those of the parentheses that are open. -/
theorem Reached.opened {us vs : List Token} {s : State} (h : Reached r us vs s) :
    List.Forall₂ (Opened r us vs) (parens s.stack) s.frames := by
  refine Reached.induct (P := fun us vs s => List.Forall₂ (Opened r us vs) (parens s.stack) s.frames)
    (fun vs => .nil) ?_ h
  intro us t vs s s' hreached hturn ih
  cases hturn with
  | operand => exact opened_next ih hreached fun p hp => hp
  | name _ => exact opened_next ih hreached fun p hp => hp
  | operator _ hreleases _ =>
    rw [hreleases.parens_eq] at ih
    exact opened_next ih hreached fun p hp => hp
  | @opening index =>
    refine .cons ⟨us, _, [], rfl, stays_of_pushed hreached rfl ⟨rfl, rfl⟩, ?_⟩ ?_
    · cases endsInName false us <;> rfl
    · exact opened_next ih hreached fun p hp => List.mem_cons_of_mem _ hp
  | closing hopen hframes hcall =>
    rw [hopen.parens_eq, hframes] at ih
    cases ih with
    | cons _ hrest =>
      rw [hcall.parens_eq] at hrest
      exact opened_next hrest hreached fun p hp => hp
  | comma hreleases =>
    rw [hreleases.parens_eq] at ih
    exact opened_countComma (opened_next ih hreached fun p hp => hp)

/-- The name written right before the parenthesis of a call is what it stands on. -/
theorem exists_name_of_opened {us vs : List Token} {index : Int} {below : List Entry}
    {frame : CallFrame} (h : Opened r us vs (index, below) (some frame)) :
    ∃ before n p after name beneath, us = before ++ n :: p :: after ∧
      below = .name name :: beneath ∧
      Stays r before n (p :: after) vs (.name name) beneath ∧
      Stays r (before ++ [n]) p after vs (.paren index) below := by
  obtain ⟨before', p, after, rfl, hparen, hname⟩ := h
  obtain ⟨before, n, name, rfl, hn⟩ := exists_name_of_endsInName hname.symm
  obtain ⟨lexeme, place⟩ := n
  obtain ⟨lexeme', place'⟩ := p
  obtain ⟨rfl, rfl⟩ : lexeme' = .openParen ∧ place' = index := hparen.token
  cases hn
  -- the stack below the parenthesis is the one that the name has left
  obtain ⟨s₂, hs₂, htop₂⟩ := hparen.pushed
  obtain ⟨s₁, hs₁, hopen⟩ := reached_concat_iff.mp hs₂
  cases hopen
  obtain ⟨-, rfl⟩ := List.cons.inj htop₂
  obtain ⟨s₀, hs₀, hread⟩ := reached_concat_iff.mp hs₁
  have hpushed : s₀.push (.name name) = s₁ :=
    (readName_beforeParen r name s₀).symm.trans (Except.ok.inj hread)
  have htop₁ : s₁.stack = .name name :: s₀.stack := by rw [← hpushed]; rfl
  refine ⟨before, ⟨.name name, place⟩, ⟨.openParen, place'⟩, after, name, s₀.stack, by simp,
    htop₁, ⟨rfl, ?_, ?_⟩, hparen⟩
  · exact ⟨s₁, hs₁, htop₁⟩
  · intro ws xs hsplit
    rcases List.cons_eq_append_iff.mp hsplit with ⟨rfl, rfl⟩ | ⟨ws, rfl, hafter⟩
    · exact ⟨s₁, hs₁, htop₁ ▸ List.suffix_refl _⟩
    · obtain ⟨s, hs, hsuffix⟩ := hparen.kept ws xs hafter
      rw [List.append_assoc] at hs
      exact ⟨s, hs, htop₁ ▸ (List.suffix_cons _ _).trans hsuffix⟩

/-! ## Remembered lengths -/

theorem outputSizes_countComma (frames : List (Option CallFrame)) :
    outputSizes (countComma frames) = outputSizes frames := by
  match frames with
  | [] => rfl
  | none :: _ => rfl
  | some _ :: _ => rfl

/-- The output is at least as long as it was when the latest call was opened, and so on
down to the first one. -/
theorem Reached.sizes {us vs : List Token} {s : State} (h : Reached r us vs s) :
    (s.output.length :: outputSizes s.frames).Pairwise fun inner outer => outer ≤ inner := by
  refine Reached.induct (P := fun _ _ s =>
    (s.output.length :: outputSizes s.frames).Pairwise fun inner outer => outer ≤ inner)
    (fun vs => List.pairwise_singleton _ _) ?_ h
  intro us t vs s s' _ hturn ih
  have hgrown {m n : Nat} {sizes : List Nat} (hle : m ≤ n)
      (hsizes : (m :: sizes).Pairwise fun inner outer => outer ≤ inner) :
      (n :: sizes).Pairwise fun inner outer => outer ≤ inner := by
    obtain ⟨hbelow, hsorted⟩ := List.pairwise_cons.mp hsizes
    exact List.pairwise_cons.mpr ⟨fun size hsize => Nat.le_trans (hbelow size hsize) hle, hsorted⟩
  cases hturn with
  | operand => exact hgrown (Nat.le_succ _) ih
  | name _ => exact ih
  | operator _ hreleases _ => exact hgrown hreleases.size ih
  | opening =>
    cases hname : endsInName false us with
    | false => exact ih
    | true =>
      refine List.pairwise_cons.mpr ⟨?_, ih⟩
      intro size hsize
      rcases List.mem_cons.mp hsize with rfl | hold
      · exact Nat.le_refl _
      · exact List.rel_of_pairwise_cons ih hold
  | @closing _ _ _ _ _ _ frame _ hopen hframes hcall =>
    rw [hframes] at ih
    refine hgrown (Nat.le_trans hopen.size hcall.size) ?_
    cases frame with
    | none => exact ih
    | some frame => exact (List.pairwise_cons_cons.mp ih).2.1
  | comma hreleases =>
    rw [outputSizes_countComma]
    exact hgrown hreleases.size ih

/-! ## Rows of operators -/

/-- Operators that each hold what is below them bind tighter from the bottom up. -/
theorem exists_operators {symbols : List String} {below stack : List Entry}
    (h : ∀ symbol rest, .operator symbol :: rest <:+ stack →
      ∃ o, r.operator symbol = .ok o ∧ Holds r o.precedence rest)
    (hrow : symbols.map .operator ++ below <:+ stack) :
    ∃ os : List InfixOperator, symbols.map r.operator = os.map .ok ∧
      os.Pairwise fun upper lower => lower.precedence < upper.precedence := by
  induction symbols with
  | nil => exact ⟨[], rfl, .nil⟩
  | cons symbol symbols ih =>
    obtain ⟨o, ho, hholds⟩ := h symbol _ hrow
    obtain ⟨os, hos, hsorted⟩ := ih ((List.suffix_cons _ _).trans hrow)
    refine ⟨o :: os, by rw [List.map_cons, List.map_cons, ho, hos], ?_⟩
    refine List.pairwise_cons.mpr ⟨?_, hsorted⟩
    match symbols, os, hos with
    | [], [], _ => exact fun o' ho' => nomatch ho'
    | next :: symbols, o₁ :: os, hos =>
      obtain ⟨hnext, -⟩ := List.cons.inj hos
      obtain ⟨o₂, ho₂, hlt⟩ := hholds next _ rfl
      rw [hnext] at ho₂
      cases ho₂
      intro o' ho'
      rcases List.mem_cons.mp ho' with rfl | hmem
      · exact hlt
      · exact Nat.lt_trans (List.rel_of_pairwise_cons hsorted hmem) hlt

/-! ## Between two tokens -/

/-- Entries of two lists at the same place counted from the end. -/
theorem rel_of_getElem?_reverse {α β : Type} {R : α → β → Prop} {as : List α} {bs : List β}
    (h : List.Forall₂ R as bs) {k : Nat} {a : α} {b : β} (ha : as.reverse[k]? = some a)
    (hb : bs.reverse[k]? = some b) : R a b := by
  obtain ⟨hka, rfl⟩ := List.getElem?_eq_some_iff.mp ha
  obtain ⟨hkb, rfl⟩ := List.getElem?_eq_some_iff.mp hb
  exact (List.forall₂_reverse_iff.mpr h).get hka hkb

theorem Reached.sound {us vs : List Token} {s : State} (h : Reached r us vs s) :
    Sound r us vs s where
  frames := h.opened.length_eq.symm
  calls := fun _ _ _ _ hparen hframe =>
    exists_name_of_opened (rel_of_getElem?_reverse h.opened hparen hframe)
  sizes_le := fun _ hsize => List.rel_of_pairwise_cons h.sizes hsize
  sizes_sorted := (List.pairwise_cons.mp h.sizes).2
  operators := fun _ _ hrow => by
    refine exists_operators ?_ hrow
    intro symbol rest hsymbol
    obtain ⟨_, _, _, _, _, hfits⟩ := h.exists_stays _ _ hsymbol
    exact hfits
  constants := fun name below f hname hf harity => by
    obtain ⟨before, n, after, hus, hstays, hfits⟩ := h.exists_stays _ _ hname
    exact ⟨before, n, after, hus, hstays, hfits f hf harity⟩

theorem Reached.provided {us vs : List Token} {s : State} (h : Reached r us vs s) :
    Provided r s := by
  refine ⟨?_, ?_⟩
  · intro precedence
    obtain ⟨es, rest, hstack, -, hrest⟩ := exists_waiting s.stack
    have hdefined : ∀ symbol, .operator symbol ∈ es → ∃ o, r.operator symbol = .ok o := by
      intro symbol hmem
      obtain ⟨above, below, hsplit⟩ := List.append_of_mem hmem
      have hsymbol : .operator symbol :: (below ++ rest) <:+ s.stack :=
        ⟨above, by rw [hstack, hsplit, List.append_assoc, List.cons_append]⟩
      obtain ⟨_, _, _, _, _, o, ho, _⟩ := h.exists_stays _ _ hsymbol
      exact ⟨o, ho⟩
    obtain ⟨_, _, _, _, hreleased, _⟩ := exists_releaseTighter precedence hdefined hrest s.output
    rw [hstack]
    exact ⟨_, hreleased⟩
  · intro output index below hrelease
    have hopened := h.opened
    rw [(releases_of_release hrelease).parens_eq] at hopened
    generalize s.frames = frames at hopened
    cases hopened with
    | @cons _ frame _ outer hparen _ =>
      refine ⟨frame, outer, rfl, ?_⟩
      intro hcall
      obtain ⟨callFrame, rfl⟩ := Option.isSome_iff_exists.mp hcall
      obtain ⟨_, _, _, _, name, beneath, _, hbelow, _⟩ := exists_name_of_opened hparen
      exact ⟨name, beneath, hbelow⟩

/-- Before each token of a conversion and after the last one the output and the stacks are
sound, and the next token finds what it takes off them.  So a conversion does not break
down; and if it succeeds it has gone through such a state at every place. -/
theorem sound_between_tokens (r : Registry) (ts : List Token) :
    (∀ us vs s, ts = us ++ vs → Reached r us vs s → Sound r us vs s ∧ Provided r s) ∧
    (∀ b, convert r ts ≠ .error (.breakdown b)) ∧
    ((∃ nodes, convert r ts = .ok nodes) → ∀ us vs, ts = us ++ vs → ∃ s, Reached r us vs s) := by
  refine ⟨fun us vs s _ h => ⟨h.sound, h.provided⟩, convert_ne_breakdown r ts, ?_⟩
  rintro ⟨nodes, h⟩ us vs rfl
  exact exists_reached h

/-- In `abs 5 (3 + max(1, 2 + 3 * 4` the first parenthesis has a name below it and belongs
to no call, and the second one belongs to the call of `max`. -/
theorem sound_between_tokens_abs_max :
    let us : List Token :=
      [⟨.name "abs", 0⟩, ⟨.number 5, 4⟩, ⟨.openParen, 6⟩, ⟨.number 3, 7⟩, ⟨.operator "+", 9⟩,
        ⟨.name "max", 11⟩, ⟨.openParen, 14⟩, ⟨.number 1, 15⟩, ⟨.comma, 16⟩, ⟨.number 2, 18⟩,
        ⟨.operator "+", 20⟩, ⟨.number 3, 22⟩, ⟨.operator "*", 24⟩]
    let vs : List Token := [⟨.number 4, 26⟩, ⟨.closeParen, 27⟩, ⟨.closeParen, 28⟩]
    ∃ s, Reached Standard.registry us vs s ∧
      s.stack = [.operator "*", .operator "+", .paren 14, .name "max", .operator "+", .paren 6,
        .name "abs"] ∧
      s.frames = [some ⟨2, 1⟩, none] ∧ Sound Standard.registry us vs s ∧
      Provided Standard.registry s :=
  ⟨_, rfl, rfl, rfl, (sound_between_tokens _ _).1 _ _ _ rfl rfl⟩

end Reckoner.Postfix
