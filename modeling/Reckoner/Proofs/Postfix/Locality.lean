import Reckoner.Proofs.Postfix.Draining

set_option autoImplicit false

/-!
# What a conversion does not look at

Tokens that can be read at all take nothing off the stacks that were there before
them, unless operators wait on top, and of the output a conversion knows the length
only.  So they are read above other stacks as above none, and tokens that are read over
another output lead to the same nodes over that output, or to the same error.
-/

namespace Reckoner.Postfix

/-! ## Above other stacks -/

/-- A state above stacks that were there before it. -/
def State.above (stack : List Entry) (frames : List (Option CallFrame)) (s : State) : State :=
  ⟨s.output, s.stack ++ stack, s.frames ++ frames⟩

section Above

variable {r : Registry} {below : List Entry} {outer : List (Option CallFrame)}

/-- An operator releases nothing from below the ones that were read before it, if no
operator waits there. -/
theorem releaseTighter_above {precedence : Nat} {output output' : List Node}
    {stack stack' : List Entry} (hbelow : Holds r precedence below)
    (h : releaseTighter r precedence output stack = .ok (output', stack')) :
    releaseTighter r precedence output (stack ++ below) = .ok (output', stack' ++ below) := by
  induction stack generalizing output with
  | nil => cases h; exact releaseTighter_of_holds hbelow _
  | cons e stack ih =>
    cases e with
    | name name => cases h; rfl
    | paren index => cases h; rfl
    | operator symbol =>
      obtain ⟨o, ho, hrest⟩ := exists_of_bind_eq_ok h
      rw [List.cons_append, releaseTighter, ho, ok_bind]
      by_cases hlt : o.precedence < precedence
      · rw [if_pos hlt] at hrest ⊢
        cases hrest
        rfl
      · rw [if_neg hlt] at hrest ⊢
        exact ih hrest

/-- A release leaves nothing waiting above the parenthesis that is open. -/
theorem bounded_of_release {output output' : List Node} {stack stack' : List Entry}
    (h : release r output stack = .ok (output', stack')) : Bounded stack' := by
  obtain ⟨es, rest, rfl, hes, hrest⟩ := exists_waiting stack
  rw [release_append r output hes] at h
  obtain ⟨drained, -, hstop⟩ := exists_of_bind_eq_ok h
  rw [release_of_bounded r drained hrest] at hstop
  cases hstop
  exact hrest

/-- What is released down to a parenthesis does not depend on what lies below it. -/
theorem release_above {output output' : List Node} {stack stack' : List Entry} {index : Int}
    (h : release r output stack = .ok (output', .paren index :: stack')) :
    release r output (stack ++ below) = .ok (output', .paren index :: (stack' ++ below)) := by
  induction stack generalizing output with
  | nil => cases h
  | cons e stack ih =>
    rw [List.cons_append, release]
    unfold release at h
    cases he : e.isParen with
    | true =>
      rw [he, if_pos rfl] at h
      cases h
      rfl
    | false =>
      rw [he] at h
      obtain ⟨d, hd, hrest⟩ := exists_of_bind_eq_ok h
      rw [hd]
      exact ih hrest

theorem readName_above (name : String) (parenNext : Bool) (s : State) :
    readName r name parenNext (s.above below outer) =
      (readName r name parenNext s).above below outer := by
  unfold readName
  split
  · split <;> rfl
  · rfl

theorem readOperator_above {symbol : String} {s s' : State}
    (hbelow : Holds r 0 below) (h : readOperator r symbol s = .ok s') :
    readOperator r symbol (s.above below outer) = .ok (s'.above below outer) := by
  obtain ⟨o, ho, hrest⟩ := exists_of_bind_eq_ok h
  obtain ⟨⟨output, stack⟩, hrelease, hs'⟩ := exists_of_bind_eq_ok hrest
  cases hs'
  have habove := releaseTighter_above (hbelow.mono (Nat.zero_le o.precedence)) hrelease
  simp only [readOperator, State.above, ho, habove, ok_bind]
  rfl

theorem closeBracket_above {output : List Node} {stack : List Entry}
    {frames : List (Option CallFrame)} {s' : State}
    (h : closeBracket r output stack frames = .ok s') :
    closeBracket r output (stack ++ below) (frames ++ outer) = .ok (s'.above below outer) := by
  match frames, h with
  | none :: frames, h => cases h; rfl
  | some frame :: frames, h =>
    match stack, h with
    | e :: stack, h =>
      obtain ⟨d, hd, hrest⟩ := exists_of_bind_eq_ok h
      simp only [List.cons_append, closeBracket, closeCall, hd, ok_bind]
      by_cases hgiven : frame.given output.length = d.arity
      · rw [if_pos hgiven] at hrest ⊢
        cases hrest
        rfl
      · rw [if_neg hgiven] at hrest
        cases hrest

theorem readClose_above {closing : Int} {s s' : State} (h : readClose r closing s = .ok s') :
    readClose r closing (s.above below outer) = .ok (s'.above below outer) := by
  obtain ⟨⟨output, stack⟩, hrelease, hrest⟩ := exists_of_bind_eq_ok h
  match stack, hrest with
  | .paren i :: stack, hrest =>
    simp only [readClose, State.above, release_above hrelease, ok_bind]
    exact closeBracket_above hrest

/-- A comma that stands in a parenthesis counts for that parenthesis. -/
theorem countComma_above {index : Int} {stack : List Entry} {frames : List (Option CallFrame)}
    (h : Aligned (.paren index :: stack) frames) :
    countComma (frames ++ outer) = countComma frames ++ outer := by
  cases h with
  | waiting he _ => cases he
  | group _ => rfl
  | call _ => rfl

theorem readComma_above {comma : Int} {s s' : State} (haligned : Aligned s.stack s.frames)
    (h : readComma r comma s = .ok s') :
    readComma r comma (s.above below outer) = .ok (s'.above below outer) := by
  obtain ⟨⟨output, stack⟩, hrelease, hrest⟩ := exists_of_bind_eq_ok h
  have hreleased := release_aligned r s.output haligned
  rw [hrelease] at hreleased
  rcases (bounded_of_release hrelease).eq_nil_or_paren with rfl | ⟨index, stack, rfl⟩
  · cases hrest
  · cases hrest
    simp only [readComma, State.above, release_above hrelease, ok_bind, countComma_above hreleased]
    rfl

/-- A token that can be read is read above other stacks as above none. -/
theorem step_above {afterName parenNext : Bool} {t : Token} {s s' : State}
    (hbelow : Holds r 0 below) (haligned : Aligned s.stack s.frames)
    (h : step r afterName parenNext t s = .ok s') :
    step r afterName parenNext t (s.above below outer) = .ok (s'.above below outer) := by
  obtain ⟨lexeme, place⟩ := t
  cases lexeme with
  | number x => cases h; rfl
  | operator symbol => exact readOperator_above hbelow h
  | name name =>
    cases h
    exact congrArg Except.ok (readName_above name parenNext s)
  | openParen => cases h; rfl
  | closeParen => exact readClose_above h
  | comma => exact readComma_above haligned h

/-- Tokens that can be read are read above other stacks as above none. -/
theorem readAll_above {ts : List Token} {afterName next : Bool} {s s' : State}
    (hbelow : Holds r 0 below)
    (hready : Ready afterName (beforeParen ts next) s)
    (h : readAll r afterName ts next s = .ok s') :
    readAll r afterName ts next (s.above below outer) = .ok (s'.above below outer) := by
  induction ts generalizing afterName s with
  | nil => cases h; rfl
  | cons t ts ih =>
    obtain ⟨s₁, hstep, hrest⟩ := exists_of_bind_eq_ok h
    have hready₁ : Yields (Ready t.lexeme.isName (beforeParen ts next)) (fun _ => True)
        (step r afterName (beforeParen ts next) t s) := step_ready r t hready
    rw [hstep] at hready₁
    rw [readAll, step_above hbelow hready.aligned hstep, ok_bind]
    exact ih hready₁ hrest

end Above

/-! ## Over another output -/

/-- Results that are related, or the same reason to stop. -/
def Agree {α β : Type} (R : α → β → Prop) : Except Stop α → Except Stop β → Prop
  | .ok a, .ok b => R a b
  | .error stop, .error stop' => stop = stop'
  | _, _ => False

theorem Agree.refl {α : Type} (x : Except Stop α) : Agree Eq x x := by
  cases x <;> exact rfl

/-- Steps that agree on related states agree one after the other. -/
theorem Agree.bind {α β α' β' : Type} {R : α → β → Prop} {Q : α' → β' → Prop}
    {x : Except Stop α} {y : Except Stop β} {f : α → Except Stop α'} {g : β → Except Stop β'}
    (hxy : Agree R x y) (hfg : ∀ a b, R a b → Agree Q (f a) (g b)) :
    Agree Q (x >>= f) (y >>= g) := by
  match x, y, hxy with
  | .ok a, .ok b, hab => exact hfg a b hab
  | .error _, .error _, hstop => exact hstop

theorem Agree.mono {α β : Type} {R Q : α → β → Prop} {x : Except Stop α} {y : Except Stop β}
    (h : Agree R x y) (hRQ : ∀ a b, R a b → Q a b) : Agree Q x y := by
  match x, y, h with
  | .ok a, .ok b, hab => exact hRQ a b hab
  | .error _, .error _, hstop => exact hstop

/-- What does not depend on the state can be done first in both. -/
theorem Agree.bind_same {α β γ : Type} {Q : β → γ → Prop} (x : Except Stop α)
    {f : α → Except Stop β} {g : α → Except Stop γ} (h : ∀ a, Agree Q (f a) (g a)) :
    Agree Q (x >>= f) (x >>= g) := by
  cases x with
  | ok a => exact h a
  | error stop => exact rfl

/-- The same nodes over another base. -/
def Over (old new : List Node) (output output' : List Node) : Prop :=
  ∃ added, output = added ++ old ∧ output' = added ++ new

theorem Over.cons {old new output output' : List Node} (h : Over old new output output')
    (n : Node) : Over old new (n :: output) (n :: output') := by
  obtain ⟨added, rfl, rfl⟩ := h
  exact ⟨n :: added, rfl, rfl⟩

/-- The length that an output has over another base.  What is shorter than the base
was measured before the base was complete, and stays. -/
def resize (old new : List Node) (size : Nat) : Nat :=
  if size < old.length then size else size - old.length + new.length

/-- A frame whose output stands over another base. -/
def CallFrame.rebase (old new : List Node) (frame : CallFrame) : CallFrame :=
  { frame with outputSize := resize old new frame.outputSize }

/-- The same state with its output over another base. -/
structure Rebased (old new : List Node) (s s' : State) : Prop where
  output : Over old new s.output s'.output
  stack : s'.stack = s.stack
  frames : s'.frames = s.frames.map (Option.map (CallFrame.rebase old new))

section Over

variable {old new : List Node}

theorem resize_length (added : List Node) :
    resize old new (added ++ old).length = (added ++ new).length := by
  rw [resize, List.length_append, List.length_append, if_neg (by omega)]
  omega

/-- A longer base hides no argument and makes none up. -/
theorem given_rebase (hlength : old.length ≤ new.length) (frame : CallFrame)
    {output output' : List Node} (h : Over old new output output') :
    (frame.rebase old new).given output'.length = frame.given output.length := by
  obtain ⟨added, rfl, rfl⟩ := h
  have hsize : (added ++ new).length = resize old new frame.outputSize ↔
      (added ++ old).length = frame.outputSize := by
    rw [resize, List.length_append, List.length_append]
    split <;> omega
  simp only [CallFrame.given, CallFrame.rebase, hsize]

variable (r : Registry)

/-- Entries are drained over another base to the same nodes. -/
theorem drain_rebased (es : List Entry) {output output' : List Node}
    (h : Over old new output output') :
    Agree (Over old new) (drain r output es) (drain r output' es) := by
  obtain ⟨added, rfl, rfl⟩ := h
  rw [drain_output, drain_output]
  refine Agree.bind_same _ ?_
  intro nodes
  exact ⟨nodes, rfl, rfl⟩

theorem releaseTighter_rebased (precedence : Nat) (stack : List Entry) {output output' : List Node}
    (h : Over old new output output') :
    Agree (fun p q => Over old new p.1 q.1 ∧ q.2 = p.2)
      (releaseTighter r precedence output stack) (releaseTighter r precedence output' stack) := by
  obtain ⟨es, rest, found, -, heq⟩ := releaseTighter_eq r precedence stack
  have hbelow := fun output => heq output [] bounded_nil
  simp only [List.append_nil] at hbelow
  rw [hbelow, hbelow]
  refine (drain_rebased r es h).bind ?_
  intro drained drained' hover
  exact Agree.bind_same found fun _ => ⟨hover, rfl⟩

theorem release_rebased (stack : List Entry) {output output' : List Node}
    (h : Over old new output output') :
    Agree (fun p q => Over old new p.1 q.1 ∧ q.2 = p.2)
      (release r output stack) (release r output' stack) := by
  obtain ⟨es, rest, -, heq⟩ := release_eq r stack
  have hbelow := fun output => heq output [] bounded_nil
  simp only [List.append_nil] at hbelow
  rw [hbelow, hbelow]
  refine (drain_rebased r es h).bind ?_
  intro drained drained' hover
  exact ⟨hover, rfl⟩

theorem finish_rebased (stack : List Entry) {output output' : List Node}
    (h : Over old new output output') :
    Agree (fun nodes nodes' => ∃ back, nodes = old.reverse ++ back ∧ nodes' = new.reverse ++ back)
      (finish r output stack) (finish r output' stack) := by
  obtain ⟨es, rest, rfl, hes, hrest⟩ := exists_waiting stack
  rw [finish_append r output hes, finish_append r output' hes]
  refine (drain_rebased r es h).bind ?_
  rintro drained drained' ⟨added, rfl, rfl⟩
  rcases hrest.eq_nil_or_paren with rfl | ⟨index, below, rfl⟩
  · exact ⟨added.reverse, List.reverse_append, List.reverse_append⟩
  · exact rfl

theorem readName_rebased (name : String) (parenNext : Bool) {s s' : State}
    (h : Rebased old new s s') :
    Rebased old new (readName r name parenNext s) (readName r name parenNext s') := by
  have hpush : Rebased old new (s.push (.name name)) (s'.push (.name name)) :=
    ⟨h.output, congrArg (List.cons _) h.stack, h.frames⟩
  unfold readName
  split
  · split
    · exact ⟨h.output.cons _, h.stack, h.frames⟩
    · exact hpush
  · exact hpush

theorem readOperator_rebased (symbol : String) {s s' : State} (h : Rebased old new s s') :
    Agree (Rebased old new) (readOperator r symbol s) (readOperator r symbol s') := by
  refine Agree.bind_same _ fun o => ?_
  rw [h.stack]
  refine (releaseTighter_rebased r o.precedence s.stack h.output).bind fun p q hpq => ?_
  exact ⟨hpq.1, congrArg (List.cons _) hpq.2, h.frames⟩

theorem readOpen_rebased (index : Int) (afterName : Bool) {s s' : State}
    (h : Rebased old new s s') :
    Rebased old new (readOpen index afterName s) (readOpen index afterName s') := by
  have hlength : resize old new s.output.length = s'.output.length := by
    obtain ⟨added, hs, hs'⟩ := h.output
    rw [hs, hs', resize_length]
  refine ⟨h.output, congrArg (List.cons _) h.stack, ?_⟩
  cases afterName with
  | false => simp [readOpen, h.frames]
  | true => simp [readOpen, h.frames, CallFrame.rebase, hlength]

theorem closeBracket_rebased (hlength : old.length ≤ new.length) (stack : List Entry)
    (frames : List (Option CallFrame)) {output output' : List Node}
    (h : Over old new output output') :
    Agree (Rebased old new) (closeBracket r output stack frames)
      (closeBracket r output' stack (frames.map (Option.map (CallFrame.rebase old new)))) := by
  match frames, stack with
  | [], _ => exact rfl
  | none :: frames, stack => exact ⟨h, rfl, rfl⟩
  | some frame :: frames, [] => exact rfl
  | some frame :: frames, e :: stack =>
    refine Agree.bind_same (definitionOf r e) fun d => ?_
    rw [given_rebase hlength frame h]
    dsimp only
    by_cases hgiven : frame.given output.length = d.arity
    · rw [if_pos hgiven, if_pos hgiven]
      exact ⟨h.cons _, rfl, rfl⟩
    · rw [if_neg hgiven, if_neg hgiven]
      exact rfl

theorem readClose_rebased (hlength : old.length ≤ new.length) (index : Int) {s s' : State}
    (h : Rebased old new s s') :
    Agree (Rebased old new) (readClose r index s) (readClose r index s') := by
  unfold readClose
  rw [h.stack]
  refine (release_rebased r s.stack h.output).bind ?_
  rintro ⟨output, stack⟩ ⟨output', stack'⟩ ⟨hover, rfl⟩
  rw [h.frames]
  match stack' with
  | .paren i :: stack => exact closeBracket_rebased r hlength stack s.frames hover
  | [] => exact rfl
  | .operator _ :: _ => exact rfl
  | .name _ :: _ => exact rfl

theorem countComma_rebase (frames : List (Option CallFrame)) :
    countComma (frames.map (Option.map (CallFrame.rebase old new))) =
      (countComma frames).map (Option.map (CallFrame.rebase old new)) := by
  match frames with
  | [] => rfl
  | none :: _ => rfl
  | some _ :: _ => rfl

theorem readComma_rebased (index : Int) {s s' : State} (h : Rebased old new s s') :
    Agree (Rebased old new) (readComma r index s) (readComma r index s') := by
  unfold readComma
  rw [h.stack]
  refine (release_rebased r s.stack h.output).bind ?_
  rintro ⟨output, stack⟩ ⟨output', stack'⟩ ⟨hover, rfl⟩
  rw [h.frames, countComma_rebase]
  match stack' with
  | [] => exact rfl
  | e :: stack => exact ⟨hover, rfl, rfl⟩

/-- A token is read over another base of the output as over the one there was. -/
theorem step_rebased (hlength : old.length ≤ new.length) (afterName parenNext : Bool) (t : Token)
    {s s' : State} (h : Rebased old new s s') :
    Agree (Rebased old new) (step r afterName parenNext t s) (step r afterName parenNext t s') := by
  obtain ⟨lexeme, place⟩ := t
  cases lexeme with
  | number x => exact ⟨h.output.cons _, h.stack, h.frames⟩
  | operator symbol => exact readOperator_rebased r symbol h
  | name name => exact readName_rebased r name parenNext h
  | openParen => exact readOpen_rebased place afterName h
  | closeParen => exact readClose_rebased r hlength place h
  | comma => exact readComma_rebased r place h

/-- Tokens are read over another base of the output as over the one there was. -/
theorem readAll_rebased (hlength : old.length ≤ new.length) (ts : List Token)
    (afterName next : Bool) {s s' : State} (h : Rebased old new s s') :
    Agree (Rebased old new) (readAll r afterName ts next s) (readAll r afterName ts next s') := by
  induction ts generalizing afterName s s' with
  | nil => exact h
  | cons t ts ih =>
    exact (step_rebased r hlength afterName (beforeParen ts next) t h).bind fun s₁ s₁' h₁ =>
      ih t.lexeme.isName h₁

theorem Rebased.refl (s : State) : Rebased s.output s.output s s := by
  refine ⟨⟨[], rfl, rfl⟩, rfl, ?_⟩
  have hframe : CallFrame.rebase s.output s.output = id := by
    funext frame
    simp only [CallFrame.rebase, resize, id]
    split
    · rfl
    · rw [Nat.sub_add_cancel (by omega)]
  rw [hframe, Option.map_id, List.map_id]

/-- What has been put out stays there. -/
theorem exists_back {ts : List Token} {afterName next : Bool} {s s' : State} {nodes : List Node}
    (hread : readAll r afterName ts next s = .ok s')
    (hfinish : finish r s'.output s'.stack = .ok nodes) :
    ∃ back, nodes = s.output.reverse ++ back := by
  have hrebased := readAll_rebased r (Nat.le_refl _) ts afterName next (Rebased.refl s)
  rw [hread] at hrebased
  have hagree := finish_rebased r s'.stack hrebased.output
  rw [hfinish] at hagree
  obtain ⟨back, hnodes, -⟩ := hagree
  exact ⟨back, hnodes⟩

end Over

end Reckoner.Postfix
