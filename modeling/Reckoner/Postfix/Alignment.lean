import Reckoner.Postfix.Convert

set_option autoImplicit false

/-!
# The stacks stay aligned

The frames belong to the parentheses on the stack, one to each, and the frame of a
call to a parenthesis with a name right below it.  Every token keeps this, so an
entry that is to be taken off is always there and of the right kind: a conversion
never breaks down.  What is left of it, `ofTokens`, either has a postfix order or
an error of the tokens.
-/

namespace Reckoner.Postfix

/-- A result with `P` or an error with `E`, and no breakdown. -/
def Yields {α : Type} (P : α → Prop) (E : StructureError → Prop) : Except Stop α → Prop
  | .ok a => P a
  | .error (.error e) => E e
  | .error (.breakdown _) => False

/-- The next step of a conversion may rely on what the last one yields. -/
theorem Yields.bind {α β : Type} {P : α → Prop} {Q : β → Prop} {E : StructureError → Prop}
    {x : Except Stop α} {f : α → Except Stop β} (hx : Yields P E x)
    (hf : ∀ a, P a → Yields Q E (f a)) : Yields Q E (x >>= f) := by
  match x, hx with
  | .ok a, ha => exact hf a ha
  | .error (.error _), he => exact he

theorem Yields.mono {α : Type} {P Q : α → Prop} {E F : StructureError → Prop}
    {x : Except Stop α} (hx : Yields P E x) (hP : ∀ a, P a → Q a) (hE : ∀ e, E e → F e) :
    Yields Q F x := by
  match x, hx with
  | .ok a, ha => exact hP a ha
  | .error (.error e), he => exact hE e he

/-- Frames and parentheses match, and a call's parenthesis stands on a name. -/
inductive Aligned : List Entry → List (Option CallFrame) → Prop
  | empty : Aligned [] []
  | waiting {e : Entry} {stack : List Entry} {frames : List (Option CallFrame)} :
      e.isParen = false → Aligned stack frames → Aligned (e :: stack) frames
  | group {index : Int} {stack : List Entry} {frames : List (Option CallFrame)} :
      Aligned stack frames → Aligned (.paren index :: stack) (none :: frames)
  | call {index : Int} {name : String} {frame : CallFrame} {stack : List Entry}
      {frames : List (Option CallFrame)} :
      Aligned stack frames →
      Aligned (.paren index :: .name name :: stack) (some frame :: frames)

/-- What holds before a stretch of tokens is read: the stacks are aligned, and a
name that has its parenthesis next is on top. -/
structure Ready (afterName parenNext : Bool) (s : State) : Prop where
  aligned : Aligned s.stack s.frames
  name : afterName = true → parenNext = true → ∃ name stack, s.stack = .name name :: stack

/-! ## Single operations -/

theorem operatorOf_yields (r : Registry) (symbol : String) :
    Yields (fun _ => True) (fun _ => True) (operatorOf r symbol) := by
  unfold operatorOf
  cases r.operator symbol <;> trivial

theorem functionOf_yields (r : Registry) (name : String) :
    Yields (fun _ => True) (fun _ => True) (functionOf r name) := by
  unfold functionOf
  cases r.function name <;> trivial

theorem definitionOf_yields (r : Registry) {e : Entry} (he : e.isParen = false) :
    Yields (fun _ => True) (fun _ => True) (definitionOf r e) := by
  cases e with
  | operator symbol => exact (operatorOf_yields r symbol).bind fun _ _ => trivial
  | name name => exact (functionOf_yields r name).bind fun _ _ => trivial
  | paren index => cases he

theorem Aligned.of_waiting {e : Entry} {stack : List Entry} {frames : List (Option CallFrame)}
    (he : e.isParen = false) (h : Aligned (e :: stack) frames) : Aligned stack frames := by
  cases h with
  | waiting _ h => exact h
  | group _ => cases he
  | call _ => cases he

theorem releaseTighter_aligned (r : Registry) (precedence : Nat)
    {frames : List (Option CallFrame)} {stack : List Entry} (output : List Node)
    (h : Aligned stack frames) :
    Yields (fun p => Aligned p.2 frames) (fun _ => True)
      (releaseTighter r precedence output stack) := by
  induction stack generalizing output with
  | nil => exact h
  | cons e stack ih =>
    cases e with
    | operator symbol =>
      refine (operatorOf_yields r symbol).bind fun o _ => ?_
      by_cases hlt : o.precedence < precedence
      · rw [if_pos hlt]; exact h
      · rw [if_neg hlt]; exact ih _ (h.of_waiting rfl)
    | name name => exact h
    | paren index => exact h

theorem release_aligned (r : Registry) {frames : List (Option CallFrame)}
    {stack : List Entry} (output : List Node) (h : Aligned stack frames) :
    Yields (fun p => Aligned p.2 frames) (fun _ => True) (release r output stack) := by
  induction stack generalizing output with
  | nil => exact h
  | cons e stack ih =>
    unfold release
    by_cases he : e.isParen = true
    · rw [if_pos he]; exact h
    · have hwait : e.isParen = false := by simpa using he
      rw [if_neg he]
      exact (definitionOf_yields r hwait).bind fun d _ => ih _ (h.of_waiting hwait)

theorem readName_aligned (r : Registry) (name : String) (parenNext : Bool) {s : State}
    (h : Aligned s.stack s.frames) : Ready true parenNext (readName r name parenNext s) := by
  have hwait : Ready true parenNext (s.push (.name name)) :=
    ⟨.waiting rfl h, fun _ _ => ⟨name, s.stack, rfl⟩⟩
  unfold readName
  split
  · split
    · next hbare => exact ⟨h, fun _ hnext => by rw [hbare.2] at hnext; cases hnext⟩
    · exact hwait
  · exact hwait

theorem readOperator_aligned (r : Registry) (symbol : String) {s : State}
    (h : Aligned s.stack s.frames) :
    Yields (fun s' => Aligned s'.stack s'.frames) (fun _ => True) (readOperator r symbol s) :=
  (operatorOf_yields r symbol).bind fun o _ =>
    (releaseTighter_aligned r o.precedence s.output h).bind fun _ hp => .waiting rfl hp

theorem readOpen_aligned (index : Int) {afterName : Bool} {s : State}
    (h : Ready afterName true s) :
    Aligned (readOpen index afterName s).stack (readOpen index afterName s).frames := by
  cases afterName with
  | false => exact .group h.aligned
  | true =>
    obtain ⟨name, stack, hstack⟩ := h.name rfl rfl
    have haligned := h.aligned
    simp only [readOpen, hstack] at haligned ⊢
    exact .call (haligned.of_waiting rfl)

theorem closeBracket_aligned (r : Registry) (output : List Node) {index : Int}
    {stack : List Entry} {frames : List (Option CallFrame)}
    (h : Aligned (.paren index :: stack) frames) :
    Yields (fun s' => Aligned s'.stack s'.frames) (fun _ => True)
      (closeBracket r output stack frames) := by
  cases h with
  | waiting he _ => cases he
  | group h => exact h
  | @call _ name frame stack frames h =>
    refine (definitionOf_yields r (e := .name name) rfl).bind fun d _ => ?_
    by_cases hgiven : frame.given output.length = d.arity
    · rw [if_pos hgiven]; exact h
    · rw [if_neg hgiven]; trivial

theorem readClose_aligned (r : Registry) (index : Int) {s : State}
    (h : Aligned s.stack s.frames) :
    Yields (fun s' => Aligned s'.stack s'.frames) (fun _ => True) (readClose r index s) := by
  refine (release_aligned r s.output h).bind fun ⟨output, stack⟩ hp => ?_
  match stack, hp with
  | .paren i :: stack, hp => exact closeBracket_aligned r output hp
  | .name _ :: _, _ => trivial
  | .operator _ :: _, _ => trivial
  | [], _ => trivial

theorem Aligned.countComma {stack : List Entry} {frames : List (Option CallFrame)}
    (h : Aligned stack frames) : Aligned stack (countComma frames) := by
  induction h with
  | empty => exact .empty
  | waiting he _ ih => exact .waiting he ih
  | group h _ => exact .group h
  | call h _ => exact .call h

theorem readComma_aligned (r : Registry) (index : Int) {s : State}
    (h : Aligned s.stack s.frames) :
    Yields (fun s' => Aligned s'.stack s'.frames) (fun _ => True) (readComma r index s) := by
  refine (release_aligned r s.output h).bind fun ⟨output, stack⟩ hp => ?_
  match stack, hp with
  | [], _ => trivial
  | e :: stack, hp => exact hp.countComma

/-! ## Runs -/

/-- One token keeps the stacks aligned and does not break the conversion down. -/
theorem step_ready (r : Registry) {afterName parenNext : Bool} (t : Token) {s : State}
    (h : Ready afterName t.lexeme.isOpenParen s) :
    Yields (Ready t.lexeme.isName parenNext) (fun _ => True)
      (step r afterName parenNext t s) := by
  have hplain {x : Except Stop State}
      (hx : Yields (fun s' => Aligned s'.stack s'.frames) (fun _ => True) x) :
      Yields (Ready false parenNext) (fun _ => True) x := by
    match x, hx with
    | .ok s', haligned => exact ⟨haligned, fun hfalse => by cases hfalse⟩
    | .error (.error _), _ => trivial
  obtain ⟨lexeme, index⟩ := t
  cases lexeme with
  | number x => exact hplain (x := .ok (s.emit (.literal x))) h.aligned
  | operator symbol => exact hplain (readOperator_aligned r symbol h.aligned)
  | name name => exact readName_aligned r name parenNext h.aligned
  | openParen => exact hplain (x := .ok (readOpen index afterName s)) (readOpen_aligned index h)
  | closeParen => exact hplain (readClose_aligned r index h.aligned)
  | comma => exact hplain (readComma_aligned r index h.aligned)

/-- A stretch of tokens keeps the stacks aligned and does not break the conversion
down. -/
theorem readAll_ready (r : Registry) (ts : List Token) {afterName next : Bool} {s : State}
    (h : Ready afterName (beforeParen ts next) s) :
    Yields (fun s' => Aligned s'.stack s'.frames) (fun _ => True)
      (readAll r afterName ts next s) := by
  induction ts generalizing afterName s with
  | nil => exact h.aligned
  | cons t ts ih => exact (step_ready r t h).bind fun s' hs' => ih hs'

theorem finish_yields (r : Registry) (output : List Node) (stack : List Entry) :
    Yields (fun _ => True) (fun _ => True) (finish r output stack) := by
  induction stack generalizing output with
  | nil => trivial
  | cons e stack ih =>
    cases e with
    | paren index => trivial
    | operator symbol => exact (definitionOf_yields r rfl).bind fun d _ => ih _
    | name name => exact (definitionOf_yields r rfl).bind fun d _ => ih _

/-- A conversion does not break down. -/
theorem convert_ne_breakdown (r : Registry) (ts : List Token) (b : Breakdown) :
    convert r ts ≠ .error (.breakdown b) := by
  intro hb
  have hinitial : Ready false (beforeParen ts false) .initial :=
    ⟨.empty, fun hfalse => by cases hfalse⟩
  have hy : Yields (fun _ => True) (fun _ => True) (convert r ts) :=
    (readAll_ready r ts hinitial).bind fun s _ => finish_yields r s.output s.stack
  rw [hb] at hy
  exact hy

/-! ## What is left of a conversion -/

/-- Tokens in postfix order, or the error that they have. -/
def ofTokens (r : Registry) (ts : List Token) : Except StructureError (List Node) :=
  match h : convert r ts with
  | .ok nodes => .ok nodes
  | .error (.error e) => .error e
  | .error (.breakdown b) => absurd h (convert_ne_breakdown r ts b)

theorem convert_eq_ofTokens (r : Registry) (ts : List Token) :
    convert r ts = (ofTokens r ts).mapError .error := by
  unfold ofTokens
  split
  · next h => exact h
  · next h => exact h
  · next b h => exact absurd h (convert_ne_breakdown r ts b)

theorem ofTokens_eq_ok_iff {r : Registry} {ts : List Token} {nodes : List Node} :
    ofTokens r ts = .ok nodes ↔ convert r ts = .ok nodes := by
  rw [convert_eq_ofTokens]
  constructor
  · intro h
    rw [h]
    rfl
  · intro h
    cases hts : ofTokens r ts with
    | error e => rw [hts] at h; cases h
    | ok nodes' => rw [hts] at h; cases h; rfl

end Reckoner.Postfix
