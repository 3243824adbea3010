import Reckoner.Postfix.Alignment

set_option autoImplicit false

/-!
# Draining the stack

Closing a bracket, a comma, a tighter operator and the end of the input all
release entries from the top of the stack, and none of them looks below the first
parenthesis.  `drain` is what they share: it releases a list of entries, whatever
lies below it.  The laws say that the releases of a conversion are drains, that what
the release of one entry keeps is kept by all of them, and that reading two stretches
of tokens is reading one after the other.
-/

namespace Reckoner.Postfix

/-! ## Sequencing -/

@[simp] theorem ok_bind {ε α β : Type} (a : α) (f : α → Except ε β) :
    ((Except.ok a : Except ε α) >>= f) = f a := rfl

@[simp] theorem error_bind {ε α β : Type} (e : ε) (f : α → Except ε β) :
    ((Except.error e : Except ε α) >>= f) = .error e := rfl

/-- A conversion that does not stop has done so at none of its steps. -/
theorem exists_of_bind_eq_ok {α β : Type} {x : Except Stop α} {f : α → Except Stop β} {b : β}
    (h : (x >>= f) = .ok b) : ∃ a, x = .ok a ∧ f a = .ok b := by
  cases x with
  | error stop => cases h
  | ok a => exact ⟨a, rfl, h⟩

/-! ## What entries stand for -/

theorem operatorOf_of_ok {r : Registry} {symbol : String} {o : InfixOperator}
    (h : r.operator symbol = .ok o) : operatorOf r symbol = .ok o := by
  rw [operatorOf, h]
  rfl

theorem functionOf_of_ok {r : Registry} {name : String} {f : NamedFunction}
    (h : r.function name = .ok f) : functionOf r name = .ok f := by
  rw [functionOf, h]
  rfl

theorem definitionOf_of_operatorOf {r : Registry} {symbol : String} {o : InfixOperator}
    (h : operatorOf r symbol = .ok o) : definitionOf r (.operator symbol) = .ok (.operator o) := by
  rw [definitionOf, h]
  rfl

theorem definitionOf_operator {r : Registry} {symbol : String} {o : InfixOperator}
    (h : r.operator symbol = .ok o) : definitionOf r (.operator symbol) = .ok (.operator o) :=
  definitionOf_of_operatorOf (operatorOf_of_ok h)

theorem definitionOf_name {r : Registry} {name : String} {f : NamedFunction}
    (h : r.function name = .ok f) : definitionOf r (.name name) = .ok (.function f) := by
  rw [definitionOf, functionOf_of_ok h]
  rfl

theorem operator_error {r : Registry} {symbol : String} {e : StructureError}
    (h : r.operator symbol = .error e) : e = .undefinedOperator symbol := by
  unfold Registry.operator at h
  split at h
  · cases h
  · cases h; rfl

theorem operatorOf_error {r : Registry} {symbol : String} {e : StructureError}
    (h : r.operator symbol = .error e) : operatorOf r symbol = .error (.error e) := by
  rw [operatorOf, h]
  rfl

theorem operator_of_operatorOf {r : Registry} {symbol : String} {o : InfixOperator}
    (h : operatorOf r symbol = .ok o) : r.operator symbol = .ok o := by
  cases ho : r.operator symbol with
  | error e => rw [operatorOf_error ho] at h; cases h
  | ok o' => rw [operatorOf_of_ok ho] at h; cases h; rfl

theorem function_error {r : Registry} {name : String} {e : StructureError}
    (h : r.function name = .error e) : e = .undefinedFunction name := by
  unfold Registry.function at h
  split at h
  · cases h
  · cases h; rfl

theorem name_of_function {r : Registry} {name : String} {f : NamedFunction}
    (h : r.function name = .ok f) : f.name = name :=
  Registry.name_of_lookup (Registry.function_eq_ok_iff.mp h)

theorem definitionOf_name_error {r : Registry} {name : String} {e : StructureError}
    (h : r.function name = .error e) : definitionOf r (.name name) = .error (.error e) := by
  rw [definitionOf, functionOf, h]
  rfl

/-- A name that has its parenthesis next waits, whatever it stands for. -/
theorem readName_beforeParen (r : Registry) (name : String) (s : State) :
    readName r name true s = s.push (.name name) := by
  unfold readName
  split
  · rw [if_neg fun hand => by cases hand.2]
  · rfl

/-- The end of a call whose function is defined. -/
theorem closeCall_name {r : Registry} {name : String} {f : NamedFunction}
    (h : r.function name = .ok f) (frame : CallFrame) (output : List Node) (stack : List Entry)
    (frames : List (Option CallFrame)) :
    closeCall r frame output (.name name :: stack) frames =
      if frame.given output.length = f.arity then
        .ok ⟨.call (.function f) :: output, stack, frames⟩
      else .error (.error (.argumentCount f.name f.arity (frame.given output.length))) := by
  rw [closeCall, definitionOf_name h]
  rfl

/-- The end of a call whose function is not defined. -/
theorem closeCall_name_error {r : Registry} {name : String} {e : StructureError}
    (h : r.function name = .error e) (frame : CallFrame) (output : List Node) (stack : List Entry)
    (frames : List (Option CallFrame)) :
    closeCall r frame output (.name name :: stack) frames = .error (.error e) := by
  rw [closeCall, definitionOf_name_error h]
  rfl

/-! ## Draining -/

/-- Releases entries, the first one first. -/
def drain (r : Registry) : List Node → List Entry → Except Stop (List Node)
  | output, [] => .ok output
  | output, e :: es => do
    let d ← definitionOf r e
    drain r (.call d :: output) es

@[simp] theorem drain_nil (r : Registry) (output : List Node) : drain r output [] = .ok output :=
  rfl

theorem drain_cons (r : Registry) (output : List Node) (e : Entry) (es : List Entry) :
    drain r output (e :: es) = definitionOf r e >>= fun d => drain r (.call d :: output) es := rfl

theorem drain_append (r : Registry) (output : List Node) (es fs : List Entry) :
    drain r output (es ++ fs) = drain r output es >>= fun output => drain r output fs := by
  induction es generalizing output with
  | nil => rfl
  | cons e es ih =>
    rw [List.cons_append, drain_cons, drain_cons, bind_assoc]
    simp only [ih]

/-- What is drained ends up in front of the output, whatever the output is. -/
theorem drain_output (r : Registry) (output base : List Node) (es : List Entry) :
    drain r (output ++ base) es = drain r output es >>= fun nodes => .ok (nodes ++ base) := by
  induction es generalizing output with
  | nil => rfl
  | cons e es ih =>
    rw [drain_cons, drain_cons, bind_assoc]
    simp only [← List.cons_append, ih]

/-- Only operators and names can be drained. -/
theorem isParen_of_drain {r : Registry} {es : List Entry} {output nodes : List Node}
    (h : drain r output es = .ok nodes) : ∀ e ∈ es, e.isParen = false := by
  induction es generalizing output with
  | nil => intro e he; cases he
  | cons e es ih =>
    cases hd : definitionOf r e with
    | error stop => rw [drain_cons, hd] at h; cases h
    | ok d =>
      rw [drain_cons, hd, ok_bind] at h
      intro e' he'
      rcases List.mem_cons.mp he' with rfl | hmem
      · cases e' with
        | paren index => cases hd
        | operator _ => rfl
        | name _ => rfl
      · exact ih h e' hmem

/-! ## Releases as drains -/

/-- A stack on which nothing waits above the first parenthesis. -/
def Bounded (rest : List Entry) : Prop := ∀ e ∈ rest.head?, e.isParen = true

theorem bounded_nil : Bounded [] := fun _ he => nomatch he

theorem bounded_paren (index : Int) (stack : List Entry) : Bounded (.paren index :: stack) := by
  intro e he
  cases he
  rfl

theorem Bounded.eq_nil_or_paren {rest : List Entry} (h : Bounded rest) :
    rest = [] ∨ ∃ index below, rest = .paren index :: below := by
  match rest with
  | [] => exact .inl rfl
  | .paren index :: below => exact .inr ⟨index, below, rfl⟩
  | .operator symbol :: below => cases h _ rfl
  | .name name :: below => cases h _ rfl

/-- A stack is what waits above the first parenthesis, and the rest. -/
theorem exists_waiting (stack : List Entry) :
    ∃ es rest, stack = es ++ rest ∧ (∀ e ∈ es, e.isParen = false) ∧ Bounded rest := by
  induction stack with
  | nil => exact ⟨[], [], rfl, fun e he => (nomatch he), bounded_nil⟩
  | cons e stack ih =>
    cases he : e.isParen with
    | true =>
      refine ⟨[], e :: stack, rfl, fun e he => (nomatch he), ?_⟩
      intro e' he'
      cases he'
      exact he
    | false =>
      obtain ⟨es, rest, rfl, hes, hrest⟩ := ih
      refine ⟨e :: es, rest, rfl, ?_, hrest⟩
      intro e' he'
      rcases List.mem_cons.mp he' with rfl | hmem
      · exact he
      · exact hes e' hmem

@[simp] theorem release_nil (r : Registry) (output : List Node) :
    release r output [] = .ok (output, []) := rfl

@[simp] theorem release_paren (r : Registry) (output : List Node) (index : Int)
    (stack : List Entry) :
    release r output (.paren index :: stack) = .ok (output, .paren index :: stack) := rfl

/-- Entries that are no parentheses are drained on the way down. -/
theorem release_append (r : Registry) (output : List Node) {es : List Entry}
    (hes : ∀ e ∈ es, e.isParen = false) (stack : List Entry) :
    release r output (es ++ stack) = drain r output es >>= fun output => release r output stack := by
  induction es generalizing output with
  | nil => rfl
  | cons e es ih =>
    have he : ¬ e.isParen = true := by simp [hes e List.mem_cons_self]
    rw [List.cons_append, release, if_neg he, drain_cons, bind_assoc]
    simp only [ih _ fun e' he' => hes e' (List.mem_cons_of_mem _ he')]

@[simp] theorem finish_nil (r : Registry) (output : List Node) :
    finish r output [] = .ok output.reverse := rfl

@[simp] theorem finish_paren (r : Registry) (output : List Node) (index : Int)
    (stack : List Entry) :
    finish r output (.paren index :: stack) = .error (.error (.unclosed index)) := rfl

theorem finish_append (r : Registry) (output : List Node) {es : List Entry}
    (hes : ∀ e ∈ es, e.isParen = false) (stack : List Entry) :
    finish r output (es ++ stack) = drain r output es >>= fun output => finish r output stack := by
  induction es generalizing output with
  | nil => rfl
  | cons e es ih =>
    have ihes := fun output => ih output fun e' he' => hes e' (List.mem_cons_of_mem _ he')
    cases e with
    | paren index => cases hes _ List.mem_cons_self
    | operator symbol =>
      rw [List.cons_append, finish, drain_cons, bind_assoc]
      · simp only [ihes]
      · intro index h; cases h
    | name name =>
      rw [List.cons_append, finish, drain_cons, bind_assoc]
      · simp only [ihes]
      · intro index h; cases h

theorem release_of_bounded (r : Registry) (output : List Node) {rest : List Entry}
    (h : Bounded rest) : release r output rest = .ok (output, rest) := by
  cases rest with
  | nil => rfl
  | cons e rest => rw [release, if_pos (h e rfl)]

/-- What waits on top is drained, whatever stack of parentheses lies below. -/
theorem release_eq (r : Registry) (stack : List Entry) :
    ∃ es rest, stack = es ++ rest ∧ ∀ output below, Bounded below →
      release r output (stack ++ below) =
        drain r output es >>= fun output => .ok (output, rest ++ below) := by
  obtain ⟨es, rest, rfl, hes, hrest⟩ := exists_waiting stack
  refine ⟨es, rest, rfl, ?_⟩
  intro output below hbelow
  have hbounded : Bounded (rest ++ below) := by
    cases rest with
    | nil => exact hbelow
    | cons e rest => exact hrest
  rw [List.append_assoc, release_append r output hes]
  simp only [release_of_bounded r _ hbounded]

/-- The operators on top that bind at least as tightly are drained, whatever stack of
parentheses lies below; the next operator may turn out to be undefined. -/
theorem releaseTighter_eq (r : Registry) (precedence : Nat) (stack : List Entry) :
    ∃ es rest, ∃ found : Except Stop Unit, stack = es ++ rest ∧
      ∀ output below, Bounded below →
        releaseTighter r precedence output (stack ++ below) =
          drain r output es >>= fun output => found >>= fun _ => .ok (output, rest ++ below) := by
  induction stack with
  | nil =>
    refine ⟨[], [], .ok (), rfl, ?_⟩
    intro output below hbelow
    rcases hbelow.eq_nil_or_paren with rfl | ⟨index, below, rfl⟩ <;> rfl
  | cons e stack ih =>
    cases e with
    | name name => exact ⟨[], _, .ok (), rfl, fun output below _ => rfl⟩
    | paren index => exact ⟨[], _, .ok (), rfl, fun output below _ => rfl⟩
    | operator symbol =>
      cases ho : r.operator symbol with
      | error e =>
        refine ⟨[], _, .error (.error e), rfl, ?_⟩
        intro output below _
        rw [List.cons_append, releaseTighter, operatorOf_error ho]
        rfl
      | ok o =>
        by_cases hlt : o.precedence < precedence
        · refine ⟨[], _, .ok (), rfl, ?_⟩
          intro output below _
          rw [List.cons_append, releaseTighter, operatorOf_of_ok ho, ok_bind, if_pos hlt]
          rfl
        · obtain ⟨es, rest, found, rfl, heq⟩ := ih
          refine ⟨.operator symbol :: es, rest, found, rfl, ?_⟩
          intro output below hbelow
          rw [List.cons_append, releaseTighter, operatorOf_of_ok ho, ok_bind, if_neg hlt,
            drain_cons, definitionOf_operator ho, ok_bind]
          exact heq _ below hbelow

/-- Entries that are operators binding at least as tightly as `precedence`. -/
def Tighter (r : Registry) (precedence : Nat) (es : List Entry) : Prop :=
  ∀ e ∈ es, ∃ symbol o, e = .operator symbol ∧ r.operator symbol = .ok o ∧ precedence ≤ o.precedence

/-- Operators that bind at least as tightly are drained. -/
theorem releaseTighter_append (r : Registry) {precedence : Nat} (output : List Node)
    {es : List Entry} (hes : Tighter r precedence es) (stack : List Entry) :
    releaseTighter r precedence output (es ++ stack) =
      drain r output es >>= fun output => releaseTighter r precedence output stack := by
  induction es generalizing output with
  | nil => rfl
  | cons e es ih =>
    obtain ⟨symbol, o, rfl, ho, hle⟩ := hes e List.mem_cons_self
    rw [List.cons_append, releaseTighter, drain_cons, definitionOf_operator ho,
      operatorOf_of_ok ho, ok_bind, ok_bind, if_neg (Nat.not_lt.mpr hle)]
    exact ih _ fun e' he' => hes e' (List.mem_cons_of_mem _ he')

/-- The stack below a chain of operators: nothing on top of it would be released
by an operator of at least this precedence. -/
def Holds (r : Registry) (precedence : Nat) (stack : List Entry) : Prop :=
  ∀ symbol rest, stack = .operator symbol :: rest →
    ∃ o, r.operator symbol = .ok o ∧ o.precedence < precedence

theorem Holds.mono {r : Registry} {p q : Nat} {stack : List Entry} (h : Holds r p stack)
    (hle : p ≤ q) : Holds r q stack := by
  intro symbol rest hstack
  obtain ⟨o, ho, hlt⟩ := h symbol rest hstack
  exact ⟨o, ho, Nat.lt_of_lt_of_le hlt hle⟩

theorem holds_paren (r : Registry) (p : Nat) (index : Int) (stack : List Entry) :
    Holds r p (.paren index :: stack) := by
  intro symbol rest h; cases h

theorem holds_name (r : Registry) (p : Nat) (name : String) (stack : List Entry) :
    Holds r p (.name name :: stack) := by
  intro symbol rest h; cases h

theorem releaseTighter_of_holds {r : Registry} {precedence : Nat} {stack : List Entry}
    (h : Holds r precedence stack) (output : List Node) :
    releaseTighter r precedence output stack = .ok (output, stack) := by
  cases stack with
  | nil => rfl
  | cons e stack =>
    cases e with
    | operator symbol =>
      obtain ⟨o, ho, hlt⟩ := h symbol stack rfl
      rw [releaseTighter, operatorOf_of_ok ho, ok_bind, if_pos hlt]
      rfl
    | name name => rfl
    | paren index => rfl

/-! ## Releasing entry by entry -/

section Releases

variable {r : Registry} {P : List Node → List Entry → Prop} {output output' : List Node}
  {stack stack' : List Entry}
  (hP : ∀ {output e stack d}, definitionOf r e = .ok d → P output (e :: stack) →
    P (.call d :: output) stack)

include hP

/-- What the release of a single entry keeps is kept by every release. -/
theorem release_keeps (h : P output stack)
    (hrelease : release r output stack = .ok (output', stack')) : P output' stack' := by
  induction stack generalizing output with
  | nil => cases hrelease; exact h
  | cons e stack ih =>
    unfold release at hrelease
    split at hrelease
    · cases hrelease; exact h
    · obtain ⟨d, hd, hrest⟩ := exists_of_bind_eq_ok hrelease
      exact ih (hP hd h) hrest

theorem releaseTighter_keeps {precedence : Nat} (h : P output stack)
    (hrelease : releaseTighter r precedence output stack = .ok (output', stack')) :
    P output' stack' := by
  induction stack generalizing output with
  | nil => cases hrelease; exact h
  | cons e stack ih =>
    cases e with
    | name name => cases hrelease; exact h
    | paren index => cases hrelease; exact h
    | operator symbol =>
      obtain ⟨o, ho, hrest⟩ := exists_of_bind_eq_ok hrelease
      by_cases hlt : o.precedence < precedence
      · rw [if_pos hlt] at hrest
        cases hrest
        exact h
      · rw [if_neg hlt] at hrest
        exact ih (hP (definitionOf_of_operatorOf ho) h) hrest

theorem finish_keeps {nodes : List Node} (h : P output stack)
    (hfinish : finish r output stack = .ok nodes) : P nodes.reverse [] := by
  induction stack generalizing output with
  | nil =>
    cases hfinish
    rwa [List.reverse_reverse]
  | cons e stack ih =>
    cases e with
    | paren index => cases hfinish
    | operator symbol =>
      obtain ⟨d, hd, hrest⟩ := exists_of_bind_eq_ok hfinish
      exact ih (hP hd h) hrest
    | name name =>
      obtain ⟨d, hd, hrest⟩ := exists_of_bind_eq_ok hfinish
      exact ih (hP hd h) hrest

end Releases

/-! ## Stretches of tokens -/

/-- Whether a name stands right before what follows some tokens. -/
def endsInName : Bool → List Token → Bool
  | afterName, [] => afterName
  | _, t :: ts => endsInName t.lexeme.isName ts

theorem endsInName_eq (afterName : Bool) (ts : List Token) :
    endsInName afterName ts = (ts.getLast?.map fun t => t.lexeme.isName).getD afterName := by
  induction ts generalizing afterName with
  | nil => rfl
  | cons t ts ih =>
    cases ts with
    | nil => rfl
    | cons u us => rw [endsInName, ih, List.getLast?_cons_cons]; rfl

theorem endsInName_concat (afterName : Bool) (ts : List Token) (t : Token) :
    endsInName afterName (ts ++ [t]) = t.lexeme.isName := by
  rw [endsInName_eq, List.getLast?_concat]
  rfl

theorem exists_name_of_endsInName {ts : List Token} (h : endsInName false ts = true) :
    ∃ us n name, ts = us ++ [n] ∧ n.lexeme = .name name := by
  rcases List.eq_nil_or_concat ts with rfl | ⟨us, n, rfl⟩
  · cases h
  · rw [List.concat_eq_append, endsInName_concat] at h
    obtain ⟨lexeme, index⟩ := n
    cases lexeme with
    | name name => exact ⟨us, _, name, List.concat_eq_append, rfl⟩
    | number _ | operator _ | openParen | closeParen | comma => cases h

/-- Two stretches of tokens are read one after the other. -/
theorem readAll_append (r : Registry) (afterName : Bool) (ts us : List Token) (next : Bool)
    (s : State) :
    readAll r afterName (ts ++ us) next s =
      readAll r afterName ts (beforeParen us next) s >>=
        readAll r (endsInName afterName ts) us next := by
  induction ts generalizing afterName s with
  | nil => rfl
  | cons t ts ih =>
    have hnext : beforeParen (ts ++ us) next = beforeParen ts (beforeParen us next) := by
      cases ts <;> rfl
    simp only [List.cons_append, readAll, endsInName, bind_assoc, hnext, ih]

/-! ## What reading leaves -/

/-- The state after `base` has been read on: entries wait above its stack that
drain to `nodes`, above its output. -/
structure Leaves (r : Registry) (nodes : List Node) (es : List Entry) (base s : State) : Prop where
  frames : s.frames = base.frames
  stack : s.stack = es ++ base.stack
  drained : drain r s.output es = .ok (nodes.reverse ++ base.output)

/-- What waits above the base is drained on the way down. -/
theorem Leaves.release {r : Registry} {nodes : List Node} {es : List Entry} {base s : State}
    (h : Leaves r nodes es base s) :
    Postfix.release r s.output s.stack =
      Postfix.release r (nodes.reverse ++ base.output) base.stack := by
  rw [h.stack, release_append r s.output (isParen_of_drain h.drained), h.drained, ok_bind]

/-- What waits above the base is drained at the end of the input. -/
theorem Leaves.finish {r : Registry} {nodes : List Node} {es : List Entry} {base s : State}
    (h : Leaves r nodes es base s) :
    Postfix.finish r s.output s.stack =
      Postfix.finish r (nodes.reverse ++ base.output) base.stack := by
  rw [h.stack, finish_append r s.output (isParen_of_drain h.drained), h.drained, ok_bind]

/-- What waits above a parenthesis is drained on the way down to it. -/
theorem release_leaves {r : Registry} {nodes output : List Node} {es stack : List Entry}
    {frames : List (Option CallFrame)} {index : Int} {s : State}
    (h : Leaves r nodes es ⟨output, .paren index :: stack, frames⟩ s) :
    release r s.output s.stack = .ok (nodes.reverse ++ output, .paren index :: stack) := by
  rw [h.release, release_paren]

/-- The end of a bracket that belongs to no call. -/
theorem readClose_group {r : Registry} {nodes output : List Node} {es stack : List Entry}
    {frames : List (Option CallFrame)} {index : Int} {s : State}
    (h : Leaves r nodes es ⟨output, .paren index :: stack, none :: frames⟩ s) (closing : Int) :
    readClose r closing s = .ok ⟨nodes.reverse ++ output, stack, frames⟩ := by
  rw [readClose, release_leaves h, ok_bind, h.frames]
  rfl

end Reckoner.Postfix
