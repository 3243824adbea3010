import Reckoner.Interpreter
import Reckoner.Proofs.Postfix.Evaluation
import Reckoner.Proofs.Postfix.Locality
import Reckoner.Registry.Standard

set_option autoImplicit false

/-!
# A bracket stands for its value

Tokens in parentheses that belong to no call can be replaced by a number, whatever
stands before and after them.  The bracket is read to the nodes of its inside,
with the stacks as they were; from then on the two conversions differ in the base
of their outputs only.  If the number is the value of the inside, the two lists of
nodes have the same value too.
-/

namespace Reckoner.Postfix

/-- The numbers among tokens. -/
def numbers (ts : List Token) : List Float := ts.filterMap fun t => t.lexeme.number?

/-- The literals among nodes. -/
def literals (nodes : List Node) : List Float := nodes.filterMap Node.literal?

/-- Tokens in parentheses. -/
def bracketed (opening closing : Int) (ts : List Token) : List Token :=
  ⟨.openParen, opening⟩ :: ts ++ [⟨.closeParen, closing⟩]

/-! ## What has been read -/

/-- Only calls were added to the output. -/
structure AddsCalls (output output' : List Node) : Prop where
  length : output.length ≤ output'.length
  literals : literals output'.reverse = literals output.reverse

theorem AddsCalls.refl (output : List Node) : AddsCalls output output := ⟨Nat.le_refl _, rfl⟩

theorem AddsCalls.call {output output' : List Node} (d : Definition)
    (h : AddsCalls output output') : AddsCalls output (.call d :: output') := by
  refine ⟨Nat.le_succ_of_le h.length, ?_⟩
  rw [← h.literals]
  simp [Postfix.literals, Node.literal?]

theorem releaseTighter_addsCalls {r : Registry} {precedence : Nat} {output output' : List Node}
    {stack stack' : List Entry}
    (h : releaseTighter r precedence output stack = .ok (output', stack')) :
    AddsCalls output output' :=
  releaseTighter_keeps (P := fun output' _ => AddsCalls output output') (fun _ => .call _) (.refl _) h

theorem release_addsCalls {r : Registry} {output output' : List Node} {stack stack' : List Entry}
    (h : release r output stack = .ok (output', stack')) : AddsCalls output output' :=
  release_keeps (P := fun output' _ => AddsCalls output output') (fun _ => .call _) (.refl _) h

theorem finish_addsCalls {r : Registry} {output nodes : List Node} {stack : List Entry}
    (h : finish r output stack = .ok nodes) : AddsCalls output nodes.reverse :=
  finish_keeps (P := fun output' _ => AddsCalls output output') (fun _ => .call _) (.refl _) h

/-- The literals of the output are the numbers read so far, and the output is at
least as long as it was when any of the open calls was opened. -/
structure Recorded (xs : List Float) (s : State) : Prop where
  literals : literals s.output.reverse = xs
  sizes : ∀ frame, some frame ∈ s.frames → frame.outputSize ≤ s.output.length

/-- Adding calls keeps the record, if no frame has changed its size. -/
theorem Recorded.addsCalls {xs : List Float} {s s' : State} (h : Recorded xs s)
    (houtput : AddsCalls s.output s'.output)
    (hframes : ∀ frame, some frame ∈ s'.frames →
      ∃ frame', some frame' ∈ s.frames ∧ frame.outputSize = frame'.outputSize) :
    Recorded xs s' := by
  refine ⟨houtput.literals.trans h.literals, ?_⟩
  intro frame hframe
  obtain ⟨frame', hframe', hsize⟩ := hframes frame hframe
  rw [hsize]
  exact Nat.le_trans (h.sizes frame' hframe') houtput.length

theorem closeBracket_recorded {r : Registry} {xs : List Float} {output : List Node}
    {stack stack₀ : List Entry} {frames : List (Option CallFrame)} {s' : State}
    (h : Recorded xs ⟨output, stack₀, frames⟩)
    (hclose : closeBracket r output stack frames = .ok s') : Recorded xs s' := by
  match frames, hclose with
  | none :: frames, hclose =>
    cases hclose
    exact h.addsCalls (.refl _) fun frame hframe => ⟨frame, List.mem_cons_of_mem _ hframe, rfl⟩
  | some frame :: frames, hclose =>
    match stack, hclose with
    | e :: stack, hclose =>
      obtain ⟨d, hd, hrest⟩ := exists_of_bind_eq_ok hclose
      dsimp only at hrest
      by_cases hgiven : frame.given output.length = d.arity
      · rw [if_pos hgiven] at hrest
        cases hrest
        exact h.addsCalls ((AddsCalls.refl _).call _) fun frame' hframe' =>
          ⟨frame', List.mem_cons_of_mem _ hframe', rfl⟩
      · rw [if_neg hgiven] at hrest
        cases hrest

theorem mem_countComma {frames : List (Option CallFrame)} {frame : CallFrame}
    (h : some frame ∈ countComma frames) :
    ∃ frame', some frame' ∈ frames ∧ frame.outputSize = frame'.outputSize := by
  match frames, h with
  | none :: frames, h => exact ⟨frame, h, rfl⟩
  | some inner :: frames, h =>
    rcases List.mem_cons.mp h with heq | hmem
    · cases heq
      exact ⟨inner, List.mem_cons_self, rfl⟩
    · exact ⟨frame, List.mem_cons_of_mem _ hmem, rfl⟩

/-- A token that is read adds its number to the record. -/
theorem step_recorded {r : Registry} {afterName parenNext : Bool} {t : Token} {xs : List Float}
    {s s' : State} (h : Recorded xs s) (hstep : step r afterName parenNext t s = .ok s') :
    Recorded (xs ++ t.lexeme.number?.toList) s' := by
  have hsame : ∀ frame, some frame ∈ s.frames →
      ∃ frame', some frame' ∈ s.frames ∧ frame.outputSize = frame'.outputSize :=
    fun frame hframe => ⟨frame, hframe, rfl⟩
  obtain ⟨lexeme, place⟩ := t
  cases lexeme with
  | number x =>
    cases hstep
    refine ⟨?_, fun frame hframe => Nat.le_succ_of_le (h.sizes frame hframe)⟩
    rw [← h.literals]
    simp [literals, State.emit, Node.literal?, Lexeme.number?]
  | operator symbol =>
    show Recorded (xs ++ []) s'
    rw [List.append_nil]
    obtain ⟨o, ho, hrest⟩ := exists_of_bind_eq_ok hstep
    obtain ⟨⟨output, stack⟩, hrelease, hs'⟩ := exists_of_bind_eq_ok hrest
    cases hs'
    exact h.addsCalls (releaseTighter_addsCalls hrelease) hsame
  | name name =>
    show Recorded (xs ++ []) s'
    rw [List.append_nil]
    cases hstep
    unfold readName
    split
    · split
      · exact h.addsCalls ((AddsCalls.refl _).call _) hsame
      · exact h.addsCalls (.refl _) hsame
    · exact h.addsCalls (.refl _) hsame
  | openParen =>
    show Recorded (xs ++ []) s'
    rw [List.append_nil]
    cases hstep
    refine ⟨h.literals, ?_⟩
    intro frame hframe
    rcases List.mem_cons.mp hframe with hnew | hold
    · cases afterName with
      | false => cases hnew
      | true => cases hnew; exact Nat.le_refl _
    · exact h.sizes frame hold
  | closeParen =>
    show Recorded (xs ++ []) s'
    rw [List.append_nil]
    obtain ⟨⟨output, stack⟩, hrelease, hrest⟩ := exists_of_bind_eq_ok hstep
    rcases (bounded_of_release hrelease).eq_nil_or_paren with rfl | ⟨i, stack, rfl⟩
    · cases hrest
    · have hreleased : Recorded xs ⟨output, stack, s.frames⟩ :=
        h.addsCalls (release_addsCalls hrelease) hsame
      exact closeBracket_recorded hreleased hrest
  | comma =>
    show Recorded (xs ++ []) s'
    rw [List.append_nil]
    obtain ⟨⟨output, stack⟩, hrelease, hrest⟩ := exists_of_bind_eq_ok hstep
    cases stack with
    | nil => cases hrest
    | cons e stack =>
      cases hrest
      exact h.addsCalls (release_addsCalls hrelease) fun frame hframe => mem_countComma hframe

/-- Tokens that are read add their numbers to the record. -/
theorem readAll_recorded {r : Registry} {ts : List Token} {afterName next : Bool}
    {xs : List Float} {s s' : State} (h : Recorded xs s)
    (hread : readAll r afterName ts next s = .ok s') : Recorded (xs ++ numbers ts) s' := by
  induction ts generalizing afterName xs s with
  | nil =>
    cases hread
    rwa [numbers, List.filterMap_nil, List.append_nil]
  | cons t ts ih =>
    obtain ⟨s₁, hstep, hrest⟩ := exists_of_bind_eq_ok hread
    have hnumbers : numbers (t :: ts) = t.lexeme.number?.toList ++ numbers ts := by
      rw [numbers, List.filterMap_cons]
      cases t.lexeme.number? <;> rfl
    rw [hnumbers, ← List.append_assoc]
    exact ih (step_recorded h hstep) hrest

/-! ## Reading tokens elsewhere -/

theorem drain_of_finish {r : Registry} {output nodes : List Node} {stack : List Entry}
    (h : finish r output stack = .ok nodes) : drain r output stack = .ok nodes.reverse := by
  obtain ⟨es, rest, rfl, hes, hrest⟩ := exists_waiting stack
  rw [finish_append r output hes] at h
  obtain ⟨drained, hdrain, hstop⟩ := exists_of_bind_eq_ok h
  rcases hrest.eq_nil_or_paren with rfl | ⟨index, below, rfl⟩
  · cases hstop
    rw [List.append_nil, List.reverse_reverse, hdrain]
  · cases hstop

theorem Aligned.frames_eq_nil {stack : List Entry} {frames : List (Option CallFrame)}
    (h : Aligned stack frames) (hstack : ∀ e ∈ stack, e.isParen = false) : frames = [] := by
  induction h with
  | empty => rfl
  | waiting he _ ih => exact ih fun e' he' => hstack e' (List.mem_cons_of_mem _ he')
  | group _ _ => cases hstack _ List.mem_cons_self
  | call _ _ => cases hstack _ List.mem_cons_self

/-- What waits at the end of tokens that have a postfix order. -/
theorem exists_leaves_of_ofTokens {r : Registry} {ts : List Token} {nodes : List Node}
    (h : ofTokens r ts = .ok nodes) :
    ∃ s, readAll r false ts false .initial = .ok s ∧ Leaves r nodes s.stack .initial s := by
  obtain ⟨s, hread, hfinish⟩ := exists_of_bind_eq_ok (ofTokens_eq_ok_iff.mp h)
  have hdrain := drain_of_finish hfinish
  have haligned : Yields (fun s' => Aligned s'.stack s'.frames) (fun _ => True)
      (readAll r false ts false .initial) :=
    readAll_ready r ts ⟨.empty, fun hfalse => by cases hfalse⟩
  rw [hread] at haligned
  refine ⟨s, hread, haligned.frames_eq_nil (isParen_of_drain hdrain), ?_, ?_⟩
  · exact (List.append_nil _).symm
  · rw [hdrain]
    exact congrArg Except.ok (List.append_nil _).symm

/-- Tokens that have a postfix order leave their nodes wherever they are read, if no
operator waits right before them. -/
theorem readAll_leaves {r : Registry} {ts : List Token} {nodes : List Node}
    (h : ofTokens r ts = .ok nodes) (base : State)
    (hbase : Holds r 0 base.stack) :
    ∃ s es, readAll r false ts false base = .ok s ∧ Leaves r nodes es base s := by
  obtain ⟨s, hread, hleaves⟩ := exists_leaves_of_ofTokens h
  have hover : Rebased [] base.output .initial ⟨base.output, [], []⟩ :=
    ⟨⟨[], rfl, rfl⟩, rfl, rfl⟩
  have hagree := readAll_rebased r (Nat.zero_le _) ts false false hover
  rw [hread] at hagree
  cases hread' : readAll r false ts false ⟨base.output, [], []⟩ with
  | error stop => rw [hread'] at hagree; cases hagree
  | ok s' =>
    rw [hread'] at hagree
    obtain ⟨⟨added, hs, hs'⟩, hstack, hframes⟩ := hagree
    have hready : Ready false (beforeParen ts false) ⟨base.output, [], []⟩ :=
      ⟨.empty, fun hfalse => by cases hfalse⟩
    refine ⟨s'.above base.stack base.frames, s.stack, readAll_above hbase hready hread', ?_⟩
    refine ⟨?_, ?_, ?_⟩
    · show s'.frames ++ base.frames = base.frames
      rw [hframes, hleaves.frames]
      rfl
    · show s'.stack ++ base.stack = s.stack ++ base.stack
      rw [hstack]
    · show drain r s'.output s.stack = .ok (nodes.reverse ++ base.output)
      have hdrain : drain r (added ++ []) s.stack = .ok (nodes.reverse ++ []) := hs ▸ hleaves.drained
      rw [List.append_nil, List.append_nil] at hdrain
      rw [hs', drain_output, hdrain, ok_bind]

/-- Tokens in parentheses are read to the nodes that they have by themselves. -/
theorem readAll_bracket {r : Registry} {ts : List Token} {nodes : List Node}
    (h : ofTokens r ts = .ok nodes) (opening closing : Int) (next : Bool) (s : State) :
    readAll r false (bracketed opening closing ts) next s =
      .ok ⟨nodes.reverse ++ s.output, s.stack, s.frames⟩ := by
  obtain ⟨s', es, hread, hleaves⟩ := readAll_leaves h (readOpen opening false s)
    (holds_paren r 0 opening s.stack)
  have hclose := readClose_group hleaves closing
  show readAll r false (ts ++ [⟨.closeParen, closing⟩]) next (readOpen opening false s) = _
  rw [readAll_append]
  show (readAll r false ts false (readOpen opening false s) >>= _) = _
  rw [hread, ok_bind, readAll, step, hclose]
  rfl

/-! ## Replacing a bracket -/

/-- What comes after tokens that do not end in a name does not matter to them. -/
theorem readAll_next {r : Registry} {ts : List Token}
    (h : ∀ t ∈ ts.getLast?, t.lexeme.isName = false) (afterName next next' : Bool) (s : State) :
    readAll r afterName ts next s = readAll r afterName ts next' s := by
  induction ts generalizing afterName s with
  | nil => rfl
  | cons t ts ih =>
    cases ts with
    | nil =>
      have hname := h t rfl
      obtain ⟨lexeme, place⟩ := t
      cases lexeme with
      | name name => cases hname
      | number _ | operator _ | openParen | closeParen | comma => rfl
    | cons u us =>
      rw [readAll, readAll]
      have hrest : ∀ t ∈ (u :: us).getLast?, t.lexeme.isName = false := by
        intro t' ht'
        refine h t' ?_
        rwa [List.getLast?_cons_cons]
      simp only [ih hrest]
      rfl

theorem endsInName_eq_false {ts : List Token} (h : ∀ t ∈ ts.getLast?, t.lexeme.isName = false) :
    endsInName false ts = false := by
  rw [endsInName_eq]
  cases hlast : ts.getLast? with
  | none => rfl
  | some t => exact h t hlast

/-- The same nodes but for those of a bracket in place of a literal, after what has been
put out already. -/
def Replaces (v : Float) (nodes front : List Node) (withNumber withBracket : List Node) : Prop :=
  ∃ back, withNumber = front ++ .literal v :: back ∧ withBracket = front ++ nodes ++ back

/-- From a state on, a number and a bracket in its place lead to the same error, or to
the nodes of the bracket in place of the number. -/
theorem read_bracketed {r : Registry} {ts : List Token} {nodes : List Node}
    (h : ofTokens r ts = .ok nodes) (hnodes : nodes ≠ []) (opening closing place : Int) (v : Float)
    (after : List Token) {base : State} {xs : List Float} (hbase : Recorded xs base) :
    Agree (Replaces v nodes base.output.reverse)
      (readAll r false (⟨.number v, place⟩ :: after) false base
        >>= fun s => finish r s.output s.stack)
      (readAll r false (bracketed opening closing ts ++ after) false base
        >>= fun s => finish r s.output s.stack) := by
  have hlength : (Node.literal v :: base.output).length ≤ (nodes.reverse ++ base.output).length := by
    have hpos := List.length_pos_iff.mpr hnodes
    simp only [List.length_cons, List.length_append, List.length_reverse]
    omega
  -- no call that is open was opened later than now
  have hframes : base.frames.map (Option.map (CallFrame.rebase (.literal v :: base.output)
      (nodes.reverse ++ base.output))) = base.frames := by
    refine (List.map_congr_left ?_).trans (List.map_id _)
    intro frame hframe
    cases frame with
    | none => rfl
    | some frame =>
      have hsize := hbase.sizes frame hframe
      simp [CallFrame.rebase, resize, Nat.lt_succ_of_le hsize]
  have hrebased : Rebased (.literal v :: base.output) (nodes.reverse ++ base.output)
      (base.emit (.literal v)) ⟨nodes.reverse ++ base.output, base.stack, base.frames⟩ :=
    ⟨⟨[], rfl, rfl⟩, rfl, hframes.symm⟩
  have hends : endsInName false (bracketed opening closing ts) = false := by
    rw [bracketed, endsInName_eq, List.getLast?_concat]
    rfl
  rw [readAll_append, hends, readAll_bracket h, ok_bind]
  show Agree _ (readAll r false after false (base.emit (.literal v)) >>= _) _
  refine (readAll_rebased r hlength after false false hrebased).bind ?_
  intro s s' hs
  rw [hs.stack]
  refine (finish_rebased r s.stack hs.output).mono ?_
  rintro nodes₁ nodes₂ ⟨back, rfl, rfl⟩
  exact ⟨back, by simp, by simp⟩

/-- A number and a bracket in its place lead to the same error, or to the nodes of the
bracket in place of the number. -/
theorem convert_bracketed {r : Registry} {before ts : List Token} {nodes : List Node}
    (hbefore : ∀ t ∈ before.getLast?, t.lexeme.isName = false) (h : ofTokens r ts = .ok nodes)
    (hnodes : nodes ≠ []) (opening closing place : Int) (v : Float) (after : List Token) :
    Agree (fun nodes₁ nodes₂ => ∃ front, literals front = numbers before ∧
        Replaces v nodes front nodes₁ nodes₂)
      (convert r (before ++ ⟨.number v, place⟩ :: after))
      (convert r (before ++ bracketed opening closing ts ++ after)) := by
  unfold convert
  rw [List.append_assoc, readAll_append, readAll_append, endsInName_eq_false hbefore, bind_assoc,
    bind_assoc, readAll_next hbefore false (beforeParen (bracketed opening closing ts ++ after) false)
      (beforeParen (⟨.number v, place⟩ :: after) false)]
  cases hread : readAll r false before (beforeParen (⟨.number v, place⟩ :: after) false) .initial with
  | error stop => exact rfl
  | ok base =>
    have hbase : Recorded ([] ++ numbers before) base :=
      readAll_recorded ⟨rfl, fun frame hframe => by cases hframe⟩ hread
    refine (read_bracketed h hnodes opening closing place v after hbase).mono ?_
    intro nodes₁ nodes₂ hreplaces
    exact ⟨base.output.reverse, hbase.literals, hreplaces⟩

/-- What agreeing conversions say of the nodes and of the errors of tokens. -/
theorem Agree.ofTokens {r : Registry} {R : List Node → List Node → Prop} {ts us : List Token}
    (h : Agree R (convert r ts) (convert r us)) :
    (∃ e, ofTokens r ts = .error e ∧ ofTokens r us = .error e) ∨
      ∃ nodes₁ nodes₂, ofTokens r ts = .ok nodes₁ ∧ ofTokens r us = .ok nodes₂ ∧
        R nodes₁ nodes₂ := by
  rw [convert_eq_ofTokens, convert_eq_ofTokens] at h
  match hts : Postfix.ofTokens r ts, hus : Postfix.ofTokens r us with
  | .ok nodes₁, .ok nodes₂ =>
    rw [hts, hus] at h
    exact .inr ⟨nodes₁, nodes₂, rfl, rfl, h⟩
  | .error e, .error e' =>
    rw [hts, hus] at h
    cases h
    exact .inl ⟨e, rfl, rfl⟩
  | .ok _, .error _ => rw [hts, hus] at h; cases h
  | .error _, .ok _ => rw [hts, hus] at h; cases h

/-- Tokens with a value are put into nodes with that value, at least one. -/
theorem exists_nodes_of_valueOf {r : Registry} {ts : List Token} {v : Float}
    (h : r.valueOf ts = .ok v) :
    ∃ nodes, ofTokens r ts = .ok nodes ∧ nodes ≠ [] ∧ Postfix.evaluate nodes = .ok v := by
  unfold Registry.valueOf at h
  cases hnodes : ofTokens r ts with
  | error e => rw [hnodes] at h; cases h
  | ok nodes =>
    rw [hnodes] at h
    refine ⟨nodes, rfl, ?_, h⟩
    rintro rfl
    cases h

/-- Nodes with a value can be replaced by that value. -/
theorem Replaces.evaluate_eq {v : Float} {nodes front nodes₁ nodes₂ : List Node}
    (h : Replaces v nodes front nodes₁ nodes₂) (hvalue : Postfix.evaluate nodes = .ok v) :
    Postfix.evaluate nodes₂ = Postfix.evaluate nodes₁ := by
  obtain ⟨back, rfl, rfl⟩ := h
  unfold Postfix.evaluate
  rw [List.append_assoc]
  refine run_append_congr ?_ front []
  intro stack
  exact run_append_of_value hvalue stack back

/-- Tokens in parentheses that do not follow a name, and a number in their place.  If
the tokens have nodes, both lists have the same error, or the same nodes but for the
nodes of the bracket in place of the literal that the number is read to.  If the number
is the value of the tokens, both lists have the same value, or the same reason to have
none. -/
theorem bracketed_as_number (r : Registry) {before : List Token} (ts after : List Token)
    (opening closing place : Int) (v : Float)
    (hbefore : ∀ t ∈ before.getLast?, t.lexeme.isName = false) :
    (∀ nodes, ofTokens r ts = .ok nodes → nodes ≠ [] →
      (∃ e, ofTokens r (before ++ ⟨.number v, place⟩ :: after) = .error e ∧
        ofTokens r (before ++ bracketed opening closing ts ++ after) = .error e) ∨
      ∃ front back, literals front = numbers before ∧
        ofTokens r (before ++ ⟨.number v, place⟩ :: after) = .ok (front ++ .literal v :: back) ∧
        ofTokens r (before ++ bracketed opening closing ts ++ after) =
          .ok (front ++ nodes ++ back)) ∧
    (r.valueOf ts = .ok v →
      r.valueOf (before ++ bracketed opening closing ts ++ after) =
        r.valueOf (before ++ ⟨.number v, place⟩ :: after)) := by
  constructor
  · intro nodes h hnodes
    rcases (convert_bracketed hbefore h hnodes opening closing place v after).ofTokens with
      herror | ⟨nodes₁, nodes₂, h₁, h₂, front, hfront, back, rfl, rfl⟩
    · exact .inl herror
    · exact .inr ⟨front, back, hfront, h₁, h₂⟩
  · intro hvalue
    obtain ⟨nodes, h, hnodes, hrun⟩ := exists_nodes_of_valueOf hvalue
    rcases (convert_bracketed hbefore h hnodes opening closing place v after).ofTokens with
      ⟨e, h₁, h₂⟩ | ⟨nodes₁, nodes₂, h₁, h₂, front, hfront, hreplaces⟩
    · simp only [Registry.valueOf, h₁, h₂]
    · simp only [Registry.valueOf, h₁, h₂]
      exact hreplaces.evaluate_eq hrun

/-- `max(1, (2 + pi))` has the value of `max(1, v)`, where `v` is the value of `2 + pi`. -/
theorem bracketed_argument_as_number :
    Standard.registry.valueOf [⟨.number 2, 8⟩, ⟨.operator "+", 10⟩, ⟨.name "pi", 12⟩] =
      .ok (2 + Standard.pi) ∧
    Standard.registry.valueOf
        ([⟨.name "max", 0⟩, ⟨.openParen, 3⟩, ⟨.number 1, 4⟩, ⟨.comma, 5⟩] ++
          bracketed 7 14 [⟨.number 2, 8⟩, ⟨.operator "+", 10⟩, ⟨.name "pi", 12⟩] ++
          [⟨.closeParen, 15⟩]) =
      Standard.registry.valueOf
        ([⟨.name "max", 0⟩, ⟨.openParen, 3⟩, ⟨.number 1, 4⟩, ⟨.comma, 5⟩] ++
          [⟨.number (2 + Standard.pi), 7⟩, ⟨.closeParen, 15⟩]) := by
  have hvalue : Standard.registry.valueOf
      [⟨.number 2, 8⟩, ⟨.operator "+", 10⟩, ⟨.name "pi", 12⟩] = .ok (2 + Standard.pi) := rfl
  refine ⟨hvalue, (bracketed_as_number Standard.registry _ _ 7 14 7 _ ?_).2 hvalue⟩
  intro t ht
  cases ht
  rfl

end Reckoner.Postfix
