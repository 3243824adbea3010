import Reckoner.Proofs.Postfix.Acceptance
import Reckoner.Proofs.Postfix.Conservation
import Reckoner.Proofs.Postfix.Substitution

set_option autoImplicit false

/-!
# What the postfix order keeps

Only calls that take operands change places: literals and calls without operands come
out in the order in which they are written.  A number and a bare name without arguments
go to the output at once.  A name without arguments that has parentheses waits below
them, and since nothing may be given to it, nothing has been put out in between once it
is called.

Nor does a call come out too early.  When a number is read it goes to the output, so
what stands before it there has been read before it.
-/

namespace Reckoner.Postfix

/-- The nodes that take no operands, in order. -/
def operands (nodes : List Node) : List Node := nodes.filter Node.isOperand

@[simp] theorem operands_nil : operands [] = [] := rfl

@[simp] theorem operands_append (nodes nodes' : List Node) :
    operands (nodes ++ nodes') = operands nodes ++ operands nodes' := List.filter_append ..

theorem operands_call {d : Definition} (h : d.arity ≠ 0) : operands [.call d] = [] := by
  simp [operands, Node.isOperand, h]

variable {r : Registry}

/-! ## The arrangement of operands -/

/-- The operands that have been read are in the output, in order, but for those of the
calls that are open: such an operand has its place where the output ended when the
parenthesis of the call was opened. -/
inductive Arranged (r : Registry) :
    List Node → List Node → List Entry → List (Option CallFrame) → Prop
  | output {output : List Node} : Arranged r (operands output.reverse) output [] []
  | waiting {all output : List Node} {e : Entry} {stack : List Entry}
      {frames : List (Option CallFrame)} :
      e.isParen = false → operands (e.lexeme.nodes r) = [] →
      Arranged r all output stack frames → Arranged r all output (e :: stack) frames
  | group {all output : List Node} {index : Int} {stack : List Entry}
      {frames : List (Option CallFrame)} :
      Arranged r all output stack frames →
      Arranged r all output (.paren index :: stack) (none :: frames)
  | call {all recent old : List Node} {index : Int} {name : String} {frame : CallFrame}
      {stack : List Entry} {frames : List (Option CallFrame)} :
      frame.outputSize = old.length → Arranged r all old stack frames →
      Arranged r (all ++ operands ((Lexeme.name name).nodes r) ++ operands recent.reverse)
        (recent ++ old) (.paren index :: .name name :: stack) (some frame :: frames)

/-- The operands once tokens have been read; a name that has its parenthesis next is
not arranged yet. -/
inductive Placed (r : Registry) (all : List Node) : Bool → Bool → State → Prop
  | arranged {afterName parenNext : Bool} {s : State} :
      (afterName = true → parenNext = false) → Arranged r all s.output s.stack s.frames →
      Placed r all afterName parenNext s
  | named {before output : List Node} {name : String} {stack : List Entry}
      {frames : List (Option CallFrame)} :
      all = before ++ operands ((Lexeme.name name).nodes r) →
      Arranged r before output stack frames →
      Placed r all true true ⟨output, .name name :: stack, frames⟩

namespace Arranged

variable {all output : List Node} {stack : List Entry} {frames : List (Option CallFrame)}

/-- A node that goes to the output comes after the operands that are there. -/
theorem emit (h : Arranged r all output stack frames) (n : Node) :
    Arranged r (all ++ operands [n]) (n :: output) stack frames := by
  induction h with
  | @output output =>
    have hall : operands output.reverse ++ operands [n] = operands (n :: output).reverse := by simp
    rw [hall]
    exact .output
  | waiting he hnone _ ih => exact .waiting he hnone ih
  | group _ ih => exact .group ih
  | @call all recent old index name frame stack frames hsize h =>
    have hall : all ++ operands ((Lexeme.name name).nodes r) ++ operands recent.reverse ++
        operands [n] =
        all ++ operands ((Lexeme.name name).nodes r) ++ operands (n :: recent).reverse := by simp
    rw [hall]
    exact .call hsize h

theorem emitAll (h : Arranged r all output stack frames) (recent : List Node) :
    Arranged r (all ++ operands recent.reverse) (recent ++ output) stack frames := by
  induction recent with
  | nil => simpa using h
  | cons n recent ih => simpa using ih.emit n

/-- An entry that is released becomes a call that takes operands. -/
theorem release {e : Entry} {d : Definition} (hd : definitionOf r e = .ok d)
    (h : Arranged r all output (e :: stack) frames) :
    Arranged r all (.call d :: output) stack frames := by
  cases h with
  | waiting _ hnone h =>
    rw [nodes_of_definitionOf hd] at hnone
    have hemit := h.emit (.call d)
    rwa [hnone, List.append_nil] at hemit
  | group _ => cases hd
  | call _ _ => cases hd

theorem countComma (h : Arranged r all output stack frames) :
    Arranged r all output stack (countComma frames) := by
  induction h with
  | output => exact .output
  | waiting he hnone _ ih => exact .waiting he hnone ih
  | group h _ => exact .group h
  | call hsize h _ => exact .call hsize h

end Arranged

/-! ## Single operations -/

theorem release_arranged {all output output' : List Node} {stack stack' : List Entry}
    {frames : List (Option CallFrame)} (h : Arranged r all output stack frames)
    (hrelease : release r output stack = .ok (output', stack')) :
    Arranged r all output' stack' frames :=
  release_keeps (P := fun output stack => Arranged r all output stack frames)
    Arranged.release h hrelease

theorem releaseTighter_arranged {precedence : Nat} {all output output' : List Node}
    {stack stack' : List Entry} {frames : List (Option CallFrame)}
    (h : Arranged r all output stack frames)
    (hrelease : releaseTighter r precedence output stack = .ok (output', stack')) :
    Arranged r all output' stack' frames :=
  releaseTighter_keeps (P := fun output stack => Arranged r all output stack frames)
    Arranged.release h hrelease

theorem finish_arranged {all output nodes : List Node} {stack : List Entry}
    {frames : List (Option CallFrame)} (h : Arranged r all output stack frames)
    (hfinish : finish r output stack = .ok nodes) : operands nodes = all := by
  have hend : Arranged r all nodes.reverse [] frames :=
    finish_keeps (P := fun output stack => Arranged r all output stack frames)
      Arranged.release h hfinish
  generalize houtput : nodes.reverse = output' at hend
  cases hend with
  | output => rw [← houtput, List.reverse_reverse]

/-- A name with its parenthesis next is left out of the arrangement. -/
theorem readName_placed (name : String) (parenNext : Bool) {all : List Node} {s : State}
    (h : Arranged r all s.output s.stack s.frames) :
    Placed r (all ++ operands ((Lexeme.name name).nodes r)) true parenNext
      (readName r name parenNext s) := by
  cases parenNext with
  | true =>
    rw [readName_beforeParen]
    exact .named rfl h
  | false =>
    refine .arranged (fun _ => rfl) ?_
    unfold readName
    split
    · next f hf =>
      by_cases harity : f.arity = 0
      · rw [if_pos ⟨harity, rfl⟩, Lexeme.nodes_name hf]
        exact h.emit _
      · have hnone : operands ((Lexeme.name name).nodes r) = [] := by
          rw [Lexeme.nodes_name hf, operands_call (d := .function f) harity]
        rw [if_neg fun hand => harity hand.1, hnone, List.append_nil]
        exact .waiting rfl hnone h
    · next e he =>
      have hnone : operands ((Lexeme.name name).nodes r) = [] := by
        rw [Lexeme.nodes, he]
        rfl
      rw [hnone, List.append_nil]
      exact .waiting rfl hnone h

theorem readOperator_arranged {symbol : String} {all : List Node} {s s' : State}
    (h : Arranged r all s.output s.stack s.frames) (hread : readOperator r symbol s = .ok s') :
    Arranged r (all ++ operands ((Lexeme.operator symbol).nodes r)) s'.output s'.stack
      s'.frames := by
  obtain ⟨o, ho, hrest⟩ := exists_of_bind_eq_ok hread
  obtain ⟨⟨output, stack⟩, hrelease, hs'⟩ := exists_of_bind_eq_ok hrest
  cases hs'
  have hd := definitionOf_of_operatorOf ho
  have hnone : operands ((Lexeme.operator symbol).nodes r) = [] := by
    have hnodes : (Lexeme.operator symbol).nodes r = [.call (.operator o)] :=
      nodes_of_definitionOf hd
    rw [hnodes, operands_call (show Definition.arity (.operator o) ≠ 0 from Nat.succ_ne_zero 1)]
  rw [hnone, List.append_nil]
  exact .waiting rfl hnone (releaseTighter_arranged h hrelease)

/-- A parenthesis after a name gives the name its place. -/
theorem readOpen_arranged {all : List Node} {afterName : Bool} {s : State}
    (h : Placed r all afterName true s) (index : Int) :
    Arranged r all (readOpen index afterName s).output (readOpen index afterName s).stack
      (readOpen index afterName s).frames := by
  cases h with
  | arranged hfalse h =>
    cases afterName with
    | false => exact .group h
    | true => cases hfalse rfl
  | @named before output name stack frames hall h =>
    have hcall : Arranged r (before ++ operands ((Lexeme.name name).nodes r) ++ operands [].reverse)
        ([] ++ output) (.paren index :: .name name :: stack) (some ⟨output.length, 0⟩ :: frames) :=
      .call rfl h
    rw [List.reverse_nil, operands_nil, List.append_nil, ← hall] at hcall
    exact hcall

/-- Nothing has been put out since a call was opened that is not given anything. -/
theorem eq_nil_of_given_eq_zero {frame : CallFrame} {recent old : List Node}
    (hsize : frame.outputSize = old.length) (h : frame.given (recent ++ old).length = 0) :
    recent = [] := by
  rw [CallFrame.given] at h
  split at h
  · next hsame =>
    rw [hsize, List.length_append] at hsame
    exact List.length_eq_zero_iff.mp (by omega)
  · cases h

/-- A call that ends comes after what was put out in it. -/
theorem closeBracket_arranged {all output : List Node} {index : Int} {stack : List Entry}
    {frames : List (Option CallFrame)} {s' : State}
    (h : Arranged r all output (.paren index :: stack) frames)
    (hclose : closeBracket r output stack frames = .ok s') :
    Arranged r all s'.output s'.stack s'.frames := by
  cases h with
  | waiting he _ _ => cases he
  | group h => cases hclose; exact h
  | @call all recent old _ name frame stack frames hsize h =>
    obtain ⟨d, hd, hrest⟩ := exists_of_bind_eq_ok hclose
    by_cases hgiven : frame.given (recent ++ old).length = d.arity
    · rw [if_pos hgiven] at hrest
      cases hrest
      have hcalled := (h.emitAll recent).emit (.call d)
      have hnodes : (Lexeme.name name).nodes r = [.call d] := nodes_of_definitionOf hd
      -- either the call is no operand, or there is nothing that it could come after
      have hswap : operands recent.reverse ++ operands [.call d] =
          operands [.call d] ++ operands recent.reverse := by
        by_cases harity : d.arity = 0
        · simp [eq_nil_of_given_eq_zero hsize (hgiven.trans harity)]
        · simp [operands_call harity]
      rwa [hnodes, List.append_assoc, ← hswap, ← List.append_assoc]
    · rw [if_neg hgiven] at hrest
      cases hrest

theorem readClose_arranged {all : List Node} {index : Int} {s s' : State}
    (h : Arranged r all s.output s.stack s.frames) (hread : readClose r index s = .ok s') :
    Arranged r all s'.output s'.stack s'.frames := by
  obtain ⟨⟨output, stack⟩, hrelease, hrest⟩ := exists_of_bind_eq_ok hread
  have hreleased := release_arranged h hrelease
  match stack, hrest with
  | .paren i :: stack, hrest => exact closeBracket_arranged hreleased hrest

theorem readComma_arranged {all : List Node} {index : Int} {s s' : State}
    (h : Arranged r all s.output s.stack s.frames) (hread : readComma r index s = .ok s') :
    Arranged r all s'.output s'.stack s'.frames := by
  obtain ⟨⟨output, stack⟩, hrelease, hrest⟩ := exists_of_bind_eq_ok hread
  match stack, hrest with
  | e :: stack, hrest =>
    cases hrest
    exact (release_arranged h hrelease).countComma

/-! ## Runs -/

theorem Placed.arranged_of_not_openParen {all : List Node} {afterName : Bool} {s : State}
    (h : Placed r all afterName false s) : Arranged r all s.output s.stack s.frames := by
  cases h with
  | arranged _ h => exact h

/-- Reading a token adds its operand behind those that have been read. -/
theorem step_placed {all : List Node} {afterName parenNext : Bool} {t : Token} {s s' : State}
    (h : Placed r all afterName t.lexeme.isOpenParen s)
    (hstep : step r afterName parenNext t s = .ok s') :
    Placed r (all ++ operands (t.lexeme.nodes r)) t.lexeme.isName parenNext s' := by
  obtain ⟨lexeme, index⟩ := t
  cases lexeme with
  | number x =>
    cases hstep
    exact .arranged (fun hfalse => by cases hfalse) (h.arranged_of_not_openParen.emit _)
  | operator symbol =>
    exact .arranged (fun hfalse => by cases hfalse)
      (readOperator_arranged h.arranged_of_not_openParen hstep)
  | name name =>
    cases hstep
    exact readName_placed name parenNext h.arranged_of_not_openParen
  | openParen =>
    cases hstep
    refine .arranged (fun hfalse => by cases hfalse) ?_
    simpa [Lexeme.nodes] using readOpen_arranged h index
  | closeParen =>
    refine .arranged (fun hfalse => by cases hfalse) ?_
    simpa [Lexeme.nodes] using readClose_arranged h.arranged_of_not_openParen hstep
  | comma =>
    refine .arranged (fun hfalse => by cases hfalse) ?_
    simpa [Lexeme.nodes] using readComma_arranged h.arranged_of_not_openParen hstep

theorem readAll_arranged {all : List Node} {ts : List Token} {afterName : Bool} {s s' : State}
    (h : Placed r all afterName (beforeParen ts false) s)
    (hread : readAll r afterName ts false s = .ok s') :
    Arranged r (all ++ operands (written r ts)) s'.output s'.stack s'.frames := by
  induction ts generalizing all afterName s with
  | nil =>
    cases hread
    simpa using h.arranged_of_not_openParen
  | cons t ts ih =>
    obtain ⟨s₁, hstep, hrest⟩ := exists_of_bind_eq_ok hread
    rw [written_cons, operands_append, ← List.append_assoc]
    exact ih (step_placed h hstep) hrest

/-! ## What stands before a literal -/

/-- What a number finds in the output when it is read. -/
theorem exists_front {before after : List Token} {n : Token} {y : Float} {nodes : List Node}
    (h : convert r (before ++ n :: after) = .ok nodes) (hn : n.lexeme = .number y) :
    ∃ front back, nodes = front ++ .literal y :: back ∧ literals front = numbers before ∧
      ∃ others, (calls front ++ others).Perm (calls (written r before)) := by
  obtain ⟨s', hread, hfinish⟩ := exists_of_bind_eq_ok h
  rw [readAll_append] at hread
  obtain ⟨s, hbefore, hrest⟩ := exists_of_bind_eq_ok hread
  have hafter : readAll r false after false (s.emit (.literal y)) = .ok s' := by
    rw [readAll, step, hn] at hrest
    exact hrest
  obtain ⟨back, hnodes⟩ := exists_back r hafter hfinish
  have hrecorded : Recorded ([] ++ numbers before) s :=
    readAll_recorded ⟨rfl, fun frame hframe => by cases hframe⟩ hbefore
  refine ⟨s.output.reverse, back, ?_, hrecorded.literals, ?_⟩
  · rw [hnodes, State.emit, List.reverse_cons, List.append_assoc]
    rfl
  · have hheld : (calls (held r s.output s.stack)).Perm (calls (written r before)) :=
      (readAll_held hbefore).filterMap _
    have hreverse : (calls s.output.reverse).Perm (calls s.output) :=
      (List.reverse_perm s.output).filterMap _
    rw [held, calls_append] at hheld
    exact ⟨_, (hreverse.append_right _).trans hheld⟩

/-- A literal is told by the number of literals before it. -/
theorem front_eq {front front' back back' : List Node} {x x' : Float}
    (h : front ++ .literal x :: back = front' ++ .literal x' :: back')
    (hlength : (literals front).length = (literals front').length) : front = front' := by
  induction front generalizing front' with
  | nil =>
    cases front' with
    | nil => rfl
    | cons n front' =>
      cases h
      cases hlength
  | cons n front ih =>
    cases front' with
    | nil =>
      cases h
      cases hlength
    | cons n' front' =>
      obtain ⟨rfl, hrest⟩ := List.cons.inj h
      refine congrArg (List.cons n) (ih hrest ?_)
      cases n with
      | literal x => exact Nat.succ.inj hlength
      | call d => exact hlength

/-! ## All tokens -/

/-- Every number, operator and name that is defined stands for one node, and nothing else
for any. -/
theorem Accepted.length_nodes {ts : List Token} (h : Accepted r ts) :
    ∀ t ∈ ts, (t.lexeme.nodes r).length = if t.lexeme.isTerm then 1 else 0 := by
  intro t ht
  obtain ⟨lexeme, index⟩ := t
  cases lexeme with
  | operator symbol =>
    obtain ⟨o, ho⟩ := h.operators _ ht symbol rfl
    simp [Lexeme.nodes_operator ho, Lexeme.isTerm]
  | name name =>
    obtain ⟨f, hf⟩ := h.names _ ht name rfl
    simp [Lexeme.nodes_name hf, Lexeme.isTerm]
  | number _ | openParen | closeParen | comma => rfl

theorem length_written {ts : List Token}
    (h : ∀ t ∈ ts, (t.lexeme.nodes r).length = if t.lexeme.isTerm then 1 else 0) :
    (written r ts).length = terms ts := by
  induction ts with
  | nil => rfl
  | cons t ts ih =>
    rw [written_cons, List.length_append, h t List.mem_cons_self,
      ih fun u hu => h u (List.mem_cons_of_mem _ hu), terms, terms, List.countP_cons, Nat.add_comm]

/-- What the nodes of tokens keep of them. -/
structure Keeps (r : Registry) (ts : List Token) (nodes : List Node) : Prop where
  /-- every term stands for one node, and a parenthesis or a comma for none -/
  single : ∀ t ∈ ts, (t.lexeme.nodes r).length = if t.lexeme.isTerm then 1 else 0
  length : nodes.length = terms ts
  perm : nodes.Perm (written r ts)
  literals : literals nodes = numbers ts
  calls : (calls nodes).Perm (calls (written r ts))
  operands : operands nodes = operands (written r ts)
  /-- the calls before a literal are among the terms before the number it comes from -/
  before : ∀ front x back us n vs y, nodes = front ++ .literal x :: back → ts = us ++ n :: vs →
    n.lexeme = .number y → (Postfix.literals front).length = (numbers us).length →
    ∃ others, (Postfix.calls front ++ others).Perm (Postfix.calls (written r us))

/-- Tokens that have a postfix order have each of their terms as one node, the literals
and all other operands in the order in which they are written, and no call comes before
a literal that is not written before it. -/
theorem keeps_of_ofTokens (r : Registry) {ts : List Token} {nodes : List Node}
    (h : ofTokens r ts = .ok nodes) : Keeps r ts nodes := by
  have hconvert := ofTokens_eq_ok_iff.mp h
  obtain ⟨s, hread, hfinish⟩ := exists_of_bind_eq_ok hconvert
  have haccepted := convert_follows r ts
  rw [hconvert] at haccepted
  have hperm := convert_perm_written hconvert
  have hrecorded : Recorded ([] ++ numbers ts) s :=
    readAll_recorded ⟨rfl, fun frame hframe => by cases hframe⟩ hread
  have hfinished := (finish_addsCalls hfinish).literals
  have hplaced : Placed r [] false (beforeParen ts false) .initial :=
    .arranged (fun hfalse => by cases hfalse) (@Arranged.output r [])
  have hsingle := Accepted.length_nodes haccepted
  refine ⟨hsingle, ?_, hperm, ?_, hperm.filterMap _, ?_, ?_⟩
  · rw [hperm.length_eq, length_written hsingle]
  · rw [List.reverse_reverse] at hfinished
    exact hfinished.trans hrecorded.literals
  · exact finish_arranged (readAll_arranged hplaced hread) hfinish
  · intro front x back us n vs y hnodes hts hn hlength
    rw [hts] at hconvert
    obtain ⟨front', back', hnodes', hliterals, hsub⟩ := exists_front hconvert hn
    have hfront : front = front' := by
      refine front_eq (hnodes.symm.trans hnodes') ?_
      rw [hlength, hliterals]
    rwa [hfront]

/-- The nodes of `max(1, pi()) + 2` keep what has to be kept. -/
theorem keeps_of_ofTokens_max :
    ∃ nodes,
      ofTokens Standard.registry
        [⟨.name "max", 0⟩, ⟨.openParen, 3⟩, ⟨.number 1, 4⟩, ⟨.comma, 5⟩, ⟨.name "pi", 7⟩,
          ⟨.openParen, 9⟩, ⟨.closeParen, 10⟩, ⟨.closeParen, 11⟩, ⟨.operator "+", 13⟩,
          ⟨.number 2, 15⟩] = .ok nodes ∧
      Keeps Standard.registry
        [⟨.name "max", 0⟩, ⟨.openParen, 3⟩, ⟨.number 1, 4⟩, ⟨.comma, 5⟩, ⟨.name "pi", 7⟩,
          ⟨.openParen, 9⟩, ⟨.closeParen, 10⟩, ⟨.closeParen, 11⟩, ⟨.operator "+", 13⟩,
          ⟨.number 2, 15⟩] nodes :=
  ⟨_, rfl, keeps_of_ofTokens _ rfl⟩

end Reckoner.Postfix
