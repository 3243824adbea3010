import Reckoner.Proofs.Postfix.Locality
import Reckoner.Proofs.Postfix.Tracking

set_option autoImplicit false

/-!
# Every term becomes one node

A number, an operator and a name each stand for one node, and all other lexemes for
none.  While tokens are read, the nodes that they stand for are in the output or wait
on the stack, and releasing an entry moves its node from the one to the other.  So
tokens that have a postfix order have the nodes that they stand for, each once.
-/

namespace Reckoner

/-- The node that a lexeme stands for, or none. -/
def Lexeme.nodes (r : Registry) : Lexeme → List Node
  | .number x => [.literal x]
  | .operator s => match r.operator s with
    | .ok o => [.call (.operator o)]
    | .error _ => []
  | .name n => match r.function n with
    | .ok f => [.call (.function f)]
    | .error _ => []
  | .openParen | .closeParen | .comma => []

theorem Lexeme.nodes_operator {r : Registry} {symbol : String} {o : InfixOperator}
    (h : r.operator symbol = .ok o) : (Lexeme.operator symbol).nodes r = [.call (.operator o)] := by
  rw [nodes, h]

theorem Lexeme.nodes_name {r : Registry} {name : String} {f : NamedFunction}
    (h : r.function name = .ok f) : (Lexeme.name name).nodes r = [.call (.function f)] := by
  rw [nodes, h]

namespace Postfix

/-- The nodes of tokens, in the order in which they are written. -/
def written (r : Registry) (ts : List Token) : List Node := ts.flatMap fun t => t.lexeme.nodes r

@[simp] theorem written_nil (r : Registry) : written r [] = [] := rfl

@[simp] theorem written_cons (r : Registry) (t : Token) (ts : List Token) :
    written r (t :: ts) = t.lexeme.nodes r ++ written r ts := List.flatMap_cons

@[simp] theorem written_append (r : Registry) (ts us : List Token) :
    written r (ts ++ us) = written r ts ++ written r us := List.flatMap_append

/-- The nodes in the output and on the stack. -/
def held (r : Registry) (output : List Node) (stack : List Entry) : List Node :=
  output ++ stack.flatMap fun e => e.lexeme.nodes r

variable {r : Registry}

/-! ## Single operations -/

/-- An entry that is put on the stack. -/
theorem held_push (output : List Node) (e : Entry) (stack : List Entry) :
    (held r output (e :: stack)).Perm (held r output stack ++ e.lexeme.nodes r) := by
  unfold held
  rw [List.flatMap_cons, List.append_assoc]
  exact List.perm_append_comm.append_left output

theorem held_paren (output : List Node) (index : Int) (stack : List Entry) :
    held r output (.paren index :: stack) = held r output stack := rfl

/-- A node that goes to the output at once. -/
theorem held_emit (n : Node) (output : List Node) (stack : List Entry) :
    (held r (n :: output) stack).Perm (held r output stack ++ [n]) :=
  (List.perm_append_singleton n _).symm

/-- An entry stands for the node that it is released as. -/
theorem nodes_of_definitionOf {e : Entry} {d : Definition} (h : definitionOf r e = .ok d) :
    e.lexeme.nodes r = [.call d] := by
  cases e with
  | operator symbol =>
    cases ho : r.operator symbol with
    | error e =>
      rw [definitionOf, operatorOf_error ho] at h
      cases h
    | ok o =>
      rw [definitionOf_operator ho] at h
      cases h
      exact Lexeme.nodes_operator ho
  | name name =>
    cases hf : r.function name with
    | error e =>
      rw [definitionOf_name_error hf] at h
      cases h
    | ok f =>
      rw [definitionOf_name hf] at h
      cases h
      exact Lexeme.nodes_name hf
  | paren index => cases h

/-- An entry that is released. -/
theorem held_release {e : Entry} {d : Definition} (h : definitionOf r e = .ok d)
    (output : List Node) (stack : List Entry) :
    (held r (.call d :: output) stack).Perm (held r output (e :: stack)) := by
  have hpush := held_push (r := r) output e stack
  rw [nodes_of_definitionOf h] at hpush
  exact (held_emit (.call d) output stack).trans hpush.symm

theorem release_held {stack stack' : List Entry} {output output' : List Node}
    (h : release r output stack = .ok (output', stack')) :
    (held r output' stack').Perm (held r output stack) :=
  release_keeps (P := fun output' stack' => (held r output' stack').Perm (held r output stack))
    (fun hd hheld => (held_release hd _ _).trans hheld) (List.Perm.refl _) h

theorem releaseTighter_held {precedence : Nat} {stack stack' : List Entry}
    {output output' : List Node}
    (h : releaseTighter r precedence output stack = .ok (output', stack')) :
    (held r output' stack').Perm (held r output stack) :=
  releaseTighter_keeps
    (P := fun output' stack' => (held r output' stack').Perm (held r output stack))
    (fun hd hheld => (held_release hd _ _).trans hheld) (List.Perm.refl _) h

theorem finish_held {stack : List Entry} {output nodes : List Node}
    (h : finish r output stack = .ok nodes) : nodes.Perm (held r output stack) := by
  have hheld : (held r nodes.reverse []).Perm (held r output stack) :=
    finish_keeps (P := fun output' stack' => (held r output' stack').Perm (held r output stack))
      (fun hd hheld => (held_release hd _ _).trans hheld) (List.Perm.refl _) h
  rw [held, List.flatMap_nil, List.append_nil] at hheld
  exact (List.reverse_perm nodes).symm.trans hheld

theorem readName_held (name : String) (parenNext : Bool) (s : State) :
    (held r (readName r name parenNext s).output (readName r name parenNext s).stack).Perm
      (held r s.output s.stack ++ (Lexeme.name name).nodes r) := by
  have hpush := held_push (r := r) s.output (.name name) s.stack
  unfold readName
  split
  · next f hf =>
    split
    · rw [Lexeme.nodes_name hf]
      exact held_emit _ _ _
    · exact hpush
  · exact hpush

theorem readOperator_held {symbol : String} {s s' : State} (h : readOperator r symbol s = .ok s') :
    (held r s'.output s'.stack).Perm
      (held r s.output s.stack ++ (Lexeme.operator symbol).nodes r) := by
  obtain ⟨o, -, hrest⟩ := exists_of_bind_eq_ok h
  obtain ⟨⟨output, stack⟩, hrelease, hs'⟩ := exists_of_bind_eq_ok hrest
  cases hs'
  have hpush := held_push (r := r) output (.operator symbol) stack
  exact hpush.trans ((releaseTighter_held hrelease).append_right _)

theorem closeBracket_held {output : List Node} {stack : List Entry}
    {frames : List (Option CallFrame)} {s' : State}
    (h : closeBracket r output stack frames = .ok s') :
    (held r s'.output s'.stack).Perm (held r output stack) := by
  match frames, h with
  | none :: frames, h => cases h; exact List.Perm.refl _
  | some frame :: frames, h =>
    match stack, h with
    | e :: stack, h =>
      obtain ⟨d, hd, hrest⟩ := exists_of_bind_eq_ok h
      by_cases hgiven : frame.given output.length = d.arity
      · rw [if_pos hgiven] at hrest
        cases hrest
        exact held_release hd output stack
      · rw [if_neg hgiven] at hrest
        cases hrest

theorem readClose_held {index : Int} {s s' : State} (h : readClose r index s = .ok s') :
    (held r s'.output s'.stack).Perm (held r s.output s.stack) := by
  obtain ⟨⟨output, stack⟩, hrelease, hrest⟩ := exists_of_bind_eq_ok h
  match stack, hrest with
  | .paren i :: stack, hrest =>
    have hreleased := release_held hrelease
    rw [held_paren] at hreleased
    exact (closeBracket_held hrest).trans hreleased

theorem readComma_held {index : Int} {s s' : State} (h : readComma r index s = .ok s') :
    (held r s'.output s'.stack).Perm (held r s.output s.stack) := by
  obtain ⟨⟨output, stack⟩, hrelease, hrest⟩ := exists_of_bind_eq_ok h
  match stack, hrest with
  | e :: stack, hrest =>
    cases hrest
    exact release_held hrelease

/-! ## Runs -/

/-- Reading a token adds the node that it stands for. -/
theorem step_held {afterName parenNext : Bool} {t : Token} {s s' : State}
    (h : step r afterName parenNext t s = .ok s') :
    (held r s'.output s'.stack).Perm (held r s.output s.stack ++ t.lexeme.nodes r) := by
  obtain ⟨lexeme, index⟩ := t
  cases lexeme with
  | number x => cases h; exact held_emit _ _ _
  | operator symbol => exact readOperator_held h
  | name name => cases h; exact readName_held name parenNext s
  | openParen => cases h; exact held_push _ (.paren index) _
  | closeParen => simpa [Lexeme.nodes] using readClose_held h
  | comma => simpa [Lexeme.nodes] using readComma_held h

theorem readAll_held {ts : List Token} {afterName next : Bool} {s s' : State}
    (h : readAll r afterName ts next s = .ok s') :
    (held r s'.output s'.stack).Perm (held r s.output s.stack ++ written r ts) := by
  induction ts generalizing afterName s with
  | nil =>
    cases h
    rw [written_nil, List.append_nil]
  | cons t ts ih =>
    obtain ⟨s₁, hstep, hrest⟩ := exists_of_bind_eq_ok h
    rw [written_cons, ← List.append_assoc]
    exact (ih hrest).trans ((step_held hstep).append_right _)

/-- Tokens that have a postfix order have the nodes that they stand for, each once. -/
theorem convert_perm_written {ts : List Token} {nodes : List Node} (h : convert r ts = .ok nodes) :
    nodes.Perm (written r ts) := by
  obtain ⟨s, hread, hfinish⟩ := exists_of_bind_eq_ok h
  exact (finish_held hfinish).trans (readAll_held hread)

end Postfix

end Reckoner
