import Reckoner.Proofs.Expression.Parsing
import Reckoner.Proofs.Postfix.Substitution

set_option autoImplicit false

/-!
# Calls with and without parentheses

A function of one argument can be called without parentheses.  Its name then waits
below whatever its argument leaves waiting, and is released with it by the end of the
bracket or of the argument that the call stands in.  With parentheses the call is put
out at the closing parenthesis.  In between the two conversions are in different
states, but the same nodes come out of both, whatever stands before and after.  A call
of a function without arguments leaves nothing waiting in either form.

The argument need not be an expression: any tokens that have a postfix order will do.
-/

namespace Reckoner.Postfix

variable {r : Registry}

/-! ## What is left to read -/

/-- What becomes of the tokens that are left, once a conversion has come to a state. -/
def resume (r : Registry) (afterName : Bool) (ts : List Token) (s : State) :
    Except Stop (List Node) := do
  let s' ← readAll r afterName ts false s
  finish r s'.output s'.stack

theorem resume_append (afterName : Bool) (ts us : List Token) (s : State) :
    resume r afterName (ts ++ us) s =
      readAll r afterName ts (beforeParen us false) s >>=
        resume r (endsInName afterName ts) us := by
  unfold resume
  rw [readAll_append, bind_assoc]

/-- A name right before tokens matters only if they start with a parenthesis. -/
theorem readAll_afterName {ts : List Token} {next : Bool}
    (h : beforeParen ts false = false) (afterName afterName' : Bool) (s : State) :
    readAll r afterName ts next s = readAll r afterName' ts next s := by
  cases ts with
  | nil => rfl
  | cons t ts =>
    obtain ⟨lexeme, index⟩ := t
    cases lexeme with
    | openParen => cases h
    | number _ | operator _ | name _ | closeParen | comma => rfl

theorem resume_afterName {ts : List Token} (h : beforeParen ts false = false)
    (afterName afterName' : Bool) (s : State) :
    resume r afterName ts s = resume r afterName' ts s := by
  unfold resume
  rw [readAll_afterName h afterName afterName']

theorem beforeParen_of_head {ts : List Token} (h : ∀ t ∈ ts.head?, t.lexeme ≠ .openParen) :
    beforeParen ts false = false := by
  cases ts with
  | nil => rfl
  | cons t ts =>
    have hne := h t rfl
    obtain ⟨lexeme, index⟩ := t
    cases lexeme with
    | openParen => exact absurd rfl hne
    | number _ | operator _ | name _ | closeParen | comma => rfl

/-- Tokens before which an argument ends: none, or a closing parenthesis or a comma. -/
def EndsArgument (after : List Token) : Prop :=
  ∀ t ∈ after.head?, t.lexeme = .closeParen ∨ t.lexeme = .comma

theorem EndsArgument.beforeParen {after : List Token} (h : EndsArgument after) :
    Postfix.beforeParen after false = false := by
  cases after with
  | nil => rfl
  | cons t after =>
    show t.lexeme.isOpenParen = false
    rcases h t rfl with ht | ht <;> rw [ht] <;> rfl

/-- The end of an argument releases what waits for it, so it might as well have been
released before. -/
theorem resume_leaves {after : List Token} (hafter : EndsArgument after) {nodes : List Node}
    {es : List Entry} {base s : State} (h : Leaves r nodes es base s)
    (afterName afterName' : Bool) :
    resume r afterName after s =
      resume r afterName' after { base with output := nodes.reverse ++ base.output } := by
  cases after with
  | nil => exact h.finish
  | cons t after =>
    have hstep : ∀ parenNext, step r afterName parenNext t s =
        step r afterName' parenNext t { base with output := nodes.reverse ++ base.output } := by
      intro parenNext
      rcases hafter t rfl with ht | ht
      · simp only [step, ht, readClose, h.release, h.frames]
      · simp only [step, ht, readComma, h.release, h.frames]
    rw [resume, readAll, hstep]
    rfl

/-- Tokens that leave entries waiting, before the end of an argument. -/
theorem Suspends.resume {ts after : List Token} {nodes : List Node} (h : Suspends r ts nodes)
    (hafter : EndsArgument after) (afterName : Bool) (s : State) :
    Postfix.resume r afterName (ts ++ after) s =
      Postfix.resume r false after { s with output := nodes.reverse ++ s.output } := by
  obtain ⟨s', es, hread, hleaves⟩ := h afterName s
  rw [resume_append, hafter.beforeParen, hread, ok_bind]
  exact resume_leaves hafter hleaves _ false

/-- Tokens that leave nothing waiting, before anything but a parenthesis. -/
theorem Settles.resume {ts after : List Token} {nodes : List Node} (h : Settles r ts nodes)
    (hstart : beforeParen ts false = false) (hafter : beforeParen after false = false)
    (afterName : Bool) (s : State) :
    Postfix.resume r afterName (ts ++ after) s =
      Postfix.resume r false after { s with output := nodes.reverse ++ s.output } := by
  have hread := h afterName s fun hparen => by rw [hstart] at hparen; cases hparen
  rw [resume_append, hafter, hread, ok_bind]
  exact resume_afterName hafter _ false _

/-! ## Exchanging phrases -/

/-- Tokens that lead on to the same from any state can be exchanged. -/
theorem ofTokens_exchange {us vs : List Token} (before : List Token)
    (h : ∀ afterName s, resume r afterName us s = resume r afterName vs s)
    (hstart : beforeParen us false = beforeParen vs false) : ofTokens r (before ++ us) = ofTokens r (before ++ vs) := by
  have hconvert : convert r (before ++ us) = convert r (before ++ vs) := by
    show resume r false (before ++ us) .initial = resume r false (before ++ vs) .initial
    rw [resume_append, resume_append, hstart]
    exact bind_congr fun s => h _ s
  have hagree : Agree Eq (convert r (before ++ us)) (convert r (before ++ vs)) :=
    hconvert ▸ Agree.refl _
  rcases hagree.ofTokens with ⟨e, hus, hvs⟩ | ⟨nodes, _, hus, hvs, rfl⟩
  · rw [hus, hvs]
  · rw [hus, hvs]

/-- Tokens that have a postfix order leave their nodes at the start of any bracket. -/
theorem suspendsInside_of_ofTokens {ts : List Token} {nodes : List Node}
    (h : ofTokens r ts = .ok nodes) : SuspendsInside r ts nodes := by
  intro afterName s hstart hholds
  obtain ⟨s', es, hread, hleaves⟩ := readAll_leaves h s hholds
  refine ⟨s', es, ?_, hleaves⟩
  rw [← hread]
  cases hparen : beforeParen ts false with
  | true => rw [hstart hparen]
  | false => exact readAll_afterName hparen afterName false s

/-- A function of one argument, with parentheses, around any tokens that have nodes. -/
theorem settles_call_of_ofTokens {name : String} {f : NamedFunction} {argument : List Token}
    {nodes : List Node} (hf : r.function name = .ok f) (harity : f.arity = 1)
    (h : ofTokens r argument = .ok nodes) (hnodes : nodes ≠ []) (place opening closing : Int) :
    Settles r (⟨.name name, place⟩ :: bracketed opening closing argument)
      (nodes ++ [.call (.function f)]) := by
  refine settles_call (p := ⟨.openParen, opening⟩) (c := ⟨.closeParen, closing⟩) rfl rfl rfl hf ?_
  intro output rest frames
  obtain ⟨s, es, hread, hleaves⟩ := readAll_leaves h
    ⟨output, .paren opening :: rest, some ⟨output.length, 0⟩ :: frames⟩
    (holds_paren r 0 opening rest)
  refine ⟨s, es, 0, hread, hleaves, ?_⟩
  have hne : (nodes.reverse ++ output).length ≠ output.length := by
    have hpos := List.length_pos_iff.mpr hnodes
    rw [List.length_append, List.length_reverse]
    omega
  rw [CallFrame.given, if_neg fun hand => hne hand.1, harity]

/-- A call of a function of one argument has the same outcome with parentheses and
without, in front of anything that ends an argument, and so has a call of a function
without arguments, in front of anything but a parenthesis. -/
theorem ofTokens_call_forms (r : Registry) (before after : List Token) {name : String}
    {f : NamedFunction} (hf : r.function name = .ok f) (place opening closing : Int) :
    (∀ argument nodes, f.arity = 1 → (∀ t ∈ argument.head?, t.lexeme ≠ .openParen) →
      ofTokens r argument = .ok nodes → nodes ≠ [] →
      (∀ t ∈ after.head?, t.lexeme = .closeParen ∨ t.lexeme = .comma) →
      ofTokens r (before ++ (⟨.name name, place⟩ :: argument ++ after)) =
        ofTokens r
          (before ++ (⟨.name name, place⟩ :: bracketed opening closing argument ++ after))) ∧
    (f.arity = 0 → (∀ t ∈ after.head?, t.lexeme ≠ .openParen) →
      ofTokens r (before ++ ([⟨.name name, place⟩] ++ after)) =
        ofTokens r (before ++ (⟨.name name, place⟩ :: bracketed opening closing [] ++ after))) := by
  constructor
  · intro argument nodes harity hargument hnodes hne hafter
    have hstart : beforeParen argument false = false := beforeParen_of_head hargument
    have hbare : Suspends r (⟨.name name, place⟩ :: argument) (nodes ++ [.call (.function f)]) :=
      suspends_bareCall rfl hf harity hstart (suspendsInside_of_ofTokens hnodes)
    have hparens := settles_call_of_ofTokens hf harity hnodes hne place opening closing
    have hends : EndsArgument after := hafter
    refine ofTokens_exchange before ?_ ?_
    · intro afterName s
      rw [hbare.resume hends, hparens.resume rfl hends.beforeParen]
    · rfl
  · intro harity hafter
    have hstart : beforeParen after false = false := beforeParen_of_head hafter
    have hbare : Settles r [⟨.name name, place⟩] [.call (.function f)] :=
      settles_constant rfl hf harity
    have hparens : Settles r (⟨.name name, place⟩ :: bracketed opening closing [])
        [.call (.function f)] :=
      settles_constantCall rfl rfl rfl hf harity
    refine ofTokens_exchange before ?_ ?_
    · intro afterName s
      rw [hbare.resume rfl hstart, hparens.resume rfl hstart]
    · rfl

/-- `max(abs 2 - 5, pi)` can be written `max(abs(2 - 5), pi)`, and `1 + pi` as `1 + pi()`. -/
theorem ofTokens_call_forms_abs_pi :
    ofTokens Standard.registry
        ([⟨.name "max", 0⟩, ⟨.openParen, 3⟩] ++
          (⟨.name "abs", 4⟩ :: [⟨.number 2, 8⟩, ⟨.operator "-", 10⟩, ⟨.number 5, 12⟩] ++
            [⟨.comma, 13⟩, ⟨.name "pi", 15⟩, ⟨.closeParen, 17⟩])) =
      ofTokens Standard.registry
        ([⟨.name "max", 0⟩, ⟨.openParen, 3⟩] ++
          (⟨.name "abs", 4⟩ ::
              bracketed 7 14 [⟨.number 2, 8⟩, ⟨.operator "-", 10⟩, ⟨.number 5, 12⟩] ++
            [⟨.comma, 13⟩, ⟨.name "pi", 15⟩, ⟨.closeParen, 17⟩])) ∧
    ofTokens Standard.registry
        ([⟨.number 1, 0⟩, ⟨.operator "+", 2⟩] ++ ([⟨.name "pi", 4⟩] ++ [])) =
      ofTokens Standard.registry
        ([⟨.number 1, 0⟩, ⟨.operator "+", 2⟩] ++
          (⟨.name "pi", 4⟩ :: bracketed 6 7 [] ++ [])) := by
  have habs : ∃ f, Standard.registry.function "abs" = .ok f ∧ f.arity = 1 := ⟨_, rfl, rfl⟩
  have hpi : ∃ f, Standard.registry.function "pi" = .ok f ∧ f.arity = 0 := ⟨_, rfl, rfl⟩
  obtain ⟨f, hf, hone⟩ := habs
  obtain ⟨c, hc, hzero⟩ := hpi
  refine ⟨(ofTokens_call_forms _ _ _ hf 4 7 14).1 _ _ hone ?_ rfl ?_ ?_,
    (ofTokens_call_forms _ _ _ hc 4 6 7).2 hzero ?_⟩
  · intro t ht; cases ht; intro hparen; cases hparen
  · exact List.cons_ne_nil _ _
  · intro t ht; cases ht; exact .inr rfl
  · intro t ht; cases ht

end Reckoner.Postfix
