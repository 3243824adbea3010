import Reckoner.Expression.Grammar
import Reckoner.Interpreter
import Reckoner.Proofs.Expression.Chain
import Reckoner.Proofs.Postfix.Evaluation
import Reckoner.Proofs.Token.LexicalGrammar
import Reckoner.Registry.Standard

set_option autoImplicit false

/-!
# Expressions are read as their trees

Tokens that form an expression are put into the postorder of its tree, and
interpreting them is evaluating the tree.  The proof follows the grammar: a
primary is read to its nodes with nothing left waiting, a bare call and a chain
leave entries waiting that drain to their nodes, and whatever ends a bracket
drains them.
-/

namespace Reckoner.Postfix

open Reckoner.Tree

/-- Tokens that are read to nodes at the start of a bracket, but may leave entries
waiting. -/
def SuspendsInside (r : Registry) (ts : List Token) (nodes : List Node) : Prop :=
  ∀ (afterName : Bool) (s : State), (beforeParen ts false = true → afterName = false) →
    Holds r 0 s.stack →
    ∃ s' es, readAll r afterName ts false s = .ok s' ∧ Leaves r nodes es s s'

/-- Tokens that are read to the arguments of a call, one after the other. -/
def SuspendsArguments (r : Registry) (ts : List Token) (trees : List Tree) : Prop :=
  ∀ (output : List Node) (index : Int) (rest : List Entry) (frame : CallFrame)
    (frames : List (Option CallFrame)),
    ∃ s' es commas,
      readAll r false ts false ⟨output, .paren index :: rest, some frame :: frames⟩ = .ok s' ∧
      Leaves r (postorderAll trees) es
        ⟨output, .paren index :: rest, some ⟨frame.outputSize, commas⟩ :: frames⟩ s' ∧
      commas + 1 = frame.commas + trees.length

/-! ## Ends of brackets -/

/-- The end of a call that is given as many arguments as its function takes. -/
theorem readClose_call {r : Registry} {nodes output : List Node} {es stack : List Entry}
    {frames : List (Option CallFrame)} {frame : CallFrame} {index : Int} {s : State}
    {name : String} {f : NamedFunction}
    (h : Leaves r nodes es
      ⟨output, .paren index :: .name name :: stack, some frame :: frames⟩ s)
    (hf : r.function name = .ok f)
    (hgiven : frame.given (nodes.reverse ++ output).length = f.arity) (closing : Int) :
    readClose r closing s =
      .ok ⟨.call (.function f) :: (nodes.reverse ++ output), stack, frames⟩ := by
  rw [readClose, release_leaves h, ok_bind, h.frames]
  show closeCall r frame (nodes.reverse ++ output) (.name name :: stack) frames = _
  rw [closeCall_name hf, if_pos hgiven]

theorem postorder_length_pos (t : Tree) : 0 < t.postorder.length := by
  cases t <;> simp [postorder]

/-- The arguments written are counted right, since none of them is empty. -/
theorem given_arguments {frame : CallFrame} {trees : List Tree} {commas : Nat}
    (hframe : frame.commas = 0) (hcommas : commas + 1 = frame.commas + trees.length)
    (output : List Node) :
    (CallFrame.mk output.length commas).given ((postorderAll trees).reverse ++ output).length =
      trees.length := by
  cases trees with
  | nil => simp [hframe] at hcommas
  | cons t trees =>
    have hpos := postorder_length_pos t
    have hne : ((postorderAll (t :: trees)).reverse ++ output).length ≠ output.length := by
      simp only [postorderAll, List.reverse_append, List.length_append, List.length_reverse]
      omega
    rw [CallFrame.given, if_neg fun hand => hne hand.1]
    show commas + 1 = (t :: trees).length
    omega

/-! ## The grammar, case by case -/

theorem beforeParen_of_lexemes {ts : List Token} {ls : List Lexeme}
    (hts : ts.map Token.lexeme = ls) (h : ¬ Grammar.StartsWithParen ls) :
    beforeParen ts false = false := by
  subst hts
  cases ts with
  | nil => rfl
  | cons t ts =>
    obtain ⟨lexeme, index⟩ := t
    cases lexeme with
    | openParen => exact absurd trivial h
    | number _ | operator _ | name _ | closeParen | comma => rfl

theorem settles_number {t : Token} {x : Float} (r : Registry) (ht : t.lexeme = .number x) :
    Settles r [t] [.literal x] := by
  intro afterName s _
  simp [readAll, step, ht, State.emit]

theorem settles_constant {r : Registry} {t : Token} {name : String} {f : NamedFunction}
    (ht : t.lexeme = .name name) (hf : r.function name = .ok f) (harity : f.arity = 0) :
    Settles r [t] [.call (.function f)] := by
  intro afterName s _
  simp [readAll, step, ht, readName, hf, harity, beforeParen, State.emit]

/-- A call, if what its parentheses hold leaves its arguments. -/
theorem settles_call {r : Registry} {t p c : Token} {name : String} {f : NamedFunction}
    {ts : List Token} {nodes : List Node} (ht : t.lexeme = .name name)
    (hp : p.lexeme = .openParen) (hc : c.lexeme = .closeParen) (hf : r.function name = .ok f)
    (hts : ∀ (output : List Node) (rest : List Entry) (frames : List (Option CallFrame)),
      ∃ s' es commas,
        readAll r false ts false
          ⟨output, .paren p.index :: rest, some ⟨output.length, 0⟩ :: frames⟩ = .ok s' ∧
        Leaves r nodes es
          ⟨output, .paren p.index :: rest, some ⟨output.length, commas⟩ :: frames⟩ s' ∧
        (CallFrame.mk output.length commas).given (nodes.reverse ++ output).length = f.arity) :
    Settles r (t :: p :: (ts ++ [c])) (nodes ++ [.call (.function f)]) := by
  intro afterName s _
  obtain ⟨s', es, commas, hread, hleaves, hgiven⟩ :=
    hts s.output (.name name :: s.stack) s.frames
  have hname : step r afterName (beforeParen (p :: (ts ++ [c])) false) t s =
      .ok (s.push (.name name)) := by
    simp [step, ht, beforeParen, hp, Lexeme.isOpenParen, readName_beforeParen]
  have hopen : step r t.lexeme.isName (beforeParen (ts ++ [c]) false) p (s.push (.name name)) =
      .ok ⟨s.output, .paren p.index :: .name name :: s.stack,
        some ⟨s.output.length, 0⟩ :: s.frames⟩ := by
    simp [step, hp, ht, Lexeme.isName, readOpen, State.push]
  have hnext : beforeParen [c] false = false := by simp [beforeParen, hc, Lexeme.isOpenParen]
  have hparen : p.lexeme.isName = false := by rw [hp]; rfl
  rw [readAll, hname, ok_bind, readAll, hopen, ok_bind, readAll_append, hnext, hparen, hread,
    ok_bind, readAll, step, hc]
  dsimp only
  rw [readClose_call hleaves hf hgiven c.index]
  simp [readAll]

/-- A function without arguments, with parentheses. -/
theorem settles_constantCall {r : Registry} {t p c : Token} {name : String} {f : NamedFunction}
    (ht : t.lexeme = .name name) (hp : p.lexeme = .openParen) (hc : c.lexeme = .closeParen)
    (hf : r.function name = .ok f) (harity : f.arity = 0) :
    Settles r [t, p, c] [.call (.function f)] := by
  have hempty : ∀ (output : List Node) (rest : List Entry) (frames : List (Option CallFrame)),
      ∃ s' es commas,
        readAll r false [] false
          ⟨output, .paren p.index :: rest, some ⟨output.length, 0⟩ :: frames⟩ = .ok s' ∧
        Leaves r [] es
          ⟨output, .paren p.index :: rest, some ⟨output.length, commas⟩ :: frames⟩ s' ∧
        (CallFrame.mk output.length commas).given (([] : List Node).reverse ++ output).length =
          f.arity := by
    intro output rest frames
    refine ⟨_, [], 0, rfl, ⟨rfl, rfl, rfl⟩, ?_⟩
    simp [CallFrame.given, harity]
  exact settles_call ht hp hc hf hempty

/-- An expression in parentheses. -/
theorem settles_group {r : Registry} {p c : Token} {ts : List Token} {nodes : List Node}
    (hp : p.lexeme = .openParen) (hc : c.lexeme = .closeParen)
    (hts : SuspendsInside r ts nodes) : Settles r (p :: (ts ++ [c])) nodes := by
  intro afterName s hafter
  have hfalse : afterName = false := hafter (by simp [beforeParen, hp, Lexeme.isOpenParen])
  obtain ⟨s', es, hread, hleaves⟩ := hts false
    ⟨s.output, .paren p.index :: s.stack, none :: s.frames⟩ (fun _ => rfl)
    (holds_paren r 0 p.index s.stack)
  have hopen : step r afterName (beforeParen (ts ++ [c]) false) p s =
      .ok ⟨s.output, .paren p.index :: s.stack, none :: s.frames⟩ := by
    simp [step, hp, hfalse, readOpen]
  have hnext : beforeParen [c] false = false := by simp [beforeParen, hc, Lexeme.isOpenParen]
  have hparen : p.lexeme.isName = false := by rw [hp]; rfl
  rw [readAll, hopen, ok_bind, readAll_append, hnext, hparen, hread, ok_bind, readAll, step, hc]
  dsimp only
  rw [readClose_group hleaves c.index]
  rfl

/-- A function of one argument in front of an expression. -/
theorem suspends_bareCall {r : Registry} {t : Token} {name : String} {f : NamedFunction}
    {ts : List Token} {nodes : List Node} (ht : t.lexeme = .name name)
    (hf : r.function name = .ok f) (harity : f.arity = 1) (hstart : beforeParen ts false = false)
    (hts : SuspendsInside r ts nodes) :
    Suspends r (t :: ts) (nodes ++ [.call (.function f)]) := by
  intro afterName s
  have hname : step r afterName (beforeParen ts false) t s = .ok (s.push (.name name)) := by
    simp [step, ht, readName, hf, harity]
  obtain ⟨s', es, hread, hleaves⟩ := hts t.lexeme.isName (s.push (.name name))
    (fun htrue => by rw [hstart] at htrue; cases htrue) (holds_name r 0 name s.stack)
  refine ⟨s', es ++ [.name name], ?_, hleaves.frames, ?_, ?_⟩
  · rw [readAll, hname, ok_bind, hread]
  · simp [hleaves.stack, State.push]
  · rw [drain_append, hleaves.drained, ok_bind, drain_cons, definitionOf_name hf]
    simp [State.push]

theorem Suspends.inside {r : Registry} {ts : List Token} {nodes : List Node}
    (h : Suspends r ts nodes) : SuspendsInside r ts nodes :=
  fun afterName s _ _ => h afterName s

/-- A chain of operands that starts a bracket. -/
theorem suspendsInside_chain {r : Registry} {b : Bool} {us vs : List Token} {t : Tree}
    {links : ChainLinks} (hfirst : Settles r us t.postorder) (hlinks : Links r b vs links) :
    SuspendsInside r (us ++ vs) (ChainLinks.tree t links).postorder := by
  intro afterName s hafter hholds
  have hstart : beforeParen (us ++ vs) false = beforeParen us false := by
    cases us with
    | nil => exact hlinks.beforeParen
    | cons u us => rfl
  obtain ⟨s', es, hread, hleaves, _⟩ := readAll_links links t hlinks (endsInName afterName us) s
    fun link _ => hholds.mono (Nat.zero_le _)
  refine ⟨s', es, ?_, hleaves⟩
  rw [readAll_append, hlinks.beforeParen, hfirst afterName s (by rwa [hstart] at hafter), ok_bind,
    hread]

/-- The last argument of a call. -/
theorem suspendsArguments_one {r : Registry} {ts : List Token} {t : Tree}
    (hts : SuspendsInside r ts t.postorder) : SuspendsArguments r ts [t] := by
  intro output index rest frame frames
  obtain ⟨s', es, hread, hleaves⟩ := hts false
    ⟨output, .paren index :: rest, some frame :: frames⟩ (fun _ => rfl)
    (holds_paren r 0 index rest)
  refine ⟨s', es, frame.commas, hread, ?_, rfl⟩
  simpa [postorderAll] using hleaves

/-- An argument of a call with more of them to come. -/
theorem suspendsArguments_more {r : Registry} {us vs : List Token} {c : Token} {t : Tree}
    {trees : List Tree} (hc : c.lexeme = .comma) (hus : SuspendsInside r us t.postorder)
    (hvs : SuspendsArguments r vs trees) :
    SuspendsArguments r (us ++ c :: vs) (t :: trees) := by
  intro output index rest frame frames
  obtain ⟨s₁, es₁, hread₁, hleaves₁⟩ := hus false
    ⟨output, .paren index :: rest, some frame :: frames⟩ (fun _ => rfl)
    (holds_paren r 0 index rest)
  obtain ⟨s₂, es₂, commas, hread₂, hleaves₂, hcommas⟩ := hvs (t.postorder.reverse ++ output)
    index rest ⟨frame.outputSize, frame.commas + 1⟩ frames
  have hcomma : step r (endsInName false us) (beforeParen vs false) c s₁ =
      .ok ⟨t.postorder.reverse ++ output, .paren index :: rest,
        some ⟨frame.outputSize, frame.commas + 1⟩ :: frames⟩ := by
    rw [step, hc]
    dsimp only
    rw [readComma, release_leaves hleaves₁, ok_bind, hleaves₁.frames]
    rfl
  have hnext : beforeParen (c :: vs) false = false := by
    simp [beforeParen, hc, Lexeme.isOpenParen]
  refine ⟨s₂, es₂, commas, ?_, ⟨hleaves₂.frames, hleaves₂.stack, ?_⟩, ?_⟩
  · have hname : c.lexeme.isName = false := by rw [hc]; rfl
    rw [readAll_append, hnext, hread₁, ok_bind, readAll, hcomma, ok_bind, hname, hread₂]
  · simpa [postorderAll] using hleaves₂.drained
  · simp only [List.length_cons] at hcommas ⊢
    omega

/-! ## The grammar as a whole -/

mutual

theorem primary_settles {r : Registry} {ls : List Lexeme} {t : Tree}
    (h : Grammar.Primary r ls t) :
    t.WellFormed ∧ ∀ ts : List Token, ts.map Token.lexeme = ls → Settles r ts t.postorder := by
  match h with
  | .number x =>
    refine ⟨trivial, fun ts hts => ?_⟩
    obtain ⟨t, rfl, ht⟩ := List.map_eq_singleton_iff.mp hts
    exact settles_number r ht
  | .constant hf harity =>
    refine ⟨⟨harity.symm, trivial⟩, fun ts hts => ?_⟩
    obtain ⟨t, rfl, ht⟩ := List.map_eq_singleton_iff.mp hts
    exact settles_constant ht hf harity
  | .constantCall hf harity =>
    refine ⟨⟨harity.symm, trivial⟩, fun ts hts => ?_⟩
    obtain ⟨t, ts, rfl, ht, hts⟩ := List.map_eq_cons_iff.mp hts
    obtain ⟨p, ts, rfl, hp, hts⟩ := List.map_eq_cons_iff.mp hts
    obtain ⟨c, rfl, hc⟩ := List.map_eq_singleton_iff.mp hts
    exact settles_constantCall ht hp hc hf harity
  | .call hf harguments hlength =>
    obtain ⟨hwf, hreads⟩ := arguments_suspend harguments
    refine ⟨⟨hlength, hwf⟩, fun ts hts => ?_⟩
    obtain ⟨t, ts, rfl, ht, hts⟩ := List.map_eq_cons_iff.mp hts
    obtain ⟨p, ts, rfl, hp, hts⟩ := List.map_eq_cons_iff.mp hts
    obtain ⟨us, vs, rfl, hus, hvs⟩ := List.map_eq_append_iff.mp hts
    obtain ⟨c, rfl, hc⟩ := List.map_eq_singleton_iff.mp hvs
    refine settles_call ht hp hc hf fun output rest frames => ?_
    obtain ⟨s', es, commas, hread, hleaves, hcommas⟩ :=
      hreads us hus output p.index rest ⟨output.length, 0⟩ frames
    exact ⟨s', es, commas, hread, hleaves,
      (given_arguments rfl hcommas output).trans hlength⟩
  | .group hexpression =>
    obtain ⟨hwf, hreads⟩ := expression_suspends hexpression
    refine ⟨hwf, fun ts hts => ?_⟩
    obtain ⟨p, ts, rfl, hp, hts⟩ := List.map_eq_cons_iff.mp hts
    obtain ⟨us, vs, rfl, hus, hvs⟩ := List.map_eq_append_iff.mp hts
    obtain ⟨c, rfl, hc⟩ := List.map_eq_singleton_iff.mp hvs
    exact settles_group hp hc (hreads us hus)

theorem arguments_suspend {r : Registry} {ls : List Lexeme} {trees : List Tree}
    (h : Grammar.Arguments r ls trees) :
    AllWellFormed trees ∧
      ∀ ts : List Token, ts.map Token.lexeme = ls → SuspendsArguments r ts trees := by
  match h with
  | .one hexpression =>
    obtain ⟨hwf, hreads⟩ := expression_suspends hexpression
    exact ⟨⟨hwf, trivial⟩, fun ts hts => suspendsArguments_one (hreads ts hts)⟩
  | .more hexpression harguments =>
    obtain ⟨hwf, hreads⟩ := expression_suspends hexpression
    obtain ⟨hwfs, hreadss⟩ := arguments_suspend harguments
    refine ⟨⟨hwf, hwfs⟩, fun ts hts => ?_⟩
    obtain ⟨us, vs, rfl, hus, hvs⟩ := List.map_eq_append_iff.mp hts
    obtain ⟨c, vs, rfl, hc, hvs⟩ := List.map_eq_cons_iff.mp hvs
    exact suspendsArguments_more hc (hreads us hus) (hreadss vs hvs)

theorem chain_links {r : Registry} {ls : List Lexeme} {t : Tree} {links : ChainLinks}
    (h : Grammar.Chain r ls t links) :
    (t.WellFormed ∧ ∀ link ∈ links, link.2.WellFormed) ∧
      ∀ ts : List Token, ts.map Token.lexeme = ls →
        ∃ us vs, ts = us ++ vs ∧ Settles r us t.postorder ∧ Links r false vs links := by
  match h with
  | .first hprimary =>
    obtain ⟨hwf, hreads⟩ := primary_settles hprimary
    refine ⟨⟨hwf, fun link hlink => by cases hlink⟩, fun ts hts => ?_⟩
    exact ⟨ts, [], by simp, hreads ts hts, .nil⟩
  | .link hchain ho hprimary =>
    obtain ⟨⟨hfirst, hlinks⟩, hreads⟩ := chain_links hchain
    obtain ⟨hwf, hreadsOperand⟩ := primary_settles hprimary
    refine ⟨⟨hfirst, fun link hlink => ?_⟩, fun ts hts => ?_⟩
    · rcases List.mem_append.mp hlink with hmem | hlast
      · exact hlinks link hmem
      · rw [List.mem_singleton.mp hlast]
        exact hwf
    · obtain ⟨us, vs, rfl, hus, hvs⟩ := List.map_eq_append_iff.mp hts
      obtain ⟨c, vs, rfl, hc, hvs⟩ := List.map_eq_cons_iff.mp hvs
      obtain ⟨us₁, us₂, rfl, hsettles, hlinks⟩ := hreads us hus
      have hlast : Links r false (c :: (vs ++ [])) [(_, _)] :=
        .settled hc ho (hreadsOperand vs hvs) .nil
      rw [List.append_nil] at hlast
      exact ⟨us₁, us₂ ++ c :: vs, by simp, hsettles, hlinks.append hlast⟩

theorem bareCall_suspends {r : Registry} {ls : List Lexeme} {t : Tree}
    (h : Grammar.BareCall r ls t) :
    t.WellFormed ∧ ∀ ts : List Token, ts.map Token.lexeme = ls → Suspends r ts t.postorder := by
  match h with
  | .mk hf harity hexpression hstart =>
    obtain ⟨hwf, hreads⟩ := expression_suspends hexpression
    refine ⟨⟨harity.symm, hwf, trivial⟩, fun ts hts => ?_⟩
    obtain ⟨t, ts, rfl, ht, hts⟩ := List.map_eq_cons_iff.mp hts
    have hsuspends := suspends_bareCall ht hf harity (beforeParen_of_lexemes hts hstart)
      (hreads ts hts)
    simpa [postorder, postorderAll] using hsuspends

theorem expression_suspends {r : Registry} {ls : List Lexeme} {t : Tree}
    (h : Grammar.Expression r ls t) :
    t.WellFormed ∧
      ∀ ts : List Token, ts.map Token.lexeme = ls → SuspendsInside r ts t.postorder := by
  match h with
  | .bare hbare =>
    obtain ⟨hwf, hreads⟩ := bareCall_suspends hbare
    exact ⟨hwf, fun ts hts => (hreads ts hts).inside⟩
  | .chain hchain =>
    obtain ⟨⟨hfirst, hlinks⟩, hreads⟩ := chain_links hchain
    refine ⟨ChainLinks.wellFormed_tree _ hfirst hlinks, fun ts hts => ?_⟩
    obtain ⟨us, vs, rfl, hsettles, hlinks⟩ := hreads ts hts
    exact suspendsInside_chain hsettles hlinks
  | .chainBare hchain ho hbare =>
    obtain ⟨⟨hfirst, hlinks⟩, hreads⟩ := chain_links hchain
    obtain ⟨hwf, hreadsOperand⟩ := bareCall_suspends hbare
    refine ⟨ChainLinks.wellFormed_tree _ hfirst fun link hlink => ?_, fun ts hts => ?_⟩
    · rcases List.mem_append.mp hlink with hmem | hlast
      · exact hlinks link hmem
      · rw [List.mem_singleton.mp hlast]
        exact hwf
    · obtain ⟨us, vs, rfl, hus, hvs⟩ := List.map_eq_append_iff.mp hts
      obtain ⟨c, vs, rfl, hc, hvs⟩ := List.map_eq_cons_iff.mp hvs
      obtain ⟨us₁, us₂, rfl, hsettles, hlinks⟩ := hreads us hus
      have hlast : Links r true (c :: vs) [(_, _)] := .suspended hc ho (hreadsOperand vs hvs)
      rw [List.append_assoc]
      exact suspendsInside_chain hsettles (hlinks.append hlast)

end

/-- Tokens that form an expression are put into the postorder of its tree. -/
theorem convert_of_parses {r : Registry} {ts : List Token} {t : Tree}
    (h : Grammar.Parses r ts t) : convert r ts = .ok t.postorder := by
  obtain ⟨s, es, hread, hleaves⟩ := (expression_suspends h).2 ts rfl false .initial (fun _ => rfl)
    fun symbol rest hstack => by cases hstack
  have hstack : s.stack = es ++ [] := hleaves.stack
  rw [convert, hread, ok_bind, hstack, finish_append r s.output (isParen_of_drain hleaves.drained),
    hleaves.drained]
  simp [State.initial]

end Reckoner.Postfix

namespace Reckoner.Registry

/-- A text whose tokens form an expression is put into the postorder of its tree, and
interpreting it is evaluating the tree. -/
theorem interpret_of_parses (r : Registry) {source : String} {ts : List Token} {t : Tree}
    (htokens : Token.tokenize source = .ok ts) (hparses : Grammar.Parses r ts t) :
    Postfix.ofTokens r ts = .ok t.postorder ∧
      (r.interpret source).outcome = t.evaluate ∧
      r.answer source = match t.evaluate with
        | .ok x => .ok (.value x)
        | .error (.failure f) => .ok (.error f.message)
        | .error (.raised e) => e.told.answered.map .error := by
  have hnodes : Postfix.ofTokens r ts = .ok t.postorder :=
    Postfix.ofTokens_eq_ok_iff.mpr (Postfix.convert_of_parses hparses)
  have houtcome : (r.interpret source).outcome = t.evaluate := by
    rw [outcome_interpret htokens, valueOf, hnodes]
    exact Postfix.evaluate_postorder (Postfix.expression_suspends hparses).1
  have hanswer : ∀ outcome, (r.interpret source).outcome = outcome →
      r.answer source = match outcome with
        | .ok x => .ok (.value x)
        | .error (.failure f) => .ok (.error f.message)
        | .error (.raised e) => e.told.answered.map .error := by
    rintro _ rfl
    exact rfl
  exact ⟨hnodes, houtcome, hanswer _ houtcome⟩

/-- The number that one digit stands for. -/
def digit (c : Char) : Float := (Numeral.mk none [c] none).value

/-- `3 - 2 * abs 1 - pi` is three less twice the magnitude of `1 - pi`: a bare call
swallows what follows it. -/
theorem interpret_bareCall :
    ∃ ts t, Token.tokenize "3 - 2 * abs 1 - pi" = .ok ts ∧
      Grammar.Parses Standard.registry ts t ∧
      Postfix.ofTokens Standard.registry ts = .ok t.postorder ∧
      (Standard.registry.interpret "3 - 2 * abs 1 - pi").outcome = t.evaluate ∧
      Standard.registry.answer "3 - 2 * abs 1 - pi" =
        .ok (.value (digit '3' - digit '2' * Number.magnitude (digit '1' - Standard.pi))) := by
  obtain ⟨minus, hminus, hloose, hsubtracts⟩ : ∃ o, Standard.registry.operator "-" = .ok o ∧
      o.precedence = 3 ∧ ∀ x y, (Definition.operator o).apply [x, y] = .ok (x - y) :=
    ⟨_, rfl, rfl, fun _ _ => rfl⟩
  obtain ⟨times, htimes, htight, hmultiplies⟩ : ∃ o, Standard.registry.operator "*" = .ok o ∧
      o.precedence = 4 ∧ ∀ x y, (Definition.operator o).apply [x, y] = .ok (x * y) :=
    ⟨_, rfl, rfl, fun _ _ => rfl⟩
  obtain ⟨abs, habs, hunary, hmagnitude⟩ : ∃ f, Standard.registry.function "abs" = .ok f ∧
      f.arity = 1 ∧ ∀ x, (Definition.function f).apply [x] = .ok (Number.magnitude x) :=
    ⟨_, rfl, rfl, fun _ => rfl⟩
  obtain ⟨pi, hpi, hnullary, hconstant⟩ : ∃ f, Standard.registry.function "pi" = .ok f ∧
      f.arity = 0 ∧ (Definition.function f).apply [] = .ok Standard.pi :=
    ⟨_, rfl, rfl, rfl⟩
  have htokens : Token.tokenize "3 - 2 * abs 1 - pi" =
      .ok [⟨.number (digit '3'), 0⟩, ⟨.operator "-", 2⟩, ⟨.number (digit '2'), 4⟩,
        ⟨.operator "*", 6⟩, ⟨.name "abs", 8⟩, ⟨.number (digit '1'), 12⟩, ⟨.operator "-", 14⟩,
        ⟨.name "pi", 16⟩] :=
    Token.scan_chars (l := ⟨[⟨[], .numeral ⟨none, ['3'], none⟩⟩, ⟨[' '], .operator ['-']⟩,
      ⟨[' '], .numeral ⟨none, ['2'], none⟩⟩, ⟨[' '], .operator ['*']⟩,
      ⟨[' '], .name ['a', 'b', 's']⟩, ⟨[' '], .numeral ⟨none, ['1'], none⟩⟩,
      ⟨[' '], .operator ['-']⟩, ⟨[' '], .name ['p', 'i']⟩], []⟩) (by decide +kernel) 0
  have hargument : Grammar.Expression Standard.registry
      ([.number (digit '1')] ++ .operator "-" :: [.name "pi"])
      (ChainLinks.tree (.literal (digit '1')) [(minus, .call (.function pi) [])]) :=
    .chain (.link (.first (.number _)) hminus (.constant hpi hnullary))
  rw [ChainLinks.tree_singleton] at hargument
  have hparses := Grammar.Expression.chainBare
    (.link (.first (.number (digit '3'))) hminus (.number (digit '2'))) htimes
    (.mk habs hunary hargument id)
  obtain ⟨hnodes, houtcome, hanswer⟩ := interpret_of_parses Standard.registry htokens hparses
  refine ⟨_, _, htokens, hparses, hnodes, houtcome, hanswer.trans ?_⟩
  have hcut (x y : Tree) : ChainLinks.cut? [(minus, x), (times, y)] =
      some ⟨[], minus, x, [(times, y)]⟩ := by
    simp [ChainLinks.cut?, hloose, htight]
  simp only [List.nil_append, List.cons_append, ChainLinks.tree_of_cut? _ (hcut _ _),
    ChainLinks.tree_nil, ChainLinks.tree_singleton, Tree.evaluate, Tree.evaluateAll,
    hsubtracts, hmultiplies, hmagnitude, hconstant]

end Reckoner.Registry
