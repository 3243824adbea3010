import Reckoner.Postfix.Alignment
import Reckoner.Proofs.Postfix.Nesting

set_option autoImplicit false

/-!
# Following the tokens that were read

A conversion follows its tokens: the stacks are nested as the tokens are, every term
is a node of the output or waits on the stack, and every name that no longer waits is
defined.  Reading one token keeps this if the token does not offend, and is the error
of the token if it does, unless a name that waited turns out to be undefined.
-/

namespace Reckoner.Postfix

/-! ## What has been read -/

/-- The lexeme that an entry was read from. -/
def Entry.lexeme : Entry → Lexeme
  | .operator s => .operator s
  | .name n => .name n
  | .paren _ => .openParen

/-- The tokens that were read are accounted for by the output and the stack. -/
structure Accounts (r : Registry) (ts : List Token) (output : List Node) (stack : List Entry) :
    Prop where
  /-- every term is in the output or on the stack -/
  size : output.length + waiting stack = terms ts
  operators : ∀ t ∈ ts, ∀ symbol, t.lexeme = .operator symbol → ∃ o, r.operator symbol = .ok o
  names : ∀ t ∈ ts, ∀ name, t.lexeme = .name name →
    (∃ f, r.function name = .ok f) ∨ .name name ∈ stack
  written : ∀ e ∈ stack, ∃ t ∈ ts, t.lexeme = e.lexeme

/-- A state that the tokens lead to. -/
structure Tracked (r : Registry) (ts : List Token) (s : State) : Prop where
  nested : Nested ts s.stack s.frames
  accounts : Accounts r ts s.output s.stack

/-- A name that has its parenthesis next is on top of the stack. -/
def Pending (ts : List Token) (parenNext : Bool) (s : State) : Prop :=
  parenNext = true → ∀ us n name, ts = us ++ [n] → n.lexeme = .name name →
    ∃ stack, s.stack = .name name :: stack

/-- The error of a name among the tokens that is not defined. -/
def Undefined (r : Registry) (ts : List Token) (e : StructureError) : Prop :=
  ∃ name, (∃ t ∈ ts, t.lexeme = .name name) ∧ (∀ f, r.function name ≠ .ok f) ∧
    e = .undefinedFunction name

theorem pending_of_not_name {ts : List Token} {t : Token} (h : t.lexeme.isName = false)
    (parenNext : Bool) (s : State) : Pending (ts ++ [t]) parenNext s := by
  intro _ us n name hsplit hn
  obtain ⟨-, rfl⟩ := List.append_inj' hsplit rfl |>.imp_right List.singleton_inj.mp
  rw [hn] at h
  cases h

/-- One more token is accounted for. -/
theorem Accounts.next {r : Registry} {ts : List Token} {output output' : List Node}
    {stack stack' : List Entry} (h : Accounts r ts output stack) (t : Token)
    (hsize : output'.length + waiting stack' =
      output.length + waiting stack + if t.lexeme.isTerm then 1 else 0)
    (hoperator : ∀ symbol, t.lexeme = .operator symbol → ∃ o, r.operator symbol = .ok o)
    (hname : ∀ name, t.lexeme = .name name →
      (∃ f, r.function name = .ok f) ∨ .name name ∈ stack')
    (hreleased : ∀ name, .name name ∈ stack →
      (∃ f, r.function name = .ok f) ∨ .name name ∈ stack')
    (hwritten : ∀ e ∈ stack', e ∈ stack ∨ t.lexeme = e.lexeme) :
    Accounts r (ts ++ [t]) output' stack' := by
  refine ⟨?_, ?_, ?_, ?_⟩
  · rw [hsize, h.size, terms_append]
    simp [terms, List.countP_cons]
  · intro u hu symbol hsymbol
    rcases List.mem_append.mp hu with hold | hnew
    · exact h.operators u hold symbol hsymbol
    · rw [List.mem_singleton.mp hnew] at hsymbol
      exact hoperator symbol hsymbol
  · intro u hu name hlexeme
    rcases List.mem_append.mp hu with hold | hnew
    · rcases h.names u hold name hlexeme with hdefined | hwaits
      · exact .inl hdefined
      · exact hreleased name hwaits
    · rw [List.mem_singleton.mp hnew] at hlexeme
      exact hname name hlexeme
  · intro e he
    rcases hwritten e he with hold | hnew
    · obtain ⟨u, hu, hlexeme⟩ := h.written e hold
      exact ⟨u, List.mem_append_left _ hu, hlexeme⟩
    · exact ⟨t, by simp, hnew⟩

/-- A token that is no term changes nothing but parentheses. -/
theorem Accounts.next_of_not_term {r : Registry} {ts : List Token} {output : List Node}
    {stack stack' : List Entry} (h : Accounts r ts output stack) {t : Token}
    (ht : t.lexeme.isTerm = false) (hwaiting : waiting stack' = waiting stack)
    (hkept : ∀ name, .name name ∈ stack → .name name ∈ stack')
    (hwritten : ∀ e ∈ stack', e ∈ stack ∨ t.lexeme = e.lexeme) :
    Accounts r (ts ++ [t]) output stack' := by
  refine h.next t ?_ ?_ ?_ (fun name hname => .inr (hkept name hname)) hwritten
  · rw [hwaiting, ht]
    rfl
  · intro symbol hlexeme
    rw [hlexeme] at ht
    cases ht
  · intro name hlexeme
    rw [hlexeme] at ht
    cases ht

/-- The operators that wait are defined. -/
theorem Accounts.stackOperators {r : Registry} {ts : List Token} {output : List Node}
    {stack : List Entry} (h : Accounts r ts output stack) :
    ∀ symbol, .operator symbol ∈ stack → ∃ o, r.operator symbol = .ok o := by
  intro symbol hmem
  obtain ⟨t, ht, hlexeme⟩ := h.written (.operator symbol) hmem
  exact h.operators t ht symbol hlexeme

/-! ## Releasing what waits -/

/-- Entries are drained, unless one is an undefined name. -/
theorem drain_yields (r : Registry) {es : List Entry} (hes : ∀ e ∈ es, e.isParen = false)
    (hoperators : ∀ symbol, .operator symbol ∈ es → ∃ o, r.operator symbol = .ok o)
    (output : List Node) :
    Yields
      (fun output' => output'.length = output.length + es.length ∧
        ∀ name, .name name ∈ es → ∃ f, r.function name = .ok f)
      (fun e => ∃ name, .name name ∈ es ∧ (∀ f, r.function name ≠ .ok f) ∧
        e = .undefinedFunction name)
      (drain r output es) := by
  induction es generalizing output with
  | nil => exact ⟨rfl, fun name hname => nomatch hname⟩
  | cons e es ih =>
    have hrest := fun output => ih (fun e' he' => hes e' (List.mem_cons_of_mem _ he'))
      (fun symbol hsymbol => hoperators symbol (List.mem_cons_of_mem _ hsymbol)) output
    have hdrained : ∀ d, definitionOf r e = .ok d →
        (∀ name, e = .name name → ∃ f, r.function name = .ok f) →
        Yields
          (fun output' => output'.length = output.length + (e :: es).length ∧
            ∀ name, .name name ∈ e :: es → ∃ f, r.function name = .ok f)
          (fun e' => ∃ name, .name name ∈ e :: es ∧ (∀ f, r.function name ≠ .ok f) ∧
            e' = .undefinedFunction name)
          (drain r output (e :: es)) := by
      intro d hd hname
      rw [drain_cons, hd, ok_bind]
      refine (hrest _).mono ?_ ?_
      · rintro output' ⟨hlength, hdefined⟩
        refine ⟨?_, ?_⟩
        · rw [hlength, List.length_cons, List.length_cons]
          omega
        · intro name hmem
          rcases List.mem_cons.mp hmem with hself | hmem
          · exact hname name hself.symm
          · exact hdefined name hmem
      · rintro e' ⟨name, hmem, hundefined⟩
        exact ⟨name, List.mem_cons_of_mem _ hmem, hundefined⟩
    cases e with
    | paren index => cases hes _ List.mem_cons_self
    | operator symbol =>
      obtain ⟨o, ho⟩ := hoperators symbol List.mem_cons_self
      exact hdrained _ (definitionOf_operator ho) fun name hname => by cases hname
    | name name =>
      cases hf : r.function name with
      | error e =>
        rw [drain_cons, definitionOf_name_error hf, error_bind]
        refine ⟨name, List.mem_cons_self, ?_, function_error hf⟩
        intro f hok
        rw [hf] at hok
        cases hok
      | ok f =>
        refine hdrained _ (definitionOf_name hf) ?_
        intro name' hname
        cases hname
        exact ⟨f, hf⟩

section Releasing

variable {r : Registry} {ts : List Token} {output : List Node} {es rest : List Entry}

/-- What waits on top is drained, unless it is a name of the tokens that is not
defined. -/
theorem drain_accounts (h : Accounts r ts output (es ++ rest))
    (hes : ∀ e ∈ es, e.isParen = false) :
    Yields
      (fun output' => output'.length = output.length + es.length ∧
        ∀ name, .name name ∈ es → ∃ f, r.function name = .ok f)
      (Undefined r ts) (drain r output es) := by
  have hoperators : ∀ symbol, .operator symbol ∈ es → ∃ o, r.operator symbol = .ok o :=
    fun symbol hsymbol => h.stackOperators symbol (List.mem_append_left _ hsymbol)
  refine (drain_yields r hes hoperators output).mono (fun _ houtput => houtput) ?_
  rintro e ⟨name, hmem, hundefined⟩
  exact ⟨name, h.written _ (List.mem_append_left _ hmem), hundefined⟩

theorem release_accounts (h : Accounts r ts output (es ++ rest))
    (hes : ∀ e ∈ es, e.isParen = false) (hrest : Bounded rest) :
    Yields
      (fun p => p.1.length = output.length + es.length ∧ p.2 = rest ∧
        ∀ name, .name name ∈ es → ∃ f, r.function name = .ok f)
      (Undefined r ts) (release r output (es ++ rest)) := by
  rw [release_append r output hes]
  refine (drain_accounts h hes).bind ?_
  rintro output' ⟨hlength, hdefined⟩
  rw [release_of_bounded r output' hrest]
  exact ⟨hlength, rfl, hdefined⟩

/-- What was released is in the output. -/
theorem Accounts.released {output' : List Node} (h : Accounts r ts output (es ++ rest))
    (hes : ∀ e ∈ es, e.isParen = false) (hlength : output'.length = output.length + es.length)
    (hdefined : ∀ name, .name name ∈ es → ∃ f, r.function name = .ok f) :
    Accounts r ts output' rest := by
  refine ⟨?_, h.operators, ?_, fun e he => h.written e (List.mem_append_right _ he)⟩
  · rw [hlength, ← h.size, waiting_append, waiting_of_no_paren hes]
    omega
  · intro t ht name hlexeme
    rcases h.names t ht name hlexeme with hname | hmem
    · exact .inl hname
    · rcases List.mem_append.mp hmem with hes | hrest
      · exact .inl (hdefined name hes)
      · exact .inr hrest

/-- An operator releases some of the operators on top. -/
theorem exists_releaseTighter (precedence : Nat)
    (hoperators : ∀ symbol, .operator symbol ∈ es → ∃ o, r.operator symbol = .ok o)
    (hrest : Bounded rest) (output : List Node) :
    ∃ fs gs output', es = fs ++ gs ∧
      releaseTighter r precedence output (es ++ rest) = .ok (output', gs ++ rest) ∧
      output'.length = output.length + fs.length ∧ ∀ name, .name name ∉ fs := by
  have hnone : ∀ name : String, Entry.name name ∉ ([] : List Entry) := fun name hname => nomatch hname
  induction es generalizing output with
  | nil =>
    refine ⟨[], [], output, rfl, ?_, rfl, hnone⟩
    rcases hrest.eq_nil_or_paren with rfl | ⟨index, below, rfl⟩ <;> rfl
  | cons e es ih =>
    cases e with
    | paren index => exact ⟨[], _, output, rfl, rfl, rfl, hnone⟩
    | name name => exact ⟨[], _, output, rfl, rfl, rfl, hnone⟩
    | operator symbol =>
      obtain ⟨o, ho⟩ := hoperators symbol List.mem_cons_self
      by_cases hlt : o.precedence < precedence
      · refine ⟨[], _, output, rfl, ?_, rfl, hnone⟩
        rw [List.cons_append, releaseTighter, operatorOf_of_ok ho, ok_bind, if_pos hlt]
        rfl
      · obtain ⟨fs, gs, output', hsplit, hrelease, hlength, hnames⟩ :=
          ih (fun s hs => hoperators s (List.mem_cons_of_mem _ hs)) (.call (.operator o) :: output)
        refine ⟨.operator symbol :: fs, gs, output', by rw [hsplit]; rfl, ?_, ?_, ?_⟩
        · rw [List.cons_append, releaseTighter, operatorOf_of_ok ho, ok_bind, if_neg hlt, hrelease]
        · rw [hlength, List.length_cons, List.length_cons]
          omega
        · intro name hname
          rcases List.mem_cons.mp hname with hself | hmem
          · cases hself
          · exact hnames name hmem

end Releasing

/-! ## Single tokens -/

/-- What reading a token leads to: a state that follows it, if it does not offend, and
else its error, unless a name that waited is not defined. -/
def Follows (r : Registry) (ts : List Token) (t : Token) (parenNext : Bool) :
    Except Stop State → Prop :=
  Yields
    (fun s => (Tracked r (ts ++ [t]) s ∧ Pending (ts ++ [t]) parenNext s) ∧
      ∀ e, ¬ Offends r ts t e)
    (fun e => Offends r ts t e ∨ Undefined r ts e)

/-- A term changes what waits on top, and no frame. -/
theorem Nested.extend_term {ts : List Token} {stack : List Entry}
    {frames : List (Option CallFrame)} (h : Nested ts stack frames) {t : Token}
    (ht : t.lexeme.isTerm = true) :
    ∃ es rest, stack = es ++ rest ∧ (∀ e ∈ es, e.isParen = false) ∧ Bounded rest ∧
      ∀ fs, (∀ e ∈ fs, e.isParen = false) → Nested (ts ++ [t]) (fs ++ rest) frames := by
  obtain ⟨es, rest, hstack, hes, hrest, hnext⟩ := h.extend
  refine ⟨es, rest, hstack, hes, hrest, ?_⟩
  intro fs hfs
  have hnested := hnext [t] fs (balanced_of_isTerm ht) hfs
  rwa [ownCommas_of_isTerm ht, countCommas_zero] at hnested

section Tokens

variable {r : Registry} {ts : List Token} {s : State}

/-- A term that becomes a node at once. -/
theorem emit_tracked (h : Tracked r ts s) {t : Token} (ht : t.lexeme.isTerm = true)
    (hoperator : ∀ symbol, t.lexeme ≠ .operator symbol)
    (hname : ∀ name, t.lexeme = .name name → ∃ f, r.function name = .ok f) (node : Node) :
    Tracked r (ts ++ [t]) (s.emit node) := by
  refine ⟨?_, ?_⟩
  · obtain ⟨es, rest, hstack, hes, -, hnext⟩ := h.nested.extend_term ht
    have hnested := hnext es hes
    rwa [← hstack] at hnested
  · refine h.accounts.next t ?_ ?_ ?_ (fun name hmem => .inr hmem) (fun e he => .inl he)
    · rw [if_pos ht]
      simp only [State.emit, List.length_cons]
      omega
    · exact fun symbol hlexeme => absurd hlexeme (hoperator symbol)
    · exact fun name hlexeme => .inl (hname name hlexeme)

theorem number_follows (h : Tracked r ts s) (x : Float) (index : Int) (parenNext : Bool) :
    Follows r ts ⟨.number x, index⟩ parenNext (.ok (s.emit (.literal x))) := by
  refine ⟨⟨?_, pending_of_not_name rfl _ _⟩, ?_⟩
  · refine emit_tracked h rfl ?_ ?_ (.literal x)
    · intro symbol hlexeme
      cases hlexeme
    · intro name hlexeme
      cases hlexeme
  · intro e he
    cases he

theorem operator_follows (h : Tracked r ts s) (symbol : String) (index : Int) (parenNext : Bool) :
    Follows r ts ⟨.operator symbol, index⟩ parenNext (readOperator r symbol s) := by
  cases ho : r.operator symbol with
  | error e =>
    have hstop : readOperator r symbol s = .error (.error e) := by
      rw [readOperator, operatorOf_error ho, error_bind]
    have hundefined : ∀ o, r.operator symbol ≠ .ok o := by
      intro o hok
      rw [ho] at hok
      cases hok
    rw [hstop, operator_error ho]
    exact .inl (.operator hundefined)
  | ok o =>
    obtain ⟨es, rest, hstack, hes, hrest, hnext⟩ :=
      h.nested.extend_term (t := ⟨.operator symbol, index⟩) rfl
    have haccounts := h.accounts
    rw [hstack] at haccounts
    obtain ⟨fs, gs, output', hsplit, hrelease, hlength, hnames⟩ :=
      exists_releaseTighter o.precedence
        (fun symbol' hmem => haccounts.stackOperators symbol' (List.mem_append_left _ hmem))
        hrest s.output
    have hstop : readOperator r symbol s =
        .ok ⟨output', .operator symbol :: (gs ++ rest), s.frames⟩ := by
      rw [readOperator, operatorOf_of_ok ho, ok_bind, hstack, hrelease]
      rfl
    rw [hstop]
    subst hsplit
    have hreleased : waiting (fs ++ gs ++ rest) = fs.length + waiting (gs ++ rest) := by
      have hfs := waiting_of_no_paren fun e he => hes e (List.mem_append_left gs he)
      rw [List.append_assoc, waiting_append, hfs]
    refine ⟨⟨⟨?_, ?_⟩, pending_of_not_name rfl _ _⟩, ?_⟩
    · refine hnext (.operator symbol :: gs) ?_
      intro e he
      rcases List.mem_cons.mp he with rfl | hmem
      · rfl
      · exact hes e (List.mem_append_right _ hmem)
    · refine haccounts.next _ ?_ ?_ ?_ ?_ ?_
      · rw [hlength, hreleased, waiting_operator]
        simp only [Lexeme.isTerm, if_true]
        omega
      · intro symbol' hlexeme
        cases hlexeme
        exact ⟨o, ho⟩
      · intro name hlexeme
        cases hlexeme
      · intro name hmem
        simp only [List.append_assoc, List.mem_append] at hmem
        rcases hmem with hfs | hkept
        · exact absurd hfs (hnames name)
        · exact .inr (List.mem_cons_of_mem _ (List.mem_append.mpr hkept))
      · intro e he
        rcases List.mem_cons.mp he with rfl | hmem
        · exact .inr rfl
        · left
          rw [List.append_assoc]
          exact List.mem_append_right _ hmem
    · intro e he
      cases he with
      | operator hundefined => exact hundefined o ho

theorem name_follows (h : Tracked r ts s) (name : String) (index : Int) (parenNext : Bool) :
    Follows r ts ⟨.name name, index⟩ parenNext (.ok (readName r name parenNext s)) := by
  obtain ⟨es, rest, hstack, hes, -, hnext⟩ := h.nested.extend_term (t := ⟨.name name, index⟩) rfl
  have hoffends : ∀ e, ¬ Offends r ts ⟨.name name, index⟩ e := by
    intro e he
    cases he
  have hemit : ∀ f, r.function name = .ok f → parenNext = false →
      Follows r ts ⟨.name name, index⟩ parenNext (.ok (s.emit (.call (.function f)))) := by
    intro f hf hnot
    refine ⟨⟨?_, ?_⟩, hoffends⟩
    · refine emit_tracked h rfl ?_ ?_ (.call (.function f))
      · intro symbol hlexeme
        cases hlexeme
      · intro name' hlexeme
        cases hlexeme
        exact ⟨f, hf⟩
    · intro hparen
      rw [hnot] at hparen
      cases hparen
  have hpush : Follows r ts ⟨.name name, index⟩ parenNext (.ok (s.push (.name name))) := by
    refine ⟨⟨⟨?_, ?_⟩, ?_⟩, hoffends⟩
    · show Nested (ts ++ [⟨.name name, index⟩]) (.name name :: s.stack) s.frames
      rw [hstack]
      refine hnext (.name name :: es) ?_
      intro e he
      rcases List.mem_cons.mp he with rfl | hmem
      · rfl
      · exact hes e hmem
    · refine h.accounts.next _ ?_ ?_ ?_ ?_ ?_
      · simp only [State.push, waiting_name, Lexeme.isTerm, if_true]
        omega
      · intro symbol hlexeme
        cases hlexeme
      · intro name' hlexeme
        cases hlexeme
        exact .inr List.mem_cons_self
      · exact fun name hname => .inr (List.mem_cons_of_mem _ hname)
      · intro e he
        rcases List.mem_cons.mp he with rfl | hmem
        · exact .inr rfl
        · exact .inl hmem
    · intro _ us n name' hsplit hn
      obtain ⟨-, hlast⟩ := List.append_inj' hsplit rfl
      cases List.singleton_inj.mp hlast
      cases hn
      exact ⟨s.stack, rfl⟩
  unfold readName
  split
  · next f hf =>
    split
    · next hbare => exact hemit f hf hbare.2
    · exact hpush
  · exact hpush

theorem open_follows (h : Tracked r ts s) (hpending : Pending ts true s) (index : Int)
    (parenNext : Bool) :
    Follows r ts ⟨.openParen, index⟩ parenNext (.ok (readOpen index (endsInName false ts) s)) := by
  refine ⟨⟨⟨?_, ?_⟩, pending_of_not_name rfl _ _⟩, ?_⟩
  · have hnone : ∀ e ∈ ([] : List Entry), e.isParen = false := fun e he => nomatch he
    cases hname : endsInName false ts with
    | false => exact .inside (.group h.nested hname rfl balanced_nil) hnone
    | true =>
      obtain ⟨us, n, name, rfl, hn⟩ := exists_name_of_endsInName hname
      obtain ⟨stack, hstack⟩ := hpending rfl us n name rfl hn
      have hnested := h.nested
      have hsize := h.accounts.size
      rw [hstack] at hnested hsize
      rw [List.append_assoc]
      show Nested _ (.paren index :: s.stack) (some ⟨s.output.length, 0⟩ :: s.frames)
      rw [hstack]
      exact .inside (.call hnested hn (p := ⟨.openParen, index⟩) rfl balanced_nil rfl hsize) hnone
  · refine h.accounts.next_of_not_term rfl (waiting_paren index s.stack)
      (fun name hname => List.mem_cons_of_mem _ hname) ?_
    intro e he
    rcases List.mem_cons.mp he with rfl | hmem
    · exact .inr rfl
    · exact .inl hmem
  · intro e he
    cases he

theorem comma_follows (h : Tracked r ts s) (index : Int) (parenNext : Bool) :
    Follows r ts ⟨.comma, index⟩ parenNext (readComma r index s) := by
  obtain ⟨es, rest, hstack, hes, hrest, hnext⟩ := h.nested.extend
  have haccounts := h.accounts
  have hnested := h.nested
  rw [hstack] at haccounts hnested
  unfold readComma
  rw [hstack]
  refine ((release_accounts haccounts hes hrest).mono (fun _ hp => hp) (fun _ => .inr)).bind ?_
  rintro ⟨output, stack⟩ ⟨hlength, rfl, hdefined⟩
  have hreleased := haccounts.released hes hlength hdefined
  rcases hrest.eq_nil_or_paren with rfl | ⟨i, below, rfl⟩
  · rw [List.append_nil] at hnested
    exact .inl (.comma (hnested.balanced hes).closed)
  · refine ⟨⟨⟨?_, ?_⟩, pending_of_not_name rfl _ _⟩, ?_⟩
    · exact hnext [⟨.comma, index⟩] [] (balanced_singleton rfl) fun e he => nomatch he
    · exact hreleased.next_of_not_term rfl rfl (fun _ hname => hname) fun _ he => .inl he
    · intro e he
      have hpos := (hnested.innermost hes).depth_pos
      cases he with
      | comma hdepth => omega

/-- The end of a call. -/
theorem closeCall_follows {us inside : List Token} {n p : Token} {name : String}
    {frame : CallFrame} {output : List Node} {stack : List Entry}
    {frames : List (Option CallFrame)}
    (haccounts : Accounts r (us ++ n :: p :: inside) output (.paren p.index :: .name name :: stack))
    (hnested : Nested (us ++ [n]) (.name name :: stack) frames) (hn : n.lexeme = .name name)
    (hp : p.lexeme = .openParen) (hinside : Balanced inside)
    (hgiven : frame.given output.length = argumentCount inside) (index : Int)
    (parenNext : Bool) :
    Follows r (us ++ n :: p :: inside) ⟨.closeParen, index⟩ parenNext
      (closeCall r frame output (.name name :: stack) frames) := by
  cases hf : r.function name with
  | error e =>
    rw [closeCall_name_error hf]
    refine .inr ⟨name, ⟨n, by simp, hn⟩, ?_, function_error hf⟩
    intro f hok
    rw [hf] at hok
    cases hok
  | ok f =>
    rw [closeCall_name hf, hgiven]
    by_cases harity : argumentCount inside = f.arity
    · rw [if_pos harity]
      refine ⟨⟨⟨?_, ?_⟩, pending_of_not_name rfl _ _⟩, ?_⟩
      · have hbelow : Nested (us ++ [n]) ([.name name] ++ stack) frames := hnested
        rw [List.append_cons us n]
        refine hbelow.enclosed ?_ hinside hp rfl
        intro e he
        rw [List.mem_singleton.mp he]
        rfl
      · refine haccounts.next _ ?_ ?_ ?_ ?_ ?_
        · simp [Lexeme.isTerm]
          omega
        · intro symbol hlexeme
          cases hlexeme
        · intro name' hlexeme
          cases hlexeme
        · intro name' hmem
          rcases List.mem_cons.mp hmem with hself | hmem
          · cases hself
          rcases List.mem_cons.mp hmem with hself | hmem
          · cases hself
            exact .inl ⟨f, hf⟩
          · exact .inr hmem
        · exact fun e he => .inl (List.mem_cons_of_mem _ (List.mem_cons_of_mem _ he))
      · intro e he
        cases he with
        | close hdepth =>
          have hnonneg := hnested.depth_nonneg
          rw [List.append_cons, depth_unclosed hp hinside] at hdepth
          omega
        | arguments hcall hf' hcount =>
          obtain ⟨rfl, rfl⟩ := (callIn_iff hn hp hinside).mp hcall
          rw [hf] at hf'
          cases hf'
          exact hcount harity
    · rw [if_neg harity, name_of_function hf]
      exact .inl (.arguments ((callIn_iff hn hp hinside).mpr ⟨rfl, rfl⟩) hf harity)

/-- A closing parenthesis ends the bracket that is open. -/
theorem closeBracket_follows {output : List Node} {i : Int} {below : List Entry}
    {frames : List (Option CallFrame)} (haccounts : Accounts r ts output (.paren i :: below))
    (hinner : Innermost ts i below frames) (index : Int) (parenNext : Bool) :
    Follows r ts ⟨.closeParen, index⟩ parenNext (closeBracket r output below frames) := by
  have hpos := hinner.depth_pos
  cases hinner with
  | group hnested hname hp hts =>
    refine ⟨⟨⟨?_, ?_⟩, pending_of_not_name rfl _ _⟩, ?_⟩
    · have hbelow : Nested _ ([] ++ below) _ := hnested
      exact hbelow.enclosed (fun e he => nomatch he) hts hp rfl
    · refine haccounts.next_of_not_term rfl (waiting_paren _ below).symm ?_ ?_
      · intro name hmem
        rcases List.mem_cons.mp hmem with hself | hmem
        · cases hself
        · exact hmem
      · exact fun e he => .inl (List.mem_cons_of_mem _ he)
    · intro e he
      cases he with
      | close hdepth => omega
      | arguments hcall _ _ => exact not_callIn hname hp hts hcall
  | call hnested hn hp hts hcommas hsize =>
    refine closeCall_follows haccounts hnested hn hp hts ?_ index parenNext
    have hoverall := haccounts.size
    rw [waiting_paren, List.append_cons, terms_unclosed hp] at hoverall
    exact given_eq_argumentCount hcommas (by omega)

theorem close_follows (h : Tracked r ts s) (index : Int) (parenNext : Bool) :
    Follows r ts ⟨.closeParen, index⟩ parenNext (readClose r index s) := by
  obtain ⟨es, rest, hstack, hes, hrest, -⟩ := h.nested.extend
  have haccounts := h.accounts
  have hnested := h.nested
  rw [hstack] at haccounts hnested
  unfold readClose
  rw [hstack]
  refine ((release_accounts haccounts hes hrest).mono (fun _ hp => hp) (fun _ => .inr)).bind ?_
  rintro ⟨output, stack⟩ ⟨hlength, rfl, hdefined⟩
  have hreleased := haccounts.released hes hlength hdefined
  rcases hrest.eq_nil_or_paren with rfl | ⟨i, below, rfl⟩
  · rw [List.append_nil] at hnested
    exact .inl (.close (hnested.balanced hes).closed)
  · exact closeBracket_follows hreleased (hnested.innermost hes) index parenNext

/-- A token is read, or is the error that it is. -/
theorem step_follows (h : Tracked r ts s) (t : Token) (hpending : Pending ts t.lexeme.isOpenParen s)
    (parenNext : Bool) :
    Follows r ts t parenNext (step r (endsInName false ts) parenNext t s) := by
  obtain ⟨lexeme, index⟩ := t
  cases lexeme with
  | number x => exact number_follows h x index parenNext
  | operator symbol => exact operator_follows h symbol index parenNext
  | name name => exact name_follows h name index parenNext
  | openParen => exact open_follows h hpending index parenNext
  | closeParen => exact close_follows h index parenNext
  | comma => exact comma_follows h index parenNext

end Tokens

end Reckoner.Postfix
