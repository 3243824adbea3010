import Reckoner.Expression.Tree
import Reckoner.Proofs.Postfix.Draining

set_option autoImplicit false

/-!
# Reading a chain of operators

A chain is cut at the last of its operators of lowest precedence.  Everything to
the left of the cut is drained when that operator is read, because it binds at
least as tightly; nothing of it is drained while the rest is read, because the
operators there bind more tightly.  So the entries that a chain leaves waiting
drain to the postorder of its tree.
-/

namespace Reckoner

namespace ChainLinks

/-! ## Where a chain is cut -/

theorem eq_nil_of_cut?_eq_none {links : ChainLinks} (h : cut? links = none) : links = [] := by
  cases links with
  | nil => rfl
  | cons link rest =>
    rw [cut?] at h
    split at h
    · cases h
    · split at h <;> cases h

/-- No operator of a chain has a lower precedence than the one it is cut at. -/
theorem le_of_cut? {links : ChainLinks} {c : Cut} (h : cut? links = some c) :
    ∀ link ∈ links, c.operator.precedence ≤ link.1.precedence := by
  induction links generalizing c with
  | nil => cases h
  | cons link rest ih =>
    obtain ⟨o, x⟩ := link
    intro link hlink
    rw [cut?] at h
    split at h
    · next hnone =>
      cases h
      rw [eq_nil_of_cut?_eq_none hnone, List.mem_singleton] at hlink
      exact Nat.le_of_eq (by rw [hlink])
    · next d hd =>
      split at h
      · next hle =>
        cases h
        rcases List.mem_cons.mp hlink with rfl | hmem
        · exact hle
        · exact ih hd link hmem
      · next hlt =>
        cases h
        rcases List.mem_cons.mp hlink with rfl | hmem
        · exact Nat.le_refl _
        · have hmin := ih hd link hmem
          show o.precedence ≤ link.1.precedence
          omega

/-- The operators to the right of the cut have a higher precedence. -/
theorem lt_of_cut? {links : ChainLinks} {c : Cut} (h : cut? links = some c) :
    ∀ link ∈ c.after, c.operator.precedence < link.1.precedence := by
  induction links generalizing c with
  | nil => cases h
  | cons link rest ih =>
    obtain ⟨o, x⟩ := link
    rw [cut?] at h
    split at h
    · cases h; intro link hlink; cases hlink
    · next d hd =>
      split at h
      · cases h
        intro link hlink
        exact ih hd link hlink
      · next hlt =>
        cases h
        intro link hlink
        have hmin := le_of_cut? hd link hlink
        show o.precedence < link.1.precedence
        omega

@[simp] theorem tree_nil (first : Tree) : tree first [] = first := by
  rw [tree]
  rfl

theorem tree_of_cut? {links : ChainLinks} {c : Cut} (first : Tree) (h : cut? links = some c) :
    tree first links =
      .call (.operator c.operator) [tree first c.before, tree c.operand c.after] := by
  rw [tree]
  split
  · next hc => rw [h] at hc; cases hc
  · next d hd => rw [h] at hd; cases hd; rfl

@[simp] theorem tree_singleton (first : Tree) (o : InfixOperator) (x : Tree) :
    tree first [(o, x)] = .call (.operator o) [first, x] := by
  rw [tree_of_cut? first (show cut? [(o, x)] = some ⟨[], o, x, []⟩ from rfl), tree_nil, tree_nil]

/-- A chain of well-formed operands has a well-formed tree. -/
theorem wellFormed_tree (links : ChainLinks) {first : Tree} (hfirst : first.WellFormed)
    (hlinks : ∀ link ∈ links, link.2.WellFormed) : (tree first links).WellFormed := by
  fun_induction tree first links with
  | case1 first links h => exact hfirst
  | case2 first links c hc ihbefore ihafter =>
    have hmem : ∀ link, link ∈ c.before ∨ link = (c.operator, c.operand) ∨ link ∈ c.after →
        link.2.WellFormed := by
      intro link hlink
      refine hlinks link ?_
      rw [eq_of_cut? hc]
      simpa using hlink
    refine ⟨rfl, ihbefore hfirst fun link hlink => hmem link (.inl hlink), ?_, trivial⟩
    exact ihafter (hmem _ (.inr (.inl rfl))) fun link hlink => hmem link (.inr (.inr hlink))

end ChainLinks

theorem Tree.postorder_operator (o : InfixOperator) (t u : Tree) :
    (Tree.call (.operator o) [t, u]).postorder =
      t.postorder ++ u.postorder ++ [.call (.operator o)] := by
  simp [postorder, postorderAll]

namespace Postfix

/-! ## What reading leaves -/

/-- Tokens that are read to nodes in any state, with nothing left waiting. -/
def Settles (r : Registry) (ts : List Token) (nodes : List Node) : Prop :=
  ∀ (afterName : Bool) (s : State), (beforeParen ts false = true → afterName = false) →
    readAll r afterName ts false s = .ok { s with output := nodes.reverse ++ s.output }

/-- Tokens that are read to nodes in any state, but leave entries waiting. -/
def Suspends (r : Registry) (ts : List Token) (nodes : List Node) : Prop :=
  ∀ (afterName : Bool) (s : State),
    ∃ s' es, readAll r afterName ts false s = .ok s' ∧ Leaves r nodes es s s'

/-- An operator releases what binds at least as tightly, and waits in its place. -/
theorem readOperator_leaves {r : Registry} {symbol : String} {o : InfixOperator}
    (ho : r.operator symbol = .ok o) {nodes : List Node} {es : List Entry} {base s : State}
    (hleaves : Leaves r nodes es base s) (htighter : Tighter r o.precedence es)
    (hholds : Holds r o.precedence base.stack) :
    readOperator r symbol s = .ok ⟨nodes.reverse ++ base.output, .operator symbol :: base.stack,
      base.frames⟩ := by
  rw [readOperator, operatorOf_of_ok ho, ok_bind, hleaves.stack,
    releaseTighter_append r s.output htighter, hleaves.drained, ok_bind,
    releaseTighter_of_holds hholds, ok_bind, hleaves.frames]
  rfl

/-! ## Links -/

/-- Tokens that are the links of a chain.  With `open_`, the last operand is one
that leaves entries waiting. -/
inductive Links (r : Registry) : Bool → List Token → ChainLinks → Prop
  | nil : Links r false [] []
  | suspended {t : Token} {ts : List Token} {symbol : String} {o : InfixOperator} {u : Tree} :
      t.lexeme = .operator symbol → r.operator symbol = .ok o → Suspends r ts u.postorder →
      Links r true (t :: ts) [(o, u)]
  | settled {b : Bool} {t : Token} {ts us : List Token} {symbol : String} {o : InfixOperator}
      {u : Tree} {links : ChainLinks} :
      t.lexeme = .operator symbol → r.operator symbol = .ok o → Settles r ts u.postorder →
      Links r b us links → Links r b (t :: (ts ++ us)) ((o, u) :: links)

theorem Links.append {r : Registry} {b : Bool} {ts us : List Token} {links more : ChainLinks}
    (h : Links r false ts links) (hmore : Links r b us more) :
    Links r b (ts ++ us) (links ++ more) := by
  induction links generalizing ts with
  | nil =>
    cases h with
    | nil => exact hmore
  | cons link links ih =>
    cases h with
    | settled hlexeme ho hsettles hrest =>
      simpa using Links.settled hlexeme ho hsettles (ih hrest)

/-- Links are cut where the chain is cut. -/
theorem Links.cut {r : Registry} {b : Bool} {ts : List Token} {before after : ChainLinks}
    {o : InfixOperator} {u : Tree} (h : Links r b ts (before ++ (o, u) :: after)) :
    ∃ (us : List Token) (t : Token) (vs : List Token) (symbol : String),
      ts = us ++ t :: vs ∧ Links r false us before ∧
      t.lexeme = .operator symbol ∧ r.operator symbol = .ok o ∧
      ((b = true ∧ after = [] ∧ Suspends r vs u.postorder) ∨
        ∃ ws xs, vs = ws ++ xs ∧ Settles r ws u.postorder ∧ Links r b xs after) := by
  induction before generalizing ts with
  | nil =>
    cases h with
    | suspended hlexeme ho hsuspends =>
      exact ⟨[], _, _, _, rfl, .nil, hlexeme, ho, .inl ⟨rfl, rfl, hsuspends⟩⟩
    | settled hlexeme ho hsettles hrest =>
      exact ⟨[], _, _, _, rfl, .nil, hlexeme, ho, .inr ⟨_, _, rfl, hsettles, hrest⟩⟩
  | cons link before ih =>
    generalize hlinks : (link :: before) ++ (o, u) :: after = links at h
    cases h with
    | nil => cases hlinks
    | suspended => simp at hlinks
    | settled hlexeme ho hsettles hrest =>
      simp only [List.cons_append, List.cons.injEq] at hlinks
      obtain ⟨rfl, rfl⟩ := hlinks
      obtain ⟨us, t, vs, symbol, rfl, hbefore, hcut⟩ := ih hrest
      exact ⟨_, t, vs, symbol, by simp, .settled hlexeme ho hsettles hbefore, hcut⟩

theorem beforeParen_of_operator {t : Token} {symbol : String} (h : t.lexeme = .operator symbol)
    (ts : List Token) (next : Bool) : beforeParen (t :: ts) next = false := by
  simp [beforeParen, h, Lexeme.isOpenParen]

theorem Links.beforeParen {r : Registry} {b : Bool} {ts : List Token} {links : ChainLinks}
    (h : Links r b ts links) : beforeParen ts false = false := by
  cases h with
  | nil => rfl
  | suspended hlexeme _ _ => exact beforeParen_of_operator hlexeme _ _
  | settled hlexeme _ _ _ => exact beforeParen_of_operator hlexeme _ _

/-! ## Reading a chain -/

/-- An operator below what waits for its right operand is drained after it. -/
theorem Leaves.operator {r : Registry} {symbol : String} {o : InfixOperator}
    (ho : r.operator symbol = .ok o) {t u : Tree} {es : List Entry} {base s : State}
    (h : Leaves r u.postorder es
      ⟨t.postorder.reverse ++ base.output, .operator symbol :: base.stack, base.frames⟩ s) :
    Leaves r (Tree.call (.operator o) [t, u]).postorder (es ++ [.operator symbol]) base s := by
  refine ⟨h.frames, ?_, ?_⟩
  · rw [h.stack, List.append_assoc]
    rfl
  · rw [drain_append, h.drained, ok_bind, drain_cons, definitionOf_operator ho]
    simp [Tree.postorder_operator]

/-- Once its first operand has been read, a chain leaves entries that drain to the
postorder of its tree.  If every operand settles, these entries are operators of
the chain. -/
theorem readAll_links {r : Registry} (links : ChainLinks) (first : Tree) {b : Bool}
    {ts : List Token} (h : Links r b ts links) (afterName : Bool) (base : State)
    (hholds : ∀ link ∈ links, Holds r link.1.precedence base.stack) :
    ∃ s es,
      readAll r afterName ts false { base with output := first.postorder.reverse ++ base.output } =
        .ok s ∧
      Leaves r (ChainLinks.tree first links).postorder es base s ∧
      (b = false → ∀ p, (∀ link ∈ links, p ≤ link.1.precedence) → Tighter r p es) := by
  fun_induction ChainLinks.tree first links generalizing b ts afterName base with
  | case1 first links hnone =>
    cases ChainLinks.eq_nil_of_cut?_eq_none hnone
    cases h with
    | nil => exact ⟨_, [], rfl, ⟨rfl, rfl, rfl⟩, fun _ p _ e he => by cases he⟩
  | case2 first links c hcut ihbefore ihafter =>
    have hlinks := ChainLinks.eq_of_cut? hcut
    have hbeforeMem : ∀ link ∈ c.before, link ∈ links := by
      intro link hlink
      rw [hlinks]
      exact List.mem_append_left _ hlink
    have hselfMem : (c.operator, c.operand) ∈ links := by
      rw [hlinks]
      exact List.mem_append_right _ List.mem_cons_self
    have hafterMem : ∀ link ∈ c.after, link ∈ links := by
      intro link hlink
      rw [hlinks]
      exact List.mem_append_right _ (List.mem_cons_of_mem _ hlink)
    rw [hlinks] at h
    obtain ⟨us, t, vs, symbol, rfl, hbefore, hlexeme, ho, hafter⟩ := h.cut
    -- everything before the cut is drained when the operator is read
    obtain ⟨s, es, hread, hleaves, htighter⟩ :=
      ihbefore hbefore afterName base fun link hlink => hholds link (hbeforeMem link hlink)
    have hstep : step r (endsInName afterName us) (Postfix.beforeParen vs false) t s =
        .ok ⟨(ChainLinks.tree first c.before).postorder.reverse ++ base.output,
          .operator symbol :: base.stack, base.frames⟩ := by
      rw [step, hlexeme]
      refine readOperator_leaves ho hleaves (htighter rfl _ ?_) (hholds _ hselfMem)
      intro link hlink
      exact ChainLinks.le_of_cut? hcut link (hbeforeMem link hlink)
    have hsplit : readAll r afterName (us ++ t :: vs) false
        { base with output := first.postorder.reverse ++ base.output } =
          readAll r false vs false
            ⟨(ChainLinks.tree first c.before).postorder.reverse ++ base.output,
              .operator symbol :: base.stack, base.frames⟩ := by
      rw [readAll_append, beforeParen_of_operator hlexeme, hread, ok_bind, readAll, hstep, ok_bind,
        hlexeme]
      rfl
    rw [hsplit]
    -- and the operator itself is drained after everything behind the cut
    rcases hafter with ⟨rfl, hnil, hsuspends⟩ | ⟨ws, xs, rfl, hsettles, hrest⟩
    · rw [hnil, ChainLinks.tree_nil]
      obtain ⟨s', es', hread', hleaves'⟩ := hsuspends false
        ⟨(ChainLinks.tree first c.before).postorder.reverse ++ base.output,
          .operator symbol :: base.stack, base.frames⟩
      exact ⟨s', _, hread', hleaves'.operator ho, fun hfalse => by cases hfalse⟩
    · have hholdsAfter : ∀ link ∈ c.after,
          Holds r link.1.precedence (.operator symbol :: base.stack) := by
        intro link hlink symbol' rest hstack
        cases hstack
        exact ⟨c.operator, ho, ChainLinks.lt_of_cut? hcut link hlink⟩
      obtain ⟨s', es', hread', hleaves', htighter'⟩ := ihafter hrest (endsInName false ws)
        ⟨(ChainLinks.tree first c.before).postorder.reverse ++ base.output,
          .operator symbol :: base.stack, base.frames⟩ hholdsAfter
      refine ⟨s', es' ++ [.operator symbol], ?_, hleaves'.operator ho, ?_⟩
      · rw [readAll_append, hrest.beforeParen, hsettles false _ fun _ => rfl, ok_bind]
        exact hread'
      · intro hb p hp e he
        rcases List.mem_append.mp he with hes | hop
        · exact htighter' hb p (fun link hlink => hp link (hafterMem link hlink)) e hes
        · exact ⟨symbol, c.operator, List.mem_singleton.mp hop, ho, hp _ hselfMem⟩

end Postfix

end Reckoner
