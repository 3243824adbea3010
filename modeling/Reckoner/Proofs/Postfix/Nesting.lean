import Reckoner.Postfix.Brackets
import Reckoner.Proofs.Postfix.Draining

set_option autoImplicit false

/-!
# Tokens and the stacks that they leave

The tokens read so far are balanced stretches with unclosed parentheses between
them, and the stacks have the same shape: entries that wait with parentheses
between them, and a frame for each parenthesis.  `Nested` says so and says what the
frame of a call knows: the commas of the stretch after its parenthesis, and how long
the output was when it was opened.
-/

namespace Reckoner.Postfix

/-! ## Balanced tokens -/

theorem depth_append (ts us : List Token) : depth (ts ++ us) = depth ts + depth us := by
  induction ts with
  | nil => simp [depth]
  | cons t ts ih =>
    rw [List.cons_append, depth, depth, ih]
    omega

theorem depth_singleton (t : Token) : depth [t] = t.lexeme.depth := by simp [depth]

theorem terms_append (ts us : List Token) : terms (ts ++ us) = terms ts + terms us :=
  List.countP_append

theorem balanced_nil : Balanced [] := by
  refine ⟨?_, rfl⟩
  intro us vs h
  rw [(List.append_eq_nil_iff.mp h.symm).1]
  exact Int.le_refl 0

theorem Balanced.append {ts us : List Token} (hts : Balanced ts) (hus : Balanced us) :
    Balanced (ts ++ us) := by
  refine ⟨?_, ?_⟩
  · intro vs ws h
    rcases List.append_eq_append_iff.mp h with ⟨xs, rfl, hxs⟩ | ⟨xs, rfl, -⟩
    · rw [depth_append, hts.closed, Int.zero_add]
      exact hus.nonneg xs ws hxs
    · exact hts.nonneg vs xs rfl
  · rw [depth_append, hts.closed, hus.closed]
    rfl

/-- A token that is no parenthesis. -/
theorem balanced_singleton {t : Token} (h : t.lexeme.depth = 0) : Balanced [t] := by
  have hclosed : depth [t] = 0 := (depth_singleton t).trans h
  refine ⟨?_, hclosed⟩
  intro us vs hsplit
  rcases List.singleton_eq_append_iff.mp hsplit with ⟨rfl, -⟩ | ⟨rfl, -⟩
  · exact Int.le_refl 0
  · exact Int.le_of_eq hclosed.symm

/-- Balanced tokens in parentheses. -/
theorem Balanced.enclosed {p c : Token} {ts : List Token} (h : Balanced ts)
    (hp : p.lexeme = .openParen) (hc : c.lexeme = .closeParen) : Balanced (p :: ts ++ [c]) := by
  have hopen : p.lexeme.depth = 1 := by rw [hp]; rfl
  have hclose : c.lexeme.depth = -1 := by rw [hc]; rfl
  refine ⟨?_, ?_⟩
  · intro us vs hsplit
    rcases List.append_eq_append_iff.mp hsplit with ⟨xs, rfl, hxs⟩ | ⟨xs, hxs, -⟩
    · rcases List.singleton_eq_append_iff.mp hxs with ⟨rfl, -⟩ | ⟨rfl, -⟩
      · rw [List.append_nil, depth, hopen, h.closed]
        omega
      · rw [depth_append, depth, hopen, h.closed, depth_singleton, hclose]
        omega
    · rcases List.cons_eq_append_iff.mp hxs with ⟨rfl, -⟩ | ⟨ws, rfl, hws⟩
      · exact Int.le_refl 0
      · have hinside := h.nonneg ws xs hws
        rw [depth, hopen]
        omega
  · rw [List.cons_append, depth, depth_append, h.closed, depth_singleton, hopen, hclose]
    rfl

/-- The last parenthesis that is not closed is found in one place only. -/
theorem eq_of_unclosed {us us' ts ts' : List Token} {p p' : Token}
    (h : us ++ p :: ts = us' ++ p' :: ts') (hp : p.lexeme = .openParen)
    (hp' : p'.lexeme = .openParen) (hts : Balanced ts) (hts' : Balanced ts') :
    us = us' ∧ p = p' ∧ ts = ts' := by
  have hdepth {q : Token} (hq : q.lexeme = .openParen) (vs : List Token) :
      depth (q :: vs) = 1 + depth vs := by
    rw [depth, hq]
    rfl
  rcases List.append_eq_append_iff.mp h with ⟨vs, rfl, hvs⟩ | ⟨vs, rfl, hvs⟩
  · cases vs with
    | nil =>
      obtain ⟨rfl, rfl⟩ := List.cons.inj hvs
      exact ⟨(List.append_nil us).symm, rfl, rfl⟩
    | cons q qs =>
      -- the second parenthesis would be closed within the first bracket
      obtain ⟨rfl, hqs⟩ := List.cons.inj hvs
      have hnonneg := hts.nonneg qs _ hqs
      have hclosed := hts.closed
      rw [hqs, List.append_eq, depth_append, hdepth hp', hts'.closed] at hclosed
      omega
  · cases vs with
    | nil =>
      obtain ⟨rfl, rfl⟩ := List.cons.inj hvs
      exact ⟨List.append_nil us', rfl, rfl⟩
    | cons q qs =>
      obtain ⟨rfl, hqs⟩ := List.cons.inj hvs
      have hnonneg := hts'.nonneg qs _ hqs
      have hclosed := hts'.closed
      rw [hqs, List.append_eq, depth_append, hdepth hp, hts.closed] at hclosed
      omega

/-! ## Own commas -/

theorem commasAt_append (outer : Int) (ts us : List Token) :
    commasAt outer (ts ++ us) = commasAt outer ts + commasAt (outer + depth ts) us := by
  induction ts generalizing outer with
  | nil => simp [commasAt, depth]
  | cons t ts ih =>
    rw [List.cons_append, commasAt, commasAt, ih, depth, Int.add_assoc, Nat.add_assoc]

theorem ownCommas_append {ts : List Token} (h : depth ts = 0) (us : List Token) :
    ownCommas (ts ++ us) = ownCommas ts + ownCommas us := by
  rw [ownCommas, commasAt_append, h]
  rfl

/-- Commas inside parentheses are not counted. -/
theorem commasAt_eq_zero {outer : Int} {ts : List Token}
    (h : ∀ us vs, ts = us ++ vs → 0 < outer + depth us) : commasAt outer ts = 0 := by
  induction ts generalizing outer with
  | nil => rfl
  | cons t ts ih =>
    have houter : 0 < outer + 0 := h [] (t :: ts) rfl
    have hrest : ∀ us vs, ts = us ++ vs → 0 < outer + t.lexeme.depth + depth us := by
      intro us vs hsplit
      have hcons := h (t :: us) vs (congrArg (List.cons t) hsplit)
      rwa [depth, ← Int.add_assoc] at hcons
    rw [commasAt, ih hrest, if_neg fun hand => by omega]

theorem ownCommas_enclosed {p c : Token} {ts : List Token} (h : Balanced ts)
    (hp : p.lexeme = .openParen) (hc : c.lexeme = .closeParen) :
    ownCommas (p :: ts ++ [c]) = 0 := by
  have hinside : commasAt 1 ts = 0 := by
    refine commasAt_eq_zero ?_
    intro us vs hsplit
    have hnonneg := h.nonneg us vs hsplit
    omega
  rw [ownCommas, List.cons_append, commasAt, commasAt_append, hp, h.closed]
  simp [Lexeme.isComma, Lexeme.depth, hinside, commasAt, hc]

/-! ## Single terms -/

theorem balanced_of_isTerm {t : Token} (h : t.lexeme.isTerm = true) : Balanced [t] := by
  refine balanced_singleton ?_
  cases hlexeme : t.lexeme <;> simp [hlexeme, Lexeme.isTerm, Lexeme.depth] at h ⊢

theorem ownCommas_of_isTerm {t : Token} (h : t.lexeme.isTerm = true) : ownCommas [t] = 0 := by
  cases hlexeme : t.lexeme <;>
    simp [hlexeme, Lexeme.isTerm, Lexeme.isComma, ownCommas, commasAt] at h ⊢

theorem terms_of_isTerm {t : Token} (h : t.lexeme.isTerm = true) : terms [t] = 1 :=
  List.countP_eq_length.mpr (List.forall_mem_singleton.mpr h)

/-! ## The shape of the stacks -/

/-- The entries that wait on a stack. -/
def waiting (stack : List Entry) : Nat := stack.countP fun e => !e.isParen

theorem waiting_append (es fs : List Entry) : waiting (es ++ fs) = waiting es + waiting fs :=
  List.countP_append

theorem waiting_of_no_paren {es : List Entry} (h : ∀ e ∈ es, e.isParen = false) :
    waiting es = es.length := by
  refine List.countP_eq_length.mpr ?_
  intro e he
  rw [h e he]
  rfl

@[simp] theorem waiting_operator (symbol : String) (stack : List Entry) :
    waiting (.operator symbol :: stack) = waiting stack + 1 :=
  List.countP_cons_of_pos rfl

@[simp] theorem waiting_name (name : String) (stack : List Entry) :
    waiting (.name name :: stack) = waiting stack + 1 :=
  List.countP_cons_of_pos rfl

@[simp] theorem waiting_paren (index : Int) (stack : List Entry) :
    waiting (.paren index :: stack) = waiting stack :=
  List.countP_cons_of_neg (by simp [Entry.isParen])

/-- Commas that are counted for the bracket that is open, if it belongs to a call. -/
def countCommas (n : Nat) : List (Option CallFrame) → List (Option CallFrame)
  | some frame :: frames => some { frame with commas := frame.commas + n } :: frames
  | frames => frames

theorem countCommas_zero (frames : List (Option CallFrame)) : countCommas 0 frames = frames := by
  match frames with
  | [] => rfl
  | none :: _ => rfl
  | some _ :: _ => rfl

mutual

/-- Tokens that were read, and the stacks that they left. -/
inductive Nested : List Token → List Entry → List (Option CallFrame) → Prop
  | outermost {ts : List Token} {es : List Entry} :
      Balanced ts → (∀ e ∈ es, e.isParen = false) → Nested ts es []
  | inside {ts : List Token} {index : Int} {es stack : List Entry}
      {frames : List (Option CallFrame)} :
      Innermost ts index stack frames → (∀ e ∈ es, e.isParen = false) →
      Nested ts (es ++ .paren index :: stack) frames

/-- Tokens after which a bracket is open, the place of its parenthesis, and the stacks
but for what is above the parenthesis. -/
inductive Innermost : List Token → Int → List Entry → List (Option CallFrame) → Prop
  | group {us ts : List Token} {p : Token} {stack : List Entry}
      {frames : List (Option CallFrame)} :
      Nested us stack frames → endsInName false us = false → p.lexeme = .openParen →
      Balanced ts → Innermost (us ++ p :: ts) p.index stack (none :: frames)
  | call {us ts : List Token} {n p : Token} {name : String} {frame : CallFrame}
      {stack : List Entry} {frames : List (Option CallFrame)} :
      Nested (us ++ [n]) (.name name :: stack) frames → n.lexeme = .name name →
      p.lexeme = .openParen → Balanced ts → frame.commas = ownCommas ts →
      frame.outputSize + waiting (.name name :: stack) = terms (us ++ [n]) →
      Innermost (us ++ n :: p :: ts) p.index (.name name :: stack) (some frame :: frames)

end

/-- Balanced tokens that are read next stay in the bracket, and their commas are
counted for it. -/
theorem Innermost.extend {ts us : List Token} {index : Int} {stack : List Entry}
    {frames : List (Option CallFrame)} (h : Innermost ts index stack frames) (hus : Balanced us) :
    Innermost (ts ++ us) index stack (countCommas (ownCommas us) frames) := by
  cases h with
  | group hnested hname hp hts =>
    rw [List.append_assoc]
    exact .group hnested hname hp (hts.append hus)
  | call hnested hn hp hts hcommas hsize =>
    rw [List.append_assoc]
    refine .call hnested hn hp (hts.append hus) ?_ hsize
    exact (congrArg (· + ownCommas us) hcommas).trans (ownCommas_append hts.closed us).symm

/-- Balanced tokens that are read next change the entries that wait on top and count
their commas, and nothing else. -/
theorem Nested.extend {ts : List Token} {stack : List Entry} {frames : List (Option CallFrame)}
    (h : Nested ts stack frames) :
    ∃ es rest, stack = es ++ rest ∧ (∀ e ∈ es, e.isParen = false) ∧ Bounded rest ∧
      ∀ us fs, Balanced us → (∀ e ∈ fs, e.isParen = false) →
        Nested (ts ++ us) (fs ++ rest) (countCommas (ownCommas us) frames) := by
  cases h with
  | outermost hts hes =>
    refine ⟨_, [], (List.append_nil _).symm, hes, bounded_nil, ?_⟩
    intro us fs hus hfs
    rw [List.append_nil]
    exact .outermost (hts.append hus) hfs
  | inside hinner hes =>
    refine ⟨_, _, rfl, hes, bounded_paren _ _, ?_⟩
    intro us fs hus hfs
    exact .inside (hinner.extend hus) hfs

/-- The entries on top of the first parenthesis are found in one way only. -/
theorem eq_of_bounded {es fs rest rest' : List Entry} (h : es ++ rest = fs ++ rest')
    (hes : ∀ e ∈ es, e.isParen = false) (hfs : ∀ e ∈ fs, e.isParen = false)
    (hrest : Bounded rest) (hrest' : Bounded rest') : es = fs ∧ rest = rest' := by
  rcases List.append_eq_append_iff.mp h with ⟨gs, rfl, rfl⟩ | ⟨gs, rfl, rfl⟩
  · cases gs with
    | nil => exact ⟨(List.append_nil es).symm, rfl⟩
    | cons e gs =>
      have hparen : e.isParen = true := hrest e rfl
      rw [hfs e (by simp)] at hparen
      cases hparen
  · cases gs with
    | nil => exact ⟨List.append_nil fs, rfl⟩
    | cons e gs =>
      have hparen : e.isParen = true := hrest' e rfl
      rw [hes e (by simp)] at hparen
      cases hparen

/-- Tokens that leave no parenthesis are balanced. -/
theorem Nested.balanced {ts : List Token} {stack : List Entry} {frames : List (Option CallFrame)}
    (h : Nested ts stack frames) (hstack : ∀ e ∈ stack, e.isParen = false) : Balanced ts := by
  cases h with
  | outermost hts _ => exact hts
  | inside => cases hstack _ (List.mem_append_right _ List.mem_cons_self)

/-- A parenthesis on the stack is that of the bracket that is open. -/
theorem Nested.innermost {ts : List Token} {es stack : List Entry} {index : Int}
    {frames : List (Option CallFrame)} (h : Nested ts (es ++ .paren index :: stack) frames)
    (hes : ∀ e ∈ es, e.isParen = false) : Innermost ts index stack frames := by
  generalize hwhole : es ++ .paren index :: stack = whole at h
  cases h with
  | outermost _ hfs =>
    subst hwhole
    cases hfs (.paren index) (by simp)
  | inside hinner hfs =>
    obtain ⟨-, hrest⟩ := eq_of_bounded hwhole hes hfs (bounded_paren _ _) (bounded_paren _ _)
    cases hrest
    exact hinner

/-- What waited when a bracket was opened is there when it has been closed, but for
what the bracket belongs to. -/
theorem Nested.enclosed {us ts : List Token} {p c : Token} {fs stack : List Entry}
    {frames : List (Option CallFrame)} (h : Nested us (fs ++ stack) frames)
    (hfs : ∀ e ∈ fs, e.isParen = false) (hts : Balanced ts) (hp : p.lexeme = .openParen)
    (hc : c.lexeme = .closeParen) : Nested (us ++ p :: ts ++ [c]) stack frames := by
  obtain ⟨es, rest, hstack, hes, hrest, hnext⟩ := h.extend
  have hclosed : ∀ gs, (∀ e ∈ gs, e.isParen = false) →
      Nested (us ++ p :: ts ++ [c]) (gs ++ rest) frames := by
    intro gs hgs
    have hnested := hnext (p :: ts ++ [c]) gs (hts.enclosed hp hc) hgs
    rw [ownCommas_enclosed hts hp hc, countCommas_zero] at hnested
    rwa [List.append_assoc]
  rcases List.append_eq_append_iff.mp hstack with ⟨gs, rfl, rfl⟩ | ⟨gs, rfl, rfl⟩
  · exact hclosed gs fun e he => hes e (List.mem_append_right _ he)
  · cases gs with
    | nil => exact hclosed [] fun e he => nomatch he
    | cons e gs =>
      have hparen : e.isParen = true := hrest e rfl
      rw [hfs e (by simp)] at hparen
      cases hparen

/-! ## Calls -/

/-- No call is open in a bracket that does not follow a name. -/
theorem not_callIn {us ts inside : List Token} {p : Token} {name : String}
    (hname : endsInName false us = false) (hp : p.lexeme = .openParen) (hts : Balanced ts) :
    ¬ CallIn (us ++ p :: ts) name inside := by
  rintro ⟨⟨vs, n, q, hn, hq, hwritten⟩, hinside⟩
  rw [List.append_cons vs] at hwritten
  obtain ⟨rfl, -, -⟩ := eq_of_unclosed hwritten hp hq hts hinside
  rw [endsInName_concat, hn] at hname
  cases hname

/-- In the bracket of a call that call is open, and no other one. -/
theorem callIn_iff {us ts inside : List Token} {n p : Token} {name name' : String}
    (hn : n.lexeme = .name name) (hp : p.lexeme = .openParen) (hts : Balanced ts) :
    CallIn (us ++ n :: p :: ts) name' inside ↔ name' = name ∧ inside = ts := by
  constructor
  · rintro ⟨⟨vs, m, q, hm, hq, hwritten⟩, hinside⟩
    rw [List.append_cons vs, List.append_cons us] at hwritten
    obtain ⟨hbefore, -, rfl⟩ := eq_of_unclosed hwritten hp hq hts hinside
    obtain ⟨-, hlast⟩ := List.append_inj' hbefore rfl
    cases List.singleton_inj.mp hlast
    rw [hn] at hm
    cases hm
    exact ⟨rfl, rfl⟩
  · rintro ⟨rfl, rfl⟩
    exact ⟨⟨us, n, p, hn, hp, rfl⟩, hts⟩

/-- The frame of a call tells how many arguments its inside is taken for. -/
theorem given_eq_argumentCount {frame : CallFrame} {inside : List Token} {outputSize : Nat}
    (hcommas : frame.commas = ownCommas inside)
    (hsize : outputSize = frame.outputSize + terms inside) :
    frame.given outputSize = argumentCount inside := by
  have hempty : outputSize = frame.outputSize ↔ terms inside = 0 := by omega
  simp only [CallFrame.given, argumentCount, hempty, hcommas]

theorem terms_unclosed {us ts : List Token} {p : Token} (hp : p.lexeme = .openParen) :
    terms (us ++ p :: ts) = terms us + terms ts := by
  have hparen : terms (p :: ts) = terms ts :=
    List.countP_cons_of_neg (by rw [hp]; simp [Lexeme.isTerm])
  rw [terms_append, hparen]

/-! ## Depths -/

theorem depth_unclosed {us ts : List Token} {p : Token} (hp : p.lexeme = .openParen)
    (hts : Balanced ts) : depth (us ++ p :: ts) = depth us + 1 := by
  rw [depth_append, depth, hp, hts.closed]
  rfl

mutual

/-- No parenthesis has been closed that was not open. -/
theorem Nested.depth_nonneg {ts : List Token} {stack : List Entry}
    {frames : List (Option CallFrame)} (h : Nested ts stack frames) : 0 ≤ depth ts := by
  match h with
  | .outermost hts _ => exact Int.le_of_eq hts.closed.symm
  | .inside hinner _ => exact Int.le_of_lt hinner.depth_pos

/-- Inside a bracket a parenthesis is open. -/
theorem Innermost.depth_pos {ts : List Token} {index : Int} {stack : List Entry}
    {frames : List (Option CallFrame)} (h : Innermost ts index stack frames) : 0 < depth ts := by
  match h with
  | .group hnested _ hp hts =>
    have hnonneg := hnested.depth_nonneg
    rw [depth_unclosed hp hts]
    omega
  | .call hnested _ hp hts _ _ =>
    have hnonneg := hnested.depth_nonneg
    rw [List.append_cons, depth_unclosed hp hts]
    omega

end

end Reckoner.Postfix
