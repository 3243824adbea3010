import Reckoner.Failure
import Reckoner.Proofs.Postfix.Tracking
import Reckoner.Registry.Standard

set_option autoImplicit false

/-!
# Which tokens have a postfix order

Since a conversion follows its tokens up to the first offence, it succeeds exactly if
the tokens are accepted, and, with all names defined, its error is the first offence.
Whatever the tokens are, there is no more than one first offence.
-/

namespace Reckoner.Postfix

/-! ## Tokens without an offence -/

theorem Clean.of_append {r : Registry} {ts us : List Token} (h : Clean r (ts ++ us)) :
    Clean r ts := by
  intro vs t ws e hsplit
  refine h vs t (ws ++ us) e ?_
  rw [hsplit, List.append_assoc, List.cons_append]

theorem Clean.concat {r : Registry} {ts : List Token} {t : Token} (h : Clean r ts)
    (ht : ∀ e, ¬ Offends r ts t e) : Clean r (ts ++ [t]) := by
  intro us u vs e hsplit
  rcases List.eq_nil_or_concat vs with rfl | ⟨ws, w, rfl⟩
  · obtain ⟨rfl, hlast⟩ := List.append_inj' hsplit rfl
    cases List.singleton_inj.mp hlast
    exact ht e
  · rw [List.concat_eq_append, ← List.cons_append, ← List.append_assoc] at hsplit
    obtain ⟨rfl, -⟩ := List.append_inj' hsplit rfl
    exact h us u ws e rfl

/-- Without an offence nothing is closed that was not opened. -/
theorem Clean.depth_nonneg {r : Registry} {ts : List Token} (h : Clean r ts) : 0 ≤ depth ts := by
  have hfrom : ∀ us vs, Clean r (us ++ vs) → 0 ≤ depth us → 0 ≤ depth (us ++ vs) := by
    intro us vs hclean hus
    induction vs generalizing us with
    | nil => rwa [List.append_nil]
    | cons t vs ih =>
      rw [List.append_cons] at hclean ⊢
      refine ih (us ++ [t]) hclean ?_
      rw [depth_append, depth_singleton]
      obtain ⟨lexeme, index⟩ := t
      cases lexeme with
      | closeParen =>
        have hne : depth us ≠ 0 := fun hzero =>
          hclean us _ vs _ (List.append_cons us _ vs).symm (.close hzero)
        simp only [Lexeme.depth]
        omega
      | number _ | operator _ | name _ | openParen | comma =>
        simp only [Lexeme.depth]
        omega
  exact hfrom [] ts h (Int.le_refl 0)

/-- Tokens without an offence are accepted if everything is defined and closed. -/
theorem Clean.accepted {r : Registry} {ts : List Token} (h : Clean r ts)
    (hoperators : ∀ t ∈ ts, ∀ symbol, t.lexeme = .operator symbol →
      ∃ o, r.operator symbol = .ok o)
    (hnames : ∀ t ∈ ts, ∀ name, t.lexeme = .name name → ∃ f, r.function name = .ok f)
    (hbalanced : Balanced ts) : Accepted r ts := by
  refine ⟨hoperators, hnames, hbalanced, ?_, ?_⟩
  · rintro us ⟨lexeme, index⟩ vs hsplit rfl
    have hnonneg := hbalanced.nonneg us _ hsplit
    have hne : depth us ≠ 0 := fun hzero => h us _ vs _ hsplit (.comma hzero)
    omega
  · rintro us ⟨lexeme, index⟩ vs name inside f hsplit rfl hcall hf
    exact Decidable.byContradiction fun hne => h us _ vs _ hsplit (.arguments hcall hf hne)

theorem Accepted.clean {r : Registry} {ts : List Token} (h : Accepted r ts) : Clean r ts := by
  intro us t vs e hsplit hoffends
  have ht : t ∈ ts := by rw [hsplit]; simp
  cases hoffends with
  | operator hundefined =>
    obtain ⟨o, ho⟩ := h.operators _ ht _ rfl
    exact hundefined o ho
  | @close index hdepth =>
    have hnonneg := h.balanced.nonneg (us ++ [⟨.closeParen, index⟩]) vs (by rw [hsplit]; simp)
    rw [depth_append, depth_singleton, hdepth] at hnonneg
    cases hnonneg
  | comma hdepth =>
    have hpos := h.commas us _ vs hsplit rfl
    omega
  | arguments hcall hf hne => exact hne (h.arguments us _ vs _ _ _ hsplit rfl hcall hf)

theorem Accepted.not_firstOffence {r : Registry} {ts : List Token} {e : StructureError}
    (h : Accepted r ts) : ¬ FirstOffence r ts e := by
  intro hfirst
  cases hfirst with
  | token _ hoffends => exact h.clean _ _ _ _ rfl hoffends
  | @unclosed us p vs _ hp hvs =>
    have hclosed := h.balanced.closed
    have hnonneg := h.balanced.nonneg us (p :: vs) rfl
    rw [depth_unclosed hp hvs] at hclosed
    omega

theorem Accepted.not_undefined {r : Registry} {ts : List Token} {e : StructureError}
    (h : Accepted r ts) : ¬ Undefined r ts e := by
  rintro ⟨name, ⟨t, ht, hlexeme⟩, hundefined, -⟩
  obtain ⟨f, hf⟩ := h.names t ht name hlexeme
  exact hundefined f hf

/-! ## There is one first offence -/

theorem CallIn.unique {ts inside inside' : List Token} {name name' : String}
    (h : CallIn ts name inside) (h' : CallIn ts name' inside') : name' = name ∧ inside' = inside := by
  obtain ⟨⟨us, n, p, hn, hp, rfl⟩, hinside⟩ := h
  exact (callIn_iff hn hp hinside).mp h'

theorem CallIn.depth_pos {r : Registry} {ts inside : List Token} {name : String}
    (h : CallIn ts name inside) (hclean : Clean r ts) : 0 < depth ts := by
  obtain ⟨⟨us, n, p, hn, hp, rfl⟩, hinside⟩ := h
  rw [List.append_cons] at hclean ⊢
  have hnonneg := hclean.of_append.depth_nonneg
  rw [depth_unclosed hp hinside]
  omega

theorem Offends.unique {r : Registry} {ts : List Token} {t : Token} {e e' : StructureError}
    (h : Offends r ts t e) (h' : Offends r ts t e') (hclean : Clean r ts) : e = e' := by
  cases h with
  | operator _ =>
    cases h' with
    | operator _ => rfl
  | comma _ =>
    cases h' with
    | comma _ => rfl
  | close hdepth =>
    cases h' with
    | close _ => rfl
    | arguments hcall _ _ =>
      have hpos := hcall.depth_pos hclean
      omega
  | arguments hcall hf _ =>
    cases h' with
    | close hdepth =>
      have hpos := hcall.depth_pos hclean
      omega
    | arguments hcall' hf' _ =>
      obtain ⟨rfl, rfl⟩ := hcall.unique hcall'
      rw [hf] at hf'
      cases hf'
      rfl

/-- The tokens before two first offences are the same. -/
theorem Clean.eq_of_offends {r : Registry} {us us' vs vs' : List Token} {t t' : Token}
    {e e' : StructureError} (hsplit : us ++ t :: vs = us' ++ t' :: vs') (hus : Clean r us)
    (hus' : Clean r us') (h : Offends r us t e) (h' : Offends r us' t' e') : us = us' ∧ t = t' := by
  rcases List.append_eq_append_iff.mp hsplit with ⟨ws, rfl, hws⟩ | ⟨ws, rfl, hws⟩
  · cases ws with
    | nil => exact ⟨(List.append_nil us).symm, (List.cons.inj hws).1⟩
    | cons w ws =>
      obtain ⟨rfl, -⟩ := List.cons.inj hws
      exact absurd h (hus' us t ws _ rfl)
  · cases ws with
    | nil => exact ⟨List.append_nil us', (List.cons.inj hws).1.symm⟩
    | cons w ws =>
      obtain ⟨rfl, -⟩ := List.cons.inj hws
      exact absurd h' (hus us' t' ws _ rfl)

theorem FirstOffence.unique {r : Registry} {ts : List Token} {e e' : StructureError}
    (h : FirstOffence r ts e) (h' : FirstOffence r ts e') : e = e' := by
  cases h with
  | @token us t vs _ hclean hoffends =>
    generalize hsplit : us ++ t :: vs = whole at h'
    cases h' with
    | token hclean' hoffends' =>
      obtain ⟨rfl, rfl⟩ := hclean.eq_of_offends hsplit hclean' hoffends hoffends'
      exact hoffends.unique hoffends' hclean
    | unclosed hclean' _ _ => exact absurd hoffends (hclean' us t vs _ hsplit.symm)
  | @unclosed us p vs hclean hp hvs =>
    generalize hsplit : us ++ p :: vs = whole at h'
    cases h' with
    | @token us' t' vs' _ _ hoffends' => exact absurd hoffends' (hclean us' t' vs' _ hsplit)
    | unclosed _ hp' hvs' =>
      obtain ⟨-, rfl, -⟩ := eq_of_unclosed hsplit hp hp' hvs hvs'
      rfl

/-! ## Runs -/

theorem Undefined.append {r : Registry} {ts : List Token} {e : StructureError}
    (h : Undefined r ts e) (us : List Token) : Undefined r (ts ++ us) e := by
  obtain ⟨name, ⟨t, ht, hlexeme⟩, hundefined⟩ := h
  exact ⟨name, ⟨t, List.mem_append_left us ht, hlexeme⟩, hundefined⟩

/-- Tokens are read as long as none of them offends. -/
theorem readAll_follows {r : Registry} {ts : List Token} {s : State} (vs : List Token) {next : Bool}
    (h : Tracked r ts s) (hpending : Pending ts (beforeParen vs next) s) (hclean : Clean r ts) :
    Yields (fun s' => Tracked r (ts ++ vs) s' ∧ Clean r (ts ++ vs))
      (fun e => FirstOffence r (ts ++ vs) e ∨ Undefined r (ts ++ vs) e)
      (readAll r (endsInName false ts) vs next s) := by
  induction vs generalizing ts s with
  | nil =>
    rw [List.append_nil]
    exact ⟨h, hclean⟩
  | cons t vs ih =>
    have hstep := (step_follows h t hpending (beforeParen vs next)).mono (fun _ hs => hs)
      (F := fun e => FirstOffence r (ts ++ t :: vs) e ∨ Undefined r (ts ++ t :: vs) e) ?_
    · refine hstep.bind ?_
      rintro s' ⟨⟨htracked, hpending'⟩, hnone⟩
      have hrest := ih htracked hpending' (hclean.concat hnone)
      rwa [endsInName_concat, ← List.append_cons] at hrest
    · rintro e (hoffends | hundefined)
      · exact .inl (.token hclean hoffends)
      · exact .inr (hundefined.append _)

/-- At the end of the input the tokens are accepted, unless a parenthesis is open. -/
theorem finish_follows {r : Registry} {ts : List Token} {s : State} (h : Tracked r ts s)
    (hclean : Clean r ts) :
    Yields (fun _ => Accepted r ts) (fun e => FirstOffence r ts e ∨ Undefined r ts e)
      (finish r s.output s.stack) := by
  obtain ⟨es, rest, hstack, hes, hrest, -⟩ := h.nested.extend
  have haccounts := h.accounts
  have hnested := h.nested
  rw [hstack] at haccounts hnested
  rw [hstack, finish_append r s.output hes]
  refine ((drain_accounts haccounts hes).mono (fun _ hp => hp) (fun _ => .inr)).bind ?_
  rintro output ⟨hlength, hdefined⟩
  have hreleased := haccounts.released hes hlength hdefined
  rcases hrest.eq_nil_or_paren with rfl | ⟨i, below, rfl⟩
  · rw [List.append_nil] at hnested
    refine hclean.accepted hreleased.operators ?_ (hnested.balanced hes)
    intro t ht name hlexeme
    rcases hreleased.names t ht name hlexeme with hname | hmem
    · exact hname
    · cases hmem
  · rw [finish_paren]
    have hinner := hnested.innermost hes
    generalize s.frames = frames at hinner
    cases hinner with
    | group _ _ hp hinside => exact .inl (.unclosed hclean hp hinside)
    | call _ _ hp hinside _ _ =>
      rw [List.append_cons] at hclean ⊢
      exact .inl (.unclosed hclean hp hinside)

/-- A conversion succeeds on accepted tokens only, and else stops at the first offence
or at an undefined name. -/
theorem convert_follows (r : Registry) (ts : List Token) :
    Yields (fun _ => Accepted r ts) (fun e => FirstOffence r ts e ∨ Undefined r ts e)
      (convert r ts) := by
  have hinitial : Tracked r [] .initial := by
    refine ⟨.outermost balanced_nil fun e he => (nomatch he), rfl, ?_, ?_, ?_⟩
    · exact fun t ht => nomatch ht
    · exact fun t ht => nomatch ht
    · exact fun e he => nomatch he
  have hpending : Pending [] (beforeParen ts false) .initial := by
    intro _ us n name hsplit
    simp at hsplit
  have hclean : Clean r [] := by
    intro us t vs e hsplit
    simp at hsplit
  refine (readAll_follows ts hinitial hpending hclean).bind ?_
  rintro s ⟨htracked, hclean'⟩
  exact finish_follows htracked hclean'

/-- The error of a conversion is one of symbols, of parentheses or of arguments. -/
theorem title_mem (e : StructureError) :
    e.category.title ∈ ["UndefinedSymbolError", "InvalidParenthesisError", "ArgumentCountError"] := by
  cases e <;> simp [StructureError.category, Category.title]

/-- A conversion succeeds exactly on the accepted tokens.  On any others it stops with
an error of symbols, of parentheses or of arguments, and never because an entry of a
stack is missing.  If all names are defined, the error is the first offence. -/
theorem convert_ok_iff_accepted (r : Registry) (ts : List Token) :
    ((∃ nodes, convert r ts = .ok nodes) ↔ Accepted r ts) ∧
    (¬ Accepted r ts → ∃ e, convert r ts = .error (.error e) ∧
      e.category.title ∈
        ["UndefinedSymbolError", "InvalidParenthesisError", "ArgumentCountError"]) ∧
    ((∀ t ∈ ts, ∀ name, t.lexeme = .name name → ∃ f, r.function name = .ok f) →
      ∀ e, convert r ts = .error (.error e) ↔ FirstOffence r ts e) := by
  have hfollows := convert_follows r ts
  match hconvert : convert r ts with
  | .ok nodes =>
    rw [hconvert] at hfollows
    refine ⟨⟨fun _ => hfollows, fun _ => ⟨nodes, rfl⟩⟩, fun hnot => absurd hfollows hnot, ?_⟩
    intro _ e
    exact ⟨fun h => (nomatch h), fun h => absurd h hfollows.not_firstOffence⟩
  | .error (.error e) =>
    rw [hconvert] at hfollows
    refine ⟨⟨fun ⟨nodes, h⟩ => (nomatch h), ?_⟩, fun _ => ⟨e, rfl, title_mem e⟩, ?_⟩
    · intro haccepted
      rcases hfollows with hfirst | hundefined
      · exact absurd hfirst haccepted.not_firstOffence
      · exact absurd hundefined haccepted.not_undefined
    · intro hnames e'
      rcases hfollows with hfirst | ⟨name, ⟨t, ht, hlexeme⟩, hundefined, -⟩
      · constructor
        · intro h
          cases h
          exact hfirst
        · intro h
          rw [hfirst.unique h]
      · obtain ⟨f, hf⟩ := hnames t ht name hlexeme
        exact absurd hf (hundefined f)
  | .error (.breakdown b) =>
    rw [hconvert] at hfollows
    cases hfollows

/-- `max(1, (2))` is accepted, and in `max((1)) + )` the first offence is the argument
that is missing. -/
theorem accepted_and_offended_max :
    Accepted Standard.registry
      [⟨.name "max", 0⟩, ⟨.openParen, 3⟩, ⟨.number 1, 4⟩, ⟨.comma, 5⟩, ⟨.openParen, 7⟩,
        ⟨.number 2, 8⟩, ⟨.closeParen, 9⟩, ⟨.closeParen, 10⟩] ∧
    FirstOffence Standard.registry
      [⟨.name "max", 0⟩, ⟨.openParen, 3⟩, ⟨.openParen, 4⟩, ⟨.number 1, 5⟩, ⟨.closeParen, 6⟩,
        ⟨.closeParen, 7⟩, ⟨.operator "+", 9⟩, ⟨.closeParen, 11⟩]
      (.argumentCount "max" 2 1) := by
  refine ⟨(convert_ok_iff_accepted _ _).1.mp ⟨_, rfl⟩, ?_⟩
  refine ((convert_ok_iff_accepted _ _).2.2 ?_ _).mp rfl
  intro t ht name hlexeme
  simp only [List.mem_cons, List.not_mem_nil, or_false] at ht
  rcases ht with rfl | rfl | rfl | rfl | rfl | rfl | rfl | rfl <;> cases hlexeme
  exact ⟨_, rfl⟩

end Reckoner.Postfix
