import Reckoner.Proofs.Interpretation.Dependence
import Reckoner.Proofs.Registry.Invariants
import Reckoner.Registry.History
import Reckoner.Registry.Standard

set_option autoImplicit false

/-!
# Registries follow their histories

A registry keeps one entry to a name; its history keeps every registration that was
accepted.  Both answer every step alike, however the steps on other registries come in
between.  From this it is read off that refused registrations, interpretations and steps
on other registries change no definition, that a frozen registry stays as it is, and
that a text that is interpreted again is answered as before.
-/

namespace Reckoner

open Workspace

/-! ## Sorted names -/

theorem pairwise_mergeSort_le (ns : List String) :
    (ns.mergeSort fun a b => decide (a ≤ b)).Pairwise (· ≤ ·) := by
  have hsorted : (ns.mergeSort fun a b => decide (a ≤ b)).Pairwise
      fun a b => decide (a ≤ b) = true := by
    refine List.pairwise_mergeSort (fun a b c hab hbc => ?_) (fun a b => ?_) ns
    · exact decide_eq_true (String.le_trans (of_decide_eq_true hab) (of_decide_eq_true hbc))
    · simpa using String.le_total a b
  exact hsorted.imp of_decide_eq_true

/-- Without repetitions, what is sorted depends on the members only. -/
theorem mergeSort_congr {ns ms : List String} (hns : ns.Nodup) (hms : ms.Nodup)
    (h : ∀ n, n ∈ ns ↔ n ∈ ms) :
    (ns.mergeSort fun a b => decide (a ≤ b)) = ms.mergeSort fun a b => decide (a ≤ b) := by
  have hperm : ns.Perm ms := (List.perm_ext_iff_of_nodup hns hms).mpr h
  refine List.Perm.eq_of_pairwise ?_ (pairwise_mergeSort_le ns) (pairwise_mergeSort_le ms)
    (((List.mergeSort_perm ns _).trans hperm).trans (List.mergeSort_perm ms _).symm)
  intro a b _ _ hab hba
  exact String.le_antisymm hab hba

theorem nodup_eraseDups (ns : List String) : ns.eraseDups.Nodup := by
  match ns with
  | [] => exact List.nodup_nil
  | n :: ns =>
    rw [List.eraseDups_cons]
    refine List.nodup_cons.mpr ⟨?_, nodup_eraseDups _⟩
    simp [List.mem_eraseDups]
  termination_by ns.length
  decreasing_by
    simp only [List.length_cons]
    exact Nat.lt_succ_of_le (List.length_filter_le _ _)

theorem mem_names_iff (ds : List Definition) (name : String) :
    name ∈ ds.map Definition.name ↔ (ds.find? fun d => d.name == name).isSome = true := by
  simp [List.find?_isSome]

theorem History.mem_names {h : History} {name : String} :
    name ∈ h.names ↔ ∃ d ∈ h.accepted, d.name = name := by
  rw [names, (List.mergeSort_perm _ _).mem_iff, List.mem_eraseDups, List.mem_map]

/-- Every standard proposal passes its checks. -/
theorem Standard.exists_checked : ∀ p ∈ proposals, ∃ d, p.checked = .ok d := by
  have hall : (proposals.all fun p => p.checked.isOk) = true := rfl
  intro p hp
  have hp := List.all_eq_true.mp hall p hp
  cases h : p.checked with
  | ok d => exact ⟨d, rfl⟩
  | error e => rw [h] at hp; cases hp

namespace Registry

variable {r : Registry}

theorem length_names (r : Registry) : r.names.length = r.size := by
  rw [names, List.length_mergeSort, List.length_map, size]

/-- The names are in strict order. -/
theorem Distinct.pairwise_names (h : r.Distinct) : r.names.Pairwise (· < ·) := by
  have hnodup : r.names.Nodup := (List.mergeSort_perm _ _).nodup_iff.mpr h
  refine ((pairwise_mergeSort_le _).and hnodup).imp ?_
  rintro a b ⟨hle, hne⟩
  exact Std.lt_of_le_of_ne hle hne

/-! ## Refusals -/

theorem perform_register (r : Registry) (ps : List Proposal) :
    (r.perform (.register ps)).1 = (r.enrol ps).registry ∧
      ∀ reason, (r.perform (.register ps)).2 = .refused reason ↔
        (r.enrol ps).refusal = some reason := by
  refine ⟨rfl, fun reason => ?_⟩
  simp only [perform]
  cases (r.enrol ps).refusal <;> simp

/-- A proposal that is refused changes nothing. -/
theorem registry_of_refused {p : Proposal} {reason : Refusal}
    (h : (r.perform (.register [p])).2 = .refused reason) : (r.perform (.register [p])).1 = r := by
  obtain ⟨hregistry, hrefusal⟩ := r.perform_register [p]
  rw [hregistry]
  cases hregister : r.register p with
  | error e => rw [enrol_of_refused hregister]
  | ok result =>
    have hnone : (r.enrol [p]).refusal = none := by rw [enrol_of_registered hregister]; rfl
    rw [hrefusal, hnone] at h
    cases h

/-- The standard definitions are refused by frozen registries only, which they do not change. -/
theorem registry_of_refused_standard {reason : Refusal}
    (h : (r.perform (.register Standard.proposals)).2 = .refused reason) :
    (r.perform (.register Standard.proposals)).1 = r := by
  obtain ⟨hregistry, hrefusal⟩ := r.perform_register Standard.proposals
  rw [hregistry]
  cases hfrozen : r.frozen with
  | true => exact registry_enrol_of_frozen hfrozen _
  | false =>
    rw [hrefusal, refusal_enrol_of_open hfrozen Standard.exists_checked] at h
    cases h

/-! ## One step -/

/-- A registry that is what its history makes of it. -/
structure Follows (r : Registry) (h : History) : Prop where
  lookup : ∀ name, r.lookup name = h.meaning name
  distinct : r.Distinct
  frozen : r.frozen = h.closed

namespace Follows

variable {h : History}

theorem names (hr : r.Follows h) : r.names = h.names := by
  refine mergeSort_congr hr.distinct (nodup_eraseDups _) fun name => ?_
  rw [List.mem_eraseDups, mem_names_iff, mem_names_iff]
  show (r.lookup name).isSome = true ↔ (h.meaning name).isSome = true
  rw [hr.lookup]

theorem size (hr : r.Follows h) : r.size = h.size := by
  rw [← length_names, hr.names, History.size]

theorem reflects (hr : r.Follows h) : r.Reflects h := ⟨hr.lookup, hr.names, hr.frozen⟩

theorem insert (hr : r.Follows h) (hopen : h.closed = false) (d : Definition) :
    (r.insert d).Follows ⟨d :: h.accepted, false⟩ := by
  refine ⟨fun name => ?_, nodup_put d hr.distinct, hr.frozen.trans hopen⟩
  rw [lookup_insert, hr.lookup, History.meaning, History.meaning, List.find?_cons]
  by_cases hname : d.name = name
  · simp [hname]
  · have hfalse : (d.name == name) = false := by simpa using hname
    simp only [hfalse, if_neg hname]

/-- A registry takes the proposals that its history takes. -/
theorem enrol (hr : r.Follows h) (ps : List Proposal) :
    (r.enrol ps).registry.Follows (h.extend ps).1 ∧ (r.enrol ps).refusal = (h.extend ps).2 := by
  induction ps generalizing r h with
  | nil => exact ⟨hr, rfl⟩
  | cons p ps ih =>
    -- the checks come first in both, so a frozen registry and a closed history still refuse
    -- a bad proposal for what is wrong with it
    cases hdraft : p.draft with
    | error e =>
      rw [enrol_of_refused (register_of_draft_error r hdraft), History.extend, hdraft]
      exact ⟨hr, rfl⟩
    | ok draft =>
      rw [History.extend, hdraft]
      dsimp only
      cases hclosed : h.closed with
      | true =>
        rw [enrol_of_refused (register_of_frozen (hr.frozen.trans hclosed) hdraft)]
        exact ⟨hr, rfl⟩
      | false =>
        have hopen := hr.frozen.trans hclosed
        cases hwritten : draft.written with
        | error e =>
          rw [enrol_of_refused (register_of_unwritten hopen hdraft hwritten)]
          exact ⟨hr, rfl⟩
        | ok d =>
          have hchecked := checked_of_written hdraft hwritten
          rw [enrol_of_registered (register_of_open hopen hchecked)]
          exact ih (hr.insert hclosed d)

theorem freeze (hr : r.Follows h) : r.freeze.Follows ⟨h.accepted, true⟩ :=
  ⟨hr.lookup, hr.distinct, rfl⟩

/-- Under a registry a text has the nodes that it has under its history. -/
theorem postfixOf (hr : r.Follows h) (source : String) :
    r.postfixOf source = h.toRegistry.postfixOf source := by
  unfold Registry.postfixOf
  cases Token.tokenize source with
  | error e => rfl
  | ok ts =>
    have hlookup : ∀ name, Token.Mentions ts name → r.lookup name = h.toRegistry.lookup name :=
      fun name _ => hr.lookup name
    have hlexemes : ts.map Token.lexeme = ts.map Token.lexeme := rfl
    rcases Postfix.ofTokens_congr hlookup hlexemes with
      ⟨nodes, hnodes, hnodes'⟩ | ⟨e, e', he, he', hsame⟩
    · have hhistory : Postfix.ofTokens h.toRegistry ts = .ok nodes := hnodes'
      simp only [hnodes, hhistory]
    · have hhistory : Postfix.ofTokens h.toRegistry ts = .error e' := he'
      simp only [he, hhistory, hsame.eq]

/-- A registry goes on following its history, and answers as its history does. -/
theorem perform (hr : r.Follows h) (step : Step) :
    (r.perform step).1.Follows (h.perform step).1 ∧ (r.perform step).2 = (h.perform step).2 := by
  cases step with
  | new => exact ⟨⟨fun _ => rfl, List.nodup_nil, rfl⟩, rfl⟩
  | register ps =>
    obtain ⟨hfollows, hrefusal⟩ := hr.enrol ps
    refine ⟨hfollows, ?_⟩
    cases hresult : (h.extend ps).2 <;>
      simp only [Registry.perform, History.perform, hrefusal, hresult]
  | freeze => exact ⟨hr.freeze, rfl⟩
  | lookup key =>
    cases key with
    | text name => exact ⟨hr, congrArg Reply.definition (hr.lookup name)⟩
    | number object _ | other object =>
      refine ⟨hr, ?_⟩
      simp only [Registry.perform, History.perform, lookupValue, Value.unusable]
      cases object.unusable <;> rfl
    | _ => exact ⟨hr, rfl⟩
  | contains key =>
    cases key with
    | text name => exact ⟨hr, congrArg (Reply.truth ∘ Option.isSome) (hr.lookup name)⟩
    | number object _ | other object =>
      refine ⟨hr, ?_⟩
      simp only [Registry.perform, History.perform, lookupValue, Value.unusable]
      cases object.unusable <;> rfl
    | _ => exact ⟨hr, rfl⟩
  | names => exact ⟨hr, congrArg Reply.names hr.names⟩
  | interpret source =>
    have hanswer : r.freeze.answer source = h.toRegistry.answer source :=
      answer_congr_of_lookup fun _ _ name _ => hr.lookup name
    refine ⟨hr.freeze, ?_⟩
    cases hresult : h.toRegistry.answer source <;>
      simp only [Registry.perform, History.perform, hanswer, hresult]
  | postfixOf source =>
    refine ⟨hr, ?_⟩
    cases hresult : h.toRegistry.postfixOf source <;>
      simp only [Registry.perform, History.perform, hr.postfixOf source, hresult]

theorem report (hr : r.Follows h) (step : Step) : r.report step = h.report step := by
  obtain ⟨hfollows, hreply⟩ := hr.perform step
  rw [Registry.report, History.report]
  dsimp only
  rw [hfollows.size, hfollows.frozen, hreply]

/-! ## Runs -/

theorem after (hr : r.Follows h) (steps : List Step) : (r.after steps).Follows (h.after steps) := by
  induction steps generalizing r h with
  | nil => exact hr
  | cons step steps ih => exact ih (hr.perform step).1

end Follows

theorem follows_empty : Follows empty .empty := ⟨fun _ => rfl, List.nodup_nil, rfl⟩

end Registry

namespace Workspace

open Registry

theorem stepsOn_append (name : String) (before later : List (String × Step)) :
    stepsOn name (before ++ later) = stepsOn name before ++ stepsOn name later := by
  induction before with
  | nil => rfl
  | cons s before ih =>
    rw [List.cons_append, stepsOn, stepsOn, ih]
    split <;> rfl

/-- In any interleaving of steps a registry follows the history of the steps on it. -/
theorem follows_get (steps : List (String × Step)) (name : String) :
    ((empty.performAll steps).1.get name).Follows (History.empty.after (stepsOn name steps)) := by
  rw [get_performAll]
  exact follows_empty.after _

theorem getElem?_reports (before : List (String × Step)) (name : String) (step : Step)
    (later : List (String × Step)) :
    (empty.performAll (before ++ (name, step) :: later)).2[before.length]? =
      some ((History.empty.after (stepsOn name before)).report step) := by
  rw [report_performAll]
  exact congrArg some ((follows_empty.after _).report step)

/-- A registry that is frozen stays as it is, as long as it is not started over. -/
theorem get_performAll_of_frozen {before later : List (String × Step)} {name : String}
    (hfrozen : ((empty.performAll before).1.get name).frozen = true)
    (hlater : Step.new ∉ stepsOn name later) :
    (empty.performAll (before ++ later)).1.get name = (empty.performAll before).1.get name := by
  rw [get_performAll] at hfrozen ⊢
  rw [get_performAll, stepsOn_append, after_append]
  refine after_of_frozen hfrozen fun step hstep hnew => ?_
  exact hlater (hnew ▸ hstep)

/-- A text that is interpreted again is reported as it was before. -/
theorem report_again (r : Registry) (source : String) {between : List Step}
    (hbetween : Step.new ∉ between) :
    (r.after (.interpret source :: between)).report (.interpret source) =
      r.report (.interpret source) := by
  have hkept : r.freeze.after between = r.freeze :=
    after_of_frozen rfl fun step hstep hnew => hbetween (hnew ▸ hstep)
  show (r.freeze.after between).report (.interpret source) = _
  rw [hkept]
  rfl

theorem getElem?_reports_again {before between later : List (String × Step)} {name source : String}
    (hbetween : Step.new ∉ stepsOn name between) {steps : List (String × Step)}
    (hsteps : steps =
      before ++ (name, .interpret source) :: between ++ (name, .interpret source) :: later) :
    (empty.performAll steps).2[before.length + between.length + 1]? =
      (empty.performAll steps).2[before.length]? := by
  have hlength : (before ++ (name, Step.interpret source) :: between).length =
      before.length + between.length + 1 := by simp [Nat.add_assoc]
  have hon : stepsOn name (before ++ (name, Step.interpret source) :: between) =
      stepsOn name before ++ .interpret source :: stepsOn name between := by
    rw [stepsOn_append, stepsOn, if_pos rfl]
  -- the second report is that of the registry that the first one left frozen
  have hsecond := report_performAll empty (before ++ (name, Step.interpret source) :: between) name
    (.interpret source) later
  have hfirst := report_performAll empty before name (.interpret source)
    (between ++ (name, .interpret source) :: later)
  rw [← hsteps, hlength, hon, after_append, report_again _ source hbetween] at hsecond
  rw [← List.cons_append, ← List.append_assoc, ← hsteps] at hfirst
  rw [hsecond, hfirst]

/-- Every step on a registry is reported as the history of that registry reports it: the
history keeps the definitions that were accepted before the registry was first frozen or
interpreted with, and a name means the last of them.  So the steps on other registries,
proposals that are refused, and texts that are interpreted or put into postfix order
change no definition; a frozen registry stays as it is unless it is started over, and
answers a text that it has answered before in the same way; the names are those that were
registered, in strict order. -/
theorem reports_follow_histories (steps : List (String × Step)) :
    (∀ before name step later, steps = before ++ (name, step) :: later →
      (empty.performAll steps).2[before.length]? =
        some ((History.empty.after (stepsOn name before)).report step)) ∧
    (∀ name, ((empty.performAll steps).1.get name).Reflects
      (History.empty.after (stepsOn name steps))) ∧
    (∀ name,
      ((empty.performAll steps).1.get name).names.Pairwise (· < ·) ∧
      ((empty.performAll steps).1.get name).size =
        ((empty.performAll steps).1.get name).names.length ∧
      ∀ key, key ∈ ((empty.performAll steps).1.get name).names ↔
        ∃ d ∈ (History.empty.after (stepsOn name steps)).accepted, d.name = key) ∧
    (∀ before later name, steps = before ++ later →
      ((empty.performAll before).1.get name).frozen = true → Step.new ∉ stepsOn name later →
      (empty.performAll steps).1.get name = (empty.performAll before).1.get name) ∧
    (∀ before between later name source,
      steps = before ++ (name, .interpret source) :: between ++ (name, .interpret source) :: later →
      Step.new ∉ stepsOn name between →
      (empty.performAll steps).2[before.length + between.length + 1]? =
        (empty.performAll steps).2[before.length]?) ∧
    (∀ (w : Workspace) name other step, other ≠ name →
      (w.perform name step).1.get other = w.get other) ∧
    ∀ r : Registry,
      (∀ p e, (r.perform (.register [p])).2 = .refused e → (r.perform (.register [p])).1 = r) ∧
      (∀ e, (r.perform (.register Standard.proposals)).2 = .refused e →
        (r.perform (.register Standard.proposals)).1 = r) ∧
      ∀ source, (r.perform (.interpret source)).1.entries = r.entries ∧
        (r.perform (.postfixOf source)).1 = r := by
  refine ⟨?_, fun name => (follows_get steps name).reflects, fun name => ?_, ?_, ?_, ?_,
    fun r => ⟨fun p e h => ?_, fun e h => ?_, fun source => ⟨rfl, rfl⟩⟩⟩
  · rintro before name step later rfl
    exact getElem?_reports before name step later
  · have hfollows := follows_get steps name
    refine ⟨hfollows.distinct.pairwise_names, (length_names _).symm, fun key => ?_⟩
    rw [hfollows.names, History.mem_names]
  · rintro before later name rfl hfrozen hlater
    exact get_performAll_of_frozen hfrozen hlater
  · intro before between later name source hsteps hbetween
    exact getElem?_reports_again hbetween hsteps
  · intro w name other step hother
    rw [get_perform, if_neg hother]
  · exact registry_of_refused h
  · exact registry_of_refused_standard h

/-- A proposal to add with something that cannot be written. -/
def nameless : Proposal :=
  .operator (.text "+") (.int 3) (some ⟨.error .integerTooLarge, fun _ => .ok .absent⟩)

/-- Steps on two registries by turns. -/
def turns : List (String × Step) :=
  [("a", .register [plus 3]), ("b", .register [plus 3, times 4]), ("a", .interpret "1 + 2"),
    ("a", .register [times 4]), ("b", .register [nameless]), ("a", .interpret "1 + 2")]

/-- After the first interpretation the first registry refuses another operator, as its
history does, and stays as it is; the second interpretation is reported as the first.  The
second registry, which is still open, refuses what cannot be written, and keeps its two
operators. -/
theorem reports_turns :
    (empty.performAll turns).2[3]? =
      some ((History.empty.after [.register [plus 3], .interpret "1 + 2"]).report
        (.register [times 4])) ∧
    (empty.performAll turns).2[3]? =
      some ⟨.refused (.check (.frozen "*") "Cannot register '*': builtins are frozen"), 1, true⟩ ∧
    (empty.performAll turns).1.get "a" = (empty.performAll (turns.take 3)).1.get "a" ∧
    (empty.performAll turns).2[5]? = (empty.performAll turns).2[2]? ∧
    (empty.performAll turns).2[4]? =
      some ((History.empty.after [.register [plus 3, times 4]]).report (.register [nameless])) ∧
    (empty.performAll turns).2[4]? = some ⟨.refused (.raised .integerTooLarge), 2, false⟩ := by
  obtain ⟨hreport, -, -, hfrozen, hagain, -⟩ := reports_follow_histories turns
  refine ⟨hreport (turns.take 3) "a" (.register [times 4]) (turns.drop 4) rfl, rfl,
    hfrozen (turns.take 3) (turns.drop 3) "a" rfl rfl ?_,
    hagain (turns.take 2) [turns[3], turns[4]] [] "a" "1 + 2" rfl ?_,
    hreport (turns.take 4) "b" (.register [nameless]) (turns.drop 5) rfl, rfl⟩
  · simp [turns, stepsOn]
  · simp [turns, stepsOn]

end Workspace

end Reckoner
