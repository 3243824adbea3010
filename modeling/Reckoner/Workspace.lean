import Reckoner.Interpreter
import Reckoner.Registry.Proposal

set_option autoImplicit false

/-!
# Workspaces

A workspace holds registries by name.  Every step is addressed to one of them and
leaves the others alone; its report tells what the step answers, and how many
names the registry defines and whether it is frozen afterwards.  An interpreter
freezes the registry that it works with; putting a text into postfix order does
not.
-/

namespace Reckoner

/-- Registries by name, in the order in which the names came up. -/
structure Workspace where
  registries : List (String × Registry)

/-- A step on one registry. -/
inductive Step where
  /-- starts over with an empty registry -/
  | new
  | register (proposals : List Proposal)
  | freeze
  | lookup (key : Value)
  | contains (key : Value)
  | names
  | interpret (source : String)
  | postfixOf (source : String)

/-- What a step answers. -/
inductive Reply where
  | nothing
  /-- the registry itself -/
  | registry
  | refused (reason : Refusal)
  | definition (d : Option Definition)
  | truth (b : Bool)
  | names (ns : List String)
  | answer (a : Answer)
  | nodes (ns : List Node)
  | failure (f : Failure)
  | raised (e : Exception)

/-- A step's answer, and the state of its registry afterwards. -/
structure Report where
  reply : Reply
  size : Nat
  frozen : Bool

namespace Registry

/-- The definition under a key.  Only a text has one, and not every value can be a key. -/
def lookupValue (r : Registry) (key : Value) : Except Exception (Option Definition) :=
  match key.unusable with
  | some e => .error e
  | none => match key with
    | .text name => .ok (r.lookup name)
    | _ => .ok none

/-- A text in postfix order. -/
def postfixOf (r : Registry) (source : String) : Except Failure (List Node) :=
  match Token.tokenize source with
  | .error e => .error (.lexical e)
  | .ok ts => match Postfix.ofTokens r ts with
    | .error e => .error (.structural e)
    | .ok nodes => .ok nodes

/-- Takes a step on a registry. -/
def perform (r : Registry) : Step → Registry × Reply
  | .new => (empty, .nothing)
  | .register proposals =>
    let enrolment := r.enrol proposals
    (enrolment.registry, match enrolment.refusal with
      | none => .registry
      | some reason => .refused reason)
  | .freeze => (r.freeze, .registry)
  | .lookup key => (r, match r.lookupValue key with
    | .ok d => .definition d
    | .error e => .raised e)
  | .contains key => (r, match r.lookupValue key with
    | .ok d => .truth d.isSome
    | .error e => .raised e)
  | .names => (r, .names r.names)
  | .interpret source => (r.freeze, match r.freeze.answer source with
    | .ok a => .answer a
    | .error e => .raised e)
  | .postfixOf source => (r, match r.postfixOf source with
    | .ok nodes => .nodes nodes
    | .error f => .failure f)

/-- The report of a step. -/
def report (r : Registry) (step : Step) : Report :=
  let (registry, reply) := r.perform step
  ⟨reply, registry.size, registry.frozen⟩

/-- The registry after steps. -/
def after (r : Registry) (steps : List Step) : Registry :=
  steps.foldl (fun r step => (r.perform step).1) r

end Registry

namespace Workspace

/-- No registries. -/
def empty : Workspace := ⟨[]⟩

/-- The registry of a name; an empty one if the name is new. -/
def get (w : Workspace) (name : String) : Registry := (w.registries.lookup name).getD .empty

/-- Puts a registry in place of the one with its name, or at the end. -/
def putEntry (name : String) (r : Registry) : List (String × Registry) → List (String × Registry)
  | [] => [(name, r)]
  | (n, old) :: rest =>
    if n = name then (n, r) :: rest else (n, old) :: putEntry name r rest

/-- The workspace with a registry under a name. -/
def set (w : Workspace) (name : String) (r : Registry) : Workspace :=
  ⟨putEntry name r w.registries⟩

/-- Takes a step on the registry of a name. -/
def perform (w : Workspace) (name : String) (step : Step) : Workspace × Report :=
  let (registry, reply) := (w.get name).perform step
  (w.set name registry, ⟨reply, registry.size, registry.frozen⟩)

/-- Takes steps in order. -/
def performAll (w : Workspace) : List (String × Step) → Workspace × List Report
  | [] => (w, [])
  | (name, step) :: rest =>
    let (w', report) := w.perform name step
    let (w'', reports) := performAll w' rest
    (w'', report :: reports)

/-- The steps that are addressed to one registry. -/
def stepsOn (name : String) : List (String × Step) → List Step
  | [] => []
  | (other, step) :: rest => if other = name then step :: stepsOn name rest else stepsOn name rest

end Workspace

/-- A registry that steps lead to. -/
def Registry.Reachable (r : Registry) : Prop :=
  ∃ (steps : List (String × Step)) (name : String),
    (Workspace.empty.performAll steps).1.get name = r

/-! ## Small laws -/

namespace Workspace

theorem lookup_putEntry (name other : String) (r : Registry) (es : List (String × Registry)) :
    (putEntry name r es).lookup other = if other = name then some r else es.lookup other := by
  induction es with
  | nil =>
    by_cases h : other = name
    · simp [putEntry, h]
    · have : (other == name) = false := by simpa using h
      simp [putEntry, List.lookup_cons, h, this]
  | cons e es ih =>
    obtain ⟨n, old⟩ := e
    by_cases hn : n = name
    · by_cases h : other = name
      · simp [putEntry, hn, h]
      · have : (other == name) = false := by simpa using h
        simp [putEntry, List.lookup_cons, hn, h, this]
    · by_cases h : other = n
      · have : ¬ n = name := hn
        simp [putEntry, h, this]
      · have : (other == n) = false := by simpa using h
        simp [putEntry, List.lookup_cons, hn, this, ih]

/-- A registry that is set is the one found, and every other one stays. -/
theorem get_set (w : Workspace) (name other : String) (r : Registry) :
    (w.set name r).get other = if other = name then r else w.get other := by
  unfold get set
  rw [lookup_putEntry]
  by_cases h : other = name <;> simp [h]

/-- A step concerns the registry that it is addressed to, and no other one. -/
theorem get_perform (w : Workspace) (name other : String) (step : Step) :
    (w.perform name step).1.get other =
      if other = name then ((w.get name).perform step).1 else w.get other :=
  get_set w name other _

theorem performAll_cons (w : Workspace) (name : String) (step : Step)
    (rest : List (String × Step)) :
    w.performAll ((name, step) :: rest) =
      (((w.perform name step).1.performAll rest).1,
        (w.get name).report step :: ((w.perform name step).1.performAll rest).2) := rfl

/-- What becomes of a registry depends on the steps that are addressed to it only. -/
theorem get_performAll (w : Workspace) (name : String) (steps : List (String × Step)) :
    (w.performAll steps).1.get name = (w.get name).after (stepsOn name steps) := by
  induction steps generalizing w with
  | nil => rfl
  | cons s steps ih =>
    obtain ⟨other, step⟩ := s
    rw [performAll_cons, stepsOn]
    dsimp only
    rw [ih, get_perform]
    by_cases h : other = name
    · subst h
      rw [if_pos rfl, if_pos rfl]
      rfl
    · rw [if_neg h, if_neg fun hname => h hname.symm]

/-- A step is reported as if the steps on its own registry were the only ones before it. -/
theorem report_performAll (w : Workspace) (before : List (String × Step)) (name : String)
    (step : Step) (later : List (String × Step)) :
    (w.performAll (before ++ (name, step) :: later)).2[before.length]? =
      some (((w.get name).after (stepsOn name before)).report step) := by
  induction before generalizing w with
  | nil => rfl
  | cons s before ih =>
    obtain ⟨other, first⟩ := s
    rw [List.cons_append, performAll_cons, List.length_cons, List.getElem?_cons_succ, ih, stepsOn,
      get_perform]
    by_cases h : other = name
    · subst h
      rw [if_pos rfl, if_pos rfl]
      rfl
    · rw [if_neg h, if_neg fun hname => h hname.symm]

end Workspace

end Reckoner
