import Reckoner.Workspace

set_option autoImplicit false

/-!
# Histories of registrations

A registry seen from the outside: the registrations that it has accepted, latest
first, and whether it was ever closed.  What a name means is decided by the last
registration of that name.  A history keeps every registration it was given and
replaces none.
-/

namespace Reckoner

/-- The registrations accepted so far, latest first. -/
structure History where
  accepted : List Definition
  closed : Bool

namespace History

/-- No registrations. -/
def empty : History := ⟨[], false⟩

/-- The last registration of a name. -/
def meaning (h : History) (name : String) : Option Definition :=
  h.accepted.find? fun d => d.name == name

/-- The names registered, each once, ordered by code points. -/
def names (h : History) : List String :=
  ((h.accepted.map Definition.name).eraseDups).mergeSort fun a b => decide (a ≤ b)

/-- The number of names registered. -/
def size (h : History) : Nat := h.names.length

/-- The registry in which every name has the meaning that it has in the history. -/
def toRegistry (h : History) : Registry := ⟨h.accepted, h.closed⟩

/-- Adds proposals up to the first that is refused. -/
def extend (h : History) : List Proposal → History × Option Refusal
  | [] => (h, none)
  | p :: ps => match p.draft with
    | .error e => (h, some e.refusal)
    | .ok draft =>
      if h.closed then (h, some (RegistrationError.frozen draft.name).refusal)
      else match draft.written with
        | .error e => (h, some (.raised e))
        | .ok d => extend ⟨d :: h.accepted, false⟩ ps

/-- Takes a step on a history. -/
def perform (h : History) : Step → History × Reply
  | .new => (empty, .nothing)
  | .register proposals =>
    let (h', refusal) := h.extend proposals
    (h', match refusal with
      | none => .registry
      | some reason => .refused reason)
  | .freeze => (⟨h.accepted, true⟩, .registry)
  | .lookup (.text name) => (h, .definition (h.meaning name))
  | .lookup key => (h, match key.unusable with
    | none => .definition none
    | some e => .raised e)
  | .contains (.text name) => (h, .truth (h.meaning name).isSome)
  | .contains key => (h, match key.unusable with
    | none => .truth false
    | some e => .raised e)
  | .names => (h, .names h.names)
  | .interpret source => (⟨h.accepted, true⟩, match h.toRegistry.answer source with
    | .ok a => .answer a
    | .error e => .raised e)
  | .postfixOf source => (h, match h.toRegistry.postfixOf source with
    | .ok nodes => .nodes nodes
    | .error f => .failure f)

/-- The report of a step. -/
def report (h : History) (step : Step) : Report :=
  let (h', reply) := h.perform step
  ⟨reply, h'.size, h'.closed⟩

/-- The history after steps. -/
def after (h : History) (steps : List Step) : History :=
  steps.foldl (fun h step => (h.perform step).1) h

end History

/-- The registry of a history: it means the same by every name, defines as many
names, and is frozen if the history is closed. -/
structure Registry.Reflects (r : Registry) (h : History) : Prop where
  lookup : ∀ name, r.lookup name = h.meaning name
  names : r.names = h.names
  frozen : r.frozen = h.closed

end Reckoner
