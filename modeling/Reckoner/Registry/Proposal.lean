import Reckoner.Registry.Basic
import Reckoner.Token.Lexer

set_option autoImplicit false

/-!
# Proposals and their verdicts

A host proposes definitions in its own values, so every part of a proposal may be
of the wrong kind.  A proposal is checked in a fixed order, and the first check
that fails is the verdict:

* an operator: its callback, its precedence, its symbol;
* a function: its arity, its callback, its name;
* then, for both, whether the registry is frozen.

A proposal that passes all checks is written for the log before it is registered.  Writing
asks the host's code, here as in the text of a check that fails, and what this raises
goes on instead.  A definition is made only if nothing goes wrong, so a refused proposal
changes nothing.
-/

namespace Reckoner

/-- A function of the host as it is proposed: it is not written yet. -/
structure Callable where
  form : Except Exception String
  run : List Float → Except Exception Value

/-- A callback as it is proposed. -/
def Callback.callable (c : Callback) : Callable := ⟨.ok c.form, c.run⟩

theorem Callback.eq_of_callable_eq {c c' : Callback} (h : c.callable = c'.callable) : c = c' := by
  obtain ⟨hform, hrun⟩ := Callable.mk.inj h
  cases c
  cases hrun
  cases hform
  rfl

/-- A definition as the host proposes it; no callable stands for something that
cannot be called. -/
inductive Proposal where
  | operator (symbol precedence : Value) (callable : Option Callable)
  | function (name arity : Value) (callable : Option Callable)

/-- Which check a proposal fails. -/
inductive RegistrationError where
  | operatorNotCallable (symbol : Value)
  | precedenceNotInteger (symbol precedence : Value)
  | precedenceNotPositive (symbol : Value) (precedence : Int)
  | symbolNotText (symbol : Value)
  | symbolCharacter (c : Char) (symbol : String)
  | arityNotInteger (name arity : Value)
  | arityNegative (name : Value) (arity : Int)
  | functionNotCallable (name : Value)
  | nameNotText (name : Value)
  | nameCharacter (c : Char) (name : String)
  | frozen (name : String)

/-- What a failed check is about. -/
inductive RegistrationError.Kind where
  /-- a part of the proposal is not the kind of value that it has to be -/
  | wrongType
  /-- a part of the proposal is outside the values that it may have -/
  | wrongValue
  /-- the registry takes no definitions any more -/
  | closed
  deriving DecidableEq, Repr

/-- Why a proposal is refused. -/
inductive Refusal where
  /-- it fails a check, and this is the text that explains it -/
  | check (e : RegistrationError) (text : String)
  /-- an exception is raised while it is written -/
  | raised (e : Exception)

namespace RegistrationError

/-- What a failed check is about. -/
def kind : RegistrationError → Kind
  | operatorNotCallable _ | precedenceNotInteger _ _ => .wrongType
  | precedenceNotPositive _ _ | symbolNotText _ | symbolCharacter _ _ => .wrongValue
  | arityNotInteger _ _ | functionNotCallable _ => .wrongType
  | arityNegative _ _ | nameNotText _ | nameCharacter _ _ => .wrongValue
  | frozen _ => .closed

/-- A text that quotes what may fail to be written. -/
def quoting (before : String) (form : Except Exception String) (after : String) :
    Except Exception String :=
  form.map fun f => before ++ f ++ after

/-- A text that quotes two such things; the first one is written first. -/
def quotingBoth (before : String) (form : Except Exception String) (between : String)
    (form' : Except Exception String) : Except Exception String :=
  match form with
  | .error e => .error e
  | .ok f => form'.map fun f' => before ++ f ++ between ++ f'

/-- The text that explains a failed check. -/
def message : RegistrationError → Except Exception String
  | operatorNotCallable symbol =>
    quoting "Implementation of operator '" symbol.plain "' is not callable"
  | precedenceNotInteger symbol precedence =>
    quotingBoth "Precedence of '" symbol.plain "' must be an integer, got " precedence.shown
  | precedenceNotPositive symbol precedence =>
    quotingBoth "Precedence of '" symbol.plain "' must be positive, got "
      (Number.written precedence)
  | symbolNotText symbol =>
    quoting "Operator symbol must be a non-empty string, got " symbol.shown ""
  | symbolCharacter c symbol =>
    .ok ("Symbol '" ++ String.singleton c ++ "' is forbidden for operator '" ++ symbol ++
      "': only " ++ String.ofList operatorChars ++ " are allowed")
  | arityNotInteger name arity =>
    quotingBoth "Arity of '" name.plain "' must be an integer, got " arity.shown
  | arityNegative name arity =>
    quotingBoth "Arity of '" name.plain "' must be non-negative, got " (Number.written arity)
  | functionNotCallable name =>
    quoting "Implementation of function '" name.plain "' is not callable"
  | nameNotText name =>
    quoting "Function name must be a non-empty string, got " name.shown ""
  | nameCharacter c name =>
    .ok ("Symbol '" ++ String.singleton c ++ "' is forbidden for function name '" ++ name ++ "'")
  | frozen name =>
    .ok ("Cannot register '" ++ name ++ "': builtins are frozen")

/-- The refusal that a failed check leads to. -/
def refusal (e : RegistrationError) : Refusal :=
  match e.message with
  | .ok text => .check e text
  | .error e' => .raised e'

end RegistrationError

/-- A definition that has passed its checks and is not written yet. -/
inductive Draft where
  | operator (symbol : String) (precedence : Nat) (callable : Callable)
  | function (name : String) (arity : Nat) (callable : Callable)

namespace Draft

/-- The symbol or name that is to be defined. -/
def name : Draft → String
  | .operator symbol _ _ => symbol
  | .function name _ _ => name

/-- The precedence of an operator, or the arity of a function. -/
def number : Draft → Nat
  | .operator _ precedence _ => precedence
  | .function _ arity _ => arity

/-- What is to be called. -/
def callable : Draft → Callable
  | .operator _ _ c | .function _ _ c => c

/-- The definition with its callback written. -/
def withForm (form : String) : Draft → Definition
  | .operator symbol precedence c => .operator ⟨symbol, precedence, ⟨form, c.run⟩⟩
  | .function name arity c => .function ⟨name, arity, ⟨form, c.run⟩⟩

/-- The definition, if it can be written: first its number, then its callback. -/
def written (d : Draft) : Except Exception Definition :=
  match Number.written d.number with
  | .error e => .error e
  | .ok _ => d.callable.form.map d.withForm

end Draft

namespace Proposal

/-- A symbol: a text that is not empty and holds operator characters only. -/
def checkedSymbol (symbol : Value) : Except RegistrationError String :=
  match symbol with
  | .text s =>
    if s.isEmpty then .error (.symbolNotText symbol)
    else match s.toList.find? fun c => !isOperatorChar c with
      | some c => .error (.symbolCharacter c s)
      | none => .ok s
  | _ => .error (.symbolNotText symbol)

/-- A name: a text that is not empty and holds letters only. -/
def checkedName (name : Value) : Except RegistrationError String :=
  match name with
  | .text s =>
    if s.isEmpty then .error (.nameNotText name)
    else match s.toList.find? fun c => !c.isAlpha with
      | some c => .error (.nameCharacter c s)
      | none => .ok s
  | _ => .error (.nameNotText name)

/-- The operator of a proposal that passes its checks. -/
def checkedOperator (symbol precedence : Value) (callable : Option Callable) :
    Except RegistrationError Draft :=
  match callable with
  | none => .error (.operatorNotCallable symbol)
  | some c => match precedence with
    | .int p =>
      if p ≤ 0 then .error (.precedenceNotPositive symbol p)
      else (checkedSymbol symbol).map fun s => .operator s p.toNat c
    | _ => .error (.precedenceNotInteger symbol precedence)

/-- The function of a proposal that passes its checks. -/
def checkedFunction (name arity : Value) (callable : Option Callable) :
    Except RegistrationError Draft :=
  match arity with
  | .int n =>
    if n < 0 then .error (.arityNegative name n)
    else match callable with
      | none => .error (.functionNotCallable name)
      | some c => (checkedName name).map fun s => .function s n.toNat c
  | _ => .error (.arityNotInteger name arity)

/-- What a proposal that passes its checks is going to define. -/
def draft : Proposal → Except RegistrationError Draft
  | .operator symbol precedence callable => checkedOperator symbol precedence callable
  | .function name arity callable => checkedFunction name arity callable

/-- The definition of a proposal that passes its checks and can be written. -/
def checked (p : Proposal) : Except Refusal Definition :=
  match p.draft with
  | .error e => .error e.refusal
  | .ok d => match d.written with
    | .error e => .error (.raised e)
    | .ok d => .ok d

/-- Proposals that are not about one name. -/
def Apart (p q : Proposal) : Prop :=
  ∀ d e, p.checked = .ok d → q.checked = .ok e → d.name ≠ e.name

theorem Apart.symm {p q : Proposal} (h : Apart p q) : Apart q p :=
  fun d e hd he heq => h e d he hd heq.symm

/-- What is made of the result of a check was made of a check that was passed. -/
theorem exists_of_map_eq_ok {α β ε : Type} {x : Except ε α} {f : α → β} {b : β}
    (h : x.map f = .ok b) : ∃ a, x = .ok a ∧ f a = b := by
  cases x with
  | error e => cases h
  | ok a => exact ⟨a, rfl, Except.ok.inj h⟩

/-- The check of a text passes it if it is not empty and holds characters of one kind only. -/
theorem checkedText_eq_ok_iff {admits : Char → Bool} {empty : RegistrationError}
    {character : Char → RegistrationError} {s t : String} :
    (if t.isEmpty = true then .error empty
      else match t.toList.find? fun c => !admits c with
        | some c => .error (character c)
        | none => .ok t) = (.ok s : Except RegistrationError String) ↔
      t = s ∧ s.toList ≠ [] ∧ ∀ c ∈ s.toList, admits c = true := by
  by_cases hempty : t.isEmpty = true
  · rw [if_pos hempty]
    refine ⟨fun h => (nomatch h), ?_⟩
    rintro ⟨rfl, hfilled, -⟩
    exact absurd (by simpa using hempty) hfilled
  · have hfilled : t.toList ≠ [] := by simpa using hempty
    rw [if_neg hempty]
    cases hfind : t.toList.find? fun c => !admits c with
    | some c =>
      have hc : admits c = false := by simpa using List.find?_some hfind
      refine ⟨fun h => (nomatch h), ?_⟩
      rintro ⟨rfl, -, hall⟩
      rw [hall c (List.mem_of_find?_eq_some hfind)] at hc
      cases hc
    | none =>
      have hall : ∀ c ∈ t.toList, admits c = true := by simpa using hfind
      constructor
      · rintro ⟨⟩
        exact ⟨rfl, hfilled, hall⟩
      · rintro ⟨rfl, -⟩
        rfl

/-- A symbol passes its check if it is a text of operator characters. -/
theorem checkedSymbol_eq_ok_iff {symbol : Value} {s : String} :
    checkedSymbol symbol = .ok s ↔
      symbol = .text s ∧ s.toList ≠ [] ∧ ∀ c ∈ s.toList, isOperatorChar c = true := by
  cases symbol with
  | text t => rw [Value.text.injEq]; exact checkedText_eq_ok_iff
  | _ => simp [checkedSymbol]

/-- A name passes its check if it is a text of letters. -/
theorem checkedName_eq_ok_iff {name : Value} {s : String} :
    checkedName name = .ok s ↔
      name = .text s ∧ s.toList ≠ [] ∧ ∀ c ∈ s.toList, c.isAlpha = true := by
  cases name with
  | text t => rw [Value.text.injEq]; exact checkedText_eq_ok_iff
  | _ => simp [checkedName]

/-- An operator passes its checks with the symbol, precedence and callable proposed. -/
theorem checkedOperator_eq_ok_iff {symbol precedence : Value} {callable : Option Callable}
    {d : Draft} :
    checkedOperator symbol precedence callable = .ok d ↔
      ∃ s p c, d = .operator s p c ∧ checkedSymbol symbol = .ok s ∧ precedence = .int p ∧ 0 < p ∧
        callable = some c := by
  constructor
  · intro h
    unfold checkedOperator at h
    split at h
    · cases h
    · next c =>
      split at h
      · next p =>
        split at h
        · cases h
        · next hpositive =>
          obtain ⟨s, hs, rfl⟩ := exists_of_map_eq_ok h
          refine ⟨s, p.toNat, c, rfl, hs, ?_, Int.lt_toNat.mpr (by omega), rfl⟩
          rw [Int.toNat_of_nonneg (by omega)]
      · cases h
  · rintro ⟨s, p, c, rfl, hsymbol, rfl, hpositive, rfl⟩
    have hnot : ¬ (p : Int) ≤ 0 := by omega
    simp only [checkedOperator, if_neg hnot, hsymbol]
    rfl

/-- A function passes its checks with the name, arity and callable proposed. -/
theorem checkedFunction_eq_ok_iff {name arity : Value} {callable : Option Callable} {d : Draft} :
    checkedFunction name arity callable = .ok d ↔
      ∃ s n c, d = .function s n c ∧ checkedName name = .ok s ∧ arity = .int (n : Nat) ∧
        callable = some c := by
  constructor
  · intro h
    unfold checkedFunction at h
    split at h
    · next n =>
      split at h
      · cases h
      · split at h
        · cases h
        · next c =>
          obtain ⟨s, hs, rfl⟩ := exists_of_map_eq_ok h
          refine ⟨s, n.toNat, c, rfl, hs, ?_, rfl⟩
          rw [Int.toNat_of_nonneg (by omega)]
    · cases h
  · rintro ⟨s, n, c, rfl, hname, rfl, rfl⟩
    have hnot : ¬ (n : Int) < 0 := by omega
    simp only [checkedFunction, if_neg hnot, hname]
    rfl

end Proposal

/-- A registration that was made: the definition, and the one it replaced. -/
structure Registration where
  definition : Definition
  replaced : Option Definition

namespace Registry

/-- Registers a proposal, if it passes its checks, the registry is open and the definition
can be written. -/
def register (r : Registry) (p : Proposal) : Except Refusal (Registry × Registration) :=
  match p.draft with
  | .error e => .error e.refusal
  | .ok draft =>
    if r.frozen then .error (RegistrationError.frozen draft.name).refusal
    else match draft.written with
      | .error e => .error (.raised e)
      | .ok d => .ok (r.insert d, ⟨d, r.lookup d.name⟩)

/-- What came of a series of proposals. -/
structure Enrolment where
  /-- the registry afterwards -/
  registry : Registry
  /-- the registrations made, in order -/
  made : List Registration
  /-- why the series ended early, if it did -/
  refusal : Option Refusal

/-- Registers a series of proposals, up to the first that is refused. -/
def enrol (r : Registry) : List Proposal → Enrolment
  | [] => ⟨r, [], none⟩
  | p :: ps => match r.register p with
    | .error e => ⟨r, [], some e⟩
    | .ok (r', made) =>
      let rest := enrol r' ps
      ⟨rest.registry, made :: rest.made, rest.refusal⟩

/-- A registration is made if the proposal passes its checks and can be written and the
registry is open; it inserts the definition. -/
theorem register_eq_ok_iff {r r' : Registry} {p : Proposal} {made : Registration} :
    r.register p = .ok (r', made) ↔
      p.checked = .ok made.definition ∧ r.frozen = false ∧ r' = r.insert made.definition ∧
        made.replaced = r.lookup made.definition.name := by
  obtain ⟨definition, replaced⟩ := made
  unfold register Proposal.checked
  cases p.draft with
  | error e => simp
  | ok draft =>
    cases hfrozen : r.frozen with
    | true => simp
    | false =>
      dsimp only
      cases draft.written with
      | error e => simp
      | ok d =>
        simp only [Bool.false_eq_true, if_false, Except.ok.injEq, Prod.mk.injEq,
          Registration.mk.injEq, true_and]
        constructor
        · rintro ⟨rfl, rfl, rfl⟩
          exact ⟨rfl, rfl, rfl⟩
        · rintro ⟨rfl, rfl, rfl⟩
          exact ⟨rfl, rfl, rfl⟩

theorem mem_of_register {r r' : Registry} {p : Proposal} {made : Registration} {d : Definition}
    (h : r.register p = .ok (r', made)) (hd : d ∈ r'.entries) :
    d ∈ r.entries ∨ p.checked = .ok d := by
  obtain ⟨hchecked, -, rfl, -⟩ := register_eq_ok_iff.mp h
  rcases mem_put hd with rfl | hold
  · exact .inr hchecked
  · exact .inl hold

/-- A definition was there before, or it is what one of the proposals proposed. -/
theorem mem_of_enrol {r : Registry} {ps : List Proposal} {d : Definition}
    (h : d ∈ (r.enrol ps).registry.entries) : d ∈ r.entries ∨ ∃ p ∈ ps, p.checked = .ok d := by
  induction ps generalizing r with
  | nil => exact .inl h
  | cons p ps ih =>
    unfold enrol at h
    split at h
    · exact .inl h
    · next hregister =>
      rcases ih h with hregistered | ⟨q, hq, hchecked⟩
      · rcases mem_of_register hregister hregistered with hold | hchecked
        · exact .inl hold
        · exact .inr ⟨p, List.mem_cons_self, hchecked⟩
      · exact .inr ⟨q, List.mem_cons_of_mem _ hq, hchecked⟩

end Registry

end Reckoner
