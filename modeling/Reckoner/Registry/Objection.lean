import Reckoner.Trace

set_option autoImplicit false

/-!
# Objections to proposals

What can be held against a proposal, each objection by itself: a part of the proposal that
is not what it has to be, or a registry that is closed.  Several objections may hold at
once.  They are raised in turn, operators and functions having turns of their own, and
the first one decides.  Apart from objections, a proposal may turn out not to be written.
Nothing here refers to how a proposal is checked.
-/

namespace Reckoner

/-- The first character of a text that is not among those admitted. -/
def FirstOutside (admits : Char → Bool) (s : String) (c : Char) : Prop :=
  ∃ before after, s.toList = before ++ c :: after ∧ (∀ b ∈ before, admits b = true) ∧
    admits c = false

/-- An objection to a proposal: its turn, its kind, and the check that it is raised in. -/
inductive Objection (r : Registry) :
    Proposal → Nat → RegistrationError.Kind → RegistrationError → Prop
  | operatorCallback {symbol precedence : Value} :
      Objection r (.operator symbol precedence none) 0 .wrongType (.operatorNotCallable symbol)
  | precedenceType {symbol precedence : Value} {callable : Option Callable} :
      (∀ n, precedence ≠ .int n) →
      Objection r (.operator symbol precedence callable) 1 .wrongType
        (.precedenceNotInteger symbol precedence)
  | precedenceRange {symbol : Value} {n : Int} {callable : Option Callable} :
      n ≤ 0 →
      Objection r (.operator symbol (.int n) callable) 2 .wrongValue
        (.precedenceNotPositive symbol n)
  | symbolText {symbol precedence : Value} {callable : Option Callable} :
      (∀ s, s ≠ "" → symbol ≠ .text s) →
      Objection r (.operator symbol precedence callable) 3 .wrongValue (.symbolNotText symbol)
  | symbolCharacter {s : String} {c : Char} {precedence : Value} {callable : Option Callable} :
      FirstOutside isOperatorChar s c →
      Objection r (.operator (.text s) precedence callable) 4 .wrongValue (.symbolCharacter c s)
  | operatorClosed {s : String} {precedence : Value} {callable : Option Callable} :
      r.frozen = true →
      Objection r (.operator (.text s) precedence callable) 5 .closed (.frozen s)
  | arityType {name arity : Value} {callable : Option Callable} :
      (∀ n, arity ≠ .int n) →
      Objection r (.function name arity callable) 0 .wrongType (.arityNotInteger name arity)
  | arityRange {name : Value} {n : Int} {callable : Option Callable} :
      n < 0 →
      Objection r (.function name (.int n) callable) 1 .wrongValue (.arityNegative name n)
  | functionCallback {name arity : Value} :
      Objection r (.function name arity none) 2 .wrongType (.functionNotCallable name)
  | nameText {name arity : Value} {callable : Option Callable} :
      (∀ s, s ≠ "" → name ≠ .text s) →
      Objection r (.function name arity callable) 3 .wrongValue (.nameNotText name)
  | nameCharacter {s : String} {c : Char} {arity : Value} {callable : Option Callable} :
      FirstOutside Char.isAlpha s c →
      Objection r (.function (.text s) arity callable) 4 .wrongValue (.nameCharacter c s)
  | functionClosed {s : String} {arity : Value} {callable : Option Callable} :
      r.frozen = true →
      Objection r (.function (.text s) arity callable) 5 .closed (.frozen s)

/-- The objection that is raised: none has an earlier turn. -/
def FirstObjection (r : Registry) (p : Proposal) (kind : RegistrationError.Kind)
    (e : RegistrationError) : Prop :=
  ∃ turn, Objection r p turn kind e ∧
    ∀ turn' kind' e', Objection r p turn' kind' e' → turn ≤ turn'

namespace Proposal

end Proposal

namespace Log

end Log

namespace Registry

/-- The lines that a series of registrations leaves in the log. -/
def Enrolment.lines (e : Enrolment) : List Log.Line :=
  e.made.map fun m => (Log.Record.registration m).line

/-- A proposal leaves nothing in a registry and nothing in the log. -/
structure Refuses (r : Registry) (reason : Refusal) (e : Enrolment) : Prop where
  refused : e.refusal = some reason
  registry : e.registry = r
  logged : e.lines = []

end Registry

end Reckoner
