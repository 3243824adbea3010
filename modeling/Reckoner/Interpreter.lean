import Reckoner.Log
import Reckoner.Postfix.Alignment
import Reckoner.Token.Lexer

set_option autoImplicit false

/-!
# Interpretation

A text is interpreted under a registry in three stages: it is cut into tokens,
the tokens are put into postfix order, the postfix nodes are evaluated.  The
first stage that fails decides the outcome.  An interpretation consists of its
outcome and of the records that were logged on the way; it keeps no state, so
interpreting a text again gives the same.

A failure is answered with its message.  An exception of the host's code has its text
asked for twice: where it leaves its stage, for the log, and again for the answer if it
is a failure of the expression.  Another exception that is raised by this goes on in its
place.
-/

namespace Reckoner

/-- What became of an expression: its value, or why it has none. -/
inductive Answer where
  | value (x : Float)
  | error (message : String)
  deriving DecidableEq

/-- The course and the outcome of interpreting one text. -/
structure Interpretation where
  records : List Log.Record
  outcome : Except Halt Float

namespace Interpretation

/-- The record of how a stage ended, if it did not end well and this can be written. -/
def closing (stage : Log.Stage) : Except Halt Float → List Log.Record
  | .ok _ => []
  | .error (.failure f) => [.failure f stage]
  | .error (.raised (.worded cls text)) => [.raised cls text stage]
  | .error (.raised (.wordless _ _)) => []

/-- An interpretation that ends in a failure. -/
def failed (records : List Log.Record) (stage : Log.Stage) (f : Failure) : Interpretation :=
  ⟨records ++ [.failure f stage], .error (.failure f)⟩

/-- The answer to the expression, unless an exception goes on. -/
def answer (i : Interpretation) : Except Exception Answer :=
  match i.outcome with
  | .ok x => .ok (.value x)
  | .error (.failure f) => .ok (.error f.message)
  | .error (.raised e) => e.told.answered.map .error

end Interpretation

namespace Registry

/-- Interprets a text. -/
def interpret (r : Registry) (source : String) : Interpretation :=
  let started : List Log.Record := [.expression source]
  match Token.tokenize source with
  | .error e => .failed started .tokens (.lexical e)
  | .ok ts =>
    let cut := started ++ [.tokens ts]
    match Postfix.ofTokens r ts with
    | .error e => .failed cut .order (.structural e)
    | .ok nodes =>
      let run := Postfix.run [] nodes
      ⟨cut ++ [.nodes nodes] ++ run.invocations.map .invocation ++
        Interpretation.closing .evaluation run.outcome, run.outcome⟩

/-- The value of tokens. -/
def valueOf (r : Registry) (ts : List Token) : Except Halt Float :=
  match Postfix.ofTokens r ts with
  | .error e => .error (.failure (.structural e))
  | .ok nodes => Postfix.evaluate nodes

/-- The outcome of interpreting a text is the value of its tokens. -/
theorem outcome_interpret {r : Registry} {source : String} {ts : List Token}
    (h : Token.tokenize source = .ok ts) : (r.interpret source).outcome = r.valueOf ts := by
  simp only [interpret, valueOf, h]
  cases Postfix.ofTokens r ts <;> rfl

/-- The answer to a text. -/
def answer (r : Registry) (source : String) : Except Exception Answer :=
  (r.interpret source).answer

end Registry

end Reckoner
