import Reckoner.Interpreter
import Reckoner.Postfix.Course

set_option autoImplicit false

/-!
# Traces

What an interpretation leaves in the log, line by line, said without running it: the
text; its tokens and its nodes, as far as there are any; the calls that a run of the
nodes gets to; and, unless the text has a value, how it failed to have one, if this can be
written.
-/

namespace Reckoner

namespace Postfix

/-- The call that a run makes for one of its nodes, which is number `place` among those
that are calls: the run passes everything before the node and finds the operands of the
call on top of the stack, and hands them over in the order in which they were put there. -/
def CallAt (start : List Float) (nodes : List Node) (place : Nat) (i : Invocation) : Prop :=
  ∃ before after stack, nodes = before ++ .call i.definition :: after ∧
    (calls before).length = place ∧ Passes start before stack ∧
    i.definition.arity ≤ stack.length ∧ i.operands = (stack.take i.definition.arity).reverse

/-- The calls that a run of nodes makes, in order. -/
def Makes (nodes : List Node) (made : List Invocation) : Prop :=
  ∀ place i, made[place]? = some i ↔ CallAt [] nodes place i

end Postfix

namespace Definition

end Definition

namespace Log

/-- A line of the log. -/
structure Line where
  level : Level
  text : String
  deriving DecidableEq

/-- A record as it is written. -/
def Record.line (r : Record) : Line := ⟨r.level, r.message⟩

/-- The line for a text. -/
def opening (source : String) : Line := ⟨.debug, "expression: " ++ Text.quoted source⟩

/-- The line for the tokens of a text. -/
def cutting (ts : List Token) : Line := ⟨.debug, "tokens=" ++ listText (ts.map tokenText)⟩

/-- The line for nodes in postfix order. -/
def ordering (nodes : List Node) : Line := ⟨.debug, "output=" ++ listText (nodes.map nodeText)⟩

/-- The line for a call. -/
def calling (i : Invocation) : Line :=
  ⟨.debug, "Calling " ++ i.definition.name ++ "(" ++
    listText (i.operands.map Number.floatText) ++ ")"⟩

end Log

namespace Registry

open Log

/-- The lines that are logged of a text, and the answer to it. -/
inductive Traced (r : Registry) (source : String) :
    List Line → Except Exception Answer → Prop
  | lexical {e : LexError} :
      Token.tokenize source = .error e →
      Traced r source
        [opening source, ⟨.info, e.category.title ++ " in tokenize: " ++ e.message⟩]
        (.ok (.error e.message))
  | structural {ts : List Token} {e : StructureError} :
      Token.tokenize source = .ok ts → Postfix.ofTokens r ts = .error e →
      Traced r source
        [opening source, cutting ts, ⟨.info, e.category.title ++ " in rpn: " ++ e.message⟩]
        (.ok (.error e.message))
  | value {ts : List Token} {nodes : List Node} {made : List Invocation} {x : Float} :
      Token.tokenize source = .ok ts → Postfix.ofTokens r ts = .ok nodes →
      Postfix.Makes nodes made → Postfix.Passes [] nodes [x] →
      Traced r source ([opening source, cutting ts, ordering nodes] ++ made.map calling)
        (.ok (.value x))
  | failure {ts : List Token} {nodes : List Node} {made : List Invocation} {f : Failure} :
      Token.tokenize source = .ok ts → Postfix.ofTokens r ts = .ok nodes →
      Postfix.Makes nodes made → Postfix.Halts [] nodes (.failure f) →
      Traced r source
        ([opening source, cutting ts, ordering nodes] ++ made.map calling ++
          [⟨.info, f.category.title ++ " in calc_rpn: " ++ f.message⟩])
        (.ok (.error f.message))
  | reported {ts : List Token} {nodes : List Node} {made : List Invocation} {c : Category}
      {text : String} :
      Token.tokenize source = .ok ts → Postfix.ofTokens r ts = .ok nodes →
      Postfix.Makes nodes made → Postfix.Halts [] nodes (.raised (.failure c text)) →
      Traced r source
        ([opening source, cutting ts, ordering nodes] ++ made.map calling ++
          [⟨.info, c.title ++ " in calc_rpn: " ++ text⟩])
        (.ok (.error text))
  | fault {ts : List Token} {nodes : List Node} {made : List Invocation} {kind : FaultKind}
      {text : String} :
      Token.tokenize source = .ok ts → Postfix.ofTokens r ts = .ok nodes →
      Postfix.Makes nodes made → Postfix.Halts [] nodes (.raised (.fault kind text)) →
      Traced r source
        ([opening source, cutting ts, ordering nodes] ++ made.map calling ++
          [⟨.error, "Exception in calc_rpn: " ++ text⟩])
        (.error (.fault kind text))
  /-- there is no text to log, and what is raised instead goes on -/
  | wordless {ts : List Token} {nodes : List Node} {made : List Invocation} {c : ExceptionClass}
      {instead : Exception} :
      Token.tokenize source = .ok ts → Postfix.ofTokens r ts = .ok nodes →
      Postfix.Makes nodes made → Postfix.Halts [] nodes (.raised (.wordless c instead)) →
      Traced r source ([opening source, cutting ts, ordering nodes] ++ made.map calling)
        (instead.answered.map .error)

end Registry

end Reckoner
