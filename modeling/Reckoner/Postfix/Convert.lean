import Reckoner.Postfix.Node
import Reckoner.Registry.Basic
import Reckoner.Token.Basic

set_option autoImplicit false

/-!
# From tokens to postfix nodes

Tokens are put into postfix order one by one.  A number goes straight to the
output.  Operators, function names and opening parentheses wait on a stack:

* an operator first releases the operators on top of the stack that bind at least
  as tightly, so operators of one precedence group to the left;
* a function name waits for the end of what follows it, which is its own
  parentheses or else the rest of the bracket it stands in; a function without
  arguments and without parentheses is called at once;
* a closing parenthesis and a comma release everything down to the parenthesis
  that is open; at the end of the input everything is released.

A second stack, the *frames*, has an entry for every open parenthesis.  A
parenthesis right after a name belongs to a call, and its frame counts the commas
and knows how long the output was, so that the number of arguments given can be
told once the parenthesis is closed.

The stack holds symbols and names, and what they stand for is looked up whenever
an entry is compared or released.  The two stacks are separate lists, so an entry
that is to be taken off might be missing or be of the wrong kind: the conversion
then *breaks down*.  `Reckoner.Postfix.Alignment` shows that this never happens.

The tokens need not come from a text: nothing is assumed of them.
-/

namespace Reckoner

/-- Why tokens have no postfix order. -/
inductive StructureError where
  | undefinedOperator (symbol : String)
  | undefinedFunction (name : String)
  /-- a closing parenthesis that closes nothing -/
  | unmatchedClose (index : Int)
  /-- a comma outside all parentheses -/
  | strayComma (index : Int)
  /-- an opening parenthesis that is never closed -/
  | unclosed (index : Int)
  | argumentCount (name : String) (expected given : Nat)
  deriving DecidableEq, Repr

namespace Registry

/-- The operator that a symbol stands for. -/
def operator (r : Registry) (symbol : String) : Except StructureError InfixOperator :=
  match r.lookup symbol with
  | some (.operator o) => .ok o
  | _ => .error (.undefinedOperator symbol)

/-- The function that a name stands for. -/
def function (r : Registry) (name : String) : Except StructureError NamedFunction :=
  match r.lookup name with
  | some (.function f) => .ok f
  | _ => .error (.undefinedFunction name)

theorem operator_eq_ok_iff {r : Registry} {symbol : String} {o : InfixOperator} :
    r.operator symbol = .ok o ↔ r.lookup symbol = some (.operator o) := by
  unfold operator
  split
  · next hlookup => simp [hlookup]
  · next hnone => exact ⟨fun h => (nomatch h), fun h => absurd h (hnone o)⟩

theorem function_eq_ok_iff {r : Registry} {name : String} {f : NamedFunction} :
    r.function name = .ok f ↔ r.lookup name = some (.function f) := by
  unfold function
  split
  · next hlookup => simp [hlookup]
  · next hnone => exact ⟨fun h => (nomatch h), fun h => absurd h (hnone f)⟩

end Registry

namespace Postfix

/-- What is known of a call whose parenthesis is open. -/
structure CallFrame where
  /-- the length of the output when the parenthesis was opened -/
  outputSize : Nat
  /-- the commas met in this parenthesis and in no inner one -/
  commas : Nat
  deriving DecidableEq, Repr

/-- What waits for its place in the output. -/
inductive Entry where
  | operator (symbol : String)
  | name (name : String)
  | paren (index : Int)
  deriving DecidableEq, Repr

/-- What could be wrong with the two stacks when an entry is taken off. -/
inductive Breakdown where
  /-- no frame for the parenthesis that is closed -/
  | missingFrame
  /-- no name below the parenthesis of a call -/
  | missingName
  /-- a parenthesis where an operator or a name has to be -/
  | misplacedParen
  deriving DecidableEq, Repr

/-- Why a conversion stops. -/
inductive Stop where
  | error (e : StructureError)
  | breakdown (b : Breakdown)
  deriving DecidableEq, Repr

/-- The output, latest node first, and the two stacks, top first. -/
structure State where
  output : List Node
  stack : List Entry
  /-- one entry for each open parenthesis; none if it belongs to no call -/
  frames : List (Option CallFrame)

namespace State

/-- Nothing read yet. -/
def initial : State := ⟨[], [], []⟩

/-- Adds a node to the output. -/
def emit (n : Node) (s : State) : State := { s with output := n :: s.output }

/-- Lets an entry wait. -/
def push (e : Entry) (s : State) : State := { s with stack := e :: s.stack }

end State

/-- The operator that a symbol on the stack stands for. -/
def operatorOf (r : Registry) (symbol : String) : Except Stop InfixOperator :=
  (r.operator symbol).mapError .error

/-- The function that a name on the stack stands for. -/
def functionOf (r : Registry) (name : String) : Except Stop NamedFunction :=
  (r.function name).mapError .error

/-- What an entry stands for when it is released. -/
def definitionOf (r : Registry) : Entry → Except Stop Definition
  | .operator symbol => (operatorOf r symbol).map .operator
  | .name name => (functionOf r name).map .function
  | .paren _ => .error (.breakdown .misplacedParen)

/-- Releases the operators on top that bind at least as tightly as `precedence`. -/
def releaseTighter (r : Registry) (precedence : Nat) :
    List Node → List Entry → Except Stop (List Node × List Entry)
  | output, .operator symbol :: stack => do
    let o ← operatorOf r symbol
    if o.precedence < precedence then return (output, .operator symbol :: stack)
    else releaseTighter r precedence (.call (.operator o) :: output) stack
  | output, stack => .ok (output, stack)

/-- Whether an entry is an opening parenthesis. -/
def Entry.isParen : Entry → Bool
  | .paren _ => true
  | _ => false

/-- Releases everything down to the parenthesis that is open. -/
def release (r : Registry) : List Node → List Entry → Except Stop (List Node × List Entry)
  | output, [] => .ok (output, [])
  | output, e :: stack =>
    if e.isParen then .ok (output, e :: stack)
    else do
      let d ← definitionOf r e
      release r (.call d :: output) stack

/-- The number of arguments written in a parenthesis that is about to close. -/
def CallFrame.given (frame : CallFrame) (outputSize : Nat) : Nat :=
  if outputSize = frame.outputSize ∧ frame.commas = 0 then 0 else frame.commas + 1

/-- A function without arguments and without parentheses is an operand; any other
function name waits. -/
def readName (r : Registry) (name : String) (beforeParen : Bool) (s : State) : State :=
  match r.function name with
  | .ok f =>
    if f.arity = 0 ∧ beforeParen = false then s.emit (.call (.function f))
    else s.push (.name name)
  | .error _ => s.push (.name name)

/-- An operator waits above those that bind less tightly. -/
def readOperator (r : Registry) (symbol : String) (s : State) : Except Stop State := do
  let o ← operatorOf r symbol
  let (output, stack) ← releaseTighter r o.precedence s.output s.stack
  return ⟨output, .operator symbol :: stack, s.frames⟩

/-- A parenthesis right after a name opens a call. -/
def readOpen (index : Int) (afterName : Bool) (s : State) : State :=
  ⟨s.output, .paren index :: s.stack,
    (if afterName then some ⟨s.output.length, 0⟩ else none) :: s.frames⟩

/-- Ends the call that waits on top of the stack. -/
def closeCall (r : Registry) (frame : CallFrame) (output : List Node) (stack : List Entry)
    (frames : List (Option CallFrame)) : Except Stop State :=
  match stack with
  | [] => .error (.breakdown .missingName)
  | e :: stack => do
    let d ← definitionOf r e
    let given := frame.given output.length
    if given = d.arity then return ⟨.call d :: output, stack, frames⟩
    else .error (.error (.argumentCount d.name d.arity given))

/-- Ends the bracket whose parenthesis was on top of the stack, and the call that
the bracket belongs to. -/
def closeBracket (r : Registry) (output : List Node) (stack : List Entry) :
    List (Option CallFrame) → Except Stop State
  | [] => .error (.breakdown .missingFrame)
  | none :: frames => .ok ⟨output, stack, frames⟩
  | some frame :: frames => closeCall r frame output stack frames

/-- A closing parenthesis ends the bracket that is open. -/
def readClose (r : Registry) (index : Int) (s : State) : Except Stop State := do
  match ← release r s.output s.stack with
  | (output, .paren _ :: stack) => closeBracket r output stack s.frames
  | _ => .error (.error (.unmatchedClose index))

/-- Counts a comma, if the bracket that is open belongs to a call. -/
def countComma : List (Option CallFrame) → List (Option CallFrame)
  | some frame :: frames => some { frame with commas := frame.commas + 1 } :: frames
  | frames => frames

/-- A comma ends an argument. -/
def readComma (r : Registry) (index : Int) (s : State) : Except Stop State := do
  match ← release r s.output s.stack with
  | (_, []) => .error (.error (.strayComma index))
  | (output, stack) => return ⟨output, stack, countComma s.frames⟩

/-- Reads one token, given whether a name stands right before it and an opening
parenthesis right after it. -/
def step (r : Registry) (afterName beforeParen : Bool) (t : Token) (s : State) :
    Except Stop State :=
  match t.lexeme with
  | .number x => .ok (s.emit (.literal x))
  | .name name => .ok (readName r name beforeParen s)
  | .operator symbol => readOperator r symbol s
  | .openParen => .ok (readOpen t.index afterName s)
  | .closeParen => readClose r t.index s
  | .comma => readComma r t.index s

/-- Whether an opening parenthesis comes next, given whether one comes after the
tokens. -/
def beforeParen : List Token → Bool → Bool
  | [], next => next
  | t :: _, _ => t.lexeme.isOpenParen

/-- Reads a stretch of tokens, given whether a name stands right before it and an
opening parenthesis right after it. -/
def readAll (r : Registry) (afterName : Bool) :
    List Token → Bool → State → Except Stop State
  | [], _, s => .ok s
  | t :: ts, next, s => do
    let s' ← step r afterName (beforeParen ts next) t s
    readAll r t.lexeme.isName ts next s'

/-- Releases everything at the end of the input. -/
def finish (r : Registry) : List Node → List Entry → Except Stop (List Node)
  | output, [] => .ok output.reverse
  | _, .paren index :: _ => .error (.error (.unclosed index))
  | output, e :: stack => do
    let d ← definitionOf r e
    finish r (.call d :: output) stack

/-- Tokens in postfix order. -/
def convert (r : Registry) (ts : List Token) : Except Stop (List Node) := do
  let s ← readAll r false ts false .initial
  finish r s.output s.stack

end Postfix

end Reckoner
