import Reckoner.Postfix.Convert

set_option autoImplicit false

/-!
# Between two tokens

What holds of the output and of the two stacks of a conversion whenever some of its
tokens have been read and the others are still to come.  Frames and open parentheses
are matched one to one; the parenthesis of a call stands on the name written right
before it; frames remember ever longer outputs; in a row of operators each one binds
tighter than those below it; and a function without arguments waits only if
parentheses are written behind it.

Entries of a stack carry no mark of where they come from.  That an entry *is* a token is
said of the run: the entry was on top of the stack once the token had been read, and it
has stayed there with what is below it while the tokens since then were read.
-/

namespace Reckoner.Postfix

/-- The state of a conversion of `us ++ vs` when `us` have been read and `vs` have not. -/
def Reached (r : Registry) (us vs : List Token) (s : State) : Prop :=
  readAll r false us (beforeParen vs false) .initial = .ok s

/-- The entry that a token becomes if it has to wait. -/
def Entry.OfToken (t : Token) : Entry → Prop
  | .operator s => t.lexeme = .operator s
  | .name n => t.lexeme = .name n
  | .paren index => t.lexeme = .openParen ∧ t.index = index

/-- The entry `e` above `below` is the token `t`: it was pushed when `t` was read after
`before`, and it has stayed where it is while `after` were read. -/
structure Stays (r : Registry) (before : List Token) (t : Token) (after ahead : List Token)
    (e : Entry) (below : List Entry) : Prop where
  token : e.OfToken t
  pushed : ∃ s, Reached r (before ++ [t]) (after ++ ahead) s ∧ s.stack = e :: below
  kept : ∀ us vs, after = us ++ vs →
    ∃ s, Reached r (before ++ t :: us) (vs ++ ahead) s ∧ e :: below <:+ s.stack

/-- The open parentheses on a stack, top first, each with its place and what is below it. -/
def parens : List Entry → List (Int × List Entry)
  | [] => []
  | .paren index :: below => (index, below) :: parens below
  | _ :: below => parens below

/-- The lengths of the output that the frames of calls remember, top first. -/
def outputSizes (frames : List (Option CallFrame)) : List Nat :=
  frames.filterMap fun frame => frame.map CallFrame.outputSize

/-- What holds of a state when `us` have been read and `vs` have not. -/
structure Sound (r : Registry) (us vs : List Token) (s : State) : Prop where
  /-- there is one frame for each open parenthesis -/
  frames : s.frames.length = (parens s.stack).length
  /-- counted from the bottom, the parenthesis of a call stands on the name that is
  written right before it -/
  calls : ∀ (k : Nat) (index : Int) (below : List Entry) (frame : CallFrame),
    (parens s.stack).reverse[k]? = some (index, below) →
    s.frames.reverse[k]? = some (some frame) →
    ∃ before n p after name beneath, us = before ++ n :: p :: after ∧
      below = .name name :: beneath ∧
      Stays r before n (p :: after) vs (.name name) beneath ∧
      Stays r (before ++ [n]) p after vs (.paren index) below
  /-- no frame remembers an output longer than it is now -/
  sizes_le : ∀ size ∈ outputSizes s.frames, size ≤ s.output.length
  /-- no frame remembers a longer output than one above it -/
  sizes_sorted : (outputSizes s.frames).Pairwise fun inner outer => outer ≤ inner
  /-- operators in a row are defined, and each one binds tighter than those below it -/
  operators : ∀ (symbols : List String) (below : List Entry),
    symbols.map .operator ++ below <:+ s.stack →
    ∃ os : List InfixOperator, symbols.map r.operator = os.map .ok ∧
      os.Pairwise fun upper lower => lower.precedence < upper.precedence
  /-- the name of a function without arguments is followed by a parenthesis -/
  constants : ∀ name below f, .name name :: below <:+ s.stack → r.function name = .ok f →
    f.arity = 0 →
    ∃ before n after, us = before ++ n :: after ∧
      Stays r before n after vs (.name name) below ∧ beforeParen (after ++ vs) false = true

/-- Whatever token comes next finds on the stacks what it takes off them: an operator can
compare itself with those on top, and a closing parenthesis that gets down to an open one
finds the frame of that, and below it the name of the call if there is a call. -/
structure Provided (r : Registry) (s : State) : Prop where
  comparable : ∀ precedence, ∃ released,
    releaseTighter r precedence s.output s.stack = .ok released
  closable : ∀ output index below,
    release r s.output s.stack = .ok (output, .paren index :: below) →
    ∃ frame outer, s.frames = frame :: outer ∧
      (frame.isSome = true → ∃ name beneath, below = .name name :: beneath)

end Reckoner.Postfix
