import Reckoner.Number.Places
import Reckoner.Number.Arithmetic
import Reckoner.Text.Blank
import Reckoner.Text.Lines
import Reckoner.Value
import Reckoner.Token.Lexer
import Reckoner.Token.Layout
import Reckoner.Token.Abreast
import Reckoner.Registry.Standard
import Reckoner.Registry.History
import Reckoner.Registry.Agreement
import Reckoner.Registry.Objection
import Reckoner.Postfix.Alignment
import Reckoner.Postfix.Brackets
import Reckoner.Postfix.Height
import Reckoner.Postfix.Course
import Reckoner.Postfix.Ending
import Reckoner.Postfix.Standing
import Reckoner.Expression.Grammar
import Reckoner.Expression.Alternation
import Reckoner.Display
import Reckoner.Workspace
import Reckoner.CommandLine.Session
import Reckoner.Trace
import Reckoner.Main
import Reckoner.Proofs.Token.Reading
import Reckoner.Proofs.Token.LexicalGrammar
import Reckoner.Proofs.Token.Numerals
import Reckoner.Proofs.Token.Offences
import Reckoner.Proofs.Postfix.Draining
import Reckoner.Proofs.Postfix.Evaluation
import Reckoner.Proofs.Postfix.Stopping
import Reckoner.Proofs.Postfix.Heights
import Reckoner.Proofs.Postfix.Locality
import Reckoner.Proofs.Postfix.Substitution
import Reckoner.Proofs.Postfix.Nesting
import Reckoner.Proofs.Postfix.Tracking
import Reckoner.Proofs.Postfix.Conservation
import Reckoner.Proofs.Postfix.Acceptance
import Reckoner.Proofs.Postfix.Lockstep
import Reckoner.Proofs.Postfix.Arrangement
import Reckoner.Proofs.Postfix.Standing
import Reckoner.Proofs.Expression.Chain
import Reckoner.Proofs.Expression.Parsing
import Reckoner.Proofs.Expression.Assembly
import Reckoner.Proofs.Expression.Phrases
import Reckoner.Proofs.Expression.Recognition
import Reckoner.Proofs.Expression.CallForms
import Reckoner.Proofs.Number.Rounding
import Reckoner.Proofs.Number.Nearest
import Reckoner.Proofs.Number.Encoding
import Reckoner.Proofs.Number.Whole
import Reckoner.Proofs.Interpretation.Outcome
import Reckoner.Proofs.Interpretation.Invocations
import Reckoner.Proofs.Interpretation.Standard
import Reckoner.Proofs.Interpretation.Dependence
import Reckoner.Proofs.Interpretation.Displacement
import Reckoner.Proofs.Interpretation.Printed
import Reckoner.Proofs.Registry.Enrolment
import Reckoner.Proofs.Registry.Invariants
import Reckoner.Proofs.Registry.Kinds
import Reckoner.Proofs.Registry.Refinement
import Reckoner.Proofs.Interpretation.Trace
import Reckoner.Proofs.CommandLine.Session
import Reckoner.Proofs.Registry.Verdict
