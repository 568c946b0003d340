import Abacus.Main
import Abacus.Proofs.Derivation
import Abacus.Proofs.Recognition
import Abacus.Proofs.Parsing
import Abacus.Proofs.Spelling
import Abacus.Proofs.Writing
import Abacus.Proofs.Parentheses
import Abacus.Proofs.RoundTrip
import Abacus.Proofs.WellFormed
import Abacus.Proofs.EvaluationOrder
import Abacus.Proofs.LogicalLines
import Abacus.Proofs.SessionSteps
import Abacus.Proofs.FileRun
import Abacus.Proofs.Logging
import Abacus.Proofs.Conversation
import Abacus.Proofs.Layout
import Abacus.Proofs.Agreement
import Abacus.Proofs.Continuation
import Abacus.Proofs.Queue
import Abacus.Proofs.Reports
import Abacus.Proofs.Prompt
import Abacus.Proofs.DefiniteAssignment
import Abacus.Proofs.Independence
import Abacus.Proofs.ExactValues
import Abacus.Proofs.Concatenation
import Abacus.Proofs.ExactTokens
import Abacus.Proofs.Grouping
import Abacus.Proofs.Shadowing
import Abacus.Proofs.LookAhead
import Abacus.Proofs.Carets
import Abacus.Proofs.Rounding
import Abacus.Proofs.Display
import Abacus.Proofs.Requests
import Abacus.Proofs.Termination
