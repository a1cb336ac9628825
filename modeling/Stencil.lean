import Stencil.Main
import Stencil.Proofs.Acceptance
import Stencil.Proofs.Canonical
import Stencil.Proofs.Dataflow
import Stencil.Proofs.Grammar
import Stencil.Proofs.Interpretation
import Stencil.Proofs.JsonText
import Stencil.Proofs.Lanes
import Stencil.Proofs.Lowering
import Stencil.Proofs.Machine
import Stencil.Proofs.Meaning
import Stencil.Proofs.ModelText
import Stencil.Proofs.Numerals
import Stencil.Proofs.Parsing
import Stencil.Proofs.Readings
import Stencil.Proofs.Rounding
import Stencil.Proofs.Scanning
import Stencil.Proofs.Sentences
import Stencil.Proofs.Session
import Stencil.Proofs.SourceText
import Stencil.Proofs.Steps
import Stencil.Proofs.Tracking
import Stencil.Proofs.Validity
import Stencil.Proofs.Values
import Stencil.Proofs.WellFormed
import Stencil.Proofs.Writing
import Stencil.Workbench
import Stencil.Proofs.Expectations
import Stencil.Proofs.FrontEnd
import Stencil.Proofs.Record
import Stencil.Proofs.Places
import Stencil.Proofs.SourceLayout
import Stencil.Proofs.SingleAssignment
import Stencil.Proofs.Patterns
import Stencil.Proofs.Tiling
import Stencil.Proofs.CommandLine
import Stencil.Proofs.ReportPlaces
import Stencil.Proofs.Sharing
import Stencil.Proofs.DotReading
import Stencil.Proofs.GraphEncoding
import Stencil.Proofs.Literals
import Stencil.Proofs.ZeroDivisors
import Stencil.Proofs.Offsets
import Stencil.Proofs.DivisionRefusals
import Stencil.Proofs.ModelRefusals
import Stencil.Proofs.CodeTokens
import Stencil.Proofs.Addresses
import Stencil.Proofs.CodeNames
import Stencil.Proofs.NameCapture
import Stencil.Proofs.Respacing
import Stencil.Proofs.Nesting
import Stencil.Proofs.AcceptedCalls
import Stencil.Proofs.EquationReports
import Stencil.Proofs.Coordinates
import Stencil.Proofs.NameSpill
import Stencil.Proofs.Narrowing
import Stencil.Proofs.Edits
import Stencil.Proofs.Statements
import Stencil.Proofs.Tables
import Stencil.Proofs.Scripts
import Stencil.Proofs.LaneLoops
import Stencil.Proofs.Automaton
import Stencil.Proofs.Backtracking
import Stencil.Proofs.Prediction
