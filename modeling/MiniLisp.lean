import MiniLisp.Command.Printer
import MiniLisp.Main
import MiniLisp.Proofs.Frame
import MiniLisp.Scope.Environments
import MiniLisp.Proofs.LexicalScope
import MiniLisp.Proofs.Cutting
import MiniLisp.Proofs.Lexing
import MiniLisp.Proofs.Scanning
import MiniLisp.Proofs.Alike
import MiniLisp.Proofs.Simulation.Lines
import MiniLisp.Proofs.Grammar
import MiniLisp.Proofs.Reading
import MiniLisp.Proofs.Labelling
import MiniLisp.Proofs.Units
import MiniLisp.Proofs.Printing
import MiniLisp.Proofs.ReadBack
import MiniLisp.Proofs.Derivations
import MiniLisp.Proofs.Depth
import MiniLisp.Proofs.Recovery
import MiniLisp.Proofs.Spans
import MiniLisp.Proofs.ListData
import MiniLisp.Proofs.Blame
import MiniLisp.Proofs.Excerpts
import MiniLisp.Proofs.Colours
import MiniLisp.Proofs.Rebuilding
import MiniLisp.Proofs.Layout
import MiniLisp.Proofs.LetterCase
import MiniLisp.Proofs.RootedScopes
import MiniLisp.Proofs.GlobalScope
import MiniLisp.Proofs.EarliestError
import MiniLisp.Proofs.Histories
import MiniLisp.Proofs.Bytes
import MiniLisp.Proofs.Scripts
import MiniLisp.Proofs.InputLines
import MiniLisp.Proofs.Dialogue
import MiniLisp.Proofs.Shadowing
import MiniLisp.Proofs.Sinks
import MiniLisp.Proofs.Equality
import MiniLisp.Proofs.Growth
import MiniLisp.Proofs.EqualText
import MiniLisp.Proofs.Rescanning
import MiniLisp.Proofs.ListingOrder
import MiniLisp.Proofs.Visits
import MiniLisp.Proofs.MalformedForms
import MiniLisp.Proofs.Conditions
import MiniLisp.Proofs.Parameters
import MiniLisp.Proofs.Shapes
import MiniLisp.Proofs.Descent
import MiniLisp.Proofs.NumberText
