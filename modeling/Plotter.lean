import Plotter.Expression.Exchange
import Plotter.Json.Reader
import Plotter.Sampling.Curve
import Plotter.Session
import Plotter.Proofs.Agreement
import Plotter.Proofs.Run
import Plotter.Proofs.Tree
import Plotter.Proofs.Compilation
import Plotter.Proofs.Conservation
import Plotter.Proofs.Beginnings
import Plotter.Proofs.Neighbours
import Plotter.Proofs.Recognition
import Plotter.Proofs.Words
import Plotter.Proofs.Scanning
import Plotter.Proofs.FreeVariables
import Plotter.Proofs.Groups
import Plotter.Proofs.Contiguity
import Plotter.Proofs.Passes
import Plotter.Proofs.MinusRuns
import Plotter.Proofs.Substitution
import Plotter.Proofs.Insertion
import Plotter.Proofs.Editing
import Plotter.Proofs.Rounding
import Plotter.Proofs.CorrectRounding
import Plotter.Proofs.Records
import Plotter.Proofs.MemberNames
import Plotter.Proofs.Loading
import Plotter.Proofs.Export
import Plotter.Proofs.Admission
import Plotter.Proofs.Tracing
import Plotter.Proofs.Uniformity
import Plotter.Proofs.Diagnosis
import Plotter.Proofs.LexicalFaults
import Plotter.Proofs.Layout
import Plotter.Proofs.NearestEven
import Plotter.Proofs.ExactValues
import Plotter.Proofs.SignBits
import Plotter.Proofs.Arithmetic
import Plotter.Proofs.Grids
import Plotter.Proofs.Settings
import Plotter.Proofs.Powers
import Plotter.Proofs.Overflows
import Plotter.Proofs.Literals
import Plotter.Proofs.Waiting
