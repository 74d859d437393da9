import CnfSearch.Backtrack.Recursion
import CnfSearch.Dimacs.Writer
import CnfSearch.Formula.Valuation
import CnfSearch.Main
import CnfSearch.Proofs.Backtrack.Counting
import CnfSearch.Proofs.Backtrack.Simulation
import CnfSearch.Proofs.Backtrack.Worklist
import CnfSearch.Proofs.Command.Verdict
import CnfSearch.Proofs.Dimacs.Prefix
import CnfSearch.Proofs.Dimacs.RoundTrip
import CnfSearch.Proofs.Problem.Declaring
import CnfSearch.Proofs.Solver.Renaming
import CnfSearch.Proofs.Solver.Repetition
import CnfSearch.Proofs.Walk.Greedy
import CnfSearch.Proofs.Walk.Reach
import CnfSearch.Proofs.Model.Bindings
import CnfSearch.Proofs.Model.Equality
import CnfSearch.Proofs.Model.Extension
import CnfSearch.Proofs.Model.Refinement
import CnfSearch.Proofs.Solver.History
import CnfSearch.Proofs.Command.Retries
import CnfSearch.Proofs.Walk.Steps
import CnfSearch.Proofs.Dimacs.Clauses
import CnfSearch.Proofs.Dimacs.ProblemLine
import CnfSearch.Proofs.Model.TrueVariables
import CnfSearch.Proofs.Command.Solution
import CnfSearch.Backtrack.Purity
import CnfSearch.Proofs.Backtrack.Purity
import CnfSearch.Proofs.Dimacs.SignedNumbers
import CnfSearch.Proofs.Walk.Frequency
import CnfSearch.Proofs.Command.Routes
import CnfSearch.Proofs.Command.Folders
import CnfSearch.Proofs.Backtrack.FirstModel
