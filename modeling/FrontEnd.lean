import FrontEnd.Main
import FrontEnd.Proofs.Prefixes
import FrontEnd.Proofs.Siblings
import FrontEnd.Proofs.Scoping.Discipline
import FrontEnd.Proofs.Scoping.Table
import FrontEnd.Proofs.Layout.Files
import FrontEnd.Proofs.Gaps.Statements
import FrontEnd.Proofs.Aborts
import FrontEnd.Proofs.Verdict
import FrontEnd.Proofs.Grouping.Casts
import FrontEnd.Proofs.Scoping.Swaps
import FrontEnd.Proofs.Loosening.Files
import FrontEnd.Proofs.Printing.Generics
import FrontEnd.Proofs.Placing.Shorthands
import FrontEnd.Proofs.Scoping.Surroundings
import FrontEnd.Proofs.Bodies.Entries
import FrontEnd.Proofs.Bodies.Enums
import FrontEnd.Proofs.Rendering.Messages
import FrontEnd.Proofs.Scoping.Redeclared
import FrontEnd.Proofs.Scoping.Suggestions
import FrontEnd.Proofs.Bodies.Declared
import FrontEnd.Proofs.Bodies.Arms
import FrontEnd.Proofs.Bodies.Choices
import FrontEnd.Proofs.FirstProblem
import FrontEnd.Proofs.Restoring
import FrontEnd.Proofs.Rendering.Carets
import FrontEnd.Proofs.Warnings
import FrontEnd.Proofs.Similar.Closest
import FrontEnd.Proofs.CommandLine
import FrontEnd.Proofs.Similar.Metric
import FrontEnd.Proofs.LineColumns
import FrontEnd.Proofs.LineTiles
