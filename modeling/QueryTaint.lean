import QueryTaint.Command.Basic
import QueryTaint.Command.Bundle
import QueryTaint.Command.Options
import QueryTaint.Concrete.Expr
import QueryTaint.Concrete.File
import QueryTaint.Concrete.Literal
import QueryTaint.Concrete.Node
import QueryTaint.Concrete.Stmt
import QueryTaint.Error
import QueryTaint.Ir.Arena
import QueryTaint.Ir.Assertion
import QueryTaint.Ir.Func
import QueryTaint.Ir.Id
import QueryTaint.Ir.Op
import QueryTaint.Ir.Operand
import QueryTaint.Ir.Print
import QueryTaint.Ir.Verify
import QueryTaint.Json.Basic
import QueryTaint.Lower.Builder
import QueryTaint.Lower.Control
import QueryTaint.Lower.Declare
import QueryTaint.Lower.Tree
import QueryTaint.Lower.Value
import QueryTaint.Lower.Variable
import QueryTaint.Main
import QueryTaint.Number.Basic
import QueryTaint.Number.Binary64
import QueryTaint.Number.Numeric
import QueryTaint.Prepass.Basic
import QueryTaint.Prepass.Loop
import QueryTaint.Prepass.Magic
import QueryTaint.Prepass.Namespace
import QueryTaint.Program
import QueryTaint.Project.Basic
import QueryTaint.Project.FileTree
import QueryTaint.Proofs.Arena.Access
import QueryTaint.Proofs.Arena.DefUse
import QueryTaint.Proofs.Arena.Edit
import QueryTaint.Proofs.Arena.Shape
import QueryTaint.Proofs.Assertion.Meaning
import QueryTaint.Proofs.Concrete.Chain
import QueryTaint.Proofs.Concrete.Pattern
import QueryTaint.Proofs.Concrete.Twin
import QueryTaint.Proofs.Custody.Basic
import QueryTaint.Proofs.Custody.Build
import QueryTaint.Proofs.Custody.Declare
import QueryTaint.Proofs.Flow.Body
import QueryTaint.Proofs.Flow.Complete
import QueryTaint.Proofs.Flow.Control
import QueryTaint.Proofs.Flow.Ground
import QueryTaint.Proofs.Flow.Search
import QueryTaint.Proofs.Flow.Standing
import QueryTaint.Proofs.Flow.Step
import QueryTaint.Proofs.Flow.Value
import QueryTaint.Proofs.Lower.Chain
import QueryTaint.Proofs.Lower.Control
import QueryTaint.Proofs.Lower.ExitFree
import QueryTaint.Proofs.Lower.Induction
import QueryTaint.Proofs.Lower.Invariant
import QueryTaint.Proofs.Lower.Law
import QueryTaint.Proofs.Lower.Logic
import QueryTaint.Proofs.Lower.Pattern
import QueryTaint.Proofs.Lower.Region
import QueryTaint.Proofs.Lower.Step
import QueryTaint.Proofs.Lower.Total
import QueryTaint.Proofs.Lower.Tree
import QueryTaint.Proofs.Lower.Value
import QueryTaint.Proofs.Lower.Variable
import QueryTaint.Proofs.Number.Nearest
import QueryTaint.Proofs.Origin.Adjoin
import QueryTaint.Proofs.Origin.Build
import QueryTaint.Proofs.Origin.Declare
import QueryTaint.Proofs.Origin.Entry
import QueryTaint.Proofs.Origin.Home
import QueryTaint.Proofs.Origin.Step
import QueryTaint.Proofs.Origin.Value
import QueryTaint.Proofs.Prepass.Basic
import QueryTaint.Proofs.Prepass.Commute
import QueryTaint.Proofs.Prepass.Loop
import QueryTaint.Proofs.Prepass.Magic
import QueryTaint.Proofs.Prepass.Names
import QueryTaint.Proofs.Prepass.Target
import QueryTaint.Proofs.Program.Entry
import QueryTaint.Proofs.Program.Flow
import QueryTaint.Proofs.Program.Fold
import QueryTaint.Proofs.Program.Home
import QueryTaint.Proofs.Program.Independent
import QueryTaint.Proofs.Relabel.Basic
import QueryTaint.Proofs.Relabel.Build
import QueryTaint.Proofs.Relabel.Control
import QueryTaint.Proofs.Relabel.Declare
import QueryTaint.Proofs.Relabel.Embed
import QueryTaint.Proofs.Relabel.Explore
import QueryTaint.Proofs.Relabel.Fold
import QueryTaint.Proofs.Relabel.Instant
import QueryTaint.Proofs.Relabel.Moment
import QueryTaint.Proofs.Relabel.Program
import QueryTaint.Proofs.Relabel.Read
import QueryTaint.Proofs.Relabel.Resolve
import QueryTaint.Proofs.Relabel.Role
import QueryTaint.Proofs.Relabel.Simplify
import QueryTaint.Proofs.Relabel.Step
import QueryTaint.Proofs.Relabel.Taint
import QueryTaint.Proofs.Relabel.Term
import QueryTaint.Proofs.Relabel.Terrain
import QueryTaint.Proofs.Relabel.Tree
import QueryTaint.Proofs.Relabel.Value
import QueryTaint.Proofs.Relabel.Walk
import QueryTaint.Proofs.Relabel.Weave
import QueryTaint.Proofs.Rename.Body
import QueryTaint.Proofs.Rename.Complete
import QueryTaint.Proofs.Rename.Refill
import QueryTaint.Proofs.Rename.Resolve
import QueryTaint.Proofs.Rename.Value
import QueryTaint.Proofs.Scalar.Order
import QueryTaint.Proofs.Simplify.Bypass
import QueryTaint.Proofs.Simplify.Certificate
import QueryTaint.Proofs.Simplify.Complete
import QueryTaint.Proofs.Simplify.Determined
import QueryTaint.Proofs.Simplify.Enduring
import QueryTaint.Proofs.Simplify.Fixpoint
import QueryTaint.Proofs.Simplify.Folding
import QueryTaint.Proofs.Simplify.Meaning
import QueryTaint.Proofs.Simplify.Removal
import QueryTaint.Proofs.Simplify.Shape
import QueryTaint.Proofs.Simplify.Ssa
import QueryTaint.Proofs.Syntax.Jump
import QueryTaint.Proofs.Syntax.Part
import QueryTaint.Proofs.Syntax.Shape
import QueryTaint.Proofs.Syntax.Traversal
import QueryTaint.Proofs.Taint.Flow
import QueryTaint.Proofs.Taint.Graph
import QueryTaint.Proofs.Taint.Trace
import QueryTaint.Proofs.Term.Assumption
import QueryTaint.Proofs.Term.Built
import QueryTaint.Proofs.Term.Meaning
import QueryTaint.Proofs.Term.Normal
import QueryTaint.Proofs.Term.Range
import QueryTaint.Proofs.Term.Solver
import QueryTaint.Proofs.Text.Label
import QueryTaint.Proofs.Text.Literal
import QueryTaint.Proofs.Text.Path
import QueryTaint.Proofs.Text.Segment
import QueryTaint.Proofs.Text.Utf8
import QueryTaint.Proofs.Trail.Basic
import QueryTaint.Proofs.Version.Basic
import QueryTaint.Proofs.Version.Body
import QueryTaint.Proofs.Version.Build
import QueryTaint.Proofs.Version.Control
import QueryTaint.Proofs.Version.Simplify
import QueryTaint.Proofs.Version.Step
import QueryTaint.Proofs.Walk.Breadth
import QueryTaint.Proofs.Walk.Budget
import QueryTaint.Proofs.Walk.Callee
import QueryTaint.Proofs.Walk.Confine
import QueryTaint.Proofs.Walk.Constant
import QueryTaint.Proofs.Walk.Course
import QueryTaint.Proofs.Walk.Discipline
import QueryTaint.Proofs.Walk.Halting
import QueryTaint.Proofs.Walk.Instant
import QueryTaint.Proofs.Walk.Nesting
import QueryTaint.Proofs.Walk.Override
import QueryTaint.Proofs.Walk.Recursive
import QueryTaint.Proofs.Walk.Scope
import QueryTaint.Proofs.Walk.Stack
import QueryTaint.Proofs.Walk.Trace
import QueryTaint.Proofs.Walk.Visible
import QueryTaint.Report.Basic
import QueryTaint.Scalar.Basic
import QueryTaint.Scalar.Evaluate
import QueryTaint.Scan.Basic
import QueryTaint.Settings.Basic
import QueryTaint.Simplify.Basic
import QueryTaint.Simplify.Fold
import QueryTaint.Syntax.Operator
import QueryTaint.Syntax.Traversal
import QueryTaint.Syntax.Tree
import QueryTaint.Taint.Finding
import QueryTaint.Taint.NamePattern
import QueryTaint.Taint.Provenance
import QueryTaint.Taint.Role
import QueryTaint.Term.Basic
import QueryTaint.Term.Feasibility
import QueryTaint.Term.Range
import QueryTaint.Term.Solver
import QueryTaint.Text.Character
import QueryTaint.Text.Label
import QueryTaint.Text.Path
import QueryTaint.Text.Quoted
import QueryTaint.Text.Span
import QueryTaint.Text.Utf8
import QueryTaint.Walk.Basic
import QueryTaint.Walk.Callee
import QueryTaint.Walk.Condition
import QueryTaint.Walk.Entry
import QueryTaint.Walk.Explore
import QueryTaint.Yaml.Basic
import QueryTaint.Yaml.Text
import QueryTaint.Yaml.Token
