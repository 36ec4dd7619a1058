import Formulary.Arithmetic.Cartesian
import Formulary.Arithmetic.Elementary
import Formulary.Arithmetic.RealFunction
import Formulary.Arithmetic.Scalar
import Formulary.Builtin
import Formulary.CommandLine.Arguments
import Formulary.CommandLine.Draws
import Formulary.CommandLine.Outcome
import Formulary.Engine
import Formulary.Evaluation.Basic
import Formulary.Evaluation.Error
import Formulary.Expr.Basic
import Formulary.Expr.Derivative
import Formulary.Expr.Equality
import Formulary.Expr.Folding
import Formulary.Expr.FreeVars
import Formulary.Expr.Render
import Formulary.Failure
import Formulary.Main
import Formulary.Number.Binary64
import Formulary.Number.Format
import Formulary.Number.Hypotenuse
import Formulary.Number.Layout
import Formulary.Number.Rounding
import Formulary.Number.Shortest
import Formulary.Operator
import Formulary.Pending
import Formulary.Registry
import Formulary.Report
import Formulary.Scope
import Formulary.Session
import Formulary.Syntax.Definition
import Formulary.Syntax.Error
import Formulary.Syntax.Formula
import Formulary.Syntax.Literal
import Formulary.Syntax.Split
import Formulary.Text.Blank
import Formulary.Text.Digit
import Formulary.Text.Printable
import Formulary.Text.Quoted
import Formulary.Text.Similar
import Formulary.Value.Basic
import Formulary.Value.Datum
import Formulary.Value.Display
import Formulary.Value.Operation
import Formulary.Proofs.Syntax.Brackets
import Formulary.Proofs.Syntax.Splitting
import Formulary.Proofs.Syntax.Grammar
import Formulary.Proofs.Syntax.Derivation
import Formulary.Proofs.Syntax.Soundness
import Formulary.Proofs.Syntax.Completeness
import Formulary.Proofs.Evaluation.Within
import Formulary.Proofs.Evaluation.Call
import Formulary.Proofs.Evaluation.Dependence
import Formulary.Proofs.Evaluation.Refinement
import Formulary.Proofs.Expr.Folding
import Formulary.Proofs.Number.Binary64
import Formulary.Proofs.Number.Exact
import Formulary.Proofs.Syntax.Readable
import Formulary.Proofs.Syntax.Registry
import Formulary.Proofs.Expr.Widening
import Formulary.Proofs.Syntax.Sums
import Formulary.Proofs.Syntax.RoundTrip
import Formulary.Proofs.Arithmetic.Divisors
import Formulary.Proofs.Arithmetic.Elementary
import Formulary.Proofs.Value.Operation
import Formulary.Proofs.Evaluation.Proper
import Formulary.Proofs.Reachable
import Formulary.Proofs.Expr.FreeVars
import Formulary.Proofs.Evaluation.FreeVars
import Formulary.Proofs.Engine
import Formulary.Proofs.Number.Sign
import Formulary.Proofs.Syntax.RenderedNesting
import Formulary.Proofs.Evaluation.Respelling
import Formulary.Proofs.Produced
import Formulary.Proofs.Evaluation.Foldable
import Formulary.Proofs.Evaluation.Strict
import Formulary.Proofs.Expr.FoldingFailure
import Formulary.Proofs.Optimization.Rejection
import Formulary.Proofs.Optimization.Remainder
import Formulary.Proofs.Expr.Places
import Formulary.Proofs.Expr.FoldingPlaces
import Formulary.Proofs.Expr.Settled
import Formulary.Proofs.Optimization.Settled
import Formulary.Proofs.Evaluation.Values
import Formulary.Proofs.Value.Closure
import Formulary.Proofs.Evaluation.Closure
import Formulary.Proofs.Expr.Reading
import Formulary.Proofs.Arithmetic.Field
import Formulary.Proofs.Calculus.Derivative
import Formulary.Proofs.Calculus.RationalFunctions
import Formulary.Proofs.Calculus.Antiderivative
import Formulary.Proofs.Number.Signed
import Formulary.Proofs.Number.Closest
import Formulary.Proofs.Number.Display
import Formulary.Proofs.Calculus.Domain
import Formulary.Proofs.Calculus.Scope
import Formulary.Proofs.Calculus.Rejection
import Formulary.Proofs.Number.Numeral
import Formulary.Proofs.Syntax.ComplexLiteral
import Formulary.Proofs.Evaluation.Negations
import Formulary.Proofs.Evaluation.Substitution
import Formulary.Proofs.Syntax.Extension
import Formulary.Proofs.Replay
import Formulary.Proofs.Syntax.Position
import Formulary.Proofs.Syntax.WellBracketed
import Formulary.Proofs.Syntax.Placement
import Formulary.Proofs.Syntax.Call
import Formulary.Proofs.Syntax.NestingLimit
import Formulary.Proofs.Syntax.BracketStyle
import Formulary.Proofs.Evaluation.Tracing
import Formulary.Proofs.Calculus.Failing
import Formulary.Proofs.CommandLine.Quiet
import Formulary.Proofs.CommandLine.Ready
import Formulary.Proofs.CommandLine.Result
import Formulary.Proofs.CommandLine.Reporting
import Formulary.Proofs.Value.Comparison
import Formulary.Proofs.Number.Packing
import Formulary.Proofs.Number.Arithmetic
import Formulary.Proofs.Arithmetic.Reals
import Formulary.Proofs.Arithmetic.Quotients
import Formulary.Proofs.Arithmetic.Inverses
import Formulary.Proofs.Evaluation.Series
import Formulary.Proofs.Syntax.Cutting
import Formulary.Proofs.Value.Division
