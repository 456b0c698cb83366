import DeclAnalysis.Elaboration.Run
import DeclAnalysis.Proofs.Diagnostic.Flush
import DeclAnalysis.Proofs.Elaboration.Abort
import DeclAnalysis.Proofs.Elaboration.Aliases
import DeclAnalysis.Proofs.Elaboration.Constants
import DeclAnalysis.Proofs.Elaboration.Diagnostics
import DeclAnalysis.Proofs.Elaboration.Exports
import DeclAnalysis.Proofs.Elaboration.FunctionBody
import DeclAnalysis.Proofs.Elaboration.ListInit
import DeclAnalysis.Proofs.Elaboration.LiteralFaults
import DeclAnalysis.Proofs.Elaboration.Placeholder
import DeclAnalysis.Proofs.Elaboration.SeedDependence
import DeclAnalysis.Proofs.Literal.CodeUnits
import DeclAnalysis.Proofs.Literal.FloatingSpelling
import DeclAnalysis.Proofs.Literal.RoundTrip
import DeclAnalysis.Proofs.Scope.Handles
import DeclAnalysis.Proofs.Scope.Qualified
import DeclAnalysis.Proofs.Scope.SeedBuilding
import DeclAnalysis.Proofs.Scope.Separate
import DeclAnalysis.Proofs.Scope.Stack
import DeclAnalysis.Proofs.Symbol
import DeclAnalysis.Proofs.Ty.Spelling
