import FieldScript.Main
import FieldScript.SampleFunctions
import FieldScript.Host.Bare
import FieldScript.Wire
import FieldScript.EvalError
import FieldScript.Proofs.Wire.Decoded
import FieldScript.Proofs.Parse.RoundTrip
import FieldScript.Proofs.Script.Inputs
import FieldScript.Proofs.Script.Depth
import FieldScript.Proofs.Statement.Bare
import FieldScript.Proofs.Evaluate.Dependence
import FieldScript.Proofs.Evaluate.Levels
import FieldScript.Proofs.Statement.Dependence
import FieldScript.Proofs.Scope.Agreement
import FieldScript.Proofs.Statement.Independence
import FieldScript.Proofs.Script.Stopping
import FieldScript.Proofs.Script.Survivors
import FieldScript.Proofs.Scope.Requests
import FieldScript.Proofs.Script.Compiling
import FieldScript.Proofs.Statement.Repetition
import FieldScript.Proofs.Script.Slice
import FieldScript.Proofs.Parse.Layout
import FieldScript.Proofs.Parse.Separators
import FieldScript.Proofs.Statement.Chains
import FieldScript.Proofs.CommandLine.Feeding
import FieldScript.Proofs.Statement.Refusals
import FieldScript.Proofs.Statement.Handles
import FieldScript.Proofs.Statement.Bounds
import FieldScript.Proofs.Evaluate.Finite
import FieldScript.Proofs.Statement.HostCalls
import FieldScript.Proofs.Registry.Tables
import FieldScript.Proofs.CommandLine.Stopping
import FieldScript.Proofs.Parse.Incomplete
import FieldScript.Proofs.Parse.Errors
import FieldScript.Proofs.Script.Bindings
import FieldScript.Proofs.Script.Reports
import FieldScript.Proofs.Membership.Checked
import FieldScript.Proofs.Membership.Interpolation
import FieldScript.Proofs.Membership.Trapezoid
import FieldScript.Proofs.Membership.Degrees
import FieldScript.Proofs.Help.Wrapping
import FieldScript.Proofs.Field.Committing
import FieldScript.Proofs.Render.Heading
