import SoftPlc.Bytecode.Labels
import SoftPlc.Main
import SoftPlc.Proofs.Bytecode.Located
import SoftPlc.Proofs.Compile.Agreement
import SoftPlc.Proofs.Compile.Directions
import SoftPlc.Proofs.Compile.Fragments
import SoftPlc.Proofs.Compile.Layout
import SoftPlc.Proofs.Compile.Literals
import SoftPlc.Proofs.Compile.Shifts
import SoftPlc.Proofs.Compile.Visits
import SoftPlc.Proofs.Compile.WellFormed
import SoftPlc.Proofs.Configuration.Damage
import SoftPlc.Proofs.Configuration.Loaded
import SoftPlc.Proofs.Configuration.RoundTrip
import SoftPlc.Proofs.Controller.Bindings
import SoftPlc.Proofs.Controller.Breakpoints
import SoftPlc.Proofs.Controller.Carried
import SoftPlc.Proofs.Controller.Isolation
import SoftPlc.Proofs.Controller.Outcomes
import SoftPlc.Proofs.Controller.Refusals
import SoftPlc.Proofs.Controller.Statistics
import SoftPlc.Proofs.Controller.Suspended
import SoftPlc.Proofs.Controller.Written
import SoftPlc.Proofs.Debugger.Breakpoints
import SoftPlc.Proofs.Debugger.Ceiling
import SoftPlc.Proofs.Debugger.Consistency
import SoftPlc.Proofs.Debugger.Session
import SoftPlc.Proofs.Evaluation.Evaluator
import SoftPlc.Proofs.Language.Progress
import SoftPlc.Proofs.Language.Spans
import SoftPlc.Proofs.Machine.Effects
import SoftPlc.Proofs.Machine.Leads
import SoftPlc.Proofs.Store.History
import SoftPlc.Proofs.Store.Overflow
import SoftPlc.Proofs.Store.Packing
import SoftPlc.Proofs.Typing.Soundness
import SoftPlc.Proofs.Value.Exact
import SoftPlc.Proofs.Value.Typing
