import FrameMachine.Compiler.Layout
import FrameMachine.Diagnostic
import FrameMachine.Evaluation.Statement
import FrameMachine.Listing
import FrameMachine.Machine.Trace
import FrameMachine.Scoping
import FrameMachine.Proofs.Simulation.Program
import FrameMachine.Proofs.Stack.Check
import FrameMachine.Proofs.Stack.Discipline
import FrameMachine.Proofs.Variables.Safety
import FrameMachine.Proofs.Control.Closed
import FrameMachine.Proofs.Control.LoopFree
import FrameMachine.Proofs.Control.Rounds
import FrameMachine.Proofs.Machine.Isolation
import FrameMachine.Proofs.Machine.Depth
import FrameMachine.Proofs.Heap.History
import FrameMachine.Proofs.Heap.Operations
import FrameMachine.Proofs.Heap.References
import FrameMachine.Proofs.Compiler.Separate
import FrameMachine.Proofs.Compiler.Construction
import FrameMachine.Proofs.Names.Termination
import FrameMachine.Proofs.Machine.Location
import FrameMachine.Proofs.Machine.Failure
import FrameMachine.Proofs.Machine.Truncation
import FrameMachine.Proofs.Text.Labels
import FrameMachine.Proofs.Text.Numeral
import FrameMachine.Proofs.Machine.Reading
import FrameMachine.Proofs.Compiler.Registration
import FrameMachine.Proofs.Machine.Ending
import FrameMachine.Proofs.Text.Integer
import FrameMachine.Proofs.Text.Ordering
import FrameMachine.Proofs.Operators.Integers
import FrameMachine.Proofs.Operators.Nil
import FrameMachine.Proofs.Double.Decimals
import FrameMachine.Proofs.Operators.Characters
import FrameMachine.Proofs.Text.Figure
import FrameMachine.Proofs.Double.Writing
