import Treewalk.Evaluator
import Treewalk.Session
import Treewalk.Proofs.Syntax.Parts
import Treewalk.Proofs.Syntax.Blocks
import Treewalk.Proofs.Scope.FrameLaw
import Treewalk.Proofs.Scope.Noninterference
import Treewalk.Proofs.Call.DepthLimit
import Treewalk.Proofs.Call.DepthBalance
import Treewalk.Proofs.Simulation.Fragment
import Treewalk.Proofs.Eval.Writing
import Treewalk.Proofs.Output.Noted
import Treewalk.Proofs.Output.BoundedSink
import Treewalk.Proofs.Operation.Kinds
import Treewalk.Proofs.Simulation.Declared
import Treewalk.Proofs.Call.Termination
import Treewalk.Proofs.Error.Provenance
import Treewalk.Proofs.Number.Order
import Treewalk.Proofs.Number.Format
import Treewalk.Proofs.Number.Line
import Treewalk.Proofs.Number.Rounding
import Treewalk.Proofs.Number.Sum
import Treewalk.Proofs.Number.Remainder
import Treewalk.Proofs.Number.Integers
import Treewalk.Proofs.Number.Reach
import Treewalk.Proofs.Operation.Comparison
import Treewalk.Proofs.Rewriting.Blocks
import Treewalk.Proofs.Rewriting.DeadCode
import Treewalk.Proofs.Rewriting.Flattening
import Treewalk.Proofs.Scope.History
import Treewalk.Proofs.Scope.Captured
import Treewalk.Proofs.Rewriting.Renaming
import Treewalk.Proofs.Syntax.Calls
import Treewalk.Proofs.Call.Acyclic
import Treewalk.Proofs.Scope.Recorded
import Treewalk.Proofs.Scope.Unset
import Treewalk.Proofs.Scope.Opened
import Treewalk.Proofs.Scope.Outermost
import Treewalk.Proofs.Syntax.Recast
import Treewalk.Proofs.Syntax.Grouping
import Treewalk.Proofs.Rewriting.Ungrouping
import Treewalk.Proofs.Text.Grammar
import Treewalk.Proofs.Text.Concatenation
import Treewalk.Proofs.Text.Length
import Treewalk.Proofs.Eval.Counting
import Treewalk.Proofs.Eval.KindSoundness
import Treewalk.Proofs.Eval.IntegerLoop
import Treewalk.Proofs.Eval.ShortCircuit
import Treewalk.Proofs.Eval.Pieces
import Treewalk.Proofs.Scope.Renumbering
import Treewalk.Proofs.Call.Forwarding
import Treewalk.Proofs.Number.Nearest
import Treewalk.Proofs.Number.RemainderBound
import Treewalk.Proofs.Call.Protocol
import Treewalk.Proofs.Scope.Reachable
