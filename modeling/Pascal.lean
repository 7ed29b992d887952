import Pascal.Main
import Pascal.Proofs.Elaboration
import Pascal.Proofs.Parse.Expr
import Pascal.Proofs.Parse.Stmt
import Pascal.Proofs.Scope.Grows
import Pascal.Proofs.Scope.Nested
import Pascal.Proofs.Scope.Extends
import Pascal.Proofs.Parse.Declaration
import Pascal.Proofs.Program.Session
import Pascal.Proofs.Typing.HasType
import Pascal.Proofs.Typing.Operator
import Pascal.Proofs.Typing.Convert
import Pascal.Proofs.Typing.Sound
import Pascal.Proofs.Tree.All
import Pascal.Proofs.Scope.Resolve
import Pascal.Proofs.Typing.Call
import Pascal.Proofs.Typing.Expr
import Pascal.Proofs.Tree.Induction
import Pascal.Proofs.Typing.Fold
import Pascal.Proofs.Typing.Arena
import Pascal.Proofs.Typing.Stmt
import Pascal.Proofs.Fold.Eval
import Pascal.Proofs.Fold.Exec
import Pascal.Proofs.Fold.Program
import Pascal.Proofs.Run.Plan
import Pascal.Proofs.Run.Contract
import Pascal.Proofs.Frames.Scoped
import Pascal.Proofs.Frames.Run
import Pascal.Proofs.Frames.Follows
import Pascal.Proofs.Flow.Signals
import Pascal.Proofs.Machine.Faults
import Pascal.Proofs.Library.Heeds
import Pascal.Proofs.Library.Standard
import Pascal.Proofs.Run.Inert
import Pascal.Proofs.Run.Relation
import Pascal.Proofs.Run.Beside
import Pascal.Proofs.Run.Observed
import Pascal.Proofs.Run.Cancelled
import Pascal.Proofs.Group.Assemble
import Pascal.Proofs.Sound.Frames
import Pascal.Proofs.Sound.Library
import Pascal.Proofs.Sound.Standard
import Pascal.Proofs.Sound.Eval
import Pascal.Proofs.Sound.Exec
import Pascal.Proofs.Sound.Program
import Pascal.Proofs.Run.Steps
import Pascal.Proofs.Run.Calm
import Pascal.Proofs.Run.Depth
import Pascal.Proofs.Run.Limit
import Pascal.Proofs.Frames.Depth
import Pascal.Proofs.Scope.Operations
import Pascal.Proofs.Program.Units
import Pascal.Proofs.Library.FileCalls
import Pascal.Proofs.Console.Stream
import Pascal.Proofs.Token.Printed
import Pascal.Proofs.Formula.Parsed
import Pascal.Proofs.Program.Flawless
import Pascal.Proofs.Ty.Parsed
import Pascal.Proofs.Caseless.Compile
import Pascal.Proofs.Group.Includes
import Pascal.Proofs.Sound.Counting
import Pascal.Proofs.Sound.Pointers
import Pascal.Proofs.Sound.Constructors
import Pascal.Proofs.Machine.References
import Pascal.Proofs.Signature.Choice
import Pascal.Proofs.Signature.Exact
import Pascal.Proofs.Scope.Hidden
import Pascal.Proofs.Scope.Bare
import Pascal.Proofs.Parse.Assigned
import Pascal.Proofs.Frames.Arguments
import Pascal.Proofs.Program.Headings
import Pascal.Proofs.Signature.Firsts
import Pascal.Proofs.Scope.Overloads
import Pascal.Proofs.Value.Ordinal
import Pascal.Proofs.Value.Arithmetic
import Pascal.Proofs.Value.Encoded
import Pascal.Proofs.Value.Widening
import Pascal.Proofs.Value.Membership
import Pascal.Proofs.Ty.Composed
import Pascal.Proofs.Library.Unambiguous
import Pascal.Proofs.Library.Substrings
import Pascal.Proofs.Library.Moves
import Pascal.Proofs.Files.Program
import Pascal.Proofs.Fold.Settled
import Pascal.Proofs.Token.Positions
