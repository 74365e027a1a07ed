import StaticScript.Command.Memory
import StaticScript.Main
import StaticScript.Source.Compose
import StaticScript.Proofs.Checked
import StaticScript.Proofs.Source.Query
import StaticScript.Proofs.Typing.Arguments
import StaticScript.Proofs.Typing.Failure
import StaticScript.Proofs.Target.Tree
import StaticScript.Proofs.Lowering.Types
import StaticScript.Proofs.Lowering.Emission
import StaticScript.Proofs.Lowering.Nodes
import StaticScript.Proofs.Lowering.Program
import StaticScript.Proofs.Lowering.Scoping
import StaticScript.Proofs.Lowering.Calls
import StaticScript.Proofs.Lowering.LoopBounds
import StaticScript.Proofs.Semantics.Script
import StaticScript.Proofs.Preservation.Expression
import StaticScript.Proofs.Preservation.Memory
import StaticScript.Proofs.Preservation.Loop
import StaticScript.Proofs.Preservation.Statement
import StaticScript.Proofs.Preservation.Program
import StaticScript.Proofs.Decimal.Rounding
import StaticScript.Proofs.Lowering.Completeness
import StaticScript.Proofs.Lowering.Skips
import StaticScript.Proofs.Source.Sites
import StaticScript.Proofs.Lowering.CallSites
import StaticScript.Proofs.Source.Shape
import StaticScript.Proofs.Typing.Alike
import StaticScript.Proofs.Lowering.Alike
import StaticScript.Proofs.Lowering.Settling
import StaticScript.Proofs.Lowering.Correspondence
import StaticScript.Proofs.Lowering.Containment
import StaticScript.Proofs.Lowering.Order
import StaticScript.Proofs.Lowering.Independence
import StaticScript.Proofs.Lowering.Atomicity
import StaticScript.Proofs.Lowering.Callees
import StaticScript.Proofs.Lowering.Hiding
import StaticScript.Proofs.Lowering.Agreement
import StaticScript.Proofs.Lowering.Reports
import StaticScript.Proofs.Json.Text
import StaticScript.Proofs.Lowering.Texts
import StaticScript.Proofs.Source.Numbering
import StaticScript.Proofs.Json.Record
import StaticScript.Proofs.Source.Document
import StaticScript.Proofs.Lowering.Refusals
import StaticScript.Proofs.Lowering.WellTyped
import StaticScript.Proofs.Lowering.CallCounts
import StaticScript.Proofs.Lowering.Returns
import StaticScript.Proofs.Lowering.Counters
import StaticScript.Proofs.Lowering.Frames
import StaticScript.Proofs.Lowering.Chains
import StaticScript.Proofs.Target.Comments
import StaticScript.Proofs.Decimal.Digits
import StaticScript.Proofs.Text.Cutting
import StaticScript.Proofs.Decimal.Shortest
import StaticScript.Proofs.Target.Literal
import StaticScript.Proofs.Target.Readability
import StaticScript.Proofs.Typing.Convention
import StaticScript.Proofs.Lowering.Augmented
import StaticScript.Proofs.Preservation.Overflow
import StaticScript.Proofs.Source.Extraction
import StaticScript.Proofs.Target.LibraryNames
import StaticScript.Proofs.Lowering.Headers
import StaticScript.Proofs.Source.Relation
import StaticScript.Proofs.Source.Places
import StaticScript.Proofs.Source.Preorder
import StaticScript.Proofs.Source.Attachment
import StaticScript.Proofs.Typing.Precedence
import StaticScript.Proofs.Command.Collisions
