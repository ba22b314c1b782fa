import TypedHeap.Main
import TypedHeap.Proofs.Session.Arena
import TypedHeap.Proofs.Session.Isolation
import TypedHeap.Proofs.Session.Representation
import TypedHeap.Proofs.Session.Typing
import TypedHeap.Proofs.Layout.Reference
import TypedHeap.Proofs.Layout.History
import TypedHeap.Proofs.Session.Layouts
import TypedHeap.Proofs.Heap.Generations
import TypedHeap.Proofs.Session.Generations
import TypedHeap.Proofs.Session.Lists
import TypedHeap.Proofs.Session.Modules
import TypedHeap.Proofs.Session.Walks
import TypedHeap.Proofs.Session.Safety
import TypedHeap.Proofs.Session.Identity
import TypedHeap.Proofs.Session.Unions
import TypedHeap.Proofs.Session.Declarations
import TypedHeap.Proofs.Session.Atomicity
import TypedHeap.Proofs.Session.RoundTrip
import TypedHeap.Proofs.Session.Subtyping
import TypedHeap.Proofs.Session.Remembering
import TypedHeap.Proofs.Session.Views
import TypedHeap.Proofs.Session.Transparency
import TypedHeap.Proofs.Session.Contents
import TypedHeap.Proofs.Session.Allocation
import TypedHeap.Proofs.Session.Values
import TypedHeap.Proofs.Session.Vectors
import TypedHeap.Proofs.Session.Appending
import TypedHeap.Proofs.Session.Acceptance
import TypedHeap.Proofs.Session.Shapes
import TypedHeap.Proofs.Session.Fields
import TypedHeap.Proofs.Session.Boxing
import TypedHeap.Proofs.Session.Pointers
import TypedHeap.Proofs.Session.Alignment
import TypedHeap.Proofs.Session.DeclaredFields
import TypedHeap.Proofs.Session.Padding
import TypedHeap.Proofs.Session.Redeclaration
import TypedHeap.Proofs.Session.Operands
import TypedHeap.Proofs.Session.Reencoding
import TypedHeap.Proofs.Scalar.Exactness
import TypedHeap.Proofs.Session.Building
import TypedHeap.Proofs.Session.Paths
import TypedHeap.Proofs.Session.Editing
import TypedHeap.Proofs.Session.Reports
import TypedHeap.Proofs.Session.FieldNames
import TypedHeap.Proofs.Session.Registration
import TypedHeap.Proofs.Session.ParamVectors
import TypedHeap.Proofs.Session.Dependencies
import TypedHeap.Proofs.Session.Copies
import TypedHeap.Proofs.Session.Arithmetic
