import Marshal.Converter
import Marshal.Converter.Ready
import Marshal.Failure
import Marshal.Fault
import Marshal.Handle
import Marshal.Heap
import Marshal.Heap.Answer
import Marshal.Heap.Object
import Marshal.Heap.Release
import Marshal.Limits
import Marshal.Limits.Reader
import Marshal.Limits.Token
import Marshal.Marshaller
import Marshal.Marshaller.Indices
import Marshal.Marshaller.Lifting
import Marshal.Marshaller.Lowering
import Marshal.Marshaller.Scalar
import Marshal.Notice
import Marshal.Numeric.Binary
import Marshal.Numeric.Cartesian
import Marshal.Numeric.Number
import Marshal.Numeric.Packing
import Marshal.Numeric.Shortest
import Marshal.Numeric.Written
import Marshal.Proofs.Heap.Bearing
import Marshal.Proofs.Heap.Cascade
import Marshal.Proofs.Heap.Chains
import Marshal.Proofs.Heap.Clients
import Marshal.Proofs.Heap.Confluence
import Marshal.Proofs.Heap.Conservation
import Marshal.Proofs.Heap.Costs
import Marshal.Proofs.Heap.Denotes
import Marshal.Proofs.Heap.Extents
import Marshal.Proofs.Heap.Follows
import Marshal.Proofs.Heap.Garbage
import Marshal.Proofs.Heap.Grounded
import Marshal.Proofs.Heap.Growth
import Marshal.Proofs.Heap.Held
import Marshal.Proofs.Heap.Issued
import Marshal.Proofs.Heap.MembersApart
import Marshal.Proofs.Heap.Operations
import Marshal.Proofs.Heap.Ordering
import Marshal.Proofs.Heap.Origins
import Marshal.Proofs.Heap.Picture
import Marshal.Proofs.Heap.Reachable
import Marshal.Proofs.Heap.References
import Marshal.Proofs.Heap.Refused
import Marshal.Proofs.Heap.Registered
import Marshal.Proofs.Heap.Replacing
import Marshal.Proofs.Heap.Represented
import Marshal.Proofs.Heap.Resolving
import Marshal.Proofs.Heap.Staged
import Marshal.Proofs.Heap.Stands
import Marshal.Proofs.Heap.Tally
import Marshal.Proofs.Heap.Transfer
import Marshal.Proofs.Heap.Types
import Marshal.Proofs.Heap.Unfolding
import Marshal.Proofs.Heap.View
import Marshal.Proofs.Marshaller.Accepting
import Marshal.Proofs.Marshaller.Accounting
import Marshal.Proofs.Marshaller.AllOrNothing
import Marshal.Proofs.Marshaller.Checking
import Marshal.Proofs.Marshaller.Choosing
import Marshal.Proofs.Marshaller.Concurring
import Marshal.Proofs.Marshaller.Conserving
import Marshal.Proofs.Marshaller.Conversion
import Marshal.Proofs.Marshaller.Convertible
import Marshal.Proofs.Marshaller.Costing
import Marshal.Proofs.Marshaller.Custody
import Marshal.Proofs.Marshaller.Delivering
import Marshal.Proofs.Marshaller.Depicting
import Marshal.Proofs.Marshaller.Gathering
import Marshal.Proofs.Marshaller.Identifying
import Marshal.Proofs.Marshaller.Keeping
import Marshal.Proofs.Marshaller.Lending
import Marshal.Proofs.Marshaller.Making
import Marshal.Proofs.Marshaller.Members
import Marshal.Proofs.Marshaller.Nesting
import Marshal.Proofs.Marshaller.Packing
import Marshal.Proofs.Marshaller.Picturing
import Marshal.Proofs.Marshaller.Probing
import Marshal.Proofs.Marshaller.Reading
import Marshal.Proofs.Marshaller.Recovering
import Marshal.Proofs.Marshaller.Respecting
import Marshal.Proofs.Marshaller.RoundTrip
import Marshal.Proofs.Marshaller.Sealing
import Marshal.Proofs.Marshaller.Shape
import Marshal.Proofs.Marshaller.Spanning
import Marshal.Proofs.Marshaller.Unsharing
import Marshal.Proofs.Marshaller.Untouched
import Marshal.Proofs.Marshaller.Windowing
import Marshal.Proofs.Marshaller.Wrapping
import Marshal.Proofs.Numeric.DecimalText
import Marshal.Proofs.Numeric.Fields
import Marshal.Proofs.Numeric.Packing
import Marshal.Proofs.Numeric.Rounding
import Marshal.Proofs.Numeric.Spelling
import Marshal.Proofs.Numeric.Widening
import Marshal.Proofs.Outcome
import Marshal.Proofs.Sorted
import Marshal.Proofs.Store.Fronts
import Marshal.Proofs.Store.Watched
import Marshal.Proofs.Value.Building
import Marshal.Proofs.Value.Equal
import Marshal.Proofs.Value.Equivalence
import Marshal.Proofs.Value.Literals
import Marshal.Proofs.Value.Normal
import Marshal.Proofs.Value.Scalars
import Marshal.Proofs.Value.Tidy
import Marshal.Refusal
import Marshal.Session
import Marshal.Session.Reply
import Marshal.Session.Step
import Marshal.Sorted
import Marshal.StandardType
import Marshal.Store
import Marshal.Store.Recording
import Marshal.Store.Request
import Marshal.Text.Escaped
import Marshal.Text.Hex
import Marshal.Text.Quoted
import Marshal.Text.Utf8
import Marshal.TypeTable
import Marshal.Value
import Marshal.Value.Equality
import Marshal.Value.Key
import Marshal.Value.Shown
