import ManagedHeap.Digest
import ManagedHeap.Identity
import ManagedHeap.Json.Decimal
import ManagedHeap.Json.Basic
import ManagedHeap.Json.Reader
import ManagedHeap.Json.Skip
import ManagedHeap.Json.Record
import ManagedHeap.Graph.Kind
import ManagedHeap.Graph.Names
import ManagedHeap.Heap.Root
import ManagedHeap.Graph.Basic
import ManagedHeap.Graph.Fingerprint
import ManagedHeap.Heap.Object
import ManagedHeap.Heap.Companion
import ManagedHeap.Heap.View
import ManagedHeap.Heap.Basic
import ManagedHeap.Text.Blank
import ManagedHeap.Settings
import ManagedHeap.Stream.Sink
import ManagedHeap.Stream.Chunker
import ManagedHeap.Ledger.Basic
import ManagedHeap.Ledger.Population
import ManagedHeap.Document.Basic
import ManagedHeap.Document.Reader
import ManagedHeap.Document.Writer
import ManagedHeap.Capture.Stage
import ManagedHeap.Failure
import ManagedHeap.Text.Shown
import ManagedHeap.Text.Quoted
import ManagedHeap.Capture.Draft
import ManagedHeap.Capture.Marks
import ManagedHeap.Capture.Script
import ManagedHeap.Capture.Handlers
import ManagedHeap.Capture.Survey
import ManagedHeap.Capture.Roots
import ManagedHeap.Capture.Natives
import ManagedHeap.Capture.Progress
import ManagedHeap.Capture.Basic
import ManagedHeap.Observer
import ManagedHeap.Word
import ManagedHeap.Proofs.Reading
import ManagedHeap.Proofs.Building
import ManagedHeap.Proofs.Packing
import ManagedHeap.Proofs.StringTable
import ManagedHeap.Proofs.RoundTrip
import ManagedHeap.Proofs.Growth
import ManagedHeap.Proofs.Marks
import ManagedHeap.Proofs.Completion
import ManagedHeap.Proofs.Explained
import ManagedHeap.Proofs.Following
import ManagedHeap.Proofs.Containers
import ManagedHeap.Proofs.Hidden
import ManagedHeap.Proofs.Ledger
import ManagedHeap.Proofs.Residence
import ManagedHeap.Proofs.Tracking
import ManagedHeap.Proofs.Stability
import ManagedHeap.Proofs.Renaming
import ManagedHeap.Proofs.Lockstep
import ManagedHeap.Proofs.Numbering
import ManagedHeap.Proofs.Relocation
import ManagedHeap.Proofs.Transparency
import ManagedHeap.Proofs.Strokes
import ManagedHeap.Proofs.Faultless
import ManagedHeap.Proofs.Depiction
import ManagedHeap.Proofs.Contents
import ManagedHeap.Proofs.Issued
import ManagedHeap.Proofs.Census
import ManagedHeap.Proofs.Fingerprints
import ManagedHeap.Proofs.Reordering
import ManagedHeap.Proofs.VisitOrder
import ManagedHeap.Proofs.Departure
import ManagedHeap.Proofs.Register
import ManagedHeap.Proofs.Population
import ManagedHeap.Proofs.Deliveries
import ManagedHeap.Proofs.Readers
import ManagedHeap.Proofs.Upkeep
import ManagedHeap.Proofs.Cutting
import ManagedHeap.Proofs.Registration
import ManagedHeap.Proofs.Enumeration
import ManagedHeap.Proofs.Halting
import ManagedHeap.Proofs.Adjacency
import ManagedHeap.Proofs.Lookup
import ManagedHeap.Proofs.Correspondence
import ManagedHeap.Proofs.Rearrangement
import ManagedHeap.Proofs.Legibility
import ManagedHeap.Proofs.Rolls
import ManagedHeap.Proofs.RootEdges
import ManagedHeap.Proofs.ArrayEdges
import ManagedHeap.Proofs.Sketching
import ManagedHeap.Proofs.Positions
import ManagedHeap.Proofs.NativeEdges
import ManagedHeap.Proofs.Batching
import ManagedHeap.Proofs.FirstUse
import ManagedHeap.Proofs.EdgeRecovery
import ManagedHeap.Proofs.MarkSets
import ManagedHeap.Proofs.Freezing
