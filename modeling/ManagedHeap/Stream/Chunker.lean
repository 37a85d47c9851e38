import ManagedHeap.Stream.Sink
import ManagedHeap.Word
/-!
Cutting a sequence of records into chunks. A chunk ends only where a record ends and is no longer
than the sink wants, unless it is a single long record. After a stop or a failure nothing more is
written. Room for one chunk is set aside at the start, so a sink must want chunks that can be
addressed.
-/
namespace ManagedHeap

/-- A sink that is being written to, and the records that wait for the next chunk. -/
structure Chunker (σ : Type) where
  /-- Largest size of a chunk in bytes, at least 1. -/
  limit : Nat
  buffer : String := ""
  /-- Chunks that the sink took. -/
  written : Nat := 0
  flow : Flow := .running
  state : σ

/-- A sink that nothing can be written to. -/
inductive Chunker.Fault where
  /-- It wants chunks that are too large to be addressed. -/
  | chunkTooLarge
  deriving DecidableEq, Repr

def Chunker.Fault.message : Chunker.Fault → String
  | .chunkTooLarge => "capacity overflow"

namespace Chunker

variable {σ : Type}

/-- Nothing waits and nothing has been written. -/
def ofSink (k : Sink σ) (s : σ) : Chunker σ :=
  { limit := max 1 k.chunkSize, state := s }

/-- Begin to write to a sink. -/
def start (k : Sink σ) (s : σ) : Except Fault (Chunker σ) :=
  if k.chunkSize < wordLimit 63 then .ok (ofSink k s) else .error .chunkTooLarge

theorem start_of_lt {k : Sink σ} (h : k.chunkSize < wordLimit 63) (s : σ) :
    start k s = .ok (ofSink k s) := by
  simp [start, h]

theorem start_of_le {k : Sink σ} (h : wordLimit 63 ≤ k.chunkSize) (s : σ) :
    start k s = .error .chunkTooLarge := by
  simp [start, Nat.not_lt.mpr h]

def isRunning (c : Chunker σ) : Bool := c.flow == .running

/-- Hand the waiting records to the sink as one chunk. -/
def flush (k : Sink σ) (c : Chunker σ) : Chunker σ :=
  if c.isRunning ∧ c.buffer ≠ "" then
    match k.write c.buffer c.state with
    | (.error e, s) => { c with flow := .failed e, state := s }
    | (.ok answer, s) =>
      { c with
        buffer := ""
        written := c.written + 1
        flow := Flow.after (.ok answer)
        state := s }
  else c

/-- Hand the waiting records over if the next one would make the chunk too long. -/
def makeRoom (k : Sink σ) (c : Chunker σ) (record : String) : Chunker σ :=
  if c.buffer ≠ "" ∧ c.limit < c.buffer.utf8ByteSize + record.utf8ByteSize then c.flush k else c

/-- Add a record. -/
def push (k : Sink σ) (c : Chunker σ) (record : String) : Chunker σ :=
  if c.isRunning then
    let c := c.makeRoom k record
    if c.isRunning then
      let c := { c with buffer := c.buffer ++ record }
      if c.limit ≤ c.buffer.utf8ByteSize then c.flush k else c
    else c
  else c

/-- Add records one after the other. -/
def pushAll (k : Sink σ) (c : Chunker σ) (records : List String) : Chunker σ :=
  records.foldl (push k) c

theorem push_of_not_running (k : Sink σ) (c : Chunker σ) (record : String)
    (h : c.isRunning = false) : c.push k record = c := by
  simp [push, h]

/-- Behind a stop or a failure nothing changes. -/
theorem pushAll_of_not_running (k : Sink σ) (c : Chunker σ) (records : List String)
    (h : c.isRunning = false) : c.pushAll k records = c := by
  unfold pushAll
  induction records with
  | nil => rfl
  | cons r rs ih => simpa [push_of_not_running k c r h] using ih

/-- Hand over what waits and end the stream. -/
def finish (k : Sink σ) (c : Chunker σ) : Ending × σ :=
  let c := c.flush k
  k.finish c.flow c.state

end Chunker

/-- Number of chunks written, and whether the sink asked to stop, after each record that did not
fail. -/
def Chunker.history {σ : Type} (k : Sink σ) : Chunker σ → List String → List (Nat × Bool)
  | _, [] => []
  | c, record :: records =>
    let c := c.push k record
    match c.flow with
    | .failed _ => []
    | flow => (c.written, flow == .stopped) :: history k c records

/-- Write records to a sink, in chunks, and end the stream. -/
def Sink.writeRecords {σ : Type} (k : Sink σ) (s : σ) (records : List String) :
    Except Chunker.Fault (Ending × σ) := do
  let c ← Chunker.start k s
  .ok ((c.pushAll k records).finish k)

end ManagedHeap
