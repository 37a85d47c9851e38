import ManagedHeap.Ledger.Basic
import ManagedHeap.Stream.Sink
/-!
Statistics of the live population. Each report closes a span of allocations and tells a sink, in
batches, of every span whose live objects have changed in number or size since they were last
reported.
-/
namespace ManagedHeap

/-- How many objects, and their size, up to the largest that is recorded. The count is not cut: a
ledger is taken to have fewer than `wordLimit 32` rows. -/
structure Tally where
  count : Nat := 0
  size : Nat := 0
  deriving DecidableEq, Repr, Inhabited

def Tally.add (t : Tally) (r : Row) : Tally :=
  ⟨t.count + 1, min (t.size + r.size) maxSize⟩

/-- The tally of the rows with numbers below a bound, which come first, and the rows behind
them. -/
def tallyBelow (bound : ObjectId) : Tally → List Row → Tally × List Row
  | t, [] => (t, [])
  | t, r :: rs => if r.id.raw < bound.raw then tallyBelow bound (t.add r) rs else (t, r :: rs)

/-- Updates on their way to a sink. -/
structure Batch (σ : Type) where
  /-- Most updates in one batch, at least 1. -/
  limit : Nat
  waiting : List Update := []
  flow : Flow := .running
  state : σ

namespace Batch

variable {σ : Type}

/-- Hand the waiting updates to the sink. -/
def flush (k : Sink σ) (b : Batch σ) : Batch σ :=
  match k.writeUpdates b.waiting b.state with
  | (.ok .proceed, s) => { b with waiting := [], state := s }
  | (answer, s) => { b with flow := Flow.after answer, state := s }

/-- Add an update; a full batch goes to the sink. -/
def add (k : Sink σ) (b : Batch σ) (u : Update) : Batch σ :=
  let b := { b with waiting := b.waiting ++ [u] }
  if b.limit ≤ b.waiting.length then b.flush k else b

/-- Hand over the last updates and end the stream. -/
def finish (k : Sink σ) (b : Batch σ) : Ending × σ :=
  let b := if b.flow = .running ∧ b.waiting ≠ [] then b.flush k else b
  k.finish b.flow b.state

end Batch

/-- Bring the spans up to date with the rows, the first span being number `index`, and send an
update for each that changed. A sink that takes no more ends the work; the spans behind keep what
was last reported for them. -/
def reportSpans {σ : Type} (k : Sink σ) :
    Nat → List Row → List Span → Batch σ → List Span × Batch σ
  | _, _, [], b => ([], b)
  | index, rows, s :: ss, b =>
    let (t, rest) := tallyBelow s.bound {} rows
    if s.count = t.count ∧ s.size = t.size then
      let (ss, b) := reportSpans k (index + 1) rest ss b
      (s :: ss, b)
    else
      let s := { s with count := t.count, size := t.size }
      let b := b.add k ⟨index, t.count, t.size⟩
      if b.flow = .running then
        let (ss, b) := reportSpans k (index + 1) rest ss b
        (s :: ss, b)
      else (s :: ss, b)

/-- What a report came to. -/
structure Report (σ : Type) where
  ledger : Ledger
  ending : Ending
  sink : σ

namespace Ledger

/-- Microseconds from the first span to the last. -/
def elapsed (l : Ledger) : Int :=
  match l.spans.head?, l.spans.getLast? with
  | some first, some last => last.time - first.time
  | _, _ => 0

/-- Close a span at time `now` and report every span that changed. -/
def report {σ : Type} (l : Ledger) (live : List HeapObject) (now : Int) (k : Sink σ) (s : σ) :
    Report σ :=
  let l := l.refresh live
  let spans := l.spans ++ [{ bound := ⟨l.nextId⟩, time := now }]
  let (spans, batch) := reportSpans k 0 (l.rows.toList.drop 1) spans
    { limit := max 1 k.chunkSize, state := s }
  let (ending, s) := batch.finish k
  ⟨{ l with spans := spans }, ending, s⟩

end Ledger

end ManagedHeap
