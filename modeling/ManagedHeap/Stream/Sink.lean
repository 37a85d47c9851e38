/-!
Sinks: what takes the chunks of a document and the batches of statistics. A sink may ask to stop
at any write, and any write may fail.
-/
namespace ManagedHeap

/-- The population of one interval has changed: how many of the objects that were allocated in it
live, and their size. The size is kept below `wordLimit 32`. The number of the interval and the
count are not cut: there are taken to be fewer than `wordLimit 32` intervals and objects. -/
structure Update where
  index : Nat
  count : Nat
  size : Nat
  deriving DecidableEq, Repr, Inhabited

/-- What a sink says to a write that it took. -/
inductive Answer where
  | proceed
  | stop
  deriving DecidableEq, Repr, Inhabited

/-- A write that failed, in the words of whatever stands behind the sink. -/
structure SinkError where
  reason : String
  deriving DecidableEq, Repr, Inhabited

/-- A sink whose state is a `σ`. -/
structure Sink (σ : Type) where
  /-- Wanted size of a chunk in bytes, and of a batch in updates. -/
  chunkSize : Nat
  write : String → σ → Except SinkError Answer × σ
  writeUpdates : List Update → σ → Except SinkError Answer × σ
  /-- All has been written. -/
  close : σ → Except SinkError Unit × σ

/-- Whether more may be written to a sink. -/
inductive Flow where
  | running
  | stopped
  | failed (e : SinkError)
  deriving DecidableEq, Repr, Inhabited

def Flow.after : Except SinkError Answer → Flow
  | .ok .proceed => .running
  | .ok .stop => .stopped
  | .error e => .failed e

/-- How writing to a sink came to its end. -/
inductive Ending where
  | completed
  | aborted
  | failed (e : SinkError)
  deriving DecidableEq, Repr, Inhabited

/-- End a stream: a sink that takes more is closed, any other is left as it is. -/
def Sink.finish {σ : Type} (k : Sink σ) (flow : Flow) (s : σ) : Ending × σ :=
  match flow with
  | .stopped => (.aborted, s)
  | .failed e => (.failed e, s)
  | .running =>
    match k.close s with
    | (.ok (), s) => (.completed, s)
    | (.error e, s) => (.failed e, s)

/-! ## Sinks that keep what they get -/

/-- What a collecting sink has got. -/
structure Collected where
  chunks : List String := []
  updates : List Update := []
  batches : Nat := 0
  isFinished : Bool := false
  deriving DecidableEq, Repr, Inhabited

def Collected.text (c : Collected) : String := String.join c.chunks

/-- Proceed until the given number of writes is reached. -/
def Answer.until (limit : Option Nat) (writes : Nat) : Answer :=
  match limit with
  | some n => if n ≤ writes then .stop else .proceed
  | none => .proceed

/-- Keeps everything. With a limit it asks to stop at the write that reaches it, and keeps that
one too. Chunks and batches are counted apart. -/
def Sink.collecting (chunkSize : Nat) (limit : Option Nat) : Sink Collected where
  chunkSize := chunkSize
  write chunk c :=
    let c := { c with chunks := c.chunks ++ [chunk] }
    (.ok (Answer.until limit c.chunks.length), c)
  writeUpdates updates c :=
    let c := { c with updates := c.updates ++ updates, batches := c.batches + 1 }
    (.ok (Answer.until limit c.batches), c)
  close c := (.ok (), { c with isFinished := true })

/-- A collecting sink that refuses its `failAt`-th write, chunks and batches counted together, and
keeps nothing of it; with `failEnd` it cannot be closed. -/
def Sink.refusing (chunkSize : Nat) (failAt : Option Nat) (failEnd : Bool) :
    Sink (Nat × Collected) where
  chunkSize := chunkSize
  write chunk s :=
    let n := s.1 + 1
    if failAt = some n then (.error ⟨"write " ++ toString n ++ " refused"⟩, (n, s.2))
    else
      let r := (Sink.collecting chunkSize none).write chunk s.2
      (r.1, (n, r.2))
  writeUpdates updates s :=
    let n := s.1 + 1
    if failAt = some n then (.error ⟨"write " ++ toString n ++ " refused"⟩, (n, s.2))
    else
      let r := (Sink.collecting chunkSize none).writeUpdates updates s.2
      (r.1, (n, r.2))
  close s :=
    if failEnd then (.error ⟨"end refused"⟩, s)
    else (.ok (), (s.1, { s.2 with isFinished := true }))

/-- Bytes that a bounded sink has got. -/
structure Stored where
  bytes : List UInt8 := []
  isFinished : Bool := false
  deriving DecidableEq, Repr, Inhabited

/-- The bytes as text. A character of which only the first bytes came is shown as a replacement
character. -/
def Stored.text (s : Stored) : String :=
  let upTo (n : Nat) : Option String := String.fromUTF8? ⟨(s.bytes.take n).toArray⟩
  let n := s.bytes.length
  match upTo n with
  | some text => text
  | none =>
    match [upTo (n - 1), upTo (n - 2), upTo (n - 3)].findSome? id with
    | some text => text.push '\uFFFD'
    | none => ""

/-- Keeps bytes while there is room; a chunk that does not fit is kept as far as it fits, and its
write fails. Statistics are not taken: a batch stops the stream. -/
def Sink.bounded (chunkSize : Nat) (room : Option Nat) : Sink Stored where
  chunkSize := chunkSize
  write chunk s :=
    let bytes := chunk.toUTF8.data.toList
    match room with
    | some room =>
      if s.bytes.length + bytes.length ≤ room then
        (.ok .proceed, { s with bytes := s.bytes ++ bytes })
      else
        (.error ⟨"failed to write whole buffer"⟩,
          { s with bytes := s.bytes ++ bytes.take (room - s.bytes.length) })
    | none => (.ok .proceed, { s with bytes := s.bytes ++ bytes })
  writeUpdates _ s := (.ok .stop, s)
  close s := (.ok (), { s with isFinished := true })

end ManagedHeap
