import ManagedHeap.Proofs.Packing

/-!
# Where a stream is cut

The chunks of a document depend on the wanted size alone. A sink is handed these chunks one after
the other, `Sink.hand`, until it asks to stop or fails, and only one that took them all is closed.
A second chunker, whose sink keeps everything, says at each moment what these chunks are: the first
one `Trails` it.
-/
namespace ManagedHeap

/-! ## Handing chunks over -/

namespace Sink

variable {σ : Type}

/-- Hand chunks to a sink until it asks to stop or fails. -/
def hand (k : Sink σ) (s : σ) : List String → Flow × σ
  | [] => (.running, s)
  | chunk :: chunks =>
    let (answer, s) := k.write chunk s
    match Flow.after answer with
    | .running => hand k s chunks
    | flow => (flow, s)

theorem hand_append (k : Sink σ) (s : σ) (chunks chunks' : List String) :
    k.hand s (chunks ++ chunks') =
      match k.hand s chunks with
      | (.running, s) => k.hand s chunks'
      | stopped => stopped := by
  induction chunks generalizing s with
  | nil => rfl
  | cons chunk chunks ih =>
    simp only [List.cons_append, hand]
    cases Flow.after (k.write chunk s).1 with
    | running => exact ih _
    | stopped | failed => rfl

theorem hand_singleton (k : Sink σ) (s : σ) (chunk : String) :
    k.hand s [chunk] = (Flow.after (k.write chunk s).1, (k.write chunk s).2) := by
  simp only [hand]
  cases Flow.after (k.write chunk s).1 <;> rfl

/-- Behind a stop or a failure nothing more is handed over. -/
theorem hand_append_of_not_running {k : Sink σ} {s : σ} {chunks : List String}
    (h : (k.hand s chunks).1 ≠ .running) (chunks' : List String) :
    k.hand s (chunks ++ chunks') = k.hand s chunks := by
  rw [hand_append]
  split
  · next heq => exact absurd (congrArg Prod.fst heq) h
  · rfl

theorem hand_concat_of_running {k : Sink σ} {s : σ} {chunks : List String}
    (h : (k.hand s chunks).1 = .running) (chunk : String) :
    k.hand s (chunks ++ [chunk]) =
      (Flow.after (k.write chunk (k.hand s chunks).2).1,
        (k.write chunk (k.hand s chunks).2).2) := by
  have heq : k.hand s chunks = (.running, (k.hand s chunks).2) := Prod.ext h rfl
  rw [hand_append, heq]
  exact hand_singleton ..

end Sink

/-! ## The chunks of a run -/

namespace Chunker

variable {σ : Type} {k : Sink σ} {s : σ} {n : Nat} {c : Chunker σ} {d : Chunker Collected}

theorem isRunning_iff : c.isRunning = true ↔ c.flow = .running := beq_iff_eq

theorem flush_of_not_running (h : c.flow ≠ .running) : c.flush k = c := by
  simp [flush, isRunning, h]

theorem flush_of_empty (h : c.buffer = "") : c.flush k = c := by
  simp [flush, h]

theorem flow_flush (hflow : c.flow = .running) (hbuffer : c.buffer ≠ "") :
    ((c.flush k).flow, (c.flush k).state) =
      (Flow.after (k.write c.buffer c.state).1, (k.write c.buffer c.state).2) := by
  have hrun : c.isRunning = true := isRunning_iff.mpr hflow
  unfold flush
  rw [if_pos ⟨hrun, hbuffer⟩]
  rcases k.write c.buffer c.state with ⟨answer | answer, s'⟩ <;> rfl

theorem buffer_flush (hflow : c.flow = .running) (h : (c.flush k).flow = .running) :
    (c.flush k).buffer = "" := by
  have hrun : c.isRunning = true := isRunning_iff.mpr hflow
  by_cases hbuffer : c.buffer = ""
  · rw [flush_of_empty hbuffer, hbuffer]
  · unfold flush at h ⊢
    rw [if_pos ⟨hrun, hbuffer⟩] at h ⊢
    split at h
    · cases h
    · rfl

/-- A chunker trails one whose sink keeps everything: its sink has been handed the chunks that the
other one keeps, and while it runs the same records wait in both. -/
structure Trails (k : Sink σ) (s : σ) (c : Chunker σ) (d : Chunker Collected) : Prop where
  limit : c.limit = d.limit
  running : d.flow = .running
  handed : (c.flow, c.state) = k.hand s d.state.chunks
  buffer : c.flow = .running → c.buffer = d.buffer
  kept : d.state = { chunks := d.state.chunks }

namespace Trails

theorem flow (h : c.Trails k s d) : c.flow = (k.hand s d.state.chunks).1 :=
  congrArg Prod.fst h.handed

theorem state (h : c.Trails k s d) : c.state = (k.hand s d.state.chunks).2 :=
  congrArg Prod.snd h.handed

theorem ofSink (k : Sink σ) (s : σ) :
    (Chunker.ofSink k s).Trails k s (Chunker.ofSink (Sink.collecting k.chunkSize none) {}) :=
  ⟨rfl, rfl, rfl, fun _ => rfl, rfl⟩

/-- What the other chunker holds is one chunk more. -/
theorem flush (h : c.Trails k s d) :
    (c.flush k).Trails k s (d.flush (Sink.collecting n none)) := by
  by_cases hbuffer : d.buffer = ""
  · have hflush : c.flush k = c := by
      by_cases hflow : c.flow = .running
      · exact flush_of_empty ((h.buffer hflow).trans hbuffer)
      · exact flush_of_not_running hflow
    rw [hflush, flush_of_empty hbuffer]
    exact h
  · rw [flush_of_proceeds (Sink.proceeds_collecting n) h.running hbuffer]
    have hkept : ((Sink.collecting n none).write d.buffer d.state).2 =
        { chunks := d.state.chunks ++ [d.buffer] } := by
      rw [h.kept]
      rfl
    refine ⟨(limit_flush k c).trans h.limit, h.running, ?_, fun hflow => ?_, by rw [hkept]⟩
    · rw [hkept]
      by_cases hflow : c.flow = .running
      · have hwaiting : c.buffer ≠ "" := by rwa [h.buffer hflow]
        rw [Sink.hand_concat_of_running (h.flow ▸ hflow), flow_flush hflow hwaiting, h.buffer hflow,
          h.state]
      · rw [Sink.hand_append_of_not_running (h.flow ▸ hflow), flush_of_not_running hflow]
        exact h.handed
    · have hbefore : c.flow = .running := by
        by_contra hstopped
        rw [flush_of_not_running hstopped] at hflow
        exact hstopped hflow
      exact buffer_flush hbefore hflow

/-- Both hold one more record. -/
theorem append (h : c.Trails k s d) (record : String) :
    Trails k s { c with buffer := c.buffer ++ record } { d with buffer := d.buffer ++ record } :=
  ⟨h.limit, h.running, h.handed, fun hflow => congrArg (· ++ record) (h.buffer hflow),
    h.kept⟩

/-- A chunker that does not run any more still trails one that goes on. -/
theorem hold (h : c.Trails k s d) (hc : c.flow ≠ .running) (record : String) :
    c.Trails k s { d with buffer := d.buffer ++ record } :=
  ⟨h.limit, h.running, h.handed, fun hflow => absurd hflow hc, h.kept⟩

/-- Both flush or neither does. -/
theorem flushIf (h : c.Trails k s d) (p : Prop) [Decidable p] :
    (if p then c.flush k else c).Trails k s
      (if p then d.flush (Sink.collecting n none) else d) := by
  split
  · exact h.flush
  · exact h

theorem flushIf_right (h : c.Trails k s d) (hc : c.flow ≠ .running) (p : Prop) [Decidable p] :
    c.Trails k s (if p then d.flush (Sink.collecting n none) else d) := by
  have hflush := h.flushIf (n := n) p
  rwa [flush_of_not_running hc, ite_self] at hflush

theorem makeRoom (h : c.Trails k s d) (hc : c.flow = .running) (record : String) :
    (c.makeRoom k record).Trails k s (d.makeRoom (Sink.collecting n none) record) := by
  unfold Chunker.makeRoom
  rw [h.buffer hc, h.limit]
  exact h.flushIf _

/-- What waits is handed over once it reaches the limit. -/
theorem flushFull (h : c.Trails k s d) (hc : c.flow = .running) :
    (if c.limit ≤ c.buffer.utf8ByteSize then c.flush k else c).Trails k s
      (if d.limit ≤ d.buffer.utf8ByteSize then d.flush (Sink.collecting n none) else d) := by
  rw [h.buffer hc, h.limit]
  exact h.flushIf _

theorem push (h : c.Trails k s d) (record : String) :
    (c.push k record).Trails k s (d.push (Sink.collecting n none) record) := by
  have hd : d.isRunning = true := isRunning_iff.mpr h.running
  by_cases hc : c.flow = .running
  · have hroom := h.makeRoom (n := n) hc record
    have hrun : c.isRunning = true := isRunning_iff.mpr hc
    have hd' : (d.makeRoom (Sink.collecting n none) record).isRunning = true :=
      isRunning_iff.mpr hroom.running
    simp only [Chunker.push, hrun, hd, hd', ↓reduceIte]
    -- the sink may stop at the chunk that is handed over to make room
    by_cases hc' : (c.makeRoom k record).flow = .running
    · rw [if_pos (isRunning_iff.mpr hc')]
      exact (hroom.append record).flushFull hc'
    · rw [if_neg (mt isRunning_iff.mp hc')]
      exact (hroom.hold hc' record).flushIf_right hc' _
  · have hroom : c.Trails k s (d.makeRoom (Sink.collecting n none) record) :=
      h.flushIf_right hc _
    have hd' : (d.makeRoom (Sink.collecting n none) record).isRunning = true :=
      isRunning_iff.mpr hroom.running
    rw [push_of_not_running k c record (beq_eq_false_iff_ne.mpr hc)]
    simp only [Chunker.push, hd, hd', ↓reduceIte]
    exact (hroom.hold hc record).flushIf_right hc _

theorem pushAll (h : c.Trails k s d) (records : List String) :
    (c.pushAll k records).Trails k s (d.pushAll (Sink.collecting n none) records) := by
  induction records generalizing c d with
  | nil => exact h
  | cons record records ih => exact ih (h.push record)

end Trails

end Chunker

namespace Sink

variable {σ : Type}

/-- Hand chunks over and end the stream. -/
def deliver (k : Sink σ) (s : σ) (chunks : List String) : Ending × σ :=
  let (flow, s) := k.hand s chunks
  k.finish flow s

theorem deliver_cons (k : Sink σ) (s : σ) (chunk : String) (chunks : List String) :
    k.deliver s (chunk :: chunks) =
      match k.write chunk s with
      | (.ok .proceed, s) => k.deliver s chunks
      | (.ok .stop, s) => (.aborted, s)
      | (.error e, s) => (.failed e, s) := by
  rcases hwrite : k.write chunk s with ⟨e | _ | _, s'⟩ <;>
    simp only [deliver, hand, hwrite, Flow.after, finish]

/-- The chunks into which records are cut for sinks that want chunks of a size. -/
def chunksOf (size : Nat) (records : List String) : List String :=
  (((Chunker.ofSink (collecting size none) {}).pushAll (collecting size none) records).flush
    (collecting size none)).state.chunks

/-- Whatever a sink answers, writing records to it is delivering their chunks. -/
theorem finish_pushAll (k : Sink σ) (s : σ) (records : List String) :
    ((Chunker.ofSink k s).pushAll k records).finish k =
      k.deliver s (chunksOf k.chunkSize records) := by
  have htrails := ((Chunker.Trails.ofSink k s).pushAll (n := k.chunkSize) records).flush
    (n := k.chunkSize)
  rw [Chunker.finish, deliver, chunksOf, ← htrails.handed]

theorem hand_of_proceeds {k : Sink σ} (hk : k.Proceeds) (s : σ) (chunks : List String) :
    k.hand s chunks = (.running, k.takeAll s chunks) := by
  induction chunks generalizing s with
  | nil => rfl
  | cons chunk chunks ih =>
    simp only [hand, hk chunk s, Flow.after, ih]
    rfl

theorem deliver_collecting (size : Nat) (chunks : List String) :
    (collecting size none).deliver {} chunks =
      (.completed, { chunks := chunks, isFinished := true }) := by
  rw [deliver, hand_of_proceeds (proceeds_collecting size), takeAll_collecting]
  rfl

/-- A collecting sink with a limit holds as many chunks as the limit says, and is closed if there
are fewer. -/
theorem deliver_collecting_limit (size : Nat) {n : Nat} {c : Collected} (hn : c.chunks.length < n)
    (chunks : List String) :
    (collecting size (some n)).deliver c chunks =
      if n ≤ c.chunks.length + chunks.length then
        (.aborted, { c with chunks := c.chunks ++ chunks.take (n - c.chunks.length) })
      else (.completed, { c with chunks := c.chunks ++ chunks, isFinished := true }) := by
  induction chunks generalizing c with
  | nil =>
    rw [if_neg (by simp; omega)]
    simp [deliver, hand, finish, collecting]
  | cons chunk chunks ih =>
    rw [deliver_cons]
    by_cases hlast : n ≤ c.chunks.length + 1
    · have htake : n - c.chunks.length = 1 := by omega
      simp [collecting, Answer.until, hlast, htake]
      omega
    · have htake : n - c.chunks.length = n - (c.chunks.length + 1) + 1 := by omega
      have hnext := ih (c := { c with chunks := c.chunks ++ [chunk] }) (by simp; omega)
      simp only [List.length_append, List.length_cons, List.length_nil, Nat.zero_add,
        List.append_assoc, List.singleton_append] at hnext
      simp only [collecting, Answer.until, List.length_append, List.length_cons, List.length_nil,
        Nat.zero_add, hlast, ↓reduceIte] at hnext ⊢
      rw [hnext, htake, List.take_succ_cons, Nat.add_right_comm, Nat.add_assoc]

/-- So one that starts out empty holds the first chunks. -/
theorem exists_deliver_collecting (size : Nat) {n : Nat} (hn : 1 ≤ n) (chunks : List String) :
    ∃ c, (collecting size (some n)).deliver {} chunks =
        (if n ≤ chunks.length then .aborted else .completed, c) ∧
      c.chunks = chunks.take n ∧ c.chunks.length = min n chunks.length ∧
      (c.isFinished = true ↔ chunks.length < n) := by
  have hdeliver := deliver_collecting_limit size (c := {}) hn chunks
  simp only [List.length_nil, Nat.zero_add, Nat.sub_zero, List.nil_append] at hdeliver
  by_cases hle : n ≤ chunks.length
  · refine ⟨{ chunks := chunks.take n }, ?_, rfl, List.length_take, by simpa using hle⟩
    rw [hdeliver, if_pos hle, if_pos hle]
  · have hall : chunks.take n = chunks := List.take_of_length_le (by omega)
    refine ⟨{ chunks := chunks, isFinished := true }, ?_, hall.symm, ?_, by simpa using hle⟩
    · rw [hdeliver, if_neg hle, if_neg hle]
    · exact (Nat.min_eq_right (Nat.le_of_not_le hle)).symm

end Sink

/-! ## What a sink hears -/

/-- A call that a sink gets in the course of a stream, and its answer. -/
inductive Exchange where
  | write (chunk : String) (answer : Except SinkError Answer)
  | close (answer : Except SinkError Unit)

/-- A chunk after which the sink asks for more. -/
def Exchange.accepted (chunk : String) : Exchange := .write chunk (.ok .proceed)

/-- A sink, and all the calls that it gets. -/
def Sink.watched {σ : Type} (k : Sink σ) : Sink (σ × List Exchange) where
  chunkSize := k.chunkSize
  write chunk s :=
    let (answer, s') := k.write chunk s.1
    (answer, (s', s.2 ++ [.write chunk answer]))
  writeUpdates updates s :=
    let (answer, s') := k.writeUpdates updates s.1
    (answer, (s', s.2))
  close s :=
    let (answer, s') := k.close s.1
    (answer, (s', s.2 ++ [.close answer]))

/-- The calls of a stream of chunks, by the way in which it ends. A sink that asks to stop or fails
at a chunk has asked for more after each chunk before, and hears of nothing behind it. -/
inductive Cut (chunks : List String) : Ending → List Exchange → Prop
  | completed : Cut chunks .completed (chunks.map .accepted ++ [.close (.ok ())])
  | unclosed (e : SinkError) : Cut chunks (.failed e) (chunks.map .accepted ++ [.close (.error e)])
  | stopped (before after : List String) (chunk : String) (h : chunks = before ++ chunk :: after) :
    Cut chunks .aborted (before.map .accepted ++ [.write chunk (.ok .stop)])
  | failed (before after : List String) (chunk : String) (e : SinkError)
    (h : chunks = before ++ chunk :: after) :
    Cut chunks (.failed e) (before.map .accepted ++ [.write chunk (.error e)])

namespace Cut

variable {chunks : List String} {ending : Ending} {log : List Exchange}

theorem cons (h : Cut chunks ending log) (chunk : String) :
    Cut (chunk :: chunks) ending (.accepted chunk :: log) := by
  cases h with
  | completed => exact .completed
  | unclosed e => exact .unclosed e
  | stopped before after last h => exact .stopped (chunk :: before) after last (by rw [h]; rfl)
  | failed before after last e h => exact .failed (chunk :: before) after last e (by rw [h]; rfl)

/-- A stream is complete if all chunks were taken and the sink could be closed. -/
theorem completed_iff (h : Cut chunks ending log) :
    ending = .completed ↔ log = chunks.map .accepted ++ [.close (.ok ())] := by
  constructor
  · rintro rfl
    cases h
    rfl
  · intro hlog
    have hlast : log.getLast? = some (.close (.ok ())) := by rw [hlog, List.getLast?_concat]
    cases h <;> simp at hlast ⊢

/-- It is aborted if the last call is a chunk at which the sink asked to stop. -/
theorem aborted_iff (h : Cut chunks ending log) :
    ending = .aborted ↔ ∃ chunk, log.getLast? = some (.write chunk (.ok .stop)) := by
  cases h <;> simp

/-- It has failed if the last call has. -/
theorem failed_iff (h : Cut chunks ending log) (e : SinkError) :
    ending = .failed e ↔ (∃ chunk, log.getLast? = some (.write chunk (.error e))) ∨
      log.getLast? = some (.close (.error e)) := by
  cases h <;> simp

end Cut

/-- Watching a sink changes nothing, and it hears of the chunks up to where the stream is cut. -/
theorem Sink.exists_cut {σ : Type} (k : Sink σ) (s : σ) (log : List Exchange)
    (chunks : List String) : ∃ ending s' new, k.deliver s chunks = (ending, s') ∧
      k.watched.deliver (s, log) chunks = (ending, (s', log ++ new)) ∧ Cut chunks ending new := by
  induction chunks generalizing s log with
  | nil =>
    rcases hclose : k.close s with ⟨e | _, s'⟩
    · refine ⟨.failed e, s', [.close (.error e)], ?_, ?_, .unclosed e⟩ <;>
        simp [deliver, hand, finish, watched, hclose]
    · refine ⟨.completed, s', [.close (.ok ())], ?_, ?_, .completed⟩ <;>
        simp [deliver, hand, finish, watched, hclose]
  | cons chunk chunks ih =>
    rw [deliver_cons, deliver_cons]
    rcases hwrite : k.write chunk s with ⟨e | _ | _, s₁⟩
    · refine ⟨.failed e, s₁, [.write chunk (.error e)], rfl, ?_, .failed [] chunks chunk e rfl⟩
      simp [watched, hwrite]
    · obtain ⟨ending, s', new, hdeliver, hwatched, hcut⟩ :=
        ih s₁ (log ++ [.write chunk (.ok .proceed)])
      refine ⟨ending, s', .accepted chunk :: new, hdeliver, ?_, hcut.cons chunk⟩
      simpa [watched, hwrite, Exchange.accepted] using hwatched
    · refine ⟨.aborted, s₁, [.write chunk (.ok .stop)], rfl, ?_, .stopped [] chunks chunk rfl⟩
      simp [watched, hwrite]

/-! ## Documents -/

namespace Document

variable {σ : Type} {g : Graph}

/-- Whatever the sink answers, a graph is written as its records are: a stop or a failure leaves out
only what would have no effect. -/
theorem writeTo_of_records {rs : List String} (h : records g = .ok rs) (k : Sink σ)
    (c : Chunker σ) : writeTo g k c = .ok ((c.pushAll k rs).finish k) := by
  unfold records at h
  unfold writeTo
  split at h
  · cases h
  · next hroot =>
    rw [if_neg hroot]
    cases hedges : edgesBySource g with
    | error f => rw [hedges] at h; cases h
    | ok edges =>
      rw [hedges] at h
      obtain rfl := Except.ok.inj h
      have hall : c.pushAll k (opening g :: bodyLines g edges) =
          ((c.pushAll k (opening g :: (nodePart g).1)).push k edgesOpening).pushAll k
            (tailLines g (nodePart g).2 edges) := by
        simp [bodyLines, Chunker.pushAll]
      rw [hall]
      dsimp only
      split
      · next hstop =>
        have hrun : (c.pushAll k (opening g :: (nodePart g).1)).isRunning = false := by
          simpa using (Bool.and_eq_true_iff.mp hstop).2
        rw [Chunker.push_of_not_running _ _ _ hrun, Chunker.pushAll_of_not_running _ _ _ hrun]
      · split
        · next hfailed =>
          have hrun : ((c.pushAll k (opening g :: (nodePart g).1)).push k
              edgesOpening).isRunning = false := by
            rw [Chunker.isRunning, hfailed]
            rfl
          rw [Chunker.pushAll_of_not_running _ _ _ hrun]
        · rfl

theorem exists_children (hgrouped : g.isGrouped = true) {index : Nat}
    (hindex : index < g.nodeCount) : ∃ edges, g.children index = .ok edges := by
  obtain ⟨places, hplaces⟩ := Option.isSome_iff_exists.mp hgrouped
  have hnode : g.nodes[index]? = some g.nodes[index] := Array.getElem?_eq_getElem hindex
  exact ⟨_, by simp only [Graph.children, Graph.node, hplaces, hnode, bind, Except.bind]; rfl⟩

/-- A grouped graph has its edges in the order in which they are written. -/
theorem exists_edgesBySource (hgrouped : g.isGrouped = true) :
    ∃ edges, edgesBySource g = .ok edges := by
  have hall : ∀ (indices : List Nat) (es : List Edge), (∀ i ∈ indices, i < g.nodeCount) →
      ∃ edges, indices.foldlM (fun es i => do .ok (es ++ (← g.children i))) es =
        (.ok edges : Except Graph.Fault _) := by
    intro indices
    induction indices with
    | nil => exact fun es _ => ⟨es, rfl⟩
    | cons i indices ih =>
      intro es hlt
      obtain ⟨edges, hedges⟩ := exists_children hgrouped (hlt i List.mem_cons_self)
      obtain ⟨all, hrest⟩ := ih (es ++ edges) fun j hj => hlt j (List.mem_cons_of_mem i hj)
      refine ⟨all, ?_⟩
      rw [List.foldlM_cons, hedges]
      exact hrest
  exact hall _ _ fun i hi => List.mem_range.mp hi

/-- A grouped graph whose first node is synthetic can be written. -/
theorem exists_records (hgrouped : g.isGrouped = true)
    (hroot : ∀ n, g.nodes[0]? = some n → n.kind = .synthetic) : ∃ rs, records g = .ok rs := by
  obtain ⟨edges, hedges⟩ := exists_edgesBySource hgrouped
  exact ⟨opening g :: bodyLines g edges, records_of_edges hroot hedges⟩

theorem write_of_records {rs : List String} (h : records g = .ok rs) {k : Sink σ}
    (hsize : k.chunkSize < wordLimit 63) (s : σ) :
    write g k s = .ok (k.deliver s (Sink.chunksOf k.chunkSize rs)) := by
  rw [write, Chunker.start_of_lt hsize]
  dsimp only
  rw [writeTo_of_records h, Sink.finish_pushAll]
  rfl

/-- A stream is cut only between chunks. The chunks are those which a sink that always asks for more
gets for the same wanted size. Any other sink gets the first of them, up to the one at which it
asks to stop or fails, and is closed only if there is none. Only a sink that wants chunks too large
to be addressed gets nothing. -/
theorem write_cut (hgrouped : g.isGrouped = true)
    (hroot : ∀ n, g.nodes[0]? = some n → n.kind = .synthetic) (k : Sink σ) (s : σ) :
    (k.chunkSize < wordLimit 63 → ∃ chunks,
      write g (Sink.collecting k.chunkSize none) {} =
        .ok (.completed, { chunks := chunks, isFinished := true }) ∧
      (∃ ending s' log, write g k s = .ok (ending, s') ∧
        write g k.watched (s, []) = .ok (ending, (s', log)) ∧ Cut chunks ending log ∧
        (ending = .completed ↔ log = chunks.map .accepted ++ [.close (.ok ())]) ∧
        (ending = .aborted ↔ ∃ chunk, log.getLast? = some (.write chunk (.ok .stop))) ∧
        ∀ e, ending = .failed e ↔ (∃ chunk, log.getLast? = some (.write chunk (.error e))) ∨
          log.getLast? = some (.close (.error e))) ∧
      ∀ n, 1 ≤ n → ∃ c, write g (Sink.collecting k.chunkSize (some n)) {} =
          .ok (if n ≤ chunks.length then .aborted else .completed, c) ∧
        c.chunks = chunks.take n ∧ c.chunks.length = min n chunks.length ∧
        (c.isFinished = true ↔ chunks.length < n)) ∧
    (wordLimit 63 ≤ k.chunkSize → write g k s = .error (.sink .chunkTooLarge)) := by
  obtain ⟨rs, hrs⟩ := exists_records hgrouped hroot
  refine ⟨fun hsize => ⟨Sink.chunksOf k.chunkSize rs, ?_, ?_, fun n hn => ?_⟩, fun hsize => ?_⟩
  · rw [write_of_records hrs (k := Sink.collecting k.chunkSize none) hsize,
      Sink.deliver_collecting]
    rfl
  · obtain ⟨ending, s', log, hdeliver, hwatched, hcut⟩ :=
      k.exists_cut s [] (Sink.chunksOf k.chunkSize rs)
    refine ⟨ending, s', log, ?_, ?_, hcut, hcut.completed_iff, hcut.aborted_iff, hcut.failed_iff⟩
    · rw [write_of_records hrs hsize, hdeliver]
    · rw [write_of_records hrs (k := k.watched) hsize]
      exact congrArg Except.ok hwatched
  · obtain ⟨c, hdeliver, hkept⟩ :=
      Sink.exists_deliver_collecting k.chunkSize hn (Sink.chunksOf k.chunkSize rs)
    refine ⟨c, ?_, hkept⟩
    rw [write_of_records hrs (k := Sink.collecting k.chunkSize (some n)) hsize]
    exact congrArg Except.ok hdeliver
  · rw [write, Chunker.start_of_le hsize]

theorem opening_ne_empty (g : Graph) : opening g ≠ "" := by
  intro h
  exact absurd (String.append_eq_empty_iff.mp h).2 (by decide)

/-- A document that was written has chunks. -/
theorem ne_nil_of_write {n : Nat} (hn : n < wordLimit 63) {c : Collected}
    (h : write g (Sink.collecting n none) {} = .ok (.completed, c)) : c.chunks ≠ [] := by
  intro hnil
  have htext := text_write g hn
  rw [h] at htext
  unfold records at htext
  split at htext
  · cases htext
  · cases hedges : edgesBySource g with
    | error f => rw [hedges] at htext; cases htext
    | ok edges =>
      rw [hedges] at htext
      have hempty : String.join (opening g :: bodyLines g edges) = "" := by
        have hjoin := (Prod.mk.inj (Except.ok.inj htext)).2
        rw [Collected.text, hnil] at hjoin
        exact hjoin.symm
      exact opening_ne_empty g (join_eq_empty.mp hempty _ List.mem_cons_self)

/-- A graph that has only its roots: a sink that asks to stop at the first chunk holds that one and
is not closed, and one that fails at the second chunk or cannot be closed hears of no more. -/
theorem write_cut_roots :
    Graph.withRoots.group.isGrouped = true ∧
    (∀ n, Graph.withRoots.group.nodes[0]? = some n → n.kind = .synthetic) ∧
    ∃ chunk chunks, write Graph.withRoots.group (Sink.collecting 64 none) {} =
        .ok (.completed, { chunks := chunk :: chunks, isFinished := true }) ∧
      (∃ c, write Graph.withRoots.group (Sink.collecting 64 (some 1)) {} = .ok (.aborted, c) ∧
        c.chunks = [chunk] ∧ c.isFinished = false) ∧
      ∃ ending s' log, write Graph.withRoots.group (Sink.refusing 64 (some 2) true).watched
          ((0, {}), []) = .ok (ending, (s', log)) ∧ Cut (chunk :: chunks) ending log := by
  have hroot : ∀ n, Graph.withRoots.group.nodes[0]? = some n → n.kind = .synthetic := by
    intro n hn
    have hkind : Graph.withRoots.group.nodes[0]?.map (·.kind) = some .synthetic := by decide
    rw [hn] at hkind
    exact Option.some.inj hkind
  obtain ⟨chunks, hall, ⟨ending, s', log, -, hwatched, hcut, -⟩, hlimit⟩ :=
    (write_cut rfl hroot (Sink.refusing 64 (some 2) true) (0, {})).1 (by decide)
  have hsize : (64 : Nat) < wordLimit 63 := by decide
  have hne : chunks ≠ [] := ne_nil_of_write hsize hall
  obtain ⟨chunk, rest, rfl⟩ := List.exists_cons_of_ne_nil hne
  obtain ⟨c, hwrite, hchunks, -, hfinished⟩ := hlimit 1 (Nat.le_refl 1)
  refine ⟨rfl, hroot, chunk, rest, hall, ⟨c, ?_, hchunks, ?_⟩, ending, s', log, hwatched, hcut⟩
  · rw [if_pos (by simp)] at hwrite
    exact hwrite
  · simpa using hfinished

/-- A sink that wants chunks of 2^63 bytes gets not even the first chunk. -/
theorem write_cut_unaddressable :
    Graph.withRoots.group.isGrouped = true ∧
      write Graph.withRoots.group (Sink.collecting (wordLimit 63) (some 1)) {} =
        .error (.sink .chunkTooLarge) :=
  ⟨rfl, rfl⟩

end Document

end ManagedHeap
