import ManagedHeap.Document.Writer
import Mathlib.Data.List.Chain

/-!
# How records are packed into chunks

A sink that always asks for more gets every record, in chunks that are groups of whole records. A
chunk is as long as the wanted size allows: only a single record may be longer, and a chunk that is
shorter and not the last was followed by a record that would not have fit. The invariant `Packing`
is about groups of records alone; `Chunker.Carries` says that a chunker has come to such a packing.
-/
namespace ManagedHeap

/-- Bytes of records that are put together. -/
def weight (records : List String) : Nat := (String.join records).utf8ByteSize

@[simp] theorem weight_nil : weight [] = 0 := rfl

@[simp]
theorem weight_append (records records' : List String) :
    weight (records ++ records') = weight records + weight records' := by
  rw [weight, String.join_append, String.utf8ByteSize_append]
  rfl

@[simp]
theorem weight_singleton (record : String) : weight [record] = record.utf8ByteSize := by
  simp [weight, String.join_cons]

theorem weight_eq_zero {records : List String} : weight records = 0 ↔ String.join records = "" :=
  String.utf8ByteSize_eq_zero_iff

/-- Records put together are empty only if all of them are. -/
theorem join_eq_empty {records : List String} :
    String.join records = "" ↔ ∀ r ∈ records, r = "" := by
  induction records with
  | nil => simp
  | cons r rs ih =>
    rw [← weight_eq_zero, ← List.singleton_append, weight_append, weight_singleton,
      Nat.add_eq_zero_iff, String.utf8ByteSize_eq_zero_iff, weight_eq_zero, ih]
    simp

/-- The groups are as they should be one behind the other: if the first has room left, the next
record that is not empty would not have fit into it. -/
def NoRoom (limit : Nat) (group next : List String) : Prop :=
  weight group < limit →
    ∃ r, next.find? (· != "") = some r ∧ limit < weight group + r.utf8ByteSize

/-- Groups of consecutive records, one for each chunk. Behind them only empty records are left. -/
structure Packed (limit : Nat) (records : List String) (groups : List (List String)) : Prop where
  whole : ∃ rest, groups.flatten ++ rest = records ∧ ∀ r ∈ rest, r = ""
  nonempty : ∀ g ∈ groups, String.join g ≠ ""
  single : ∀ g ∈ groups, limit < weight g → (g.filter (· != "")).length = 1
  greedy : groups.IsChain (NoRoom limit)

theorem join_map_join (groups : List (List String)) :
    String.join (groups.map String.join) = String.join groups.flatten := by
  induction groups with
  | nil => rfl
  | cons g gs ih => rw [List.map_cons, String.join_cons, ih, List.flatten_cons, String.join_append]

/-- Together the chunks are the text of the records. -/
theorem Packed.join_eq {limit : Nat} {records : List String} {groups : List (List String)}
    (h : Packed limit records groups) :
    String.join (groups.map String.join) = String.join records := by
  obtain ⟨rest, hrecords, hrest⟩ := h.whole
  rw [join_map_join, ← hrecords, String.join_append, join_eq_empty.mpr hrest, String.append_empty]

/-- Records in groups that are complete, and one more that waits. -/
structure Packing (limit : Nat) (records : List String) (groups : List (List String))
    (waiting : List String) : Prop where
  flatten : groups.flatten ++ waiting = records
  nonempty : ∀ g ∈ groups, String.join g ≠ ""
  single : ∀ g ∈ groups ++ [waiting], limit < weight g → (g.filter (· != "")).length = 1
  greedy : (groups ++ [waiting]).IsChain (NoRoom limit)

namespace Packing

variable {limit : Nat} {records : List String} {groups : List (List String)}
  {waiting : List String}

theorem empty (limit : Nat) : Packing limit [] [] [] where
  flatten := rfl
  nonempty g hg := (List.not_mem_nil hg).elim
  single g hg hlimit := by
    rw [List.nil_append, List.mem_singleton] at hg
    simp [hg] at hlimit
  greedy := .singleton _

/-- What waits is complete, and other records wait behind it. -/
theorem next (h : Packing limit records groups waiting) (hwaiting : String.join waiting ≠ "")
    {others : List String} (hroom : NoRoom limit waiting others)
    (hsingle : limit < weight others → (others.filter (· != "")).length = 1) :
    Packing limit (records ++ others) (groups ++ [waiting]) others where
  flatten := by rw [← h.flatten]; simp
  nonempty g hg := by
    rcases List.mem_append.mp hg with hg | hg
    · exact h.nonempty g hg
    · rwa [List.mem_singleton.mp hg]
  single g hg hlimit := by
    rcases List.mem_append.mp hg with hg | hg
    · exact h.single g hg hlimit
    · rw [List.mem_singleton.mp hg] at hlimit ⊢
      exact hsingle hlimit
  greedy := by
    refine List.isChain_append.mpr ⟨h.greedy, .singleton _, ?_⟩
    intro g hg g' hg'
    rw [List.getLast?_concat, Option.mem_def, Option.some.injEq] at hg
    rw [List.head?_cons, Option.mem_def, Option.some.injEq] at hg'
    subst hg hg'
    exact hroom

/-- A record that does not fit begins a group of its own. -/
theorem begin (h : Packing limit records groups waiting) (hwaiting : String.join waiting ≠ "")
    {r : String} (hr : limit < weight waiting + r.utf8ByteSize) :
    Packing limit (records ++ [r]) (groups ++ [waiting]) [r] := by
  refine h.next hwaiting (fun hroom => ?_) fun hlimit => ?_
  · have hne : r ≠ "" := by rintro rfl; simp at hr; omega
    exact ⟨r, by simp [hne], hr⟩
  · have hne : r ≠ "" := by rintro rfl; simp at hlimit
    simp [hne]

/-- Once the limit is reached, what waits is complete. -/
theorem close (h : Packing limit records groups waiting) (hwaiting : String.join waiting ≠ "")
    (hlimit : limit ≤ weight waiting) : Packing limit records (groups ++ [waiting]) [] := by
  have hroom : NoRoom limit waiting [] := fun hroom => by omega
  have hnext := h.next hwaiting hroom fun hover => by simp at hover
  rwa [List.append_nil] at hnext

theorem filter_eq_nil (h : String.join waiting = "") : waiting.filter (· != "") = [] := by
  simpa [List.filter_eq_nil_iff] using join_eq_empty.mp h

/-- A record that fits, or is the first that is not empty, is added to those that wait. -/
theorem add (h : Packing limit records groups waiting) {r : String}
    (hr : String.join waiting = "" ∨ weight waiting + r.utf8ByteSize ≤ limit) :
    Packing limit (records ++ [r]) groups (waiting ++ [r]) where
  flatten := by rw [← h.flatten]; simp
  nonempty := h.nonempty
  single g hg hlimit := by
    rcases List.mem_append.mp hg with hg | hg
    · exact h.single g (List.mem_append_left _ hg) hlimit
    · rw [List.mem_singleton.mp hg, weight_append, weight_singleton] at hlimit
      have hempty : String.join waiting = "" := hr.resolve_right (by omega)
      have hne : r ≠ "" := by
        rintro rfl
        rw [weight_eq_zero.mpr hempty] at hlimit
        simp at hlimit
      rw [List.mem_singleton.mp hg, List.filter_append, filter_eq_nil hempty]
      simp [hne]
  greedy := by
    obtain ⟨hgroups, -, hlast⟩ := List.isChain_append.mp h.greedy
    refine List.isChain_append.mpr ⟨hgroups, .singleton _, ?_⟩
    intro g hg next hnext hroom
    rw [List.head?_cons, Option.mem_def, Option.some.injEq] at hnext
    subst hnext
    obtain ⟨r', hr', hlimit⟩ := hlast g hg waiting rfl hroom
    exact ⟨r', by rw [List.find?_append, hr']; rfl, hlimit⟩

/-- If nothing but empty records waits, the groups are all there is. -/
theorem packed_of_empty (h : Packing limit records groups waiting)
    (hwaiting : String.join waiting = "") : Packed limit records groups where
  whole := ⟨waiting, h.flatten, join_eq_empty.mp hwaiting⟩
  nonempty := h.nonempty
  single g hg := h.single g (List.mem_append_left _ hg)
  greedy := h.greedy.left_of_append

/-- Otherwise what waits is the last group. -/
theorem packed (h : Packing limit records groups waiting) (hwaiting : String.join waiting ≠ "") :
    Packed limit records (groups ++ [waiting]) where
  whole := ⟨[], by rw [← h.flatten]; simp, fun r hr => (List.not_mem_nil hr).elim⟩
  nonempty g hg := by
    rcases List.mem_append.mp hg with hg | hg
    · exact h.nonempty g hg
    · rwa [List.mem_singleton.mp hg]
  single := h.single
  greedy := h.greedy

end Packing

/-! ## Sinks that ask for more -/

namespace Sink

variable {σ : Type}

/-- A sink that asks for more after every chunk. -/
def Proceeds (k : Sink σ) : Prop := ∀ chunk s, (k.write chunk s).1 = .ok .proceed

/-- A sink that has been handed chunks. -/
def takeAll (k : Sink σ) (s : σ) (chunks : List String) : σ :=
  chunks.foldl (fun s chunk => (k.write chunk s).2) s

theorem takeAll_concat (k : Sink σ) (s : σ) (chunks : List String) (chunk : String) :
    k.takeAll s (chunks ++ [chunk]) = (k.write chunk (k.takeAll s chunks)).2 := by
  simp [takeAll]

theorem proceeds_collecting (chunkSize : Nat) : (collecting chunkSize none).Proceeds :=
  fun _ _ => rfl

theorem takeAll_collecting (chunkSize : Nat) (s : Collected) (chunks : List String) :
    (collecting chunkSize none).takeAll s chunks = { s with chunks := s.chunks ++ chunks } := by
  induction chunks generalizing s with
  | nil => simp [takeAll]
  | cons chunk chunks ih =>
    refine (ih _).trans ?_
    simp [collecting]

end Sink

namespace Chunker

variable {σ : Type} {k : Sink σ} {c : Chunker σ}

theorem flush_of_proceeds (hk : k.Proceeds) (hc : c.flow = .running) (hbuffer : c.buffer ≠ "") :
    c.flush k = { c with
      buffer := ""
      written := c.written + 1
      state := (k.write c.buffer c.state).2 } := by
  have hrun : c.isRunning = true := beq_iff_eq.mpr hc
  have hwrite := hk c.buffer c.state
  unfold flush
  rw [if_pos ⟨hrun, hbuffer⟩]
  generalize k.write c.buffer c.state = answer at hwrite
  obtain ⟨answer, s⟩ := answer
  subst hwrite
  simp only [Flow.after, hc]

/-- A chunker has handed complete groups to its sink and holds what waits. -/
structure Carries (k : Sink σ) (s : σ) (records : List String) (groups : List (List String))
    (waiting : List String) (c : Chunker σ) : Prop where
  packing : Packing c.limit records groups waiting
  buffer : c.buffer = String.join waiting
  flow : c.flow = .running
  state : c.state = k.takeAll s (groups.map String.join)

namespace Carries

variable {s : σ} {records : List String} {groups : List (List String)} {waiting : List String}

theorem ofSink (k : Sink σ) (s : σ) : (ofSink k s).Carries k s [] [] [] :=
  ⟨.empty _, rfl, rfl, rfl⟩

/-- A flush completes what waits. -/
theorem state_flush (h : c.Carries k s records groups waiting) (hk : k.Proceeds)
    (hwaiting : String.join waiting ≠ "") :
    c.flush k = { c with
      buffer := ""
      written := c.written + 1
      state := k.takeAll s ((groups ++ [waiting]).map String.join) } := by
  rw [flush_of_proceeds hk h.flow (by rwa [h.buffer]), h.state, h.buffer, List.map_append,
    List.map_singleton, Sink.takeAll_concat]

/-- A record goes to those that wait, or those that wait are handed over before it. -/
theorem makeRoom (h : c.Carries k s records groups waiting) (hk : k.Proceeds) (r : String) :
    ∃ groups' waiting', Carries k s (records ++ [r]) groups' waiting'
      { c.makeRoom k r with buffer := (c.makeRoom k r).buffer ++ r } := by
  unfold Chunker.makeRoom
  split
  · next hfull =>
    obtain ⟨hbuffer, hlimit⟩ := hfull
    rw [h.buffer] at hbuffer hlimit
    rw [h.state_flush hk hbuffer]
    exact ⟨groups ++ [waiting], [r], h.packing.begin hbuffer hlimit, by simp [String.join_cons],
      h.flow, rfl⟩
  · next hroom =>
    refine ⟨groups, waiting ++ [r], h.packing.add ?_, ?_, h.flow, h.state⟩
    · rw [h.buffer] at hroom
      rw [weight]
      by_cases hempty : String.join waiting = ""
      · exact .inl hempty
      · exact .inr (by simpa [hempty] using hroom)
    · simp [h.buffer, String.join_cons]

/-- A chunk that has reached the limit is handed over. -/
theorem flushFull (h : c.Carries k s records groups waiting) (hk : k.Proceeds)
    (hpos : 0 < c.limit) :
    ∃ groups' waiting', Carries k s records groups' waiting'
      (if c.limit ≤ c.buffer.utf8ByteSize then c.flush k else c) := by
  split
  · next hlimit =>
    rw [h.buffer] at hlimit
    have hwaiting : String.join waiting ≠ "" := by
      intro hempty
      rw [hempty] at hlimit
      simp at hlimit
      omega
    rw [h.state_flush hk hwaiting]
    exact ⟨groups ++ [waiting], [], h.packing.close hwaiting hlimit, rfl, h.flow, rfl⟩
  · exact ⟨groups, waiting, h⟩

end Carries

theorem limit_flush (k : Sink σ) (c : Chunker σ) : (c.flush k).limit = c.limit := by
  unfold flush
  split
  · split <;> rfl
  · rfl

theorem limit_makeRoom (k : Sink σ) (c : Chunker σ) (r : String) :
    (c.makeRoom k r).limit = c.limit := by
  unfold makeRoom
  split
  · exact limit_flush k c
  · rfl

theorem limit_push (k : Sink σ) (c : Chunker σ) (r : String) : (c.push k r).limit = c.limit := by
  unfold push
  split
  · dsimp only
    split
    · split
      · rw [limit_flush, limit_makeRoom]
      · exact limit_makeRoom k c r
    · exact limit_makeRoom k c r
  · rfl

namespace Carries

variable {s : σ} {records : List String} {groups : List (List String)} {waiting : List String}

theorem push (h : c.Carries k s records groups waiting) (hk : k.Proceeds) (hpos : 0 < c.limit)
    (r : String) :
    ∃ groups' waiting', (c.push k r).Carries k s (records ++ [r]) groups' waiting' := by
  obtain ⟨groups', waiting', hroom⟩ := h.makeRoom hk r
  have hrun : c.isRunning = true := beq_iff_eq.mpr h.flow
  have hrun' : (c.makeRoom k r).isRunning = true := beq_iff_eq.mpr hroom.flow
  simp only [Chunker.push, hrun, hrun', ↓reduceIte]
  exact hroom.flushFull hk (by rw [limit_makeRoom]; exact hpos)

theorem pushAll (h : c.Carries k s records groups waiting) (hk : k.Proceeds) (hpos : 0 < c.limit)
    (rs : List String) :
    ∃ groups' waiting', (c.pushAll k rs).Carries k s (records ++ rs) groups' waiting' ∧
      (c.pushAll k rs).limit = c.limit := by
  induction rs generalizing c records groups waiting with
  | nil => exact ⟨groups, waiting, by rwa [List.append_nil], rfl⟩
  | cons r rs ih =>
    obtain ⟨groups₁, waiting₁, hpush⟩ := h.push hk hpos r
    obtain ⟨groups₂, waiting₂, hall, hlimit⟩ := ih hpush (by rwa [limit_push])
    rw [List.append_assoc] at hall
    exact ⟨groups₂, waiting₂, hall, hlimit.trans (limit_push k c r)⟩

/-- What still waits at the end is handed over, unless it is empty. -/
theorem finish (h : c.Carries k s records groups waiting) (hk : k.Proceeds) :
    ∃ groups', Packed c.limit records groups' ∧
      c.finish k = k.finish .running (k.takeAll s (groups'.map String.join)) := by
  by_cases hwaiting : String.join waiting = ""
  · have hflush : c.flush k = c := by simp [flush, h.buffer, hwaiting]
    refine ⟨groups, h.packing.packed_of_empty hwaiting, ?_⟩
    simp only [Chunker.finish, hflush, h.flow, h.state]
  · refine ⟨groups ++ [waiting], h.packing.packed hwaiting, ?_⟩
    simp only [Chunker.finish, h.state_flush hk hwaiting, h.flow]

end Carries

end Chunker

/-- A sink that asks for more gets the groups of a packing as its chunks, and is closed. -/
theorem Sink.exists_packed {σ : Type} {k : Sink σ} (hk : k.Proceeds) (s : σ)
    (records : List String) :
    ∃ groups, Packed (max 1 k.chunkSize) records groups ∧
      ((Chunker.ofSink k s).pushAll k records).finish k =
        k.finish .running (k.takeAll s (groups.map String.join)) := by
  obtain ⟨groups, waiting, hcarries, hlimit⟩ :=
    (Chunker.Carries.ofSink k s).pushAll hk (Nat.le_max_left 1 k.chunkSize) records
  obtain ⟨groups', hpacked, hfinish⟩ := hcarries.finish hk
  rw [hlimit] at hpacked
  exact ⟨groups', hpacked, hfinish⟩

/-! ## Documents -/

namespace Document

/-- The records of a document behind its opening. -/
def bodyLines (g : Graph) (edges : List Edge) : List String :=
  (nodePart g).1 ++ edgesOpening :: tailLines g (nodePart g).2 edges

/-- All records of a graph's document, unless the graph cannot be written. -/
def records (g : Graph) : Except Graph.Fault (List String) :=
  if g.nodes[0]?.any (·.kind != .synthetic) then .error .rootNotSynthetic
  else (edgesBySource g).map fun edges => opening g :: bodyLines g edges

theorem records_of_edges {g : Graph} {edges : List Edge}
    (hroot : ∀ n, g.nodes[0]? = some n → n.kind = .synthetic)
    (hedges : edgesBySource g = .ok edges) : records g = .ok (opening g :: bodyLines g edges) := by
  have hsynthetic : g.nodes[0]?.any (·.kind != .synthetic) = false := by
    cases hn : g.nodes[0]? with
    | none => rfl
    | some n => simp [hroot n hn]
  rw [records, hsynthetic, hedges]
  rfl

/-- To a sink that asks for more a graph is written as its records are, one after the other. -/
theorem writeTo_of_proceeds {σ : Type} {k : Sink σ} (hk : k.Proceeds) (g : Graph) (s : σ) :
    writeTo g k (Chunker.ofSink k s) =
      (records g).map fun rs => ((Chunker.ofSink k s).pushAll k rs).finish k := by
  have hflow : ∀ rs, ((Chunker.ofSink k s).pushAll k rs).flow = .running := by
    intro rs
    obtain ⟨_, _, hcarries, -⟩ :=
      (Chunker.Carries.ofSink k s).pushAll hk (Nat.le_max_left 1 k.chunkSize) rs
    exact hcarries.flow
  unfold writeTo records
  split
  · rfl
  · have hrun : ((Chunker.ofSink k s).pushAll k (opening g :: (nodePart g).1)).isRunning = true :=
      beq_iff_eq.mpr (hflow _)
    have hopen : (((Chunker.ofSink k s).pushAll k (opening g :: (nodePart g).1)).push k
        edgesOpening).flow = .running := by
      have := hflow (opening g :: (nodePart g).1 ++ [edgesOpening])
      rwa [Chunker.pushAll, List.foldl_append] at this
    simp only [hrun, hopen, Bool.not_true, Bool.and_false, Bool.false_eq_true, ↓reduceIte]
    cases edgesBySource g with
    | error f => rfl
    | ok edges =>
      simp [bodyLines, Except.map, bind, Except.bind, Chunker.pushAll]

/-- A collecting sink without a limit is closed and holds the text of all records. -/
theorem exists_write {g : Graph} {rs : List String} (h : records g = .ok rs) {chunkSize : Nat}
    (hsize : chunkSize < wordLimit 63) :
    ∃ s, write g (Sink.collecting chunkSize none) {} = .ok (.completed, s) ∧
      s.isFinished = true ∧ s.text = String.join rs := by
  have hstart := Chunker.start_of_lt (k := Sink.collecting chunkSize none) hsize {}
  obtain ⟨groups, hpacked, hfinish⟩ :=
    Sink.exists_packed (Sink.proceeds_collecting chunkSize) {} rs
  refine ⟨{ chunks := groups.map String.join, isFinished := true }, ?_, rfl, hpacked.join_eq⟩
  rw [write, hstart]
  dsimp only
  rw [writeTo_of_proceeds (Sink.proceeds_collecting chunkSize), h]
  simp only [Except.map, Except.mapError, hfinish, Sink.takeAll_collecting]
  rfl

/-- What a collecting sink holds in the end does not depend on the wanted size of chunks. -/
theorem text_write (g : Graph) {chunkSize : Nat} (hsize : chunkSize < wordLimit 63) :
    (write g (Sink.collecting chunkSize none) {}).map (fun r => (r.1, r.2.text)) =
      ((records g).mapError Fault.graph).map fun rs => (.completed, String.join rs) := by
  cases hrs : records g with
  | error f =>
    rw [write, Chunker.start_of_lt (k := Sink.collecting chunkSize none) hsize {}]
    dsimp only
    rw [writeTo_of_proceeds (Sink.proceeds_collecting chunkSize), hrs]
    rfl
  | ok rs =>
    obtain ⟨s, hwrite, -, htext⟩ := exists_write hrs hsize
    rw [hwrite]
    simp only [Except.map, Except.mapError, htext]

end Document

/-- Whatever the records and the wanted size, a sink that always asks for more is handed chunks that
are groups of whole records, each as long as the size allows, and together the text of all records.
So the text of a document is the same for every size. Only a sink that wants chunks too large to be
addressed gets nothing. -/
theorem Sink.writeRecords_packed {σ : Type} {k : Sink σ} (hk : k.Proceeds) (s : σ)
    (records : List String) :
    (k.chunkSize < wordLimit 63 → ∃ groups,
      k.writeRecords s records = .ok (k.finish .running (k.takeAll s (groups.map String.join))) ∧
      Packed (max 1 k.chunkSize) records groups ∧
      String.join (groups.map String.join) = String.join records) ∧
    (wordLimit 63 ≤ k.chunkSize → k.writeRecords s records = .error .chunkTooLarge) ∧
    ∀ (g : Graph) (n m : Nat), n < wordLimit 63 → m < wordLimit 63 →
      (Document.write g (collecting n none) {}).map (fun r => (r.1, r.2.text)) =
        (Document.write g (collecting m none) {}).map fun r => (r.1, r.2.text) := by
  refine ⟨fun hsize => ?_, fun hsize => ?_, fun g n m hn hm => ?_⟩
  · obtain ⟨groups, hpacked, hfinish⟩ := exists_packed hk s records
    refine ⟨groups, ?_, hpacked, hpacked.join_eq⟩
    rw [← hfinish, writeRecords, Chunker.start_of_lt hsize]
    rfl
  · rw [writeRecords, Chunker.start_of_le hsize]
    rfl
  · rw [Document.text_write g hn, Document.text_write g hm]

/-- Records that fit together, do not fit, are too long or empty, in chunks of at most 4 bytes. -/
theorem Sink.writeRecords_packed_four :
    (collecting 4 none).Proceeds ∧ (collecting 4 none).chunkSize < wordLimit 63 ∧
      ∃ groups, Packed 4 ["ab", "", "é", "abc", "abcdefg", "", "a"] groups ∧
        (collecting 4 none).writeRecords {} ["ab", "", "é", "abc", "abcdefg", "", "a"] =
          .ok (.completed, { chunks := groups.map String.join, isFinished := true }) ∧
        groups.map String.join = ["abé", "abc", "abcdefg", "a"] := by
  have hsize : (collecting 4 none).chunkSize < wordLimit 63 := by decide
  obtain ⟨groups, hwrite, hpacked, -⟩ := (writeRecords_packed (proceeds_collecting 4) {}
    ["ab", "", "é", "abc", "abcdefg", "", "a"]).1 hsize
  rw [takeAll_collecting] at hwrite
  refine ⟨proceeds_collecting 4, hsize, groups, hpacked, hwrite, ?_⟩
  have hrun : (collecting 4 none).writeRecords {} ["ab", "", "é", "abc", "abcdefg", "", "a"] =
      .ok (.completed, { chunks := ["abé", "abc", "abcdefg", "a"], isFinished := true }) := by
    decide +kernel
  have hsame := Except.ok.inj (hwrite.symm.trans hrun)
  exact congrArg (fun r : Ending × Collected => r.2.chunks) hsame

/-- Not even one record is written in chunks of 2^63 bytes. -/
theorem Sink.writeRecords_unaddressable :
    (collecting (wordLimit 63) none).Proceeds ∧
      (collecting (wordLimit 63) none).writeRecords {} ["a"] = .error .chunkTooLarge :=
  ⟨proceeds_collecting _, rfl⟩

end ManagedHeap
