import ManagedHeap.Proofs.Registration
import ManagedHeap.Proofs.Upkeep

/-!
# Reports in batches

To a sink that takes everything, a report hands its updates in full batches and the rest in one
more, `InBatches`. Which updates these are is settled before the sink is asked for the first time.
A second report of the same objects has nothing to tell: the rows it looks at are those that the
first one left, `Ledger.row?_refresh_again`.
-/
namespace ManagedHeap

/-! ## Full batches -/

/-- Updates in batches of `limit` each, up to the last batch, which may be smaller. -/
structure InBatches (limit : Nat) (us : List Update) (batches : List (List Update)) : Prop where
  flatten : batches.flatten = us
  full : ∀ batch ∈ batches.dropLast, batch.length = limit
  last : ∀ batch ∈ batches.getLast?, 1 ≤ batch.length ∧ batch.length ≤ limit

namespace Sink

variable {σ : Type} {k : Sink σ}

/-- A sink that has been handed batches. -/
def takeBatches (k : Sink σ) (s : σ) (batches : List (List Update)) : σ :=
  batches.foldl (fun s us => (k.writeUpdates us s).2) s

theorem takeBatches_concat (k : Sink σ) (s : σ) (batches : List (List Update))
    (us : List Update) :
    k.takeBatches s (batches ++ [us]) = (k.writeUpdates us (k.takeBatches s batches)).2 := by
  simp [takeBatches]

theorem Accepts.finish_running (hk : k.Accepts) (s : σ) :
    k.finish .running s = (.completed, (k.close s).2) := by
  have hclose := hk.closes s
  dsimp only [Sink.finish]
  generalize k.close s = answer at hclose
  obtain ⟨answer, s'⟩ := answer
  subst hclose
  rfl

end Sink

namespace Batch

variable {σ : Type} {k : Sink σ} {s : σ} {b : Batch σ} {us : List Update}
  {batches : List (List Update)}

/-- Of the updates `us` full batches were handed over, and the others wait. -/
structure Fills (k : Sink σ) (s : σ) (us : List Update) (batches : List (List Update))
    (b : Batch σ) : Prop where
  flow : b.flow = .running
  flatten : batches.flatten ++ b.waiting = us
  full : ∀ batch ∈ batches, batch.length = b.limit
  room : b.waiting.length < b.limit
  state : b.state = k.takeBatches s batches

theorem flush_of_accepts (hk : k.Accepts) (b : Batch σ) :
    b.flush k = { b with waiting := [], state := (k.writeUpdates b.waiting b.state).2 } := by
  have hwrite := hk.proceeds b.waiting b.state
  unfold flush
  generalize k.writeUpdates b.waiting b.state = answer at hwrite
  obtain ⟨answer, s'⟩ := answer
  subst hwrite
  rfl

namespace Fills

/-- An update goes to those that wait, and completes a batch or does not. -/
theorem add (h : b.Fills k s us batches) (hk : k.Accepts) (u : Update) :
    ∃ batches', (b.add k u).Fills k s (us ++ [u]) batches' ∧ (b.add k u).limit = b.limit := by
  have hflatten : batches.flatten ++ (b.waiting ++ [u]) = us ++ [u] := by
    rw [← List.append_assoc, h.flatten]
  have hlength : (b.waiting ++ [u]).length = b.waiting.length + 1 := by simp
  have hroom := h.room
  unfold Batch.add
  dsimp only
  split
  · next hfull =>
    rw [flush_of_accepts hk]
    refine ⟨batches ++ [b.waiting ++ [u]], ⟨h.flow, ?_, ?_, ?_, ?_⟩, rfl⟩
    · simpa using hflatten
    · intro batch hbatch
      rcases List.mem_append.mp hbatch with hbatch | hbatch
      · exact h.full batch hbatch
      · rw [List.mem_singleton.mp hbatch]
        show (b.waiting ++ [u]).length = b.limit
        omega
    · exact Nat.lt_of_le_of_lt (Nat.zero_le _) hroom
    · rw [Sink.takeBatches_concat, ← h.state]
  · next hroom' =>
    exact ⟨batches, ⟨h.flow, hflatten, h.full, Nat.lt_of_not_le hroom', h.state⟩, rfl⟩

/-- A walk over the spans adds the updates of all changes. -/
theorem reportSpans (h : b.Fills k s us batches) (hk : k.Accepts) (index : Nat) (rows : List Row)
    (spans : List Span) :
    ∃ batches', (reportSpans k index rows spans b).2.Fills k s (us ++ changes index rows spans)
      batches' ∧ (ManagedHeap.reportSpans k index rows spans b).2.limit = b.limit := by
  induction spans generalizing index rows b us batches with
  | nil => exact ⟨batches, by rwa [changes, List.append_nil], rfl⟩
  | cons span spans ih =>
    rw [ManagedHeap.reportSpans, changes]
    generalize tallyBelow span.bound {} rows = walked
    obtain ⟨t, rest⟩ := walked
    dsimp only
    split
    · exact ih h (index + 1) rest
    · obtain ⟨batches₁, hadd, hlimit⟩ := h.add hk ⟨index, t.count, t.size⟩
      rw [if_pos hadd.flow]
      obtain ⟨batches₂, hall, hlimit'⟩ := ih hadd (index + 1) rest
      rw [List.append_assoc, List.singleton_append] at hall
      exact ⟨batches₂, hall, hlimit'.trans hlimit⟩

/-- In the end those that still wait are one more batch, and the sink is closed. -/
theorem finish (h : b.Fills k s us batches) (hk : k.Accepts) :
    ∃ batches', InBatches b.limit us batches' ∧
      b.finish k = (.completed, (k.close (k.takeBatches s batches')).2) := by
  have hroom := h.room
  rw [finish_eq, emptied]
  by_cases hwaiting : b.waiting = []
  · refine ⟨batches, ⟨?_, ?_, ?_⟩, ?_⟩
    · rw [← h.flatten, hwaiting, List.append_nil]
    · exact fun batch hbatch => h.full batch (List.dropLast_subset _ hbatch)
    · intro batch hbatch
      have hfull := h.full batch (List.mem_of_getLast? hbatch)
      omega
    · rw [if_neg (fun hwaits => hwaits.2 hwaiting), h.flow, hk.finish_running, h.state]
  · have hpos := List.length_pos_of_ne_nil hwaiting
    refine ⟨batches ++ [b.waiting], ⟨?_, ?_, ?_⟩, ?_⟩
    · simpa using h.flatten
    · rw [List.dropLast_concat]
      exact h.full
    · intro batch hbatch
      rw [List.getLast?_concat, Option.mem_some] at hbatch
      rw [← hbatch]
      omega
    · rw [if_pos ⟨h.flow, hwaiting⟩, flush_of_accepts hk, Sink.takeBatches_concat, ← h.state]
      dsimp only
      rw [h.flow, hk.finish_running]

end Fills

end Batch

/-- Where there is nothing to tell, whatever the sink, nothing is added to a batch. -/
theorem reportSpans_of_changes_nil {σ : Type} (k : Sink σ) {index : Nat} {rows : List Row}
    {spans : List Span} (h : changes index rows spans = []) (b : Batch σ) :
    (reportSpans k index rows spans b).2 = b := by
  induction spans generalizing index rows with
  | nil => rfl
  | cons span spans ih =>
    rw [changes] at h
    rw [reportSpans]
    generalize tallyBelow span.bound {} rows = walked at h ⊢
    obtain ⟨t, rest⟩ := walked
    dsimp only at h ⊢
    split
    · next hsame => exact ih (by rwa [if_pos hsame] at h)
    · next hnew => rw [if_neg hnew] at h; cases h

/-- A span that ends where the last one did has no rows. -/
theorem living_concat {spans : List Span} {span : Span}
    (hlast : spans.getLast?.map (·.bound.raw) = some span.bound.raw) (lower : Nat)
    (rows : List Row) (i : Nat) :
    living lower rows (spans ++ [span]) i = living lower rows spans i := by
  obtain ⟨before, last, rfl⟩ : ∃ before last, spans = before ++ [last] := by
    rcases List.eq_nil_or_concat spans with rfl | ⟨before, last, rfl⟩
    · cases hlast
    · exact ⟨before, last, by rw [List.concat_eq_append]⟩
  have hbound : last.bound.raw = span.bound.raw := by simpa using hlast
  rcases Nat.lt_trichotomy i (before ++ [last]).length with hi | rfl | hi
  · have hstart : spanStart lower (before ++ [last] ++ [span]) i =
        spanStart lower (before ++ [last]) i := by
      cases i with
      | zero => rfl
      | succ i => rw [spanStart, spanStart, List.getElem?_append_left (Nat.lt_of_succ_lt hi)]
    rw [living, living, hstart, List.getElem?_append_left hi]
  · have hnone : rows.filter (·.isWithin span.bound.raw span.bound.raw) = [] := by
      refine List.filter_eq_nil_iff.mpr fun r _ => ?_
      simp [Row.isWithin]
    simp [living, spanStart, hbound, hnone]
    rfl
  · have hlength : (before ++ [last] ++ [span]).length ≤ i := by
      rw [List.length_append]
      exact hi
    rw [living, living, List.getElem?_eq_none hlength, List.getElem?_eq_none (Nat.le_of_lt hi)]
    rfl

namespace Ledger

variable {l : Ledger} {live : List HeapObject} {a : Address}

/-! ## The rows of a second refresh -/

/-- What an operation does to the row of an address: it is asked for with a size that does not
depend on the ledger, or it is left alone. -/
def Settles (f : Ledger → Ledger) (a : Address) : Prop :=
  (∃ size, ∀ l, Sound l → ∃ r, (f l).row? a = some r ∧ r.size = size ∧ r.isAccessed = true) ∨
    ∀ l, Sound l → (f l).row? a = l.row? a

theorem Settles.comp {f f' : Ledger → Ledger} (h' : Settles f' a) (h : Settles f a)
    (hf : ∀ l, Sound l → Sound (f l)) : Settles (fun l => f' (f l)) a := by
  rcases h' with ⟨size, h'⟩ | h'
  · exact .inl ⟨size, fun l hl => h' (f l) (hf l hl)⟩
  · rcases h with ⟨size, h⟩ | h
    · refine .inl ⟨size, fun l hl => ?_⟩
      rw [h' (f l) (hf l hl)]
      exact h l hl
    · exact .inr fun l hl => (h' (f l) (hf l hl)).trans (h l hl)

theorem settles_track (b : Address) (size : Nat) (a : Address) :
    Settles (fun l => (l.track b size).2) a := by
  by_cases hab : b = a
  · refine .inl ⟨size, fun l hl => ⟨l.recorded b size true, ?_, ?_⟩⟩
    · exact (row?_record hl b a size true).trans (if_pos hab)
    · unfold recorded
      split <;> exact ⟨rfl, rfl⟩
  · exact .inr fun l hl => (row?_record hl b a size true).trans (if_neg hab)

theorem settles_trackObject (o : HeapObject) (a : Address) : Settles (·.trackObject o) a := by
  unfold trackObject
  dsimp only
  cases o.backingStore? with
  | none => exact settles_track o.address o.size a
  | some store =>
    exact (settles_track store.address _ a).comp (settles_track o.address o.size a)
      fun l hl => sound_record hl ..

theorem settles_trackAll (live : List HeapObject) (a : Address) :
    Settles (live.foldl trackObject) a := by
  induction live with
  | nil => exact .inr fun l _ => rfl
  | cons o os ih =>
    exact ih.comp (settles_trackObject o a) fun l hl => (gains_trackObject hl o).sound

/-- A row is at the address that it is found by. -/
theorem Sound.address_eq (h : l.Sound) {r : Row} (hr : l.row? a = some r) : r.address = some a :=
  (h.exists_split hr).1

/-- If nothing was in use before a refresh, another one with the same objects changes no row. -/
theorem row?_refresh_again {l' : Ledger} (h : l.Sound) (hunused : ∀ a, ¬ l.IsUsed a)
    (h' : l'.Sound) (hrows : ∀ a, l'.row? a = (l.refresh live).row? a) (a : Address) :
    (l'.refresh live).row? a = l'.row? a := by
  have hall := (gains_trackAll h live).sound
  have hagain := gains_trackAll h' live
  rcases settles_trackAll live a with ⟨size, hasked⟩ | halone
  · obtain ⟨r, hr, hsize, hused⟩ := hasked l h
    obtain ⟨r', hr', hsize', hused'⟩ := hasked l' h'
    have hfirst : l'.row? a = some r.rested := by
      simp [hrows, refresh, row?_sweep hall, hr, hused]
    have hid : r'.id = r.id := by
      have hkept := hagain.find? a r.id (by rw [find?_eq, hfirst]; rfl)
      rw [find?_eq, hr'] at hkept
      exact Option.some.inj hkept
    have haddress : r'.address = r.address := by
      rw [hagain.sound.address_eq hr', hall.address_eq hr]
    have hsecond : (l'.refresh live).row? a = some r'.rested := by
      simp [refresh, row?_sweep hagain.sound, hr', hused']
    rw [hsecond, hfirst, Row.rested, Row.rested, hid, haddress, hsize, hsize']
  · have hfirst : l'.row? a = none := by
      rw [hrows, refresh, row?_sweep hall, halone l h]
      cases hr : l.row? a with
      | none => rfl
      | some r =>
        have hidle : ¬ r.isAccessed = true := fun hused => hunused a ⟨r, hr, hused⟩
        simp [hidle]
    rw [refresh, row?_sweep hagain.sound, halone l' h', hfirst]
    rfl

/-- Another refresh with the same objects hands out no number. -/
theorem nextId_refresh_again {l' : Ledger} (h : l.Sound) (h' : l'.Sound)
    (hrows : ∀ a, l'.row? a = (l.refresh live).row? a) :
    (l'.refresh live).nextId = l'.nextId := by
  refine (gains_trackAll h' live).nextId_of_isUsed fun a hused => ?_
  rcases (isUsed_trackAll_iff h' live).mp hused with hat | hbefore
  · have hfirst := (isUsed_trackAll_iff h live).mpr (.inl hat)
    rw [find?_eq, hrows, ← find?_eq, refresh, hfirst.find?_sweep (gains_trackAll h live).sound]
    exact hfirst.find?_ne_none
  · exact hbefore.find?_ne_none

/-! ## Reports -/

/-- The ledger of a report that has not told its sink of any span yet. -/
def opened (l : Ledger) (live : List HeapObject) (now : Int) : Ledger :=
  { l.refresh live with spans := l.openSpans live now }

theorem livingAt_opened {σ : Type} (h : l.Reachable) (live : List HeapObject) (now : Int)
    (k : Sink σ) (s : σ) (i : Nat) :
    (l.opened live now).livingAt i = (l.report live now k s).ledger.livingAt i := by
  have hall := h.trackAll live
  rw [livingAt_report h]
  exact living_perm (perm_tracked_sweep hall.sound hall.issued) 0 _ i

/-- To a sink that takes everything all changes are told, in batches, and then it is closed. -/
theorem exists_batches {σ : Type} {k : Sink σ} (hk : k.Accepts) (l : Ledger)
    (live : List HeapObject) (now : Int) (s : σ) :
    ∃ batches, InBatches (max 1 k.chunkSize)
        (changes 0 (l.refresh live).body (l.openSpans live now)) batches ∧
      (l.report live now k s).ending = .completed ∧
      (l.report live now k s).sink = (k.close (k.takeBatches s batches)).2 := by
  have hstart : Batch.Fills k s [] [] { limit := max 1 k.chunkSize, state := s } :=
    ⟨rfl, rfl, fun batch hbatch => (List.not_mem_nil hbatch).elim, Nat.le_max_left ..,
      rfl⟩
  obtain ⟨batches, hwalked, hlimit⟩ :=
    hstart.reportSpans hk 0 (l.refresh live).body (l.openSpans live now)
  obtain ⟨batches', hbatches, hfinish⟩ := hwalked.finish hk
  rw [hlimit, List.nil_append] at hbatches
  refine ⟨batches', hbatches, ?_⟩
  rw [report_eq_walk, walk, hfinish]
  exact ⟨rfl, rfl⟩

/-- Another report of the same objects finds the tallies as they were, and the span that it closes
is empty. -/
theorem livingAt_opened_again {l' : Ledger} (h : l.Sound) (hunused : ∀ a, ¬ l.IsUsed a)
    (h' : l'.Sound) (hrows : ∀ a, l'.row? a = (l.refresh live).row? a)
    (hlast : l'.spans.getLast?.map (·.bound.raw) = some l'.nextId) (now : Int) (i : Nat) :
    (l'.opened live now).livingAt i = l'.livingAt i := by
  have hopened : (l'.opened live now).Sound := sound_spans (sound_refresh h' live) _
  have hperm : (l'.opened live now).tracked.Perm l'.tracked := by
    refine (List.perm_ext_iff_of_nodup (nodup_tracked hopened) (nodup_tracked h')).mpr fun r => ?_
    rw [mem_tracked hopened, mem_tracked h']
    refine exists_congr fun a => ?_
    rw [← row?_refresh_again h hunused h' hrows a]
    rfl
  have hspans : (l'.opened live now).spans =
      l'.spans ++ [{ bound := ⟨l'.nextId⟩, time := now }] := by
    rw [opened, openSpans, (later_refresh l' live).spans, nextId_refresh_again h h' hrows]
  rw [livingAt, living_perm hperm, hspans, living_concat hlast, livingAt]

/-- A report of objects that were just reported to a sink that takes everything has nothing to
tell. -/
theorem changes_again {σ : Type} {k : Sink σ} (hk : k.Accepts) (h : l.Reachable) (hp : l.Paced)
    (hunused : ∀ a, ¬ l.IsUsed a) (live : List HeapObject) (now now' : Int) (s : σ) :
    changes 0 ((l.report live now k s).ledger.refresh live).body
      ((l.report live now k s).ledger.openSpans live now') = [] := by
  have hreported := Reported.of_accepts l live now hk s
  have hreachable := h.report live now k s
  have hlast : (l.report live now k s).ledger.spans.getLast?.map (·.bound.raw) =
      some (l.report live now k s).ledger.nextId := by
    rw [← List.getLast?_map, hreported.map_bound, List.getLast?_map, openSpans,
      List.getLast?_concat]
    rfl
  obtain ⟨us, rest, hagain⟩ := (l.report live now k s).ledger.exists_reported live now' k s
  rw [hagain.changes_eq]
  refine List.eq_nil_iff_forall_not_mem.mpr fun u hu => ?_
  have hne := ((hagain.mem_iff hreachable (hreported.paced hp)).mp hu).2
  rw [hreported.populationAt_eq h hp, ← livingAt_opened hreachable,
    livingAt_opened_again h.sound hunused hreachable.sound (fun _ => rfl) hlast] at hne
  exact hne rfl

/-- Whatever was done to a ledger before, which updates a report has to tell does not depend on the
sink: those of the spans whose population is not what is recorded for them, nothing being recorded
for the span that the report closes. They come in the order of the spans. A sink that takes
everything gets them in batches of the size that it wants, at least 1, and a last one that may be
smaller, and is then closed. If nothing had been asked for since the last sweep, a second report of
the same objects closes its sink at once. -/
theorem report_in_batches {ops : List Operation} (hl : l = performAll {} ops)
    (live : List HeapObject) (now : Int) :
    ∃ us : List Update,
      us.Pairwise (fun u u' => u.index < u'.index) ∧
      (∀ i, (∃ u ∈ us, u.index = i) ↔ l.populationAt i ≠ (l.opened live now).livingAt i) ∧
      (∀ u ∈ us, u.tally = (l.opened live now).livingAt u.index) ∧
      ∀ (σ : Type) (k : Sink σ) (s : σ), k.Accepts →
        (∃ batches, InBatches (max 1 k.chunkSize) us batches ∧
          (l.report live now k s).sink = (k.close (k.takeBatches s batches)).2) ∧
        (l.report live now k s).ending = .completed ∧
        (∀ i, (l.report live now k s).ledger.populationAt i = (l.opened live now).livingAt i) ∧
        ((∀ r ∈ l.body, r.isAccessed = false) →
          ∀ (τ : Type) (now' : Int) (k' : Sink τ) (s' : τ),
            (((l.report live now k s).ledger.report live now' k' s').ending,
              ((l.report live now k s).ledger.report live now' k' s').sink) =
                k'.finish .running s') := by
  obtain ⟨h, hp⟩ := reachable_performAll .empty (paced_of_nil rfl) ops
  rw [← hl] at h hp
  have hreported : ∀ {σ : Type} {k : Sink σ}, k.Accepts → ∀ s, Reported l live now k s
      (changes 0 (l.refresh live).body (l.openSpans live now)) [] := by
    intro σ k hk s
    have hall := Reported.of_accepts l live now hk s
    have hchanges := hall.changes_eq
    rw [List.append_nil] at hchanges
    rwa [hchanges]
  have hany := hreported (Session.accepts_collecting 1) {}
  have hliving := livingAt_opened h live now (Sink.collecting 1 none) {}
  refine ⟨changes 0 (l.refresh live).body (l.openSpans live now), pairwise_changes .., fun i => ?_,
    fun u hu => ?_, fun σ k s hk => ⟨?_, (hreported hk s).accepts hk, fun i => ?_, ?_⟩⟩
  · rw [hliving]
    exact hany.exists_mem_iff h hp i
  · rw [hliving]
    exact ((hany.mem_iff h hp).mp (List.mem_append_left [] hu)).1
  · obtain ⟨batches, hbatches, -, hsink⟩ := exists_batches hk l live now s
    exact ⟨batches, hbatches, hsink⟩
  · rw [livingAt_opened h live now k s]
    exact (hreported hk s).populationAt_eq h hp i
  · intro hidle τ now' k' s'
    have hunused : ∀ a, ¬ l.IsUsed a := by
      rintro a ⟨r, hr, hused⟩
      rw [hidle r (h.sound.mem_body hr)] at hused
      cases hused
    have hnone := changes_again hk h hp hunused live now now' s
    rw [report_eq_walk (l.report live now k s).ledger, walk, reportSpans_of_changes_nil k' hnone]
    rfl

/-- Two objects are reported, and a third one that is born later. -/
def threeReported : List Operation :=
  [.report [{ address := ⟨16⟩, size := 8, tag := .object },
      { address := ⟨32⟩, size := 8, tag := .object }] 0 (Sink.collecting 1 none) {},
    .report [{ address := ⟨16⟩, size := 8, tag := .object },
      { address := ⟨32⟩, size := 8, tag := .object },
      { address := ⟨48⟩, size := 24, tag := .object }] 3 (Sink.collecting 1 none) {}]

/-- One of them has grown and lives on beside a new object. The three updates come in a batch of two
and one of one, and a second report comes to its end without any. -/
theorem report_in_batches_three :
    let l := performAll {} threeReported
    let live : List HeapObject := [{ address := ⟨16⟩, size := 40, tag := .object },
      { address := ⟨64⟩, size := 24, tag := .object }]
    let after := l.report live 9 (Sink.collecting 2 none) {}
    (∀ r ∈ l.body, r.isAccessed = false) ∧
      (∃ us batches, InBatches 2 us batches ∧
        after.sink = ((Sink.collecting 2 none).close
          ((Sink.collecting 2 none).takeBatches {} batches)).2 ∧ ∀ i, (∃ u ∈ us, u.index = i) ↔
            l.populationAt i ≠ (l.opened live 9).livingAt i) ∧
      after.sink.updates = [⟨0, 1, 40⟩, ⟨1, 0, 0⟩, ⟨2, 1, 24⟩] ∧ after.sink.batches = 2 ∧
      (after.ledger.report live 12 (Sink.collecting 2 none) {}).sink =
        { isFinished := true } := by
  intro l live after
  have hidle : ∀ r ∈ l.body, r.isAccessed = false := by decide +kernel
  obtain ⟨us, -, htold, -, hsinks⟩ := @report_in_batches l threeReported rfl live 9
  obtain ⟨⟨batches, hbatches, hsink⟩, -, -, hagain⟩ :=
    hsinks Collected (Sink.collecting 2 none) {} (Session.accepts_collecting 2)
  have hclosed : (Sink.collecting 2 none).finish .running {} =
      (.completed, { isFinished := true }) := rfl
  have hsecond := (hagain hidle Collected 12 (Sink.collecting 2 none) {}).trans hclosed
  refine ⟨hidle, ⟨us, batches, hbatches, hsink, htold⟩, ?_, ?_, (Prod.mk.inj hsecond).2⟩
  · decide +kernel
  · decide +kernel

end Ledger

end ManagedHeap
