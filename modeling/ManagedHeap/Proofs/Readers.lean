import ManagedHeap.Proofs.Deliveries
import ManagedHeap.Proofs.Departure

/-!
# What readers of the statistics know

Over a whole run of an observer, with sinks that come and go, all updates that were handed over
together tell what is recorded for every span. So if every batch is taken, readers know what is
recorded, and after a report that is not stopped this is the living population,
`Session.table_eq_population`. A batch whose write fails is recorded all the same: what it told is
not told again until it changes, `Session.table_after_refusal`.
-/
namespace ManagedHeap

namespace Ledger

variable {σ : Type} {l l' : Ledger}

/-- What is recorded for a span. -/
def populationAt (l : Ledger) (i : Nat) : Tally := population l.spans i

/-- The tally of all tracked objects whose numbers belong to a span. -/
def livingAt (l : Ledger) (i : Nat) : Tally := living 0 l.tracked l.spans i

/-- The bounds of the spans do not decrease, and lie among the numbers handed out. -/
structure Paced (l : Ledger) : Prop where
  ordered : Ordered l.spans
  bounded : ∀ s ∈ l.spans, s.bound.raw ≤ l.nextId

theorem Paced.later (h : l.Paced) (hlater : Later l l') : l'.Paced where
  ordered := hlater.spans ▸ h.ordered
  bounded s hs := Nat.le_trans (h.bounded s (hlater.spans ▸ hs)) hlater.nextId

theorem paced_of_nil (h : l.spans = []) : l.Paced where
  ordered := h ▸ .nil
  bounded s hs := by rw [h] at hs; cases hs

theorem Reachable.trackAll (h : l.Reachable) (live : List HeapObject) :
    (live.foldl trackObject l).Reachable := by
  induction live generalizing l with
  | nil => exact h
  | cons o os ih =>
    refine ih (l := l.trackObject o) ?_
    have hobject : (l.track o.address o.size).2.Reachable := h.record ..
    unfold trackObject
    dsimp only
    split
    · exact hobject.record ..
    · exact hobject

theorem Reachable.report (h : l.Reachable) (live : List HeapObject) (now : Int) (k : Sink σ)
    (s : σ) : (l.report live now k s).ledger.Reachable :=
  (h.trackAll live).sweep.spans _

/-- The bound of the span that a report closes is the number due next. -/
theorem Paced.openSpans (h : l.Paced) (live : List HeapObject) (now : Int) :
    Ordered (l.openSpans live now) ∧
      ∀ s ∈ l.openSpans live now, s.bound.raw ≤ (l.refresh live).nextId := by
  have hpaced := h.later (later_refresh l live)
  refine ⟨List.pairwise_append.mpr ⟨hpaced.ordered, List.pairwise_singleton _ _, ?_⟩, ?_⟩
  · intro s hs s' hs'
    rw [List.mem_singleton.mp hs']
    exact hpaced.bounded s hs
  · intro s hs
    rcases List.mem_append.mp hs with hs | hs
    · exact hpaced.bounded s hs
    · obtain rfl := List.mem_singleton.mp hs
      exact Nat.le_refl _

/-- A tally over the rows as they stand, for the spans of a report. -/
theorem livingAt_report (h : l.Reachable) (live : List HeapObject) (now : Int) (k : Sink σ) (s : σ)
    (i : Nat) :
    (l.report live now k s).ledger.livingAt i =
      living 0 (l.refresh live).body (l.openSpans live now) i := by
  obtain ⟨us, rest, hreported⟩ := l.exists_reported live now k s
  have hall := h.trackAll live
  have hperm : (l.refresh live).tracked.Perm (l.refresh live).body :=
    perm_tracked_sweep hall.sound hall.issued
  rw [livingAt, living_congr hreported.bounds]
  exact living_perm hperm 0 _ i

namespace Reported

variable {live : List HeapObject} {now : Int} {k : Sink σ} {s : σ} {us rest : List Update}

theorem map_bound (hreported : Reported l live now k s us rest) :
    (l.report live now k s).ledger.spans.map (·.bound.raw) =
      (l.openSpans live now).map (·.bound.raw) := by
  have hraw := congrArg (List.map ObjectId.raw) hreported.bounds
  rwa [List.map_map, List.map_map] at hraw

theorem paced (hreported : Reported l live now k s us rest) (hp : l.Paced) :
    (l.report live now k s).ledger.Paced := by
  obtain ⟨hordered, hbounded⟩ := hp.openSpans live now
  constructor
  · refine List.Pairwise.of_map (S := (· ≤ ·)) (·.bound.raw) (fun _ _ hle => hle) ?_
    rw [hreported.map_bound]
    exact hordered.map _ fun _ _ hle => hle
  · intro s hs
    have hmem : s.bound.raw ∈ (l.openSpans live now).map (·.bound.raw) :=
      hreported.map_bound ▸ List.mem_map_of_mem hs
    obtain ⟨s', hs', heq⟩ := List.mem_map.mp hmem
    rw [← heq]
    exact hbounded s' hs'

theorem pairwise (hreported : Reported l live now k s us rest) :
    (us ++ rest).Pairwise fun u u' => u.index < u'.index := by
  rw [← hreported.changes_eq]
  exact pairwise_changes ..

/-- There is something to tell of a span exactly if what is recorded is not its living
population. -/
theorem mem_iff (hreported : Reported l live now k s us rest) (h : l.Reachable) (hp : l.Paced)
    {u : Update} :
    u ∈ us ++ rest ↔ u.tally = (l.report live now k s).ledger.livingAt u.index ∧
      l.populationAt u.index ≠ (l.report live now k s).ledger.livingAt u.index := by
  have hincreasing : Increasing (l.refresh live).body :=
    (h.trackAll live).sweep.issued.increasing_body
  rw [← hreported.changes_eq, mem_changes hincreasing (fun r _ => Nat.zero_le r.id.raw)
    (hp.openSpans live now).1]
  simp only [livingAt_report h, populationAt, ← population_openSpans l live now, Nat.zero_add]
  constructor
  · rintro ⟨i, -, rfl, htally, hne⟩
    exact ⟨htally, hne⟩
  · rintro ⟨htally, hne⟩
    refine ⟨u.index, ?_, rfl, htally, hne⟩
    refine Decidable.byContradiction fun hge => hne ?_
    have hnone : (l.openSpans live now)[u.index]? = none :=
      List.getElem?_eq_none (Nat.le_of_not_lt hge)
    simp [population, living, hnone]

/-- Once all is told, it was told of the spans for which something else was recorded. -/
theorem exists_mem_iff (hreported : Reported l live now k s us []) (h : l.Reachable)
    (hp : l.Paced) (i : Nat) :
    (∃ u ∈ us, u.index = i) ↔
      l.populationAt i ≠ (l.report live now k s).ledger.livingAt i := by
  have hmem := fun u => hreported.mem_iff h hp (u := u)
  simp only [List.append_nil] at hmem
  constructor
  · rintro ⟨u, hu, rfl⟩
    exact ((hmem u).mp hu).2
  · intro hne
    generalize hliving : (l.report live now k s).ledger.livingAt i = tally at hne
    refine ⟨⟨i, tally.count, tally.size⟩, (hmem _).mpr ⟨hliving.symm, ?_⟩, rfl⟩
    exact fun hsame => hne (hsame.trans hliving)

/-- Once all is told, a reader knows the living population where something had changed. -/
theorem enterAll_eq (hreported : Reported l live now k s us []) (h : l.Reachable) (hp : l.Paced)
    (t : Nat → Tally) (i : Nat) :
    enterAll t us i =
      if l.populationAt i = (l.report live now k s).ledger.livingAt i then t i
      else (l.report live now k s).ledger.livingAt i := by
  split
  · next hsame =>
    refine enterAll_of_not_mem (fun u hu hi => ?_) t
    exact (hreported.exists_mem_iff h hp i).mp ⟨u, hu, hi⟩ hsame
  · next hne =>
    obtain ⟨u, hu, rfl⟩ := (hreported.exists_mem_iff h hp i).mpr hne
    have hpairwise := hreported.pairwise
    rw [List.append_nil] at hpairwise
    rw [enterAll_of_mem hpairwise hu]
    exact ((hreported.mem_iff h hp).mp (List.mem_append_left _ hu)).1

/-- Once all is told, the living population is recorded for every span. -/
theorem populationAt_eq (hreported : Reported l live now k s us []) (h : l.Reachable)
    (hp : l.Paced) (i : Nat) :
    (l.report live now k s).ledger.populationAt i =
      (l.report live now k s).ledger.livingAt i := by
  refine (hreported.entered i).symm.trans ?_
  rw [hreported.enterAll_eq h hp]
  split
  · next hsame => exact hsame
  · rfl

/-- Once all is told, every object is counted for one span. -/
theorem totalCount_eq_size (hreported : Reported l live now k s us []) (h : l.Reachable)
    (hp : l.Paced) :
    totalCount (l.report live now k s).ledger.spans = (l.report live now k s).ledger.size := by
  have hreachable := h.report live now k s
  -- the span that the report closed is open for every number handed out so far
  have hlast : (l.refresh live).nextId ∈ (l.openSpans live now).map (·.bound.raw) :=
    List.mem_map_of_mem (f := fun s : Span => s.bound.raw)
      (List.mem_append_right _ List.mem_cons_self)
  rw [← hreported.map_bound] at hlast
  obtain ⟨last, hlast, hbound⟩ := List.mem_map.mp hlast
  rw [← length_tracked hreachable.sound]
  refine totalCount_eq (hreported.paced hp).ordered (fun r _ => Nat.zero_le _) (fun r hr => ?_)
    fun i => hreported.populationAt_eq h hp i
  obtain ⟨a, ha⟩ := (mem_tracked hreachable.sound).mp hr
  refine ⟨last, hlast, ?_⟩
  rw [hbound]
  exact (hreachable.issued.mem _ (List.mem_map_of_mem (hreachable.sound.mem_body ha))).2

end Reported

end Ledger

/-! ## Snapshots and the spans -/

namespace Draft

variable {sc : Scope} {S : BackingStore → Prop} {d d' : Draft}

theorem Step.later (h : Step sc S d d') : Ledger.Later d.ledger d'.ledger := by
  cases h with
  | @object a _ _ =>
    rw [addObject_eq]
    exact Ledger.later_record ..
  | @store store _ _ => exact Ledger.later_record ..
  | native | edge | intern | name => exact .refl _

theorem Grows.later (h : Grows sc S d d') : Ledger.Later d.ledger d'.ledger := by
  induction h with
  | refl => exact .refl _
  | tail _ hlast ih => exact ih.trans hlast.later

end Draft

/-- A snapshot, however it ends, leaves the spans alone. -/
theorem Observer.later_snapshot {ob : Observer} (hob : ob.ledger.Reachable) (h : Heap)
    (control : Option Control) :
    (ob.snapshot h control).observer.ledger.Reachable ∧
      Ledger.Later ob.ledger (ob.snapshot h control).observer.ledger := by
  obtain ⟨d, hgrows, hrun⟩ := (ob.capture control).exists_grows_run h.view
  have hreachable : d.ledger.Reachable := hgrows.reachable hob
  have hlater : Ledger.Later ob.ledger d.ledger := hgrows.later
  rw [ledger_snapshot]
  split
  · rw [hrun]
    exact ⟨hreachable.sweep, hlater.trans (Ledger.later_sweep _)⟩
  · rw [hrun]
    exact ⟨hreachable, hlater⟩

/-! ## Runs -/

namespace Deed

/-- A deed whose sink, if it has one, takes every batch. -/
def Takes : Deed → Prop
  | .report _ k _ => k.Takes
  | .change _ | .moved _ _ _ | .snapshot _ => True

end Deed

namespace Session

variable {w : Session}

/-- The batches that a deed hands over. -/
def deliveries (w : Session) : Deed → List Delivery
  | .report now k state => w.observer.ledger.deliveries w.heap.live now k state
  | .change _ | .moved _ _ _ | .snapshot _ => []

/-- The batches that deeds hand over, one after the other. -/
def log (w : Session) : List Deed → List Delivery
  | [] => []
  | d :: ds => w.deliveries d ++ (w.does d).log ds

/-- What readers of all updates that were taken know of the spans. -/
def table (w : Session) (ds : List Deed) : Nat → Tally := tableOf (received (w.log ds))

theorem doesAll_append (w : Session) (ds ds' : List Deed) :
    w.doesAll (ds ++ ds') = (w.doesAll ds).doesAll ds' :=
  List.foldl_append

theorem log_append (w : Session) (ds ds' : List Deed) :
    w.log (ds ++ ds') = w.log ds ++ (w.doesAll ds).log ds' := by
  induction ds generalizing w with
  | nil => rfl
  | cons d ds ih => rw [List.cons_append, log, ih, log, List.append_assoc, doesAll_cons]

/-- One more deed, and readers know more by what it handed over and was taken. -/
theorem table_concat (w : Session) (ds : List Deed) (d : Deed) :
    w.table (ds ++ [d]) =
      enterAll (w.table ds) (received ((w.doesAll ds).deliveries d)) := by
  have hlast : (w.doesAll ds).log [d] = (w.doesAll ds).deliveries d := List.append_nil _
  rw [table, log_append, received_append, hlast, tableOf, enterAll_append]
  rfl

/-- The ledger of a session is one that can come about, with spans in order. -/
structure Steady (w : Session) : Prop where
  reachable : w.observer.ledger.Reachable
  paced : w.observer.ledger.Paced

/-- A deed keeps a session steady, and what it hands over tells of all that it records. -/
theorem Steady.does (h : w.Steady) (d : Deed) :
    (w.does d).Steady ∧ ∀ i, enterAll w.observer.ledger.populationAt (handed (w.deliveries d)) i =
      (w.does d).observer.ledger.populationAt i := by
  have hsilent : ∀ {l : Ledger}, Ledger.Later w.observer.ledger l → ∀ i,
      w.observer.ledger.populationAt i = l.populationAt i := by
    intro l hlater i
    rw [Ledger.populationAt, Ledger.populationAt, hlater.spans]
  cases d with
  | change f => exact ⟨⟨h.reachable, h.paced⟩, fun i => rfl⟩
  | moved source target size =>
    have hlater := Ledger.later_move w.observer.ledger source target size
    exact ⟨⟨h.reachable.move source target size, h.paced.later hlater⟩, hsilent hlater⟩
  | snapshot control =>
    obtain ⟨hreachable, hlater⟩ := Observer.later_snapshot h.reachable w.heap control
    exact ⟨⟨hreachable, h.paced.later hlater⟩, hsilent hlater⟩
  | report now k state =>
    obtain ⟨us, rest, hreported⟩ := w.observer.ledger.exists_reported w.heap.live now k state
    refine ⟨⟨h.reachable.report w.heap.live now k state, hreported.paced h.paced⟩, fun i => ?_⟩
    rw [deliveries, hreported.handed_eq]
    exact hreported.entered i

/-- What any number of deeds hand over tells of all that they record. -/
theorem Steady.doesAll (h : w.Steady) (ds : List Deed) :
    (w.doesAll ds).Steady ∧ ∀ i, enterAll w.observer.ledger.populationAt (handed (w.log ds)) i =
      (w.doesAll ds).observer.ledger.populationAt i := by
  induction ds generalizing w with
  | nil => exact ⟨h, fun i => rfl⟩
  | cons d ds ih =>
    obtain ⟨hsteady, hentered⟩ := h.does d
    obtain ⟨hsteady', hentered'⟩ := ih hsteady
    refine ⟨hsteady', fun i => ?_⟩
    rw [log, handed_append, enterAll_append, funext hentered]
    exact hentered' i

theorem steady_of_nil (hreachable : w.observer.ledger.Reachable)
    (hspans : w.observer.ledger.spans = []) : w.Steady :=
  ⟨hreachable, Ledger.paced_of_nil hspans⟩

theorem refused_deliveries {d : Deed} (hd : d.Takes) : refused (w.deliveries d) = [] := by
  cases d with
  | change | moved | snapshot => rfl
  | report now k state =>
    obtain ⟨us, rest, hreported⟩ := w.observer.ledger.exists_reported w.heap.live now k state
    exact hreported.takes hd

theorem refused_log {ds : List Deed} (hds : ∀ d ∈ ds, d.Takes) : refused (w.log ds) = [] := by
  induction ds generalizing w with
  | nil => rfl
  | cons d ds ih =>
    rw [log, refused_append, refused_deliveries (hds d List.mem_cons_self),
      ih fun d' hd' => hds d' (List.mem_cons_of_mem d hd')]
    rfl

/-- If every batch is taken, readers know at all times what is recorded for every span. After a
report that is not stopped, this is how many tracked objects have their number in the span, and
their size; and every tracked object is counted for one span. -/
theorem table_eq_population (hreachable : w.observer.ledger.Reachable)
    (hspans : w.observer.ledger.spans = []) (ds : List Deed) (hds : ∀ d ∈ ds, d.Takes) :
    (∀ i, w.table ds i = (w.doesAll ds).observer.ledger.populationAt i) ∧
    ∀ (σ : Type) (now : Int) (k : Sink σ) (state : σ), k.Takes →
      ((w.doesAll ds).observer.report (w.doesAll ds).heap now k state).1.ending ≠ .aborted →
      (∀ i, ((w.doesAll ds).does (.report now k state)).observer.ledger.populationAt i =
        ((w.doesAll ds).does (.report now k state)).observer.ledger.livingAt i) ∧
      totalCount ((w.doesAll ds).does (.report now k state)).observer.ledger.spans =
        ((w.doesAll ds).does (.report now k state)).observer.ledger.size := by
  obtain ⟨hsteady, hentered⟩ := (steady_of_nil hreachable hspans).doesAll ds
  constructor
  · intro i
    have hblank : w.observer.ledger.populationAt = fun _ => {} := by
      funext j
      rw [Ledger.populationAt, hspans]
      rfl
    rw [table, received_eq_handed (refused_log hds), tableOf, ← hblank]
    exact hentered i
  · intro σ now k state hk hending
    obtain ⟨us, rest, hreported⟩ := (w.doesAll ds).observer.ledger.exists_reported
      (w.doesAll ds).heap.live now k state
    obtain rfl := hreported.whole hending (hreported.takes hk)
    exact ⟨hreported.populationAt_eq hsteady.reachable hsteady.paced,
      hreported.totalCount_eq_size hsteady.reachable hsteady.paced⟩

/-- Two numbers are reported to a sink that stops at its first batch. One of them dies, an object is
born, and a snapshot is taken. -/
def bornLate : List Deed :=
  [.report 0 (Sink.collecting 1 (some 1)) {}, .change (·.remove ⟨32⟩),
    .change (·.insert { address := ⟨48⟩, size := 24, tag := .object }), .snapshot none]

theorem takes_collecting (chunkSize : Nat) (limit : Option Nat) :
    (Sink.collecting chunkSize limit).Takes :=
  fun _ _ => ⟨_, rfl⟩

/-- Readers know of the two numbers until the next report tells of one number and one object. -/
theorem table_eq_population_bornLate :
    (∀ i, numbers.table bornLate i = (numbers.doesAll bornLate).observer.ledger.populationAt i) ∧
      numbers.table bornLate 0 = ⟨2, 16⟩ ∧
      (∀ i, ((numbers.doesAll bornLate).does
        (.report 5 (Sink.collecting 1 none) {})).observer.ledger.populationAt i =
          ((numbers.doesAll bornLate).does
            (.report 5 (Sink.collecting 1 none) {})).observer.ledger.livingAt i) ∧
      [0, 1].map ((numbers.doesAll bornLate).does
        (.report 5 (Sink.collecting 1 none) {})).observer.ledger.livingAt = [⟨1, 8⟩, ⟨1, 24⟩] := by
  have htakes : ∀ d ∈ bornLate, d.Takes := by
    simp [bornLate, Deed.Takes, takes_collecting]
  obtain ⟨htable, hreport⟩ := table_eq_population (w := numbers) .empty rfl bornLate htakes
  have hliving := (hreport Collected 5 (Sink.collecting 1 none) {} (takes_collecting 1 none)
    (by decide +kernel)).1
  exact ⟨htable, by decide +kernel, hliving, by decide +kernel⟩

end Session

/-! ## Batches whose write fails -/

namespace Ledger.Reported

variable {σ : Type} {l : Ledger} {live : List HeapObject} {now : Int} {k : Sink σ} {s : σ}
  {us rest : List Update}

/-- What the sink refused is recorded, but readers still know what they knew before, and the two
differ. -/
theorem of_mem_refused (hreported : Reported l live now k s us rest) (h : l.Reachable)
    (hp : l.Paced) {u : Update} (hu : u ∈ refused (l.deliveries live now k s)) (t : Nat → Tally) :
    (l.report live now k s).ledger.populationAt u.index = u.tally ∧
      enterAll t (received (l.deliveries live now k s)) u.index = t u.index ∧
      l.populationAt u.index ≠ u.tally := by
  have hpairwise := (List.pairwise_append.mp hreported.pairwise).1
  have hus : u ∈ us := hreported.parts ▸ List.mem_append_right _ hu
  have hmem := (hreported.mem_iff h hp).mp (List.mem_append_left rest hus)
  refine ⟨?_, ?_, by rw [hmem.1]; exact hmem.2⟩
  · refine (hreported.entered u.index).symm.trans ?_
    exact enterAll_of_mem hpairwise hus _
  · rw [hreported.parts] at hpairwise
    refine enterAll_of_not_mem (fun v hv => ?_) t
    exact Nat.ne_of_lt ((List.pairwise_append.mp hpairwise).2.2 v hv u hu)

/-- Of all other spans readers know what is recorded, if they did before. -/
theorem of_not_mem_refused (hreported : Reported l live now k s us rest) {i : Nat}
    (hi : ∀ u ∈ refused (l.deliveries live now k s), u.index ≠ i) {t : Nat → Tally}
    (ht : t i = l.populationAt i) :
    enterAll t (received (l.deliveries live now k s)) i =
      (l.report live now k s).ledger.populationAt i := by
  have hentered := hreported.entered i
  rw [hreported.parts, enterAll_append, enterAll_of_not_mem hi] at hentered
  exact (enterAll_congr _ ht).trans hentered

/-- A sink that takes everything is told of everything. -/
theorem of_accepts (l : Ledger) (live : List HeapObject) (now : Int) (hk : k.Accepts) (s : σ) :
    Reported l live now k s (received (l.deliveries live now k s)) [] := by
  obtain ⟨us, rest, hreported⟩ := l.exists_reported live now k s
  have hnone := hreported.takes hk.takes
  obtain rfl := hreported.whole (by rw [hreported.accepts hk]; exact Ending.noConfusion) hnone
  have hparts := hreported.parts
  rw [hnone, List.append_nil] at hparts
  rwa [← hparts]

end Ledger.Reported

/-- Readers who knew what was recorded for a span know its living population after two reports, of
which the second is taken, unless the first failed on an update that told of just that. -/
theorem Ledger.known_iff {σ τ : Type} {l : Ledger} (h : l.Reachable) (hp : l.Paced)
    (live live' : List HeapObject) (now now' : Int) (k : Sink σ) {k' : Sink τ} (hk' : k'.Accepts)
    (s : σ) (s' : τ) {t : Nat → Tally} {i : Nat} (ht : t i = l.populationAt i) :
    enterAll (enterAll t (received (l.deliveries live now k s)))
        (received ((l.report live now k s).ledger.deliveries live' now' k' s')) i =
      ((l.report live now k s).ledger.report live' now' k' s').ledger.livingAt i ↔
    ∀ u ∈ refused (l.deliveries live now k s), u.index = i →
      u.tally ≠ ((l.report live now k s).ledger.report live' now' k' s').ledger.livingAt i := by
  obtain ⟨us, rest, hfirst⟩ := l.exists_reported live now k s
  have hsecond := Reported.of_accepts (l.report live now k s).ledger live' now' hk' s'
  rw [hsecond.enterAll_eq (h.report live now k s) (hfirst.paced hp)]
  generalize ((l.report live now k s).ledger.report live' now' k' s').ledger.livingAt i = tally
  constructor
  · rintro hknown u hu rfl rfl
    obtain ⟨hrecorded, hkept, hne⟩ := hfirst.of_mem_refused h hp hu t
    rw [if_pos hrecorded, hkept, ht] at hknown
    exact hne hknown
  · intro hrefused
    split
    · next hsame =>
      -- had the first sink failed on an update for this span, it would have told of `tally`
      rw [← hsame]
      refine hfirst.of_not_mem_refused (fun u hu hi => ?_) ht
      subst hi
      exact hrefused u hu rfl ((hfirst.of_mem_refused h hp hu t).1.symm.trans hsame)
    · rfl

namespace Session

variable {w w₁ w₂ w₃ : Session}

/-- A report to any sink, then one to a sink that takes everything. The second completes, and tells
of the spans whose living population is not what is recorded for them. Readers who knew what was
recorded for a span before know its living population afterwards, unless the first sink failed on an
update that told of just that. -/
theorem table_after_refusal {σ τ : Type} {now now' : Int} {k : Sink σ} {k' : Sink τ} {s : σ}
    {s' : τ} (hreachable : w.observer.ledger.Reachable) (hspans : w.observer.ledger.spans = [])
    {ds : List Deed} (h₁ : w₁ = w.doesAll ds) (h₂ : w₂ = w₁.does (.report now k s))
    (h₃ : w₃ = w₂.does (.report now' k' s')) (hk' : k'.Accepts) :
    (w₂.observer.report w₂.heap now' k' s').1.ending = .completed ∧
    ∀ i,
      ((∃ u ∈ received (w₂.deliveries (.report now' k' s')), u.index = i) ↔
        w₂.observer.ledger.populationAt i ≠ w₃.observer.ledger.livingAt i) ∧
      (w.table ds i = w₁.observer.ledger.populationAt i →
        (w.table (ds ++ [.report now k s, .report now' k' s']) i =
            w₃.observer.ledger.livingAt i ↔
          ∀ u ∈ refused (w₁.deliveries (.report now k s)), u.index = i →
            u.tally ≠ w₃.observer.ledger.livingAt i)) := by
  subst h₁ h₂ h₃
  have hsteady₁ := ((steady_of_nil hreachable hspans).doesAll ds).1
  have hsteady₂ := (hsteady₁.does (.report now k s)).1
  have haccepted := Ledger.Reported.of_accepts
    ((w.doesAll ds).does (.report now k s)).observer.ledger
    ((w.doesAll ds).does (.report now k s)).heap.live now' hk' s'
  refine ⟨haccepted.accepts hk', fun i => ⟨?_, fun hknown => ?_⟩⟩
  · exact haccepted.exists_mem_iff hsteady₂.reachable hsteady₂.paced i
  · have htable : w.table (ds ++ [.report now k s, .report now' k' s']) =
        enterAll (enterAll (w.table ds) (received ((w.doesAll ds).deliveries (.report now k s))))
          (received (((w.doesAll ds).does (.report now k s)).deliveries (.report now' k' s'))) := by
      rw [← List.singleton_append, ← List.append_assoc, table_concat, table_concat, doesAll_append]
      rfl
    rw [htable]
    exact Ledger.known_iff hsteady₁.reachable hsteady₁.paced _ _ now now' k hk' s s' hknown

theorem accepts_collecting (chunkSize : Nat) : (Sink.collecting chunkSize none).Accepts :=
  ⟨fun _ _ => rfl, fun _ => rfl⟩

/-- Two numbers are reported, and an object is born. -/
def bornNext : List Deed :=
  [.report 0 (Sink.collecting 1 none) {},
    .change (·.insert { address := ⟨48⟩, size := 24, tag := .object })]

/-- A report fails on the update that tells of the new object, and a second one completes. Readers
know of the numbers, and are not told of the object. -/
theorem table_after_refusal_bornNext :
    let failing : Deed := .report 5 (Sink.refusing 1 (some 1) false) (0, {})
    let after : Deed := .report 7 (Sink.collecting 1 none) {}
    let w := (numbers.doesAll bornNext).does failing
    (w.observer.report w.heap 7 (Sink.collecting 1 none) {}).1.ending = .completed ∧
      numbers.table (bornNext ++ [failing, after]) 0 = (w.does after).observer.ledger.livingAt 0 ∧
      numbers.table (bornNext ++ [failing, after]) 1 ≠
        (w.does after).observer.ledger.livingAt 1 := by
  intro failing after w
  obtain ⟨hending, htold⟩ := @table_after_refusal numbers _ _ _ _ _ 5 7
    (Sink.refusing 1 (some 1) false) _ (0, {}) {} .empty rfl bornNext rfl rfl rfl
    (accepts_collecting 1)
  refine ⟨hending, ?_, fun hknown => ?_⟩
  · exact ((htold 0).2 (by decide +kernel)).mpr (by decide +kernel)
  · exact absurd (((htold 1).2 (by decide +kernel)).mp hknown) (by decide +kernel)

/-- Two numbers are reported to a sink whose first write fails, and again to one that takes
everything. The second report completes, and readers have not been told of the numbers. -/
theorem table_numbers_after_refusal :
    let failing : Deed := .report 0 (Sink.refusing 1 (some 1) false) (0, {})
    let after : Deed := .report 5 (Sink.collecting 1 none) {}
    (∃ e, (numbers.observer.report numbers.heap 0 (Sink.refusing 1 (some 1) false)
      (0, {})).1.ending = .failed e) ∧
    ((numbers.does failing).observer.report (numbers.does failing).heap 5 (Sink.collecting 1 none)
      {}).1.ending = .completed ∧
    numbers.table [failing, after] 0 = {} ∧
    (numbers.doesAll [failing, after]).observer.ledger.livingAt 0 = ⟨2, 16⟩ :=
  ⟨⟨_, rfl⟩, by decide +kernel, by decide +kernel, by decide +kernel⟩

end Session

end ManagedHeap
