import ManagedHeap.Proofs.Population

/-!
# What a report hands to its sink

A report can be overheard: nothing changes but that each batch is written down, with whether the
sink took it. Whatever the sink answers, the batches hold the first of the changes there are to
tell, and the spans have been brought up to date with exactly these, taken or not.
-/
namespace ManagedHeap

/-! ## Readers -/

/-- A reader who knew `t` of the spans, after an update. -/
def Update.enter (t : Nat → Tally) (u : Update) : Nat → Tally :=
  fun i => if u.index = i then u.tally else t i

/-- A reader who knew `t` of the spans, after updates one after the other. -/
def enterAll (t : Nat → Tally) (us : List Update) : Nat → Tally := us.foldl Update.enter t

/-- What updates tell of each span: the latest, or nothing. -/
def tableOf (us : List Update) : Nat → Tally := enterAll (fun _ => {}) us

theorem enterAll_append (t : Nat → Tally) (us us' : List Update) :
    enterAll t (us ++ us') = enterAll (enterAll t us) us' :=
  List.foldl_append

theorem enterAll_of_not_mem {us : List Update} {i : Nat} (h : ∀ u ∈ us, u.index ≠ i)
    (t : Nat → Tally) : enterAll t us i = t i := by
  induction us generalizing t with
  | nil => rfl
  | cons u us ih =>
    refine (ih (fun v hv => h v (List.mem_cons_of_mem u hv)) _).trans ?_
    exact if_neg (h u List.mem_cons_self)

/-- What a reader knows of a span comes from that span alone. -/
theorem enterAll_congr {t t' : Nat → Tally} {i : Nat} (us : List Update) (h : t i = t' i) :
    enterAll t us i = enterAll t' us i := by
  induction us generalizing t t' with
  | nil => exact h
  | cons u us ih =>
    have hentered : u.enter t i = u.enter t' i := by simp only [Update.enter, h]
    exact ih hentered

/-- Where no span is told of twice, a reader knows what was told. -/
theorem enterAll_of_mem {us : List Update}
    (h : us.Pairwise fun u u' => u.index < u'.index) {u : Update} (hu : u ∈ us)
    (t : Nat → Tally) : enterAll t us u.index = u.tally := by
  induction us generalizing t with
  | nil => cases hu
  | cons v us ih =>
    obtain ⟨hv, hus⟩ := List.pairwise_cons.mp h
    rcases List.mem_cons.mp hu with rfl | hu
    · have hlater : ∀ v ∈ us, v.index ≠ u.index := fun v hv' => Nat.ne_of_gt (hv v hv')
      refine (enterAll_of_not_mem hlater _).trans ?_
      exact if_pos rfl
    · exact ih hus hu _

/-! ## Overhearing -/

/-- A batch that was handed to a sink, and whether the sink took it. -/
structure Delivery where
  updates : List Update
  isTaken : Bool
  deriving DecidableEq, Repr

/-- All updates that were handed over. -/
def handed (log : List Delivery) : List Update := log.flatMap (·.updates)

/-- The updates that were taken. -/
def received (log : List Delivery) : List Update := (log.filter (·.isTaken)).flatMap (·.updates)

/-- The updates of batches whose write failed. -/
def refused (log : List Delivery) : List Update := (log.filter (!·.isTaken)).flatMap (·.updates)

@[simp]
theorem handed_append (log log' : List Delivery) :
    handed (log ++ log') = handed log ++ handed log' :=
  List.flatMap_append

@[simp]
theorem received_append (log log' : List Delivery) :
    received (log ++ log') = received log ++ received log' := by
  simp [received]

@[simp]
theorem refused_append (log log' : List Delivery) :
    refused (log ++ log') = refused log ++ refused log' := by
  simp [refused]

@[simp]
theorem handed_singleton (us : List Update) (isTaken : Bool) : handed [⟨us, isTaken⟩] = us := by
  simp [handed]

@[simp]
theorem received_singleton (us : List Update) (isTaken : Bool) :
    received [⟨us, isTaken⟩] = if isTaken then us else [] := by
  cases isTaken <;> simp [received]

@[simp]
theorem refused_singleton (us : List Update) (isTaken : Bool) :
    refused [⟨us, isTaken⟩] = if isTaken then [] else us := by
  cases isTaken <;> simp [refused]

theorem received_eq_handed {log : List Delivery} (h : refused log = []) :
    received log = handed log := by
  induction log with
  | nil => rfl
  | cons d log ih =>
    obtain ⟨us, isTaken⟩ := d
    rw [← List.singleton_append, refused_append, List.append_eq_nil_iff] at h
    rw [← List.singleton_append, received_append, handed_append, ih h.2]
    cases isTaken with
    | true => simp
    | false =>
      have hnone : us = [] := by simpa using h.1
      simp [hnone]

namespace Sink

variable {σ : Type}

/-- The sink `k`, with all batches written down. -/
def overheard (k : Sink σ) : Sink (σ × List Delivery) where
  chunkSize := k.chunkSize
  write chunk s := ((k.write chunk s.1).1, (k.write chunk s.1).2, s.2)
  writeUpdates us s :=
    ((k.writeUpdates us s.1).1, (k.writeUpdates us s.1).2,
      s.2 ++ [⟨us, (k.writeUpdates us s.1).1.isOk⟩])
  close s := ((k.close s.1).1, (k.close s.1).2, s.2)

/-- A sink that takes every batch, though it may ask to stop. -/
def Takes (k : Sink σ) : Prop := ∀ us s, ∃ answer, (k.writeUpdates us s).1 = .ok answer

/-- A sink that takes every batch, always asks for more and can be closed. -/
structure Accepts (k : Sink σ) : Prop where
  proceeds : ∀ us s, (k.writeUpdates us s).1 = .ok .proceed
  closes : ∀ s, (k.close s).1 = .ok ()

theorem Accepts.takes {k : Sink σ} (h : k.Accepts) : k.Takes :=
  fun us s => ⟨.proceed, h.proceeds us s⟩

theorem Accepts.finish {k : Sink σ} (h : k.Accepts) (s : σ) :
    (k.finish .running s).1 = .completed := by
  have hclose := h.closes s
  dsimp only [Sink.finish]
  generalize k.close s = answer at hclose
  obtain ⟨answer, s'⟩ := answer
  subst hclose
  rfl

theorem finish_overheard (k : Sink σ) (flow : Flow) (s : σ × List Delivery) :
    k.overheard.finish flow s = ((k.finish flow s.1).1, (k.finish flow s.1).2, s.2) := by
  cases flow with
  | stopped | failed => rfl
  | running =>
    simp only [finish, overheard]
    generalize k.close s.1 = answer
    obtain ⟨answer, s'⟩ := answer
    cases answer <;> rfl

end Sink

namespace Batch

variable {σ : Type} {k : Sink σ} {b : Batch (σ × List Delivery)}

/-- The batch as it is when nobody listens. -/
def unheard (b : Batch (σ × List Delivery)) : Batch σ := ⟨b.limit, b.waiting, b.flow, b.state.1⟩

theorem flush_overheard (k : Sink σ) (b : Batch (σ × List Delivery)) :
    b.flush k.overheard =
      match k.writeUpdates b.waiting b.state.1 with
      | (.ok .proceed, s) =>
        { b with waiting := [], state := (s, b.state.2 ++ [⟨b.waiting, true⟩]) }
      | (answer, s) =>
        { b with
          flow := Flow.after answer
          state := (s, b.state.2 ++ [⟨b.waiting, answer.isOk⟩]) } := by
  simp only [flush, Sink.overheard]
  generalize k.writeUpdates b.waiting b.state.1 = answer
  obtain ⟨answer, s⟩ := answer
  rcases answer with e | (_ | _) <;> rfl

theorem unheard_flush (k : Sink σ) (b : Batch (σ × List Delivery)) :
    (b.flush k.overheard).unheard = b.unheard.flush k := by
  rw [flush_overheard]
  simp only [flush, unheard]
  generalize k.writeUpdates b.waiting b.state.1 = answer
  obtain ⟨answer, s⟩ := answer
  rcases answer with e | (_ | _) <;> rfl

theorem unheard_add (k : Sink σ) (b : Batch (σ × List Delivery)) (u : Update) :
    (b.add k.overheard u).unheard = b.unheard.add k u := by
  have hflush := unheard_flush k { b with waiting := b.waiting ++ [u] }
  by_cases hfull : b.limit ≤ (b.waiting ++ [u]).length
  · have hfull' : b.unheard.limit ≤ (b.unheard.waiting ++ [u]).length := hfull
    simp only [add, if_pos hfull, if_pos hfull']
    exact hflush
  · have hfull' : ¬ b.unheard.limit ≤ (b.unheard.waiting ++ [u]).length := hfull
    simp only [add, if_neg hfull, if_neg hfull']
    rfl

/-- What a sink has been told: what was handed over, and what waits if it will be. -/
def told (b : Batch (σ × List Delivery)) : List Update :=
  handed b.state.2 ++ if b.flow = .running then b.waiting else []

theorem told_flush (hb : b.flow = .running) : (b.flush k.overheard).told = b.told := by
  rw [flush_overheard]
  rcases k.writeUpdates b.waiting b.state.1 with ⟨e | (_ | _), s⟩ <;>
    simp [told, hb, Flow.after]

theorem told_add (hb : b.flow = .running) (u : Update) :
    (b.add k.overheard u).told = b.told ++ [u] := by
  have hwaiting : ({ b with waiting := b.waiting ++ [u] } : Batch _).told = b.told ++ [u] := by
    simp [told, hb]
  rw [← hwaiting, add]
  dsimp only
  split
  · exact told_flush hb
  · rfl

/-- A log in order: batches were taken up to the one whose write failed, if any. -/
structure Orderly (k : Sink σ) (b : Batch (σ × List Delivery)) : Prop where
  handed_eq : handed b.state.2 = received b.state.2 ++ refused b.state.2
  failed : refused b.state.2 ≠ [] ↔ ∃ e, b.flow = .failed e
  takes : k.Takes → refused b.state.2 = []
  accepts : k.Accepts → b.flow = .running

namespace Orderly

theorem refused_eq (h : b.Orderly k) (hb : b.flow = .running) : refused b.state.2 = [] := by
  refine Decidable.byContradiction fun hne => ?_
  obtain ⟨e, he⟩ := h.failed.mp hne
  rw [hb] at he
  cases he

theorem flush (h : b.Orderly k) (hb : b.flow = .running) (hwaiting : b.waiting ≠ []) :
    (b.flush k.overheard).Orderly k := by
  have hhanded := h.handed_eq
  have hrefused := h.refused_eq hb
  rw [hrefused, List.append_nil] at hhanded
  rw [flush_overheard]
  rcases hanswer : k.writeUpdates b.waiting b.state.1 with ⟨e | (_ | _), s⟩
  · refine ⟨?_, ?_, fun hk => ?_, fun hk => ?_⟩
    · simp [hhanded, hrefused, Except.isOk, Except.toBool]
    · simp [hrefused, hwaiting, Except.isOk, Except.toBool, Flow.after]
    · obtain ⟨answer, htaken⟩ := hk b.waiting b.state.1
      rw [hanswer] at htaken
      cases htaken
    · have htaken := hk.1 b.waiting b.state.1
      rw [hanswer] at htaken
      cases htaken
  · refine ⟨?_, ?_, fun _ => ?_, fun _ => hb⟩
    · simp [hhanded, hrefused]
    · simp [hrefused, hb]
    · simp [hrefused]
  · refine ⟨?_, ?_, fun _ => ?_, fun hk => ?_⟩
    · simp [hhanded, hrefused, Except.isOk, Except.toBool]
    · simp [hrefused, Except.isOk, Except.toBool, Flow.after]
    · simp [hrefused, Except.isOk, Except.toBool]
    · have hproceeds := hk.1 b.waiting b.state.1
      rw [hanswer] at hproceeds
      cases hproceeds

theorem add (h : b.Orderly k) (hb : b.flow = .running) (u : Update) :
    (b.add k.overheard u).Orderly k := by
  have hwaiting : ({ b with waiting := b.waiting ++ [u] } : Batch _).Orderly k :=
    ⟨h.handed_eq, h.failed, h.takes, h.accepts⟩
  rw [Batch.add]
  dsimp only
  split
  · exact hwaiting.flush hb (by simp)
  · exact hwaiting

end Orderly

/-- The batch whose last updates were handed over. -/
def emptied (k : Sink σ) (b : Batch σ) : Batch σ :=
  if b.flow = .running ∧ b.waiting ≠ [] then b.flush k else b

theorem finish_eq (k : Sink σ) (b : Batch σ) :
    b.finish k = k.finish (b.emptied k).flow (b.emptied k).state :=
  rfl

theorem unheard_emptied (k : Sink σ) (b : Batch (σ × List Delivery)) :
    (b.emptied k.overheard).unheard = b.unheard.emptied k := by
  by_cases hwaits : b.flow = .running ∧ b.waiting ≠ []
  · have hwaits' : b.unheard.flow = .running ∧ b.unheard.waiting ≠ [] := hwaits
    rw [emptied, emptied, if_pos hwaits, if_pos hwaits', unheard_flush]
  · have hwaits' : ¬ (b.unheard.flow = .running ∧ b.unheard.waiting ≠ []) := hwaits
    rw [emptied, emptied, if_neg hwaits, if_neg hwaits']

theorem finish_overheard (k : Sink σ) (b : Batch (σ × List Delivery)) :
    b.finish k.overheard =
      ((b.unheard.finish k).1, (b.unheard.finish k).2, (b.emptied k.overheard).state.2) := by
  rw [finish_eq, Sink.finish_overheard, finish_eq, ← unheard_emptied]
  rfl

theorem Orderly.emptied (h : b.Orderly k) : (b.emptied k.overheard).Orderly k := by
  unfold Batch.emptied
  split
  · next hwaits => exact h.flush hwaits.1 hwaits.2
  · exact h

/-- In the end all that was told has been handed over. -/
theorem handed_emptied (b : Batch (σ × List Delivery)) :
    handed (b.emptied k.overheard).state.2 = b.told := by
  unfold emptied
  split
  · next hwaits =>
    rw [flush_overheard]
    rcases k.writeUpdates b.waiting b.state.1 with ⟨e | (_ | _), s⟩ <;> simp [told, hwaits.1]
  · next hwaits =>
    rw [told]
    split
    · next hrun =>
      have hnone : b.waiting = [] := Decidable.byContradiction fun hne => hwaits ⟨hrun, hne⟩
      rw [hnone, List.append_nil]
    · rw [List.append_nil]

/-- A batch that neither stopped nor failed in the end was running before its last updates. -/
theorem running_of_finish {b : Batch σ} (hending : (b.finish k).1 ≠ .aborted)
    (hflow : ¬ ∃ e, (b.emptied k).flow = .failed e) : b.flow = .running := by
  refine Decidable.byContradiction fun hne => ?_
  have hemptied : b.emptied k = b := by rw [emptied, if_neg fun hwaits => hne hwaits.1]
  rw [finish_eq, hemptied] at hending
  rw [hemptied] at hflow
  cases hb : b.flow with
  | running => exact hne hb
  | stopped => rw [hb] at hending; exact hending rfl
  | failed e => exact hflow ⟨e, hb⟩

end Batch

/-! ## Walking the spans -/

section Walk

variable {σ : Type} {k : Sink σ}

/-- Overheard or not, the spans come out the same. -/
theorem reportSpans_overheard (k : Sink σ) (index : Nat) (rows : List Row) (spans : List Span)
    (b : Batch (σ × List Delivery)) :
    (reportSpans k.overheard index rows spans b).1 = (reportSpans k index rows spans b.unheard).1 ∧
      (reportSpans k.overheard index rows spans b).2.unheard =
        (reportSpans k index rows spans b.unheard).2 := by
  induction spans generalizing index rows b with
  | nil => exact ⟨rfl, rfl⟩
  | cons s ss ih =>
    simp only [reportSpans]
    generalize tallyBelow s.bound {} rows = walked
    obtain ⟨t, rest⟩ := walked
    dsimp only
    split
    · obtain ⟨hspans, hbatch⟩ := ih (index + 1) rest b
      exact ⟨by rw [hspans], hbatch⟩
    · have hadd := Batch.unheard_add k b ⟨index, t.count, t.size⟩
      have hflow : (b.add k.overheard ⟨index, t.count, t.size⟩).flow =
          (b.unheard.add k ⟨index, t.count, t.size⟩).flow := by
        rw [← hadd]
        rfl
      obtain ⟨hspans, hbatch⟩ := ih (index + 1) rest (b.add k.overheard ⟨index, t.count, t.size⟩)
      rw [hadd] at hspans hbatch
      rw [hflow]
      split
      · exact ⟨by rw [hspans], hbatch⟩
      · exact ⟨rfl, hadd⟩

/-- The spans once the updates `us` of all changes were told, with `rest` still untold. -/
structure Walked (k : Sink σ) (index : Nat) (rows : List Row) (spans spans' : List Span)
    (b b' : Batch (σ × List Delivery)) (us rest : List Update) : Prop where
  changes_eq : changes index rows spans = us ++ rest
  told_eq : b'.told = b.told ++ us
  whole : b'.flow = .running → rest = []
  bounds : spans'.map (·.bound) = spans.map (·.bound)
  /-- A reader of the updates keeps up with what is recorded. -/
  entered : ∀ t : Nat → Tally, (∀ i, t (index + i) = population spans i) →
    ∀ i, enterAll t us (index + i) = population spans' i
  orderly : b'.Orderly k

/-- A reader who knows the first span keeps up with all if it does with the others. -/
theorem enterAll_eq_population {index : Nat} {us : List Update} {s : Span} {ss ss' : List Span}
    (hus : ∀ u ∈ us, index < u.index)
    (hlater : ∀ t : Nat → Tally, (∀ i, t (index + 1 + i) = population ss i) →
      ∀ i, enterAll t us (index + 1 + i) = population ss' i)
    {t : Nat → Tally} (hfirst : t index = ⟨s.count, s.size⟩)
    (ht : ∀ i, t (index + 1 + i) = population ss i) (i : Nat) :
    enterAll t us (index + i) = population (s :: ss') i := by
  cases i with
  | zero =>
    rw [Nat.add_zero, enterAll_of_not_mem fun u hu => Nat.ne_of_gt (hus u hu)]
    exact hfirst
  | succ i =>
    rw [population_cons_succ, ← Nat.add_assoc, Nat.add_right_comm]
    exact hlater t ht i

/-- However the sink answers, the spans are brought up to date as far as it was told. -/
theorem exists_walked (index : Nat) (rows : List Row) (spans : List Span)
    {b : Batch (σ × List Delivery)} (hb : b.flow = .running) (ho : b.Orderly k) :
    ∃ us rest, Walked k index rows spans (reportSpans k.overheard index rows spans b).1 b
      (reportSpans k.overheard index rows spans b).2 us rest := by
  induction spans generalizing index rows b with
  | nil => exact ⟨[], [], rfl, (List.append_nil _).symm, fun _ => rfl, rfl, fun _ ht => ht, ho⟩
  | cons s ss ih =>
    have hindex : ∀ {us rest : List Update} {rows' : List Row},
        changes (index + 1) rows' ss = us ++ rest → ∀ u ∈ us, index < u.index :=
      fun hchanges u hu => le_index_of_mem_changes (hchanges ▸ List.mem_append_left _ hu)
    have hshift : ∀ {t : Nat → Tally}, (∀ i, t (index + i) = population (s :: ss) i) →
        ∀ i, t (index + 1 + i) = population ss i := by
      intro t ht i
      rw [Nat.add_right_comm, Nat.add_assoc, ht, population_cons_succ]
    simp only [reportSpans]
    have hchanges : changes index rows (s :: ss) = _ := changes.eq_2 index rows s ss
    generalize tallyBelow s.bound {} rows = walked at hchanges ⊢
    obtain ⟨tally, later⟩ := walked
    dsimp only at hchanges ⊢
    split
    · next hsame =>
      obtain ⟨us, rest, hwalked⟩ := ih (index + 1) later hb ho
      rw [if_pos hsame, hwalked.changes_eq] at hchanges
      refine ⟨us, rest, hchanges, hwalked.told_eq, hwalked.whole, ?_, ?_, hwalked.orderly⟩
      · rw [List.map_cons, hwalked.bounds, List.map_cons]
      · exact fun t ht => enterAll_eq_population (hindex hwalked.changes_eq) hwalked.entered (ht 0)
          (hshift ht)
    · next hnew =>
      rw [if_neg hnew] at hchanges
      have htold := Batch.told_add (k := k) hb ⟨index, tally.count, tally.size⟩
      have ho' := ho.add (k := k) hb ⟨index, tally.count, tally.size⟩
      -- a reader who takes the update in knows the first span, and the others as before
      have hfirst : ∀ t : Nat → Tally,
          Update.enter t ⟨index, tally.count, tally.size⟩ index = ⟨tally.count, tally.size⟩ :=
        fun t => if_pos rfl
      have hothers : ∀ {t : Nat → Tally}, (∀ i, t (index + i) = population (s :: ss) i) → ∀ i,
          Update.enter t ⟨index, tally.count, tally.size⟩ (index + 1 + i) = population ss i := by
        intro t ht i
        have hne : index ≠ index + 1 + i := by omega
        exact (if_neg hne).trans (hshift ht i)
      generalize b.add k.overheard ⟨index, tally.count, tally.size⟩ = b₁ at htold ho' ⊢
      split
      · next hrun =>
        obtain ⟨us, rest, hwalked⟩ := ih (index + 1) later hrun ho'
        rw [hwalked.changes_eq] at hchanges
        refine ⟨⟨index, tally.count, tally.size⟩ :: us, rest, hchanges, ?_, hwalked.whole, ?_, ?_,
          hwalked.orderly⟩
        · rw [hwalked.told_eq, htold, List.append_assoc]
          rfl
        · rw [List.map_cons, hwalked.bounds, List.map_cons]
        · exact fun t ht => enterAll_eq_population (hindex hwalked.changes_eq) hwalked.entered
            (hfirst t) (hothers ht)
      · next hrun =>
        refine ⟨[⟨index, tally.count, tally.size⟩], _, hchanges, htold, fun h => (hrun h).elim, rfl,
          ?_, ho'⟩
        have hnone : ∀ u ∈ ([] : List Update), index < u.index :=
          fun u hu => (List.not_mem_nil hu).elim
        exact fun t ht => enterAll_eq_population hnone (fun t ht => ht) (hfirst t) (hothers ht)

end Walk

/-! ## Reports -/

namespace Ledger

variable {σ : Type}

/-- The batches that a report hands to its sink. -/
def deliveries (l : Ledger) (live : List HeapObject) (now : Int) (k : Sink σ) (s : σ) :
    List Delivery :=
  (l.report live now k.overheard (s, [])).sink.2

/-- The spans of a report, with the one that it closes. -/
def openSpans (l : Ledger) (live : List HeapObject) (now : Int) : List Span :=
  (l.refresh live).spans ++ [{ bound := ⟨(l.refresh live).nextId⟩, time := now }]

/-- The walk of a report over its spans. -/
def walk (l : Ledger) (live : List HeapObject) (now : Int) (k : Sink σ) (s : σ) :
    List Span × Batch σ :=
  reportSpans k 0 (l.refresh live).body (l.openSpans live now)
    { limit := max 1 k.chunkSize, state := s }

theorem report_eq_walk (l : Ledger) (live : List HeapObject) (now : Int) (k : Sink σ) (s : σ) :
    l.report live now k s =
      { ledger := { l.refresh live with spans := (l.walk live now k s).1 }
        ending := ((l.walk live now k s).2.finish k).1
        sink := ((l.walk live now k s).2.finish k).2 } :=
  rfl

/-- Overheard or not, a walk comes to the same. -/
theorem walk_overheard (l : Ledger) (live : List HeapObject) (now : Int) (k : Sink σ) (s : σ) :
    (l.walk live now k.overheard (s, [])).1 = (l.walk live now k s).1 ∧
      (l.walk live now k.overheard (s, [])).2.unheard = (l.walk live now k s).2 :=
  reportSpans_overheard ..

theorem deliveries_eq (l : Ledger) (live : List HeapObject) (now : Int) (k : Sink σ) (s : σ) :
    l.deliveries live now k s =
      ((l.walk live now k.overheard (s, [])).2.emptied k.overheard).state.2 := by
  rw [deliveries, report_eq_walk, Batch.finish_overheard]

/-- The span that a report closes has nothing recorded for it yet. -/
theorem population_openSpans (l : Ledger) (live : List HeapObject) (now : Int) (i : Nat) :
    population (l.openSpans live now) i = population l.spans i := by
  unfold population openSpans
  rw [(later_refresh l live).spans]
  by_cases hi : i < l.spans.length
  · rw [List.getElem?_append_left hi]
  · have hge : l.spans.length ≤ i := Nat.le_of_not_lt hi
    rw [List.getElem?_append_right hge, List.getElem?_eq_none hge]
    cases i - l.spans.length <;> rfl

/-- A report that handed over the updates `us` of all changes, with `rest` left untold. -/
structure Reported (l : Ledger) (live : List HeapObject) (now : Int) (k : Sink σ) (s : σ)
    (us rest : List Update) : Prop where
  changes_eq : changes 0 (l.refresh live).body (l.openSpans live now) = us ++ rest
  handed_eq : handed (l.deliveries live now k s) = us
  parts : us = received (l.deliveries live now k s) ++ refused (l.deliveries live now k s)
  bounds : (l.report live now k s).ledger.spans.map (·.bound) =
    (l.openSpans live now).map (·.bound)
  entered : ∀ i, enterAll (population l.spans) us i =
    population (l.report live now k s).ledger.spans i
  whole : (l.report live now k s).ending ≠ .aborted → refused (l.deliveries live now k s) = [] →
    rest = []
  takes : k.Takes → refused (l.deliveries live now k s) = []
  accepts : k.Accepts → (l.report live now k s).ending = .completed

theorem exists_reported (l : Ledger) (live : List HeapObject) (now : Int) (k : Sink σ) (s : σ) :
    ∃ us rest, Reported l live now k s us rest := by
  have hstart : Batch.Orderly k
      { limit := max 1 k.chunkSize, state := (s, []) } := by
    refine ⟨rfl, ?_, fun _ => rfl, fun _ => rfl⟩
    simp [refused]
  obtain ⟨us, rest, hwalked⟩ := exists_walked (k := k) 0 (l.refresh live).body
    (l.openSpans live now) (b := { limit := max 1 k.chunkSize, state := (s, []) }) rfl hstart
  obtain ⟨hspans, hbatch⟩ := l.walk_overheard live now k s
  have horderly := hwalked.orderly.emptied
  have hflow : ((l.walk live now k.overheard (s, [])).2.emptied k.overheard).flow =
      ((l.walk live now k s).2.emptied k).flow := by
    rw [← hbatch, ← Batch.unheard_emptied]
    rfl
  have hhanded : handed (l.deliveries live now k s) = us := by
    rw [deliveries_eq, Batch.handed_emptied]
    exact hwalked.told_eq
  rw [show reportSpans k.overheard 0 (l.refresh live).body (l.openSpans live now)
    { limit := max 1 k.chunkSize, state := (s, []) } = l.walk live now k.overheard (s, []) from rfl]
    at horderly hwalked
  refine ⟨us, rest, ?_⟩
  constructor
  · exact hwalked.changes_eq
  · exact hhanded
  · rw [← hhanded, deliveries_eq]
    exact horderly.handed_eq
  · show (l.walk live now k s).1.map (·.bound) = _
    rw [← hspans]
    exact hwalked.bounds
  · intro i
    show _ = population (l.walk live now k s).1 i
    rw [← hspans]
    have := hwalked.entered (population l.spans) (fun j => by
      rw [Nat.zero_add, population_openSpans]) i
    rwa [Nat.zero_add] at this
  · intro hending hrefused
    refine hwalked.whole ?_
    rw [deliveries_eq] at hrefused
    have hnofail := mt horderly.failed.mpr (not_not_intro hrefused)
    rw [hflow] at hnofail
    have hrun : (l.walk live now k s).2.flow = .running :=
      Batch.running_of_finish hending hnofail
    rwa [← hbatch] at hrun
  · intro hk
    rw [deliveries_eq]
    exact horderly.takes hk
  · intro hk
    have hrun := horderly.accepts hk
    rw [hflow] at hrun
    rw [report_eq_walk, Batch.finish_eq, hrun]
    exact hk.finish _

end Ledger

end ManagedHeap
