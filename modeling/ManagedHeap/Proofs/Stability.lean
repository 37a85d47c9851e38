import ManagedHeap.Proofs.Residence
import ManagedHeap.Proofs.Tracking

/-!
# Numbers last as long as their objects

An observer stays with a heap while objects come, move and go, and while it takes snapshots and
makes reports that may end in any way. The heap may change at will and the observer need not hear of
it: these are the deeds of a session. An event is a number of deeds that can happen to a heap whose
observer is told of every move. Once an object has a number, it keeps it along all events, wherever
it moves, until it is removed: `Session.idOf?_stable`.
-/
namespace ManagedHeap

/-- An observer and the heap that it stays with. -/
structure Session where
  observer : Observer
  heap : Heap

/-- What an observer and its heap can go through, if the heap may change in any way. -/
inductive Deed : Type 1 where
  /-- The heap changes: objects appear, are replaced, moved or collected. -/
  | change (f : Heap → Heap)
  /-- The observer is told that an object has moved. -/
  | moved (source target : Address) (size : Nat)
  | snapshot (control : Option Control)
  | report {σ : Type} (now : Int) (k : Sink σ) (state : σ)

namespace Session

/-- The session after a snapshot. -/
def snapped (w : Session) (control : Option Control) : Session :=
  ⟨(w.observer.snapshot w.heap control).observer, (w.observer.snapshot w.heap control).heap⟩

/-- The session after a deed. -/
def does (w : Session) : Deed → Session
  | .change f => { w with heap := f w.heap }
  | .moved source target size =>
    { w with observer := (w.observer.moved source target size).2 }
  | .snapshot control => w.snapped control
  | .report now k state =>
    ⟨(w.observer.report w.heap now k state).2.1, (w.observer.report w.heap now k state).2.2⟩

/-- The session after deeds one after the other. -/
def doesAll (w : Session) (ds : List Deed) : Session := ds.foldl does w

theorem doesAll_cons (w : Session) (d : Deed) (ds : List Deed) :
    w.doesAll (d :: ds) = (w.does d).doesAll ds :=
  rfl

variable {w : Session}

/-- Whatever is done, the ledger agrees with itself. -/
theorem sound_does (hw : w.observer.ledger.Sound) (d : Deed) :
    (w.does d).observer.ledger.Sound := by
  cases d with
  | change f => exact hw
  | moved source target size => exact Ledger.sound_move hw source target size
  | snapshot control => exact (Observer.find?_snapshot hw w.heap control).1
  | report now k state => exact (Observer.find?_report hw w.heap now k state).1

theorem sound_doesAll (hw : w.observer.ledger.Sound) (ds : List Deed) :
    (w.doesAll ds).observer.ledger.Sound := by
  induction ds generalizing w with
  | nil => exact hw
  | cons d ds ih => exact ih (sound_does hw d)

end Session

/-! ## Events -/

/-- What can happen to a heap and its observer, if the latter is told of every move. -/
inductive Event : Type 1 where
  /-- An object appears at a free address. -/
  | insert (o : HeapObject)
  | remove (a : Address)
  /-- An object moves, and the observer is told. -/
  | relocate (source target : Address)
  | snapshot (control : Option Control)
  | report {σ : Type} (now : Int) (k : Sink σ) (state : σ)

namespace Event

/-- The deeds of an event, if it can happen: an object can appear or move only where there is
none. -/
def deeds? (h : Heap) : Event → Option (List Deed)
  | .insert o => if (h.object? o.address).isSome then none else some [.change (·.insert o)]
  | .remove a => some [.change (·.remove a)]
  | .relocate source target =>
    (h.relocate source target).map fun (size, heap) =>
      [.change fun _ => heap, .moved source target size]
  | .snapshot control => some [.snapshot control]
  | .report now k state => some [.report now k state]

/-- Where the object at an address is afterwards, unless it is gone. -/
def follow (a : Address) : Event → Option Address
  | .remove b => if a = b then none else some a
  | .relocate source target => some (a.moved source target)
  | .insert _ | .snapshot _ | .report _ _ _ => some a

/-- Where the object at an address is after a number of events, unless it is gone. -/
def followAll (a : Address) (es : List Event) : Option Address := es.foldlM follow a

end Event

namespace Session

/-- One event, if it can happen. -/
def step? (w : Session) (e : Event) : Option Session := (e.deeds? w.heap).map w.doesAll

/-- Events one after the other. -/
def run? (w : Session) (es : List Event) : Option Session := es.foldlM step? w

/-- An object with a number. -/
def Knows (w : Session) (a : Address) (id : ObjectId) : Prop :=
  (w.heap.object? a).isSome = true ∧ w.observer.idOf? a = some id

variable {w w' : Session} {a a' : Address} {id : ObjectId}

theorem knows_insert {o : HeapObject} (hfree : w.heap.object? o.address = none)
    (hknows : w.Knows a id) : Knows { w with heap := w.heap.insert o } a id := by
  refine ⟨?_, hknows.2⟩
  have hne : o.address ≠ a := by
    rintro rfl
    have := hknows.1
    rw [hfree] at this
    cases this
  show ((w.heap.insert o).object? a).isSome = true
  rw [Heap.object?_insert, if_neg hne]
  exact hknows.1

theorem knows_remove {b : Address} (hne : a ≠ b) (hknows : w.Knows a id) :
    Knows { w with heap := w.heap.remove b } a id := by
  refine ⟨?_, hknows.2⟩
  show ((w.heap.remove b).object? a).isSome = true
  rw [Heap.object?_remove, if_neg (Ne.symm hne)]
  exact hknows.1

theorem knows_relocate {source target : Address} {size : Nat} {heap : Heap}
    (hw : w.observer.ledger.Sound)
    (hr : w.heap.relocate source target = some (size, heap)) (hknows : w.Knows a id) :
    Knows ⟨(w.observer.moved source target size).2, heap⟩ (a.moved source target) id := by
  obtain ⟨hne, hfree, o, -, -, rfl⟩ := Heap.relocate_eq_some hr
  have htarget : target ≠ a := by
    rintro rfl
    have := hknows.1
    rw [hfree] at this
    cases this
  have hfind : ∀ b, (w.observer.moved source target size).2.idOf? b =
      if target = b then w.observer.idOf? source
      else if source = b then none else w.observer.idOf? b :=
    Ledger.find?_move hw hne size
  unfold Address.moved
  by_cases ha : a = source
  · subst ha
    rw [if_pos rfl]
    refine ⟨?_, ?_⟩
    · show ((w.heap.rehome o a target).object? target).isSome = true
      rw [Heap.object?_rehome, if_pos rfl]
      rfl
    · show (w.observer.moved a target size).2.idOf? target = some id
      rw [hfind, if_pos rfl]
      exact hknows.2
  · rw [if_neg ha]
    refine ⟨?_, ?_⟩
    · show ((w.heap.rehome o source target).object? a).isSome = true
      rw [Heap.object?_rehome, if_neg htarget, if_neg (Ne.symm ha), Option.isSome_map]
      exact hknows.1
    · show (w.observer.moved source target size).2.idOf? a = some id
      rw [hfind, if_neg htarget, if_neg (Ne.symm ha)]
      exact hknows.2

/-- An object with a number is among those that are visited. -/
theorem Knows.exists_live (hknows : w.Knows a id) :
    ∃ o ∈ w.heap.live, o.address = a ∧ w.heap.view.isLive o.address = true ∧
      w.observer.ledger.find? o.address = some id := by
  obtain ⟨o, ho⟩ := Option.isSome_iff_exists.mp hknows.1
  have haddress := w.heap.keyed a o ho
  refine ⟨o, Heap.mem_live ho, haddress, ?_, ?_⟩
  · rw [haddress]
    exact hknows.1
  · rw [haddress]
    exact hknows.2

theorem sound_step {e : Event} (hw : w.observer.ledger.Sound) (hstep : w.step? e = some w') :
    w'.observer.ledger.Sound := by
  obtain ⟨ds, -, rfl⟩ := Option.map_eq_some_iff.mp hstep
  exact sound_doesAll hw ds

/-- One event keeps every number with its object. -/
theorem Knows.step {e : Event} (hknows : w.Knows a id) (hw : w.observer.ledger.Sound)
    (hstep : w.step? e = some w') (hfollow : e.follow a = some a') : w'.Knows a' id := by
  obtain ⟨ds, hds, rfl⟩ := Option.map_eq_some_iff.mp hstep
  cases e with
  | insert o =>
    rw [Event.deeds?] at hds
    split at hds
    · cases hds
    · next hfree =>
      cases hds
      cases hfollow
      exact knows_insert (by simpa using hfree) hknows
  | remove b =>
    cases hds
    rw [Event.follow] at hfollow
    split at hfollow
    · cases hfollow
    · next hne => cases hfollow; exact knows_remove hne hknows
  | relocate source target =>
    obtain ⟨⟨size, heap⟩, hr, rfl⟩ := Option.map_eq_some_iff.mp hds
    cases hfollow
    have hmoved := knows_relocate hw hr hknows
    exact hmoved
  | snapshot control =>
    cases hds
    cases hfollow
    obtain ⟨-, hfind⟩ := Observer.find?_snapshot hw w.heap control
    obtain ⟨times, hheap⟩ := w.observer.heap_snapshot w.heap control
    obtain ⟨o, ho, rfl, hlive, hid⟩ := hknows.exists_live
    refine ⟨?_, hfind o ho hlive id hid⟩
    show ((w.observer.snapshot w.heap control).heap.object? o.address).isSome = true
    rw [hheap]
    exact hknows.1
  | report now k state =>
    cases hds
    cases hfollow
    obtain ⟨-, hfind⟩ := Observer.find?_report hw w.heap now k state
    obtain ⟨o, ho, rfl, hlive, hid⟩ := hknows.exists_live
    exact ⟨hknows.1, hfind o ho id hid⟩

theorem sound_run {es : List Event} (hw : w.observer.ledger.Sound) (hrun : w.run? es = some w') :
    w'.observer.ledger.Sound := by
  induction es generalizing w with
  | nil => cases hrun; exact hw
  | cons e es ih =>
    rw [run?, List.foldlM_cons] at hrun
    obtain ⟨u, hu, hrest⟩ := Option.bind_eq_some_iff.mp hrun
    exact ih (sound_step hw hu) hrest

/-- What an event keeps, any number of events keep. -/
theorem Knows.run {es : List Event} (hknows : w.Knows a id) (hw : w.observer.ledger.Sound)
    (hrun : w.run? es = some w') (hfollow : Event.followAll a es = some a') : w'.Knows a' id := by
  induction es generalizing w a with
  | nil =>
    cases hrun
    cases hfollow
    exact hknows
  | cons e es ih =>
    rw [run?, List.foldlM_cons] at hrun
    obtain ⟨u, hu, hrest⟩ := Option.bind_eq_some_iff.mp hrun
    rw [Event.followAll, List.foldlM_cons] at hfollow
    obtain ⟨b, hb, hfollow'⟩ := Option.bind_eq_some_iff.mp hfollow
    exact ih (hknows.step hw hu hb) (sound_step hw hu) hrest hfollow'

/-- Once an object has a number, it has that number at its place after any further events, so long
as it is not removed. -/
theorem idOf?_stable {w₀ : Session} (hfresh : w₀.observer.ledger = {}) {es es' : List Event}
    (hrun : w₀.run? es = some w) (hlater : w.run? es' = some w')
    (hlive : (w.heap.object? a).isSome = true) (hid : w.observer.idOf? a = some id)
    (hfollow : Event.followAll a es' = some a') :
    (w'.heap.object? a').isSome = true ∧ w'.observer.idOf? a' = some id := by
  have hsound₀ : w₀.observer.ledger.Sound := hfresh ▸ Ledger.sound_empty
  have hknows : w.Knows a id := ⟨hlive, hid⟩
  exact hknows.run (sound_run hsound₀ hrun) hlater hfollow

/-- A fresh observer and a heap with one object. -/
def solo : Session := ⟨{}, Heap.empty.insert { address := ⟨16⟩, size := 24, tag := .object }⟩

/-- The object gets its number from a report. -/
def soloReport : List Event := [.report 0 (Sink.collecting 1 none) {}]

/-- The object moves, another takes its place, and a snapshot is stopped before one completes. -/
def soloMove : List Event :=
  [.relocate ⟨16⟩ ⟨48⟩, .insert { address := ⟨16⟩, size := 8, tag := .heapNumber },
    .snapshot (some fun _ => true), .snapshot none]

theorem idOf?_stable_solo :
    ∃ w w' id, solo.run? soloReport = some w ∧ w.run? soloMove = some w' ∧
      w.observer.idOf? ⟨16⟩ = some id ∧ w'.observer.idOf? ⟨48⟩ = some id := by
  have hw : solo.run? soloReport = some ((solo.run? soloReport).get (by decide +kernel)) :=
    (Option.some_get _).symm
  have hw' := (Option.some_get (x := Session.run?
    ((solo.run? soloReport).get (by decide +kernel)) soloMove) (by decide +kernel)).symm
  have hid := (Option.some_get (x := Observer.idOf?
    ((solo.run? soloReport).get (by decide +kernel)).observer ⟨16⟩) (by decide +kernel)).symm
  exact ⟨_, _, _, hw, hw', hid,
    (idOf?_stable rfl hw hw' (by decide +kernel) hid (by decide +kernel)).2⟩

end Session

end ManagedHeap
