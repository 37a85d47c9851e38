import ManagedHeap.Proofs.Contents
import ManagedHeap.Proofs.Transparency

/-!
# Numbers of what has died

A sweep drops the numbers that nobody has asked for since the last one. A capture asks for all that
the heap holds, but sweeps only if it completes: what a stopped or failed capture has asked for
counts as used until the next sweep, dead or alive. So after a completed snapshot the addresses with
a number are those of what the heap holds, and of what was in use before,
`Session.idOf?_after_snapshot`.
-/
namespace ManagedHeap

namespace Ledger

variable {l : Ledger} {a b : Address}

theorem isSome_find?_sweep (h : l.Sound) (a : Address) :
    (l.sweep.find? a).isSome = true ↔ l.IsUsed a := by
  rw [find?_eq, Option.isSome_map, row?_sweep h]
  unfold IsUsed
  cases l.row? a with
  | none => simp
  | some r => cases hr : r.isAccessed <;> simp [hr]

/-- After a sweep nothing is in use. -/
theorem not_isUsed_sweep (h : l.Sound) (a : Address) : ¬ l.sweep.IsUsed a := by
  rintro ⟨r, hr, hused⟩
  rw [row?_sweep h, Option.bind_eq_some_iff] at hr
  obtain ⟨s, -, hs⟩ := hr
  split at hs
  · cases hs
    cases hused
  · cases hs

theorem isUsed_track_iff (h : l.Sound) (a : Address) (size : Nat) :
    (l.track a size).2.IsUsed b ↔ a = b ∨ l.IsUsed b := by
  constructor
  · rintro ⟨r, hr, hused⟩
    rw [track, row?_record h] at hr
    split at hr
    · next hab => exact .inl hab
    · exact .inr ⟨r, hr, hused⟩
  · rintro (rfl | hused)
    · exact isUsed_track h a size
    · exact hused.track h a size

/-- What is in use after a move was so before, at the same place or another. -/
theorem IsUsed.of_move (h : l.Sound) {source target : Address} {size : Nat}
    (hused : (l.move source target size).2.IsUsed b) : ∃ a, l.IsUsed a := by
  obtain ⟨r, hr, hused⟩ := hused
  by_cases hne : source = target
  · have hsame : (l.move source target size).2 = l := by simp [move, hne]
    rw [hsame] at hr
    exact ⟨b, r, hr, hused⟩
  · rw [row?_move h hne] at hr
    split at hr
    · obtain ⟨s, hs, rfl⟩ := Option.map_eq_some_iff.mp hr
      exact ⟨source, s, hs, hused⟩
    · split at hr
      · cases hr
      · exact ⟨b, r, hr, hused⟩

end Ledger

/-! ## What a capture asks for -/

namespace Draft

variable {sc : Scope} {S : BackingStore → Prop} {before : Ledger} {d d' : Draft}

/-- Whatever is in use has a node, or was in use before. -/
def Earned (before : Ledger) (d : Draft) : Prop :=
  ∀ a, d.ledger.IsUsed a →
    before.IsUsed a ∨ ∃ t i, t.address? = some a ∧ d.entries.find? t = some i

theorem Earned.addNode (h : d.Earned before) {t : Thing} {n : Node} {l : Ledger}
    (hl : ∀ a, l.IsUsed a → t.address? = some a ∨ d.ledger.IsUsed a) :
    ({ d with ledger := l }.addNode t n).2.Earned before := by
  have hfind : ∀ u, ({ d with ledger := l }.addNode t n).2.entries.find? u =
      if t = u then some d.graph.nodeCount else d.entries.find? u :=
    fun u => Entries.find?_insert d.entries t u d.graph.nodeCount
  intro a ha
  rcases hl a ha with hnew | hold
  · exact .inr ⟨t, d.graph.nodeCount, hnew, by rw [hfind, if_pos rfl]⟩
  · rcases h a hold with hbefore | ⟨u, i, hu, hi⟩
    · exact .inl hbefore
    · refine .inr ⟨u, if t = u then d.graph.nodeCount else i, hu, ?_⟩
      rw [hfind]
      split
      · rfl
      · exact hi

theorem Step.earned (h : Step sc S d d') (hd : d.ledger.Sound) (hearned : d.Earned before) :
    d'.Earned before := by
  have htrack : ∀ {t : Thing} {a : Address} {size : Nat}, t.address? = some a → ∀ b,
      (d.ledger.track a size).2.IsUsed b → t.address? = some b ∨ d.ledger.IsUsed b := by
    intro t a size ht b hb
    rcases (Ledger.isUsed_track_iff hd a size).mp hb with rfl | hb
    · exact .inl ht
    · exact .inr hb
  cases h with
  | @object a _ _ =>
    rw [addObject_eq]
    exact hearned.addNode (htrack rfl)
  | @store store _ _ => exact hearned.addNode (htrack rfl)
  | @native t n _ _ => exact hearned.addNode fun _ => .inr
  | edge | intern | name => exact hearned

theorem Grows.earned (h : Grows sc S d d') (hd : d.ledger.Sound) (hearned : d.Earned before) :
    d'.Earned before := by
  induction h with
  | refl => exact hearned
  | tail hbefore hlast ih => exact hlast.earned (Grows.extends hbefore hd).sound ih

end Draft

/-- A capture that goes through the heap asks for all that has an address there. -/
theorem Capture.isUsed_drawn {c : Capture} {v : View} (hc : c.handlers = .builtin)
    (hledger : c.ledger.Sound) (hv : v.Faithful) (a : Address) :
    (c.drawn v).draft.ledger.IsUsed a ↔
      (v.Holds (.object a) ∨ v.Holds (.backingStore a)) ∨ c.ledger.IsUsed a := by
  have hgrows := grows_all (v := v) fun o _ => c.handlers.owns_any v o
  have hnode : ∀ t, v.Holds t ↔ ∃ i, (c.drawn v).draft.entries.find? t = some i := by
    intro t
    rw [← View.mem_roll_strokes hv]
    exact (depicts_drawn hc hv).mem_roll_iff
  constructor
  · intro hused
    have hearned : (c.drawn v).draft.Earned c.ledger :=
      hgrows.earned hledger fun b hb => .inl hb
    rcases hearned a hused with hbefore | ⟨t, i, ht, hi⟩
    · exact .inr hbefore
    · have hholds := (hnode t).mpr ⟨i, hi⟩
      cases t with
      | object b => cases ht; exact .inl (.inl hholds)
      | backingStore b => cases ht; exact .inl (.inr hholds)
      | native | nativeGroup => cases ht
  · rintro ((hobject | hstore) | hbefore)
    · obtain ⟨i, hi⟩ := (hnode _).mp hobject
      exact asked_drawn hledger v (.object a) a i rfl hi
    · obtain ⟨i, hi⟩ := (hnode _).mp hstore
      exact asked_drawn hledger v (.backingStore a) a i rfl hi
    · exact (extends_drawn hledger v).isUsed a hbefore

/-- After a completed snapshot numbers are left for what the heap holds and what was in use. -/
theorem Observer.isSome_idOf?_snapshot {ob : Observer} {h : Heap} {control : Option Control}
    {g : Graph} (hhandlers : ob.handlers = .builtin) (hledger : ob.ledger.Sound)
    (hresult : (ob.snapshot h control).result = .ok (some g)) (a : Address) :
    ((ob.snapshot h control).observer.idOf? a).isSome = true ↔
      (h.view.Holds (.object a) ∨ h.view.Holds (.backingStore a)) ∨ ob.ledger.IsUsed a := by
  have hledger' : (ob.capture control).ledger.Sound := hledger
  rw [(snapshot_completed hresult).2]
  refine (Ledger.isSome_find?_sweep (Capture.extends_drawn hledger' h.view).sound a).trans ?_
  exact Capture.isUsed_drawn (c := ob.capture control) hhandlers hledger h.faithful a

theorem Observer.handlers_snapshot (ob : Observer) (h : Heap) (control : Option Control) :
    (ob.snapshot h control).observer.handlers = ob.handlers := by
  unfold snapshot
  dsimp only
  generalize Capture.run _ h.view = ran
  obtain ⟨outcome, c⟩ := ran
  cases outcome with
  | error f => rfl
  | ok outcome => cases outcome <;> rfl

/-! ## Runs -/

namespace Session

/-- Whether a snapshot gives a graph. -/
def completes (w : Session) (control : Option Control) : Bool :=
  ((w.observer.snapshot w.heap control).result.toOption.bind id).isSome

/-- Whether a snapshot that did not complete may have left something in use, given whether that
was so before. -/
def leaves (w : Session) (unswept : Bool) : Deed → Bool
  | .change _ | .moved _ _ _ => unswept
  | .snapshot control => !w.completes control
  | .report _ _ _ => false

/-- Whether a snapshot has not completed since the last that did and since the last report. -/
def isUnswept (w : Session) (unswept : Bool) : List Deed → Bool
  | [] => unswept
  | d :: ds => (w.does d).isUnswept (w.leaves unswept d) ds

variable {w : Session} {unswept : Bool}

theorem handlers_does (w : Session) (d : Deed) :
    (w.does d).observer.handlers = w.observer.handlers := by
  cases d with
  | change | moved | report => rfl
  | snapshot control => exact w.observer.handlers_snapshot w.heap control

/-- Where nothing unswept is left, nothing is in use. -/
theorem not_isUsed_does (hw : w.observer.ledger.Sound)
    (hunused : unswept = false → ∀ a, ¬ w.observer.ledger.IsUsed a) (d : Deed)
    (hswept : w.leaves unswept d = false) : ∀ a, ¬ (w.does d).observer.ledger.IsUsed a := by
  cases d with
  | change f => exact hunused hswept
  | moved source target size =>
    intro a hused
    obtain ⟨b, hb⟩ := Ledger.IsUsed.of_move hw hused
    exact hunused hswept b hb
  | snapshot control =>
    have hcompletes : w.completes control = true := by simpa [leaves] using hswept
    obtain ⟨g, hresult⟩ := exists_graph hcompletes
    have hledger : (w.observer.capture control).ledger.Sound := hw
    show ∀ a, ¬ (w.observer.snapshot w.heap control).observer.ledger.IsUsed a
    rw [(Observer.snapshot_completed hresult).2]
    exact Ledger.not_isUsed_sweep (Capture.extends_drawn hledger w.heap.view).sound
  | report now k state =>
    exact Ledger.not_isUsed_sweep (Ledger.extends_trackAll hw w.heap.live).sound

theorem handlers_doesAll (w : Session) (ds : List Deed) :
    (w.doesAll ds).observer.handlers = w.observer.handlers := by
  induction ds generalizing w with
  | nil => rfl
  | cons d ds ih => rw [doesAll_cons, ih, handlers_does]

theorem not_isUsed_doesAll (hw : w.observer.ledger.Sound)
    (hunused : unswept = false → ∀ a, ¬ w.observer.ledger.IsUsed a) (ds : List Deed)
    (hswept : w.isUnswept unswept ds = false) :
    ∀ a, ¬ (w.doesAll ds).observer.ledger.IsUsed a := by
  induction ds generalizing w unswept with
  | nil => exact hunused hswept
  | cons d ds ih => exact ih (sound_does hw d) (not_isUsed_does hw hunused d) hswept

/-- After a completed snapshot numbers are left for what the heap holds and for what was in use
before, and the latter is nothing if all snapshots since the last sweep have completed. -/
theorem idOf?_after_snapshot {control : Option Control} {g : Graph}
    (hfresh : w.observer.ledger = {}) (hhandlers : w.observer.handlers = .builtin)
    (ds : List Deed)
    (hresult : ((w.doesAll ds).observer.snapshot (w.doesAll ds).heap control).result =
      .ok (some g)) (a : Address) :
    ((((w.doesAll ds).snapped control).observer.idOf? a).isSome = true ↔
      ((w.doesAll ds).heap.view.Holds (.object a) ∨
        (w.doesAll ds).heap.view.Holds (.backingStore a)) ∨
          (w.doesAll ds).observer.ledger.IsUsed a) ∧
    (w.isUnswept false ds = false →
      ((((w.doesAll ds).snapped control).observer.idOf? a).isSome = true ↔
        (w.doesAll ds).heap.view.Holds (.object a) ∨
          (w.doesAll ds).heap.view.Holds (.backingStore a))) := by
  have hw : w.observer.ledger.Sound := hfresh ▸ Ledger.sound_empty
  have hunused : ∀ a, ¬ w.observer.ledger.IsUsed a := by
    rw [hfresh]
    rintro a ⟨r, hr, -⟩
    cases hr
  have hnumbers := Observer.isSome_idOf?_snapshot ((w.handlers_doesAll ds).trans hhandlers)
    (sound_doesAll hw ds) hresult a
  refine ⟨hnumbers, fun hswept => hnumbers.trans (or_iff_left ?_)⟩
  exact not_isUsed_doesAll hw (fun _ => hunused) ds hswept a

/-- A fresh observer and a heap with two numbers. -/
def numbers : Session where
  observer := {}
  heap := (Heap.empty.insert { address := ⟨16⟩, size := 8, tag := .heapNumber }).insert
    { address := ⟨32⟩, size := 8, tag := .heapNumber }

/-- A snapshot is stopped at its first report, the next one completes, and a number dies. -/
def diesLate : List Deed :=
  [.snapshot (some fun _ => true), .snapshot none, .change (·.remove ⟨32⟩)]

/-- The snapshot after that leaves a number for the one that lives. -/
theorem idOf?_after_snapshot_diesLate :
    ∃ g, ((numbers.doesAll diesLate).observer.snapshot
        (numbers.doesAll diesLate).heap none).result = .ok (some g) ∧
      numbers.isUnswept false diesLate = false ∧
      ∀ a, (((numbers.doesAll diesLate).snapped none).observer.idOf? a).isSome = true ↔
        (numbers.doesAll diesLate).heap.view.Holds (.object a) ∨
          (numbers.doesAll diesLate).heap.view.Holds (.backingStore a) := by
  have hswept : numbers.isUnswept false diesLate = false := by decide +kernel
  obtain ⟨g, hresult⟩ := exists_graph (r := ((numbers.doesAll diesLate).observer.snapshot
    (numbers.doesAll diesLate).heap none).result) (by decide +kernel)
  exact ⟨g, hresult, hswept, fun a =>
    (idOf?_after_snapshot rfl rfl diesLate hresult a).2 hswept⟩

/-- A snapshot is stopped at its first report, and a number dies. -/
def diesEarly : List Deed := [.snapshot (some fun _ => true), .change (·.remove ⟨32⟩)]

/-- The number that has died is still tracked after the next snapshot, since the stopped one has
asked for it. -/
theorem idOf?_diesEarly :
    ∃ g, ((numbers.doesAll diesEarly).observer.snapshot (numbers.doesAll diesEarly).heap
        none).result = .ok (some g) ∧
      (((numbers.doesAll diesEarly).snapped none).observer.idOf? ⟨32⟩).isSome = true ∧
      ¬ ((numbers.doesAll diesEarly).heap.view.Holds (.object ⟨32⟩) ∨
        (numbers.doesAll diesEarly).heap.view.Holds (.backingStore ⟨32⟩)) := by
  obtain ⟨g, hresult⟩ := exists_graph (r := ((numbers.doesAll diesEarly).observer.snapshot
    (numbers.doesAll diesEarly).heap none).result) (by decide +kernel)
  refine ⟨g, hresult, by decide +kernel, ?_⟩
  rintro (hobject | ⟨o, ho, store, hstore, -⟩)
  · have hdead : (numbers.doesAll diesEarly).heap.view.isLive ⟨32⟩ = false := by decide +kernel
    rw [View.Holds, hdead] at hobject
    cases hobject
  · have hnone : ∀ o ∈ (numbers.doesAll diesEarly).heap.view.live, o.ownedStore? = none := by
      decide +kernel
    rw [hnone o ho] at hstore
    cases hstore

end Session

end ManagedHeap
