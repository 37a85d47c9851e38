import ManagedHeap.Proofs.Departure
import ManagedHeap.Proofs.Issued

/-!
# Two ways to number a heap

A refresh asks for each live object and the memory that it owns; a capture asks for whatever it
draws, in the order in which it comes to it. How many numbers are handed out depends on neither
order nor repetition, only on the addresses that are asked for, `Ledger.Gains`. These are the same
both ways, so a ledger that is refreshed agrees with one that is swept after a capture.
-/
namespace ManagedHeap

/-- Whether an object, or the memory that it owns, is at an address. -/
def HeapObject.IsAt (o : HeapObject) (a : Address) : Prop :=
  o.address = a ∨ ∃ store, o.backingStore? = some store ∧ store.address = a

namespace Ledger

variable {l l' l'' : Ledger} {a b : Address}

theorem IsUsed.isSome_find? (h : l.IsUsed a) : (l.find? a).isSome = true := by
  obtain ⟨r, hr, -⟩ := h
  rw [find?_eq, hr]
  rfl

theorem IsUsed.find?_ne_none (h : l.IsUsed a) : l.find? a ≠ none :=
  Option.isSome_iff_ne_none.mp h.isSome_find?

theorem find?_eq_none (h : l.Sound) : l.find? a = none ↔ l.slots[a]? = none := by
  rw [find?_eq, Option.map_eq_none_iff, h.row?_eq_none]

/-! ## Asking for addresses -/

/-- What asking for addresses does: each of them that had no number gets one, and the number due
next goes up by as many steps. -/
structure Gains (l l' : Ledger) : Prop extends Extends l l' where
  fresh : ∀ a, l.find? a = none → (l'.find? a).isSome = true → l'.IsUsed a
  issued : ∃ new : List Address, new.Nodup ∧ (∀ a, a ∈ new ↔ l.find? a = none ∧ l'.IsUsed a) ∧
    l'.nextId = l.nextId + ObjectId.step * new.length

theorem Gains.refl (h : l.Sound) : Gains l l where
  toExtends := .refl h
  fresh a hnone hsome := by rw [hnone] at hsome; cases hsome
  issued := by
    refine ⟨[], List.nodup_nil, fun a => ⟨fun ha => (List.not_mem_nil ha).elim, ?_⟩, rfl⟩
    exact fun ⟨hnone, hused⟩ => absurd hnone hused.find?_ne_none

theorem Gains.trans (h : Gains l l') (h' : Gains l' l'') : Gains l l'' where
  toExtends := h.toExtends.trans h'.toExtends
  fresh a hnone hsome := by
    cases ha : l'.find? a with
    | none => exact h'.fresh a ha hsome
    | some id => exact h'.isUsed a (h.fresh a hnone (by rw [ha]; rfl))
  issued := by
    obtain ⟨new, hnodup, hnew, hnext⟩ := h.issued
    obtain ⟨new', hnodup', hnew', hnext'⟩ := h'.issued
    have hkept : ∀ a, l'.find? a = none → l.find? a = none := by
      intro a ha
      cases hid : l.find? a with
      | none => rfl
      | some id => rw [h.find? a id hid] at ha; cases ha
    have hapart : ∀ a ∈ new, a ∉ new' := by
      intro a ha ha'
      exact ((hnew a).mp ha).2.find?_ne_none ((hnew' a).mp ha').1
    refine ⟨new ++ new', List.nodup_append.mpr
      ⟨hnodup, hnodup', fun a ha b hb hab => hapart a ha (hab ▸ hb)⟩, fun a => ?_, ?_⟩
    · rw [List.mem_append, hnew, hnew']
      constructor
      · rintro (⟨hnone, hused⟩ | ⟨hnone, hused⟩)
        · exact ⟨hnone, h'.isUsed a hused⟩
        · exact ⟨hkept a hnone, hused⟩
      · rintro ⟨hnone, hused⟩
        cases ha : l'.find? a with
        | none => exact .inr ⟨rfl, hused⟩
        | some id => exact .inl ⟨hnone, h.fresh a hnone (by rw [ha]; rfl)⟩
    · rw [hnext', hnext, List.length_append, Nat.mul_add, Nat.add_assoc]

theorem gains_track (h : l.Sound) (a : Address) (size : Nat) : Gains l (l.track a size).2 where
  toExtends := extends_track h a size
  fresh b hnone hsome := by
    rw [track, find?_record h] at hsome
    split at hsome
    · next hab => exact hab ▸ isUsed_track h a size
    · rw [hnone] at hsome
      cases hsome
  issued := by
    -- only the address itself can be new
    have hold : ∀ b, l.find? b = none ∧ (l.track a size).2.IsUsed b → b = a := by
      rintro b ⟨hnone, hused⟩
      rcases (isUsed_track_iff h a size).mp hused with hab | hbefore
      · exact hab.symm
      · exact absurd hnone hbefore.find?_ne_none
    cases ha : l.find? a with
    | none =>
      refine ⟨[a], List.nodup_singleton a, fun b => ⟨fun hb => ?_, fun hb => ?_⟩, ?_⟩
      · rw [List.mem_singleton.mp hb]
        exact ⟨ha, isUsed_track h a size⟩
      · exact List.mem_singleton.mpr (hold b hb)
      · rw [track, nextId_record, if_pos ((find?_eq_none h).mp ha), List.length_singleton,
          Nat.mul_one]
    | some id =>
      refine ⟨[], List.nodup_nil, fun b => ⟨fun hb => (List.not_mem_nil hb).elim, fun hb => ?_⟩, ?_⟩
      · have hnone := hb.1
        rw [hold b hb, ha] at hnone
        cases hnone
      · rw [track, nextId_record, if_neg (mt (find?_eq_none h).mpr (by simp [ha]))]
        rfl

/-- What the number due next has become depends only on what is in use. -/
theorem Gains.nextId_eq (h : Gains l l') (h' : Gains l l'')
    (hused : ∀ a, l'.IsUsed a ↔ l''.IsUsed a) : l'.nextId = l''.nextId := by
  obtain ⟨new, hnodup, hnew, hnext⟩ := h.issued
  obtain ⟨new', hnodup', hnew', hnext'⟩ := h'.issued
  have hperm : new.Perm new' :=
    (List.perm_ext_iff_of_nodup hnodup hnodup').mpr fun a => by rw [hnew, hnew', hused]
  rw [hnext, hnext', hperm.length_eq]

/-- If all that is in use had a number, no number is handed out. -/
theorem Gains.nextId_of_isUsed (h : Gains l l')
    (hused : ∀ a, l'.IsUsed a → l.find? a ≠ none) : l'.nextId = l.nextId := by
  obtain ⟨new, -, hnew, hnext⟩ := h.issued
  have hnil : new = [] := by
    refine List.eq_nil_iff_forall_not_mem.mpr fun a ha => ?_
    obtain ⟨hnone, ha⟩ := (hnew a).mp ha
    exact hused a ha hnone
  rw [hnext, hnil]
  rfl

/-! ## Agreement -/

/-- Two ledgers that went on from the same one agree on which addresses have numbers, on the numbers
that it had already handed out, and on the number handed out last. -/
structure Agree (before l l' : Ledger) : Prop where
  tracked : ∀ a, (l.find? a).isSome = (l'.find? a).isSome
  kept : ∀ a id, before.find? a = some id →
    l.find? a = l'.find? a ∧ ∀ id', l.find? a = some id' → id' = id
  lastId : l.lastId = l'.lastId

theorem find?_sweep_of_not_isUsed (h : l.Sound) (ha : ¬ l.IsUsed a) : l.sweep.find? a = none := by
  rw [← Option.not_isSome_iff_eq_none, isSome_find?_sweep h]
  exact ha

theorem Gains.agree_sweep (h : Gains l l') (h' : Gains l l'')
    (hused : ∀ a, l'.IsUsed a ↔ l''.IsUsed a) : Agree l l'.sweep l''.sweep where
  tracked a := by
    rw [Bool.eq_iff_iff, isSome_find?_sweep h.sound, isSome_find?_sweep h'.sound]
    exact hused a
  kept a id hid := by
    by_cases ha : l'.IsUsed a
    · rw [ha.find?_sweep h.sound, ((hused a).mp ha).find?_sweep h'.sound, h.find? a id hid,
        h'.find? a id hid]
      exact ⟨rfl, fun id' hid' => (Option.some.inj hid').symm⟩
    · rw [find?_sweep_of_not_isUsed h.sound ha,
        find?_sweep_of_not_isUsed h'.sound (mt (hused a).mpr ha)]
      exact ⟨rfl, fun id' hid' => by cases hid'⟩
  lastId := by
    have hnext : l'.nextId = l''.nextId := h.nextId_eq h' hused
    exact congrArg (fun n => ObjectId.mk (n - ObjectId.step)) hnext

/-! ## Live objects one by one -/

theorem gains_trackObject (h : l.Sound) (o : HeapObject) : Gains l (l.trackObject o) := by
  have hobject := gains_track h o.address o.size
  unfold trackObject
  dsimp only
  split
  · exact hobject.trans (gains_track hobject.sound _ _)
  · exact hobject

theorem gains_trackAll (h : l.Sound) (os : List HeapObject) : Gains l (os.foldl trackObject l) := by
  induction os generalizing l with
  | nil => exact .refl h
  | cons o os ih =>
    have hobject := gains_trackObject h o
    exact hobject.trans (ih hobject.sound)

theorem isUsed_trackObject_iff (h : l.Sound) (o : HeapObject) :
    (l.trackObject o).IsUsed a ↔ o.IsAt a ∨ l.IsUsed a := by
  have hobject := gains_track h o.address o.size
  unfold trackObject HeapObject.IsAt
  dsimp only
  cases hstore : o.backingStore? with
  | none => simp [isUsed_track_iff h]
  | some store =>
    dsimp only
    rw [isUsed_track_iff hobject.sound, isUsed_track_iff h]
    simp only [Option.some.injEq, exists_eq_left']
    tauto

theorem isUsed_trackAll_iff (h : l.Sound) (os : List HeapObject) :
    (os.foldl trackObject l).IsUsed a ↔ (∃ o ∈ os, o.IsAt a) ∨ l.IsUsed a := by
  induction os generalizing l with
  | nil => simp
  | cons o os ih =>
    rw [List.foldl_cons, ih (gains_trackObject h o).sound, isUsed_trackObject_iff h,
      List.exists_mem_cons_iff, or_assoc]
    exact or_left_comm

end Ledger

/-! ## Captures -/

namespace Draft

variable {sc : Scope} {S : BackingStore → Prop} {d d' : Draft}

theorem Step.gains (h : Step sc S d d') (hd : d.ledger.Sound) :
    Ledger.Gains d.ledger d'.ledger := by
  cases h with
  | @object a _ _ =>
    rw [addObject_eq]
    exact Ledger.gains_track hd a (sc.sizeOf a)
  | @store store _ _ => exact Ledger.gains_track hd _ _
  | native | edge | intern | name => exact .refl hd

theorem Grows.gains (h : Grows sc S d d') (hd : d.ledger.Sound) :
    Ledger.Gains d.ledger d'.ledger := by
  induction h with
  | refl => exact .refl hd
  | tail _ hlast ih => exact ih.trans (hlast.gains ih.sound)

end Draft

/-- What the heap has at an address, inside or outside. -/
def View.HasAt (v : View) (a : Address) : Prop := v.Holds (.object a) ∨ v.Holds (.backingStore a)

namespace Heap

variable {h : Heap}

/-- Only array buffers own memory outside the heap. -/
def HasOwners (h : Heap) : Prop :=
  ∀ o ∈ h.live, ∀ memory, o.detail = .arrayBuffer memory → o.tag = .arrayBuffer

theorem HasOwners.ownedStore?_eq (howners : h.HasOwners) {o : HeapObject} (ho : o ∈ h.live) :
    o.ownedStore? = o.backingStore? := by
  unfold HeapObject.ownedStore?
  split
  · rfl
  · next htag =>
    unfold HeapObject.backingStore?
    split
    · next memory hdetail => exact absurd (howners o ho memory hdetail) htag
    · rfl

/-- What live objects and the memory they own are at, is where the heap has something. -/
theorem exists_isAt_iff (howners : h.HasOwners) (a : Address) :
    (∃ o ∈ h.live, o.IsAt a) ↔ h.view.HasAt a := by
  constructor
  · rintro ⟨o, ho, hobject | ⟨store, hstore, hat⟩⟩
    · exact .inl ((h.faithful a).mpr ⟨o, ho, hobject⟩)
    · exact .inr ⟨o, ho, store, (howners.ownedStore?_eq ho).trans hstore, hat⟩
  · rintro (hlive | ⟨o, ho, store, hstore, hat⟩)
    · obtain ⟨o, ho, hobject⟩ := (h.faithful a).mp hlive
      exact ⟨o, ho, .inl hobject⟩
    · exact ⟨o, ho, .inr ⟨store, (howners.ownedStore?_eq ho).symm.trans hstore, hat⟩⟩

end Heap

namespace Capture

variable {c : Capture} {h : Heap}

theorem ledger_run (v : View) (hcompleted : (c.run v).1 = .ok .completed) :
    (c.run v).2.ledger = (c.drawn v).draft.ledger :=
  (run_completed (run_eq hcompleted)).2.1

theorem gains_run (hledger : c.ledger.Sound) (v : View)
    (hcompleted : (c.run v).1 = .ok .completed) : Ledger.Gains c.ledger (c.run v).2.ledger := by
  rw [ledger_run v hcompleted]
  exact (grows_all fun o _ => c.handlers.owns_any v o).gains hledger

end Capture

namespace Ledger

/-- Neither a refresh nor a capture that completes hands out a number for a heap. -/
structure IsSettled (l : Ledger) (h : Heap) : Prop where
  refresh : (l.refresh h.live).nextId = l.nextId
  capture : ∀ c : Capture, c.ledger = l → c.handlers = .builtin →
    (c.run h.view).1 = .ok .completed → (c.run h.view).2.ledger.nextId = l.nextId

theorem isSettled {l : Ledger} {h : Heap} (hl : l.Sound)
    (howners : h.HasOwners) (hall : ∀ a, h.view.HasAt a → l.find? a ≠ none) :
    l.IsSettled h where
  refresh := by
    refine (gains_trackAll hl h.live).nextId_of_isUsed fun a ha => ?_
    rcases (isUsed_trackAll_iff hl h.live).mp ha with hat | hbefore
    · exact hall a ((h.exists_isAt_iff howners a).mp hat)
    · exact hbefore.find?_ne_none
  capture := by
    rintro c rfl hc hcompleted
    refine (c.gains_run hl h.view hcompleted).nextId_of_isUsed fun a ha => ?_
    rw [Capture.ledger_run h.view hcompleted, Capture.isUsed_drawn hc hl h.faithful] at ha
    rcases ha with hat | hbefore
    · exact hall a hat
    · exact hbefore.find?_ne_none

/-- So it is after a sweep, if all that the heap has was asked for. -/
theorem isSettled_sweep {l : Ledger} {h : Heap} (hl : l.Sound)
    (howners : h.HasOwners) (hall : ∀ a, h.view.HasAt a → l.IsUsed a) : l.sweep.IsSettled h := by
  refine isSettled (sound_sweep hl) howners fun a ha => ?_
  rw [(hall a ha).find?_sweep hl]
  exact (hall a ha).find?_ne_none

end Ledger

/-- A refresh and a sweep after a completed capture lead to ledgers that agree: each address where
the heap has something and that had no number gets one, and no other. After either of them all that
the heap has is numbered. -/
theorem Capture.refresh_agrees {c : Capture} {h : Heap} (hledger : c.ledger.Reachable)
    (hhandlers : c.handlers = .builtin) (howners : h.HasOwners)
    (hcompleted : (c.run h.view).1 = .ok .completed) :
    Ledger.Agree c.ledger (c.ledger.refresh h.live) (c.run h.view).2.ledger.sweep ∧
    (∃ new : List Address, new.Nodup ∧
      (∀ a, a ∈ new ↔ c.ledger.find? a = none ∧ h.view.HasAt a) ∧
      (c.ledger.refresh h.live).nextId = c.ledger.nextId + ObjectId.step * new.length ∧
      (c.run h.view).2.ledger.sweep.nextId = c.ledger.nextId + ObjectId.step * new.length) ∧
    (c.ledger.refresh h.live).IsSettled h ∧ (c.run h.view).2.ledger.sweep.IsSettled h := by
  have hl := hledger.sound
  have hrefreshed := Ledger.gains_trackAll hl h.live
  have hdrawn := c.gains_run hl h.view hcompleted
  have hused : ∀ a, (h.live.foldl Ledger.trackObject c.ledger).IsUsed a ↔
      h.view.HasAt a ∨ c.ledger.IsUsed a := fun a => by
    rw [Ledger.isUsed_trackAll_iff hl, h.exists_isAt_iff howners]
  have hused' : ∀ a, (c.run h.view).2.ledger.IsUsed a ↔ h.view.HasAt a ∨ c.ledger.IsUsed a := by
    rw [ledger_run h.view hcompleted]
    exact isUsed_drawn hhandlers hl h.faithful
  have hsame := fun a => (hused a).trans (hused' a).symm
  refine ⟨hrefreshed.agree_sweep hdrawn hsame, ?_, ?_, ?_⟩
  · obtain ⟨new, hnodup, hnew, hnext⟩ := hrefreshed.issued
    refine ⟨new, hnodup, fun a => ?_, hnext, (hrefreshed.nextId_eq hdrawn hsame).symm.trans hnext⟩
    rw [hnew, hused, and_congr_right_iff]
    -- what had no number was not in use
    exact fun hnone => or_iff_left fun hbefore => hbefore.find?_ne_none hnone
  · exact Ledger.isSettled_sweep hrefreshed.sound howners fun a ha => (hused a).mpr (.inl ha)
  · exact Ledger.isSettled_sweep hdrawn.sound howners fun a ha => (hused' a).mpr (.inl ha)

/-- A heap with an array buffer that owns memory and a number. -/
def Heap.buffered : Heap :=
  (Heap.empty.insert
    { address := ⟨32⟩, size := 40, tag := .arrayBuffer,
      detail := .arrayBuffer (some ⟨⟨4096⟩, 100⟩) }).insert
    { address := ⟨16⟩, size := 8, tag := .heapNumber }

/-- A capture whose ledger has a row in use for the number and an old row for what has died. -/
def Capture.ofBuffered : Capture where
  ledger := ((({} : Ledger).track ⟨48⟩ 8).2.sweep.track ⟨16⟩ 8).2

/-- The buffer and its memory get numbers both ways, and nothing does after that. -/
theorem Capture.refresh_agrees_buffered :
    (ofBuffered.run Heap.buffered.view).1 = .ok .completed ∧
    Ledger.Agree ofBuffered.ledger (ofBuffered.ledger.refresh Heap.buffered.live)
      (ofBuffered.run Heap.buffered.view).2.ledger.sweep ∧
    (ofBuffered.ledger.refresh Heap.buffered.live).nextId =
      ofBuffered.ledger.nextId + ObjectId.step * 2 ∧
    (ofBuffered.ledger.refresh Heap.buffered.live).IsSettled Heap.buffered := by
  have hledger : ofBuffered.ledger.Reachable := .record (.sweep (.record .empty _ _ _)) _ _ _
  have howners : Heap.buffered.HasOwners := by
    have htags : ∀ o ∈ Heap.buffered.live, o.tag = .arrayBuffer ∨ o.detail = .none := by decide
    intro o ho memory hdetail
    rcases htags o ho with htag | hnone
    · exact htag
    · rw [hnone] at hdetail
      cases hdetail
  have hcompleted : (ofBuffered.run Heap.buffered.view).1 = .ok .completed := by decide +kernel
  obtain ⟨hagree, -, hsettled, -⟩ := refresh_agrees hledger rfl howners hcompleted
  exact ⟨hcompleted, hagree, by decide +kernel, hsettled⟩

end ManagedHeap
