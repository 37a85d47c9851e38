import ManagedHeap.Proofs.Completion
import ManagedHeap.Proofs.Ledger

/-!
# Numbers in a capture

Whatever a capture draws, the ledger only gains: numbers stay, and what was asked for stays so.
Whatever has a node was asked for, `Asked`; so a sweep after a completed capture keeps the numbers
of all live objects.
-/
namespace ManagedHeap

/-- The address under which the ledger knows a thing. -/
def Thing.address? : Thing → Option Address
  | .object a | .backingStore a => some a
  | .native _ | .nativeGroup _ => none

namespace Draft

variable {sc : Scope} {S : BackingStore → Prop} {d d' : Draft}

theorem Step.extends (h : Step sc S d d') (hd : d.ledger.Sound) :
    Ledger.Extends d.ledger d'.ledger := by
  cases h with
  | @object a _ _ =>
    rw [addObject_eq]
    exact Ledger.extends_track hd a (sc.sizeOf a)
  | @store store _ _ => exact Ledger.extends_track hd _ _
  | native | edge | intern | name => exact .refl hd

theorem Grows.extends (h : Grows sc S d d') (hd : d.ledger.Sound) :
    Ledger.Extends d.ledger d'.ledger := by
  induction h with
  | refl => exact .refl hd
  | tail _ hlast ih => exact ih.trans (hlast.extends ih.sound)

/-- Whatever has a node has been asked for. -/
def Asked (d : Draft) : Prop :=
  ∀ t a i, t.address? = some a → d.entries.find? t = some i → d.ledger.IsUsed a

theorem asked_blank (l : Ledger) : Asked { ledger := l } := by
  intro t a i _ hfind
  rw [Entries.find?_empty] at hfind
  cases hfind

theorem Step.asked (h : Step sc S d d') (hd : d.ledger.Sound) (hasked : d.Asked) : d'.Asked := by
  have hextends := h.extends hd
  have hnew : ∀ {t : Thing} {a : Address} {size : Nat} {n : Node}, t.address? = some a →
      Asked ({ d with ledger := (d.ledger.track a size).2 }.addNode t n).2 := by
    intro t a size n hta u b i hub hfind
    simp only [addNode, Entries.find?_insert] at hfind
    split at hfind
    · next htu =>
      subst htu
      rw [hta] at hub
      cases hub
      exact Ledger.isUsed_track hd a size
    · exact (hasked u b i hub hfind).track hd a size
  cases h with
  | @object a _ _ =>
    rw [addObject_eq]
    exact hnew rfl
  | @store store _ _ => exact hnew rfl
  | @native t n ht _ =>
    intro u b i hub hfind
    simp only [addNode, Entries.find?_insert] at hfind
    split at hfind
    · next htu =>
      subst htu
      cases t <;> simp [Thing.nativeId?, Thing.address?] at ht hub
    · exact hasked u b i hub hfind
  | edge | intern | name => exact hasked

theorem Grows.asked (h : Grows sc S d d') (hd : d.ledger.Sound) (hasked : d.Asked) :
    d'.Asked := by
  induction h with
  | refl => exact hasked
  | tail hbefore hlast ih => exact hlast.asked (Grows.extends hbefore hd).sound ih

end Draft

/-! ## Captures -/

theorem Survey.exists_node_of_visit {sc : Scope} {o : HeapObject}
    (hlive : sc.view.isLive o.address = true) (handlers : Handlers) (pass : Pass) (s : Survey) :
    ∃ i, (s.visit sc handlers pass o).draft.entries.find? (.object o.address) = some i := by
  obtain ⟨i, d', -, hfind, -, heq⟩ := visit_live (S := Any) hlive handlers pass s
  refine ⟨i, ?_⟩
  rw [heq]
  split
  · have hread : Draft.Grows sc Any d' (read sc handlers o i { s with draft := d' }).draft :=
      grows_read i (handlers.owns_any sc.view o) { s with draft := d' }
    exact hread.find? hfind
  · exact hfind

namespace Capture

open Draft (Grows)

/-- The first pass gives every live object a node. -/
theorem exists_node_onceRead (c : Capture) {v : View} {o : HeapObject} (ho : o ∈ v.live)
    (hlive : v.isLive o.address = true) :
    ∃ n, (c.onceRead v).draft.entries.find? (.object o.address) = some n := by
  obtain ⟨os, os', hsplit⟩ := List.append_of_mem ho
  have hlive' : (c.scope v).view.isLive o.address = true := hlive
  obtain ⟨n, hn⟩ := Survey.exists_node_of_visit hlive' c.handlers .first
    ((c.rooted v).visitAll (c.scope v) c.handlers .first os)
  have hlater : ∀ x ∈ os', c.handlers.Owns v x Any := fun x _ => c.handlers.owns_any v x
  have hrest : Grows (c.scope v) Any
      (((c.rooted v).visitAll (c.scope v) c.handlers .first os).visit (c.scope v) c.handlers .first
        o).draft (c.onceRead v).draft := by
    rw [onceRead, hsplit, Survey.visitAll_append, Survey.visitAll_cons]
    exact Survey.grows_visitAll hlater .first _
  exact ⟨n, hrest.find? hn⟩

/-- A capture that goes through the heap gives every live object a node. -/
theorem exists_node (c : Capture) {v : View} {o : HeapObject} (ho : o ∈ v.live)
    (hlive : v.isLive o.address = true) : ∃ n, c.nodeOf? v o.address = some n := by
  obtain ⟨n, hn⟩ := c.exists_node_onceRead ho hlive
  have hend : Grows (c.scope v) Any (c.onceRead v).draft (c.drawn v).draft :=
    (grows_twiceRead fun x _ => c.handlers.owns_any v x).trans grows_drawn
  exact ⟨n, hend.find? hn⟩

theorem extends_drawn {c : Capture} (hsound : c.ledger.Sound) (v : View) :
    Ledger.Extends c.ledger (c.drawn v).draft.ledger :=
  (grows_all fun o _ => c.handlers.owns_any v o).extends hsound

theorem asked_drawn {c : Capture} (hsound : c.ledger.Sound) (v : View) :
    (c.drawn v).draft.Asked :=
  (grows_all fun o _ => c.handlers.owns_any v o).asked hsound (Draft.asked_blank _)

/-- Whatever a capture comes to, its ledger is that of a draft that grew from nothing. -/
theorem exists_grows_run (c : Capture) (v : View) :
    ∃ d, Grows (c.scope v) Any { ledger := c.ledger } d ∧ (c.run v).2.ledger = d.ledger := by
  have hstart : Grows (c.scope v) Any { ledger := c.ledger } (c.start v).survey.draft :=
    grows_rooted
  have hfirst := hstart.trans (Walk.grows_visitAll c.handlers .first v.live (c.start v))
  have hsecond := hfirst.trans
    (Walk.grows_visitAll c.handlers .second v.live (c.pass v .first (c.start v)))
  have hlast := hsecond.trans (Walk.grows_addCompanions [] v.companions
    (c.pass v .second (c.pass v .first (c.start v))))
  unfold run
  split
  · unfold walk
    dsimp only
    split
    · exact ⟨_, hfirst, rfl⟩
    · split
      · exact ⟨_, hlast, rfl⟩
      · split
        · exact ⟨_, hlast, rfl⟩
        · exact ⟨_, hlast, rfl⟩
  · exact ⟨_, .refl _, rfl⟩

end Capture

namespace Observer

open Draft (Grows)

/-- The capture that a snapshot runs. -/
def capture (ob : Observer) (control : Option Control) : Capture where
  ledger := ob.ledger
  handlers := ob.handlers
  settings := ob.settings
  control := control
  resolver := ob.resolver

theorem ledger_snapshot (ob : Observer) (h : Heap) (control : Option Control) :
    (ob.snapshot h control).observer.ledger =
      match ((ob.capture control).run h.view).1 with
      | .ok .completed => ((ob.capture control).run h.view).2.ledger.sweep
      | _ => ((ob.capture control).run h.view).2.ledger := by
  unfold snapshot capture
  dsimp only
  generalize Capture.run _ h.view = ran
  obtain ⟨outcome, c⟩ := ran
  cases outcome with
  | error f => rfl
  | ok outcome => cases outcome <;> rfl

theorem heap_snapshot (ob : Observer) (h : Heap) (control : Option Control) :
    ∃ times, (ob.snapshot h control).heap = h.quiesce times := by
  unfold snapshot
  dsimp only
  generalize Capture.run _ h.view = ran
  obtain ⟨outcome, c⟩ := ran
  cases outcome with
  | error f => exact ⟨c.quiesced, rfl⟩
  | ok outcome => cases outcome <;> exact ⟨c.quiesced, rfl⟩

/-- A snapshot, however it ends, keeps the numbers of live objects. -/
theorem find?_snapshot {ob : Observer} (hsound : ob.ledger.Sound) (h : Heap)
    (control : Option Control) :
    (ob.snapshot h control).observer.ledger.Sound ∧
      ∀ o ∈ h.live, h.view.isLive o.address = true → ∀ id, ob.ledger.find? o.address = some id →
        (ob.snapshot h control).observer.ledger.find? o.address = some id := by
  rw [ledger_snapshot]
  have hsound' : (ob.capture control).ledger.Sound := hsound
  generalize hc : ob.capture control = c at hsound'
  have hledger : c.ledger = ob.ledger := by rw [← hc]; rfl
  obtain ⟨d, hgrows, hrun⟩ := c.exists_grows_run h.view
  have hextends : Ledger.Extends ob.ledger (c.run h.view).2.ledger := by
    rw [hrun, ← hledger]
    exact hgrows.extends hsound'
  split
  · next hout =>
    refine ⟨Ledger.sound_sweep hextends.sound, fun o ho hlive id hid => ?_⟩
    have hcompleted := Capture.run_eq hout
    obtain ⟨n, hn⟩ := c.exists_node ho hlive
    have hused : (c.run h.view).2.ledger.IsUsed o.address := by
      rw [(Capture.run_completed hcompleted).2.1]
      exact Capture.asked_drawn hsound' h.view (.object o.address) o.address n rfl hn
    rw [hused.find?_sweep hextends.sound]
    exact hextends.find? _ _ hid
  · exact ⟨hextends.sound, fun o _ _ id hid => hextends.find? _ _ hid⟩

/-- A report keeps the numbers of live objects, whatever its sink answers. -/
theorem find?_report {σ : Type} {ob : Observer} (hsound : ob.ledger.Sound) (h : Heap) (now : Int)
    (k : Sink σ) (s : σ) :
    (ob.report h now k s).2.1.ledger.Sound ∧
      ∀ o ∈ h.live, ∀ id, ob.ledger.find? o.address = some id →
        (ob.report h now k s).2.1.ledger.find? o.address = some id := by
  obtain ⟨spans, heq⟩ := ob.ledger.report_eq h.live now k s
  have hledger : (ob.report h now k s).2.1.ledger =
      { ob.ledger.refresh h.live with spans := spans } := heq
  rw [hledger]
  exact ⟨Ledger.sound_spans (Ledger.sound_refresh hsound h.live) spans,
    fun o ho id hid => Ledger.find?_refresh hsound ho hid⟩

end Observer

end ManagedHeap
