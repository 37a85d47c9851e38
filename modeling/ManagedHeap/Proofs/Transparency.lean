import ManagedHeap.Proofs.Lockstep
import ManagedHeap.Proofs.Numbering
import ManagedHeap.Proofs.Relocation
import ManagedHeap.Proofs.Stability

/-!
# Moves leave no trace in a graph

Between two completed snapshots objects move to addresses that occur nowhere, and the observer is
told of each move. Then both snapshots have the same nodes, with the same numbers, and the same
edges. The second one draws what the first one drew, since a move is a change of addresses; and it
finds the numbers of the first one in the ledger, since these have moved with their objects.
-/
namespace ManagedHeap

/-! ## Equal graphs -/

theorem Graph.Alike.nodes_eq {g g' : Graph} (h : g.Alike g') (hids : g'.ids = g.ids) :
    g'.nodes = g.nodes := by
  refine Array.ext_getElem? fun i => ?_
  have hnode := h.node i
  have hid : g'.nodes[i]?.map (·.id) = g.nodes[i]?.map (·.id) := by
    simpa [Graph.ids] using congrArg (·[i]?) hids
  cases hn : g.nodes[i]? with
  | none => simpa [hn] using hnode
  | some n =>
    rw [hn, Option.map_some] at hnode hid
    obtain ⟨n', hn', hsame⟩ := Option.map_eq_some_iff.mp hnode
    rw [hn', Option.map_some, Option.some.injEq] at hid
    rw [hn']
    cases n
    cases n'
    simp_all [Node.unnumbered]

theorem Graph.nodes_group {g g' : Graph} (h : g'.nodes = g.nodes) :
    g'.group.nodes = g.group.nodes := by
  simp only [Graph.group, h]

namespace Draft.Alike

variable {f k : Address → Address} {d d' d'' : Draft}

theorem trans (h : d.Alike f d') (h' : d'.Alike k d'') : d.Alike (k ∘ f) d'' where
  graph := ⟨h'.graph.nodes.trans h.graph.nodes, h'.graph.edges.trans h.graph.edges⟩
  entries t := by
    have hrename : t.rename (k ∘ f) = (t.rename f).rename k := by cases t <;> rfl
    rw [hrename, h'.entries, h.entries]

/-- If corresponding things have the same numbers, so have the nodes. -/
theorem ids_eq (h : d.Alike f d') (hd : d.Numbered) (hd' : d'.Numbered)
    (hids : ∀ t i, d.entries.find? t = some i →
      d'.ledger.idOf? (t.rename f) = d.ledger.idOf? t) :
    d'.graph.ids = d.graph.ids := by
  refine Array.ext_getElem? fun i => ?_
  by_cases hsynthetic : i < Graph.withRoots.nodeCount
  · rw [hd'.synthetic i hsynthetic, hd.synthetic i hsynthetic]
  · by_cases hi : i < d.graph.nodeCount
    · obtain ⟨t, ht⟩ := hd.covered i (Nat.le_of_not_lt hsynthetic) hi
      obtain ⟨id, hnode, hid⟩ := hd.id t i ht
      obtain ⟨id', hnode', hid'⟩ := hd'.id (t.rename f) i ((h.entries t).trans ht)
      rw [hids t i ht, hid, Option.some.injEq] at hid'
      rw [hnode, hnode', hid']
    · have hi' : ¬ i < d'.graph.nodeCount := by rwa [h.graph.nodeCount]
      rw [Array.getElem?_eq_none, Array.getElem?_eq_none]
      · rw [Graph.size_ids]; exact Nat.le_of_not_lt hi
      · rw [Graph.size_ids]; exact Nat.le_of_not_lt hi'

end Draft.Alike

/-! ## Completed snapshots -/

namespace Observer

/-- What a completed snapshot gives and leaves behind. -/
theorem snapshot_completed {ob : Observer} {h : Heap} {control : Option Control} {g : Graph}
    (hresult : (ob.snapshot h control).result = .ok (some g)) :
    g = ((ob.capture control).drawn h.view).graph.group.setSamples
        ((ob.capture control).drawn h.view).ledger.samples ∧
      (ob.snapshot h control).observer =
        { ob with ledger := ((ob.capture control).drawn h.view).ledger.sweep } := by
  rcases hran : (ob.capture control).run h.view with ⟨outcome, c⟩
  have hran' := hran
  unfold capture at hran'
  unfold snapshot at hresult ⊢
  dsimp only at hresult ⊢
  rw [hran'] at hresult ⊢
  cases outcome with
  | error f => cases hresult
  | ok outcome =>
    cases outcome with
    | stopped stage => cases hresult
    | completed =>
      obtain ⟨hgraph, hledger, -⟩ := Capture.run_completed hran
      dsimp only at hresult ⊢
      unfold Capture.take at hresult
      split at hresult
      · cases hresult
        exact ⟨hgraph, by rw [hledger]⟩
      · cases hresult

end Observer

/-! ## Moves -/

/-- A move takes the number of the object along, and changes no other. -/
theorem Ledger.idOf?_move {l : Ledger} (hl : l.Sound) {source target : Address}
    (hne : source ≠ target) {t : Thing} (hobject : ∀ a, t = .object a → a ≠ target)
    (hstore : ∀ a, t = .backingStore a → a ≠ source ∧ a ≠ target) (size : Nat) :
    (l.move source target size).2.idOf? (t.rename (Equiv.swap source target)) = l.idOf? t := by
  have hfind := find?_move hl hne size
  cases t with
  | object a =>
    have htarget := hobject a rfl
    show (l.move source target size).2.find? (Equiv.swap source target a) = l.find? a
    rw [hfind]
    by_cases hsource : a = source
    · rw [hsource, Equiv.swap_apply_left, if_pos rfl]
    · rw [Equiv.swap_apply_of_ne_of_ne hsource htarget, if_neg (Ne.symm htarget),
        if_neg (Ne.symm hsource)]
  | backingStore a =>
    obtain ⟨hsource, htarget⟩ := hstore a rfl
    show (l.move source target size).2.find? a = l.find? a
    rw [hfind, if_neg (Ne.symm htarget), if_neg (Ne.symm hsource)]
  | native | nativeGroup => rfl

namespace Session

/-- An object moves to an address that occurs nowhere, and the observer is told. -/
def Moves (w w' : Session) : Prop :=
  ∃ source target, w.heap.Fresh target ∧ w.step? (.relocate source target) = some w'

/-- What was drawn before a number of moves, and a session after them in which each address is what
`f` makes of it. -/
structure Mirrors (d : Draft) (settings : Settings) (f : Address → Address) (w : Session) :
    Prop where
  sound : w.observer.ledger.Sound
  listed : w.heap.Listed
  apart : w.heap.Apart
  handlers : w.observer.handlers = .builtin
  resolver : w.observer.resolver = none
  settings : w.observer.settings = settings
  alike : d.Alike f ((w.observer.capture none).drawn w.heap.view).draft
  ids : ∀ t i, d.entries.find? t = some i →
    w.observer.ledger.idOf? (t.rename f) = d.ledger.idOf? t

variable {d : Draft} {settings : Settings} {f : Address → Address} {w w' : Session}

theorem Mirrors.move (h : Mirrors d settings f w) (hmove : w.Moves w') :
    ∃ k, Mirrors d settings k w' := by
  obtain ⟨source, target, hfresh, hstep⟩ := hmove
  have hsound := sound_step h.sound hstep
  obtain ⟨_, hdeeds, rfl⟩ := Option.map_eq_some_iff.mp hstep
  obtain ⟨⟨size, heap⟩, hr, rfl⟩ := Option.map_eq_some_iff.mp hdeeds
  obtain ⟨hne, -, o, ho, -, rfl⟩ := Heap.relocate_eq_some hr
  refine ⟨Equiv.swap source target ∘ f, hsound, Heap.listed_rehome h.listed ho,
    Heap.apart_rehome hfresh h.apart ho, h.handlers, h.resolver, h.settings, ?_, ?_⟩
  · refine h.alike.trans ?_
    exact Capture.alike_drawn (Heap.renames_rehome hfresh hne ho h.listed) h.handlers
      h.handlers h.resolver h.resolver rfl
  · intro t i ht
    have hentry := (h.alike.entries t).trans ht
    have howned := Capture.owned_drawn h.handlers w.heap.view (t.rename f) i hentry
    have hrename : t.rename (Equiv.swap source target ∘ f) =
        (t.rename f).rename (Equiv.swap source target) := by cases t <;> rfl
    rw [hrename, ← h.ids t i ht]
    refine Ledger.idOf?_move h.sound hne (fun a ha => ?_) (fun a ha => ?_) size
    · rw [ha] at howned
      rintro rfl
      have hlive : (w.heap.object? a).isSome = true := howned
      rw [hfresh.free] at hlive
      cases hlive
    · rw [ha] at howned
      obtain ⟨store, ⟨x, hx, hstore⟩, rfl⟩ := howned
      obtain ⟨b, hb⟩ := Heap.exists_object?_of_mem_live hx
      have hdead := h.apart b x store hb hstore
      refine ⟨?_, ?_⟩
      · rintro rfl
        rw [ho] at hdead
        cases hdead
      · rintro rfl
        exact hfresh.objects b x hb (HeapObject.mem_addresses.mpr (by simp [hstore]))

theorem Mirrors.moves (h : Mirrors d settings f w) (hmoves : Relation.ReflTransGen Moves w w') :
    ∃ k, Mirrors d settings k w' := by
  induction hmoves with
  | refl => exact ⟨f, h⟩
  | tail _ hlast ih =>
    obtain ⟨k, hk⟩ := ih
    exact hk.move hlast

theorem mirrors_snapshot {control : Option Control} {g : Graph}
    (hw : w.observer.ledger.Sound) (hlisted : w.heap.Listed) (hapart : w.heap.Apart)
    (hhandlers : w.observer.handlers = .builtin) (hresolver : w.observer.resolver = none)
    (hresult : (w.observer.snapshot w.heap control).result = .ok (some g)) :
    Mirrors ((w.observer.capture control).drawn w.heap.view).draft w.observer.settings id
      (w.snapped control) := by
  obtain ⟨-, hobserver⟩ := Observer.snapshot_completed hresult
  obtain ⟨times, hheap⟩ := w.observer.heap_snapshot w.heap control
  have hledger : (w.observer.capture control).ledger.Sound := hw
  have hextends := Capture.extends_drawn hledger w.heap.view
  rw [snapped, hobserver, hheap]
  refine ⟨Ledger.sound_sweep hextends.sound, hlisted, hapart, hhandlers, hresolver, rfl, ?_,
    fun t i ht => ?_⟩
  · exact Capture.alike_drawn (.refl w.heap.view) hhandlers hhandlers hresolver hresolver rfl
  · have hrename : t.rename id = t := by cases t <;> rfl
    rw [hrename]
    unfold Ledger.idOf?
    split
    · next a ha =>
      exact (Capture.asked_drawn hledger w.heap.view t a i ha ht).find?_sweep hextends.sound
    · rfl

/-- Completed snapshots before and after moves to fresh addresses have the same nodes and edges. -/
theorem snapshot_after_moves {control control' : Option Control} {g g' : Graph}
    (hw : w.observer.ledger.Sound) (hlisted : w.heap.Listed) (hapart : w.heap.Apart)
    (hhandlers : w.observer.handlers = .builtin) (hresolver : w.observer.resolver = none)
    (hfirst : (w.observer.snapshot w.heap control).result = .ok (some g))
    (hmoves : Relation.ReflTransGen Moves (w.snapped control) w')
    (hsecond : (w'.observer.snapshot w'.heap control').result = .ok (some g')) :
    g'.nodes = g.nodes ∧ g'.edges = g.edges := by
  obtain ⟨hg, -⟩ := Observer.snapshot_completed hfirst
  obtain ⟨hg', -⟩ := Observer.snapshot_completed hsecond
  obtain ⟨k, hk⟩ :=
    (mirrors_snapshot hw hlisted hapart hhandlers hresolver hfirst).moves hmoves
  have hledger : (w.observer.capture control).ledger.Sound := hw
  have hledger' : (w'.observer.capture control').ledger.Sound := hk.sound
  have hnumbered := Capture.numbered_drawn hledger w.heap.view
  have halike : ((w.observer.capture control).drawn w.heap.view).draft.Alike k
      ((w'.observer.capture control').drawn w'.heap.view).draft := hk.alike
  have hids := halike.ids_eq hnumbered (Capture.numbered_drawn hledger' w'.heap.view) <| by
    intro t i ht
    obtain ⟨id, -, hid⟩ := hnumbered.id t i ht
    rw [hid]
    exact (Capture.extends_drawn hledger' w'.heap.view).idOf? ((hk.ids t i ht).trans hid)
  rw [hg, hg']
  exact ⟨Graph.nodes_group (halike.graph.nodes_eq hids), halike.graph.edges⟩

theorem fresh_snapped {a : Address} (hfresh : w.heap.Fresh a) (control : Option Control) :
    (w.snapped control).heap.Fresh a := by
  obtain ⟨times, hheap⟩ := w.observer.heap_snapshot w.heap control
  rw [snapped, hheap]
  exact hfresh.quiesce times

/-- A buffer that owns memory outside the heap, and refers to the object that follows. -/
def buffer : HeapObject where
  address := ⟨16⟩
  size := 32
  tag := .arrayBuffer
  slots := [.ref ⟨48⟩]
  detail := .arrayBuffer (some ⟨⟨4096⟩, 64⟩)

/-- A fresh observer and a heap with a buffer, which a root leads to and which is visited last. -/
def buffered : Session where
  observer := {}
  heap :=
    (((Heap.empty.insert buffer).insert { address := ⟨48⟩, size := 8, tag := .heapNumber }).addRoot
      ⟨.handleScope, ⟨16⟩, none⟩ false).setOrder [⟨48⟩, ⟨16⟩]

theorem object?_buffered (a : Address) :
    buffered.heap.object? a =
      if (⟨48⟩ : Address) = a then some { address := ⟨48⟩, size := 8, tag := .heapNumber }
      else if (⟨16⟩ : Address) = a then some buffer else none := by
  show ((Heap.empty.insert buffer).insert _).object? a = _
  rw [Heap.object?_insert, Heap.object?_insert]
  simp [Heap.empty, Heap.object?, buffer]

theorem fresh_buffered : buffered.heap.Fresh ⟨80⟩ where
  free := by rw [object?_buffered]; rfl
  objects b o ho := by
    rw [object?_buffered] at ho
    split at ho
    · cases ho; decide
    · split at ho
      · cases ho; decide
      · cases ho
  order := by rintro _ ⟨⟩; decide
  roots := by decide
  singletons := by decide
  companions := by decide
  traceNodes := by decide

theorem listed_buffered : buffered.heap.Listed := by
  refine ⟨_, rfl, fun a ha => ?_⟩
  rw [object?_buffered] at ha
  split at ha
  · next h => simp [← h]
  · split at ha
    · next h => simp [← h]
    · cases ha

theorem apart_buffered : buffered.heap.Apart := by
  intro a o store ho hstore
  rw [object?_buffered] at ho
  split at ho
  · cases ho; cases hstore
  · split at ho
    · cases ho
      cases hstore
      rw [object?_buffered]
      rfl
    · cases ho

theorem exists_graph {r : Except Failure (Option Graph)} (h : (r.toOption.bind id).isSome = true) :
    ∃ g, r = .ok (some g) := by
  rcases r with _ | _ | g
  · cases h
  · cases h
  · exact ⟨g, rfl⟩

/-- The buffer moves between two snapshots. -/
theorem snapshot_after_moves_buffered :
    ∃ (w' : Session) (g g' : Graph), (buffered.snapped none).Moves w' ∧
      (w'.heap.object? ⟨80⟩).isSome = true ∧
      (buffered.observer.snapshot buffered.heap none).result = .ok (some g) ∧
      (w'.observer.snapshot w'.heap none).result = .ok (some g') ∧
      g'.nodes = g.nodes ∧ g'.edges = g.edges := by
  have hstep := (Option.some_get (x := (buffered.snapped none).step? (.relocate ⟨16⟩ ⟨80⟩))
    (by decide +kernel)).symm
  have hmove : (buffered.snapped none).Moves _ :=
    ⟨⟨16⟩, ⟨80⟩, fresh_snapped fresh_buffered none, hstep⟩
  obtain ⟨g, hfirst⟩ := exists_graph
    (r := (buffered.observer.snapshot buffered.heap none).result) (by decide +kernel)
  obtain ⟨g', hsecond⟩ := exists_graph (r := Observer.Shot.result (Observer.snapshot
    (((buffered.snapped none).step? (.relocate ⟨16⟩ ⟨80⟩)).get (by decide +kernel)).observer
    (((buffered.snapped none).step? (.relocate ⟨16⟩ ⟨80⟩)).get (by decide +kernel)).heap none))
    (by decide +kernel)
  have hsame := snapshot_after_moves Ledger.sound_empty listed_buffered apart_buffered rfl rfl
    hfirst (.single hmove) hsecond
  exact ⟨_, g, g', hmove, by decide +kernel, hfirst, hsecond, hsame⟩

end Session

end ManagedHeap
