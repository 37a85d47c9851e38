import ManagedHeap.Proofs.Census
import ManagedHeap.Proofs.Lookup
import ManagedHeap.Proofs.Transparency

/-!
# Numbers, nodes and addresses

After a completed snapshot the observer has a number for every live object. Looked up in the graph
the number leads to the object's own node, and asked of the observer it leads back to the object's
address. Both hold because no two addresses share a number, and because the sweep that ends a
snapshot keeps the numbers of all that was drawn.
-/
namespace ManagedHeap

/-! ## A graph that was never searched -/

theorem Draft.Step.idOrder {sc : Scope} {S : BackingStore → Prop} {d d' : Draft}
    (h : Step sc S d d') (hd : d.graph.idOrder = none) : d'.graph.idOrder = none := by
  cases h with
  | object => rw [addObject_eq]; exact hd
  | store | native | edge | intern => exact hd
  | name index text => exact (d.graph.idOrder_nameIfEmpty index text).trans hd

/-- Drawing looks nothing up. -/
theorem Capture.idOrder_drawn (c : Capture) (v : View) : (c.drawn v).draft.graph.idOrder = none :=
  (grows_all fun o _ => c.handlers.owns_any v o).invariant
    (I := fun d => d.graph.idOrder = none) (fun _ _ hstep hd => hstep.idOrder hd) rfl

/-! ## The node of an object -/

theorem Graph.id_lt_of_withRoots {i : NodeIndex} {id : ObjectId}
    (h : withRoots.ids[i]? = some id) : id.raw < ObjectId.firstAvailable.raw := by
  rw [ids, Array.getElem?_map, Option.map_eq_some_iff] at h
  obtain ⟨n, hn, rfl⟩ := h
  rw [← Array.getElem?_toList, toList_nodes_withRoots] at hn
  exact (synthetic_id_lt n (List.mem_of_getElem? hn)).2

/-- A node with a number that a ledger hands out stands for a thing. -/
theorem Draft.Numbered.exists_thing {d : Draft} (hd : d.Numbered) {i : NodeIndex} {n : Node}
    (hn : d.graph.nodes[i]? = some n) (hid : Ledger.IsIssuable n.id.raw) :
    ∃ t, d.entries.find? t = some i ∧ d.ledger.idOf? t = some n.id := by
  have hnumber : d.graph.ids[i]? = some n.id := by
    rw [Graph.ids, Array.getElem?_map, hn]
    rfl
  by_cases hi : i < Graph.withRoots.nodeCount
  · rw [hd.synthetic i hi] at hnumber
    exact absurd hid.2 (Nat.not_le.mpr (Graph.id_lt_of_withRoots hnumber))
  · have hlt : i < d.graph.nodeCount := (Array.getElem?_eq_some_iff.mp hn).1
    obtain ⟨t, ht⟩ := hd.covered i (Nat.le_of_not_lt hi) hlt
    obtain ⟨id, hid', hidOf⟩ := hd.id t i ht
    rw [hnumber, Option.some.injEq] at hid'
    exact ⟨t, ht, hid' ▸ hidOf⟩

namespace Capture

variable {c : Capture} {h : Heap} {a : Address}

/-- A live object has a node, which shows the object and bears its number. -/
theorem exists_isOf (hhandlers : c.handlers = .builtin)
    (hledger : c.ledger.Reachable) (ha : h.view.isLive a = true) :
    ∃ i n, c.nodeOf? h.view a = some i ∧ (c.drawn h.view).draft.graph.nodes[i]? = some n ∧
      n.IsOf (c.scope h.view) (c.drawn h.view).draft.ledger (.object a) := by
  have hdepicts := depicts_drawn hhandlers h.faithful
  have hholds : h.view.Holds (.object a) := ha
  obtain ⟨i, hi⟩ := hdepicts.mem_roll_iff.mp ((View.mem_roll_strokes h.faithful).mpr hholds)
  obtain ⟨n, hn, hid, hlook⟩ := hdepicts.face_of_find? (numbered_drawn hledger.sound h.view) hi
  have hreachable := reachable_drawn hledger h.view
  exact ⟨i, n, hi, hn, isOf_of_look hreachable.issued hreachable.sound hholds hid hlook⟩

/-- No other node bears an object's number, if no object lies where an array buffer's memory
does. -/
theorem index_eq_of_id (hhandlers : c.handlers = .builtin)
    (hledger : c.ledger.Reachable)
    (hapart : ∀ a, h.view.Holds (.backingStore a) → h.view.isLive a = false) {i j : NodeIndex}
    {n m : Node} (hi : c.nodeOf? h.view a = some i)
    (hn : n.IsOf (c.scope h.view) (c.drawn h.view).draft.ledger (.object a))
    (hm : (c.drawn h.view).draft.graph.nodes[j]? = some m) (hid : m.id = n.id) : j = i := by
  obtain ⟨-, hfind, hissuable⟩ := hn
  have hdepicts := depicts_drawn hhandlers h.faithful
  have hholds : ∀ t k, (c.drawn h.view).draft.entries.find? t = some k → h.view.Holds t :=
    fun t k ht => (View.mem_roll_strokes h.faithful).mp (hdepicts.mem_roll_iff.mpr ⟨k, ht⟩)
  have hreachable := reachable_drawn hledger h.view
  obtain ⟨t, ht, hidt⟩ := (numbered_drawn hledger.sound h.view).exists_thing hm (hid ▸ hissuable)
  rw [hid] at hidt
  have heven : n.id.isNative = false := by
    rw [ObjectId.isNative, hissuable.1]
    rfl
  obtain rfl := hreachable.issued.idOf?_inj hreachable.sound hapart (hholds t j ht)
    (hholds (.object a) i hi) hidt hfind heven
  exact Option.some.inj (ht.symm.trans hi)

/-- The same of the graph once its edges are grouped. -/
theorem exists_only_node (hhandlers : c.handlers = .builtin)
    (hledger : c.ledger.Reachable)
    (hapart : ∀ a, h.view.Holds (.backingStore a) → h.view.isLive a = false)
    (ha : h.view.isLive a = true) :
    ∃ i n, c.nodeOf? h.view a = some i ∧ (c.drawn h.view).graph.group.nodes[i]? = some n ∧
      n.IsOf (c.scope h.view) (c.drawn h.view).ledger (.object a) ∧
      ∀ j m, (c.drawn h.view).graph.group.nodes[j]? = some m → m.id = n.id → j = i := by
  have hsound : (c.drawn h.view).graph.Sound := (depicts_drawn hhandlers h.faithful).sound
  obtain ⟨i, n, hi, hn, hof⟩ := exists_isOf hhandlers hledger ha
  refine ⟨i, { n with childStart := Graph.countBefore i (c.drawn h.view).graph.edges.toList }, hi,
    ?_, hof, ?_⟩
  · rw [Graph.getElem?_nodes_group hsound, show (c.drawn h.view).graph.nodes[i]? = some n from hn]
    rfl
  · intro j m hm hid
    rw [Graph.getElem?_nodes_group hsound, Option.map_eq_some_iff] at hm
    obtain ⟨m', hm', rfl⟩ := hm
    exact index_eq_of_id hhandlers hledger hapart hi hof hm' hid

end Capture

/-! ## From numbers back to addresses -/

namespace Observer

variable {ob : Observer} {h : Heap} {control : Option Control} {a : Address} {id : ObjectId}

theorem of_addressOf? (hfind : ob.addressOf? h id = some a) :
    a ∈ h.live.map (·.address) ∧ ob.idOf? a = some id :=
  ⟨List.mem_of_find?_eq_some hfind, of_decide_eq_true
    (List.find?_some (p := fun a => decide (ob.ledger.find? a = some id)) hfind)⟩

/-- A number leads to the one live object that has it. -/
theorem addressOf?_eq_some_iff (hledger : ob.ledger.Reachable) :
    ob.addressOf? h id = some a ↔ (h.object? a).isSome = true ∧ ob.idOf? a = some id := by
  constructor
  · intro hfind
    obtain ⟨hmem, hid⟩ := of_addressOf? hfind
    obtain ⟨o, ho, rfl⟩ := List.mem_map.mp hmem
    obtain ⟨b, hb⟩ := Heap.exists_object?_of_mem_live ho
    exact ⟨by rw [h.keyed b o hb, hb]; rfl, hid⟩
  · rintro ⟨hlive, hid⟩
    obtain ⟨o, ho⟩ := Option.isSome_iff_exists.mp hlive
    have hmem : a ∈ h.live.map (·.address) :=
      List.mem_map.mpr ⟨o, Heap.mem_live ho, h.keyed a o ho⟩
    -- Some address is found, since `a` would do; it can be no other, since numbers are not shared.
    cases hfind : ob.addressOf? h id with
    | none => exact absurd (decide_eq_true hid) (List.find?_eq_none.mp hfind a hmem)
    | some b => rw [hledger.issued.find?_inj hledger.sound (of_addressOf? hfind).2 hid]

/-- After a completed snapshot every live object has a number; in the graph the number is that of
the object's node and of no other, so that a lookup finds this node; and the number leads back to
the object. What a number leads to is live and has that number. -/
theorem snapshot_corresponds {g : Graph} (hhandlers : ob.handlers = .builtin)
    (hledger : ob.ledger.Reachable)
    (hapart : ∀ a, h.view.Holds (.backingStore a) → h.view.isLive a = false)
    (hresult : (ob.snapshot h control).result = .ok (some g)) :
    (∀ a o, h.object? a = some o → ∃ id i n,
      (ob.snapshot h control).observer.idOf? a = some id ∧
      (g.lookup id).1 = some i ∧ (ob.capture control).nodeOf? h.view a = some i ∧
      g.nodes[i]? = some n ∧ n.id = id ∧ n.selfSize = o.size ∧
      (∀ j m, g.nodes[j]? = some m → m.id = id → j = i) ∧
      (ob.snapshot h control).observer.addressOf? (ob.snapshot h control).heap id = some a) ∧
    (∀ a id, (ob.snapshot h control).observer.addressOf? (ob.snapshot h control).heap id = some a →
      (h.object? a).isSome = true ∧ (ob.snapshot h control).observer.idOf? a = some id) := by
  obtain ⟨rfl, hobserver⟩ := snapshot_completed hresult
  obtain ⟨times, hheap⟩ := ob.heap_snapshot h control
  rw [hobserver, hheap]
  have hhandlers' : (ob.capture control).handlers = .builtin := hhandlers
  have hledger' : (ob.capture control).ledger.Reachable := hledger
  generalize ob.capture control = c at hhandlers' hledger'
  have hreachable := Capture.reachable_drawn hledger' h.view
  have hback : ∀ a id, Observer.addressOf? { ob with ledger := (c.drawn h.view).ledger.sweep }
      (h.quiesce times) id = some a ↔ (h.object? a).isSome = true ∧
        Observer.idOf? { ob with ledger := (c.drawn h.view).ledger.sweep } a = some id :=
    fun a id => addressOf?_eq_some_iff (h := h.quiesce times) hreachable.sweep
  refine ⟨fun a o ho => ?_, fun a id hfind => (hback a id).mp hfind⟩
  have hlive : h.view.isLive a = true := Option.isSome_iff_exists.mpr ⟨o, ho⟩
  obtain ⟨i, n, hi, hn, ⟨⟨o', ho', -, hsize⟩, hfind, -⟩, hunique⟩ :=
    Capture.exists_only_node hhandlers' hledger' hapart hlive
  obtain rfl : o' = o := Option.some.inj (ho'.symm.trans ho)
  have hused := Capture.asked_drawn hledger'.sound h.view (.object a) a i rfl hi
  have hkept : (c.drawn h.view).ledger.sweep.find? a = some n.id :=
    (hused.find?_sweep hreachable.sound).trans hfind
  have hindexed := Graph.indexed_of_idOrder_none (g := (c.drawn h.view).graph.group.setSamples
    (c.drawn h.view).ledger.samples) (c.idOrder_drawn h.view)
  exact ⟨n.id, i, n, hkept, hindexed.lookup_eq hn hunique, hi, hn, rfl, hsize, hunique,
    (hback a n.id).mpr ⟨hlive, hkept⟩⟩

/-- An observer that has seen two objects. -/
def returning : Observer where
  ledger := ((({} : Ledger).record ⟨64⟩ 8 false).2.record ⟨48⟩ 8 false).2

/-- Of the two objects one has died, and a buffer that wraps a native object has come. -/
theorem snapshot_corresponds_wrapper : ∃ g id i n,
    (returning.snapshot Capture.wrapperHeap none).result = .ok (some g) ∧
    (returning.snapshot Capture.wrapperHeap none).observer.idOf? ⟨16⟩ = some id ∧
    (g.lookup id).1 = some i ∧ g.nodes[i]? = some n ∧ n.selfSize = 32 ∧
    (∀ j m, g.nodes[j]? = some m → m.id = id → j = i) ∧
    (returning.snapshot Capture.wrapperHeap none).observer.addressOf?
      (returning.snapshot Capture.wrapperHeap none).heap id = some ⟨16⟩ := by
  obtain ⟨g, hresult⟩ := Session.exists_graph
    (r := (returning.snapshot Capture.wrapperHeap none).result) (by decide +kernel)
  have hstores : ∀ o ∈ Capture.wrapperHeap.view.live, ∀ store ∈ o.ownedStore?,
      Capture.wrapperHeap.view.isLive store.address = false := by
    decide +kernel
  obtain ⟨hnode, -⟩ := snapshot_corresponds rfl (.record (.record .empty _ _ _) _ _ _)
    (by rintro a ⟨o, ho, store, hstore, rfl⟩; exact hstores o ho store hstore) hresult
  have hbuffer : (Capture.wrapperHeap.object? ⟨16⟩).map (·.size) = some 32 := by decide +kernel
  obtain ⟨o, ho, hsize⟩ := Option.map_eq_some_iff.mp hbuffer
  obtain ⟨id, i, n, hid, hlookup, -, hn, -, hself, hunique, haddress⟩ := hnode ⟨16⟩ o ho
  exact ⟨g, id, i, n, hresult, hid, hlookup, hn, hself.trans hsize, hunique, haddress⟩

end Observer

end ManagedHeap
