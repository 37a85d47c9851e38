import ManagedHeap.Proofs.Contents
import ManagedHeap.Proofs.Issued
import ManagedHeap.Proofs.Numbering
import Mathlib.Data.List.Forall2

/-!
# The nodes of a capture

A completed capture has the synthetic nodes and behind them one node for each thing that the heap
holds, and its edges lead from node to node, `Capture.exists_census`. A node bears the number of
its thing: the ledger's for what has an address, an odd one for what is native. So even numbers do
not repeat, unless an object lies where an array buffer's memory does.
-/
namespace ManagedHeap

/-- The node shows the thing and bears its number. -/
def Node.IsOf (sc : Scope) (l : Ledger) (n : Node) : Thing → Prop
  | .object a =>
    (∃ o, sc.view.object? a = some o ∧ n.kind = (o.describe sc).1 ∧ n.selfSize = o.size) ∧
      l.find? a = some n.id ∧ Ledger.IsIssuable n.id.raw
  | .backingStore a => n.kind = .native ∧ l.find? a = some n.id ∧ Ledger.IsIssuable n.id.raw
  | .native id => n.kind = .native ∧ n.id = id ∧ n.id.isNative = true
  | .nativeGroup label =>
    n.kind = .synthetic ∧ n.id = Companion.groupId label ∧ n.id.isNative = true

/-- The nodes are the synthetic ones and those of the things, and edges lead from node to node. -/
structure Graph.Census (sc : Scope) (l : Ledger) (ts : List Thing) (g : Graph) : Prop where
  synthetic : (g.nodes.toList.take 18).map Node.face = Graph.syntheticNodes.map Node.face
  rootIds : ∀ n ∈ g.nodes.toList.take 18,
    n.id.isNative = false ∧ n.id.raw < ObjectId.firstAvailable.raw
  things : List.Forall₂ (Node.IsOf sc l) (g.nodes.toList.drop 18) ts
  edges : ∀ e ∈ g.edges.toList, e.source < g.nodeCount ∧ e.target < g.nodeCount

/-! ## Numbers of synthetic and native nodes -/

theorem ObjectId.isNative_ofDigest (digest : UInt64) :
    (ObjectId.ofDigest digest).isNative = true := by
  simp [ObjectId.ofDigest, ObjectId.isNative]

theorem Companion.isNative_id (c : Companion) : c.id.isNative = true :=
  ObjectId.isNative_ofDigest _

namespace Graph

theorem toList_nodes_withRoots : withRoots.nodes.toList = syntheticNodes := rfl

theorem synthetic_id_lt :
    ∀ n ∈ syntheticNodes, n.id.isNative = false ∧ n.id.raw < ObjectId.firstAvailable.raw := by
  decide

theorem nodup_synthetic_id : (syntheticNodes.map (·.id)).Nodup := by decide

end Graph

/-! ## Numbers and looks of all nodes -/

/-- Number and look that strokes and a ledger have for a thing. -/
def Ledger.face (l : Ledger) (sc : Scope) (strokes : List Stroke) (t : Thing) : ObjectId × Look :=
  ((l.idOf? t).getD .unknown, (Stroke.lookOf? sc strokes t).getD default)

namespace Draft

variable {sc : Scope} {strokes : List Stroke} {d : Draft}

theorem Depicts.face_of_find? (h : Depicts sc strokes d) (hd : d.Numbered) {t : Thing} {i : Nat}
    (ht : d.entries.find? t = some i) :
    ∃ n, d.graph.nodes[i]? = some n ∧ d.ledger.idOf? t = some n.id ∧
      Stroke.lookOf? sc strokes t = some n.look := by
  obtain ⟨id, hid, hidOf⟩ := hd.id t i ht
  rw [Graph.ids, Array.getElem?_map, Option.map_eq_some_iff] at hid
  obtain ⟨n, hn, rfl⟩ := hid
  have hlook := h.look t i ht
  rw [hn] at hlook
  exact ⟨n, hn, hidOf, hlook.symm⟩

/-- Behind the synthetic nodes stand those of the roll. -/
theorem Depicts.map_face (h : Depicts sc strokes d) (hd : d.Numbered) :
    d.graph.nodes.toList.map Node.face =
      Graph.syntheticNodes.map Node.face ++
        (Stroke.roll strokes).map (d.ledger.face sc strokes) := by
  refine List.ext_getElem? fun i => ?_
  rw [List.getElem?_map, Array.getElem?_toList]
  have hlength : (Graph.syntheticNodes.map Node.face).length = Graph.withRoots.nodeCount := rfl
  by_cases hi : i < Graph.withRoots.nodeCount
  · rw [List.getElem?_append_left (hlength ▸ hi), List.getElem?_map,
      ← Graph.toList_nodes_withRoots, Array.getElem?_toList]
    have hid := hd.synthetic i hi
    have hlook := h.synthetic i hi
    rw [Graph.ids, Graph.ids, Array.getElem?_map, Array.getElem?_map] at hid
    cases hn : d.graph.nodes[i]? with
    | none =>
      rw [hn] at hid
      cases hm : Graph.withRoots.nodes[i]? with
      | none => rfl
      | some m => rw [hm] at hid; cases hid
    | some n =>
      rw [hn] at hid hlook
      cases hm : Graph.withRoots.nodes[i]? with
      | none => rw [hm] at hid; cases hid
      | some m =>
        rw [hm, Option.map_some, Option.map_some, Option.some.injEq] at hid hlook
        rw [Option.map_some, Option.map_some, Node.face, Node.face, hid, hlook]
  · obtain ⟨j, rfl⟩ := Nat.exists_eq_add_of_le (Nat.le_of_not_lt hi)
    rw [List.getElem?_append_right (by rw [hlength]; exact Nat.le_add_right ..), hlength,
      Nat.add_sub_cancel_left, List.getElem?_map]
    cases ht : (Stroke.roll strokes)[j]? with
    | none =>
      have hsize : d.graph.nodes.size ≤ Graph.withRoots.nodeCount + j := by
        have hcount : d.graph.nodes.size = _ := h.nodeCount
        have := List.getElem?_eq_none_iff.mp ht
        omega
      rw [Array.getElem?_eq_none hsize]
      rfl
    | some t =>
      obtain ⟨n, hn, hid, hlook⟩ := h.face_of_find? hd ((h.entries t _).mpr ⟨j, ht, rfl⟩)
      rw [hn, Option.map_some, Option.map_some, Ledger.face, hid, hlook]
      rfl

end Draft

/-! ## Looks of things -/

namespace Stroke

variable {sc : Scope} {strokes : List Stroke} {t : Thing} {l : Look}

/-- Kind and size are those of some stroke for the thing. -/
theorem exists_look? (h : lookOf? sc strokes t = some l) :
    ∃ x ∈ strokes, ∃ first, x.look? sc t = some first ∧
      l.kind = first.kind ∧ l.size = first.size := by
  obtain ⟨first, hfirst, rfl⟩ := Option.map_eq_some_iff.mp h
  obtain ⟨x, hx, hlook⟩ := List.exists_of_findSome?_eq_some hfirst
  refine ⟨x, hx, first, hlook, ?_⟩
  rw [Look.foldl_named]
  split <;> exact ⟨rfl, rfl⟩

end Stroke

namespace Capture

variable {c : Capture} {v : View} {t : Thing} {n : Node} {l : Ledger}

/-- A node with the number and the look of a thing is the thing's. -/
theorem isOf_of_look (hl : l.Issued) (hsound : l.Sound) (ht : v.Holds t)
    (hid : l.idOf? t = some n.id)
    (hlook : Stroke.lookOf? (c.scope v) v.strokes t = some n.look) :
    n.IsOf (c.scope v) l t := by
  obtain ⟨x, hx, first, hfirst, hkind, hsize⟩ := Stroke.exists_look? hlook
  have hthing : x.thing? = some t := Stroke.thing?_of_look? hfirst
  have horigin := View.ofAny_strokes hx
  cases x with
  | object a =>
    cases hthing
    obtain ⟨o, ho⟩ := Option.isSome_iff_exists.mp (show (v.object? a).isSome = true from ht)
    refine ⟨⟨o, ho, ?_⟩, hid, hl.isIssuable hsound hid⟩
    rw [Stroke.look?, if_pos rfl, Option.some.injEq] at hfirst
    rw [← hfirst, Scope.objectNode, show (c.scope v).view.object? a = some o from ho] at hkind hsize
    exact ⟨hkind, hsize⟩
  | store memory =>
    cases hthing
    rw [Stroke.look?, if_pos rfl, Option.some.injEq] at hfirst
    exact ⟨hkind.trans (hfirst ▸ rfl), hid, hl.isIssuable hsound hid⟩
  | native u m =>
    cases hthing
    rw [Stroke.look?, if_pos rfl, Option.some.injEq] at hfirst
    have hkind : n.kind = m.kind := hkind.trans (hfirst ▸ rfl)
    obtain ⟨c, -, ⟨rfl, rfl⟩ | ⟨rfl, rfl⟩⟩ := horigin.resolve_left fun h => h.elim id id
    · have hid : Companion.groupId c.group = n.id := Option.some.inj hid
      exact ⟨hkind, hid.symm, hid ▸ ObjectId.isNative_ofDigest _⟩
    · have hid : c.id = n.id := Option.some.inj hid
      exact ⟨hkind, hid.symm, hid ▸ c.isNative_id⟩
  | edge | next | name => cases hthing

end Capture

/-! ## Even numbers -/

theorem View.isNative_of_nativeId? {v : View} {t : Thing} {id : ObjectId} (ht : v.Holds t)
    (hid : t.nativeId? = some id) : id.isNative = true := by
  cases t with
  | object | backingStore => cases hid
  | native =>
    obtain ⟨c, -, rfl⟩ := ht
    rw [← Option.some.inj hid]
    exact c.isNative_id
  | nativeGroup label =>
    rw [← Option.some.inj hid]
    exact ObjectId.isNative_ofDigest _

namespace Ledger

variable {l : Ledger} {v : View} {t u : Thing} {id : ObjectId}

/-- Even numbers belong to what has an address. -/
theorem exists_address (ht : v.Holds t) (hid : l.idOf? t = some id) (heven : id.isNative = false) :
    ∃ a, t.address? = some a ∧ l.find? a = some id := by
  unfold idOf? at hid
  split at hid
  · next a ha => exact ⟨a, ha, hid⟩
  · rw [View.isNative_of_nativeId? ht hid] at heven
    cases heven

/-- Things with one even number are the same, if no object lies where memory does. -/
theorem Issued.idOf?_inj (h : l.Issued) (hl : l.Sound)
    (hapart : ∀ a, v.Holds (.backingStore a) → v.isLive a = false) (ht : v.Holds t)
    (hu : v.Holds u) (hidt : l.idOf? t = some id) (hidu : l.idOf? u = some id)
    (heven : id.isNative = false) : t = u := by
  have hboth : ∀ a, v.Holds (.object a) → ¬ v.Holds (.backingStore a) := by
    intro a hlive hstore
    rw [View.Holds, hapart a hstore] at hlive
    cases hlive
  obtain ⟨a, hta, ha⟩ := exists_address ht hidt heven
  obtain ⟨b, hub, hb⟩ := exists_address hu hidu heven
  obtain rfl := h.find?_inj hl ha hb
  cases t with
  | object b =>
    cases hta
    cases u with
    | object b => cases hub; rfl
    | backingStore b => cases hub; exact absurd hu (hboth a ht)
    | native | nativeGroup => cases hub
  | backingStore b =>
    cases hta
    cases u with
    | object b => cases hub; exact absurd ht (hboth a hu)
    | backingStore b => cases hub; rfl
    | native | nativeGroup => cases hub
  | native | nativeGroup => cases hta

end Ledger

theorem Node.IsOf.idOf? {sc : Scope} {l : Ledger} {n : Node} {t : Thing} (h : n.IsOf sc l t) :
    some n.id = l.idOf? t := by
  cases t with
  | object | backingStore => exact h.2.1.symm
  | native | nativeGroup => exact congrArg some h.2.1

theorem Graph.Census.nodup_even {sc : Scope} {l : Ledger} {ts : List Thing} {g : Graph}
    (h : g.Census sc l ts) (hissued : l.Issued) (hl : l.Sound) (hts : ts.Nodup)
    (hholds : ∀ t ∈ ts, sc.view.Holds t)
    (hapart : ∀ a, sc.view.Holds (.backingStore a) → sc.view.isLive a = false) :
    ((g.nodes.toList.map (·.id)).filter (!·.isNative)).Nodup := by
  have hroots : (g.nodes.toList.take 18).map (·.id) = Graph.syntheticNodes.map (·.id) := by
    have hfaces := congrArg (List.map Prod.fst) h.synthetic
    rw [List.map_map, List.map_map] at hfaces
    exact hfaces
  have hids : ((g.nodes.toList.drop 18).map (·.id)).map some = ts.map l.idOf? := by
    rw [List.map_map, ← List.forall₂_eq_eq_eq, List.forall₂_map_left_iff,
      List.forall₂_map_right_iff]
    exact h.things.imp fun n t hn => hn.idOf?
  rw [← List.take_append_drop 18 g.nodes.toList, List.map_append, List.filter_append,
    List.nodup_append, hroots]
  refine ⟨Graph.nodup_synthetic_id.filter _, ?_, ?_⟩
  · let even (id : Option ObjectId) : Bool := id.any (!·.isNative)
    have hfilter : ((((g.nodes.toList.drop 18).map (·.id)).filter (!·.isNative)).map some) =
        (ts.filter (even ∘ l.idOf?)).map l.idOf? := by
      rw [← List.filter_map, ← hids]
      exact (List.filter_map (f := some) (p := even)).symm
    apply List.Nodup.of_map some
    rw [hfilter]
    refine List.Nodup.map_on (fun t ht u hu heq => ?_) (hts.filter _)
    rw [List.mem_filter] at ht hu
    obtain ⟨id, hid, heven⟩ := (Option.any_eq_true _ _).mp ht.2
    exact hissued.idOf?_inj hl hapart (hholds t ht.1) (hholds u hu.1) hid (heq ▸ hid)
      (by simpa using heven)
  · -- numbers of synthetic nodes are smaller than all that a ledger hands out
    rintro id hroot id' hrest rfl
    obtain ⟨n, hn, rfl⟩ := List.mem_map.mp (List.mem_filter.mp hroot).1
    obtain ⟨hrest, heven⟩ := List.mem_filter.mp hrest
    obtain ⟨t, ht, hid⟩ := List.mem_map.mp (hids ▸ List.mem_map_of_mem hrest)
    obtain ⟨a, -, ha⟩ := Ledger.exists_address (hholds t ht) hid (by simpa using heven)
    have hlt := (Graph.synthetic_id_lt n hn).2
    have hle := (hissued.isIssuable hl ha).2
    omega

/-! ## Captures -/

namespace Capture

variable {c c' : Capture} {h : Heap}

/-- The synthetic nodes stand in front, and behind them the things of the heap. -/
theorem map_face_run (hhandlers : c.handlers = .builtin)
    (hledger : c.ledger.Sound) (hrun : c.run h.view = (.ok .completed, c')) :
    c'.graph.nodes.toList.map Node.face = Graph.syntheticNodes.map Node.face ++
      (Stroke.roll h.view.strokes).map (c'.ledger.face (c.scope h.view) h.view.strokes) := by
  obtain ⟨hgraph, hl, -⟩ := run_completed hrun
  rw [hl, hgraph]
  exact (Graph.map_nodes_group _ fun _ _ => rfl).trans
    ((depicts_drawn hhandlers h.faithful).map_face (numbered_drawn hledger h.view))

theorem exists_face (hhandlers : c.handlers = .builtin)
    (hledger : c.ledger.Sound) {t : Thing} (ht : h.view.Holds t) :
    ∃ n : Node, (c.drawn h.view).ledger.idOf? t = some n.id ∧
      Stroke.lookOf? (c.scope h.view) h.view.strokes t = some n.look := by
  have hdepicts := depicts_drawn hhandlers h.faithful
  obtain ⟨i, hi⟩ := hdepicts.mem_roll_iff.mp ((View.mem_roll_strokes h.faithful).mpr ht)
  obtain ⟨n, -, hn⟩ := hdepicts.face_of_find? (numbered_drawn hledger h.view) hi
  exact ⟨n, hn⟩

theorem census_run (hhandlers : c.handlers = .builtin)
    (hledger : c.ledger.Reachable) (hrun : c.run h.view = (.ok .completed, c')) :
    c'.graph.Census (c.scope h.view) c'.ledger (Stroke.roll h.view.strokes) := by
  obtain ⟨hgraph, hl, -⟩ := run_completed hrun
  have hfaces := map_face_run hhandlers hledger.sound hrun
  have hreachable := reachable_drawn hledger h.view
  have hlength : (Graph.syntheticNodes.map Node.face).length = 18 := rfl
  have hfront : (c'.graph.nodes.toList.take 18).map Node.face =
      Graph.syntheticNodes.map Node.face := by
    rw [List.map_take, hfaces, List.take_left' hlength]
  have hrest : (c'.graph.nodes.toList.drop 18).map Node.face =
      (Stroke.roll h.view.strokes).map (c'.ledger.face (c.scope h.view) h.view.strokes) := by
    rw [List.map_drop, hfaces, List.drop_left' hlength]
  constructor
  · exact hfront
  · intro n hn
    have hmem : n.face ∈ Graph.syntheticNodes.map Node.face :=
      hfront ▸ List.mem_map_of_mem hn
    obtain ⟨m, hm, hface⟩ := List.mem_map.mp hmem
    rw [← show m.id = n.id from congrArg Prod.fst hface]
    exact Graph.synthetic_id_lt m hm
  · rw [← List.forall₂_eq_eq_eq, List.forall₂_map_left_iff, List.forall₂_map_right_iff] at hrest
    refine List.Forall₂.flip (((List.forall₂_and_left _ _).mpr
      ⟨fun t ht => (View.mem_roll_strokes h.faithful).mp ht, hrest.flip⟩).imp ?_)
    rintro t n ⟨ht, hface⟩
    obtain ⟨m, hid, hlook⟩ := exists_face hhandlers hledger.sound ht
    rw [← hl] at hid
    have hsame : n.face = m.face := by
      rw [show n.face = _ from hface, Ledger.face, hid, hlook]
      rfl
    obtain ⟨hidn, hlookn⟩ := Prod.mk.inj hsame
    rw [← hidn] at hid
    rw [← hlookn] at hlook
    rw [← hl] at hreachable
    exact isOf_of_look hreachable.issued hreachable.sound ht hid hlook
  · have hsound := (depicts_drawn hhandlers h.faithful).sound
    have hcount : c'.graph.nodeCount = (c.drawn h.view).graph.nodeCount := by
      rw [hgraph]
      exact (c.drawn h.view).graph.nodeCount_group
    rw [hcount, hgraph]
    exact fun e he => ⟨hsound.source_lt e he, hsound.target_lt e he⟩

/-- A completed capture has a node for each thing that the heap holds and no others but the
synthetic ones. -/
theorem exists_census (hhandlers : c.handlers = .builtin)
    (hledger : c.ledger.Reachable) (hrun : c.run h.view = (.ok .completed, c')) :
    ∃ ts : List Thing, ts.Nodup ∧ (∀ t, t ∈ ts ↔ h.view.Holds t) ∧
      c'.graph.Census (c.scope h.view) c'.ledger ts ∧
      ((∀ a, h.view.Holds (.backingStore a) → h.view.isLive a = false) →
        ((c'.graph.nodes.toList.map (·.id)).filter (!·.isNative)).Nodup) := by
  have hmem : ∀ t, t ∈ Stroke.roll h.view.strokes ↔ h.view.Holds t :=
    fun t => View.mem_roll_strokes h.faithful
  have hcensus := census_run hhandlers hledger hrun
  have hreachable : c'.ledger.Reachable := by
    rw [(run_completed hrun).2.1]
    exact reachable_drawn hledger h.view
  refine ⟨Stroke.roll h.view.strokes, Stroke.nodup_roll _, hmem, hcensus, fun hapart => ?_⟩
  exact hcensus.nodup_even hreachable.issued hreachable.sound (Stroke.nodup_roll _)
    (fun t ht => (hmem t).mp ht) hapart

/-- An array buffer that wraps a native object, and a number that it refers to. -/
def wrapperHeap : Heap :=
  ((Heap.empty.insert { address := ⟨48⟩, size := 8, tag := .heapNumber }).insert
    { address := ⟨16⟩, size := 32, tag := .arrayBuffer, slots := [.ref ⟨48⟩, .ref ⟨64⟩],
      detail := .arrayBuffer (some ⟨⟨4096⟩, 64⟩) }).addCompanion
    { label := "Wrapped", group := "Natives", hash := 7, wrappers := [⟨16⟩] }

/-- Five things have nodes: two objects, the buffer's memory, the native object and its group. -/
theorem exists_census_wrapper :
    ∃ ts : List Thing, ts.Nodup ∧ (∀ t, t ∈ ts ↔ wrapperHeap.view.Holds t) ∧ ts.length = 5 ∧
      (({} : Capture).run wrapperHeap.view).2.graph.Census (({} : Capture).scope wrapperHeap.view)
        (({} : Capture).run wrapperHeap.view).2.ledger ts ∧
      (((({} : Capture).run wrapperHeap.view).2.graph.nodes.toList.map (·.id)).filter
        (!·.isNative)).Nodup := by
  have hrun : ({} : Capture).run wrapperHeap.view =
      (.ok .completed, (({} : Capture).run wrapperHeap.view).2) :=
    run_eq (by decide +kernel)
  have hstores : ∀ o ∈ wrapperHeap.view.live, ∀ store ∈ o.ownedStore?,
      wrapperHeap.view.isLive store.address = false := by
    decide +kernel
  obtain ⟨ts, hnodup, hmem, hcensus, heven⟩ := exists_census rfl .empty hrun
  refine ⟨ts, hnodup, hmem, ?_, hcensus, heven ?_⟩
  · rw [← hcensus.things.length_eq]
    decide +kernel
  · rintro a ⟨o, ho, store, hstore, rfl⟩
    exact hstores o ho store hstore

end Capture

end ManagedHeap
