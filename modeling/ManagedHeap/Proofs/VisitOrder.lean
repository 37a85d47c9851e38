import ManagedHeap.Proofs.Census
import ManagedHeap.Proofs.Fingerprints
import ManagedHeap.Proofs.Reordering
import ManagedHeap.Proofs.Transparency

/-!
# Snapshots in different orders

A heap is captured twice by one observer, and its objects are visited in different orders. The
edges between numbers are the same if owners agree on how arrays are to be read,
`Observer.perm_arcs_reordered`. If they also agree on names and on sizes of memory, the nodes are
the same, and with them the fingerprint, `Observer.snapshot_reordered`.
-/
namespace ManagedHeap

/-! ## Edges between numbers -/

/-- The number of what has its node at a place. -/
def Ledger.numberOf (l : Ledger) : Place → ObjectId
  | .fixed index => Graph.withRoots.numberAt index
  | .thing t => (l.idOf? t).getD .unknown

/-- The link as an edge between numbers. -/
def Link.toArc (numberOf : Place → ObjectId) (l : Link) : Arc :=
  ⟨numberOf l.source, l.kind, l.label, numberOf l.target⟩

theorem Graph.arcs_group (g : Graph) (samples : List Sample) :
    (g.group.setSamples samples).arcs = g.arcs := by
  have hids : (g.group.setSamples samples).ids = g.ids := ids_group g
  have hnumber : (g.group.setSamples samples).numberAt = g.numberAt := by
    funext index
    rw [numberAt, numberAt, hids]
  rw [arcs, arcs, hnumber]
  rfl

namespace Draft.Depicts

variable {sc : Scope} {strokes : List Stroke} {d : Draft}

theorem numberAt_indexOf (h : Depicts sc strokes d) (hd : d.Numbered) {p : Place}
    (hp : p.Known (· ∈ Stroke.roll strokes)) :
    d.graph.numberAt (d.indexOf p) = d.ledger.numberOf p := by
  cases p with
  | fixed index => exact congrArg (Option.getD · ObjectId.unknown) (hd.synthetic index hp)
  | thing t =>
    obtain ⟨i, hi⟩ := h.mem_roll_iff.mp hp
    obtain ⟨id, hid, hidOf⟩ := hd.id t i hi
    rw [indexOf_of_find? hi, Graph.numberAt, hid, Ledger.numberOf, hidOf]

/-- The edges between numbers are the links between places. -/
theorem arcs_eq (h : Depicts sc strokes d) (hd : d.Numbered) :
    d.graph.arcs = (Stroke.links [] strokes).map (·.toArc d.ledger.numberOf) := by
  rw [Graph.arcs, h.edges, List.map_map]
  refine List.map_congr_left fun l hl => ?_
  obtain ⟨hsource, htarget⟩ := h.linked l hl
  rw [Function.comp_apply, Link.toEdge, Link.toArc, h.numberAt_indexOf hd hsource,
    h.numberAt_indexOf hd htarget]

end Draft.Depicts

/-! ## Two captures -/

theorem View.holds_live {v : View} {os : List HeapObject} (hperm : os.Perm v.live) (t : Thing) :
    { v with live := os }.Holds t ↔ v.Holds t := by
  cases t with
  | object | native | nativeGroup => exact Iff.rfl
  | backingStore a => exact exists_congr fun o => and_congr_left fun _ => hperm.mem_iff

namespace Capture

/-- The second capture has the numbers of the first one, and visits the same heap in another
order. -/
structure Repeats (c : Capture) (h : Heap) (c' : Capture) (h' : Heap) : Prop where
  handlers : c.handlers = .builtin
  ledger : c.ledger.Sound
  again : c' = { c with ledger := (c.drawn h.view).ledger.sweep, control := c'.control }
  view : h'.view = { h.view with live := h'.live }
  live : h'.live.Perm h.live

namespace Repeats

variable {c c' : Capture} {h h' : Heap}

theorem handlers' (r : Repeats c h c' h') : c'.handlers = .builtin := by
  rw [r.again]
  exact r.handlers

theorem ledger' (r : Repeats c h c' h') : c'.ledger.Sound := by
  rw [r.again]
  exact Ledger.sound_sweep (extends_drawn r.ledger h.view).sound

theorem scope_eq (r : Repeats c h c' h') :
    c'.scope h'.view =
      { c.scope h.view with view := { (c.scope h.view).view with live := h'.live } } := by
  rw [r.again, r.view]
  rfl

theorem holds_iff (r : Repeats c h c' h') (t : Thing) : h'.view.Holds t ↔ h.view.Holds t := by
  rw [r.view]
  exact View.holds_live r.live t

/-- Whatever the heap holds keeps its number. -/
theorem idOf?_eq (r : Repeats c h c' h') {t : Thing} (ht : h.view.Holds t) :
    (c'.drawn h'.view).draft.ledger.idOf? t = (c.drawn h.view).draft.ledger.idOf? t := by
  have hextends := extends_drawn r.ledger h.view
  have hdepicts := depicts_drawn r.handlers h.faithful
  obtain ⟨i, hi⟩ := hdepicts.mem_roll_iff.mp ((View.mem_roll_strokes h.faithful).mpr ht)
  obtain ⟨id, -, hid⟩ := (numbered_drawn r.ledger h.view).id t i hi
  have hkept : c'.ledger.idOf? t = (c.drawn h.view).draft.ledger.idOf? t := by
    rw [r.again]
    unfold Ledger.idOf?
    split
    · next a ha => exact (asked_drawn r.ledger h.view t a i ha hi).find?_sweep hextends.sound
    · rfl
  rw [hid]
  exact (extends_drawn r.ledger' h'.view).idOf? (hkept.trans hid)

theorem perm_arcs (r : Repeats c h c' h') (harrays : h.view.ArraysAgree) :
    (c'.drawn h'.view).draft.graph.arcs.Perm (c.drawn h.view).draft.graph.arcs := by
  have hdepicts := depicts_drawn r.handlers h.faithful
  have hnumber : ∀ p : Place, p.Known (· ∈ Stroke.roll h.view.strokes) →
      (c'.drawn h'.view).draft.ledger.numberOf p = (c.drawn h.view).draft.ledger.numberOf p := by
    intro p hp
    cases p with
    | fixed index => rfl
    | thing t =>
      rw [Ledger.numberOf, Ledger.numberOf,
        r.idOf?_eq ((View.mem_roll_strokes h.faithful).mp hp)]
  have harcs := (depicts_drawn r.handlers' h'.faithful).arcs_eq
    (numbered_drawn r.ledger' h'.view)
  have hlinks : (Stroke.links [] h'.view.strokes).Perm (Stroke.links [] h.view.strokes) := by
    rw [r.view]
    exact View.perm_links r.live harrays
  have hmap : (Stroke.links [] h.view.strokes).map
      (·.toArc (c'.drawn h'.view).draft.ledger.numberOf) = (c.drawn h.view).draft.graph.arcs := by
    rw [hdepicts.arcs_eq (numbered_drawn r.ledger h.view)]
    refine List.map_congr_left fun l hl => ?_
    obtain ⟨hsource, htarget⟩ := hdepicts.linked l hl
    rw [Link.toArc, Link.toArc, hnumber _ hsource, hnumber _ htarget]
  rw [harcs, ← hmap]
  exact hlinks.map _

theorem perm_faces (r : Repeats c h c' h') (harrays : h.view.ArraysAgree)
    (hstores : h.view.StoresAgree)
    (hnames : ∀ a o, h.object? a = some o → (o.describe (c.scope h.view)).2 = "" →
      h.view.IsBuiltin a ∨ h.view.TagsAgree a) :
    ((c'.drawn h'.view).draft.graph.nodes.toList.map Node.face).Perm
      ((c.drawn h.view).draft.graph.nodes.toList.map Node.face) := by
  have hfaces := (depicts_drawn r.handlers h.faithful).map_face
    (numbered_drawn r.ledger h.view)
  have hfaces' := (depicts_drawn r.handlers' h'.faithful).map_face
    (numbered_drawn r.ledger' h'.view)
  have hroll : (Stroke.roll h'.view.strokes).Perm (Stroke.roll h.view.strokes) := by
    refine (List.perm_ext_iff_of_nodup (Stroke.nodup_roll _) (Stroke.nodup_roll _)).mpr fun t => ?_
    rw [View.mem_roll_strokes h'.faithful, View.mem_roll_strokes h.faithful]
    exact r.holds_iff t
  have hface : ∀ t ∈ Stroke.roll h.view.strokes,
      (c'.drawn h'.view).draft.ledger.face (c'.scope h'.view) h'.view.strokes t =
        (c.drawn h.view).draft.ledger.face (c.scope h.view) h.view.strokes t := by
    intro t ht
    have hlook : Stroke.lookOf? (c'.scope h'.view) h'.view.strokes t =
        Stroke.lookOf? (c.scope h.view) h.view.strokes t := by
      rw [r.scope_eq, r.view]
      exact View.lookOf?_live (c.scope h.view) r.live harrays hstores hnames t
    rw [Ledger.face, Ledger.face, hlook,
      r.idOf?_eq ((View.mem_roll_strokes h.faithful).mp ht)]
  rw [hfaces, hfaces']
  refine List.Perm.append_left _ ((hroll.map _).trans ?_)
  rw [List.map_congr_left hface]

end Repeats

end Capture

/-! ## Snapshots -/

namespace Observer

/-- Another snapshot right after one, with the objects visited in a given order. -/
def Shot.again (shot : Shot) (order : Option (List Address)) (control : Option Control) : Shot :=
  shot.observer.snapshot { shot.heap with order := order } control

variable {ob : Observer} {h : Heap} {order : Option (List Address)}
  {control control' : Option Control} {g g' : Graph}

theorem repeats_snapshot (hhandlers : ob.handlers = .builtin) (hledger : ob.ledger.Sound)
    (horder : ∀ addresses ∈ h.order, addresses.Nodup)
    (horder' : ∀ addresses ∈ order, addresses.Nodup)
    (hfirst : (ob.snapshot h control).result = .ok (some g)) (control' : Option Control) :
    (ob.capture control).Repeats h ((ob.snapshot h control).observer.capture control')
      { (ob.snapshot h control).heap with order := order } := by
  obtain ⟨-, hobserver⟩ := snapshot_completed hfirst
  obtain ⟨times, hheap⟩ := ob.heap_snapshot h control
  rw [hobserver, hheap]
  exact ⟨hhandlers, hledger, rfl, rfl, Heap.perm_live horder horder' rfl⟩

theorem arcs_snapshot (hresult : (ob.snapshot h control).result = .ok (some g)) :
    g.arcs = ((ob.capture control).drawn h.view).draft.graph.arcs := by
  rw [(snapshot_completed hresult).1]
  exact Graph.arcs_group ..

theorem faces_snapshot (hresult : (ob.snapshot h control).result = .ok (some g)) :
    g.nodes.toList.map Node.face =
      ((ob.capture control).drawn h.view).draft.graph.nodes.toList.map Node.face := by
  rw [(snapshot_completed hresult).1]
  exact Graph.map_nodes_group _ fun _ _ => rfl

/-- If owners agree on containers, names and sizes of memory, snapshots in different orders have
the same nodes, edges and fingerprint. -/
theorem snapshot_reordered (hhandlers : ob.handlers = .builtin) (hledger : ob.ledger.Sound)
    (horder : ∀ addresses ∈ h.order, addresses.Nodup)
    (horder' : ∀ addresses ∈ order, addresses.Nodup)
    (hfirst : (ob.snapshot h control).result = .ok (some g))
    (hsecond : ((ob.snapshot h control).again order control').result = .ok (some g'))
    (hnames : ∀ a o, h.object? a = some o →
      (o.describe ((ob.capture control).scope h.view)).2 = "" →
        h.view.IsBuiltin a ∨ h.view.TagsAgree a)
    (hkinds : ∀ a kind kind', h.view.Records a kind → h.view.Records a kind' → kind = kind')
    (hstores : h.view.StoresAgree) :
    (g'.nodes.toList.map Node.face).Perm (g.nodes.toList.map Node.face) ∧ g'.arcs.Perm g.arcs ∧
      ∀ now later, (Fingerprint.compute g' later).map ({ · with computedAt := now }) =
        Fingerprint.compute g now := by
  have hrepeats := repeats_snapshot hhandlers hledger horder horder' hfirst control'
  have harrays : h.view.ArraysAgree := fun o _ _ => hkinds o.address
  have hnodes : (g'.nodes.toList.map Node.face).Perm (g.nodes.toList.map Node.face) := by
    rw [faces_snapshot hfirst, faces_snapshot hsecond]
    exact hrepeats.perm_faces harrays hstores hnames
  have harcs : g'.arcs.Perm g.arcs := by
    rw [arcs_snapshot hfirst, arcs_snapshot hsecond]
    exact hrepeats.perm_arcs harrays
  exact ⟨hnodes, harcs, Fingerprint.compute_of_perm hnodes harcs⟩

/-- Two functions with one name share their code, two shapes an array of transitions, and two array
buffers their memory. -/
def sharingHeap : Heap :=
  [{ address := ⟨16⟩, size := 24, tag := .sharedFunctionInfo, slots := [.ref ⟨48⟩],
      detail := .sharedFunctionInfo "f" 0 none none },
    { address := ⟨32⟩, size := 24, tag := .sharedFunctionInfo, slots := [.ref ⟨48⟩],
      detail := .sharedFunctionInfo "f" 0 none none },
    { address := ⟨48⟩, size := 8, tag := .code },
    { address := ⟨64⟩, size := 24, tag := .shape, slots := [.small 0, .small 0, .ref ⟨96⟩],
      detail := .shape 0 1 none (some 2) },
    { address := ⟨80⟩, size := 24, tag := .shape, slots := [.small 0, .small 0, .ref ⟨96⟩],
      detail := .shape 0 1 none (some 2) },
    { address := ⟨96⟩, size := 16, tag := .fixedArray, slots := [.ref ⟨48⟩] },
    { address := ⟨112⟩, size := 32, tag := .arrayBuffer,
      detail := .arrayBuffer (some ⟨⟨4096⟩, 64⟩) },
    { address := ⟨128⟩, size := 32, tag := .arrayBuffer,
      detail := .arrayBuffer (some ⟨⟨4096⟩, 64⟩) }].foldl Heap.insert Heap.empty

/-- The order of visits is changed between the snapshots, and with it the order of the nodes. -/
theorem snapshot_reordered_sharing :
    ∃ g g' : Graph, (({} : Observer).snapshot sharingHeap none).result = .ok (some g) ∧
      ((({} : Observer).snapshot sharingHeap none).again
        (some [⟨128⟩, ⟨96⟩, ⟨80⟩, ⟨48⟩, ⟨32⟩]) none).result = .ok (some g') ∧
      (g'.nodes.toList.map Node.face).Perm (g.nodes.toList.map Node.face) ∧ g'.arcs.Perm g.arcs ∧
      ∀ now later, (Fingerprint.compute g' later).map ({ · with computedAt := now }) =
        Fingerprint.compute g now := by
  have htags : ∀ o ∈ sharingHeap.live, sharingHeap.view.TagsAgree o.address := by
    unfold View.TagsAgree
    decide +kernel
  have hcontainers : ∀ o ∈ sharingHeap.live, ∀ o' ∈ sharingHeap.live,
      ∀ p ∈ o.ownedContainers sharingHeap.view, ∀ p' ∈ o'.ownedContainers sharingHeap.view,
        p.1 = p'.1 → p.2 = p'.2 := by
    decide +kernel
  have hstores : sharingHeap.view.StoresAgree := by
    unfold View.StoresAgree
    decide +kernel
  obtain ⟨g, hfirst⟩ := Session.exists_graph
    (r := (({} : Observer).snapshot sharingHeap none).result) (by decide +kernel)
  obtain ⟨g', hsecond⟩ := Session.exists_graph
    (r := ((({} : Observer).snapshot sharingHeap none).again
      (some [⟨128⟩, ⟨96⟩, ⟨80⟩, ⟨48⟩, ⟨32⟩]) none).result) (by decide +kernel)
  refine ⟨g, g', hfirst, hsecond, snapshot_reordered rfl Ledger.sound_empty ?_ ?_ hfirst
    hsecond ?_ ?_ hstores⟩
  · rintro addresses ⟨⟩
  · rintro addresses ⟨⟩
    decide
  · intro a o ho _
    rw [← sharingHeap.keyed a o ho]
    exact .inr (htags o (Heap.mem_live ho))
  · rintro a kind kind' ⟨o, ho, -, hkind⟩ ⟨o', ho', -, hkind'⟩
    exact hcontainers o ho o' ho' _ hkind _ hkind' rfl

/-- If owners agree on how arrays are to be read, snapshots in different orders have the same
edges. -/
theorem perm_arcs_reordered (hhandlers : ob.handlers = .builtin) (hledger : ob.ledger.Sound)
    (horder : ∀ addresses ∈ h.order, addresses.Nodup)
    (horder' : ∀ addresses ∈ order, addresses.Nodup)
    (hfirst : (ob.snapshot h control).result = .ok (some g))
    (hsecond : ((ob.snapshot h control).again order control').result = .ok (some g'))
    (harrays : h.view.ArraysAgree) : g'.arcs.Perm g.arcs := by
  rw [arcs_snapshot hfirst, arcs_snapshot hsecond]
  exact (repeats_snapshot hhandlers hledger horder horder' hfirst control').perm_arcs
    harrays

/-- Two shapes and a property cell share an array, and all of them take it for a weak one. -/
def weakArrayHeap : Heap :=
  [{ address := ⟨16⟩, size := 24, tag := .shape, slots := [.small 0, .small 0, .ref ⟨64⟩],
      detail := .shape 0 1 none (some 2) },
    { address := ⟨32⟩, size := 24, tag := .shape, slots := [.small 0, .small 0, .ref ⟨64⟩],
      detail := .shape 0 1 none (some 2) },
    { address := ⟨48⟩, size := 24, tag := .propertyCell, slots := [.small 0, .ref ⟨64⟩],
      detail := .propertyCell 0 (some 1) },
    { address := ⟨64⟩, size := 16, tag := .fixedArray, slots := [.ref ⟨80⟩] },
    { address := ⟨80⟩, size := 8, tag := .heapNumber }].foldl Heap.insert Heap.empty

/-- The three owners are visited the other way round, and after the array. -/
theorem perm_arcs_reordered_weakArray :
    ∃ g g' : Graph, (({} : Observer).snapshot weakArrayHeap none).result = .ok (some g) ∧
      ((({} : Observer).snapshot weakArrayHeap none).again
        (some [⟨64⟩, ⟨48⟩, ⟨32⟩, ⟨16⟩]) none).result = .ok (some g') ∧
      g'.arcs.Perm g.arcs := by
  have hcontainers : ∀ o ∈ weakArrayHeap.live, ∀ o' ∈ weakArrayHeap.live,
      ∀ p ∈ o.ownedContainers weakArrayHeap.view, ∀ p' ∈ o'.ownedContainers weakArrayHeap.view,
        p.1 = p'.1 → p.2 = p'.2 := by
    decide +kernel
  obtain ⟨g, hfirst⟩ := Session.exists_graph
    (r := (({} : Observer).snapshot weakArrayHeap none).result) (by decide +kernel)
  obtain ⟨g', hsecond⟩ := Session.exists_graph
    (r := ((({} : Observer).snapshot weakArrayHeap none).again
      (some [⟨64⟩, ⟨48⟩, ⟨32⟩, ⟨16⟩]) none).result) (by decide +kernel)
  refine ⟨g, g', hfirst, hsecond, perm_arcs_reordered rfl Ledger.sound_empty
    ?_ ?_ hfirst hsecond ?_⟩
  · rintro addresses ⟨⟩
  · rintro addresses ⟨⟩
    decide
  · rintro array - - kind kind' ⟨o, ho, -, hkind⟩ ⟨o', ho', -, hkind'⟩
    exact hcontainers o ho o' ho' _ hkind _ hkind' rfl

/-- A weak collection takes an array for its table, and a shape takes it for its transitions. -/
def disputedHeap : Heap :=
  [{ address := ⟨16⟩, size := 24, tag := .weakCollection, slots := [.ref ⟨48⟩],
      detail := .weakCollection 0 },
    { address := ⟨32⟩, size := 24, tag := .shape, slots := [.small 0, .small 0, .ref ⟨48⟩],
      detail := .shape 0 1 none (some 2) },
    { address := ⟨48⟩, size := 16, tag := .fixedArray, slots := [.ref ⟨64⟩] },
    { address := ⟨64⟩, size := 16, tag := .heapNumber }].foldl Heap.insert Heap.empty

/-- The owner that is visited last prevails, so the edge out of the array is weak or strong with
the order of visits. -/
theorem arcs_disputed :
    ∃ g g' : Graph, (({} : Observer).snapshot disputedHeap none).result = .ok (some g) ∧
      ((({} : Observer).snapshot disputedHeap none).again
        (some [⟨32⟩, ⟨16⟩]) none).result = .ok (some g') ∧
      ¬ g'.arcs.Perm g.arcs := by
  obtain ⟨g, hfirst⟩ := Session.exists_graph
    (r := (({} : Observer).snapshot disputedHeap none).result) (by decide +kernel)
  obtain ⟨g', hsecond⟩ := Session.exists_graph
    (r := ((({} : Observer).snapshot disputedHeap none).again
      (some [⟨32⟩, ⟨16⟩]) none).result) (by decide +kernel)
  refine ⟨g, g', hfirst, hsecond, ?_⟩
  have harcs : ∀ {r : Except Failure (Option Graph)} {g : Graph}, r = .ok (some g) →
      ((r.toOption.bind id).map Graph.arcs).getD [] = g.arcs := by
    rintro _ g rfl
    rfl
  rw [← harcs hfirst, ← harcs hsecond]
  decide +kernel

end Observer

end ManagedHeap
