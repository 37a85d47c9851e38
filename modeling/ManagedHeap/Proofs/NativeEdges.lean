import ManagedHeap.Proofs.Census
import ManagedHeap.Proofs.Positions

/-!
# Native objects in the graph

Native objects that have one number share a node, which looks as the first of them says, and their
groups have one node for each label. The root leads to the groups, a group to its native objects,
and a native object to the objects that wrap it, from which an edge leads back. All these are drawn
last, in the order in which native objects are listed, and wrappers that do not live are passed
over: `Capture.showsNatives_run`. Native things have no nodes as long as handlers speak, so these
can neither lead to them nor report under them. They can add to the edges of the root and of an
object, all of which come before those to native things.
-/
namespace ManagedHeap

/-! ## Groups -/

/-- Groups are met in the order of their first native objects. -/
theorem newGroups_eq (known : List String) (cs : List Companion) :
    newGroups known cs = ((cs.map (·.group)).filter (· ∉ known)).eraseDups := by
  induction cs generalizing known with
  | nil => rfl
  | cons c cs ih =>
    rw [newGroups, List.map_cons]
    split
    · next hknown => rw [List.filter_cons_of_neg (by simpa using hknown), ih]
    · next hnew =>
      rw [List.filter_cons_of_pos (by simpa using hnew), List.eraseDups_cons, ih,
        List.filter_filter]
      refine congrArg (c.group :: List.eraseDups ·) (List.filter_congr fun label _ => ?_)
      by_cases hlabel : label = c.group <;> simp [hlabel]

theorem flatMap_ite {α β : Type} (P : α → Prop) [DecidablePred P] (f : α → List β) (as : List α) :
    (as.flatMap fun a => if P a then f a else []) = (as.filter (P ·)).flatMap f := by
  induction as with
  | nil => rfl
  | cons a as ih =>
    rw [List.flatMap_cons, ih, List.filter_cons]
    by_cases ha : P a <;> simp [ha]

/-- The labels of groups, in the order of their first native objects. -/
def Heap.groupLabels (h : Heap) : List String := (h.companions.map (·.group)).eraseDups

theorem Heap.groupLabels_eq (h : Heap) : newGroups [] h.view.companions = h.groupLabels := by
  rw [newGroups_eq, groupLabels, List.filter_eq_self.mpr (by simp)]
  rfl

theorem Heap.mem_groupLabels {h : Heap} {label : String} :
    label ∈ h.groupLabels ↔ ∃ c ∈ h.companions, c.group = label := by
  rw [groupLabels, List.mem_eraseDups, List.mem_map]

/-! ## Where the strokes of native objects lead -/

namespace Stroke

variable {v : View} {inPlace : Prop} {p : Place} {strokes : List Stroke}

/-- If all strokes from a place count, the labels of their links are their positions. -/
theorem filter_links_counted (hcounts : ∀ x ∈ strokes, x.Counts (fun _ => True) p)
    (before : List Link) :
    (links before strokes).filter (·.source = p) =
      before.filter (·.source = p) ++
        ((strokes.filterMap (endFrom? p)).zipIdx (before.countP (·.source = p) + 1)).map fun e =>
          ⟨e.1.1, e.1.1.nextLabel e.2, p, e.1.2⟩ := by
  induction strokes generalizing before with
  | nil => simp [links]
  | cons x strokes ih =>
    obtain ⟨hx, hstrokes⟩ := List.forall_mem_cons.mp hcounts
    rw [links_cons, ih hstrokes]
    cases x with
    | object | store | native | name => simp [link?, endFrom?, List.filterMap_cons]
    | edge kind label source target =>
      have hsource : source ≠ p := fun heq => hx heq trivial
      simp [link?, endFrom?, hsource]
    | next kind source target =>
      by_cases hsource : source = p
      · simp [link?, endFrom?, hsource]
      · simp [link?, endFrom?, hsource]

/-- A companion's own strokes, by where they start. -/
theorem ends_companion (c : Companion) :
    (c.strokes v).filterMap (endFrom? p) =
      (if .thing (.nativeGroup c.group) = p then [(.internal, .thing (.native c.id))] else []) ++
        ((c.wrappers.filter v.isLive).flatMap c.wrapperStrokes).filterMap (endFrom? p) := by
  have hnone : ∀ t n, (Stroke.native t n).endFrom? p = none := fun _ _ => rfl
  rw [Companion.strokes, List.filterMap_cons_none (hnone _ _), List.filterMap_cons_none (hnone _ _),
    List.filterMap_cons]
  simp only [endFrom?]
  split <;> simp_all

theorem ends_wrappers (c : Companion) (ws : List Address) :
    (ws.flatMap c.wrapperStrokes).filterMap (endFrom? (.thing (.native c.id))) =
      ws.map fun w => (.element, .thing (.object w)) := by
  induction ws with
  | nil => rfl
  | cons w ws ih =>
    rw [List.flatMap_cons, List.filterMap_append, ih]
    simp [Companion.wrapperStrokes, endFrom?]

theorem startsIn_wrappers (c : Companion) (ws : List Address) :
    ∀ x ∈ ws.flatMap c.wrapperStrokes,
      x.StartsIn fun q => q = .thing (.native c.id) ∨ ∃ a, q = .thing (.object a) :=
  List.forall_mem_flatMap.mpr fun w _ => List.forall_mem_cons.mpr
    ⟨startsIn_of_some rfl (.inr ⟨w, rfl⟩),
      List.forall_mem_singleton.mpr (startsIn_of_some rfl (.inl rfl))⟩

theorem ends_companions_group (label : String) :
    v.companionStrokes.filterMap (endFrom? (.thing (.nativeGroup label))) =
      (v.companions.filter (·.group = label)).map fun c => (.internal, .thing (.native c.id)) := by
  have hcompanion : ∀ c : Companion,
      (c.strokes v).filterMap (endFrom? (.thing (.nativeGroup label))) =
        if c.group = label then [(.internal, .thing (.native c.id))] else [] := by
    intro c
    have hwrappers : ((c.wrappers.filter v.isLive).flatMap c.wrapperStrokes).filterMap
        (endFrom? (.thing (.nativeGroup label))) = [] := by
      refine ends_eq_nil fun x hx q hq => ?_
      rcases startsIn_wrappers c _ x hx q hq with rfl | ⟨a, rfl⟩ <;> simp
    rw [ends_companion, hwrappers, List.append_nil]
    simp
  rw [View.companionStrokes, List.filterMap_append, ends_groups, if_neg (by simp), List.append_nil,
    List.filterMap_flatMap]
  simp only [hcompanion]
  rw [flatMap_ite, List.map_eq_flatMap]

theorem ends_companions_native (id : ObjectId) :
    v.companionStrokes.filterMap (endFrom? (.thing (.native id))) =
      ((v.companions.filter (·.id = id)).flatMap fun c => c.wrappers.filter v.isLive).map
        fun w => (.element, .thing (.object w)) := by
  have hcompanion : ∀ c : Companion, (c.strokes v).filterMap (endFrom? (.thing (.native id))) =
      if c.id = id then
        (c.wrappers.filter v.isLive).map fun w => (.element, .thing (.object w))
      else [] := by
    intro c
    rw [ends_companion, if_neg (by simp), List.nil_append]
    split
    · next hid => exact hid ▸ ends_wrappers c _
    · next hid =>
      refine ends_eq_nil fun x hx q hq => ?_
      rcases startsIn_wrappers c _ x hx q hq with rfl | ⟨a, rfl⟩
      · simpa using hid
      · simp
  rw [View.companionStrokes, List.filterMap_append, ends_groups, if_neg (by simp), List.append_nil,
    List.filterMap_flatMap]
  simp only [hcompanion]
  rw [flatMap_ite, List.map_flatMap]

/-! ## How native things look -/

theorem findSome?_companion (sc : Scope) (c : Companion) (t : Thing) :
    (c.strokes v).findSome? (look? sc t) =
      if .nativeGroup c.group = t then some (Companion.groupNode c.group).look
      else if .native c.id = t then some c.node.look else none := by
  have hwrappers : ((c.wrappers.filter v.isLive).flatMap c.wrapperStrokes).findSome? (look? sc t) =
      none := by
    refine List.findSome?_eq_none_iff.mpr (List.forall_mem_flatMap.mpr fun w _ => ?_)
    exact List.forall_mem_cons.mpr ⟨rfl, List.forall_mem_singleton.mpr rfl⟩
  rw [Companion.strokes, List.findSome?_cons, List.findSome?_cons, List.findSome?_cons, hwrappers]
  simp only [look?]
  split <;> split <;> simp_all

theorem findSome?_companions (sc : Scope) {t : Thing} {look : Companion → Option Look}
    (hlook : ∀ c, (c.strokes v).findSome? (look? sc t) = look c) :
    v.companionStrokes.findSome? (look? sc t) = v.companions.findSome? look := by
  have hgroups : ((newGroups [] v.companions).map groupStroke).findSome? (look? sc t) = none :=
    List.findSome?_eq_none_iff.mpr (List.forall_mem_map.mpr fun _ _ => rfl)
  rw [View.companionStrokes, List.findSome?_append, hgroups, Option.or_none]
  induction v.companions with
  | nil => rfl
  | cons c cs ih =>
    rw [List.flatMap_cons, List.findSome?_append, hlook, ih, List.findSome?_cons]
    cases look c <;> rfl

theorem findSome?_ite {α β : Type} (P : α → Prop) [DecidablePred P] (f : α → β) (as : List α) :
    (as.findSome? fun a => if P a then some (f a) else none) = (as.find? (P ·)).map f := by
  induction as with
  | nil => rfl
  | cons a as ih =>
    rw [List.findSome?_cons, List.find?_cons, ih]
    by_cases ha : P a <;> simp [ha]

/-- A native object looks as the first one with its number does. -/
theorem look_native (sc : Scope) (id : ObjectId) :
    v.companionStrokes.findSome? (look? sc (.native id)) =
      (v.companions.find? (·.id = id)).map (·.node.look) := by
  rw [findSome?_companions sc fun c => findSome?_companion sc c _, ← findSome?_ite]
  simp

theorem look_group (sc : Scope) (label : String) :
    v.companionStrokes.findSome? (look? sc (.nativeGroup label)) =
      (v.companions.find? (·.group = label)).map fun c => (Companion.groupNode c.group).look := by
  rw [findSome?_companions sc fun c => findSome?_companion sc c _, ← findSome?_ite]
  simp

/-- Native things get their looks from their own strokes alone, and no names. -/
theorem OfVisits.lookOf?_native (h : OfVisits v inPlace strokes) {t : Thing}
    (hnew : t ∉ roll (v.rootStrokes ++ strokes)) (ht : t.nativeId?.isSome = true) (sc : Scope) :
    lookOf? sc (v.rootStrokes ++ strokes ++ v.companionStrokes) t =
      v.companionStrokes.findSome? (look? sc t) := by
  have hname : ∀ x : Stroke, (∀ u text, x = .name u text → ∃ a, u = .object a) →
      x.name? t = none := by
    intro x hx
    cases x with
    | name u text =>
      obtain ⟨a, rfl⟩ := hx u text rfl
      refine if_neg ?_
      rintro rfl
      cases ht
    | object | store | native | edge | next => rfl
  have hnames : (v.rootStrokes ++ strokes ++ v.companionStrokes).filterMap (name? t) = [] := by
    refine List.filterMap_eq_nil_iff.mpr fun x hx => hname x ?_
    rintro u text rfl
    rcases List.mem_append.mp hx with hx | hx
    · rcases List.mem_append.mp hx with hx | hx
      · exact ofRoots_roots v _ hx
      · exact h.said _ hx
    · cases ofCompanions_companions v _ hx
  rw [lookOf?, hnames, List.findSome?_append, findSome?_look?_eq_none hnew, Option.none_or]
  exact Option.map_id_apply ..

end Stroke

theorem HeapObject.describe_kind (sc : Scope) (o : HeapObject) :
    (o.describe sc).1 ≠ .synthetic ∧ (o.describe sc).1 ≠ .native := by
  unfold describe
  split <;> (try split) <;> exact ⟨nofun, nofun⟩

/-- Groups have synthetic nodes, and native objects and memory have native ones. -/
theorem Stroke.OfVisits.thing_of_kind {v : View} {inPlace : Prop} {strokes : List Stroke}
    (h : OfVisits v inPlace strokes) {sc : Scope} {x : Stroke}
    (hx : x ∈ v.rootStrokes ++ strokes ++ v.companionStrokes) {t : Thing} {l : Look}
    (hlook : x.look? sc t = some l) :
    (l.kind = .synthetic → ∃ label, t = .nativeGroup label) ∧
      (l.kind = .native → (∃ id, t = .native id) ∨ ∃ a, t = .backingStore a) := by
  cases x with
  | object a =>
    obtain ⟨-, hl⟩ := Option.ite_none_right_eq_some.mp hlook
    cases hl
    have hkind : ((sc.objectNode a .unknown).look).kind ≠ .synthetic ∧
        ((sc.objectNode a .unknown).look).kind ≠ .native := by
      unfold Scope.objectNode
      split
      · next o _ => exact o.describe_kind sc
      · exact ⟨nofun, nofun⟩
    exact ⟨fun hk => absurd hk hkind.1, fun hk => absurd hk hkind.2⟩
  | store memory =>
    obtain ⟨rfl, hl⟩ := Option.ite_none_right_eq_some.mp hlook
    cases hl
    exact ⟨nofun, fun _ => .inr ⟨_, rfl⟩⟩
  | native u n =>
    obtain ⟨rfl, hl⟩ := Option.ite_none_right_eq_some.mp hlook
    cases hl
    rcases List.mem_append.mp hx with hx | hx
    · rcases List.mem_append.mp hx with hx | hx
      · cases ofRoots_roots v _ hx
      · cases h.said _ hx
    · obtain ⟨c, -, ⟨rfl, rfl⟩ | ⟨rfl, rfl⟩⟩ := ofCompanions_companions v _ hx
      · exact ⟨fun _ => ⟨_, rfl⟩, nofun⟩
      · exact ⟨nofun, fun _ => .inl ⟨_, rfl⟩⟩
  | edge | next | name => cases hlook

namespace Draft

variable {sc : Scope} {S : BackingStore → Prop} {d d' : Draft}

/-- Nodes of native things bear the numbers of these. -/
def Signed (d : Draft) : Prop :=
  ∀ t i id, d.entries.find? t = some i → t.nativeId? = some id → d.graph.ids[i]? = some id

theorem signed_addNode (hd : d.Signed) {t : Thing} {n : Node}
    (ht : ∀ id, t.nativeId? = some id → n.id = id) (l : Ledger) :
    ({ d with ledger := l }.addNode t n).2.Signed := by
  intro u i id hu hid
  have hfind : (d.entries.insert t d.graph.nodeCount).find? u = some i := hu
  show (d.graph.pushNode n).ids[i]? = some id
  rw [Graph.ids_pushNode, Array.getElem?_push, Graph.size_ids]
  rw [Entries.find?_insert] at hfind
  split at hfind
  · next htu =>
    cases hfind
    rw [if_pos rfl, ht id (htu ▸ hid)]
  · have hold := hd u i id hfind hid
    have hlt := (Array.getElem?_eq_some_iff.mp hold).1
    rw [Graph.size_ids] at hlt
    rw [if_neg (Nat.ne_of_lt hlt)]
    exact hold

theorem Step.signed (h : Step sc S d d') (hd : d.Signed) : d'.Signed := by
  have hgraph : ∀ {g : Graph}, g.ids = d.graph.ids → Signed { d with graph := g } := by
    intro g hids t i id ht hid
    show g.ids[i]? = some id
    rw [hids]
    exact hd t i id ht hid
  cases h with
  | object =>
    rw [addObject_eq]
    exact signed_addNode hd (fun _ hid => by cases hid) _
  | store => exact signed_addNode hd (fun _ hid => by cases hid) _
  | @native t n ht hnew =>
    refine signed_addNode hd (fun id hid => ?_) d.ledger
    rw [ht] at hid
    exact Option.some.inj hid
  | edge => exact hgraph (Graph.ids_pushEdge ..)
  | intern => exact hgraph rfl
  | name => exact hgraph (Graph.ids_nameIfEmpty ..)

end Draft

/-! ## Graphs that show native objects -/

/-- The position of a thing's node: for a thing that has one, what `Capture.nodeFor?` gives. -/
def Capture.position (c : Capture) (v : View) (t : Thing) : NodeIndex :=
  (c.drawn v).draft.indexOf (.thing t)

/-- The edges that leave an object before native objects are drawn. -/
def Capture.ownEdges (c : Capture) (v : View) (a : Address) : List Edge :=
  (c.twiceRead v).draft.graph.edgesFrom (c.position v (.object a))

/-- The graph shows the native objects of a heap. Things have their nodes at `pos`, and objects have
the edges `own` besides. -/
structure Graph.ShowsNatives (h : Heap) (pos : Thing → NodeIndex) (own : Address → List Edge)
    (g : Graph) : Prop where
  /-- Each label of a group has a node. -/
  groupNode : ∀ label ∈ h.groupLabels, g.nodes[pos (.nativeGroup label)]?.map Node.face =
    some (Companion.groupId label, ⟨.synthetic, label, 0⟩)
  /-- Behind the nodes of roots, no others are synthetic. -/
  onlyGroups : ∀ i n, g.nodes[i]? = some n → withRoots.nodeCount ≤ i → n.kind = .synthetic →
    ∃ label ∈ h.groupLabels, pos (.nativeGroup label) = i
  /-- Each number has a node, which looks as the first native object with that number. -/
  nativeNode : ∀ c ∈ h.companions, ∃ first, h.companions.find? (·.id = c.id) = some first ∧
    g.nodes[pos (.native c.id)]?.map Node.face =
      some (c.id, ⟨.native, first.name, first.size.getD 0⟩)
  /-- No others are native but those of memory. -/
  onlyNatives : ∀ i n, g.nodes[i]? = some n → n.kind = .native →
    (∃ c ∈ h.companions, pos (.native c.id) = i) ∨ ∃ a, pos (.backingStore a) = i
  /-- The last children of the root are the groups, each once. -/
  root : ∃ before, g.children rootIndex = .ok (before ++
      (h.groupLabels.zipIdx (before.length + 1)).map fun l =>
        ⟨.element, .index l.2, rootIndex, pos (.nativeGroup l.1)⟩) ∧
    ∀ e ∈ before, ∀ label ∈ h.groupLabels, e.target ≠ pos (.nativeGroup label)
  /-- A group's children are its native objects, as often as they are listed. -/
  members : ∀ label ∈ h.groupLabels, g.children (pos (.nativeGroup label)) =
    .ok (((h.companions.filter (·.group = label)).zipIdx 1).map fun c =>
      ⟨.internal, .name (toString c.2), pos (.nativeGroup label), pos (.native c.1.id)⟩)
  /-- A native object's children are the wrappers that live. -/
  wrappers : ∀ c ∈ h.companions, g.children (pos (.native c.id)) =
    .ok ((((h.companions.filter (·.id = c.id)).flatMap
      fun k => k.wrappers.filter h.view.isLive).zipIdx 1).map fun w =>
        ⟨.element, .index w.2, pos (.native c.id), pos (.object w.1)⟩)
  /-- The last children of a wrapper are the native objects, one for each time that it wraps one. -/
  wrapped : ∀ a, h.view.isLive a = true → g.children (pos (.object a)) =
    .ok (own a ++ h.companions.flatMap fun c => List.replicate (c.wrappers.count a)
      ⟨.internal, .name "native", pos (.object a), pos (.native c.id)⟩)

namespace Capture

variable {c c' : Capture} {v : View} {h : Heap}

theorem signed_drawn (c : Capture) (v : View) : (c.drawn v).draft.Signed := by
  refine (grows_all fun o _ => c.handlers.owns_any v o).invariant
    (fun _ _ hstep => hstep.signed) fun t i id ht => ?_
  rw [Entries.find?_empty] at ht
  cases ht

/-- Native objects and groups have nodes if and only if they are listed. -/
theorem exists_nodeFor?_iff (c : Capture) {t : Thing}
    (ht : t.nativeId?.isSome = true) :
    (∃ i, c.nodeFor? h.view t = some i) ↔ h.view.Holds t := by
  obtain ⟨strokes, -, -, hsketch, -, hnative⟩ := exists_strokes c h.faithful
  have hholds : h.view.Holds t ↔ ∃ x ∈ h.view.companionStrokes, x.thing? = some t := by
    rw [View.exists_companionStroke_iff, and_iff_left ht]
  refine hsketch.mem_roll_iff.symm.trans ?_
  rw [hholds, Stroke.mem_roll]
  constructor
  · rintro ⟨x, hx, hthing⟩
    rcases List.mem_append.mp hx with hx | hx
    · rw [hnative t (Stroke.mem_roll.mpr ⟨x, hx, hthing⟩)] at ht
      cases ht
    · exact ⟨x, hx, hthing⟩
  · rintro ⟨x, hx, hthing⟩
    exact ⟨x, List.mem_append_right _ hx, hthing⟩

/-- Grouping edges leaves number and look of a node. -/
theorem face_run (hrun : c.run h.view = (.ok .completed, c')) (i : NodeIndex) :
    c'.graph.nodes[i]?.map Node.face = (c.drawn h.view).draft.graph.nodes[i]?.map Node.face := by
  obtain ⟨strokes, -, -, hsketch, -⟩ := exists_strokes c h.faithful
  have hnode : c'.graph.nodes[i]? = (c.drawn h.view).draft.graph.group.nodes[i]? := by
    rw [(run_completed hrun).1]
    rfl
  rw [hnode, hsketch.tallied.getElem?_nodes_group, Option.map_map]
  rfl

/-- A node of the finished graph was drawn, with its kind. -/
theorem exists_drawn (hrun : c.run h.view = (.ok .completed, c'))
    {i : NodeIndex} {n : Node} (hn : c'.graph.nodes[i]? = some n) :
    ∃ m, (c.drawn h.view).draft.graph.nodes[i]? = some m ∧ m.kind = n.kind := by
  have hface := face_run hrun i
  rw [hn, Option.map_some, eq_comm, Option.map_eq_some_iff] at hface
  obtain ⟨m, hm, hface⟩ := hface
  exact ⟨m, hm, congrArg (·.2.kind) hface⟩

theorem face_native (hrun : c.run h.view = (.ok .completed, c')) {t : Thing}
    {i : NodeIndex} {id : ObjectId} {l : Look} (ht : t.nativeId? = some id)
    (hi : c.nodeFor? h.view t = some i)
    (hlook : h.view.companionStrokes.findSome? (Stroke.look? (c.scope h.view) t) = some l) :
    c'.graph.nodes[i]?.map Node.face = some (id, l) := by
  obtain ⟨strokes, hvisits, -, hsketch, -, hnative⟩ := exists_strokes c h.faithful
  have hnew : t ∉ Stroke.roll (h.view.rootStrokes ++ strokes) := by
    intro hmem
    rw [hnative t hmem] at ht
    cases ht
  have hlooks := hsketch.look t i hi
  have hids := signed_drawn c h.view t i id hi ht
  rw [hvisits.lookOf?_native hnew (Option.isSome_of_eq_some ht), hlook, Option.map_eq_some_iff]
    at hlooks
  obtain ⟨n, hn, rfl⟩ := hlooks
  rw [Graph.ids, Array.getElem?_map, hn, Option.map_some, Option.some.injEq] at hids
  rw [face_run hrun, hn, Option.map_some, Node.face, hids]

/-- The nodes of roots are synthetic. -/
theorem kind_of_lt (hrun : c.run h.view = (.ok .completed, c'))
    {i : NodeIndex} {n : Node} (hn : c'.graph.nodes[i]? = some n)
    (hi : i < Graph.withRoots.nodeCount) : n.kind = .synthetic := by
  obtain ⟨strokes, -, -, hsketch, -⟩ := exists_strokes c h.faithful
  obtain ⟨m, hm, hkind⟩ := exists_drawn hrun hn
  have hlook := hsketch.synthetic i hi
  rw [hm, Option.map_some, eq_comm, Option.map_eq_some_iff] at hlook
  obtain ⟨r, hr, hlook⟩ := hlook
  have hroots : ∀ r ∈ Graph.syntheticNodes, r.kind = .synthetic := by decide
  calc
    n.kind = m.kind := hkind.symm
    _ = r.kind := (congrArg (·.kind) hlook).symm
    _ = .synthetic := hroots r (Array.mem_toList_iff.mpr (Array.mem_of_getElem? hr))

/-- Behind the synthetic nodes the kind of a node tells which things are native. -/
theorem thing_of_kind (hrun : c.run h.view = (.ok .completed, c'))
    {i : NodeIndex} {n : Node} (hn : c'.graph.nodes[i]? = some n)
    (hi : Graph.withRoots.nodeCount ≤ i) :
    ∃ t, c.nodeFor? h.view t = some i ∧ (n.kind = .synthetic → ∃ label, t = .nativeGroup label) ∧
      (n.kind = .native → (∃ id, t = .native id) ∨ ∃ a, t = .backingStore a) := by
  obtain ⟨strokes, hvisits, -, hsketch, -⟩ := exists_strokes c h.faithful
  obtain ⟨m, hm, hkind⟩ := exists_drawn hrun hn
  obtain ⟨j, rfl⟩ := Nat.exists_eq_add_of_le hi
  have hlt : j <
      (Stroke.roll (h.view.rootStrokes ++ strokes ++ h.view.companionStrokes)).length := by
    have hsize : _ < (c.drawn h.view).draft.graph.nodeCount := (Array.getElem?_eq_some_iff.mp hm).1
    rw [hsketch.nodeCount] at hsize
    exact Nat.lt_of_add_lt_add_left hsize
  have hentry := (hsketch.entries _ _).mpr ⟨j, List.getElem?_eq_getElem hlt, rfl⟩
  have hlook := hsketch.look _ _ hentry
  rw [hm, Option.map_some, eq_comm] at hlook
  obtain ⟨x, hx, first, hfirst, hfirstKind, -⟩ := Stroke.exists_look? hlook
  have hthing := hvisits.thing_of_kind hx hfirst
  rw [← hfirstKind] at hthing
  exact ⟨_, hentry, hkind ▸ hthing⟩

/-- Different places have different positions. -/
theorem place_inj {p q : Place} (hp : c.HasNode h.view p)
    (hq : c.HasNode h.view q)
    (heq : (c.drawn h.view).draft.indexOf p = (c.drawn h.view).draft.indexOf q) : p = q := by
  obtain ⟨strokes, -, -, hsketch, -⟩ := exists_strokes c h.faithful
  exact hsketch.indexOf_inj (hp.mono fun t => hsketch.mem_roll_iff.mpr)
    (hq.mono fun t => hsketch.mem_roll_iff.mpr) heq

/-- The place has a node before native objects are drawn. -/
abbrev HasEarlyNode (c : Capture) (v : View) (p : Place) : Prop :=
  p.Known fun t => t.nativeId? = none ∧ ∃ i, c.nodeFor? v t = some i

theorem HasEarlyNode.hasNode {p : Place} (hp : c.HasEarlyNode v p) : c.HasNode v p :=
  hp.mono fun _ ht => ht.2

theorem HasEarlyNode.ne_native {p : Place} (hp : c.HasEarlyNode v p) {t : Thing}
    (ht : t.nativeId?.isSome = true) : p ≠ .thing t := by
  rintro rfl
  rw [hp.1] at ht
  cases ht

/-- What handlers draw joins places that have nodes by then, and native objects are drawn behind
it. -/
theorem exists_links (hrun : c.run h.view = (.ok .completed, c')) :
    ∃ before : List Link,
      (∀ l ∈ before, c.HasEarlyNode h.view l.source ∧ c.HasEarlyNode h.view l.target) ∧
      (c.twiceRead h.view).draft.graph.edges.toList =
        before.map (·.toEdge (c.drawn h.view).draft.indexOf) ∧
      ∀ p, c.HasNode h.view p → c'.graph.children ((c.drawn h.view).draft.indexOf p) =
        .ok (((Stroke.links before h.view.companionStrokes).filter (·.source = p)).map
          (·.toEdge (c.drawn h.view).draft.indexOf)) := by
  obtain ⟨strokes, -, hbefore, hsketch, -, hnative⟩ := exists_strokes c h.faithful
  have hkeep : ∀ t i, (c.twiceRead h.view).draft.entries.find? t = some i →
      c.nodeFor? h.view t = some i := fun _ _ => (grows_drawn (S := Any)).find?
  have hearly : ∀ t ∈ Stroke.roll (h.view.rootStrokes ++ strokes),
      t.nativeId? = none ∧ ∃ i, c.nodeFor? h.view t = some i :=
    fun t ht => ⟨hnative t ht, (hbefore.mem_roll_iff.mp ht).imp fun i => hkeep t i⟩
  refine ⟨Stroke.links [] (h.view.rootStrokes ++ strokes), fun l hl => ?_,
    (hbefore.map_toEdge_eq hkeep).symm, fun p hp => ?_⟩
  · exact ⟨(hbefore.linked l hl).1.mono hearly, (hbefore.linked l hl).2.mono hearly⟩
  · rw [children_links hsketch hrun (hp.mono fun t => hsketch.mem_roll_iff.mpr),
      Stroke.links_append]

/-- The children of a node whose edges to native things all count. -/
theorem children_counted {before : List Link} {p : Place}
    (hchildren : c'.graph.children ((c.drawn h.view).draft.indexOf p) =
      .ok (((Stroke.links before h.view.companionStrokes).filter (·.source = p)).map
        (·.toEdge (c.drawn h.view).draft.indexOf)))
    (hobject : ∀ a, p ≠ .thing (.object a))
    (hcategory : ∀ category, p ≠ .fixed (Graph.categoryIndex category)) :
    c'.graph.children ((c.drawn h.view).draft.indexOf p) =
      .ok ((before.filter (·.source = p)).map (·.toEdge (c.drawn h.view).draft.indexOf) ++
        ((h.view.companionStrokes.filterMap (Stroke.endFrom? p)).zipIdx
          (before.countP (·.source = p) + 1)).map fun e => ⟨e.1.1, e.1.1.nextLabel e.2,
            (c.drawn h.view).draft.indexOf p, (c.drawn h.view).draft.indexOf e.1.2⟩) := by
  have hcounts : ∀ x ∈ h.view.companionStrokes, x.Counts (fun _ => True) p := fun x hx =>
    (Stroke.isLabelled_companions h.view x hx).counts hobject
      fun category heq => absurd heq (hcategory category)
  rw [hchildren, Stroke.filter_links_counted hcounts, List.map_append, List.map_map]
  rfl

theorem position_eq {t : Thing} {i : NodeIndex} (hi : c.nodeFor? v t = some i) :
    c.position v t = i :=
  Draft.indexOf_of_find? hi

theorem exists_group (c : Capture) {label : String}
    (hlabel : label ∈ h.groupLabels) :
    c.nodeFor? h.view (.nativeGroup label) = some (c.position h.view (.nativeGroup label)) := by
  obtain ⟨i, hi⟩ := (c.exists_nodeFor?_iff (t := .nativeGroup label) rfl).mpr
    (Heap.mem_groupLabels.mp hlabel)
  rw [position_eq hi, hi]

theorem exists_native (c : Capture) {k : Companion} (hk : k ∈ h.companions) :
    c.nodeFor? h.view (.native k.id) = some (c.position h.view (.native k.id)) := by
  obtain ⟨i, hi⟩ := (c.exists_nodeFor?_iff (t := .native k.id) rfl).mpr ⟨k, hk, rfl⟩
  rw [position_eq hi, hi]

theorem groupNode_run (hrun : c.run h.view = (.ok .completed, c'))
    {label : String} (hlabel : label ∈ h.groupLabels) :
    c'.graph.nodes[c.position h.view (.nativeGroup label)]?.map Node.face =
      some (Companion.groupId label, ⟨.synthetic, label, 0⟩) := by
  refine face_native hrun rfl (c.exists_group hlabel) ?_
  rw [Stroke.look_group]
  cases hfind : h.view.companions.find? (·.group = label) with
  | none =>
    obtain ⟨k, hk, hgroup⟩ := Heap.mem_groupLabels.mp hlabel
    exact absurd hgroup (by simpa using List.find?_eq_none.mp hfind k hk)
  | some k =>
    have hgroup : k.group = label := by simpa using List.find?_some hfind
    rw [Option.map_some, hgroup]
    rfl

theorem nativeNode_run (hrun : c.run h.view = (.ok .completed, c'))
    {k : Companion} (hk : k ∈ h.companions) :
    ∃ first, h.companions.find? (·.id = k.id) = some first ∧
      c'.graph.nodes[c.position h.view (.native k.id)]?.map Node.face =
        some (k.id, ⟨.native, first.name, first.size.getD 0⟩) := by
  cases hfind : h.companions.find? (·.id = k.id) with
  | none =>
    have hnot := List.find?_eq_none.mp hfind k hk
    simp at hnot
  | some first =>
    refine ⟨first, rfl, face_native hrun rfl (c.exists_native hk) ?_⟩
    rw [Stroke.look_native, show h.view.companions.find? (·.id = k.id) = some first from hfind]
    rfl

theorem onlyGroups_run (hrun : c.run h.view = (.ok .completed, c'))
    {i : NodeIndex} {n : Node} (hn : c'.graph.nodes[i]? = some n)
    (hi : Graph.withRoots.nodeCount ≤ i) (hkind : n.kind = .synthetic) :
    ∃ label ∈ h.groupLabels, c.position h.view (.nativeGroup label) = i := by
  obtain ⟨t, ht, hgroup, -⟩ := thing_of_kind hrun hn hi
  obtain ⟨label, rfl⟩ := hgroup hkind
  have hlisted := (c.exists_nodeFor?_iff (t := .nativeGroup label) rfl).mp ⟨i, ht⟩
  exact ⟨label, Heap.mem_groupLabels.mpr hlisted, position_eq ht⟩

theorem onlyNatives_run (hrun : c.run h.view = (.ok .completed, c'))
    {i : NodeIndex} {n : Node} (hn : c'.graph.nodes[i]? = some n) (hkind : n.kind = .native) :
    (∃ k ∈ h.companions, c.position h.view (.native k.id) = i) ∨
      ∃ a, c.position h.view (.backingStore a) = i := by
  have hi : Graph.withRoots.nodeCount ≤ i := by
    refine Nat.le_of_not_lt fun hlt => ?_
    have hsynthetic := kind_of_lt hrun hn hlt
    rw [hkind] at hsynthetic
    cases hsynthetic
  obtain ⟨t, ht, -, hnative⟩ := thing_of_kind hrun hn hi
  rcases hnative hkind with ⟨id, rfl⟩ | ⟨a, rfl⟩
  · obtain ⟨k, hk, rfl⟩ := (c.exists_nodeFor?_iff (t := .native id) rfl).mp ⟨i, ht⟩
    exact .inl ⟨k, hk, position_eq ht⟩
  · exact .inr ⟨a, position_eq ht⟩

/-- The children of native things are drawn by native objects alone. -/
theorem children_native (hrun : c.run h.view = (.ok .completed, c')) {t : Thing}
    (ht : t.nativeId?.isSome = true)
    (hentry : c.nodeFor? h.view t = some (c.position h.view t)) :
    c'.graph.children (c.position h.view t) =
      .ok (((h.view.companionStrokes.filterMap (Stroke.endFrom? (.thing t))).zipIdx 1).map fun e =>
        ⟨e.1.1, e.1.1.nextLabel e.2, c.position h.view t,
          (c.drawn h.view).draft.indexOf e.1.2⟩) := by
  obtain ⟨before, hearly, -, hchildren⟩ := exists_links hrun
  have hnone : before.filter (·.source = .thing t) = [] := by
    refine List.filter_eq_nil_iff.mpr fun l hl => ?_
    simpa using (hearly l hl).1.ne_native ht
  have hobject : ∀ a, Place.thing t ≠ .thing (.object a) := by
    rintro a heq
    rw [Place.thing.inj heq] at ht
    cases ht
  have hcounted := children_counted (hchildren (.thing t) ⟨_, hentry⟩) hobject nofun
  rw [List.countP_eq_length_filter, hnone] at hcounted
  exact hcounted

theorem members_run (hrun : c.run h.view = (.ok .completed, c'))
    {label : String} (hlabel : label ∈ h.groupLabels) :
    c'.graph.children (c.position h.view (.nativeGroup label)) =
      .ok (((h.companions.filter (·.group = label)).zipIdx 1).map fun k =>
        ⟨.internal, .name (toString k.2), c.position h.view (.nativeGroup label),
          c.position h.view (.native k.1.id)⟩) := by
  rw [children_native hrun rfl (c.exists_group hlabel),
    Stroke.ends_companions_group, List.zipIdx_map, List.map_map]
  rfl

theorem wrappers_run (hrun : c.run h.view = (.ok .completed, c'))
    {k : Companion} (hk : k ∈ h.companions) :
    c'.graph.children (c.position h.view (.native k.id)) =
      .ok ((((h.companions.filter (·.id = k.id)).flatMap
        fun l => l.wrappers.filter h.view.isLive).zipIdx 1).map fun w =>
          ⟨.element, .index w.2, c.position h.view (.native k.id),
            c.position h.view (.object w.1)⟩) := by
  rw [children_native hrun rfl (c.exists_native hk),
    Stroke.ends_companions_native, List.zipIdx_map, List.map_map]
  rfl

/-- The edges of an object before native objects are drawn. -/
theorem ownEdges_eq {before : List Link}
    (hearly : ∀ l ∈ before, c.HasEarlyNode h.view l.source ∧ c.HasEarlyNode h.view l.target)
    (hedges : (c.twiceRead h.view).draft.graph.edges.toList =
      before.map (·.toEdge (c.drawn h.view).draft.indexOf))
    {a : Address} (hlive : h.view.isLive a = true) :
    c.ownEdges h.view a = (before.filter (·.source = .thing (.object a))).map
      (·.toEdge (c.drawn h.view).draft.indexOf) := by
  rw [ownEdges, Graph.edgesFrom, hedges, List.filter_map]
  refine congrArg _ (List.filter_congr fun l hl => ?_)
  rw [Bool.eq_iff_iff, Function.comp_apply, beq_iff_eq, decide_eq_true_eq]
  exact ⟨place_inj (hearly l hl).1.hasNode ⟨_, nodeOf?_live c hlive⟩,
    fun heq => congrArg (c.drawn h.view).draft.indexOf heq⟩

theorem wrapped_run (hrun : c.run h.view = (.ok .completed, c'))
    {a : Address} (hlive : h.view.isLive a = true) :
    c'.graph.children (c.position h.view (.object a)) =
      .ok (c.ownEdges h.view a ++ h.companions.flatMap fun k => List.replicate (k.wrappers.count a)
        ⟨.internal, .name "native", c.position h.view (.object a),
          c.position h.view (.native k.id)⟩) := by
  obtain ⟨before, hearly, hedges, hchildren⟩ := exists_links hrun
  have hnext : ∀ kind target, .next kind (.thing (.object a)) target ∉ h.view.companionStrokes :=
    fun kind target hmem => h.view.not_mem_next a kind target (List.mem_append_right _ hmem)
  refine (hchildren (.thing (.object a)) ⟨_, nodeOf?_live c hlive⟩).trans ?_
  rw [Stroke.filter_links hnext, View.filter_companions hlive, List.map_append,
    ← ownEdges_eq hearly hedges hlive, View.nativeLinks, List.map_flatMap]
  simp only [List.map_replicate]
  rfl

/-- The root leads to the groups behind all else. -/
theorem root_run (hrun : c.run h.view = (.ok .completed, c')) :
    ∃ before, c'.graph.children Graph.rootIndex = .ok (before ++
        (h.groupLabels.zipIdx (before.length + 1)).map fun l =>
          ⟨.element, .index l.2, Graph.rootIndex, c.position h.view (.nativeGroup l.1)⟩) ∧
      ∀ e ∈ before, ∀ label ∈ h.groupLabels,
        e.target ≠ c.position h.view (.nativeGroup label) := by
  obtain ⟨before, hearly, -, hchildren⟩ := exists_links hrun
  have hroot : c.HasNode h.view (.fixed Graph.rootIndex) := show Graph.rootIndex < _ by decide
  have hcounted := children_counted (hchildren _ hroot) nofun Place.root_ne_category
  rw [Stroke.ends_companions, if_pos rfl, h.groupLabels_eq, List.zipIdx_map, List.map_map,
    List.countP_eq_length_filter] at hcounted
  refine ⟨(before.filter (·.source = .fixed Graph.rootIndex)).map
    (·.toEdge (c.drawn h.view).draft.indexOf), ?_, fun e he label hlabel htarget => ?_⟩
  · rw [List.length_map]
    exact hcounted
  · obtain ⟨l, hl, rfl⟩ := List.mem_map.mp he
    have htargetEarly := (hearly l (List.mem_of_mem_filter hl)).2
    exact htargetEarly.ne_native (t := .nativeGroup label) rfl
      (place_inj htargetEarly.hasNode ⟨_, c.exists_group hlabel⟩ htarget)

/-- No handler draws an edge to a native object. -/
theorem target_ownEdges (hrun : c.run h.view = (.ok .completed, c')) {a : Address} {e : Edge}
    (he : e ∈ c.ownEdges h.view a) {k : Companion} (hk : k ∈ h.companions) :
    e.target ≠ c.position h.view (.native k.id) := by
  obtain ⟨before, hearly, hedges, -⟩ := exists_links hrun
  have hedge := List.mem_of_mem_filter he
  rw [hedges] at hedge
  obtain ⟨l, hl, rfl⟩ := List.mem_map.mp hedge
  have htarget := (hearly l hl).2
  intro heq
  exact htarget.ne_native (t := .native k.id) rfl
    (place_inj htarget.hasNode ⟨_, c.exists_native hk⟩ heq)

/-- The graph of a completed capture shows the native objects of its heap: one synthetic node for
each label of a group and one native node for each number, with the name and the size of the first
native object that has it; edges from the root to the groups behind all others, from groups to their
native objects, from these to the wrappers that live, and back from each of these once for each time
that it wraps one. Handlers may add edges before those of the root and of wrappers, but none that
leads to a native object. -/
theorem showsNatives_run (hrun : c.run h.view = (.ok .completed, c')) :
    c'.graph.ShowsNatives h (c.position h.view) (c.ownEdges h.view) ∧
      ∀ a, ∀ e ∈ c.ownEdges h.view a, ∀ k ∈ h.companions,
        e.target ≠ c.position h.view (.native k.id) where
  left := {
    groupNode := fun _ hlabel => groupNode_run hrun hlabel
    onlyGroups := fun _ _ hn hi hkind => onlyGroups_run hrun hn hi hkind
    nativeNode := fun _ hk => nativeNode_run hrun hk
    onlyNatives := fun _ _ hn hkind => onlyNatives_run hrun hn hkind
    root := root_run hrun
    members := fun _ hlabel => members_run hrun hlabel
    wrappers := fun _ hk => wrappers_run hrun hk
    wrapped := fun _ hlive => wrapped_run hrun hlive }
  right _ _ he _ hk := target_ownEdges hrun he hk

/-- Two objects and three native objects in two groups. The first and the last have one number but
different sizes, and one of the first one's wrappers is dead. -/
def sharedNatives : Heap :=
  let objects := [{ address := ⟨16⟩, size := 8, tag := .heapNumber },
    { address := ⟨32⟩, size := 8, tag := .heapNumber }].foldl Heap.insert .empty
  { objects with
    companions := [
      { label := "A", group := "G", hash := 7, size := some 5, wrappers := [⟨16⟩, ⟨48⟩] },
      { label := "B", group := "H", hash := 8, wrappers := [⟨16⟩] },
      { label := "A", group := "G", hash := 7, size := some 9, wrappers := [⟨32⟩, ⟨16⟩] }] }

/-- The two share a node with the size of the first, which the group lists twice, and all their
wrappers that live. -/
theorem showsNatives_shared :
    let c' := (({} : Capture).run sharedNatives.view).2
    let pos := ({} : Capture).position sharedNatives.view
    ∃ first ∈ sharedNatives.companions,
      c'.graph.nodes[pos (.native first.id)]?.map Node.face =
        some (first.id, ⟨.native, "A", 5⟩) ∧
      (∃ before, c'.graph.children Graph.rootIndex = .ok (before ++
        [⟨.element, .index (before.length + 1), Graph.rootIndex, pos (.nativeGroup "G")⟩,
          ⟨.element, .index (before.length + 2), Graph.rootIndex, pos (.nativeGroup "H")⟩])) ∧
      c'.graph.children (pos (.nativeGroup "G")) =
        .ok [⟨.internal, .name "1", pos (.nativeGroup "G"), pos (.native first.id)⟩,
          ⟨.internal, .name "2", pos (.nativeGroup "G"), pos (.native first.id)⟩] ∧
      c'.graph.children (pos (.native first.id)) =
        .ok [⟨.element, .index 1, pos (.native first.id), pos (.object ⟨16⟩)⟩,
          ⟨.element, .index 2, pos (.native first.id), pos (.object ⟨32⟩)⟩,
          ⟨.element, .index 3, pos (.native first.id), pos (.object ⟨16⟩)⟩] := by
  have hcompleted : (({} : Capture).run sharedNatives.view).1 = .ok .completed := by
    decide +kernel
  obtain ⟨hshows, -⟩ := showsNatives_run (run_eq hcompleted)
  have hlabels : sharedNatives.groupLabels = ["G", "H"] := by decide +kernel
  obtain ⟨first, last, hmembers, hfirst, hname, hsize, hid, hlive⟩ : ∃ first last : Companion,
      sharedNatives.companions.filter (·.group = "G") = [first, last] ∧
      sharedNatives.companions.find? (·.id = first.id) = some first ∧
      first.name = "A" ∧ first.size = some 5 ∧ last.id = first.id ∧
      (sharedNatives.companions.filter (·.id = first.id)).flatMap
        (fun k => k.wrappers.filter sharedNatives.view.isLive) = [⟨16⟩, ⟨32⟩, ⟨16⟩] :=
    ⟨{ label := "A", group := "G", hash := 7, size := some 5, wrappers := [⟨16⟩, ⟨48⟩] },
      { label := "A", group := "G", hash := 7, size := some 9, wrappers := [⟨32⟩, ⟨16⟩] },
      by decide +kernel⟩
  have hmem := List.mem_of_find?_eq_some hfirst
  refine ⟨first, hmem, ?_, ?_, ?_, ?_⟩
  · obtain ⟨found, hfound, hnode⟩ := hshows.nativeNode first hmem
    rw [hfirst, Option.some.injEq] at hfound
    rw [hnode, ← hfound, hname, hsize]
    rfl
  · obtain ⟨before, hroot, -⟩ := hshows.root
    rw [hlabels] at hroot
    exact ⟨before, hroot⟩
  · have hgroup := hshows.members "G" (by rw [hlabels]; exact List.mem_cons_self)
    rw [hmembers] at hgroup
    refine hgroup.trans ?_
    simp only [List.zipIdx_cons, List.zipIdx_nil, List.map_cons, List.map_nil, hid]
    rfl
  · have hwrappers := hshows.wrappers first hmem
    rw [hlive] at hwrappers
    exact hwrappers

end Capture

end ManagedHeap
