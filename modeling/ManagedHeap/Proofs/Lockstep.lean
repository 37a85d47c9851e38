import ManagedHeap.Proofs.Completion
import ManagedHeap.Proofs.Following
import ManagedHeap.Proofs.Renaming

/-!
# Captures of heaps that differ in their addresses

Two surveys are alike under a change of addresses if they have drawn the same, but for the numbers
of the nodes, and know the same about corresponding addresses. Every function of a survey keeps
surveys alike; so captures of such heaps draw the same nodes and edges, `Capture.alike_drawn`.
-/
namespace ManagedHeap

/-! ## Graphs -/

/-- The node without its number. -/
def Node.unnumbered (n : Node) : Node := { n with id := .unknown }

/-- The graphs have the same edges, and the same nodes but for their numbers. -/
structure Graph.Alike (g g' : Graph) : Prop where
  nodes : g'.nodes.map Node.unnumbered = g.nodes.map Node.unnumbered
  edges : g'.edges = g.edges

namespace Graph.Alike

variable {g g' : Graph} (h : g.Alike g')

include h

theorem nodeCount : g'.nodeCount = g.nodeCount := by
  have hsize := congrArg Array.size h.nodes
  rwa [Array.size_map, Array.size_map] at hsize

theorem node (i : NodeIndex) :
    g'.nodes[i]?.map Node.unnumbered = g.nodes[i]?.map Node.unnumbered := by
  simpa using congrArg (·[i]?) h.nodes

/-- Whatever does not depend on the number is the same. -/
theorem map_node {α : Type} {k : Node → α} (hk : ∀ n, k n.unnumbered = k n) (i : NodeIndex) :
    g'.nodes[i]?.map k = g.nodes[i]?.map k := by
  have hcomp : k = k ∘ Node.unnumbered := funext fun n => (hk n).symm
  rw [hcomp, ← Option.map_map, ← Option.map_map, h.node i]

theorem intern (name : String) : (g.intern name).Alike (g'.intern name) := ⟨h.nodes, h.edges⟩

theorem pushNode {n n' : Node} (hn : n'.unnumbered = n.unnumbered) :
    (g.pushNode n).Alike (g'.pushNode n') := by
  refine ⟨?_, h.edges⟩
  rw [nodes_pushNode, nodes_pushNode, Array.map_push, Array.map_push, h.nodes, hn]

theorem modify (k : Node → Node) (hk : ∀ n, (k n).unnumbered = k n.unnumbered) (i : NodeIndex) :
    (g'.nodes.modify i k).map Node.unnumbered = (g.nodes.modify i k).map Node.unnumbered := by
  refine Array.ext_getElem? fun j => ?_
  simp only [Array.getElem?_map, Array.getElem?_modify]
  split
  · have hcomp : Node.unnumbered ∘ k = k ∘ Node.unnumbered := funext hk
    rw [Option.map_map, Option.map_map, hcomp, ← Option.map_map, ← Option.map_map, h.node j]
  · exact h.node j

theorem pushEdge (e : Edge) : (g.pushEdge e).Alike (g'.pushEdge e) :=
  ⟨h.modify (fun n => { n with childCount := n.childCount + 1 }) (fun _ => rfl) e.source,
    congrArg (·.push e) h.edges⟩

theorem nameIfEmpty (i : NodeIndex) (name : String) :
    (g.nameIfEmpty i name).Alike (g'.nameIfEmpty i name) := by
  have hname : g'.nodes[i]?.map (·.name) = g.nodes[i]?.map (·.name) := h.map_node (fun _ => rfl) i
  unfold Graph.nameIfEmpty
  cases hn : g.nodes[i]? with
  | none =>
    have hn' : g'.nodes[i]? = none := by simpa [hn] using hname
    rw [hn']
    exact h
  | some n =>
    obtain ⟨n', hn', hsame⟩ : ∃ n', g'.nodes[i]? = some n' ∧ n'.name = n.name := by
      simpa [hn] using hname
    rw [hn']
    dsimp only
    rw [hsame]
    split
    · exact ⟨h.modify (fun n => { n with name := name }) (fun _ => rfl) i, h.edges⟩
    · exact h

end Graph.Alike

/-! ## Drafts -/

theorem unnumbered_objectNode {f : Address → Address} {sc sc' : Scope} (hsc : sc.Renames f sc')
    (a : Address) (id id' : ObjectId) :
    (sc'.objectNode (f a) id').unnumbered = (sc.objectNode a id).unnumbered := by
  unfold Scope.objectNode
  rw [hsc.view.object?]
  cases sc.view.object? a with
  | none => rfl
  | some o =>
    simp only [Option.map_some, HeapObject.describe_rename hsc, hsc.view.traceNode]
    rfl

/-- The thing with its address replaced. Memory outside the heap and native objects stay. -/
def Thing.rename (f : Address → Address) : Thing → Thing
  | .object a => .object (f a)
  | t => t

theorem Thing.rename_injective {f : Address → Address} (hf : Function.Injective f) :
    Function.Injective (Thing.rename f) := by
  intro t u h
  cases t <;> cases u <;> simp_all [Thing.rename, hf.eq_iff]

/-- The graphs are alike, and corresponding things have the same nodes. -/
structure Draft.Alike (f : Address → Address) (d d' : Draft) : Prop where
  graph : d.graph.Alike d'.graph
  entries : ∀ t, d'.entries.find? (t.rename f) = d.entries.find? t

namespace Draft.Alike

variable {f : Address → Address} {d d' : Draft} {sc sc' : Scope}

theorem addNode (hf : Function.Injective f) (h : d.Alike f d') (t : Thing) {n n' : Node}
    (hn : n'.unnumbered = n.unnumbered) :
    (d'.addNode (t.rename f) n').1 = (d.addNode t n).1 ∧
      (d.addNode t n).2.Alike f (d'.addNode (t.rename f) n').2 := by
  have hcount := h.graph.nodeCount
  refine ⟨hcount, h.graph.pushNode hn, fun u => ?_⟩
  simp only [Draft.addNode, Entries.find?_insert, (Thing.rename_injective hf).eq_iff, hcount,
    h.entries]

theorem ledger (h : d.Alike f d') (l l' : Ledger) :
    Alike f { d with ledger := l } { d' with ledger := l' } :=
  ⟨h.graph, h.entries⟩

theorem addObject (hsc : sc.Renames f sc') (h : d.Alike f d') (a : Address) :
    (d'.addObject sc' (f a)).1 = (d.addObject sc a).1 ∧
      (d.addObject sc a).2.Alike f (d'.addObject sc' (f a)).2 := by
  rw [addObject_eq, addObject_eq]
  exact (h.ledger _ _).addNode hsc.view.injective (.object a) (unnumbered_objectNode hsc a _ _)

theorem ensure (h : d.Alike f d') (t : Thing) (add add' : Draft → NodeIndex × Draft)
    (hadd : (add' d').1 = (add d).1 ∧ (add d).2.Alike f (add' d').2) :
    (d'.ensure (t.rename f) add').1 = (d.ensure t add).1 ∧
      (d.ensure t add).2.Alike f (d'.ensure (t.rename f) add').2 := by
  unfold Draft.ensure
  rw [h.entries t]
  split
  · exact ⟨rfl, h⟩
  · exact hadd

theorem object? (hsc : sc.Renames f sc') (h : d.Alike f d') (a : Address) :
    (d'.object? sc' (f a)).1 = (d.object? sc a).1 ∧
      (d.object? sc a).2.Alike f (d'.object? sc' (f a)).2 := by
  unfold Draft.object?
  rw [hsc.view.isLive]
  split
  · have hensure := h.ensure (.object a) (·.addObject sc a) (·.addObject sc' (f a))
      (h.addObject hsc a)
    exact ⟨congrArg some hensure.1, hensure.2⟩
  · exact ⟨rfl, h⟩

theorem backingStore (hf : Function.Injective f) (h : d.Alike f d') (store : BackingStore) :
    (d'.backingStore store).1 = (d.backingStore store).1 ∧
      (d.backingStore store).2.Alike f (d'.backingStore store).2 :=
  h.ensure (.backingStore store.address) (·.addBackingStore store) (·.addBackingStore store)
    ((h.ledger _ _).addNode hf (.backingStore store.address) rfl)

section Edges

variable (h : d.Alike f d')

include h

theorem childCount (i : NodeIndex) : d'.childCount i = d.childCount i := by
  rw [Draft.childCount, Draft.childCount, h.graph.map_node fun _ => rfl]

theorem linkIndexed (kind : EdgeKind) (parent : NodeIndex) (index : Nat) (child : NodeIndex) :
    (d.linkIndexed kind parent index child).Alike f (d'.linkIndexed kind parent index child) :=
  ⟨h.graph.pushEdge _, h.entries⟩

theorem linkNamed (kind : EdgeKind) (parent : NodeIndex) (name : String) (child : NodeIndex) :
    (d.linkNamed kind parent name child).Alike f (d'.linkNamed kind parent name child) :=
  ⟨(h.graph.intern name).pushEdge _, h.entries⟩

theorem linkNextIndexed (kind : EdgeKind) (parent child : NodeIndex) :
    (d.linkNextIndexed kind parent child).Alike f (d'.linkNextIndexed kind parent child) := by
  rw [Draft.linkNextIndexed, Draft.linkNextIndexed, h.childCount]
  exact h.linkIndexed ..

theorem linkNextNamed (kind : EdgeKind) (parent child : NodeIndex) :
    (d.linkNextNamed kind parent child).Alike f (d'.linkNextNamed kind parent child) := by
  rw [Draft.linkNextNamed, Draft.linkNextNamed, h.childCount]
  exact h.linkNamed ..

theorem nameIfEmpty (i : NodeIndex) (name : String) :
    (d.nameIfEmpty i name).Alike f (d'.nameIfEmpty i name) :=
  ⟨h.graph.nameIfEmpty i name, h.entries⟩

theorem linkSynthetic : d.linkSynthetic.Alike f d'.linkSynthetic :=
  List.foldl_rel (h.linkNextIndexed ..) fun _ _ _ _ h => h.linkNextIndexed ..

theorem linkGroups (groups : List NodeIndex) :
    (d.linkGroups groups).Alike f (d'.linkGroups groups) :=
  List.foldl_rel h fun _ _ _ _ h => h.linkNextIndexed ..

theorem nameBuiltin (root : Root) (child : NodeIndex) :
    (d.nameBuiltin root child).Alike f (d'.nameBuiltin (root.redirect f) child) := by
  have hname : (root.redirect f).name = root.name := rfl
  have hcategory : (root.redirect f).category = root.category := rfl
  unfold Draft.nameBuiltin
  rw [hname, hcategory]
  split
  · split
    · exact h.nameIfEmpty ..
    · exact h
  · exact h

theorem linkRoot (r : RootRef) (child : NodeIndex) :
    (d.linkRoot r child).Alike f
      (d'.linkRoot { r with root := r.root.redirect f } child) := by
  have hname : (r.root.redirect f).name = r.root.name := rfl
  have hcategory : (r.root.redirect f).category = r.root.category := rfl
  unfold Draft.linkRoot
  rw [hname, hcategory]
  split
  · exact h.linkNextNamed ..
  · split
    · exact h.linkNextIndexed ..
    · split
      · exact h.linkNamed ..
      · exact h.linkNextIndexed ..

theorem linkWrapper (index : NodeIndex) (wrapper : Address) :
    (d.linkWrapper index wrapper).Alike f (d'.linkWrapper index (f wrapper)) := by
  unfold Draft.linkWrapper
  have hentry : d'.entries.find? (.object (f wrapper)) = d.entries.find? (.object wrapper) :=
    h.entries (.object wrapper)
  rw [hentry]
  split
  · exact (h.linkNamed ..).linkNextIndexed ..
  · exact h

end Edges

theorem nativeGroup (hf : Function.Injective f) (h : d.Alike f d') (label : String) :
    (d'.nativeGroup label).1 = (d.nativeGroup label).1 ∧
      (d'.nativeGroup label).2.1 = (d.nativeGroup label).2.1 ∧
      (d.nativeGroup label).2.2.Alike f (d'.nativeGroup label).2.2 := by
  have hentry : d'.entries.find? (.nativeGroup label) = d.entries.find? (.nativeGroup label) :=
    h.entries (.nativeGroup label)
  unfold Draft.nativeGroup
  rw [hentry]
  split
  · exact ⟨rfl, rfl, h⟩
  · exact ⟨h.graph.nodeCount, rfl, (h.addNode hf (.nativeGroup label) rfl).2⟩

theorem companion (hf : Function.Injective f) (h : d.Alike f d') (c : Companion) :
    (d'.companion (c.redirect f)).1 = (d.companion c).1 ∧
      (d.companion c).2.Alike f (d'.companion (c.redirect f)).2 :=
  h.ensure (.native c.id) _ _ (h.addNode hf (.native c.id) rfl)

theorem addCompanion (hf : Function.Injective f) (h : d.Alike f d') (c : Companion) :
    (d'.addCompanion (c.redirect f)).1 = (d.addCompanion c).1 ∧
      (d.addCompanion c).2.Alike f (d'.addCompanion (c.redirect f)).2 := by
  obtain ⟨hgroup, hnew, hdraft⟩ := h.nativeGroup hf c.group
  obtain ⟨hindex, hnode⟩ := hdraft.companion hf c
  refine ⟨?_, ?_⟩
  · show (if (d'.nativeGroup c.group).2.1 then some (d'.nativeGroup c.group).1 else none) = _
    rw [hgroup, hnew]
    rfl
  · show Alike f _ ((c.wrappers.map f).foldl
      (Draft.linkWrapper ((d'.nativeGroup c.group).2.2.companion (c.redirect f)).1)
      (((d'.nativeGroup c.group).2.2.companion (c.redirect f)).2.linkNextNamed .internal
        (d'.nativeGroup c.group).1 ((d'.nativeGroup c.group).2.2.companion (c.redirect f)).1))
    rw [hgroup, hindex, List.foldl_map]
    exact List.foldl_rel (hnode.linkNextNamed ..) fun wrapper _ _ _ h => h.linkWrapper _ wrapper

theorem addCompanions (hf : Function.Injective f) (groups : List NodeIndex) (cs : List Companion)
    {d d' : Draft} (h : d.Alike f d') :
    (d.addCompanions groups cs).Alike f (d'.addCompanions groups (cs.map (·.redirect f))) := by
  induction cs generalizing groups d d' with
  | nil => exact h.linkGroups groups
  | cons c cs ih =>
    obtain ⟨hgroup, hnext⟩ := h.addCompanion hf c
    simp only [List.map_cons, Draft.addCompanions, hgroup]
    exact ih _ hnext

end Draft.Alike

/-! ## Surveys -/

/-- The drafts are alike, and the same is known about corresponding addresses. -/
structure Survey.Alike (f : Address → Address) (s s' : Survey) : Prop where
  draft : s.draft.Alike f s'.draft
  containers : ∀ a, s'.containers[f a]? = s.containers[a]?
  globals : s'.globals = s.globals.map f
  marks : s'.marks = s.marks

namespace Survey.Alike

variable {f : Address → Address} {s s' : Survey} {sc sc' : Scope}

theorem withDraft (h : s.Alike f s') {d d' : Draft} (hd : d.Alike f d') :
    Alike f { s with draft := d } { s' with draft := d' } :=
  ⟨hd, h.containers, h.globals, h.marks⟩

theorem withMarks (h : s.Alike f s') {m m' : Marks} (hm : m' = m) :
    Alike f { s with marks := m } { s' with marks := m' } :=
  ⟨h.draft, h.containers, h.globals, hm⟩

theorem markIf (h : s.Alike f s') (slot : Option Nat) :
    (s.markIf slot).Alike f (s'.markIf slot) := by
  cases slot with
  | none => exact h
  | some slot => exact h.withMarks (congrArg (·.mark slot) h.marks)

theorem refuse (h : s.Alike f s') (x : Fault) : (s.refuse x).Alike f (s'.refuse x) :=
  ⟨h.draft, h.containers, h.globals, h.marks⟩

/-- The graphs have as many nodes, so an edge is refused in both or in none. -/
theorem link (h : s.Alike f s') (parent child : NodeIndex) {draw : Draft → Draft}
    (hdraw : (draw s.draft).Alike f (draw s'.draft)) :
    (s.link parent child draw).Alike f (s'.link parent child draw) := by
  have hsize : s'.graph.nodes.size = s.graph.nodes.size := h.draft.graph.nodeCount
  have hends : s'.graph.missingEnd? parent child = s.graph.missingEnd? parent child := by
    unfold Graph.missingEnd?
    rw [hsize]
  unfold Survey.link
  rw [hends]
  cases s.graph.missingEnd? parent child with
  | some x => exact h.refuse (.graph x)
  | none => exact h.withDraft hdraw

theorem linkNamed (h : s.Alike f s') (kind : EdgeKind) (parent : NodeIndex) (name : String)
    (child : NodeIndex) :
    (s.linkNamed kind parent name child).Alike f (s'.linkNamed kind parent name child) :=
  h.link parent child (h.draft.linkNamed ..)

theorem linkIndexed (h : s.Alike f s') (kind : EdgeKind) (parent : NodeIndex) (index : Nat)
    (child : NodeIndex) :
    (s.linkIndexed kind parent index child).Alike f (s'.linkIndexed kind parent index child) :=
  h.link parent child (h.draft.linkIndexed ..)

theorem linkHidden (h : s.Alike f s') (parent : NodeIndex) (slot : Nat) (child : NodeIndex) :
    (s.linkHidden parent slot child).Alike f (s'.linkHidden parent slot child) := by
  unfold Survey.linkHidden
  split
  · exact h.linkIndexed ..
  · exact h.refuse _

theorem object? (hsc : sc.Renames f sc') (h : s.Alike f s') (a : Address) :
    ∃ i t t', s.object? sc a = (i, t) ∧ s'.object? sc' (f a) = (i, t') ∧ t.Alike f t' := by
  obtain ⟨hindex, hdraft⟩ := h.draft.object? hsc a
  exact ⟨_, _, _, rfl, Prod.ext hindex rfl, h.withDraft hdraft⟩

theorem withTarget (hsc : sc.Renames f sc') (h : s.Alike f s') (value : Value)
    {next next' : Address → NodeIndex → Survey → Survey}
    (hnext : ∀ a i s s', Alike f s s' → (next a i s).Alike f (next' (f a) i s')) :
    (s.withTarget sc value next).Alike f (s'.withTarget sc' (value.redirect f) next') := by
  cases value with
  | small n => exact h
  | ref a =>
    obtain ⟨i, t, t', hs, hs', halike⟩ := h.object? hsc a
    simp only [Survey.withTarget, Value.redirect, hs, hs']
    cases i with
    | none => exact halike
    | some i => exact hnext a i t t' halike

theorem linkEssential (hsc : sc.Renames f sc') (h : s.Alike f s') (kind : EdgeKind)
    (parent : NodeIndex) (name : String) (value : Value) (slot : Option Nat) :
    (s.linkEssential sc kind parent name value slot).Alike f
      (s'.linkEssential sc' kind parent name (value.redirect f) slot) := by
  refine h.withTarget hsc value fun a i s s' h => ?_
  rw [hsc.view.isEssential]
  refine markIf ?_ slot
  split
  · exact h.linkNamed ..
  · exact h

theorem emit (hsc : sc.Renames f sc') (h : s.Alike f s') (parent : NodeIndex) (e : Emission) :
    (s.emit sc parent e).Alike f (s'.emit sc' parent (e.redirect f)) := by
  cases e with
  | internal name value slot => exact h.linkEssential hsc ..
  | weak name value slot => exact h.linkEssential hsc ..
  | context name value slot =>
    exact h.withTarget hsc value fun a i s s' h => (h.linkNamed ..).markIf (some slot)
  | property key value lead slot =>
    exact h.withTarget hsc value fun a i s s' h => (h.linkNamed ..).markIf slot
  | element index value slot =>
    exact h.withTarget hsc value fun a i s s' h => (h.linkIndexed ..).markIf slot
  | shortcut name value => exact h.withTarget hsc value fun a i s s' h => h.linkNamed ..
  | backingStore name store =>
    obtain ⟨hchild, hdraft⟩ := h.draft.backingStore hsc.view.injective store
    show Alike f _ (Survey.linkNamed { s' with draft := (s'.draft.backingStore store).2 } .internal
      parent name (s'.draft.backingStore store).1)
    rw [hchild]
    exact (h.withDraft hdraft).linkNamed ..
  | node name target => exact h.linkNamed ..
  | tag value name =>
    cases value with
    | small n => exact h
    | ref a =>
      simp only [Survey.emit, Emission.redirect, Value.redirect, hsc.view.isEssential]
      split
      · exact h.withTarget hsc (.ref a) fun a i s s' h => h.withDraft (h.draft.nameIfEmpty i name)
      · exact h
  | container value kind =>
    cases value with
    | small n => exact h
    | ref a =>
      simp only [Survey.emit, Emission.redirect, Value.redirect, hsc.view.object?]
      cases sc.view.object? a with
      | none => exact h
      | some o =>
        simp only [Option.map_some, HeapObject.tag_rename]
        split
        · refine ⟨h.draft, fun b => ?_, h.globals, h.marks⟩
          simp only [Std.TreeMap.getElem?_insert, Std.LawfulEqOrd.compare_eq_iff_eq,
            hsc.view.injective.eq_iff, h.containers]
        · exact h
  | silence slot => exact h.markIf (some slot)

theorem follow (hsc : sc.Renames f sc') (parent : NodeIndex) (es : List Emission)
    {s s' : Survey} (h : s.Alike f s') :
    (Survey.follow sc (.ofList parent es) s).Alike f
      (Survey.follow sc' (.ofList parent (es.map (Emission.redirect f))) s') := by
  induction es generalizing s s' with
  | nil => exact h
  | cons e es ih => exact ih (h.emit hsc parent e)

theorem hide (hsc : sc.Renames f sc') (parent : NodeIndex) (slot : Nat) (values : List Value)
    {s s' : Survey} (h : s.Alike f s') :
    (Survey.hide sc parent slot values s).Alike f
      (Survey.hide sc' parent slot (values.map (·.redirect f)) s') := by
  induction values generalizing slot s s' with
  | nil => exact h
  | cons value values ih =>
    simp only [List.map_cons, Survey.hide, h.marks]
    refine ih _ ?_
    have hmarks : Alike f { s with marks := (s.marks.take slot).2 }
        { s' with marks := (s.marks.take slot).2 } := h.withMarks rfl
    split
    · exact hmarks
    · refine hmarks.withTarget hsc value fun a i s s' h => ?_
      rw [hsc.view.isEssential]
      split
      · exact h.linkHidden ..
      · exact h

theorem linkShape (hsc : sc.Renames f sc') (h : s.Alike f s') (o : HeapObject)
    (parent : NodeIndex) :
    (s.linkShape sc o parent).Alike f (s'.linkShape sc' (o.rename f) parent) := by
  unfold Survey.linkShape
  rw [HeapObject.shape_rename]
  cases o.shape with
  | none => exact h
  | some shape => exact h.linkEssential hsc .internal parent "map" (.ref shape) none

theorem read (hsc : sc.Renames f sc') (h : s.Alike f s') (o : HeapObject) (parent : NodeIndex) :
    (s.read sc .builtin o parent).Alike f (s'.read sc' .builtin (o.rename f) parent) := by
  have hrecite : (s.recite sc .builtin o parent).Alike f
      (s'.recite sc' .builtin (o.rename f) parent) := by
    rw [recite_builtin, recite_builtin, HeapObject.address_rename, h.containers,
      HeapObject.emissions_rename hsc.view]
    refine follow hsc parent _ (h.withMarks ?_)
    rw [HeapObject.slots_rename, List.length_map]
  rw [read_eq, read_eq]
  exact hide hsc parent 0 o.slots (hrecite.linkShape hsc o parent)

theorem visit (hsc : sc.Renames f sc') (h : s.Alike f s') (pass : Pass) (o : HeapObject) :
    (s.visit sc .builtin pass o).Alike f (s'.visit sc' .builtin pass (o.rename f)) := by
  obtain ⟨i, t, t', hs, hs', halike⟩ := h.object? hsc o.address
  unfold Survey.visit
  rw [HeapObject.address_rename, HeapObject.tag_rename, hs, hs']
  cases i with
  | none => exact halike
  | some i =>
    dsimp only
    split
    · exact halike.read hsc o i
    · exact halike

theorem visitAll (hsc : sc.Renames f sc') (h : s.Alike f s') (pass : Pass)
    (os : List HeapObject) :
    (s.visitAll sc .builtin pass os).Alike f
      (s'.visitAll sc' .builtin pass (os.map (·.rename f))) := by
  rw [Survey.visitAll, Survey.visitAll, List.foldl_map]
  exact List.foldl_rel h fun o _ _ _ h => h.visit hsc pass o

theorem linkGlobal (hsc : sc.Renames f sc') (h : s.Alike f s') (global : Address) :
    (s.linkGlobal sc global).Alike f (s'.linkGlobal sc' (f global)) := by
  have hcontains : s'.globals.contains (f global) = s.globals.contains global := by
    rw [h.globals, Bool.eq_iff_iff]
    simp [hsc.view.injective.eq_iff]
  unfold Survey.linkGlobal
  rw [hcontains]
  split
  · exact h
  · have hglobals : Alike f { s with globals := global :: s.globals }
        { s' with globals := f global :: s'.globals } :=
      ⟨h.draft, h.containers, by simp [h.globals], h.marks⟩
    obtain ⟨i, t, t', hs, hs', halike⟩ := hglobals.object? hsc global
    rw [hs, hs']
    cases i with
    | none => exact halike
    | some i => exact halike.withDraft (halike.draft.linkNextNamed ..)

theorem addRoot (hsc : sc.Renames f sc') (h : s.Alike f s') (r : RootRef) :
    (s.addRoot sc r).Alike f (s'.addRoot sc' { r with root := r.root.redirect f }) := by
  have htarget : (r.root.redirect f).target = f r.root.target := rfl
  obtain ⟨i, t, t', hs, hs', halike⟩ := h.object? hsc r.root.target
  unfold Survey.addRoot
  rw [htarget, hsc.view.globalOf?, hs, hs']
  cases i with
  | none => exact halike
  | some i =>
    have hlinked := halike.withDraft ((halike.draft.nameBuiltin r.root i).linkRoot r i)
    dsimp only
    split
    · exact hlinked
    · cases sc.view.globalOf? r.root.target with
      | none => exact hlinked
      | some global => exact hlinked.linkGlobal hsc global

theorem addRoots (hsc : sc.Renames f sc') (h : s.Alike f s') :
    (s.addRoots sc).Alike f (s'.addRoots sc') := by
  rw [Survey.addRoots, Survey.addRoots, hsc.view.allRoots, hsc.view.strongRoots,
    classifyRoots_redirect hsc.view.injective, List.foldl_map]
  exact List.foldl_rel (h.withDraft h.draft.linkSynthetic) fun r _ _ _ h => h.addRoot hsc r

end Survey.Alike

/-! ## Captures -/

namespace Capture

variable {f : Address → Address} {v v' : View} {c c' : Capture}

theorem renames_scope (hv : v.Renames f v') (hresolver : c.resolver = none)
    (hresolver' : c'.resolver = none)
    (hlength : c'.settings.maxNameLength = c.settings.maxNameLength) :
    (c.scope v).Renames f (c'.scope v') where
  view := hv
  globalTag? a := by simp [scope, hresolver, hresolver']
  maxNameLength := hlength

/-- Captures with the built-in handlers draw the same of heaps that differ in their addresses. -/
theorem alike_drawn (hv : v.Renames f v') (hhandlers : c.handlers = .builtin)
    (hhandlers' : c'.handlers = .builtin) (hresolver : c.resolver = none)
    (hresolver' : c'.resolver = none)
    (hlength : c'.settings.maxNameLength = c.settings.maxNameLength) :
    (c.drawn v).draft.Alike f (c'.drawn v').draft := by
  have hsc := renames_scope hv hresolver hresolver' hlength
  have hblank : Survey.Alike f { draft := { ledger := c.ledger } }
      { draft := { ledger := c'.ledger } } :=
    ⟨⟨⟨rfl, rfl⟩, fun t => by simp⟩, fun a => by simp, rfl, rfl⟩
  have hrooted : (c.rooted v).Alike f (c'.rooted v') := hblank.addRoots hsc
  have honce : (c.onceRead v).Alike f (c'.onceRead v') := by
    rw [onceRead, onceRead, hhandlers, hhandlers', hv.live]
    exact hrooted.visitAll hsc .first v.live
  have htwice : (c.twiceRead v).Alike f (c'.twiceRead v') := by
    rw [twiceRead, twiceRead, hhandlers, hhandlers', hv.live]
    exact honce.visitAll hsc .second v.live
  show (Draft.addCompanions [] v.companions (c.twiceRead v).draft).Alike f
    (Draft.addCompanions [] v'.companions (c'.twiceRead v').draft)
  rw [hv.companions]
  exact htwice.draft.addCompanions hv.injective [] v.companions

end Capture

end ManagedHeap
