import Mathlib.Data.List.Basic
import ManagedHeap.Proofs.Containers

/-!
# A capture as a list of strokes

What a capture with the built-in handlers does to its draft can be written down without looking at
the draft: a list of strokes, each of which gives a thing its node, draws one edge or names a node.
The strokes of an object depend on the object and on what owners said about it, those of roots and
native objects on the lists in which they are reported. A capture draws just these strokes,
`Capture.draft_twiceRead` and `Draft.addCompanions_eq`.
-/
namespace ManagedHeap

/-- An end of an edge. -/
inductive Place where
  /-- A node at a known position, such as a synthetic one. -/
  | fixed (index : NodeIndex)
  | thing (t : Thing)
  deriving DecidableEq, Repr

/-- One stroke of a drawing. -/
inductive Stroke where
  /-- The node of the object at an address, unless it has one. -/
  | object (a : Address)
  /-- The node of memory outside the heap, unless it has one. -/
  | store (store : BackingStore)
  /-- The node of something native, unless it has one. -/
  | native (t : Thing) (n : Node)
  | edge (kind : EdgeKind) (label : Label) (source target : Place)
  /-- An edge labelled with its position among those of its source. -/
  | next (kind : EdgeKind) (source target : Place)
  /-- A name for a thing that has none. -/
  | name (t : Thing) (text : String)
  deriving DecidableEq, Repr

/-- The label of an edge that bears a position. -/
def EdgeKind.nextLabel (kind : EdgeKind) (position : Nat) : Label :=
  if kind.isIndexed then .index position else .name (toString position)

/-! ## Drawing -/

namespace Draft

/-- The position of a place. -/
def indexOf (d : Draft) : Place → NodeIndex
  | .fixed index => index
  | .thing t => (d.entries.find? t).getD 0

def link (d : Draft) (kind : EdgeKind) (label : Label) (parent child : NodeIndex) : Draft :=
  match label with
  | .name text => d.linkNamed kind parent text child
  | .index n => d.linkIndexed kind parent n child

/-- Draw one stroke. -/
def draw (sc : Scope) (d : Draft) : Stroke → Draft
  | .object a => (d.ensure (.object a) (·.addObject sc a)).2
  | .store store => (d.backingStore store).2
  | .native t n => (d.ensure t (·.addNode t n)).2
  | .edge kind label source target => d.link kind label (d.indexOf source) (d.indexOf target)
  | .next kind source target =>
    d.link kind (kind.nextLabel (d.childCount (d.indexOf source) + 1)) (d.indexOf source)
      (d.indexOf target)
  | .name t text => d.nameIfEmpty (d.indexOf (.thing t)) text

/-- Draw strokes one after the other. -/
def drawAll (sc : Scope) (strokes : List Stroke) (d : Draft) : Draft := strokes.foldl (draw sc) d

variable {sc : Scope} {d : Draft} {t : Thing} {i : NodeIndex}

@[simp] theorem drawAll_nil : drawAll sc [] d = d := rfl

@[simp] theorem drawAll_cons (x : Stroke) (strokes : List Stroke) :
    drawAll sc (x :: strokes) d = drawAll sc strokes (d.draw sc x) := rfl

@[simp] theorem drawAll_append (strokes strokes' : List Stroke) :
    drawAll sc (strokes ++ strokes') d = drawAll sc strokes' (drawAll sc strokes d) :=
  List.foldl_append

@[simp] theorem entries_link (kind : EdgeKind) (label : Label) (parent child : NodeIndex) :
    (d.link kind label parent child).entries = d.entries := by
  cases label <;> rfl

theorem draw_edge (kind : EdgeKind) (label : Label) (source target : Place) :
    d.draw sc (.edge kind label source target) =
      d.link kind label (d.indexOf source) (d.indexOf target) := rfl

@[simp] theorem entries_draw_edge (kind : EdgeKind) (label : Label) (source target : Place) :
    (d.draw sc (.edge kind label source target)).entries = d.entries :=
  entries_link ..

@[simp] theorem entries_draw_next (kind : EdgeKind) (source target : Place) :
    (d.draw sc (.next kind source target)).entries = d.entries :=
  entries_link ..

theorem find?_ensure {u : Thing} {add : Draft → NodeIndex × Draft}
    (hadd : ∀ d : Draft, d.entries.find? u = none → d.entries.find? t = some i →
      (add d).2.entries.find? t = some i) (ht : d.entries.find? t = some i) :
    (d.ensure u add).2.entries.find? t = some i := by
  unfold ensure
  split
  · exact ht
  · next hnew => exact hadd d hnew ht

theorem find?_addNode {u : Thing} (n : Node) (hnew : d.entries.find? u = none)
    (ht : d.entries.find? t = some i) : (d.addNode u n).2.entries.find? t = some i := by
  have hne : u ≠ t := by rintro rfl; rw [hnew] at ht; cases ht
  show (d.entries.insert u _).find? t = some i
  rw [Entries.find?_insert, if_neg hne]
  exact ht

/-- Things keep their nodes. -/
theorem find?_draw (x : Stroke) (ht : d.entries.find? t = some i) :
    (d.draw sc x).entries.find? t = some i := by
  cases x with
  | object a =>
    refine find?_ensure (fun d hnew ht => ?_) ht
    rw [addObject_eq]
    exact find?_addNode _ hnew ht
  | store store => exact find?_ensure (fun d hnew ht => find?_addNode _ hnew ht) ht
  | native u n => exact find?_ensure (fun d hnew ht => find?_addNode n hnew ht) ht
  | edge => rw [entries_draw_edge]; exact ht
  | next => rw [entries_draw_next]; exact ht
  | name => exact ht

theorem find?_drawAll (strokes : List Stroke) (ht : d.entries.find? t = some i) :
    (drawAll sc strokes d).entries.find? t = some i := by
  induction strokes generalizing d with
  | nil => exact ht
  | cons x strokes ih => exact ih (find?_draw x ht)

theorem indexOf_of_find? (ht : d.entries.find? t = some i) : d.indexOf (.thing t) = i := by
  rw [indexOf, ht]
  rfl

theorem find?_ensure_self {add : Draft → NodeIndex × Draft}
    (hadd : ∀ d : Draft, (add d).2.entries.find? t = some (add d).1) :
    (d.ensure t add).2.entries.find? t = some (d.ensure t add).1 := by
  unfold ensure
  split
  · next i hi => exact hi
  · exact hadd d

theorem find?_addNode_self (n : Node) :
    (d.addNode t n).2.entries.find? t = some (d.addNode t n).1 := by
  show (d.entries.insert t _).find? t = _
  rw [Entries.find?_insert, if_pos rfl]
  rfl

/-- An object that is drawn has a node. -/
theorem find?_draw_object (sc : Scope) (d : Draft) (a : Address) :
    (d.draw sc (.object a)).entries.find? (.object a) =
      some (d.ensure (.object a) (·.addObject sc a)).1 := by
  refine find?_ensure_self fun d => ?_
  rw [addObject_eq]
  exact find?_addNode_self _

theorem find?_draw_store (sc : Scope) (d : Draft) (store : BackingStore) :
    (d.draw sc (.store store)).entries.find? (.backingStore store.address) =
      some (d.backingStore store).1 :=
  find?_ensure_self fun _ => find?_addNode_self _

theorem find?_draw_native (sc : Scope) (d : Draft) (t : Thing) (n : Node) :
    (d.draw sc (.native t n)).entries.find? t = some (d.ensure t (·.addNode t n)).1 :=
  find?_ensure_self fun _ => find?_addNode_self _

/-- A live object gets its node. -/
theorem object?_eq_draw {a : Address} (hlive : sc.view.isLive a = true) (d : Draft) :
    d.object? sc a =
      (some ((d.draw sc (.object a)).indexOf (.thing (.object a))), d.draw sc (.object a)) := by
  rw [indexOf_of_find? (find?_draw_object sc d a), object?, if_pos hlive]
  rfl

@[simp] theorem nodeCount_link (kind : EdgeKind) (label : Label) (parent child : NodeIndex) :
    (d.link kind label parent child).graph.nodeCount = d.graph.nodeCount := by
  cases label
  · exact Graph.nodeCount_pushEdge (d.graph.intern _) _
  · exact Graph.nodeCount_pushEdge d.graph _

theorem distinct_ensure {add : Draft → NodeIndex × Draft}
    (hadd : ∀ d : Draft, d.Distinct → (add d).2.Distinct) (hd : d.Distinct) :
    (d.ensure t add).2.Distinct := by
  unfold ensure
  split
  · exact hd
  · exact hadd d hd

/-- Whatever is drawn, every thing has a node of its own. -/
theorem distinct_draw (x : Stroke) (hd : d.Distinct) : (d.draw sc x).Distinct := by
  cases x with
  | object a => exact distinct_ensure (fun d hd => distinct_addObject hd sc a) hd
  | store store => exact distinct_ensure (fun d hd => distinct_addBackingStore hd store) hd
  | native u n => exact distinct_ensure (fun d hd => distinct_addNode hd u n) hd
  | edge | next => exact hd.of_eq (entries_link ..) (nodeCount_link ..)
  | name => exact hd.of_eq rfl (Graph.nodeCount_nameIfEmpty ..)

/-- A thing has the node at a position, and no other thing has. -/
structure Stands (d : Draft) (t : Thing) (i : NodeIndex) : Prop where
  find? : d.entries.find? t = some i
  distinct : d.Distinct

namespace Stands

theorem lt (h : d.Stands t i) : i < d.graph.nodeCount := h.distinct.lt t i h.find?

theorem indexOf (h : d.Stands t i) : d.indexOf (.thing t) = i := indexOf_of_find? h.find?

theorem draw (h : d.Stands t i) (x : Stroke) : (d.draw sc x).Stands t i :=
  ⟨find?_draw x h.find?, distinct_draw x h.distinct⟩

theorem drawAll (h : d.Stands t i) (strokes : List Stroke) :
    (Draft.drawAll sc strokes d).Stands t i := by
  induction strokes generalizing d with
  | nil => exact h
  | cons x strokes ih => exact ih (h.draw x)

end Stands

theorem stands_draw_object (sc : Scope) (hd : d.Distinct) (a : Address) :
    (d.draw sc (.object a)).Stands (.object a)
      ((d.draw sc (.object a)).indexOf (.thing (.object a))) := by
  have hfind := find?_draw_object sc d a
  rw [indexOf_of_find? hfind]
  exact ⟨hfind, distinct_draw _ hd⟩

theorem stands_draw_store (sc : Scope) (hd : d.Distinct) (store : BackingStore) :
    (d.draw sc (.store store)).Stands (.backingStore store.address) (d.backingStore store).1 :=
  ⟨find?_draw_store sc d store, distinct_draw (.store store) hd⟩

end Draft

/-! ## The strokes of an object -/

/-- Strokes about the object that a value refers to, if that one is live. -/
def Value.strokes (v : View) (about : Address → List Stroke) : Value → List Stroke
  | .small _ => []
  | .ref a => if v.isLive a then .object a :: about a else []

/-- An edge to the object at an address. -/
def Stroke.toObject (kind : EdgeKind) (label : Label) (source : Place) (a : Address) : Stroke :=
  .edge kind label source (.thing (.object a))

/-- The strokes that an emission asks for. There are none for an edge to a position: the built-in
handlers know nodes by their things alone. -/
def Emission.strokes (v : View) (source : Place) : Emission → List Stroke
  | .internal name value _ =>
    value.strokes v fun a =>
      if v.isEssential a then [.toObject .internal (.name name) source a] else []
  | .weak name value _ =>
    value.strokes v fun a =>
      if v.isEssential a then [.toObject .weak (.name name) source a] else []
  | .context name value _ => value.strokes v fun a => [.toObject .context (.name name) source a]
  | .property key value lead _ =>
    value.strokes v fun a =>
      [.toObject (Survey.propertyKind key) (.name (Survey.propertyName key lead)) source a]
  | .element index value _ => value.strokes v fun a => [.toObject .element (.index index) source a]
  | .shortcut name value => value.strokes v fun a => [.toObject .shortcut (.name name) source a]
  | .backingStore name store =>
    [.store store, .edge .internal (.name name) source (.thing (.backingStore store.address))]
  | .tag (.ref a) name => if v.isEssential a then [.object a, .name (.object a) name] else []
  | .node _ _ | .tag (.small _) _ | .container _ _ | .silence _ => []

/-- The strokes for a slot: none if it is explained, otherwise a hidden edge. -/
def hiddenStrokes (v : View) (source : Place) (isExplained : Nat → Bool) :
    Value × Nat → List Stroke
  | (value, slot) =>
    if isExplained slot then []
    else value.strokes v fun a =>
      if v.isEssential a then
        (Survey.hiddenLabel? slot).toList.map fun n => .toObject .hidden (.index n) source a
      else []

namespace HeapObject

/-- Whether the built-in handlers explain a slot. -/
def isExplained (v : View) (o : HeapObject) (kind : Option ContainerKind) (slot : Nat) : Bool :=
  decide (slot < o.slots.length) &&
    decide (slot ∈ (o.emissions v kind).filterMap (·.mark? v))

/-- The place of the object's node. -/
def place (o : HeapObject) : Place := .thing (.object o.address)

/-- The strokes of an object that is read, given what owners said about it. -/
def strokes (v : View) (o : HeapObject) (kind : Option ContainerKind) : List Stroke :=
  (o.emissions v kind).flatMap (·.strokes v o.place) ++
    o.shape.toList.flatMap
      (fun shape => (Emission.internal "map" (.ref shape) none).strokes v o.place) ++
    o.slots.zipIdx.flatMap (hiddenStrokes v o.place (o.isExplained v kind))

theorem strokes_congr {v : View} {o : HeapObject} {kind kind' : Option ContainerKind}
    (h : o.tag = .fixedArray → kind = kind') : o.strokes v kind = o.strokes v kind' := by
  have hsaid : o.emissions v kind = o.emissions v kind' := by
    unfold emissions
    split
    · next harray => rw [h harray]
    · rfl
  have hexplained : o.isExplained v kind = o.isExplained v kind' := by
    funext slot
    rw [isExplained, isExplained, hsaid]
  rw [strokes, strokes, hsaid, hexplained]

/-- The strokes of an object that is visited. -/
def visitStrokes (v : View) (pass : Pass) (o : HeapObject) : List Stroke :=
  if v.isLive o.address then
    .object o.address ::
      if pass.visits o.tag then o.strokes v (v.containerKind? o.address) else []
  else []

end HeapObject

/-- The strokes of a pass over all objects. -/
def View.passStrokes (v : View) (pass : Pass) : List Stroke :=
  v.live.flatMap (·.visitStrokes v pass)

namespace Survey

variable {sc : Scope} {s : Survey} {t : Thing} {parent : NodeIndex}

open Draft (drawAll)

theorem draft_linkNamed {child : NodeIndex} (hparent : parent < s.graph.nodeCount)
    (hchild : child < s.graph.nodeCount) (kind : EdgeKind) (name : String) :
    (s.linkNamed kind parent name child).draft = s.draft.link kind (.name name) parent child := by
  rw [linkNamed, draft_link, if_pos ⟨hparent, hchild⟩]
  rfl

theorem draft_linkIndexed {child : NodeIndex} (hparent : parent < s.graph.nodeCount)
    (hchild : child < s.graph.nodeCount) (kind : EdgeKind) (index : Nat) :
    (s.linkIndexed kind parent index child).draft =
      s.draft.link kind (.index index) parent child := by
  rw [linkIndexed, draft_link, if_pos ⟨hparent, hchild⟩]
  rfl

theorem withTarget_ref (s : Survey) (a : Address)
    (next : Address → NodeIndex → Survey → Survey) :
    s.withTarget sc (.ref a) next =
      if sc.view.isLive a then
        next a ((s.draft.draw sc (.object a)).indexOf (.thing (.object a)))
          { s with draft := s.draft.draw sc (.object a) }
      else s := by
  split
  · next hlive => simp only [withTarget, object?, Draft.object?_eq_draw hlive]
  · next hdead => exact withTarget_dead (by simpa using hdead) s next

/-- What is drawn about the target of a value, given what its continuation draws. -/
theorem draft_withTarget {about : Address → List Stroke}
    {next : Address → NodeIndex → Survey → Survey} (hparent : s.draft.Stands t parent)
    (hnext : ∀ a i (s : Survey), s.draft.Stands t parent → s.draft.Stands (.object a) i →
      (next a i s).draft = drawAll sc (about a) s.draft)
    (value : Value) :
    (s.withTarget sc value next).draft = drawAll sc (value.strokes sc.view about) s.draft := by
  cases value with
  | small n => rfl
  | ref a =>
    rw [withTarget_ref, Value.strokes]
    split
    · exact hnext a _ { s with draft := s.draft.draw sc (.object a) } (hparent.draw (.object a))
        (Draft.stands_draw_object sc hparent.distinct a)
    · rfl

/-- An edge between things that have nodes is drawn as one stroke. -/
theorem draw_toObject {d : Draft} {a : Address} {i : NodeIndex} (hparent : d.Stands t parent)
    (hchild : d.Stands (.object a) i) (kind : EdgeKind) (label : Label) :
    drawAll sc [.toObject kind label (.thing t) a] d = d.link kind label parent i := by
  rw [Draft.drawAll_cons, Stroke.toObject, Draft.draw_edge, hparent.indexOf, hchild.indexOf]
  rfl

theorem draft_linkEssential (hparent : s.draft.Stands t parent) (kind : EdgeKind)
    (name : String) (value : Value) (slot : Option Nat) :
    (s.linkEssential sc kind parent name value slot).draft =
      drawAll sc (value.strokes sc.view fun a =>
        if sc.view.isEssential a then [.toObject kind (.name name) (.thing t) a] else [])
        s.draft := by
  refine draft_withTarget hparent (fun a i s hparent hchild => ?_) value
  rw [draft_markIf]
  split
  · rw [draw_toObject hparent hchild]
    exact draft_linkNamed hparent.lt hchild.lt kind name
  · rfl

/-- An emission that names no position is drawn as its strokes. -/
theorem draft_emit (hparent : s.draft.Stands t parent) {e : Emission}
    (he : ∀ name target, e ≠ .node name target) :
    (s.emit sc parent e).draft = drawAll sc (e.strokes sc.view (.thing t)) s.draft := by
  have hlink : ∀ {kind : EdgeKind} {label : Label} {value : Value}
      {next : Address → NodeIndex → Survey → Survey},
      (∀ a i (s : Survey), parent < s.graph.nodeCount → i < s.graph.nodeCount →
        (next a i s).draft = s.draft.link kind label parent i) →
      (s.withTarget sc value next).draft =
        drawAll sc (value.strokes sc.view fun a => [.toObject kind label (.thing t) a])
          s.draft := by
    intro kind label value next hnext
    refine draft_withTarget hparent (fun a i s hparent hchild => ?_) value
    rw [draw_toObject hparent hchild]
    exact hnext a i s hparent.lt hchild.lt
  cases e with
  | internal name value slot => exact draft_linkEssential hparent ..
  | weak name value slot => exact draft_linkEssential hparent ..
  | context name value slot => exact hlink fun a i s hp hi => draft_linkNamed hp hi ..
  | property key value lead slot =>
    exact hlink fun a i s hp hi => (draft_markIf ..).trans (draft_linkNamed hp hi ..)
  | element index value slot =>
    exact hlink fun a i s hp hi => (draft_markIf ..).trans (draft_linkIndexed hp hi ..)
  | shortcut name value => exact hlink fun a i s hp hi => draft_linkNamed hp hi ..
  | backingStore name store =>
    have hchild := Draft.stands_draw_store sc hparent.distinct store
    have hparent' : (s.draft.draw sc (.store store)).Stands t parent := hparent.draw _
    simp only [Emission.strokes, Draft.drawAll_cons, Draft.drawAll_nil]
    rw [Draft.draw_edge, hparent'.indexOf, hchild.indexOf]
    exact draft_linkNamed (s := { s with draft := s.draft.draw sc (.store store) }) hparent'.lt
      hchild.lt .internal name
  | node name target => exact absurd rfl (he name target)
  | tag value name =>
    cases value with
    | small n => rfl
    | ref a =>
      simp only [emit, Emission.strokes]
      split
      · next hess =>
        rw [withTarget_ref, if_pos (View.isLive_of_isEssential hess)]
        rfl
      · rfl
  | container value kind =>
    cases value with
    | small n => rfl
    | ref a =>
      simp only [emit]
      split
      · split <;> rfl
      · rfl
  | silence slot => rfl

theorem draft_follow (hparent : s.draft.Stands t parent) {es : List Emission}
    (hes : ∀ e ∈ es, ∀ name target, e ≠ .node name target) :
    (follow sc (.ofList parent es) s).draft =
      drawAll sc (es.flatMap (·.strokes sc.view (.thing t))) s.draft := by
  induction es generalizing s with
  | nil => rfl
  | cons e es ih =>
    have hemit : (s.emit sc parent e).draft = _ := draft_emit hparent (hes e List.mem_cons_self)
    have hparent' : (s.emit sc parent e).draft.Stands t parent := by
      rw [hemit]
      exact hparent.drawAll _
    rw [Script.ofList, follow, ih hparent' fun x hx => hes x (List.mem_cons_of_mem e hx), hemit,
      List.flatMap_cons, Draft.drawAll_append]

/-- Hide one slot, unless it is explained. -/
def hideSlot (sc : Scope) (parent : NodeIndex) (slot : Nat) (value : Value) (s : Survey) : Survey :=
  let t := { s with marks := (s.marks.take slot).2 }
  if (s.marks.take slot).1 then t
  else t.withTarget sc value fun a child s =>
    if sc.view.isEssential a then s.linkHidden parent slot child else s

theorem hide_cons (parent : NodeIndex) (slot : Nat) (value : Value) (values : List Value)
    (s : Survey) :
    hide sc parent slot (value :: values) s =
      hide sc parent (slot + 1) values (s.hideSlot sc parent slot value) := rfl

theorem marks_hideSlot (parent : NodeIndex) (slot : Nat) (value : Value) (s : Survey) :
    (s.hideSlot sc parent slot value).marks = (s.marks.take slot).2 := by
  unfold hideSlot
  dsimp only
  split
  · rfl
  · rw [withTarget_apply (f := marks) (k := id) (fun _ _ => rfl)]
    · split <;> rfl
    · intro a i s
      split
      · exact marks_linkHidden ..
      · rfl

theorem draft_hideSlot (hparent : s.draft.Stands t parent) (slot : Nat) (value : Value) :
    (s.hideSlot sc parent slot value).draft =
      drawAll sc (hiddenStrokes sc.view (.thing t) s.marks.contains (value, slot)) s.draft := by
  unfold hideSlot hiddenStrokes
  rw [Marks.take_fst]
  dsimp only
  split
  · rfl
  · refine draft_withTarget (s := { s with marks := (s.marks.take slot).2 }) hparent
      (fun a i s hparent hchild => ?_) value
    split
    · unfold linkHidden
      cases hiddenLabel? slot with
      | none => rfl
      | some n =>
        rw [Option.toList_some, List.map_singleton, draw_toObject hparent hchild]
        exact draft_linkIndexed hparent.lt hchild.lt .hidden n
    · rfl

theorem draft_hide (hparent : s.draft.Stands t parent) (slot : Nat) (values : List Value) :
    (hide sc parent slot values s).draft =
      drawAll sc
        ((values.zipIdx slot).flatMap (hiddenStrokes sc.view (.thing t) s.marks.contains))
        s.draft := by
  induction values generalizing slot s with
  | nil => rfl
  | cons value values ih =>
    have hslot : (s.hideSlot sc parent slot value).draft = _ := draft_hideSlot hparent slot value
    have hparent' : (s.hideSlot sc parent slot value).draft.Stands t parent := by
      rw [hslot]
      exact hparent.drawAll _
    -- the slots behind are marked as before
    have hbehind : (values.zipIdx (slot + 1)).flatMap
          (hiddenStrokes sc.view (.thing t) (s.hideSlot sc parent slot value).marks.contains) =
        (values.zipIdx (slot + 1)).flatMap
          (hiddenStrokes sc.view (.thing t) s.marks.contains) := by
      refine List.flatMap_congr fun p hp => ?_
      have hne : slot ≠ p.2 := by
        have := List.le_snd_of_mem_zipIdx hp
        omega
      rw [hiddenStrokes, hiddenStrokes, marks_hideSlot, Marks.contains_take s.marks hne]
    rw [hide_cons, ih hparent', hbehind, hslot, List.zipIdx_cons, List.flatMap_cons,
      Draft.drawAll_append]

theorem draft_linkShape {o : HeapObject} (hparent : s.draft.Stands t parent) :
    (s.linkShape sc o parent).draft =
      drawAll sc (o.shape.toList.flatMap fun shape =>
        (Emission.internal "map" (.ref shape) none).strokes sc.view (.thing t)) s.draft := by
  unfold linkShape
  split
  · next shape hs =>
    rw [hs, Option.toList_some, List.flatMap_singleton]
    exact draft_linkEssential hparent ..
  · next hs => rw [hs]; rfl

theorem contains_marks_said (o : HeapObject) (slot : Nat) (s : Survey) :
    (s.recite sc .builtin o parent).marks.contains slot =
      o.isExplained sc.view s.containers[o.address]? slot := by
  rw [recite_builtin, marks_follow, Marks.contains_foldl_mark (Marks.sized_reset _),
    Marks.contains_reset, Bool.false_or]
  rfl

/-- An object that is read is drawn as its strokes. -/
theorem draft_read {o : HeapObject} (hparent : s.draft.Stands (.object o.address) parent) :
    (s.read sc .builtin o parent).draft =
      drawAll sc (o.strokes sc.view s.containers[o.address]?) s.draft := by
  have hnode : ∀ e ∈ o.emissions sc.view s.containers[o.address]?,
      ∀ name target, e ≠ .node name target := by
    rintro e he name target rfl
    cases Emission.allSayable_emissions _ _ _ he
  have hrecite : (s.recite sc .builtin o parent).draft =
      drawAll sc ((o.emissions sc.view s.containers[o.address]?).flatMap
        (·.strokes sc.view o.place)) s.draft := by
    rw [recite_builtin]
    exact draft_follow (s := { s with marks := Marks.reset o.slots.length }) hparent hnode
  have hparent₁ : (s.recite sc .builtin o parent).draft.Stands (.object o.address) parent := by
    rw [hrecite]
    exact hparent.drawAll _
  have hshape : ((s.recite sc .builtin o parent).linkShape sc o parent).draft = _ :=
    draft_linkShape hparent₁
  have hparent₂ : ((s.recite sc .builtin o parent).linkShape sc o parent).draft.Stands
      (.object o.address) parent := by
    rw [hshape]
    exact hparent₁.drawAll _
  have hmarks : (s.recite sc .builtin o parent).marks.contains =
      o.isExplained sc.view s.containers[o.address]? := by
    funext slot
    exact contains_marks_said o slot s
  rw [read_eq, draft_hide hparent₂, marks_linkShape, hshape, hrecite, hmarks, HeapObject.strokes,
    Draft.drawAll_append, Draft.drawAll_append]
  rfl

theorem draft_visit (pass : Pass) (o : HeapObject) {s : Survey} (hd : s.draft.Distinct)
    (hkind : pass = .second → s.containers[o.address]? = sc.view.containerKind? o.address) :
    (s.visit sc .builtin pass o).draft = drawAll sc (o.visitStrokes sc.view pass) s.draft := by
  unfold HeapObject.visitStrokes
  split
  · next hlive =>
    rw [visit, object?, Draft.object?_eq_draw hlive, Draft.drawAll_cons]
    dsimp only
    split
    · next hvisits =>
      rw [draft_read (s := { s with draft := s.draft.draw sc (.object o.address) })
        (Draft.stands_draw_object sc hd o.address)]
      refine congrArg (drawAll sc · _) (HeapObject.strokes_congr fun harray => hkind ?_)
      -- arrays are read in the second pass
      cases pass with
      | first => rw [harray] at hvisits; cases hvisits
      | second => rfl
    · rfl
  · next hdead =>
    rw [visit_dead (by simpa using hdead)]
    rfl

theorem distinct_visit (hd : s.draft.Distinct) (handlers : Handlers) (pass : Pass)
    (o : HeapObject) : (s.visit sc handlers pass o).draft.Distinct :=
  (grows_visit (handlers.owns_any sc.view o) pass s).distinct hd

theorem draft_visitAll_first (os : List HeapObject) {s : Survey} (hd : s.draft.Distinct) :
    (s.visitAll sc .builtin .first os).draft =
      drawAll sc (os.flatMap (·.visitStrokes sc.view .first)) s.draft := by
  induction os generalizing s with
  | nil => rfl
  | cons o os ih =>
    rw [visitAll_cons, ih (distinct_visit hd ..), draft_visit .first o hd (fun h => nomatch h),
      List.flatMap_cons, Draft.drawAll_append]

theorem draft_visitAll_second (os : List HeapObject) {s : Survey} (hd : s.draft.Distinct)
    (hkind : ∀ a, s.containers[a]? = sc.view.containerKind? a) :
    (s.visitAll sc .builtin .second os).draft =
      drawAll sc (os.flatMap (·.visitStrokes sc.view .second)) s.draft := by
  induction os generalizing s with
  | nil => rfl
  | cons o os ih =>
    have hkind' : ∀ a, (s.visit sc .builtin .second o).containers[a]? =
        sc.view.containerKind? a := by
      intro a
      rw [containers_visit_second]
      exact hkind a
    rw [visitAll_cons, ih (distinct_visit hd ..) hkind',
      draft_visit .second o hd (fun _ => hkind o.address), List.flatMap_cons, Draft.drawAll_append]

end Survey

/-! ## The strokes of roots -/

/-- The strokes between the synthetic nodes. -/
def syntheticStrokes : List Stroke :=
  .next .element (.fixed Graph.rootIndex) (.fixed Graph.collectorIndex) ::
    RootCategory.all.map fun c =>
      .next .element (.fixed Graph.collectorIndex) (.fixed (Graph.categoryIndex c))

/-- The name that a builtin gives its code. -/
def Root.builtinName? (root : Root) : Option String :=
  match root.name with
  | some name => if root.category = .builtins then some ("(" ++ name ++ " builtin)") else none
  | none => none

namespace RootRef

/-- The edge of a root reference. -/
def stroke (r : RootRef) : Stroke :=
  let parent := Place.fixed (Graph.categoryIndex r.root.category)
  let child := Place.thing (.object r.root.target)
  if r.isWeak then .next .weak parent child
  else if r.root.category = .builtins then .next .element parent child
  else match r.root.name with
    | some name => .edge .internal (.name name) parent child
    | none => .next .element parent child

/-- The global object that the root has to lead to, given those that it leads to already. -/
def newGlobal? (v : View) (globals : List Address) (r : RootRef) : Option Address :=
  if r.isWeak then none
  else (v.globalOf? r.root.target).filter fun global => !globals.contains global

end RootRef

/-- The strokes that lead from the root to a realm's global object. -/
def globalStrokes (v : View) (global : Address) : List Stroke :=
  if v.isLive global then
    [.object global, .next .shortcut (.fixed Graph.rootIndex) (.thing (.object global))]
  else []

/-- The strokes of root references, given the global objects that the root leads to already. -/
def rootStrokes (v : View) : List Address → List RootRef → List Stroke
  | _, [] => []
  | globals, r :: rs =>
    if v.isLive r.root.target then
      .object r.root.target ::
        (r.root.builtinName?.toList.map (.name (.object r.root.target)) ++
          r.stroke :: (r.newGlobal? v globals).toList.flatMap (globalStrokes v) ++
          rootStrokes v ((r.newGlobal? v globals).toList ++ globals) rs)
    else rootStrokes v globals rs

/-- The strokes of all roots. -/
def View.rootStrokes (v : View) : List Stroke :=
  syntheticStrokes ++ ManagedHeap.rootStrokes v [] (classifyRoots v.allRoots v.strongRoots)

namespace Draft

theorem nameBuiltin_eq (sc : Scope) {d : Draft} {root : Root} {child : NodeIndex}
    (hchild : d.entries.find? (.object root.target) = some child) :
    d.nameBuiltin root child =
      drawAll sc (root.builtinName?.toList.map (.name (.object root.target))) d := by
  unfold nameBuiltin Root.builtinName?
  cases root.name with
  | none => rfl
  | some name =>
    dsimp only
    split
    · rw [Option.toList_some, List.map_cons, drawAll_cons, draw, indexOf_of_find? hchild]
      rfl
    · rfl

theorem linkRoot_eq (sc : Scope) {d : Draft} {r : RootRef} {child : NodeIndex}
    (hchild : d.entries.find? (.object r.root.target) = some child) :
    d.linkRoot r child = d.draw sc r.stroke := by
  have hindex := indexOf_of_find? hchild
  unfold linkRoot RootRef.stroke
  dsimp only
  split
  · rw [draw, hindex]; rfl
  · split
    · rw [draw, hindex]; rfl
    · cases r.root.name <;> dsimp only <;> rw [draw, hindex] <;> rfl

end Draft

namespace Survey

open Draft (drawAll)

variable {sc : Scope}

/-- A global object is linked unless it is already. -/
theorem linkGlobal_eq (s : Survey) (global : Address) :
    s.linkGlobal sc global =
      if s.globals.contains global then s
      else { s with
        globals := global :: s.globals
        draft := drawAll sc (globalStrokes sc.view global) s.draft } := by
  unfold linkGlobal globalStrokes
  split
  · rfl
  · cases hlive : sc.view.isLive global with
    | false => simp [object?, Draft.object?_dead hlive]
    | true => simp only [object?, Draft.object?_eq_draw hlive, if_pos]; rfl

theorem addRoot_eq (s : Survey) (r : RootRef) :
    addRoot sc s r =
      if sc.view.isLive r.root.target then
        { s with
          globals := (r.newGlobal? sc.view s.globals).toList ++ s.globals
          draft := drawAll sc (.object r.root.target ::
            (r.root.builtinName?.toList.map (.name (.object r.root.target)) ++
              r.stroke :: (r.newGlobal? sc.view s.globals).toList.flatMap
                (globalStrokes sc.view))) s.draft }
      else s := by
  unfold addRoot
  cases hlive : sc.view.isLive r.root.target with
  | false => simp [object?, Draft.object?_dead hlive]
  | true =>
    have hchild := Draft.find?_draw_object sc s.draft r.root.target
    simp only [object?, Draft.object?_eq_draw hlive, if_pos, Draft.indexOf_of_find? hchild,
      Draft.drawAll_cons, Draft.drawAll_append]
    rw [Draft.nameBuiltin_eq sc hchild, Draft.linkRoot_eq sc (Draft.find?_drawAll _ hchild)]
    unfold RootRef.newGlobal?
    split
    · rfl
    · cases sc.view.globalOf? r.root.target with
      | none => rfl
      | some global =>
        dsimp only
        rw [linkGlobal_eq]
        cases hknown : s.globals.contains global with
        | true => simp only [if_pos, Option.filter, hknown]; rfl
        | false =>
          simp only [Option.filter, hknown, Bool.not_false, if_pos, Option.toList_some,
            List.flatMap_singleton, List.cons_append, List.nil_append]
          rfl

theorem draft_foldl_addRoot (rs : List RootRef) (s : Survey) :
    (rs.foldl (addRoot sc) s).draft =
      drawAll sc (ManagedHeap.rootStrokes sc.view s.globals rs) s.draft := by
  induction rs generalizing s with
  | nil => rfl
  | cons r rs ih =>
    rw [List.foldl_cons, ih, addRoot_eq, ManagedHeap.rootStrokes]
    split
    · simp only [Draft.drawAll_cons, Draft.drawAll_append, List.append_assoc, List.cons_append]
    · rfl

theorem draft_addRoots (s : Survey) (hglobals : s.globals = []) :
    (s.addRoots sc).draft = drawAll sc sc.view.rootStrokes s.draft := by
  have hsynthetic : s.draft.linkSynthetic = drawAll sc syntheticStrokes s.draft := by
    rw [Draft.linkSynthetic, syntheticStrokes, Draft.drawAll_cons, drawAll, List.foldl_map]
    rfl
  rw [addRoots, draft_foldl_addRoot, View.rootStrokes, Draft.drawAll_append, hsynthetic, hglobals]

end Survey

/-! ## The strokes of native objects -/

namespace Companion

/-- The node of a group. -/
def groupNode (label : String) : Node :=
  { kind := .synthetic, name := label, id := groupId label, selfSize := 0 }

/-- The companion's node. -/
def node (c : Companion) : Node :=
  { kind := .native, name := c.name, id := c.id, selfSize := c.size.getD 0 }

/-- The strokes between a companion and an object that wraps it. -/
def wrapperStrokes (c : Companion) (wrapper : Address) : List Stroke :=
  [.edge .internal (.name "native") (.thing (.object wrapper)) (.thing (.native c.id)),
    .next .element (.thing (.native c.id)) (.thing (.object wrapper))]

/-- The strokes of a companion. -/
def strokes (v : View) (c : Companion) : List Stroke :=
  .native (.nativeGroup c.group) (groupNode c.group) :: .native (.native c.id) c.node ::
    .next .internal (.thing (.nativeGroup c.group)) (.thing (.native c.id)) ::
    (c.wrappers.filter v.isLive).flatMap c.wrapperStrokes

end Companion

/-- The groups of companions in the order of their first use, but for those that are known. -/
def newGroups : List String → List Companion → List String
  | _, [] => []
  | known, c :: cs =>
    if c.group ∈ known then newGroups known cs else c.group :: newGroups (c.group :: known) cs

/-- The stroke that leads from the root to a group. -/
def groupStroke (label : String) : Stroke :=
  .next .element (.fixed Graph.rootIndex) (.thing (.nativeGroup label))

/-- The strokes of all companions. -/
def View.companionStrokes (v : View) : List Stroke :=
  v.companions.flatMap (·.strokes v) ++ (newGroups [] v.companions).map groupStroke

namespace Draft

variable {sc : Scope} {d : Draft} {v : View}

/-- Objects keep having a node or none while native things are drawn. -/
theorem find?_draw_native_of_ne {t u : Thing} (hne : t ≠ u) (n : Node) :
    (d.draw sc (.native t n)).entries.find? u = d.entries.find? u := by
  show (d.ensure t (·.addNode t n)).2.entries.find? u = _
  unfold ensure
  split
  · rfl
  · show (d.entries.insert t _).find? u = _
    rw [Entries.find?_insert, if_neg hne]

theorem linkWrapper_eq {c : Companion} {index : NodeIndex}
    (hindex : d.entries.find? (.native c.id) = some index)
    (hseen : ∀ w, (d.entries.find? (.object w)).isSome = sc.view.isLive w) (wrapper : Address) :
    linkWrapper index d wrapper =
      drawAll sc (if sc.view.isLive wrapper then c.wrapperStrokes wrapper else []) d := by
  unfold linkWrapper
  split
  · next w hw =>
    have hlive : sc.view.isLive wrapper = true := by rw [← hseen, hw]; rfl
    rw [if_pos hlive, Companion.wrapperStrokes, drawAll_cons, draw, indexOf_of_find? hw,
      indexOf_of_find? hindex, drawAll_cons, draw,
      indexOf_of_find? (t := .native c.id) (i := index),
      indexOf_of_find? (t := .object wrapper) (i := w)]
    · rfl
    · exact hw
    · exact hindex
  · next hw =>
    have hdead : sc.view.isLive wrapper = false := by rw [← hseen, hw]; rfl
    rw [hdead]
    rfl

theorem foldl_linkWrapper {c : Companion} {index : NodeIndex} (wrappers : List Address) {d : Draft}
    (hindex : d.entries.find? (.native c.id) = some index)
    (hseen : ∀ w, (d.entries.find? (.object w)).isSome = sc.view.isLive w) :
    wrappers.foldl (linkWrapper index) d =
      drawAll sc ((wrappers.filter sc.view.isLive).flatMap c.wrapperStrokes) d := by
  induction wrappers generalizing d with
  | nil => rfl
  | cons w ws ih =>
    have hentries : (linkWrapper index d w).entries = d.entries := by
      unfold linkWrapper
      split <;> rfl
    rw [List.foldl_cons, ih (by rw [hentries]; exact hindex) (by rw [hentries]; exact hseen),
      linkWrapper_eq hindex hseen]
    cases hlive : sc.view.isLive w with
    | false => simp [hlive]
    | true => simp [hlive]

theorem nativeGroup_eq (sc : Scope) (d : Draft) (label : String) :
    d.nativeGroup label =
      ((d.draw sc (.native (.nativeGroup label) (Companion.groupNode label))).indexOf
          (.thing (.nativeGroup label)),
        (d.entries.find? (.nativeGroup label)).isNone,
        d.draw sc (.native (.nativeGroup label) (Companion.groupNode label))) := by
  rw [indexOf_of_find? (find?_draw_native sc d _ _)]
  show _ = ((d.ensure _ _).1, _, (d.ensure _ _).2)
  unfold nativeGroup ensure
  split
  · next h => rw [h]; rfl
  · next h => rw [h]; rfl

/-- A companion is drawn as its strokes, and its group is new if it has no node yet. -/
theorem addCompanion_eq (hseen : ∀ w, (d.entries.find? (.object w)).isSome = sc.view.isLive w)
    (c : Companion) :
    d.addCompanion c =
      (if (d.entries.find? (.nativeGroup c.group)).isNone then
          some ((drawAll sc (c.strokes sc.view) d).indexOf (.thing (.nativeGroup c.group)))
        else none,
        drawAll sc (c.strokes sc.view) d) := by
  generalize hd₁ : d.draw sc (.native (.nativeGroup c.group) (Companion.groupNode c.group)) = d₁
  generalize hd₂ : d₁.draw sc (.native (.native c.id) c.node) = d₂
  have hgroup₁ : d₁.entries.find? (.nativeGroup c.group) =
      some (d₁.indexOf (.thing (.nativeGroup c.group))) := by
    have hfind := find?_draw_native sc d (.nativeGroup c.group) (Companion.groupNode c.group)
    rw [hd₁] at hfind
    rw [indexOf_of_find? hfind, hfind]
  have hgroup₂ : d₂.entries.find? (.nativeGroup c.group) =
      some (d₁.indexOf (.thing (.nativeGroup c.group))) :=
    hd₂ ▸ find?_draw _ hgroup₁
  have hnative : d₂.entries.find? (.native c.id) = some (d₁.companion c).1 := by
    rw [← hd₂]
    exact find?_draw_native sc d₁ (.native c.id) c.node
  have hcompanion : (d₁.companion c).2 = d₂ := hd₂
  have hseen₂ : ∀ w, (d₂.entries.find? (.object w)).isSome = sc.view.isLive w := by
    intro w
    rw [← hd₂, find?_draw_native_of_ne (by simp), ← hd₁, find?_draw_native_of_ne (by simp)]
    exact hseen w
  -- the edge of the group, with its ends looked up
  have hedge : d₂.linkNextNamed .internal (d₁.indexOf (.thing (.nativeGroup c.group)))
      (d₁.companion c).1 =
        d₂.draw sc (.next .internal (.thing (.nativeGroup c.group)) (.thing (.native c.id))) := by
    rw [draw, indexOf_of_find? hgroup₂, indexOf_of_find? hnative]
    rfl
  have hall : drawAll sc (c.strokes sc.view) d = c.wrappers.foldl (linkWrapper (d₁.companion c).1)
      (d₂.linkNextNamed .internal (d₁.indexOf (.thing (.nativeGroup c.group)))
        (d₁.companion c).1) := by
    have hentries : (d₂.linkNextNamed .internal (d₁.indexOf (.thing (.nativeGroup c.group)))
        (d₁.companion c).1).entries = d₂.entries := rfl
    rw [foldl_linkWrapper (c := c) c.wrappers (by rw [hentries]; exact hnative)
      (by rw [hentries]; exact hseen₂), hedge, Companion.strokes, drawAll_cons, drawAll_cons,
      drawAll_cons, hd₁, hd₂]
  have hindex : (drawAll sc (c.strokes sc.view) d).indexOf (.thing (.nativeGroup c.group)) =
      d₁.indexOf (.thing (.nativeGroup c.group)) := by
    rw [Companion.strokes, drawAll_cons, hd₁]
    exact indexOf_of_find? (find?_drawAll _ hgroup₁)
  rw [hindex, hall, addCompanion, nativeGroup_eq sc, hd₁]
  dsimp only
  rw [hcompanion]

@[simp] theorem entries_wrappers (c : Companion) (ws : List Address) (d : Draft) :
    (drawAll sc (ws.flatMap c.wrapperStrokes) d).entries = d.entries := by
  induction ws generalizing d with
  | nil => rfl
  | cons w ws ih =>
    rw [List.flatMap_cons, drawAll_append, ih, Companion.wrapperStrokes, drawAll_cons,
      drawAll_cons, drawAll_nil, entries_draw_next, entries_draw_edge]

/-- Object nodes stay as they are while a companion is drawn. -/
theorem find?_object_strokes (c : Companion) (w : Address) :
    (drawAll sc (c.strokes v) d).entries.find? (.object w) = d.entries.find? (.object w) := by
  rw [Companion.strokes, drawAll_cons, drawAll_cons, drawAll_cons, entries_wrappers,
    entries_draw_next, find?_draw_native_of_ne (by simp), find?_draw_native_of_ne (by simp)]

/-- Which groups have nodes once a companion is drawn. -/
theorem isNone_group_strokes (c : Companion) (label : String) :
    ((drawAll sc (c.strokes v) d).entries.find? (.nativeGroup label)).isNone =
      ((d.entries.find? (.nativeGroup label)).isNone && decide (label ≠ c.group)) := by
  rw [Companion.strokes, drawAll_cons, drawAll_cons, drawAll_cons, entries_wrappers,
    entries_draw_next, find?_draw_native_of_ne (by simp)]
  by_cases hlabel : label = c.group
  · subst hlabel
    rw [find?_draw_native]
    simp
  · rw [find?_draw_native_of_ne (by simpa using Ne.symm hlabel)]
    simp [hlabel]

theorem linkGroups_eq (sc : Scope) (d : Draft) (labels : List String) :
    d.linkGroups (labels.map fun label => d.indexOf (.thing (.nativeGroup label))) =
      drawAll sc (labels.map groupStroke) d := by
  -- drawing an edge moves no node
  have hfold : ∀ (labels : List String) (e : Draft), e.entries = d.entries →
      e.linkGroups (labels.map fun label => d.indexOf (.thing (.nativeGroup label))) =
        drawAll sc (labels.map groupStroke) e := by
    intro labels
    induction labels with
    | nil => intro e _; rfl
    | cons label labels ih =>
      intro e hentries
      have hindex : d.indexOf (.thing (.nativeGroup label)) =
          e.indexOf (.thing (.nativeGroup label)) := by
        rw [indexOf, indexOf, hentries]
      rw [List.map_cons, List.map_cons, drawAll_cons, ← ih _ (by
        rw [groupStroke, entries_draw_next, hentries]), linkGroups, List.foldl_cons, hindex]
      rfl
  exact hfold labels d rfl

/-- Companions are drawn as their strokes. -/
theorem addCompanions_eq {known : List String} (labels : List String) (cs : List Companion)
    {d : Draft} (hseen : ∀ w, (d.entries.find? (.object w)).isSome = sc.view.isLive w)
    (hknown : ∀ label, (d.entries.find? (.nativeGroup label)).isNone = decide (label ∉ known))
    (hlabels : ∀ label ∈ labels, label ∈ known) :
    d.addCompanions (labels.map fun label => d.indexOf (.thing (.nativeGroup label))) cs =
      drawAll sc (cs.flatMap (·.strokes sc.view) ++
        (labels ++ newGroups known cs).map groupStroke) d := by
  induction cs generalizing known labels d with
  | nil => rw [addCompanions, linkGroups_eq sc]; simp [newGroups]
  | cons c cs ih =>
    have hadd := addCompanion_eq hseen c
    generalize hd' : drawAll sc (c.strokes sc.view) d = d' at hadd
    have hseen' : ∀ w, (d'.entries.find? (.object w)).isSome = sc.view.isLive w := by
      intro w
      rw [← hd', find?_object_strokes]
      exact hseen w
    -- groups that have a node keep it
    have hkeep : ∀ label ∈ labels, d.indexOf (.thing (.nativeGroup label)) =
        d'.indexOf (.thing (.nativeGroup label)) := by
      intro label hlabel
      have hsome : (d.entries.find? (.nativeGroup label)).isSome = true := by
        have hnone := hknown label
        rw [decide_eq_false (not_not_intro (hlabels label hlabel)), Option.isNone_eq_false_iff]
          at hnone
        exact hnone
      obtain ⟨i, hi⟩ := Option.isSome_iff_exists.mp hsome
      rw [indexOf_of_find? hi, ← hd', indexOf_of_find? (find?_drawAll _ hi)]
    have hindices : (labels.map fun label => d.indexOf (.thing (.nativeGroup label))) =
        labels.map fun label => d'.indexOf (.thing (.nativeGroup label)) :=
      List.map_congr_left hkeep
    have hnone : ∀ label, (d'.entries.find? (.nativeGroup label)).isNone =
        ((d.entries.find? (.nativeGroup label)).isNone && decide (label ≠ c.group)) := by
      intro label
      rw [← hd', isNone_group_strokes]
    rw [addCompanions, hadd, hindices, List.flatMap_cons, List.append_assoc, drawAll_append, hd',
      newGroups]
    dsimp only
    by_cases hgroup : c.group ∈ known
    · have hknown' : ∀ label, (d'.entries.find? (.nativeGroup label)).isNone =
          decide (label ∉ known) := by
        intro label
        rw [hnone, hknown]
        by_cases hl : label ∈ known
        · simp [hl]
        · have hne : label ≠ c.group := fun heq => hl (heq ▸ hgroup)
          simp [hl, hne]
      rw [hknown, decide_eq_false (not_not_intro hgroup), if_pos hgroup]
      simpa using ih labels hseen' hknown' hlabels
    · have hknown' : ∀ label, (d'.entries.find? (.nativeGroup label)).isNone =
          decide (label ∉ c.group :: known) := by
        intro label
        rw [hnone, hknown]
        by_cases hl : label ∈ known <;> by_cases hc : label = c.group <;> simp [hl, hc]
      have hlabels' : ∀ label ∈ labels ++ [c.group], label ∈ c.group :: known := by
        intro label hlabel
        rcases List.mem_append.mp hlabel with hl | hl
        · exact List.mem_cons_of_mem _ (hlabels label hl)
        · rw [List.mem_singleton.mp hl]; exact List.mem_cons_self
      have hnext := ih _ hseen' hknown' hlabels'
      rw [List.map_append] at hnext
      rw [hknown, decide_eq_true hgroup, if_pos rfl, if_neg hgroup]
      simpa using hnext

end Draft

/-! ## Captures -/

/-- The strokes of a capture up to the native objects. -/
def View.heapStrokes (v : View) : List Stroke :=
  v.rootStrokes ++ (v.passStrokes .first ++ v.passStrokes .second)

/-- All strokes of a capture. -/
def View.strokes (v : View) : List Stroke := v.heapStrokes ++ v.companionStrokes

/-- Both passes of a capture draw the strokes of the roots and of the objects. -/
theorem Capture.draft_twiceRead {c : Capture} (hc : c.handlers = .builtin) (v : View) :
    (c.twiceRead v).draft = Draft.drawAll (c.scope v) v.heapStrokes { ledger := c.ledger } := by
  have hkind : ∀ a, (c.onceRead v).containers[a]? = (c.scope v).view.containerKind? a :=
    containers_onceRead hc v
  have honce : (c.onceRead v).draft =
      Draft.drawAll (c.scope v) (v.passStrokes .first) (c.rooted v).draft := by
    rw [onceRead, hc, Survey.draft_visitAll_first _ (c.distinct_rooted v)]
    rfl
  have hroots : (c.rooted v).draft =
      Draft.drawAll (c.scope v) v.rootStrokes { ledger := c.ledger } :=
    Survey.draft_addRoots { draft := { ledger := c.ledger } } rfl
  rw [twiceRead, hc, Survey.draft_visitAll_second _ (c.distinct_onceRead v) hkind, honce, hroots,
    View.heapStrokes, Draft.drawAll_append, Draft.drawAll_append]
  rfl

end ManagedHeap
