import ManagedHeap.Proofs.Enumeration

/-!
# What a capture draws under any handlers

Handlers decide what is said of an object, from which node and to which, and a script may look at
the graph before it goes on. What they say is drawn all the same as strokes between places that have
nodes by then, and an edge to or from nowhere is refused, which draws nothing. So a capture draws
the strokes of the roots, then those of the handlers, then those of native objects,
`Capture.exists_strokes`. If the handlers report under the node that they are given, as the built-in
ones do, all that they draw starts at objects.
-/
namespace ManagedHeap

/-! ## Handlers that report in place -/

/-- All that the script says is said under one node. -/
def Script.IsUnder (node : NodeIndex) : Script → Prop
  | .done => True
  | .emit parent _ rest => parent = node ∧ rest.IsUnder node
  | .look next => ∀ sight, (next sight).IsUnder node

/-- The handlers say nothing but under the node of the object that they read. -/
def Handlers.ReportInPlace (handlers : Handlers) : Prop :=
  ∀ tag handler, handlers.find? tag = some handler → ∀ v o node, (handler v o node).IsUnder node

/-- The strokes are such as visits draw, whatever is said of the objects. They start at objects if
all is said in place. -/
structure Stroke.OfVisits (v : View) (inPlace : Prop) (strokes : List Stroke) : Prop where
  said : ∀ x ∈ strokes, x.OfHandlers Any v
  starts : inPlace → ∀ x ∈ strokes, x.StartsIn fun q => ∃ a, q = .thing (.object a)

namespace Stroke

variable {v : View} {inPlace : Prop} {strokes strokes' : List Stroke}

theorem ofVisits_nil (v : View) (inPlace : Prop) : OfVisits v inPlace [] :=
  ⟨List.forall_mem_nil _, fun _ => List.forall_mem_nil _⟩

theorem OfVisits.append (h : OfVisits v inPlace strokes) (h' : OfVisits v inPlace strokes') :
    OfVisits v inPlace (strokes ++ strokes') where
  said := List.forall_mem_append.mpr ⟨h.said, h'.said⟩
  starts hplace := List.forall_mem_append.mpr ⟨h.starts hplace, h'.starts hplace⟩

/-- Visits give nodes to objects and to memory. -/
theorem OfVisits.thing (h : OfVisits v inPlace strokes) {x : Stroke} (hx : x ∈ strokes) {t : Thing}
    (ht : x.thing? = some t) : t.nativeId? = none ∧ ∀ a, t = .object a → v.isLive a = true := by
  have hsaid := h.said x hx
  cases x with
  | object a => cases ht; exact ⟨rfl, fun b hb => Thing.object.inj hb ▸ hsaid⟩
  | store => cases ht; exact ⟨rfl, nofun⟩
  | native => cases hsaid
  | edge | next | name => cases ht

end Stroke

namespace Draft

open Stroke (OfVisits)

variable {sc : Scope} {inPlace : Prop} {d d' d'' : Draft} {a : Address} {i : NodeIndex}

/-- Strokes of handlers lead from one draft to another. Which ones these are may depend on what the
first draft depicts, since a script may look at it and name its nodes by their positions. -/
def Continues (sc : Scope) (inPlace : Prop) (d d' : Draft) : Prop :=
  ∀ strokes, d.Depicts sc strokes →
    ∃ xs, d'.Depicts sc (strokes ++ xs) ∧ OfVisits sc.view inPlace xs

theorem Continues.refl (d : Draft) : Continues sc inPlace d d :=
  fun strokes h => ⟨[], by rwa [List.append_nil], Stroke.ofVisits_nil _ _⟩

theorem Continues.trans (h : Continues sc inPlace d d') (h' : Continues sc inPlace d' d'') :
    Continues sc inPlace d d'' := by
  intro strokes hd
  obtain ⟨xs, hxs, hvisits⟩ := h strokes hd
  obtain ⟨ys, hys, hvisits'⟩ := h' _ hxs
  exact ⟨xs ++ ys, by rwa [← List.append_assoc], hvisits.append hvisits'⟩

/-- One stroke that gives or names a node. -/
theorem continues_draw {x : Stroke} (hready : ∀ strokes, d.Depicts sc strokes →
      x.Ready (· ∈ Stroke.roll strokes))
    (hsaid : x.OfHandlers Any sc.view) (hstart : x.source? = none) :
    Continues sc inPlace d (d.draw sc x) :=
  fun strokes hd => ⟨[x], hd.draw (hready strokes hd), List.forall_mem_singleton.mpr hsaid,
    fun _ => List.forall_mem_singleton.mpr (Stroke.startsIn_of_none hstart)⟩

theorem continues_object (hlive : sc.view.isLive a = true) :
    Continues sc inPlace d (d.draw sc (.object a)) :=
  continues_draw (fun _ _ => trivial) hlive rfl

/-- The position is that of an object if all is said in place. -/
def Seats (inPlace : Prop) (d : Draft) (i : NodeIndex) : Prop :=
  inPlace → ∃ a, d.entries.find? (.object a) = some i

theorem Seats.draw (h : d.Seats inPlace i) (x : Stroke) : (d.draw sc x).Seats inPlace i :=
  fun hplace => (h hplace).imp fun _ ha => find?_draw x ha

/-- An edge between two nodes, however they are named. -/
theorem continues_link {parent child : NodeIndex} (hseat : d.Seats inPlace parent)
    (hparent : parent < d.graph.nodeCount) (hchild : child < d.graph.nodeCount)
    {kind : EdgeKind} {label : Label} (hlabel : kind.isIndexed = label.isIndex) :
    Continues sc inPlace d (d.link kind label parent child) := by
  intro strokes hd
  -- A script names nodes by position; a stroke needs the places that have these positions so far.
  obtain ⟨p, hp, rfl⟩ := hd.exists_place hparent
  obtain ⟨q, hq, rfl⟩ := hd.exists_place hchild
  have hready : (Stroke.edge kind label p q).Ready (· ∈ Stroke.roll strokes) := ⟨hlabel, hp, hq⟩
  refine ⟨[.edge kind label p q], hd.draw hready, List.forall_mem_singleton.mpr trivial,
    fun hplace => List.forall_mem_singleton.mpr (Stroke.startsIn_of_some rfl ?_)⟩
  obtain ⟨a, ha⟩ := hseat hplace
  have hobject : (Place.thing (.object a)).Known (· ∈ Stroke.roll strokes) :=
    hd.mem_roll_iff.mpr ⟨_, ha⟩
  exact ⟨a, hd.indexOf_inj hp hobject (indexOf_of_find? ha).symm⟩

end Draft

namespace Survey

open Draft (Continues Seats)

variable {sc : Scope} {inPlace : Prop} {s : Survey} {parent : NodeIndex}

theorem continues_linkNamed (hseat : s.draft.Seats inPlace parent) {kind : EdgeKind}
    (hkind : kind.isIndexed = false) (name : String) (child : NodeIndex) :
    Continues sc inPlace s.draft (s.linkNamed kind parent name child).draft := by
  rw [linkNamed, draft_link]
  split
  · next hends =>
    have hlabel : kind.isIndexed = (Label.name name).isIndex := hkind
    exact Draft.continues_link hseat hends.1 hends.2 hlabel
  · exact .refl _

theorem continues_linkIndexed (hseat : s.draft.Seats inPlace parent) {kind : EdgeKind}
    (hkind : kind.isIndexed = true) (index : Nat) (child : NodeIndex) :
    Continues sc inPlace s.draft (s.linkIndexed kind parent index child).draft := by
  rw [linkIndexed, draft_link]
  split
  · next hends =>
    have hlabel : kind.isIndexed = (Label.index index).isIndex := hkind
    exact Draft.continues_link hseat hends.1 hends.2 hlabel
  · exact .refl _

theorem continues_withTarget {next : Address → NodeIndex → Survey → Survey}
    (hseat : s.draft.Seats inPlace parent)
    (hnext : ∀ a i (s : Survey), s.draft.Seats inPlace parent →
      Continues sc inPlace s.draft (next a i s).draft)
    (value : Value) : Continues sc inPlace s.draft (s.withTarget sc value next).draft := by
  cases value with
  | small n => exact .refl _
  | ref a =>
    rw [withTarget_ref]
    split
    · next hlive =>
      exact (Draft.continues_object hlive).trans
        (hnext a _ { s with draft := s.draft.draw sc (.object a) } (hseat.draw _))
    · exact .refl _

theorem continues_linkEssential (hseat : s.draft.Seats inPlace parent) {kind : EdgeKind}
    (hkind : kind.isIndexed = false) (name : String) (value : Value) (slot : Option Nat) :
    Continues sc inPlace s.draft (s.linkEssential sc kind parent name value slot).draft := by
  refine continues_withTarget hseat (fun a i s hseat => ?_) value
  rw [draft_markIf]
  split
  · exact continues_linkNamed hseat hkind name i
  · exact .refl _

theorem isIndexed_propertyKind (key : PropertyKey) : (propertyKind key).isIndexed = false := by
  unfold propertyKind
  split <;> rfl

theorem continues_emit (hseat : s.draft.Seats inPlace parent) (e : Emission) :
    Continues sc inPlace s.draft (s.emit sc parent e).draft := by
  cases e with
  | internal name value slot => exact continues_linkEssential hseat rfl name value slot
  | weak name value slot => exact continues_linkEssential hseat rfl name value slot
  | context name value slot =>
    refine continues_withTarget hseat (fun a i s hseat => ?_) value
    rw [draft_mark]
    exact continues_linkNamed hseat rfl name i
  | property key value lead slot =>
    refine continues_withTarget hseat (fun a i s hseat => ?_) value
    rw [draft_markIf]
    exact continues_linkNamed hseat (isIndexed_propertyKind key) _ i
  | element index value slot =>
    refine continues_withTarget hseat (fun a i s hseat => ?_) value
    rw [draft_markIf]
    exact continues_linkIndexed hseat rfl index i
  | shortcut name value =>
    exact continues_withTarget hseat (fun a i s hseat => continues_linkNamed hseat rfl name i) value
  | backingStore name store =>
    have hstore : Continues sc inPlace s.draft (s.draft.draw sc (.store store)) :=
      Draft.continues_draw (fun _ _ => trivial) trivial rfl
    exact hstore.trans (continues_linkNamed
      (s := { s with draft := s.draft.draw sc (.store store) }) (hseat.draw _) rfl name _)
  | node name target => exact continues_linkNamed hseat rfl name target
  | tag value name =>
    cases value with
    | small n => exact .refl _
    | ref a =>
      simp only [emit]
      split
      · next hess =>
        have hlive := View.isLive_of_isEssential hess
        have hname : Continues sc inPlace (s.draft.draw sc (.object a))
            ((s.draft.draw sc (.object a)).draw sc (.name (.object a) name)) := by
          refine Draft.continues_draw (fun strokes hd => ?_) ⟨a, rfl⟩ rfl
          exact hd.mem_roll_iff.mpr ⟨_, Draft.find?_draw_object sc s.draft a⟩
        rw [withTarget_ref, if_pos hlive]
        exact (Draft.continues_object hlive).trans hname
      · exact .refl _
  | container value kind =>
    cases value with
    | small n => exact .refl _
    | ref a =>
      simp only [emit]
      split
      · split <;> exact .refl _
      · exact .refl _
  | silence slot => exact .refl _

variable {o : HeapObject} {a : Address} {node : NodeIndex} {handlers : Handlers}

theorem seats_of_find? (hnode : s.draft.entries.find? (.object a) = some node) :
    s.draft.Seats inPlace node :=
  fun _ => ⟨a, hnode⟩

theorem continues_follow {script : Script} (hscript : inPlace → script.IsUnder node)
    (hnode : s.draft.entries.find? (.object a) = some node) :
    Continues sc inPlace s.draft (follow sc script s).draft := by
  induction script generalizing s with
  | done => exact .refl _
  | emit parent e rest ih =>
    have hseat : s.draft.Seats inPlace parent :=
      fun hplace => ⟨a, by rw [(hscript hplace).1]; exact hnode⟩
    have hgrows : Draft.Grows sc Any s.draft (s.emit sc parent e).draft :=
      grows_emit parent s fun _ _ => trivial
    exact (continues_emit hseat e).trans
      (ih (fun hplace => (hscript hplace).2) (hgrows.find? hnode))
  | look next ih => exact ih s.sight (fun hplace => hscript hplace s.sight) hnode

theorem continues_hide (hnode : s.draft.entries.find? (.object a) = some node) (slot : Nat)
    (values : List Value) :
    Continues sc inPlace s.draft (hide sc node slot values s).draft := by
  induction values generalizing slot s with
  | nil => exact .refl _
  | cons value values ih =>
    have hslot : Continues sc inPlace s.draft (s.hideSlot sc node slot value).draft := by
      unfold hideSlot
      dsimp only
      split
      · exact .refl _
      · refine continues_withTarget (s := { s with marks := (s.marks.take slot).2 })
          (seats_of_find? hnode) (fun a i s hseat => ?_) value
        split
        · unfold linkHidden
          split
          · exact continues_linkIndexed hseat rfl _ i
          · exact .refl _
        · exact .refl _
    have hgrows : Draft.Grows sc Any s.draft (s.hideSlot sc node slot value).draft := by
      have hone : Draft.Grows sc Any s.draft (hide sc node slot [value] s).draft :=
        grows_hide node slot [value] s
      rwa [hide_cons] at hone
    rw [hide_cons]
    exact hslot.trans (ih (hgrows.find? hnode) _)

theorem continues_read (hplace : inPlace → handlers.ReportInPlace)
    (hnode : s.draft.entries.find? (.object a) = some node) (o : HeapObject) :
    Continues sc inPlace s.draft (s.read sc handlers o node).draft := by
  have hany := handlers.owns_any sc.view o
  have hrecite : Continues sc inPlace s.draft (s.recite sc handlers o node).draft := by
    unfold recite
    split
    · next handler hfind =>
      exact continues_follow (s := { s with marks := Marks.reset o.slots.length })
        (fun hp => hplace hp o.tag handler hfind sc.view o node) hnode
    · exact .refl _
  have hnode₁ : (s.recite sc handlers o node).draft.entries.find? (.object a) = some node :=
    (grows_recite node hany s).find? hnode
  have hshape : Continues sc inPlace (s.recite sc handlers o node).draft
      ((s.recite sc handlers o node).linkShape sc o node).draft := by
    unfold linkShape
    split
    · exact continues_linkEssential (seats_of_find? hnode₁) rfl _ _ _
    · exact .refl _
  have hnode₂ : ((s.recite sc handlers o node).linkShape sc o node).draft.entries.find?
      (.object a) = some node :=
    Draft.Grows.find? (S := Any) (grows_linkShape node o _) hnode₁
  rw [read_eq]
  exact (hrecite.trans hshape).trans (continues_hide hnode₂ 0 o.slots)

theorem continues_visit (hplace : inPlace → handlers.ReportInPlace) (pass : Pass) (o : HeapObject)
    (s : Survey) : Continues sc inPlace s.draft (s.visit sc handlers pass o).draft := by
  cases hlive : sc.view.isLive o.address with
  | false => rw [visit_dead hlive]; exact .refl _
  | true =>
    have hfind := Draft.find?_draw_object sc s.draft o.address
    rw [visit, object?, Draft.object?_eq_draw hlive, Draft.indexOf_of_find? hfind]
    dsimp only
    split
    · exact (Draft.continues_object hlive).trans
        (continues_read (s := { s with draft := s.draft.draw sc (.object o.address) }) hplace hfind
          o)
    · exact Draft.continues_object hlive

theorem continues_visitAll (hplace : inPlace → handlers.ReportInPlace) (pass : Pass)
    (os : List HeapObject) (s : Survey) :
    Continues sc inPlace s.draft (s.visitAll sc handlers pass os).draft := by
  induction os generalizing s with
  | nil => exact .refl _
  | cons o os ih => exact (continues_visit hplace pass o s).trans (ih _)

end Survey

namespace Capture

open Stroke (OfVisits)

variable {v : View}

theorem depicts_rooted (c : Capture) (v : View) :
    (c.rooted v).draft.Depicts (c.scope v) v.rootStrokes := by
  rw [show (c.rooted v).draft = _ from Survey.draft_addRoots _ rfl]
  exact Draft.depicts_drawAll Stroke.placed_roots c.ledger

/-- Objects and memory have nodes before native objects are drawn, and no other objects than live
ones. -/
theorem thing_of_visits {inPlace : Prop} {strokes : List Stroke}
    (h : OfVisits v inPlace strokes) {t : Thing}
    (ht : t ∈ Stroke.roll (v.rootStrokes ++ strokes)) :
    t.nativeId? = none ∧ ∀ a, t = .object a → v.isLive a = true := by
  obtain ⟨x, hx, hthing⟩ := Stroke.mem_roll.mp ht
  rcases List.mem_append.mp hx with hx | hx
  · have hroots := Stroke.ofRoots_roots v x hx
    cases x with
    | object a => cases hthing; exact ⟨rfl, fun b hb => Thing.object.inj hb ▸ hroots⟩
    | store | native => cases hroots
    | edge | next | name => cases hthing
  · exact h.thing hx hthing

/-- Whatever the handlers say, a capture draws the strokes of the roots, strokes of handlers and the
strokes of native objects. -/
theorem exists_strokes (c : Capture) (hv : v.Faithful) :
    ∃ strokes, OfVisits v c.handlers.ReportInPlace strokes ∧
      (c.twiceRead v).draft.Depicts (c.scope v) (v.rootStrokes ++ strokes) ∧
      (c.drawn v).draft.Depicts (c.scope v) (v.rootStrokes ++ strokes ++ v.companionStrokes) ∧
      (∀ a, .object a ∈ Stroke.roll (v.rootStrokes ++ strokes) ↔ v.isLive a = true) ∧
      ∀ t ∈ Stroke.roll (v.rootStrokes ++ strokes), t.nativeId? = none := by
  have hpasses : (c.rooted v).draft.Continues (c.scope v) c.handlers.ReportInPlace
      (c.twiceRead v).draft :=
    (Survey.continues_visitAll id .first v.live (c.rooted v)).trans
      (Survey.continues_visitAll id .second v.live (c.onceRead v))
  obtain ⟨strokes, hdepicts, hvisits⟩ := hpasses _ (c.depicts_rooted v)
  have hobjects : ∀ a, .object a ∈ Stroke.roll (v.rootStrokes ++ strokes) ↔
      v.isLive a = true := by
    refine fun a => ⟨fun ha => (thing_of_visits hvisits ha).2 a rfl, fun hlive => ?_⟩
    obtain ⟨o, ho, rfl⟩ := (hv a).mp hlive
    obtain ⟨n, hn⟩ := c.exists_node_onceRead ho hlive
    have hgrows := grows_twiceRead (c := c) fun x _ => c.handlers.owns_any v x
    exact hdepicts.mem_roll_iff.mpr ⟨n, hgrows.find? hn⟩
  have hnative : ∀ t ∈ Stroke.roll (v.rootStrokes ++ strokes), t.nativeId? = none :=
    fun t ht => (thing_of_visits hvisits ht).1
  have hfound : ∀ t, ((c.twiceRead v).draft.entries.find? t).isSome = true ↔
      t ∈ Stroke.roll (v.rootStrokes ++ strokes) := by
    intro t
    rw [Option.isSome_iff_exists, hdepicts.mem_roll_iff]
  -- Native objects are drawn last, when all live objects have nodes and no group has one yet.
  have hseen : ∀ w, ((c.twiceRead v).draft.entries.find? (.object w)).isSome =
      (c.scope v).view.isLive w := by
    intro w
    rw [Bool.eq_iff_iff, hfound]
    exact hobjects w
  have hgroups : ∀ label, ((c.twiceRead v).draft.entries.find? (.nativeGroup label)).isNone =
      decide (label ∉ ([] : List String)) := by
    intro label
    have hnone : ¬ ((c.twiceRead v).draft.entries.find? (.nativeGroup label)).isSome = true := by
      rw [hfound]
      intro hgroup
      cases hnative _ hgroup
    simpa using hnone
  have hdrawn : (c.drawn v).draft =
      (c.twiceRead v).draft.drawAll (c.scope v) v.companionStrokes :=
    Draft.addCompanions_eq [] v.companions hseen hgroups (by simp)
  refine ⟨strokes, hvisits, hdepicts, ?_, hobjects, hnative⟩
  rw [hdrawn]
  exact hdepicts.drawAll (Stroke.placed_companions fun w hw => (hobjects w).mpr hw)

end Capture

end ManagedHeap
