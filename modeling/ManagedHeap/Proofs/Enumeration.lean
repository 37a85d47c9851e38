import ManagedHeap.Proofs.Reordering
import ManagedHeap.Proofs.Relocation
import ManagedHeap.Proofs.Tracking

/-!
# How often an object is visited

A walk visits an object once for each time that the order lists its address, and once if the order
does not. An order without repetitions can come to repeat an address: moving an object changes its
address in the order as well, and the order may list the new address already, for something that has
died. Then the object is visited twice in each pass, and all its edges are drawn twice,
`Heap.visited_editAll`.
-/
namespace ManagedHeap

/-- What one element alone contributes to a list, it contributes as often as it occurs. -/
theorem flatMap_eq_replicate {α β : Type} [DecidableEq α] {f : α → List β} {a : α} {as : List α}
    (h : ∀ x ∈ as, x ≠ a → f x = []) :
    as.flatMap f = (List.replicate (as.count a) (f a)).flatten := by
  induction as with
  | nil => rfl
  | cons x as ih =>
    rw [List.flatMap_cons, ih fun y hy => h y (List.mem_cons_of_mem x hy)]
    by_cases hx : x = a
    · rw [hx, List.count_cons_self, List.replicate_succ, List.flatten_cons]
    · rw [h x List.mem_cons_self hx, List.count_cons_of_ne hx, List.nil_append]

/-! ## Visits -/

namespace Heap

variable {h h' : Heap} {a : Address} {o : HeapObject}

/-- How often the order lists an address. -/
def listings (h : Heap) (a : Address) : Nat := (h.order.getD []).count a

/-- How often the object at an address is visited. -/
def visits (h : Heap) (a : Address) : Nat := max 1 (h.listings a)

theorem object?_eq_some_iff (ho : h.object? a = some o) (b : Address) :
    h.object? b = some o ↔ b = a := by
  constructor
  · intro hb
    rw [← h.keyed a o ho, ← h.keyed b o hb]
  · rintro rfl
    exact ho

/-- Objects are visited as often as the order lists them, and at least once. -/
theorem count_live (ho : h.object? a = some o) : h.live.count o = h.visits a := by
  have hvalues : h.objects.values.count o = 1 :=
    List.count_eq_one_of_mem h.nodup_values (mem_values.mpr ⟨a, ho⟩)
  unfold live visits listings
  cases h.order with
  | none => rw [hvalues]; rfl
  | some order =>
    have hlisted : (order.filterMap h.object?).count o = order.count a := by
      rw [List.count_eq_countP, List.countP_filterMap, List.count_eq_countP]
      refine List.countP_congr fun b _ => ?_
      rw [beq_iff_eq, ← object?_eq_some_iff ho b]
      cases h.object? b <;> simp
    have hother : (h.objects.values.filter fun x => !order.contains x.address).count o =
        if a ∈ order then 0 else 1 := by
      rw [← h.keyed a o ho]
      split
      · next hmem => exact List.count_eq_zero.mpr fun hin => by simp [hmem] at hin
      · next hmem => rw [List.count_filter (by simpa using hmem), hvalues]
    rw [List.count_append, hlisted, hother, Option.getD_some]
    split
    · next hmem => rw [Nat.add_zero, Nat.max_eq_right (List.count_pos_iff.mpr hmem)]
    · next hmem => rw [List.count_eq_zero.mpr hmem]; rfl

/-- Nothing but the objects of the heap is visited. -/
theorem object?_of_mem_live (ho : o ∈ h.live) : h.object? o.address = some o := by
  obtain ⟨a, ha⟩ := exists_object?_of_mem_live ho
  rw [h.keyed a o ha]
  exact ha

/-! ## Changes of the heap -/

/-- What can be done to the objects of a heap and to the order in which they are visited. -/
inductive Edit where
  | insert (o : HeapObject)
  | remove (a : Address)
  | relocate (source target : Address)
  | setOrder (order : List Address)

/-- The heap after a change. An object that cannot be moved stays. -/
def edit (h : Heap) : Edit → Heap
  | .insert o => h.insert o
  | .remove a => h.remove a
  | .relocate source target => ((h.relocate source target).map (·.2)).getD h
  | .setOrder order => h.setOrder order

/-- The heap after changes one after the other. -/
def editAll (h : Heap) (es : List Edit) : Heap := es.foldl edit h

/-- An order that is set names no address twice. -/
def Edit.IsFair : Edit → Prop
  | .setOrder order => order.Nodup
  | .insert _ | .remove _ | .relocate _ _ => True

/-- An object is moved that the order lists, and the order lists the new address too. -/
def Collides (h : Heap) : Edit → Prop
  | .relocate source target =>
    (h.relocate source target).isSome = true ∧ 0 < h.listings source ∧ 0 < h.listings target
  | .insert _ | .remove _ | .setOrder _ => False

/-- None of the changes is such a move. -/
def HasNoCollision (h : Heap) : List Edit → Prop
  | [] => True
  | e :: es => ¬ h.Collides e ∧ (h.edit e).HasNoCollision es

instance (h : Heap) (e : Edit) : Decidable (h.Collides e) :=
  match e with
  | .relocate _ _ => inferInstanceAs (Decidable (_ ∧ _))
  | .insert _ | .remove _ | .setOrder _ => inferInstanceAs (Decidable False)

instance decidableHasNoCollision : (h : Heap) → (es : List Edit) → Decidable (h.HasNoCollision es)
  | _, [] => inferInstanceAs (Decidable True)
  | h, e :: es =>
    have := decidableHasNoCollision (h.edit e) es
    inferInstanceAs (Decidable (_ ∧ _))

theorem edit_relocate {source target : Address} {size : Nat}
    (hr : h.relocate source target = some (size, h')) : h.edit (.relocate source target) = h' := by
  simp [edit, hr]

theorem edit_relocate_of_none {source target : Address} (hr : h.relocate source target = none) :
    h.edit (.relocate source target) = h := by
  simp [edit, hr]

/-! ## Listings -/

theorem count_map_moved {source target : Address} (hne : source ≠ target) (order : List Address)
    (a : Address) : (order.map (·.moved source target)).count a =
      if a = target then order.count source + order.count target
      else if a = source then 0 else order.count a := by
  induction order with
  | nil => simp
  | cons b order ih =>
    rw [List.map_cons, List.count_cons, ih, List.count_cons, List.count_cons, List.count_cons]
    unfold Address.moved
    grind

/-- A move takes the listings of the old address to the new one. -/
theorem listings_rehome {source target : Address} (hne : source ≠ target) (h : Heap)
    (o : HeapObject) (a : Address) : (h.rehome o source target).listings a =
      if a = target then h.listings source + h.listings target
      else if a = source then 0 else h.listings a := by
  unfold listings
  have horder : ((h.rehome o source target).order.getD []) =
      (h.order.getD []).map (·.moved source target) := by
    show ((h.order.map _).getD []) = _
    cases h.order <;> rfl
  rw [horder, count_map_moved hne]

/-- Only a move between listed addresses makes the order list one twice. -/
theorem listings_edit_le (hlistings : ∀ a, h.listings a ≤ 1) {e : Edit} (hfair : e.IsFair)
    (hapart : ¬ h.Collides e) (a : Address) : (h.edit e).listings a ≤ 1 := by
  cases e with
  | insert | remove => exact hlistings a
  | setOrder order => exact List.nodup_iff_count_le_one.mp hfair a
  | relocate source target =>
    cases hr : h.relocate source target with
    | none =>
      rw [edit_relocate_of_none hr]
      exact hlistings a
    | some moved =>
      obtain ⟨size, h'⟩ := moved
      obtain ⟨hne, -, o, -, -, rfl⟩ := relocate_eq_some hr
      have hone : ¬ (0 < h.listings source ∧ 0 < h.listings target) := fun hboth =>
        hapart ⟨by rw [hr]; rfl, hboth⟩
      have hsource := hlistings source
      have htarget := hlistings target
      rw [edit_relocate hr, listings_rehome hne]
      split
      · omega
      · split
        · exact Nat.zero_le 1
        · exact hlistings a

theorem listings_editAll_le (hlistings : ∀ a, h.listings a ≤ 1) {es : List Edit}
    (hfair : ∀ e ∈ es, e.IsFair) (hapart : h.HasNoCollision es) (a : Address) :
    (h.editAll es).listings a ≤ 1 := by
  induction es generalizing h with
  | nil => exact hlistings a
  | cons e es ih =>
    obtain ⟨hfirst, hrest⟩ := hapart
    exact ih (listings_edit_le hlistings (hfair e List.mem_cons_self) hfirst)
      (fun e' he' => hfair e' (List.mem_cons_of_mem e he')) hrest

end Heap

/-! ## Where edges start -/

namespace Stroke

variable {v : View} {x : Stroke} {strokes : List Stroke} {p source : Place}

/-- Where the edge of a stroke starts. -/
def source? : Stroke → Option Place
  | .edge _ _ source _ | .next _ source _ => some source
  | .object _ | .store _ | .native _ _ | .name _ _ => none

theorem source?_of_link? {before : List Link} {l : Link} (h : x.link? before = some l) :
    x.source? = some l.source := by
  cases x with
  | edge | next => cases h; rfl
  | object | store | native | name => cases h

/-- Links from a place are drawn by the strokes that start there, if none of them has to count. -/
theorem filter_links (hnext : ∀ kind target, .next kind p target ∉ strokes) (before : List Link) :
    (links before strokes).filter (·.source = p) =
      before.filter (·.source = p) ++ (strokes.filterMap (link? [])).filter (·.source = p) := by
  induction strokes generalizing before with
  | nil => simp [links]
  | cons x strokes ih =>
    have hlink : (x.link? before).toList.filter (·.source = p) =
        (x.link? []).toList.filter (·.source = p) := by
      cases x with
      | next kind source target =>
        have hne : source ≠ p := by
          rintro rfl
          exact hnext kind target List.mem_cons_self
        simp [link?, hne]
      | _ => rfl
    have hcons : (x :: strokes).filterMap (link? []) =
        (x.link? []).toList ++ strokes.filterMap (link? []) := by
      cases hx : x.link? [] with
      | none => rw [List.filterMap_cons_none hx]; rfl
      | some l => rw [List.filterMap_cons_some hx]; rfl
    rw [links_cons, ih fun kind target hmem => hnext kind target (List.mem_cons_of_mem x hmem),
      List.filter_append, hlink, hcons, List.filter_append, List.append_assoc]

/-- The stroke draws no edge but from places of a kind. -/
def StartsIn (P : Place → Prop) (x : Stroke) : Prop := ∀ q ∈ x.source?, P q

theorem startsIn_of_none {P : Place → Prop} (h : x.source? = none) : x.StartsIn P := by
  intro q hq
  rw [h] at hq
  cases hq

theorem startsIn_of_some {P : Place → Prop} (h : x.source? = some p) (hp : P p) :
    x.StartsIn P := by
  intro q hq
  rw [h] at hq
  cases hq
  exact hp

theorem filter_eq_self (h : ∀ x ∈ strokes, x.StartsIn (· = p)) :
    (strokes.filterMap (link? [])).filter (·.source = p) = strokes.filterMap (link? []) := by
  refine List.filter_eq_self.mpr fun l hl => ?_
  obtain ⟨x, hx, hlink⟩ := List.mem_filterMap.mp hl
  exact decide_eq_true (h x hx l.source (source?_of_link? hlink))

theorem filter_eq_nil (h : ∀ x ∈ strokes, x.StartsIn (· ≠ p)) :
    (strokes.filterMap (link? [])).filter (·.source = p) = [] := by
  refine List.filter_eq_nil_iff.mpr fun l hl => ?_
  obtain ⟨x, hx, hlink⟩ := List.mem_filterMap.mp hl
  simpa using h x hx l.source (source?_of_link? hlink)

theorem startsIn_value {value : Value} {about : Address → List Stroke}
    (habout : ∀ a, ∀ x ∈ about a, x.StartsIn (· = p)) :
    ∀ x ∈ value.strokes v about, x.StartsIn (· = p) := by
  cases value with
  | small n => exact List.forall_mem_nil _
  | ref a =>
    rw [Value.strokes]
    split
    · exact List.forall_mem_cons.mpr ⟨startsIn_of_none rfl, habout a⟩
    · exact List.forall_mem_nil _

theorem startsIn_toObject (kind : EdgeKind) (label : Label) (a : Address) :
    ∀ x ∈ [Stroke.toObject kind label source a], x.StartsIn (· = source) :=
  List.forall_mem_singleton.mpr (startsIn_of_some rfl rfl)

theorem startsIn_essential (kind : EdgeKind) (label : Label) (a : Address) :
    ∀ x ∈ if v.isEssential a then [Stroke.toObject kind label source a] else [],
      x.StartsIn (· = source) := by
  split
  · exact startsIn_toObject kind label a
  · exact List.forall_mem_nil _

theorem startsIn_emission (e : Emission) : ∀ x ∈ e.strokes v source, x.StartsIn (· = source) := by
  cases e with
  | internal | weak => exact startsIn_value fun a => startsIn_essential _ _ a
  | context | property | element | shortcut => exact startsIn_value fun a => startsIn_toObject _ _ a
  | backingStore name store =>
    exact List.forall_mem_cons.mpr
      ⟨startsIn_of_none rfl, List.forall_mem_singleton.mpr (startsIn_of_some rfl rfl)⟩
  | tag value name =>
    cases value with
    | small n => exact List.forall_mem_nil _
    | ref a =>
      rw [Emission.strokes]
      split
      · exact List.forall_mem_cons.mpr
          ⟨startsIn_of_none rfl, List.forall_mem_singleton.mpr (startsIn_of_none rfl)⟩
      · exact List.forall_mem_nil _
  | node | container | silence => exact List.forall_mem_nil _

theorem startsIn_hidden (isExplained : Nat → Bool) (p : Value × Nat) :
    ∀ x ∈ hiddenStrokes v source isExplained p, x.StartsIn (· = source) := by
  obtain ⟨value, slot⟩ := p
  rw [hiddenStrokes]
  split
  · exact List.forall_mem_nil _
  · refine startsIn_value fun a => ?_
    split
    · exact List.forall_mem_map.mpr fun _ _ => startsIn_of_some rfl rfl
    · exact List.forall_mem_nil _

/-- What is said of an object is drawn from its node. -/
theorem startsIn_object (o : HeapObject) (kind : Option ContainerKind) :
    ∀ x ∈ o.strokes v kind, x.StartsIn (· = o.place) := by
  rw [HeapObject.strokes, List.forall_mem_append, List.forall_mem_append,
    List.forall_mem_flatMap, List.forall_mem_flatMap, List.forall_mem_flatMap]
  exact ⟨⟨fun e _ => startsIn_emission e, fun shape _ => startsIn_emission _⟩,
    fun p _ => startsIn_hidden _ p⟩

theorem startsIn_visit (o : HeapObject) (pass : Pass) :
    ∀ x ∈ o.visitStrokes v pass, x.StartsIn (· = o.place) := by
  unfold HeapObject.visitStrokes
  split
  · refine List.forall_mem_cons.mpr ⟨startsIn_of_none rfl, ?_⟩
    split
    · exact startsIn_object o _
    · exact List.forall_mem_nil _
  · exact List.forall_mem_nil _

/-- Roots are drawn from the synthetic nodes. -/
theorem startsIn_roots (v : View) :
    ∀ x ∈ v.rootStrokes, x.StartsIn fun q => ∃ i, q = .fixed i :=
  forall_mem_roots (fun _ _ => startsIn_of_none rfl) (fun _ _ => startsIn_of_none rfl)
    (fun _ _ _ => startsIn_of_some rfl ⟨_, rfl⟩) fun _ _ _ => startsIn_of_some rfl ⟨_, rfl⟩

end Stroke

/-! ## The edges of an object -/

/-- The edges that reading an object draws. -/
def HeapObject.links (v : View) (o : HeapObject) : List Link :=
  (o.strokes v (v.containerKind? o.address)).filterMap (Stroke.link? [])

namespace View

variable {v : View} {o : HeapObject} {a : Address}

/-- The edge from an object to a native object that it wraps. -/
def nativeLink (a : Address) (c : Companion) : Link :=
  ⟨.internal, .name "native", .thing (.object a), .thing (.native c.id)⟩

/-- The edges from an object to native objects, one for each time that it wraps one. -/
def nativeLinks (v : View) (a : Address) : List Link :=
  v.companions.flatMap fun c => List.replicate (c.wrappers.count a) (nativeLink a c)

theorem links_visit (hlive : v.isLive o.address = true) (pass : Pass) :
    (o.visitStrokes v pass).filterMap (Stroke.link? []) =
      if pass.visits o.tag then o.links v else [] := by
  rw [HeapObject.visitStrokes, if_pos hlive, List.filterMap_cons_none rfl]
  split <;> rfl

/-- A pass draws the edges of an object as often as it visits it. -/
theorem filter_pass (hlive : v.isLive o.address = true)
    (hunique : ∀ x ∈ v.live, x.address = o.address → x = o) (pass : Pass) :
    ((v.passStrokes pass).filterMap (Stroke.link? [])).filter (·.source = o.place) =
      (List.replicate (v.live.count o) (if pass.visits o.tag then o.links v else [])).flatten := by
  rw [passStrokes, List.filterMap_flatMap, List.filter_flatMap,
    flatMap_eq_replicate (a := o) fun x hx hne => ?_]
  · rw [Stroke.filter_eq_self (Stroke.startsIn_visit o pass), links_visit hlive]
  · refine Stroke.filter_eq_nil fun y hy q hq heq => hne (hunique x hx ?_)
    have hplace : x.place = o.place := (Stroke.startsIn_visit x pass y hy q hq).symm.trans heq
    exact Thing.object.inj (Place.thing.inj hplace)

/-- Both passes together read each object that they visit once. -/
theorem filter_passes (hlive : v.isLive o.address = true)
    (hunique : ∀ x ∈ v.live, x.address = o.address → x = o) :
    ((v.passStrokes .first ++ v.passStrokes .second).filterMap (Stroke.link? [])).filter
        (·.source = o.place) =
      (List.replicate (v.live.count o) (o.links v)).flatten := by
  rw [List.filterMap_append, List.filter_append, filter_pass hlive hunique,
    filter_pass hlive hunique]
  cases hcontainer : o.tag.isContainer <;> simp [Pass.visits, hcontainer]

theorem filter_companions (hlive : v.isLive a = true) :
    (v.companionStrokes.filterMap (Stroke.link? [])).filter (·.source = .thing (.object a)) =
      v.nativeLinks a := by
  have hgroups : (((newGroups [] v.companions).map groupStroke).filterMap (Stroke.link? [])).filter
      (·.source = .thing (.object a)) = [] :=
    Stroke.filter_eq_nil
      (List.forall_mem_map.mpr fun _ _ => Stroke.startsIn_of_some rfl fun heq => by cases heq)
  have hwrapper : ∀ (c : Companion) (w : Address),
      ((c.wrapperStrokes w).filterMap (Stroke.link? [])).filter (·.source = .thing (.object a)) =
        if w = a then [nativeLink a c] else [] := by
    intro c w
    by_cases hw : w = a
    · subst hw
      simp [Companion.wrapperStrokes, Stroke.link?, nativeLink]
    · simp [Companion.wrapperStrokes, Stroke.link?, hw]
  rw [companionStrokes, List.filterMap_append, List.filter_append, hgroups, List.append_nil,
    List.filterMap_flatMap, List.filter_flatMap, nativeLinks]
  refine List.flatMap_congr fun c _ => ?_
  -- all strokes but those of wrappers start at native things
  have hstrokes : ((c.strokes v).filterMap (Stroke.link? [])).filter
      (·.source = .thing (.object a)) =
        (((c.wrappers.filter v.isLive).flatMap c.wrapperStrokes).filterMap
          (Stroke.link? [])).filter (·.source = .thing (.object a)) := by
    simp only [Companion.strokes, List.filterMap_cons, Stroke.link?]
    rw [List.filter_cons_of_neg (by simp)]
  rw [hstrokes, List.filterMap_flatMap, List.filter_flatMap]
  simp only [hwrapper]
  rw [flatMap_eq_replicate (a := a) fun w _ hne => if_neg hne, if_pos rfl,
    List.count_filter hlive]
  simp

/-- No stroke from an object has to count. -/
theorem not_mem_next (v : View) (a : Address) (kind : EdgeKind) (target : Place) :
    .next kind (.thing (.object a)) target ∉ v.strokes := by
  have hroots : .next kind (.thing (.object a)) target ∉ v.rootStrokes := by
    intro hmem
    obtain ⟨i, hi⟩ := Stroke.startsIn_roots v _ hmem _ rfl
    cases hi
  have hpass : ∀ pass, .next kind (.thing (.object a)) target ∉ v.passStrokes pass :=
    fun pass hmem => Stroke.ofObjects_pass v pass _ hmem
  have hcompanions : .next kind (.thing (.object a)) target ∉ v.companionStrokes := by
    intro hmem
    rcases List.mem_append.mp hmem with hmem | hmem
    · obtain ⟨c, -, hmem⟩ := List.mem_flatMap.mp hmem
      simp [Companion.strokes, Companion.wrapperStrokes] at hmem
    · simp [groupStroke] at hmem
  rw [strokes, heapStrokes]
  simp only [List.mem_append, not_or]
  exact ⟨⟨hroots, hpass .first, hpass .second⟩, hcompanions⟩

/-- The edges from an object are its own, drawn as often as it is visited, and behind them those to
native objects. -/
theorem filter_links (hlive : v.isLive o.address = true)
    (hunique : ∀ x ∈ v.live, x.address = o.address → x = o) :
    (Stroke.links [] v.strokes).filter (·.source = o.place) =
      (List.replicate (v.live.count o) (o.links v)).flatten ++ v.nativeLinks o.address := by
  have hroots : (v.rootStrokes.filterMap (Stroke.link? [])).filter (·.source = o.place) = [] := by
    refine Stroke.filter_eq_nil fun x hx q hq heq => ?_
    obtain ⟨i, rfl⟩ := Stroke.startsIn_roots v x hx q hq
    cases heq
  have hnative : (v.companionStrokes.filterMap (Stroke.link? [])).filter (·.source = o.place) =
      v.nativeLinks o.address := filter_companions hlive
  have hnext : ∀ kind target, .next kind o.place target ∉ v.strokes := v.not_mem_next o.address
  rw [Stroke.filter_links hnext, strokes, heapStrokes, List.filterMap_append, List.filterMap_append,
    List.filter_append, List.filter_append, hroots, filter_passes hlive hunique, hnative]
  rfl

end View

/-- The edges that leave a node are the links from its place. -/
theorem Draft.Depicts.edgesFrom_eq {sc : Scope} {strokes : List Stroke} {d : Draft}
    (h : d.Depicts sc strokes) {p : Place} (hp : p.Known (· ∈ Stroke.roll strokes)) :
    d.graph.edgesFrom (d.indexOf p) =
      ((Stroke.links [] strokes).filter (·.source = p)).map (·.toEdge d.indexOf) := by
  rw [Graph.edgesFrom, h.edges, List.filter_map]
  refine congrArg _ (List.filter_congr fun l hl => ?_)
  have hsource := (h.linked l hl).1
  simp only [Function.comp_apply, Link.toEdge]
  rw [Bool.eq_iff_iff, beq_iff_eq, decide_eq_true_eq]
  exact ⟨h.indexOf_inj hsource hp, fun heq => congrArg d.indexOf heq⟩

namespace Capture

variable {c c' : Capture} {v : View} {h : Heap}

theorem edgesFrom_run (hrun : c.run v = (.ok .completed, c')) (i : NodeIndex) :
    c'.graph.edgesFrom i = (c.drawn v).draft.graph.edgesFrom i := by
  have hedges : c'.graph.edges = (c.drawn v).draft.graph.edges := by
    rw [(run_completed hrun).1]
    exact Graph.edges_group _
  rw [Graph.edgesFrom, hedges]
  rfl

/-- What the graph of a completed capture gives for the children of a node. -/
theorem children_edgesFrom {strokes : List Stroke}
    (hdepicts : (c.drawn v).draft.Depicts (c.scope v) strokes)
    (hrun : c.run v = (.ok .completed, c')) {p : Place} (hp : p.Known (· ∈ Stroke.roll strokes)) :
    c'.graph.children ((c.drawn v).draft.indexOf p) =
      .ok (c'.graph.edgesFrom ((c.drawn v).draft.indexOf p)) := by
  rw [edgesFrom_run hrun, (run_completed hrun).1]
  exact hdepicts.tallied.children_group (hdepicts.indexOf_lt hp)

/-- These are the links from its place. -/
theorem children_links {strokes : List Stroke}
    (hdepicts : (c.drawn v).draft.Depicts (c.scope v) strokes)
    (hrun : c.run v = (.ok .completed, c')) {p : Place} (hp : p.Known (· ∈ Stroke.roll strokes)) :
    c'.graph.children ((c.drawn v).draft.indexOf p) =
      .ok (((Stroke.links [] strokes).filter (·.source = p)).map
        (·.toEdge (c.drawn v).draft.indexOf)) := by
  rw [children_edgesFrom hdepicts hrun hp, edgesFrom_run hrun, hdepicts.edgesFrom_eq hp]

/-- Every live object has a node. -/
theorem nodeOf?_live (c : Capture) {a : Address} (hlive : h.view.isLive a = true) :
    c.nodeOf? h.view a = some ((c.drawn h.view).draft.indexOf (.thing (.object a))) := by
  obtain ⟨o, ho⟩ := Option.isSome_iff_exists.mp hlive
  obtain rfl := h.keyed a o ho
  obtain ⟨i, hi⟩ := exists_node c (Heap.mem_live ho) hlive
  rw [hi]
  exact congrArg some (Draft.indexOf_of_find? hi).symm

/-- And a node of its own. -/
theorem indexOf_inj (c : Capture) {a b : Address}
    (ha : h.view.isLive a = true) (hb : h.view.isLive b = true)
    (heq : (c.drawn h.view).draft.indexOf (.thing (.object b)) =
      (c.drawn h.view).draft.indexOf (.thing (.object a))) : b = a := by
  have hthing := (distinct_drawn c h.view).inj _ _ _ (nodeOf?_live c hb)
    (heq ▸ nodeOf?_live c ha)
  exact Thing.object.inj hthing

/-- In the graph of a completed capture the edges from an object's node are drawn as often as the
object is visited. -/
theorem children_run (hhandlers : c.handlers = .builtin)
    (hrun : c.run h.view = (.ok .completed, c')) {a : Address} {o : HeapObject}
    (ho : h.object? a = some o) :
    ∃ i, c.nodeOf? h.view a = some i ∧ c'.graph.children i = .ok (c'.graph.edgesFrom i) ∧
      c'.graph.edgesFrom i = ((List.replicate (h.visits a) (o.links h.view)).flatten ++
        h.view.nativeLinks a).map (·.toEdge (c.drawn h.view).draft.indexOf) := by
  obtain rfl : o.address = a := h.keyed a o ho
  have hdepicts := depicts_drawn hhandlers h.faithful
  have hlive : h.view.isLive o.address = true := Option.isSome_iff_exists.mpr ⟨o, ho⟩
  have hunique : ∀ x ∈ h.view.live, x.address = o.address → x = o := by
    intro x hx haddress
    have hstored := Heap.object?_of_mem_live hx
    rw [haddress, ho] at hstored
    exact (Option.some.inj hstored).symm
  have hknown : o.place.Known (· ∈ Stroke.roll h.view.strokes) :=
    (View.mem_roll_strokes h.faithful).mpr hlive
  obtain ⟨i, hi⟩ := hdepicts.mem_roll_iff.mp hknown
  obtain rfl : (c.drawn h.view).draft.indexOf o.place = i := Draft.indexOf_of_find? hi
  have hcount : h.view.live.count o = h.visits o.address := Heap.count_live ho
  refine ⟨_, hi, children_edgesFrom hdepicts hrun hknown, ?_⟩
  rw [edgesFrom_run hrun, hdepicts.edgesFrom_eq hknown, View.filter_links hlive hunique, hcount]

end Capture

namespace Heap

/-- Whatever was done to the objects of a heap and to the order of visits, all objects are visited
and nothing else is. An object is visited and read as often as the order lists it, and at least
once. That is once, unless an object was moved from an address that the order lists to another one:
the move adds the listings of the two. -/
theorem visited_editAll {h₀ h : Heap} {es : List Edit} (hlistings : ∀ a, h₀.listings a ≤ 1)
    (hfair : ∀ e ∈ es, e.IsFair) (hedits : h₀.editAll es = h) :
    (∀ o ∈ h.live, h.object? o.address = some o) ∧
    (∀ a o, h.object? a = some o → h.live.count o = h.visits a) ∧
    (h₀.HasNoCollision es → ∀ a, h.visits a = 1) ∧
    (∀ source target size h', h.relocate source target = some (size, h') →
      h'.visits target = max 1 (h.listings source + h.listings target)) ∧
    ∀ c c' : Capture, c.handlers = .builtin → c.run h.view = (.ok .completed, c') →
      ∀ a o, h.object? a = some o → ∃ i, c.nodeOf? h.view a = some i ∧
        c'.graph.children i =
          .ok (((List.replicate (h.visits a) (o.links h.view)).flatten ++
            h.view.nativeLinks a).map (·.toEdge (c.drawn h.view).draft.indexOf)) := by
  subst hedits
  refine ⟨fun o ho => object?_of_mem_live ho, fun a o ho => count_live ho,
    fun hclear a => ?_, fun source target size h' hr => ?_,
    fun c c' hhandlers hrun a o ho => ?_⟩
  · exact Nat.max_eq_left (listings_editAll_le hlistings hfair hclear a)
  · obtain ⟨hne, -, o, -, -, rfl⟩ := relocate_eq_some hr
    rw [visits, listings_rehome hne, if_pos rfl]
  · obtain ⟨i, hi, hchildren, hedges⟩ := Capture.children_run hhandlers hrun ho
    exact ⟨i, hi, hedges ▸ hchildren⟩

/-- An object that refers to a number, and an order that is set before the object is moved. -/
def moveListed (order : List Address) : List Edit :=
  [.insert { address := ⟨16⟩, size := 8, tag := .object, slots := [.ref ⟨64⟩] },
    .insert { address := ⟨64⟩, size := 8, tag := .heapNumber },
    .setOrder order, .relocate ⟨16⟩ ⟨32⟩]

/-- The order lists the object and something that has died elsewhere: the object is visited once. -/
theorem visited_editAll_moveListed :
    empty.HasNoCollision (moveListed [⟨48⟩, ⟨16⟩]) ∧
    (empty.editAll (moveListed [⟨48⟩, ⟨16⟩])).live.map (·.address) = [⟨32⟩, ⟨64⟩] ∧
    (∀ a, (empty.editAll (moveListed [⟨48⟩, ⟨16⟩])).visits a = 1) ∧
    ∃ c' i, ({} : Capture).run (empty.editAll (moveListed [⟨48⟩, ⟨16⟩])).view =
        (.ok .completed, c') ∧
      c'.graph.children i = .ok [⟨.hidden, .index 1, i, i + 1⟩] := by
  have hclear : empty.HasNoCollision (moveListed [⟨48⟩, ⟨16⟩]) := by decide
  have hfair : ∀ e ∈ moveListed [⟨48⟩, ⟨16⟩], e.IsFair := by
    simp [moveListed, Edit.IsFair]
  have hrun : (({} : Capture).run (empty.editAll (moveListed [⟨48⟩, ⟨16⟩])).view).1 =
      .ok .completed := by decide +kernel
  have hblank : ∀ a, empty.listings a ≤ 1 := fun a => by simp [listings, empty]
  have hall := visited_editAll hblank hfair rfl
  exact ⟨hclear, by decide +kernel, hall.2.2.1 hclear, _, 18, Capture.run_eq hrun,
    by decide +kernel⟩

/-- The order lists the object and the address that it is moved to: the object is visited twice, and
has two edges for one reference. -/
theorem visited_twice_moveListed :
    (∀ e ∈ moveListed [⟨16⟩, ⟨32⟩], e.IsFair) ∧
    (empty.editAll (moveListed [⟨16⟩, ⟨32⟩])).live.map (·.address) = [⟨32⟩, ⟨32⟩, ⟨64⟩] ∧
    ∃ c' i, ({} : Capture).run (empty.editAll (moveListed [⟨16⟩, ⟨32⟩])).view =
        (.ok .completed, c') ∧
      c'.graph.children i =
        .ok [⟨.hidden, .index 1, i, i + 1⟩, ⟨.hidden, .index 1, i, i + 1⟩] := by
  have hrun : (({} : Capture).run (empty.editAll (moveListed [⟨16⟩, ⟨32⟩])).view).1 =
      .ok .completed := by decide +kernel
  exact ⟨by simp [moveListed, Edit.IsFair], by decide +kernel, _, 18, Capture.run_eq hrun,
    by decide +kernel⟩

end Heap

end ManagedHeap
