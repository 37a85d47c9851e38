import ManagedHeap.Proofs.Contents
import Mathlib.Data.List.Nodup

/-!
# Strokes in another order

What a capture draws if the objects are visited in another order. The roots and the native objects
are drawn as before, and a pass draws the same strokes in another order, as long as owners agree on
how arrays are to be read. So the links are the same but for their order, `View.perm_links`, and if
owners also agree on names and on sizes of memory, every thing looks the same,
`View.lookOf?_live`.
-/
namespace ManagedHeap

/-! ## Orders of visits -/

namespace Heap

variable {h h' : Heap}

theorem nodup_values (h : Heap) : h.objects.values.Nodup := by
  have hkeys : h.objects.values.map (·.address) = h.objects.keys := by
    rw [values_eq, List.map_map, ← Std.TreeMap.map_fst_toList_eq_keys]
    refine List.map_congr_left fun p hp => ?_
    exact h.keyed p.1 p.2 (Std.TreeMap.mem_toList_iff_getElem?_eq_some.mp hp)
  exact List.Nodup.of_map _ (hkeys ▸ Std.TreeMap.nodup_keys)

/-- No object is visited twice, unless the order says so. -/
theorem nodup_live (horder : ∀ order ∈ h.order, order.Nodup) : h.live.Nodup := by
  unfold live
  cases hcase : h.order with
  | none => exact h.nodup_values
  | some order =>
    refine List.nodup_append.mpr ⟨?_, h.nodup_values.filter _, ?_⟩
    · refine List.Nodup.filterMap (fun a b o ha hb => ?_) (horder order hcase)
      rw [← h.keyed a o ha, ← h.keyed b o hb]
    · rintro o ho o' ho' rfl
      obtain ⟨a, ha, hobject⟩ := List.mem_filterMap.mp ho
      have hnot := (List.mem_filter.mp ho').2
      rw [h.keyed a o hobject] at hnot
      simp [ha] at hnot

/-- The same objects are visited in every order. -/
theorem perm_live (horder : ∀ order ∈ h.order, order.Nodup)
    (horder' : ∀ order ∈ h'.order, order.Nodup) (hsame : h'.objects = h.objects) :
    h'.live.Perm h.live := by
  have hobject : h'.object? = h.object? := by
    funext a
    rw [object?, object?, hsame]
  refine (List.perm_ext_iff_of_nodup (nodup_live horder') (nodup_live horder)).mpr
    fun o => ⟨fun ho => ?_, fun ho => ?_⟩
  · obtain ⟨a, ha⟩ := exists_object?_of_mem_live ho
    exact mem_live (hobject ▸ ha)
  · obtain ⟨a, ha⟩ := exists_object?_of_mem_live ho
    exact mem_live (hobject ▸ ha)

end Heap

/-- Lists with the same members find the same, if all members agree on what is found. -/
theorem findSome?_eq_of_mem_iff {α β : Type} {f : α → Option β} {as bs : List α}
    (hmem : ∀ a, a ∈ as ↔ a ∈ bs)
    (hagree : ∀ a ∈ bs, ∀ b ∈ bs, ∀ x ∈ f a, ∀ y ∈ f b, x = y) :
    as.findSome? f = bs.findSome? f := by
  cases has : as.findSome? f with
  | none =>
    refine (List.findSome?_eq_none_iff.mpr fun b hb => ?_).symm
    exact List.findSome?_eq_none_iff.mp has b ((hmem b).mpr hb)
  | some x =>
    obtain ⟨a, ha, hx⟩ := List.exists_of_findSome?_eq_some has
    have hsome : (bs.findSome? f).isSome = true :=
      List.isSome_findSome?.trans (List.any_eq_true.mpr ⟨a, (hmem a).mp ha, by rw [hx]; rfl⟩)
    obtain ⟨y, hy⟩ := Option.isSome_iff_exists.mp hsome
    obtain ⟨b, hb, hfb⟩ := List.exists_of_findSome?_eq_some hy
    rw [hy, hagree a ((hmem a).mp ha) b hb x hx y hfb]

/-! ## Containers -/

namespace View

variable {v : View} {os : List HeapObject} {a : Address} {kind kind' : ContainerKind}

/-- An owner says that the container at an address is of a kind. -/
def Records (v : View) (a : Address) (kind : ContainerKind) : Prop :=
  ∃ o ∈ v.live, v.isLive o.address = true ∧ (a, kind) ∈ o.ownedContainers v

/-- If owners agree, a container is read as any of them says. -/
theorem containerKind?_eq_some_iff
    (hagree : ∀ kind kind', v.Records a kind → v.Records a kind' → kind = kind') :
    v.containerKind? a = some kind ↔ v.Records a kind := by
  have hrecords : ∀ kind, (a, kind) ∈ ((v.live.filter fun o => v.isLive o.address).flatMap
      (·.ownedContainers v)).reverse ↔ v.Records a kind := by
    intro kind
    simp only [List.mem_reverse, List.mem_flatMap, List.mem_filter, Records, and_assoc]
  have hfound : ∀ kind, v.containerKind? a = some kind → v.Records a kind := by
    intro kind hkind
    obtain ⟨⟨b, k⟩, hp, rfl⟩ := Option.map_eq_some_iff.mp hkind
    obtain rfl : b = a := by simpa using List.find?_some hp
    exact (hrecords k).mp (List.mem_of_find?_eq_some hp)
  refine ⟨hfound kind, fun hrecord => ?_⟩
  cases hkind : v.containerKind? a with
  | some k => rw [hagree k kind (hfound k hkind) hrecord]
  | none =>
    rw [containerKind?, Option.map_eq_none_iff, List.find?_eq_none] at hkind
    exact absurd (decide_eq_true rfl) (hkind _ ((hrecords kind).mpr hrecord))

theorem records_live (hperm : os.Perm v.live) :
    { v with live := os }.Records a kind ↔ v.Records a kind :=
  exists_congr fun _ => and_congr_left fun _ => hperm.mem_iff

theorem containerKind?_live (hperm : os.Perm v.live)
    (hagree : ∀ kind kind', v.Records a kind → v.Records a kind' → kind = kind') :
    { v with live := os }.containerKind? a = v.containerKind? a := by
  refine Option.ext fun kind => ?_
  rw [containerKind?_eq_some_iff hagree, containerKind?_eq_some_iff, records_live hperm]
  intro kind kind' hkind hkind'
  exact hagree kind kind' ((records_live hperm).mp hkind) ((records_live hperm).mp hkind')

end View

/-! ## Strokes -/

theorem HeapObject.visitStrokes_live {v : View} {os : List HeapObject} {o : HeapObject}
    (hkind : o.tag = .fixedArray →
      { v with live := os }.containerKind? o.address = v.containerKind? o.address) (pass : Pass) :
    o.visitStrokes { v with live := os } pass = o.visitStrokes v pass := by
  -- nothing else of what an object says depends on who is visited
  have hlive : { v with live := os }.isLive o.address = v.isLive o.address := rfl
  have hstrokes : ∀ kind, o.strokes { v with live := os } kind = o.strokes v kind := fun _ => rfl
  rw [visitStrokes, visitStrokes, hlive, hstrokes, strokes_congr hkind]

namespace View

variable {v : View} {os : List HeapObject}

/-- Owners agree on how arrays are to be read. -/
def ArraysAgree (v : View) : Prop :=
  ∀ o ∈ v.live, o.tag = .fixedArray → ∀ kind kind', v.Records o.address kind →
    v.Records o.address kind' → kind = kind'

theorem rootStrokes_live (v : View) (os : List HeapObject) :
    { v with live := os }.rootStrokes = v.rootStrokes := by
  have hrefs : ∀ (rs : List RootRef) (globals : List Address),
      ManagedHeap.rootStrokes { v with live := os } globals rs =
        ManagedHeap.rootStrokes v globals rs := by
    intro rs
    induction rs with
    | nil => exact fun _ => rfl
    | cons r rs ih =>
      intro globals
      rw [ManagedHeap.rootStrokes, ManagedHeap.rootStrokes, ih, ih]
      rfl
  exact congrArg (syntheticStrokes ++ ·) (hrefs _ _)

/-- A pass draws the same strokes in another order. -/
theorem perm_passStrokes (hperm : os.Perm v.live) (hagree : v.ArraysAgree) (pass : Pass) :
    ({ v with live := os }.passStrokes pass).Perm (v.passStrokes pass) := by
  have hvisit : { v with live := os }.passStrokes pass = os.flatMap (·.visitStrokes v pass) := by
    refine List.flatMap_congr fun o ho => HeapObject.visitStrokes_live (fun harray => ?_) pass
    exact containerKind?_live hperm (hagree o (hperm.mem_iff.mp ho) harray)
  rw [hvisit]
  exact hperm.flatMap_right _

theorem perm_heapStrokes (hperm : os.Perm v.live) (hagree : v.ArraysAgree) :
    { v with live := os }.heapStrokes.Perm v.heapStrokes := by
  rw [heapStrokes, heapStrokes, rootStrokes_live]
  exact ((perm_passStrokes hperm hagree .first).append
    (perm_passStrokes hperm hagree .second)).append_left _

end View

/-! ## Links -/

namespace Stroke

variable {before before' : List Link} {strokes strokes' : List Stroke}

theorem links_cons (before : List Link) (x : Stroke) (strokes : List Stroke) :
    links before (x :: strokes) = links (before ++ (x.link? before).toList) strokes :=
  rfl

theorem link?_eq_of_perm (hperm : before.Perm before') (x : Stroke) :
    x.link? before = x.link? before' := by
  cases x with
  | next kind source target => rw [link?, link?, hperm.countP_eq]
  | _ => rfl

/-- Labels that count edges do not see the order of these. -/
theorem perm_links_of_perm (hperm : before.Perm before') (strokes : List Stroke) :
    (links before strokes).Perm (links before' strokes) := by
  induction strokes generalizing before before' with
  | nil => exact hperm
  | cons x strokes ih =>
    rw [links_cons, links_cons, link?_eq_of_perm hperm]
    exact ih (hperm.append_right _)

/-- Links that count nothing stand by themselves. -/
theorem links_eq_append (hnext : ∀ kind source target, .next kind source target ∉ strokes)
    (before : List Link) : links before strokes = before ++ strokes.filterMap (link? []) := by
  induction strokes generalizing before with
  | nil => exact (List.append_nil _).symm
  | cons x strokes ih =>
    have hlink : x.link? before = x.link? [] := by
      cases x with
      | next kind source target => exact absurd List.mem_cons_self (hnext kind source target)
      | _ => rfl
    rw [links_cons, hlink,
      ih fun kind source target hmem => hnext kind source target (List.mem_cons_of_mem x hmem),
      List.append_assoc]
    congr 1
    cases hx : x.link? [] with
    | none => rw [List.filterMap_cons_none hx]; rfl
    | some l => rw [List.filterMap_cons_some hx]; rfl

end Stroke

namespace View

variable {v : View} {os : List HeapObject}

/-- In another order there are the same links. -/
theorem perm_links (hperm : os.Perm v.live) (hagree : v.ArraysAgree) :
    (Stroke.links [] { v with live := os }.strokes).Perm (Stroke.links [] v.strokes) := by
  have hheap : ∀ v : View, Stroke.links [] v.heapStrokes = Stroke.links [] v.rootStrokes ++
      (v.passStrokes .first ++ v.passStrokes .second).filterMap (Stroke.link? []) := by
    intro v
    rw [heapStrokes, Stroke.links_append]
    refine Stroke.links_eq_append (fun kind source target hmem => ?_) _
    rcases List.mem_append.mp hmem with hmem | hmem
    · exact Stroke.ofObjects_pass v .first _ hmem
    · exact Stroke.ofObjects_pass v .second _ hmem
  have hcompanions : { v with live := os }.companionStrokes = v.companionStrokes := rfl
  rw [strokes, strokes, Stroke.links_append, Stroke.links_append, hcompanions]
  refine Stroke.perm_links_of_perm ?_ _
  rw [hheap, hheap, rootStrokes_live]
  exact (((perm_passStrokes hperm hagree .first).append
    (perm_passStrokes hperm hagree .second)).filterMap _).append_left _

end View

/-! ## Tags -/

namespace Emission

variable {v : View} {a : Address}

/-- The name that an emission gives the object at an address. -/
def tag? (v : View) (a : Address) : Emission → Option String
  | .tag (.ref b) name => if v.isEssential b = true ∧ b = a then some name else none
  | _ => none

theorem names_value {value : Value} {about : Address → List Stroke}
    (habout : ∀ b, (about b).filterMap (Stroke.name? (.object a)) = []) :
    (value.strokes v about).filterMap (Stroke.name? (.object a)) = [] := by
  cases value with
  | small n => rfl
  | ref b =>
    rw [Value.strokes]
    split
    · exact habout b
    · rfl

theorem names_essential (kind : EdgeKind) (label : Label) (source : Place) (b : Address) :
    (if v.isEssential b then [Stroke.toObject kind label source b] else []).filterMap
      (Stroke.name? (.object a)) = [] := by
  split <;> rfl

/-- Tags and nothing else give names. -/
theorem names_strokes (e : Emission) (source : Place) :
    (e.strokes v source).filterMap (Stroke.name? (.object a)) = (e.tag? v a).toList := by
  cases e with
  | internal | weak => exact names_value fun b => names_essential ..
  | context | property | element | shortcut => exact names_value fun b => rfl
  | backingStore | node | container | silence => rfl
  | tag value name =>
    cases value with
    | small n => rfl
    | ref b =>
      have hname : Stroke.name? (.object a) (.name (.object b) name) =
          if b = a then some name else none := by
        simp [Stroke.name?]
      rw [strokes, tag?]
      by_cases hess : v.isEssential b = true
      · rw [if_pos hess, List.filterMap_cons_none rfl]
        by_cases hb : b = a
        · rw [if_pos hb] at hname
          rw [if_pos ⟨hess, hb⟩, List.filterMap_cons_some hname]
          rfl
        · rw [if_neg hb] at hname
          rw [if_neg fun h => hb h.2, List.filterMap_cons_none hname]
          rfl
      · rw [if_neg hess, if_neg fun h => hess h.1]
        rfl

/-- Slots that are not tagged. -/
theorem tag?_slot {o : HeapObject} {s : Nat} {f : Value → Emission}
    (hf : ∀ w, (f w).tag? v a = none) :
    ∀ e ∈ (match o.slot? s with | some w => [f w] | none => []), e.tag? v a = none := by
  split
  · exact List.forall_mem_singleton.mpr (hf _)
  · exact List.forall_mem_nil _

theorem tag?_optionally {slot : Option Nat} {f : Nat → List Emission}
    (hf : ∀ s, ∀ e ∈ f s, e.tag? v a = none) : ∀ e ∈ optionally slot f, e.tag? v a = none := by
  cases slot with
  | none => exact List.forall_mem_nil _
  | some s => exact hf s

end Emission

namespace HeapObject

variable {v : View} {o : HeapObject} {a : Address}

/-- The name that an object which is read in the first pass gives the object at an address. -/
def tagFor? (v : View) (o : HeapObject) (a : Address) : Option String :=
  if o.tag.isContainer then none
  else ((o.emissions v none).filterMap (·.tag? v a)).find? (· ≠ "")

theorem names_strokes (kind : Option ContainerKind) :
    (o.strokes v kind).filterMap (Stroke.name? (.object a)) =
      (o.emissions v kind).filterMap (·.tag? v a) := by
  have hsaid : ((o.emissions v kind).flatMap (·.strokes v o.place)).filterMap
      (Stroke.name? (.object a)) = (o.emissions v kind).filterMap (·.tag? v a) := by
    rw [List.filterMap_flatMap]
    simp only [Emission.names_strokes]
    induction o.emissions v kind with
    | nil => rfl
    | cons e es ih => cases he : e.tag? v a <;> simp [he, ih]
  have hshape : (o.shape.toList.flatMap fun shape =>
      (Emission.internal "map" (.ref shape) none).strokes v o.place).filterMap
        (Stroke.name? (.object a)) = [] := by
    rw [List.filterMap_flatMap]
    simp only [Emission.names_strokes]
    exact List.flatMap_eq_nil_iff.mpr fun _ _ => rfl
  have hhidden : (o.slots.zipIdx.flatMap (hiddenStrokes v o.place (o.isExplained v kind))).filterMap
      (Stroke.name? (.object a)) = [] := by
    rw [List.filterMap_flatMap]
    refine List.flatMap_eq_nil_iff.mpr fun p _ => ?_
    rw [hiddenStrokes]
    split
    · rfl
    · refine Emission.names_value fun b => ?_
      split
      · exact List.filterMap_eq_nil_iff.mpr (List.forall_mem_map.mpr fun _ _ => rfl)
      · rfl
  rw [strokes, List.filterMap_append, List.filterMap_append, hsaid, hshape, hhidden,
    List.append_nil, List.append_nil]

/-- Containers tag nothing. -/
theorem tag?_container (h : o.tag.isContainer = true) (kind : Option ContainerKind) :
    ∀ e ∈ o.emissions v kind, e.tag? v a = none := by
  have hinternal : ∀ name s, ∀ e ∈ o.internalSlot name s, e.tag? v a = none :=
    fun _ _ => Emission.tag?_slot fun _ => rfl
  have hweak : ∀ name s, ∀ e ∈ o.weakSlot name s, e.tag? v a = none :=
    fun _ _ => Emission.tag?_slot fun _ => rfl
  have hcontext : ∀ name s, ∀ e ∈ o.contextSlot name s, e.tag? v a = none :=
    fun _ _ => Emission.tag?_slot fun _ => rfl
  have hfield : ∀ f : ContextField, ∀ e ∈ if f.isWeak then o.weakSlot f.name f.slot
      else o.internalSlot f.name f.slot, e.tag? v a = none := by
    intro f
    split
    · exact hweak _ _
    · exact hinternal _ _
  unfold emissions
  split
  · unfold arrayEmissions
    split
    · refine List.forall_mem_flatMap.mpr fun p _ => List.forall_mem_append.mpr ⟨?_, ?_⟩
      · exact hweak _ _
      · exact hinternal _ _
    · exact List.forall_mem_flatMap.mpr fun s _ => hweak _ _
    · exact List.forall_mem_flatMap.mpr fun s _ => hinternal _ _
  · next harray =>
    have htag : o.tag = .context ∨ o.tag = .nativeContext := by
      unfold Tag.isContainer at h
      split at h
      · next htag => exact absurd htag harray
      · next htag => exact .inl htag
      · next htag => exact .inr htag
      · cases h
    rcases htag with htag | htag
    all_goals
      rw [detailEmissions, htag, if_neg (by decide), List.append_nil]
      cases o.detail with
      | context c =>
        simp only [List.forall_mem_append, List.forall_mem_flatMap, and_assoc]
        exact ⟨fun l _ => hcontext _ _, fun f _ => hcontext _ _, hinternal _ _, hinternal _ _,
          Emission.tag?_optionally fun s => hinternal _ _, hinternal _ _, fun f _ => hfield f,
          Emission.tag?_optionally fun s => List.forall_mem_singleton.mpr rfl⟩
      | _ => exact List.forall_mem_nil _

/-- The first name that an object of the first pass gives another. -/
theorem find?_names_visit (v : View) (o : HeapObject) (a : Address) :
    ((o.visitStrokes v .first).filterMap (Stroke.name? (.object a))).find? (· ≠ "") =
      if v.isLive o.address then o.tagFor? v a else none := by
  unfold visitStrokes
  split
  · rw [List.filterMap_cons_none rfl, tagFor?, Pass.visits_first]
    cases hcontainer : o.tag.isContainer with
    | true => rfl
    | false =>
      have harray : ¬ o.tag = .fixedArray := by
        intro htag
        rw [htag] at hcontainer
        cases hcontainer
      have hsaid : ∀ kind, o.emissions v kind = o.emissions v none := by
        intro kind
        rw [emissions, emissions, if_neg harray, if_neg harray]
      rw [Bool.not_false, if_pos rfl, names_strokes, hsaid]
      rfl
  · rfl

theorem names_visit_second (v : View) (o : HeapObject) (a : Address) :
    (o.visitStrokes v .second).filterMap (Stroke.name? (.object a)) = [] := by
  unfold visitStrokes
  split
  · rw [List.filterMap_cons_none rfl, Pass.visits_second]
    split
    · next hcontainer =>
      rw [names_strokes]
      exact List.filterMap_eq_nil_iff.mpr (tag?_container hcontainer _)
    · rfl
  · rfl

end HeapObject

theorem map_root_classifyRoots (all strong : List Root) :
    (classifyRoots all strong).map (·.root) = all := by
  fun_induction classifyRoots all strong <;> simp_all

namespace View

variable {v : View} {os : List HeapObject} {a : Address} {t : Thing}

/-- A root names the object as the code of a builtin. -/
def IsBuiltin (v : View) (a : Address) : Prop :=
  ∃ root ∈ v.allRoots, root.target = a ∧ root.builtinName?.isSome = true

/-- Those that tag the object at an address give it the same name. -/
def TagsAgree (v : View) (a : Address) : Prop :=
  ∀ o ∈ v.live, ∀ o' ∈ v.live, ∀ text ∈ o.tagFor? v a, ∀ text' ∈ o'.tagFor? v a, text = text'

/-- Array buffers with the same memory report the same size of it. -/
def StoresAgree (v : View) : Prop :=
  ∀ o ∈ v.live, ∀ o' ∈ v.live, ∀ store ∈ o.ownedStore?, ∀ store' ∈ o'.ownedStore?,
    store.address = store'.address → store.byteLength = store'.byteLength

theorem isSome_names_roots (hlive : v.isLive a = true) (h : v.IsBuiltin a) :
    ((v.rootStrokes.filterMap (Stroke.name? (.object a))).find? (· ≠ "")).isSome = true := by
  obtain ⟨root, hroot, rfl, hname⟩ := h
  obtain ⟨text, htext⟩ := Option.isSome_iff_exists.mp hname
  have hne : text ≠ "" := by
    unfold Root.builtinName? at htext
    split at htext
    · split at htext
      · cases htext
        intro hempty
        have hlength := congrArg String.length hempty
        simp at hlength
      · cases htext
    · cases htext
  have hrefs : ∀ (rs : List RootRef) (globals : List Address), (∃ r ∈ rs, r.root = root) →
      .name (.object root.target) text ∈ ManagedHeap.rootStrokes v globals rs := by
    intro rs
    induction rs with
    | nil => rintro globals ⟨r, hr, -⟩; cases hr
    | cons r rs ih =>
      rintro globals ⟨s, hs, hsroot⟩
      rw [ManagedHeap.rootStrokes]
      rcases List.mem_cons.mp hs with rfl | hs
      · rw [hsroot, if_pos hlive, htext]
        exact List.mem_cons_of_mem _ List.mem_cons_self
      · split
        · exact List.mem_cons_of_mem _ (List.mem_append_right _ (ih _ ⟨s, hs, hsroot⟩))
        · exact ih _ ⟨s, hs, hsroot⟩
  have hmem : .name (.object root.target) text ∈ v.rootStrokes := by
    refine List.mem_append_right _ (hrefs _ _ ?_)
    rw [← map_root_classifyRoots v.allRoots v.strongRoots] at hroot
    exact List.mem_map.mp hroot
  rw [List.find?_isSome]
  exact ⟨text, List.mem_filterMap.mpr ⟨_, hmem, if_pos rfl⟩, by simpa using hne⟩

theorem find?_names_first (v : View) (a : Address) :
    ((v.passStrokes .first).filterMap (Stroke.name? (.object a))).find? (· ≠ "") =
      v.live.findSome? fun o => if v.isLive o.address then o.tagFor? v a else none := by
  rw [passStrokes, List.filterMap_flatMap, List.find?_flatMap]
  simp only [HeapObject.find?_names_visit]

/-- Names come from roots, and otherwise from objects of the first pass. -/
theorem find?_names (v : View) (a : Address) :
    (v.strokes.filterMap (Stroke.name? (.object a))).find? (· ≠ "") =
      ((v.rootStrokes.filterMap (Stroke.name? (.object a))).find? (· ≠ "")).or
        (v.live.findSome? fun o => if v.isLive o.address then o.tagFor? v a else none) := by
  have hsecond : (v.passStrokes .second).filterMap (Stroke.name? (.object a)) = [] := by
    rw [passStrokes, List.filterMap_flatMap]
    exact List.flatMap_eq_nil_iff.mpr fun o _ => o.names_visit_second v a
  have hcompanions : v.companionStrokes.filterMap (Stroke.name? (.object a)) = [] := by
    refine List.filterMap_eq_nil_iff.mpr fun x hx => ?_
    cases x with
    | name => cases Stroke.ofCompanions_companions v _ hx
    | _ => rfl
  rw [strokes, heapStrokes, List.filterMap_append, List.filterMap_append, List.filterMap_append,
    hsecond, hcompanions, List.append_nil, List.append_nil, List.find?_append, find?_names_first]

/-- A name that a root gives, or that all who tag agree on, does not depend on the order. -/
theorem find?_names_live (hperm : os.Perm v.live) (hlive : v.isLive a = true)
    (h : v.IsBuiltin a ∨ v.TagsAgree a) :
    ({ v with live := os }.strokes.filterMap (Stroke.name? (.object a))).find? (· ≠ "") =
      (v.strokes.filterMap (Stroke.name? (.object a))).find? (· ≠ "") := by
  rw [find?_names, find?_names, rootStrokes_live]
  rcases h with hbuiltin | hagree
  · obtain ⟨text, htext⟩ := Option.isSome_iff_exists.mp (isSome_names_roots hlive hbuiltin)
    rw [htext]
    rfl
  · have htagged : ∀ (o : HeapObject) (text : String),
        (if v.isLive o.address then o.tagFor? v a else none) = some text →
          text ∈ o.tagFor? v a := by
      intro o text htext
      split at htext
      · exact htext
      · cases htext
    congr 1
    refine findSome?_eq_of_mem_iff (fun o => hperm.mem_iff) ?_
    intro o ho o' ho' text htext text' htext'
    exact hagree o ho o' ho' text (htagged o text htext) text' (htagged o' text' htext')

/-- Only objects get names. -/
theorem names_eq_nil (ht : ∀ a, t ≠ .object a) (v : View) :
    v.strokes.filterMap (Stroke.name? t) = [] := by
  refine List.filterMap_eq_nil_iff.mpr fun x hx => ?_
  cases x with
  | name u text =>
    have hobject : ∃ a, u = .object a := by
      rcases ofAny_strokes hx with (hroots | hobjects) | hcompanions
      · exact hroots
      · exact hobjects
      · cases hcompanions
    obtain ⟨a, rfl⟩ := hobject
    exact if_neg fun heq => ht a heq.symm
  | _ => rfl

/-! ## Looks -/

variable {sc : Scope}

/-- What heap strokes say about a thing's look is the same for all of them. -/
theorem look?_agree (hstores : v.StoresAgree) : ∀ x ∈ v.heapStrokes, ∀ y ∈ v.heapStrokes,
    ∀ l ∈ x.look? sc t, ∀ l' ∈ y.look? sc t, l = l' := by
  have hnative : ∀ u n, .native u n ∉ v.heapStrokes := by
    intro u n hmem
    rcases ofHeap_strokes hmem with hroots | hobjects
    · cases hroots
    · cases hobjects
  have howned : ∀ memory, .store memory ∈ v.heapStrokes →
      ∃ o ∈ v.live, o.ownedStore? = some memory := by
    intro memory hmem
    rcases ofHeap_strokes hmem with hroots | hobjects
    · cases hroots
    · exact hobjects
  intro x hx y hy l hl l' hl'
  have hxt : x.thing? = some t := Stroke.thing?_of_look? hl
  have hyt : y.thing? = some t := Stroke.thing?_of_look? hl'
  cases x with
  | object a =>
    cases hxt
    cases y with
    | object b => cases hyt; exact Option.some.inj (hl.symm.trans hl')
    | store | edge | next | name => cases hyt
    | native u n => exact absurd hy (hnative u n)
  | store memory =>
    cases hxt
    cases y with
    | store memory' =>
      have haddress : memory'.address = memory.address := by
        injection hyt with hyt
        injection hyt
      obtain ⟨o, ho, hstore⟩ := howned memory hx
      obtain ⟨o', ho', hstore'⟩ := howned memory' hy
      rw [Stroke.look?, if_pos rfl] at hl
      rw [Stroke.look?, if_pos (congrArg Thing.backingStore haddress)] at hl'
      rw [← Option.some.inj hl, ← Option.some.inj hl',
        hstores o ho o' ho' memory hstore memory' hstore' haddress.symm]
    | object | edge | next | name => cases hyt
    | native u n => exact absurd hy (hnative u n)
  | native u n => exact absurd hx (hnative u n)
  | edge | next | name => cases hxt

theorem findSome?_look?_live (hperm : os.Perm sc.view.live) (harrays : sc.view.ArraysAgree)
    (hstores : sc.view.StoresAgree) (t : Thing) :
    { sc.view with live := os }.strokes.findSome?
        (Stroke.look? { sc with view := { sc.view with live := os } } t) =
      sc.view.strokes.findSome? (Stroke.look? sc t) := by
  have hlook : Stroke.look? { sc with view := { sc.view with live := os } } t =
      Stroke.look? sc t := by
    funext x
    cases x <;> rfl
  rw [strokes, strokes, List.findSome?_append, List.findSome?_append, hlook,
    findSome?_eq_of_mem_iff (fun x => (perm_heapStrokes hperm harrays).mem_iff)
      (look?_agree hstores)]
  rfl

/-- An object looks as described, whoever mentions it first. -/
theorem look_of_findSome? {l : Look}
    (hl : sc.view.strokes.findSome? (Stroke.look? sc (.object a)) = some l) :
    l = (sc.objectNode a ObjectId.unknown).look := by
  obtain ⟨x, hx, hlook⟩ := List.exists_of_findSome?_eq_some hl
  have hthing : x.thing? = some (.object a) := Stroke.thing?_of_look? hlook
  cases x with
  | object b =>
    cases hthing
    rw [Stroke.look?, if_pos rfl, Option.some.injEq] at hlook
    exact hlook.symm
  | native u n =>
    cases hthing
    rcases ofAny_strokes hx with (hroots | hobjects) | ⟨c, -, ⟨hgroup, -⟩ | ⟨hid, -⟩⟩
    · cases hroots
    · cases hobjects
    · cases hgroup
    · cases hid
  | store | edge | next | name => cases hthing

/-- In another order every thing looks the same. -/
theorem lookOf?_live (sc : Scope) (hperm : os.Perm sc.view.live) (harrays : sc.view.ArraysAgree)
    (hstores : sc.view.StoresAgree)
    (hnames : ∀ a o, sc.view.object? a = some o → (o.describe sc).2 = "" →
      sc.view.IsBuiltin a ∨ sc.view.TagsAgree a) (t : Thing) :
    Stroke.lookOf? { sc with view := { sc.view with live := os } }
        { sc.view with live := os }.strokes t =
      Stroke.lookOf? sc sc.view.strokes t := by
  rw [Stroke.lookOf?, Stroke.lookOf?, findSome?_look?_live hperm harrays hstores]
  cases hfirst : sc.view.strokes.findSome? (Stroke.look? sc t) with
  | none => rfl
  | some l =>
    rw [Option.map_some, Option.map_some, Look.foldl_named, Look.foldl_named]
    by_cases hempty : l.name = ""
    · rw [if_pos hempty, if_pos hempty]
      suffices hfind : ({ sc.view with live := os }.strokes.filterMap (Stroke.name? t)).find?
          (· ≠ "") = (sc.view.strokes.filterMap (Stroke.name? t)).find? (· ≠ "") by rw [hfind]
      by_cases ht : ∃ a, t = .object a
      · obtain ⟨a, rfl⟩ := ht
        rw [look_of_findSome? hfirst, Scope.objectNode] at hempty
        cases hobject : sc.view.object? a with
        | none =>
          rw [hobject] at hempty
          exact absurd (show "(unresolved)" = "" from hempty) (by decide)
        | some o =>
          rw [hobject] at hempty
          exact find?_names_live hperm (Option.isSome_of_eq_some hobject)
            (hnames a o hobject hempty)
      · have ht : ∀ a, t ≠ .object a := fun a ha => ht ⟨a, ha⟩
        rw [names_eq_nil ht, names_eq_nil ht]
    · rw [if_neg hempty, if_neg hempty]

end View

end ManagedHeap
