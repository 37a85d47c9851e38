import ManagedHeap.Proofs.Depiction
import ManagedHeap.Proofs.Residence

/-!
# What a capture depicts

The strokes of a capture with the built-in handlers are about nothing but what the heap holds: live
objects, the memory that live array buffers own, native objects and their groups. All of these get
nodes, and every stroke comes after those of the things that it is about. So a capture depicts its
strokes, `Capture.depicts_drawn`.
-/
namespace ManagedHeap

/-- The memory outside the heap that an array buffer owns. -/
def HeapObject.ownedStore? (o : HeapObject) : Option BackingStore :=
  if o.tag = .arrayBuffer then o.backingStore? else none

namespace View

/-- The objects that are visited are those that live. -/
def Faithful (v : View) : Prop := ∀ a, v.isLive a = true ↔ ∃ o ∈ v.live, o.address = a

/-- What there is to depict. -/
def Holds (v : View) : Thing → Prop
  | .object a => v.isLive a = true
  | .backingStore a => ∃ o ∈ v.live, ∃ store, o.ownedStore? = some store ∧ store.address = a
  | .native id => ∃ c ∈ v.companions, c.id = id
  | .nativeGroup label => ∃ c ∈ v.companions, c.group = label

end View

theorem Heap.faithful (h : Heap) : h.view.Faithful := by
  intro a
  constructor
  · intro hlive
    obtain ⟨o, ho⟩ := Option.isSome_iff_exists.mp hlive
    exact ⟨o, Heap.mem_live ho, h.keyed a o ho⟩
  · rintro ⟨o, ho, rfl⟩
    obtain ⟨b, hb⟩ := exists_object?_of_mem_live ho
    rw [← h.keyed b o hb] at hb
    exact Option.isSome_iff_exists.mpr ⟨o, hb⟩

/-! ## What is said about memory outside the heap -/

namespace HeapObject

variable {v : View} {o : HeapObject} {kind : Option ContainerKind}

/-- What properties and elements say does not depend on the detail. -/
theorem layoutEmissions_detail (v : View) (o : HeapObject) (detail : Detail) :
    { o with detail := detail }.layoutEmissions v = o.layoutEmissions v := by
  have hembedder : ∀ (fields : List Nat) (ordinal : Nat),
      { o with detail := detail }.embedderEmissions ordinal fields =
        o.embedderEmissions ordinal fields := by
    intro fields
    induction fields with
    | nil => exact fun _ => rfl
    | cons slot slots ih =>
      intro ordinal
      rw [embedderEmissions, embedderEmissions, ih]
      rfl
  unfold layoutEmissions
  dsimp only
  split
  · rfl
  · rw [hembedder]
    rfl

/-- Only array buffers speak of memory outside the heap. -/
theorem ownedStore?_of_mem {name : String} {store : BackingStore}
    (h : .backingStore name store ∈ o.emissions v kind) : o.ownedStore? = some store := by
  have hstore : o.backingStore? = some store := by
    cases Emission.allSayable_emissions v kind _ h with
    | backingStore hstore => exact hstore
  by_cases htag : o.tag = .arrayBuffer
  · rw [ownedStore?, if_pos htag, hstore]
  · -- nothing is read from the detail, so without it the object says the same
    have hdetail : ∃ memory, o.detail = .arrayBuffer memory := by
      unfold backingStore? at hstore
      split at hstore
      · next memory hmemory => exact ⟨memory, hmemory⟩
      · cases hstore
    obtain ⟨memory, hmemory⟩ := hdetail
    have hsame : o.emissions v kind = { o with detail := .none }.emissions v kind := by
      have hnone : o.detailEmissions v = [] := by
        unfold detailEmissions
        split <;> simp_all
      have hnone' : { o with detail := .none }.detailEmissions v = [] := by
        unfold detailEmissions
        split <;> simp_all
      have harray : o.arrayEmissions kind = { o with detail := .none }.arrayEmissions kind := by
        unfold arrayEmissions
        rw [hmemory]
        rcases kind with _ | _ | _ <;> rfl
      simp only [emissions, hnone, hnone', harray, layoutEmissions_detail]
    rw [hsame] at h
    cases Emission.allSayable_emissions v kind _ h with
    | backingStore hnone => cases hnone

theorem mem_emissions_of_ownedStore? {store : BackingStore} (h : o.ownedStore? = some store) :
    .backingStore "backing_store" store ∈ o.emissions v kind := by
  unfold ownedStore? at h
  split at h
  · next htag =>
    unfold backingStore? at h
    split at h
    · next memory hdetail =>
      subst h
      have hsaid : o.detailEmissions v = [.backingStore "backing_store" store] := by
        unfold detailEmissions
        rw [htag, hdetail]
      have harray : ¬ o.tag = .fixedArray := by rw [htag]; decide
      rw [emissions, if_neg harray, hsaid]
      exact List.mem_append_left _ List.mem_cons_self
    · cases h
  · cases h

end HeapObject

/-! ## Where strokes come from -/

namespace Stroke

variable {v : View} {source : Place}

/-- Objects that are read get nodes and edges, and name others. The memory that is drawn beside
them satisfies `S`. -/
def OfHandlers (S : BackingStore → Prop) (v : View) : Stroke → Prop
  | .object a => v.isLive a = true
  | .store memory => S memory
  | .name t _ => ∃ a, t = .object a
  | .edge _ _ _ _ => True
  | .native _ _ | .next _ _ _ => False

/-- With the built-in handlers the memory is that of live array buffers. -/
abbrev OfObjects (v : View) : Stroke → Prop :=
  OfHandlers (fun memory => ∃ o ∈ v.live, o.ownedStore? = some memory) v

/-- Roots lead to objects. -/
def OfRoots (v : View) : Stroke → Prop
  | .object a => v.isLive a = true
  | .name t _ => ∃ a, t = .object a
  | .edge _ _ _ _ | .next _ _ _ => True
  | .store _ | .native _ _ => False

/-- Native objects and groups get nodes and edges. -/
def OfCompanions (v : View) : Stroke → Prop
  | .native t n => ∃ c ∈ v.companions,
    t = .nativeGroup c.group ∧ n = Companion.groupNode c.group ∨ t = .native c.id ∧ n = c.node
  | .edge _ _ _ _ | .next _ _ _ => True
  | .object _ | .store _ | .name _ _ => False

variable {S : BackingStore → Prop}

theorem ofHandlers_value {value : Value} {about : Address → List Stroke}
    (habout : ∀ a, ∀ x ∈ about a, x.OfHandlers S v) :
    ∀ x ∈ value.strokes v about, x.OfHandlers S v := by
  cases value with
  | small n => exact List.forall_mem_nil _
  | ref a =>
    rw [Value.strokes]
    split
    · next hlive => exact List.forall_mem_cons.mpr ⟨hlive, habout a⟩
    · exact List.forall_mem_nil _

theorem ofHandlers_toObject (kind : EdgeKind) (label : Label) (a : Address) :
    ∀ x ∈ [Stroke.toObject kind label source a], x.OfHandlers S v :=
  List.forall_mem_singleton.mpr trivial

theorem ofHandlers_essential (kind : EdgeKind) (label : Label) (a : Address) :
    ∀ x ∈ if v.isEssential a then [Stroke.toObject kind label source a] else [],
      x.OfHandlers S v := by
  split
  · exact ofHandlers_toObject kind label a
  · exact List.forall_mem_nil _

theorem ofHandlers_emission {e : Emission} (hstore : ∀ store ∈ e.store?, S store) :
    ∀ x ∈ e.strokes v source, x.OfHandlers S v := by
  cases e with
  | internal | weak => exact ofHandlers_value fun a => ofHandlers_essential _ _ a
  | context | property | element | shortcut =>
    exact ofHandlers_value fun a => ofHandlers_toObject _ _ a
  | backingStore name store =>
    exact List.forall_mem_cons.mpr ⟨hstore store rfl, List.forall_mem_singleton.mpr trivial⟩
  | tag value name =>
    cases value with
    | small n => exact List.forall_mem_nil _
    | ref a =>
      rw [Emission.strokes]
      split
      · next hess =>
        exact List.forall_mem_cons.mpr
          ⟨View.isLive_of_isEssential hess, List.forall_mem_singleton.mpr ⟨a, rfl⟩⟩
      · exact List.forall_mem_nil _
  | node | container | silence => exact List.forall_mem_nil _

theorem ofHandlers_hidden (isExplained : Nat → Bool) (p : Value × Nat) :
    ∀ x ∈ hiddenStrokes v source isExplained p, x.OfHandlers S v := by
  obtain ⟨value, slot⟩ := p
  rw [hiddenStrokes]
  split
  · exact List.forall_mem_nil _
  · refine ofHandlers_value fun a => ?_
    split
    · exact List.forall_mem_map.mpr fun _ _ => trivial
    · exact List.forall_mem_nil _

theorem ofObjects_object {o : HeapObject} (ho : o ∈ v.live) (kind : Option ContainerKind) :
    ∀ x ∈ o.strokes v kind, x.OfObjects v := by
  rw [HeapObject.strokes, List.forall_mem_append, List.forall_mem_append,
    List.forall_mem_flatMap, List.forall_mem_flatMap, List.forall_mem_flatMap]
  refine ⟨⟨fun e he => ofHandlers_emission fun store hs => ?_,
    fun shape _ => ofHandlers_emission fun store hs => ?_⟩, fun p _ => ofHandlers_hidden _ p⟩
  · cases e with
    | backingStore name memory =>
      cases hs
      exact ⟨o, ho, HeapObject.ownedStore?_of_mem he⟩
    | _ => cases hs
  · cases hs

theorem ofObjects_visit {o : HeapObject} (ho : o ∈ v.live) (pass : Pass) :
    ∀ x ∈ o.visitStrokes v pass, x.OfObjects v := by
  unfold HeapObject.visitStrokes
  split
  · next hlive =>
    refine List.forall_mem_cons.mpr ⟨hlive, ?_⟩
    split
    · exact ofObjects_object ho _
    · exact List.forall_mem_nil _
  · exact List.forall_mem_nil _

theorem ofObjects_pass (v : View) (pass : Pass) : ∀ x ∈ v.passStrokes pass, x.OfObjects v :=
  List.forall_mem_flatMap.mpr fun _ ho => ofObjects_visit ho pass

/-- What holds of each sort of stroke that roots ask for holds of all their strokes. -/
theorem forall_mem_roots {P : Stroke → Prop} (hobject : ∀ a, v.isLive a = true → P (.object a))
    (hname : ∀ a text, P (.name (.object a) text))
    (hedge : ∀ category name target,
      P (.edge .internal (.name name) (.fixed (Graph.categoryIndex category)) target))
    (hnext : ∀ kind index target, P (.next kind (.fixed index) target)) :
    ∀ x ∈ v.rootStrokes, P x := by
  have hglobal : ∀ global, ∀ x ∈ globalStrokes v global, P x := by
    intro global
    unfold globalStrokes
    split
    · next hlive =>
      exact List.forall_mem_cons.mpr
        ⟨hobject global hlive, List.forall_mem_singleton.mpr (hnext _ _ _)⟩
    · exact List.forall_mem_nil _
  have hstroke : ∀ r : RootRef, P r.stroke := by
    intro r
    unfold RootRef.stroke
    dsimp only
    split
    · exact hnext _ _ _
    · split
      · exact hnext _ _ _
      · cases r.root.name with
        | some name => exact hedge _ name _
        | none => exact hnext _ _ _
  have hrefs : ∀ (rs : List RootRef) (globals : List Address),
      ∀ x ∈ ManagedHeap.rootStrokes v globals rs, P x := by
    intro rs
    induction rs with
    | nil => exact fun _ => List.forall_mem_nil _
    | cons r rs ih =>
      intro globals
      rw [ManagedHeap.rootStrokes]
      split
      · next hlive =>
        refine List.forall_mem_cons.mpr ⟨hobject _ hlive, ?_⟩
        rw [List.append_assoc, List.forall_mem_append, List.cons_append, List.forall_mem_cons,
          List.forall_mem_append]
        exact ⟨List.forall_mem_map.mpr fun text _ => hname _ text, hstroke r,
          List.forall_mem_flatMap.mpr fun global _ => hglobal global, ih _⟩
      · exact ih globals
  rw [View.rootStrokes, List.forall_mem_append]
  exact ⟨List.forall_mem_cons.mpr ⟨hnext _ _ _, List.forall_mem_map.mpr fun _ _ => hnext _ _ _⟩,
    hrefs _ _⟩

theorem ofRoots_roots (v : View) : ∀ x ∈ v.rootStrokes, x.OfRoots v :=
  forall_mem_roots (fun _ hlive => hlive) (fun a _ => ⟨a, rfl⟩) (fun _ _ _ => trivial)
    fun _ _ _ => trivial

theorem ofCompanions_companions (v : View) : ∀ x ∈ v.companionStrokes, x.OfCompanions v := by
  rw [View.companionStrokes, List.forall_mem_append, List.forall_mem_flatMap]
  refine ⟨fun c hc => ?_, List.forall_mem_map.mpr fun _ _ => trivial⟩
  refine List.forall_mem_cons.mpr ⟨⟨c, hc, .inl ⟨rfl, rfl⟩⟩,
    List.forall_mem_cons.mpr ⟨⟨c, hc, .inr ⟨rfl, rfl⟩⟩, List.forall_mem_cons.mpr ⟨trivial, ?_⟩⟩⟩
  refine List.forall_mem_flatMap.mpr fun w _ => ?_
  exact List.forall_mem_cons.mpr ⟨trivial, List.forall_mem_singleton.mpr trivial⟩

/-! ## Strokes in their order -/

variable {known : Thing → Prop}

theorem placed_value {value : Value} {about : Address → List Stroke}
    (habout : ∀ a, Placed (fun t => known t ∨ some (.object a) = some t) (about a)) :
    Placed known (value.strokes v about) := by
  cases value with
  | small n => trivial
  | ref a =>
    rw [Value.strokes]
    split
    · exact ⟨trivial, habout a⟩
    · trivial

theorem placed_toObject (hsource : source.Known known) {kind : EdgeKind} {label : Label}
    (hlabel : kind.isIndexed = label.isIndex) (a : Address) :
    Placed (fun t => known t ∨ some (.object a) = some t) [.toObject kind label source a] :=
  ⟨⟨hlabel, hsource.mono fun _ => .inl, .inr rfl⟩, trivial⟩

theorem placed_essential (hsource : source.Known known) {kind : EdgeKind} {label : Label}
    (hlabel : kind.isIndexed = label.isIndex) (a : Address) :
    Placed (fun t => known t ∨ some (.object a) = some t)
      (if v.isEssential a then [.toObject kind label source a] else []) := by
  split
  · exact placed_toObject hsource hlabel a
  · trivial

theorem placed_emission (e : Emission) (hsource : source.Known known) :
    Placed known (e.strokes v source) := by
  have hproperty : ∀ key, (Survey.propertyKind key).isIndexed = false := by
    intro key
    unfold Survey.propertyKind
    split <;> rfl
  cases e with
  | internal | weak => exact placed_value fun a => placed_essential hsource rfl a
  | context | shortcut | element => exact placed_value fun a => placed_toObject hsource rfl a
  | property => exact placed_value fun a => placed_toObject hsource (hproperty _) a
  | backingStore =>
    exact ⟨trivial, ⟨rfl, hsource.mono fun _ => .inl, .inr rfl⟩, trivial⟩
  | tag value name =>
    cases value with
    | small n => trivial
    | ref a =>
      rw [Emission.strokes]
      split
      · exact ⟨trivial, .inr rfl, trivial⟩
      · trivial
  | node | container | silence => trivial

theorem placed_hidden (hsource : source.Known known) (isExplained : Nat → Bool)
    (p : Value × Nat) : Placed known (hiddenStrokes v source isExplained p) := by
  obtain ⟨value, slot⟩ := p
  rw [hiddenStrokes]
  split
  · trivial
  · refine placed_value fun a => ?_
    split
    · cases Survey.hiddenLabel? slot with
      | none => trivial
      | some n => exact placed_toObject hsource rfl a
    · trivial

theorem placed_object {o : HeapObject} (ho : known (.object o.address))
    (kind : Option ContainerKind) : Placed known (o.strokes v kind) := by
  have hsource : ∀ {known : Thing → Prop}, known (.object o.address) → o.place.Known known := id
  rw [HeapObject.strokes, placed_append, placed_append]
  exact ⟨⟨placed_flatMap fun e _ => placed_emission e (hsource ho),
    placed_flatMap fun shape _ => placed_emission _ (hsource (Or.inl ho))⟩,
    placed_flatMap fun p _ => placed_hidden (hsource (Or.inl ho)) _ p⟩

theorem placed_pass (pass : Pass) : Placed known (v.passStrokes pass) := by
  refine placed_flatMap fun o _ => ?_
  unfold HeapObject.visitStrokes
  split
  · refine ⟨trivial, ?_⟩
    split
    · exact placed_object (.inr rfl) _
    · trivial
  · trivial

theorem categoryIndex_lt (c : RootCategory) :
    Graph.categoryIndex c < Graph.withRoots.nodeCount := by
  cases c <;> decide

theorem placed_roots : Placed known v.rootStrokes := by
  have hsynthetic : ∀ (cs : List RootCategory) (known : Thing → Prop), Placed known
      (cs.map fun c => .next .element (.fixed Graph.collectorIndex)
        (.fixed (Graph.categoryIndex c))) := by
    intro cs
    induction cs with
    | nil => exact fun _ => trivial
    | cons c cs ih =>
      exact fun known =>
        ⟨⟨show Graph.collectorIndex < _ by decide, categoryIndex_lt c⟩, ih _⟩
  have hglobal : ∀ (global : Address) (known : Thing → Prop),
      Placed known (globalStrokes v global) := by
    intro global known
    unfold globalStrokes
    split
    · exact ⟨trivial, ⟨show Graph.rootIndex < _ by decide, .inr rfl⟩, trivial⟩
    · trivial
  have hstroke : ∀ (r : RootRef) (known : Thing → Prop), known (.object r.root.target) →
      r.stroke.Ready known := by
    intro r known htarget
    have hparent := categoryIndex_lt r.root.category
    unfold RootRef.stroke
    dsimp only
    split
    · exact ⟨hparent, htarget⟩
    · split
      · exact ⟨hparent, htarget⟩
      · cases r.root.name with
        | some name => exact ⟨rfl, hparent, htarget⟩
        | none => exact ⟨hparent, htarget⟩
  have hrefs : ∀ (rs : List RootRef) (globals : List Address) (known : Thing → Prop),
      Placed known (ManagedHeap.rootStrokes v globals rs) := by
    intro rs
    induction rs with
    | nil => exact fun _ _ => trivial
    | cons r rs ih =>
      intro globals known
      rw [ManagedHeap.rootStrokes]
      split
      · refine ⟨trivial, ?_⟩
        rw [List.append_assoc, placed_append, List.cons_append]
        refine ⟨?_, hstroke r _ (.inl (.inr rfl)), ?_⟩
        · cases r.root.builtinName? with
          | none => trivial
          | some text => exact ⟨.inr rfl, trivial⟩
        · rw [placed_append]
          exact ⟨placed_flatMap fun global _ => hglobal global _, ih _ _⟩
      · exact ih globals known
  rw [View.rootStrokes, placed_append]
  exact ⟨⟨⟨show Graph.rootIndex < _ by decide, show Graph.collectorIndex < _ by decide⟩,
    hsynthetic _ _⟩, hrefs _ _ _⟩

theorem placed_heap : Placed known v.heapStrokes := by
  rw [View.heapStrokes, placed_append, placed_append]
  exact ⟨placed_roots, placed_pass .first, placed_pass .second⟩

theorem mem_newGroups {known : List String} {cs : List Companion} {label : String} :
    label ∈ newGroups known cs ↔ label ∉ known ∧ ∃ c ∈ cs, c.group = label := by
  induction cs generalizing known with
  | nil => simp [newGroups]
  | cons c cs ih =>
    rw [newGroups]
    split
    · next hknown =>
      rw [ih, List.exists_mem_cons_iff]
      refine and_congr_right fun hlabel => (or_iff_right ?_).symm
      rintro rfl
      exact hlabel hknown
    · next hnew =>
      rw [List.mem_cons, ih, List.exists_mem_cons_iff, List.mem_cons]
      by_cases hlabel : label = c.group
      · subst hlabel; simp [hnew]
      · simp [hlabel, Ne.symm hlabel]

theorem placed_companion (hwrapper : ∀ w, v.isLive w = true → known (.object w))
    (c : Companion) : Placed known (c.strokes v) := by
  refine ⟨rfl, rfl, ⟨.inl (.inr rfl), .inr rfl⟩, placed_flatMap fun w hw => ?_⟩
  have hobject := hwrapper w (List.mem_filter.mp hw).2
  exact ⟨⟨rfl, .inl (.inl (.inl hobject)), .inl (.inr rfl)⟩,
    ⟨.inl (.inl (.inr rfl)), .inl (.inl (.inl (.inl hobject)))⟩, trivial⟩

theorem placed_companions (hwrapper : ∀ w, v.isLive w = true → known (.object w)) :
    Placed known v.companionStrokes := by
  have hgroups : ∀ (labels : List String) (known : Thing → Prop),
      (∀ label ∈ labels, known (.nativeGroup label)) →
        Placed known (labels.map groupStroke) := by
    intro labels
    induction labels with
    | nil => exact fun _ _ => trivial
    | cons label labels ih =>
      exact fun known h => ⟨⟨show Graph.rootIndex < _ by decide, h label List.mem_cons_self⟩,
        ih _ fun u hu => .inl (h u (List.mem_cons_of_mem label hu))⟩
  rw [View.companionStrokes, placed_append]
  refine ⟨placed_flatMap fun c _ => placed_companion hwrapper c, hgroups _ _ fun label hl => ?_⟩
  obtain ⟨-, c, hc, rfl⟩ := mem_newGroups.mp hl
  exact .inr ⟨_, List.mem_flatMap.mpr ⟨c, hc, List.mem_cons_self⟩, rfl⟩

end Stroke

/-! ## Things that the strokes of a capture are about -/

namespace View

variable {v : View} {t : Thing}

theorem holds_of_ofObjects {x : Stroke} (hx : x.OfObjects v) (ht : x.thing? = some t) :
    v.Holds t ∧ t.nativeId? = none := by
  cases x with
  | object a => cases ht; exact ⟨hx, rfl⟩
  | store memory =>
    cases ht
    obtain ⟨o, ho, hstore⟩ := hx
    exact ⟨⟨o, ho, memory, hstore, rfl⟩, rfl⟩
  | native => cases hx
  | edge | next | name => cases ht

theorem ofHeap_strokes {x : Stroke} (hx : x ∈ v.heapStrokes) : x.OfRoots v ∨ x.OfObjects v := by
  rw [heapStrokes, List.mem_append, List.mem_append] at hx
  rcases hx with hx | hx | hx
  · exact .inl (Stroke.ofRoots_roots v x hx)
  · exact .inr (Stroke.ofObjects_pass v .first x hx)
  · exact .inr (Stroke.ofObjects_pass v .second x hx)

theorem exists_heapStroke_iff (hv : v.Faithful) :
    (∃ x ∈ v.heapStrokes, x.thing? = some t) ↔ v.Holds t ∧ t.nativeId? = none := by
  constructor
  · rintro ⟨x, hx, ht⟩
    rcases ofHeap_strokes hx with hroots | hobjects
    · cases x with
      | object a => cases ht; exact ⟨hroots, rfl⟩
      | store | native => cases hroots
      | edge | next | name => cases ht
    · exact holds_of_ofObjects hobjects ht
  · rintro ⟨hholds, hnative⟩
    have hfirst : ∀ o ∈ v.live, ∀ x ∈ o.visitStrokes v .first, x ∈ v.heapStrokes := by
      intro o ho x hx
      rw [heapStrokes, List.mem_append, List.mem_append]
      exact .inr (.inl (List.mem_flatMap.mpr ⟨o, ho, hx⟩))
    cases t with
    | object a =>
      have hlive : v.isLive a = true := hholds
      obtain ⟨o, ho, rfl⟩ := (hv a).mp hlive
      refine ⟨.object o.address, hfirst o ho _ ?_, rfl⟩
      rw [HeapObject.visitStrokes, if_pos hlive]
      exact List.mem_cons_self
    | backingStore a =>
      obtain ⟨o, ho, store, hstore, rfl⟩ := hholds
      refine ⟨.store store, hfirst o ho _ ?_, rfl⟩
      have hlive : v.isLive o.address = true := (hv _).mpr ⟨o, ho, rfl⟩
      have hvisits : Pass.first.visits o.tag = true := by
        unfold HeapObject.ownedStore? at hstore
        split at hstore
        · next htag => rw [htag]; rfl
        · cases hstore
      rw [HeapObject.visitStrokes, if_pos hlive, if_pos hvisits, HeapObject.strokes]
      refine List.mem_cons_of_mem _ (List.mem_append_left _ (List.mem_append_left _ ?_))
      exact List.mem_flatMap.mpr
        ⟨_, HeapObject.mem_emissions_of_ownedStore? hstore, List.mem_cons_self⟩
    | native | nativeGroup => cases hnative

theorem exists_companionStroke_iff :
    (∃ x ∈ v.companionStrokes, x.thing? = some t) ↔ v.Holds t ∧ t.nativeId?.isSome = true := by
  constructor
  · rintro ⟨x, hx, ht⟩
    cases x with
    | native u n =>
      cases ht
      obtain ⟨c, hc, ⟨rfl, -⟩ | ⟨rfl, -⟩⟩ := Stroke.ofCompanions_companions v _ hx
      · exact ⟨⟨c, hc, rfl⟩, rfl⟩
      · exact ⟨⟨c, hc, rfl⟩, rfl⟩
    | object | store => cases Stroke.ofCompanions_companions v _ hx
    | edge | next | name => cases ht
  · rintro ⟨hholds, hnative⟩
    have hmem : ∀ c ∈ v.companions, ∀ x ∈ c.strokes v, x ∈ v.companionStrokes := by
      intro c hc x hx
      exact List.mem_append_left _ (List.mem_flatMap.mpr ⟨c, hc, hx⟩)
    cases t with
    | object | backingStore => cases hnative
    | native id =>
      obtain ⟨c, hc, rfl⟩ := hholds
      exact ⟨_, hmem c hc _ (List.mem_cons_of_mem _ List.mem_cons_self), rfl⟩
    | nativeGroup label =>
      obtain ⟨c, hc, rfl⟩ := hholds
      exact ⟨_, hmem c hc _ List.mem_cons_self, rfl⟩

theorem ofAny_strokes {x : Stroke} (hx : x ∈ v.strokes) :
    (x.OfRoots v ∨ x.OfObjects v) ∨ x.OfCompanions v := by
  rcases List.mem_append.mp hx with hx | hx
  · exact .inl (ofHeap_strokes hx)
  · exact .inr (Stroke.ofCompanions_companions v x hx)

/-- What gets a node is what there is to depict. -/
theorem mem_roll_strokes (hv : v.Faithful) : t ∈ Stroke.roll v.strokes ↔ v.Holds t := by
  rw [Stroke.mem_roll, strokes]
  simp only [List.mem_append, or_and_right, exists_or, exists_heapStroke_iff hv,
    exists_companionStroke_iff]
  cases t.nativeId? <;> simp

theorem placed_strokes (hv : v.Faithful) :
    Stroke.Placed (fun _ => False) v.strokes := by
  rw [strokes, Stroke.placed_append]
  refine ⟨Stroke.placed_heap, Stroke.placed_companions fun w hw => .inr ?_⟩
  exact (exists_heapStroke_iff hv).mpr ⟨hw, rfl⟩

end View

/-! ## Captures -/

namespace Capture

variable {c : Capture} {v : View}

/-- A capture that goes through the heap draws the strokes of all that the heap holds. -/
theorem draft_drawn (hc : c.handlers = .builtin) (hv : v.Faithful) :
    (c.drawn v).draft = Draft.drawAll (c.scope v) v.strokes { ledger := c.ledger } := by
  have hdepicts : Draft.Depicts (c.scope v) v.heapStrokes (c.twiceRead v).draft := by
    rw [draft_twiceRead hc]
    exact Draft.depicts_drawAll Stroke.placed_heap c.ledger
  have hfound : ∀ t, ((c.twiceRead v).draft.entries.find? t).isSome = true ↔
      v.Holds t ∧ t.nativeId? = none := by
    intro t
    rw [Option.isSome_iff_exists, ← hdepicts.mem_roll_iff, Stroke.mem_roll]
    exact View.exists_heapStroke_iff hv
  have hseen : ∀ w, ((c.twiceRead v).draft.entries.find? (.object w)).isSome =
      (c.scope v).view.isLive w := by
    intro w
    rw [Bool.eq_iff_iff, hfound]
    exact and_iff_left rfl
  have hgroups : ∀ label, ((c.twiceRead v).draft.entries.find? (.nativeGroup label)).isNone =
      decide (label ∉ ([] : List String)) := by
    intro label
    have hnone : ¬ ((c.twiceRead v).draft.entries.find? (.nativeGroup label)).isSome = true := by
      rw [hfound]
      exact fun h => nomatch h.2
    simpa using hnone
  have hadd := Draft.addCompanions_eq [] v.companions hseen hgroups (by simp)
  rw [List.nil_append] at hadd
  show (c.twiceRead v).draft.addCompanions [] v.companions = _
  rw [View.strokes, Draft.drawAll_append, ← draft_twiceRead hc]
  exact hadd

theorem depicts_drawn (hc : c.handlers = .builtin) (hv : v.Faithful) :
    Draft.Depicts (c.scope v) v.strokes (c.drawn v).draft := by
  rw [draft_drawn hc hv]
  exact Draft.depicts_drawAll (View.placed_strokes hv) c.ledger

end Capture

end ManagedHeap
