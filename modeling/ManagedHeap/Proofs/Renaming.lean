import ManagedHeap.Capture.Roots
import ManagedHeap.Proofs.Explained
import Mathlib.Data.List.Basic

/-!
# Heaps that differ in their addresses only

`View.Renames f v v'` says that `v'` is `v` with every address replaced by its image under an
injective `f`. What the handlers say about an object commutes with such a change, and so do the name
and the kind of its node, `describe_rename`.
-/
namespace ManagedHeap

/-- The object with all its addresses replaced, its own among them. -/
def HeapObject.rename (f : Address → Address) (o : HeapObject) : HeapObject :=
  { o.redirect f with address := f o.address }

/-- A view is another one with all addresses replaced. -/
structure View.Renames (f : Address → Address) (v v' : View) : Prop where
  injective : Function.Injective f
  live : v'.live = v.live.map (·.rename f)
  object? : ∀ a, v'.object? (f a) = (v.object? a).map (·.rename f)
  strongRoots : v'.strongRoots = v.strongRoots.map (·.redirect f)
  allRoots : v'.allRoots = v.allRoots.map (·.redirect f)
  isSingleton : ∀ a, v'.isSingleton (f a) = v.isSingleton a
  traceNode : ∀ a, v'.traceNode (f a) = v.traceNode a
  companions : v'.companions = v.companions.map (·.redirect f)

/-! ## No change -/

@[simp] theorem Value.redirect_id (value : Value) : value.redirect id = value := by
  cases value <;> rfl

@[simp] theorem Property.redirect_id (p : Property) : p.redirect id = p := by
  simp [Property.redirect]

@[simp] theorem Element.redirect_id (e : Element) : e.redirect id = e := by
  simp [Element.redirect]

@[simp] theorem Layout.redirect_id (l : Layout) : l.redirect id = l := by
  simp [Layout.redirect]

@[simp] theorem Detail.redirect_id (d : Detail) : d.redirect id = d := by
  cases d <;> simp [Detail.redirect]

@[simp] theorem HeapObject.rename_id (o : HeapObject) : o.rename id = o := by
  simp [HeapObject.rename, HeapObject.redirect]

theorem View.Renames.refl (v : View) : v.Renames id v where
  injective := Function.injective_id
  live := by simp
  object? := by simp
  strongRoots := by simp [Root.redirect]
  allRoots := by simp [Root.redirect]
  isSingleton _ := rfl
  traceNode _ := rfl
  companions := by simp [Companion.redirect]

/-- What is said about an object once the addresses are replaced. -/
def Emission.redirect (f : Address → Address) : Emission → Emission
  | .internal name value slot => .internal name (value.redirect f) slot
  | .weak name value slot => .weak name (value.redirect f) slot
  | .context name value slot => .context name (value.redirect f) slot
  | .property key value lead slot => .property key (value.redirect f) lead slot
  | .element index value slot => .element index (value.redirect f) slot
  | .shortcut name value => .shortcut name (value.redirect f)
  | .backingStore name store => .backingStore name store
  | .node name target => .node name target
  | .tag value name => .tag (value.redirect f) name
  | .container value kind => .container (value.redirect f) kind
  | .silence slot => .silence slot

section

variable {f : Address → Address}

@[simp] theorem Value.target?_redirect (value : Value) :
    (value.redirect f).target? = value.target?.map f := by
  cases value <;> rfl

theorem Detail.redirect_eq (d : Detail) :
    d.redirect f = d ∨
      ∃ c, d = .context c ∧
        d.redirect f = .context { c with globalObject := c.globalObject.map f } := by
  cases d with
  | context c => exact .inr ⟨c, rfl, rfl⟩
  | _ => exact .inl rfl

namespace HeapObject

variable (o : HeapObject)

@[simp] theorem address_rename : (o.rename f).address = f o.address := rfl

-- Not by `rfl`: the instances of conditions on the tag have to change with it.
@[simp] theorem tag_rename : (o.rename f).tag = o.tag := by rw [rename, redirect]

@[simp] theorem slots_rename : (o.rename f).slots = o.slots.map (·.redirect f) := rfl

@[simp] theorem shape_rename : (o.rename f).shape = o.shape.map f := rfl

@[simp] theorem layout_rename : (o.rename f).layout = o.layout.map (·.redirect f) := rfl

@[simp] theorem detail_rename : (o.rename f).detail = o.detail.redirect f := rfl

@[simp] theorem slot?_rename (i : Nat) :
    (o.rename f).slot? i = (o.slot? i).map (·.redirect f) :=
  List.getElem?_map

/-! ## What is said about a slot -/

theorem slot_rename {g : Value → Emission} (hg : ∀ w, g (w.redirect f) = (g w).redirect f)
    (s : Nat) :
    (match (o.rename f).slot? s with | some w => [g w] | none => []) =
      (match o.slot? s with | some w => [g w] | none => []).map (Emission.redirect f) := by
  rw [slot?_rename]
  cases o.slot? s with
  | none => rfl
  | some w => simp [hg]

@[simp] theorem internalSlot_rename (name : String) :
    (o.rename f).internalSlot name = fun s => (o.internalSlot name s).map (Emission.redirect f) :=
  funext fun s => o.slot_rename (fun _ => rfl) s

@[simp] theorem weakSlot_rename (name : String) :
    (o.rename f).weakSlot name = fun s => (o.weakSlot name s).map (Emission.redirect f) :=
  funext fun s => o.slot_rename (fun _ => rfl) s

@[simp] theorem contextSlot_rename (name : String) :
    (o.rename f).contextSlot name = fun s => (o.contextSlot name s).map (Emission.redirect f) :=
  funext fun s => o.slot_rename (fun _ => rfl) s

@[simp] theorem propertySlot_rename (name : String) :
    (o.rename f).propertySlot name = fun s => (o.propertySlot name s).map (Emission.redirect f) :=
  funext fun s => o.slot_rename (fun _ => rfl) s

@[simp] theorem tagSlot_rename (s : Nat) :
    (o.rename f).tagSlot s = fun name => (o.tagSlot s name).map (Emission.redirect f) :=
  funext fun _ => o.slot_rename (fun _ => rfl) s

@[simp] theorem containerSlot_rename (s : Nat) :
    (o.rename f).containerSlot s = fun kind => (o.containerSlot s kind).map (Emission.redirect f) :=
  funext fun _ => o.slot_rename (fun _ => rfl) s

@[simp] theorem taggedSlot_rename (name tag : String) :
    (o.rename f).taggedSlot name tag =
      fun s => (o.taggedSlot name tag s).map (Emission.redirect f) := by
  simp [funext_iff, taggedSlot]

@[simp] theorem internalNumbered_rename :
    (o.rename f).internalNumbered = fun s => (o.internalNumbered s).map (Emission.redirect f) := by
  simp [funext_iff, internalNumbered]

@[simp] theorem weakNumbered_rename :
    (o.rename f).weakNumbered = fun s => (o.weakNumbered s).map (Emission.redirect f) := by
  simp [funext_iff, weakNumbered]

@[simp] theorem map_optionally (slot : Option Nat) (g : Nat → List Emission) :
    (optionally slot g).map (Emission.redirect f) =
      optionally slot fun s => (g s).map (Emission.redirect f) := by
  cases slot <;> rfl

end HeapObject

end

/-! ## What is said about an object -/

section

variable {f : Address → Address} {v v' : View}

theorem View.Renames.bind_object? (hv : v.Renames f v') (a : Option Address) :
    (a.map f).bind v'.object? = (a.bind v.object?).map (·.rename f) := by
  cases a with
  | none => rfl
  | some a => exact hv.object? a

namespace HeapObject

theorem accessorEmissions_rename (hv : v.Renames f v') (p : Property) (pair : HeapObject)
    (lead : String) (s : Nat) :
    accessorEmissions v' (p.redirect f) (pair.rename f) lead s =
      (accessorEmissions v p pair lead s).map (Emission.redirect f) := by
  unfold accessorEmissions
  rw [slot?_rename]
  cases pair.slot? s with
  | none => rfl
  | some accessor =>
    simp only [Option.map_some, Value.target?_redirect, hv.bind_object?]
    cases accessor.target?.bind v.object? with
    | none => rfl
    | some o =>
      simp only [Option.map_some, tag_rename]
      split <;> rfl

theorem pairEmissions_rename (hv : v.Renames f v') (p : Property) :
    pairEmissions v' (p.redirect f) = (pairEmissions v p).map (Emission.redirect f) := by
  have hvalue : (p.redirect f).value = p.value.redirect f := rfl
  unfold pairEmissions
  rw [hvalue, Value.target?_redirect, hv.bind_object?]
  cases p.value.target?.bind v.object? with
  | none => rfl
  | some pair =>
    simp only [Option.map_some, detail_rename]
    cases pair.detail with
    | accessorPair getter setter =>
      simp only [Detail.redirect, accessorEmissions_rename hv, List.map_cons, List.map_append]
      rfl
    | _ => rfl

theorem propertyEmissions_rename (hv : v.Renames f v') (p : Property) :
    propertyEmissions v' (p.redirect f) = (propertyEmissions v p).map (Emission.redirect f) := by
  have haccessor : (p.redirect f).isAccessor = p.isAccessor := rfl
  unfold propertyEmissions
  rw [haccessor, pairEmissions_rename hv]
  split <;> rfl

theorem embedderEmissions_rename (o : HeapObject) (ordinal : Nat) (slots : List Nat) :
    (o.rename f).embedderEmissions ordinal slots =
      (o.embedderEmissions ordinal slots).map (Emission.redirect f) := by
  induction slots generalizing ordinal with
  | nil => rfl
  | cons s slots ih => simp [embedderEmissions, ih]

theorem layoutEmissions_rename (hv : v.Renames f v') (o : HeapObject) :
    (o.rename f).layoutEmissions v' = (o.layoutEmissions v).map (Emission.redirect f) := by
  unfold layoutEmissions
  rw [layout_rename]
  cases o.layout with
  | none => rfl
  | some l =>
    have hproperties : (l.properties.map (·.redirect f)).flatMap (propertyEmissions v') =
        (l.properties.flatMap (propertyEmissions v)).map (Emission.redirect f) := by
      rw [List.flatMap_map, List.map_flatMap]
      exact List.flatMap_congr fun p _ => propertyEmissions_rename hv p
    simp only [Option.map_some, Layout.redirect, hproperties, embedderEmissions_rename,
      taggedSlot_rename, map_optionally, List.map_append, List.map_map]
    cases l.prototype <;> rfl

theorem arrayEmissions_rename (o : HeapObject) (kind : Option ContainerKind) :
    (o.rename f).arrayEmissions kind = (o.arrayEmissions kind).map (Emission.redirect f) := by
  unfold arrayEmissions
  rw [detail_rename]
  rcases o.detail.redirect_eq (f := f) with h | ⟨c, h, h'⟩
  · rw [h]
    split <;> simp [List.map_flatMap]
  · rw [h', h]
    rcases kind with _ | _ | _ <;> simp [List.map_flatMap]

theorem argumentEmissions_rename (hv : v.Renames f v') (o : HeapObject) (s : Nat) :
    (o.rename f).argumentEmissions v' s =
      (o.argumentEmissions v s).map (Emission.redirect f) := by
  have htarget : ((o.rename f).slot? s).bind (·.target?) =
      ((o.slot? s).bind (·.target?)).map f := by
    rw [slot?_rename]
    cases o.slot? s <;> simp
  unfold argumentEmissions
  rw [htarget, hv.bind_object?]
  cases ((o.slot? s).bind (·.target?)).bind v.object? with
  | none => rfl
  | some arguments =>
    refine List.ext_getElem? fun i => ?_
    simp only [Option.map_some, slots_rename, List.getElem?_map, List.getElem?_mapIdx]
    cases arguments.slots[i]? <;> rfl

theorem detailEmissions_rename (hv : v.Renames f v') (o : HeapObject) :
    (o.rename f).detailEmissions v' = (o.detailEmissions v).map (Emission.redirect f) := by
  unfold detailEmissions
  rw [tag_rename, detail_rename]
  rcases o.detail.redirect_eq (f := f) with h | ⟨c, h, h'⟩
  · rw [h]
    split
    all_goals
      simp [argumentEmissions_rename hv, List.map_flatMap,
        apply_ite (List.map (Emission.redirect f)), Emission.redirect]
  · rw [h', h]
    cases o.tag with
    | context | nativeContext =>
      simp [List.map_flatMap, apply_ite (List.map (Emission.redirect f)), Emission.redirect]
    | _ => rfl

theorem emissions_rename (hv : v.Renames f v') (o : HeapObject) (kind : Option ContainerKind) :
    (o.rename f).emissions v' kind = (o.emissions v kind).map (Emission.redirect f) := by
  unfold emissions
  rw [tag_rename, arrayEmissions_rename, detailEmissions_rename hv, layoutEmissions_rename hv]
  split
  · rfl
  · split <;> simp

theorem globalObject?_rename (o : HeapObject) :
    (o.rename f).globalObject? = o.globalObject?.map f := by
  unfold globalObject?
  rw [detail_rename]
  cases o.detail <;> rfl

theorem constructorName_rename (o : HeapObject) :
    (o.rename f).constructorName = o.constructorName := by
  unfold constructorName
  rw [layout_rename]
  cases o.layout <;> rfl

end HeapObject

/-! ## What a view tells -/

namespace View.Renames

variable (hv : v.Renames f v')

include hv

theorem isLive (a : Address) : v'.isLive (f a) = v.isLive a := by
  rw [View.isLive, View.isLive, hv.object? a, Option.isSome_map]

theorem isEssential (a : Address) : v'.isEssential (f a) = v.isEssential a := by
  rw [View.isEssential, View.isEssential, hv.object? a]
  cases v.object? a with
  | none => rfl
  | some o => simp [hv.isSingleton]

theorem globalOf? (a : Address) : v'.globalOf? (f a) = (v.globalOf? a).map f := by
  unfold View.globalOf?
  rw [hv.object?]
  cases v.object? a with
  | none => rfl
  | some o =>
    simp only [Option.map_some, Option.bind_eq_bind, Option.bind_some, HeapObject.tag_rename,
      HeapObject.globalObject?_rename]
    split
    · cases o.globalObject? with
      | none => rfl
      | some g =>
        simp only [Option.map_some, Option.bind_some, hv.object?]
        cases v.object? g with
        | none => rfl
        | some global =>
          simp only [Option.map_some, Option.bind_some, HeapObject.tag_rename]
          split <;> rfl
    · rfl

end View.Renames

/-- A scope is another one with all addresses replaced. -/
structure Scope.Renames (f : Address → Address) (sc sc' : Scope) : Prop where
  view : sc.view.Renames f sc'.view
  globalTag? : ∀ a, sc'.globalTag? (f a) = sc.globalTag? a
  maxNameLength : sc'.maxNameLength = sc.maxNameLength

theorem HeapObject.describe_rename {sc sc' : Scope} (hsc : sc.Renames f sc') (o : HeapObject) :
    (o.rename f).describe sc' = o.describe sc := by
  unfold describe
  rw [tag_rename, detail_rename, constructorName_rename, address_rename, hsc.globalTag?,
    hsc.maxNameLength]
  rcases o.detail.redirect_eq (f := f) with h | ⟨c, h, h'⟩
  · rw [h]
  · rw [h', h]

theorem Root.redirect_injective (hf : Function.Injective f) :
    Function.Injective (Root.redirect f) := by
  rintro ⟨c, a, n⟩ ⟨c', a', n'⟩ h
  simp only [Root.redirect, Root.mk.injEq] at h ⊢
  exact ⟨h.1, hf h.2.1, h.2.2⟩

/-- Replacing addresses changes no reference from strong to weak. -/
theorem classifyRoots_redirect (hf : Function.Injective f) (all strong : List Root) :
    classifyRoots (all.map (·.redirect f)) (strong.map (·.redirect f)) =
      (classifyRoots all strong).map fun r => { r with root := r.root.redirect f } := by
  induction all generalizing strong with
  | nil => cases strong <;> rfl
  | cons r rs ih =>
    cases strong with
    | nil =>
      simp only [List.map_cons, List.map_nil, classifyRoots]
      exact congrArg _ (ih [])
    | cons s ss =>
      simp only [List.map_cons, classifyRoots, (Root.redirect_injective hf).eq_iff]
      split
      · exact congrArg _ (ih ss)
      · exact congrArg _ (ih (s :: ss))

end

end ManagedHeap
