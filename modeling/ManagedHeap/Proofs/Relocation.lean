import ManagedHeap.Proofs.Renaming
import ManagedHeap.Proofs.Residence
import Mathlib.Logic.Equiv.Basic

/-!
# Moving an object is a change of addresses

When an object moves to an address that occurs nowhere in the heap, `Fresh`, all that the heap tells
of itself changes as if the two addresses were exchanged, `renames_rehome`. For this the order of
visits has to list every object, since other objects are visited in the order of their addresses.
-/
namespace ManagedHeap

/-! ## Where addresses occur -/

def Layout.addresses (l : Layout) : List Address :=
  l.properties.filterMap (·.value.target?) ++ l.elements.filterMap (·.value.target?) ++
    (l.prototype.bind (·.target?)).toList

/-- The addresses in an object: its own, those that it refers to, and that of the memory it owns. -/
def HeapObject.addresses (o : HeapObject) : List Address :=
  o.address :: (o.shape.toList ++ o.slots.filterMap (·.target?) ++
    o.layout.toList.flatMap (·.addresses) ++ o.globalObject?.toList ++
    (o.backingStore?.map (·.address)).toList)

theorem Layout.mem_addresses {l : Layout} {a : Address} :
    a ∈ l.addresses ↔
      (∃ p ∈ l.properties, p.value.target? = some a) ∨
      (∃ e ∈ l.elements, e.value.target? = some a) ∨
      ∃ w ∈ l.prototype, w.target? = some a := by
  simp [addresses, Option.bind_eq_some_iff]

theorem HeapObject.mem_addresses {o : HeapObject} {a : Address} :
    a ∈ o.addresses ↔
      a = o.address ∨ o.shape = some a ∨ (∃ w ∈ o.slots, w.target? = some a) ∨
      (∃ l ∈ o.layout, a ∈ l.addresses) ∨ o.globalObject? = some a ∨
      ∃ store ∈ o.backingStore?, store.address = a := by
  simp [addresses]

/-- The address occurs nowhere in the heap. -/
structure Heap.Fresh (h : Heap) (a : Address) : Prop where
  free : h.object? a = none
  objects : ∀ b o, h.object? b = some o → a ∉ o.addresses
  order : ∀ order ∈ h.order, a ∉ order
  roots : ∀ r ∈ h.roots, r.root.target ≠ a
  singletons : h.singletons.contains a = false
  companions : ∀ c ∈ h.companions, a ∉ c.wrappers
  traceNodes : h.traceNodes[a]? = none

theorem Heap.Fresh.quiesce {h : Heap} {a : Address} (hfresh : h.Fresh a) (times : Nat) :
    (h.quiesce times).Fresh a :=
  ⟨hfresh.free, hfresh.objects, hfresh.order, hfresh.roots, hfresh.singletons, hfresh.companions,
    hfresh.traceNodes⟩

/-! ## Changes that agree where addresses occur -/

section

variable {f g : Address → Address}

theorem Value.redirect_congr {value : Value} (h : ∀ a ∈ value.target?, f a = g a) :
    value.redirect f = value.redirect g := by
  cases value with
  | ref a => exact congrArg Value.ref (h a rfl)
  | small n => rfl

theorem Layout.redirect_congr {l : Layout} (h : ∀ a ∈ l.addresses, f a = g a) :
    l.redirect f = l.redirect g := by
  have hproperties : ∀ p ∈ l.properties, p.redirect f = p.redirect g := by
    intro p hp
    have hvalue : p.value.redirect f = p.value.redirect g :=
      Value.redirect_congr fun a ha => h a (mem_addresses.mpr (.inl ⟨p, hp, ha⟩))
    rw [Property.redirect, Property.redirect, hvalue]
  have helements : ∀ e ∈ l.elements, e.redirect f = e.redirect g := by
    intro e he
    have hvalue : e.value.redirect f = e.value.redirect g :=
      Value.redirect_congr fun a ha => h a (mem_addresses.mpr (.inr (.inl ⟨e, he, ha⟩)))
    rw [Element.redirect, Element.redirect, hvalue]
  have hprototype : l.prototype.map (·.redirect f) = l.prototype.map (·.redirect g) :=
    Option.map_congr fun w hw => Value.redirect_congr fun a ha =>
      h a (mem_addresses.mpr (.inr (.inr ⟨w, hw, ha⟩)))
  rw [redirect, redirect, List.map_congr_left hproperties, List.map_congr_left helements,
    hprototype]

theorem HeapObject.detail_redirect_congr {o : HeapObject} (h : ∀ a ∈ o.globalObject?, f a = g a) :
    o.detail.redirect f = o.detail.redirect g := by
  unfold globalObject? at h
  cases hd : o.detail with
  | context c =>
    rw [hd] at h
    simp only [Detail.redirect, Option.map_congr h]
  | _ => rfl

theorem HeapObject.redirect_congr {o : HeapObject} (h : ∀ a ∈ o.addresses, f a = g a) :
    o.redirect f = o.redirect g := by
  simp only [mem_addresses] at h
  have hshape : o.shape.map f = o.shape.map g :=
    Option.map_congr fun a ha => h a (.inr (.inl ha))
  have hslots : o.slots.map (·.redirect f) = o.slots.map (·.redirect g) :=
    List.map_congr_left fun w hw => Value.redirect_congr fun a ha =>
      h a (.inr (.inr (.inl ⟨w, hw, ha⟩)))
  have hlayout : o.layout.map (·.redirect f) = o.layout.map (·.redirect g) :=
    Option.map_congr fun l hl => Layout.redirect_congr fun a ha =>
      h a (.inr (.inr (.inr (.inl ⟨l, hl, ha⟩))))
  have hdetail : o.detail.redirect f = o.detail.redirect g :=
    detail_redirect_congr fun a ha => h a (.inr (.inr (.inr (.inr (.inl ha)))))
  rw [redirect, redirect, hshape, hslots, hlayout, hdetail]

end

/-! ## The heap after a move -/

namespace Heap

variable {h : Heap} {o : HeapObject} {source target : Address}

/-- The order of visits lists every object. -/
def Listed (h : Heap) : Prop :=
  ∃ order, h.order = some order ∧ ∀ a, (h.object? a).isSome = true → a ∈ order

/-- No memory outside the heap is at the address of an object. -/
def Apart (h : Heap) : Prop :=
  ∀ a o store, h.object? a = some o → o.backingStore? = some store →
    h.object? store.address = none

theorem backingStore?_redirect (o : HeapObject) (f : Address → Address) :
    (o.redirect f).backingStore? = o.backingStore? := by
  unfold HeapObject.backingStore? HeapObject.redirect
  cases o.detail <;> rfl

theorem swap_eq_moved {a : Address} (ha : a ≠ target) :
    Equiv.swap source target a = a.moved source target := by
  rw [Equiv.swap_apply_def, Address.moved, if_neg ha]

/-- Where `target` does not occur, a move to it is an exchange. -/
theorem rename_swap {x : HeapObject} (hfresh : target ∉ x.addresses) :
    x.rename (Equiv.swap source target) =
      { x.redirect (·.moved source target) with address := x.address.moved source target } := by
  have hswap : ∀ a ∈ x.addresses, Equiv.swap source target a = a.moved source target :=
    fun a ha => swap_eq_moved fun heq => hfresh (heq ▸ ha)
  rw [HeapObject.rename, HeapObject.redirect_congr hswap,
    hswap x.address (HeapObject.mem_addresses.mpr (.inl rfl))]

theorem live_eq {order : List Address} (horder : h.order = some order)
    (hall : ∀ a, (h.object? a).isSome = true → a ∈ order) :
    h.live = order.filterMap h.object? := by
  have hrest : h.objects.values.filter (fun o => !order.contains o.address) = [] := by
    rw [List.filter_eq_nil_iff]
    intro o ho
    obtain ⟨a, hobject⟩ := mem_values.mp ho
    have hlisted : a ∈ order := hall a (by rw [hobject]; rfl)
    rw [h.keyed a o hobject]
    simp [hlisted]
  rw [live, horder]
  dsimp only
  rw [hrest, List.append_nil]

theorem object?_rehome_swap (hfresh : h.Fresh target) (hne : source ≠ target)
    (ho : h.object? source = some o) (a : Address) :
    (h.rehome o source target).object? (Equiv.swap source target a) =
      (h.object? a).map (·.rename (Equiv.swap source target)) := by
  rw [object?_rehome]
  by_cases hsource : a = source
  · subst hsource
    have haddress : o.address.moved a target = target := by
      rw [h.keyed a o ho, Address.moved, if_pos rfl]
    rw [Equiv.swap_apply_left, if_pos rfl, ho, Option.map_some,
      rename_swap (hfresh.objects a o ho), haddress]
    rfl
  · by_cases htarget : a = target
    · subst htarget
      rw [Equiv.swap_apply_right, if_neg (Ne.symm hne), if_pos rfl, hfresh.free]
      rfl
    · rw [Equiv.swap_apply_of_ne_of_ne hsource htarget, if_neg (Ne.symm htarget),
        if_neg (Ne.symm hsource)]
      refine Option.map_congr fun x hx => ?_
      have haddress : x.address.moved source target = x.address := by
        rw [h.keyed a x hx, Address.moved, if_neg hsource]
      rw [rename_swap (hfresh.objects a x hx), haddress]
      rfl

theorem mem_order_rehome {order : List Address}
    (hall : ∀ a, (h.object? a).isSome = true → a ∈ order) (ho : h.object? source = some o)
    {b : Address} (hb : ((h.rehome o source target).object? b).isSome = true) :
    b ∈ order.map (·.moved source target) := by
  rw [List.mem_map]
  rw [object?_rehome] at hb
  split at hb
  · next htarget =>
    refine ⟨source, hall source (by rw [ho]; rfl), ?_⟩
    rw [Address.moved, if_pos rfl, htarget]
  · split at hb
    · cases hb
    · next hsource =>
      rw [Option.isSome_map] at hb
      exact ⟨b, hall b hb, by rw [Address.moved, if_neg (Ne.symm hsource)]⟩

theorem order_rehome {order : List Address} (horder : h.order = some order) :
    (h.rehome o source target).order = some (order.map (·.moved source target)) := by
  show h.order.map _ = _
  rw [horder]
  rfl

theorem listed_rehome (hlisted : h.Listed) (ho : h.object? source = some o) :
    (h.rehome o source target).Listed := by
  obtain ⟨order, horder, hall⟩ := hlisted
  exact ⟨_, order_rehome horder, fun _ => mem_order_rehome hall ho⟩

theorem live_rehome (hfresh : h.Fresh target) (hne : source ≠ target)
    (ho : h.object? source = some o) (hlisted : h.Listed) :
    (h.rehome o source target).live = h.live.map (·.rename (Equiv.swap source target)) := by
  obtain ⟨order, horder, hall⟩ := hlisted
  rw [live_eq horder hall, live_eq (order_rehome horder) fun _ => mem_order_rehome hall ho,
    List.filterMap_map, List.map_filterMap]
  refine List.filterMap_congr fun a ha => ?_
  have htarget : a ≠ target := fun heq => hfresh.order order horder (heq ▸ ha)
  rw [Function.comp_apply, ← swap_eq_moved htarget]
  exact object?_rehome_swap hfresh hne ho a

theorem rootsOf_rehome (hfresh : h.Fresh target) (strongOnly : Bool) :
    (h.rehome o source target).rootsOf strongOnly =
      (h.rootsOf strongOnly).map (·.redirect (Equiv.swap source target)) := by
  have hroots : (h.rehome o source target).roots =
      h.roots.map fun r => { r with root := r.root.redirect (·.moved source target) } := rfl
  rw [rootsOf, rootsOf, hroots, List.filter_map, List.map_map, List.map_map]
  refine List.map_congr_left fun r hr => ?_
  have htarget := hfresh.roots r (List.mem_filter.mp hr).1
  simp only [Function.comp_apply, Root.redirect, swap_eq_moved htarget]

theorem contains_singletons_rehome (hfresh : h.Fresh target) (hne : source ≠ target)
    (a : Address) :
    (h.rehome o source target).singletons.contains (Equiv.swap source target a) =
      h.singletons.contains a := by
  have hsingletons : (h.rehome o source target).singletons =
      if h.singletons.contains source then (h.singletons.erase source).insert target
      else h.singletons := rfl
  have hfree := hfresh.singletons
  rw [hsingletons, Equiv.swap_apply_def, Bool.eq_iff_iff]
  split
  · next hsource =>
    simp only [Std.TreeSet.contains_insert, Std.TreeSet.contains_erase, Bool.or_eq_true,
      Bool.and_eq_true, beq_iff_eq, Std.LawfulEqOrd.compare_eq_iff_eq]
    grind
  · next hsource => grind

theorem getElem?_traceNodes_rehome (hfresh : h.Fresh target) (hne : source ≠ target)
    (a : Address) :
    (h.rehome o source target).traceNodes[Equiv.swap source target a]? = h.traceNodes[a]? := by
  have hfree := hfresh.traceNodes
  rw [Equiv.swap_apply_def]
  cases ht : h.traceNodes[source]? with
  | none =>
    have hsame : (h.rehome o source target).traceNodes = h.traceNodes := by simp only [rehome, ht]
    rw [hsame]
    grind
  | some t =>
    have hmoved : (h.rehome o source target).traceNodes =
        (h.traceNodes.erase source).insert target t := by simp only [rehome, ht]
    simp only [hmoved, Std.TreeMap.getElem?_insert, Std.TreeMap.getElem?_erase,
      Std.LawfulEqOrd.compare_eq_iff_eq]
    grind

theorem companions_rehome (hfresh : h.Fresh target) :
    (h.rehome o source target).companions =
      h.companions.map (·.redirect (Equiv.swap source target)) := by
  refine List.map_congr_left fun c hc => ?_
  have hwrappers : c.wrappers.map (·.moved source target) =
      c.wrappers.map (Equiv.swap source target) :=
    List.map_congr_left fun a ha => by
      have htarget : a ≠ target := fun heq => hfresh.companions c hc (heq ▸ ha)
      rw [swap_eq_moved htarget]
  rw [Companion.redirect, Companion.redirect, hwrappers]

/-- All that the heap tells of itself changes as if the two addresses were exchanged. -/
theorem renames_rehome (hfresh : h.Fresh target) (hne : source ≠ target)
    (ho : h.object? source = some o) (hlisted : h.Listed) :
    h.view.Renames (Equiv.swap source target) (h.rehome o source target).view where
  injective := (Equiv.swap source target).injective
  live := live_rehome hfresh hne ho hlisted
  object? := object?_rehome_swap hfresh hne ho
  strongRoots := rootsOf_rehome hfresh true
  allRoots := rootsOf_rehome hfresh false
  isSingleton := contains_singletons_rehome hfresh hne
  traceNode a := by
    simp only [view, Std.TreeMap.getD_eq_getD_getElem?, getElem?_traceNodes_rehome hfresh hne]
  companions := companions_rehome (o := o) hfresh

theorem apart_rehome (hfresh : h.Fresh target) (hapart : h.Apart)
    (ho : h.object? source = some o) : (h.rehome o source target).Apart := by
  -- Whatever has a store has had it before the move.
  have hbefore : ∀ b x store, (h.rehome o source target).object? b = some x →
      x.backingStore? = some store →
        ∃ c y, h.object? c = some y ∧ y.backingStore? = some store := by
    intro b x store hx hstore
    rw [object?_rehome] at hx
    split at hx
    · cases hx
      exact ⟨source, o, ho, by rwa [backingStore?_redirect] at hstore⟩
    · split at hx
      · cases hx
      · obtain ⟨y, hy, rfl⟩ := Option.map_eq_some_iff.mp hx
        exact ⟨b, y, hy, by rwa [backingStore?_redirect] at hstore⟩
  intro b x store hx hstore
  obtain ⟨c, y, hy, hstore'⟩ := hbefore b x store hx hstore
  have htarget : target ≠ store.address := by
    intro heq
    exact hfresh.objects c y hy (HeapObject.mem_addresses.mpr (by simp [hstore', heq]))
  rw [object?_rehome, if_neg htarget]
  split
  · rfl
  · rw [hapart c y store hy hstore']
    rfl

end Heap

end ManagedHeap
