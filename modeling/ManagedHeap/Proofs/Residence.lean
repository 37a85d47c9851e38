import ManagedHeap.Heap.Basic

/-!
# Objects and their addresses

Objects are filed under their own addresses, so every object of a heap is among those that a walk
visits.
-/
namespace ManagedHeap.Heap

variable {h h' : Heap}

theorem values_eq (m : Std.TreeMap Address HeapObject) : m.values = m.toList.map (·.2) := by
  have hvalues : m.values = m.inner.inner.toListModel.map (·.2) :=
    Std.DTreeMap.Internal.Impl.values_eq_map_snd
  have hlist : m.toList = m.inner.inner.toListModel.map fun e => (e.1, e.2) :=
    Std.DTreeMap.Internal.Impl.Const.toList_eq_toListModel_map
  rw [hvalues, hlist, List.map_map]
  rfl

theorem mem_values {o : HeapObject} : o ∈ h.objects.values ↔ ∃ a, h.object? a = some o := by
  rw [values_eq, List.mem_map]
  constructor
  · rintro ⟨⟨a, x⟩, hx, rfl⟩
    exact ⟨a, Std.TreeMap.mem_toList_iff_getElem?_eq_some.mp hx⟩
  · rintro ⟨a, ho⟩
    exact ⟨(a, o), Std.TreeMap.mem_toList_iff_getElem?_eq_some.mpr ho, rfl⟩

/-- Only objects of the heap are visited. -/
theorem exists_object?_of_mem_live {o : HeapObject} (ho : o ∈ h.live) :
    ∃ a, h.object? a = some o := by
  unfold live at ho
  split at ho
  · exact mem_values.mp ho
  · rcases List.mem_append.mp ho with ho | ho
    · obtain ⟨a, -, ha⟩ := List.mem_filterMap.mp ho
      exact ⟨a, ha⟩
    · exact mem_values.mp (List.mem_filter.mp ho).1

/-- Every object is visited. -/
theorem mem_live {a : Address} {o : HeapObject}
    (ho : h.object? a = some o) : o ∈ h.live := by
  unfold live
  cases h.order with
  | none => exact mem_values.mpr ⟨a, ho⟩
  | some order =>
    rw [List.mem_append, List.mem_filterMap, List.mem_filter]
    by_cases ha : a ∈ order
    · exact .inl ⟨a, ha, ho⟩
    · refine .inr ⟨mem_values.mpr ⟨a, ho⟩, ?_⟩
      rw [h.keyed a o ho]
      simpa using ha

/-! ## Moving -/

variable {source target : Address} {size : Nat}

theorem relocate_eq_some (hr : h.relocate source target = some (size, h')) :
    source ≠ target ∧ h.object? target = none ∧
      ∃ o, h.object? source = some o ∧ size = o.size ∧ h' = h.rehome o source target := by
  unfold relocate at hr
  split at hr
  · cases hr
  · next hfree =>
    rw [not_or] at hfree
    split at hr
    · cases hr
    · next o ho =>
      cases hr
      exact ⟨hfree.1, by simpa [object?] using hfree.2, o, ho, rfl, rfl⟩

theorem object?_rehome (h : Heap) (o : HeapObject) (source target b : Address) :
    (h.rehome o source target).object? b =
      if target = b then some ({ o with address := target }.redirect (·.moved source target))
      else if source = b then none
      else (h.object? b).map (·.redirect (·.moved source target)) := by
  simp only [rehome, object?, Std.TreeMap.getElem?_map, Std.TreeMap.getElem?_insert,
    Std.TreeMap.getElem?_erase, Std.LawfulEqOrd.compare_eq_iff_eq]
  split
  · rfl
  · split <;> rfl

end ManagedHeap.Heap
