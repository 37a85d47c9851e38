import ManagedHeap.Proofs.Issued
import Std.Data.ExtTreeMap

/-!
# The ledger as a finite map

A `Register` is what the ledger stands for: a finite map from addresses to entries, and the number
due next. It has no rows, no positions and nothing to compact. Whatever is asked of a ledger that
starts out empty, the answers are those of the register, `Ledger.notices_eq`.
-/
namespace ManagedHeap

/-- What a register knows of an address. -/
structure Entry where
  id : ObjectId
  size : Nat
  isAccessed : Bool
  deriving DecidableEq, Repr

/-- A finite map of entries, and the number due next. -/
structure Register where
  nextId : Nat := ObjectId.firstAvailable.raw
  entries : Std.ExtTreeMap Address Entry := ∅

/-- What can be asked of a keeper of numbers. -/
inductive Request where
  | track (a : Address) (size : Nat)
  | resize (a : Address) (size : Nat)
  | move (source target : Address) (size : Nat)
  | sweep
  | find (a : Address)
  deriving DecidableEq, Repr

/-- What a request gives back. -/
inductive Reply where
  | nothing
  | tracked (id : ObjectId)
  | moved (wasTracked : Bool)
  | found (id : Option ObjectId)
  deriving DecidableEq, Repr

/-- What can be seen of a request: its reply, and how many addresses have a number and which number
was handed out last, afterwards. -/
structure Notice where
  reply : Reply
  size : Nat
  lastId : ObjectId
  deriving DecidableEq, Repr

namespace Register

def find? (m : Register) (a : Address) : Option ObjectId := m.entries[a]?.map (·.id)

def size (m : Register) : Nat := m.entries.size

def lastId (m : Register) : ObjectId := ⟨m.nextId - ObjectId.step⟩

/-- A known address keeps its number, any other gets the one that is due. -/
def record (m : Register) (a : Address) (size : Nat) (isAccessed : Bool) : ObjectId × Register :=
  match m.entries[a]? with
  | some e => (e.id, { m with entries := m.entries.insert a ⟨e.id, size, isAccessed⟩ })
  | none =>
    (⟨m.nextId⟩,
      { nextId := m.nextId + ObjectId.step
        entries := m.entries.insert a ⟨⟨m.nextId⟩, size, isAccessed⟩ })

/-- The entry of `source` is now that of `target`, whose own entry is gone in any case. -/
def move (m : Register) (source target : Address) (size : Nat) : Bool × Register :=
  if source = target then (false, m)
  else
    match m.entries[source]? with
    | some e =>
      (true, { m with
        entries := (m.entries.erase source).insert target { e with size := size } })
    | none => (false, { m with entries := m.entries.erase target })

/-- Only entries in use are kept, and they are no longer in use. -/
def sweep (m : Register) : Register :=
  { m with
    entries := m.entries.filterMap fun _ e =>
      if e.isAccessed then some { e with isAccessed := false } else none }

def serve (m : Register) : Request → Reply × Register
  | .track a size => (.tracked (m.record a size true).1, (m.record a size true).2)
  | .resize a size => (.nothing, (m.record a size false).2)
  | .move source target size =>
    (.moved (m.move source target size).1, (m.move source target size).2)
  | .sweep => (.nothing, m.sweep)
  | .find a => (.found (m.find? a), m)

/-- What is seen of requests one after the other. -/
def notices : Register → List Request → List Notice
  | _, [] => []
  | m, q :: qs =>
    ⟨(m.serve q).1, (m.serve q).2.size, (m.serve q).2.lastId⟩ :: (m.serve q).2.notices qs

@[ext]
theorem ext_getElem? {m m' : Register} (hnext : m.nextId = m'.nextId)
    (hentries : ∀ a : Address, m.entries[a]? = m'.entries[a]?) : m = m' := by
  cases m
  cases m'
  exact congr (congrArg Register.mk hnext) (Std.ExtTreeMap.ext_getElem? hentries)

end Register

/-- What a register keeps of a row. -/
def Row.entry (r : Row) : Entry := ⟨r.id, r.size, r.isAccessed⟩

namespace Ledger

def serve (l : Ledger) : Request → Reply × Ledger
  | .track a size => (.tracked (l.track a size).1, (l.track a size).2)
  | .resize a size => (.nothing, l.resize a size)
  | .move source target size =>
    (.moved (l.move source target size).1, (l.move source target size).2)
  | .sweep => (.nothing, l.sweep)
  | .find a => (.found (l.find? a), l)

/-- What is seen of requests one after the other. -/
def notices : Ledger → List Request → List Notice
  | _, [] => []
  | l, q :: qs =>
    ⟨(l.serve q).1, (l.serve q).2.size, (l.serve q).2.lastId⟩ :: (l.serve q).2.notices qs

/-- The number that a request gives to an address that had none. -/
def grant? (l : Ledger) : Request → Option ObjectId
  | .track a size => if l.find? a = none then (l.track a size).2.find? a else none
  | .resize a size => if l.find? a = none then (l.resize a size).find? a else none
  | .move _ _ _ | .sweep | .find _ => none

/-- The numbers that requests give to addresses that had none, in their order. -/
def grants : Ledger → List Request → List ObjectId
  | _, [] => []
  | l, q :: qs => (l.grant? q).toList ++ (l.serve q).2.grants qs

/-! ## What a ledger stands for -/

/-- The register that a ledger stands for. -/
def register (l : Ledger) : Register where
  nextId := l.nextId
  entries := (Std.ExtTreeMap.ofList l.slots.toList compare).filterMap
    fun _ i => l.rows[i]?.map (·.entry)

variable {l : Ledger} {a b : Address}

theorem getElem?_ofList_toList (m : Std.TreeMap Address Nat) (a : Address) :
    (Std.ExtTreeMap.ofList m.toList compare)[a]? = m[a]? := by
  cases ha : m[a]? with
  | some i =>
    exact Std.ExtTreeMap.getElem?_ofList_of_mem Std.ReflOrd.compare_self
      Std.TreeMap.distinct_keys_toList (Std.TreeMap.mem_toList_iff_getElem?_eq_some.mpr ha)
  | none =>
    refine Std.ExtTreeMap.getElem?_ofList_of_contains_eq_false ?_
    simpa [Std.TreeMap.map_fst_toList_eq_keys] using ha

/-- The entry of an address is what its row says. -/
@[simp]
theorem getElem?_register (l : Ledger) (a : Address) :
    l.register.entries[a]? = (l.row? a).map (·.entry) := by
  rw [register, Std.ExtTreeMap.getElem?_filterMap', getElem?_ofList_toList, row?, Option.map_bind]
  rfl

@[simp]
theorem find?_register (l : Ledger) (a : Address) : l.register.find? a = l.find? a := by
  rw [Register.find?, getElem?_register, Option.map_map, find?_eq]
  rfl

/-- Every address in the index has a row, so the register has as many. -/
theorem size_register (h : l.Sound) : l.register.size = l.size := by
  have hrows : ∀ (a : Address) (ha : a ∈ Std.ExtTreeMap.ofList l.slots.toList compare),
      (l.rows[(Std.ExtTreeMap.ofList l.slots.toList compare)[a]]?.map (·.entry)).isSome = true := by
    intro a ha
    have hi := (getElem?_ofList_toList l.slots a).symm.trans (getElem?_pos _ a ha)
    obtain ⟨-, r, hr, -⟩ := h.index a _ hi
    rw [hr]
    rfl
  rw [Register.size, register, Std.ExtTreeMap.size_filterMap_eq_size_iff.mpr hrows,
    Std.ExtTreeMap.size_ofList Std.TreeMap.distinct_keys_toList, Std.TreeMap.length_toList, size]

@[simp]
theorem lastId_register (l : Ledger) : l.register.lastId = l.lastId := rfl

theorem register_empty : ({} : Ledger).register = {} := by
  ext a
  · rfl
  · rw [getElem?_register]
    simp [row?]

/-! ## What each request does to it -/

/-- The register takes up whatever row a ledger records. -/
theorem register_record_eq (l : Ledger) (a : Address) (size : Nat) (isAccessed : Bool) :
    l.register.record a size isAccessed =
      ((l.recorded a size isAccessed).id,
        { nextId := if l.row? a = none then l.nextId + ObjectId.step else l.nextId
          entries := l.register.entries.insert a (l.recorded a size isAccessed).entry }) := by
  cases ha : l.row? a with
  | some r => simp only [Register.record, getElem?_register, recorded, ha, Option.map_some]; rfl
  | none => simp only [Register.record, getElem?_register, recorded, ha, Option.map_none]; rfl

theorem register_record (h : l.Sound) (a : Address) (size : Nat) (isAccessed : Bool) :
    l.register.record a size isAccessed =
      ((l.record a size isAccessed).1, (l.record a size isAccessed).2.register) := by
  rw [register_record_eq, ← record_fst h]
  refine Prod.ext rfl (Register.ext_getElem? ?_ fun b => ?_)
  · simp only [h.row?_eq_none]
    exact (nextId_record l a size isAccessed).symm
  · simp only [Std.ExtTreeMap.getElem?_insert, Std.LawfulEqOrd.compare_eq_iff_eq,
      getElem?_register, row?_record h]
    split <;> rfl

theorem move_fst (l : Ledger) (source target : Address) (size : Nat) :
    (l.move source target size).1 = (decide (source ≠ target) && (l.slots[source]?).isSome) := by
  unfold move
  split
  · next heq => simp [heq]
  · next hne => cases hi : l.slots[source]? <;> simp [hne]

theorem register_move (h : l.Sound) (source target : Address) (size : Nat) :
    l.register.move source target size =
      ((l.move source target size).1, (l.move source target size).2.register) := by
  by_cases hne : source = target
  · simp [Register.move, move, hne]
  · have hsome : (l.slots[source]?).isSome = (l.row? source).isSome := by
      rw [Bool.eq_iff_iff, Option.isSome_iff_ne_none, Option.isSome_iff_ne_none]
      exact (not_congr h.row?_eq_none).symm
    rw [move_fst, hsome]
    have hrow := row?_move h hne size
    cases hs : l.row? source with
    | some r =>
      simp only [Register.move, if_neg hne, getElem?_register, hs, Option.map_some]
      refine Prod.ext (by simp [hne]) (Register.ext_getElem? ?_ fun b => ?_)
      · exact (nextId_move l source target size).symm
      · simp only [Std.ExtTreeMap.getElem?_insert, Std.ExtTreeMap.getElem?_erase,
          Std.LawfulEqOrd.compare_eq_iff_eq, getElem?_register, hrow, hs]
        split
        · rfl
        · split <;> rfl
    | none =>
      simp only [Register.move, if_neg hne, getElem?_register, hs, Option.map_none]
      refine Prod.ext (by simp) (Register.ext_getElem? ?_ fun b => ?_)
      · exact (nextId_move l source target size).symm
      · simp only [Std.ExtTreeMap.getElem?_erase, Std.LawfulEqOrd.compare_eq_iff_eq,
          getElem?_register, hrow, hs]
        split
        · rfl
        · split
          · next hb => rw [← hb, hs]
          · rfl

theorem register_sweep (h : l.Sound) : l.register.sweep = l.sweep.register := by
  refine Register.ext_getElem? rfl fun a => ?_
  simp only [Register.sweep, Std.ExtTreeMap.getElem?_filterMap', getElem?_register, row?_sweep h]
  cases l.row? a with
  | none => rfl
  | some r => cases hr : r.isAccessed <;> simp [Row.entry, Row.rested, hr]

/-- A ledger and its register reply alike to a request and stay alike. -/
theorem register_serve (h : l.Sound) (q : Request) :
    l.register.serve q = ((l.serve q).1, (l.serve q).2.register) := by
  cases q with
  | track a size => simp only [Register.serve, serve, register_record h, track]
  | resize a size => simp only [Register.serve, serve, register_record h, resize]
  | move source target size => simp only [Register.serve, serve, register_move h]
  | sweep => simp only [Register.serve, serve, register_sweep h]
  | find a => simp only [Register.serve, serve, find?_register]

theorem sound_serve (h : l.Sound) (q : Request) : (l.serve q).2.Sound := by
  cases q with
  | track a size => exact sound_record h a size true
  | resize a size => exact sound_record h a size false
  | move source target size => exact sound_move h source target size
  | sweep => exact sound_sweep h
  | find a => exact h

theorem notices_register (h : l.Sound) (qs : List Request) :
    l.register.notices qs = l.notices qs := by
  induction qs generalizing l with
  | nil => rfl
  | cons q qs ih =>
    have hsound := sound_serve h q
    simp only [Register.notices, notices, register_serve h, size_register hsound, lastId_register,
      ih hsound]

/-! ## Numbers that requests give -/

theorem later_serve (l : Ledger) (q : Request) : Later l (l.serve q).2 := by
  cases q with
  | track a size | resize a size => exact later_record ..
  | move source target size => exact later_move ..
  | sweep => exact later_sweep l
  | find a => exact .refl l

/-- A fresh number is the one that was due, and another is due from then on. -/
theorem grant?_eq_some (h : l.Sound) {q : Request} {id : ObjectId} (hid : l.grant? q = some id) :
    id.raw = l.nextId ∧ l.nextId < (l.serve q).2.nextId := by
  have hrecord : ∀ (a : Address) (size : Nat) (isAccessed : Bool), l.find? a = none →
      (l.record a size isAccessed).2.find? a = some id →
      id.raw = l.nextId ∧ l.nextId < (l.record a size isAccessed).2.nextId := by
    intro a size isAccessed hnone hsome
    have hrow : l.row? a = none := by simpa [find?_eq] using hnone
    rw [find?_record h, if_pos rfl, record_fst h, recorded, hrow] at hsome
    cases hsome
    rw [nextId_record, if_pos (h.row?_eq_none.mp hrow)]
    exact ⟨rfl, Nat.lt_add_of_pos_right (by decide)⟩
  cases q with
  | track a size | resize a size =>
    simp only [grant?] at hid
    split at hid
    · next hnone => exact hrecord a size _ hnone hid
    · cases hid
  | move | sweep | find => cases hid

/-- Fresh numbers increase from the one that is due. -/
theorem grants_increasing (h : l.Sound) (qs : List Request) :
    (∀ id ∈ l.grants qs, l.nextId ≤ id.raw) ∧
      (l.grants qs).Pairwise (fun id id' => id.raw < id'.raw) := by
  induction qs generalizing l with
  | nil => exact ⟨fun id hid => (List.not_mem_nil hid).elim, .nil⟩
  | cons q qs ih =>
    obtain ⟨hbound, hincreasing⟩ := ih (sound_serve h q)
    have hlater : ∀ id ∈ (l.serve q).2.grants qs, l.nextId ≤ id.raw :=
      fun id hid => Nat.le_trans (later_serve l q).nextId (hbound id hid)
    simp only [grants]
    cases hgrant : l.grant? q with
    | none => exact ⟨hlater, hincreasing⟩
    | some id =>
      obtain ⟨hraw, hlt⟩ := grant?_eq_some h hgrant
      refine ⟨?_, ?_⟩
      · intro id' hid'
        rcases List.mem_cons.mp hid' with rfl | hid'
        · exact Nat.le_of_eq hraw.symm
        · exact hlater id' hid'
      · refine List.pairwise_cons.mpr ⟨fun id' hid' => ?_, hincreasing⟩
        have := hbound id' hid'
        omega

/-- Whatever is asked of an empty ledger, it answers as the finite map does. The numbers that it
gives to addresses without one increase, so none is ever given twice, swept or not. -/
theorem notices_eq (qs : List Request) :
    ({} : Ledger).notices qs = ({} : Register).notices qs ∧
      (({} : Ledger).grants qs).Pairwise (fun id id' => id.raw < id'.raw) := by
  refine ⟨?_, (grants_increasing sound_empty qs).2⟩
  rw [← register_empty, notices_register sound_empty]

end Ledger

end ManagedHeap
