import ManagedHeap.Ledger.Population

/-!
# The ledger as a table

Seen from outside the ledger is a table: it has at most one row for an address. `row?` looks it up.
The list of rows and the index of addresses agree with each other, `Sound`, and every operation
keeps them so; what it does to the table is told by one lemma for each.
-/
namespace ManagedHeap

/-- Whether a sweep keeps a row. -/
def Row.isKept (r : Row) : Bool := r.address.isSome && r.isAccessed

/-- A row that counts as unused. -/
def Row.rested (r : Row) : Row := { r with isAccessed := false }

namespace Ledger

/-- The row of an address. -/
def row? (l : Ledger) (a : Address) : Option Row := l.slots[a]?.bind fun i => l.rows[i]?

theorem find?_eq (l : Ledger) (a : Address) : l.find? a = (l.row? a).map (·.id) := rfl

/-- The index of addresses and the rows agree. Row 0 belongs to no object. -/
structure Sound (l : Ledger) : Prop where
  pos : 0 < l.rows.size
  index : ∀ a i, l.slots[a]? = some i → 0 < i ∧ ∃ r, l.rows[i]? = some r ∧ r.address = some a
  rows : ∀ a i r, 0 < i → l.rows[i]? = some r → r.address = some a → l.slots[a]? = some i

theorem sound_empty : ({} : Ledger).Sound where
  pos := by decide
  index a i h := by simp at h
  rows a i r hi hr := by
    obtain ⟨hlt, -⟩ := Array.getElem?_eq_some_iff.mp hr
    have : i < 1 := hlt
    omega

variable {l : Ledger} {a b : Address}

namespace Sound

/-- An address in the index has a row. -/
theorem exists_row (h : l.Sound) {i : Nat} (hi : l.slots[a]? = some i) :
    ∃ r, l.rows[i]? = some r ∧ l.row? a = some r ∧ r.address = some a := by
  obtain ⟨-, r, hr, ha⟩ := h.index a i hi
  exact ⟨r, hr, by simp [row?, hi, hr], ha⟩

theorem row?_eq_none (h : l.Sound) : l.row? a = none ↔ l.slots[a]? = none := by
  constructor
  · intro hrow
    cases hi : l.slots[a]? with
    | none => rfl
    | some i =>
      obtain ⟨r, -, hr, -⟩ := h.exists_row hi
      rw [hrow] at hr
      cases hr
  · intro hi
    simp [row?, hi]

/-- Different addresses have different positions. -/
theorem index_inj (h : l.Sound) {i : Nat} (ha : l.slots[a]? = some i) (hb : l.slots[b]? = some i) :
    a = b := by
  obtain ⟨-, r, hr, hra⟩ := h.index a i ha
  obtain ⟨-, r', hr', hrb⟩ := h.index b i hb
  rw [hr] at hr'
  cases hr'
  rw [hra] at hrb
  exact Option.some.inj hrb

end Sound

/-! ## Recording -/

theorem getElem?_slots_append (l : Ledger) (a b : Address) (size : Nat) (isAccessed : Bool) :
    (l.append a size isAccessed).slots[b]? = if a = b then some l.rows.size else l.slots[b]? := by
  simp [append, Std.TreeMap.getElem?_insert]

theorem getElem?_rows_append (l : Ledger) (a : Address) (size : Nat) (isAccessed : Bool) (i : Nat) :
    (l.append a size isAccessed).rows[i]? =
      if i = l.rows.size then some ⟨⟨l.nextId⟩, some a, size, isAccessed⟩ else l.rows[i]? :=
  Array.getElem?_push

/-- A fresh row at the end. -/
theorem row?_append (h : l.Sound) (a b : Address) (size : Nat) (isAccessed : Bool) :
    (l.append a size isAccessed).row? b =
      if a = b then some ⟨⟨l.nextId⟩, some a, size, isAccessed⟩ else l.row? b := by
  simp only [row?, getElem?_slots_append, getElem?_rows_append]
  split
  · simp
  · cases hb : l.slots[b]? with
    | none => rfl
    | some i =>
      obtain ⟨-, r, hr, -⟩ := h.index b i hb
      obtain ⟨hlt, -⟩ := Array.getElem?_eq_some_iff.mp hr
      simp [Nat.ne_of_lt hlt]

theorem sound_append (h : l.Sound) (ha : l.slots[a]? = none) (size : Nat) (isAccessed : Bool) :
    (l.append a size isAccessed).Sound where
  pos := by simp [append]
  index b i hb := by
    rw [getElem?_slots_append] at hb
    rw [getElem?_rows_append]
    split at hb
    · next hab =>
      cases hb
      exact ⟨h.pos, ⟨⟨l.nextId⟩, some a, size, isAccessed⟩, if_pos rfl, congrArg some hab⟩
    · obtain ⟨hi, r, hr, hrb⟩ := h.index b i hb
      obtain ⟨hlt, -⟩ := Array.getElem?_eq_some_iff.mp hr
      exact ⟨hi, r, by rw [if_neg (Nat.ne_of_lt hlt)]; exact hr, hrb⟩
  rows b i r hi hr hrb := by
    rw [getElem?_rows_append] at hr
    rw [getElem?_slots_append]
    split at hr
    · next hlast =>
      cases hr
      rw [if_pos (Option.some.inj hrb), hlast]
    · have hb := h.rows b i r hi hr hrb
      have hab : a ≠ b := by rintro rfl; rw [ha] at hb; cases hb
      rw [if_neg hab, hb]

/-- Change a row. -/
theorem row?_modify (l : Ledger) (i : Nat) (f : Row → Row) (b : Address) :
    row? { l with rows := l.rows.modify i f } b =
      if l.slots[b]? = some i then (l.row? b).map f else l.row? b := by
  simp only [row?]
  cases l.slots[b]? with
  | none => rfl
  | some j =>
    by_cases hij : i = j
    · simp [Array.getElem?_modify, hij]
    · simp [Array.getElem?_modify, hij, Ne.symm hij]

theorem sound_modify (h : l.Sound) (i : Nat) {f : Row → Row}
    (hf : ∀ r, (f r).address = r.address) : Sound { l with rows := l.rows.modify i f } where
  pos := by simpa using h.pos
  index a j ha := by
    obtain ⟨hj, r, hr, hra⟩ := h.index a j ha
    refine ⟨hj, ?_⟩
    simp only [Array.getElem?_modify, hr]
    split
    · exact ⟨f r, rfl, (hf r).trans hra⟩
    · exact ⟨r, rfl, hra⟩
  rows a j r hj hr hra := by
    simp only [Array.getElem?_modify] at hr
    split at hr
    · obtain ⟨r', hr', rfl⟩ := Option.map_eq_some_iff.mp hr
      exact h.rows a j r' hj hr' ((hf r').symm.trans hra)
    · exact h.rows a j r hj hr hra

/-- What is recorded for an address. -/
def recorded (l : Ledger) (a : Address) (size : Nat) (isAccessed : Bool) : Row :=
  match l.row? a with
  | some r => { r with size := size, isAccessed := isAccessed }
  | none => ⟨⟨l.nextId⟩, some a, size, isAccessed⟩

theorem row?_record (h : l.Sound) (a b : Address) (size : Nat) (isAccessed : Bool) :
    (l.record a size isAccessed).2.row? b =
      if a = b then some (l.recorded a size isAccessed) else l.row? b := by
  cases ha : l.slots[a]? with
  | none =>
    simp only [record, ha, row?_append h, recorded, h.row?_eq_none.mpr ha]
  | some i =>
    obtain ⟨r, -, hr, -⟩ := h.exists_row ha
    simp only [record, ha, row?_modify, recorded, hr]
    by_cases hab : a = b
    · subst hab
      rw [if_pos ha, if_pos rfl, hr]
      rfl
    · have hb : l.slots[b]? ≠ some i := fun hb => hab (h.index_inj ha hb)
      rw [if_neg hb, if_neg hab]

theorem sound_record (h : l.Sound) (a : Address) (size : Nat) (isAccessed : Bool) :
    (l.record a size isAccessed).2.Sound := by
  cases ha : l.slots[a]? with
  | none =>
    simp only [record, ha]
    exact sound_append h ha size isAccessed
  | some i =>
    simp only [record, ha]
    exact sound_modify h i fun _ => rfl

theorem record_fst (h : l.Sound) (a : Address) (size : Nat) (isAccessed : Bool) :
    (l.record a size isAccessed).1 = (l.recorded a size isAccessed).id := by
  have hrow := row?_record h a a size isAccessed
  rw [if_pos rfl] at hrow
  cases ha : l.slots[a]? with
  | none => simp only [record, ha, recorded, h.row?_eq_none.mpr ha]
  | some i =>
    simp only [record, ha] at hrow ⊢
    rw [find?_eq, hrow]
    rfl

/-- Recording gives an address the number that it has or a fresh one, and changes no other. -/
theorem find?_record (h : l.Sound) (a b : Address) (size : Nat) (isAccessed : Bool) :
    (l.record a size isAccessed).2.find? b =
      if a = b then some (l.record a size isAccessed).1 else l.find? b := by
  rw [find?_eq, row?_record h, record_fst h]
  split <;> rfl

theorem record_fst_of_find? (h : l.Sound) {id : ObjectId} (ha : l.find? a = some id) (size : Nat)
    (isAccessed : Bool) : (l.record a size isAccessed).1 = id := by
  obtain ⟨r, hr, rfl⟩ := Option.map_eq_some_iff.mp ((find?_eq l a).symm.trans ha)
  simp only [record_fst h, recorded, hr]

/-- Numbers stay. -/
theorem find?_record_of_find? (h : l.Sound) {id : ObjectId} (hb : l.find? b = some id)
    (a : Address) (size : Nat) (isAccessed : Bool) :
    (l.record a size isAccessed).2.find? b = some id := by
  rw [find?_record h]
  split
  · next hab => rw [record_fst_of_find? h (hab ▸ hb)]
  · exact hb

/-! ## Moving -/

/-- A ledger whose index and rows say that the row `i` of `source` is now that of `target`. What was
at `target` has lost its place. -/
structure Moved (l l' : Ledger) (source target : Address) (size i : Nat) : Prop where
  size_rows : l'.rows.size = l.rows.size
  slots : ∀ b, l'.slots[b]? =
    if target = b then some i else if source = b then none else l.slots[b]?
  rows : ∀ k, l'.rows[k]? =
    if i = k then l.rows[k]?.map fun r => { r with address := some target, size := size }
    else if l.slots[target]? = some k then l.rows[k]?.map fun r => { r with address := none }
    else l.rows[k]?

theorem moved_move {source target : Address} (hne : source ≠ target) {i : Nat}
    (hi : l.slots[source]? = some i) (size : Nat) :
    Moved l (l.move source target size).2 source target size i := by
  have herase : (l.slots.erase source)[target]? = l.slots[target]? := by
    simp [Std.TreeMap.getElem?_erase, hne]
  cases ht : l.slots[target]? with
  | none =>
    have heq : (l.move source target size).2 = { l with
        rows := l.rows.modify i fun r => { r with address := some target, size := size }
        slots := (l.slots.erase source).insert target i } := by
      simp [move, hne, hi, forget, herase, ht]
    rw [heq]
    constructor
    · simp
    · intro b
      simp [Std.TreeMap.getElem?_insert, Std.TreeMap.getElem?_erase]
    · intro k
      simp only [Array.getElem?_modify, ht]
      simp
  | some j =>
    have heq : (l.move source target size).2 = { l with
        rows := (l.rows.modify j fun r => { r with address := none }).modify i
          fun r => { r with address := some target, size := size }
        slots := ((l.slots.erase source).erase target).insert target i } := by
      simp [move, hne, hi, forget, herase, ht, displace]
    rw [heq]
    constructor
    · simp
    · intro b
      simp only [Std.TreeMap.getElem?_insert, Std.TreeMap.getElem?_erase,
        Std.LawfulEqOrd.compare_eq_iff_eq]
      grind
    · intro k
      simp only [Array.getElem?_modify, ht]
      grind

namespace Moved

variable {l' : Ledger} {source target : Address} {size i : Nat}

theorem row?_eq (hmoved : Moved l l' source target size i) (h : l.Sound)
    (hi : l.slots[source]? = some i) (b : Address) :
    l'.row? b =
      if target = b then
        (l.row? source).map fun r => { r with address := some target, size := size }
      else if source = b then none else l.row? b := by
  simp only [row?, hmoved.slots, hmoved.rows, hi]
  by_cases htb : target = b
  · simp [htb]
  · by_cases hsb : source = b
    · simp [htb, hsb]
    · simp only [htb, hsb, ↓reduceIte]
      cases hb : l.slots[b]? with
      | none => rfl
      | some k =>
        have hik : i ≠ k := by rintro rfl; exact hsb (h.index_inj hi hb)
        have htk : l.slots[target]? ≠ some k := fun ht => htb (h.index_inj ht hb)
        simp [hik, htk]

theorem sound (hmoved : Moved l l' source target size i) (h : l.Sound)
    (hi : l.slots[source]? = some i) : l'.Sound where
  pos := hmoved.size_rows ▸ h.pos
  index b k hb := by
    obtain ⟨hpos, r, hr, hra⟩ := h.index source i hi
    rw [hmoved.slots] at hb
    rw [hmoved.rows]
    split at hb
    · next htb =>
      cases hb
      exact ⟨hpos, _, by rw [if_pos rfl, hr]; rfl, congrArg some htb⟩
    · next htb =>
      split at hb
      · cases hb
      · next hsb =>
        obtain ⟨hk, r', hr', hrb⟩ := h.index b k hb
        have hik : i ≠ k := by rintro rfl; exact hsb (h.index_inj hi hb)
        have htk : l.slots[target]? ≠ some k := fun ht => htb (h.index_inj ht hb)
        exact ⟨hk, r', by rw [if_neg hik, if_neg htk]; exact hr', hrb⟩
  rows b k r hk hr hrb := by
    rw [hmoved.rows] at hr
    rw [hmoved.slots]
    split at hr
    · next hik =>
      obtain ⟨r', -, rfl⟩ := Option.map_eq_some_iff.mp hr
      rw [if_pos (Option.some.inj hrb), hik]
    · next hik =>
      split at hr
      · obtain ⟨r', -, rfl⟩ := Option.map_eq_some_iff.mp hr
        cases hrb
      · next htk =>
        have hb := h.rows b k r hk hr hrb
        have htb : target ≠ b := by rintro rfl; exact htk hb
        have hsb : source ≠ b := by rintro rfl; rw [hi] at hb; exact hik (Option.some.inj hb)
        rw [if_neg htb, if_neg hsb, hb]

end Moved

theorem getElem?_slots_forget (l : Ledger) (a b : Address) :
    (l.forget a).slots[b]? = if a = b then none else l.slots[b]? := by
  cases ha : l.slots[a]? with
  | none =>
    simp only [forget, ha]
    split
    · next hab => rw [← hab, ha]
    · rfl
  | some i => simp [forget, ha, Std.TreeMap.getElem?_erase]

theorem getElem?_rows_forget (l : Ledger) (a : Address) (k : Nat) :
    (l.forget a).rows[k]? =
      if l.slots[a]? = some k then l.rows[k]?.map fun r => { r with address := none }
      else l.rows[k]? := by
  cases ha : l.slots[a]? with
  | none => simp [forget, ha]
  | some i => simp [forget, ha, displace, Array.getElem?_modify]

theorem row?_forget (h : l.Sound) (a b : Address) :
    (l.forget a).row? b = if a = b then none else l.row? b := by
  rw [row?, getElem?_slots_forget]
  split
  · rfl
  · next hab =>
    rw [row?]
    cases hb : l.slots[b]? with
    | none => rfl
    | some k =>
      have hak : l.slots[a]? ≠ some k := fun ha => hab (h.index_inj ha hb)
      simp [getElem?_rows_forget, hak]

theorem sound_forget (h : l.Sound) (a : Address) : (l.forget a).Sound where
  pos := by
    unfold forget
    split
    · simpa [displace] using h.pos
    · exact h.pos
  index b k hb := by
    rw [getElem?_slots_forget] at hb
    rw [getElem?_rows_forget]
    split at hb
    · cases hb
    · next hab =>
      obtain ⟨hk, r, hr, hrb⟩ := h.index b k hb
      have hak : l.slots[a]? ≠ some k := fun ha => hab (h.index_inj ha hb)
      exact ⟨hk, r, by rw [if_neg hak]; exact hr, hrb⟩
  rows b k r hk hr hrb := by
    rw [getElem?_rows_forget] at hr
    rw [getElem?_slots_forget]
    split at hr
    · obtain ⟨r', -, rfl⟩ := Option.map_eq_some_iff.mp hr
      cases hrb
    · next hak =>
      have hb := h.rows b k r hk hr hrb
      have hab : a ≠ b := by rintro rfl; exact hak hb
      rw [if_neg hab, hb]

/-- A move takes the row along, and whatever was at the new place is gone. -/
theorem row?_move (h : l.Sound) {source target : Address} (hne : source ≠ target) (size : Nat)
    (b : Address) :
    (l.move source target size).2.row? b =
      if target = b then
        (l.row? source).map fun r => { r with address := some target, size := size }
      else if source = b then none else l.row? b := by
  cases hi : l.slots[source]? with
  | some i => exact (moved_move hne hi size).row?_eq h hi b
  | none =>
    have heq : (l.move source target size).2 = l.forget target := by simp [move, hne, hi]
    have hsource : l.row? source = none := h.row?_eq_none.mpr hi
    rw [heq, row?_forget h, hsource]
    split
    · rfl
    · split
      · next hsb => rw [← hsb, hsource]
      · rfl

theorem sound_move (h : l.Sound) (source target : Address) (size : Nat) :
    (l.move source target size).2.Sound := by
  by_cases hne : source = target
  · simpa [move, hne] using h
  · cases hi : l.slots[source]? with
    | some i => exact (moved_move hne hi size).sound h hi
    | none =>
      have heq : (l.move source target size).2 = l.forget target := by simp [move, hne, hi]
      rw [heq]
      exact sound_forget h target

/-- A move takes the number along. -/
theorem find?_move (h : l.Sound) {source target : Address} (hne : source ≠ target) (size : Nat)
    (b : Address) :
    (l.move source target size).2.find? b =
      if target = b then l.find? source else if source = b then none else l.find? b := by
  rw [find?_eq, row?_move h hne]
  split
  · rw [find?_eq, Option.map_map]; rfl
  · split <;> rfl

/-! ## Sweeping -/

theorem sweepRow_of_isKept {r : Row} (hr : r.address = some a) (hused : r.isAccessed = true)
    (k : Array Row) (m : Std.TreeMap Address Nat) :
    sweepRow (k, m) r = (k.push r.rested, m.insert a k.size) := by
  simp [sweepRow, hr, hused, Row.rested]

theorem toList_foldl_sweepRow (rs : List Row) (k : Array Row) (m : Std.TreeMap Address Nat) :
    (rs.foldl sweepRow (k, m)).1.toList = k.toList ++ (rs.filter (·.isKept)).map (·.rested) := by
  induction rs generalizing k m with
  | nil => simp
  | cons r rs ih =>
    rw [List.foldl_cons]
    cases hr : r.address with
    | none => simp [sweepRow, hr, ih, Row.isKept]
    | some a =>
      cases hused : r.isAccessed with
      | true => simp [sweepRow_of_isKept hr hused, ih, Row.isKept, hr, hused]
      | false => simp [sweepRow, hr, hused, ih, Row.isKept]

/-- Rows of other addresses do not touch an address. -/
theorem foldl_sweepRow_of_ne {rs : List Row} (h : ∀ r ∈ rs, r.address ≠ some a) (k : Array Row)
    (m : Std.TreeMap Address Nat) : (rs.foldl sweepRow (k, m)).2[a]? = m[a]? := by
  induction rs generalizing k m with
  | nil => rfl
  | cons r rs ih =>
    have hrest : ∀ x ∈ rs, x.address ≠ some a := fun x hx => h x (List.mem_cons_of_mem r hx)
    rw [List.foldl_cons]
    cases hr : r.address with
    | none => simp [sweepRow, hr, ih hrest]
    | some b =>
      have hb : b ≠ a := by
        rintro rfl
        exact h r List.mem_cons_self hr
      cases hused : r.isAccessed with
      | true =>
        simp [sweepRow_of_isKept hr hused, ih hrest, Std.TreeMap.getElem?_insert, hb]
      | false => simp [sweepRow, hr, hused, ih hrest, Std.TreeMap.getElem?_erase, hb]

/-- The last row of an address decides where the sweep puts it. -/
theorem foldl_sweepRow_split {rs rs' : List Row} {r : Row} (hr : r.address = some a)
    (h : ∀ x ∈ rs', x.address ≠ some a) (k : Array Row) (m : Std.TreeMap Address Nat) :
    ((rs ++ r :: rs').foldl sweepRow (k, m)).2[a]? =
      if r.isAccessed then some (k.size + (rs.filter (·.isKept)).length) else none := by
  rw [List.foldl_append, List.foldl_cons]
  have hsize : (rs.foldl sweepRow (k, m)).1.size = k.size + (rs.filter (·.isKept)).length := by
    rw [← Array.length_toList, toList_foldl_sweepRow]
    simp
  generalize rs.foldl sweepRow (k, m) = kept at hsize
  obtain ⟨k', m'⟩ := kept
  cases hused : r.isAccessed with
  | true =>
    rw [sweepRow_of_isKept hr hused, foldl_sweepRow_of_ne h]
    simp only [Std.TreeMap.getElem?_insert_self]
    exact congrArg some hsize
  | false => simp [sweepRow, hr, hused, foldl_sweepRow_of_ne h]

/-- The rows that belong to objects. -/
def body (l : Ledger) : List Row := l.rows.toList.drop 1

theorem getElem?_body (l : Ledger) (i : Nat) : l.body[i]? = l.rows[i + 1]? := by
  simp [body]

namespace Sound

/-- No other row has the address of a row. -/
theorem address_ne (h : l.Sound) {rs rs' : List Row} {r : Row} (hbody : l.body = rs ++ r :: rs')
    (hr : r.address = some a) : ∀ x ∈ rs ++ rs', x.address ≠ some a := by
  have hat : ∀ (i : Nat) (x : Row), (rs ++ r :: rs')[i]? = some x → x.address = some a →
      l.slots[a]? = some (i + 1) := by
    intro i x hi hx
    rw [← hbody, getElem?_body] at hi
    exact h.rows a (i + 1) x (Nat.succ_pos i) hi hx
  have hplace := hat rs.length r (by simp) hr
  intro x hx hxa
  rcases List.mem_append.mp hx with hx | hx
  · obtain ⟨i, hi⟩ := List.mem_iff_getElem?.mp hx
    have hlt := (List.getElem?_eq_some_iff.mp hi).1
    have := hat i x (by rw [List.getElem?_append_left hlt]; exact hi) hxa
    rw [hplace] at this
    simp at this
    omega
  · obtain ⟨i, hi⟩ := List.mem_iff_getElem?.mp hx
    have hlater : (rs ++ r :: rs')[rs.length + (i + 1)]? = some x := by
      rw [List.getElem?_append_right (Nat.le_add_right _ _), Nat.add_sub_cancel_left]
      exact hi
    have := hat (rs.length + (i + 1)) x hlater hxa
    rw [hplace] at this
    simp at this

/-- Where the row of an address stands. -/
theorem exists_split (h : l.Sound) {r : Row} (hr : l.row? a = some r) :
    r.address = some a ∧ ∃ rs rs', l.body = rs ++ r :: rs' := by
  cases hi : l.slots[a]? with
  | none => rw [h.row?_eq_none.mpr hi] at hr; cases hr
  | some i =>
    obtain ⟨hpos, r', hr', ha⟩ := h.index a i hi
    obtain rfl : r' = r := by simpa [row?, hi, hr'] using hr
    have hbody : l.body[i - 1]? = some r' := by
      rw [getElem?_body, Nat.sub_add_cancel hpos]
      exact hr'
    exact ⟨ha, List.append_of_mem (List.mem_of_getElem? hbody)⟩

end Sound

theorem size_extract (h : l.Sound) : (l.rows.extract 0 1).size = 1 := by
  have := h.pos
  simp
  omega

/-- Behind row 0 stand the rows that are kept, in their order. -/
theorem getElem?_rows_sweep (h : l.Sound) (i : Nat) :
    l.sweep.rows[i + 1]? = ((l.body.filter (·.isKept)).map (·.rested))[i]? := by
  have hrows : l.sweep.rows.toList =
      (l.rows.extract 0 1).toList ++ (l.body.filter (·.isKept)).map (·.rested) :=
    toList_foldl_sweepRow l.body (l.rows.extract 0 1) l.slots
  rw [← Array.getElem?_toList, hrows, List.getElem?_append_right]
  · rw [Array.length_toList, size_extract h, Nat.add_sub_cancel]
  · rw [Array.length_toList, size_extract h]
    exact Nat.le_add_left 1 i

theorem getElem?_slots_sweep (h : l.Sound) {rs rs' : List Row} {r : Row}
    (hbody : l.body = rs ++ r :: rs') (hr : r.address = some a) :
    l.sweep.slots[a]? =
      if r.isAccessed then some ((rs.filter (·.isKept)).length + 1) else none := by
  have hlater : ∀ x ∈ rs', x.address ≠ some a :=
    fun x hx => h.address_ne hbody hr x (List.mem_append_right rs hx)
  have hslots : l.sweep.slots = (l.body.foldl sweepRow (l.rows.extract 0 1, l.slots)).2 := rfl
  rw [hslots, hbody, foldl_sweepRow_split hr hlater, size_extract h, Nat.add_comm]

theorem getElem?_slots_sweep_of_none (h : l.Sound) (ha : l.slots[a]? = none) :
    l.sweep.slots[a]? = none := by
  have hother : ∀ r ∈ l.body, r.address ≠ some a := by
    intro r hr hra
    obtain ⟨i, hi⟩ := List.mem_iff_getElem?.mp hr
    rw [getElem?_body] at hi
    rw [h.rows a (i + 1) r (Nat.succ_pos i) hi hra] at ha
    cases ha
  have hslots : l.sweep.slots = (l.body.foldl sweepRow (l.rows.extract 0 1, l.slots)).2 := rfl
  rw [hslots, foldl_sweepRow_of_ne hother, ha]

/-- A row that is kept, as it stands among those that are kept. -/
theorem getElem?_filter_isKept {rs rs' : List Row} {r : Row} (hr : r.isKept = true) :
    (((rs ++ r :: rs').filter (·.isKept)).map (·.rested))[(rs.filter (·.isKept)).length]? =
      some r.rested := by
  rw [List.filter_append, List.filter_cons_of_pos hr]
  simp

/-- A sweep keeps the rows that were used, and they count as unused from then on. -/
theorem row?_sweep (h : l.Sound) (a : Address) :
    l.sweep.row? a = (l.row? a).bind fun r => if r.isAccessed then some r.rested else none := by
  cases hrow : l.row? a with
  | none => simp [row?, getElem?_slots_sweep_of_none h (h.row?_eq_none.mp hrow)]
  | some r =>
    obtain ⟨hr, rs, rs', hbody⟩ := h.exists_split hrow
    rw [row?, getElem?_slots_sweep h hbody hr]
    cases hused : r.isAccessed with
    | false => simp [hused]
    | true =>
      have hkept : r.isKept = true := by simp [Row.isKept, hr, hused]
      simp only [↓reduceIte, Option.bind_some, getElem?_rows_sweep h, hbody,
        getElem?_filter_isKept hkept, hused]

theorem find?_sweep (h : l.Sound) {r : Row} (hr : l.row? a = some r) (hused : r.isAccessed = true) :
    l.sweep.find? a = some r.id := by
  simp [find?_eq, row?_sweep h, hr, hused, Row.rested]

/-- Where a member of a filtered list comes from. -/
theorem exists_split_of_filter {α : Type} {p : α → Bool} {xs : List α} {i : Nat} {x : α}
    (h : (xs.filter p)[i]? = some x) :
    ∃ ys zs, xs = ys ++ x :: zs ∧ (ys.filter p).length = i := by
  induction xs generalizing i with
  | nil => cases h
  | cons y xs ih =>
    cases hy : p y with
    | false =>
      rw [List.filter_cons_of_neg (by simp [hy])] at h
      obtain ⟨ys, zs, rfl, hlength⟩ := ih h
      exact ⟨y :: ys, zs, rfl, by rw [List.filter_cons_of_neg (by simp [hy])]; exact hlength⟩
    | true =>
      rw [List.filter_cons_of_pos hy] at h
      cases i with
      | zero => cases h; exact ⟨[], xs, rfl, rfl⟩
      | succ i =>
        obtain ⟨ys, zs, rfl, hlength⟩ := ih h
        refine ⟨y :: ys, zs, rfl, ?_⟩
        rw [List.filter_cons_of_pos hy, List.length_cons, hlength]

theorem sound_sweep (h : l.Sound) : l.sweep.Sound where
  pos := by
    have hrows : l.sweep.rows.toList =
        (l.rows.extract 0 1).toList ++ (l.body.filter (·.isKept)).map (·.rested) :=
      toList_foldl_sweepRow l.body (l.rows.extract 0 1) l.slots
    rw [← Array.length_toList, hrows, List.length_append, Array.length_toList, size_extract h]
    omega
  index a i hi := by
    cases hrow : l.row? a with
    | none => rw [getElem?_slots_sweep_of_none h (h.row?_eq_none.mp hrow)] at hi; cases hi
    | some r =>
      obtain ⟨hr, rs, rs', hbody⟩ := h.exists_split hrow
      rw [getElem?_slots_sweep h hbody hr] at hi
      split at hi
      · next hused =>
        cases hi
        have hkept : r.isKept = true := by simp [Row.isKept, hr, hused]
        refine ⟨Nat.succ_pos _, r.rested, ?_, hr⟩
        rw [getElem?_rows_sweep h, hbody, getElem?_filter_isKept hkept]
      · cases hi
  rows a i r hi hr hra := by
    obtain ⟨j, rfl⟩ : ∃ j, i = j + 1 := ⟨i - 1, by omega⟩
    rw [getElem?_rows_sweep h, List.getElem?_map] at hr
    obtain ⟨x, hx, rfl⟩ := Option.map_eq_some_iff.mp hr
    obtain ⟨rs, rs', hbody, hlength⟩ := exists_split_of_filter hx
    have hkept : x.isKept = true := (List.mem_filter.mp (List.mem_of_getElem? hx)).2
    have hused : x.isAccessed = true := by
      simp only [Row.isKept, Bool.and_eq_true] at hkept
      exact hkept.2
    rw [getElem?_slots_sweep h hbody hra, if_pos hused, hlength]

/-! ## Tracking what is alive -/

/-- An address was asked for since the last sweep. -/
def IsUsed (l : Ledger) (a : Address) : Prop := ∃ r, l.row? a = some r ∧ r.isAccessed = true

/-- A sweep keeps the numbers that are in use. -/
theorem IsUsed.find?_sweep (hused : l.IsUsed a) (h : l.Sound) : l.sweep.find? a = l.find? a := by
  obtain ⟨r, hr, haccessed⟩ := hused
  rw [Ledger.find?_sweep h hr haccessed, find?_eq, hr]
  rfl

theorem isUsed_track (h : l.Sound) (a : Address) (size : Nat) : (l.track a size).2.IsUsed a := by
  refine ⟨l.recorded a size true, ?_, ?_⟩
  · rw [track, row?_record h, if_pos rfl]
  · unfold recorded
    split <;> rfl

theorem IsUsed.track (hused : l.IsUsed b) (h : l.Sound) (a : Address) (size : Nat) :
    (l.track a size).2.IsUsed b := by
  by_cases hab : a = b
  · exact hab ▸ isUsed_track h a size
  · obtain ⟨r, hr, haccessed⟩ := hused
    exact ⟨r, by rw [Ledger.track, row?_record h, if_neg hab]; exact hr, haccessed⟩

/-- What tracking one more address keeps. -/
structure Extends (l l' : Ledger) : Prop where
  sound : l'.Sound
  find? : ∀ b id, l.find? b = some id → l'.find? b = some id
  isUsed : ∀ b, l.IsUsed b → l'.IsUsed b

theorem Extends.refl (h : l.Sound) : Extends l l := ⟨h, fun _ _ hb => hb, fun _ hb => hb⟩

theorem Extends.trans {l' l'' : Ledger} (h : Extends l l') (h' : Extends l' l'') :
    Extends l l'' where
  sound := h'.sound
  find? _ _ hb := h'.find? _ _ (h.find? _ _ hb)
  isUsed _ hb := h'.isUsed _ (h.isUsed _ hb)

theorem extends_track (h : l.Sound) (a : Address) (size : Nat) : Extends l (l.track a size).2 where
  sound := sound_record h a size true
  find? _ _ hb := find?_record_of_find? h hb a size true
  isUsed _ hb := hb.track h a size

theorem extends_trackObject (h : l.Sound) (o : HeapObject) : Extends l (l.trackObject o) := by
  have hobject := extends_track h o.address o.size
  unfold trackObject
  dsimp only
  split
  · exact hobject.trans (extends_track hobject.sound _ _)
  · exact hobject

theorem isUsed_trackObject (h : l.Sound) (o : HeapObject) : (l.trackObject o).IsUsed o.address := by
  have hobject := isUsed_track h o.address o.size
  unfold trackObject
  dsimp only
  split
  · exact hobject.track (sound_record h _ _ _) _ _
  · exact hobject

theorem extends_trackAll (h : l.Sound) (os : List HeapObject) :
    Extends l (os.foldl trackObject l) := by
  induction os generalizing l with
  | nil => exact .refl h
  | cons o os ih =>
    have hobject := extends_trackObject h o
    exact hobject.trans (ih hobject.sound)

theorem isUsed_trackAll (h : l.Sound) {os : List HeapObject} {o : HeapObject} (ho : o ∈ os) :
    (os.foldl trackObject l).IsUsed o.address := by
  induction os generalizing l with
  | nil => cases ho
  | cons x os ih =>
    have hx := extends_trackObject h x
    rcases List.mem_cons.mp ho with rfl | ho
    · exact (extends_trackAll hx.sound os).isUsed _ (isUsed_trackObject h o)
    · exact ih hx.sound ho

theorem sound_refresh (h : l.Sound) (os : List HeapObject) : (l.refresh os).Sound :=
  sound_sweep (extends_trackAll h os).sound

/-- Live objects keep their numbers when the ledger is refreshed. -/
theorem find?_refresh (h : l.Sound) {os : List HeapObject} {o : HeapObject} (ho : o ∈ os)
    {id : ObjectId} (hid : l.find? o.address = some id) :
    (l.refresh os).find? o.address = some id := by
  have hall := extends_trackAll h os
  rw [refresh, (isUsed_trackAll h ho).find?_sweep hall.sound]
  exact hall.find? _ _ hid

/-- A report changes spans beside what a refresh does. -/
theorem report_eq {σ : Type} (l : Ledger) (os : List HeapObject) (now : Int) (k : Sink σ) (s : σ) :
    ∃ spans, (l.report os now k s).ledger = { l.refresh os with spans := spans } :=
  ⟨_, rfl⟩

theorem sound_spans (h : l.Sound) (spans : List Span) : Sound { l with spans := spans } :=
  ⟨h.pos, h.index, h.rows⟩

end Ledger

end ManagedHeap
