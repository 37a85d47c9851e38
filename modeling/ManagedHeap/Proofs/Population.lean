import ManagedHeap.Proofs.Issued
import Mathlib.Data.List.Nodup

/-!
# The population of the spans

The rows of a ledger stand in the order of their numbers, and the bounds of the spans do not
decrease. So one walk over the rows gives the tally of every span, `living`, and the updates that a
report sends are those of the spans whose tally has changed, `changes`. A sink may end the report
behind any batch: then the spans are brought up to date as far as updates were handed to it.
-/
namespace ManagedHeap

/-! ## Tallies -/

/-- The sizes of rows together. -/
def totalSize (rows : List Row) : Nat := rows.foldr (fun r n => r.size + n) 0

/-- How many rows there are, and their size, up to the largest that is recorded. -/
def Tally.ofRows (rows : List Row) : Tally := ⟨rows.length, min (totalSize rows) maxSize⟩

theorem Tally.foldl_add (rows : List Row) (count size : Nat) :
    rows.foldl Tally.add ⟨count, min size maxSize⟩ =
      ⟨count + rows.length, min (size + totalSize rows) maxSize⟩ := by
  induction rows generalizing count size with
  | nil => rfl
  | cons r rs ih =>
    have hadd : Tally.add ⟨count, min size maxSize⟩ r =
        ⟨count + 1, min (size + r.size) maxSize⟩ := by
      simp only [Tally.add, Tally.mk.injEq, true_and]
      omega
    have htotal : totalSize (r :: rs) = r.size + totalSize rs := rfl
    rw [List.foldl_cons, hadd, ih, htotal, List.length_cons]
    congr 1
    · omega
    · rw [Nat.add_assoc]

theorem Tally.foldl_add_empty (rows : List Row) :
    rows.foldl Tally.add {} = Tally.ofRows rows := by
  have h := foldl_add rows 0 0
  rwa [Nat.zero_add, Nat.zero_add] at h

/-- The order of rows does not matter to their tally. -/
theorem Tally.ofRows_perm {rows rows' : List Row} (h : rows.Perm rows') :
    Tally.ofRows rows = Tally.ofRows rows' := by
  have htotal : totalSize rows = totalSize rows' :=
    h.foldr_eq' (fun x _ y _ n => by omega) 0
  rw [ofRows, ofRows, h.length_eq, htotal]

/-- Numbers increase from row to row. -/
def Increasing (rows : List Row) : Prop := rows.Pairwise fun r r' => r.id.raw < r'.id.raw

/-- Whether the number of a row lies between two bounds, the lower one included. -/
def Row.isWithin (lower upper : Nat) (r : Row) : Bool := lower ≤ r.id.raw && r.id.raw < upper

/-- Whether the number of a row lies above a bound or at it. -/
def Row.isFrom (lower : Nat) (r : Row) : Bool := lower ≤ r.id.raw

theorem le_of_mem_filter_isFrom {lower : Nat} {rows : List Row} {r : Row}
    (h : r ∈ rows.filter (·.isFrom lower)) : lower ≤ r.id.raw := by
  simpa [Row.isFrom] using (List.mem_filter.mp h).2

/-- A walk over increasing rows up to a bound. -/
theorem tallyBelow_eq {rows : List Row} (h : Increasing rows) (bound : ObjectId) (t : Tally) :
    tallyBelow bound t rows =
      ((rows.filter (·.isWithin 0 bound.raw)).foldl Tally.add t,
        rows.filter (·.isFrom bound.raw)) := by
  induction rows generalizing t with
  | nil => rfl
  | cons r rs ih =>
    obtain ⟨hr, hrs⟩ := List.pairwise_cons.mp h
    rw [tallyBelow]
    split
    · next hlt =>
      rw [ih hrs]
      simp [Row.isWithin, Row.isFrom, hlt]
    · next hge =>
      -- all later rows lie behind the bound too
      have hwithin : rs.filter (·.isWithin 0 bound.raw) = [] := by
        refine List.filter_eq_nil_iff.mpr fun r' hr' => ?_
        have := hr r' hr'
        simp [Row.isWithin]
        omega
      have hfrom : rs.filter (·.isFrom bound.raw) = rs := by
        refine List.filter_eq_self.mpr fun r' hr' => ?_
        have := hr r' hr'
        simp [Row.isFrom]
        omega
      have hnot : ¬ r.isWithin 0 bound.raw = true := by simp [Row.isWithin, hge]
      have hbehind : r.isFrom bound.raw = true := by simpa [Row.isFrom] using hge
      rw [List.filter_cons_of_neg hnot, List.filter_cons_of_pos hbehind, hwithin, hfrom]
      rfl

/-! ## Spans -/

/-- What is recorded for a span. -/
def population (spans : List Span) (i : Nat) : Tally :=
  match spans[i]? with
  | some s => ⟨s.count, s.size⟩
  | none => {}

/-- The first number of a span: that behind the span before it. -/
def spanStart (lower : Nat) (spans : List Span) : Nat → Nat
  | 0 => lower
  | i + 1 => (spans[i]?.map (·.bound.raw)).getD 0

/-- The tally of the rows whose numbers belong to a span. -/
def living (lower : Nat) (rows : List Row) (spans : List Span) (i : Nat) : Tally :=
  match spans[i]?.map (·.bound.raw) with
  | some upper => .ofRows (rows.filter (·.isWithin (spanStart lower spans i) upper))
  | none => {}

/-- The bounds of spans do not decrease. -/
def Ordered (spans : List Span) : Prop := spans.Pairwise fun s s' => s.bound.raw ≤ s'.bound.raw

theorem population_cons_zero (s : Span) (ss : List Span) :
    population (s :: ss) 0 = ⟨s.count, s.size⟩ :=
  rfl

theorem population_cons_succ (s : Span) (ss : List Span) (i : Nat) :
    population (s :: ss) (i + 1) = population ss i := by
  simp [population]

theorem spanStart_cons_succ (lower : Nat) (s : Span) (ss : List Span) (i : Nat) :
    spanStart lower (s :: ss) (i + 1) = spanStart s.bound.raw ss i := by
  cases i <;> simp [spanStart]

theorem living_cons_succ (lower : Nat) (rows : List Row) (s : Span) (ss : List Span) (i : Nat) :
    living lower rows (s :: ss) (i + 1) = living s.bound.raw rows ss i := by
  simp [living, spanStart_cons_succ]

/-- Tallies depend on the bounds of the spans alone. -/
theorem living_congr {spans spans' : List Span}
    (h : spans'.map (·.bound) = spans.map (·.bound)) (lower : Nat) (rows : List Row) (i : Nat) :
    living lower rows spans' i = living lower rows spans i := by
  have hbound : ∀ j : Nat, spans'[j]?.map (·.bound.raw) = spans[j]?.map (·.bound.raw) := by
    intro j
    have hj := congrArg (fun l => l[j]?.map ObjectId.raw) h
    simpa only [List.getElem?_map, Option.map_map, Function.comp_def] using hj
  have hstart : spanStart lower spans' i = spanStart lower spans i := by
    cases i with
    | zero => rfl
    | succ i => rw [spanStart, spanStart, hbound]
  rw [living, living, hstart, hbound]

theorem living_perm {rows rows' : List Row} (h : rows.Perm rows') (lower : Nat)
    (spans : List Span) (i : Nat) : living lower rows spans i = living lower rows' spans i := by
  unfold living
  split
  · exact Tally.ofRows_perm (h.filter _)
  · rfl

/-- No span begins before the first. -/
theorem le_spanStart {lower : Nat} {spans : List Span} (h : ∀ s ∈ spans, lower ≤ s.bound.raw)
    {i : Nat} (hi : i < spans.length) : lower ≤ spanStart lower spans i := by
  cases i with
  | zero => exact Nat.le_refl _
  | succ i =>
    have hget : spans[i]? = some spans[i] := List.getElem?_eq_getElem (by omega)
    rw [spanStart, hget]
    exact h _ (List.getElem_mem _)

/-- Rows before the first span count for none of them. -/
theorem living_filter {lower : Nat} {spans : List Span} (h : ∀ s ∈ spans, lower ≤ s.bound.raw)
    (rows : List Row) (i : Nat) :
    living lower (rows.filter (·.isFrom lower)) spans i = living lower rows spans i := by
  unfold living
  cases hs : spans[i]? with
  | none => rfl
  | some s =>
    have hstart := le_spanStart h (List.getElem?_eq_some_iff.mp hs).1
    simp only [Option.map_some, List.filter_filter]
    congr 2
    funext r
    simp only [Row.isWithin, Row.isFrom, Bool.and_eq_left_iff_imp, Bool.and_eq_true,
      decide_eq_true_eq]
    omega

/-! ## What a report has to tell -/

def Update.tally (u : Update) : Tally := ⟨u.count, u.size⟩

/-- The updates that tell of all spans whose tally is not what is recorded for them, the first span
being number `index`. -/
def changes : Nat → List Row → List Span → List Update
  | _, _, [] => []
  | index, rows, s :: ss =>
    let t := (tallyBelow s.bound {} rows).1
    let later := changes (index + 1) (tallyBelow s.bound {} rows).2 ss
    if s.count = t.count ∧ s.size = t.size then later else ⟨index, t.count, t.size⟩ :: later

theorem le_index_of_mem_changes {index : Nat} {rows : List Row} {spans : List Span} {u : Update}
    (h : u ∈ changes index rows spans) : index ≤ u.index := by
  induction spans generalizing index rows with
  | nil => cases h
  | cons s ss ih =>
    rw [changes] at h
    split at h
    · exact Nat.le_of_succ_le (ih h)
    · rcases List.mem_cons.mp h with rfl | h
      · exact Nat.le_refl _
      · exact Nat.le_of_succ_le (ih h)

/-- Every span is told of at most once, and in order. -/
theorem pairwise_changes (index : Nat) (rows : List Row) (spans : List Span) :
    (changes index rows spans).Pairwise fun u u' => u.index < u'.index := by
  induction spans generalizing index rows with
  | nil => exact .nil
  | cons s ss ih =>
    rw [changes]
    split
    · exact ih ..
    · exact List.pairwise_cons.mpr ⟨fun u hu => le_index_of_mem_changes hu, ih ..⟩

/-- The walk up to the first bound gives the tally of the first span. -/
theorem tallyBelow_fst {lower : Nat} {rows : List Row} (hrows : Increasing rows)
    (hfrom : ∀ r ∈ rows, lower ≤ r.id.raw) (s : Span) (ss : List Span) :
    (tallyBelow s.bound {} rows).1 = living lower rows (s :: ss) 0 := by
  have hfilter : rows.filter (·.isWithin 0 s.bound.raw) =
      rows.filter (·.isWithin lower s.bound.raw) := by
    refine List.filter_congr fun r hr => ?_
    simp [Row.isWithin, hfrom r hr]
  rw [tallyBelow_eq hrows, hfilter, Tally.foldl_add_empty]
  rfl

/-- The rows behind the first bound give the tallies of all other spans. -/
theorem living_tallyBelow_snd {rows : List Row} (hrows : Increasing rows) {s : Span}
    {ss : List Span} (hspans : Ordered (s :: ss)) (lower i : Nat) :
    living s.bound.raw (tallyBelow s.bound {} rows).2 ss i =
      living lower rows (s :: ss) (i + 1) := by
  rw [tallyBelow_eq hrows, living_filter (List.pairwise_cons.mp hspans).1, living_cons_succ]

theorem increasing_tallyBelow_snd {rows : List Row} (hrows : Increasing rows) (bound : ObjectId) :
    Increasing (tallyBelow bound {} rows).2 ∧
      ∀ r ∈ (tallyBelow bound {} rows).2, bound.raw ≤ r.id.raw := by
  rw [tallyBelow_eq hrows]
  exact ⟨hrows.sublist List.filter_sublist, fun r hr => le_of_mem_filter_isFrom hr⟩

/-- The spans that are told of are those whose tally is not what is recorded, and it is what they
are told to have. -/
theorem mem_changes {lower index : Nat} {rows : List Row} {spans : List Span}
    (hrows : Increasing rows) (hfrom : ∀ r ∈ rows, lower ≤ r.id.raw) (hspans : Ordered spans)
    {u : Update} :
    u ∈ changes index rows spans ↔ ∃ i < spans.length, u.index = index + i ∧
      u.tally = living lower rows spans i ∧ population spans i ≠ living lower rows spans i := by
  induction spans generalizing lower index rows with
  | nil => simp [changes]
  | cons s ss ih =>
    have hfirst := tallyBelow_fst hrows hfrom s ss
    obtain ⟨hrows', hfrom'⟩ := increasing_tallyBelow_snd hrows s.bound
    have hlater : u ∈ changes (index + 1) (tallyBelow s.bound {} rows).2 ss ↔
        ∃ i < ss.length, u.index = index + (i + 1) ∧
          u.tally = living lower rows (s :: ss) (i + 1) ∧
          population (s :: ss) (i + 1) ≠ living lower rows (s :: ss) (i + 1) := by
      rw [ih hrows' hfrom' (List.pairwise_cons.mp hspans).2]
      simp only [living_tallyBelow_snd hrows hspans lower, population_cons_succ, Nat.add_assoc,
        Nat.add_comm 1]
    rw [changes, hfirst, List.length_cons, Nat.exists_lt_succ_left, ← hlater, population_cons_zero]
    generalize living lower rows (s :: ss) 0 = t
    obtain ⟨count, size⟩ := t
    obtain ⟨index', count', size'⟩ := u
    split
    · next hsame =>
      rw [or_iff_right]
      rintro ⟨-, -, hne⟩
      exact hne (by rw [hsame.1, hsame.2])
    · next hne =>
      rw [List.mem_cons]
      refine or_congr_left ⟨?_, ?_⟩
      · rintro ⟨⟩
        refine ⟨rfl, rfl, fun hsame => hne ?_⟩
        simpa using hsame
      · rintro ⟨rfl, htally, -⟩
        cases htally
        rfl

/-! ## All spans together -/

/-- The objects that are recorded for spans, all together. -/
def totalCount (spans : List Span) : Nat := spans.foldr (fun s n => s.count + n) 0

/-- Where every row has a span and the spans are up to date, all rows are counted once. -/
theorem totalCount_eq {lower : Nat} {rows : List Row} {spans : List Span} (hspans : Ordered spans)
    (hfrom : ∀ r ∈ rows, lower ≤ r.id.raw)
    (hbelow : ∀ r ∈ rows, ∃ s ∈ spans, r.id.raw < s.bound.raw)
    (hliving : ∀ i, population spans i = living lower rows spans i) :
    totalCount spans = rows.length := by
  induction spans generalizing lower rows with
  | nil =>
    have hnone : rows = [] := by
      refine List.eq_nil_iff_forall_not_mem.mpr fun r hr => ?_
      obtain ⟨s, hs, -⟩ := hbelow r hr
      cases hs
    rw [hnone]
    rfl
  | cons s ss ih =>
    obtain ⟨hs, hss⟩ := List.pairwise_cons.mp hspans
    have hfirst : s.count = (rows.filter (·.isWithin lower s.bound.raw)).length :=
      congrArg Tally.count (hliving 0)
    have hrest : totalCount ss = (rows.filter (·.isFrom s.bound.raw)).length := by
      refine ih hss (fun r hr => le_of_mem_filter_isFrom hr) (fun r hr => ?_) fun i => ?_
      · have hge := le_of_mem_filter_isFrom hr
        obtain ⟨s', hs', hlt⟩ := hbelow r (List.mem_filter.mp hr).1
        rcases List.mem_cons.mp hs' with rfl | hs'
        · omega
        · exact ⟨s', hs', hlt⟩
      · rw [living_filter hs, ← living_cons_succ lower, ← hliving, population_cons_succ]
    have hnot : rows.filter (fun r => !r.isWithin lower s.bound.raw) =
        rows.filter (·.isFrom s.bound.raw) := by
      refine List.filter_congr fun r hr => ?_
      have := hfrom r hr
      rw [Bool.eq_iff_iff]
      simp [Row.isWithin, Row.isFrom]
      omega
    calc totalCount (s :: ss)
        = s.count + totalCount ss := rfl
      _ = (rows.filter (·.isWithin lower s.bound.raw)).length +
            (rows.filter (fun r => !r.isWithin lower s.bound.raw)).length := by
          rw [hfirst, hrest, hnot]
      _ = rows.length := (List.length_eq_length_filter_add _).symm

/-! ## The rows of addresses -/

namespace Ledger

variable {l : Ledger}

/-- The rows of all addresses that have a number. -/
def tracked (l : Ledger) : List Row := l.slots.keys.filterMap l.row?

theorem mem_tracked (h : l.Sound) {r : Row} : r ∈ l.tracked ↔ ∃ a, l.row? a = some r := by
  rw [tracked, List.mem_filterMap]
  constructor
  · rintro ⟨a, -, hr⟩
    exact ⟨a, hr⟩
  · rintro ⟨a, hr⟩
    refine ⟨a, ?_, hr⟩
    rw [Std.TreeMap.mem_keys]
    refine Decidable.byContradiction fun hnone => ?_
    rw [h.row?_eq_none.mpr (Std.TreeMap.getElem?_eq_none hnone)] at hr
    cases hr

theorem Sound.mem_body (h : l.Sound) {a : Address} {r : Row} (hr : l.row? a = some r) :
    r ∈ l.body := by
  obtain ⟨-, rs, rs', hbody⟩ := h.exists_split hr
  rw [hbody]
  exact List.mem_append_right rs List.mem_cons_self

theorem length_tracked (h : l.Sound) : l.tracked.length = l.size := by
  rw [size, ← Std.TreeMap.length_keys, tracked, List.filterMap_length_eq_length]
  intro a ha
  rw [Std.TreeMap.mem_keys, Std.TreeMap.mem_iff_isSome_getElem?] at ha
  obtain ⟨i, hi⟩ := Option.isSome_iff_exists.mp ha
  obtain ⟨r, -, hr, -⟩ := h.exists_row hi
  rw [hr]
  rfl

theorem nodup_tracked (h : l.Sound) : l.tracked.Nodup := by
  refine List.Nodup.filterMap (fun a b r ha hb => ?_) Std.TreeMap.nodup_keys
  have ha' := (h.exists_split ha).1
  rw [(h.exists_split hb).1] at ha'
  exact (Option.some.inj ha').symm

theorem Issued.increasing_body (h : l.Issued) : Increasing l.body :=
  List.Pairwise.of_map (·.id.raw) (fun _ _ hlt => hlt) h.increasing

/-- After a sweep every row belongs to an address. -/
theorem perm_tracked_sweep (h : l.Sound) (hissued : l.Issued) :
    l.sweep.tracked.Perm l.sweep.body := by
  have hsound := sound_sweep h
  have hnodup : l.sweep.body.Nodup :=
    (hissued.sweep h).increasing_body.imp fun hlt heq => by rw [heq] at hlt; omega
  refine (List.perm_ext_iff_of_nodup (nodup_tracked hsound) hnodup).mpr fun r => ?_
  rw [mem_tracked hsound]
  constructor
  · rintro ⟨a, hr⟩
    exact hsound.mem_body hr
  · intro hr
    obtain ⟨i, hi⟩ := List.mem_iff_getElem?.mp hr
    rw [getElem?_body] at hi
    have hkept := hi
    rw [getElem?_rows_sweep h, List.getElem?_map] at hkept
    obtain ⟨x, hx, rfl⟩ := Option.map_eq_some_iff.mp hkept
    have hx' := (List.mem_filter.mp (List.mem_of_getElem? hx)).2
    simp only [Row.isKept, Bool.and_eq_true] at hx'
    obtain ⟨a, ha⟩ := Option.isSome_iff_exists.mp hx'.1
    have hslot := hsound.rows a (i + 1) x.rested (Nat.succ_pos i) hi ha
    exact ⟨a, by rw [row?, hslot]; exact hi⟩

end Ledger

end ManagedHeap
