import ManagedHeap.Capture.Marks

/-!
# Marks as a set of positions

Words of 64 bits are only how marks are kept: what is marked is a set of positions below the
length, to which a mark adds one position and from which a take removes one.
-/
namespace ManagedHeap.Marks

/-! ## Bits of one word -/

theorem toBitVec_bit (i : Nat) : (bit i).toBitVec = BitVec.twoPow 64 (i % 64) := by
  have hmod : ((i % 64).toUInt64.toBitVec % 64).toNat = i % 64 := by
    simp only [BitVec.toNat_umod, UInt64.toNat_toBitVec]
    simp
  simp only [bit, UInt64.toBitVec_shiftLeft, BitVec.twoPow_eq, BitVec.shiftLeft_eq', hmod]
  rfl

/-- Whether a word has the bit of a position. -/
def holds (w : UInt64) (i : Nat) : Bool := (w &&& bit i) != 0

theorem holds_eq (w : UInt64) (i : Nat) : holds w i = w.toBitVec.getLsbD (i % 64) := by
  have hlt : i % 64 < 64 := Nat.mod_lt _ (by decide)
  have hand : (w &&& bit i).toBitVec =
      if w.toBitVec.getLsbD (i % 64) then BitVec.twoPow 64 (i % 64) else 0#64 := by
    rw [UInt64.toBitVec_and, toBitVec_bit, BitVec.and_twoPow]
  have hne : BitVec.twoPow 64 (i % 64) ≠ 0#64 := by
    intro h
    have hbit := congrArg (BitVec.getLsbD · (i % 64)) h
    simp [hlt] at hbit
  rw [holds]
  cases hb : w.toBitVec.getLsbD (i % 64) with
  | true =>
    rw [hb, if_pos rfl] at hand
    rw [bne_iff_ne]
    intro h
    rw [h] at hand
    exact hne hand.symm
  | false =>
    rw [hb] at hand
    have hzero : w &&& bit i = 0 := UInt64.toBitVec_inj.mp (by simpa using hand)
    simp [hzero]

theorem holds_zero (i : Nat) : holds 0 i = false := by simp [holds_eq]

theorem holds_or (w : UInt64) (i j : Nat) :
    holds (w ||| bit i) j = (holds w j || decide (i % 64 = j % 64)) := by
  have hi : i % 64 < 64 := Nat.mod_lt _ (by decide)
  simp [holds_eq, toBitVec_bit, hi]

theorem holds_and_not (w : UInt64) (i j : Nat) :
    holds (w &&& ~~~(bit i)) j = (holds w j && decide (i % 64 ≠ j % 64)) := by
  have hj : j % 64 < 64 := Nat.mod_lt _ (by decide)
  simp [holds_eq, toBitVec_bit, hj, eq_comm]

/-! ## Sets of positions -/

/-- There is a word for every position. -/
def Sized (m : Marks) : Prop := ∀ i < m.length, i / 64 < m.words.size

theorem contains_eq (m : Marks) (i : Nat) :
    m.contains i = (decide (i < m.length) && holds (m.words[i / 64]?.getD 0) i) := rfl

theorem sized_reset (n : Nat) : (reset n).Sized := by
  intro i hi
  simp only [reset, Array.size_replicate] at hi ⊢
  omega

theorem contains_reset (n i : Nat) : (reset n).contains i = false := by
  rw [contains_eq]
  simp only [reset, Array.getElem?_replicate]
  split <;> simp [holds_zero]

@[simp] theorem length_mark (m : Marks) (i : Nat) : (m.mark i).length = m.length := by
  unfold mark
  split <;> rfl

theorem sized_mark {m : Marks} (h : m.Sized) (i : Nat) : (m.mark i).Sized := by
  unfold mark
  split
  · intro j hj
    simpa using h j hj
  · exact h

theorem contains_mark {m : Marks} (h : m.Sized) (i j : Nat) :
    (m.mark i).contains j = (m.contains j || (decide (i < m.length) && decide (i = j))) := by
  unfold mark
  split
  · next hi =>
    obtain ⟨w, hword⟩ : ∃ w, m.words[i / 64]? = some w := ⟨_, Array.getElem?_eq_getElem (h i hi)⟩
    simp only [contains_eq, Array.getElem?_modify, hi, decide_true, Bool.true_and]
    by_cases hij : i = j
    · subst hij
      simp [hi, hword, holds_or]
    · by_cases hdiv : i / 64 = j / 64
      · have hmod : i % 64 ≠ j % 64 := by omega
        rw [hdiv] at hword
        simp [hij, hdiv, hword, holds_or, hmod]
      · simp [hij, hdiv]
  · next hi => simp [hi]

theorem contains_foldl_mark {m : Marks} (h : m.Sized) (is : List Nat) (j : Nat) :
    (is.foldl mark m).contains j =
      (m.contains j || (decide (j < m.length) && decide (j ∈ is))) := by
  induction is generalizing m with
  | nil => simp
  | cons i is ih =>
    rw [List.foldl_cons, ih (sized_mark h i), contains_mark h, length_mark]
    by_cases hij : i = j
    · subst hij
      simpa using fun hi _ => Or.inr hi
    · have hji : j ≠ i := Ne.symm hij
      simp [hij, hji]

theorem take_fst (m : Marks) (i : Nat) : (m.take i).1 = m.contains i := by
  unfold take
  split
  · rfl
  · next hi => simp [contains, hi]

@[simp] theorem length_take (m : Marks) (i : Nat) : (m.take i).2.length = m.length := by
  unfold take
  split <;> rfl

theorem sized_take {m : Marks} (h : m.Sized) (i : Nat) : (m.take i).2.Sized := by
  unfold take
  split
  · intro j hj
    simpa using h j hj
  · exact h

theorem contains_take_self (m : Marks) (i : Nat) : (m.take i).2.contains i = false := by
  unfold take
  split
  · simp only [contains_eq, Array.getElem?_modify]
    cases m.words[i / 64]? with
    | none => simp [holds_zero]
    | some w => simp [holds_and_not]
  · next hi => simp [contains, hi]

/-- Taking a position leaves all others as they are. -/
theorem contains_take (m : Marks) {i j : Nat} (hij : i ≠ j) :
    (m.take i).2.contains j = m.contains j := by
  unfold take
  split
  · simp only [contains_eq, Array.getElem?_modify]
    by_cases hdiv : i / 64 = j / 64
    · have hmod : i % 64 ≠ j % 64 := by omega
      cases m.words[j / 64]? with
      | none => simp [hdiv]
      | some w => simp [hdiv, holds_and_not, hmod]
    · simp [hdiv]
  · rfl

end ManagedHeap.Marks
