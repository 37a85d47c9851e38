import ManagedHeap.Proofs.Marks
import Mathlib.Data.Finset.Basic
import Mathlib.Data.Finset.Range

/-!
# Marks refine finite sets

What keeps marks answers three calls: it is reset to a length, marked at a position, and asked for
the mark at a position, which it then forgets. Words of bits answer every sequence of calls as a
finite set of positions does.
-/
namespace ManagedHeap

/-- A length, and positions below it. -/
@[ext] structure MarkSet where
  length : Nat := 0
  positions : Finset Nat := ∅
  below : ∀ i ∈ positions, i < length := by simp

namespace MarkSet

def empty : MarkSet := {}

def reset (length : Nat) : MarkSet := { length := length }

def mark (s : MarkSet) (index : Nat) : MarkSet :=
  if h : index < s.length then
    { length := s.length
      positions := insert index s.positions
      below := Finset.forall_mem_insert .. |>.mpr ⟨h, s.below⟩ }
  else s

def take (s : MarkSet) (index : Nat) : Bool × MarkSet :=
  (decide (index ∈ s.positions),
    { length := s.length
      positions := s.positions.erase index
      below := fun i hi => s.below i (Finset.mem_of_mem_erase hi) })

@[simp] theorem length_mark (s : MarkSet) (index : Nat) : (s.mark index).length = s.length := by
  unfold mark
  split <;> rfl

theorem mem_mark (s : MarkSet) (i j : Nat) :
    j ∈ (s.mark i).positions ↔ j ∈ s.positions ∨ i < s.length ∧ i = j := by
  unfold mark
  split
  · next h => simp [h, or_comm, eq_comm]
  · next h => simp [h]

end MarkSet

/-! ## Calls -/

inductive Marks.Call where
  | reset (length : Nat)
  | mark (index : Nat)
  | take (index : Nat)
  deriving DecidableEq, Repr

/-- What keeps marks in states of some type. -/
structure MarkKeeper (σ : Type) where
  reset : Nat → σ
  mark : σ → Nat → σ
  take : σ → Nat → Bool × σ

namespace MarkKeeper

variable {σ : Type} (k : MarkKeeper σ)

/-- The answer to a call, which only a take has, and the state after it. -/
def perform (s : σ) : Marks.Call → Option Bool × σ
  | .reset length => (none, k.reset length)
  | .mark index => (none, k.mark s index)
  | .take index => (some (k.take s index).1, (k.take s index).2)

def performAll : σ → List Marks.Call → List (Option Bool) × σ
  | s, [] => ([], s)
  | s, c :: cs =>
    let (answers, last) := performAll (k.perform s c).2 cs
    ((k.perform s c).1 :: answers, last)

end MarkKeeper

def Marks.keeper : MarkKeeper Marks := ⟨reset, mark, take⟩

def MarkSet.keeper : MarkKeeper MarkSet := ⟨reset, mark, take⟩

namespace Marks

/-! ## Words seen as a set -/

/-- The set of marked positions. -/
def view (m : Marks) : MarkSet where
  length := m.length
  positions := (Finset.range m.length).filter fun i => m.contains i = true
  below _ hi := Finset.mem_range.mp (Finset.mem_of_mem_filter _ hi)

theorem mem_view (m : Marks) (i : Nat) : i ∈ m.view.positions ↔ m.contains i = true := by
  have hlt : m.contains i = true → i < m.length := by
    intro h
    simp only [contains, Bool.and_eq_true, decide_eq_true_eq] at h
    exact h.1
  simp only [view, Finset.mem_filter, Finset.mem_range]
  exact ⟨And.right, fun h => ⟨hlt h, h⟩⟩

theorem view_reset (n : Nat) : (reset n).view = MarkSet.reset n := by
  ext i
  · rfl
  · simp [mem_view, contains_reset, MarkSet.reset]

theorem view_mark {m : Marks} (h : m.Sized) (i : Nat) : (m.mark i).view = m.view.mark i := by
  ext j
  · exact (length_mark m i).trans (MarkSet.length_mark m.view i).symm
  · rw [MarkSet.mem_mark, mem_view, mem_view, contains_mark h]
    simp [view]

theorem view_take (m : Marks) (i : Nat) :
    m.view.take i = ((m.take i).1, (m.take i).2.view) := by
  refine Prod.ext ?_ (MarkSet.ext ?_ ?_)
  · simp [MarkSet.take, mem_view, take_fst]
  · exact (length_take m i).symm
  · ext j
    rw [mem_view]
    by_cases hij : i = j
    · subst hij
      simp [MarkSet.take, contains_take_self]
    · simp [MarkSet.take, mem_view, contains_take m hij, Ne.symm hij]

variable {m : Marks}

theorem sized_empty : ({} : Marks).Sized := fun i hi => absurd hi (Nat.not_lt_zero i)

theorem sized_perform (h : m.Sized) (c : Call) : (keeper.perform m c).2.Sized := by
  cases c with
  | reset n => exact sized_reset n
  | mark i => exact sized_mark h i
  | take i => exact sized_take h i

theorem view_perform (h : m.Sized) (c : Call) :
    MarkSet.keeper.perform m.view c = ((keeper.perform m c).1, (keeper.perform m c).2.view) := by
  cases c with
  | reset n => exact congrArg (Prod.mk none) (view_reset n).symm
  | mark i => exact congrArg (Prod.mk none) (view_mark h i).symm
  | take i =>
    show (some (m.view.take i).1, (m.view.take i).2) = _
    rw [view_take]
    rfl

theorem sized_performAll (h : m.Sized) (calls : List Call) :
    (keeper.performAll m calls).2.Sized := by
  induction calls generalizing m with
  | nil => exact h
  | cons c calls ih => exact ih (sized_perform h c)

theorem view_performAll (h : m.Sized) (calls : List Call) :
    MarkSet.keeper.performAll m.view calls =
      ((keeper.performAll m calls).1, (keeper.performAll m calls).2.view) := by
  induction calls generalizing m with
  | nil => rfl
  | cons c calls ih =>
    simp only [MarkKeeper.performAll, view_perform h, ih (sized_perform h c)]

/-- Marks that start out fresh answer every sequence of calls as a set of positions below a length
does, and end with the same length and the same positions marked. At each point of such a sequence
there is a word for every position that a call may look at, and neither marking nor taking a
position changes what the take of another one answers. -/
theorem performAll_eq_markSet (calls : List Call) :
    let m := (keeper.performAll {} calls).2
    let s := (MarkSet.keeper.performAll .empty calls).2
    (keeper.performAll {} calls).1 = (MarkSet.keeper.performAll .empty calls).1 ∧
      m.length = s.length ∧ (∀ i, m.contains i = true ↔ i ∈ s.positions) ∧
      (∀ i < m.length, i / 64 < m.words.size) ∧
      ∀ i j, i ≠ j → ((m.mark i).take j).1 = (m.take j).1 ∧
        ((m.take i).2.take j).1 = (m.take j).1 := by
  have hview := view_performAll sized_empty calls
  have hsized := sized_performAll sized_empty calls
  rw [show ({} : Marks).view = .empty from rfl] at hview
  simp only [hview, true_and]
  refine ⟨rfl, fun i => (mem_view _ i).symm, hsized, ?_⟩
  intro i j hij
  rw [take_fst, take_fst, take_fst, contains_take _ hij, contains_mark hsized]
  simp [hij]

/-- Positions 3 and 67 have the same bit in two words, and the last word is not full. -/
def sharedBit : List Call :=
  [.reset 130, .mark 67, .mark 130, .mark 3, .take 130, .take 3, .take 3]

theorem performAll_sharedBit :
    let m := (keeper.performAll {} sharedBit).2
    (keeper.performAll {} sharedBit).1 =
      [none, none, none, none, some false, some true, some false] ∧
    129 / 64 < m.words.size ∧ m.contains 67 = true ∧
    ((m.mark 3).take 67).1 = (m.take 67).1 ∧ ((m.take 3).2.take 67).1 = (m.take 67).1 := by
  obtain ⟨hanswers, -, hmarked, hwords, hothers⟩ := performAll_eq_markSet sharedBit
  exact ⟨hanswers.trans (by decide), hwords 129 (by decide), (hmarked 67).mpr (by decide),
    hothers 3 67 (by decide)⟩

end Marks

end ManagedHeap
