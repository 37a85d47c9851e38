/-!
Tables of distinct strings, numbered in the order of their first use.
-/
namespace ManagedHeap

/-- Distinct strings in the order of their first use. -/
structure Names where
  strings : Array String := #[]
  deriving DecidableEq, Repr, Inhabited

namespace Names

def empty : Names := {}

def size (names : Names) : Nat := names.strings.size

def isEmpty (names : Names) : Bool := names.strings.isEmpty

/-- Number of a string that is in the table. -/
def position? (names : Names) (text : String) : Option Nat :=
  names.strings.idxOf? text

def get? (names : Names) (index : Nat) : Option String :=
  names.strings[index]?

/-- Enter a string, unless it is there already, and give its number. The number is not
cut: a table is taken to have fewer than `wordLimit 32` strings. -/
def enter (names : Names) (text : String) : Nat × Names :=
  match names.position? text with
  | some index => (index, names)
  | none => (names.strings.size, ⟨names.strings.push text⟩)

/-- The table with a string entered. -/
def insert (names : Names) (text : String) : Names :=
  (names.enter text).2

def toList (names : Names) : List String := names.strings.toList

@[simp] theorem toList_empty : empty.toList = [] := rfl

theorem position?_eq_none {names : Names} {text : String} :
    names.position? text = none ↔ text ∉ names.toList := by
  simp [position?, toList]

/-- A string enters at the end, and only once. -/
theorem toList_insert (names : Names) (text : String) :
    (names.insert text).toList =
      if text ∈ names.toList then names.toList else names.toList ++ [text] := by
  unfold insert enter
  split
  · next h =>
    have hm : text ∈ names.toList :=
      Classical.byContradiction fun hn => by simp [position?_eq_none.2 hn] at h
    simp [hm]
  · next h =>
    have hm := position?_eq_none.1 h
    rw [if_neg hm]
    simp [toList]

end Names

end ManagedHeap
