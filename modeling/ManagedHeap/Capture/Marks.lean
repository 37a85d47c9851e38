/-!
Marks on the slots of one object, 64 to a word.
-/
namespace ManagedHeap

/-- A set of positions below a length. -/
structure Marks where
  words : Array UInt64 := #[]
  length : Nat := 0
  deriving DecidableEq, Repr, Inhabited

namespace Marks

/-- The mark of a position within its word. -/
def bit (index : Nat) : UInt64 := 1 <<< (index % 64).toUInt64

/-- No marks, on positions below `length`. -/
def reset (length : Nat) : Marks :=
  ⟨Array.replicate ((length + 63) / 64) 0, length⟩

/-- Mark a position; those beyond the length cannot be marked. -/
def mark (m : Marks) (index : Nat) : Marks :=
  if index < m.length then
    { m with words := m.words.modify (index / 64) (· ||| bit index) }
  else m

def contains (m : Marks) (index : Nat) : Bool :=
  decide (index < m.length) && (m.words[index / 64]?.getD 0 &&& bit index) != 0

/-- Whether a position is marked, and the marks without it. -/
def take (m : Marks) (index : Nat) : Bool × Marks :=
  if index < m.length then
    (m.contains index, { m with words := m.words.modify (index / 64) (· &&& ~~~(bit index)) })
  else (false, m)

end Marks

end ManagedHeap
