/-!
Bounds of numbers that fit a machine word.
-/
namespace ManagedHeap

/-- Numbers of `bits` bits lie below this. -/
def wordLimit (bits : Nat) : Nat := Nat.pow 2 bits

theorem wordLimit_pos (bits : Nat) : 0 < wordLimit bits := Nat.pow_pos (by decide)

end ManagedHeap
