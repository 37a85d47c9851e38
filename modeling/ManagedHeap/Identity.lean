import Std.Data.TreeMap
/-!
The two names of a heap object: where it is now (`Address`) and which one it is (`ObjectId`).
Addresses change when the collector moves objects, object numbers do not.
-/
namespace ManagedHeap

/-- Where an object lives at the moment. -/
structure Address where
  raw : Nat
  deriving DecidableEq, Repr, Inhabited

namespace Address

instance : Ord Address := ⟨fun a b => compare a.raw b.raw⟩

instance : Std.TransOrd Address where
  eq_swap := Std.OrientedOrd.eq_swap (α := Nat)
  isLE_trans := Std.TransOrd.isLE_trans (α := Nat)

instance : Std.LawfulEqOrd Address where
  compare_self := Std.ReflOrd.compare_self (α := Nat)
  eq_of_compare {a b} h := by
    cases a; cases b
    exact congrArg Address.mk (Std.LawfulEqOrd.eq_of_compare (α := Nat) h)

/-- Hexadecimal, as addresses are usually shown. -/
def render (a : Address) : String :=
  "0x" ++ String.ofList (Nat.toDigits 16 a.raw)

end Address

/-- The lasting number of a node. Even numbers belong to the managed heap and to the synthetic
roots, odd ones to native objects; 0 stands for no object. -/
structure ObjectId where
  raw : Nat
  deriving DecidableEq, Repr, Inhabited

namespace ObjectId

instance : Ord ObjectId := ⟨fun a b => compare a.raw b.raw⟩

instance : Std.TransOrd ObjectId where
  eq_swap := Std.OrientedOrd.eq_swap (α := Nat)
  isLE_trans := Std.TransOrd.isLE_trans (α := Nat)

instance : Std.LawfulEqOrd ObjectId where
  compare_self := Std.ReflOrd.compare_self (α := Nat)
  eq_of_compare {a b} h := by
    cases a; cases b
    exact congrArg ObjectId.mk (Std.LawfulEqOrd.eq_of_compare (α := Nat) h)

def unknown : ObjectId := ⟨0⟩

/-- Number of the synthetic root. -/
def root : ObjectId := ⟨2⟩

/-- Number of the node that gathers the collector's roots. -/
def collector : ObjectId := ⟨4⟩

/-- Number of the first root category's node. -/
def firstCategory : ObjectId := ⟨6⟩

/-- Distance between two numbers handed out one after the other. -/
def step : Nat := 2

def isUnknown (id : ObjectId) : Bool := id.raw == 0

/-- Whether the number belongs to a native object. -/
def isNative (id : ObjectId) : Bool := id.raw % 2 == 1

def render (id : ObjectId) : String := "@" ++ toString id.raw

/-- The native number made from a digest: its lowest bit is set. -/
def ofDigest (digest : UInt64) : ObjectId := ⟨(digest ||| 1).toNat⟩

end ObjectId

end ManagedHeap
