import ManagedHeap.Json.Skip
/-!
Records with named fields. A record is written as an object whose members come in any order, or
as an array of its fields in their own order. Unknown members are passed over, a field given
twice is refused.
-/
namespace ManagedHeap.Json

/-- One field of a record that is being filled in. -/
structure RecordField (α : Type) where
  key : String
  isSet : α → Bool
  read : α → Reader α

/-- The fields of a record written as an array. Fields at the end may be missing. -/
def readPositional {α : Type} : List (RecordField α) → Bool → α → Reader α
  | [], _, a, cs => do .ok (a, ← closeArray cs)
  | f :: fs, first, a, cs => do
    match ← nextItem first cs with
    | .over rest => .ok (a, rest)
    | .item cs =>
      let (a, rest) ← f.read a cs
      readPositional fs false a rest

/-- How the member of the given key is read. -/
def readField {α : Type} (fields : List (RecordField α)) (a : α) (key : String) :
    Except Refusal (Reader α) :=
  match fields.find? (·.key == key) with
  | some f => if f.isSet a then .error .shape else .ok (f.read a)
  | none => .ok fun cs => do .ok (a, ← skipValue cs)

/-- A record, starting from `init`. The fields are read one level deeper. -/
def readRecord {α : Type} (depth : Nat) (fields : Nat → List (RecordField α)) (init : α)
    (cs : List Char) : Except Refusal (α × List Char) :=
  match skipBlank cs with
  | [] => .error .ended
  | c :: cs =>
    if c = '[' then
      match depth with
      | 0 => .error .grammar
      | d + 1 => readPositional (fields d) true init cs
    else if c = '{' then
      match depth with
      | 0 => .error .grammar
      | d + 1 => readMembers (readField (fields d)) (cs.length + 1) true init cs
    else .error (wrongShape (c :: cs))

/-- A field that must be given. -/
def required {α : Type} : Option α → Except Refusal α
  | some a => .ok a
  | none => .error .shape

/-- A text that holds one value and nothing behind it. -/
def readWhole {α : Type} (read : Reader α) (text : String) : Except Refusal α := do
  let (a, rest) ← read text.toList
  match skipBlank rest with
  | [] => .ok a
  | _ :: _ => .error .grammar

end ManagedHeap.Json
