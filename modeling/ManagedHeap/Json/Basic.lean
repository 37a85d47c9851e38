import ManagedHeap.Json.Decimal
/-!
JSON values and their compact text: no blanks, members in the order in which they are held, and
in strings only the characters escaped that the format requires.
-/
namespace ManagedHeap

/-- A JSON value. A number written without fraction and exponent is an `int` when it fits the
64-bit ranges; every other number is a `real`, a decimal with a sign. -/
inductive Json where
  | null
  | bool (b : Bool)
  | int (n : Int)
  | real (negative : Bool) (d : Decimal)
  | str (text : String)
  | arr (items : List Json)
  | obj (members : List (String × Json))
  deriving BEq, Repr, Inhabited

namespace Json

def nat (n : Nat) : Json := .int n

/-- A character as it stands inside a quoted string. -/
def escape (c : Char) : List Char :=
  if c = '"' then ['\\', '"']
  else if c = '\\' then ['\\', '\\']
  else if c = '\n' then ['\\', 'n']
  else if c = '\r' then ['\\', 'r']
  else if c = '\t' then ['\\', 't']
  else if c = '\x08' then ['\\', 'b']
  else if c = '\x0c' then ['\\', 'f']
  else if c.toNat < 0x20 then
    ['\\', 'u', '0', '0', Nat.digitChar (c.toNat / 16), Nat.digitChar (c.toNat % 16)]
  else [c]

/-- The quoted form of a text. -/
def quoteChars (text : String) : List Char :=
  '"' :: (text.toList.flatMap escape ++ ['"'])

def quote (text : String) : String :=
  String.ofList (quoteChars text)

mutual

/-- The compact text of a value. -/
def chars : Json → List Char
  | .null => ['n', 'u', 'l', 'l']
  | .bool true => ['t', 'r', 'u', 'e']
  | .bool false => ['f', 'a', 'l', 's', 'e']
  | .int n => (toString n).toList
  | .real negative d =>
    (if negative then ['-'] else []) ++
      (toString d.digits).toList ++ 'e' :: (toString d.exponent).toList
  | .str text => quoteChars text
  | .arr items => '[' :: itemChars true items
  | .obj members => '{' :: memberChars true members

/-- The items of an array and its closing bracket; the first item has no comma before it. -/
def itemChars (first : Bool) : List Json → List Char
  | [] => [']']
  | v :: vs => (if first then [] else [',']) ++ v.chars ++ itemChars false vs

/-- The members of an object and its closing brace. -/
def memberChars (first : Bool) : List (String × Json) → List Char
  | [] => ['}']
  | m :: ms => (if first then [] else [',']) ++ pairChars m ++ memberChars false ms

def pairChars : String × Json → List Char
  | (key, v) => quoteChars key ++ ':' :: v.chars

end

def render (v : Json) : String :=
  String.ofList v.chars

/-- Put a member where its key belongs in the order of keys; an earlier one of the same key is
replaced. -/
def insertMember (key : String) (v : Json) : List (String × Json) → List (String × Json)
  | [] => [(key, v)]
  | (k, w) :: ms =>
    if key < k then (key, v) :: (k, w) :: ms
    else if key = k then (key, v) :: ms
    else (k, w) :: insertMember key v ms

/-- An object with its members in the order of their keys. -/
def ofMembers (members : List (String × Json)) : Json :=
  .obj (members.foldl (fun ms m => insertMember m.1 m.2 ms) [])

end Json

end ManagedHeap
