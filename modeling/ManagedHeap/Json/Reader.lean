import ManagedHeap.Json.Basic
import ManagedHeap.Word
/-!
Reading JSON texts from left to right. A refused text has a cause: the grammar is broken, the
text ended too early, or the text is well formed so far but holds a value of another shape than
the one asked for. The first cause on the way decides.
-/
namespace ManagedHeap.Json

/-- Why a text was refused. -/
inductive Refusal where
  /-- The text is no JSON. -/
  | grammar
  /-- A value has another shape than the one asked for. -/
  | shape
  /-- The text ended inside a value. -/
  | ended
  deriving DecidableEq, Repr

/-- Reads a value off the front of a text and gives back the rest. -/
abbrev Reader (α : Type) := List Char → Except Refusal (α × List Char)

/-! ## Blanks, words and characters -/

def isBlank (c : Char) : Bool :=
  c == ' ' || c == '\n' || c == '\t' || c == '\r'

def skipBlank (cs : List Char) : List Char :=
  cs.dropWhile isBlank

/-- The remaining letters of a literal such as `null`. -/
def readWord : List Char → Reader Unit
  | [], cs => .ok ((), cs)
  | _ :: _, [] => .error .ended
  | w :: ws, c :: cs => if c = w then readWord ws cs else .error .grammar

def hexValue? (c : Char) : Option Nat :=
  if '0' ≤ c ∧ c ≤ '9' then some (c.toNat - '0'.toNat)
  else if 'a' ≤ c ∧ c ≤ 'f' then some (c.toNat - 'a'.toNat + 10)
  else if 'A' ≤ c ∧ c ≤ 'F' then some (c.toNat - 'A'.toNat + 10)
  else none

/-- Size of a text in UTF-8 bytes. -/
def byteLength (cs : List Char) : Nat :=
  cs.foldr (fun c size => c.utf8Size + size) 0

/-- Four bytes are always taken for the code of an escape; with fewer left the text has ended. -/
def refuseQuad (cs : List Char) : Refusal :=
  if byteLength (cs.take 4) < 4 then .ended else .grammar

/-- The four hexadecimal digits of an escape. -/
def readQuad : Reader Nat
  | a :: b :: c :: d :: rest =>
    match hexValue? a, hexValue? b, hexValue? c, hexValue? d with
    | some a, some b, some c, some d => .ok (((a * 16 + b) * 16 + c) * 16 + d, rest)
    | _, _, _, _ => .error (refuseQuad (a :: b :: c :: d :: rest))
  | cs => .error (refuseQuad cs)

def isHighSurrogate (n : Nat) : Bool := 0xD800 ≤ n && n ≤ 0xDBFF

def isLowSurrogate (n : Nat) : Bool := 0xDC00 ≤ n && n ≤ 0xDFFF

/-- The second half of a surrogate pair whose first half is `high`. -/
def readLowSurrogate (high : Nat) : Reader Char
  | [] => .error .ended
  | c :: cs =>
    if c ≠ '\\' then .error .grammar
    else match cs with
      | [] => .error .ended
      | u :: cs =>
        if u ≠ 'u' then .error .grammar
        else do
          let (low, rest) ← readQuad cs
          if isLowSurrogate low then
            .ok (Char.ofNat (0x10000 + (high - 0xD800) * 0x400 + (low - 0xDC00)), rest)
          else .error .grammar

/-- The character of a numeric escape. Surrogates must come in pairs. -/
def readCodeEscape (cs : List Char) : Except Refusal (Char × List Char) := do
  let (n, rest) ← readQuad cs
  if isLowSurrogate n then .error .grammar
  else if isHighSurrogate n then readLowSurrogate n rest
  else .ok (Char.ofNat n, rest)

/-- The character that a one-letter escape stands for. -/
def simpleEscape? (c : Char) : Option Char :=
  if c = '"' then some '"'
  else if c = '\\' then some '\\'
  else if c = '/' then some '/'
  else if c = 'b' then some '\x08'
  else if c = 'f' then some '\x0c'
  else if c = 'n' then some '\n'
  else if c = 'r' then some '\r'
  else if c = 't' then some '\t'
  else none

/-- What follows a backslash. -/
def readEscape : Reader Char
  | [] => .error .ended
  | c :: cs =>
    match simpleEscape? c with
    | some e => .ok (e, cs)
    | none => if c = 'u' then readCodeEscape cs else .error .grammar

/-- The rest of a string behind its opening quote. -/
def readStringBody : Nat → Reader (List Char)
  | 0, _ => .error .ended
  | _ + 1, [] => .error .ended
  | n + 1, c :: cs =>
    if c = '"' then .ok ([], cs)
    else if c = '\\' then do
      let (e, rest) ← readEscape cs
      let (text, rest) ← readStringBody n rest
      .ok (e :: text, rest)
    else if c.toNat < 0x20 then .error .grammar
    else do
      let (text, rest) ← readStringBody n cs
      .ok (c :: text, rest)

/-- A string behind its opening quote. -/
def readString (cs : List Char) : Except Refusal (String × List Char) := do
  let (text, rest) ← readStringBody (cs.length + 1) cs
  .ok (String.ofList text, rest)

/-! ## Numbers -/

/-- A number as written: an integer of the 64-bit ranges, or a decimal with a sign. -/
inductive Numeral where
  | int (n : Int)
  | real (negative : Bool) (d : Decimal)
  deriving DecidableEq, Repr

def Numeral.toJson : Numeral → Json
  | .int n => .int n
  | .real negative d => .real negative d

def digitsValue (ds : List Char) : Nat :=
  Nat.ofDigitChars 10 ds 0

/-- A decimal, refused when it has no finite value. -/
def finishReal (negative : Bool) (d : Decimal) (rest : List Char) :
    Except Refusal (Numeral × List Char) :=
  if d.isFinite then .ok (.real negative d, rest) else .error .grammar

/-- The exponent behind its letter. -/
def readExponent (negative : Bool) (whole fraction : List Char) (cs : List Char) :
    Except Refusal (Numeral × List Char) :=
  let (minus, cs) := match cs with
    | '-' :: cs => (true, cs)
    | '+' :: cs => (false, cs)
    | cs => (false, cs)
  match cs with
  | [] => .error .ended
  | c :: _ =>
    if c.isDigit then
      let power : Int := digitsValue (cs.takeWhile Char.isDigit)
      finishReal negative (.ofParts whole fraction (if minus then -power else power))
        (cs.dropWhile Char.isDigit)
    else .error .grammar

/-- The digits behind the point, and an exponent if one follows. -/
def readFraction (negative : Bool) (whole : List Char) (cs : List Char) :
    Except Refusal (Numeral × List Char) :=
  let fraction := cs.takeWhile Char.isDigit
  let rest := cs.dropWhile Char.isDigit
  match fraction, rest with
  | [], [] => .error .ended
  | [], _ :: _ => .error .grammar
  | _ :: _, [] => finishReal negative (.ofParts whole fraction 0) []
  | _ :: _, c :: cs =>
    if c = 'e' ∨ c = 'E' then readExponent negative whole fraction cs
    else finishReal negative (.ofParts whole fraction 0) (c :: cs)

/-- A number without fraction and exponent. Minus zero and what no 64-bit word holds are
decimals. -/
def finishInt (negative : Bool) (whole : List Char) (rest : List Char) :
    Except Refusal (Numeral × List Char) :=
  let n := digitsValue whole
  if negative then
    if 0 < n ∧ n ≤ wordLimit 63 then .ok (.int (-n), rest)
    else finishReal negative (.ofParts whole [] 0) rest
  else if n < wordLimit 64 then .ok (.int n, rest)
  else finishReal negative (.ofParts whole [] 0) rest

/-- What follows the whole digits of a number. -/
def readNumberTail (negative : Bool) (whole : List Char) : Reader Numeral
  | [] => finishInt negative whole []
  | c :: cs =>
    if c = '.' then readFraction negative whole cs
    else if c = 'e' ∨ c = 'E' then readExponent negative whole [] cs
    else finishInt negative whole (c :: cs)

/-- A number behind its sign. -/
def readNumber (negative : Bool) : Reader Numeral
  | [] => .error .ended
  | c :: cs =>
    if c = '0' then
      match cs with
      | d :: _ => if d.isDigit then .error .grammar else readNumberTail negative ['0'] cs
      | [] => readNumberTail negative ['0'] cs
    else if c.isDigit then
      readNumberTail negative ((c :: cs).takeWhile Char.isDigit)
        ((c :: cs).dropWhile Char.isDigit)
    else .error .grammar

/-! ## Values of another shape -/

/-- Reads a scalar only to know whether it is well formed. -/
def checkScalar : List Char → Except Refusal Unit
  | [] => .error .ended
  | c :: cs =>
    if c = 'n' then (readWord ['u', 'l', 'l'] cs).map fun _ => ()
    else if c = 't' then (readWord ['r', 'u', 'e'] cs).map fun _ => ()
    else if c = 'f' then (readWord ['a', 'l', 's', 'e'] cs).map fun _ => ()
    else if c = '-' then (readNumber true cs).map fun _ => ()
    else if c.isDigit then (readNumber false (c :: cs)).map fun _ => ()
    else if c = '"' then (readString cs).map fun _ => ()
    else if c = '[' ∨ c = '{' then .ok ()
    else .error .grammar

/-- The refusal of a value of another shape: a scalar that is itself broken is refused for
that. -/
def wrongShape (cs : List Char) : Refusal :=
  match checkScalar cs with
  | .ok () => .shape
  | .error e => e

/-! ## Scalars of a given shape -/

/-- An integer from `lo` to `hi`. -/
def readInt (lo hi : Int) (cs : List Char) : Except Refusal (Int × List Char) :=
  match skipBlank cs with
  | [] => .error .ended
  | c :: cs => do
    if c = '-' ∨ c.isDigit then
      let (n, rest) ← if c = '-' then readNumber true cs else readNumber false (c :: cs)
      match n with
      | .int n => if lo ≤ n ∧ n ≤ hi then .ok (n, rest) else .error .shape
      | .real .. => .error .shape
    else .error (wrongShape (c :: cs))

/-- A natural number of `bits` bits. -/
def readNat (bits : Nat) (cs : List Char) : Except Refusal (Nat × List Char) := do
  let (n, rest) ← readInt 0 ((wordLimit bits : Int) - 1) cs
  .ok (n.toNat, rest)

def readBool (cs : List Char) : Except Refusal (Bool × List Char) :=
  match skipBlank cs with
  | [] => .error .ended
  | c :: cs =>
    if c = 't' then (readWord ['r', 'u', 'e'] cs).map fun r => (true, r.2)
    else if c = 'f' then (readWord ['a', 'l', 's', 'e'] cs).map fun r => (false, r.2)
    else .error (wrongShape (c :: cs))

def readText (cs : List Char) : Except Refusal (String × List Char) :=
  match skipBlank cs with
  | [] => .error .ended
  | c :: cs => if c = '"' then readString cs else .error (wrongShape (c :: cs))

/-! ## Arrays and objects -/

/-- What stands at the next place of an array. -/
inductive Place where
  /-- An item begins here. -/
  | item (cs : List Char)
  /-- The array is over, and this follows it. -/
  | over (cs : List Char)

/-- Finds the next item of an array; behind an item a comma must come first. -/
def nextItem (first : Bool) (cs : List Char) : Except Refusal Place :=
  match skipBlank cs with
  | [] => .error .ended
  | c :: cs =>
    if c = ']' then .ok (.over cs)
    else if first then .ok (.item (c :: cs))
    else if c = ',' then
      match skipBlank cs with
      | [] => .error .ended
      | d :: ds => if d = ']' then .error .grammar else .ok (.item (d :: ds))
    else .error .grammar

/-- The items of an array and its closing bracket. -/
def readItems {α : Type} (item : Reader α) : Nat → Bool → Reader (List α)
  | 0, _, _ => .error .ended
  | n + 1, first, cs => do
    match ← nextItem first cs with
    | .over rest => .ok ([], rest)
    | .item cs =>
      let (a, rest) ← item cs
      let (as, rest) ← readItems item n false rest
      .ok (a :: as, rest)

/-- An array whose items are all of one shape. Arrays and objects nest at most as deep as
`depth` allows. -/
def readArray {α : Type} (depth : Nat) (item : Nat → Reader α) (cs : List Char) :
    Except Refusal (List α × List Char) :=
  match skipBlank cs with
  | [] => .error .ended
  | c :: cs =>
    if c = '[' then
      match depth with
      | 0 => .error .grammar
      | d + 1 => readItems (item d) (cs.length + 1) true cs
    else .error (wrongShape (c :: cs))

/-- The closing bracket of an array of which no further item is wanted. -/
def closeArray (cs : List Char) : Except Refusal (List Char) :=
  match skipBlank cs with
  | [] => .error .ended
  | c :: cs => if c = ']' then .ok cs else .error .grammar

/-- Finds the next key of an object, up to and with its opening quote. -/
def nextKey (first : Bool) (cs : List Char) : Except Refusal Place :=
  match skipBlank cs with
  | [] => .error .ended
  | c :: cs =>
    if c = '}' then .ok (.over cs)
    else if first then
      if c = '"' then .ok (.item cs) else .error .grammar
    else if c = ',' then
      match skipBlank cs with
      | [] => .error .ended
      | d :: ds => if d = '"' then .ok (.item ds) else .error .grammar
    else .error .grammar

def readColon (cs : List Char) : Except Refusal (List Char) :=
  match skipBlank cs with
  | [] => .error .ended
  | c :: cs => if c = ':' then .ok cs else .error .grammar

/-- The members of an object and its closing brace. The key alone decides how, and whether, its
value is read. -/
def readMembers {α : Type} (member : α → String → Except Refusal (Reader α)) :
    Nat → Bool → α → Reader α
  | 0, _, _, _ => .error .ended
  | n + 1, first, a, cs => do
    match ← nextKey first cs with
    | .over rest => .ok (a, rest)
    | .item cs =>
      let (key, rest) ← readString cs
      let value ← member a key
      let rest ← readColon rest
      let (a, rest) ← value rest
      readMembers member n false a rest

/-- How deep arrays and objects may nest. -/
def maxDepth : Nat := 127

/-- Any value. -/
def readValue (depth : Nat) (cs : List Char) : Except Refusal (Json × List Char) :=
  match skipBlank cs with
  | [] => .error .ended
  | c :: cs =>
    if c = 'n' then (readWord ['u', 'l', 'l'] cs).map fun r => (.null, r.2)
    else if c = 't' then (readWord ['r', 'u', 'e'] cs).map fun r => (.bool true, r.2)
    else if c = 'f' then (readWord ['a', 'l', 's', 'e'] cs).map fun r => (.bool false, r.2)
    else if c = '-' then (readNumber true cs).map fun r => (r.1.toJson, r.2)
    else if c.isDigit then (readNumber false (c :: cs)).map fun r => (r.1.toJson, r.2)
    else if c = '"' then (readString cs).map fun r => (.str r.1, r.2)
    else if c = '[' then
      match depth with
      | 0 => .error .grammar
      | d + 1 =>
        (readItems (readValue d) (cs.length + 1) true cs).map fun r => (.arr r.1, r.2)
    else if c = '{' then
      match depth with
      | 0 => .error .grammar
      | d + 1 =>
        (readMembers
          (fun ms key => .ok fun cs =>
            (readValue d cs).map fun r => (insertMember key r.1 ms, r.2))
          (cs.length + 1) true [] cs).map fun r => (.obj r.1, r.2)
    else .error .grammar

end ManagedHeap.Json
