import ManagedHeap.Json.Reader
/-!
Passing over a value that nobody asked for. Its brackets, literals and escapes must be well
formed, but its numbers need no finite value, its surrogates no partner, and it may nest to any
depth.
-/
namespace ManagedHeap.Json

/-- An escape behind its backslash. -/
def skipEscape : List Char → Except Refusal (List Char)
  | [] => .error .ended
  | c :: cs =>
    if (simpleEscape? c).isSome then .ok cs
    else if c = 'u' then (readQuad cs).map (·.2)
    else .error .grammar

def skipStringBody : Nat → List Char → Except Refusal (List Char)
  | 0, _ => .error .ended
  | _ + 1, [] => .error .ended
  | n + 1, c :: cs =>
    if c = '"' then .ok cs
    else if c = '\\' then do skipStringBody n (← skipEscape cs)
    else if c.toNat < 0x20 then .error .grammar
    else skipStringBody n cs

/-- A string behind its opening quote. -/
def skipString (cs : List Char) : Except Refusal (List Char) :=
  skipStringBody (cs.length + 1) cs

/-- At least one digit. -/
def skipDigits : List Char → Except Refusal (List Char)
  | c :: cs => if c.isDigit then .ok (cs.dropWhile Char.isDigit) else .error .grammar
  | [] => .error .grammar

def skipExponent : List Char → Except Refusal (List Char)
  | c :: cs => if c = '+' ∨ c = '-' then skipDigits cs else skipDigits (c :: cs)
  | [] => .error .grammar

/-- An exponent, if one follows. -/
def skipScale : List Char → Except Refusal (List Char)
  | c :: cs => if c = 'e' ∨ c = 'E' then skipExponent cs else .ok (c :: cs)
  | [] => .ok []

/-- What follows the integer part of a number. -/
def skipNumberTail : List Char → Except Refusal (List Char)
  | c :: cs =>
    if c = '.' then do skipScale (← skipDigits cs)
    else skipScale (c :: cs)
  | [] => .ok []

/-- A number behind its sign. A text that ends inside a number breaks the grammar. -/
def skipNumber : List Char → Except Refusal (List Char)
  | [] => .error .grammar
  | c :: cs =>
    if c = '0' then
      match cs with
      | d :: _ => if d.isDigit then .error .grammar else skipNumberTail cs
      | [] => .ok []
    else if c.isDigit then skipNumberTail (cs.dropWhile Char.isDigit)
    else .error .grammar

/-- What encloses the value that is being passed over. -/
inductive Enclosure where
  | array
  | object
  deriving DecidableEq, Repr

def Enclosure.closer : Enclosure → Char
  | .array => ']'
  | .object => '}'

/-- Passes over a scalar, or steps into an array or object. -/
def skipOpening (cs : List Char) : Except Refusal (Option Enclosure × List Char) :=
  match skipBlank cs with
  | [] => .error .ended
  | c :: cs =>
    if c = 'n' then (readWord ['u', 'l', 'l'] cs).map fun r => (none, r.2)
    else if c = 't' then (readWord ['r', 'u', 'e'] cs).map fun r => (none, r.2)
    else if c = 'f' then (readWord ['a', 'l', 's', 'e'] cs).map fun r => (none, r.2)
    else if c = '-' then (skipNumber cs).map fun r => (none, r)
    else if c.isDigit then (skipNumber (c :: cs)).map fun r => (none, r)
    else if c = '"' then (skipString cs).map fun r => (none, r)
    else if c = '[' then .ok (some .array, cs)
    else if c = '{' then .ok (some .object, cs)
    else .error .grammar

/-- Leaves every array and object that closes here, up to the next item. Only behind an item may
a comma stand. -/
def skipClosing : Bool → List Enclosure → List Char → Except Refusal (List Enclosure × List Char)
  | _, [], cs => .ok ([], cs)
  | behindItem, e :: es, cs =>
    match skipBlank cs with
    | [] => .error .ended
    | c :: cs =>
      if c = e.closer then skipClosing true es cs
      else if behindItem then
        if c = ',' then .ok (e :: es, cs) else .error .grammar
      else .ok (e :: es, c :: cs)

/-- A key and its colon. -/
def skipKey (cs : List Char) : Except Refusal (List Char) :=
  match skipBlank cs with
  | [] => .error .ended
  | c :: cs => if c = '"' then do readColon (← skipString cs) else .error .grammar

/-- Passes over values until every enclosure is closed. -/
def skipUntilClosed : Nat → List Enclosure → List Char → Except Refusal (List Char)
  | 0, _, _ => .error .ended
  | n + 1, es, cs => do
    let (opened, rest) ← skipOpening cs
    let (es, rest) ← match opened with
      | some e => skipClosing false (e :: es) rest
      | none => skipClosing true es rest
    match es with
    | [] => .ok rest
    | .array :: _ => skipUntilClosed n es rest
    | .object :: _ => skipUntilClosed n es (← skipKey rest)

/-- Passes over one value. -/
def skipValue (cs : List Char) : Except Refusal (List Char) :=
  skipUntilClosed (cs.length + 1) [] cs

end ManagedHeap.Json
