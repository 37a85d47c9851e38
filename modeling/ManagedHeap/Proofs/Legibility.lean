import ManagedHeap.Graph.Fingerprint
import ManagedHeap.Proofs.Reading

/-!
# Different values have different texts

The text of a value ends where the value ends: no text goes on to the text of another value, if no
number may go on there. This is shown for each shape of value and then for all values by induction,
`Json.legible`. So a value can be told from its text and from the bytes of it. What two values
share by accident is at most their digest.
-/
namespace ManagedHeap
namespace Json

/-! ## Shapes -/

/-- What the first character of a text tells about a value. -/
inductive Shape where
  | null
  | bool (b : Bool)
  | number
  | text
  | list
  | record
  deriving DecidableEq, Repr

def shape : Json → Shape
  | .null => .null
  | .bool b => .bool b
  | .int _ | .real _ _ => .number
  | .str _ => .text
  | .arr _ => .list
  | .obj _ => .record

/-- The shape of the values whose texts begin with the character. -/
def shapeAt? (c : Char) : Option Shape :=
  if c.isDigit || c == '-' then some .number
  else if c = 'n' then some .null
  else if c = 't' then some (.bool true)
  else if c = 'f' then some (.bool false)
  else if c = '"' then some .text
  else if c = '[' then some .list
  else if c = '{' then some .record
  else none

theorem toList_toString_nat (n : Nat) : (toString n).toList = Nat.toDigits 10 n := by
  simp

/-- A number with its sign before it. -/
def signed (negative : Bool) (n : Nat) : List Char :=
  (if negative then ['-'] else []) ++ Nat.toDigits 10 n

theorem toString_eq_signed (n : Int) : (toString n).toList = signed (n < 0) n.natAbs := by
  rw [toList_toString_int]
  by_cases h : n < 0 <;> simp [signed, h]

theorem signed_eq_cons (negative : Bool) (n : Nat) :
    ∃ c cs, signed negative n = c :: cs ∧ shapeAt? c = some .number := by
  obtain ⟨c, cs, hds, hc⟩ := exists_digit n
  cases negative with
  | true => exact ⟨'-', Nat.toDigits 10 n, rfl, by decide⟩
  | false => exact ⟨c, cs, hds, by simp [shapeAt?, hc]⟩

theorem chars_eq_cons (v : Json) : ∃ c cs, v.chars = c :: cs ∧ shapeAt? c = some v.shape := by
  cases v with
  | null => exact ⟨_, _, rfl, by decide⟩
  | bool b => cases b <;> exact ⟨_, _, rfl, by decide⟩
  | int n =>
    obtain ⟨c, cs, hcs, hc⟩ := signed_eq_cons (n < 0) n.natAbs
    exact ⟨c, cs, (toString_eq_signed n).trans hcs, hc⟩
  | real negative d =>
    obtain ⟨c, cs, hcs, hc⟩ := signed_eq_cons negative d.digits
    refine ⟨c, cs ++ 'e' :: (toString d.exponent).toList, ?_, hc⟩
    rw [chars, toList_toString_nat, ← signed, hcs, List.cons_append]
  | str text => exact ⟨'"', _, rfl, rfl⟩
  | arr items => exact ⟨'[', _, rfl, rfl⟩
  | obj members => exact ⟨'{', _, rfl, rfl⟩

theorem shape_eq {v w : Json} {rest rest' : List Char}
    (h : v.chars ++ rest = w.chars ++ rest') : v.shape = w.shape := by
  obtain ⟨c, cs, hv, hc⟩ := v.chars_eq_cons
  obtain ⟨d, ds, hw, hd⟩ := w.chars_eq_cons
  rw [hv, hw, List.cons_append, List.cons_append] at h
  have hcd := (List.cons.inj h).1
  rw [← hcd, hc] at hd
  exact Option.some.inj hd

/-- No value begins with what closes a list, divides it or closes a record. -/
theorem chars_append_ne {c : Char} (hc : shapeAt? c = none) (v : Json) (rest cs : List Char) :
    c :: cs ≠ v.chars ++ rest := by
  obtain ⟨d, ds, hv, hd⟩ := v.chars_eq_cons
  rw [hv, List.cons_append]
  intro h
  rw [(List.cons.inj h).1, hd] at hc
  cases hc

/-! ## Numbers and strings -/

/-- No digit stands at the front. -/
def EndsDigits : List Char → Prop
  | [] => True
  | c :: _ => c.isDigit = false

theorem EndsNumber.endsDigits {cs : List Char} (h : EndsNumber cs) : EndsDigits cs := by
  cases cs with
  | nil => trivial
  | cons c cs => exact h.1

theorem digits_append_inj {ds es rest rest' : List Char} (hds : ∀ c ∈ ds, c.isDigit = true)
    (hes : ∀ c ∈ es, c.isDigit = true) (hrest : EndsDigits rest) (hrest' : EndsDigits rest')
    (h : ds ++ rest = es ++ rest') : ds = es ∧ rest = rest' := by
  induction ds generalizing es with
  | nil =>
    cases es with
    | nil => exact ⟨rfl, h⟩
    | cons e es =>
      rw [List.nil_append] at h
      rw [h] at hrest
      exact absurd (hes e List.mem_cons_self) (Bool.eq_false_iff.mp hrest)
  | cons d ds ih =>
    cases es with
    | nil =>
      rw [List.nil_append] at h
      rw [← h] at hrest'
      exact absurd (hds d List.mem_cons_self) (Bool.eq_false_iff.mp hrest')
    | cons e es =>
      obtain ⟨rfl, htail⟩ := List.cons.inj h
      obtain ⟨rfl, hrests⟩ := ih (fun c hc => hds c (List.mem_cons_of_mem _ hc))
        (fun c hc => hes c (List.mem_cons_of_mem _ hc)) htail
      exact ⟨rfl, hrests⟩

theorem toDigits_injective {n m : Nat} (h : Nat.toDigits 10 n = Nat.toDigits 10 m) : n = m := by
  have hvalue := congrArg (Nat.ofDigitChars 10 · 0) h
  simp only [Nat.ofDigitChars_ten_toDigits] at hvalue
  exact hvalue

theorem toDigits_append_inj {n m : Nat} {rest rest' : List Char} (hrest : EndsDigits rest)
    (hrest' : EndsDigits rest') (h : Nat.toDigits 10 n ++ rest = Nat.toDigits 10 m ++ rest') :
    n = m ∧ rest = rest' := by
  obtain ⟨hdigits, hrests⟩ := digits_append_inj isDigit_of_mem isDigit_of_mem hrest hrest' h
  exact ⟨toDigits_injective hdigits, hrests⟩

theorem toDigits_append_ne (n : Nat) (rest cs : List Char) :
    Nat.toDigits 10 n ++ rest ≠ '-' :: cs := by
  obtain ⟨c, ds, hds, hc⟩ := exists_digit n
  rw [hds, List.cons_append]
  intro h
  rw [(List.cons.inj h).1] at hc
  revert hc
  decide

theorem signed_append_inj {negative negative' : Bool} {n m : Nat} {rest rest' : List Char}
    (hrest : EndsDigits rest) (hrest' : EndsDigits rest')
    (h : signed negative n ++ rest = signed negative' m ++ rest') :
    negative = negative' ∧ n = m ∧ rest = rest' := by
  cases negative <;> cases negative'
  case false.false => exact ⟨rfl, toDigits_append_inj hrest hrest' h⟩
  case false.true => exact absurd h (toDigits_append_ne n rest _)
  case true.false => exact absurd h.symm (toDigits_append_ne m rest' _)
  case true.true => exact ⟨rfl, toDigits_append_inj hrest hrest' (List.cons.inj h).2⟩

theorem toString_append_inj {n m : Int} {rest rest' : List Char} (hrest : EndsDigits rest)
    (hrest' : EndsDigits rest') (h : (toString n).toList ++ rest = (toString m).toList ++ rest') :
    n = m ∧ rest = rest' := by
  rw [toString_eq_signed, toString_eq_signed] at h
  obtain ⟨hsign, habs, hrests⟩ := signed_append_inj hrest hrest' h
  rw [decide_eq_decide] at hsign
  exact ⟨by omega, hrests⟩

theorem quoteChars_append_inj {text text' : String} {rest rest' : List Char}
    (h : quoteChars text ++ rest = quoteChars text' ++ rest') : text = text' ∧ rest = rest' := by
  have hbody := (List.cons.inj h).2
  simp only [List.append_eq, List.append_assoc, List.cons_append, List.nil_append] at hbody
  have hread := readString_quoted text rest
  rw [hbody, readString_quoted] at hread
  cases hread
  exact ⟨rfl, rfl⟩

/-! ## Values -/

/-- Where the text of the value stands, with no number going on behind it, no text of another value
stands, and the text has one end. -/
def Legible (v : Json) : Prop :=
  ∀ (w : Json) (rest rest' : List Char), EndsNumber rest → EndsNumber rest' →
    v.chars ++ rest = w.chars ++ rest' → v = w ∧ rest = rest'

theorem legible_null : Legible .null := by
  intro w rest rest' _ _ h
  have hshape := shape_eq h
  cases w with
  | null => exact ⟨rfl, List.append_cancel_left h⟩
  | _ => cases hshape

theorem legible_bool (b : Bool) : Legible (.bool b) := by
  intro w rest rest' _ _ h
  have hshape := shape_eq h
  cases w with
  | bool b' =>
    obtain rfl : b = b' := Shape.bool.inj hshape
    exact ⟨rfl, List.append_cancel_left h⟩
  | _ => cases hshape

theorem chars_real_append (negative : Bool) (d : Decimal) (rest : List Char) :
    (Json.real negative d).chars ++ rest =
      signed negative d.digits ++ 'e' :: ((toString d.exponent).toList ++ rest) := by
  simp [chars, signed]

/-- Whole numbers and decimals are told apart by the letter before the exponent. -/
theorem int_append_ne_real (n : Int) (negative : Bool) (d : Decimal) {rest : List Char}
    (hrest : EndsNumber rest) (rest' : List Char) :
    (Json.int n).chars ++ rest ≠ (Json.real negative d).chars ++ rest' := by
  intro h
  rw [chars_real_append, chars, toString_eq_signed] at h
  obtain ⟨-, -, rfl⟩ := signed_append_inj hrest.endsDigits (by exact rfl) h
  exact hrest.2.2.1 rfl

theorem legible_int (n : Int) : Legible (.int n) := by
  intro w rest rest' hrest hrest' h
  have hshape := shape_eq h
  cases w with
  | int m =>
    obtain ⟨rfl, hrests⟩ := toString_append_inj hrest.endsDigits hrest'.endsDigits h
    exact ⟨rfl, hrests⟩
  | real negative d => exact absurd h (int_append_ne_real n negative d hrest rest')
  | _ => cases hshape

theorem legible_real (negative : Bool) (d : Decimal) : Legible (.real negative d) := by
  intro w rest rest' hrest hrest' h
  have hshape := shape_eq h
  cases w with
  | int n => exact absurd h.symm (int_append_ne_real n negative d hrest' rest)
  | real negative' d' =>
    rw [chars_real_append, chars_real_append] at h
    obtain ⟨rfl, hdigits, htail⟩ := signed_append_inj (by exact rfl) (by exact rfl) h
    obtain ⟨hexponent, hrests⟩ :=
      toString_append_inj hrest.endsDigits hrest'.endsDigits (List.cons.inj htail).2
    cases d
    cases d'
    cases hdigits
    cases hexponent
    exact ⟨rfl, hrests⟩
  | _ => cases hshape

theorem legible_str (text : String) : Legible (.str text) := by
  intro w rest rest' _ _ h
  have hshape := shape_eq h
  cases w with
  | str text' =>
    obtain ⟨rfl, hrests⟩ := quoteChars_append_inj h
    exact ⟨rfl, hrests⟩
  | _ => cases hshape

theorem itemChars_cons_append (first : Bool) (v : Json) (vs : List Json) (rest : List Char) :
    itemChars first (v :: vs) ++ rest =
      comma first ++ (v.chars ++ (itemChars false vs ++ rest)) := by
  simp [itemChars, comma]

theorem memberChars_cons_append (first : Bool) (m : String × Json) (ms : List (String × Json))
    (rest : List Char) :
    memberChars first (m :: ms) ++ rest =
      comma first ++ (quoteChars m.1 ++ ':' :: (m.2.chars ++ (memberChars false ms ++ rest))) := by
  obtain ⟨key, v⟩ := m
  simp [memberChars, pairChars, comma]

theorem endsNumber_itemChars (vs : List Json) (rest : List Char) :
    EndsNumber (itemChars false vs ++ rest) := by
  cases vs with
  | nil => exact endsNumber_cons (by decide) _
  | cons v vs =>
    rw [itemChars_cons_append]
    exact endsNumber_cons (by decide) _

theorem endsNumber_memberChars (ms : List (String × Json)) (rest : List Char) :
    EndsNumber (memberChars false ms ++ rest) := by
  cases ms with
  | nil => exact endsNumber_cons (by decide) _
  | cons m ms =>
    rw [memberChars_cons_append]
    exact endsNumber_cons (by decide) _

/-- A list with an item does not close where another item, or the comma before it, stands. -/
theorem itemChars_ne_close (first : Bool) (v : Json) (vs : List Json) (rest cs : List Char) :
    ']' :: cs ≠ itemChars first (v :: vs) ++ rest := by
  rw [itemChars_cons_append]
  cases first with
  | true => exact chars_append_ne (by decide) v _ cs
  | false => simp [comma]

theorem memberChars_ne_close (first : Bool) (m : String × Json) (ms : List (String × Json))
    (rest cs : List Char) : '}' :: cs ≠ memberChars first (m :: ms) ++ rest := by
  rw [memberChars_cons_append]
  cases first <;> simp [comma, quoteChars]

theorem itemChars_append_inj {vs ws : List Json} (hvs : ∀ v ∈ vs, Legible v) {first : Bool}
    {rest rest' : List Char} (h : itemChars first vs ++ rest = itemChars first ws ++ rest') :
    vs = ws ∧ rest = rest' := by
  induction vs generalizing ws first with
  | nil =>
    cases ws with
    | nil => exact ⟨rfl, (List.cons.inj h).2⟩
    | cons w ws => exact absurd h (itemChars_ne_close first w ws rest' rest)
  | cons v vs ih =>
    cases ws with
    | nil => exact absurd h.symm (itemChars_ne_close first v vs rest rest')
    | cons w ws =>
      rw [itemChars_cons_append, itemChars_cons_append] at h
      obtain ⟨rfl, htail⟩ := hvs v List.mem_cons_self w _ _ (endsNumber_itemChars vs rest)
        (endsNumber_itemChars ws rest') (List.append_cancel_left h)
      obtain ⟨rfl, hrests⟩ := ih (fun u hu => hvs u (List.mem_cons_of_mem _ hu)) htail
      exact ⟨rfl, hrests⟩

theorem memberChars_append_inj {ms ns : List (String × Json)} (hms : ∀ m ∈ ms, Legible m.2)
    {first : Bool} {rest rest' : List Char}
    (h : memberChars first ms ++ rest = memberChars first ns ++ rest') :
    ms = ns ∧ rest = rest' := by
  induction ms generalizing ns first with
  | nil =>
    cases ns with
    | nil => exact ⟨rfl, (List.cons.inj h).2⟩
    | cons n ns => exact absurd h (memberChars_ne_close first n ns rest' rest)
  | cons m ms ih =>
    cases ns with
    | nil => exact absurd h.symm (memberChars_ne_close first m ms rest rest')
    | cons n ns =>
      rw [memberChars_cons_append, memberChars_cons_append] at h
      obtain ⟨hkey, hvalue⟩ := quoteChars_append_inj (List.append_cancel_left h)
      obtain ⟨hvalues, htail⟩ := hms m List.mem_cons_self n.2 _ _ (endsNumber_memberChars ms rest)
        (endsNumber_memberChars ns rest') (List.cons.inj hvalue).2
      obtain ⟨rfl, hrests⟩ := ih (fun u hu => hms u (List.mem_cons_of_mem _ hu)) htail
      rw [Prod.ext hkey hvalues]
      exact ⟨rfl, hrests⟩

theorem legible_arr {vs : List Json} (hvs : ∀ v ∈ vs, Legible v) : Legible (.arr vs) := by
  intro w rest rest' _ _ h
  have hshape := shape_eq h
  cases w with
  | arr ws =>
    obtain ⟨rfl, hrests⟩ := itemChars_append_inj hvs (List.cons.inj h).2
    exact ⟨rfl, hrests⟩
  | _ => cases hshape

theorem legible_obj {ms : List (String × Json)} (hms : ∀ m ∈ ms, Legible m.2) :
    Legible (.obj ms) := by
  intro w rest rest' _ _ h
  have hshape := shape_eq h
  cases w with
  | obj ns =>
    obtain ⟨rfl, hrests⟩ := memberChars_append_inj hms (List.cons.inj h).2
    exact ⟨rfl, hrests⟩
  | _ => cases hshape

theorem sizeOf_snd_lt {m : String × Json} {ms : List (String × Json)} (hm : m ∈ ms) :
    sizeOf m.2 < 1 + sizeOf ms := by
  have hmem := List.sizeOf_lt_of_mem hm
  have hpair : sizeOf m = 1 + sizeOf m.1 + sizeOf m.2 := Prod.mk.sizeOf_spec m.1 m.2
  omega

theorem legible : (v : Json) → Legible v
  | .null => legible_null
  | .bool b => legible_bool b
  | .int n => legible_int n
  | .real negative d => legible_real negative d
  | .str text => legible_str text
  | .arr vs => legible_arr fun v _ => legible v
  | .obj ms => legible_obj fun m hm =>
    have := sizeOf_snd_lt hm
    legible m.2

/-- A value can be told from its text. -/
theorem render_injective {v w : Json} (h : v.render = w.render) : v = w := by
  have hchars : v.chars ++ [] = w.chars ++ [] := by
    rw [List.append_nil, List.append_nil]
    exact String.ofList_inj.mp h
  exact (legible v w [] [] trivial trivial hchars).1

/-- The bytes that the digest of a value is taken of. -/
def bytes (v : Json) : List UInt8 := v.render.toUTF8.data.toList

theorem bytes_injective {v w : Json} (h : v.bytes = w.bytes) : v = w :=
  render_injective (String.toByteArray_inj.mp (ByteArray.ext (Array.toList_inj.mp h)))

end Json

/-! ## Digests -/

namespace Digest

/-- The number that hexadecimal digits stand for. -/
def ofHex (cs : List Char) : Nat := cs.foldl (fun n c => 16 * n + (Json.hexValue? c).getD 0) 0

theorem ofHex_toDigits (n : Nat) : ofHex (Nat.toDigits 16 n) = n := by
  induction n using Nat.strongRecOn with
  | ind n ih =>
    rw [Nat.toDigits_eq_if (by decide)]
    split
    next h => simp [ofHex, Json.hexValue?_digitChar n h]
    next h =>
      have hdigit := Json.hexValue?_digitChar (n % 16) (Nat.mod_lt n (by decide))
      have hhigh := ih (n / 16) (Nat.div_lt_self (by omega) (by decide))
      rw [ofHex] at hhigh ⊢
      rw [List.foldl_append, hhigh, List.foldl_cons, List.foldl_nil, hdigit]
      exact Nat.div_add_mod n 16

theorem ofHex_padded (k : Nat) (cs : List Char) :
    ofHex (List.replicate k '0' ++ cs) = ofHex cs := by
  induction k with
  | zero => rfl
  | succ k ih => exact ih

theorem hex_injective {d d' : UInt64} (h : hex d = hex d') : d = d' := by
  have hdigits := congrArg ofHex (String.ofList_inj.mp h)
  rw [ofHex_padded, ofHex_padded, ofHex_toDigits, ofHex_toDigits] at hdigits
  exact UInt64.toNat_inj.mp hdigits

/-- Different bytes with the same digest. -/
def Collides (bs cs : List UInt8) : Prop := bs ≠ cs ∧ xxh64 bs 0 = xxh64 cs 0

/-- Bytes show the same digest if they are the same and if they collide, and not otherwise. -/
theorem hex_xxh64_eq_iff {bs cs : List UInt8} :
    hex (xxh64 bs 0) = hex (xxh64 cs 0) ↔ bs = cs ∨ Collides bs cs := by
  constructor
  · intro h
    by_cases hbytes : bs = cs
    · exact .inl hbytes
    · exact .inr ⟨hbytes, hex_injective h⟩
  · rintro (rfl | ⟨-, hdigest⟩)
    · rfl
    · rw [hdigest]

end Digest
end ManagedHeap
