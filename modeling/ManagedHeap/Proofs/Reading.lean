import ManagedHeap.Json.Record

/-!
# Written values are read back

Each printed number, string, array and object is taken off the front of a text by the reader of
its shape, whatever may follow it there. Blanks may stand around the items of an array and before
the keys of an object; nothing is said about texts that were written in another way.
-/
namespace ManagedHeap.Json

/-! ## Numbers -/

/-- Nothing that could still belong to a number stands at the front. -/
def EndsNumber : List Char → Prop
  | [] => True
  | c :: _ => c.isDigit = false ∧ c ≠ '.' ∧ c ≠ 'e' ∧ c ≠ 'E'

/-- The reader takes exactly the text `cs` for `a`, if no number goes on behind it. -/
def Reads {α : Type} (r : Reader α) (cs : List Char) (a : α) : Prop :=
  ∀ rest, EndsNumber rest → r (cs ++ rest) = .ok (a, rest)

theorem takeWhile_digits {ds rest : List Char} (hd : ∀ c ∈ ds, c.isDigit = true)
    (hr : EndsNumber rest) : (ds ++ rest).takeWhile Char.isDigit = ds := by
  rw [List.takeWhile_append_of_pos hd]
  cases rest with
  | nil => simp
  | cons c cs => simp [hr.1]

theorem dropWhile_digits {ds rest : List Char} (hd : ∀ c ∈ ds, c.isDigit = true)
    (hr : EndsNumber rest) : (ds ++ rest).dropWhile Char.isDigit = rest := by
  rw [List.dropWhile_append_of_pos hd]
  cases rest with
  | nil => simp
  | cons c cs => simp [hr.1]

theorem readNumberTail_of_ends (negative : Bool) (whole : List Char) {rest : List Char}
    (hr : EndsNumber rest) :
    readNumberTail negative whole rest = finishInt negative whole rest := by
  cases rest with
  | nil => rfl
  | cons c cs =>
    obtain ⟨_, hdot, he, hE⟩ := hr
    simp [readNumberTail, hdot, he, hE]

theorem toDigits_head (n : Nat) (hn : 0 < n) : ∃ c cs, Nat.toDigits 10 n = c :: cs ∧ c ≠ '0' := by
  induction n using Nat.strongRecOn with
  | ind n ih =>
    rw [Nat.toDigits_eq_if (by decide)]
    split
    · next h =>
      refine ⟨_, _, rfl, ?_⟩
      intro h0
      have := congrArg Char.toNat h0
      rw [Nat.toNat_digitChar_of_lt_ten h] at this
      simp at this
      omega
    · next h =>
      obtain ⟨c, cs, hc, h0⟩ := ih (n / 10) (by omega) (by omega)
      exact ⟨c, cs ++ [(n % 10).digitChar], by simp [hc], h0⟩

theorem isDigit_of_mem {n : Nat} : ∀ c ∈ Nat.toDigits 10 n, c.isDigit = true :=
  fun _ hc => Nat.isDigit_of_mem_toDigits (by decide) (by decide) hc

theorem exists_digit (n : Nat) :
    ∃ c cs, Nat.toDigits 10 n = c :: cs ∧ c.isDigit = true := by
  cases hds : Nat.toDigits 10 n with
  | nil => exact absurd hds Nat.toDigits_ne_nil
  | cons c cs => exact ⟨c, cs, rfl, isDigit_of_mem (n := n) c (by simp [hds])⟩

theorem readNumber_toDigits (negative : Bool) (n : Nat) {rest : List Char}
    (hr : EndsNumber rest) :
    readNumber negative (Nat.toDigits 10 n ++ rest) =
      finishInt negative (Nat.toDigits 10 n) rest := by
  rcases Nat.eq_zero_or_pos n with h0 | hpos
  · subst h0
    rw [Nat.toDigits_zero]
    cases rest with
    | nil => simp [readNumber, readNumberTail]
    | cons d ds =>
      have ht := readNumberTail_of_ends negative ['0'] hr
      simp [readNumber, hr.1, ht]
  · obtain ⟨c, cs, hc, h0⟩ := toDigits_head n hpos
    have hd := isDigit_of_mem (n := n)
    have htake := takeWhile_digits hd hr
    have hdrop := dropWhile_digits hd hr
    have hcd : c.isDigit = true := hd c (by simp [hc])
    rw [hc] at htake hdrop ⊢
    simp only [List.cons_append] at htake hdrop ⊢
    simp only [readNumber, h0, hcd, ↓reduceIte, htake, hdrop]
    exact readNumberTail_of_ends negative _ hr


theorem skipBlank_of_not {c : Char} (h : isBlank c = false) (cs : List Char) :
    skipBlank (c :: cs) = c :: cs := by
  simp [skipBlank, h]

theorem isBlank_of_isDigit {c : Char} (h : c.isDigit = true) : isBlank c = false := by
  simp only [isBlank, Bool.or_eq_false_iff, beq_eq_false_iff_ne]
  refine ⟨⟨⟨?_, ?_⟩, ?_⟩, ?_⟩ <;> (rintro rfl; revert h; decide)

theorem finishInt_false {n : Nat} (hn : n < wordLimit 64) (rest : List Char) :
    finishInt false (Nat.toDigits 10 n) rest = .ok (.int n, rest) := by
  have hv : digitsValue (Nat.toDigits 10 n) = n := Nat.ofDigitChars_ten_toDigits
  simp [finishInt, hv, hn]

theorem finishInt_true {n : Nat} (hpos : 0 < n) (hn : n ≤ wordLimit 63) (rest : List Char) :
    finishInt true (Nat.toDigits 10 n) rest = .ok (.int (-n), rest) := by
  have hv : digitsValue (Nat.toDigits 10 n) = n := Nat.ofDigitChars_ten_toDigits
  simp [finishInt, hv, hn, hpos]

theorem toList_toString_int (n : Int) :
    (toString n).toList =
      if n < 0 then '-' :: Nat.toDigits 10 n.natAbs else Nat.toDigits 10 n.natAbs := by
  cases n with
  | ofNat n =>
    simp [Int.repr_eq_if]
  | negSucc n =>
    have h : Int.negSucc n < 0 := Int.negSucc_lt_zero n
    simp [h, Int.repr_eq_if]

theorem reads_int {lo hi n : Int} (hlo : lo ≤ n) (hhi : n ≤ hi)
    (hmin : -(wordLimit 63 : Int) ≤ n) (hmax : n < wordLimit 64) :
    Reads (readInt lo hi) (toString n).toList n := by
  intro rest hr
  rw [toList_toString_int]
  by_cases hneg : n < 0
  · have hnum := readNumber_toDigits true n.natAbs hr
    rw [finishInt_true (by omega) (by omega)] at hnum
    have hn : -((n.natAbs : Nat) : Int) = n := by omega
    rw [hn] at hnum
    rw [if_pos hneg, List.cons_append, readInt, skipBlank_of_not (by decide)]
    simp [hnum, hlo, hhi, bind, Except.bind]
  · have hnum := readNumber_toDigits false n.natAbs hr
    rw [finishInt_false (by omega)] at hnum
    have hn : ((n.natAbs : Nat) : Int) = n := by omega
    rw [hn] at hnum
    obtain ⟨c, cs, hds, hc⟩ := exists_digit n.natAbs
    have hminus : c ≠ '-' := by rintro rfl; revert hc; decide
    rw [hds, List.cons_append] at hnum
    rw [if_neg hneg, readInt, hds, List.cons_append, skipBlank_of_not (isBlank_of_isDigit hc)]
    simp [hnum, hc, hminus, hlo, hhi, bind, Except.bind]

theorem reads_nat {bits n : Nat} (hn : n < wordLimit bits) (h64 : n < wordLimit 64) :
    Reads (readNat bits) (Nat.toDigits 10 n) n := by
  intro rest hr
  have hint : Reads (readInt 0 ((wordLimit bits : Int) - 1)) (toString (n : Int)).toList n :=
    reads_int (by omega) (by omega) (by omega) (by omega)
  have h := hint rest hr
  rw [toList_toString_int, if_neg (by omega)] at h
  simp only [Int.natAbs_natCast] at h
  simp [readNat, h, bind, Except.bind]

/-! ## Strings -/

theorem hexValue?_digitChar : ∀ n < 16, hexValue? (Nat.digitChar n) = some n := by decide

theorem readEscape_control {c : Char} (hc : c.toNat < 0x20) (rest : List Char) :
    readEscape ('u' :: '0' :: '0' :: Nat.digitChar (c.toNat / 16) ::
      Nat.digitChar (c.toNat % 16) :: rest) = .ok (c, rest) := by
  have hhigh := hexValue?_digitChar (c.toNat / 16) (by omega)
  have hlow := hexValue?_digitChar (c.toNat % 16) (by omega)
  have h0 : hexValue? '0' = some 0 := by decide
  have hquad : readQuad ('0' :: '0' :: Nat.digitChar (c.toNat / 16) ::
      Nat.digitChar (c.toNat % 16) :: rest) = .ok (c.toNat, rest) := by
    simp only [readQuad, hhigh, hlow, h0]
    simp [Nat.div_add_mod']
  have hlow' : isLowSurrogate c.toNat = false := by simp [isLowSurrogate]; omega
  have hhigh' : isHighSurrogate c.toNat = false := by simp [isHighSurrogate]; omega
  simp [readEscape, simpleEscape?, readCodeEscape, hquad, hlow', hhigh', bind, Except.bind]

/-- One written character is read back, and the rest of the string behind it. -/
theorem readStringBody_escape (n : Nat) (c : Char) (rest : List Char) :
    readStringBody (n + 1) (escape c ++ rest) =
      (readStringBody n rest).map fun r => (c :: r.1, r.2) := by
  have hb : ∀ e, readEscape (e :: rest) = .ok (c, rest) →
      readStringBody (n + 1) ('\\' :: e :: rest) =
        (readStringBody n rest).map fun r => (c :: r.1, r.2) := by
    intro e he
    simp only [readStringBody, he, bind, Except.bind]
    cases readStringBody n rest <;> simp [Except.map]
  unfold escape
  split
  · next h => subst h; exact hb _ (by rfl)
  split
  · next h => subst h; exact hb _ (by rfl)
  split
  · next h => subst h; exact hb _ (by rfl)
  split
  · next h => subst h; exact hb _ (by rfl)
  split
  · next h => subst h; exact hb _ (by rfl)
  split
  · next h => subst h; exact hb _ (by rfl)
  split
  · next h => subst h; exact hb _ (by rfl)
  split
  · next h =>
    have he := readEscape_control h rest
    simp only [List.cons_append, List.nil_append, readStringBody, he, bind, Except.bind]
    cases readStringBody n rest <;> simp [Except.map]
  · next hq hbs _ _ _ _ _ hctl =>
    simp only [List.cons_append, List.nil_append, readStringBody, hq, hbs, hctl, ↓reduceIte, bind,
      Except.bind]
    cases readStringBody n rest <;> simp [Except.map]

theorem readStringBody_flatMap (text : List Char) (n : Nat) (hn : text.length < n)
    (rest : List Char) :
    readStringBody n (text.flatMap escape ++ '"' :: rest) = .ok (text, rest) := by
  induction text generalizing n with
  | nil =>
    obtain ⟨n, rfl⟩ : ∃ m, n = m + 1 := ⟨n - 1, by omega⟩
    simp [readStringBody]
  | cons c cs ih =>
    obtain ⟨n, rfl⟩ : ∃ m, n = m + 1 := ⟨n - 1, by omega⟩
    rw [List.flatMap_cons, List.append_assoc, readStringBody_escape, ih n (by simpa using hn)]
    rfl

theorem escape_ne_nil (c : Char) : escape c ≠ [] := by
  unfold escape
  repeat' split
  all_goals simp

theorem length_le_flatMap_escape (text : List Char) :
    text.length ≤ (text.flatMap escape).length := by
  induction text with
  | nil => simp
  | cons c cs ih =>
    have hc := List.length_pos_iff.mpr (escape_ne_nil c)
    simp only [List.flatMap_cons, List.length_append, List.length_cons]
    omega

theorem readString_quoted (text : String) (rest : List Char) :
    readString (text.toList.flatMap escape ++ '"' :: rest) = .ok (text, rest) := by
  have hlen := length_le_flatMap_escape text.toList
  have h := readStringBody_flatMap text.toList
    ((text.toList.flatMap escape ++ '"' :: rest).length + 1)
    (by simp only [List.length_append]; omega) rest
  simp only [readString, h, bind, Except.bind, String.ofList_toList]

/-! ## Arrays -/

/-- Nothing but blanks. -/
def Blank (cs : List Char) : Prop := ∀ c ∈ cs, isBlank c = true

theorem blank_nil : Blank [] := by intro c hc; cases hc

theorem skipBlank_append {bs : List Char} (hb : Blank bs) (cs : List Char) :
    skipBlank (bs ++ cs) = skipBlank cs :=
  List.dropWhile_append_of_pos hb

theorem endsNumber_cons {c : Char} (h : c.isDigit = false ∧ c ≠ '.' ∧ c ≠ 'e' ∧ c ≠ 'E')
    (cs : List Char) : EndsNumber (c :: cs) := h

theorem endsNumber_of_blank {bs cs : List Char} (hb : Blank bs) (hc : EndsNumber cs) :
    EndsNumber (bs ++ cs) := by
  cases bs with
  | nil => exact hc
  | cons c bs =>
    have h := hb c (by simp)
    simp only [isBlank, Bool.or_eq_true, beq_iff_eq] at h
    rcases h with ((rfl | rfl) | rfl) | rfl <;> exact endsNumber_cons (by decide) _

/-- What stands before an item or a key. -/
def comma (first : Bool) : List Char := if first then [] else [',']

/-- The text begins with a character at which an item may begin. -/
def Starts (text : List Char) : Prop :=
  ∃ c cs, text = c :: cs ∧ isBlank c = false ∧ c ≠ ']'

/-- The text between the brackets of an array with these items. -/
inductive Items {α : Type} (r : Reader α) : Bool → List Char → List α → Prop where
  | nil (first : Bool) : Items r first [] []
  | cons {first : Bool} {lead text trail cs : List Char} {a : α} {as : List α}
      (hlead : Blank lead) (hstart : Starts text) (hread : Reads r text a) (htrail : Blank trail)
      (hrest : Items r false cs as) :
      Items r first (comma first ++ (lead ++ (text ++ (trail ++ cs)))) (a :: as)

variable {α : Type} {r : Reader α}

theorem nextItem_blank {bs : List Char} (hb : Blank bs) (first : Bool) (cs : List Char) :
    nextItem first (bs ++ cs) = nextItem first cs := by
  rw [nextItem, nextItem, skipBlank_append hb]

theorem readItems_blank {bs : List Char} (hb : Blank bs) (n : Nat) (first : Bool)
    (cs : List Char) : readItems r n first (bs ++ cs) = readItems r n first cs := by
  cases n with
  | zero => rfl
  | succ n => simp only [readItems, nextItem_blank hb]

theorem nextItem_over (first : Bool) (rest : List Char) :
    nextItem first (']' :: rest) = .ok (.over rest) := by
  rw [nextItem, skipBlank_of_not (by decide)]
  rfl

theorem nextItem_item {lead text : List Char} (hlead : Blank lead) (hstart : Starts text)
    (first : Bool) (rest : List Char) :
    nextItem first (comma first ++ (lead ++ (text ++ rest))) = .ok (.item (text ++ rest)) := by
  obtain ⟨c, cs, rfl, hc, hclose⟩ := hstart
  have hskip : skipBlank (lead ++ c :: (cs ++ rest)) = c :: (cs ++ rest) := by
    rw [skipBlank_append hlead, skipBlank_of_not hc]
  cases first with
  | true => simp [comma, nextItem, hskip, hclose]
  | false =>
    rw [comma, if_neg (by decide), List.cons_append, List.nil_append, nextItem,
      skipBlank_of_not (by decide)]
    simp [hskip, hclose]

theorem Items.endsNumber {cs : List Char} {as : List α} (h : Items r false cs as)
    (rest : List Char) : EndsNumber (cs ++ ']' :: rest) := by
  cases h with
  | nil => exact endsNumber_cons (by decide) _
  | cons => exact endsNumber_cons (by decide) _

theorem Items.length_le {first : Bool} {cs : List Char} {as : List α}
    (h : Items r first cs as) : as.length ≤ cs.length := by
  induction h with
  | nil => simp
  | cons _ hstart _ _ _ ih =>
    obtain ⟨c, cs, rfl, -⟩ := hstart
    simp only [List.length_append, List.length_cons]
    omega

/-- The items of an array are read back. -/
theorem readItems_items {first : Bool} {cs : List Char} {as : List α} (h : Items r first cs as)
    (n : Nat) (hn : as.length < n) (rest : List Char) :
    readItems r n first (cs ++ ']' :: rest) = .ok (as, rest) := by
  induction h generalizing n with
  | nil first =>
    obtain ⟨n, rfl⟩ := Nat.exists_eq_add_of_lt hn
    simp [readItems, nextItem_over, bind, Except.bind]
  | @cons first lead text trail cs a as hlead hstart hread htrail hrest ih =>
    obtain ⟨n, rfl⟩ : ∃ m, n = m + 1 := ⟨n - 1, by omega⟩
    have hnext := nextItem_item hlead hstart first (trail ++ (cs ++ ']' :: rest))
    have hitem := hread (trail ++ (cs ++ ']' :: rest))
      (endsNumber_of_blank htrail (hrest.endsNumber rest))
    have htail := ih n (by simpa using hn)
    simp only [List.append_assoc]
    simp only [readItems, hnext, hitem, readItems_blank htrail, htail, bind, Except.bind]

/-- Texts with a comma between two of them. -/
def separated (texts : List (List Char)) : List Char := (texts.intersperse [',']).flatten

/-- Several items, one right behind the other. -/
theorem Items.line {f : α → List Char} {as bs : List α} {trail cs : List Char}
    (h : ∀ a ∈ as, Starts (f a) ∧ Reads r (f a) a) (hne : as ≠ []) (htrail : Blank trail)
    (hrest : Items r false cs bs) (first : Bool) :
    Items r first (comma first ++ (separated (as.map f) ++ (trail ++ cs))) (as ++ bs) := by
  induction as generalizing first with
  | nil => exact absurd rfl hne
  | cons a as ih =>
    obtain ⟨hstart, hread⟩ := h a List.mem_cons_self
    cases as with
    | nil =>
      have hone : Items r first _ _ := .cons blank_nil hstart hread htrail hrest
      simpa [separated] using hone
    | cons b as =>
      have hmore := ih (fun x hx => h x (List.mem_cons_of_mem _ hx)) (List.cons_ne_nil _ _) false
      have hall : Items r first _ _ := .cons blank_nil hstart hread blank_nil hmore
      simpa [separated, comma] using hall

theorem reads_array {depth : Nat} {item : Nat → Reader α} {cs : List Char} {as : List α}
    (h : Items (item depth) true cs as) :
    Reads (readArray (depth + 1) item) ('[' :: (cs ++ [']'])) as := by
  intro rest _
  have hread := readItems_items h ((cs ++ ']' :: rest).length + 1)
    (by have := h.length_le; simp only [List.length_append]; omega) rest
  rw [readArray, List.cons_append, skipBlank_of_not (by decide)]
  simpa using hread

/-! ## Objects -/

/-- The text between the braces of an object that leads from `a` to `b`. -/
inductive Members (member : α → String → Except Refusal (Reader α)) :
    Bool → α → List Char → α → Prop where
  | nil (first : Bool) (a : α) : Members member first a [] a
  | cons {first : Bool} {a b c : α} {lead text cs : List Char} {key : String} {value : Reader α}
      (hlead : Blank lead) (hmember : member a key = .ok value) (hread : Reads value text b)
      (hrest : Members member false b cs c) :
      Members member first a (comma first ++ (lead ++ (quoteChars key ++ ':' :: (text ++ cs)))) c

variable {member : α → String → Except Refusal (Reader α)}

theorem nextKey_over (first : Bool) (rest : List Char) :
    nextKey first ('}' :: rest) = .ok (.over rest) := by
  rw [nextKey, skipBlank_of_not (by decide)]
  rfl

theorem nextKey_key {lead : List Char} (hlead : Blank lead) (first : Bool) (rest : List Char) :
    nextKey first (comma first ++ (lead ++ '"' :: rest)) = .ok (.item rest) := by
  have hskip : skipBlank (lead ++ '"' :: rest) = '"' :: rest := by
    rw [skipBlank_append hlead, skipBlank_of_not (by decide)]
  cases first with
  | true => simp [comma, nextKey, hskip]
  | false =>
    rw [comma, if_neg (by decide), List.cons_append, List.nil_append, nextKey,
      skipBlank_of_not (by decide)]
    simp [hskip]

theorem Members.endsNumber {a b : α} {cs : List Char} (h : Members member false a cs b)
    (rest : List Char) : EndsNumber (cs ++ '}' :: rest) := by
  cases h with
  | nil => exact endsNumber_cons (by decide) _
  | cons => exact endsNumber_cons (by decide) _

/-- The members of an object are read back, given a step for each. -/
theorem readMembers_members {first : Bool} {a b : α} {cs : List Char}
    (h : Members member first a cs b) (n : Nat) (hn : cs.length < n) (rest : List Char) :
    readMembers member n first a (cs ++ '}' :: rest) = .ok (b, rest) := by
  induction h generalizing n with
  | nil first a =>
    obtain ⟨n, rfl⟩ : ∃ m, n = m + 1 := ⟨n - 1, by simp at hn; omega⟩
    simp [readMembers, nextKey_over, bind, Except.bind]
  | @cons first a b c lead text cs key value hlead hmember hread hrest ih =>
    obtain ⟨n, rfl⟩ : ∃ m, n = m + 1 := ⟨n - 1, by omega⟩
    have hnext := nextKey_key hlead first
      (key.toList.flatMap escape ++ '"' :: ':' :: (text ++ (cs ++ '}' :: rest)))
    have hkey := readString_quoted key (':' :: (text ++ (cs ++ '}' :: rest)))
    have hcolon : readColon (':' :: (text ++ (cs ++ '}' :: rest))) =
        .ok (text ++ (cs ++ '}' :: rest)) := by
      rw [readColon, skipBlank_of_not (by decide)]
      rfl
    have hvalue := hread (cs ++ '}' :: rest) (hrest.endsNumber rest)
    have htail := ih n (by simp [quoteChars] at hn; omega)
    have htext : comma first ++ (lead ++ (quoteChars key ++ ':' :: (text ++ cs))) ++ '}' :: rest =
        comma first ++ (lead ++ '"' ::
          (key.toList.flatMap escape ++ '"' :: ':' :: (text ++ (cs ++ '}' :: rest)))) := by
      simp [quoteChars]
    rw [htext]
    simp only [readMembers, hnext, hkey, hmember, hcolon, hvalue, htail, bind, Except.bind]

/-- A member that fills in a field which is not set yet. -/
theorem Members.field {fields : List (RecordField α)} {f : RecordField α} {first : Bool}
    {a b c : α} {lead text cs : List Char} (key : String) (hlead : Blank lead)
    (hfind : fields.find? (·.key == key) = some f) (hset : f.isSet a = false)
    (hread : Reads (f.read a) text b) (hrest : Members (readField fields) false b cs c) :
    Members (readField fields) first a
      (comma first ++ (lead ++ (quoteChars key ++ ':' :: (text ++ cs)))) c :=
  .cons hlead (by simp [readField, hfind, hset]) hread hrest

theorem reads_record {depth : Nat} {fields : Nat → List (RecordField α)} {init a : α}
    {cs : List Char} (h : Members (readField (fields depth)) true init cs a) :
    Reads (readRecord (depth + 1) fields init) ('{' :: (cs ++ ['}'])) a := by
  intro rest _
  have hread := readMembers_members h ((cs ++ '}' :: rest).length + 1)
    (by simp only [List.length_append]; omega) rest
  rw [readRecord, List.cons_append, skipBlank_of_not (by decide)]
  simpa using hread

/-! ## Values -/

/-- Values without decimals and objects that nest no deeper than the given depth. -/
inductive Plain : Nat → Json → Prop where
  | null (depth : Nat) : Plain depth .null
  | bool (depth : Nat) (b : Bool) : Plain depth (.bool b)
  | int (depth : Nat) {n : Int} (hmin : -(wordLimit 63 : Int) ≤ n) (hmax : n < wordLimit 64) :
      Plain depth (.int n)
  | str (depth : Nat) (text : String) : Plain depth (.str text)
  | arr (depth : Nat) {vs : List Json} (hvs : ∀ v ∈ vs, Plain depth v) : Plain (depth + 1) (.arr vs)

theorem reads_text (text : String) : Reads readText (quoteChars text) text := by
  intro rest _
  have h := readString_quoted text rest
  rw [readText, quoteChars, List.cons_append, skipBlank_of_not (by decide)]
  simpa using h

theorem starts_quoteChars (text : String) : Starts (quoteChars text) :=
  ⟨'"', _, rfl, by decide, by decide⟩

theorem starts_toDigits (n : Nat) : Starts (Nat.toDigits 10 n) := by
  obtain ⟨c, cs, hds, hc⟩ := exists_digit n
  exact ⟨c, cs, hds, isBlank_of_isDigit hc, by rintro rfl; revert hc; decide⟩

theorem starts_toString_int (n : Int) : Starts (toString n).toList := by
  rw [toList_toString_int]
  split
  · exact ⟨'-', _, rfl, by decide, by decide⟩
  · exact starts_toDigits _

/-- The items that a value's text holds up to the closing bracket. -/
theorem items_itemChars {f : α → Json} {as : List α}
    (h : ∀ a ∈ as, Starts (f a).chars ∧ Reads r (f a).chars a) (first : Bool) :
    ∃ cs, itemChars first (as.map f) = cs ++ [']'] ∧ Items r first cs as := by
  induction as generalizing first with
  | nil => exact ⟨[], rfl, .nil first⟩
  | cons a as ih =>
    obtain ⟨cs, hcs, hitems⟩ := ih (fun b hb => h b (List.mem_cons_of_mem _ hb)) false
    obtain ⟨hstart, hread⟩ := h a List.mem_cons_self
    refine ⟨_, ?_, Items.cons blank_nil hstart hread blank_nil hitems⟩
    simp [itemChars, hcs, comma]

theorem reads_arr {depth : Nat} {item : Nat → Reader α} {f : α → Json} {as : List α}
    (h : ∀ a ∈ as, Starts (f a).chars ∧ Reads (item depth) (f a).chars a) :
    Reads (readArray (depth + 1) item) (Json.arr (as.map f)).chars as := by
  obtain ⟨cs, hcs, hitems⟩ := items_itemChars h true
  rw [chars, hcs]
  exact reads_array hitems

theorem Plain.starts {depth : Nat} {v : Json} (h : Plain depth v) : Starts v.chars := by
  cases h with
  | null => exact ⟨'n', _, rfl, by decide, by decide⟩
  | bool depth b => cases b <;> exact ⟨_, _, rfl, by decide, by decide⟩
  | @int depth n _ _ => exact starts_toString_int n
  | str depth text => exact starts_quoteChars text
  | arr => exact ⟨'[', _, rfl, by decide, by decide⟩

theorem reads_plain {depth : Nat} {v : Json} (h : Plain depth v) :
    Reads (readValue depth) v.chars v := by
  induction h with
  | null depth =>
    intro rest _
    cases depth <;> rfl
  | bool depth b =>
    intro rest _
    cases depth <;> cases b <;> rfl
  | @int depth n hmin hmax =>
    intro rest hr
    rw [chars, toList_toString_int]
    by_cases hneg : n < 0
    · have hnum := readNumber_toDigits true n.natAbs hr
      rw [finishInt_true (by omega) (by omega), show -((n.natAbs : Nat) : Int) = n by omega] at hnum
      unfold readValue
      rw [if_pos hneg, List.cons_append, skipBlank_of_not (by decide)]
      simp [hnum, Except.map, Numeral.toJson]
    · have hnum := readNumber_toDigits false n.natAbs hr
      rw [finishInt_false (by omega), show ((n.natAbs : Nat) : Int) = n by omega] at hnum
      obtain ⟨c, cs, hds, hc⟩ := exists_digit n.natAbs
      obtain ⟨hn, ht, hf, hm⟩ : c ≠ 'n' ∧ c ≠ 't' ∧ c ≠ 'f' ∧ c ≠ '-' := by
        refine ⟨?_, ?_, ?_, ?_⟩ <;> (rintro rfl; revert hc; decide)
      rw [hds, List.cons_append] at hnum
      unfold readValue
      rw [if_neg hneg, hds, List.cons_append, skipBlank_of_not (isBlank_of_isDigit hc)]
      simp [hn, ht, hf, hm, hc, hnum, Except.map, Numeral.toJson]
  | str depth text =>
    intro rest _
    have h := readString_quoted text rest
    unfold readValue
    rw [chars, quoteChars, List.cons_append, skipBlank_of_not (by decide)]
    simp [h, Except.map]
  | @arr depth vs hvs ih =>
    intro rest hr
    obtain ⟨cs, hcs, hitems⟩ := items_itemChars (f := id) (r := readValue depth)
      (fun v (hv : v ∈ vs) => ⟨(hvs v hv).starts, ih v hv⟩) true
    have hread := readItems_items hitems ((cs ++ ']' :: rest).length + 1)
      (by have := hitems.length_le; simp only [List.length_append]; omega) rest
    rw [List.map_id] at hcs
    unfold readValue
    rw [chars, hcs, List.cons_append, skipBlank_of_not (by decide)]
    simp at hread
    simp [hread, Except.map]

end ManagedHeap.Json
