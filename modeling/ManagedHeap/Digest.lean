/-!
The 64-bit digest used for fingerprints and for the numbers of native objects: xxHash64 over a
byte sequence, with a seed.
-/
namespace ManagedHeap.Digest

def prime1 : UInt64 := 0x9E3779B185EBCA87
def prime2 : UInt64 := 0xC2B2AE3D27D4EB4F
def prime3 : UInt64 := 0x165667B19E3779F9
def prime4 : UInt64 := 0x85EBCA77C2B2AE63
def prime5 : UInt64 := 0x27D4EB2F165667C5

def rotateLeft (x r : UInt64) : UInt64 :=
  (x <<< r) ||| (x >>> (64 - r))

/-- The first `n` bytes as a number, the lowest byte first; missing bytes count as zero. -/
def littleEndian : Nat → List UInt8 → UInt64
  | 0, _ => 0
  | _ + 1, [] => 0
  | n + 1, b :: bs => b.toUInt64 ||| (littleEndian n bs <<< 8)

/-- Mix one 8-byte word into a lane. -/
def round (lane word : UInt64) : UInt64 :=
  rotateLeft (lane + word * prime2) 31 * prime1

/-- The four accumulators that digest 32 bytes at a time. -/
structure Lanes where
  a : UInt64
  b : UInt64
  c : UInt64
  d : UInt64

namespace Lanes

def start (seed : UInt64) : Lanes :=
  ⟨seed + prime1 + prime2, seed + prime2, seed, seed - prime1⟩

/-- Absorb one stripe of 32 bytes. -/
def absorb (l : Lanes) (stripe : List UInt8) : Lanes :=
  ⟨round l.a (littleEndian 8 stripe),
   round l.b (littleEndian 8 (stripe.drop 8)),
   round l.c (littleEndian 8 (stripe.drop 16)),
   round l.d (littleEndian 8 (stripe.drop 24))⟩

/-- Absorb `n` stripes and give back the bytes behind them. -/
def absorbMany : Nat → Lanes → List UInt8 → Lanes × List UInt8
  | 0, l, bytes => (l, bytes)
  | n + 1, l, bytes => absorbMany n (l.absorb bytes) (bytes.drop 32)

def mergeRound (acc lane : UInt64) : UInt64 :=
  (acc ^^^ round 0 lane) * prime1 + prime4

def merge (l : Lanes) : UInt64 :=
  let acc := rotateLeft l.a 1 + rotateLeft l.b 7 + rotateLeft l.c 12 + rotateLeft l.d 18
  mergeRound (mergeRound (mergeRound (mergeRound acc l.a) l.b) l.c) l.d

end Lanes

/-- Mix in `n` trailing words of 8 bytes. -/
def mixWords : Nat → UInt64 → List UInt8 → UInt64 × List UInt8
  | 0, h, bytes => (h, bytes)
  | n + 1, h, bytes =>
    mixWords n (rotateLeft (h ^^^ round 0 (littleEndian 8 bytes)) 27 * prime1 + prime4)
      (bytes.drop 8)

/-- Mix in a trailing half word of 4 bytes, if there is one. -/
def mixHalf (h : UInt64) (bytes : List UInt8) : UInt64 × List UInt8 :=
  if 4 ≤ bytes.length then
    (rotateLeft (h ^^^ (littleEndian 4 bytes * prime1)) 23 * prime2 + prime3, bytes.drop 4)
  else (h, bytes)

/-- Mix in the last single bytes. -/
def mixBytes (h : UInt64) (bytes : List UInt8) : UInt64 :=
  bytes.foldl (fun h b => rotateLeft (h ^^^ (b.toUInt64 * prime5)) 11 * prime1) h

/-- The final scrambling of all 64 bits. -/
def avalanche (h : UInt64) : UInt64 :=
  let h := (h ^^^ (h >>> 33)) * prime2
  let h := (h ^^^ (h >>> 29)) * prime3
  h ^^^ (h >>> 32)

/-- xxHash64 of `bytes` under `seed`. -/
def xxh64 (bytes : List UInt8) (seed : UInt64) : UInt64 :=
  let length := bytes.length
  let (h, rest) :=
    if 32 ≤ length then
      let (lanes, rest) := Lanes.absorbMany (length / 32) (Lanes.start seed) bytes
      (lanes.merge, rest)
    else (seed + prime5, bytes)
  let (h, rest) := mixWords (rest.length / 8) (h + length.toUInt64) rest
  let (h, rest) := mixHalf h rest
  avalanche (mixBytes h rest)

/-- Digest of a text: its UTF-8 bytes are hashed. -/
def ofText (text : String) (seed : UInt64) : UInt64 :=
  xxh64 text.toUTF8.data.toList seed

/-- A digest as sixteen hexadecimal digits. -/
def hex (digest : UInt64) : String :=
  let digits := Nat.toDigits 16 digest.toNat
  String.ofList (List.replicate (16 - digits.length) '0' ++ digits)

end ManagedHeap.Digest
