import AttributeRegistry.Text.Hex

/-!
# SHA-256

The hash function of FIPS 180-4 on byte strings, and its lower-case hexadecimal form. A message is
followed by a one bit, zeros and its length in bits up to a whole number of 64-byte blocks; each
block is spread over a schedule of 64 words, and 64 rounds mix the schedule into eight words of
state.
-/

namespace AttributeRegistry.Sha256

/-- The eight words of the chaining state. -/
structure State where
  a : UInt32
  b : UInt32
  c : UInt32
  d : UInt32
  e : UInt32
  f : UInt32
  g : UInt32
  h : UInt32
deriving Repr, DecidableEq

/-- Fractional parts of the square roots of the first eight primes. -/
def initial : State :=
  ⟨0x6a09e667, 0xbb67ae85, 0x3c6ef372, 0xa54ff53a, 0x510e527f, 0x9b05688c, 0x1f83d9ab, 0x5be0cd19⟩

/-- Fractional parts of the cube roots of the first 64 primes. -/
def roundConstants : List UInt32 :=
  [0x428a2f98, 0x71374491, 0xb5c0fbcf, 0xe9b5dba5, 0x3956c25b, 0x59f111f1, 0x923f82a4, 0xab1c5ed5,
   0xd807aa98, 0x12835b01, 0x243185be, 0x550c7dc3, 0x72be5d74, 0x80deb1fe, 0x9bdc06a7, 0xc19bf174,
   0xe49b69c1, 0xefbe4786, 0x0fc19dc6, 0x240ca1cc, 0x2de92c6f, 0x4a7484aa, 0x5cb0a9dc, 0x76f988da,
   0x983e5152, 0xa831c66d, 0xb00327c8, 0xbf597fc7, 0xc6e00bf3, 0xd5a79147, 0x06ca6351, 0x14292967,
   0x27b70a85, 0x2e1b2138, 0x4d2c6dfc, 0x53380d13, 0x650a7354, 0x766a0abb, 0x81c2c92e, 0x92722c85,
   0xa2bfe8a1, 0xa81a664b, 0xc24b8b70, 0xc76c51a3, 0xd192e819, 0xd6990624, 0xf40e3585, 0x106aa070,
   0x19a4c116, 0x1e376c08, 0x2748774c, 0x34b0bcb5, 0x391c0cb3, 0x4ed8aa4a, 0x5b9cca4f, 0x682e6ff3,
   0x748f82ee, 0x78a5636f, 0x84c87814, 0x8cc70208, 0x90befffa, 0xa4506ceb, 0xbef9a3f7, 0xc67178f2]

/-- Rotates a word right. -/
def rotr (x : UInt32) (n : UInt32) : UInt32 :=
  (x >>> n) ||| (x <<< (32 - n))

/-! ## Padding -/

/-- The low eight bytes of a number, most significant first. -/
def lengthBytes (n : Nat) : List UInt8 :=
  (List.range 8).map fun i => (n >>> (8 * (7 - i))).toUInt8

/-- The message with the one bit, the zeros and the length behind it. -/
def pad (message : ByteArray) : ByteArray :=
  let n := message.size
  let zeros := (119 - n % 64) % 64
  (lengthBytes (8 * n)).foldl ByteArray.push
    ((List.replicate zeros (0 : UInt8)).foldl ByteArray.push (message.push 0x80))

/-- The word whose first byte stands at `i`. -/
def wordAt (bytes : ByteArray) (i : Nat) : UInt32 :=
  let byte (k : Nat) : UInt32 := (bytes[i + k]?.getD 0).toUInt32
  (byte 0 <<< 24) ||| (byte 1 <<< 16) ||| (byte 2 <<< 8) ||| byte 3

/-! ## Compression -/

/-- One more word of the schedule. -/
def extend (w : Array UInt32) : Array UInt32 :=
  let at' (back : Nat) : UInt32 := w[w.size - back]?.getD 0
  let x := at' 15
  let y := at' 2
  let s0 := rotr x 7 ^^^ rotr x 18 ^^^ (x >>> 3)
  let s1 := rotr y 17 ^^^ rotr y 19 ^^^ (y >>> 10)
  w.push (at' 16 + s0 + at' 7 + s1)

/-- The schedule of the block that starts at `start`. -/
def schedule (bytes : ByteArray) (start : Nat) : Array UInt32 :=
  let words := ((List.range 16).map fun i => wordAt bytes (start + 4 * i)).toArray
  (List.range 48).foldl (fun w _ => extend w) words

/-- One round with a round constant and a schedule word. -/
def round (s : State) (k w : UInt32) : State :=
  let s1 := rotr s.e 6 ^^^ rotr s.e 11 ^^^ rotr s.e 25
  let choice := (s.e &&& s.f) ^^^ ((~~~s.e) &&& s.g)
  let t1 := s.h + s1 + choice + k + w
  let s0 := rotr s.a 2 ^^^ rotr s.a 13 ^^^ rotr s.a 22
  let majority := (s.a &&& s.b) ^^^ (s.a &&& s.c) ^^^ (s.b &&& s.c)
  ⟨t1 + (s0 + majority), s.a, s.b, s.c, s.d + t1, s.e, s.f, s.g⟩

/-- Word by word addition of states. -/
def State.add (s t : State) : State :=
  ⟨s.a + t.a, s.b + t.b, s.c + t.c, s.d + t.d, s.e + t.e, s.f + t.f, s.g + t.g, s.h + t.h⟩

/-- Mixes the block that starts at `start` into the state. -/
def compress (bytes : ByteArray) (s : State) (start : Nat) : State :=
  let mixed := (roundConstants.zip (schedule bytes start).toList).foldl
    (fun t kw => round t kw.1 kw.2) s
  s.add mixed

/-- The state after all blocks. -/
def digest (message : ByteArray) : State :=
  let bytes := pad message
  (List.range (bytes.size / 64)).foldl (fun s i => compress bytes s (64 * i)) initial

/-! ## Hexadecimal form -/

/-- A word as eight digits. -/
def hexWord (w : UInt32) : List Char :=
  (List.range 8).map fun i => Text.hexDigit ((w.toNat >>> (4 * (7 - i))) % 16)

/-- The state as 64 digits. -/
def State.hex (s : State) : List Char :=
  [s.a, s.b, s.c, s.d, s.e, s.f, s.g, s.h].flatMap hexWord

/-- The digest of a text's UTF-8 bytes, in hexadecimal. -/
def hexDigest (text : String) : String :=
  String.ofList (digest text.toUTF8).hex

end AttributeRegistry.Sha256
