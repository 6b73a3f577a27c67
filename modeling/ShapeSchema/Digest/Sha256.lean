/-!
# SHA-256

The digest of a byte sequence: the message is padded to whole blocks of sixteen words, and each
block is mixed into eight words of state by sixty-four rounds.
-/

namespace ShapeSchema.Digest

/-- The round constants. -/
def roundConstants : Array UInt32 := #[
  0x428a2f98, 0x71374491, 0xb5c0fbcf, 0xe9b5dba5, 0x3956c25b, 0x59f111f1, 0x923f82a4, 0xab1c5ed5,
  0xd807aa98, 0x12835b01, 0x243185be, 0x550c7dc3, 0x72be5d74, 0x80deb1fe, 0x9bdc06a7, 0xc19bf174,
  0xe49b69c1, 0xefbe4786, 0x0fc19dc6, 0x240ca1cc, 0x2de92c6f, 0x4a7484aa, 0x5cb0a9dc, 0x76f988da,
  0x983e5152, 0xa831c66d, 0xb00327c8, 0xbf597fc7, 0xc6e00bf3, 0xd5a79147, 0x06ca6351, 0x14292967,
  0x27b70a85, 0x2e1b2138, 0x4d2c6dfc, 0x53380d13, 0x650a7354, 0x766a0abb, 0x81c2c92e, 0x92722c85,
  0xa2bfe8a1, 0xa81a664b, 0xc24b8b70, 0xc76c51a3, 0xd192e819, 0xd6990624, 0xf40e3585, 0x106aa070,
  0x19a4c116, 0x1e376c08, 0x2748774c, 0x34b0bcb5, 0x391c0cb3, 0x4ed8aa4a, 0x5b9cca4f, 0x682e6ff3,
  0x748f82ee, 0x78a5636f, 0x84c87814, 0x8cc70208, 0x90befffa, 0xa4506ceb, 0xbef9a3f7, 0xc67178f2]

/-- The eight words of state. -/
structure State where
  a : UInt32
  b : UInt32
  c : UInt32
  d : UInt32
  e : UInt32
  f : UInt32
  g : UInt32
  h : UInt32

def State.start : State :=
  ⟨0x6a09e667, 0xbb67ae85, 0x3c6ef372, 0xa54ff53a, 0x510e527f, 0x9b05688c, 0x1f83d9ab, 0x5be0cd19⟩

def rotateRight (x : UInt32) (n : UInt32) : UInt32 := (x >>> n) ||| (x <<< (32 - n))

/-- Sixteen words of a block, extended to sixty-four. -/
def schedule (block : Array UInt32) : Array UInt32 :=
  (List.range 48).foldl (fun w i =>
    let word (k : Nat) : UInt32 := w.getD k 0
    let x := word (i + 1)
    let y := word (i + 14)
    let s0 := rotateRight x 7 ^^^ rotateRight x 18 ^^^ (x >>> 3)
    let s1 := rotateRight y 17 ^^^ rotateRight y 19 ^^^ (y >>> 10)
    w.push (word i + s0 + word (i + 9) + s1)) block

/-- One round. -/
def State.round (s : State) (word key : UInt32) : State :=
  let s1 := rotateRight s.e 6 ^^^ rotateRight s.e 11 ^^^ rotateRight s.e 25
  let choice := (s.e &&& s.f) ^^^ ((~~~ s.e) &&& s.g)
  let t1 := s.h + s1 + choice + key + word
  let s0 := rotateRight s.a 2 ^^^ rotateRight s.a 13 ^^^ rotateRight s.a 22
  let majority := (s.a &&& s.b) ^^^ (s.a &&& s.c) ^^^ (s.b &&& s.c)
  ⟨t1 + (s0 + majority), s.a, s.b, s.c, s.d + t1, s.e, s.f, s.g⟩

/-- Mixes one block into the state. -/
def State.block (s : State) (block : Array UInt32) : State :=
  let w := schedule block
  let t := (List.range 64).foldl (fun t i => t.round (w.getD i 0) (roundConstants.getD i 0)) s
  ⟨s.a + t.a, s.b + t.b, s.c + t.c, s.d + t.d, s.e + t.e, s.f + t.f, s.g + t.g, s.h + t.h⟩

/-- Bytes of a message after its closing bit, filling and length. -/
def padded (message : ByteArray) : ByteArray :=
  let fill := (119 - message.size % 64) % 64
  let bits := message.size * 8
  let closed := (List.replicate fill (0 : UInt8)).foldl ByteArray.push (message.push 0x80)
  let shifts : List Nat := [56, 48, 40, 32, 24, 16, 8, 0]
  shifts.foldl (fun m k => m.push (UInt8.ofNat (bits >>> k))) closed

/-- The big-endian word at a byte position. -/
def wordAt (bytes : ByteArray) (i : Nat) : UInt32 :=
  (List.range 4).foldl (fun w k => (w <<< 8) ||| (bytes.data.getD (i + k) 0).toUInt32) 0

/-- The digest's eight words. -/
def sha256 (message : ByteArray) : List UInt32 :=
  let bytes := padded message
  let s := (List.range (bytes.size / 64)).foldl (fun s i =>
    s.block ((Array.range 16).map fun k => wordAt bytes (64 * i + 4 * k))) State.start
  [s.a, s.b, s.c, s.d, s.e, s.f, s.g, s.h]

/-- Eight hexadecimal digits of a word. -/
def wordHex (w : UInt32) : List Char :=
  ([28, 24, 20, 16, 12, 8, 4, 0] : List UInt32).map fun k => Nat.digitChar ((w >>> k) &&& 15).toNat

/-- The digest of a text's bytes in sixty-four hexadecimal digits. -/
def sha256Hex (s : String) : String := String.ofList ((sha256 s.toUTF8).flatMap wordHex)

/-- The first half of the digest. -/
def shortHex (s : String) : String := String.ofList ((sha256Hex s).toList.take 32)

end ShapeSchema.Digest
