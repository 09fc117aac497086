import ModulePack.Bytes

/-!
# SHA-256

The hash of FIPS 180-4 over a list of bytes. `length_sha256` says that a digest has 32 bytes. Two
messages have one digest only if they are the same or a `Collision` (`hexDigest_eq_iff`).
-/

namespace ModulePack

namespace Sha256

structure State where
  (a b c d e f g h : UInt32)
  deriving DecidableEq

/-- Fractional parts of the square roots of the first eight primes. -/
def initial : State :=
  ⟨0x6a09e667, 0xbb67ae85, 0x3c6ef372, 0xa54ff53a,
   0x510e527f, 0x9b05688c, 0x1f83d9ab, 0x5be0cd19⟩

/-- Fractional parts of the cube roots of the first sixty-four primes. -/
def roundConstants : List UInt32 :=
  [0x428a2f98, 0x71374491, 0xb5c0fbcf, 0xe9b5dba5, 0x3956c25b, 0x59f111f1, 0x923f82a4,
   0xab1c5ed5, 0xd807aa98, 0x12835b01, 0x243185be, 0x550c7dc3, 0x72be5d74, 0x80deb1fe,
   0x9bdc06a7, 0xc19bf174, 0xe49b69c1, 0xefbe4786, 0x0fc19dc6, 0x240ca1cc, 0x2de92c6f,
   0x4a7484aa, 0x5cb0a9dc, 0x76f988da, 0x983e5152, 0xa831c66d, 0xb00327c8, 0xbf597fc7,
   0xc6e00bf3, 0xd5a79147, 0x06ca6351, 0x14292967, 0x27b70a85, 0x2e1b2138, 0x4d2c6dfc,
   0x53380d13, 0x650a7354, 0x766a0abb, 0x81c2c92e, 0x92722c85, 0xa2bfe8a1, 0xa81a664b,
   0xc24b8b70, 0xc76c51a3, 0xd192e819, 0xd6990624, 0xf40e3585, 0x106aa070, 0x19a4c116,
   0x1e376c08, 0x2748774c, 0x34b0bcb5, 0x391c0cb3, 0x4ed8aa4a, 0x5b9cca4f, 0x682e6ff3,
   0x748f82ee, 0x78a5636f, 0x84c87814, 0x8cc70208, 0x90befffa, 0xa4506ceb, 0xbef9a3f7,
   0xc67178f2]

def rotateRight (x n : UInt32) : UInt32 := (x >>> n) ||| (x <<< (32 - n))

/-- The schedule grown by one word; the newest word comes first. -/
def grow (ws : List UInt32) : List UInt32 :=
  let x := ws.getD 14 0
  let y := ws.getD 1 0
  let sx := rotateRight x 7 ^^^ rotateRight x 18 ^^^ (x >>> 3)
  let sy := rotateRight y 17 ^^^ rotateRight y 19 ^^^ (y >>> 10)
  (ws.getD 15 0 + sx + ws.getD 6 0 + sy) :: ws

/-- The sixty-four schedule words of a block of sixteen. -/
def schedule (block : List UInt32) : List UInt32 := (Nat.repeat grow 48 block.reverse).reverse

def round (s : State) (k w : UInt32) : State :=
  let s1 := rotateRight s.e 6 ^^^ rotateRight s.e 11 ^^^ rotateRight s.e 25
  let choice := (s.e &&& s.f) ^^^ (~~~s.e &&& s.g)
  let t1 := s.h + s1 + choice + k + w
  let s0 := rotateRight s.a 2 ^^^ rotateRight s.a 13 ^^^ rotateRight s.a 22
  let majority := (s.a &&& s.b) ^^^ (s.a &&& s.c) ^^^ (s.b &&& s.c)
  ⟨t1 + (s0 + majority), s.a, s.b, s.c, s.d + t1, s.e, s.f, s.g⟩

def compress (s : State) (block : List UInt32) : State :=
  let t := (roundConstants.zip (schedule block)).foldl (fun t (k, w) => round t k w) s
  ⟨s.a + t.a, s.b + t.b, s.c + t.c, s.d + t.d, s.e + t.e, s.f + t.f, s.g + t.g, s.h + t.h⟩

/-- The low `k` bytes of `n`, the highest first. -/
def bigEndian : (k n : Nat) → Bytes
  | 0, _ => []
  | k + 1, n => bigEndian k (n / 256) ++ [UInt8.ofNat (n % 256)]

/-- The message with its end mark, zeros, and its length in bits, a multiple of 64 bytes long. -/
def padded (b : Bytes) : Bytes :=
  b ++ 0x80 :: List.replicate ((119 - b.length % 64) % 64) 0 ++ bigEndian 8 (8 * b.length)

/-- Big-endian words of four bytes. -/
def words : Bytes → List UInt32
  | p :: q :: r :: s :: rest =>
    ((p.toUInt32 <<< 24) ||| (q.toUInt32 <<< 16) ||| (r.toUInt32 <<< 8) ||| s.toUInt32)
      :: words rest
  | _ => []

/-- The first `n` blocks of sixteen words. -/
def blocks : (n : Nat) → List UInt32 → List (List UInt32)
  | 0, _ => []
  | n + 1, ws => ws.take 16 :: blocks n (ws.drop 16)

def State.bytes (s : State) : Bytes :=
  [s.a, s.b, s.c, s.d, s.e, s.f, s.g, s.h].flatMap fun w => bigEndian 4 w.toNat

@[simp] theorem length_bigEndian (k n : Nat) : (bigEndian k n).length = k := by
  induction k generalizing n with
  | zero => rfl
  | succ k ih => simp [bigEndian, ih]

theorem length_padded (b : Bytes) : (padded b).length % 64 = 0 := by
  simp only [padded, List.length_append, List.length_cons, List.length_replicate, length_bigEndian]
  omega

end Sha256

open Sha256 in
def sha256 (b : Bytes) : Bytes :=
  let ws := words (padded b)
  ((blocks (ws.length / 16) ws).foldl compress initial).bytes

@[simp] theorem length_sha256 (b : Bytes) : (sha256 b).length = 32 := by
  simp [sha256, Sha256.State.bytes]

/-- The digest as it is shown: 64 lower case hexadecimal digits. -/
def hexDigest (b : Bytes) : Text := (sha256 b).hex

/-- Two messages with one hash. -/
def Sha256.Collision (b b' : Bytes) : Prop := b ≠ b' ∧ sha256 b = sha256 b'

theorem hexDigest_eq_iff {b b' : Bytes} :
    hexDigest b = hexDigest b' ↔ b = b' ∨ Sha256.Collision b b' := by
  constructor
  · intro h
    by_cases heq : b = b'
    · exact .inl heq
    · exact .inr ⟨heq, Bytes.hex_injective h⟩
  · rintro (rfl | ⟨-, heq⟩)
    · rfl
    · exact congrArg Bytes.hex heq

end ModulePack
