import SpoolCache.Base.Bytes

/-!
# SHA-256

Library `Base`. The hash of FIPS 180-4 on byte strings, as a big-endian number. Words are
naturals below `2 ^ 32` with explicit reduction. Nothing is proved about collisions: a result
that needs them absent says on which inputs.
-/

namespace SpoolCache.Base.Sha256

/-- Reduce to a 32-bit word. -/
def word (n : Nat) : Nat := n % 2 ^ 32

/-- Rotate a word to the right. -/
def rotateRight (x n : Nat) : Nat := (x >>> n) ||| word (x <<< (32 - n))

/-- Complement of a word. -/
def complement (x : Nat) : Nat := 2 ^ 32 - 1 - x

/-- Round constants `K`. -/
def roundConstants : List Nat :=
  [0x428a2f98, 0x71374491, 0xb5c0fbcf, 0xe9b5dba5, 0x3956c25b, 0x59f111f1, 0x923f82a4, 0xab1c5ed5,
   0xd807aa98, 0x12835b01, 0x243185be, 0x550c7dc3, 0x72be5d74, 0x80deb1fe, 0x9bdc06a7, 0xc19bf174,
   0xe49b69c1, 0xefbe4786, 0x0fc19dc6, 0x240ca1cc, 0x2de92c6f, 0x4a7484aa, 0x5cb0a9dc, 0x76f988da,
   0x983e5152, 0xa831c66d, 0xb00327c8, 0xbf597fc7, 0xc6e00bf3, 0xd5a79147, 0x06ca6351, 0x14292967,
   0x27b70a85, 0x2e1b2138, 0x4d2c6dfc, 0x53380d13, 0x650a7354, 0x766a0abb, 0x81c2c92e, 0x92722c85,
   0xa2bfe8a1, 0xa81a664b, 0xc24b8b70, 0xc76c51a3, 0xd192e819, 0xd6990624, 0xf40e3585, 0x106aa070,
   0x19a4c116, 0x1e376c08, 0x2748774c, 0x34b0bcb5, 0x391c0cb3, 0x4ed8aa4a, 0x5b9cca4f, 0x682e6ff3,
   0x748f82ee, 0x78a5636f, 0x84c87814, 0x8cc70208, 0x90befffa, 0xa4506ceb, 0xbef9a3f7, 0xc67178f2]

/-- Working variables. -/
structure State where
  a : Nat
  b : Nat
  c : Nat
  d : Nat
  e : Nat
  f : Nat
  g : Nat
  h : Nat

/-- Initial hash value. -/
def initialState : State :=
  ⟨0x6a09e667, 0xbb67ae85, 0x3c6ef372, 0xa54ff53a, 0x510e527f, 0x9b05688c, 0x1f83d9ab,
    0x5be0cd19⟩

/-- One round with its constant and schedule word. -/
def round (s : State) (k w : Nat) : State :=
  let sum₁ := rotateRight s.e 6 ^^^ rotateRight s.e 11 ^^^ rotateRight s.e 25
  let choice := (s.e &&& s.f) ^^^ (complement s.e &&& s.g)
  let t₁ := s.h + sum₁ + choice + k + w
  let sum₀ := rotateRight s.a 2 ^^^ rotateRight s.a 13 ^^^ rotateRight s.a 22
  let majority := (s.a &&& s.b) ^^^ (s.a &&& s.c) ^^^ (s.b &&& s.c)
  ⟨word (t₁ + sum₀ + majority), s.a, s.b, s.c, word (s.d + t₁), s.e, s.f, s.g⟩

/-- The schedule word after a window of sixteen. -/
def nextWord (window : List Nat) : Nat :=
  let w := fun i ↦ window.getD i 0
  let sigma₀ := rotateRight (w 1) 7 ^^^ rotateRight (w 1) 18 ^^^ (w 1 >>> 3)
  let sigma₁ := rotateRight (w 14) 17 ^^^ rotateRight (w 14) 19 ^^^ (w 14 >>> 10)
  word (w 0 + sigma₀ + w 9 + sigma₁)

/-- All rounds, sliding the schedule window. -/
def rounds : List Nat → List Nat → State → State
  | [], _, s => s
  | k :: ks, window, s =>
    rounds ks (window.drop 1 ++ [nextWord window]) (round s k (window.getD 0 0))

/-- Compress one block of sixteen words. -/
def compress (s : State) (block : List Nat) : State :=
  let r := rounds roundConstants block s
  ⟨word (s.a + r.a), word (s.b + r.b), word (s.c + r.c), word (s.d + r.d), word (s.e + r.e),
    word (s.f + r.f), word (s.g + r.g), word (s.h + r.h)⟩

/-- Big-endian words of a byte string. -/
def words : Nat → List Nat → List Nat
  | 0, _ => []
  | n + 1, bytes =>
    (bytes.take 4).foldl (fun acc b ↦ acc * 256 + b) 0 :: words n (bytes.drop 4)

/-- Message padding: a one bit, zeros, and the length in bits. -/
def pad (bytes : List Nat) : List Nat :=
  bytes ++ [0x80] ++ List.replicate ((119 - bytes.length % 64) % 64) 0 ++
    (List.range 8).map fun i ↦ (bytes.length * 8) >>> (8 * (7 - i)) % 256

/-- Compress the blocks of a padded message. -/
def compressAll : Nat → List Nat → State → State
  | 0, _, s => s
  | n + 1, bytes, s =>
    compressAll n (bytes.drop 64) (compress s (words 16 (bytes.take 64)))

/-- The hash of a byte string as a 256-bit number. -/
def hash (bytes : Bytes) : Nat :=
  let padded := pad (bytes.map UInt8.toNat)
  let s := compressAll (padded.length / 64) padded initialState
  [s.a, s.b, s.c, s.d, s.e, s.f, s.g, s.h].foldl (fun acc w ↦ acc * 2 ^ 32 + w) 0

example : hash [97, 98, 99] =
    0xba7816bf8f01cfea414140de5dae2223b00361a396177a9cb410ff61f20015ad := by
  decide +kernel

end SpoolCache.Base.Sha256
