import Mathlib.Algebra.Group.Nat.Defs

/-!
# SHA-256

The hash of a list of bytes, on natural numbers that stand for 32-bit words.
Everything is structural recursion, so a digest can be evaluated.
-/

namespace Sha256

/-- The word of 32 bits that a number leaves. -/
def word (n : Nat) : Nat := n % 2 ^ 32

/-- The word turned right by `n` places. -/
def rotate (n x : Nat) : Nat := (x >>> n) ||| word (x <<< (32 - n))

/-- The words of the schedule, latest first, extended by `n` more. -/
def extend : Nat → List Nat → List Nat
  | 0, ws => ws
  | n + 1, ws =>
    let w15 := ws.getD 14 0
    let w2 := ws.getD 1 0
    let s0 := rotate 7 w15 ^^^ rotate 18 w15 ^^^ (w15 >>> 3)
    let s1 := rotate 17 w2 ^^^ rotate 19 w2 ^^^ (w2 >>> 10)
    extend n (word (ws.getD 15 0 + s0 + ws.getD 6 0 + s1) :: ws)

/-- The state of the hash, eight words. -/
structure State : Type where
  a : Nat
  b : Nat
  c : Nat
  d : Nat
  e : Nat
  f : Nat
  g : Nat
  h : Nat

/-- One round, with the constant and the word of the schedule. -/
def round (s : State) (k w : Nat) : State :=
  let s1 := rotate 6 s.e ^^^ rotate 11 s.e ^^^ rotate 25 s.e
  let ch := (s.e &&& s.f) ^^^ ((2 ^ 32 - 1 - s.e) &&& s.g)
  let t1 := s.h + s1 + ch + k + w
  let s0 := rotate 2 s.a ^^^ rotate 13 s.a ^^^ rotate 22 s.a
  let maj := (s.a &&& s.b) ^^^ (s.a &&& s.c) ^^^ (s.b &&& s.c)
  ⟨word (t1 + s0 + maj), s.a, s.b, s.c, word (s.d + t1), s.e, s.f, s.g⟩

def rounds : State → List Nat → List Nat → State
  | s, k :: ks, w :: ws => rounds (round s k w) ks ws
  | s, _, _ => s

def constants : List Nat := [
  0x428a2f98, 0x71374491, 0xb5c0fbcf, 0xe9b5dba5, 0x3956c25b, 0x59f111f1, 0x923f82a4, 0xab1c5ed5,
  0xd807aa98, 0x12835b01, 0x243185be, 0x550c7dc3, 0x72be5d74, 0x80deb1fe, 0x9bdc06a7, 0xc19bf174,
  0xe49b69c1, 0xefbe4786, 0x0fc19dc6, 0x240ca1cc, 0x2de92c6f, 0x4a7484aa, 0x5cb0a9dc, 0x76f988da,
  0x983e5152, 0xa831c66d, 0xb00327c8, 0xbf597fc7, 0xc6e00bf3, 0xd5a79147, 0x06ca6351, 0x14292967,
  0x27b70a85, 0x2e1b2138, 0x4d2c6dfc, 0x53380d13, 0x650a7354, 0x766a0abb, 0x81c2c92e, 0x92722c85,
  0xa2bfe8a1, 0xa81a664b, 0xc24b8b70, 0xc76c51a3, 0xd192e819, 0xd6990624, 0xf40e3585, 0x106aa070,
  0x19a4c116, 0x1e376c08, 0x2748774c, 0x34b0bcb5, 0x391c0cb3, 0x4ed8aa4a, 0x5b9cca4f, 0x682e6ff3,
  0x748f82ee, 0x78a5636f, 0x84c87814, 0x8cc70208, 0x90befffa, 0xa4506ceb, 0xbef9a3f7, 0xc67178f2]

def initial : State :=
  ⟨0x6a09e667, 0xbb67ae85, 0x3c6ef372, 0xa54ff53a, 0x510e527f, 0x9b05688c, 0x1f83d9ab, 0x5be0cd19⟩

/-- One block of sixteen words. -/
def compress (s : State) (block : List Nat) : State :=
  let t := rounds s constants (extend 48 block.reverse).reverse
  ⟨word (s.a + t.a), word (s.b + t.b), word (s.c + t.c), word (s.d + t.d), word (s.e + t.e),
    word (s.f + t.f), word (s.g + t.g), word (s.h + t.h)⟩

/-- The bytes, four to a word. -/
def words : List Nat → List Nat
  | a :: b :: c :: d :: rest => (((a * 256 + b) * 256 + c) * 256 + d) :: words rest
  | _ => []

/-- A one bit, zeros, and the length in bits, to a multiple of 64 bytes. -/
def pad (bytes : List Nat) : List Nat :=
  let bits := 8 * bytes.length
  bytes ++ 0x80 :: List.replicate ((119 - bytes.length % 64) % 64) 0 ++
    (List.range 8).map fun i => bits >>> (8 * (7 - i)) % 256

def blocks : Nat → State → List Nat → State
  | 0, s, _ => s
  | n + 1, s, ws => blocks n (compress s (ws.take 16)) (ws.drop 16)

/-- The digest of some bytes. -/
def digest (bytes : List Nat) : Nat :=
  let padded := words (pad bytes)
  let s := blocks (padded.length / 16) initial padded
  [s.a, s.b, s.c, s.d, s.e, s.f, s.g, s.h].foldl (fun n x => n * 2 ^ 32 + x) 0

example : digest [97, 98, 99] =
    0xba7816bf8f01cfea414140de5dae2223b00361a396177a9cb410ff61f20015ad := by decide +kernel

end Sha256
