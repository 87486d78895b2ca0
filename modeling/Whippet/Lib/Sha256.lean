import Whippet.Lib.LittleEndian

/-! SHA-256 on lists of bytes. Words are natural numbers below `2 ^ 32`, and the operations on them are
named directly so that closed terms evaluate without unfolding their instances. -/
namespace Whippet.Lib

def beBytes : ℕ → ℕ → Bytes
  | 0, _ => []
  | w + 1, n => beBytes w (n / 256) ++ [UInt8.ofNat n]

def beNat (b : Bytes) : ℕ := b.foldl (fun n x => Nat.add (Nat.mul 256 n) x.toNat) 0

theorem beBytes_length (w n : ℕ) : (beBytes w n).length = w := by
  induction w generalizing n with
  | zero => rfl
  | succ w ih => simp [beBytes, ih]

namespace Sha256

def word (n : ℕ) : ℕ := Nat.mod n 0x100000000

def rotr (n x : ℕ) : ℕ := Nat.lor (Nat.shiftRight x n) (word (Nat.shiftLeft x (Nat.sub 32 n)))

def xor3 (x y z : ℕ) : ℕ := Nat.xor (Nat.xor x y) z

def ch (x y z : ℕ) : ℕ := Nat.xor (Nat.land x y) (Nat.land (Nat.sub 0xffffffff x) z)

def maj (x y z : ℕ) : ℕ := xor3 (Nat.land x y) (Nat.land x z) (Nat.land y z)

def bigSigma0 (x : ℕ) : ℕ := xor3 (rotr 2 x) (rotr 13 x) (rotr 22 x)

def bigSigma1 (x : ℕ) : ℕ := xor3 (rotr 6 x) (rotr 11 x) (rotr 25 x)

def smallSigma0 (x : ℕ) : ℕ := xor3 (rotr 7 x) (rotr 18 x) (Nat.shiftRight x 3)

def smallSigma1 (x : ℕ) : ℕ := xor3 (rotr 17 x) (rotr 19 x) (Nat.shiftRight x 10)

def roundConstants : List ℕ :=
  [0x428a2f98, 0x71374491, 0xb5c0fbcf, 0xe9b5dba5, 0x3956c25b, 0x59f111f1, 0x923f82a4, 0xab1c5ed5,
    0xd807aa98, 0x12835b01, 0x243185be, 0x550c7dc3, 0x72be5d74, 0x80deb1fe, 0x9bdc06a7, 0xc19bf174,
    0xe49b69c1, 0xefbe4786, 0x0fc19dc6, 0x240ca1cc, 0x2de92c6f, 0x4a7484aa, 0x5cb0a9dc, 0x76f988da,
    0x983e5152, 0xa831c66d, 0xb00327c8, 0xbf597fc7, 0xc6e00bf3, 0xd5a79147, 0x06ca6351, 0x14292967,
    0x27b70a85, 0x2e1b2138, 0x4d2c6dfc, 0x53380d13, 0x650a7354, 0x766a0abb, 0x81c2c92e, 0x92722c85,
    0xa2bfe8a1, 0xa81a664b, 0xc24b8b70, 0xc76c51a3, 0xd192e819, 0xd6990624, 0xf40e3585, 0x106aa070,
    0x19a4c116, 0x1e376c08, 0x2748774c, 0x34b0bcb5, 0x391c0cb3, 0x4ed8aa4a, 0x5b9cca4f, 0x682e6ff3,
    0x748f82ee, 0x78a5636f, 0x84c87814, 0x8cc70208, 0x90befffa, 0xa4506ceb, 0xbef9a3f7, 0xc67178f2]

structure State where
  a : ℕ
  b : ℕ
  c : ℕ
  d : ℕ
  e : ℕ
  f : ℕ
  g : ℕ
  h : ℕ
  deriving DecidableEq, Repr

def initial : State :=
  ⟨0x6a09e667, 0xbb67ae85, 0x3c6ef372, 0xa54ff53a, 0x510e527f, 0x9b05688c, 0x1f83d9ab, 0x5be0cd19⟩

structure Window where
  (w0 w1 w2 w3 w4 w5 w6 w7 w8 w9 w10 w11 w12 w13 w14 w15 : ℕ)

def Window.next (w : Window) : Window :=
  ⟨w.w1, w.w2, w.w3, w.w4, w.w5, w.w6, w.w7, w.w8, w.w9, w.w10, w.w11, w.w12, w.w13, w.w14, w.w15,
    word (Nat.add (Nat.add (smallSigma1 w.w14) w.w9) (Nat.add (smallSigma0 w.w1) w.w0))⟩

def round (s : State) (k w : ℕ) : State :=
  let t1 := Nat.add s.h (Nat.add (bigSigma1 s.e) (Nat.add (ch s.e s.f s.g) (Nat.add k w)))
  let t2 := Nat.add (bigSigma0 s.a) (maj s.a s.b s.c)
  ⟨word (Nat.add t1 t2), s.a, s.b, s.c, word (Nat.add s.d t1), s.e, s.f, s.g⟩

def rounds : State → Window → List ℕ → State
  | s, _, [] => s
  | s, w, k :: ks => rounds (round s k w.w0) w.next ks

def compress (s : State) (w : Window) : State :=
  let t := rounds s w roundConstants
  ⟨word (Nat.add s.a t.a), word (Nat.add s.b t.b), word (Nat.add s.c t.c), word (Nat.add s.d t.d),
    word (Nat.add s.e t.e), word (Nat.add s.f t.f), word (Nat.add s.g t.g), word (Nat.add s.h t.h)⟩

def pad (m : Bytes) : Bytes :=
  m ++ 0x80 :: List.replicate ((119 - m.length % 64) % 64) 0 ++ beBytes 8 (8 * m.length)

def words : Bytes → List ℕ
  | a :: b :: c :: d :: rest =>
    Nat.add (Nat.mul 0x1000000 a.toNat) (Nat.add (Nat.mul 0x10000 b.toNat)
      (Nat.add (Nat.mul 0x100 c.toNat) d.toNat)) :: words rest
  | _ => []

def blocks : List ℕ → State → State
  | w0 :: w1 :: w2 :: w3 :: w4 :: w5 :: w6 :: w7 :: w8 :: w9 :: w10 :: w11 :: w12 :: w13 :: w14 :: w15 :: rest, s =>
    blocks rest (compress s ⟨w0, w1, w2, w3, w4, w5, w6, w7, w8, w9, w10, w11, w12, w13, w14, w15⟩)
  | _, s => s

def output (s : State) : Bytes :=
  beBytes 4 s.a ++ beBytes 4 s.b ++ beBytes 4 s.c ++ beBytes 4 s.d ++ beBytes 4 s.e ++ beBytes 4 s.f ++
    beBytes 4 s.g ++ beBytes 4 s.h

def hash (m : Bytes) : Bytes := output (blocks (words (pad m)) initial)

theorem hash_length (m : Bytes) : (hash m).length = 32 := by
  simp [hash, output, beBytes_length]

example : hash [0x61, 0x62, 0x63] =
    [0xba, 0x78, 0x16, 0xbf, 0x8f, 0x01, 0xcf, 0xea, 0x41, 0x41, 0x40, 0xde, 0x5d, 0xae, 0x22, 0x23,
      0xb0, 0x03, 0x61, 0xa3, 0x96, 0x17, 0x7a, 0x9c, 0xb4, 0x10, 0xff, 0x61, 0xf2, 0x00, 0x15, 0xad] := by
  decide +kernel

end Sha256
end Whippet.Lib
