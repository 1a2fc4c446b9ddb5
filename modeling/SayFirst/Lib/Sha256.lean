import SayFirst.Lib.JsonText

/-!
# SHA-256 (`hashlib.sha256`)

Words are naturals below `2 ^ 32`, so the kernel evaluates a digest.
-/

namespace SayFirst.Py.Sha256

/-- The first 32 bits of the cube roots of the first 64 primes. -/
def roundConstants : List ℕ :=
  [0x428a2f98, 0x71374491, 0xb5c0fbcf, 0xe9b5dba5, 0x3956c25b, 0x59f111f1, 0x923f82a4, 0xab1c5ed5,
    0xd807aa98, 0x12835b01, 0x243185be, 0x550c7dc3, 0x72be5d74, 0x80deb1fe, 0x9bdc06a7, 0xc19bf174,
    0xe49b69c1, 0xefbe4786, 0x0fc19dc6, 0x240ca1cc, 0x2de92c6f, 0x4a7484aa, 0x5cb0a9dc, 0x76f988da,
    0x983e5152, 0xa831c66d, 0xb00327c8, 0xbf597fc7, 0xc6e00bf3, 0xd5a79147, 0x06ca6351, 0x14292967,
    0x27b70a85, 0x2e1b2138, 0x4d2c6dfc, 0x53380d13, 0x650a7354, 0x766a0abb, 0x81c2c92e, 0x92722c85,
    0xa2bfe8a1, 0xa81a664b, 0xc24b8b70, 0xc76c51a3, 0xd192e819, 0xd6990624, 0xf40e3585, 0x106aa070,
    0x19a4c116, 0x1e376c08, 0x2748774c, 0x34b0bcb5, 0x391c0cb3, 0x4ed8aa4a, 0x5b9cca4f, 0x682e6ff3,
    0x748f82ee, 0x78a5636f, 0x84c87814, 0x8cc70208, 0x90befffa, 0xa4506ceb, 0xbef9a3f7, 0xc67178f2]

/-- The first 32 bits of the square roots of the first 8 primes. -/
def initialHash : List ℕ :=
  [0x6a09e667, 0xbb67ae85, 0x3c6ef372, 0xa54ff53a, 0x510e527f, 0x9b05688c, 0x1f83d9ab, 0x5be0cd19]

def word (x : ℕ) : ℕ := x % 0x100000000

def rotr (n x : ℕ) : ℕ := word (x >>> n ||| x <<< (32 - n))

/-- The message with a one, zeroes and its length in bits, a multiple of 64 bytes. -/
def pad (message : Bytes) : Bytes :=
  let bits := 8 * message.length
  message ++ ((0x80 : UInt8) :: List.replicate ((119 - message.length % 64) % 64) 0) ++
    ((List.range 8).map fun k => UInt8.ofNat (bits >>> (8 * (7 - k))))

/-- Big-endian words of four bytes. -/
def wordsOf : Bytes → List ℕ
  | a :: b :: c :: d :: rest =>
    (a.toNat * 0x1000000 + b.toNat * 0x10000 + c.toNat * 0x100 + d.toNat) :: wordsOf rest
  | _ => []

/-- One word more of the message schedule, of the last sixteen. -/
def schedule : List ℕ → List ℕ
  | w0 :: w1 :: rest =>
    let w9 := rest.getD 7 0
    let w14 := rest.getD 12 0
    let s0 := rotr 7 w1 ^^^ rotr 18 w1 ^^^ w1 >>> 3
    let s1 := rotr 17 w14 ^^^ rotr 19 w14 ^^^ w14 >>> 10
    w1 :: rest ++ [word (w0 + s0 + w9 + s1)]
  | w => w

/-- One round, with the round's constant and word. -/
def round (k w : ℕ) : List ℕ → List ℕ
  | [a, b, c, d, e, f, g, h] =>
    let s1 := rotr 6 e ^^^ rotr 11 e ^^^ rotr 25 e
    let ch := (e &&& f) ^^^ ((0xffffffff - e) &&& g)
    let t1 := h + s1 + ch + k + w
    let s0 := rotr 2 a ^^^ rotr 13 a ^^^ rotr 22 a
    let maj := (a &&& b) ^^^ (a &&& c) ^^^ (b &&& c)
    [word (t1 + s0 + maj), a, b, c, word (d + t1), e, f, g]
  | state => state

/-- The rounds over one block. -/
def rounds : List ℕ → List ℕ → List ℕ → List ℕ
  | k :: ks, w, state => rounds ks (schedule w) (round k (w.headD 0) state)
  | [], _, state => state

/-- The compression of each block in turn. -/
def compress : ℕ → List ℕ → List ℕ → List ℕ
  | 0, _, state => state
  | blocks + 1, words, state =>
    compress blocks (words.drop 16)
      (List.zipWith (fun x y => word (x + y)) state (rounds roundConstants (words.take 16) state))

/-- `'{0:08x}'.format(n)` -/
def hex8 (n : ℕ) : Str := hex4 (n / 0x10000) ++ hex4 n

/-- `hashlib.sha256(raw).hexdigest()` -/
def hexdigest (raw : Bytes) : Str :=
  let padded := pad raw
  (compress (padded.length / 64) (wordsOf padded) initialHash).flatMap hex8

example : hexdigest (ascii (lit "abc")) =
    lit "ba7816bf8f01cfea414140de5dae2223b00361a396177a9cb410ff61f20015ad" := by decide +kernel

/-! ## The digest evaluated block by block

The words of the schedule and of the state are arguments of their own, so no round takes a list
apart. -/

def unrolled : List ℕ → (w0 w1 w2 w3 w4 w5 w6 w7 w8 w9 w10 w11 w12 w13 w14 w15 : ℕ) →
    (a b c d e f g h : ℕ) → List ℕ
  | k :: ks, w0, w1, w2, w3, w4, w5, w6, w7, w8, w9, w10, w11, w12, w13, w14, w15,
      a, b, c, d, e, f, g, h =>
    let s1 := rotr 6 e ^^^ rotr 11 e ^^^ rotr 25 e
    let ch := (e &&& f) ^^^ ((0xffffffff - e) &&& g)
    let t1 := h + s1 + ch + k + w0
    let s0 := rotr 2 a ^^^ rotr 13 a ^^^ rotr 22 a
    let maj := (a &&& b) ^^^ (a &&& c) ^^^ (b &&& c)
    let w16 := word (w0 + (rotr 7 w1 ^^^ rotr 18 w1 ^^^ w1 >>> 3) + w9 +
      (rotr 17 w14 ^^^ rotr 19 w14 ^^^ w14 >>> 10))
    unrolled ks w1 w2 w3 w4 w5 w6 w7 w8 w9 w10 w11 w12 w13 w14 w15 w16
      (word (t1 + s0 + maj)) a b c (word (d + t1)) e f g
  | [], _, _, _, _, _, _, _, _, _, _, _, _, _, _, _, _, a, b, c, d, e, f, g, h =>
    [a, b, c, d, e, f, g, h]

theorem rounds_unrolled (ks : List ℕ) : ∀ w0 w1 w2 w3 w4 w5 w6 w7 w8 w9 w10 w11 w12 w13 w14 w15
    a b c d e f g h : ℕ,
    rounds ks [w0, w1, w2, w3, w4, w5, w6, w7, w8, w9, w10, w11, w12, w13, w14, w15]
        [a, b, c, d, e, f, g, h] =
      unrolled ks w0 w1 w2 w3 w4 w5 w6 w7 w8 w9 w10 w11 w12 w13 w14 w15 a b c d e f g h := by
  induction ks with
  | nil => intros; rfl
  | cons k ks ih => intros; exact ih ..

/-- `compress`, a block of sixteen words at a time. -/
def compressBlocks : ℕ → List ℕ → List ℕ → List ℕ
  | 0, _, state => state
  | blocks + 1, w0 :: w1 :: w2 :: w3 :: w4 :: w5 :: w6 :: w7 :: w8 :: w9 :: w10 :: w11 :: w12 ::
      w13 :: w14 :: w15 :: rest, [a, b, c, d, e, f, g, h] =>
    compressBlocks blocks rest
      (List.zipWith (fun x y => word (x + y)) [a, b, c, d, e, f, g, h]
        (unrolled roundConstants w0 w1 w2 w3 w4 w5 w6 w7 w8 w9 w10 w11 w12 w13 w14 w15
          a b c d e f g h))
  | blocks + 1, words, state => compress (blocks + 1) words state

theorem compress_blocks (blocks : ℕ) (words state : List ℕ) :
    compress blocks words state = compressBlocks blocks words state := by
  fun_induction compressBlocks blocks words state with
  | case1 => rfl
  | case2 blocks w0 w1 w2 w3 w4 w5 w6 w7 w8 w9 w10 w11 w12 w13 w14 w15 rest a b c d e f g h ih =>
    rw [← ih, ← rounds_unrolled, compress]
    simp only [List.drop_succ_cons, List.drop_zero, List.take_succ_cons, List.take_zero]
  | case3 => rfl

/-- `hexdigest`, a block at a time. -/
def hexdigestBlocks (raw : Bytes) : Str :=
  let padded := pad raw
  (compressBlocks (padded.length / 64) (wordsOf padded) initialHash).flatMap hex8

theorem hexdigest_blocks : hexdigest = hexdigestBlocks := by
  funext raw
  simp only [hexdigest, hexdigestBlocks, compress_blocks]

end SayFirst.Py.Sha256
