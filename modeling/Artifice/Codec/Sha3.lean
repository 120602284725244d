import Artifice.Lib.Mem

/-!
`lib/sha3.c`: the digest that hides the key of a package, and the one of the passphrase.

The state of the permutation is 25 words, a buffer of words is a byte memory. The buffers of the
library are taken to be allocated.
-/

namespace Artifice

open Lib

/-- `keccakf_rndc`. -/
def keccakfRndc : List UInt64 :=
  [0x0000000000000001, 0x0000000000008082, 0x800000000000808a,
    0x8000000080008000, 0x000000000000808b, 0x0000000080000001,
    0x8000000080008081, 0x8000000000008009, 0x000000000000008a,
    0x0000000000000088, 0x0000000080008009, 0x000000008000000a,
    0x000000008000808b, 0x800000000000008b, 0x8000000000008089,
    0x8000000000008003, 0x8000000000008002, 0x8000000000000080,
    0x000000000000800a, 0x800000008000000a, 0x8000000080008081,
    0x8000000000008080, 0x0000000080000001, 0x8000000080008008]

/-- `keccakf_piln`. -/
def keccakfPiln : List ℕ :=
  [10, 7, 11, 17, 18, 3, 5, 16, 8, 21, 24, 4, 15, 23, 19, 13, 12, 2, 20, 14, 22, 9, 6, 1]

/-- `keccakf_rotc`. -/
def keccakfRotc : List ℕ :=
  [1, 3, 6, 10, 15, 21, 28, 36, 45, 55, 2, 14, 27, 41, 56, 8, 25, 43, 62, 18, 39, 61, 20, 44]

/-- `SHA3_ROTL64`. -/
def sha3Rotl64 (x : UInt64) (y : ℕ) : UInt64 :=
  (x <<< UInt64.ofNat y) ||| (x >>> UInt64.ofNat (64 - y))

/-- The theta step of a round. -/
def theta (s : ℕ → UInt64) : ℕ → UInt64 :=
  let bc : ℕ → UInt64 := fun i => s i ^^^ s (i + 5) ^^^ s (i + 10) ^^^ s (i + 15) ^^^ s (i + 20)
  (List.range 5).foldl (fun s i =>
    let t := bc ((i + 4) % 5) ^^^ sha3Rotl64 (bc ((i + 1) % 5)) 1
    (List.range 5).foldl (fun s j => Function.update s (5 * j + i) (s (5 * j + i) ^^^ t)) s) s

/-- The rho and pi steps of a round. -/
def rhoPi (s : ℕ → UInt64) : ℕ → UInt64 :=
  ((List.range 24).foldl (fun (r : UInt64 × (ℕ → UInt64)) i =>
    let j := keccakfPiln.getD i 0
    (r.2 j, Function.update r.2 j (sha3Rotl64 r.1 (keccakfRotc.getD i 0)))) (s 1, s)).2

/-- The chi step of a round. -/
def chi (s : ℕ → UInt64) : ℕ → UInt64 :=
  (List.range 5).foldl (fun s j =>
    let bc : ℕ → UInt64 := fun i => s (5 * j + i)
    (List.range 5).foldl (fun s i =>
      Function.update s (5 * j + i)
        (s (5 * j + i) ^^^ (~~~ bc ((i + 1) % 5) &&& bc ((i + 2) % 5)))) s) s

/-- `keccak_f`: 24 rounds, each closed by the iota step. -/
def keccakF (s : ℕ → UInt64) : ℕ → UInt64 :=
  (List.range 24).foldl (fun s round =>
    let s := chi (rhoPi (theta s))
    Function.update s 0 (s 0 ^^^ keccakfRndc.getD round 0)) s

/-- `m[i] |= x`, in an array of words. -/
def orWord (m : Mem) (i : ℕ) (x : UInt64) : Mem := store64 m (8 * i) (load64 m (8 * i) ||| x)

/-- `padded_message` of `sha3_256`, and `num_blocks`, its number of words. -/
def sha3Pad (message : Mem) (length : ℕ) : Mem × ℕ :=
  let bitLen : ℤ := length * 8 + 2
  let padLen : ℤ := ((-bitLen).tmod 1088 + 1088).tmod 1088
  let bits := bitLen.toNat
  let last := (bitLen + padLen - 1).toNat
  let m := blit (fun _ => 0) 0 message 0 length
  let m := orWord m (length / 8) (0x2 <<< UInt64.ofNat (length % 8 * 8))
  let m := orWord m (bits / 64) (0x1 <<< UInt64.ofNat (bits % 64))
  (orWord m (last / 64) (0x1 <<< UInt64.ofNat (last % 64)), ((bitLen + padLen) / 64).toNat)

/-- The array `P` of `sha3_256` after `n` blocks: each takes 17 words, in room for 25. -/
def sha3Blocks (paddedMessage : Mem) : ℕ → Mem
  | 0 => fun _ => 0
  | i + 1 => blit (sha3Blocks paddedMessage i) (8 * (25 * i)) paddedMessage (8 * (17 * i)) (17 * 8)

/-- The state `d` of `sha3_256` after `n` blocks. -/
def sha3Absorb (P : Mem) : ℕ → ℕ → UInt64
  | 0 => fun _ => 0
  | i + 1 =>
    let d := sha3Absorb P i
    keccakF ((List.range 25).foldl (fun d j =>
      Function.update d j (d j ^^^ load64 P (8 * (25 * i + j)))) d)

/-- `sha3_256`: `digest` after the call. -/
def sha3_256 (message : Mem) (length : ℕ) (digest : Mem) : Mem :=
  let (paddedMessage, numBlocks) := sha3Pad message length
  let numP := numBlocks / 17
  let d := sha3Absorb (sha3Blocks paddedMessage numP) numP
  (List.range 4).foldl (fun digest i => store64 digest (8 * i) (d i)) digest

theorem sha3_256_congr {m m' : Mem} {n : ℕ} (h : Agree m 0 m' 0 n) (digest : Mem) :
    sha3_256 m n digest = sha3_256 m' n digest := by
  have hp : sha3Pad m n = sha3Pad m' n := by
    rw [sha3Pad, blit_congr h]
    rfl
  rw [sha3_256, hp]
  rfl

end Artifice
