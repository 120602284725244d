import Artifice.Lib.Bits
import Artifice.Lib.SpeckCipher

/-!
`lib/speck.c`: the block cipher and its counter mode, which encrypts the payload of a package.

A block and the counter are two 64-bit words, a key four. The scratch buffers of the library are
taken to be allocated.
-/

namespace Artifice

open Lib

/-- `rotate`: to the left by a positive number, to the right by a negative one. -/
def rotate (x : UInt64) (rotation : ℤ) : UInt64 :=
  if rotation > 0 then
    (x >>> UInt64.ofNat (64 - rotation.toNat)) ||| (x <<< UInt64.ofNat rotation.toNat)
  else
    let rotation := (-rotation).toNat
    (x <<< UInt64.ofNat (64 - rotation)) ||| (x >>> UInt64.ofNat rotation)

/-- The loop of `add1` from word `i` on, over at most the given number of words. -/
def add1Loop (x : ℕ → UInt64) : ℕ → ℕ → ℕ → UInt64
  | 0, _ => x
  | n + 1, i =>
    if x i = 0xffffffffffffffff then add1Loop (Function.update x i 0) n (i + 1)
    else Function.update x i (x i + 1)

/-- `add1`: the number in the `length` words of `x`, plus one. -/
def add1 (x : ℕ → UInt64) (length : ℕ) : ℕ → UInt64 := add1Loop x (max 1 length) 0

/-- The first `n` rounds of `key_schedule`: the three words `l`, and the round keys. -/
def keyScheduleLoop (key : Fin 4 → UInt64) : ℕ → (Fin 3 → UInt64) × (ℕ → UInt64)
  | 0 => (fun i => key i.succ, fun _ => key 0)
  | i + 1 =>
    let (l, keys) := keyScheduleLoop key i
    let li := (keys i + rotate (l (Fin.ofNat 3 i)) (-8)) ^^^ UInt64.ofNat i
    (Function.update l (Fin.ofNat 3 i) li,
      Function.update keys (i + 1) (rotate (keys i) 3 ^^^ li))

/-- `key_schedule`, for 34 rounds. -/
def keySchedule (key : Fin 4 → UInt64) : ℕ → UInt64 := (keyScheduleLoop key 33).2

/-- `enc_round`. -/
def encRound (x : UInt64 × UInt64) (key : UInt64) : UInt64 × UInt64 :=
  let left := x.2
  let right := x.1
  (rotate right 3 ^^^ (rotate left (-8) + right) ^^^ key, (rotate left (-8) + right) ^^^ key)

/-- `speck_encrypt`. -/
def speckEncrypt (x : UInt64 × UInt64) (key : Fin 4 → UInt64) : UInt64 × UInt64 :=
  let keys := keySchedule key
  (List.range 34).foldl (fun out i => encRound out (keys i)) x

/-- `dec_round`. -/
def decRound (x : UInt64 × UInt64) (key : UInt64) : UInt64 × UInt64 :=
  let left := x.2
  let right := x.1
  (rotate (left ^^^ right) (-3), rotate ((left ^^^ key) - rotate (left ^^^ right) (-3)) 8)

/-- `speck_decrypt`, which takes the round keys in the order of `speck_encrypt`. -/
def speckDecrypt (x : UInt64 × UInt64) (key : Fin 4 → UInt64) : UInt64 × UInt64 :=
  let keys := keySchedule key
  (List.range 34).foldl (fun out i => decRound out (keys i)) x

/-- The first `n` rounds of the loop of `speck_ctr`: `local_nonce`, and the output. -/
def speckCtrLoop (inp out : Mem) (key : Fin 4 → UInt64) (nonce : ℕ → UInt64) :
    ℕ → (ℕ → UInt64) × Mem
  | 0 => (nonce, out)
  | t + 1 =>
    let (nonce, out) := speckCtrLoop inp out key nonce t
    let pad := speckEncrypt (nonce 0, nonce 1) key
    let i := 2 * t
    let out := store64 out (8 * i) (load64 inp (8 * i) ^^^ pad.1)
    let out := store64 out (8 * (i + 1)) (load64 inp (8 * (i + 1)) ^^^ pad.2)
    (add1 nonce 2, out)

/-- `speck_ctr`: the loop goes over the words two at a time. -/
def speckCtr (inp out : Mem) (ptLength : ℕ) (key : Fin 4 → UInt64) (nonce : ℕ → UInt64) : Mem :=
  (speckCtrLoop inp out key nonce ((ptLength / 8 + 1) / 2)).2

/-! ### Rotations -/

section

variable {w : UInt64} {j : ℕ}

theorem rotate_left (h0 : 0 < j) (h : j < 64) : (rotate w j).toBitVec = w.toBitVec.rotateLeft j := by
  rw [rotate, if_pos (by omega), Int.toNat_natCast, UInt64.or_comm]
  exact toBitVec_rotl h0 h

theorem rotate_right (h0 : 0 < j) (h : j < 64) :
    (rotate w (-j)).toBitVec = w.toBitVec.rotateRight j := by
  rw [rotate, if_neg (by omega)]
  dsimp only
  rw [neg_neg, Int.toNat_natCast]
  exact toBitVec_rotr h0 h

theorem rotate_three : (rotate w 3).toBitVec = w.toBitVec.rotateLeft 3 :=
  rotate_left (j := 3) (by norm_num) (by norm_num)

theorem rotate_neg_eight : (rotate w (-8)).toBitVec = w.toBitVec.rotateRight 8 :=
  rotate_right (j := 8) (by norm_num) (by norm_num)

theorem rotate_neg_three : (rotate w (-3)).toBitVec = w.toBitVec.rotateRight 3 :=
  rotate_right (j := 3) (by norm_num) (by norm_num)

theorem rotate_eight : (rotate w 8).toBitVec = w.toBitVec.rotateLeft 8 :=
  rotate_left (j := 8) (by norm_num) (by norm_num)

end

/-! ### The key stream -/

section

variable {inp inp' out out' : Mem} {key : Fin 4 → UInt64} {nonce : ℕ → UInt64} {n t i : ℕ}

/-- The counter of round `t`. -/
def counter (nonce : ℕ → UInt64) (t : ℕ) : ℕ → UInt64 := (fun x => add1 x 2)^[t] nonce

/-- Word `i` of the key stream. -/
def padWord (key : Fin 4 → UInt64) (nonce : ℕ → UInt64) (i : ℕ) : UInt64 :=
  let pad := speckEncrypt (counter nonce (i / 2) 0, counter nonce (i / 2) 1) key
  if i % 2 = 0 then pad.1 else pad.2

theorem speckCtrLoop_fst : (speckCtrLoop inp out key nonce t).1 = counter nonce t := by
  induction t with
  | zero => rfl
  | succ t ih =>
    simp only [speckCtrLoop, counter, Function.iterate_succ_apply']
    rw [ih]
    rfl

theorem load64_speckCtrLoop (i : ℕ) :
    load64 (speckCtrLoop inp out key nonce t).2 (8 * i) =
      if i < 2 * t then load64 inp (8 * i) ^^^ padWord key nonce i else load64 out (8 * i) := by
  induction t with
  | zero => simp [speckCtrLoop]
  | succ t ih =>
    simp only [speckCtrLoop, speckCtrLoop_fst]
    rcases Nat.lt_trichotomy i (2 * t + 1) with h | rfl | h
    · rw [load64_store64_out (by omega)]
      rcases Nat.lt_or_ge i (2 * t) with h' | h'
      · rw [load64_store64_out (by omega), ih, if_pos h', if_pos (by omega)]
      · obtain rfl : i = 2 * t := by omega
        have h2 : 2 * t / 2 = t := by omega
        rw [load64_store64, if_pos (by omega), padWord, h2, if_pos (by omega)]
    · have h2 : (2 * t + 1) / 2 = t := by omega
      rw [load64_store64, if_pos (by omega), padWord, h2, if_neg (by omega)]
    · rw [load64_store64_out (by omega), load64_store64_out (by omega), ih,
        if_neg (by omega), if_neg (by omega)]

/-- **`speck_ctr` adds the key stream to its input.** -/
theorem load64_speckCtr (hi : i < n / 8) :
    load64 (speckCtr inp out n key nonce) (8 * i) =
      load64 inp (8 * i) ^^^ padWord key nonce i := by
  rw [speckCtr, load64_speckCtrLoop, if_pos (by omega)]

theorem agree_speckCtr (h : ∀ i < n, load64 inp (8 * i) = load64 inp' (8 * i)) :
    Agree (speckCtr inp out (8 * n) key nonce) 0 (speckCtr inp' out' (8 * n) key nonce) 0
      (8 * n) := by
  refine agree_of_words fun i hi => ?_
  rw [Nat.zero_add, load64_speckCtr (by omega), load64_speckCtr (by omega), h i hi]

/-- **Twice `speck_ctr` under one key and nonce gives the input back.** -/
theorem speckCtr_speckCtr (h : ∀ i < n, load64 inp' (8 * i)
    = load64 (speckCtr inp out (8 * n) key nonce) (8 * i)) :
    Agree (speckCtr inp' out' (8 * n) key nonce) 0 inp 0 (8 * n) := by
  refine agree_of_words fun i hi => ?_
  rw [Nat.zero_add, load64_speckCtr (by omega), h i hi, load64_speckCtr (by omega),
    UInt64.xor_assoc, UInt64.xor_self, UInt64.xor_zero]

/-! ### The key stream does not repeat -/

theorem rotate_three_rotate (x : UInt64) : rotate (rotate x 3) (-3) = x := by
  apply UInt64.eq_of_toBitVec_eq
  rw [rotate_neg_three, rotate_three, rotateRight_rotateLeft (by norm_num)]

theorem rotate_eight_rotate (x : UInt64) : rotate (rotate x (-8)) 8 = x := by
  apply UInt64.eq_of_toBitVec_eq
  rw [rotate_eight, rotate_neg_eight, rotateLeft_rotateRight (by norm_num)]

theorem decRound_encRound (x : UInt64 × UInt64) (k : UInt64) : decRound (encRound x k) k = x := by
  obtain ⟨right, left⟩ := x
  have hrot : (rotate left (-8) + right ^^^ k) ^^^
      (rotate right 3 ^^^ (rotate left (-8) + right) ^^^ k) = rotate right 3 := by
    rw [UInt64.xor_assoc (rotate right 3), UInt64.xor_comm (rotate right 3), ← UInt64.xor_assoc,
      UInt64.xor_self, UInt64.zero_xor]
  rw [encRound, decRound]
  dsimp only
  rw [hrot, rotate_three_rotate, UInt64.xor_assoc, UInt64.xor_self, UInt64.xor_zero,
    UInt64.add_sub_cancel, rotate_eight_rotate]

theorem injective_encRound (key : UInt64) : Function.Injective fun x => encRound x key := by
  intro x y h
  have hdec : decRound (encRound x key) key = decRound (encRound y key) key :=
    congrArg (fun b => decRound b key) h
  rwa [decRound_encRound, decRound_encRound] at hdec

/-- **The cipher is a permutation of the blocks.** -/
theorem injective_speckEncrypt (key : Fin 4 → UInt64) :
    Function.Injective fun x => speckEncrypt x key := by
  have hfold : ∀ (keys : ℕ → UInt64) (l : List ℕ), Function.Injective fun x : UInt64 × UInt64 =>
      l.foldl (fun out i => encRound out (keys i)) x := by
    intro keys l
    induction l with
    | nil => exact Function.injective_id
    | cons i l ih => exact ih.comp (injective_encRound (keys i))
  exact hfold _ _

/-- The counter never stays. -/
theorem add1_ne (x : ℕ → UInt64) : add1 x 2 0 ≠ x 0 := by
  unfold add1
  rw [show max 1 2 = 0 + 1 + 1 from rfl, add1Loop]
  split_ifs with h
  · have hzero : add1Loop (Function.update x 0 0) (0 + 1) 1 0 = 0 := by
      rw [add1Loop]
      split_ifs
      · rw [add1Loop, Function.update_of_ne (by norm_num), Function.update_self]
      · rw [Function.update_of_ne (by norm_num), Function.update_self]
    rw [hzero, h]
    decide
  · rw [Function.update_self]
    intro heq
    have : (1 : UInt64) = 0 := by
      have h1 : x 0 + 1 = x 0 + 0 := by rw [heq, UInt64.add_zero]
      exact (UInt64.add_right_inj (x 0)).1 h1
    exact absurd this (by decide)

/-- **Two blocks of the key stream in a row are not both zero.** -/
theorem padWord_ne_zero (key : Fin 4 → UInt64) (nonce : ℕ → UInt64) (t : ℕ) :
    ¬ ∀ i < 4, padWord key nonce (2 * t + i) = 0 := by
  intro h
  have hblock : ∀ s, (∀ i < 2, padWord key nonce (2 * s + i) = 0) →
      speckEncrypt (counter nonce s 0, counter nonce s 1) key = (0, 0) := by
    intro s hs
    have h0 := hs 0 (by norm_num)
    have h1 := hs 1 (by norm_num)
    rw [padWord, show (2 * s + 0) / 2 = s by omega, if_pos (by omega)] at h0
    rw [padWord, show (2 * s + 1) / 2 = s by omega, if_neg (by omega)] at h1
    exact Prod.ext h0 h1
  have ht := hblock t fun i hi => h i (by omega)
  have ht1 := hblock (t + 1) fun i hi => by
    have := h (2 + i) (by omega)
    rwa [show 2 * t + (2 + i) = 2 * (t + 1) + i by omega] at this
  have heq := injective_speckEncrypt key (ht.trans ht1.symm)
  rw [Prod.mk.injEq] at heq
  refine add1_ne (counter nonce t) ?_
  rw [heq.1, counter, counter, Function.iterate_succ_apply']

end

end Artifice
