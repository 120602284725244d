import Mathlib.Data.List.GetD
import Artifice.Codec.Keccak

/-!
`sha3_256` is SHA3-256: the padding is the one on the bits of the message, and the loops over the
blocks are the sponge. With the bounds of the buffers beside the accesses, none is outside.
-/

namespace Artifice

open Lib

/-! ### The code with its bounds -/

/-- `m[i] |= x` in an array of `n` words, or `none` behind its end. -/
def orWordIn (m : Mem) (n i : ℕ) (x : UInt64) : Option Mem :=
  if i < n then some (orWord m i x) else none

/-- `sha3Pad`, or `none` when an access is outside of `padded_message`. -/
def sha3PadIn (message : Mem) (length : ℕ) : Option (Mem × ℕ) :=
  let bitLen : ℤ := length * 8 + 2
  let padLen : ℤ := ((-bitLen).tmod 1088 + 1088).tmod 1088
  let bits := bitLen.toNat
  let last := (bitLen + padLen - 1).toNat
  let numBlocks := ((bitLen + padLen) / 64).toNat
  if length ≤ 8 * numBlocks then do
    let m := blit (fun _ => 0) 0 message 0 length
    let m ← orWordIn m numBlocks (length / 8) (0x2 <<< UInt64.ofNat (length % 8 * 8))
    let m ← orWordIn m numBlocks (bits / 64) (0x1 <<< UInt64.ofNat (bits % 64))
    let m ← orWordIn m numBlocks (last / 64) (0x1 <<< UInt64.ofNat (last % 64))
    some (m, numBlocks)
  else none

/-- `sha3Blocks`, or `none` when the copy of a block is outside of `padded_message` or `P`, or its
index is not an `int`. -/
def sha3BlocksIn (paddedMessage : Mem × ℕ) (numP : ℕ) : ℕ → Option Mem
  | 0 => some fun _ => 0
  | i + 1 => do
    let P ← sha3BlocksIn paddedMessage numP i
    if 25 * i < 2 ^ 31 ∧ 17 * i + 17 ≤ paddedMessage.2 ∧ 25 * i + 17 ≤ 25 * numP then
      some (blit P (8 * (25 * i)) paddedMessage.1 (8 * (17 * i)) (17 * 8))
    else none

/-- `sha3Absorb`, or `none` when a load is outside of `P`, or its index is not an `int`. -/
def sha3AbsorbIn (P : Mem) (numP : ℕ) : ℕ → Option (ℕ → UInt64)
  | 0 => some fun _ => 0
  | i + 1 => do
    let d ← sha3AbsorbIn P numP i
    if 25 * i + 24 < 2 ^ 31 ∧ 25 * i + 24 < 25 * numP then
      some (keccakF ((List.range 25).foldl (fun d j =>
        Function.update d j (d j ^^^ load64 P (8 * (25 * i + j)))) d))
    else none

/-- `sha3_256`: `digest` after the call, or `none` when an access is outside of its buffer. -/
def sha3_256In (message : Mem) (length : ℕ) (digest : Mem) : Option Mem := do
  let (paddedMessage, numBlocks) ← sha3PadIn message length
  let numP := numBlocks / 17
  let P ← sha3BlocksIn (paddedMessage, numBlocks) numP numP
  let d ← sha3AbsorbIn P numP numP
  some ((List.range 4).foldl (fun digest i => store64 digest (8 * i) (d i)) digest)

section

variable {message digest m P : Mem} {d : ℕ → UInt64} {w : UInt64} {sha3Bits : List Bool}
  {length numP i j k n q e r : ℕ}

/-! ### The padding -/

/-- The bits of the padding, from the 01 on. -/
def sha3PadBits (length : ℕ) : ℕ := 1088 - (8 * length + 2) % 1088

theorem sha3PadBits_eq (length : ℕ) :
    ((-((length : ℤ) * 8 + 2)).tmod 1088 + 1088).tmod 1088 = sha3PadBits length := by
  have hpos : (0 : ℤ) ≤ length * 8 + 2 := by omega
  rw [Int.neg_tmod, Int.tmod_eq_emod_of_nonneg hpos, Int.tmod_eq_emod_of_nonneg (by omega)]
  unfold sha3PadBits
  omega

theorem sha3PadBits_spec (length : ℕ) : 6 ≤ sha3PadBits length ∧ sha3PadBits length < 1088 ∧
    ∃ numP, 8 * length + 2 + sha3PadBits length = 1088 * numP := by
  unfold sha3PadBits
  refine ⟨by omega, by omega, (8 * length + 2) / 1088 + 1, by omega⟩

/-- The bits of the message with the 01, the last bit and the words of the padding, which the code
computes in an `int64_t`. -/
theorem sha3Pad_places (length : ℕ) : ((length : ℤ) * 8 + 2).toNat = 8 * length + 2 ∧
    ((length : ℤ) * 8 + 2 + sha3PadBits length - 1).toNat =
      8 * length + 2 + sha3PadBits length - 1 ∧
    (((length : ℤ) * 8 + 2 + sha3PadBits length) / 64).toNat =
      (8 * length + 2 + sha3PadBits length) / 64 := by
  omega

theorem sha3Pad_eq : sha3Pad message length =
    (orWord (orWord (orWord (blit (fun _ => 0) 0 message 0 length) (length / 8)
        (0x2 <<< UInt64.ofNat (length % 8 * 8))) ((8 * length + 2) / 64)
        (0x1 <<< UInt64.ofNat ((8 * length + 2) % 64)))
        ((8 * length + 2 + sha3PadBits length - 1) / 64)
        (0x1 <<< UInt64.ofNat ((8 * length + 2 + sha3PadBits length - 1) % 64)),
      (8 * length + 2 + sha3PadBits length) / 64) := by
  obtain ⟨hbits, hlast, hwords⟩ := sha3Pad_places length
  unfold sha3Pad
  dsimp only
  rw [sha3PadBits_eq, hlast, hbits, hwords]

theorem getLsbD_bit (h : e + r < 64) (hk : k < 64) :
    (UInt64.ofNat (2 ^ e) <<< UInt64.ofNat r).toBitVec.getLsbD k = decide (k = e + r) := by
  have hlt : 2 ^ e < 2 ^ 64 := Nat.pow_lt_pow_right (by norm_num) (by omega)
  rw [toBitVec_shl (by omega), BitVec.getLsbD_shiftLeft, decide_eq_true hk, Bool.true_and,
    ← BitVec.testBit_toNat, UInt64.toNat_toBitVec, UInt64.toNat_ofNat_of_lt' hlt, Nat.testBit_two_pow]
  rw [Bool.eq_iff_iff]
  simp only [Bool.and_eq_true, Bool.not_eq_true', decide_eq_false_iff_not, decide_eq_true_eq]
  omega

theorem memBit_orWord : memBit (orWord m i w) q =
    (memBit m q || (decide (q / 64 = i) && w.toBitVec.getLsbD (q % 64))) := by
  rw [orWord, memBit_store64]
  split_ifs with h
  · rw [getLsbD_or, decide_eq_true h, Bool.true_and, memBit_eq, h]
  · rw [decide_eq_false h, Bool.false_and, Bool.or_false]

theorem memBit_orBit (he : e + r < 64) : memBit (orWord m i (UInt64.ofNat (2 ^ e) <<< UInt64.ofNat r)) q =
    (memBit m q || decide (q = 64 * i + e + r)) := by
  rw [memBit_orWord, getLsbD_bit he (Nat.mod_lt q (by norm_num)), ← Bool.decide_and]
  congr 2
  rw [eq_iff_iff]
  omega

theorem memBit_sha3Pad : memBit (sha3Pad message length).1 q =
    ((decide (q < 8 * length) && memBit message q) || decide (q = 8 * length + 1) ||
      decide (q = 8 * length + 2) || decide (q = 8 * length + 2 + sha3PadBits length - 1)) := by
  have hcopy : memBit (blit (fun _ => 0) 0 message 0 length) q =
      (decide (q < 8 * length) && memBit message q) := by
    by_cases hq : q < 8 * length
    · rw [decide_eq_true hq, Bool.true_and]
      exact memBit_congr (blit_zero_in (by omega))
    · rw [decide_eq_false hq, Bool.false_and, ← memBit_zero (q := q)]
      exact memBit_congr (blit_out (by omega))
  have hword : 64 * (length / 8) + 1 + length % 8 * 8 = 8 * length + 1 := by omega
  have hplace : ∀ n, 64 * (n / 64) + 0 + n % 64 = n := fun n => by omega
  rw [sha3Pad_eq, show (0x2 : UInt64) = UInt64.ofNat (2 ^ 1) from rfl,
    show (0x1 : UInt64) = UInt64.ofNat (2 ^ 0) from rfl, memBit_orBit (by omega), memBit_orBit (by omega),
    memBit_orBit (by omega), hcopy, hword, hplace, hplace]

/-- What the sponge absorbs: the message, 01, and the padding. -/
def sha3Message (message : Mem) (length : ℕ) : List Bool :=
  bitsOf message length ++ [false, true] ++ Keccak.pad101 1088 (8 * length + 2)

theorem pad101_eq (length : ℕ) : Keccak.pad101 1088 (8 * length + 2) =
    [true] ++ List.replicate (sha3PadBits length - 2) false ++ [true] := by
  have hzeros : ((-((8 * length + 2 : ℕ) : ℤ) - 2) % 1088).toNat = sha3PadBits length - 2 := by
    unfold sha3PadBits
    omega
  rw [Keccak.pad101, Nat.cast_ofNat, hzeros]

theorem sha3Message_length : (sha3Message message length).length =
    8 * length + 2 + sha3PadBits length := by
  have hpad := sha3PadBits_spec length
  rw [sha3Message, pad101_eq]
  simp only [List.length_append, bitsOf_length, List.length_cons, List.length_nil, List.length_replicate]
  omega

/-- **The padding**: the bits of the padded message are the message, 01, and pad10*1. -/
theorem memBit_sha3Pad_eq (hq : q < 8 * length + 2 + sha3PadBits length) :
    memBit (sha3Pad message length).1 q = (sha3Message message length).getD q false := by
  obtain ⟨hpad, -⟩ := sha3PadBits_spec length
  rw [memBit_sha3Pad, sha3Message, pad101_eq]
  rcases Nat.lt_or_ge q (8 * length) with hin | hout
  · rw [decide_eq_true hin, decide_eq_false (by omega), decide_eq_false (by omega),
      decide_eq_false (by omega), List.append_assoc, List.getD_append _ _ _ _ (by rwa [bitsOf_length]),
      bitsOf_getD hin]
    simp
  · obtain ⟨k, rfl⟩ := Nat.exists_eq_add_of_le hout
    have hbehind : (bitsOf message length ++ [false, true] ++ ([true] ++
        List.replicate (sha3PadBits length - 2) false ++ [true])).getD (8 * length + k) false =
        ([false, true, true] ++ List.replicate (sha3PadBits length - 2) false ++ [true]).getD k false := by
      rw [List.append_assoc, List.getD_append_right _ _ _ _ (by rw [bitsOf_length]; omega),
        bitsOf_length, Nat.add_sub_cancel_left]
      rfl
    rw [hbehind, decide_eq_false (by omega), Bool.false_and, Bool.false_or]
    match k with
    | 0 => simp; omega
    | 1 => simp
    | 2 => simp
    | k + 3 =>
      rw [decide_eq_false (by omega), decide_eq_false (by omega), Bool.false_or, Bool.false_or,
        List.append_assoc, List.getD_append_right _ _ _ _ (by simp)]
      rw [show k + 3 - [false, true, true].length = k from rfl]
      rcases Nat.lt_or_ge k (sha3PadBits length - 2) with hzero | hlast
      · rw [decide_eq_false (by omega), List.getD_append _ _ _ _ (by rwa [List.length_replicate]),
          List.getD_replicate _ hzero]
      · obtain rfl : k = sha3PadBits length - 2 := by omega
        rw [decide_eq_true (by omega), List.getD_append_right _ _ _ _ (by rw [List.length_replicate]),
          List.length_replicate, Nat.sub_self]
        rfl

/-! ### The blocks -/

theorem sha3Blocks_eq (hj : j < 200) : sha3Blocks m n (200 * i + j) =
    if i < n ∧ j < 136 then m (136 * i + j) else 0 := by
  induction n with
  | zero => exact (if_neg (by omega)).symm
  | succ n ih =>
    rw [sha3Blocks]
    rcases Nat.lt_trichotomy i n with hlt | rfl | hgt
    · rw [blit_out (by omega), ih]
      exact if_congr (by omega) rfl rfl
    · rcases Nat.lt_or_ge j 136 with hin | hout
      · rw [show 200 * i + j = 8 * (25 * i) + j by omega, blit_in (by omega), if_pos ⟨by omega, hin⟩,
          show 8 * (17 * i) + j = 136 * i + j by omega]
      · rw [blit_out (by omega), ih, if_neg (by omega), if_neg (by omega)]
    · rw [blit_out (by omega), ih, if_neg (by omega), if_neg (by omega)]

theorem memBit_sha3Blocks (hi : i < n) (hq : q < 1600) : memBit (sha3Blocks m n) (1600 * i + q) =
    if q < 1088 then memBit m (1088 * i + q) else false := by
  have hbyte : (1600 * i + q) / 8 = 200 * i + q / 8 := by omega
  have hbit : (1600 * i + q) % 8 = q % 8 := by omega
  rw [memBit, hbyte, hbit, sha3Blocks_eq (by omega)]
  split_ifs with h h1088 h1088
  · rw [memBit, show (1088 * i + q) / 8 = 136 * i + q / 8 by omega,
      show (1088 * i + q) % 8 = q % 8 by omega]
  · omega
  · omega
  · exact Nat.zero_testBit _

/-! ### The sponge -/

/-- The string of the words of a state. -/
def stateString (s : ℕ → UInt64) : List Bool := Keccak.toString (lanes s)

theorem stateString_length (s : ℕ → UInt64) : (stateString s).length = 1600 := by
  rw [stateString, Keccak.toString, List.length_map, List.length_range]

theorem stateString_getElem (s : ℕ → UInt64) (hq : q < (stateString s).length) :
    (stateString s)[q] = (s (q / 64)).toBitVec.getLsbD (q % 64) := by
  rw [stateString_length] at hq
  have hword : 5 * (q / 64 / 5 % 5) + q / 64 % 5 = q / 64 := by omega
  simp only [stateString, Keccak.toString, List.getElem_map, List.getElem_range, lanes, Fin.val_ofNat,
    Nat.mod_mod]
  rw [hword]

theorem toArray_stateString (s : ℕ → UInt64) : Keccak.toArray (stateString s) = lanes s := by
  funext x y z
  have hx := x.isLt
  have hy := y.isLt
  have hz := z.isLt
  have hlt : 64 * (5 * y.val + x.val) + z.val < (stateString s).length := by
    rw [stateString_length]
    omega
  rw [Keccak.toArray, List.getD_eq_getElem _ _ hlt, stateString_getElem _ hlt, lanes,
    show (64 * (5 * y.val + x.val) + z.val) / 64 = 5 * y.val + x.val by omega,
    show (64 * (5 * y.val + x.val) + z.val) % 64 = z.val by omega]

theorem keccakF_stateString (s : ℕ → UInt64) :
    Keccak.keccakF (stateString s) = stateString (keccakF s) := by
  rw [Keccak.keccakF, toArray_stateString, ← lanes_keccakF]
  rfl

theorem foldl_xor (g : ℕ → UInt64) : (List.range n).foldl (fun d j =>
    Function.update d j (d j ^^^ g j)) d k = if k < n then d k ^^^ g k else d k := by
  induction n with
  | zero => exact (if_neg (by omega)).symm
  | succ n ih =>
    rw [List.range_succ, List.foldl_concat]
    rcases Nat.lt_trichotomy k n with hlt | rfl | hgt
    · rw [Function.update_of_ne (by omega), ih, if_pos hlt, if_pos (by omega)]
    · rw [Function.update_self, if_pos (by omega), ih, if_neg (by omega)]
    · rw [Function.update_of_ne (by omega), ih, if_neg (by omega), if_neg (by omega)]

theorem zipWith_block (hn : i < n) (hlength : sha3Bits.length = 1088 * n)
    (hbits : ∀ q < 1088 * n, memBit m q = sha3Bits.getD q false) :
    List.zipWith (· ^^ ·) (stateString d)
        ((sha3Bits.drop (1088 * i)).take 1088 ++ List.replicate (1600 - 1088) false) =
      stateString ((List.range 25).foldl (fun d j =>
        Function.update d j (d j ^^^ load64 (sha3Blocks m n) (8 * (25 * i + j)))) d) := by
  have hblock : ((sha3Bits.drop (1088 * i)).take 1088).length = 1088 := by
    rw [List.length_take, List.length_drop]
    omega
  refine List.ext_getElem ?_ fun q hq _ => ?_
  · rw [List.length_zipWith, stateString_length, stateString_length, List.length_append, hblock,
      List.length_replicate]
    rfl
  · have hq : q < 1600 := by
      rw [List.length_zipWith, stateString_length] at hq
      omega
    have hmod := Nat.mod_lt q (show 0 < 64 by norm_num)
    rw [List.getElem_zipWith, stateString_getElem, stateString_getElem, foldl_xor, if_pos (by omega),
      getLsbD_xor, getLsbD_load64 hmod, show 64 * (25 * i + q / 64) + q % 64 = 1600 * i + q by omega,
      memBit_sha3Blocks hn hq]
    congr 1
    split_ifs with h1088
    · rw [List.getElem_append_left (by omega), List.getElem_take, List.getElem_drop,
        hbits _ (by omega), List.getD_eq_getElem _ _ (by omega)]
    · rw [List.getElem_append_right (by omega), List.getElem_replicate]

/-- **The sponge** takes up the blocks. -/
theorem stateString_sha3Absorb (hlength : sha3Bits.length = 1088 * n)
    (hbits : ∀ q < 1088 * n, memBit m q = sha3Bits.getD q false) (hi : i ≤ n) :
    stateString (sha3Absorb (sha3Blocks m n) i) =
      Keccak.absorb Keccak.keccakF 1600 1088 sha3Bits i := by
  induction i with
  | zero =>
    refine List.ext_getElem ?_ fun q hq hq' => ?_
    · rw [stateString_length, Keccak.absorb, List.length_replicate]
    · have hzero : (Keccak.absorb Keccak.keccakF 1600 1088 sha3Bits 0)[q] = false :=
        List.getElem_replicate hq'
      rw [stateString_getElem, hzero]
      exact BitVec.getLsbD_zero
  | succ i ih =>
    rw [sha3Absorb, ← keccakF_stateString, Keccak.absorb, ← ih (by omega),
      zipWith_block (by omega) hlength hbits]

theorem squeeze_eq (f : List Bool → List Bool) (S : List Bool) :
    Keccak.squeeze f 1088 256 S = S.take 256 := by
  rw [Keccak.squeeze, show (256 + 1088 - 1) / 1088 = 1 from rfl, List.range_one, List.flatMap_singleton,
    Function.iterate_zero_apply, List.take_take]
  rfl

theorem memBit_digest : memBit ((List.range n).foldl (fun digest i => store64 digest (8 * i) (d i))
    digest) q = if q / 64 < n then (d (q / 64)).toBitVec.getLsbD (q % 64) else memBit digest q := by
  induction n with
  | zero => exact (if_neg (by omega)).symm
  | succ n ih =>
    rw [List.range_succ, List.foldl_concat, memBit_store64]
    rcases Nat.lt_trichotomy (q / 64) n with hlt | heq | hgt
    · rw [if_neg (by omega), ih, if_pos hlt, if_pos (by omega)]
    · rw [if_pos heq, if_pos (by omega), heq]
    · rw [if_neg (by omega), ih, if_neg (by omega), if_neg (by omega)]

theorem digest_out (hi : 8 * n ≤ i) :
    (List.range n).foldl (fun digest i => store64 digest (8 * i) (d i)) digest i = digest i := by
  induction n with
  | zero => rfl
  | succ n ih =>
    rw [List.range_succ, List.foldl_concat, store64, putLe_out (by omega), ih (by omega)]

theorem bitsOf_sha3_256 :
    bitsOf (sha3_256 message length digest) 32 = Keccak.sha3_256 (bitsOf message length) := by
  obtain ⟨-, -, numP, hnumP⟩ := sha3PadBits_spec length
  have hlength : (sha3Message message length).length = 1088 * numP := by rw [sha3Message_length, hnumP]
  have hblocks : (sha3Pad message length).2 / 17 = numP := by
    rw [sha3Pad_eq]
    show (8 * length + 2 + sha3PadBits length) / 64 / 17 = numP
    omega
  have hstate := stateString_sha3Absorb hlength (fun q hq => memBit_sha3Pad_eq (by omega))
    (le_refl numP)
  have hpad : bitsOf message length ++ [false, true] ++
      Keccak.pad101 1088 (bitsOf message length ++ [false, true]).length = sha3Message message length := by
    rw [List.length_append, bitsOf_length]
    rfl
  rw [Keccak.sha3_256, Keccak.sponge, hpad, squeeze_eq, hlength, Nat.mul_div_cancel_left _ (by norm_num), ← hstate]
  refine List.ext_getElem ?_ fun q hq hq' => ?_
  · rw [bitsOf_length, List.length_take, stateString_length]
    rfl
  · rw [bitsOf_length] at hq
    have hword : q / 64 < 4 := by omega
    rw [List.getElem_take, stateString_getElem, bitsOf_getElem, sha3_256]
    dsimp only
    rw [memBit_digest, if_pos hword, hblocks]

/-! ### The bounds -/

theorem sha3PadIn_eq : sha3PadIn message length = some (sha3Pad message length) := by
  obtain ⟨hpad, -, numP, hnumP⟩ := sha3PadBits_spec length
  obtain ⟨hbits, hlast, hwords⟩ := sha3Pad_places length
  unfold sha3PadIn orWordIn
  dsimp only
  rw [sha3PadBits_eq, hlast, hbits, hwords, if_pos (by omega), if_pos (by omega), Option.bind_eq_bind,
    Option.bind_some, if_pos (by omega), Option.bind_some, if_pos (by omega), Option.bind_some,
    sha3Pad_eq]

theorem sha3BlocksIn_eq (hwords : 17 * numP ≤ n) (hint : 25 * numP ≤ 2 ^ 31) (hi : i ≤ numP) :
    sha3BlocksIn (m, n) numP i = some (sha3Blocks m i) := by
  induction i with
  | zero => rfl
  | succ i ih =>
    rw [sha3BlocksIn, ih (by omega), Option.bind_eq_bind, Option.bind_some, if_pos (by dsimp only; omega)]
    rfl

theorem sha3AbsorbIn_eq (hint : 25 * numP ≤ 2 ^ 31) (hi : i ≤ numP) :
    sha3AbsorbIn P numP i = some (sha3Absorb P i) := by
  induction i with
  | zero => rfl
  | succ i ih =>
    rw [sha3AbsorbIn, ih (by omega), Option.bind_eq_bind, Option.bind_some, if_pos (by omega)]
    rfl

/-- **`sha3_256` is SHA3-256**: for every message, no access is outside of its buffer, the 32 bytes of
the digest are those of the sponge on its bits, and no other byte is written. -/
theorem sha3_256_eq_standard (hlength : length < 2 ^ 33) :
    ∃ out, sha3_256In message length digest = some out ∧
      bitsOf out 32 = Keccak.sha3_256 (bitsOf message length) ∧ ∀ i ≥ 32, out i = digest i := by
  obtain ⟨-, hpad, numP, hnumP⟩ := sha3PadBits_spec length
  have hwords : (sha3Pad message length).2 = 17 * numP := by
    rw [sha3Pad_eq]
    show (8 * length + 2 + sha3PadBits length) / 64 = 17 * numP
    omega
  have hblocks : (sha3Pad message length).2 / 17 = numP := by omega
  refine ⟨sha3_256 message length digest, ?_, bitsOf_sha3_256, fun i hi => ?_⟩
  · rw [sha3_256In, sha3PadIn_eq, Option.bind_eq_bind, Option.bind_some]
    dsimp only
    rw [hblocks, sha3BlocksIn_eq (by omega) (by omega) (le_refl numP), Option.bind_eq_bind,
      Option.bind_some, sha3AbsorbIn_eq (by omega) (le_refl numP), Option.bind_eq_bind,
      Option.bind_some, sha3_256]
    dsimp only
    rw [hblocks]
  · rw [sha3_256]
    exact digest_out (by omega)

end

theorem sha3_256_eq_standard_two : ∃ out, sha3_256In UInt8.ofNat 200 (fun _ => 0) = some out ∧
    bitsOf out 32 = Keccak.sha3_256 (bitsOf UInt8.ofNat 200) ∧ ∀ i ≥ 32, out i = 0 :=
  sha3_256_eq_standard (by norm_num)

end Artifice
