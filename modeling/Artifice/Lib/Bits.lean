import Artifice.Lib.Mem

/-!
The bits of words and of memories. Bit `q` of a memory is bit `q % 8` of byte `q / 8`, so that the bits
of a little-endian word stand in the memory in their order.
-/

namespace Artifice.Lib

/-- Bit `q` of a memory. -/
def memBit (m : Mem) (q : ℕ) : Bool := (m (q / 8)).toNat.testBit (q % 8)

/-- The bit string of the first `n` bytes of a memory. -/
def bitsOf (m : Mem) (n : ℕ) : List Bool := (List.range (8 * n)).map (memBit m)

variable {m m' dst src : Mem} {w v : UInt64} {b : BitVec 64} {n q r i k o : ℕ}

/-! ### Words -/

theorem toBitVec_shl (h : r < 64) : (w <<< UInt64.ofNat r).toBitVec = w.toBitVec <<< r := by
  have hr : (UInt64.ofNat r).toBitVec.toNat = r := by
    rw [UInt64.toBitVec_ofNat', BitVec.toNat_ofNat]
    exact Nat.mod_eq_of_lt (by omega)
  rw [UInt64.toBitVec_shiftLeft, BitVec.shiftLeft_eq', BitVec.toNat_umod, hr]
  exact congrArg _ (Nat.mod_eq_of_lt h)

theorem toBitVec_shr (h : r < 64) : (w >>> UInt64.ofNat r).toBitVec = w.toBitVec >>> r := by
  have hr : (UInt64.ofNat r).toBitVec.toNat = r := by
    rw [UInt64.toBitVec_ofNat', BitVec.toNat_ofNat]
    exact Nat.mod_eq_of_lt (by omega)
  rw [UInt64.toBitVec_shiftRight, BitVec.ushiftRight_eq', BitVec.toNat_umod, hr]
  exact congrArg _ (Nat.mod_eq_of_lt h)

theorem toBitVec_rotl (h0 : 0 < r) (h : r < 64) :
    (w <<< UInt64.ofNat r ||| w >>> UInt64.ofNat (64 - r)).toBitVec = w.toBitVec.rotateLeft r := by
  rw [UInt64.toBitVec_or, toBitVec_shl h, toBitVec_shr (by omega),
    BitVec.rotateLeft_eq_rotateLeftAux_of_lt h, BitVec.rotateLeftAux]

theorem toBitVec_rotr (h0 : 0 < r) (h : r < 64) :
    (w <<< UInt64.ofNat (64 - r) ||| w >>> UInt64.ofNat r).toBitVec = w.toBitVec.rotateRight r := by
  rw [UInt64.toBitVec_or, toBitVec_shl (by omega), toBitVec_shr h,
    BitVec.rotateRight_eq_rotateRightAux_of_lt h, BitVec.rotateRightAux, BitVec.or_comm]

theorem rotateRight_rotateLeft (h : r < 64) :
    (b.rotateLeft r).rotateRight r = b := by
  apply BitVec.eq_of_getLsbD_eq
  intro i hi
  rw [BitVec.getLsbD_rotateRight_of_lt h, BitVec.getLsbD_rotateLeft_of_le h,
    BitVec.getLsbD_rotateLeft_of_le h]
  rcases Nat.lt_or_ge i (64 - r) with hlow | hhigh
  · rw [decide_eq_true hlow, cond_true, decide_eq_false (by omega), cond_false, decide_eq_true (by omega),
      Bool.true_and, Nat.add_sub_cancel_left]
  · rw [decide_eq_false (by omega), cond_false, decide_eq_true hi, Bool.true_and,
      decide_eq_true (by omega), cond_true, Nat.add_sub_cancel' hhigh]

theorem rotateLeft_rotateRight (h : r < 64) :
    (b.rotateRight r).rotateLeft r = b := by
  apply BitVec.eq_of_getLsbD_eq
  intro i hi
  rw [BitVec.getLsbD_rotateLeft_of_le h, BitVec.getLsbD_rotateRight_of_lt h,
    BitVec.getLsbD_rotateRight_of_lt h]
  rcases Nat.lt_or_ge i r with hlow | hhigh
  · rw [decide_eq_true hlow, cond_true, decide_eq_false (by omega), cond_false, decide_eq_true (by omega),
      Bool.true_and, Nat.add_sub_cancel_left]
  · rw [decide_eq_false (by omega), cond_false, decide_eq_true hi, Bool.true_and,
      decide_eq_true (by omega), cond_true, Nat.add_sub_cancel' hhigh]

theorem getLsbD_xor : (w ^^^ v).toBitVec.getLsbD k = (w.toBitVec.getLsbD k ^^ v.toBitVec.getLsbD k) := by
  rw [UInt64.toBitVec_xor, BitVec.getLsbD_xor]

theorem getLsbD_or : (w ||| v).toBitVec.getLsbD k = (w.toBitVec.getLsbD k || v.toBitVec.getLsbD k) := by
  rw [UInt64.toBitVec_or, BitVec.getLsbD_or]

theorem getLsbD_and : (w &&& v).toBitVec.getLsbD k = (w.toBitVec.getLsbD k && v.toBitVec.getLsbD k) := by
  rw [UInt64.toBitVec_and, BitVec.getLsbD_and]

theorem getLsbD_not (h : k < 64) : (~~~w).toBitVec.getLsbD k = !w.toBitVec.getLsbD k := by
  rw [UInt64.toBitVec_not, BitVec.getLsbD_not, decide_eq_true h, Bool.true_and]

/-! ### Memories -/

theorem memBit_congr (h : m (q / 8) = m' (q / 8)) : memBit m q = memBit m' q := by
  rw [memBit, memBit, h]

theorem memBit_zero : memBit (fun _ => 0) q = false := Nat.zero_testBit _

theorem bitsOf_length : (bitsOf m n).length = 8 * n := by
  rw [bitsOf, List.length_map, List.length_range]

theorem bitsOf_getElem (h : q < (bitsOf m n).length) : (bitsOf m n)[q] = memBit m q := by
  simp only [bitsOf, List.getElem_map, List.getElem_range]

theorem bitsOf_getD (h : q < 8 * n) : (bitsOf m n).getD q false = memBit m q := by
  rw [bitsOf, List.getD_eq_getElem?_getD, List.getElem?_map, List.getElem?_range h]
  rfl

theorem testBit_le (h : q < 8 * k) : (le m o k).testBit q = (m (o + q / 8)).toNat.testBit (q % 8) := by
  rw [← le_div_mod (show q / 8 < k by omega), show (256 : ℕ) = 2 ^ 8 by norm_num, ← pow_mul,
    Nat.testBit_mod_two_pow, decide_eq_true (Nat.mod_lt q (by norm_num)), Bool.true_and,
    Nat.testBit_div_two_pow, Nat.mod_add_div]

theorem getLsbD_load64 (h : k < 64) : (load64 m (8 * i)).toBitVec.getLsbD k = memBit m (64 * i + k) := by
  have hplace : (64 * i + k) / 8 = 8 * i + k / 8 := by omega
  have hbit : (64 * i + k) % 8 = k % 8 := by omega
  rw [memBit, hplace, hbit, ← testBit_le (show k < 8 * 8 from h), ← BitVec.testBit_toNat,
    UInt64.toNat_toBitVec, load64, UInt64.toNat_ofNat_of_lt' (le_lt m _ 8)]

theorem memBit_eq : memBit m q = (load64 m (8 * (q / 64))).toBitVec.getLsbD (q % 64) := by
  rw [getLsbD_load64 (Nat.mod_lt q (by norm_num)), Nat.div_add_mod]

theorem memBit_store64 : memBit (store64 m (8 * i) w) q =
    if q / 64 = i then w.toBitVec.getLsbD (q % 64) else memBit m q := by
  rw [memBit_eq]
  split_ifs with h
  · rw [h, load64_store64]
  · rw [load64_store64_out (by omega), ← memBit_eq]

end Artifice.Lib
