import Artifice.Lib.Bits
import Artifice.Lib.SpeckCipher
import Artifice.Codec.Speck

/-!
`speck_ctr` is SPECK128/256 in counter mode: the ring of three words gives the keys of the recurrences,
the rounds are those of the cipher, and the two words of the nonce count as one number of 128 bits.
-/

namespace Artifice

open Lib

/-- The left and the right word of a block in memory order. -/
def speckWords (x : UInt64 × UInt64) : Speck.Word × Speck.Word := (x.2.toBitVec, x.1.toBitVec)

/-- The words of a key. -/
def speckKey (key : Fin 4 → UInt64) : Fin 4 → Speck.Word := fun i => (key i).toBitVec

/-- Block `t` of a memory. -/
def memBlock (m : Mem) (t : ℕ) : BitVec 128 :=
  Speck.block (speckWords (load64 m (8 * (2 * t)), load64 m (8 * (2 * t + 1))))

/-- The number in the two words of a nonce. -/
def nonceBlock (nonce : ℕ → UInt64) : BitVec 128 := Speck.block (speckWords (nonce 0, nonce 1))

section

variable {inp out out' : Mem} {key : Fin 4 → UInt64} {nonce x : ℕ → UInt64} {w k : UInt64}
  {b : UInt64 × UInt64} {n t t' i j : ℕ}

/-! ### The cipher -/

theorem speckWords_encRound : speckWords (encRound b k) = Speck.roundWith k.toBitVec (speckWords b) := by
  simp only [speckWords, encRound, Speck.roundWith, UInt64.toBitVec_xor, UInt64.toBitVec_add,
    rotate_three, rotate_neg_eight, BitVec.xor_assoc]

theorem keyScheduleLoop_spec (i : ℕ) :
    (∀ j, i ≤ j → j < i + 3 → ((keyScheduleLoop key i).1 (Fin.ofNat 3 j)).toBitVec =
      Speck.keyL (speckKey key) j) ∧
    ∀ j ≤ i, ((keyScheduleLoop key i).2 j).toBitVec = Speck.keyK (speckKey key) j := by
  induction i with
  | zero =>
    constructor
    · intro j _ hj
      interval_cases j <;> rfl
    · intro j hj
      obtain rfl : j = 0 := by omega
      rfl
  | succ i ih =>
    obtain ⟨hl, hk⟩ := ih
    have hnew : (((keyScheduleLoop key i).2 i + rotate ((keyScheduleLoop key i).1 (Fin.ofNat 3 i)) (-8)) ^^^
        UInt64.ofNat i).toBitVec = Speck.keyL (speckKey key) (i + 3) := by
      rw [UInt64.toBitVec_xor, UInt64.toBitVec_add, rotate_neg_eight, hl i (le_refl i) (by omega),
        hk i (le_refl i), Speck.keyL]
      rfl
    constructor
    · intro j hle hlt
      rw [keyScheduleLoop]
      dsimp only
      rcases Nat.lt_or_ge j (i + 3) with hold | hge
      · have hne : Fin.ofNat 3 j ≠ Fin.ofNat 3 i := by
          rw [Ne, Fin.ext_iff, Fin.val_ofNat, Fin.val_ofNat]
          omega
        rw [Function.update_of_ne hne, hl j (by omega) hold]
      · obtain rfl : j = i + 3 := by omega
        have heq : Fin.ofNat 3 (i + 3) = Fin.ofNat 3 i := by
          rw [Fin.ext_iff, Fin.val_ofNat, Fin.val_ofNat]
          omega
        rw [heq, Function.update_self, hnew]
    · intro j hj
      rw [keyScheduleLoop]
      dsimp only
      rcases Nat.lt_or_ge i j with hlast | hold
      · obtain rfl : j = i + 1 := by omega
        rw [Function.update_self, UInt64.toBitVec_xor, rotate_three, hk i (le_refl i), hnew, Speck.keyK,
          Speck.keyL]
      · rw [Function.update_of_ne (by omega), hk j hold]

theorem keySchedule_eq (hj : j < 34) : (keySchedule key j).toBitVec = Speck.keyK (speckKey key) j :=
  (keyScheduleLoop_spec 33).2 j (by omega)

theorem speckWords_rounds (f : ℕ → ℕ) (hf : ∀ i < n, f i < 34) :
    speckWords ((List.range n).foldl (fun out i => encRound out (keySchedule key (f i))) b) =
      (List.range n).foldl (fun b i => Speck.roundWith (Speck.keyK (speckKey key) (f i)) b)
        (speckWords b) := by
  induction n with
  | zero => rfl
  | succ n ih =>
    rw [List.range_succ, List.foldl_concat, List.foldl_concat, speckWords_encRound,
      keySchedule_eq (hf n (Nat.lt_succ_self n)), ih fun i hi => hf i (by omega)]

/-- **`speck_encrypt`** is the cipher. -/
theorem speckWords_speckEncrypt :
    speckWords (speckEncrypt b key) = Speck.encryptWords (speckKey key) (speckWords b) :=
  speckWords_rounds (fun i => i) fun _ hi => hi

/-- A test vector of the cipher. -/
example : speckEncrypt (0x202e72656e6f6f70, 0x65736f6874206e49)
    ![0x0706050403020100, 0x0f0e0d0c0b0a0908, 0x1716151413121110, 0x1f1e1d1c1b1a1918] =
    (0x4eeeb48d9c188f43, 0x4109010405c0f53e) := by decide +kernel

/-! ### The counter -/

theorem add1_words : add1 x 2 0 = x 0 + 1 ∧
    add1 x 2 1 = if x 0 = 0xffffffffffffffff then x 1 + 1 else x 1 := by
  have hwrap : (0xffffffffffffffff : UInt64) + 1 = 0 := by decide
  have hone : add1Loop (Function.update x 0 0) 1 1 1 = x 1 + 1 := by
    rw [add1Loop, Function.update_of_ne (by norm_num)]
    split_ifs with h1
    · rw [add1Loop, Function.update_self, h1, hwrap]
    · rw [Function.update_self]
  have hzero : add1Loop (Function.update x 0 0) 1 1 0 = 0 := by
    rw [add1Loop, Function.update_of_ne (by norm_num)]
    split_ifs
    · rw [add1Loop, Function.update_of_ne (by norm_num), Function.update_self]
    · rw [Function.update_of_ne (by norm_num), Function.update_self]
  unfold add1
  rw [show max 1 2 = 1 + 1 from rfl, add1Loop]
  split_ifs with h
  · exact ⟨by rw [hzero, h, hwrap], hone⟩
  · exact ⟨Function.update_self .., Function.update_of_ne (by norm_num) ..⟩

/-- **`add1`** adds one to the number. -/
theorem nonceBlock_add1 : nonceBlock (add1 x 2) = nonceBlock x + 1 := by
  obtain ⟨h0, h1⟩ := add1_words (x := x)
  have hlo := (x 0).toNat_lt
  have hhi := (x 1).toNat_lt
  have hone : (1 : BitVec 128).toNat = 1 := rfl
  apply BitVec.eq_of_toNat_eq
  rw [BitVec.toNat_add, hone, nonceBlock, nonceBlock, Speck.toNat_block, Speck.toNat_block, h0, h1]
  simp only [speckWords, UInt64.toNat_toBitVec]
  rw [UInt64.toNat_add, show (1 : UInt64).toNat = 1 from rfl]
  split_ifs with h
  · rw [UInt64.toNat_add, show (1 : UInt64).toNat = 1 from rfl, h]
    have hmax : (0xffffffffffffffff : UInt64).toNat = 2 ^ 64 - 1 := rfl
    rw [hmax]
    omega
  · have hne : (x 0).toNat ≠ 2 ^ 64 - 1 := fun heq => h (UInt64.toNat_inj.1 heq)
    omega

theorem nonceBlock_counter : nonceBlock (counter nonce t) = nonceBlock nonce + BitVec.ofNat 128 t := by
  induction t with
  | zero => exact (BitVec.add_zero _).symm
  | succ t ih =>
    rw [counter, Function.iterate_succ_apply', ← counter, nonceBlock_add1, ih, BitVec.ofNat_add,
      BitVec.add_assoc]
    rfl

theorem nonceBlock_counter_ne (hn : t < 2 ^ 128) (hn' : t' < 2 ^ 128) (hne : t ≠ t') :
    nonceBlock (counter nonce t) ≠ nonceBlock (counter nonce t') := by
  rw [nonceBlock_counter, nonceBlock_counter]
  intro heq
  have hnat := congrArg BitVec.toNat ((BitVec.add_right_inj _).1 heq)
  rw [BitVec.toNat_ofNat, BitVec.toNat_ofNat, Nat.mod_eq_of_lt hn, Nat.mod_eq_of_lt hn'] at hnat
  exact hne hnat

/-! ### The mode -/

theorem block_padWord : Speck.block (speckWords (padWord key nonce (2 * t), padWord key nonce (2 * t + 1))) =
    Speck.encrypt (speckKey key) (nonceBlock nonce + BitVec.ofNat 128 t) := by
  have h0 : 2 * t / 2 = t := by omega
  have h1 : (2 * t + 1) / 2 = t := by omega
  rw [← nonceBlock_counter, nonceBlock, Speck.encrypt_block, ← speckWords_speckEncrypt, padWord, padWord,
    h0, h1, if_pos (by omega), if_neg (by omega)]

theorem memBlock_speckCtr (ht : t < n / 16) : memBlock (speckCtr inp out n key nonce) t =
    memBlock inp t ^^^ Speck.encrypt (speckKey key) (nonceBlock nonce + BitVec.ofNat 128 t) := by
  rw [memBlock, load64_speckCtr (by omega), load64_speckCtr (by omega), ← block_padWord, memBlock,
    Speck.block_xor]
  rfl

theorem speckCtrLoop_out (hi : 16 * t ≤ i) : (speckCtrLoop inp out key nonce t).2 i = out i := by
  induction t with
  | zero => rfl
  | succ t ih =>
    rw [speckCtrLoop]
    dsimp only
    rw [store64, store64, putLe_out (by omega), putLe_out (by omega), ih (by omega)]

/-- **`speck_ctr` is SPECK128/256 in counter mode**: block `t` of the output is that of the input and the
cipher of the nonce plus `t`, no other byte is written, twice `speck_ctr` gives the input back, and the
counters of one call are distinct. -/
theorem speckCtr_eq_mode (hblocks : n % 16 = 0) (hn : n < 2 ^ 34) :
    (∀ t < n / 16, memBlock (speckCtr inp out n key nonce) t =
      memBlock inp t ^^^ Speck.encrypt (speckKey key) (nonceBlock nonce + BitVec.ofNat 128 t)) ∧
    (∀ i ≥ n, speckCtr inp out n key nonce i = out i) ∧
    Agree (speckCtr (speckCtr inp out n key nonce) out' n key nonce) 0 inp 0 n ∧
    ∀ t < n / 16, ∀ t' < n / 16, t ≠ t' →
      nonceBlock (speckCtrLoop inp out key nonce t).1 ≠
        nonceBlock (speckCtrLoop inp out key nonce t').1 := by
  obtain ⟨m, rfl⟩ : ∃ m, n = 8 * m := ⟨n / 8, by omega⟩
  refine ⟨fun t ht => memBlock_speckCtr ht, fun i hi => speckCtrLoop_out (by omega), ?_, ?_⟩
  · exact speckCtr_speckCtr fun _ _ => rfl
  · intro t ht t' ht' hne
    rw [speckCtrLoop_fst, speckCtrLoop_fst]
    exact nonceBlock_counter_ne (by omega) (by omega) hne

end

/-- A nonce with a full low word, whose second block has a carry. -/
def carryNonce : ℕ → UInt64 := fun i => if i = 0 then 0xffffffffffffffff else 7

/-- Two blocks. -/
theorem speckCtr_eq_mode_carry :
    (∀ t < 32 / 16, memBlock (speckCtr (fun _ => 0) (fun _ => 0) 32 (fun _ => 0) carryNonce) t =
      memBlock (fun _ => 0) t ^^^
        Speck.encrypt (speckKey fun _ => 0) (nonceBlock carryNonce + BitVec.ofNat 128 t)) ∧
    (∀ i ≥ 32, speckCtr (fun _ => 0) (fun _ => 0) 32 (fun _ => 0) carryNonce i = 0) ∧
    Agree (speckCtr (speckCtr (fun _ => 0) (fun _ => 0) 32 (fun _ => 0) carryNonce) (fun _ => 0) 32
      (fun _ => 0) carryNonce) 0 (fun _ => 0) 0 32 ∧
    ∀ t < 32 / 16, ∀ t' < 32 / 16, t ≠ t' →
      nonceBlock (speckCtrLoop (fun _ => 0) (fun _ => 0) (fun _ => 0) carryNonce t).1 ≠
        nonceBlock (speckCtrLoop (fun _ => 0) (fun _ => 0) (fun _ => 0) carryNonce t').1 :=
  speckCtr_eq_mode (by norm_num) (by norm_num)

end Artifice
