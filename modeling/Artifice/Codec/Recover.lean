import Mathlib.Data.List.GetD
import Artifice.Codec.Solve

/-!
`cauchy_rs_decode` recovers erased data blocks.

A parity block is a combination of the data blocks, with a row of the matrix that
`GetMatrixElement` gives. The erased rows and the parity blocks that stand in for them make a square
part of that matrix, whatever the order of the list, and `Decode` solves the system with it.
-/

namespace Artifice

open Lib ByteField

section

variable {t : FieldTables} {gf : GfCtx} {params : CauchyEncoderParams} {pages : ℕ → Mem}
  {dataBlocks parityBlocks : ℕ → ℕ}

/-! ### Parity blocks -/

theorem ofByte_getMatrixElement (hgf : gf.Valid t) (xi x0 yj : UInt8) :
    ofByte t (getMatrixElement gf xi x0 yj) =
      (ofByte t x0 + ofByte t yj) / (ofByte t xi + ofByte t yj) := by
  rw [getMatrixElement, hgf.div, ofByte_gfAdd, ofByte_gfAdd, add_comm (ofByte t yj)]

theorem ofNat_byte_inj {a b : ℕ} (ha : a < 256) (hb : b < 256)
    (h : UInt8.ofNat a = UInt8.ofNat b) : a = b := by
  rw [← UInt8.toNat_inj, UInt8.toNat_ofNat', UInt8.toNat_ofNat'] at h
  omega

theorem ofNat_add_ne_zero {a b : ℕ} (ha : a < 256) (hb : b < 256) (hab : a ≠ b) :
    ofByte t (UInt8.ofNat a) + ofByte t (UInt8.ofNat b) ≠ 0 := fun h =>
  hab (ofNat_byte_inj ha hb (ofByte_injective (ByteField.add_eq_zero_iff.1 h)))

theorem ofByte_foldl_map {bytes : ℕ} {h : ℕ → ℕ → UInt8} {block : Mem} {a n q : ℕ}
    (hq : q < bytes) :
    ofByte t ((List.range' a n).foldl (fun block j =>
      mapBytes block 0 bytes fun q b => b ^^^ h j q) block q) =
      ofByte t (block q) + ∑ i ∈ Finset.range n, ofByte t (h (a + i) q) := by
  induction n with
  | zero => rw [Finset.sum_range_zero, add_zero]; rfl
  | succ n ih =>
    rw [List.range'_1_concat, List.foldl_append, List.foldl_cons, List.foldl_nil,
      mapBytes_zero_in hq, ofByte_xor, ih, Finset.sum_range_succ, add_assoc]

/-- **A parity block is a combination of the data blocks.** With one data block this is said of the
first parity block only; the others are copies too. -/
theorem ofByte_cauchyRsEncodeBlock (hgf : gf.Valid t) {originals : ℕ → Mem} {k b q : ℕ}
    {block : Mem}
    (hparams : params.originalCount = k) (hk : 1 ≤ k) (hkb : k + b < 256) (hone : k = 1 → b = 0)
    (hq : q < params.blockBytes.toNat) :
    ofByte t (cauchyRsEncodeBlock gf params originals (params.originalCount + b) block q) =
      ∑ j ∈ Finset.range k, ofByte t (getMatrixElement gf (UInt8.ofNat (k + b)) (UInt8.ofNat k)
        (UInt8.ofNat j)) * ofByte t (originals j q) := by
  have hn : params.originalCount.toNat = k := by omega
  have hi : (params.originalCount + b).toNat = k + b := by omega
  -- the first row of the matrix is all ones
  have hfirst : ∀ j ∈ Finset.range k, ofByte t (getMatrixElement gf (UInt8.ofNat (k + 0))
      (UInt8.ofNat k) (UInt8.ofNat j)) * ofByte t (originals j q) = ofByte t (originals j q) := by
    intro j hj
    have hj := Finset.mem_range.1 hj
    rw [ofByte_getMatrixElement hgf, Nat.add_zero,
      div_self (ofNat_add_ne_zero (by omega) (by omega) (by omega)), one_mul]
  unfold cauchyRsEncodeBlock
  simp only [hn, hi]
  split_ifs with h1 h0
  · obtain rfl : k = 1 := by omega
    obtain rfl := hone rfl
    rw [Finset.sum_congr rfl hfirst, Finset.sum_range_one, blit_zero_in hq]
  · obtain rfl : b = 0 := by omega
    obtain ⟨n, rfl⟩ : ∃ n, k = n + 2 := ⟨k - 2, by omega⟩
    simp only [gfAddMem_eq, gfAddsetMem_eq, Nat.zero_add, Nat.add_sub_cancel]
    rw [ofByte_foldl_map hq, mapBytes_zero_in hq, ofByte_xor, Finset.sum_congr rfl hfirst,
      Finset.sum_range_succ', Finset.sum_range_succ', add_comm (ofByte t (originals 0 q)),
      add_comm, add_assoc]
    simp only [Nat.add_comm 2]
  · obtain ⟨n, rfl⟩ : ∃ n, k = n + 1 := ⟨k - 1, by omega⟩
    simp only [hgf.gfMuladdMem_eq, hgf.gfMulMem_eq, Nat.zero_add, Nat.add_sub_cancel]
    rw [ofByte_foldl_map hq, mapBytes_zero_in hq, Finset.sum_range_succ', add_comm, hgf.mul,
      mul_comm (ofByte t (originals 0 q))]
    congr 1
    refine Finset.sum_congr rfl fun i _ => ?_
    rw [hgf.mul, mul_comm, Nat.add_comm 1 i]

theorem ofByte_cauchyRsEncode (hgf : gf.Valid t) {k b q : ℕ} (hparams : params.originalCount = k)
    (hk : 1 ≤ k) (h256 : params.originalCount + params.recoveryCount ≤ 256)
    (hb : (b : ℤ) < params.recoveryCount) (hone : k = 1 → b = 0)
    (hparity : ∀ i : ℕ, (i : ℤ) < params.recoveryCount → parityBlocks i = parityBlocks b → i = b)
    (hdata : ∀ i : ℕ, (i : ℤ) < params.recoveryCount → ∀ j < k, parityBlocks i ≠ dataBlocks j)
    (hq : q < params.blockBytes.toNat) :
    ofByte t ((cauchyRsEncode gf params pages dataBlocks parityBlocks).2 (parityBlocks b) q) =
      ∑ j ∈ Finset.range k, ofByte t (getMatrixElement gf (UInt8.ofNat (k + b)) (UInt8.ofNat k)
        (UInt8.ofNat j)) * ofByte t (pages (dataBlocks j) q) := by
  have hloop : ∀ n, b < n → (n : ℤ) ≤ params.recoveryCount →
      ofByte t (cauchyRsEncodeLoop gf params pages dataBlocks parityBlocks n (parityBlocks b) q) =
        ∑ j ∈ Finset.range k, ofByte t (getMatrixElement gf (UInt8.ofNat (k + b)) (UInt8.ofNat k)
          (UInt8.ofNat j)) * ofByte t (pages (dataBlocks j) q) := by
    intro n hbn hn
    induction n with
    | zero => omega
    | succ n ih =>
      rw [cauchyRsEncodeLoop]
      rcases Nat.lt_succ_iff_lt_or_eq.1 hbn with hbn | rfl
      · have hne : parityBlocks b ≠ parityBlocks n := fun h => by
          have := hparity n (by omega) h.symm
          omega
        rw [Function.update_of_ne hne]
        exact ih hbn (by omega)
      · rw [Function.update_self, ofByte_cauchyRsEncodeBlock hgf hparams hk (by omega) hone hq]
        refine Finset.sum_congr rfl fun j hj => ?_
        rw [cauchyRsEncodeLoop_out fun i hi => hdata i (by omega) j (Finset.mem_range.1 hj)]
  unfold cauchyRsEncode
  rw [if_neg (by omega), if_neg (by omega)]
  exact hloop _ (by omega) (by omega)

end

/-! ### The erased rows -/

/-- The rows below `n` that are not marked. -/
def unmarked (marks : Mem) (n : ℕ) : List ℕ := (List.range n).filter fun i => marks i = 0

theorem unmarked_succ (marks : Mem) (n : ℕ) :
    unmarked marks (n + 1) = unmarked marks n ++ if marks n = 0 then [n] else [] := by
  simp only [unmarked, List.range_succ, List.filter_append, List.filter_cons, List.filter_nil,
    decide_eq_true_eq]

theorem unmarked_getD {marks : Mem} {m n s : ℕ} (hmn : m ≤ n) (hs : s < (unmarked marks m).length) :
    s < (unmarked marks n).length ∧ (unmarked marks n).getD s 0 = (unmarked marks m).getD s 0 := by
  induction n with
  | zero =>
    obtain rfl := Nat.le_zero.1 hmn
    exact ⟨hs, rfl⟩
  | succ n ih =>
    rcases Nat.le_succ_iff_eq_or_le.1 hmn with rfl | hmn
    · exact ⟨hs, rfl⟩
    · obtain ⟨hlen, hget⟩ := ih hmn
      rw [unmarked_succ, List.length_append, List.getD_append _ _ _ _ hlen]
      exact ⟨by omega, hget⟩

/-- The loop of `Initialize` over the last `n` rows collects the rows that are not marked. It writes
to places that it has passed. -/
theorem initializeErasures_spec {marks : Mem} {recoveryCount n indexCount : ℕ} {e : Mem}
    (hn : n ≤ 256) (hcount : indexCount = (unmarked marks (256 - n)).length)
    (hlt : indexCount < recoveryCount) (htotal : recoveryCount ≤ (unmarked marks 256).length)
    (hdone : ∀ s < indexCount, e s = UInt8.ofNat ((unmarked marks (256 - n)).getD s 0))
    (hrest : ∀ i, 256 - n ≤ i → e i = marks i) :
    ∀ s < recoveryCount, initializeErasures recoveryCount n indexCount e s =
      UInt8.ofNat ((unmarked marks 256).getD s 0) := by
  induction n generalizing indexCount e with
  | zero =>
    rw [Nat.sub_zero] at hcount
    omega
  | succ n ih =>
    have hnext : 256 - n = 256 - (n + 1) + 1 := by omega
    have hle : (unmarked marks (256 - (n + 1))).length ≤ 256 - (n + 1) :=
      (List.length_filter_le _ _).trans_eq (List.length_range ..)
    have hsucc := unmarked_succ marks (256 - (n + 1))
    rw [← hnext] at hsucc
    intro s hs
    rw [initializeErasures, hrest _ le_rfl]
    by_cases hmark : marks (256 - (n + 1)) = 0
    · rw [if_pos hmark] at hsucc
      rw [if_pos hmark]
      have hlen : indexCount + 1 = (unmarked marks (256 - n)).length := by
        rw [hsucc, List.length_append, hcount, List.length_singleton]
      have hwrite : ∀ s < indexCount + 1,
          Function.update e indexCount (UInt8.ofNat (256 - (n + 1))) s =
            UInt8.ofNat ((unmarked marks (256 - n)).getD s 0) := by
        intro s hs
        rw [hsucc]
        by_cases heq : s = indexCount
        · rw [heq, Function.update_self, hcount, List.getD_append_right _ _ _ _ le_rfl,
            Nat.sub_self]
          rfl
        · rw [Function.update_of_ne heq, hdone s (by omega), List.getD_append _ _ _ _ (by omega)]
      split_ifs with hend
      · rw [(unmarked_getD (m := 256 - n) (by omega) (by omega)).2, hwrite s (by omega)]
      · refine ih (by omega) hlen (by omega) hwrite ?_ s hs
        intro i hi
        rw [Function.update_of_ne (by omega), hrest i (by omega)]
    · rw [if_neg hmark, List.append_nil] at hsucc
      rw [if_neg hmark]
      refine ih (by omega) (by rw [hsucc, hcount]) hlt ?_ ?_ s hs
      · rw [hsucc]
        exact hdone
      · exact fun i hi => hrest i (by omega)

section

variable {params : CauchyEncoderParams} {dataBlocks parityBlocks : ℕ → ℕ} {erasures : Mem}
  {numErasures : ℕ} {blocks : ℕ → CauchyBlock} {uninit : Mem}

theorem initialized_recovery :
    (initialized params blocks uninit).recovery =
      unmarked (rowMarks params blocks uninit) params.originalCount.toNat := by
  refine List.filter_congr fun i hi => ?_
  have hi := List.mem_range.1 hi
  rw [rowMarks, fill_in (by omega) (by omega), decide_eq_decide]
  split_ifs with h
  · exact iff_of_false (by omega) (by decide)
  · exact iff_of_true (by omega) rfl

theorem initialized_erasuresIndices (h256 : params.originalCount ≤ 256) {s : ℕ}
    (hs : s < (initialized params blocks uninit).recovery.length) :
    (initialized params blocks uninit).erasuresIndices s =
      UInt8.ofNat ((initialized params blocks uninit).recovery.getD s 0) := by
  have hrec : (initialized params blocks uninit).recovery = _ := initialized_recovery
  have hle : params.originalCount.toNat ≤ 256 := by omega
  have hspec := @initializeErasures_spec (rowMarks params blocks uninit)
    (initialized params blocks uninit).recovery.length 256 0 _ le_rfl rfl (by omega) ?_
    (fun s hs => absurd hs (Nat.not_lt_zero s)) (fun _ _ => rfl) s hs
  · refine hspec.trans ?_
    have hget := @unmarked_getD _ params.originalCount.toNat 256 s hle (by rw [← hrec]; exact hs)
    rw [hget.2, ← hrec]
  · by_contra hgt
    have hget := @unmarked_getD _ params.originalCount.toNat 256
      ((initialized params blocks uninit).recovery.length - 1) hle (by rw [← hrec]; omega)
    exact hgt (by have := hget.1; omega)

theorem initialized_recovery_inj {s s' : ℕ}
    (hs : s < (initialized params blocks uninit).recovery.length)
    (hs' : s' < (initialized params blocks uninit).recovery.length)
    (h : (initialized params blocks uninit).recovery.getD s 0 =
      (initialized params blocks uninit).recovery.getD s' 0) : s = s' := by
  have hnodup : (initialized params blocks uninit).recovery.Nodup :=
    List.nodup_range.filter _
  rw [List.getD_eq_getElem _ _ hs, List.getD_eq_getElem _ _ hs'] at h
  exact (hnodup.getElem_inj_iff).1 h

theorem initialized_recovery_mem {s : ℕ}
    (hs : s < (initialized params blocks uninit).recovery.length) :
    (initialized params blocks uninit).recovery.getD s 0 < params.originalCount.toNat ∧
      params.originalCount ≤ ((blocks ((initialized params blocks uninit).recovery.getD s 0)
        ).index.toNat : ℤ) := by
  rw [List.getD_eq_getElem _ _ hs]
  obtain ⟨hmem, hindex⟩ := List.mem_filter.1 (List.getElem_mem hs)
  exact ⟨List.mem_range.1 hmem, of_decide_eq_true hindex⟩

end

/-! ### Sums over rows -/

theorem sum_map_filter_add {M : Type*} [AddCommMonoid M] (E : ℕ → M) {test test' : ℕ → Bool}
    (h : ∀ i, test' i = !test i) (l : List ℕ) :
    (l.map E).sum = ((l.filter test).map E).sum + ((l.filter test').map E).sum := by
  induction l with
  | nil => exact (add_zero 0).symm
  | cons a l ih =>
    rw [List.map_cons, List.sum_cons, ih, List.filter_cons, List.filter_cons, h a]
    cases test a with
    | true => simp [add_assoc]
    | false => simp [add_left_comm]

theorem sum_map_eq_sum_range {M : Type*} [AddCommMonoid M] (E : ℕ → M) (l : List ℕ) :
    (l.map E).sum = ∑ s ∈ Finset.range l.length, E (l.getD s 0) := by
  induction l with
  | nil => rfl
  | cons a l ih =>
    rw [List.map_cons, List.sum_cons, ih, List.length_cons, Finset.sum_range_succ', add_comm]
    rfl

/-! ### Recovery -/

section

variable {t : FieldTables} {gf : GfCtx} {uninit : Mem} {params : CauchyEncoderParams}
  {pages damaged : ℕ → Mem} {dataBlocks parityBlocks : ℕ → ℕ} {erasures : Mem} {numErasures : ℕ}
  {blocks : ℕ → CauchyBlock}

/-- The blocks of the code word after the loss: what is in the list is arbitrary. -/
structure DataLoss (gf : GfCtx) (params : CauchyEncoderParams) (pages damaged : ℕ → Mem)
    (dataBlocks parityBlocks : ℕ → ℕ) (erasures : Mem) (numErasures : ℕ) : Prop where
  kept : ∀ p, (∀ i < numErasures, dataBlocks (erasures i).toNat ≠ p) →
    damaged p = (cauchyRsEncode gf params pages dataBlocks parityBlocks).2 p

section

variable (hgf : gf.Valid t) (hk : 0 < params.originalCount) (hm : 1 ≤ params.recoveryCount)
  (h256 : params.originalCount + params.recoveryCount ≤ 256)
  (hapart : ∀ s t : ℕ, (s : ℤ) < params.originalCount + params.recoveryCount →
    (t : ℤ) < params.originalCount + params.recoveryCount →
    sharePage params dataBlocks parityBlocks s = sharePage params dataBlocks parityBlocks t → s = t)
  (hlist : ErasureList params erasures numErasures)
  (hdata : ∀ i < numErasures, ((erasures i).toNat : ℤ) < params.originalCount)
  (hdamaged : DataLoss gf params pages damaged dataBlocks parityBlocks erasures numErasures)

include hk hm hapart hdata hdamaged in
theorem DataLoss.data {j : ℕ} (hj : j < params.originalCount.toNat)
    (hkept : ∀ i < numErasures, (erasures i).toNat ≠ j) :
    damaged (dataBlocks j) = pages (dataBlocks j) := by
  rw [hdamaged.kept, cauchyRsEncode_out]
  · exact fun b hb => parityBlocks_ne_dataBlocks hapart hk (by omega) hj
  · intro i hi heq
    have hlt := hdata i hi
    exact hkept i hi (dataBlocks_inj hapart (by omega) (by omega) hj heq)

include hgf hk h256 hapart hdata hdamaged in
theorem DataLoss.parity {b q : ℕ} (hb : (b : ℤ) < params.recoveryCount)
    (hone : params.originalCount.toNat = 1 → b = 0) (hq : q < params.blockBytes.toNat) :
    ofByte t (damaged (parityBlocks b) q) = ∑ j ∈ Finset.range params.originalCount.toNat,
      ofByte t (getMatrixElement gf (UInt8.ofNat (params.originalCount.toNat + b))
        (UInt8.ofNat params.originalCount.toNat) (UInt8.ofNat j)) *
        ofByte t (pages (dataBlocks j) q) := by
  rw [hdamaged.kept]
  · exact ofByte_cauchyRsEncode hgf (by omega) (by omega) h256 hb hone
      (fun i hi => parityBlocks_inj hapart hk hi hb)
      (fun i hi j hj => parityBlocks_ne_dataBlocks hapart hk hi hj) hq
  · intro i hi
    have hlt := hdata i hi
    exact (parityBlocks_ne_dataBlocks hapart hk hb (by omega)).symm

variable (hr : Replaced params dataBlocks parityBlocks erasures numErasures blocks)

include hk h256 hlist hr in
theorem Replaced.exists_row {s : ℕ} (hs : s < (initialized params blocks uninit).recovery.length) :
    ∃ i < numErasures, (erasures i).toNat = (initialized params blocks uninit).recovery.getD s 0 ∧
      blocks ((initialized params blocks uninit).recovery.getD s 0) =
        ⟨parityBlocks i, UInt8.ofNat (params.originalCount.toNat + i)⟩ := by
  obtain ⟨hlt, hparity⟩ := initialized_recovery_mem hs
  obtain ⟨i, hi, he⟩ := (hr.parity_iff hk hlist.count h256 (by omega)).1 hparity
  refine ⟨i, hi, he, ?_⟩
  rw [← he, hr.erased i hi, show (params.originalCount + i).toNat = params.originalCount.toNat + i
    by omega]

include hk h256 hlist hr in
theorem Replaced.original_kept {o : ℕ} (ho : o ∈ (initialized params blocks uninit).original) :
    o < params.originalCount.toNat ∧ ∀ l < numErasures, (erasures l).toNat ≠ o := by
  obtain ⟨hmem, hindex⟩ := List.mem_filter.1 ho
  have hlt := List.mem_range.1 hmem
  have hindex := of_decide_eq_true hindex
  refine ⟨hlt, fun l hl h => ?_⟩
  have := (hr.parity_iff hk hlist.count h256 (e := o) (by omega)).2 ⟨l, hl, h⟩
  omega

include hk hm h256 hlist hr in
theorem Replaced.nodes (t : FieldTables) (uninit : Mem) :
    CauchyNodes (initialized params blocks uninit).recovery.length
      (elems t fun i => (blocks ((initialized params blocks uninit).recovery.getD i 0)).index)
      (elems t (initialized params blocks uninit).erasuresIndices)
      (columnScale t (UInt8.ofNat params.originalCount.toNat)
        (initialized params blocks uninit).erasuresIndices) := by
  have hcount := hlist.count
  have hcol : ∀ s < (initialized params blocks uninit).recovery.length,
      (initialized params blocks uninit).erasuresIndices s =
        UInt8.ofNat ((initialized params blocks uninit).recovery.getD s 0) :=
    fun s hs => initialized_erasuresIndices (by omega) hs
  refine ⟨?_, ?_, ?_, ?_⟩
  · intro s hs s' hs' h
    obtain ⟨i, hi, he, hb⟩ := hr.exists_row hk h256 hlist hs
    obtain ⟨i', hi', he', hb'⟩ := hr.exists_row hk h256 hlist hs'
    rw [elems, elems, hb, hb'] at h
    have hii := ofNat_byte_inj (by omega) (by omega) (ofByte_injective h)
    refine initialized_recovery_inj hs hs' ?_
    rw [← he, ← he', show i = i' by omega]
  · intro s hs s' hs' h
    obtain ⟨hlt, -⟩ := initialized_recovery_mem hs
    obtain ⟨hlt', -⟩ := initialized_recovery_mem hs'
    rw [elems, elems, hcol s hs, hcol s' hs'] at h
    exact initialized_recovery_inj hs hs' (ofNat_byte_inj (by omega) (by omega) (ofByte_injective h))
  · intro s hs s' hs'
    obtain ⟨i, hi, -, hb⟩ := hr.exists_row hk h256 hlist hs
    obtain ⟨hlt', -⟩ := initialized_recovery_mem hs'
    rw [elems, elems, hb, hcol s' hs']
    exact ofNat_add_ne_zero (by omega) (by omega) (by omega)
  · intro s hs
    obtain ⟨hlt, -⟩ := initialized_recovery_mem hs
    rw [columnScale, hcol s hs]
    exact ofNat_add_ne_zero (by omega) (by omega) (by omega)

include hgf hk h256 hapart hlist hdata hdamaged hr in
theorem Replaced.system {q s : ℕ} (hq : q < params.blockBytes.toNat)
    (hs : s < (initialized params blocks uninit).recovery.length) :
    ofByte t (damaged (blocks ((initialized params blocks uninit).recovery.getD s 0)).block q) +
        ((initialized params blocks uninit).original.map fun o => ofByte t (getMatrixElement gf
          (blocks ((initialized params blocks uninit).recovery.getD s 0)).index
          (UInt8.ofNat params.originalCount.toNat) (blocks o).index) *
          ofByte t (pages (dataBlocks o) q)).sum =
      ∑ j ∈ Finset.Ico 0 (initialized params blocks uninit).recovery.length,
        columnScale t (UInt8.ofNat params.originalCount.toNat)
            (initialized params blocks uninit).erasuresIndices j /
          (ofByte t (blocks ((initialized params blocks uninit).recovery.getD s 0)).index +
            ofByte t ((initialized params blocks uninit).erasuresIndices j)) *
          ofByte t (pages (dataBlocks ((initialized params blocks uninit).recovery.getD j 0)) q) := by
  have hcount := hlist.count
  obtain ⟨i, hi, he, hb⟩ := hr.exists_row hk h256 hlist hs
  have hone : params.originalCount.toNat = 1 → i = 0 := by
    intro h1
    have hlt := hdata i hi
    have hlt0 := hdata 0 (by omega)
    exact hlist.distinct i hi 0 (by omega) (UInt8.toNat_inj.1 (by omega))
  rw [hb]
  dsimp only
  rw [hdamaged.parity hgf hk h256 hapart hdata (by omega) hone hq]
  -- the terms of the sum, by row
  set E : ℕ → ByteField t := fun j => ofByte t (getMatrixElement gf
    (UInt8.ofNat (params.originalCount.toNat + i)) (UInt8.ofNat params.originalCount.toNat)
    (UInt8.ofNat j)) * ofByte t (pages (dataBlocks j) q) with hE
  have horiginal : ((initialized params blocks uninit).original.map fun o => ofByte t
      (getMatrixElement gf (UInt8.ofNat (params.originalCount.toNat + i))
        (UInt8.ofNat params.originalCount.toNat) (blocks o).index) *
      ofByte t (pages (dataBlocks o) q)) = (initialized params blocks uninit).original.map E := by
    refine List.map_congr_left fun o ho => ?_
    rw [hr.kept o (hr.original_kept hk h256 hlist ho).2, hE]
  have hsplit : ∑ j ∈ Finset.range params.originalCount.toNat, E j =
      ((initialized params blocks uninit).recovery.map E).sum +
        ((initialized params blocks uninit).original.map E).sum := by
    refine (sum_map_filter_add E (fun e => ?_) (List.range params.originalCount.toNat))
    rw [← decide_not]
    exact decide_eq_decide.2 not_le.symm
  rw [horiginal, hsplit, add_assoc, ByteField.add_self, add_zero, sum_map_eq_sum_range,
    Finset.range_eq_Ico]
  refine Finset.sum_congr rfl fun j hj => ?_
  have hj := (Finset.mem_Ico.1 hj).2
  rw [columnScale, initialized_erasuresIndices (by omega) hj, hE]
  dsimp only
  rw [ofByte_getMatrixElement hgf]

include hgf hk hm h256 hapart hlist hdata hdamaged hr in
theorem Replaced.decode_rows (hN : 1 ≤ (initialized params blocks uninit).recovery.length) :
    Rows t params.blockBytes.toNat (initialized params blocks uninit).recovery.length
      (fun s => (blocks ((initialized params blocks uninit).recovery.getD s 0)).block)
      (decode gf params (initialized params blocks uninit) blocks damaged uninit)
      fun q s => ofByte t
        (pages (dataBlocks ((initialized params blocks uninit).recovery.getD s 0)) q) := by
  have hcount := hlist.count
  refine decode_solves hgf hN ?_ ?_ (hr.nodes hk hm h256 hlist t uninit) (fun _ _ _ _ => rfl) ?_
    fun q hq s hs => hr.system hgf hk h256 hapart hlist hdata hdamaged hq hs
  · intro s hs s' hs' h
    obtain ⟨i, hi, he, hb⟩ := hr.exists_row hk h256 hlist hs
    obtain ⟨i', hi', he', hb'⟩ := hr.exists_row hk h256 hlist hs'
    rw [hb, hb'] at h
    refine initialized_recovery_inj hs hs' ?_
    rw [← he, ← he', parityBlocks_inj hapart hk (by omega) (by omega) h]
  · intro o ho s hs
    obtain ⟨hlt, hkept⟩ := hr.original_kept hk h256 hlist ho
    obtain ⟨i, hi, -, hb⟩ := hr.exists_row hk h256 hlist hs
    rw [hb, hr.kept o hkept]
    exact parityBlocks_ne_dataBlocks hapart hk (by omega) hlt
  · intro o ho q _
    obtain ⟨hlt, hkept⟩ := hr.original_kept hk h256 hlist ho
    rw [hr.kept o hkept, hdamaged.data hk hm hapart hdata hlt hkept]

include hgf hk hm h256 hapart hlist hdata hdamaged hr in
theorem Replaced.agree_decode (uninit : Mem)
    (hrec : (initialized params blocks uninit).recovery ≠ []) {j : ℕ}
    (hj : j < params.originalCount.toNat) :
    Agree (copyBlocks params.blockBytes.toNat dataBlocks blocks params.originalCount.toNat
        (decode gf params (initialized params blocks uninit) blocks damaged uninit) (dataBlocks j)) 0
      (pages (dataBlocks j)) 0 params.blockBytes.toNat := by
  have hcount := hlist.count
  refine (agree_copyBlocks (fun i hi l hl => dataBlocks_inj hapart (by omega) hi hl)
    (fun l _ => hr.block_source hapart hk hcount l) hj).trans ?_
  by_cases hj' : ∃ i < numErasures, (erasures i).toNat = j
  · -- the row that stands for an erased block
    have hmem : j ∈ (initialized params blocks uninit).recovery := List.mem_filter.2
      ⟨List.mem_range.2 hj, decide_eq_true ((hr.parity_iff hk hcount h256 (by omega)).2 hj')⟩
    obtain ⟨s, hs, hget⟩ := List.getElem_of_mem hmem
    have hrow := hr.decode_rows hgf hk hm h256 hapart hlist hdata hdamaged
      (List.length_pos_iff.2 hrec)
    intro q hq
    have hrow := hrow q hq s hs
    dsimp only at hrow
    rw [List.getD_eq_getElem _ _ hs, hget] at hrow
    rw [Nat.zero_add]
    exact ofByte_injective hrow
  · have hkeep : ∀ i < numErasures, (erasures i).toNat ≠ j := fun i hi h => hj' ⟨i, hi, h⟩
    rw [hr.kept j hkeep, decode_out, hdamaged.data hk hm hapart hdata hj hkeep]
    · exact Agree.refl _ _ _
    · intro s hs
      obtain ⟨i, hi, -, hb⟩ := hr.exists_row hk h256 hlist hs
      rw [hb]
      exact parityBlocks_ne_dataBlocks hapart hk (by omega) hj

end

end

end Artifice
