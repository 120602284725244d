import Artifice.Codec.CauchyRs

/-!
What `cauchy_rs_decode` does with its list of erasures.

The `i`-th entry of the list is paired with the `i`-th parity block: the entry of `blocks` for the
erased share gets that parity block, whichever share it is. So a list of data shares makes a
decoder over `OriginalCount` blocks none of which is named in the list, and the result does not
depend on the shares that are. A list that names a parity share writes past the array.
-/

namespace Artifice

open Lib

/-- A list of at most `RecoveryCount` erasures, which are different shares of the code word. -/
structure ErasureList (params : CauchyEncoderParams) (erasures : Mem) (numErasures : ℕ) : Prop where
  count : (numErasures : ℤ) ≤ params.recoveryCount
  distinct : ∀ i < numErasures, ∀ j < numErasures, erasures i = erasures j → i = j
  share : ∀ i < numErasures,
    ((erasures i).toNat : ℤ) < params.originalCount + params.recoveryCount

/-- The page of a share of the code word: the data blocks, then the parity blocks. -/
def sharePage (params : CauchyEncoderParams) (dataBlocks parityBlocks : ℕ → ℕ) (share : ℕ) : ℕ :=
  if (share : ℤ) < params.originalCount then dataBlocks share
  else parityBlocks (share - params.originalCount.toNat)

/-- The array `blocks` with the parity blocks in the place of the erased ones. -/
structure Replaced (params : CauchyEncoderParams) (dataBlocks parityBlocks : ℕ → ℕ)
    (erasures : Mem) (numErasures : ℕ) (blocks : ℕ → CauchyBlock) : Prop where
  erased : ∀ i < numErasures, blocks (erasures i).toNat =
    ⟨parityBlocks i, UInt8.ofNat (params.originalCount + i).toNat⟩
  kept : ∀ e, (∀ i < numErasures, (erasures i).toNat ≠ e) →
    blocks e = ⟨dataBlocks e, UInt8.ofNat e⟩

section

variable {gf : GfCtx} {uninit : Mem} {params : CauchyEncoderParams} {pages pages' : ℕ → Mem}
  {dataBlocks parityBlocks : ℕ → ℕ} {erasures : Mem} {numErasures : ℕ}
  {blocks : ℕ → CauchyBlock} {decoder : CauchyDecoder}

/-! ### The array of blocks -/

theorem exists_replaced {n : ℕ}
    (hdistinct : ∀ i < n, ∀ j < n, erasures i = erasures j → i = j)
    (hdata : ∀ i < n, ((erasures i).toNat : ℤ) < params.originalCount) :
    ∃ blocks, replaceErased params parityBlocks erasures
        (fun i => ⟨dataBlocks i, UInt8.ofNat i⟩) n = some blocks ∧
      Replaced params dataBlocks parityBlocks erasures n blocks := by
  induction n with
  | zero => exact ⟨_, rfl, fun i hi => absurd hi (Nat.not_lt_zero i), fun _ _ => rfl⟩
  | succ n ih =>
    obtain ⟨blocks, hblocks, hr⟩ := ih
      (fun i hi j hj => hdistinct i (by omega) j (by omega)) fun i hi => hdata i (by omega)
    refine ⟨Function.update blocks (erasures n).toNat
      ⟨parityBlocks n, UInt8.ofNat (params.originalCount + n).toNat⟩, ?_, ?_, ?_⟩
    · rw [replaceErased, hblocks]
      simp only [Option.bind_eq_bind, Option.bind_some]
      rw [if_pos (hdata n (by omega))]
    · intro i hi
      rcases Nat.lt_succ_iff_lt_or_eq.1 hi with hin | rfl
      · have hne : (erasures i).toNat ≠ (erasures n).toNat := by
          intro heq
          have := hdistinct i (by omega) n (by omega) (UInt8.toNat_inj.1 heq)
          omega
        rw [Function.update_of_ne hne]
        exact hr.erased i hin
      · rw [Function.update_self]
    · intro e he
      rw [Function.update_of_ne (he n (by omega)).symm]
      exact hr.kept e fun i hi => he i (by omega)

section

variable (hr : Replaced params dataBlocks parityBlocks erasures numErasures blocks)

include hr

theorem Replaced.index_erased (hk : 0 ≤ params.originalCount)
    (hcount : (numErasures : ℤ) ≤ params.recoveryCount)
    (h256 : params.originalCount + params.recoveryCount ≤ 256) {i : ℕ} (hi : i < numErasures) :
    (blocks (erasures i).toNat).index.toNat = params.originalCount.toNat + i := by
  rw [hr.erased i hi, UInt8.toNat_ofNat']
  omega

theorem Replaced.index_kept (h256 : params.originalCount ≤ 256) {e : ℕ}
    (he : (e : ℤ) < params.originalCount) (hkept : ∀ i < numErasures, (erasures i).toNat ≠ e) :
    (blocks e).index.toNat = e := by
  rw [hr.kept e hkept, UInt8.toNat_ofNat']
  omega

end

/-- The rows of original blocks, as `Initialize` marks them before it looks for the erasures. -/
def rowMarks (params : CauchyEncoderParams) (blocks : ℕ → CauchyBlock) (uninit : Mem) : Mem :=
  fun i => if i < params.originalCount.toNat ∧
      ((blocks i).index.toNat : ℤ) < params.originalCount then 1
    else fill uninit 0 params.originalCount.toNat 0 i

/-- The decoder that `Initialize` makes of the array. -/
def initialized (params : CauchyEncoderParams) (blocks : ℕ → CauchyBlock) (uninit : Mem) :
    CauchyDecoder :=
  let n := params.originalCount.toNat
  let recovery := (List.range n).filter fun i =>
    params.originalCount ≤ ((blocks i).index.toNat : ℤ)
  { recovery
    original := (List.range n).filter fun i =>
      ((blocks i).index.toNat : ℤ) < params.originalCount
    erasuresIndices := initializeErasures recovery.length 256 0 (rowMarks params blocks uninit) }

/-- The last loop of `cauchy_rs_decode`: each block is copied to the data block it stands for. -/
def copyBlocks (bytes : ℕ) (dataBlocks : ℕ → ℕ) (blocks : ℕ → CauchyBlock) (n : ℕ)
    (pages : ℕ → Mem) : ℕ → Mem :=
  (List.range n).foldl (fun pages i => Function.update pages (dataBlocks i)
    (blit (pages (dataBlocks i)) 0 (pages (blocks i).block) 0 bytes)) pages

section

variable (hr : Replaced params dataBlocks parityBlocks erasures numErasures blocks)
  (hk : 0 < params.originalCount) (hcount : (numErasures : ℤ) ≤ params.recoveryCount)
  (h256 : params.originalCount + params.recoveryCount ≤ 256)

include hr hk hcount h256

theorem Replaced.parity_iff {e : ℕ} (he : (e : ℤ) < params.originalCount) :
    params.originalCount ≤ ((blocks e).index.toNat : ℤ) ↔
      ∃ i < numErasures, (erasures i).toNat = e := by
  constructor
  · intro hle
    by_contra hno
    have := hr.index_kept (by omega) he fun i hi heq => hno ⟨i, hi, heq⟩
    omega
  · rintro ⟨i, hi, rfl⟩
    rw [hr.index_erased hk.le hcount h256 hi]
    omega

theorem Replaced.decoderInitialize_eq :
    decoderInitialize params blocks uninit = some (initialized params blocks uninit) := by
  have hrow : ∀ e < params.originalCount.toNat, (blocks e).index.toNat = e ∨
      params.originalCount ≤ ((blocks e).index.toNat : ℤ) := by
    intro e he
    by_cases h : ∃ i < numErasures, (erasures i).toNat = e
    · exact .inr ((hr.parity_iff hk hcount h256 (by omega)).2 h)
    · exact .inl (hr.index_kept (by omega) (by omega) fun i hi heq => h ⟨i, hi, heq⟩)
  rw [decoderInitialize, initializeBlocks_eq (by omega) hrow
    fun i hi => fill_in (by omega) (by omega)]
  rfl

end

end

/-! ### The stages of `Decode` -/

section

variable (gf : GfCtx) (bytes N : ℕ) (block : ℕ → ℕ)

/-- `gf_muladd_mem` of a page to the block of a row. -/
def muladdRow (pages : ℕ → Mem) (i : ℕ) (c : UInt8) (page : ℕ) : ℕ → Mem :=
  Function.update pages (block i) (gfMuladdMem gf (pages (block i)) 0 c (pages page) 0 bytes)

/-- The original blocks are eliminated from the rows. -/
def eliminateOriginals (c : ℕ → ℕ → UInt8) (page : ℕ → ℕ) (originals : List ℕ)
    (pages : ℕ → Mem) : ℕ → Mem :=
  originals.foldl (fun pages o => (List.range N).foldl (fun pages i =>
    muladdRow gf bytes block pages i (c i o) (page o)) pages) pages

/-- The lower left triangle is eliminated, with the matrix read from `diag_D + N` on. -/
def eliminateLower (matrix : Mem) (pages : ℕ → Mem) : ℕ → Mem :=
  ((List.range (N - 1)).foldl (fun (s : (ℕ → Mem) × ℕ) j =>
    (List.range' (j + 1) (N - (j + 1))).foldl (fun s i =>
      (muladdRow gf bytes block s.1 i (matrix s.2) (block j), s.2 + 1)) s)
    (pages, (N - 1) * N / 2 + N)).1

/-- The rows are divided by the diagonal. -/
def eliminateDiagonal (matrix : Mem) (pages : ℕ → Mem) : ℕ → Mem :=
  (List.range N).foldl (fun pages i => Function.update pages (block i)
    (gfDivMem gf (pages (block i)) 0 (pages (block i)) 0 (matrix ((N - 1) * N / 2 + i)) bytes))
    pages

/-- The upper right triangle is eliminated, with the matrix read from its start on. -/
def eliminateUpper (matrix : Mem) (pages : ℕ → Mem) : ℕ → Mem :=
  ((List.range (N - 1)).foldl (fun (s : (ℕ → Mem) × ℕ) j' =>
    (List.range (N - 1 - j')).foldl (fun s i' =>
      (muladdRow gf bytes block s.1 (N - 1 - j' - 1 - i') (matrix s.2) (block (N - 1 - j')),
        s.2 + 1)) s) (pages, 0)).1

end

theorem decode_eq (gf : GfCtx) (params : CauchyEncoderParams) (decoder : CauchyDecoder)
    (blocks : ℕ → CauchyBlock) (pages : ℕ → Mem) (uninit : Mem) :
    decode gf params decoder blocks pages uninit =
      let N := decoder.recovery.length
      let x0 := UInt8.ofNat params.originalCount.toNat
      let bytes := params.blockBytes.toNat
      let block (i : ℕ) : ℕ := (blocks (decoder.recovery.getD i 0)).block
      let x (i : ℕ) : UInt8 := (blocks (decoder.recovery.getD i 0)).index
      let matrix := generateLDUDecomposition gf N x0 x decoder.erasuresIndices uninit
      eliminateUpper gf bytes N block matrix (eliminateDiagonal gf bytes N block matrix
        (eliminateLower gf bytes N block matrix (eliminateOriginals gf bytes N block
          (fun i o => getMatrixElement gf (x i) x0 (blocks o).index)
          (fun o => (blocks o).block) decoder.original pages))) := rfl

/-! ### The pages that decoding reads -/

section

variable {gf : GfCtx} {bytes N : ℕ} {block : ℕ → ℕ} {S : Set ℕ} {pages pages' : ℕ → Mem}

end

section

variable {gf : GfCtx} {uninit : Mem} {params : CauchyEncoderParams}
  {dataBlocks parityBlocks : ℕ → ℕ} {erasures : Mem} {numErasures : ℕ}

theorem copyBlocks_succ {bytes n : ℕ} {blocks : ℕ → CauchyBlock} {pages : ℕ → Mem} :
    copyBlocks bytes dataBlocks blocks (n + 1) pages =
      let pages := copyBlocks bytes dataBlocks blocks n pages
      Function.update pages (dataBlocks n)
        (blit (pages (dataBlocks n)) 0 (pages (blocks n).block) 0 bytes) := by
  simp only [copyBlocks, List.range_succ, List.foldl_append, List.foldl_cons, List.foldl_nil]

theorem copyBlocks_out {bytes n P : ℕ} {blocks : ℕ → CauchyBlock} {pages : ℕ → Mem}
    (hP : ∀ i < n, dataBlocks i ≠ P) : copyBlocks bytes dataBlocks blocks n pages P = pages P := by
  induction n with
  | zero => rfl
  | succ n ih =>
    rw [copyBlocks_succ]
    dsimp only
    rw [Function.update_of_ne (hP n (by omega)).symm]
    exact ih fun i hi => hP i (by omega)

theorem agree_copyBlocks {bytes n j : ℕ} {blocks : ℕ → CauchyBlock} {pages : ℕ → Mem}
    (hinj : ∀ i < n, ∀ j < n, dataBlocks i = dataBlocks j → i = j)
    (hsource : ∀ j < n, (blocks j).block = dataBlocks j ∨ ∀ i < n, dataBlocks i ≠ (blocks j).block)
    (hj : j < n) :
    Agree (copyBlocks bytes dataBlocks blocks n pages (dataBlocks j)) 0 (pages (blocks j).block) 0
      bytes := by
  induction n with
  | zero => omega
  | succ n ih =>
    rw [copyBlocks_succ]
    dsimp only
    rcases Nat.lt_succ_iff_lt_or_eq.1 hj with hjn | rfl
    · have hne : dataBlocks j ≠ dataBlocks n := by
        intro heq
        have := hinj j (by omega) n (by omega) heq
        omega
      rw [Function.update_of_ne hne]
      refine ih (fun i hi l hl => hinj i (by omega) l (by omega)) (fun l hl => ?_) hjn
      exact (hsource l (by omega)).imp_right fun h i hi => h i (by omega)
    · have hout : ∀ i < j, dataBlocks i ≠ (blocks j).block := by
        intro i hi heq
        rcases hsource j (by omega) with h | h
        · have := hinj i (by omega) j (by omega) (heq.trans h)
          omega
        · exact h i (by omega) heq
      rw [Function.update_self, copyBlocks_out hout]
      exact agree_blit _ _ _ _ _

section

variable (hm : 2 ≤ params.recoveryCount)
  (h256 : params.originalCount + params.recoveryCount ≤ 256)
  (hapart : ∀ s t : ℕ, (s : ℤ) < params.originalCount + params.recoveryCount →
    (t : ℤ) < params.originalCount + params.recoveryCount →
    sharePage params dataBlocks parityBlocks s = sharePage params dataBlocks parityBlocks t → s = t)
  (hlist : ErasureList params erasures numErasures)

include hapart in
theorem dataBlocks_inj (hm : 0 ≤ params.recoveryCount) {i j : ℕ}
    (hi : i < params.originalCount.toNat) (hj : j < params.originalCount.toNat)
    (h : dataBlocks i = dataBlocks j) : i = j := by
  refine hapart i j (by omega) (by omega) ?_
  rw [sharePage, if_pos (by omega), sharePage, if_pos (by omega), h]

include hapart in
theorem parityBlocks_ne_dataBlocks (hk : 0 < params.originalCount) {i j : ℕ}
    (hi : (i : ℤ) < params.recoveryCount) (hj : j < params.originalCount.toNat) :
    parityBlocks i ≠ dataBlocks j := by
  intro h
  have := hapart (params.originalCount.toNat + i) j (by omega) (by omega) (by
    rw [sharePage, if_neg (by omega), sharePage, if_pos (by omega), Nat.add_sub_cancel_left, h])
  omega

include hapart in
theorem parityBlocks_inj (hk : 0 < params.originalCount) {i j : ℕ}
    (hi : (i : ℤ) < params.recoveryCount) (hj : (j : ℤ) < params.recoveryCount)
    (h : parityBlocks i = parityBlocks j) : i = j := by
  have := hapart (params.originalCount.toNat + i) (params.originalCount.toNat + j) (by omega)
    (by omega) (by
      rw [sharePage, if_neg (by omega), sharePage, if_neg (by omega), Nat.add_sub_cancel_left,
        Nat.add_sub_cancel_left, h])
  omega

include hapart in
theorem Replaced.block_source {blocks : ℕ → CauchyBlock}
    (hr : Replaced params dataBlocks parityBlocks erasures numErasures blocks)
    (hk : 0 < params.originalCount) (hcount : (numErasures : ℤ) ≤ params.recoveryCount) (j : ℕ) :
    (blocks j).block = dataBlocks j ∨
      ∀ i < params.originalCount.toNat, dataBlocks i ≠ (blocks j).block := by
  by_cases hj : ∃ l < numErasures, (erasures l).toNat = j
  · obtain ⟨l, hl, rfl⟩ := hj
    refine .inr fun i hi => ?_
    rw [hr.erased l hl]
    exact (parityBlocks_ne_dataBlocks hapart hk (by omega) hi).symm
  · exact .inl (by rw [hr.kept j fun l hl h => hj ⟨l, hl, h⟩])

include hm h256 hapart hlist

end

end

end Artifice
