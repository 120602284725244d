import Artifice.Codec.GfMem

/-!
The Reed-Solomon codec of `lib/cauchy_rs.c`.

The blocks are pages, and a `uint8_t *` that points to a block is the number of its page. A
`cauchy_block *` is a position in the array `blocks` of the decoder. The arrays of the library are
taken to be allocated, and to hold `uninit` before they are written.
-/

namespace Artifice

open Lib

/-- `cauchy_encoder_params`. -/
structure CauchyEncoderParams where
  originalCount : ℤ
  recoveryCount : ℤ
  blockBytes : ℤ

/-- `GetMatrixElement`. -/
def getMatrixElement (g : GfCtx) (xi x0 yj : UInt8) : UInt8 := gfDiv g (gfAdd yj x0) (gfAdd xi yj)

/-! ### Encoding -/

/-- `cauchy_rs_encode_block`: the contents of the recovery block after the call. -/
def cauchyRsEncodeBlock (g : GfCtx) (params : CauchyEncoderParams) (originals : ℕ → Mem)
    (recoveryBlockIndex : ℤ) (recoveryBlock : Mem) : Mem :=
  let n := params.originalCount.toNat
  let bytes := params.blockBytes.toNat
  if params.originalCount = 1 then blit recoveryBlock 0 (originals 0) 0 bytes
  else if recoveryBlockIndex = params.originalCount then
    -- the first row of the matrix is all ones
    (List.range' 2 (n - 2)).foldl (fun block j => gfAddMem block 0 (originals j) 0 bytes)
      (gfAddsetMem recoveryBlock 0 (originals 0) 0 (originals 1) 0 bytes)
  else
    let x0 := UInt8.ofNat n
    let xi := UInt8.ofNat recoveryBlockIndex.toNat
    (List.range' 1 (n - 1)).foldl (fun block j =>
      gfMuladdMem g block 0 (getMatrixElement g xi x0 (UInt8.ofNat j)) (originals j) 0 bytes)
      (gfMulMem g recoveryBlock 0 (originals 0) 0 (getMatrixElement g xi x0 0) bytes)

/-- The first `n` rounds of the loop of `cauchy_rs_encode` over the recovery blocks. -/
def cauchyRsEncodeLoop (g : GfCtx) (params : CauchyEncoderParams) (pages : ℕ → Mem)
    (dataBlocks parityBlocks : ℕ → ℕ) : ℕ → ℕ → Mem
  | 0 => pages
  | block + 1 =>
    let pages := cauchyRsEncodeLoop g params pages dataBlocks parityBlocks block
    Function.update pages (parityBlocks block) (cauchyRsEncodeBlock g params
      (fun j => pages (dataBlocks j)) (params.originalCount + block) (pages (parityBlocks block)))

/-- `cauchy_rs_encode`. -/
def cauchyRsEncode (g : GfCtx) (params : CauchyEncoderParams) (pages : ℕ → Mem)
    (dataBlocks parityBlocks : ℕ → ℕ) : ℤ × (ℕ → Mem) :=
  if params.originalCount ≤ 0 ∨ params.recoveryCount ≤ 0 ∨ params.blockBytes ≤ 0 then (-1, pages)
  else if params.originalCount + params.recoveryCount > 256 then (-2, pages)
  else (0, cauchyRsEncodeLoop g params pages dataBlocks parityBlocks params.recoveryCount.toNat)

/-! ### Decoding -/

/-- `cauchy_block`. -/
structure CauchyBlock where
  block : ℕ
  index : UInt8

/-- `CauchyDecoder`, less its parameters. The counts are the lengths of the two lists. -/
structure CauchyDecoder where
  recovery : List ℕ
  original : List ℕ
  erasuresIndices : Mem

/-- The loop of `Initialize` over the input blocks. `none` stands for its `return -1`. -/
def initializeBlocks (params : CauchyEncoderParams) (blocks : ℕ → CauchyBlock)
    (decoder : CauchyDecoder) : ℕ → Option CauchyDecoder
  | 0 => some decoder
  | ii + 1 => do
    let decoder ← initializeBlocks params blocks decoder ii
    let row := (blocks ii).index.toNat
    if (row : ℤ) < params.originalCount then
      if decoder.erasuresIndices row ≠ 0 then none
      else some { decoder with
        original := decoder.original ++ [ii]
        erasuresIndices := Function.update decoder.erasuresIndices row 1 }
    else some { decoder with recovery := decoder.recovery ++ [ii] }

/-- The loop of `Initialize` that identifies the erasures, over the last `n` of the 256 rows. -/
def initializeErasures (recoveryCount : ℕ) : ℕ → ℕ → Mem → Mem
  | 0, _, erasuresIndices => erasuresIndices
  | n + 1, indexCount, erasuresIndices =>
    let ii := 256 - (n + 1)
    if erasuresIndices ii = 0 then
      let erasuresIndices := Function.update erasuresIndices indexCount (UInt8.ofNat ii)
      if indexCount + 1 ≥ recoveryCount then erasuresIndices
      else initializeErasures recoveryCount n (indexCount + 1) erasuresIndices
    else initializeErasures recoveryCount n indexCount erasuresIndices

/-- `Initialize`; `none` stands for its error. -/
def decoderInitialize (params : CauchyEncoderParams) (blocks : ℕ → CauchyBlock) (uninit : Mem) :
    Option CauchyDecoder := do
  let n := params.originalCount.toNat
  let decoder ← initializeBlocks params blocks ⟨[], [], fill uninit 0 n 0⟩ n
  some { decoder with
    erasuresIndices := initializeErasures decoder.recovery.length 256 0 decoder.erasuresIndices }

/-- The loop of `DecodeM1`: two original blocks at a time are added to `outBlock`. -/
def decodeM1Loop (bytes : ℕ) : List Mem → Mem → Mem
  | inBlock :: inBlock2 :: rest, outBlock =>
    decodeM1Loop bytes rest (gfAdd2Mem outBlock 0 inBlock 0 inBlock2 0 bytes)
  | [inBlock], outBlock => gfAddMem outBlock 0 inBlock 0 bytes
  | [], outBlock => outBlock

/-- `DecodeM1`. The index that it sets at the end is not read again. -/
def decodeM1 (params : CauchyEncoderParams) (decoder : CauchyDecoder) (blocks : ℕ → CauchyBlock)
    (pages : ℕ → Mem) : ℕ → Mem :=
  let out := (blocks (decoder.recovery.getD 0 0)).block
  Function.update pages out (decodeM1Loop params.blockBytes.toNat
    (decoder.original.map fun i => pages (blocks i).block) (pages out))

/-- What the loop of `GenerateLDUDecomposition` carries: the matrix, the pointer into its part L,
`firstOffset_U`, and the generators. -/
structure LduState where
  matrix : Mem
  matrixL : ℕ
  firstOffsetU : ℤ
  g : ℕ → UInt8
  b : ℕ → UInt8

/-- Row `k` of L and U in `GenerateLDUDecomposition`, over the first columns behind the diagonal:
the state, and `rotated_row_U`. -/
def lduRow (gf : GfCtx) (x y : ℕ → UInt8) (k : ℕ) (s : LduState) (rotatedRowU : Mem) :
    ℕ → LduState × Mem
  | 0 => (s, rotatedRowU)
  | n + 1 =>
    let (s, rotatedRowU) := lduRow gf x y k s rotatedRowU n
    let j := k + 1 + n
    let Ljk := gfDiv gf (s.g j) (gfAdd (x j) (y k))
    let Ukj := gfDiv gf (s.b j) (gfAdd (x k) (y j))
    ({ s with
        matrix := Function.update s.matrix s.matrixL Ljk
        matrixL := s.matrixL + 1
        g := Function.update s.g j (gfMul gf (s.g j)
          (gfDiv gf (gfAdd (x j) (x k)) (gfAdd (x j) (y k))))
        b := Function.update s.b j (gfMul gf (s.b j)
          (gfDiv gf (gfAdd (y j) (y k)) (gfAdd (y j) (x k)))) },
      Function.update rotatedRowU n Ukj)

/-- The copy of the rotated row into the part U of the matrix, the first columns of it. -/
def lduCopy (rotatedRowU : Mem) (k : ℕ) (matrix : Mem) (outputU : ℤ) : ℕ → Mem × ℤ
  | 0 => (matrix, outputU)
  | n + 1 =>
    let (matrix, outputU) := lduCopy rotatedRowU k matrix outputU n
    (Function.update matrix outputU.toNat (rotatedRowU n), outputU - (k + 1 + n))

/-- The loop of `GenerateLDUDecomposition` over the first rows. The parts U, D and L of the matrix
follow each other. -/
def lduLoop (gf : GfCtx) (N : ℕ) (x0 : UInt8) (x y : ℕ → UInt8) (s : LduState) (rotatedRowU : Mem) :
    ℕ → LduState
  | 0 => s
  | k + 1 =>
    let s := lduLoop gf N x0 x y s rotatedRowU k
    let Dkk := gfAdd (x k) (y k)
    let Lkk := gfDiv gf (s.g k) Dkk
    let Ukk := gfMul gf (gfDiv gf (s.b k) Dkk) (gfAdd x0 (y k))
    let diagD := (N - 1) * N / 2
    let s := { s with
      matrix := Function.update s.matrix (diagD + k) (gfMul gf Dkk (gfMul gf Lkk Ukk)) }
    let rowL := s.matrixL
    let count := N - (k + 1)
    let (s, rowU) := lduRow gf x y k s rotatedRowU count
    let matrix := gfDivMem gf s.matrix rowL s.matrix rowL Lkk count
    let rowU := gfDivMem gf rowU 0 rowU 0 Ukk count
    let lastU : ℤ := (N - 1) * N / 2 - 1
    { s with
      matrix := (lduCopy rowU k matrix (lastU + s.firstOffsetU) count).1
      firstOffsetU := s.firstOffsetU - (k + 2) }

/-- The last loop of `GenerateLDUDecomposition`, which multiplies the diagonal into U: for `j` from
the given number down to 1. -/
def lduScaleU (gf : GfCtx) (x0 : UInt8) (y : ℕ → UInt8) : ℕ → ℕ → Mem → Mem
  | 0, _, matrix => matrix
  | j + 1, rowU, matrix =>
    lduScaleU gf x0 y j (rowU + (j + 1))
      (gfMulMem gf matrix rowU matrix rowU (gfAdd x0 (y (j + 1))) (j + 1))

/-- `GenerateLDUDecomposition`: the matrix, for the row indices `x` of the recovery blocks and the
erased rows `y`. -/
def generateLDUDecomposition (gf : GfCtx) (N : ℕ) (x0 : UInt8) (x y : ℕ → UInt8) (uninit : Mem) :
    Mem :=
  let diagD := (N - 1) * N / 2
  let s := lduLoop gf N x0 x y ⟨uninit, diagD + N, 0, fun _ => 1, fun _ => 1⟩ uninit (N - 1)
  let matrix := lduScaleU gf x0 y (N - 1) 0 s.matrix
  let Lnn := s.g (N - 1)
  let Unn := gfMul gf (s.b (N - 1)) (gfAdd x0 (y (N - 1)))
  Function.update matrix (diagD + (N - 1))
    (gfDiv gf (gfMul gf Lnn Unn) (gfAdd (x (N - 1)) (y (N - 1))))

/-- `Decode`. The steps go over the recovery blocks, whose pages are `block 0 .. block (N - 1)`; the
indices that it sets with the diagonal are not read again. -/
def decode (gf : GfCtx) (params : CauchyEncoderParams) (decoder : CauchyDecoder)
    (blocks : ℕ → CauchyBlock) (pages : ℕ → Mem) (uninit : Mem) : ℕ → Mem :=
  let N := decoder.recovery.length
  let x0 := UInt8.ofNat params.originalCount.toNat
  let bytes := params.blockBytes.toNat
  let block (i : ℕ) : ℕ := (blocks (decoder.recovery.getD i 0)).block
  let x (i : ℕ) : UInt8 := (blocks (decoder.recovery.getD i 0)).index
  let y := decoder.erasuresIndices
  let muladd (pages : ℕ → Mem) (i : ℕ) (c : UInt8) (page : ℕ) : ℕ → Mem :=
    Function.update pages (block i) (gfMuladdMem gf (pages (block i)) 0 c (pages page) 0 bytes)
  -- eliminate the original data from the recovery rows
  let pages := decoder.original.foldl (fun pages o =>
    (List.range N).foldl (fun pages i =>
      muladd pages i (getMatrixElement gf (x i) x0 (blocks o).index) (blocks o).block) pages) pages
  let matrix := generateLDUDecomposition gf N x0 x y uninit
  let diagD := (N - 1) * N / 2
  -- eliminate the lower left triangle
  let lower := (List.range (N - 1)).foldl (fun (s : (ℕ → Mem) × ℕ) j =>
    (List.range' (j + 1) (N - (j + 1))).foldl (fun s i =>
      (muladd s.1 i (matrix s.2) (block j), s.2 + 1)) s) (pages, diagD + N)
  -- eliminate the diagonal
  let pages := (List.range N).foldl (fun pages i =>
    Function.update pages (block i)
      (gfDivMem gf (pages (block i)) 0 (pages (block i)) 0 (matrix (diagD + i)) bytes)) lower.1
  -- eliminate the upper right triangle
  ((List.range (N - 1)).foldl (fun (s : (ℕ → Mem) × ℕ) j' =>
    let j := N - 1 - j'
    (List.range j).foldl (fun s i' =>
      (muladd s.1 (j - 1 - i') (matrix s.2) (block j), s.2 + 1)) s) (pages, 0)).1

/-- The loop of `cauchy_rs_decode` that puts parity blocks in the place of the erased ones. An
index past the array gives `none`. -/
def replaceErased (params : CauchyEncoderParams) (parityBlocks : ℕ → ℕ) (erasures : Mem)
    (blocks : ℕ → CauchyBlock) : ℕ → Option (ℕ → CauchyBlock)
  | 0 => some blocks
  | i + 1 => do
    let blocks ← replaceErased params parityBlocks erasures blocks i
    let e := (erasures i).toNat
    if (e : ℤ) < params.originalCount then
      some (Function.update blocks e
        ⟨parityBlocks i, UInt8.ofNat (params.originalCount + i).toNat⟩)
    else none

/-- `cauchy_rs_decode`. -/
def cauchyRsDecode (gf : GfCtx) (uninit : Mem) (params : CauchyEncoderParams) (pages : ℕ → Mem)
    (dataBlocks parityBlocks : ℕ → ℕ) (erasures : Mem) (numErasures : ℕ) :
    Option (ℤ × (ℕ → Mem)) :=
  if params.originalCount ≤ 0 ∨ params.recoveryCount ≤ 0 ∨ params.blockBytes ≤ 0 then
    some (-1, pages)
  else if params.originalCount + params.recoveryCount > 256 then some (-2, pages)
  else do
    let blocks ← replaceErased params parityBlocks erasures
      (fun i => ⟨dataBlocks i, UInt8.ofNat i⟩) numErasures
    match decoderInitialize params blocks uninit with
    | none => some (-5, pages)
    | some decoder =>
      if decoder.recovery = [] then some (0, pages)
      else if params.recoveryCount = 1 then some (0, decodeM1 params decoder blocks pages)
      else
        let pages := decode gf params decoder blocks pages uninit
        some (0, (List.range params.originalCount.toNat).foldl (fun pages i =>
          Function.update pages (dataBlocks i)
            (blit (pages (dataBlocks i)) 0 (pages (blocks i).block) 0 params.blockBytes.toNat))
          pages)

/-! ### Pages that the codec leaves alone -/

section

variable {gf : GfCtx} {params : CauchyEncoderParams} {pages : ℕ → Mem}
  {dataBlocks parityBlocks : ℕ → ℕ} {p : ℕ}

theorem cauchyRsEncodeLoop_out {n : ℕ} (h : ∀ b < n, parityBlocks b ≠ p) :
    cauchyRsEncodeLoop gf params pages dataBlocks parityBlocks n p = pages p := by
  induction n with
  | zero => rfl
  | succ n ih =>
    have hp : p ≠ parityBlocks n := (h n (by omega)).symm
    rw [cauchyRsEncodeLoop, Function.update_of_ne hp]
    exact ih fun b hb => h b (by omega)

theorem cauchyRsEncode_out (h : ∀ b < params.recoveryCount.toNat, parityBlocks b ≠ p) :
    (cauchyRsEncode gf params pages dataBlocks parityBlocks).2 p = pages p := by
  unfold cauchyRsEncode
  split_ifs
  · rfl
  · rfl
  · exact cauchyRsEncodeLoop_out h

/-- The blocks are told apart by their indices, where an original block has its own position for
its index: the row of each is marked. -/
theorem initializeBlocks_eq {blocks : ℕ → CauchyBlock} {z : Mem} {n : ℕ}
    (hn : (n : ℤ) ≤ params.originalCount)
    (hrow : ∀ i < n, (blocks i).index.toNat = i ∨
      params.originalCount ≤ ((blocks i).index.toNat : ℤ))
    (hz : ∀ i < n, z i = 0) :
    initializeBlocks params blocks ⟨[], [], z⟩ n = some
      ⟨(List.range n).filter fun i => params.originalCount ≤ ((blocks i).index.toNat : ℤ),
        (List.range n).filter fun i => ((blocks i).index.toNat : ℤ) < params.originalCount,
        fun i => if i < n ∧ ((blocks i).index.toNat : ℤ) < params.originalCount then 1
          else z i⟩ := by
  induction n with
  | zero => simp [initializeBlocks]
  | succ n ih =>
    rw [initializeBlocks, ih (by omega) (fun i hi => hrow i (by omega)) fun i hi => hz i (by omega)]
    simp only [Option.bind_eq_bind, Option.bind_some, List.range_succ, List.filter_append]
    by_cases hlt : ((blocks n).index.toNat : ℤ) < params.originalCount
    · have hself : (blocks n).index.toNat = n := by
        rcases hrow n (by omega) with h | h
        · exact h
        · omega
      rw [if_pos hlt, if_neg (by simp [hself, hz n (by omega)])]
      congr 1
      refine CauchyDecoder.mk.injEq .. ▸ ⟨by simp [hlt], by simp [hlt], ?_⟩
      funext i
      rw [hself]
      by_cases hi : i = n
      · subst hi
        rw [Function.update_self, if_pos ⟨by omega, hlt⟩]
      · rw [Function.update_of_ne hi]
        refine if_congr ?_ rfl rfl
        rw [Nat.lt_succ_iff_lt_or_eq]
        simp [hi]
    · rw [if_neg hlt]
      congr 1
      refine CauchyDecoder.mk.injEq .. ▸ ⟨by simp [not_lt.1 hlt], by simp [hlt], ?_⟩
      funext i
      refine if_congr ?_ rfl rfl
      rw [Nat.lt_succ_iff_lt_or_eq]
      constructor
      · exact fun h => ⟨.inl h.1, h.2⟩
      · rintro ⟨h | rfl, hi⟩
        · exact ⟨h, hi⟩
        · exact absurd hi hlt

/-- **With no erasures `cauchy_rs_decode` returns 0 and changes nothing.** -/
theorem cauchyRsDecode_zero {uninit erasures : Mem} (hk : 0 < params.originalCount)
    (hm : 0 < params.recoveryCount) (hb : 0 < params.blockBytes)
    (h256 : params.originalCount + params.recoveryCount ≤ 256) :
    cauchyRsDecode gf uninit params pages dataBlocks parityBlocks erasures 0 = some (0, pages) := by
  have hrow : ∀ i < params.originalCount.toNat, (UInt8.ofNat i).toNat = i := by
    intro i hi
    rw [UInt8.toNat_ofNat']
    omega
  have hinit : initializeBlocks params (fun i => ⟨dataBlocks i, UInt8.ofNat i⟩)
      ⟨[], [], fill uninit 0 params.originalCount.toNat 0⟩ params.originalCount.toNat = _ :=
    initializeBlocks_eq (by omega) (fun i hi => .inl (hrow i hi))
      fun i hi => fill_in (by omega) (by omega)
  rw [cauchyRsDecode, if_neg (by omega), if_neg (by omega)]
  simp only [replaceErased, decoderInitialize, hinit, Option.bind_eq_bind, Option.bind_some]
  rw [if_pos]
  rw [List.filter_eq_nil_iff]
  intro i hi
  have hlt := List.mem_range.1 hi
  simp only [hrow i hlt, decide_eq_true_eq]
  omega

end

end Artifice
