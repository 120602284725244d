import Artifice.Codec.Recover

/-!
One parity block.

With a single parity block `cauchy_rs_decode` takes a shortcut, `DecodeM1`, which adds the blocks
that are left to the parity block. But the shortcut leaves the function before the copies to the data
blocks: the sum stays in the buffer of the parity block, and the erased data block is as it was.
-/

namespace Artifice

open Lib ByteField

/-- `cauchy_rs_decode` without the shortcut for one parity block. -/
def generalDecode (gf : GfCtx) (uninit : Mem) (params : CauchyEncoderParams) (pages : ℕ → Mem)
    (dataBlocks parityBlocks : ℕ → ℕ) (erasures : Mem) (numErasures : ℕ) : Option (ℕ → Mem) := do
  let blocks ← replaceErased params parityBlocks erasures
    (fun i => ⟨dataBlocks i, UInt8.ofNat i⟩) numErasures
  let decoder ← decoderInitialize params blocks uninit
  some (copyBlocks params.blockBytes.toNat dataBlocks blocks params.originalCount.toNat
    (decode gf params decoder blocks pages uninit))

/-- With one erased block, `cauchy_rs_decode` leaves the original data in the data blocks, as the
general path does. -/
def SingleParityRecovers (gf : GfCtx) (uninit : Mem) (params : CauchyEncoderParams)
    (pages damaged : ℕ → Mem) (dataBlocks parityBlocks : ℕ → ℕ) (erasures : Mem) : Prop :=
  ∃ out gen, cauchyRsDecode gf uninit params damaged dataBlocks parityBlocks erasures 1 =
      some (0, out) ∧
    generalDecode gf uninit params damaged dataBlocks parityBlocks erasures 1 = some gen ∧
    ∀ j < params.originalCount.toNat,
      Agree (out (dataBlocks j)) 0 (pages (dataBlocks j)) 0 params.blockBytes.toNat ∧
      Agree (out (dataBlocks j)) 0 (gen (dataBlocks j)) 0 params.blockBytes.toNat

section

variable {t : FieldTables} {gf : GfCtx} {params : CauchyEncoderParams} {pages damaged : ℕ → Mem}
  {dataBlocks parityBlocks : ℕ → ℕ} {blocks : ℕ → CauchyBlock} {erasures uninit : Mem}

/-! ### The shortcut -/

variable (hgf : gf.Valid t) (hk : 2 ≤ params.originalCount) (hm : params.recoveryCount = 1)
  (h256 : params.originalCount + params.recoveryCount ≤ 256)
  (hapart : ∀ s t : ℕ, (s : ℤ) < params.originalCount + params.recoveryCount →
    (t : ℤ) < params.originalCount + params.recoveryCount →
    sharePage params dataBlocks parityBlocks s = sharePage params dataBlocks parityBlocks t → s = t)
  (hdata : ((erasures 0).toNat : ℤ) < params.originalCount)
  (hdamaged : DataLoss gf params pages damaged dataBlocks parityBlocks erasures 1)
  (hr : Replaced params dataBlocks parityBlocks erasures 1 blocks)

include hm hdata in
theorem erasureList_single : ErasureList params erasures 1 :=
  ⟨by omega, fun i hi j hj _ => by omega, fun i hi => by
    obtain rfl : i = 0 := by omega
    omega⟩

include hk hm h256 hdata hr in
theorem Replaced.recovery_single : (initialized params blocks uninit).recovery =
    [(erasures 0).toNat] := by
  have hlist := erasureList_single hm hdata
  have hmem : (erasures 0).toNat ∈ List.range params.originalCount.toNat :=
    List.mem_range.2 (by omega)
  have hfilter : (initialized params blocks uninit).recovery =
      (List.range params.originalCount.toNat).filter fun i => i = (erasures 0).toNat := by
    refine List.filter_congr fun i hi => ?_
    have hi := List.mem_range.1 hi
    rw [decide_eq_decide, hr.parity_iff (by omega) hlist.count h256 (by omega)]
    constructor
    · rintro ⟨l, hl, rfl⟩
      rw [Nat.lt_one_iff.1 hl]
    · rintro rfl
      exact ⟨0, Nat.one_pos, rfl⟩
  rw [hfilter, List.filter_eq, List.count_eq_one_of_mem List.nodup_range hmem]
  rfl

include hk hm h256 hdata hr in
theorem Replaced.cauchyRsDecode_single (hbytes : 0 < params.blockBytes)
    (hblocks : replaceErased params parityBlocks erasures
      (fun i => ⟨dataBlocks i, UInt8.ofNat i⟩) 1 = some blocks) :
    cauchyRsDecode gf uninit params damaged dataBlocks parityBlocks erasures 1 =
      some (0, decodeM1 params (initialized params blocks uninit) blocks damaged) := by
  have hinit : decoderInitialize params blocks uninit = _ :=
    hr.decoderInitialize_eq (by omega) (erasureList_single hm hdata).count h256
  rw [cauchyRsDecode, if_neg (by omega), if_neg (by omega), hblocks]
  simp only [Option.bind_eq_bind, Option.bind_some, hinit]
  rw [hr.recovery_single hk hm h256 hdata, if_neg (List.cons_ne_nil _ _), if_pos hm]

/-- The general path decodes in place, and copies each block to the data block that it stands
for. -/
theorem Replaced.generalDecode_eq {numErasures : ℕ} {blocks : ℕ → CauchyBlock}
    (hr : Replaced params dataBlocks parityBlocks erasures numErasures blocks)
    (hk : 0 < params.originalCount) (hcount : (numErasures : ℤ) ≤ params.recoveryCount)
    (h256 : params.originalCount + params.recoveryCount ≤ 256)
    (hblocks : replaceErased params parityBlocks erasures
      (fun i => ⟨dataBlocks i, UInt8.ofNat i⟩) numErasures = some blocks) :
    generalDecode gf uninit params damaged dataBlocks parityBlocks erasures numErasures =
      some (copyBlocks params.blockBytes.toNat dataBlocks blocks params.originalCount.toNat
        (decode gf params (initialized params blocks uninit) blocks damaged uninit)) := by
  have hinit : decoderInitialize params blocks uninit = _ := hr.decoderInitialize_eq hk hcount h256
  rw [generalDecode, hblocks]
  simp only [Option.bind_eq_bind, Option.bind_some, hinit]

include hk hm h256 hapart hdata hr in
theorem Replaced.decodeM1_data {j : ℕ} (hj : j < params.originalCount.toNat) :
    decodeM1 params (initialized params blocks uninit) blocks damaged (dataBlocks j) =
      damaged (dataBlocks j) := by
  have hrec : (initialized params blocks uninit).recovery = _ :=
    hr.recovery_single hk hm h256 hdata
  have hne := parityBlocks_ne_dataBlocks hapart (by omega) (i := 0) (by omega) hj
  rw [decodeM1, hrec, List.getD_cons_zero, hr.erased 0 Nat.one_pos]
  exact Function.update_of_ne hne.symm _ _

include hgf hk hm h256 hapart hdata hdamaged in
theorem singleParityRecovers_iff (hbytes : 1 ≤ params.blockBytes) :
    SingleParityRecovers gf uninit params pages damaged dataBlocks parityBlocks erasures ↔
      Agree (damaged (dataBlocks (erasures 0).toNat)) 0 (pages (dataBlocks (erasures 0).toNat)) 0
        params.blockBytes.toNat := by
  have hlist := erasureList_single hm hdata
  have hk0 : 0 < params.originalCount := by omega
  have hdata' : ∀ i < 1, ((erasures i).toNat : ℤ) < params.originalCount := fun i hi => by
    rw [Nat.lt_one_iff.1 hi]
    exact hdata
  obtain ⟨blocks, hblocks, hr⟩ : ∃ blocks, _ ∧
    Replaced params dataBlocks parityBlocks erasures 1 blocks :=
    exists_replaced hlist.distinct hdata'
  have hout : cauchyRsDecode gf uninit params damaged dataBlocks parityBlocks erasures 1 = _ :=
    hr.cauchyRsDecode_single hk hm h256 hdata (by omega) hblocks
  have hgen : generalDecode gf uninit params damaged dataBlocks parityBlocks erasures 1 = _ :=
    hr.generalDecode_eq hk0 hlist.count h256 hblocks
  have hrec : (initialized params blocks uninit).recovery = _ :=
    hr.recovery_single hk hm h256 hdata
  have hpages : ∀ j < params.originalCount.toNat, Agree _ 0 (pages (dataBlocks j)) 0 _ :=
    fun j hj => hr.agree_decode hgf hk0 hm.ge h256 hapart hlist hdata' hdamaged uninit
      (by rw [hrec]; exact List.cons_ne_nil _ _) hj
  constructor
  · rintro ⟨out, gen, hout', -, hrest⟩
    rw [hout, Option.some.injEq, Prod.mk.injEq] at hout'
    have hagree := (hrest (erasures 0).toNat (by omega)).1
    rwa [← hout'.2, hr.decodeM1_data hk hm h256 hapart hdata (by omega)] at hagree
  · intro hstill
    refine ⟨_, _, hout, hgen, fun j hj => ?_⟩
    have hsame : Agree (damaged (dataBlocks j)) 0 (pages (dataBlocks j)) 0
        params.blockBytes.toNat := by
      by_cases hj' : (erasures 0).toNat = j
      · rwa [hj'] at hstill
      · rw [hdamaged.data hk0 hm.ge hapart hdata' hj fun i hi => ?_]
        · exact Agree.refl _ _ _
        · rwa [Nat.lt_one_iff.1 hi]
    rw [hr.decodeM1_data hk hm h256 hapart hdata hj]
    exact ⟨hsame, hsame.trans (hpages j hj).symm⟩

end

/-- **When the shortcut recovers the data**: with the tables of `gf_init`, exactly when the buffer of
the erased block still holds its data. -/
theorem singleParity_iff {params : CauchyEncoderParams} {pages damaged : ℕ → Mem}
    {dataBlocks parityBlocks : ℕ → ℕ} {erasures uninit : Mem} (cpuHasSsse3 : Bool)
    (hk : 2 ≤ params.originalCount) (hm : params.recoveryCount = 1)
    (h256 : params.originalCount + params.recoveryCount ≤ 256) (hbytes : 1 ≤ params.blockBytes)
    (hapart : ∀ s t : ℕ, (s : ℤ) < params.originalCount + params.recoveryCount →
      (t : ℤ) < params.originalCount + params.recoveryCount →
      sharePage params dataBlocks parityBlocks s = sharePage params dataBlocks parityBlocks t →
        s = t)
    (hdata : ((erasures 0).toNat : ℤ) < params.originalCount)
    (hdamaged : DataLoss (gfInit cpuHasSsse3 gfStaticsZero).2.gfContext params pages damaged
      dataBlocks parityBlocks erasures 1) :
    SingleParityRecovers (gfInit cpuHasSsse3 gfStaticsZero).2.gfContext uninit params pages damaged
        dataBlocks parityBlocks erasures ↔
      Agree (damaged (dataBlocks (erasures 0).toNat)) 0 (pages (dataBlocks (erasures 0).toNat)) 0
        params.blockBytes.toNat :=
  singleParityRecovers_iff (gfInit_valid cpuHasSsse3) hk hm h256 hapart hdata hdamaged hbytes

theorem sharePage_two_one (s : ℕ) (hs : (s : ℤ) < (2 : ℤ) + 1) :
    sharePage ⟨2, 1, 1⟩ id (fun _ => 2) s = s := by
  rw [sharePage]
  split_ifs with h
  · rfl
  · have : ¬(s : ℤ) < 2 := h
    omega

/-- A list with block 0, of which nothing was lost. -/
theorem singleParity_kept : SingleParityRecovers (gfInit true gfStaticsZero).2.gfContext (fun _ => 0)
    ⟨2, 1, 1⟩ (fun p _ => UInt8.ofNat p)
    (cauchyRsEncode (gfInit true gfStaticsZero).2.gfContext ⟨2, 1, 1⟩ (fun p _ => UInt8.ofNat p) id
      fun _ => 2).2 id (fun _ => 2) (fun _ => 0) := by
  refine (singleParity_iff true (by decide) rfl (by decide) (by decide) (fun s t hs ht h => ?_)
    (by decide) ⟨fun _ _ => rfl⟩).2 ?_
  · rwa [sharePage_two_one s hs, sharePage_two_one t ht] at h
  · rw [cauchyRsEncode_out (by decide)]
    exact Agree.refl _ _ _

/-- The encoded pages of two data blocks, where block 0 is lost: its buffer holds 0xff. -/
def lostFirst : ℕ → Mem :=
  Function.update (cauchyRsEncode (gfInit true gfStaticsZero).2.gfContext ⟨2, 1, 1⟩
    (fun p _ => UInt8.ofNat p) id fun _ => 2).2 0 fun _ => 0xff

theorem lostFirst_dataLoss : DataLoss (gfInit true gfStaticsZero).2.gfContext ⟨2, 1, 1⟩
    (fun p _ => UInt8.ofNat p) lostFirst id (fun _ => 2) (fun _ => 0) 1 :=
  ⟨fun _ hp => Function.update_of_ne (hp 0 Nat.one_pos).symm _ _⟩

/-- The lost block is not recovered. -/
theorem not_singleParityRecovers : ¬SingleParityRecovers (gfInit true gfStaticsZero).2.gfContext
    (fun _ => 0) ⟨2, 1, 1⟩ (fun p _ => UInt8.ofNat p) lostFirst id (fun _ => 2) (fun _ => 0) := by
  intro h
  have hstill := (singleParityRecovers_iff (gfInit_valid true) (by decide) rfl (by decide)
    (fun s t hs ht h => by rwa [sharePage_two_one s hs, sharePage_two_one t ht] at h) (by decide)
    lostFirst_dataLoss (by decide)).1 h
  exact absurd (hstill 0 (by decide)) (by simp [lostFirst])

end Artifice
