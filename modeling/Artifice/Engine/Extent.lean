import Artifice.Engine.Create

/-!
The extent of a target: the blocks that its sectors are in, and the entries of the map that
`build_configuration` makes room for.

A target is given in sectors, and its blocks are counted in whole ones. The map and the map blocks
are sized and indexed with products of 32 bits.
-/

namespace Artifice

open Lib

/-- The configuration of a target of `len` sectors, as `afs_ctr` has it built: by
`write_super_block`'s caller for a new instance, by `find_super_block` for a mount, which checks
that the size is the same. -/
def targetConfig (len bdevSize : ℕ) : AfsConfig :=
  buildConfiguration ⟨0, 0, 0, 0, 0, 0, 0, 0, len * 512 % 2 ^ 64, bdevSize⟩ 4 1

/-- The bytes that `afs_create_map` allocates. -/
def mapSize (config : AfsConfig) : ℕ := config.numBlocks * config.mapEntrySz % 2 ^ 32

/-- The bytes that `afs_create_map_blocks` allocates. -/
def mapBlocksSize (config : AfsConfig) : ℕ := 4096 * config.numMapBlocks % 2 ^ 32

/-- Where `afs_create_map_blocks` copies entry `i` to. -/
def mapBlockEntry (config : AfsConfig) (i : ℕ) : ℕ :=
  4096 * (i / config.numMapEntriesPerBlock) + 64 + config.unusedSpacePerBlock +
    i % config.numMapEntriesPerBlock * config.mapEntrySz

/-- Block `b` has an entry, inside of the map. -/
structure HasEntry (config : AfsConfig) (b : ℕ) : Prop where
  counted : b < config.numBlocks
  inside : afsGetMapEntry config b + config.mapEntrySz ≤ mapSize config

/-- No product wraps, and the entries are at different places of the map and of the map blocks,
inside of what is allocated for them. -/
structure MapSized (config : AfsConfig) : Prop where
  size : mapSize config = config.numBlocks * config.mapEntrySz
  blocksSize : mapBlocksSize config = 4096 * config.numMapBlocks
  entry : ∀ i < config.numBlocks, afsGetMapEntry config i = i * config.mapEntrySz
  inside : ∀ i < config.numBlocks, afsGetMapEntry config i + config.mapEntrySz ≤ mapSize config
  insideBlocks : ∀ i < config.numBlocks,
    mapBlockEntry config i + config.mapEntrySz ≤ mapBlocksSize config
  apart : ∀ i < config.numBlocks, ∀ j < config.numBlocks, i < j →
    afsGetMapEntry config i + config.mapEntrySz ≤ afsGetMapEntry config j
  apartBlocks : ∀ i < config.numBlocks, ∀ j < config.numBlocks, i < j →
    mapBlockEntry config i + config.mapEntrySz ≤ mapBlockEntry config j

section

variable {config : AfsConfig} {len bdevSize b i j n : ℕ}

/-! ### Products of 32 bits -/

theorem AfsConfig.Ok.mapBlockEntry_le (h : config.Ok) (i : ℕ) :
    mapBlockEntry config i + config.mapEntrySz ≤ 4096 * (i / config.numMapEntriesPerBlock + 1) := by
  have hblock := h.block
  have hlt := Nat.mod_lt i h.entries
  have hle : i % config.numMapEntriesPerBlock * config.mapEntrySz + config.mapEntrySz ≤
      config.numMapEntriesPerBlock * config.mapEntrySz := by
    rw [← Nat.succ_mul]
    exact Nat.mul_le_mul_right _ hlt
  rw [mapBlockEntry]
  omega

theorem AfsConfig.Ok.map_le (h : config.Ok) :
    config.numBlocks * config.mapEntrySz ≤ 4096 * config.numMapBlocks := by
  have hp := h.entries
  have hblock := h.block
  have hle : config.numBlocks ≤ config.numMapBlocks * config.numMapEntriesPerBlock := by
    have hdiv := Nat.div_add_mod (config.numBlocks + config.numMapEntriesPerBlock - 1)
      config.numMapEntriesPerBlock
    have hlt := Nat.mod_lt (config.numBlocks + config.numMapEntriesPerBlock - 1) hp
    rw [h.mapBlocks, Nat.mul_comm]
    omega
  calc config.numBlocks * config.mapEntrySz
      ≤ config.numMapBlocks * config.numMapEntriesPerBlock * config.mapEntrySz :=
        Nat.mul_le_mul_right _ hle
    _ = config.numMapBlocks * (config.numMapEntriesPerBlock * config.mapEntrySz) :=
        Nat.mul_assoc _ _ _
    _ ≤ config.numMapBlocks * 4096 := Nat.mul_le_mul_left _ (by omega)
    _ = 4096 * config.numMapBlocks := Nat.mul_comm _ _

theorem AfsConfig.Ok.mapBlock_lt (h : config.Ok) (hi : i < config.numBlocks) :
    i / config.numMapEntriesPerBlock < config.numMapBlocks := by
  rw [h.mapBlocks, Nat.div_lt_iff_lt_mul h.entries]
  have hdiv := Nat.div_add_mod (config.numBlocks + config.numMapEntriesPerBlock - 1)
    config.numMapEntriesPerBlock
  have hlt := Nat.mod_lt (config.numBlocks + config.numMapEntriesPerBlock - 1) h.entries
  rw [Nat.mul_comm] at hdiv
  omega

/-- **Less than 2^20 map blocks are what the sizes of 32 bits have room for.** -/
theorem AfsConfig.Ok.sized_iff (h : config.Ok) :
    MapSized config ↔ config.numMapBlocks < 2 ^ 20 := by
  constructor
  · intro hs
    have := hs.blocksSize
    have := Nat.mod_lt (4096 * config.numMapBlocks) (show 0 < 2 ^ 32 by norm_num)
    rw [mapBlocksSize] at *
    omega
  · intro hm
    have hle := h.map_le
    have hblocks : mapBlocksSize config = 4096 * config.numMapBlocks :=
      Nat.mod_eq_of_lt (by omega)
    have hsize : mapSize config = config.numBlocks * config.mapEntrySz :=
      Nat.mod_eq_of_lt (by omega)
    have hmono : ∀ i j, i < j → i * config.mapEntrySz + config.mapEntrySz ≤
        j * config.mapEntrySz := by
      intro i j hij
      rw [← Nat.succ_mul]
      exact Nat.mul_le_mul_right _ hij
    have hentry : ∀ i < config.numBlocks, afsGetMapEntry config i = i * config.mapEntrySz := by
      intro i hi
      have := hmono i config.numBlocks hi
      exact Nat.mod_eq_of_lt (by have := h.entrySz; omega)
    refine ⟨hsize, hblocks, hentry, fun i hi => ?_, fun i hi => ?_, fun i hi j hj hij => ?_,
      fun i hi j hj hij => ?_⟩
    · rw [hentry i hi, hsize]
      exact hmono i _ hi
    · have hin := h.mapBlockEntry_le i
      have hlt := h.mapBlock_lt hi
      rw [hblocks]
      omega
    · rw [hentry i hi, hentry j hj]
      exact hmono i j hij
    · -- in one map block, or in a later one
      have hdiv : i / config.numMapEntriesPerBlock ≤ j / config.numMapEntriesPerBlock :=
        Nat.div_le_div_right hij.le
      rcases hdiv.lt_or_eq with hlt | heq
      · have hin := h.mapBlockEntry_le i
        have hjb : 4096 * (j / config.numMapEntriesPerBlock) ≤ mapBlockEntry config j := by
          rw [mapBlockEntry]
          omega
        omega
      · have hmod : i % config.numMapEntriesPerBlock < j % config.numMapEntriesPerBlock := by
          have h1 := Nat.div_add_mod i config.numMapEntriesPerBlock
          have h2 := Nat.div_add_mod j config.numMapEntriesPerBlock
          rw [heq] at h1
          omega
        have := hmono _ _ hmod
        rw [mapBlockEntry, mapBlockEntry, heq]
        omega

theorem ceil_lt_iff (a : ℕ) {p m : ℕ} (hp : 0 < p) (hm : 0 < m) :
    (a + p - 1) / p < m ↔ a ≤ (m - 1) * p := by
  obtain ⟨m, rfl⟩ : ∃ m', m = m' + 1 := ⟨m - 1, by omega⟩
  rw [Nat.lt_succ_iff, Nat.div_le_iff_le_mul_add_pred hp, Nat.add_sub_cancel, Nat.mul_comm p m]
  omega

/-- **The map is sized and indexed without a wrap exactly up to 2^20 - 1 map blocks**, which is far
below the 16 TB that an instance may have. -/
theorem mapSized_iff (config : AfsConfig) (e : ℕ) {c : ℕ} (h1 : 1 ≤ c) (h8 : c ≤ 8)
    (hsize : config.instanceSize < 2 ^ 44) :
    MapSized (buildConfiguration config c e) ↔
      config.instanceSize / 4096 ≤ (2 ^ 20 - 1) * (4032 / (40 + 6 * c)) := by
  have hok := buildConfiguration_ok config e h1 h8
  have hblocks : (buildConfiguration config c e).numBlocks = config.instanceSize / 4096 :=
    Nat.mod_eq_of_lt (by omega)
  have hper : (buildConfiguration config c e).numMapEntriesPerBlock = 4032 / (40 + 6 * c) := by
    simp only [buildConfiguration]
    interval_cases c <;> rfl
  rw [hok.sized_iff, hok.mapBlocks, ceil_lt_iff _ hok.entries (by norm_num), hblocks, hper]

end

/-- The counter-instance of the limit: an instance of 1 TB. -/
theorem map_wraps_below_limit :
    ¬ ∀ (config : AfsConfig) (c e : ℕ), 1 ≤ c → c ≤ 8 → config.instanceSize < 2 ^ 44 →
      MapSized (buildConfiguration config c e) := by
  intro hall
  have hsized := hall ⟨0, 0, 0, 0, 0, 0, 0, 0, 2 ^ 40, 0⟩ 4 1 (by norm_num) (by norm_num)
    (by norm_num)
  have hok := buildConfiguration_ok ⟨0, 0, 0, 0, 0, 0, 0, 0, 2 ^ 40, 0⟩ 1
    (by norm_num : 1 ≤ 4) (by norm_num)
  exact absurd (hok.sized_iff.1 hsized) (by decide)

/-- The map of an instance of 64 GB is sized and indexed as it should be. -/
theorem mapSized_small : MapSized (buildConfiguration ⟨0, 0, 0, 0, 0, 0, 0, 0, 2 ^ 36, 0⟩ 4 1) :=
  (mapSized_iff ⟨0, 0, 0, 0, 0, 0, 0, 0, 2 ^ 36, 0⟩ 1 (by norm_num : 1 ≤ 4) (by norm_num)
    (by norm_num)).2 (by norm_num)

/-! ### The sectors of a target -/

/-- The bio lies in the first `len` sectors. -/
def Bio.Below (bio : Bio) (len : ℕ) : Prop :=
  0 < bioSectors bio ∧ bio.biSector + bioSectors bio ≤ len

/-- A read of one sector. -/
def readOfSector (sector : ℕ) : Bio := ⟨.read, sector, 512, [⟨fun _ => 0, 0, 512⟩], 0⟩

theorem below_readOfSector {sector len : ℕ} (h : sector < len) : (readOfSector sector).Below len :=
  ⟨by norm_num [bioSectors, readOfSector], by norm_num [bioSectors, readOfSector]; omega⟩

section

variable {len bdevSize : ℕ}

theorem targetConfig_numBlocks (hmax : len * 512 < 2 ^ 44) :
    (targetConfig len bdevSize).numBlocks = len / 8 := by
  simp only [targetConfig, buildConfiguration]
  omega

theorem mapRequest_block {fresh : AfsMapRequest} {ctx : AfsPrivate} {bio : Bio}
    (h : bio.biSector / 8 < 2 ^ 32) :
    (mapRequest fresh ctx (acceptPartialBio bio)).block = bio.biSector / 8 := by
  simp only [mapRequest, acceptPartialBio_biSector]
  exact Nat.mod_eq_of_lt h

/-- **Every sector of a target has a map entry exactly if** the target is a whole number of blocks,
and the entries of these are less than 4 GB. -/
theorem sectors_have_entries_iff (fresh : AfsMapRequest) (ctx : AfsPrivate)
    (hmin : 2 ^ 16 ≤ len * 512) (hmax : len * 512 < 2 ^ 44) :
    (∀ bio : Bio, bio.Below len → HasEntry (targetConfig len bdevSize)
      (mapRequest fresh ctx (acceptPartialBio bio)).block) ↔ len % 8 = 0 ∧ len / 8 < 2 ^ 26 := by
  have hnum : (targetConfig len bdevSize).numBlocks = len / 8 := targetConfig_numBlocks hmax
  have hsz : (targetConfig len bdevSize).mapEntrySz = 64 := rfl
  constructor
  · intro hall
    have hentry : ∀ sector < len, HasEntry (targetConfig len bdevSize) (sector / 8) := by
      intro sector hlt
      have h := hall (readOfSector sector) (below_readOfSector hlt)
      have hsector : (readOfSector sector).biSector / 8 = sector / 8 := rfl
      rwa [mapRequest_block (by rw [hsector]; omega), hsector] at h
    constructor
    · -- the last sector
      have hlast := (hentry (len - 1) (by omega)).counted
      rw [hnum] at hlast
      omega
    · -- the last block with an entry of its own
      by_contra hge
      obtain ⟨sector, hsector⟩ : ∃ sector, sector = 536870904 := ⟨_, rfl⟩
      have hblock : sector / 8 = 67108863 := by rw [hsector]
      have hlt : sector < len := by omega
      have hlast := (hentry sector hlt).inside
      have hsize : mapSize (targetConfig len bdevSize) < 2 ^ 32 := Nat.mod_lt _ (by norm_num)
      rw [hblock, afsGetMapEntry, hsz] at hlast
      omega
  · rintro ⟨h8, hlt⟩ bio ⟨hpos, hle⟩
    rw [mapRequest_block (by omega)]
    refine ⟨by rw [hnum]; omega, ?_⟩
    rw [afsGetMapEntry, mapSize, hnum, hsz]
    omega

end

/-- The last sectors of a target of 129 sectors have no map entry. -/
theorem last_sector_without_entry :
    ¬ ∀ (fresh : AfsMapRequest) (ctx : AfsPrivate) (len bdevSize : ℕ) (bio : Bio),
      2 ^ 16 ≤ len * 512 → len * 512 < 2 ^ 44 → bio.Below len →
      HasEntry (targetConfig len bdevSize) (mapRequest fresh ctx (acceptPartialBio bio)).block := by
  intro hall
  have h := (hall zeroRequest (smallContext []) 129 256 (readOfSector 128) (by norm_num) (by norm_num)
    (below_readOfSector (by norm_num))).counted
  exact absurd h (by decide)

/-- The last sector of a target of 128 sectors has one. -/
theorem small_sectors_have_entries : HasEntry (targetConfig 128 256)
    (mapRequest zeroRequest (smallContext []) (acceptPartialBio (readOfSector 127))).block :=
  (sectors_have_entries_iff zeroRequest (smallContext []) (by norm_num) (by norm_num)).2
    (by norm_num) _ (below_readOfSector (by norm_num))

end Artifice
