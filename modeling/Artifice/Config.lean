import Mathlib.Tactic

/-!
The configuration of an instance: `struct afs_config`, `build_configuration`, and the shape
that every configuration it builds has.

The sizes of the format are written as numbers throughout: a block (`AFS_BLOCK_SIZE`) is 4096
bytes and a sector 512, a super block holds 975 map block pointers (`NUM_MAP_BLKS_IN_SB`), a
pointer block 1019 (`NUM_MAP_BLKS_IN_PB`), a map tuple is a four byte pointer and a two byte
checksum, and a map entry ends with a carrier hash of 32 bytes and an entropy hash of 8.
A `uint32_t` expression is a natural number with its `% 2 ^ 32` written out.
-/

namespace Artifice

/-- `AFS_INVALID_BLOCK`, `U32_MAX`. -/
def afsInvalidBlock : ℕ := 2 ^ 32 - 1

/-- Carrier block encoding types. -/
inductive EncodingType
  | rsEntropy
  | shamir
  | aontRs
  deriving DecidableEq, Repr

/-- `struct afs_config`. -/
structure AfsConfig where
  /-- Carrier blocks a data block is spread over. -/
  numCarrierBlocks : ℕ
  /-- Entropy blocks, for the scheme that uses them. -/
  numEntropyBlocks : ℕ
  /-- Bytes of a map entry. -/
  mapEntrySz : ℕ
  /-- Bytes between the hash of a map block and its first entry. -/
  unusedSpacePerBlock : ℕ
  /-- Map entries in a map block. -/
  numMapEntriesPerBlock : ℕ
  /-- Data blocks of the instance. -/
  numBlocks : ℕ
  /-- Map blocks of the instance. -/
  numMapBlocks : ℕ
  /-- Pointer blocks of the instance. -/
  numPtrBlocks : ℕ
  /-- Bytes of the instance. -/
  instanceSize : ℕ
  /-- Sectors of the device below. -/
  bdevSize : ℕ
  deriving DecidableEq, Repr

/-- `build_configuration`: the layout for an instance size and a number of carriers. The entry
size, the unused space and the entries of a block are kept in a `uint8_t`. -/
def buildConfiguration (config : AfsConfig) (numCarrierBlocks numEntropyBlocks : ℕ) :
    AfsConfig :=
  let mapEntrySz := (32 + 8 + 6 * numCarrierBlocks) % 2 ^ 8
  let unusedSpacePerBlock := (4096 - 64) % mapEntrySz % 2 ^ 8
  let numMapEntriesPerBlock := (4096 - 64) / mapEntrySz % 2 ^ 8
  let numBlocks := config.instanceSize / 4096 % 2 ^ 32
  let numMapBlocks := (numBlocks / numMapEntriesPerBlock
    + if numBlocks % numMapEntriesPerBlock ≠ 0 then 1 else 0) % 2 ^ 32
  -- the subtraction is unsigned: below 975 map blocks it wraps to a larger number
  let beyond := (numMapBlocks + 2 ^ 32 - 975) % 2 ^ 32
  let numPtrBlocks := if beyond > numMapBlocks then 0 else
    (beyond / 1019 + if beyond % 1019 ≠ 0 then 1 else 0) % 2 ^ 32
  { config with
    numCarrierBlocks, numEntropyBlocks, mapEntrySz, unusedSpacePerBlock,
    numMapEntriesPerBlock, numBlocks, numMapBlocks, numPtrBlocks }

/-- The shape of a configuration: what `build_configuration` establishes for one to eight
carriers, and all that the map code relies on. -/
structure AfsConfig.Ok (c : AfsConfig) : Prop where
  /-- One to eight carriers. -/
  carriers : 1 ≤ c.numCarrierBlocks ∧ c.numCarrierBlocks ≤ 8
  /-- An entry is its tuples, the carrier hash and the entropy hash. -/
  entrySz : c.mapEntrySz = 40 + 6 * c.numCarrierBlocks
  /-- The hash, the unused space and the entries fill a map block. -/
  block : 64 + c.unusedSpacePerBlock + c.numMapEntriesPerBlock * c.mapEntrySz = 4096
  /-- A map block holds an entry. -/
  entries : 0 < c.numMapEntriesPerBlock
  /-- The data blocks are counted in a `uint32_t`. -/
  blocks : c.numBlocks < 2 ^ 32
  /-- The map blocks hold the entries, the last of them at least one. -/
  mapBlocks : c.numMapBlocks = (c.numBlocks + c.numMapEntriesPerBlock - 1)
    / c.numMapEntriesPerBlock
  /-- The super block and the pointer blocks hold the map blocks. -/
  ptrBlocks : c.numPtrBlocks = (c.numMapBlocks - 975 + 1018) / 1019

theorem div_add_ite_mod (a : ℕ) {b : ℕ} (hb : 0 < b) :
    (a / b + if a % b ≠ 0 then 1 else 0) = (a + b - 1) / b := by
  have hq := Nat.div_add_mod a b
  have hr := Nat.mod_lt a hb
  rw [Nat.mul_comm] at hq
  split_ifs with h <;> symm <;> rw [Nat.div_eq_iff hb]
  · rw [Nat.add_mul]
    omega
  · rw [Nat.add_zero]
    omega

theorem ceil_le (a : ℕ) {b : ℕ} (hb : 0 < b) : (a + b - 1) / b ≤ a := by
  rw [← Nat.lt_succ_iff, Nat.div_lt_iff_lt_mul hb, Nat.succ_mul]
  have : a ≤ a * b := Nat.le_mul_of_pos_right a hb
  omega

/-- The counts of a configuration, whatever its entries are: the super block and the pointer
blocks have slots for the map blocks. -/
structure AfsConfig.Indexed (c : AfsConfig) : Prop where
  mapBlocks : c.numMapBlocks < 2 ^ 32
  ptrBlocks : c.numPtrBlocks = (c.numMapBlocks - 975 + 1018) / 1019

theorem AfsConfig.Ok.indexed {c : AfsConfig} (h : c.Ok) : c.Indexed := by
  refine ⟨?_, h.ptrBlocks⟩
  have hle := ceil_le c.numBlocks h.entries
  have hblocks := h.blocks
  rw [h.mapBlocks]
  omega

/-- The number of pointer blocks, as `build_configuration` computes it from that of the map
blocks. -/
theorem ptrBlocks_of_mapBlocks {m : ℕ} (hm : m < 2 ^ 32) :
    (if (m + 2 ^ 32 - 975) % 2 ^ 32 > m then 0 else
      ((m + 2 ^ 32 - 975) % 2 ^ 32 / 1019 +
        if (m + 2 ^ 32 - 975) % 2 ^ 32 % 1019 ≠ 0 then 1 else 0) % 2 ^ 32) =
      (m - 975 + 1018) / 1019 := by
  rw [div_add_ite_mod _ (by norm_num)]
  rcases Nat.lt_or_ge m 975 with h | h
  · rw [if_pos (by omega)]
    omega
  · rw [show (m + 2 ^ 32 - 975) % 2 ^ 32 = m - 975 by omega, if_neg (by omega)]
    omega

theorem buildConfiguration_indexed (config : AfsConfig) (numCarrierBlocks numEntropyBlocks : ℕ) :
    (buildConfiguration config numCarrierBlocks numEntropyBlocks).Indexed := by
  have hlt : (buildConfiguration config numCarrierBlocks numEntropyBlocks).numMapBlocks <
      2 ^ 32 := Nat.mod_lt _ (by norm_num)
  refine ⟨hlt, ?_⟩
  rw [← ptrBlocks_of_mapBlocks hlt]
  unfold buildConfiguration
  dsimp only

/-- **Every configuration that is built has the shape.** -/
theorem buildConfiguration_ok (config : AfsConfig) {numCarrierBlocks : ℕ} (e : ℕ)
    (h1 : 1 ≤ numCarrierBlocks) (h8 : numCarrierBlocks ≤ 8) :
    (buildConfiguration config numCarrierBlocks e).Ok := by
  -- the three byte-sized fields are computed for each number of carriers
  obtain ⟨p, hp, hp0, hblock⟩ : ∃ p, (4096 - 64) / ((32 + 8 + 6 * numCarrierBlocks) % 2 ^ 8)
      % 2 ^ 8 = p ∧ 0 < p ∧ 64 + (4096 - 64) % ((32 + 8 + 6 * numCarrierBlocks) % 2 ^ 8) % 2 ^ 8
      + p * ((32 + 8 + 6 * numCarrierBlocks) % 2 ^ 8) = 4096 := by
    refine ⟨_, rfl, ?_⟩
    interval_cases numCarrierBlocks <;> decide
  have hn : config.instanceSize / 4096 % 2 ^ 32 < 2 ^ 32 := Nat.mod_lt _ (by norm_num)
  have hm := div_add_ite_mod (config.instanceSize / 4096 % 2 ^ 32) hp0
  have hle := ceil_le (config.instanceSize / 4096 % 2 ^ 32) hp0
  have hw : (config.instanceSize / 4096 % 2 ^ 32 + p - 1) / p % 2 ^ 32
      = (config.instanceSize / 4096 % 2 ^ 32 + p - 1) / p := Nat.mod_eq_of_lt (by omega)
  refine ⟨⟨h1, h8⟩, ?_, ?_, ?_, hn, ?_, ?_⟩
  · simp only [buildConfiguration]
    omega
  · simp only [buildConfiguration, hp]
    exact hblock
  · simp only [buildConfiguration, hp]
    exact hp0
  · simp only [buildConfiguration, hp]
    rw [hm, hw]
  · exact (buildConfiguration_indexed config numCarrierBlocks e).ptrBlocks

/-! ### Capacity -/

/-- The capacity of a configuration is exact: the map blocks are the fewest that hold an entry for
each data block, the pointer blocks the fewest that hold what the super block does not, and no field
has lost a bit. -/
structure AfsConfig.Exact (c : AfsConfig) (numCarrierBlocks : ℕ) : Prop where
  carriers : c.numCarrierBlocks = numCarrierBlocks
  entrySz : c.mapEntrySz = 40 + 6 * numCarrierBlocks
  block : 64 + c.unusedSpacePerBlock + c.numMapEntriesPerBlock * c.mapEntrySz = 4096
  unused : c.unusedSpacePerBlock = (4096 - 64) % c.mapEntrySz
  entries : c.numMapEntriesPerBlock = (4096 - 64) / c.mapEntrySz
  blocks : c.numBlocks = c.instanceSize / 4096
  mapBlocks : IsLeast { n | c.numBlocks ≤ n * c.numMapEntriesPerBlock } c.numMapBlocks
  ptrBlocks : IsLeast { n | c.numMapBlocks ≤ 975 + 1019 * n } c.numPtrBlocks
  byteFields : c.numCarrierBlocks < 2 ^ 8 ∧ c.mapEntrySz < 2 ^ 8 ∧ c.unusedSpacePerBlock < 2 ^ 8 ∧
    c.numMapEntriesPerBlock < 2 ^ 8
  wordFields : c.numBlocks < 2 ^ 32 ∧ c.numMapBlocks < 2 ^ 32 ∧ c.numPtrBlocks < 2 ^ 32

theorem isLeast_ceil (a : ℕ) {b : ℕ} (hb : 0 < b) :
    IsLeast { n | a ≤ n * b } ((a + b - 1) / b) := by
  constructor
  · have hr := Nat.div_add_mod (a + b - 1) b
    have hlt := Nat.mod_lt (a + b - 1) hb
    rw [Nat.mul_comm] at hr
    rw [Set.mem_ofPred_eq]
    omega
  · intro n hn
    rw [Set.mem_ofPred_eq] at hn
    rw [← Nat.lt_succ_iff, Nat.div_lt_iff_lt_mul hb, Nat.succ_mul]
    omega

theorem entry_fields {n : ℕ} (h1 : 1 ≤ n) (h8 : n ≤ 8) :
    (4096 - 64) % (40 + 6 * n) < 2 ^ 8 ∧ (4096 - 64) / (40 + 6 * n) < 2 ^ 8 := by
  interval_cases n <;> decide

/-- **The capacity that `build_configuration` computes is exact** for one to eight carriers and every
instance below 16 TB. -/
theorem buildConfiguration_exact (config : AfsConfig) {numCarrierBlocks : ℕ} (e : ℕ)
    (h1 : 1 ≤ numCarrierBlocks) (h8 : numCarrierBlocks ≤ 8)
    (hmax : config.instanceSize < 2 ^ 44) :
    (buildConfiguration config numCarrierBlocks e).Exact numCarrierBlocks := by
  have hok := buildConfiguration_ok config e h1 h8
  have hsz : (buildConfiguration config numCarrierBlocks e).mapEntrySz =
      40 + 6 * numCarrierBlocks := hok.entrySz
  obtain ⟨hunused, hentries⟩ := entry_fields h1 h8
  rw [← hsz] at hunused hentries
  have hleast := isLeast_ceil (buildConfiguration config numCarrierBlocks e).numBlocks hok.entries
  rw [← hok.mapBlocks] at hleast
  have hmap := hok.indexed.mapBlocks
  have hptr := hok.ptrBlocks
  refine ⟨rfl, hsz, hok.block, Nat.mod_eq_of_lt hunused, Nat.mod_eq_of_lt hentries,
    Nat.mod_eq_of_lt ?_, hleast, ⟨?_, fun n hn => ?_⟩, ⟨?_, ?_, Nat.mod_lt _ (by norm_num),
    Nat.mod_lt _ (by norm_num)⟩, hok.blocks, hmap, ?_⟩
  · omega
  · rw [Set.mem_ofPred_eq]
    omega
  · rw [Set.mem_ofPred_eq] at hn
    omega
  · exact lt_of_le_of_lt h8 (by norm_num)
  · rw [hsz]
    omega
  · omega

/-- The smallest instance. -/
theorem buildConfiguration_exact_min :
    (buildConfiguration ⟨0, 0, 0, 0, 0, 0, 0, 0, 2 ^ 16, 2 ^ 20⟩ 4 1).Exact 4 :=
  buildConfiguration_exact _ 1 (by norm_num) (by norm_num) (by norm_num)

end Artifice
