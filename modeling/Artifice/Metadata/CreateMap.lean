import Artifice.Metadata.Frame

/-!
The map blocks that `afs_create_map_blocks` makes of the map.

A map block holds the hash of its entry area, the unused space, and the entry area up to its end.
Map block `t` takes the entries from `t p` on, where `p` is the number that a block can hold, or as
many as are left. So the blocks tile the map: each entry stands in one place of one block.
-/

namespace Artifice

open Lib

/-- The entries that map block `t` holds. -/
def blockEntries (config : AfsConfig) (t : ℕ) : ℕ :=
  min config.numMapEntriesPerBlock (config.numBlocks - t * config.numMapEntriesPerBlock)

/-- What the tiling of the map relies on: the entries of a block end with the block at the latest,
and the blocks hold the entries, the last of them at least one. -/
structure AfsConfig.Tiles (c : AfsConfig) : Prop where
  block : 64 + c.unusedSpacePerBlock + c.numMapEntriesPerBlock * c.mapEntrySz ≤ 4096
  entries : 0 < c.numMapEntriesPerBlock
  blocks : c.numBlocks < 2 ^ 32
  mapBlocks : c.numMapBlocks = (c.numBlocks + c.numMapEntriesPerBlock - 1)
    / c.numMapEntriesPerBlock

theorem AfsConfig.Ok.tiles {c : AfsConfig} (h : c.Ok) : c.Tiles :=
  ⟨h.block.le, h.entries, h.blocks, h.mapBlocks⟩

/-- A map block holds an entry, whatever the size of an entry is. -/
theorem entriesPerBlock_pos : ∀ sz < 2 ^ 8, sz ≠ 0 → 0 < (4096 - 64) / sz % 2 ^ 8 := by
  decide +kernel

/-- Every configuration that is built tiles the map; with an entry size of 0 `build_configuration`
divides by it. -/
theorem buildConfiguration_tiles (config : AfsConfig) {numCarrierBlocks : ℕ} (e : ℕ)
    (hsz : (32 + 8 + 6 * numCarrierBlocks) % 2 ^ 8 ≠ 0) :
    (buildConfiguration config numCarrierBlocks e).Tiles := by
  have hp := entriesPerBlock_pos _ (Nat.mod_lt _ (by norm_num)) hsz
  have hn : config.instanceSize / 4096 % 2 ^ 32 < 2 ^ 32 := Nat.mod_lt _ (by norm_num)
  have hle := ceil_le (config.instanceSize / 4096 % 2 ^ 32) hp
  refine ⟨?_, hp, hn, ?_⟩
  · simp only [buildConfiguration]
    have hq := Nat.div_add_mod (4096 - 64) ((32 + 8 + 6 * numCarrierBlocks) % 2 ^ 8)
    have hu := Nat.mod_le ((4096 - 64) % ((32 + 8 + 6 * numCarrierBlocks) % 2 ^ 8)) (2 ^ 8)
    have hmul := Nat.mul_le_mul_right ((32 + 8 + 6 * numCarrierBlocks) % 2 ^ 8)
      (Nat.mod_le ((4096 - 64) / ((32 + 8 + 6 * numCarrierBlocks) % 2 ^ 8)) (2 ^ 8))
    rw [Nat.mul_comm] at hq
    omega
  · simp only [buildConfiguration]
    rw [div_add_ite_mod _ hp, Nat.mod_eq_of_lt (by omega)]

section Layout

variable {config : AfsConfig} {t w : ℕ}

theorem AfsConfig.Tiles.lt_numMapBlocks (h : config.Tiles) :
    t < config.numMapBlocks ↔ t * config.numMapEntriesPerBlock < config.numBlocks := by
  have hp := h.entries
  rw [h.mapBlocks, Nat.lt_iff_add_one_le, Nat.le_div_iff_mul_le hp, Nat.succ_mul]
  omega

theorem AfsConfig.Tiles.entries_le (h : config.Tiles) (t : ℕ) :
    64 + config.unusedSpacePerBlock + blockEntries config t * config.mapEntrySz ≤ 4096 := by
  have := h.block
  have := Nat.mul_le_mul_right config.mapEntrySz (Nat.min_le_left config.numMapEntriesPerBlock
    (config.numBlocks - t * config.numMapEntriesPerBlock))
  unfold blockEntries
  omega

theorem blockEntries_eq (hN : config.numBlocks < 2 ^ 32)
    (hw : w = min (t * config.numMapEntriesPerBlock) config.numBlocks) :
    (if (config.numBlocks + 2 ^ 32 - w) % 2 ^ 32 ≤ config.numMapEntriesPerBlock
      then (config.numBlocks + 2 ^ 32 - w) % 2 ^ 32 else config.numMapEntriesPerBlock)
      = blockEntries config t ∧
    w + blockEntries config t = min ((t + 1) * config.numMapEntriesPerBlock)
      config.numBlocks := by
  rw [Nat.succ_mul]
  unfold blockEntries
  split_ifs <;> omega

end Layout

/-! ### One map block -/

section

variable {k : Kernel} {ctx : AfsPrivate} {config : AfsConfig} {afsMap m m' m₀ : Mem}
  {alloc t i : ℕ} {s : Mem × ℕ}

/-- Map block `t` as it is made: its entries behind the unused space, zeros from there to the end of
the block, and the hash of all that in front. -/
structure BlockPacked (k : Kernel) (config : AfsConfig) (afsMap : Mem) (t : ℕ) (m : Mem) :
    Prop where
  entries : Agree m (4096 * t + 64 + config.unusedSpacePerBlock) afsMap
    (t * config.numMapEntriesPerBlock * config.mapEntrySz)
    (blockEntries config t * config.mapEntrySz)
  rest : ∀ x, blockEntries config t * config.mapEntrySz ≤ x →
    64 + config.unusedSpacePerBlock + x < 4096 →
    m (4096 * t + 64 + config.unusedSpacePerBlock + x) = 0
  hash : Agree m (4096 * t) (k.sha512 (bytes m (4096 * t + 64 + config.unusedSpacePerBlock)
    (4096 - 64 - config.unusedSpacePerBlock))) 0 64

theorem BlockPacked.congr (hc : config.Tiles) (h : BlockPacked k config afsMap t m)
    (hm : ∀ x, 4096 * t ≤ x → x < 4096 * (t + 1) → m' x = m x) :
    BlockPacked k config afsMap t m' := by
  have hle := hc.entries_le t
  have hbytes : bytes m' (4096 * t + 64 + config.unusedSpacePerBlock)
      (4096 - 64 - config.unusedSpacePerBlock) = bytes m (4096 * t + 64 +
      config.unusedSpacePerBlock) (4096 - 64 - config.unusedSpacePerBlock) :=
    bytes_congr fun x hx => hm _ (by omega) (by omega)
  refine ⟨fun x hx => ?_, fun x hx hx' => ?_, fun x hx => ?_⟩
  · rw [hm _ (by omega) (by omega)]
    exact h.entries x hx
  · rw [hm _ (by omega) (by omega)]
    exact h.rest x hx hx'
  · rw [hbytes, hm _ (by omega) (by omega)]
    exact h.hash x hx

theorem createMapBlock_out (hc : config.Tiles)
    (hw : s.2 = min (i * config.numMapEntriesPerBlock) config.numBlocks) {x : ℕ}
    (hx : x < 4096 * i ∨ 4096 * (i + 1) ≤ x) :
    (createMapBlock k config afsMap i s).1 x = s.1 x := by
  have hle := hc.entries_le i
  simp only [createMapBlock, (blockEntries_eq hc.blocks hw).1]
  rw [blit_out (by omega), blit_out (by omega)]

theorem createMapBlock_packed (hc : config.Tiles)
    (hmap : config.numBlocks * config.mapEntrySz < 2 ^ 32)
    (hw : s.2 = min (i * config.numMapEntriesPerBlock) config.numBlocks)
    (hzero : ∀ x, 4096 * i ≤ x → x < 4096 * (i + 1) → s.1 x = 0) :
    BlockPacked k config afsMap i (createMapBlock k config afsMap i s).1 := by
  have hle := hc.entries_le i
  simp only [createMapBlock, (blockEntries_eq hc.blocks hw).1]
  -- behind the hash, the page is what the copy of the entries left
  refine ⟨(agree_blit_out (by omega)).trans fun x hx => ?_, fun x hx hx' => ?_, ?_⟩
  · -- the entries start at `i p` unless none is left
    have hpos : 0 < blockEntries config i := Nat.pos_of_ne_zero fun h0 => by simp [h0] at hx
    have hs : s.2 = i * config.numMapEntriesPerBlock := by
      unfold blockEntries at hpos
      omega
    have hsz : s.2 * config.mapEntrySz % 2 ^ 32 = s.2 * config.mapEntrySz := by
      refine Nat.mod_eq_of_lt (lt_of_le_of_lt (Nat.mul_le_mul_right _ ?_) hmap)
      omega
    rw [hsz, ← hs]
    exact agree_blit _ _ _ _ _ x hx
  · rw [blit_out (by omega), blit_out (by omega)]
    exact hzero _ (by omega) (by omega)
  · have hbytes : ∀ hash : Mem, ∀ m : Mem, bytes (blit m (4096 * i) hash 0 64)
        (4096 * i + 64 + config.unusedSpacePerBlock) (4096 - 64 - config.unusedSpacePerBlock) =
        bytes m (4096 * i + 64 + config.unusedSpacePerBlock)
          (4096 - 64 - config.unusedSpacePerBlock) :=
      fun hash m => bytes_congr (agree_blit_out (by omega))
    rw [hbytes]
    exact agree_blit _ _ _ _ _

/-! ### The loop -/

/-- The first `i` map blocks are made, and what is behind them is as it was. -/
structure MapPacked (k : Kernel) (config : AfsConfig) (afsMap m₀ : Mem) (i : ℕ) (s : Mem × ℕ) :
    Prop where
  written : s.2 = min (i * config.numMapEntriesPerBlock) config.numBlocks
  packed : ∀ t < i, BlockPacked k config afsMap t s.1
  ahead : ∀ x, 4096 * i ≤ x → s.1 x = m₀ x

theorem MapPacked.step (hc : config.Tiles)
    (hmap : config.numBlocks * config.mapEntrySz < 2 ^ 32)
    (h : MapPacked k config afsMap m₀ i s)
    (hzero : ∀ x, 4096 * i ≤ x → x < 4096 * (i + 1) → m₀ x = 0) :
    MapPacked k config afsMap m₀ (i + 1) (createMapBlock k config afsMap i s) := by
  obtain ⟨hn, hw⟩ := blockEntries_eq hc.blocks h.written
  have hN := hc.blocks
  refine ⟨?_, fun t ht => ?_, fun x hx => ?_⟩
  · simp only [createMapBlock, hn]
    omega
  · rcases Nat.lt_succ_iff_lt_or_eq.1 ht with hlt | rfl
    · exact (h.packed t hlt).congr hc fun x _ hx =>
        createMapBlock_out hc h.written (.inl (by omega))
    · refine createMapBlock_packed hc hmap h.written fun x hx hx' => ?_
      rw [h.ahead x hx]
      exact hzero x hx hx'
  · rw [createMapBlock_out hc h.written (.inr hx)]
    exact h.ahead x (by omega)

theorem createMapBlocksLoop_packs (hc : config.Tiles)
    (hmap : config.numBlocks * config.mapEntrySz < 2 ^ 32)
    (hzero : ∀ x < alloc, m₀ x = 0) (hi : 4096 * i ≤ alloc) :
    ∃ s, createMapBlocksLoop k config afsMap alloc (m₀, 0) i = some s ∧
      MapPacked k config afsMap m₀ i s := by
  induction i with
  | zero => exact ⟨_, rfl, by simp, by simp, fun _ _ => rfl⟩
  | succ i ih =>
    obtain ⟨s, hs, h⟩ := ih (by omega)
    refine ⟨_, ?_, h.step hc hmap fun x _ hx => hzero x (by omega)⟩
    rw [createMapBlocksLoop, hs, Option.bind_eq_bind, Option.bind_some, if_pos hi]

/-- `afs_create_map_blocks` fails for want of memory only, and never with `-EIO`. -/
theorem afsCreateMapBlocks_eq (hc : ctx.config.Tiles)
    (hmap : ctx.config.numBlocks * ctx.config.mapEntrySz < 2 ^ 32)
    (hblk : 4096 * ctx.config.numMapBlocks < 2 ^ 32) :
    ∃ s, MapPacked k ctx.config ctx.afsMap (fill k.uninit 0 (4096 * ctx.config.numMapBlocks) 0)
        ctx.config.numMapBlocks s ∧
      afsCreateMapBlocks k ctx = if k.vmalloc (4096 * ctx.config.numMapBlocks)
        then some (0, { ctx with afsMapBlocks := s.1 }) else some (-12, ctx) := by
  obtain ⟨s, hs, hpacked⟩ : ∃ s, createMapBlocksLoop k ctx.config ctx.afsMap
      (4096 * ctx.config.numMapBlocks) (fill k.uninit 0 (4096 * ctx.config.numMapBlocks) 0, 0)
      ctx.config.numMapBlocks = some s ∧ MapPacked k ctx.config ctx.afsMap _ _ s :=
    createMapBlocksLoop_packs hc hmap
      (fun x hx => fill_in (Nat.zero_le x) (by rwa [Nat.zero_add])) (le_refl _)
  refine ⟨s, hpacked, ?_⟩
  have hw := hpacked.written
  have hall := hc.lt_numMapBlocks (t := ctx.config.numMapBlocks)
  unfold afsCreateMapBlocks
  simp only [Nat.mod_eq_of_lt hblk, hs, Option.bind_eq_bind, Option.bind_some]
  rw [if_pos (by omega : s.2 = ctx.config.numBlocks)]

/-! ### The tiling -/

/-- The buffer `m` of the map blocks holds each entry of the map in its slot, zeros in the slots that
are left, and each hash; behind the blocks it is as it was allocated. -/
structure MapTiled (k : Kernel) (config : AfsConfig) (afsMap m : Mem) : Prop where
  entry : ∀ e < config.numBlocks,
    Agree m (4096 * (e / config.numMapEntriesPerBlock) + 64 + config.unusedSpacePerBlock +
      e % config.numMapEntriesPerBlock * config.mapEntrySz) afsMap (e * config.mapEntrySz)
      config.mapEntrySz
  rest : ∀ e, config.numBlocks ≤ e → e < config.numMapBlocks * config.numMapEntriesPerBlock →
    ∀ x < config.mapEntrySz,
      m (4096 * (e / config.numMapEntriesPerBlock) + 64 + config.unusedSpacePerBlock +
        e % config.numMapEntriesPerBlock * config.mapEntrySz + x) = 0
  hash : ∀ t < config.numMapBlocks, Agree m (4096 * t)
    (k.sha512 (bytes m (4096 * t + 64 + config.unusedSpacePerBlock)
      (4096 - 64 - config.unusedSpacePerBlock))) 0 64
  outside : ∀ x, 4096 * config.numMapBlocks ≤ x → m x = k.uninit x

theorem slot_le {p sz r n x : ℕ} (hr : r < n) (hn : n ≤ p) (hx : x < sz) :
    r * sz + x < n * sz ∧ n * sz ≤ p * sz := by
  have h1 : (r + 1) * sz ≤ n * sz := Nat.mul_le_mul_right sz hr
  rw [Nat.succ_mul] at h1
  exact ⟨by omega, Nat.mul_le_mul_right sz hn⟩

theorem MapPacked.tiled (hc : config.Tiles) (h : MapPacked k config afsMap
    (fill k.uninit 0 (4096 * config.numMapBlocks) 0) config.numMapBlocks s) :
    MapTiled k config afsMap s.1 := by
  have hp := hc.entries
  refine ⟨fun e he x hx => ?_, fun e he he' x hx => ?_, fun t ht => (h.packed t ht).hash,
    fun x hx => ?_⟩
  · have hdiv := Nat.div_add_mod' e config.numMapEntriesPerBlock
    have hmod := Nat.mod_lt e hp
    have hlt : e % config.numMapEntriesPerBlock <
        blockEntries config (e / config.numMapEntriesPerBlock) := by
      unfold blockEntries
      omega
    obtain ⟨hslot, -⟩ := slot_le hlt (Nat.min_le_left _ _) hx
    have hentry := (h.packed _ (hc.lt_numMapBlocks.2 (by omega))).entries _ hslot
    rw [Nat.add_assoc, hentry]
    congr 1
    conv_rhs => rw [← hdiv, Nat.add_mul]
    rw [Nat.add_assoc]
  · have hdiv := Nat.div_add_mod' e config.numMapEntriesPerBlock
    have hmod := Nat.mod_lt e hp
    have hlt : e / config.numMapEntriesPerBlock < config.numMapBlocks :=
      Nat.div_lt_of_lt_mul (by rwa [Nat.mul_comm])
    have hle : blockEntries config (e / config.numMapEntriesPerBlock) ≤
        e % config.numMapEntriesPerBlock := by
      unfold blockEntries
      omega
    have hfirst := Nat.mul_le_mul_right config.mapEntrySz hle
    obtain ⟨hslot, -⟩ := slot_le hmod (le_refl _) hx
    have hblock := hc.block
    rw [Nat.add_assoc]
    exact (h.packed _ hlt).rest _ (by omega) (by omega)
  · rw [h.ahead x hx, fill_out (by omega)]

/-- **The map blocks cover every entry of the map once.** For every configuration that is built,
where the two buffers have sizes below `2 ^ 32`, `afs_create_map_blocks` tiles the map unless it gets
no memory; it never finds that it "wrote incorrect amount". -/
theorem afsCreateMapBlocks_tiles (base : AfsConfig) (numCarrierBlocks numEntropyBlocks : ℕ)
    (hsz : (32 + 8 + 6 * numCarrierBlocks) % 2 ^ 8 ≠ 0)
    (hcfg : ctx.config = buildConfiguration base numCarrierBlocks numEntropyBlocks)
    (hmap : ctx.config.numBlocks * ctx.config.mapEntrySz < 2 ^ 32)
    (hblk : ctx.config.numMapBlocks * 4096 < 2 ^ 32) :
    ∃ m, MapTiled k ctx.config ctx.afsMap m ∧
      afsCreateMapBlocks k ctx = if k.vmalloc (4096 * ctx.config.numMapBlocks)
        then some (0, { ctx with afsMapBlocks := m }) else some (-12, ctx) := by
  have hc : ctx.config.Tiles := hcfg ▸ buildConfiguration_tiles base numEntropyBlocks hsz
  obtain ⟨s, hpacked, heq⟩ := afsCreateMapBlocks_eq (k := k) hc hmap (by omega)
  exact ⟨s.1, hpacked.tiled hc, heq⟩

end

/-- The map of 16 data blocks, in one map block. -/
theorem afsCreateMapBlocks_tiles_small :
    ∃ m, MapTiled (constKernel 1) (smallContext []).config (fun _ => 0) m ∧
      afsCreateMapBlocks (constKernel 1) (smallContext []) =
        if (constKernel 1).vmalloc (4096 * (smallContext []).config.numMapBlocks)
        then some (0, { smallContext [] with afsMapBlocks := m }) else some (-12, smallContext []) :=
  afsCreateMapBlocks_tiles (sizedConfig 16) 4 1 (by decide) rfl (by decide) (by decide)

end Artifice
