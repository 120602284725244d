import Artifice.Metadata.MapBlocks
import Artifice.Metadata.CreateMap

/-!
The map on its way to the device and back: `afs_create_map_blocks` packs it into map blocks,
`write_ptr_blocks` writes them, `afs_fill_map` reads them at the next mount.

The loop of `afs_fill_map` over the slots of a pointer block does not advance, so from the 976-th
map block on it reads the same map block again (`afsFillMap_spec`).
-/

namespace Artifice

open Lib

/-- The configuration of a map whose buffer has a size below `2 ^ 32`. -/
structure AfsConfig.MapFits (c : AfsConfig) : Prop extends c.Ok where
  map : c.numBlocks * c.mapEntrySz < 2 ^ 32

/-- The same for the buffer of the map blocks. -/
structure AfsConfig.Fits (c : AfsConfig) : Prop extends c.MapFits where
  mapBlk : 4096 * c.numMapBlocks < 2 ^ 32

/-! ### Packing the map -/

section Create

variable {k : Kernel} {ctx ctx' : AfsPrivate}

theorem afsCreateMapBlocks_returns (hc : ctx.config.Fits)
    (hv : k.vmalloc (4096 * ctx.config.numMapBlocks) = true) :
    ∃ ctx₁, afsCreateMapBlocks k ctx = some (0, ctx₁) := by
  obtain ⟨s, -, heq⟩ := afsCreateMapBlocks_eq (k := k) hc.tiles hc.map hc.mapBlk
  rw [heq, if_pos hv]
  exact ⟨_, rfl⟩

/-- **The map blocks of `afs_create_map_blocks`.** Map block `t` holds its entries behind the hash
and the unused space. -/
theorem afsCreateMapBlocks_spec (hc : ctx.config.Fits)
    (h : afsCreateMapBlocks k ctx = some (0, ctx')) :
    0 < ctx.config.numMapBlocks ∧ (∃ m, ctx' = { ctx with afsMapBlocks := m }) ∧
      ∀ t < ctx.config.numMapBlocks,
        Agree ctx'.afsMapBlocks (4096 * t + 64 + ctx.config.unusedSpacePerBlock) ctx.afsMap
          (t * ctx.config.numMapEntriesPerBlock * ctx.config.mapEntrySz)
          (blockEntries ctx.config t * ctx.config.mapEntrySz) := by
  obtain ⟨s, hpacked, heq⟩ := afsCreateMapBlocks_eq (k := k) hc.tiles hc.map hc.mapBlk
  rw [heq] at h
  split_ifs at h with hv
  · obtain rfl : { ctx with afsMapBlocks := s.1 } = ctx' :=
      (Prod.mk.inj (Option.some.inj h)).2
    refine ⟨Nat.pos_of_ne_zero fun h0 => ?_, ⟨s.1, rfl⟩, fun t ht => (hpacked.packed t ht).entries⟩
    rw [h0, Nat.mul_zero, k.vmalloc_zero] at hv
    exact absurd hv Bool.false_ne_true
  · exact absurd (Prod.mk.inj (Option.some.inj h)).1 (by decide)

end Create

/-! ### Reading it back -/

section Fill

variable {k : Kernel} {ctx ctx₀ : AfsPrivate} {config : AfsConfig} {afsMap : Mem} {b t i : ℕ}
  {S : Set ℕ} {s : AfsPrivate × ℕ}

/-- The first `t` map blocks have been read, map block `j` from the contents of map block
`min j 975`, and the blocks in `S` have been marked. -/
structure MapRead (ctx₀ : AfsPrivate) (afsMap : Mem) (S : Set ℕ) (t : ℕ) (s : AfsPrivate × ℕ) :
    Prop where
  config : s.1.config = ctx₀.config
  passiveFs : s.1.passiveFs = ctx₀.passiveFs
  disk : s.1.disk = ctx₀.disk
  marked : Marked ctx₀.vector s.1.vector S
  read : s.2 = min (t * ctx₀.config.numMapEntriesPerBlock) ctx₀.config.numBlocks
  entries : ∀ j < t, Agree s.1.afsMap
    (j * ctx₀.config.numMapEntriesPerBlock * ctx₀.config.mapEntrySz) afsMap
    (min j 975 * ctx₀.config.numMapEntriesPerBlock * ctx₀.config.mapEntrySz)
    (blockEntries ctx₀.config j * ctx₀.config.mapEntrySz)

/-- Block `b` of the device holds the entries of map block `t`. -/
def HoldsEntries (ctx : AfsPrivate) (afsMap : Mem) (b t : ℕ) : Prop :=
  Agree ctx.disk (512 * pageSector b ctx.passiveFs.dataStartOff + 64
      + ctx.config.unusedSpacePerBlock) afsMap
    (t * ctx.config.numMapEntriesPerBlock * ctx.config.mapEntrySz)
    (blockEntries ctx.config t * ctx.config.mapEntrySz)

theorem blockEntries_anti {j : ℕ} (h : j ≤ t) : blockEntries config t ≤ blockEntries config j := by
  have := Nat.mul_le_mul_right config.numMapEntriesPerBlock h
  unfold blockEntries
  omega

theorem entries_before {j : ℕ} (h : j < t) :
    j * config.numMapEntriesPerBlock * config.mapEntrySz
      + blockEntries config j * config.mapEntrySz
      ≤ t * config.numMapEntriesPerBlock * config.mapEntrySz := by
  rw [← Nat.add_mul]
  refine Nat.mul_le_mul_right _ ?_
  have := Nat.mul_le_mul_right config.numMapEntriesPerBlock (Nat.succ_le_of_lt h)
  rw [Nat.succ_mul] at this
  unfold blockEntries
  omega

theorem MapRead.copy (hc : ctx₀.config.MapFits) (h : MapRead ctx₀ afsMap S t s)
    (hs : s.2 = t * ctx₀.config.numMapEntriesPerBlock)
    (hb : HoldsEntries ctx₀ afsMap b (min t 975)) (page : Mem) {s' : AfsPrivate × ℕ}
    (hcfg : s'.1.config = ctx₀.config) (hfs : s'.1.passiveFs = ctx₀.passiveFs)
    (hdisk : s'.1.disk = ctx₀.disk) (hvec : s'.1.vector = (mark s.1 b).vector)
    (hmap : s'.1.afsMap = blit s.1.afsMap (s.2 * ctx₀.config.mapEntrySz)
      (readPage page 0 ctx₀.disk b ctx₀.passiveFs.dataStartOff)
      (64 + ctx₀.config.unusedSpacePerBlock)
      (blockEntries ctx₀.config t * ctx₀.config.mapEntrySz))
    (hread : s'.2 = (s.2 + blockEntries ctx₀.config t) % 2 ^ 32) :
    MapRead ctx₀ afsMap (insert b S) (t + 1) s' := by
  obtain ⟨-, hw⟩ := blockEntries_eq hc.blocks h.read
  have hN := hc.blocks
  have hmark : Marked ctx₀.vector s'.1.vector (insert b S) := by
    rw [hvec, mark, allocationSet_eq]
    exact h.marked.mark b
  refine ⟨hcfg, hfs, hdisk, hmark, by omega, fun j hj => ?_⟩
  rw [hmap, hs]
  rcases Nat.lt_succ_iff_lt_or_eq.1 hj with hlt | rfl
  · exact (agree_blit_out (Or.inl (entries_before hlt))).trans (h.entries j hlt)
  · have hle : blockEntries ctx₀.config j * ctx₀.config.mapEntrySz
        ≤ blockEntries ctx₀.config (min j 975) * ctx₀.config.mapEntrySz :=
      Nat.mul_le_mul_right _ (blockEntries_anti (Nat.min_le_left j 975))
    have hpage : Agree (readPage page 0 ctx₀.disk b ctx₀.passiveFs.dataStartOff) 0 ctx₀.disk
        (512 * pageSector b ctx₀.passiveFs.dataStartOff) 4096 := agree_readPage
    have hpage := hpage.sub (j := 64 + ctx₀.config.unusedSpacePerBlock)
      (k := blockEntries ctx₀.config j * ctx₀.config.mapEntrySz) (hc.tiles.entries_le j)
    rw [Nat.zero_add, ← Nat.add_assoc] at hpage
    exact (agree_blit _ _ _ _ _).trans (hpage.trans (hb.sub (j := 0) (by omega)))

theorem MapRead.step (hc : ctx₀.config.MapFits) (h : MapRead ctx₀ afsMap S t s)
    (ht : t < ctx₀.config.numMapBlocks) (hb : HoldsEntries ctx₀ afsMap b (min t 975)) :
    ∃ f, fillMapBlock k b s = some f ∧ f.Sat
      (fun s' => t + 1 < ctx₀.config.numMapBlocks ∧ MapRead ctx₀ afsMap (insert b S) (t + 1) s')
      (fun s' => t + 1 = ctx₀.config.numMapBlocks ∧ MapRead ctx₀ afsMap (insert b S) (t + 1) s')
      (fun _ _ => False) := by
  have hlt := hc.tiles.lt_numMapBlocks.1 ht
  have hs : s.2 = t * ctx₀.config.numMapEntriesPerBlock := by
    have := h.read
    omega
  obtain ⟨hn, hw⟩ := blockEntries_eq hc.blocks h.read
  have hnext := hc.tiles.lt_numMapBlocks (t := t + 1)
  rw [Nat.succ_mul] at hw hnext
  have hN := hc.blocks
  have hbound : s.2 * ctx₀.config.mapEntrySz + blockEntries ctx₀.config t * ctx₀.config.mapEntrySz
      ≤ ctx₀.config.numBlocks * ctx₀.config.mapEntrySz := by
    rw [← Nat.add_mul]
    exact Nat.mul_le_mul_right _ (by omega)
  have hround := le_pageRound (ctx₀.config.numBlocks * ctx₀.config.mapEntrySz)
  have hmap := hc.map
  have hcfg : (mark s.1 b).config = ctx₀.config := h.config
  have hfs : (mark s.1 b).passiveFs = ctx₀.passiveFs := h.passiveFs
  have hdisk : (mark s.1 b).disk = ctx₀.disk := h.disk
  simp only [fillMapBlock, hcfg, hfs, hdisk, Nat.mod_eq_of_lt hmap,
    Nat.mod_eq_of_lt (show s.2 * ctx₀.config.mapEntrySz < 2 ^ 32 by omega)]
  by_cases hlast : (ctx₀.config.numBlocks + 2 ^ 32 - s.2) % 2 ^ 32
      ≤ ctx₀.config.numMapEntriesPerBlock
  · rw [if_pos hlast] at hn
    rw [if_pos hlast, hn, if_pos (by omega)]
    exact ⟨_, rfl, by omega, h.copy hc hs hb k.uninit rfl rfl rfl rfl rfl rfl⟩
  · rw [if_neg hlast] at hn
    rw [if_neg hlast, hn, if_pos (by omega)]
    exact ⟨_, rfl, by omega, h.copy hc hs hb k.uninit rfl rfl rfl rfl rfl rfl⟩

/-- The loop over a pointer block, which stays on its first slot, reads all map blocks that are
left and counts them in `i`. -/
theorem fillMapPb_spec (hc : ctx₀.config.MapFits) {ptrBlock : Mem} {rounds : ℕ}
    (hb : HoldsEntries ctx₀ afsMap (le ptrBlock 16 4) 975) (h975 : 975 ≤ t)
    (ht : t < ctx₀.config.numMapBlocks) (h : MapRead ctx₀ afsMap S t s)
    (hr : ctx₀.config.numMapBlocks - t ≤ rounds)
    (hi : i + (ctx₀.config.numMapBlocks - t) < 2 ^ 32) :
    ∃ s', fillMapPb k ptrBlock rounds i s = some (i + (ctx₀.config.numMapBlocks - 1 - t), s') ∧
      MapRead ctx₀ afsMap (insert (le ptrBlock 16 4) S) ctx₀.config.numMapBlocks s' := by
  induction rounds generalizing t i s S with
  | zero => omega
  | succ r ih =>
    have hmin : HoldsEntries ctx₀ afsMap (le ptrBlock 16 4) (min t 975) := by
      rwa [Nat.min_eq_right h975]
    obtain ⟨f, hf, hsat⟩ := h.step (k := k) hc ht hmin
    rw [fillMapPb, hf, Option.bind_eq_bind, Option.bind_some]
    cases f with
    | next s' =>
      obtain ⟨hlt, hread⟩ := hsat
      obtain ⟨s'', hs, hread'⟩ := ih (i := i + 1) (by omega) hlt hread (by omega) (by omega)
      rw [Set.insert_eq_of_mem (Set.mem_insert _ _)] at hread'
      simp only
      rw [Nat.mod_eq_of_lt (by omega), hs]
      exact ⟨s'', by rw [show i + 1 + (ctx₀.config.numMapBlocks - 1 - (t + 1))
        = i + (ctx₀.config.numMapBlocks - 1 - t) by omega], hread'⟩
    | brk s' =>
      obtain ⟨heq, hread⟩ := hsat
      rw [← heq, Nat.add_sub_cancel, Nat.sub_self]
      exact ⟨s', rfl, hread⟩
    | ret c s' => exact hsat.elim

/-- The map blocks that `afs_fill_map` gets to see are where `sb` says: those of its slots, and
the one of the first slot of the first pointer block. -/
structure MapOnDisk (ctx : AfsPrivate) (sb afsMap : Mem) : Prop where
  sbSlot : ∀ t < 975, t < ctx.config.numMapBlocks →
    HoldsEntries ctx afsMap (le sb (192 + 4 * t) 4) t
  ptrSlot : 975 < ctx.config.numMapBlocks → HoldsEntries ctx afsMap
    (le ctx.disk (512 * pageSector (le sb 4092 4) ctx.passiveFs.dataStartOff + 16) 4) 975

/-- The map block pointers in the first `t` slots of `sb`. -/
def sbPtrs (sb : Mem) (t : ℕ) : Set ℕ := {b | ∃ i < t, b = le sb (192 + 4 * i) 4}

theorem insert_sbPtrs (sb : Mem) (t : ℕ) :
    insert (le sb (192 + 4 * t) 4) (sbPtrs sb t) = sbPtrs sb (t + 1) := by
  ext b
  simp only [sbPtrs, Set.mem_insert_iff, Set.mem_ofPred_eq, Nat.lt_succ_iff_lt_or_eq]
  constructor
  · rintro (rfl | ⟨i, hi, rfl⟩)
    exacts [⟨t, Or.inr rfl, rfl⟩, ⟨i, Or.inl hi, rfl⟩]
  · rintro ⟨i, hi | rfl, rfl⟩
    exacts [Or.inr ⟨i, hi, rfl⟩, Or.inl rfl]

/-- The blocks that `afs_fill_map` reads, and marks. -/
def readBlocks (ctx : AfsPrivate) (sb : Mem) : Set ℕ :=
  if ctx.config.numMapBlocks ≤ 975 then sbPtrs sb ctx.config.numMapBlocks
  else insert (le ctx.disk (512 * pageSector (le sb 4092 4) ctx.passiveFs.dataStartOff + 16) 4)
    (insert (le sb 4092 4) (sbPtrs sb 975))

theorem fillMapPtrBlocks_spec (hc : ctx₀.config.MapFits) {sb : Mem} (hd : MapOnDisk ctx₀ sb afsMap)
    (h975 : 975 < ctx₀.config.numMapBlocks) (h : MapRead ctx₀ afsMap (sbPtrs sb 975) 975 s)
    (page : Mem) :
    ∃ s', fillMapPtrBlocks k sb (ctx₀.config.numPtrBlocks + 1) 0 page s = some s' ∧
      MapRead ctx₀ afsMap (readBlocks ctx₀ sb) ctx₀.config.numMapBlocks s' := by
  have hptr := hc.ptrBlocks
  have hsize := hc.blocks
  have hle : ctx₀.config.numMapBlocks ≤ ctx₀.config.numBlocks := by
    rw [hc.mapBlocks]
    exact ceil_le _ hc.entries
  set ptrBlock := readPage page 0 s.1.disk (le sb 4092 4) s.1.passiveFs.dataStartOff with hpb
  have hptrSlot : le ptrBlock 16 4 = le ctx₀.disk
      (512 * pageSector (le sb 4092 4) ctx₀.passiveFs.dataStartOff + 16) 4 := by
    have hpage : Agree ptrBlock 16 s.1.disk
        (512 * pageSector (le sb 4092 4) s.1.passiveFs.dataStartOff + 16) 4 :=
      agree_readPage.sub (j := 16) (by norm_num)
    rw [le_congr hpage, h.disk, h.passiveFs]
  have hslot : HoldsEntries ctx₀ afsMap (le ptrBlock 16 4) 975 := by
    rw [hptrSlot]
    exact hd.ptrSlot h975
  have hmark : MapRead ctx₀ afsMap (insert (le sb 4092 4) (sbPtrs sb 975)) 975
      (mark s.1 (le sb 4092 4), s.2) := by
    refine ⟨h.config, h.passiveFs, h.disk, ?_, h.read, h.entries⟩
    simp only [mark, allocationSet_eq]
    exact h.marked.mark _
  obtain ⟨s', hs', hread⟩ : ∃ s', fillMapPb k ptrBlock (ctx₀.config.numBlocks + 1) 0
      (mark s.1 (le sb 4092 4), s.2) = some (0 + (ctx₀.config.numMapBlocks - 1 - 975), s') ∧ _ :=
    fillMapPb_spec hc hslot (le_refl 975) h975 hmark (by omega) (by omega)
  rw [hptrSlot] at hread
  rw [readBlocks, if_neg (by omega), fillMapPtrBlocks, h.config, if_pos (by omega)]
  simp only [if_true, Option.bind_eq_bind]
  rw [← hpb, hs', Option.bind_some]
  obtain ⟨n, hn⟩ : ∃ n, ctx₀.config.numPtrBlocks = n + 1 :=
    ⟨ctx₀.config.numPtrBlocks - 1, by omega⟩
  simp only
  rw [hn, fillMapPtrBlocks, hread.config, if_neg (by omega)]
  exact ⟨s', rfl, hread⟩

/-- **What `afs_fill_map` fills.** It returns 0, with map block `t` read from the contents of map
block `min t 975`, and the blocks it has read are marked. -/
theorem afsFillMap_spec (hc : ctx₀.config.MapFits) {sb : Mem} (hd : MapOnDisk ctx₀ sb afsMap)
    (hpos : 0 < ctx₀.config.numMapBlocks) (hk : k.kmalloc 4096 = true) :
    ∃ ctx, afsFillMap k sb ctx₀ = some (0, ctx) ∧
      MapRead ctx₀ afsMap (readBlocks ctx₀ sb) ctx₀.config.numMapBlocks
        (ctx, ctx₀.config.numBlocks) := by
  have hptr := hc.ptrBlocks
  have hend : ∀ s S, MapRead ctx₀ afsMap S ctx₀.config.numMapBlocks s →
      s = (s.1, ctx₀.config.numBlocks) := by
    intro s S hs
    have h1 := hs.read
    have h2 := hc.tiles.lt_numMapBlocks (t := ctx₀.config.numMapBlocks)
    exact Prod.ext rfl (by simp only; omega)
  -- the rounds over the super block: one map block each, until the last one is read
  obtain ⟨f, hf, hsat⟩ : ∃ f, fillMapSb k sb 975 0 (ctx₀, 0) = some f ∧ _ := forLoop_total
    (I := fun i s => i < ctx₀.config.numMapBlocks ∧ MapRead ctx₀ afsMap (sbPtrs sb i) i s)
    (B := fun s => ctx₀.config.numMapBlocks ≤ 975 ∧
      MapRead ctx₀ afsMap (sbPtrs sb ctx₀.config.numMapBlocks) ctx₀.config.numMapBlocks s)
    (R := fun _ _ => False)
    (fun i s _ hi hs => by
      have hb := hd.sbSlot i (by omega) hs.1
      rw [← Nat.min_eq_left (show i ≤ 975 by omega)] at hb
      obtain ⟨g, hg, hgs⟩ := hs.2.step (k := k) hc hs.1 hb
      rw [Nat.min_eq_left (show i ≤ 975 by omega)] at hg hgs
      rw [insert_sbPtrs] at hgs
      exact ⟨g, hg, hgs.mono (fun _ => id) (fun s' h' => ⟨by omega, h'.1 ▸ h'.2⟩)
        (fun _ _ => id)⟩)
    ⟨hpos, rfl, rfl, rfl, by simpa [sbPtrs] using Marked.refl ctx₀.vector, by simp, by simp⟩
  simp only [afsFillMap, hk, if_true, Option.bind_eq_bind]
  rw [hf, Option.bind_some]
  cases f with
  | ret c s => exact hsat.elim
  | brk s => exact hsat.elim
  | next s =>
    simp only
    rcases hsat with ⟨hlt, hread⟩ | ⟨hle, hread⟩
    · obtain ⟨s', hs', hread'⟩ := fillMapPtrBlocks_spec (k := k) hc hd (by omega) hread k.uninit
      rw [hs', Option.bind_some, hend s' _ hread', if_pos rfl]
      exact ⟨s'.1, rfl, hend s' _ hread' ▸ hread'⟩
    · rw [fillMapPtrBlocks, hread.config, if_neg (by omega), Option.bind_some, hend s _ hread,
        if_pos rfl, readBlocks, if_pos hle]
      exact ⟨s.1, rfl, hend s _ hread ▸ hread⟩

end Fill

/-! ### Through a mount -/

section RoundTrip

variable {k k' : Kernel} {ctx ctx' ctx₁ ctx₂ : AfsPrivate} {sb pb afsMap : Mem} {e : ℕ}

/-- The map entry whose bytes `afs_fill_map` puts in entry `e`. -/
def sourceEntry (config : AfsConfig) (e : ℕ) : ℕ :=
  min (e / config.numMapEntriesPerBlock) 975 * config.numMapEntriesPerBlock
    + e % config.numMapEntriesPerBlock

theorem MapRead.entry (hok : ctx.config.Ok) {s : AfsPrivate × ℕ} {S : Set ℕ}
    (h : MapRead ctx afsMap S ctx.config.numMapBlocks s) (he : e < ctx.config.numBlocks) :
    Agree s.1.afsMap (e * ctx.config.mapEntrySz) afsMap
      (sourceEntry ctx.config e * ctx.config.mapEntrySz) ctx.config.mapEntrySz := by
  have hp := hok.entries
  have hdm := Nat.div_add_mod' e ctx.config.numMapEntriesPerBlock
  have hlt : e / ctx.config.numMapEntriesPerBlock < ctx.config.numMapBlocks :=
    hok.tiles.lt_numMapBlocks.2 (by omega)
  have hq : e % ctx.config.numMapEntriesPerBlock + 1
      ≤ blockEntries ctx.config (e / ctx.config.numMapEntriesPerBlock) := by
    have := Nat.mod_lt e hp
    unfold blockEntries
    omega
  have hsub := Nat.mul_le_mul_right ctx.config.mapEntrySz hq
  rw [Nat.succ_mul] at hsub
  have := (h.entries _ hlt).sub hsub
  rwa [← Nat.add_mul, ← Nat.add_mul, hdm] at this

theorem sourceEntry_eq (hok : ctx.config.Ok)
    (he : e < 976 * ctx.config.numMapEntriesPerBlock) : sourceEntry ctx.config e = e := by
  have hlt : e / ctx.config.numMapEntriesPerBlock < 976 :=
    (Nat.div_lt_iff_lt_mul hok.entries).2 he
  rw [sourceEntry, Nat.min_eq_left (by omega), Nat.div_add_mod']

theorem sourceEntry_ge (hok : ctx.config.Ok)
    (he : 976 * ctx.config.numMapEntriesPerBlock ≤ e) : sourceEntry ctx.config e =
      975 * ctx.config.numMapEntriesPerBlock + e % ctx.config.numMapEntriesPerBlock := by
  have hge : 976 ≤ e / ctx.config.numMapEntriesPerBlock :=
    (Nat.le_div_iff_mul_le hok.entries).2 he
  rw [sourceEntry, Nat.min_eq_right (by omega)]

/-- A run that writes the map of `ctx` and leaves `ctx₂`: the map blocks are packed, the pointer
blocks and the super block start from any contents, and `write_ptr_blocks` returns 0. -/
structure MapSaved (k : Kernel) (ctx ctx₂ : AfsPrivate) : Prop where
  fits : ctx.config.Fits
  blocks : SmallBlocks ctx.passiveFs
  run : ∃ ctx₁ sb pb, afsCreateMapBlocks k ctx = some (0, ctx₁) ∧
    writePtrBlocks k { ctx₁ with superBlock := sb, afsPtrBlocks := pb } = some (0, ctx₂)

theorem MapSaved.onDisk (h : MapSaved k ctx ctx₂) (hcfg : ctx'.config = ctx.config)
    (hoff : ctx'.passiveFs.dataStartOff = ctx.passiveFs.dataStartOff)
    (hdisk : ctx'.disk = ctx₂.disk) :
    0 < ctx.config.numMapBlocks ∧ MapOnDisk ctx' ctx₂.superBlock ctx.afsMap := by
  obtain ⟨hc, hfs, ctx₁, sb, pb, hcreate, hwrite⟩ := h
  obtain ⟨hpos, ⟨m, rfl⟩, hpacked⟩ := afsCreateMapBlocks_spec hc hcreate
  have hfs' : SmallBlocks ctx₂.passiveFs := by
    rw [(sameMap_writePtrBlocks hwrite).passiveFs]
    exact hfs
  obtain ⟨a, c, hw⟩ := writePtrBlocks_spec hwrite hc.toOk.indexed hfs'.handedOut
  have hfs₂ : ctx₂.passiveFs = ctx.passiveFs := hw.map.same.passiveFs
  -- map block `t` is at block `a t`
  have hpage : ∀ t < ctx.config.numMapBlocks, HoldsEntries ctx' ctx.afsMap (a t) t := by
    intro t ht
    have h1 := hw.map.page t ht
    have h2 := h1.sub (j := 64 + ctx.config.unusedSpacePerBlock)
      (k := blockEntries ctx.config t * ctx.config.mapEntrySz) (hc.tiles.entries_le t)
    rw [← Nat.add_assoc, ← Nat.add_assoc, hfs₂] at h2
    rw [HoldsEntries, hcfg, hoff, hdisk]
    exact h2.trans (hpacked t ht)
  refine ⟨hpos, fun t h975 ht => ?_, fun h975 => ?_⟩
  · have hslot := hw.map.slot t (hcfg ▸ ht)
    rw [slotOf_sb h975] at hslot
    simp only [slotGet] at hslot
    rw [hslot]
    exact hpage t (hcfg ▸ ht)
  · rw [hcfg] at h975
    have hptr : 0 < ctx.config.numPtrBlocks := by
      rw [hc.ptrBlocks]
      omega
    have hslot := hw.map.slot 975 h975
    rw [show slotOf 975 = .pb 0 0 by rfl] at hslot
    simp only [slotGet, Nat.mul_zero, Nat.zero_add, Nat.add_zero] at hslot
    have h1 := (hw.page 0 (le_refl 0) hptr).sub (j := 16) (k := 4) (by norm_num)
    rw [hfs₂] at h1
    rw [hdisk, hoff, hw.first rfl hptr, le_congr h1]
    simp only [Nat.mul_zero, Nat.zero_add]
    rw [hslot]
    exact hpage 975 h975

/-- `afs_fill_map` returns 0 with the map of `ctx`, byte for byte. -/
def Restores (k : Kernel) (sb : Mem) (ctx' ctx : AfsPrivate) : Prop :=
  ∃ ctx₃, afsFillMap k sb ctx' = some (0, ctx₃) ∧
    Agree ctx₃.afsMap 0 ctx.afsMap 0 (ctx.config.numBlocks * ctx.config.mapEntrySz)

theorem MapSaved.restores_iff (h : MapSaved k ctx ctx₂) (hcfg : ctx'.config = ctx.config)
    (hoff : ctx'.passiveFs.dataStartOff = ctx.passiveFs.dataStartOff)
    (hdisk : ctx'.disk = ctx₂.disk) (hk : k'.kmalloc 4096 = true) :
    Restores k' ctx₂.superBlock ctx' ctx ↔
      ∀ e, 976 * ctx.config.numMapEntriesPerBlock ≤ e → e < ctx.config.numBlocks →
        Agree ctx.afsMap (e * ctx.config.mapEntrySz) ctx.afsMap
          ((975 * ctx.config.numMapEntriesPerBlock + e % ctx.config.numMapEntriesPerBlock)
            * ctx.config.mapEntrySz) ctx.config.mapEntrySz := by
  have hok := h.fits.toOk
  obtain ⟨hpos, hd⟩ := h.onDisk hcfg hoff hdisk
  obtain ⟨ctx₃, hfill, hread⟩ := afsFillMap_spec (k := k') (hcfg ▸ h.fits.toMapFits) hd (hcfg ▸ hpos) hk
  have hentry := fun e => hread.entry (e := e) (hcfg ▸ hok)
  rw [hcfg] at hentry
  simp only [Restores, agree_records_iff, hfill, Option.some.injEq, Prod.mk.injEq, true_and,
    exists_eq_left']
  constructor
  · intro hall e hge hlt
    have := (hall e hlt).symm.trans (hentry e hlt)
    rwa [sourceEntry_ge hok hge] at this
  · intro hall e hlt
    have hread := hentry e hlt
    rcases Nat.lt_or_ge e (976 * ctx.config.numMapEntriesPerBlock) with hsmall | hge
    · rwa [sourceEntry_eq hok hsmall] at hread
    · rw [sourceEntry_ge hok hge] at hread
      exact hread.trans (hall e hge hlt).symm

/-- **The map through a mount.** `afs_fill_map` restores the map that was written exactly when
every entry past the 976-th map block holds what the entry at the same place of that map block
holds; in particular whenever there are no more than 976 map blocks. -/
theorem map_restored_iff {config : AfsConfig} {numCarrierBlocks numEntropyBlocks : ℕ}
    (hcfg : ctx.config = buildConfiguration config numCarrierBlocks numEntropyBlocks)
    (h1 : 1 ≤ numCarrierBlocks) (h8 : numCarrierBlocks ≤ 8)
    (hmap : ctx.config.numBlocks * ctx.config.mapEntrySz < 2 ^ 32)
    (hblk : 4096 * ctx.config.numMapBlocks < 2 ^ 32) (hfs : SmallBlocks ctx.passiveFs)
    (hcreate : afsCreateMapBlocks k ctx = some (0, ctx₁))
    (hwrite : writePtrBlocks k { ctx₁ with superBlock := sb, afsPtrBlocks := pb }
      = some (0, ctx₂))
    (hcfg' : ctx'.config = ctx.config)
    (hoff : ctx'.passiveFs.dataStartOff = ctx.passiveFs.dataStartOff)
    (hdisk : ctx'.disk = ctx₂.disk) (hk : k'.kmalloc 4096 = true) :
    Restores k' ctx₂.superBlock ctx' ctx ↔
      ∀ e, 976 * ctx.config.numMapEntriesPerBlock ≤ e → e < ctx.config.numBlocks →
        Agree ctx.afsMap (e * ctx.config.mapEntrySz) ctx.afsMap
          ((975 * ctx.config.numMapEntriesPerBlock + e % ctx.config.numMapEntriesPerBlock)
            * ctx.config.mapEntrySz) ctx.config.mapEntrySz := by
  have hok : ctx.config.Ok := hcfg ▸ buildConfiguration_ok config numEntropyBlocks h1 h8
  have hsaved : MapSaved k ctx ctx₂ := ⟨⟨⟨hok, hmap⟩, hblk⟩, hfs, ctx₁, sb, pb, hcreate, hwrite⟩
  exact hsaved.restores_iff hcfg' hoff hdisk hk

end RoundTrip

/-- An instance of 61489 blocks, one more than 976 map blocks describe, with 1000 free blocks and
a map that is zero but for the first byte of its last entry. -/
def bigContext : AfsPrivate :=
  { smallContext (List.range 1000) with
    config := buildConfiguration (sizedConfig 61489) 4 1
    afsMap := fun i => if i = 976 * 63 * 64 then 1 else 0
    random := List.range' 0 1000 }

theorem bigContext_config : bigContext.config.numBlocks = 61489 ∧
    bigContext.config.mapEntrySz = 64 ∧ bigContext.config.numMapEntriesPerBlock = 63 ∧
    bigContext.config.numMapBlocks = 977 ∧ bigContext.config.numPtrBlocks = 1 := by
  decide +kernel

theorem freeList_small (l : List ℕ) : (smallContext l).passiveFs.freeList = l :=
  List.take_length

theorem smallBlocks_range {n : ℕ} (h : n ≤ 2 ^ 20) :
    SmallBlocks (smallContext (List.range n)).passiveFs := by
  refine ⟨?_, fun b hb => ?_⟩
  · rw [freeList_small]
    exact List.nodup_range
  · rw [freeList_small, List.mem_range] at hb
    omega

theorem ready_range {ctx : AfsPrivate} {n : ℕ} (hn : n ≤ 2 ^ 20)
    (hfs : ctx.passiveFs = (smallContext (List.range n)).passiveFs)
    (hv : ctx.vector = (smallContext []).vector) (hr : ctx.random = List.range' 0 n) :
    Ready ctx 0 n := by
  refine ⟨⟨[], by rw [hr, List.append_nil]⟩, ?_, ?_, ?_, ?_⟩
  · rw [hfs]
    simp [smallContext]
  · rw [hv]
    simp only [smallContext]
    omega
  · intro q _
    rw [hv]
    rfl
  · rw [hfs, freeList_small, List.mem_range, afsInvalidBlock]
    omega

/-- The map of the small instance, in one map block, is restored. -/
theorem map_restored_small :
    ∃ ctx₁ ctx₂, afsCreateMapBlocks (constKernel 1) (smallContext (List.range 3))
        = some (0, ctx₁) ∧
      writePtrBlocks (constKernel 1) ctx₁ = some (0, ctx₂) ∧
      Restores (constKernel 1) ctx₂.superBlock
        { smallContext (List.range 3) with disk := ctx₂.disk } (smallContext (List.range 3)) := by
  have hcfg : (smallContext (List.range 3)).config.numBlocks = 16 ∧
      (smallContext (List.range 3)).config.mapEntrySz = 64 ∧
      (smallContext (List.range 3)).config.numMapEntriesPerBlock = 63 ∧
      (smallContext (List.range 3)).config.numMapBlocks = 1 := by
    decide +kernel
  obtain ⟨hN, hsz, hp, hM⟩ := hcfg
  have hret : ((afsCreateMapBlocks (constKernel 1) (smallContext (List.range 3))).bind fun r =>
      (writePtrBlocks (constKernel 1) r.2).map fun q => (r.1, q.1)) = some (0, 0) := by
    decide +kernel
  obtain ⟨⟨r, ctx₁⟩, hcreate, hret⟩ := Option.bind_eq_some_iff.1 hret
  obtain ⟨⟨q, ctx₂⟩, hwrite, heq⟩ := Option.map_eq_some_iff.1 hret
  simp only [Prod.mk.injEq] at heq
  obtain ⟨rfl, rfl⟩ := heq
  have hbuilt : (smallContext (List.range 3)).config = buildConfiguration (sizedConfig 16) 4 1 :=
    rfl
  have hwrite' : writePtrBlocks (constKernel 1) { ctx₁ with
    superBlock := ctx₁.superBlock, afsPtrBlocks := ctx₁.afsPtrBlocks } = some (0, ctx₂) := hwrite
  have hmap : (smallContext (List.range 3)).config.numBlocks
      * (smallContext (List.range 3)).config.mapEntrySz < 2 ^ 32 := by
    rw [hN, hsz]
    norm_num
  have hblk : 4096 * (smallContext (List.range 3)).config.numMapBlocks < 2 ^ 32 := by
    rw [hM]
    norm_num
  have hiff : Restores (constKernel 1) ctx₂.superBlock
      { smallContext (List.range 3) with disk := ctx₂.disk } (smallContext (List.range 3)) ↔ _ :=
    map_restored_iff hbuilt (by norm_num) (by norm_num) hmap hblk
      (smallBlocks_range (by norm_num)) hcreate hwrite' rfl rfl rfl rfl
  refine ⟨ctx₁, ctx₂, hcreate, hwrite, hiff.2 fun e hge hlt => ?_⟩
  rw [hp] at hge
  rw [hN] at hlt
  omega

/-- Its map is written, and its last entry comes back as that of the map block before. -/
theorem map_not_restored :
    ¬ ∀ (k k' : Kernel) (config : AfsConfig) (numCarrierBlocks numEntropyBlocks : ℕ)
      (ctx ctx' ctx₁ ctx₂ : AfsPrivate) (sb pb : Mem),
      ctx.config = buildConfiguration config numCarrierBlocks numEntropyBlocks →
      1 ≤ numCarrierBlocks → numCarrierBlocks ≤ 8 →
      ctx.config.numBlocks * ctx.config.mapEntrySz < 2 ^ 32 →
      4096 * ctx.config.numMapBlocks < 2 ^ 32 → SmallBlocks ctx.passiveFs →
      afsCreateMapBlocks k ctx = some (0, ctx₁) →
      writePtrBlocks k { ctx₁ with superBlock := sb, afsPtrBlocks := pb } = some (0, ctx₂) →
      ctx'.config = ctx.config →
      ctx'.passiveFs.dataStartOff = ctx.passiveFs.dataStartOff → ctx'.disk = ctx₂.disk →
      k'.kmalloc 4096 = true → Restores k' ctx₂.superBlock ctx' ctx := by
  intro h
  obtain ⟨hN, hsz, hp, hM, hptr⟩ := bigContext_config
  have hok : bigContext.config.Ok := buildConfiguration_ok _ 1 (by norm_num) (by norm_num)
  have hc : bigContext.config.Fits := ⟨⟨hok, by rw [hN, hsz]; norm_num⟩, by rw [hM]; norm_num⟩
  have hfs : SmallBlocks bigContext.passiveFs := smallBlocks_range (by norm_num)
  obtain ⟨ctx₁, hcreate⟩ := afsCreateMapBlocks_returns (k := constKernel 1) hc (by rw [hM]; rfl)
  obtain ⟨-, ⟨m, rfl⟩, -⟩ := afsCreateMapBlocks_spec hc hcreate
  have hready : Ready { bigContext with afsMapBlocks := m } 0 1000 :=
    ready_range (by norm_num) rfl rfl rfl
  obtain ⟨ctx₂, hwrite⟩ := hready.writePtrBlocks hok (hM ▸ by norm_num)
    (hM ▸ hptr ▸ by norm_num) (constKernel 1)
  have hbuilt : bigContext.config = buildConfiguration (sizedConfig 61489) 4 1 := rfl
  have hsaved : MapSaved (constKernel 1) bigContext ctx₂ :=
    ⟨hc, hfs, _, bigContext.superBlock, bigContext.afsPtrBlocks, hcreate, hwrite⟩
  have hrest := h (constKernel 1) (constKernel 1) _ 4 1 bigContext
    { bigContext with disk := ctx₂.disk } _ ctx₂ bigContext.superBlock bigContext.afsPtrBlocks hbuilt
    (by norm_num) (by norm_num) hc.map hc.mapBlk hfs hcreate hwrite rfl rfl rfl rfl
  have hiff : Restores (constKernel 1) ctx₂.superBlock { bigContext with disk := ctx₂.disk }
      bigContext ↔ _ := hsaved.restores_iff rfl rfl rfl rfl
  have hentry := hiff.1 hrest
  rw [hN, hsz, hp] at hentry
  have hlast := hentry (976 * 63) (le_refl _) (by norm_num) 0 (by norm_num)
  exact absurd hlast (by decide)

end Artifice
