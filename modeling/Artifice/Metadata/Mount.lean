import Artifice.Metadata.Replicas
import Artifice.Metadata.FillMap

/-!
What a mount leaves in the allocation vector, and which blocks `acquire_block` can hand out
after it.

`acquire_block` uses the vector by position in the free list. A mount marks block numbers in it:
those of the map blocks it reads, of their tuples, of the first pointer block, and the location of
replica 0.
-/

namespace Artifice

open Lib

/-! ### The blocks that an instance refers to -/

/-- The page at block `b` of the device. -/
def pageAt (ctx : AfsPrivate) (b : ℕ) : Mem :=
  readPage (fun _ => 0) 0 ctx.disk b ctx.passiveFs.dataStartOff

/-- The block of pointer block `i`, along the chain that starts in `sb`. -/
def ptrBlockPtr (ctx : AfsPrivate) (sb : Mem) : ℕ → ℕ
  | 0 => le sb 4092 4
  | i + 1 => le (pageAt ctx (ptrBlockPtr ctx sb i)) 4092 4

/-- The block of map block `t`: from a slot of `sb`, or from a slot of a pointer block. -/
def mapBlockPtr (ctx : AfsPrivate) (sb : Mem) (t : ℕ) : ℕ :=
  if t < 975 then le sb (192 + 4 * t) 4
  else le (pageAt ctx (ptrBlockPtr ctx sb ((t - 975) / 1019))) (16 + 4 * ((t - 975) % 1019)) 4

/-- The pointer of tuple `j` of map entry `e`, as the map blocks on the device have it. -/
def tuplePtr (ctx : AfsPrivate) (sb : Mem) (e j : ℕ) : ℕ :=
  le (pageAt ctx (mapBlockPtr ctx sb (e / ctx.config.numMapEntriesPerBlock)))
    (64 + ctx.config.unusedSpacePerBlock
      + e % ctx.config.numMapEntriesPerBlock * ctx.config.mapEntrySz + 6 * j) 4

/-- The location of replica `i`, an index into `block_list`. -/
noncomputable def replicaLocation (k : Kernel) (ctx : AfsPrivate) (i : ℕ) : ℕ :=
  replicaBlock k ctx.passiveFs ctx.passphrase (blockDeviceSize ctx.config) i

/-- The super block that the search at mount gets to. -/
noncomputable def superBlockOf (k : Kernel) (ctx : AfsPrivate) : Mem :=
  pageAt ctx ((ctx.passiveFs.blockList[replicaLocation k ctx 0]?).getD 0)

/-- The context with the configuration that a mount builds. -/
def configured (ctx : AfsPrivate) : AfsPrivate :=
  { ctx with config := buildConfiguration ctx.config 4 1 }

/-- The instance on the device refers to the block: with a tuple of its map, with a map block
pointer, with a link of the chain of pointer blocks, or by keeping a replica there. -/
inductive Referenced (k : Kernel) (ctx : AfsPrivate) : ℕ → Prop
  | tuple {e j : ℕ} (he : e < (configured ctx).config.numBlocks)
      (hj : j < (configured ctx).config.numCarrierBlocks) :
      Referenced k ctx (tuplePtr (configured ctx) (superBlockOf k ctx) e j)
  | mapBlock {t : ℕ} (ht : t < (configured ctx).config.numMapBlocks) :
      Referenced k ctx (mapBlockPtr ctx (superBlockOf k ctx) t)
  | ptrBlock {i : ℕ} (hi : i < (configured ctx).config.numPtrBlocks) :
      Referenced k ctx (ptrBlockPtr ctx (superBlockOf k ctx) i)
  | replica {i b : ℕ} (hi : i < 8)
      (hb : ctx.passiveFs.blockList[replicaLocation k ctx i]? = some b) : Referenced k ctx b

/-- The numbers that a mount marks: the location of replica 0, and the block numbers of the first
976 map blocks, of the tuples in them and of the first pointer block. -/
inductive MountMarks (k : Kernel) (ctx : AfsPrivate) : ℕ → Prop
  | replica : MountMarks k ctx (replicaLocation k ctx 0)
  | mapBlock {t : ℕ} (ht : t < (configured ctx).config.numMapBlocks) (h : t < 976) :
      MountMarks k ctx (mapBlockPtr ctx (superBlockOf k ctx) t)
  | ptrBlock (h : 975 < (configured ctx).config.numMapBlocks) :
      MountMarks k ctx (ptrBlockPtr ctx (superBlockOf k ctx) 0)
  | tuple {e j : ℕ} (he : e < (configured ctx).config.numBlocks)
      (h : e < 976 * (configured ctx).config.numMapEntriesPerBlock)
      (hj : j < (configured ctx).config.numCarrierBlocks) :
      MountMarks k ctx (tuplePtr (configured ctx) (superBlockOf k ctx) e j)

/-! ### The map that `afs_fill_map` finds on the device -/

section DiskMap

variable {k : Kernel} {ctx : AfsPrivate} {sb : Mem} {e o t j b : ℕ}

/-- The map that the map blocks on the device hold. -/
def diskMap (ctx : AfsPrivate) (sb : Mem) : Mem := fun a =>
  let e := a / ctx.config.mapEntrySz
  pageAt ctx (mapBlockPtr ctx sb (e / ctx.config.numMapEntriesPerBlock))
    (64 + ctx.config.unusedSpacePerBlock
      + e % ctx.config.numMapEntriesPerBlock * ctx.config.mapEntrySz + a % ctx.config.mapEntrySz)

theorem diskMap_apply (ho : o < ctx.config.mapEntrySz) :
    diskMap ctx sb (e * ctx.config.mapEntrySz + o) =
      pageAt ctx (mapBlockPtr ctx sb (e / ctx.config.numMapEntriesPerBlock))
        (64 + ctx.config.unusedSpacePerBlock
          + e % ctx.config.numMapEntriesPerBlock * ctx.config.mapEntrySz + o) := by
  have hdiv : (e * ctx.config.mapEntrySz + o) / ctx.config.mapEntrySz = e := by
    rw [Nat.mul_comm, Nat.mul_add_div (by omega), Nat.div_eq_of_lt ho, Nat.add_zero]
  have hmod : (e * ctx.config.mapEntrySz + o) % ctx.config.mapEntrySz = o := by
    rw [Nat.mul_comm, Nat.mul_add_mod, Nat.mod_eq_of_lt ho]
  simp only [diskMap, hdiv, hmod]

theorem le_diskMap (h : 6 * j + 4 ≤ ctx.config.mapEntrySz) :
    le (diskMap ctx sb) (e * ctx.config.mapEntrySz + 6 * j) 4 = tuplePtr ctx sb e j := by
  refine le_congr fun i hi => ?_
  rw [Nat.add_assoc, diskMap_apply (by omega), ← Nat.add_assoc]

theorem pageAt_apply (ho : o < 4096) : pageAt ctx b o =
    ctx.disk (512 * pageSector b ctx.passiveFs.dataStartOff + o) := by
  have hpage : Agree (pageAt ctx b) 0 ctx.disk
      (512 * pageSector b ctx.passiveFs.dataStartOff) 4096 := agree_readPage
  have := hpage o ho
  rwa [Nat.zero_add] at this

theorem le_pageAt {n : ℕ} (ho : o + n ≤ 4096) : le (pageAt ctx b) o n =
    le ctx.disk (512 * pageSector b ctx.passiveFs.dataStartOff + o) n := by
  refine le_congr fun i hi => ?_
  rw [pageAt_apply (by omega), Nat.add_assoc]

theorem mapBlockPtr_congr {ctx' : AfsPrivate} {sb' : Mem} (hd : ctx'.disk = ctx.disk)
    (hfs : ctx'.passiveFs = ctx.passiveFs) (hsb : Agree sb' 0 sb 0 4096) :
    ptrBlockPtr ctx' sb' = ptrBlockPtr ctx sb ∧ mapBlockPtr ctx' sb' = mapBlockPtr ctx sb := by
  have hpage : pageAt ctx' = pageAt ctx := by
    funext b
    rw [pageAt, hd, hfs, pageAt]
  have hle : ∀ o, o + 4 ≤ 4096 → le sb' o 4 = le sb o 4 := fun o ho => by
    have := hsb.sub (j := o) ho
    rw [Nat.zero_add] at this
    exact le_congr this
  have hptr : ptrBlockPtr ctx' sb' = ptrBlockPtr ctx sb := by
    funext i
    induction i with
    | zero => rw [ptrBlockPtr, ptrBlockPtr, hle 4092 (by norm_num)]
    | succ i ih => rw [ptrBlockPtr, ptrBlockPtr, ih, hpage]
  refine ⟨hptr, funext fun t => ?_⟩
  unfold mapBlockPtr
  split_ifs with ht
  · rw [hle _ (by omega)]
  · rw [hptr, hpage]

theorem tuplePtr_congr {ctx' : AfsPrivate} {sb' : Mem} (hcfg : ctx'.config = ctx.config)
    (hd : ctx'.disk = ctx.disk) (hfs : ctx'.passiveFs = ctx.passiveFs)
    (hsb : Agree sb' 0 sb 0 4096) : tuplePtr ctx' sb' = tuplePtr ctx sb := by
  funext e j
  rw [tuplePtr, tuplePtr, (mapBlockPtr_congr hd hfs hsb).2, hcfg, pageAt, pageAt, hd, hfs]

theorem holdsEntries_diskMap (hok : ctx.config.Ok) (sb : Mem) (t : ℕ) :
    HoldsEntries ctx (diskMap ctx sb) (mapBlockPtr ctx sb t) t := by
  intro x hx
  have hsz : 0 < ctx.config.mapEntrySz := by
    rw [hok.entrySz]
    omega
  have hq : x / ctx.config.mapEntrySz < ctx.config.numMapEntriesPerBlock := by
    refine lt_of_lt_of_le ((Nat.div_lt_iff_lt_mul hsz).2 hx) ?_
    exact Nat.min_le_left _ _
  have hx' : t * ctx.config.numMapEntriesPerBlock * ctx.config.mapEntrySz + x
      = (t * ctx.config.numMapEntriesPerBlock + x / ctx.config.mapEntrySz)
        * ctx.config.mapEntrySz + x % ctx.config.mapEntrySz := by
    rw [Nat.add_mul, Nat.add_assoc, Nat.div_add_mod']
  have hdiv : (t * ctx.config.numMapEntriesPerBlock + x / ctx.config.mapEntrySz)
      / ctx.config.numMapEntriesPerBlock = t := by
    rw [Nat.mul_comm, Nat.mul_add_div hok.entries, Nat.div_eq_of_lt hq, Nat.add_zero]
  have hmod : (t * ctx.config.numMapEntriesPerBlock + x / ctx.config.mapEntrySz)
      % ctx.config.numMapEntriesPerBlock = x / ctx.config.mapEntrySz := by
    rw [Nat.mul_comm, Nat.mul_add_mod, Nat.mod_eq_of_lt hq]
  have hle := hok.tiles.entries_le t
  rw [hx', diskMap_apply (Nat.mod_lt _ hsz), hdiv, hmod, Nat.add_assoc _ _ (x % _),
    Nat.div_add_mod', pageAt_apply (by omega)]
  congr 1
  omega

theorem mapOnDisk_diskMap (hok : ctx.config.Ok) (sb : Mem) :
    MapOnDisk ctx sb (diskMap ctx sb) := by
  refine ⟨fun t h975 _ => ?_, fun _ => ?_⟩
  · have := holdsEntries_diskMap hok sb t
    rwa [mapBlockPtr, if_pos h975] at this
  · have := holdsEntries_diskMap hok sb 975
    rwa [mapBlockPtr, if_neg (by norm_num), Nat.sub_self, Nat.zero_div, Nat.zero_mod,
      Nat.mul_zero, Nat.add_zero, ptrBlockPtr, le_pageAt (by norm_num)] at this

theorem mem_readBlocks_iff : b ∈ readBlocks ctx sb ↔
    (∃ t < ctx.config.numMapBlocks, t < 976 ∧ b = mapBlockPtr ctx sb t) ∨
      (975 < ctx.config.numMapBlocks ∧ b = ptrBlockPtr ctx sb 0) := by
  have hsb : ∀ t < 975, mapBlockPtr ctx sb t = le sb (192 + 4 * t) 4 := fun t ht => by
    rw [mapBlockPtr, if_pos ht]
  have hpb : mapBlockPtr ctx sb 975 = le ctx.disk
      (512 * pageSector (le sb 4092 4) ctx.passiveFs.dataStartOff + 16) 4 := by
    rw [mapBlockPtr, if_neg (by norm_num), Nat.sub_self, Nat.zero_div, Nat.zero_mod, Nat.mul_zero,
      Nat.add_zero, ptrBlockPtr, le_pageAt (by norm_num)]
  unfold readBlocks
  split_ifs with h
  · constructor
    · rintro ⟨t, ht, rfl⟩
      exact Or.inl ⟨t, ht, by omega, (hsb t (by omega)).symm⟩
    · rintro (⟨t, ht, -, rfl⟩ | ⟨hlt, -⟩)
      · exact ⟨t, ht, hsb t (by omega)⟩
      · omega
  · rw [Set.mem_insert_iff, Set.mem_insert_iff]
    constructor
    · rintro (rfl | rfl | ⟨t, ht, rfl⟩)
      · exact Or.inl ⟨975, by omega, by norm_num, hpb.symm⟩
      · exact Or.inr ⟨by omega, rfl⟩
      · exact Or.inl ⟨t, by omega, by omega, (hsb t ht).symm⟩
    · rintro (⟨t, -, ht, rfl⟩ | ⟨-, rfl⟩)
      · rcases Nat.lt_succ_iff_lt_or_eq.1 ht with hlt | rfl
        · exact Or.inr (Or.inr ⟨t, hlt, hsb t hlt⟩)
        · exact Or.inl hpb
      · exact Or.inr (Or.inl rfl)

end DiskMap

/-! ### A mount only returns when the map fits -/

section Overflow

variable {k : Kernel} {ctx ctx' : AfsPrivate} {sb : Mem} {t b : ℕ} {s : AfsPrivate × ℕ}

/-- The map would have `2 ^ 26` entries of 64 bytes, or more. -/
structure Overlong (config : AfsConfig) : Prop where
  blocks : config.numBlocks < 2 ^ 32
  entrySz : config.mapEntrySz = 64
  entries : config.numMapEntriesPerBlock = 63
  long : 2 ^ 26 ≤ config.numBlocks

/-- Up to map block 1065220, the one that would cross `2 ^ 32` bytes, every round goes on to the
next. -/
theorem Overlong.step (hc : Overlong s.1.config) (hs : s.2 = 63 * t) (ht : t ≤ 1065220)
    {f : Flow (AfsPrivate × ℕ)} (h : fillMapBlock k b s = some f) :
    t < 1065220 ∧ f.Sat (fun s' => s'.1.config = s.1.config ∧ s'.2 = 63 * (t + 1))
      (fun _ => False) (fun _ _ => False) := by
  have h1 := hc.blocks
  have h2 := hc.long
  have hcfg : (mark s.1 b).config = s.1.config := rfl
  have hleft : (s.1.config.numBlocks + 2 ^ 32 - 63 * t) % 2 ^ 32
      = s.1.config.numBlocks - 63 * t := by
    rw [Nat.sub_add_comm (by omega), Nat.add_mod_right, Nat.mod_eq_of_lt (by omega)]
  simp only [fillMapBlock, hcfg, hc.entrySz, hc.entries, hs, hleft, pageRound] at h
  split_ifs at h with hlast hfit hfit
  · obtain rfl : t = 1065220 := by
      clear hfit
      omega
    omega
  · simp at h
  · simp only [Option.map_some, Option.some.injEq] at h
    subst h
    refine ⟨by omega, rfl, ?_⟩
    show (63 * t + 63) % 2 ^ 32 = _
    omega
  · simp at h

theorem Overlong.fillMapPb (hc : Overlong s.1.config) (hs : s.2 = 63 * t) (ht : t ≤ 1065220)
    (ptrBlock : Mem) (rounds i : ℕ) : fillMapPb k ptrBlock rounds i s = none := by
  induction rounds generalizing s t i with
  | zero => rfl
  | succ r ih =>
    rw [Artifice.fillMapPb, Option.bind_eq_bind]
    cases hf : fillMapBlock k (le ptrBlock 16 4) s with
    | none => rfl
    | some f =>
      obtain ⟨hlt, hsat⟩ := hc.step hs ht hf
      cases f with
      | next s' =>
        obtain ⟨hcfg, hs'⟩ := hsat
        exact ih (hcfg ▸ hc) hs' (by omega) _
      | brk s' => exact hsat.elim
      | ret c s' => exact hsat.elim

theorem Overlong.afsFillMap (hc : Overlong ctx.config) (hptr : 0 < ctx.config.numPtrBlocks)
    (hk : k.kmalloc 4096 = true) : afsFillMap k sb ctx = none := by
  simp only [Artifice.afsFillMap, hk, if_true, Option.bind_eq_bind]
  cases hf : fillMapSb k sb 975 0 (ctx, 0) with
  | none => rfl
  | some f =>
    have hsat := forLoop_inv (I := fun i s => s.1.config = ctx.config ∧ s.2 = 63 * i)
      (B := fun _ => False) (R := fun _ _ => False)
      (fun i s g _ hi hs hg => by
        obtain ⟨-, hsat⟩ := Overlong.step (hs.1 ▸ hc) hs.2 (by omega) hg
        exact hsat.mono (fun s' h' => ⟨h'.1.trans hs.1, h'.2⟩) (fun _ => id) (fun _ _ => id))
      ⟨rfl, rfl⟩ hf
    cases f with
    | ret c s => exact hsat.elim
    | brk s => exact hsat.elim
    | next s =>
      obtain ⟨hcfg, hs⟩ := hsat.resolve_right id
      simp only [Option.bind_some]
      rw [fillMapPtrBlocks, hcfg, if_pos hptr]
      simp only [Option.bind_eq_bind]
      have hmark : ∀ i, Overlong ((mark s.1 i, s.2) : AfsPrivate × ℕ).1.config := fun i => hcfg ▸ hc
      rw [(hmark _).fillMapPb (t := 975) hs (by norm_num)]
      rfl

end Overflow

/-! ### The marks of a mount -/

section Marks

variable {k : Kernel} {rounds : ℕ} {ctx ctx' : AfsPrivate} {v : BitVector}
  {S : Set ℕ}

theorem marked_mark (h : Marked v ctx.vector S) (i : ℕ) :
    Marked v (mark ctx i).vector (insert i S) := by
  rw [mark, allocationSet_eq]
  exact h.mark i

theorem rebuildEntry_spec (h : Marked v ctx.vector S) (entry j : ℕ) :
    (∃ v', rebuildEntry ctx entry j = { ctx with vector := v' }) ∧
      Marked v (rebuildEntry ctx entry j).vector
        (S ∪ {b | ∃ i < j, b = le ctx.afsMap (entry + 6 * i) 4}) := by
  induction j with
  | zero => exact ⟨⟨_, rfl⟩, by simpa [rebuildEntry] using h⟩
  | succ j ih =>
    obtain ⟨⟨v', hv'⟩, hm⟩ := ih
    have hmap : (rebuildEntry ctx entry j).afsMap = ctx.afsMap := by rw [hv']
    rw [rebuildEntry, hmap]
    refine ⟨⟨_, by rw [hv', mark]⟩, ?_⟩
    have := marked_mark hm (le ctx.afsMap (entry + 6 * j) 4)
    convert this using 1
    ext b
    simp only [Set.mem_union, Set.mem_insert_iff, Set.mem_ofPred_eq, Nat.lt_succ_iff_lt_or_eq]
    constructor
    · rintro (hS | ⟨i, hi | rfl, rfl⟩)
      exacts [Or.inr (Or.inl hS), Or.inr (Or.inr ⟨i, hi, rfl⟩), Or.inl rfl]
    · rintro (rfl | hS | ⟨i, hi, rfl⟩)
      exacts [Or.inr ⟨j, Or.inr rfl, rfl⟩, Or.inl hS, Or.inr ⟨i, Or.inl hi, rfl⟩]

theorem rebuildAllocationVector_spec (h : Marked v ctx.vector S) (n : ℕ) :
    (∃ v', rebuildAllocationVector ctx n = { ctx with vector := v' }) ∧
      Marked v (rebuildAllocationVector ctx n).vector
        (S ∪ {b | ∃ e < n, ∃ j < ctx.config.numCarrierBlocks,
          b = le ctx.afsMap (e * ctx.config.mapEntrySz % 2 ^ 32 + 6 * j) 4}) := by
  induction n with
  | zero => exact ⟨⟨_, rfl⟩, by simpa [rebuildAllocationVector] using h⟩
  | succ n ih =>
    obtain ⟨⟨v', hv'⟩, hm⟩ := ih
    obtain ⟨⟨v'', hv''⟩, hm'⟩ := rebuildEntry_spec hm (n * ctx.config.mapEntrySz % 2 ^ 32)
      ctx.config.numCarrierBlocks
    have hcfg : (rebuildAllocationVector ctx n).config = ctx.config := by rw [hv']
    have hmap : (rebuildAllocationVector ctx n).afsMap = ctx.afsMap := by rw [hv']
    rw [rebuildAllocationVector]
    simp only [hcfg]
    refine ⟨⟨v'', by rw [hv'', hv']⟩, ?_⟩
    rw [hmap] at hm'
    convert hm' using 1
    ext b
    simp only [Set.mem_union, Set.mem_ofPred_eq, Nat.lt_succ_iff_lt_or_eq]
    constructor
    · rintro (hS | ⟨e, he | rfl, hj⟩)
      exacts [Or.inl (Or.inl hS), Or.inl (Or.inr ⟨e, he, hj⟩), Or.inr hj]
    · rintro ((hS | ⟨e, he, hj⟩) | hj)
      exacts [Or.inl hS, Or.inr ⟨e, Or.inl he, hj⟩, Or.inr ⟨n, Or.inr rfl, hj⟩]

theorem rebuildPtrBlocks_frame (ctx : AfsPrivate) (n : ℕ) :
    ∃ m, rebuildPtrBlocks ctx n = { ctx with afsPtrBlocks := m } := by
  induction n with
  | zero => exact ⟨_, rfl⟩
  | succ n ih =>
    obtain ⟨m, hm⟩ := ih
    rw [rebuildPtrBlocks, hm]
    exact ⟨_, rfl⟩

theorem findSuperBlock_cases (h : findSuperBlock k rounds ctx = some (0, ctx')) :
    ∃ s m ctx₁ pb, searchSuperBlock k rounds ctx = some s ∧ s.valid = true ∧
      k.vmalloc ((configured ctx).config.numBlocks * (configured ctx).config.mapEntrySz
        % 2 ^ 32) = true ∧
      afsFillMap k s.sb { configured ctx with
        superBlock := s.sb, vector := ctx.vector.mark s.sbBlock, afsMap := m } = some (0, ctx₁) ∧
      ctx' = { rebuildAllocationVector ctx₁ ctx₁.config.numBlocks with afsPtrBlocks := pb } := by
  simp only [findSuperBlock, Option.bind_eq_bind, Option.bind_eq_some_iff] at h
  obtain ⟨s, hs, h⟩ := h
  split_ifs at h with hv hsz
  · simp at h
  · simp only [Option.bind_eq_some_iff] at h
    obtain ⟨⟨r, c⟩, hm, h⟩ := h
    simp only at h
    split_ifs at h with hr
    · simp only [Option.some.injEq, Prod.mk.injEq] at h
      exact absurd h.1 hr
    · simp only [Option.bind_eq_some_iff] at h
      obtain ⟨⟨r', ctx₁⟩, hf, h⟩ := h
      simp only at h
      split_ifs at h with hr' hk
      · simp only [Option.some.injEq, Prod.mk.injEq] at h
        exact absurd h.1 hr'
      · simp only [ne_eq, Decidable.not_not] at hr hr' hv
        subst hr hr'
        rcases afsCreateMap_cases hm with ⟨-, hvm, m, -, rfl⟩ | ⟨h0, -⟩
        · simp only [Option.some.injEq, Prod.mk.injEq, true_and] at h
          obtain ⟨pb, hpb⟩ := rebuildPtrBlocks_frame { rebuildAllocationVector ctx₁
            ctx₁.config.numBlocks with afsPtrBlocks := k.uninit }
            (rebuildAllocationVector ctx₁ ctx₁.config.numBlocks).config.numPtrBlocks
          simp only [mark, allocationSet_eq] at hf
          refine ⟨s, m, ctx₁, pb, hs, hv, hvm, hf, ?_⟩
          rw [← h, hpb]
        · omega
      · simp at h
  · simp at h

theorem configured_ok (ctx : AfsPrivate) : (configured ctx).config.Ok :=
  buildConfiguration_ok ctx.config 1 (by norm_num) (by norm_num)

theorem configured_sizes (ctx : AfsPrivate) : (configured ctx).config.mapEntrySz = 64 ∧
    (configured ctx).config.numMapEntriesPerBlock = 63 ∧
    (configured ctx).config.numCarrierBlocks = 4 := by
  simp [configured, buildConfiguration]

theorem configured_fits {c : AfsPrivate} {sb : Mem} {r : ℤ × AfsPrivate}
    (hc : c.config = (configured ctx).config) (h : afsFillMap k sb c = some r)
    (hr : r.1 = 0) : (configured ctx).config.MapFits := by
  obtain ⟨hsz, hp, -⟩ := configured_sizes ctx
  have hok := configured_ok ctx
  refine ⟨hok, ?_⟩
  rw [hsz]
  by_contra hge
  have hk : k.kmalloc 4096 = true := by
    by_contra hk
    simp only [afsFillMap, hk, if_false, Option.some.injEq] at h
    rw [← h] at hr
    simp at hr
  have hlong : Overlong c.config := by
    rw [hc]
    exact ⟨hok.blocks, hsz, hp, by omega⟩
  have hptr : 0 < c.config.numPtrBlocks := by
    rw [hc, hok.ptrBlocks, hok.mapBlocks, hp]
    omega
  rw [hlong.afsFillMap hptr hk] at h
  simp at h

theorem loadedTuple_iff {m sb : Mem} (b : ℕ) (hc : ctx.config.MapFits)
    (h6 : ∀ j < ctx.config.numCarrierBlocks, 6 * j + 4 ≤ ctx.config.mapEntrySz)
    (hm : ∀ e < ctx.config.numBlocks, Agree m (e * ctx.config.mapEntrySz) (diskMap ctx sb)
      (sourceEntry ctx.config e * ctx.config.mapEntrySz) ctx.config.mapEntrySz) :
    (∃ e < ctx.config.numBlocks, ∃ j < ctx.config.numCarrierBlocks,
      b = le m (e * ctx.config.mapEntrySz % 2 ^ 32 + 6 * j) 4) ↔
    ∃ e < ctx.config.numBlocks, e < 976 * ctx.config.numMapEntriesPerBlock ∧
      ∃ j < ctx.config.numCarrierBlocks, b = tuplePtr ctx sb e j := by
  have hle : ∀ e < ctx.config.numBlocks, ∀ j < ctx.config.numCarrierBlocks,
      le m (e * ctx.config.mapEntrySz % 2 ^ 32 + 6 * j) 4
        = tuplePtr ctx sb (sourceEntry ctx.config e) j := by
    intro e he j hj
    have hlt : e * ctx.config.mapEntrySz < 2 ^ 32 :=
      lt_of_le_of_lt (Nat.mul_le_mul_right _ he.le) hc.map
    rw [Nat.mod_eq_of_lt hlt, le_congr ((hm e he).sub (h6 j hj)), le_diskMap (h6 j hj)]
  have hp := hc.entries
  constructor
  · rintro ⟨e, he, j, hj, rfl⟩
    rw [hle e he j hj]
    have hmod := Nat.mod_lt e hp
    rcases Nat.lt_or_ge e (976 * ctx.config.numMapEntriesPerBlock) with hlt | hge
    · rw [sourceEntry_eq hc.toOk hlt]
      exact ⟨e, he, hlt, j, hj, rfl⟩
    · rw [sourceEntry_ge hc.toOk hge]
      exact ⟨_, by omega, by omega, j, hj, rfl⟩
  · rintro ⟨e, he, hlt, j, hj, rfl⟩
    refine ⟨e, he, j, hj, ?_⟩
    rw [hle e he j hj, sourceEntry_eq hc.toOk hlt]

theorem searchSuperBlock_found {s : SbSearch} (h : searchSuperBlock k rounds ctx = some s)
    (hv : s.valid = true) :
    s.sbBlock = replicaLocation k ctx 0 ∧ Agree s.sb 0 (superBlockOf k ctx) 0 4096 := by
  obtain ⟨h0, n, b, hn, hfirst, hb⟩ := searchSuperBlock_spec h
  obtain ⟨s', hs', hloc, -, -, -, hpage⟩ := searchSuperBlock_eq h0 hfirst hb hn
  obtain rfl : s = s' := Option.some.inj (h.symm.trans hs')
  have hrep : replicaLocation k ctx 0
      = chainValue k ctx.passphrase (blockDeviceSize ctx.config) n := by
    rw [replicaLocation, replicaBlock, hfirst.nth_eq]
  refine ⟨hloc.trans hrep.symm, ?_⟩
  rw [superBlockOf, hrep, hb, Option.getD_some]
  exact (hpage hv).trans agree_readPage.symm

/-- **What a mount leaves in the vector.** -/
theorem findSuperBlock_marks (h : findSuperBlock k rounds ctx = some (0, ctx')) :
    ctx'.passiveFs = ctx.passiveFs ∧
      Marked ctx.vector ctx'.vector {p | MountMarks k ctx p} := by
  obtain ⟨s, m, ctx₁, pb, hsearch, hvalid, hvm, hfill, rfl⟩ := findSuperBlock_cases h
  obtain ⟨hloc, hsb⟩ := searchSuperBlock_found hsearch hvalid
  set c₀ : AfsPrivate := { configured ctx with
    superBlock := s.sb, vector := ctx.vector.mark s.sbBlock, afsMap := m } with hc₀
  have hcfg : c₀.config = (configured ctx).config := rfl
  have hfits : c₀.config.MapFits := hcfg ▸ configured_fits hcfg hfill rfl
  obtain ⟨hsz, hp, hcar⟩ := configured_sizes ctx
  have hpos : 0 < c₀.config.numMapBlocks := by
    rw [hfits.tiles.lt_numMapBlocks, Nat.zero_mul]
    refine Nat.pos_of_ne_zero fun h0 => ?_
    rw [← hcfg, h0, Nat.zero_mul, Nat.zero_mod, k.vmalloc_zero] at hvm
    simp at hvm
  have hk : k.kmalloc 4096 = true := by
    by_contra hk
    simp [afsFillMap, hk] at hfill
  obtain ⟨ctx₂, hfill', hread⟩ := afsFillMap_spec (k := k) hfits
    (mapOnDisk_diskMap hfits.toOk s.sb) hpos hk
  obtain rfl : ctx₁ = ctx₂ := (Prod.mk.inj (Option.some.inj (hfill.symm.trans hfill'))).2
  have hstart : Marked ctx.vector c₀.vector {s.sbBlock} := by
    simpa using (Marked.refl ctx.vector).mark s.sbBlock
  obtain ⟨⟨v', hv'⟩, hmarked⟩ := rebuildAllocationVector_spec (hstart.trans hread.marked)
    ctx₁.config.numBlocks
  refine ⟨by rw [hv']; exact hread.passiveFs, ?_⟩
  convert hmarked using 1
  ext p
  have hcfg₁ : ctx₁.config = c₀.config := hread.config
  have h6 : ∀ j < c₀.config.numCarrierBlocks, 6 * j + 4 ≤ c₀.config.mapEntrySz := by
    intro j hj
    rw [hcfg, hcar] at hj
    rw [hcfg, hsz]
    omega
  have htuple := loadedTuple_iff p hfits h6 fun e he => hread.entry hfits.toOk he
  have hdisk : c₀.disk = ctx.disk := rfl
  have hfs : c₀.passiveFs = ctx.passiveFs := rfl
  obtain ⟨hptr, hmapb⟩ := mapBlockPtr_congr hdisk hfs hsb
  have htup : tuplePtr c₀ s.sb = tuplePtr (configured ctx) (superBlockOf k ctx) :=
    tuplePtr_congr rfl rfl rfl hsb
  rw [Set.mem_union, Set.mem_union, Set.mem_singleton_iff, mem_readBlocks_iff,
    Set.mem_ofPred_eq, Set.mem_ofPred_eq, hcfg₁, htuple, htup, hptr, hmapb, hloc]
  constructor
  · rintro (_ | ⟨ht, h976⟩ | h975 | ⟨he, h976, hj⟩)
    · exact Or.inl (Or.inl rfl)
    · exact Or.inl (Or.inr (Or.inl ⟨_, ht, h976, rfl⟩))
    · exact Or.inl (Or.inr (Or.inr ⟨h975, rfl⟩))
    · exact Or.inr ⟨_, he, h976, _, hj, rfl⟩
  · rintro ((rfl | ⟨t, ht, h976, rfl⟩ | ⟨h975, rfl⟩) | ⟨e, he, h976, j, hj, rfl⟩)
    exacts [.replica, .mapBlock ht h976, .ptrBlock h975, .tuple he h976 hj]

/-- **When no referenced block is handed out after a mount**: exactly when every referenced block
has its position in the free list among the numbers that the mount marks. -/
theorem no_double_allocation_iff (hmount : findSuperBlock k rounds ctx = some (0, ctx')) :
    (∀ bs v, Acquires ctx'.passiveFs ctx'.vector bs v → ∀ b ∈ bs, b ≠ afsInvalidBlock →
        ¬ Referenced k ctx b) ↔
      ∀ b, Referenced k ctx b → b ≠ afsInvalidBlock → ∀ p < ctx.passiveFs.listLen,
        p ≤ ctx.vector.length → ctx.passiveFs.blockList[p]? = some b →
        ctx.vector.bits p = true ∨ MountMarks k ctx p := by
  obtain ⟨hfs, hmarked⟩ := findSuperBlock_marks hmount
  constructor
  · intro hall b href hne p hp hlen hb
    by_contra hfree
    have hbit : ctx'.vector.bits p = false := by
      rw [← Bool.not_eq_true, hmarked.bits p hlen]
      exact hfree
    obtain ⟨bs, v, hrun, hmem⟩ := (acquires_iff hne).2
      ⟨p, hfs ▸ hp, hmarked.length ▸ hlen, hbit, hfs ▸ hb⟩
    exact hall bs v hrun b hmem hne href
  · intro hcond bs v hrun b hmem hne href
    obtain ⟨p, hp, hlen, hbit, hb⟩ := (acquires_iff hne).1 ⟨bs, v, hrun, hmem⟩
    rw [hfs] at hp hb
    rw [hmarked.length] at hlen
    have hmark := (hmarked.bits p hlen).2 (hcond b href hne p hp hlen hb)
    rw [hbit] at hmark
    simp at hmark

end Marks

/-- The small instance over the free list `l`, about to be mounted from `disk`. -/
def mountContext (l : List ℕ) (disk : Mem) : AfsPrivate := { smallContext l with disk }

theorem mountContext_config (l : List ℕ) (disk : Mem) :
    (configured (mountContext l disk)).config = (configured (smallContext [])).config := rfl

theorem configured_small : (configured (smallContext [])).config.numBlocks = 16 ∧
    (configured (smallContext [])).config.numMapBlocks = 1 ∧
    (configured (smallContext [])).config.numPtrBlocks = 0 ∧
    (configured (smallContext [])).config.numCarrierBlocks = 4 := by
  decide

theorem superBlockOf_mount {k : Kernel} {l : List ℕ} {v b : ℕ} (disk : Mem)
    (hv : chainValue k (smallContext l).passphrase (blockDeviceSize (smallContext l).config) 0 = v)
    (hp : passes (smallContext l).passiveFs v = true)
    (hb : (smallContext l).passiveFs.blockList[v]? = some b) :
    superBlockOf k (mountContext l disk) = pageAt (mountContext l disk) b := by
  have hfirst : FirstPasses k (smallContext l).passiveFs (smallContext l).passphrase
      (blockDeviceSize (smallContext l).config) 0 :=
    ⟨by rwa [ChainPasses, hv], fun j hj => absurd hj (Nat.not_lt_zero j)⟩
  have hloc : replicaLocation k (mountContext l disk) 0 = v := by
    rw [replicaLocation]
    show replicaBlock k (smallContext l).passiveFs (smallContext l).passphrase
      (blockDeviceSize (smallContext l).config) 0 = v
    rw [replicaBlock, hfirst.nth_eq, hv]
  have hb' : (mountContext l disk).passiveFs.blockList[v]? = some b := hb
  rw [superBlockOf, hloc, hb', Option.getD_some]

/-- In the small instance over the blocks 0 to 3, with the map block in block 0 and all replicas
in block 1, the numbers that are marked are the positions of the blocks. -/
theorem no_double_allocation_small :
    ∃ disk ctx', findSuperBlock (constKernel 1) 1 (mountContext [0, 1, 2, 3] disk)
        = some (0, ctx') ∧
      ∀ bs v, Acquires ctx'.passiveFs ctx'.vector bs v → ∀ b ∈ bs, b ≠ afsInvalidBlock →
        ¬ Referenced (constKernel 1) (mountContext [0, 1, 2, 3] disk) b := by
  have hrun : ((writeSuperBlock (constKernel 1) 1 (smallContext [0, 1, 2, 3])).bind fun r =>
      let ctx := mountContext [0, 1, 2, 3] r.2.1.disk
      (findSuperBlock (constKernel 1) 1 ctx).map fun q =>
        (q.1, mapBlockPtr ctx (pageAt ctx 1) 0, (List.range 16).all fun e =>
          (List.range 4).all fun j =>
            tuplePtr (configured ctx) (pageAt ctx 1) e j == afsInvalidBlock))
      = some (0, 0, true) := by
    decide +kernel
  obtain ⟨⟨r, c, w⟩, -, hrun⟩ := Option.bind_eq_some_iff.1 hrun
  obtain ⟨⟨ret, ctx'⟩, hmount, heq⟩ := Option.map_eq_some_iff.1 hrun
  simp only [Prod.mk.injEq] at heq
  obtain ⟨rfl, hmap, htuples⟩ := heq
  refine ⟨c.disk, ctx', hmount, (no_double_allocation_iff hmount).2 ?_⟩
  set ctx := mountContext [0, 1, 2, 3] c.disk with hctx
  have hsize : 1 % 2 ^ 32 % blockDeviceSize (smallContext []).config = 1 := by decide
  have hloc : ∀ i, replicaLocation (constKernel 1) ctx i = 1 := fun i => by
    rw [replicaLocation, replicaBlock_constKernel]
    exact hsize
  have hsb : superBlockOf (constKernel 1) ctx = pageAt ctx 1 :=
    superBlockOf_mount c.disk ((chainValue_constKernel 1 _ _ 0).trans hsize) (by decide +kernel)
      (by decide)
  obtain ⟨hN, hM, hP, hC⟩ := configured_small
  rw [← mountContext_config [0, 1, 2, 3] c.disk, ← hctx] at hN hM hP hC
  have hmarks : MountMarks (constKernel 1) ctx 0 ∧ MountMarks (constKernel 1) ctx 1 := by
    have h0 : MountMarks (constKernel 1) ctx (mapBlockPtr ctx (superBlockOf (constKernel 1) ctx) 0) :=
      .mapBlock (by omega) (by norm_num)
    have h1 : MountMarks (constKernel 1) ctx (replicaLocation (constKernel 1) ctx 0) := .replica
    rw [hsb, hmap] at h0
    rw [hloc] at h1
    exact ⟨h0, h1⟩
  -- the position of a block is its number
  have hpos : ∀ b p : ℕ, ctx.passiveFs.blockList[p]? = some b → p = b := by
    intro b p hb
    have hl : ctx.passiveFs.blockList = List.range 4 := rfl
    rw [hl] at hb
    obtain ⟨hp, hx⟩ := List.getElem?_eq_some_iff.1 hb
    rw [← hx, List.getElem_range]
  intro b href hne p hp hlen hb
  obtain rfl := hpos b p hb
  right
  cases href with
  | tuple he hj =>
    rw [hN] at he
    rw [hC] at hj
    rw [hsb] at hne
    have := List.all_eq_true.1 (List.all_eq_true.1 htuples _ (List.mem_range.2 he)) _
      (List.mem_range.2 hj)
    exact absurd (beq_iff_eq.1 this) hne
  | mapBlock ht =>
    obtain rfl : _ = 0 := Nat.lt_one_iff.1 (hM ▸ ht)
    rw [hsb, hmap]
    exact hmarks.1
  | ptrBlock hi => omega
  | replica hi hr =>
    rw [hloc] at hr
    obtain rfl := hpos _ _ hr
    exact hmarks.2

/-- Over the blocks 1 to 13, position 0 is free after the mount, and its block 1 holds the only
map block. -/
theorem double_allocation :
    ¬ ∀ (k : Kernel) (rounds : ℕ) (ctx ctx' : AfsPrivate),
      ctx.passiveFs.freeList.Pairwise (· < ·) →
      findSuperBlock k rounds ctx = some (0, ctx') →
      ∀ bs v, Acquires ctx'.passiveFs ctx'.vector bs v → ∀ b ∈ bs, b ≠ afsInvalidBlock →
        ¬ Referenced k ctx b := by
  intro h
  have hrun : ((writeSuperBlock countKernel 1 (smallContext (List.range' 1 13))).bind fun r =>
      let ctx := mountContext (List.range' 1 13) r.2.1.disk
      (findSuperBlock countKernel 1 ctx).bind fun q =>
        (acquireBlock q.2.passiveFs q.2.vector [0]).map fun a =>
          (q.1, mapBlockPtr ctx (pageAt ctx 2) 0, a.1)) = some (0, 1, 1) := by
    decide +kernel
  obtain ⟨⟨r, c, w⟩, -, hrun⟩ := Option.bind_eq_some_iff.1 hrun
  obtain ⟨⟨ret, ctx'⟩, hmount, hrun⟩ := Option.bind_eq_some_iff.1 hrun
  obtain ⟨⟨b, v, random⟩, hacq, heq⟩ := Option.map_eq_some_iff.1 hrun
  simp only [Prod.mk.injEq] at heq
  obtain ⟨rfl, hmap, rfl⟩ := heq
  set ctx := mountContext (List.range' 1 13) c.disk with hctx
  have hsb : superBlockOf countKernel ctx = pageAt ctx 2 :=
    superBlockOf_mount (v := 1) c.disk (by decide +kernel) (by decide +kernel) (by decide)
  have hlist : (smallContext (List.range' 1 13)).passiveFs.freeList.Pairwise (· < ·) := by
    decide
  have hM := configured_small.2.1
  rw [← mountContext_config (List.range' 1 13) c.disk, ← hctx] at hM
  have href : Referenced countKernel ctx (mapBlockPtr ctx (superBlockOf countKernel ctx) 0) :=
    .mapBlock (by omega)
  rw [hsb, hmap] at href
  exact h countKernel 1 ctx ctx' hlist hmount [1] v (.cons hacq (.nil v)) 1 (by simp)
    (by decide) href

end Artifice
