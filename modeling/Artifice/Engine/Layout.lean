import Artifice.Engine.Interleave
import Artifice.Metadata.Index

/-!
Where the metadata of an instance lies on its device.

The constructor puts the blocks of the map, the pointer blocks and the replicas of the super block
at positions of the free list that it marks. The engine acquires none of them, so that they stay
where they are through every run of requests.
-/

namespace Artifice

open Lib

/-- Block `x` is reserved, is no block of the map, and holds `page`. -/
structure Pinned (ctx : AfsPrivate) (x : ℕ) (page : Mem) : Prop where
  reserved : Reserved ctx x
  apart : ∀ t < ctx.config.numMapBlocks, x ≠ slotGet ctx (slotOf t)
  page : Agree (devicePage ctx.disk ctx.passiveFs.dataStartOff x) 0 page 0 4096

/-- **The layout of an instance.** Its map blocks are reserved, and the first pointer block and the
super block are on the device as they are in memory, the latter at the first location that the hash
chain of the passphrase leads to. -/
structure Layout (k : Kernel) (rounds : ℕ) (ctx : AfsPrivate) : Prop where
  fits : ctx.config.Fits
  mapped : 0 < ctx.config.numMapBlocks
  blocks : SmallBlocks ctx.passiveFs
  device : blockDeviceSize ctx.config ≠ 0
  slots : SlotsDistinct ctx
  slot : ∀ t < ctx.config.numMapBlocks, Reserved ctx (slotGet ctx (slotOf t))
  ptrBlock : 975 < ctx.config.numMapBlocks →
    Pinned ctx (le ctx.superBlock 4092 4) ctx.afsPtrBlocks
  replica : ∃ n b, n < rounds ∧
    FirstPasses k ctx.passiveFs ctx.passphrase (blockDeviceSize ctx.config) n ∧
    ctx.passiveFs.blockList[chainValue k ctx.passphrase (blockDeviceSize ctx.config) n]? = some b ∧
    Pinned ctx b ctx.superBlock
  valid : sbValid k ctx.superBlock = true
  instanceSize : le ctx.superBlock 52 8 = ctx.config.instanceSize

section

variable {k : Kernel} {g : GfCtx} {ctx ctx' ctx₀ ctx₁ : AfsPrivate} {b x off rounds : ℕ}
  {disk page : Mem} {t : Target} {done : List Done} {sbBlock : List ℕ}

theorem pageSector_eq_carrierSector (hb : b < 2 ^ 20) (off : ℕ) :
    pageSector b off = carrierSector b off := by
  unfold pageSector carrierSector
  omega

theorem agree_devicePage (hb : b < 2 ^ 20) :
    Agree (devicePage disk off b) 0 disk (512 * pageSector b off) 4096 := by
  intro i _
  rw [devicePage, pageSector_eq_carrierSector hb, Nat.zero_add]

/-! ### The layout stays -/

theorem Pinned.effect (h : Pinned ctx x page) (he : Effect b ctx ctx') : Pinned ctx' x page := by
  obtain ⟨hreserved, hpage⟩ := he.reserved x h.reserved
  refine ⟨hreserved, fun t ht => ?_, ?_⟩
  · rw [slotGet_congr he.superBlock he.afsPtrBlocks]
    exact h.apart t (he.same.config ▸ ht)
  · rw [he.same.passiveFs]
    exact hpage.trans h.page

/-- **A request leaves the layout as it is.** -/
theorem Layout.effect (h : Layout k rounds ctx) (he : Effect b ctx ctx') :
    Layout k rounds ctx' := by
  have hslot := slotGet_congr he.superBlock he.afsPtrBlocks
  obtain ⟨n, x, hn, hfirst, hx, hpinned⟩ := h.replica
  constructor
  · rw [he.same.config]
    exact h.fits
  · rw [he.same.config]
    exact h.mapped
  · rw [he.same.passiveFs]
    exact h.blocks
  · rw [he.same.config]
    exact h.device
  · constructor
    · intro t ht
      rw [hslot]
      exact h.slots.small t (he.same.config ▸ ht)
    · intro t ht t' ht'
      rw [hslot, hslot]
      exact h.slots.inj t (he.same.config ▸ ht) t' ht'
  · intro t ht
    rw [hslot]
    exact (he.reserved _ (h.slot t (he.same.config ▸ ht))).1
  · rw [he.same.config, he.superBlock, he.afsPtrBlocks]
    exact fun h975 => (h.ptrBlock h975).effect he
  · refine ⟨n, x, hn, ?_, ?_, ?_⟩
    · rw [he.same.passiveFs, he.same.passphrase, he.same.config]
      exact hfirst
    · rw [he.same.passiveFs, he.same.passphrase, he.same.config]
      exact hx
    · rw [he.superBlock]
      exact hpinned.effect he
  · rw [he.superBlock]
    exact h.valid
  · rw [he.superBlock, he.same.config]
    exact h.instanceSize

/-- **The layout stays in every run** of requests on different blocks. -/
theorem Interleaved.layout (h : Interleaved k g ctx₀ done t) (hk : ∀ n, k.kmalloc n = true)
    (h0 : Holds k ctx₀ fun _ _ => 0) (hl : Layout k rounds ctx₀) :
    SameInstance ctx₀ t.ctx ∧ Layout k rounds t.ctx := by
  induction h with
  | start => exact ⟨SameInstance.refl ctx₀, hl⟩
  | @next done t ev t' before orderly step ih =>
    obtain ⟨hcalm, -⟩ := before.calm hk h0
    obtain ⟨-, ⟨alloc, fresh, bio, code, l, rfl, -, rfl⟩ | ⟨fresh, block, rfl, -⟩ |
      ⟨i, a, o, l, ctx', l', rfl, hi, hs, rfl⟩ | ⟨rfl, -⟩⟩ := Target.next_cases step
    · exact ih
    · exact orderly.elim
    · obtain ⟨ha, hcan⟩ := orderly
      have hopen : t.Open i l := ⟨o, hi, (lifeStep_of_step hs).not_quiet⟩
      obtain ⟨heff, -⟩ := (hcalm.serving i l hopen).step hcalm.inst hcalm.placed hk
        (hcalm.content_of_read hopen) hs ha fun e he => hcan e l he hopen
      exact ⟨ih.1.trans heff.same, ih.2.effect heff⟩
    · exact orderly.elim

/-! ### The layout of a new instance -/

theorem first_lt_rounds {fs : AfsPassiveFs} {passphrase : Mem} {size c n : ℕ} {v v' : BitVector}
    (h : placeReplicas k fs size rounds (c + 1) (chainHash k passphrase 0) v = some (sbBlock, v'))
    (hn : FirstPasses k fs passphrase size n) : n < rounds := by
  simp only [placeReplicas, Option.bind_eq_bind, Option.bind_eq_some_iff] at h
  obtain ⟨⟨hash, b, t⟩, hr, -⟩ := h
  obtain ⟨m, -, hm, -, -, hpass, hj⟩ := rehashLoop_spec (m := 0) hr
  have hfirst : FirstPasses k fs passphrase size m := ⟨hpass, fun j => hj j (Nat.zero_le j)⟩
  rw [← hn.nth_eq, hfirst.nth_eq]
  omega

/-- What the finishing of the super block leaves: the instance size, and everything from the map
block pointers on. -/
theorem finishSuperBlock_spec (hsize : ctx.config.instanceSize < 2 ^ 64) :
    sbValid k (finishSuperBlock k ctx) = true ∧
      le (finishSuperBlock k ctx) 52 8 = ctx.config.instanceSize ∧
      Agree (finishSuperBlock k ctx) 192 ctx.superBlock 192 (4096 - 192) := by
  refine ⟨sbValid_blit k _, ?_, fun i hi => ?_⟩
  · have hhash : Agree (finishSuperBlock k ctx) 52
        (putLe ctx.superBlock 52 8 ctx.config.instanceSize) 52 8 := by
      refine (agree_blit_out (by omega)).trans fun i hi => ?_
      rw [strncpy, if_neg (by omega)]
    rw [le_congr hhash, le_putLe_of_lt (by norm_num; omega)]
  · rw [finishSuperBlock, blit_out (by omega), strncpy, if_neg (by omega), putLe_out (by omega)]

theorem Owned.listed (h : Owned ctx₀ ctx x) :
    ∃ p < ctx.passiveFs.listLen, ctx.passiveFs.blockList[p]? = some x ∧
      ctx.vector.bits p = true := by
  obtain ⟨p, hp, hx⟩ := h
  exact ⟨p, hp.1, hx, hp.2.2⟩

theorem Owned.ne_of_marked (h : Owned ctx₀ ctx x) (hfs : SmallBlocks ctx.passiveFs) {p : ℕ}
    (hp : p < ctx.passiveFs.listLen) (hb : ctx.passiveFs.blockList[p]? = some b)
    (hmark : ctx₀.vector.bits p = true) : x ≠ b := by
  rintro rfl
  obtain ⟨q, hq, hx⟩ := h
  obtain rfl := freeList_pos_inj hfs.nodup hp hq.1 hb hx
  exact absurd (hmark.symm.trans hq.2.1) (by decide)

theorem Created.reserved {fs : AfsPassiveFs} (h : Created fs ctx) (hx : x < 2 ^ 20)
    (hmark : ∃ p < ctx.passiveFs.listLen, ctx.passiveFs.blockList[p]? = some x ∧
      ctx.vector.bits p = true) : Reserved ctx x := by
  refine ⟨hmark, fun b hb j hj => ?_⟩
  rw [h.unmapped b hb j hj, afsInvalidBlock]
  omega

theorem replica_listed {fs : AfsPassiveFs} {passphrase : Mem} {size : ℕ} {v v' : BitVector}
    (h : placeReplicas k fs size rounds 8 (chainHash k passphrase 0) v = some (sbBlock, v'))
    (h0 : 0 < size) (hsize : size ≤ v.length)
    (hlisted : ∀ i < 8, replicaBlock k fs passphrase size i < fs.listLen) {p : ℕ}
    (hp : p ∈ sbBlock) : p < fs.listLen ∧ v'.bits p = true := by
  have hmark := (placeReplicas_marks h).bits p
  have hnth := placeReplicas_nth h
  rw [Nat.count_zero] at hnth
  rw [hnth] at hp
  obtain ⟨i, hi, rfl⟩ := List.mem_map.1 hp
  rw [Nat.zero_add] at hp hmark ⊢
  have hlt : replicaBlock k fs passphrase size i < size := Nat.mod_lt _ h0
  refine ⟨hlisted i (List.mem_range.1 hi), (hmark (by omega)).2 (Or.inr ?_)⟩
  rw [Set.mem_ofPred_eq, hnth]
  exact hp

/-- The index of a prepared super block: its blocks were acquired after the replicas had been
placed. -/
theorem index_of_prepare (hok : ctx.config.Ok) (hfs : SmallBlocks ctx.passiveFs)
    (h : prepareSuperBlock k rounds ctx = some (0, ctx₁, sbBlock)) :
    0 < ctx.config.numMapBlocks ∧ 4096 * ctx.config.numMapBlocks < 2 ^ 32 ∧
      ∃ c c₃ a p, SameInstance ctx c ∧
      placeReplicas k ctx.passiveFs (blockDeviceSize ctx.config) rounds 8
        (chainHash k ctx.passphrase 0) ctx.vector = some (sbBlock, c.vector) ∧
      PtrWritten k c c₃ a p 0 ∧ ctx₁ = { c₃ with superBlock := finishSuperBlock k c₃ } := by
  obtain ⟨-, v, c₁, c₂, c₃, hplace, hmap, hblocks, hptr, rfl⟩ := prepareSuperBlock_steps h
  have hsame : SameInstance ctx c₂ := by
    have h1 := sameInstance_afsCreateMap hmap
    exact SameInstance.trans ⟨h1.config, h1.passphrase, h1.passphraseHash, h1.encodingType,
      h1.entropyDir, h1.passiveFs⟩ (sameMap_afsCreateMapBlocks hblocks).toSameInstance
  have hvector : c₂.vector = v := by
    rcases afsCreateMap_cases hmap with ⟨-, -, m, -, rfl⟩ | ⟨hr, -⟩
    · rcases afsCreateMapBlocks_cases hblocks with ⟨-, -, m', -, rfl⟩ | ⟨hr, -⟩
      · rfl
      · omega
    · omega
  have hfs₃ : SmallBlocks c₃.passiveFs := by
    rw [(sameMap_writePtrBlocks hptr).passiveFs]
    exact hsame.passiveFs ▸ hfs
  obtain ⟨a, p, hw⟩ := writePtrBlocks_spec hptr (hsame.config ▸ hok.indexed) hfs₃.handedOut
  have hsizes : 0 < ctx.config.numMapBlocks ∧ 4096 * ctx.config.numMapBlocks < 2 ^ 32 := by
    rcases afsCreateMapBlocks_cases hblocks with ⟨-, hv, m, hm, -⟩ | ⟨hr, -⟩
    · have hle := createMapBlocksLoop_le hm
      rw [(sameInstance_afsCreateMap hmap).config] at hle hv
      simp only at hle hv
      refine ⟨Nat.pos_of_ne_zero fun hz => ?_, by omega⟩
      rw [hz, Nat.mul_zero, Nat.zero_mod, k.vmalloc_zero] at hv
      cases hv
    · omega
  refine ⟨hsizes.1, hsizes.2, _, c₃, a, p, ?_, ?_, hw, rfl⟩
  · exact hsame.trans ⟨rfl, rfl, rfl, rfl, rfl, rfl⟩
  · rw [hplace]
    simp only [hvector]

theorem createContext_size (args : AfsArgs) (len bdevSize : ℕ) (fs : AfsPassiveFs) (disk : Mem)
    (random : List ℕ) :
    blockDeviceSize (createContext args len bdevSize fs disk random).config = bdevSize / 8 % 2 ^ 32 ∧
      bdevSize / 8 % 2 ^ 32 ≤ (createContext args len bdevSize fs disk random).vector.length := by
  refine ⟨rfl, ?_⟩
  have hlength : (createContext args len bdevSize fs disk random).vector.length = 2 ^ 32 - 1 := by
    simp only [createContext, newContext, allocationSet_eq, BitVector.mark_length]
  omega

/-- **The constructor lays an instance out**, over a free list without doublets below `2 ^ 20`, if
the replicas of the super block are listed. -/
theorem layout_of_create {args : AfsArgs} {len bdevSize : ℕ} {fs : AfsPassiveFs} {random : List ℕ}
    (htype : args.instanceType = .create) (hblocks : SmallBlocks fs)
    (hlisted : ∀ i < 8, replicaBlock k fs args.passphrase (bdevSize / 8 % 2 ^ 32) i < fs.listLen)
    (h : afsCtr k rounds args len bdevSize fs disk random = some (.ok ctx)) :
    Layout k rounds ctx := by
  have hcreated := created_of_create htype h
  obtain ⟨hlen, written, hw⟩ := afsCtr_written htype h
  obtain ⟨h0, ⟨n, b, rest, hfirst, hb, rfl⟩, -⟩ := writeSuperBlock_spec hw
  obtain ⟨ctx₁, sbBlock, disk', hprep, hd, rfl⟩ := writeSuperBlock_written hw
  obtain ⟨hpos, hmb, c, c₃, a, p, hsame, hplace, hptr, rfl⟩ := index_of_prepare
    (createContext_ok args len bdevSize fs disk random) hblocks hprep
  have hsame₃ := hsame.trans hptr.map.same
  have hfs₃ : c₃.passiveFs = fs := hsame₃.passiveFs
  have hcfg : c.config = c₃.config := hptr.map.same.config.symm
  -- the super block that is written, and the slots in it
  have hsize : c₃.config.instanceSize < 2 ^ 64 := by
    rw [hsame₃.config]
    exact Nat.mod_lt _ (by norm_num)
  obtain ⟨hvalid, hsz, hsb⟩ := finishSuperBlock_spec (k := k) hsize
  have hslot : ∀ t < c₃.config.numMapBlocks, slotGet { c₃ with
      superBlock := finishSuperBlock k c₃, disk := disk' } (slotOf t) = a t := by
    intro t ht
    rw [← hptr.map.slot t (hcfg ▸ ht)]
    unfold slotOf
    split_ifs with h975
    · exact le_congr (hsb.sub (j := 4 * t) (by omega))
    · rfl
  have hfirstPtr : le (finishSuperBlock k c₃) 4092 4 = le c₃.superBlock 4092 4 :=
    le_congr (hsb.sub (j := 3900) (by omega))
  -- the replicas are at marked positions, the blocks of the index at others
  have hloc : ∀ x ∈ b :: rest, ∃ q < fs.listLen, fs.blockList[q]? = some x ∧
      c.vector.bits q = true := by
    intro x hx
    have hmap := writeReplicas_iff.1 ⟨disk', hd⟩
    have hx' : some x ∈ sbBlock.map fun v => c₃.passiveFs.blockList[v]? := by
      rw [hmap]
      exact List.mem_map_of_mem hx
    obtain ⟨q, hq, hqx⟩ := List.mem_map.1 hx'
    obtain ⟨hlt, hmark⟩ := replica_listed hplace (Nat.pos_of_ne_zero h0)
      (createContext_size args len bdevSize fs disk random).2 hlisted hq
    exact ⟨q, hlt, hfs₃ ▸ hqx, hmark⟩
  have hrep : ∀ x ∈ b :: rest, x < 2 ^ 20 := by
    intro x hx
    obtain ⟨q, hq, hqx, -⟩ := hloc x hx
    exact hblocks.small x (mem_freeList hq hqx)
  have hne : ∀ y, Owned c c₃ y → ∀ x ∈ b :: rest, x ≠ y := by
    intro y hy x hx
    obtain ⟨q, hq, hqx, hmark⟩ := hloc x hx
    exact (hy.ne_of_marked (hfs₃ ▸ hblocks) (hfs₃ ▸ hq) (hfs₃ ▸ hqx) hmark).symm
  have hpage : ∀ y, Owned c c₃ y → y < 2 ^ 20 →
      Agree (devicePage disk' c₃.passiveFs.dataStartOff y) 0 c₃.disk
        (512 * pageSector y c₃.passiveFs.dataStartOff) 4096 := fun y hy hlt =>
    (agree_devicePage hlt).trans (writeReplicas_other hd hlt fun x hx => ⟨hrep x hx, hne y hy x hx⟩)
  have hreserved : ∀ x < 2 ^ 20, (∃ q < fs.listLen, fs.blockList[q]? = some x ∧
      c₃.vector.bits q = true) → Reserved { c₃ with
        superBlock := finishSuperBlock k c₃, disk := disk' } x := fun x hx hmark =>
    hcreated.reserved hx (by rw [hcreated.passiveFs]; exact hmark)
  have hindex : ∀ y, Owned c c₃ y → y < 2 ^ 20 → Reserved { c₃ with
      superBlock := finishSuperBlock k c₃, disk := disk' } y := by
    intro y hy hlt
    refine hreserved y hlt ?_
    rw [← hfs₃]
    exact hy.listed
  refine ⟨⟨⟨hcreated.config, ?_⟩, ?_⟩, ?_, hfs₃ ▸ hblocks, ?_, ⟨?_, ?_⟩, ?_, fun h975 => ?_, ?_,
    hvalid, hsz⟩
  · have hsz := hcreated.config.entrySz
    have hsmall := hcreated.small
    rw [hcreated.carriers] at hsz
    rw [hsz]
    omega
  · simp only [hsame₃.config]
    exact hmb
  · simp only [hsame₃.config]
    exact hpos
  · simp only [hsame₃.config]
    exact h0
  · intro t ht
    rw [hslot t ht]
    exact hptr.map.small t (hcfg ▸ ht)
  · intro t ht t' ht'
    rw [hslot t ht, hslot t' (lt_trans ht' ht)]
    exact hptr.map.inj t (hcfg ▸ ht) t' ht'
  · intro t ht
    rw [hslot t ht]
    exact hindex _ (hptr.map.owned t (hcfg ▸ ht)) (hptr.map.small t (hcfg ▸ ht))
  · have hpos : 0 < c.config.numPtrBlocks := by
      have hidx := hcreated.config.ptrBlocks
      simp only at hidx h975
      rw [hcfg, hidx]
      omega
    have howned := hptr.owned 0 (le_refl 0) hpos
    have hsmall := hptr.small 0 (le_refl 0) hpos
    rw [hfirstPtr, hptr.first rfl hpos]
    refine ⟨hindex _ howned hsmall, fun t ht => ?_, ?_⟩
    · rw [hslot t ht]
      exact hptr.apart 0 (le_refl 0) hpos t (hcfg ▸ ht)
    · exact (hpage _ howned hsmall).trans (hptr.page 0 (le_refl 0) hpos)
  · have hmem : b ∈ b :: rest := List.mem_cons_self ..
    refine ⟨n, b, first_lt_rounds hplace hfirst, ?_, ?_, hreserved b (hrep b hmem) ?_,
      fun t ht => ?_, ?_⟩
    · simp only [hsame₃.passiveFs, hsame₃.passphrase, hsame₃.config]
      exact hfirst
    · simp only [hsame₃.passiveFs, hsame₃.passphrase, hsame₃.config]
      exact hb
    · obtain ⟨q, hq, hqb, hmark⟩ := hloc b hmem
      exact ⟨q, hq, hqb, hptr.map.grows.bits q hmark⟩
    · rw [hslot t ht]
      exact hne _ (hptr.map.owned t (hcfg ▸ ht)) b hmem
    · exact (agree_devicePage (hrep b hmem)).trans (writeReplicas_agree hd hmem)

end

end Artifice
