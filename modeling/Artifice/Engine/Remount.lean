import Artifice.Engine.Layout
import Artifice.Engine.ReadOnly
import Artifice.Metadata.Search

/-!
Unmounting an instance and mounting it again.

The destructor packs the map into its blocks and leaves every other block of the device; the
constructor finds the super block and reads the map back. The blocks of an instance that the first
976 map blocks describe are then what they were.
-/

namespace Artifice

open Lib

/-- What the destructor leaves on the device: the map in its blocks, and the other blocks as they
were. -/
structure Saved (ctx ctx' : AfsPrivate) : Prop where
  entries : ∀ t < ctx.config.numMapBlocks,
    HoldsEntries { ctx with disk := ctx'.disk } ctx.afsMap (slotGet ctx (slotOf t)) t
  other : ∀ b < 2 ^ 20, (∀ t < ctx.config.numMapBlocks, b ≠ slotGet ctx (slotOf t)) →
    Agree (devicePage ctx'.disk ctx.passiveFs.dataStartOff b) 0
      (devicePage ctx.disk ctx.passiveFs.dataStartOff b) 0 4096

/-- A context that mounts what `ctx` has left on `disk`. -/
structure MountsOn (disk : Mem) (ctx c : AfsPrivate) : Prop where
  same : SameInstance ctx (configured c)
  disk : c.disk = disk

/-- The file system that an instance was created over has the locations of all replicas in its free
list. -/
def ReplicasListed (k : Kernel) (fs : AfsPassiveFs) (passphrase : Mem) (bdevSize : ℕ) : Prop :=
  ∀ i < 8, replicaBlock k fs passphrase (bdevSize / 8 % 2 ^ 32) i < fs.listLen

section

variable {k : Kernel} {g : GfCtx} {ctx ctx' ctx₀ ctx₁ c : AfsPrivate} {b x rounds : ℕ}
  {disk sb : Mem} {t : Target} {done : List Done}

/-! ### Unmounting -/

/-- **The destructor saves the map.** -/
theorem Layout.afsDtr (h : Layout k rounds ctx) (hk : k.HasMemory) :
    ∃ ctx', afsDtr k [] [] ctx = some ctx' ∧ Saved ctx ctx' := by
  obtain ⟨c, hcreate⟩ := afsCreateMapBlocks_returns h.fits
    (hk.vmalloc _ (Nat.mul_pos (by norm_num) h.mapped))
  obtain ⟨-, ⟨m, rfl⟩, hpacked⟩ := afsCreateMapBlocks_spec h.fits hcreate
  have hslot : ∀ s, slotGet { ctx with afsMapBlocks := m } s = slotGet ctx s :=
    fun s => slotGet_congr rfl rfl s
  have hdistinct : SlotsDistinct { ctx with afsMapBlocks := m } :=
    ⟨fun t ht => by rw [hslot]; exact h.slots.small t ht,
      fun t ht t' ht' => by rw [hslot, hslot]; exact h.slots.inj t ht t' ht'⟩
  have hidx : ({ ctx with afsMapBlocks := m } : AfsPrivate).config.Indexed := h.fits.toOk.indexed
  obtain ⟨ctx', hwrite, hupdated⟩ := writeMapBlocks_update hidx hdistinct
  refine ⟨ctx', ?_, fun t ht => ?_, fun b hb hne => ?_⟩
  · rw [Artifice.afsDtr, if_neg (by simp), hcreate, Option.bind_eq_bind, Option.bind_some]
    dsimp only
    rw [if_neg (by simp), hwrite, Option.bind_some]
  · -- the page of slot `t` is map block `t`
    have hoff : ctx'.passiveFs.dataStartOff = ctx.passiveFs.dataStartOff := by
      rw [hupdated.context]
    have hpage := (agree_pageAt.symm.trans (hupdated.page t ht)).sub
      (j := 64 + ctx.config.unusedSpacePerBlock)
      (k := blockEntries ctx.config t * ctx.config.mapEntrySz) (h.fits.tiles.entries_le t)
    rw [hslot, hoff, ← Nat.add_assoc, ← Nat.add_assoc] at hpage
    exact hpage.trans (hpacked t ht)
  · have hpage := hupdated.other b hb fun t ht => by rw [hslot]; exact hne t ht
    have hoff : ctx'.passiveFs.dataStartOff = ctx.passiveFs.dataStartOff := by
      rw [hupdated.context]
    have h' : Agree (pageAt ctx' b) 0 (devicePage ctx'.disk ctx.passiveFs.dataStartOff b) 0 4096 :=
      (hoff ▸ agree_pageAt).trans (agree_devicePage hb).symm
    exact h'.symm.trans (hpage.trans (agree_pageAt.trans (agree_devicePage hb).symm))

theorem Pinned.saved {page : Mem} (h : Pinned ctx x page) (hs : Saved ctx ctx') (hx : x < 2 ^ 20) :
    Agree ctx'.disk (512 * pageSector x ctx.passiveFs.dataStartOff) page 0 4096 :=
  (agree_devicePage hx).symm.trans ((hs.other x hx h.apart).trans h.page)

theorem Reserved.small (h : Reserved ctx x) (hfs : SmallBlocks ctx.passiveFs) : x < 2 ^ 20 := by
  obtain ⟨p, hp, hx, -⟩ := h.marked
  exact hfs.small x (mem_freeList hp hx)

/-! ### Mounting -/

theorem Layout.mapOnDisk (h : Layout k rounds ctx) (hs : Saved ctx ctx')
    (hcfg : c.config = ctx.config) (hfs : c.passiveFs = ctx.passiveFs) (hd : c.disk = ctx'.disk)
    (hsb : Agree sb 0 ctx.superBlock 0 4096) : MapOnDisk c sb ctx.afsMap := by
  have hentries : ∀ t < ctx.config.numMapBlocks,
      HoldsEntries c ctx.afsMap (slotGet ctx (slotOf t)) t := by
    intro t ht
    have := hs.entries t ht
    rw [HoldsEntries] at this ⊢
    rw [hcfg, hfs, hd]
    exact this
  refine ⟨fun t h975 ht => ?_, fun h975 => ?_⟩
  · have hslot : le sb (192 + 4 * t) 4 = slotGet ctx (slotOf t) := by
      rw [slotOf_sb h975]
      have := hsb.sub (j := 192 + 4 * t) (k := 4) (by omega)
      rw [Nat.zero_add] at this
      exact le_congr this
    rw [hslot]
    exact hentries t (hcfg ▸ ht)
  · rw [hcfg] at h975
    have hpinned := h.ptrBlock h975
    have hfirst : le sb 4092 4 = le ctx.superBlock 4092 4 := by
      have := hsb.sub (j := 4092) (k := 4) (by omega)
      rw [Nat.zero_add] at this
      exact le_congr this
    have hpage := (hpinned.saved hs (hpinned.reserved.small h.blocks)).sub (j := 16) (k := 4) (by omega)
    have hslot : slotGet ctx (slotOf 975) = le ctx.afsPtrBlocks 16 4 := rfl
    rw [hfirst, hfs, hd, le_congr hpage, Nat.zero_add, ← hslot]
    exact hentries 975 h975

theorem afsCreateMap_returns (hc : ctx.config.MapFits) (hpos : 0 < ctx.config.numBlocks)
    (hk : k.HasMemory) : ∃ m, afsCreateMap k ctx = some (0, { ctx with afsMap := m }) := by
  have hsz := hc.entrySz
  have hmap := hc.map
  have hmul : 0 < ctx.config.numBlocks * ctx.config.mapEntrySz := Nat.mul_pos hpos (by omega)
  obtain ⟨m, hm⟩ : ∃ m, createMapLoop ctx.config
      (pageRound (ctx.config.numBlocks * ctx.config.mapEntrySz)) k.uninit ctx.config.numBlocks =
        some m := by
    refine createMapLoop_isSome_iff.2 fun i hi => ?_
    have hle := Nat.mul_le_mul_right ctx.config.mapEntrySz (Nat.succ_le_of_lt hi)
    rw [Nat.succ_mul] at hle
    rw [Nat.mod_eq_of_lt (by omega)]
    exact hle.trans (le_pageRound _)
  refine ⟨m, ?_⟩
  rw [afsCreateMap, Nat.mod_eq_of_lt hmap, if_pos (hk.vmalloc _ hmul), hm, Option.bind_eq_bind,
    Option.bind_some]

theorem Layout.search (h : Layout k rounds ctx) (hs : Saved ctx ctx')
    (hm : MountsOn ctx'.disk ctx c) {rounds' : ℕ} (hr : rounds ≤ rounds') :
    ∃ s, searchSuperBlock k rounds' c = some s ∧ s.valid = true ∧
      Agree s.sb 0 ctx.superBlock 0 4096 := by
  obtain ⟨n, b, hn, hfirst, hb, hpinned⟩ := h.replica
  have hsize : blockDeviceSize c.config = blockDeviceSize ctx.config := by
    rw [← hm.same.config]
    rfl
  have hfs : c.passiveFs = ctx.passiveFs := hm.same.passiveFs
  have hpass : c.passphrase = ctx.passphrase := hm.same.passphrase
  have hpage := hpinned.saved hs (hpinned.reserved.small h.blocks)
  rw [← hfs, ← hpass, ← hsize] at hfirst hb
  obtain ⟨s, hsearch, -, hvalid, -, -, hread⟩ := searchSuperBlock_eq (hsize ▸ h.device) hfirst hb
    (lt_of_lt_of_le hn hr)
  rw [hm.disk, hfs, blockValid_of_agree hpage, h.valid] at hvalid
  refine ⟨s, hsearch, hvalid, ?_⟩
  have hagree := hread hvalid
  rw [hm.disk, hfs] at hagree
  exact hagree.trans hpage

/-- **A mount restores the map** as far as the first 976 map blocks reach. -/
theorem Layout.findSuperBlock (h : Layout k rounds ctx) (hs : Saved ctx ctx')
    (hm : MountsOn ctx'.disk ctx c) (hk : k.HasMemory) {rounds' : ℕ} (hr : rounds ≤ rounds') :
    ∃ ctx₁, findSuperBlock k rounds' c = some (0, ctx₁) ∧
      SameInstance ctx ctx₁ ∧ ctx₁.disk = ctx'.disk ∧
      ∀ e < ctx.config.numBlocks, e < 976 * ctx.config.numMapEntriesPerBlock →
        Agree ctx₁.afsMap (e * ctx.config.mapEntrySz) ctx.afsMap (e * ctx.config.mapEntrySz)
          ctx.config.mapEntrySz := by
  obtain ⟨s, hsearch, hvalid, hsb⟩ := h.search hs hm hr
  have hok := h.fits.toOk
  have hpos : 0 < ctx.config.numBlocks := by
    have hmb := hok.mapBlocks
    have hmapped := h.mapped
    have hentries := hok.entries
    by_contra hz
    rw [Nat.eq_zero_of_not_pos hz, Nat.zero_add, Nat.div_eq_of_lt (by omega)] at hmb
    omega
  have hinst : c.config.instanceSize = le s.sb 52 8 := by
    have hsz := hsb.sub (j := 52) (k := 8) (by omega)
    rw [Nat.zero_add] at hsz
    rw [le_congr hsz, h.instanceSize, ← hm.same.config]
    rfl
  obtain ⟨c₁, hc₁⟩ : ∃ c₁, c₁ = { mark { c with superBlock := s.sb } s.sbBlock with
    config := buildConfiguration c.config 4 1 } := ⟨_, rfl⟩
  have hcfg : c₁.config = ctx.config := by
    rw [hc₁]
    exact hm.same.config
  have hfits : c₁.config.MapFits := hcfg ▸ h.fits.toMapFits
  obtain ⟨m, hmap⟩ := afsCreateMap_returns hfits (hcfg ▸ hpos) hk
  have hdisk : MapOnDisk { c₁ with afsMap := m } s.sb ctx.afsMap :=
    h.mapOnDisk hs hcfg (by rw [hc₁]; exact hm.same.passiveFs) (by rw [hc₁]; exact hm.disk) hsb
  obtain ⟨c₂, hfill, hread⟩ := afsFillMap_spec
    (show ({ c₁ with afsMap := m } : AfsPrivate).config.MapFits from hfits) hdisk (hcfg ▸ h.mapped)
    (hk.kmalloc _)
  have hcfg₂ : c₂.config = ctx.config := hread.config.trans hcfg
  obtain ⟨⟨v, hv⟩, -⟩ := rebuildAllocationVector_spec hread.marked c₂.config.numBlocks
  obtain ⟨pb, hpb⟩ := rebuildPtrBlocks_frame { c₂ with vector := v, afsPtrBlocks := k.uninit }
    c₂.config.numPtrBlocks
  have hsame := sameInstance_afsFillMap hfill
  refine ⟨{ c₂ with vector := v, afsPtrBlocks := pb }, ?_, ?_, ?_, fun e he hlt => ?_⟩
  · rw [findSuperBlock_eq hsearch, if_neg (not_not.2 hvalid), if_neg (not_not.2 hinst), ← hc₁,
      loadMap, hmap, Option.bind_eq_bind, Option.bind_some]
    dsimp only
    rw [if_neg (not_not.2 rfl), hfill, Option.bind_some]
    dsimp only at hv ⊢
    rw [if_neg (not_not.2 rfl), hv]
    dsimp only
    rw [if_pos (hk.kmalloc _), hpb]
  · rw [hc₁] at hsame
    exact hm.same.trans ⟨hsame.config, hsame.passphrase, hsame.passphraseHash,
      hsame.encodingType, hsame.entropyDir, hsame.passiveFs⟩
  · rw [hc₁] at hread
    exact hread.disk.trans hm.disk
  · have hentry := hread.entry (hcfg ▸ hok) (e := e) (hcfg ▸ he)
    rw [sourceEntry_eq (hcfg ▸ hok) (hcfg ▸ hlt)] at hentry
    dsimp only at hentry
    rw [hcfg] at hentry
    exact hentry

/-- **A mounted instance is the one that was unmounted**, block by block: the entry and the carriers
of every block that the first 976 map blocks describe. -/
theorem Layout.remount (h : Layout k rounds ctx) (hi : Instance ctx) (hp : Placed ctx)
    (hs : Saved ctx ctx') (hm : MountsOn ctx'.disk ctx c) (hk : k.HasMemory) {rounds' : ℕ}
    (hr : rounds ≤ rounds') :
    ∃ ctx₁, Artifice.findSuperBlock k rounds' c = some (0, ctx₁) ∧ SameInstance ctx ctx₁ ∧
      ctx₁.disk = ctx'.disk ∧ Instance ctx₁ ∧ ∀ b < ctx.config.numBlocks, b < 976 * 63 → Alike b ctx ctx₁ := by
  obtain ⟨ctx₁, hfind, hsame, hdisk, hentries⟩ := h.findSuperBlock hs hm hk hr
  have hok := hi.config
  have hsz : ctx.config.mapEntrySz = 64 := by rw [hok.entrySz, hi.carriers]
  have hper : ctx.config.numMapEntriesPerBlock = 63 := by
    rw [← hm.same.config]
    exact (configured_sizes c).2.1
  refine ⟨ctx₁, hfind, hsame, hdisk, hi.of_sameInstance hsame, fun b hb hlt => ⟨hsame, ?_, ?_⟩⟩
  · rw [hi.afsGetMapEntry hb]
    have := hentries b hb (by rw [hper]; exact hlt)
    rwa [hsz, Nat.mul_comm] at this
  · intro j hj hval
    obtain ⟨p, hlist, hpb, -⟩ := hp.marked b hb j hj hval
    rw [hdisk]
    exact hs.other _ (h.blocks.small _ (mem_freeList hlist hpb)) fun t ht =>
      (h.slot t ht).free b hb j hj

/-! ### Another entropy directory -/

section

variable {dir : Mem}

theorem Reserved.entropyDir (h : Reserved ctx x) : Reserved { ctx with entropyDir := dir } x :=
  ⟨h.marked, h.free⟩

theorem Pinned.entropyDir {page : Mem} (h : Pinned ctx x page) :
    Pinned { ctx with entropyDir := dir } x page :=
  ⟨h.reserved.entropyDir, h.apart, h.page⟩

theorem Layout.entropyDir (h : Layout k rounds ctx) :
    Layout k rounds { ctx with entropyDir := dir } where
  fits := h.fits
  mapped := h.mapped
  blocks := h.blocks
  device := h.device
  slots := ⟨h.slots.small, h.slots.inj⟩
  slot t ht := (h.slot t ht).entropyDir
  ptrBlock ht := (h.ptrBlock ht).entropyDir
  replica := by
    obtain ⟨n, b, hn, hpass, hb, hpinned⟩ := h.replica
    exact ⟨n, b, hn, hpass, hb, hpinned.entropyDir⟩
  valid := h.valid
  instanceSize := h.instanceSize

theorem Instance.entropyDir (h : Instance ctx) : Instance { ctx with entropyDir := dir } :=
  ⟨h.carriers, h.config, h.small, h.encoding, h.increasing, h.sectors⟩

theorem Placed.entropyDir (h : Placed ctx) : Placed { ctx with entropyDir := dir } :=
  ⟨h.marked, h.distinct⟩

theorem Saved.entropyDir (h : Saved ctx ctx') : Saved { ctx with entropyDir := dir } ctx' :=
  ⟨h.entries, h.other⟩

theorem Content.entropyDir {d : Mem} (h : Content k ctx b d) :
    Content k { ctx with entropyDir := dir } b d :=
  h.imp id fun hst => ⟨hst.valid, hst.checksum, hst.data⟩

end

/-! ### From the constructor to the next one -/

theorem Interleaved.queues (h : Interleaved k g ctx₀ done t) :
    t.flightEq = [] ∧ t.rebuildEq = [] := by
  induction h with
  | start => exact ⟨rfl, rfl⟩
  | @next done t ev t' before orderly step ih =>
    obtain ⟨-, ⟨alloc, fresh, bio, code, l, rfl, -, rfl⟩ | ⟨fresh, block, rfl, rfl⟩ |
      ⟨i, a, o, l, ctx', l', rfl, -, -, rfl⟩ | ⟨rfl, -⟩⟩ := Target.next_cases step
    · exact ih
    · exact ih
    · exact ih
    · exact orderly.elim

theorem sameInstance_of_create {args : AfsArgs} {len bdevSize : ℕ} {fs : AfsPassiveFs}
    {random : List ℕ} (htype : args.instanceType = .create)
    (h : afsCtr k rounds args len bdevSize fs disk random = some (.ok ctx)) :
    SameInstance (createContext args len bdevSize fs disk random) ctx := by
  obtain ⟨-, written, hw⟩ := afsCtr_written htype h
  obtain ⟨ctx₁, sbBlock, disk', hprep, -, rfl⟩ := writeSuperBlock_written hw
  obtain ⟨-, -, hsame, -⟩ := prepareSuperBlock_spec hprep
  exact hsame.trans ⟨rfl, rfl, rfl, rfl, rfl, rfl⟩

theorem sameInstance_mounting {args mountArgs : AfsArgs} {len bdevSize : ℕ} {fs : AfsPassiveFs}
    {disk' : Mem} {random random' : List ℕ} (hpass : mountArgs.passphrase = args.passphrase)
    (h : SameInstance (createContext args len bdevSize fs disk random) ctx) :
    SameInstance { ctx with entropyDir := mountArgs.entropyDir }
      (configured (newContext mountArgs (len * 512 % 2 ^ 64) bdevSize fs disk' random')) where
  config := h.config.symm
  passphrase := hpass.trans h.passphrase.symm
  passphraseHash := by
    show sha3_256 mountArgs.passphrase 64 _ = ctx.passphraseHash
    rw [hpass]
    exact h.passphraseHash.symm
  encodingType := h.encodingType.symm
  entropyDir := rfl
  passiveFs := h.passiveFs.symm

theorem afsCtr_mount {args : AfsArgs} {len bdevSize rounds : ℕ} {fs : AfsPassiveFs}
    {random : List ℕ} (hk : k.HasMemory) (htype : args.instanceType = .mount)
    (hlen : 2 ^ 16 ≤ len * 512 % 2 ^ 64)
    (h : findSuperBlock k rounds
      (newContext args (len * 512 % 2 ^ 64) bdevSize fs disk random) = some (0, ctx)) :
    afsCtr k rounds args len bdevSize fs disk random = some (.ok ctx) := by
  unfold afsCtr
  rw [if_neg (not_lt.2 hlen), if_neg (not_not.2 (hk.kmalloc _)),
    if_neg (not_not.2 ⟨hk.kmalloc _, hk.vmalloc _ (by norm_num)⟩)]
  simp only [htype, h, Option.bind_eq_bind, Option.bind_some]
  rfl

end

/-- **An instance survives an unmount and a mount.** After a successful `TYPE_CREATE` over an
increasing free list below block `2 ^ 20`, with all replicas listed, and any interleaving of reads
and whole-block writes on different blocks that has come to its end: the destructor succeeds, and
the constructor on `TYPE_MOUNT` with the same passphrase and device then succeeds as well, whatever
its other arguments and its random numbers are. In every run of reads of the first 976 map blocks' data
blocks and of requests of `afs_rebuild`, in any order, each read that ends returns what was last
written to its block before the unmount, or zeros; nothing on the device changes; every read under way
can be brought to its end by steps of its own; and no request of `afs_rebuild` ends. -/
theorem remount_restores {k : Kernel} {g : GfCtx} {rounds rounds' : ℕ} {args mountArgs : AfsArgs}
    {len bdevSize : ℕ} {fs : AfsPassiveFs} {disk : Mem} {random random' : List ℕ}
    {ctx₀ : AfsPrivate} {t : Target} {done : List Done} (hk : k.HasMemory)
    (htype : args.instanceType = .create) (hmount : mountArgs.instanceType = .mount)
    (hpass : mountArgs.passphrase = args.passphrase) (hinc : fs.freeList.Pairwise (· < ·))
    (hsec : ∀ b ∈ fs.freeList, 8 * b + fs.dataStartOff < 2 ^ 32)
    (hsmall : ∀ b ∈ fs.freeList, b < 2 ^ 20)
    (hlisted : ReplicasListed k fs args.passphrase bdevSize)
    (hctr : afsCtr k rounds args len bdevSize fs disk random = some (.ok ctx₀))
    (h : Interleaved k g ctx₀ done t) (hquiet : ∀ i l, ¬ t.Open i l) (hr : rounds ≤ rounds') :
    ∃ t' ctx₁, t.next k g .dtr = some t' ∧
      afsCtr k rounds' mountArgs len bdevSize fs t'.ctx.disk random' = some (.ok ctx₁) ∧
      ctx₁.config = ctx₀.config ∧
      ∀ n ≤ ctx₁.config.numBlocks, n ≤ 976 * 63 → ∀ done' t₁, ReadOnlyRun k g n ctx₁ done' t₁ →
        t₁.ctx.disk = t'.ctx.disk ∧ (∀ r ∈ done', Answered (lastWrite done) r) ∧
        (∀ (i : ℕ) (l : Life), t₁.lives[i]? = some (Origin.map, l) → ¬ l.Quiet →
          ∃ t₂ l', ReadOnlyRun k g n ctx₁ (done' ++ [⟨l.req.bio, l'⟩]) t₂ ∧ l'.Quiet) ∧
        ∀ (i : ℕ) (l : Life), t₁.lives[i]? = some (Origin.rebuild, l) → ¬ l.Quiet := by
  have hblocks : SmallBlocks fs := ⟨hinc.imp fun h => h.ne, hsmall⟩
  obtain ⟨hinst, hunmapped⟩ := unmapped_of_create htype hinc hsec hctr
  have h0 : Holds k ctx₀ fun _ _ => 0 := Holds.of_unmapped hinst hunmapped
  obtain ⟨hsame₀, hlayout⟩ := h.layout hk.kmalloc h0 (layout_of_create htype hblocks hlisted hctr)
  obtain ⟨hcalm, -⟩ := h.calm hk.kmalloc h0
  -- unmounting
  obtain ⟨ctx', hdtr, hsaved⟩ := hlayout.afsDtr hk
  obtain ⟨hflight, hrebuild⟩ := h.queues
  have hnext : t.next k g .dtr = some { t with ctx := ctx', registered := false } := by
    rw [Target.next, if_neg (not_not.2 hcalm.registered)]
    simp only [hflight, hrebuild, hdtr, Option.bind_eq_bind, Option.bind_some]
  -- mounting
  have hsame : SameInstance { t.ctx with entropyDir := mountArgs.entropyDir }
      (configured (newContext mountArgs (len * 512 % 2 ^ 64) bdevSize fs ctx'.disk random')) :=
    sameInstance_mounting hpass ((sameInstance_of_create htype hctr).trans hsame₀)
  obtain ⟨ctx₁, hfind, hsame₁, hdisk, hinst₁, halike⟩ := hlayout.entropyDir.remount
    hcalm.inst.entropyDir hcalm.placed.entropyDir hsaved.entropyDir ⟨hsame, rfl⟩ hk hr
  obtain ⟨hlen, -⟩ := afsCtr_written htype hctr
  have hctr₁ := afsCtr_mount hk hmount hlen hfind
  refine ⟨_, ctx₁, hnext, hctr₁, hsame₁.config.trans hsame₀.config,
    fun n hn hreach done' t₁ hrun => ?_⟩
  have hcontent : ∀ b < n, Content k ctx₁ b (lastWrite done b) := fun b hb => by
    have hb' : b < t.ctx.config.numBlocks := hsame₁.config ▸ lt_of_lt_of_le hb hn
    exact (halike b hb' (lt_of_lt_of_le hb hreach)).content
      (hcalm.content b hb' fun i l hopen => absurd hopen (hquiet i l)).entropyDir
  obtain ⟨hro, hdisk₁, hans⟩ := hrun.readOnly hk.kmalloc hinst₁ hn hcontent
  exact ⟨hdisk₁.trans hdisk, hans,
    fun i l hl hq => hrun.drain hk.kmalloc hinst₁ hn hcontent hl hq, fun i l hl => hro.not_quiet hl⟩

theorem lastWrite_blockBio {w : Done} {b i : ℕ} {page : Mem} (hw : w.bio = blockBio .write b page)
    (hi : i < 4096) : lastWrite [w] b i = page i := by
  have hb : (blockBio .write b page).biSector / 8 = b := by simp [blockBio]
  simp only [lastWrite, List.foldl_cons, List.foldl_nil, deviceStep, hw, hb]
  simp [blockBio, segmentByte, hi]

end Artifice
