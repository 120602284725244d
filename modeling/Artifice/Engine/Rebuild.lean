import Artifice.Engine.Session

/-!
Rebuilds. `rebuild_blocks` encodes the data block anew and then copies the data block itself over
every carrier, so that it writes four copies of the data. Two equal shares of a line stand for what
they are; two parts of a package that show the data stand for something else.
-/

namespace Artifice

open Lib

/-- `rebuild_blocks` went to `write_pages` for a request, and all of its carriers were written, with
nothing else on the device meanwhile. -/
structure Rebuilt (k : Kernel) (g : GfCtx) (ctx : AfsPrivate) (req : AfsMapRequest)
    (ctx' : AfsPrivate) : Prop where
  run : ∃ e s l acts l', rebuildBlocksMap k g e ctx req = some (.next s) ∧ l.Sound ∧
    l.phase = .rebuildBlocks ∧ Runs k g s.1 (beginWritePages l true s.1.config s.2) acts ctx' l' ∧
    (∀ a ∈ acts, a.Smooth) ∧ l'.Quiet

/-- Every read of block `b` can finish, ends its bio, and returns `d`. -/
def ReadsBack (k : Kernel) (g : GfCtx) (ctx : AfsPrivate) (b : ℕ) (d : Mem) : Prop :=
  ∀ bio fresh, bio.InBlock → bio.biOp = .read → bio.biSector / 8 = b →
    (∃ ctx' l, Served k g ctx fresh bio ctx' l) ∧ ∀ ctx' l, Served k g ctx fresh bio ctx' l →
      LogEvent.endio ∈ l.log ∧ ∀ i < bio.biSize, l.answer i = d (bio.biSector % 8 * 512 + i)

/-- The entry is mapped, its checksums are those of its carriers, and every carrier is `d`. -/
structure Copied (ctx : AfsPrivate) (entry : ℕ) (d : Mem) : Prop where
  valid : ∀ j < 4, carrierPtr ctx.afsMap entry j ≠ afsInvalidBlock
  checksum : ∀ j < 4, tupleChecksum ctx.afsMap entry j =
    (cityhash32To16 (entryPage ctx entry j) 4096).toNat
  pages : ∀ j < 4, Agree (entryPage ctx entry j) 0 d 0 4096

section

variable {k : Kernel} {g : GfCtx} {e : Entropy} {ctx ctx' : AfsPrivate} {l : Life}
  {req : AfsMapRequest} {b entry : ℕ} {d : Mem} {rebuild : Bool} {config : AfsConfig}

theorem Pointed.copied {s : AfsPrivate × AfsMapRequest} {ctx₂ : AfsPrivate} {l₂ : Life}
    (h : Pointed ctx b s) (hw : Writing s.1 s.2 ctx₂ l₂) (harr : ∀ j < 4, l₂.Arrived j)
    (hpages : ∀ j < 4, Agree (s.2.carrierBlocks j) 0 d 0 4096) :
    Copied (writtenContext s ctx₂) (afsGetMapEntry ctx.config b) d := by
  have hpage := fun j hj => h.entryPage_written hw harr (j := j) hj
  rw [h.entry] at hpage
  refine ⟨fun j hj => ?_, fun j hj => ?_, fun j hj => (hpage j hj).trans (hpages j hj)⟩
  · show carrierPtr (storeChecksums s.1.afsMap s.2 4) _ j ≠ _
    rw [← h.entry, carrierPtr_storeChecksums, h.nums j hj]
    exact h.valid j hj
  · have hsum : tupleChecksum (storeChecksums s.1.afsMap s.2 4) s.2.mapEntry j =
        (cityhash32To16 (s.2.carrierBlocks j) 4096).toNat := tupleChecksum_storeChecksums hj
    rw [h.entry] at hsum
    exact hsum.trans (congrArg UInt16.toNat (cityhash32To16_congr (hpage j hj)).symm)

/-- **A rebuild leaves four copies of the data block**, with their checksums. -/
theorem Rebuilt.copied (h : Rebuilt k g ctx req ctx') (hi : Instance ctx)
    (hentry : req.mapEntry = afsGetMapEntry ctx.config b) :
    SameInstance ctx ctx' ∧ Copied ctx' (afsGetMapEntry ctx.config b) req.dataBlock := by
  obtain ⟨e, s, l, acts, l', hmap, hl, hp, hr, hs, hq⟩ := h.run
  obtain ⟨hpt, -, hpages, -⟩ := rebuildBlocksMap_mapped hi hentry hmap
  have hn : s.1.config.numCarrierBlocks = 4 := by rw [hpt.same.config]; exact hi.carriers
  obtain ⟨l₂, ctx₂, hw, harr, rfl, -⟩ := Writing.run hr hs hn (pagesApart_of_copies hpages)
    (Writing.begin _ _ _ _ _) (hl.beginWritePages (Or.inr hp) hn) hq
  exact ⟨hpt.sameInstance hw, hpt.copied hw harr hpages⟩

/-- **Copies of the data stand for the data exactly if** they are shares of a line. -/
theorem Copied.stored_iff (h : Copied ctx entry d) (henc : ctx.encodingType ≠ .rsEntropy) :
    Stored k ctx entry d ↔ ctx.encodingType = .shamir := by
  refine ⟨fun hst => ?_, fun hsh => ⟨h.valid, h.checksum, ?_⟩⟩
  · cases hs : ctx.encodingType with
    | shamir => rfl
    | aontRs =>
      have hdata := hst.data
      rw [hs] at hdata
      have hstart : Agree (entryPage ctx entry 0) 0 d (2064 * 0) 32 := fun t ht =>
        h.pages 0 (by norm_num) t (by omega)
      exact absurd hdata (not_agree_carriersData_aontRs (by norm_num) hstart)
    | rsEntropy => exact absurd hs henc
  · rw [hsh]
    exact agree_carriersData_shamir fun i hi => h.pages i (by omega)

theorem decodes_of_read {page : Mem} {fresh : AfsMapRequest} (hi : Instance ctx)
    (hk : ∀ n, k.kmalloc n = true) (hb : b < ctx.config.numBlocks)
    (h0 : entryPtr ctx b 0 ≠ afsInvalidBlock)
    (hs : Served k g ctx fresh (blockBio .read b page) ctx' l) (hend : LogEvent.endio ∈ l.log)
    (hans : ∀ i < 4096, l.answer i = d i) :
    Agree (decodedData k ctx (afsGetMapEntry ctx.config b)) 0 d 0 4096 ∧
      (Damaged ctx (afsGetMapEntry ctx.config b) → CanAcquire ctx) := by
  have hbio := inBlock_blockBio .read b page
  have hblock : (blockBio .read b page).biSector / 8 = b := by
    simp only [blockBio]
    omega
  obtain ⟨acts, hr, hsm⟩ := hs.runs hbio (Or.inl rfl)
  rw [← hblock] at hb h0
  obtain ⟨hiff, hdata⟩ := read_answer hi hk hbio rfl hb h0 hr hsm hs.quiet
  rw [hblock] at hiff hdata
  refine ⟨fun i hi' => ?_, hiff.1 hend⟩
  have hbyte := hdata hend i hi'
  simp only [blockBio, Nat.mul_mod_right, Nat.zero_mul] at hbyte
  rw [← hbyte, Nat.zero_add]
  exact hans i hi'

/-- **A mapped block is read back exactly if** its carriers decode to the data, and there are blocks
for a rebuild where one is damaged. -/
theorem readsBack_iff (hi : Instance ctx) (hk : ∀ n, k.kmalloc n = true)
    (hb : b < ctx.config.numBlocks) (h0 : entryPtr ctx b 0 ≠ afsInvalidBlock) (g : GfCtx) :
    ReadsBack k g ctx b d ↔ Agree (decodedData k ctx (afsGetMapEntry ctx.config b)) 0 d 0 4096 ∧
      (Damaged ctx (afsGetMapEntry ctx.config b) → CanAcquire ctx) := by
  constructor
  · intro h
    have hblock : (blockBio .read b fun _ => 0).biSector / 8 = b := by
      simp only [blockBio]
      omega
    obtain ⟨⟨ctx', l, hs⟩, hall⟩ := h _ zeroRequest (inBlock_blockBio .read b fun _ => 0) rfl hblock
    obtain ⟨hend, hans⟩ := hall ctx' l hs
    simp only [blockBio, Nat.mul_mod_right, Nat.zero_mul, Nat.zero_add] at hans
    exact decodes_of_read hi hk hb h0 hs hend hans
  · rintro ⟨hagree, hcan⟩ bio fresh hbio hop rfl
    refine ⟨?_, fun ctx' l hs => ?_⟩
    · obtain ⟨acts, ctx', l, hr, hs, hq⟩ := read_mapped_exists (g := g) hi hk hop hb h0 hcan fresh
      exact ⟨ctx', l, ⟨_, acts, afsMap_inBlock hbio (Or.inl hop) fresh ctx, hr, hs⟩, hq⟩
    · have hrange := hbio.range
      obtain ⟨acts, hr, hsm⟩ := hs.runs hbio (Or.inl hop)
      obtain ⟨hend, hdata⟩ := read_answer hi hk hbio hop hb h0 hr hsm hs.quiet
      refine ⟨hend.2 hcan, fun i hi' => ?_⟩
      have hbyte := hagree (bio.biSector % 8 * 512 + i) (by omega)
      rw [Nat.zero_add] at hbyte
      exact (hdata (hend.2 hcan) i hi').trans hbyte

theorem Stored.readsBack (h : Stored k ctx (afsGetMapEntry ctx.config b) d) (hi : Instance ctx)
    (hk : ∀ n, k.kmalloc n = true) (hb : b < ctx.config.numBlocks) (g : GfCtx) :
    ReadsBack k g ctx b d :=
  (readsBack_iff hi hk hb (h.valid 0 (by norm_num)) g).2
    ⟨h.decodedData, fun hd => absurd hd h.not_damaged⟩

/-- **A rebuild preserves the data exactly in an instance with shared blocks**: there the new
carriers decode to it, with their checksums, and later reads return it. -/
theorem rebuild_preserves_iff (hi : Instance ctx) (hk : ∀ n, k.kmalloc n = true)
    (hb : b < ctx.config.numBlocks) (hentry : req.mapEntry = afsGetMapEntry ctx.config b)
    (h : Rebuilt k g ctx req ctx') :
    Stored k ctx' (afsGetMapEntry ctx.config b) req.dataBlock ∧
      ReadsBack k g ctx' b req.dataBlock ↔ ctx.encodingType = .shamir := by
  obtain ⟨hsame, hcopied⟩ := h.copied hi hentry
  have hi' := hi.of_sameInstance hsame
  have hiff := hcopied.stored_iff (k := k) hi'.encoding
  rw [hsame.encodingType] at hiff
  refine ⟨fun hst => hiff.1 hst.1, fun hsh => ⟨hiff.2 hsh, ?_⟩⟩
  have hst := hiff.2 hsh
  rw [← hsame.config] at hst
  exact hst.readsBack hi' hk (hsame.config ▸ hb) g

/-! ### Rebuilds that go through -/

theorem sound_rebuildBlocks (req : AfsMapRequest) : (newLife req .rebuildBlocks).Sound :=
  ⟨Counted.of_nil rfl rfl, fun _ => ⟨by simp [newLife], by simp [newLife]⟩,
    fun h => Phase.noConfusion h, fun h => Phase.noConfusion h, fun _ => rfl,
    fun _ _ h => absurd rfl h⟩

theorem rebuilt_exists (hi : Instance ctx) (hk : ∀ n, k.kmalloc n = true) (hcan : CanAcquire ctx)
    (hentry : req.mapEntry = afsGetMapEntry ctx.config b) (hbio : req.hasBio = true) (g : GfCtx) :
    ∃ ctx', Rebuilt k g ctx req ctx' := by
  obtain ⟨s, hmap⟩ := rebuildBlocksMap_total hk hi.carriers hcan req g zeroEntropy
  obtain ⟨hpt, -, hpages, -⟩ := rebuildBlocksMap_mapped hi hentry hmap
  have hn : s.1.config.numCarrierBlocks = 4 := by rw [hpt.same.config]; exact hi.carriers
  have hl := sound_rebuildBlocks req
  obtain ⟨acts, ctx', l', hr, hs, hq, -⟩ := Writing.reaches (k := k) (g := g) hn
    (pagesApart_of_copies hpages) _ s.1 _ (Nat.lt_succ_self _) (Writing.begin _ true _ _ _)
    (hl.beginWritePages (Or.inr rfl) hn) ((rebuildBlocksMap_bio hmap).2.trans hbio)
  exact ⟨ctx', _, s, _, acts, l', hmap, hl, rfl, hr, hs, hq⟩

end

/-- The rebuild of a block of a new instance, whose blocks are packages, loses the data. -/
theorem rebuild_loses_package :
    ¬ ∀ (k : Kernel) (g : GfCtx) (ctx ctx' : AfsPrivate) (req : AfsMapRequest) (b : ℕ),
      Instance ctx → (∀ n, k.kmalloc n = true) → b < ctx.config.numBlocks →
      req.mapEntry = afsGetMapEntry ctx.config b → Rebuilt k g ctx req ctx' →
      Stored k ctx' (afsGetMapEntry ctx.config b) req.dataBlock ∧
        ReadsBack k g ctx' b req.dataBlock := by
  intro hall
  obtain ⟨ctx, -, hholds, hcan, -, hblocks, henc⟩ := exists_smallInstance
  have hk : ∀ n, (constKernel 1).kmalloc n = true := fun _ => rfl
  have hi := hholds.instance_
  have hentry : { zeroRequest with mapEntry := afsGetMapEntry ctx.config 0 }.mapEntry =
    afsGetMapEntry ctx.config 0 := rfl
  obtain ⟨ctx', h⟩ := rebuilt_exists hi hk hcan hentry rfl gfContextZero
  obtain ⟨hsame, hcopied⟩ := h.copied hi hentry
  have hst := hall _ _ _ _ _ 0 hi hk (by rw [hblocks]; norm_num) hentry h
  have hsh := (hcopied.stored_iff (hi.of_sameInstance hsame).encoding).1 hst.1
  rw [hsame.encodingType, henc] at hsh
  cases hsh

/-- The rebuild of a block of such an instance keeps the data if its blocks are shared. -/
theorem rebuild_preserves_shares :
    ∃ ctx ctx', ctx.encodingType = .shamir ∧
      Rebuilt (constKernel 1) gfContextZero ctx { zeroRequest with dataBlock := UInt8.ofNat } ctx' ∧
      Stored (constKernel 1) ctx' 0 UInt8.ofNat ∧
      ReadsBack (constKernel 1) gfContextZero ctx' 0 UInt8.ofNat := by
  obtain ⟨ctx₀, -, hholds, hcan, -, hblocks, -⟩ := exists_smallInstance
  have hk : ∀ n, (constKernel 1).kmalloc n = true := fun _ => rfl
  have hi₀ := hholds.instance_
  have hi : Instance { ctx₀ with encodingType := .shamir } :=
    ⟨hi₀.carriers, hi₀.config, hi₀.small, by simp, hi₀.increasing, hi₀.sectors⟩
  have hb : 0 < ctx₀.config.numBlocks := by rw [hblocks]; norm_num
  have h0 : { zeroRequest with dataBlock := UInt8.ofNat }.mapEntry = afsGetMapEntry ctx₀.config 0 :=
    (hi₀.afsGetMapEntry hb).symm
  obtain ⟨ctx', h⟩ := rebuilt_exists hi hk hcan h0 rfl gfContextZero
  have hst := (rebuild_preserves_iff hi hk hb h0 h).2 rfl
  rw [show afsGetMapEntry ctx₀.config 0 = 0 from h0.symm] at hst
  exact ⟨_, ctx', rfl, h, hst⟩

end Artifice
