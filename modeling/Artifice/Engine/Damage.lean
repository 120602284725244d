import Artifice.Engine.Rebuild
import Artifice.Engine.Errors

/-!
Carriers that are overwritten between a write and a read.

The checksum loop of `afs_read_decode` finds every carrier whose checksum has changed, but it counts
no erasure and gives the carrier the number of the first share: both decoders go on with the first
two carriers, whatever they hold.
-/

namespace Artifice

open Lib

/-- The device with the carriers of an entry that are in `S` overwritten, the first `n` of them. -/
def replacePages (ctx : AfsPrivate) (entry : ℕ) (S : Finset ℕ) (pages : ℕ → Mem) : ℕ → Mem
  | 0 => ctx.disk
  | j + 1 =>
    let disk := replacePages ctx entry S pages j
    if j ∈ S then blit disk (512 * carrierSector (carrierPtr ctx.afsMap entry j)
      ctx.passiveFs.dataStartOff) (pages j) 0 4096 else disk

/-- The context over that device. -/
def replacedContext (ctx : AfsPrivate) (entry : ℕ) (S : Finset ℕ) (pages : ℕ → Mem) : AfsPrivate :=
  { ctx with disk := replacePages ctx entry S pages 4 }

/-- The pages have other checksums than the map says. -/
def Detectable (ctx : AfsPrivate) (entry : ℕ) (S : Finset ℕ) (pages : ℕ → Mem) : Prop :=
  ∀ j ∈ S, tupleChecksum ctx.afsMap entry j ≠ (cityhash32To16 (pages j) 4096).toNat

/-- The first two carriers are left, and there are blocks for a rebuild if any carrier is not. -/
def Survivable (ctx : AfsPrivate) (S : Finset ℕ) : Prop :=
  0 ∉ S ∧ 1 ∉ S ∧ (S.Nonempty → CanAcquire ctx)

section

variable {k : Kernel} {g : GfCtx} {ctx ctx' : AfsPrivate} {l : Life} {S : Finset ℕ} {pages : ℕ → Mem}
  {b entry n i j : ℕ} {d : Mem} {store : ℕ → Mem}

/-! ### The pages -/

theorem agree_replacePages (S : Finset ℕ) (pages : ℕ → Mem)
    (hap : ∀ i < 4, ∀ j < 4, i ≠ j → Apart ctx.passiveFs.dataStartOff
      (carrierPtr ctx.afsMap entry i) (carrierPtr ctx.afsMap entry j)) (hn : n ≤ 4) (hj : j < 4) :
    Agree (devicePage (replacePages ctx entry S pages n) ctx.passiveFs.dataStartOff
        (carrierPtr ctx.afsMap entry j)) 0
      (if j ∈ S ∧ j < n then pages j else entryPage ctx entry j) 0 4096 := by
  induction n with
  | zero =>
    rw [if_neg (by omega)]
    exact Agree.refl _ _ _
  | succ n ih =>
    rw [replacePages]
    by_cases hnj : n = j
    · subst hnj
      split_ifs with hS hc hc
      · exact devicePage_write rfl
      · exact absurd ⟨hS, Nat.lt_succ_self n⟩ hc
      · exact absurd hc.1 hS
      · have := ih (by omega)
        rwa [if_neg (by omega)] at this
    · have hstay : (if j ∈ S ∧ j < n + 1 then pages j else entryPage ctx entry j) =
          if j ∈ S ∧ j < n then pages j else entryPage ctx entry j := by
        congr 1
        simp only [eq_iff_iff]
        exact and_congr_right fun _ => by omega
      rw [hstay]
      by_cases hS : n ∈ S
      · rw [if_pos hS]
        exact (devicePage_write_apart (hap n (by omega) j hj hnj)).trans (ih (by omega))
      · rw [if_neg hS]
        exact ih (by omega)

theorem Placed.carriers_apart (h : Placed ctx) (hi : Instance ctx) (hb : b < ctx.config.numBlocks)
    (hval : ∀ j < 4, entryPtr ctx b j ≠ afsInvalidBlock) (hn : i < 4) (hj : j < 4) (hne : i ≠ j) :
    Apart ctx.passiveFs.dataStartOff (entryPtr ctx b i) (entryPtr ctx b j) :=
  h.apart hi hb hb hn hj (hval i hn) (hval j hj) (Or.inr hne)

theorem entryPage_replacedContext (S : Finset ℕ) (pages : ℕ → Mem) (hi : Instance ctx)
    (hp : Placed ctx) (hb : b < ctx.config.numBlocks) (hval : ∀ j < 4, entryPtr ctx b j ≠ afsInvalidBlock)
    (hj : j < 4) :
    Agree (entryPage (replacedContext ctx (afsGetMapEntry ctx.config b) S pages)
        (afsGetMapEntry ctx.config b) j) 0
      (if j ∈ S then pages j else entryPage ctx (afsGetMapEntry ctx.config b) j) 0 4096 := by
  have h := agree_replacePages S pages (fun i hi' j hj hne =>
    hp.carriers_apart hi hb hval hi' hj hne) (le_refl 4) hj
  simp only [hj, and_true] at h
  exact h

/-- The numbers of the shares after the checksum loop. -/
def replacedNumbers (S : Finset ℕ) : Mem := fun j => if j ∈ S then 48 else shareNumbers j

theorem checkedNumbers_replacedContext (hi : Instance ctx) (hp : Placed ctx)
    (hb : b < ctx.config.numBlocks) (hst : Stored k ctx (afsGetMapEntry ctx.config b) d)
    (hdet : Detectable ctx (afsGetMapEntry ctx.config b) S pages) (hj : j < 4) :
    checkedNumbers (replacedContext ctx (afsGetMapEntry ctx.config b) S pages)
      (afsGetMapEntry ctx.config b) j = replacedNumbers S j := by
  have hpage := entryPage_replacedContext S pages hi hp hb hst.valid hj
  rw [checkedNumbers, cityhash32To16_congr hpage, replacedNumbers]
  by_cases hS : j ∈ S
  · rw [if_pos hS, if_pos hS]
    exact if_pos (hdet j hS)
  · rw [if_neg hS, if_neg hS]
    exact if_neg (not_not.2 (hst.checksum j hj))

theorem damaged_replacedContext_iff (hi : Instance ctx) (hp : Placed ctx)
    (hb : b < ctx.config.numBlocks) (hst : Stored k ctx (afsGetMapEntry ctx.config b) d)
    (hS : S ⊆ Finset.range 4) (hdet : Detectable ctx (afsGetMapEntry ctx.config b) S pages) :
    Damaged (replacedContext ctx (afsGetMapEntry ctx.config b) S pages)
      (afsGetMapEntry ctx.config b) ↔ S.Nonempty := by
  have hpage := fun j hj =>
    entryPage_replacedContext S pages hi hp hb hst.valid (j := j) hj
  constructor
  · rintro ⟨j, hj, hne⟩
    by_contra hempty
    rw [Finset.not_nonempty_iff_eq_empty] at hempty
    subst hempty
    rw [cityhash32To16_congr (hpage j hj), if_neg (Finset.notMem_empty j)] at hne
    exact hne (hst.checksum j hj)
  · rintro ⟨j, hj⟩
    have hj4 := Finset.mem_range.1 (hS hj)
    refine ⟨j, hj4, ?_⟩
    rw [cityhash32To16_congr (hpage j hj4), if_pos hj]
    exact hdet j hj

theorem decodedData_replacedContext (hi : Instance ctx) (hp : Placed ctx)
    (hb : b < ctx.config.numBlocks) (hst : Stored k ctx (afsGetMapEntry ctx.config b) d)
    (hdet : Detectable ctx (afsGetMapEntry ctx.config b) S pages) :
    decodedData k (replacedContext ctx (afsGetMapEntry ctx.config b) S pages)
        (afsGetMapEntry ctx.config b) =
      carriersData k ctx.encodingType (ivWords ctx.passphraseHash) (replacedNumbers S)
        (entryPage (replacedContext ctx (afsGetMapEntry ctx.config b) S pages)
          (afsGetMapEntry ctx.config b)) := by
  rw [decodedData, carriersData_numbers fun j hj =>
    checkedNumbers_replacedContext hi hp hb hst hdet (by omega)]
  rfl

/-! ### What survives -/

theorem exists_detectable (head : Mem) (c : ℕ) :
    ∃ page : Mem, Agree page 0 head 0 32 ∧ c ≠ (cityhash32To16 page 4096).toNat := by
  obtain ⟨y, hy⟩ : ∃ y : UInt16, c ≠ y.toNat := by
    by_cases hc : c = 0
    · exact ⟨1, by rw [hc]; decide⟩
    · exact ⟨0, hc⟩
  obtain ⟨page, hout, hsum⟩ := exists_cityhash32To16 head y
  refine ⟨page, fun t ht => hout _ (by omega), ?_⟩
  rw [hsum]
  exact hy

/-- **Pages can be chosen that spoil the block**, if one of the first two carriers is replaced. -/
theorem exists_spoiling (hi : Instance ctx) (hp : Placed ctx) (hb : b < ctx.config.numBlocks)
    (hst : Stored k ctx (afsGetMapEntry ctx.config b) d) (hlt : i < 2) (hmem : i ∈ S) :
    ∃ pages, Detectable ctx (afsGetMapEntry ctx.config b) S pages ∧
      ¬ Agree (decodedData k (replacedContext ctx (afsGetMapEntry ctx.config b) S pages)
        (afsGetMapEntry ctx.config b)) 0 d 0 4096 := by
  let entry := afsGetMapEntry ctx.config b
  -- the other pages are arbitrary
  choose other hother using fun j => exists_detectable (fun _ => 0) (tupleChecksum ctx.afsMap entry j)
  obtain ⟨head, hhead⟩ := exists_spoiled k (ivWords ctx.passphraseHash) (replacedNumbers S)
    (fun j => if j ∈ S then other j else entryPage ctx entry j) hi.encoding hlt d
  obtain ⟨page, hstart, hsum⟩ := exists_detectable head (tupleChecksum ctx.afsMap entry i)
  have hdet : Detectable ctx entry S (Function.update other i page) := by
    intro j hj
    by_cases hji : j = i
    · subst hji
      rw [Function.update_self]
      exact hsum
    · rw [Function.update_of_ne hji]
      exact (hother j).2
  refine ⟨Function.update other i page, hdet, ?_⟩
  have hpage := fun j hj =>
    entryPage_replacedContext S (Function.update other i page) hi hp hb hst.valid (j := j) hj
  rw [decodedData_replacedContext hi hp hb hst hdet]
  refine hhead _ (fun j hj hne => ?_) ?_
  · have := hpage j (by omega)
    rwa [Function.update_of_ne hne] at this
  · have := hpage i (by omega)
    rw [if_pos hmem, Function.update_self] at this
    exact Agree.trans (fun t ht => this t (by omega)) hstart

/-- **What replaced carriers decode to**: the data whatever the pages are, and a rebuild where it is
needed, exactly if the first two carriers are left and there are blocks. -/
theorem decodes_iff_survivable (hi : Instance ctx) (hp : Placed ctx)
    (hb : b < ctx.config.numBlocks) (hst : Stored k ctx (afsGetMapEntry ctx.config b) d)
    (hS : S ⊆ Finset.range 4) :
    (∀ pages, Detectable ctx (afsGetMapEntry ctx.config b) S pages →
      Agree (decodedData k (replacedContext ctx (afsGetMapEntry ctx.config b) S pages)
          (afsGetMapEntry ctx.config b)) 0 d 0 4096 ∧
        (Damaged (replacedContext ctx (afsGetMapEntry ctx.config b) S pages)
          (afsGetMapEntry ctx.config b) → CanAcquire ctx)) ↔ Survivable ctx S := by
  constructor
  · intro h
    have hleft : ∀ i < 2, i ∉ S := by
      intro i hlt hmem
      obtain ⟨pages, hdet, hne⟩ := exists_spoiling hi hp hb hst hlt hmem
      exact hne (h pages hdet).1
    refine ⟨hleft 0 (by norm_num), hleft 1 (by norm_num), fun hne => ?_⟩
    choose pages hpages using fun j => exists_detectable (fun _ => 0)
      (tupleChecksum ctx.afsMap (afsGetMapEntry ctx.config b) j)
    have hdet : Detectable ctx (afsGetMapEntry ctx.config b) S pages := fun j _ => (hpages j).2
    exact (h pages hdet).2 ((damaged_replacedContext_iff hi hp hb hst hS hdet).2 hne)
  · rintro ⟨h0, h1, hcan⟩ pages hdet
    have hleft : ∀ j < 2, j ∉ S := by
      intro j hj
      obtain rfl | rfl : j = 0 ∨ j = 1 := by omega
      · exact h0
      · exact h1
    refine ⟨?_, fun hd => hcan ((damaged_replacedContext_iff hi hp hb hst hS hdet).1 hd)⟩
    have hnum : ∀ j < 2, replacedNumbers S j = shareNumbers j := fun j hj => if_neg (hleft j hj)
    rw [decodedData_replacedContext hi hp hb hst hdet, carriersData_numbers hnum]
    refine Agree.trans (carriersData_congr fun j hj => ?_) hst.data
    have := entryPage_replacedContext S pages hi hp hb hst.valid (j := j)
      (by omega)
    rwa [if_neg (hleft j hj)] at this

theorem Instance.replaced (hi : Instance ctx) : Instance (replacedContext ctx entry S pages) :=
  hi.of_sameInstance ⟨rfl, rfl, rfl, rfl, rfl, rfl⟩

/-- **A block survives a replacement of carriers exactly if** the first two are left. -/
theorem readsBack_replaced_iff (h : Holds k ctx store) (hk : ∀ n, k.kmalloc n = true)
    (hb : b < ctx.config.numBlocks) (hst : Stored k ctx (afsGetMapEntry ctx.config b) d)
    (hS : S ⊆ Finset.range 4) (g : GfCtx) :
    (∀ pages, Detectable ctx (afsGetMapEntry ctx.config b) S pages →
      ReadsBack k g (replacedContext ctx (afsGetMapEntry ctx.config b) S pages) b d) ↔
      Survivable ctx S := by
  rw [← decodes_iff_survivable h.instance_ h.placed hb hst hS]
  refine forall₂_congr fun pages _ => ?_
  exact readsBack_iff h.instance_.replaced hk hb (hst.valid 0 (by norm_num)) g

theorem write_stored {bio : Bio} {fresh : AfsMapRequest} {ctx₀ : AfsPrivate}
    (h : Holds k ctx₀ store) (hk : ∀ n, k.kmalloc n = true) (hbio : bio.InBlock)
    (hop : bio.biOp = .write) (hwhole : bio.Whole) (hb : bio.biSector / 8 < ctx₀.config.numBlocks)
    (hw : Served k g ctx₀ fresh bio ctx l) (hwritten : l.Written) :
    ctx.config = ctx₀.config ∧ Stored k ctx (afsGetMapEntry ctx.config (bio.biSector / 8))
      (segmentByte bio.biIoVec) := by
  obtain ⟨s, l₂, ctx₂, hm, hwr, harr, rfl, -, hdata⟩ :=
    hw.written hwritten h.instance_ h.placed hk hbio hop hb
  have hconf := (hm.sameInstance hwr).config
  refine ⟨hconf, ?_⟩
  rw [hconf]
  exact hm.stored hwr harr (hdata.trans (agree_spliced_whole hwhole fresh.dataBlock))

/-- **A written block survives the loss of carriers exactly if** they are not among the first two,
and there are blocks for the rebuild. -/
theorem survives_iff {bio : Bio} {fresh : AfsMapRequest} {ctx₀ : AfsPrivate}
    (h : Holds k ctx₀ store) (hk : ∀ n, k.kmalloc n = true) (hbio : bio.InBlock)
    (hop : bio.biOp = .write) (hwhole : bio.Whole) (hb : bio.biSector / 8 < ctx₀.config.numBlocks)
    (hw : Served k g ctx₀ fresh bio ctx l) (hwritten : l.Written) (hS : S ⊆ Finset.range 4) :
    (∀ pages, Detectable ctx (afsGetMapEntry ctx.config (bio.biSector / 8)) S pages →
      ReadsBack k g
        (replacedContext ctx (afsGetMapEntry ctx.config (bio.biSector / 8)) S pages)
        (bio.biSector / 8) (segmentByte bio.biIoVec)) ↔
      S ⊆ {2, 3} ∧ (S.Nonempty → CanAcquire ctx) := by
  obtain ⟨hconf, hst⟩ := write_stored h hk hbio hop hwhole hb hw hwritten
  rw [← hconf] at hb
  rw [readsBack_replaced_iff (h.write hk hbio hop (hconf ▸ hb) hw hwritten) hk hb hst hS g]
  unfold Survivable
  rw [← and_assoc]
  refine and_congr_left fun _ => ⟨fun ⟨h0, h1⟩ j hj => ?_, fun hsub => ⟨fun h0 => ?_, fun h1 => ?_⟩⟩
  · have hlt := Finset.mem_range.1 (hS hj)
    interval_cases j
    · exact absurd hj h0
    · exact absurd hj h1
    · decide
    · decide
  · exact absurd (hsub h0) (by decide)
  · exact absurd (hsub h1) (by decide)

/-! ### Errors -/

/-- Every read of block `b` can finish, ends its bio, and returns `d` or an error. -/
def ReadsBackOrFails (k : Kernel) (g : GfCtx) (ctx : AfsPrivate) (b : ℕ) (d : Mem) : Prop :=
  ∀ bio fresh, bio.InBlock → bio.biOp = .read → bio.biSector / 8 = b → bio.biStatus = 0 →
    (∃ ctx' l, Served k g ctx fresh bio ctx' l) ∧ ∀ ctx' l, Served k g ctx fresh bio ctx' l →
      LogEvent.endio ∈ l.log ∧ (l.req.bio.biStatus ≠ 0 ∨
        ∀ i < bio.biSize, l.answer i = d (bio.biSector % 8 * 512 + i))

theorem Served.biStatus {bio : Bio} {fresh : AfsMapRequest} (h : Served k g ctx fresh bio ctx' l)
    (hbio : bio.InBlock) (hop : bio.biOp = .read ∨ bio.biOp = .write) :
    l.req.bio.biStatus = bio.biStatus := by
  have hrun : ∀ {acts : List Act} {ctx ctx' : AfsPrivate} {l l' : Life},
      Runs k g ctx l acts ctx' l' → l'.req.bio.biStatus = l.req.bio.biStatus := by
    intro acts ctx ctx' l l' hr
    induction hr with
    | nil => rfl
    | cons step _ ih => exact ih.trans (lifeStep_of_step step).biStatus
  obtain ⟨acts, hr, -⟩ := h.runs hbio hop
  exact hrun hr

theorem readsBackOrFails_iff (hi : Instance ctx) (hk : ∀ n, k.kmalloc n = true)
    (hb : b < ctx.config.numBlocks) (h0 : entryPtr ctx b 0 ≠ afsInvalidBlock) (g : GfCtx) :
    ReadsBackOrFails k g ctx b d ↔ ReadsBack k g ctx b d := by
  refine ⟨fun h => (readsBack_iff hi hk hb h0 g).2 ?_, fun h bio fresh hbio hop hblock _ => ?_⟩
  · have hbio := inBlock_blockBio .read b fun _ => 0
    have hblock : (blockBio .read b fun _ => 0).biSector / 8 = b := by
      simp only [blockBio]
      omega
    obtain ⟨⟨ctx', l, hs⟩, hall⟩ := h _ zeroRequest hbio rfl hblock rfl
    obtain ⟨hend, hcase⟩ := hall ctx' l hs
    have hans := hcase.resolve_left (not_not.2 (hs.biStatus hbio (Or.inl rfl)))
    simp only [blockBio, Nat.mul_mod_right, Nat.zero_mul, Nat.zero_add] at hans
    exact decodes_of_read hi hk hb h0 hs hend hans
  · obtain ⟨hex, hall⟩ := h bio fresh hbio hop hblock
    exact ⟨hex, fun ctx' l hs => ⟨(hall ctx' l hs).1, Or.inr (hall ctx' l hs).2⟩⟩

theorem readsBackOrFails_replaced_iff (h : Holds k ctx store) (hk : ∀ n, k.kmalloc n = true)
    (hb : b < ctx.config.numBlocks) (hst : Stored k ctx (afsGetMapEntry ctx.config b) d)
    (hS : S ⊆ Finset.range 4) (g : GfCtx) :
    (∀ pages, Detectable ctx (afsGetMapEntry ctx.config b) S pages → ReadsBackOrFails k g
      (replacedContext ctx (afsGetMapEntry ctx.config b) S pages) b d) ↔ Survivable ctx S := by
  rw [← readsBack_replaced_iff h hk hb hst hS g]
  refine forall₂_congr fun pages _ => ?_
  exact readsBackOrFails_iff h.instance_.replaced hk hb (hst.valid 0 (by norm_num)) g

/-- **A read of a block with replaced carriers returns the data or an error exactly if** the first
two carriers are left, and there are blocks for the rebuild. -/
theorem integrity_iff (h : Holds k ctx store) (hk : ∀ n, k.kmalloc n = true)
    (hb : b < ctx.config.numBlocks) (hst : Stored k ctx (afsGetMapEntry ctx.config b) d)
    (hS : S ⊆ Finset.range 4) :
    (∀ pages, Detectable ctx (afsGetMapEntry ctx.config b) S pages → ReadsBackOrFails k g
      (replacedContext ctx (afsGetMapEntry ctx.config b) S pages) b d) ↔
      0 ∉ S ∧ 1 ∉ S ∧ (S.Nonempty → CanAcquire ctx) :=
  readsBackOrFails_replaced_iff h hk hb hst hS g

end

/-! ### The first block of a new instance -/

theorem exists_writtenBlock :
    ∃ ctx₀ ctx l, Holds (constKernel 1) ctx₀ (fun _ _ => 0) ∧ 0 < ctx₀.config.numBlocks ∧
      Served (constKernel 1) gfContextZero ctx₀ zeroRequest (blockBio .write 0 UInt8.ofNat) ctx l ∧
      l.Written := by
  obtain ⟨ctx₀, -, hholds, -, hcan, hblocks, -⟩ := exists_smallInstance
  have hb : (blockBio .write 0 UInt8.ofNat).biSector / 8 < ctx₀.config.numBlocks := by
    rw [hblocks]
    decide
  obtain ⟨ctx, l, hw, hwritten⟩ := hholds.write_exists (fun _ => rfl) (inBlock_blockBio .write 0 _)
    rfl hb hcan gfContextZero zeroRequest
  exact ⟨ctx₀, ctx, l, hholds, by rw [hblocks]; norm_num, hw, hwritten⟩

theorem exists_storedBlock :
    ∃ ctx store, Holds (constKernel 1) ctx store ∧ 0 < ctx.config.numBlocks ∧
      Stored (constKernel 1) ctx (afsGetMapEntry ctx.config 0) UInt8.ofNat := by
  obtain ⟨ctx₀, ctx, l, hholds, hb, hw, hwritten⟩ := exists_writtenBlock
  have hk : ∀ n, (constKernel 1).kmalloc n = true := fun _ => rfl
  have hbio := inBlock_blockBio .write 0 UInt8.ofNat
  obtain ⟨hconf, hst⟩ := write_stored hholds hk hbio rfl ⟨rfl, rfl⟩ hb hw hwritten
  refine ⟨ctx, _, hholds.write hk hbio rfl hb hw hwritten, hconf ▸ hb, hst.valid, hst.checksum,
    hst.data.trans fun i hi => ?_⟩
  simp only [blockBio, segmentByte, Nat.zero_add]
  rw [if_pos hi]

/-- The loss of the first carrier is enough to lose a block. -/
theorem first_carrier_lost :
    ¬ ∀ (k : Kernel) (g : GfCtx) (ctx₀ ctx : AfsPrivate) (store : ℕ → Mem) (fresh : AfsMapRequest)
      (bio : Bio) (l : Life) (S : Finset ℕ) (pages : ℕ → Mem), Holds k ctx₀ store →
      (∀ n, k.kmalloc n = true) → bio.InBlock → bio.biOp = .write → bio.Whole →
      bio.biSector / 8 < ctx₀.config.numBlocks → Served k g ctx₀ fresh bio ctx l → l.Written →
      S ⊆ Finset.range 4 → S.card ≤ 2 →
      Detectable ctx (afsGetMapEntry ctx.config (bio.biSector / 8)) S pages →
      ReadsBack k g (replacedContext ctx (afsGetMapEntry ctx.config (bio.biSector / 8)) S pages)
        (bio.biSector / 8) (segmentByte bio.biIoVec) := by
  intro hall
  obtain ⟨ctx₀, ctx, l, hholds, hb, hw, hwritten⟩ := exists_writtenBlock
  have hk : ∀ n, (constKernel 1).kmalloc n = true := fun _ => rfl
  have hbio := inBlock_blockBio .write 0 UInt8.ofNat
  obtain ⟨hconf, hst⟩ := write_stored hholds hk hbio rfl ⟨rfl, rfl⟩ hb hw hwritten
  have hsurv := (readsBack_replaced_iff (S := {0}) (hholds.write hk hbio rfl hb hw hwritten) hk
    (hconf ▸ hb) hst (by decide) gfContextZero).1 fun pages hdet =>
      hall _ _ _ _ _ _ _ _ {0} pages hholds hk hbio rfl ⟨rfl, rfl⟩ hb hw hwritten (by decide)
        (by decide) hdet
  exact hsurv.1 (by decide)

/-- The loss of the last two carriers is survived, if there are blocks for the rebuild. -/
theorem last_carriers_lost :
    ∃ ctx₀ ctx l, Holds (constKernel 1) ctx₀ (fun _ _ => 0) ∧
      Served (constKernel 1) gfContextZero ctx₀ zeroRequest (blockBio .write 0 UInt8.ofNat) ctx l ∧
      l.Written ∧
      ((∀ pages, Detectable ctx (afsGetMapEntry ctx.config 0) {2, 3} pages →
        ReadsBack (constKernel 1) gfContextZero
          (replacedContext ctx (afsGetMapEntry ctx.config 0) {2, 3} pages) 0
          (segmentByte (blockBio .write 0 UInt8.ofNat).biIoVec)) ↔ CanAcquire ctx) := by
  obtain ⟨ctx₀, ctx, l, hholds, hb, hw, hwritten⟩ := exists_writtenBlock
  refine ⟨ctx₀, ctx, l, hholds, hw, hwritten, ?_⟩
  have hiff := survives_iff (S := {2, 3}) hholds (fun _ => rfl)
    (inBlock_blockBio .write 0 UInt8.ofNat) rfl ⟨rfl, rfl⟩ hb hw hwritten (by decide)
  refine hiff.trans ⟨fun h => h.2 (by decide), fun h => ⟨by decide, fun _ => h⟩⟩

/-- A read of a block whose first carrier was replaced can succeed with other bytes. -/
theorem wrong_bytes_succeed :
    ¬ ∀ (k : Kernel) (g : GfCtx) (ctx : AfsPrivate) (store : ℕ → Mem) (b : ℕ) (d : Mem)
      (S : Finset ℕ) (pages : ℕ → Mem), Holds k ctx store → (∀ n, k.kmalloc n = true) →
      b < ctx.config.numBlocks → Stored k ctx (afsGetMapEntry ctx.config b) d →
      S ⊆ Finset.range 4 → Detectable ctx (afsGetMapEntry ctx.config b) S pages →
      ReadsBackOrFails k g (replacedContext ctx (afsGetMapEntry ctx.config b) S pages) b d := by
  intro hall
  obtain ⟨ctx, store, hholds, hb, hst⟩ := exists_storedBlock
  have hk : ∀ n, (constKernel 1).kmalloc n = true := fun _ => rfl
  have hsurv := (readsBackOrFails_replaced_iff (S := {0}) hholds hk hb hst (by decide)
    gfContextZero).1 fun pages hdet => hall _ _ _ _ _ _ {0} pages hholds hk hb hst (by decide) hdet
  exact hsurv.1 (by decide)

/-- A block that has lost its last carrier is read, if there are blocks for the rebuild. -/
theorem integrity_last_lost :
    ∃ ctx store, Holds (constKernel 1) ctx store ∧
      Stored (constKernel 1) ctx (afsGetMapEntry ctx.config 0) UInt8.ofNat ∧
      ((∀ pages, Detectable ctx (afsGetMapEntry ctx.config 0) {3} pages →
        ReadsBackOrFails (constKernel 1) gfContextZero
          (replacedContext ctx (afsGetMapEntry ctx.config 0) {3} pages) 0 UInt8.ofNat) ↔
        CanAcquire ctx) := by
  obtain ⟨ctx, store, hholds, hb, hst⟩ := exists_storedBlock
  refine ⟨ctx, store, hholds, hst, ?_⟩
  have hiff := integrity_iff (g := gfContextZero) (S := {3}) hholds (fun _ => rfl) hb hst
    (by decide)
  exact hiff.trans ⟨fun h => h.2.2 (by decide), fun h => ⟨by decide, by decide, fun _ => h⟩⟩

end Artifice
