import Artifice.Engine.Damage

/-!
Reads of blocks that are as they were written.

`decode_aont_package` writes the last 32 bytes of the payload over the difference field of the map
entry. They are what `encode_aont_package` has stored there, as long as the carriers are the pages
of the last write; then a read leaves the context as it finds it.
-/

namespace Artifice

open Lib

/-- An instance of packages as `afs_ctr` creates it: four carriers, and a map that is indexed in 32
bits. -/
structure Packaged (ctx : AfsPrivate) : Prop where
  carriers : ctx.config.numCarrierBlocks = 4
  config : ctx.config.Ok
  small : 64 * ctx.config.numBlocks < 2 ^ 32
  encoding : ctx.encodingType = .aontRs
  list : ∀ b ∈ ctx.passiveFs.blockList, b < 2 ^ 32

/-- The entry of block `b` after a write of the given carriers: it is mapped, and it has their
checksums and the difference of their package. -/
structure Entered (k : Kernel) (ctx : AfsPrivate) (b : ℕ) (pages : ℕ → Mem) : Prop where
  valid : ∀ j < 4, entryPtr ctx b j ≠ afsInvalidBlock
  checksum : ∀ j < 4, tupleChecksum ctx.afsMap (64 * b) j =
    (cityhash32To16 (pages j) 4096).toNat
  difference : Agree ctx.afsMap (64 * b + 24) (joinPayload pages k.uninit 2064 2) 4096 32

/-- The states that completed writes lead to, with the carriers that were last written for every
block. Meanwhile the host writes to the device what it likes. -/
inductive WriteSession (k : Kernel) (g : GfCtx) (ctx₀ : AfsPrivate) :
    (ℕ → Option (ℕ → Mem)) → AfsPrivate → Prop
  | start : WriteSession k g ctx₀ (fun _ => none) ctx₀
  | write {last ctx fresh bio ctx' l} (before : WriteSession k g ctx₀ last ctx) (ok : bio.InBlock)
      (op : bio.biOp = .write) (block : bio.biSector / 8 < ctx.config.numBlocks)
      (served : Served k g ctx fresh bio ctx' l) (written : l.Written) :
      WriteSession k g ctx₀ (Function.update last (bio.biSector / 8) (some l.req.carrierBlocks))
        ctx'
  | host {last ctx} (before : WriteSession k g ctx₀ last ctx) (disk : Mem) :
      WriteSession k g ctx₀ last { ctx with disk }

/-- The carriers of block `b` on the device are those that were last written for it. -/
def Healthy (last : ℕ → Option (ℕ → Mem)) (ctx : AfsPrivate) (b : ℕ) : Prop :=
  ∀ pages, last b = some pages → ∀ j < 4,
    Agree (devicePage ctx.disk ctx.passiveFs.dataStartOff (entryPtr ctx b j)) 0 (pages j) 0 4096

section

variable {k : Kernel} {g : GfCtx} {e : Entropy} {ctx ctx' ctx₀ ctx₁ ctx₂ : AfsPrivate}
  {l l' l₂ : Life} {a : Act} {acts : List Act} {req req' req₁ fresh : AfsMapRequest} {bio : Bio}
  {b b' i j : ℕ} {pages pages' : ℕ → Mem} {last : ℕ → Option (ℕ → Mem)}

/-! ### The instance -/

theorem Packaged.of_sameInstance (h : Packaged ctx) (hs : SameInstance ctx ctx') :
    Packaged ctx' := by
  refine ⟨?_, ?_, ?_, ?_, ?_⟩
  · rw [hs.config]
    exact h.carriers
  · rw [hs.config]
    exact h.config
  · rw [hs.config]
    exact h.small
  · rw [hs.encodingType]
    exact h.encoding
  · rw [hs.passiveFs]
    exact h.list

theorem Packaged.afsGetMapEntry (h : Packaged ctx) (hb : b < ctx.config.numBlocks) :
    afsGetMapEntry ctx.config b = 64 * b := by
  have hsmall := h.small
  rw [Artifice.afsGetMapEntry, h.config.entrySz, h.carriers, Nat.mod_eq_of_lt (by omega)]
  omega

/-! ### The difference of a package -/

/-- **The encoder stores the difference that its package holds.** -/
theorem encodeRequest_difference (hk : ∀ n, k.kmalloc n = true)
    (hn : ctx.config.numCarrierBlocks = 4) (henc : req.encodingType = .aontRs)
    (h : encodeRequest k g e ctx req = some (ctx', req')) :
    Agree ctx'.afsMap (req.mapEntry + 24) (joinPayload req'.carrierBlocks k.uninit 2064 2) 4096
      32 := by
  simp only [encodeRequest, henc, Option.some.injEq, Prod.mk.injEq] at h
  obtain ⟨rfl, rfl⟩ := h
  have hjoin : Agree (joinPayload (encodeAontPackage k g e.key
        (fun i => ctx.afsMap (mapEntryDifference ctx req + i)) req.dataBlock 4096
        req.carrierBlocks 2 (ctx.config.numCarrierBlocks - 2) (ivWords req.iv)).2.2
        k.uninit 2064 2) 0
      (sealPayload k e.key (fun i => ctx.afsMap (mapEntryDifference ctx req + i)) req.dataBlock
        4096 (ivWords req.iv)) 0 (2 * 2064) :=
    agree_joinPayload_of_shares fun i hi => agree_encodeAontPackage (hk _) hi
  have hentry : mapEntryDifference ctx req = req.mapEntry + 24 := by rw [mapEntryDifference, hn]
  rw [← hentry]
  refine (agree_blit _ _ _ _ _).trans ((agree_encodeAontPackage_difference (hk _)).trans ?_)
  have hend := hjoin.symm.sub (j := 4096) (k := 32) (by norm_num)
  rwa [Nat.zero_add] at hend

/-! ### Writes -/

/-- **A write before `write_pages`**: its entry is mapped and has the difference of its package, and
the other entries are what they were. -/
theorem writeRequestMap_entered {s : AfsPrivate × AfsMapRequest} (hp : Packaged ctx)
    (hk : ∀ n, k.kmalloc n = true) (hb : req.block < ctx.config.numBlocks)
    (henc : req.encodingType = .aontRs) (h : writeRequestMap k g e ctx req = some (.next s)) :
    SameInstance ctx s.1 ∧ s.2.mapEntry = 64 * req.block ∧
      (∀ j < 4, carrierPtr s.1.afsMap (64 * req.block) j ≠ afsInvalidBlock) ∧
      Agree s.1.afsMap (64 * req.block + 24) (joinPayload s.2.carrierBlocks k.uninit 2064 2) 4096
        32 ∧
      ∀ i, i < 64 * req.block ∨ 64 * req.block + 64 ≤ i → s.1.afsMap i = ctx.afsMap i := by
  have hn := hp.carriers
  have hentry : (loadRequest ctx req).mapEntry = 64 * req.block := hp.afsGetMapEntry hb
  obtain ⟨ctx₁, req₁, henc₁, hcase⟩ := writeRequestMap_started h
  have hencl : (loadRequest ctx req).encodingType = .aontRs := henc
  have hdiff := encodeRequest_difference hk hn hencl henc₁
  rw [hentry] at hdiff hcase
  obtain ⟨map, encoder, carriers, rfl, rfl, htup⟩ := sameTuples_encodeRequest hn henc₁
  rw [hentry] at htup
  rcases hcase with ⟨hall, -, rfl⟩ | ⟨bs, v, random, hacq, hlen, rfl⟩
  · refine ⟨sameInstance_of_eq, hentry, fun j hj => ?_, hdiff, fun i hi => htup i (by omega)⟩
    have hptr : carrierPtr map (64 * req.block) j = carrierPtr ctx.afsMap (64 * req.block) j :=
      htup.carrierPtr hj
    show carrierPtr map (64 * req.block) j ≠ _
    rw [hptr]
    exact hall j (by rw [hn]; exact hj)
  · rw [hn] at hacq hlen
    obtain ⟨ps, hacq⟩ := acquireBlocks_spec hacq
    have hmap : (acquiredState { ctx with afsMap := map }
        { loadRequest ctx req with encoder, carrierBlocks := carriers } bs v random).1.afsMap =
        setPtrs map (64 * req.block) 0 bs := by
      simp only [acquiredState, hentry]
    rw [hmap]
    refine ⟨⟨rfl, rfl, rfl, rfl, rfl, rfl⟩, hentry, fun j hj => ?_, fun i hi => ?_, fun i hi => ?_⟩
    · obtain ⟨x, hx⟩ : ∃ x, bs[j]? = some x := ⟨_, List.getElem?_eq_getElem (by omega)⟩
      obtain ⟨hne, p, -, hxp⟩ := hacq.blocks j x hx
      have hlt : x < 2 ^ 32 := hp.list x (List.mem_of_getElem? hxp)
      have hset : carrierPtr (setPtrs map (64 * req.block) 0 bs) (64 * req.block) (0 + j) = x :=
        carrierPtr_setPtrs hx hlt
      rw [Nat.zero_add] at hset
      rw [hset]
      exact hne
    · rw [setPtrs_out fun t ht => by omega]
      exact hdiff i hi
    · rw [setPtrs_out fun t ht => by omega]
      exact htup i (by omega)

/-- A request that writes its carriers, wherever they land. -/
structure Storing (ctx₁ : AfsPrivate) (req₁ : AfsMapRequest) (ctx : AfsPrivate) (l : Life) :
    Prop where
  type : l.type = .write
  phase : (∃ b i, l.phase = .writePages b i) ∨ l.phase = .returned
  context : ctx = { ctx₁ with disk := ctx.disk }
  req : l.req = { req₁ with biosPending := l.req.biosPending }

/-- What is left when all carriers have been written. -/
structure StoredAll (ctx₁ : AfsPrivate) (req₁ : AfsMapRequest) (ctx : AfsPrivate) (l : Life) :
    Prop where
  quiet : l.phase = .gone
  context : ctx = { ctx₁ with disk := ctx.disk, afsMap := storeChecksums ctx₁.afsMap req₁ 4 }
  pages : l.req.carrierBlocks = req₁.carrierBlocks

/-- **A step of a request that writes its carriers.** -/
theorem Storing.step (h : Storing ctx₁ req₁ ctx l) (hs : LifeStep k g ctx l a ctx' l')
    (ha : a.Smooth) (hn : ctx₁.config.numCarrierBlocks = 4) :
    Storing ctx₁ req₁ ctx' l' ∨ StoredAll ctx₁ req₁ ctx' l' := by
  have hconf : ctx.config = ctx₁.config := by rw [h.context]
  have hreq := h.req
  cases hs.writeStep ha h.type (h.phase.imp_right Or.inl) with
  | submit phase =>
    refine .inl ⟨h.type, ?_, h.context, h.req⟩
    simp only [submitted]
    split_ifs
    · exact .inl ⟨_, _, rfl⟩
    · exact .inr rfl
  | complete mem more =>
    rw [transfer_write ctx h.type]
    refine .inl ⟨h.type, h.phase, ?_, ?_⟩
    · rw [h.context]
    · simp only [countDown]
      rw [hreq]
  | last mem last =>
    rw [transfer_write ctx h.type]
    refine .inr ⟨rfl, ?_, ?_⟩
    · simp only [hconf, hn, countDown]
      rw [storeChecksums_congr req₁ (by rw [hreq]) (by rw [hreq]), h.context]
    · simp only [afsReqClean, countDown]
      rw [hreq]

/-- **A run of a request that writes its carriers.** -/
theorem Storing.run (hr : Runs k g ctx l acts ctx' l') (hs : ∀ a ∈ acts, a.Smooth)
    (hn : ctx₁.config.numCarrierBlocks = 4) (h : Storing ctx₁ req₁ ctx l) (hl : l.Sound)
    (hq : l'.Quiet) : StoredAll ctx₁ req₁ ctx' l' := by
  induction hr with
  | nil ctx l =>
    rcases hq.1 with hp | hp
    · exact absurd hq.2 (hl.2.waiting hp).1
    · have hphase := h.phase
      simp [hp] at hphase
  | @cons ctx ctx₂ ctx₃ l l₂ l₃ a as step rest ih =>
    have hstep := lifeStep_of_step step
    have ha := hs a (List.mem_cons_self ..)
    have hconf : ctx.config.numCarrierBlocks = 4 := by rw [h.context]; exact hn
    have hl₂ : l₂.Sound := hstep.sound hconf hl ha fun hp => by
      have hphase := h.phase
      simp [hp] at hphase
    rcases h.step hstep ha hn with h₂ | h₂
    · exact ih (fun a ha => hs a (List.mem_cons_of_mem _ ha)) h₂ hl₂ hq
    · obtain ⟨rfl, rfl⟩ := rest.of_quiet ⟨.inr h₂.quiet, (hl₂.2.closed h₂.quiet).1⟩
      exact h₂

/-- **A completed write** enters its carriers, and leaves the other entries. -/
theorem Served.entered (hs : Served k g ctx fresh bio ctx' l) (hw : l.Written)
    (hp : Packaged ctx) (hk : ∀ n, k.kmalloc n = true) (hbio : bio.InBlock)
    (hop : bio.biOp = .write) (hb : bio.biSector / 8 < ctx.config.numBlocks) :
    SameInstance ctx ctx' ∧ Entered k ctx' (bio.biSector / 8) l.req.carrierBlocks ∧
      ∀ i, i < 64 * (bio.biSector / 8) ∨ 64 * (bio.biSector / 8) + 64 ≤ i →
        ctx'.afsMap i = ctx.afsMap i := by
  have hn := hp.carriers
  have hblocks := hp.config.blocks
  have hblock : (flightRequest fresh ctx bio).block = bio.biSector / 8 :=
    block_flightRequest (by omega)
  obtain ⟨acts, hr, hsm⟩ := hs.runs hbio (.inr hop)
  cases hr with
  | nil => exact absurd hs.quiet.1 (by simp [newLife])
  | cons step rest =>
    have hsound : Life.Sound _ := (lifeStep_of_step step).sound hn (sound_newLife rfl)
      (hsm _ (List.mem_cons_self ..)) fun hp => by simp [newLife] at hp
    obtain ⟨e, rfl, ⟨s, map, rfl, rfl⟩ | ⟨code, s, map, rfl, rfl⟩⟩ := Life.step_write step rfl rfl hop
    · have map : writeRequestMap k g e ctx (flightRequest fresh ctx bio) = some (.next s) := map
      obtain ⟨hsame, hentry, hvalid, hdiff, hother⟩ := writeRequestMap_entered hp hk
        (by rw [hblock]; exact hb) hp.encoding map
      rw [hblock] at hentry hvalid hdiff hother
      have hn₁ : s.1.config.numCarrierBlocks = 4 := by rw [hsame.config]; exact hn
      obtain ⟨-, hctx, hpages⟩ := Storing.run rest (fun a ha => hsm a (List.mem_cons_of_mem _ ha))
        hn₁ ⟨rfl, .inl ⟨false, 0, rfl⟩, rfl, rfl⟩ hsound hs.quiet
      have hmap : ctx'.afsMap = storeChecksums s.1.afsMap s.2 4 := by rw [hctx]
      have hsame' : SameInstance ctx ctx' := by
        rw [hctx]
        exact hsame.trans ⟨rfl, rfl, rfl, rfl, rfl, rfl⟩
      rw [hpages]
      refine ⟨hsame', ⟨fun j hj => ?_, fun j hj => ?_, fun i hi => ?_⟩, fun i hi => ?_⟩
      · rw [entryPtr, hsame'.config, hp.afsGetMapEntry hb, hmap, ← hentry,
          carrierPtr_storeChecksums, hentry]
        exact hvalid j hj
      · rw [hmap, ← hentry]
        exact tupleChecksum_storeChecksums hj
      · rw [hmap, storeChecksums_out fun t ht => by omega]
        exact hdiff i hi
      · rw [hmap, storeChecksums_out fun t ht => by omega]
        exact hother i hi
    · -- a write that is refused submits no carrier
      obtain ⟨rfl, rfl⟩ := rest.of_quiet (quiet_afsReqClean rfl)
      have := hw 0 (by norm_num)
      simp [afsReqClean, newLife] at this

/-! ### Sessions -/

theorem Entered.congr (h : Entered k ctx b pages) (hp : Packaged ctx) (hs : SameInstance ctx ctx')
    (hb : b < ctx.config.numBlocks) (hmap : Agree ctx'.afsMap (64 * b) ctx.afsMap (64 * b) 64) :
    Entered k ctx' b pages := by
  have hentry := hp.afsGetMapEntry hb
  refine ⟨fun j hj => ?_, fun j hj => ?_, fun i hi => ?_⟩
  · have hval := h.valid j hj
    rw [entryPtr, hentry] at hval
    rw [entryPtr, hs.config, hentry]
    rwa [show carrierPtr ctx'.afsMap (64 * b) j = carrierPtr ctx.afsMap (64 * b) j from
      le_congr (hmap.sub (by omega))]
  · rw [← h.checksum j hj, tupleChecksum, tupleChecksum, Nat.add_assoc]
    exact le_congr (hmap.sub (by omega))
  · rw [← h.difference i hi, Nat.add_assoc]
    exact hmap (24 + i) (by omega)

/-- The map of a session: every entry is that of the last write, or not mapped. -/
structure EnteredAll (k : Kernel) (last : ℕ → Option (ℕ → Mem)) (ctx : AfsPrivate) : Prop
    extends Packaged ctx where
  mapped : ∀ b < ctx.config.numBlocks, ∀ pages, last b = some pages → Entered k ctx b pages
  unmapped : ∀ b < ctx.config.numBlocks, last b = none → entryPtr ctx b 0 = afsInvalidBlock

theorem EnteredAll.write (h : EnteredAll k last ctx) (hk : ∀ n, k.kmalloc n = true)
    (hbio : bio.InBlock) (hop : bio.biOp = .write) (hb : bio.biSector / 8 < ctx.config.numBlocks)
    (hs : Served k g ctx fresh bio ctx' l) (hw : l.Written) :
    EnteredAll k (Function.update last (bio.biSector / 8) (some l.req.carrierBlocks)) ctx' := by
  have hp := h.toPackaged
  obtain ⟨hsame, hentered, hother⟩ := hs.entered hw hp hk hbio hop hb
  refine ⟨hp.of_sameInstance hsame, fun b hb' pages hlast => ?_, fun b hb' hlast => ?_⟩
  · by_cases hbb : b = bio.biSector / 8
    · subst hbb
      rw [Function.update_self, Option.some.injEq] at hlast
      rw [← hlast]
      exact hentered
    · rw [Function.update_of_ne hbb] at hlast
      rw [hsame.config] at hb'
      refine (h.mapped b hb' pages hlast).congr hp hsame hb' fun i hi => hother _ ?_
      omega
  · have hbb : b ≠ bio.biSector / 8 := by
      rintro rfl
      simp at hlast
    rw [Function.update_of_ne hbb] at hlast
    rw [hsame.config] at hb'
    have hptr := h.unmapped b hb' hlast
    rw [entryPtr, hp.afsGetMapEntry hb'] at hptr
    rw [entryPtr, hsame.config, hp.afsGetMapEntry hb', ← hptr]
    exact le_congr fun i hi => hother _ (by omega)

/-- **The map of every session.** -/
theorem WriteSession.entered (h : WriteSession k g ctx₀ last ctx) (hk : ∀ n, k.kmalloc n = true)
    (h₀ : EnteredAll k (fun _ => none) ctx₀) : EnteredAll k last ctx := by
  induction h with
  | start => exact h₀
  | write _ ok op block served written ih => exact ih.write hk ok op block served written
  | host _ disk ih =>
    refine ⟨ih.toPackaged.of_sameInstance ⟨rfl, rfl, rfl, rfl, rfl, rfl⟩, ?_, ih.unmapped⟩
    intro b hb pages hlast
    have hent := ih.mapped b hb pages hlast
    exact ⟨hent.valid, hent.checksum, hent.difference⟩

/-! ### Reads -/

/-- **The decoder writes back the difference that is there.** -/
theorem decodeRequest_unchanged (hk : ∀ n, k.kmalloc n = true)
    (hn : ctx.config.numCarrierBlocks = 4) (henc : req.encodingType = .aontRs)
    (h0 : req.numErasures = 0)
    (hdiff : Agree ctx.afsMap (req.mapEntry + 24) (joinPayload req.carrierBlocks k.uninit 2064 2)
      4096 32) (h : decodeRequest k g ctx req = some (ctx', req')) : ctx' = ctx := by
  simp only [decodeRequest, henc, h0] at h
  rw [decodeAontPackage_zero (hk _) (by norm_num) (by rw [hn]; norm_num) (by norm_num)
    (by rw [hn]; norm_num)] at h
  simp only [Option.bind_eq_bind, Option.bind_some, Option.some.injEq, Prod.mk.injEq] at h
  obtain ⟨rfl, -⟩ := h
  have hentry : mapEntryDifference ctx req = req.mapEntry + 24 := by rw [mapEntryDifference, hn]
  have hmap : blit ctx.afsMap (mapEntryDifference ctx req)
      (blit (fun i => ctx.afsMap (mapEntryDifference ctx req + i)) 0
        (joinPayload req.carrierBlocks k.uninit ((4096 + 32) / 2) 2) 4096 32) 0 32 =
      ctx.afsMap := by
    funext i
    by_cases hi : mapEntryDifference ctx req ≤ i ∧ i < mapEntryDifference ctx req + 32
    · obtain ⟨i, rfl⟩ := Nat.exists_eq_add_of_le hi.1
      have hblit := agree_blit (fun i => ctx.afsMap (mapEntryDifference ctx req + i)) 0
        (joinPayload req.carrierBlocks k.uninit ((4096 + 32) / 2) 2) 4096 32 i (by omega)
      rw [Nat.zero_add] at hblit
      rw [blit_in (by omega), Nat.zero_add, hblit, hentry]
      exact (hdiff i (by omega)).symm
    · exact blit_out (by omega)
  rw [hmap]

/-- **A read of a healthy block leaves everything as it is.** -/
theorem EnteredAll.read (h : EnteredAll k last ctx) (hk : ∀ n, k.kmalloc n = true)
    (hbio : bio.InBlock) (hop : bio.biOp = .read) (hb : bio.biSector / 8 < ctx.config.numBlocks)
    (hhealthy : Healthy last ctx (bio.biSector / 8)) (hs : Served k g ctx fresh bio ctx' l) :
    ctx' = ctx ∧ l.type = .read ∧ l.req.rebuildFlag = false := by
  have hp := h.toPackaged
  have hn := hp.carriers
  have hblocks := hp.config.blocks
  have hblock : (flightRequest fresh ctx bio).block = bio.biSector / 8 :=
    block_flightRequest (by omega)
  obtain ⟨acts, hr, hsm⟩ := hs.runs hbio (.inl hop)
  obtain ⟨-, rfl, rfl⟩ | ⟨h0, l₂, ctx₃, l₃, rest₃, hread, hl₂, hp₂, hflag₂, hstep₂, hrest, -⟩ :=
    read_alone hn (by omega) hop hr hsm hs.quiet
  · exact ⟨rfl, rfl, rfl⟩
  obtain ⟨pages, hlast⟩ : ∃ pages, last (bio.biSector / 8) = some pages := by
    cases hlast : last (bio.biSector / 8) with
    | none => exact absurd (h.unmapped _ hb hlast) h0
    | some pages => exact ⟨pages, rfl⟩
  have hent := h.mapped _ hb pages hlast
  -- the carriers arrive as they were written
  have hentry : l₂.req.mapEntry = 64 * (bio.biSector / 8) := by
    rw [hread.mapEntry, hblock, hp.afsGetMapEntry hb]
  have hpages : ∀ j < 4, Agree (l₂.req.carrierBlocks j) 0 (pages j) 0 4096 := by
    intro j hj
    have hpage := hread.page hl₂ hp₂ hn hj
    rw [hblock] at hpage
    exact hpage.trans (hhealthy pages hlast j hj)
  have hmatch : ¬ Mismatch ctx l₂.req := by
    rintro ⟨j, hj, hne⟩
    rw [hn] at hj
    refine hne ?_
    rw [hentry, hent.checksum j hj, cityhash32To16_congr (hpages j hj)]
  have hcount := hl₂.1.queued (.inr (.inr (.inl hp₂)))
  obtain ⟨req₁, hact, hdec, hend⟩ := Life.step_decode hstep₂ hp₂ hcount
  have hflag : ¬ req₁.rebuildFlag = true := fun hf =>
    hmatch ((readDecode_rebuildFlag hflag₂ hdec).1 hf)
  obtain ⟨hf, rfl⟩ | ⟨hf, -⟩ := hend
  · obtain ⟨rfl, rfl⟩ := hrest.of_quiet (quiet_afsReqClean hcount)
    refine ⟨?_, hread.type, hf⟩
    simp only [readDecode, Option.bind_eq_bind, Option.bind_eq_some_iff, Option.some.injEq,
      Prod.mk.injEq] at hdec
    obtain ⟨⟨ctx₂, req₂⟩, hdec, rfl, -⟩ := hdec
    obtain ⟨flag, er, hc⟩ := checkCarriers_frame ctx.afsMap l₂.req ctx.config.numCarrierBlocks
    rw [hc] at hdec
    refine decodeRequest_unchanged hk hn ?_ ?_ ?_ hdec
    · simp only
      rw [hread.req]
      exact hp.encoding
    · simp only
      rw [hread.req]
      rfl
    · simp only
      rw [hentry]
      refine hent.difference.trans ?_
      have hjoin : Agree (joinPayload l₂.req.carrierBlocks k.uninit 2064 2) 0
          (joinPayload pages k.uninit 2064 2) 0 (2 * 2064) := by
        refine agree_joinPayload_of_shares fun i hi => ?_
        exact Agree.trans (fun j hj => hpages i (by omega) j (by omega))
          (agree_joinPayload hi).symm
      have hend := hjoin.symm.sub (j := 4096) (k := 32) (by norm_num)
      rwa [Nat.zero_add] at hend
  · exact absurd hf hflag

theorem Served.healthy (hs : Served k g ctx fresh bio ctx' l) (hw : l.Written) (hi : Instance ctx)
    (hp : Placed ctx) (hk : ∀ n, k.kmalloc n = true) (hbio : bio.InBlock) (hop : bio.biOp = .write)
    (hb : bio.biSector / 8 < ctx.config.numBlocks) :
    Healthy (Function.update last (bio.biSector / 8) (some l.req.carrierBlocks)) ctx'
      (bio.biSector / 8) := by
  obtain ⟨s, l₂, ctx₂, hm, hwr, harr, rfl, rfl, -⟩ := hs.written hw hi hp hk hbio hop hb
  intro pages hlast j hj
  rw [Function.update_self, Option.some.injEq] at hlast
  have hpages : pages = s.2.carrierBlocks := by
    rw [← hlast]
    simp only [afsReqClean]
    rw [hwr.req]
  rw [hpages, entryPtr, (hm.sameInstance hwr).config, ← hm.entry]
  exact hm.entryPage_written hwr harr hj

theorem EnteredAll.of_created {fs : AfsPassiveFs} (h : Created fs ctx)
    (hlist : ∀ b ∈ fs.blockList, b < 2 ^ 32) : EnteredAll k (fun _ => none) ctx := by
  refine ⟨⟨h.carriers, h.config, h.small, h.encoding, ?_⟩, ?_, ?_⟩
  · rw [h.passiveFs]
    exact hlist
  · intro b _ pages hlast
    cases hlast
  · exact fun b hb _ => h.unmapped b hb 0 (by norm_num)

end

/-- **Reading a healthy block has no side effect.** In every state that completed writes lead to
from a new instance, a read of a block whose carriers on the device are those last written for it
starts no rebuild, and leaves the map, the vector and the device as they are. -/
theorem healthy_read_unchanged {k : Kernel} {g : GfCtx} {rounds : ℕ} {args : AfsArgs}
    {len bdevSize : ℕ} {fs : AfsPassiveFs} {disk : Mem} {random : List ℕ}
    {ctx₀ ctx ctx' : AfsPrivate} {last : ℕ → Option (ℕ → Mem)} {fresh : AfsMapRequest} {bio : Bio}
    {l : Life} (hk : ∀ n, k.kmalloc n = true) (htype : args.instanceType = .create)
    (hlist : ∀ b ∈ fs.blockList, b < 2 ^ 32)
    (hctr : afsCtr k rounds args len bdevSize fs disk random = some (.ok ctx₀))
    (h : WriteSession k g ctx₀ last ctx) (hbio : bio.InBlock) (hop : bio.biOp = .read)
    (hb : bio.biSector / 8 < ctx.config.numBlocks) (hhealthy : Healthy last ctx (bio.biSector / 8))
    (hs : Served k g ctx fresh bio ctx' l) :
    l.type = .read ∧ l.req.rebuildFlag = false ∧ ctx'.afsMap = ctx.afsMap ∧
      ctx'.vector = ctx.vector ∧ ctx'.disk = ctx.disk ∧ ctx' = ctx := by
  have hentered := h.entered hk (EnteredAll.of_created (created_of_create htype hctr) hlist)
  obtain ⟨rfl, htype, hflag⟩ := hentered.read hk hbio hop hb hhealthy hs
  exact ⟨htype, hflag, rfl, rfl, rfl, rfl⟩

/-- A read of the first block of a new instance, right after it was written. -/
theorem healthy_read_small :
    ∃ last ctx ctx' l, Healthy last ctx 0 ∧ (last 0).isSome ∧
      Served (constKernel 1) gfContextZero ctx zeroRequest (blockBio .read 0 fun _ => 0) ctx' l ∧
      l.req.rebuildFlag = false ∧ ctx' = ctx := by
  obtain ⟨ctx₀, hctr, hholds, -, hcan, hblocks, -⟩ := exists_smallInstance
  have hk : ∀ n, (constKernel 1).kmalloc n = true := fun _ => rfl
  have hbw := inBlock_blockBio .write 0 UInt8.ofNat
  have hbr := inBlock_blockBio .read 0 fun _ => 0
  have hb : 0 < ctx₀.config.numBlocks := by
    rw [hblocks]
    norm_num
  -- the write
  obtain ⟨ctx, l, hs, hw⟩ := hholds.write_exists hk hbw rfl hb hcan gfContextZero zeroRequest
  have hsession : WriteSession (constKernel 1) gfContextZero ctx₀ _ ctx :=
    .write .start hbw rfl hb hs hw
  have hhealthy : Healthy (Function.update (fun _ => none) 0 (some l.req.carrierBlocks)) ctx 0 :=
    hs.healthy hw hholds.instance_ hholds.placed hk hbw rfl hb
  -- the read
  have hheld := hholds.write hk hbw rfl hb hs hw
  have hb' : 0 < ctx.config.numBlocks := by
    rw [(write_stored hholds hk hbw rfl ⟨rfl, rfl⟩ hb hs hw).1]
    exact hb
  obtain ⟨ctx', l', hs'⟩ := hheld.read_exists hk hbr rfl hb' gfContextZero zeroRequest
  obtain ⟨-, hflag, -, -, -, hctx⟩ := healthy_read_unchanged hk
    (rfl : smallArgs.instanceType = .create) (by decide) hctr hsession hbr rfl hb' hhealthy hs'
  refine ⟨_, ctx, ctx', l', hhealthy, ?_, hs', hflag, hctx⟩
  rfl

end Artifice
