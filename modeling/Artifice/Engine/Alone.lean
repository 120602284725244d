import Artifice.Engine.Holds
import Artifice.Engine.Once

/-!
Requests that run alone: what a read returns, and what a write leaves on the device, when nothing
else works on the context from the first step of the request to its last and no step fails.
-/

namespace Artifice

open Lib

section

variable {k : Kernel} {g : GfCtx} {e : Entropy} {ctx ctx' ctx₁ ctx₂ : AfsPrivate} {l l' l₁ : Life}
  {a : Act} {acts : List Act} {req req₁ : AfsMapRequest} {bio : Bio} {b i j : ℕ} {d : Mem}
  {store : ℕ → Mem} {fresh : AfsMapRequest}

/-! ### Runs -/

theorem Runs.of_quiet (h : Runs k g ctx l acts ctx' l') (hq : l.Quiet) : ctx' = ctx ∧ l' = l := by
  cases h with
  | nil => exact ⟨rfl, rfl⟩
  | cons step rest => exact absurd hq (lifeStep_of_step step).not_quiet

theorem Runs.sameInstance (h : Runs k g ctx l acts ctx' l') : SameInstance ctx ctx' := by
  induction h with
  | nil ctx => exact SameInstance.refl ctx
  | cons step _ ih => exact (lifeStep_of_step step).sameInstance.trans ih

theorem Runs.hasBio (h : Runs k g ctx l acts ctx' l') : l'.req.hasBio = l.req.hasBio := by
  induction h with
  | nil => rfl
  | cons step _ ih => exact ih.trans (lifeStep_of_step step).hasBio

theorem quiet_afsReqClean (h : l.outstanding = []) : (afsReqClean l).Quiet := ⟨Or.inr rfl, h⟩

/-! ### Writes -/

/-- A write of which all carriers have been written. -/
def Life.Written (l : Life) : Prop := ∀ j < 4, LogEvent.complete j ∈ l.log

/-- **The carrier writes of a request that runs alone** all complete, and then the checksums are
stored. -/
theorem Writing.run (hr : Runs k g ctx l acts ctx' l') (hs : ∀ a ∈ acts, a.Smooth)
    (hn : ctx₁.config.numCarrierBlocks = 4) (hpages : PagesApart ctx₁.passiveFs.dataStartOff req₁)
    (h : Writing ctx₁ req₁ ctx l) (hl : l.Sound) (hq : l'.Quiet) :
    ∃ l₂ ctx₂, Writing ctx₁ req₁ ctx₂ l₂ ∧ (∀ j < 4, l₂.Arrived j) ∧
      ctx' = { ctx₂ with afsMap := storeChecksums ctx₁.afsMap req₁ 4 } ∧ l' = afsReqClean l₂ := by
  induction hr with
  | nil ctx l =>
    rcases hq.1 with hp | hp
    · exact absurd hq.2 (hl.2.waiting hp).1
    · have := h.phase
      simp [hp] at this
  | @cons ctx ctx₂ ctx₃ l l₂ l₃ a as step rest ih =>
    have hstep := lifeStep_of_step step
    have ha := hs a (List.mem_cons_self ..)
    have hconf : ctx.config.numCarrierBlocks = 4 := by rw [h.context]; exact hn
    have hl₂ : l₂.Sound := hstep.sound hconf hl ha fun hp => by
      have := h.phase
      simp [hp] at this
    rcases h.step hstep ha hn hl.1 hpages with hw | ⟨l₄, ctx₄, hw, harr, rfl, rfl⟩
    · exact ih (fun a ha => hs a (List.mem_cons_of_mem _ ha)) hw hl₂ hq
    · have hout : l₄.outstanding = [] := (hl₂.2.closed rfl).1
      obtain ⟨rfl, rfl⟩ := rest.of_quiet (quiet_afsReqClean hout)
      exact ⟨l₄, ctx₄, hw, harr, rfl, rfl⟩

/-- **A write that runs alone**: it goes to `write_pages` and all of its carriers are written, or
it is refused. -/
theorem write_run (hr : Runs k g ctx (newLife req .flightq) acts ctx' l')
    (hs : ∀ a ∈ acts, a.Smooth) (hn : ctx.config.numCarrierBlocks = 4)
    (hop : req.bio.biOp = .write) (hflag : req.rebuildFlag = false)
    (hpages : ∀ e s, writeRequestMap k g e ctx { req with state := .flight } = some (.next s) →
      PagesApart ctx.passiveFs.dataStartOff s.2) (hq : l'.Quiet) :
    (∃ e s, writeRequestMap k g e ctx { req with state := .flight } = some (.next s) ∧
      ∃ l₂ ctx₂, Writing s.1 s.2 ctx₂ l₂ ∧ (∀ j < 4, l₂.Arrived j) ∧
        ctx' = { ctx₂ with afsMap := storeChecksums s.1.afsMap s.2 4 } ∧ l' = afsReqClean l₂) ∨
    ∃ e code s, writeRequestMap k g e ctx { req with state := .flight } = some (.ret code s) ∧
      ctx' = s.1 ∧ l' = afsReqClean { newLife req .flightq with req := s.2 } := by
  cases hr with
  | nil => exact absurd hq.1 (by simp [newLife])
  | cons step rest =>
    have hsound : Life.Sound _ := (lifeStep_of_step step).sound hn (sound_newLife hflag)
      (hs _ (List.mem_cons_self ..)) fun hp => by simp [newLife] at hp
    obtain ⟨e, rfl, ⟨s, map, rfl, rfl⟩ | ⟨code, s, map, rfl, rfl⟩⟩ := Life.step_write step rfl rfl hop
    · have hsame := sameInstance_writeRequestMap map
      simp only [Flow.state] at hsame
      refine Or.inl ⟨e, s, map, Writing.run rest (fun a ha => hs a (List.mem_cons_of_mem _ ha))
        (hsame.config ▸ hn) ?_ (Writing.begin _ _ _ _ _) hsound hq⟩
      rw [hsame.passiveFs]
      exact hpages e s map
    · obtain ⟨rfl, rfl⟩ := rest.of_quiet (quiet_afsReqClean rfl)
      exact Or.inr ⟨e, code, s, map, rfl, rfl⟩

/-! ### Reads -/

theorem arrived_of_cryptoq (hl : l.Sound) (hp : l.phase = .cryptoq) (hj : j < 4) :
    l.Arrived j := by
  have hcount := hl.1.queued (.inr (.inr (.inl hp)))
  refine ⟨?_, by simp [hcount]⟩
  rw [hp]
  exact hj

/-- **The carrier reads of a request that runs alone** all complete, and then it is decoded. -/
theorem Reading.run (hr : Runs k g ctx l acts ctx' l') (hs : ∀ a ∈ acts, a.Smooth)
    (hn : ctx.config.numCarrierBlocks = 4) (h : Reading ctx req₁ l) (hl : l.Sound)
    (hq : l'.Quiet) :
    ∃ l₂ ctx₃ l₃ rest, Reading ctx req₁ l₂ ∧ l₂.Sound ∧ l₂.phase = .cryptoq ∧
      l₂.step k g ctx .crypto = some (ctx₃, l₃) ∧ Runs k g ctx₃ l₃ rest ctx' l' ∧
      ∀ a ∈ rest, a.Smooth := by
  induction hr with
  | nil ctx l =>
    rcases hq.1 with hp | hp
    · exact absurd hq.2 (hl.2.waiting hp).1
    · have := h.phase
      simp [hp] at this
  | @cons ctx ctx₂ ctx₃ l l₂ l₃ a as step rest ih =>
    have ha := hs a (List.mem_cons_self ..)
    have has : ∀ a ∈ as, a.Smooth := fun a ha => hs a (List.mem_cons_of_mem _ ha)
    by_cases hp : l.phase = .cryptoq
    · obtain ⟨rfl, -⟩ := Life.step_cryptoq step hp (hl.1.queued (.inr (.inr (.inl hp))))
      exact ⟨l, ctx₂, l₂, as, h, hl, hp, step, rest, has⟩
    · have hstep := lifeStep_of_step step
      obtain ⟨rfl, h₂⟩ := h.step hstep ha hn hl.1 hp
      have hphase := h.phase
      exact ih has hn h₂ (hstep.sound hn hl ha fun hc => by simp [hc] at hphase) hq

/-- **A read that is to be rebuilt and runs alone** goes to `write_pages`, or is given up. -/
theorem Runs.rebuild (hr : Runs k g ctx l acts ctx' l') (hs : ∀ a ∈ acts, a.Smooth)
    (hp : l.phase = .rebuildBlocks) (ho : l.outstanding = []) (hq : l'.Quiet) :
    ∃ e, (∃ s rest, rebuildBlocksMap k g e ctx l.req = some (.next s) ∧
        Runs k g s.1 (beginWritePages l true s.1.config s.2) rest ctx' l' ∧
        ∀ a ∈ rest, a.Smooth) ∨
      ∃ code s, rebuildBlocksMap k g e ctx l.req = some (.ret code s) ∧ ctx' = s.1 ∧
        l' = { l with req := s.2, phase := .returned } := by
  cases hr with
  | nil => exact absurd hq.1 (by simp [hp])
  | cons step rest =>
    obtain ⟨e, rfl, ⟨s, hmap, rfl, rfl⟩ | ⟨code, s, hmap, rfl, rfl⟩⟩ := Life.step_rebuild step hp ho
    · exact ⟨e, Or.inl ⟨s, _, hmap, rest, fun a ha => hs a (List.mem_cons_of_mem _ ha)⟩⟩
    · obtain ⟨rfl, rfl⟩ := rest.of_quiet ⟨Or.inl rfl, ho⟩
      exact ⟨e, Or.inr ⟨code, s, hmap, rfl, rfl⟩⟩

theorem checkCarriers_eq (map : Mem) (req : AfsMapRequest) (n : ℕ) :
    (checkCarriers map req n).erasures = fun j =>
      if j < n ∧ tupleChecksum map req.mapEntry j ≠ (cityhash32To16 (req.carrierBlocks j) 4096).toNat
      then 48 else req.erasures j := by
  induction n with
  | zero => simp [checkCarriers]
  | succ n ih =>
    obtain ⟨flag, er, hc⟩ := checkCarriers_frame map req n
    have hsame : (checkCarriers map req n).mapEntry = req.mapEntry ∧
        (checkCarriers map req n).carrierBlocks = req.carrierBlocks := by rw [hc]; exact ⟨rfl, rfl⟩
    rw [checkCarriers]
    simp only [hsame.1, hsame.2]
    split_ifs with hm
    · funext j
      simp only [ih]
      by_cases hj : j = n
      · subst hj
        rw [Function.update_self, if_pos ⟨Nat.lt_succ_self j, hm⟩]
      · rw [Function.update_of_ne hj]
        congr 1
        simp only [eq_iff_iff]
        exact and_congr_left fun _ => by omega
    · funext j
      simp only [ih]
      by_cases hj : j = n
      · subst hj
        rw [if_neg (by omega), if_neg fun h => hm h.2]
      · congr 1
        simp only [eq_iff_iff]
        exact and_congr_left fun _ => by omega

/-- The numbers that the shares of an entry have after the checksum loop. -/
def checkedNumbers (ctx : AfsPrivate) (entry : ℕ) : Mem := fun j =>
  if tupleChecksum ctx.afsMap entry j ≠ (cityhash32To16 (entryPage ctx entry j) 4096).toNat
  then 48 else shareNumbers j

theorem carriersData_numbers {er er' : Mem} {encoding : EncodingType} {nonce : ℕ → UInt64}
    {pages : ℕ → Mem} (h : ∀ i < 2, er i = er' i) :
    carriersData k encoding nonce er pages = carriersData k encoding nonce er' pages := by
  cases encoding with
  | shamir => simp only [carriersData, h 0 (by norm_num), h 1 (by norm_num)]
  | aontRs => rfl
  | rsEntropy => rfl

theorem Reading.mapEntry (h : Reading ctx (takenRequest k ctx req) l) :
    l.req.mapEntry = afsGetMapEntry ctx.config req.block := by
  rw [h.req]
  rfl

theorem Reading.page (h : Reading ctx (takenRequest k ctx req) l) (hl : l.Sound)
    (hp : l.phase = .cryptoq) (hn : ctx.config.numCarrierBlocks = 4) (hj : j < 4) :
    Agree (l.req.carrierBlocks j) 0 (entryPage ctx (afsGetMapEntry ctx.config req.block) j)
      0 4096 := by
  have hpage := h.pages j hj (arrived_of_cryptoq hl hp hj)
  have hnum : (takenRequest k ctx req).blockNums j =
      carrierPtr ctx.afsMap (afsGetMapEntry ctx.config req.block) j := by
    simp only [takenRequest, hn]
    rw [if_pos hj]
  rwa [hnum] at hpage

/-- **The decoding of a read that ran alone.** -/
theorem Reading.decode (h : Reading ctx (takenRequest k ctx req) l) (hl : l.Sound)
    (hp : l.phase = .cryptoq) (hi : Instance ctx) (hk : ∀ n, k.kmalloc n = true)
    (henc : req.encodingType = ctx.encodingType) (h0 : req.numErasures = 0) (g : GfCtx) :
    ∃ map dataBlock, readDecode k g ctx l.req = some ({ ctx with afsMap := map },
        answerBio { checkCarriers ctx.afsMap l.req 4 with dataBlock }) ∧
      SameTuples (afsGetMapEntry ctx.config req.block) ctx.afsMap map ∧
      Agree dataBlock 0 (carriersData k ctx.encodingType (ivWords req.iv)
        (checkedNumbers ctx (afsGetMapEntry ctx.config req.block))
        (entryPage ctx (afsGetMapEntry ctx.config req.block))) 0 4096 := by
  have hn := hi.carriers
  have hreq := h.req
  have hpages : ∀ j < 4, Agree (l.req.carrierBlocks j) 0
      (entryPage ctx (afsGetMapEntry ctx.config req.block) j) 0 4096 := fun j hj =>
    h.page hl hp hn hj
  have hentry := h.mapEntry
  have hmark : ∀ j < 4, (checkCarriers ctx.afsMap l.req 4).erasures j =
      checkedNumbers ctx (afsGetMapEntry ctx.config req.block) j := by
    intro j hj
    have her : l.req.erasures j = shareNumbers j := by
      rw [hreq]
      simp only [takenRequest, hn]
      rw [if_pos hj]
      rfl
    rw [checkCarriers_eq, checkedNumbers]
    dsimp only
    rw [hentry, cityhash32To16_congr (hpages j hj), her]
    simp only [hj, true_and]
  have hne : ∀ i < 2, (checkCarriers ctx.afsMap l.req 4).erasures i ≠ 0 := by
    intro i hi'
    rw [hmark i (by omega), checkedNumbers]
    split_ifs
    · decide
    · exact shareNumbers_ne_zero (by omega)
  obtain ⟨flag, er, hc⟩ := checkCarriers_frame ctx.afsMap l.req 4
  have hencl : l.req.encodingType = ctx.encodingType := by rw [hreq]; exact henc
  have hready : DecoderReady k (checkCarriers ctx.afsMap l.req 4) := by
    rw [hc]
    intro hsh
    refine ⟨req.erasures, ?_⟩
    simp only at hsh ⊢
    rw [hencl, ← henc] at hsh
    rw [hreq]
    simp only [takenRequest, hn]
    rw [if_pos hsh]
  obtain ⟨map, data, hdec, hout, hagree⟩ := decodeRequest_spec (g := g) hk hn
    (by rw [hc]; exact hencl ▸ hi.encoding) hready (by rw [hc]; simp only; rw [hreq]; exact h0) hne
  refine ⟨map, data, ?_, ?_, ?_⟩
  · simp only [readDecode, hn, hdec, Option.bind_eq_bind, Option.bind_some]
  · intro i hi'
    refine hout i ?_
    rw [mapEntryDifference, hn, hc]
    simp only
    rw [hentry]
    omega
  · refine hagree.trans ?_
    have hfields : (checkCarriers ctx.afsMap l.req 4).encodingType = ctx.encodingType ∧
        (checkCarriers ctx.afsMap l.req 4).iv = req.iv ∧
        (checkCarriers ctx.afsMap l.req 4).carrierBlocks = l.req.carrierBlocks := by
      rw [hc]
      refine ⟨hencl, ?_, rfl⟩
      simp only
      rw [hreq]
      rfl
    rw [hfields.1, hfields.2.1, hfields.2.2,
      carriersData_numbers fun i hi' => hmark i (by omega)]
    exact carriersData_congr fun j hj => hpages j (by omega)

/-- Byte `i` of the answer of a read. -/
def Life.answer (l : Life) (i : ℕ) : UInt8 := segmentByte l.req.bio.biIoVec i

/-- A bio of whole sectors inside of one block. -/
structure Bio.InBlock (bio : Bio) : Prop extends bio.Ok where
  range : bio.biSector % 8 * 512 + bio.biSize ≤ 4096

theorem answerBio_byte (hbio : bio.InBlock) (hreq : req.bio = bio)
    (hoff : req.sectorOffset = bio.biSector % 8) (hsize : req.requestSize = bio.biSize)
    (hi : i < bio.biSize) :
    segmentByte (answerBio req).bio.biIoVec i = req.dataBlock (bio.biSector % 8 * 512 + i) := by
  have hbyte : segmentByte (copyToSegments (bio.biSector % 8 * 512) bio.biSize req.dataBlock
      bio.biSize 0 bio.biIoVec) i = req.dataBlock (bio.biSector % 8 * 512 + 0 + i) :=
    segmentByte_copyToSegments (Nat.zero_add bio.biSize) hbio.segments hi
  rw [Nat.add_zero] at hbyte
  simp only [answerBio, hreq, hoff, hsize]
  exact hbyte

/-- The request of a bio as its work item finds it. -/
def flightRequest (fresh : AfsMapRequest) (ctx : AfsPrivate) (bio : Bio) : AfsMapRequest :=
  { mapRequest fresh ctx bio with state := .flight }

theorem Bio.InBlock.requestSize (hbio : bio.InBlock) (fresh : AfsMapRequest) (ctx : AfsPrivate) :
    (flightRequest fresh ctx bio).requestSize = bio.biSize := by
  have h1 := hbio.range
  have h2 := hbio.sectors
  simp only [flightRequest, mapRequest, bioSectors]
  omega

theorem ivWords_flightRequest (fresh : AfsMapRequest) (ctx : AfsPrivate) (bio : Bio) :
    ivWords (flightRequest fresh ctx bio).iv = ivWords ctx.passphraseHash := by
  funext i
  unfold ivWords
  split_ifs with h
  · exact load64_congr fun t ht => blit_zero_in (by omega)
  · rfl

theorem block_flightRequest (hb : bio.biSector / 8 < 2 ^ 32) :
    (flightRequest fresh ctx bio).block = bio.biSector / 8 :=
  Nat.mod_eq_of_lt hb

theorem checkedNumbers_of_stored (h : Stored k ctx b d) (hj : j < 4) :
    checkedNumbers ctx b j = shareNumbers j :=
  if_neg (not_not.2 (h.checksum j hj))

/-- A carrier of an entry has another checksum than the map says. -/
def Damaged (ctx : AfsPrivate) (entry : ℕ) : Prop :=
  ∃ j < 4, tupleChecksum ctx.afsMap entry j ≠ (cityhash32To16 (entryPage ctx entry j) 4096).toNat

theorem Stored.not_damaged (h : Stored k ctx b d) : ¬ Damaged ctx b :=
  fun ⟨j, hj, hne⟩ => hne (h.checksum j hj)

theorem Reading.mismatch_iff (h : Reading ctx (takenRequest k ctx req) l) (hl : l.Sound)
    (hp : l.phase = .cryptoq) (hn : ctx.config.numCarrierBlocks = 4) :
    Mismatch ctx l.req ↔ Damaged ctx (afsGetMapEntry ctx.config req.block) := by
  unfold Mismatch Damaged
  rw [hn]
  refine exists_congr fun j => and_congr_right fun hj => ?_
  rw [h.mapEntry, cityhash32To16_congr (h.page hl hp hn hj)]

/-- The data block that the carriers of an entry decode to, with the numbers of the checksum
loop. -/
def decodedData (k : Kernel) (ctx : AfsPrivate) (entry : ℕ) : Mem :=
  carriersData k ctx.encodingType (ivWords ctx.passphraseHash) (checkedNumbers ctx entry)
    (entryPage ctx entry)

theorem Stored.decodedData (h : Stored k ctx b d) : Agree (decodedData k ctx b) 0 d 0 4096 := by
  rw [Artifice.decodedData, carriersData_numbers fun j hj => checkedNumbers_of_stored h (by omega)]
  exact h.data

/-- A read that has been decoded, up to the test of `rebuild_flag`: `req` has the answer, from the
data block that the carriers decode to with the numbers of the checksum loop. -/
structure Decoded (k : Kernel) (ctx : AfsPrivate) (bio : Bio) (ctx₁ : AfsPrivate)
    (req : AfsMapRequest) : Prop where
  context : ∃ map, ctx₁ = { ctx with afsMap := map } ∧
    SameTuples (afsGetMapEntry ctx.config (bio.biSector / 8)) ctx.afsMap map
  entry : req.mapEntry = afsGetMapEntry ctx.config (bio.biSector / 8)
  encoding : req.encodingType = ctx.encodingType
  nonce : ivWords req.iv = ivWords ctx.passphraseHash
  data : Agree req.dataBlock 0 (decodedData k ctx req.mapEntry) 0 4096
  answer : ∀ i < bio.biSize, segmentByte req.bio.biIoVec i =
    req.dataBlock (bio.biSector % 8 * 512 + i)

/-- The first step of a read: a block that is not mapped is answered with zeros, and of the others
the carriers are read. -/
theorem read_start (hlt : bio.biSector / 8 < 2 ^ 32) (hop : bio.biOp = .read)
    (hr : Runs k g ctx (newLife (mapRequest fresh ctx bio) .flightq) acts ctx' l')
    (hq : l'.Quiet) :
    (entryPtr ctx (bio.biSector / 8) 0 = afsInvalidBlock ∧ ctx' = ctx ∧
      l' = afsReqClean { newLife (mapRequest fresh ctx bio) .flightq with
        req := zeroedRequest ctx (flightRequest fresh ctx bio) }) ∨
    entryPtr ctx (bio.biSector / 8) 0 ≠ afsInvalidBlock ∧ ∃ e rest l₁, acts = .flight e :: rest ∧
      l₁ = beginReadPages (newLife (mapRequest fresh ctx bio) .flightq) ctx.config
        (takenRequest k ctx (flightRequest fresh ctx bio)) ∧
      (newLife (mapRequest fresh ctx bio) .flightq).step k g ctx (.flight e) = some (ctx, l₁) ∧
      Runs k g ctx l₁ rest ctx' l' := by
  have hblock : (newLife (mapRequest fresh ctx bio) .flightq).req.block = bio.biSector / 8 := by
    show (flightRequest fresh ctx bio).block = bio.biSector / 8
    exact block_flightRequest hlt
  cases hr with
  | nil => exact absurd hq.1 (by simp [newLife])
  | cons step rest =>
    obtain ⟨hctx, ⟨e, rfl⟩, hcase⟩ := Life.step_read step rfl rfl hop
    obtain rfl := hctx.symm
    rw [hblock] at hcase
    rcases hcase with ⟨h0, rfl⟩ | ⟨h0, rfl⟩
    · obtain ⟨rfl, rfl⟩ := rest.of_quiet (quiet_afsReqClean rfl)
      exact Or.inl ⟨h0, rfl, rfl⟩
    · exact Or.inr ⟨h0, e, _, _, rfl, rfl, step, rest⟩

/-- **A read that runs alone**: its block is not mapped, or its carriers arrive and it is decoded. -/
theorem read_alone (hn : ctx.config.numCarrierBlocks = 4) (hlt : bio.biSector / 8 < 2 ^ 32)
    (hop : bio.biOp = .read)
    (hr : Runs k g ctx (newLife (mapRequest fresh ctx bio) .flightq) acts ctx' l')
    (hs : ∀ a ∈ acts, a.Smooth) (hq : l'.Quiet) :
    (entryPtr ctx (bio.biSector / 8) 0 = afsInvalidBlock ∧ ctx' = ctx ∧
      l' = afsReqClean { newLife (mapRequest fresh ctx bio) .flightq with
        req := zeroedRequest ctx (flightRequest fresh ctx bio) }) ∨
    entryPtr ctx (bio.biSector / 8) 0 ≠ afsInvalidBlock ∧ ∃ l₂ ctx₃ l₃ rest,
      Reading ctx (takenRequest k ctx (flightRequest fresh ctx bio)) l₂ ∧ l₂.Sound ∧
      l₂.phase = .cryptoq ∧ l₂.req.rebuildFlag = false ∧
      l₂.step k g ctx .crypto = some (ctx₃, l₃) ∧ Runs k g ctx₃ l₃ rest ctx' l' ∧
      ∀ a ∈ rest, a.Smooth := by
  obtain hzero | ⟨h0, e, rest, l₁, rfl, rfl, step, hrest⟩ := read_start hlt hop hr hq
  · exact Or.inl hzero
  have hsound := (lifeStep_of_step step).sound hn (sound_newLife rfl) trivial
    fun hp => by simp [newLife] at hp
  obtain ⟨l₂, ctx₃, l₃, rest₃, hread, hl₂, hp₂, hstep₂, hrest₃, hsm⟩ :=
    Reading.run hrest (fun a ha => hs a (List.mem_cons_of_mem _ ha)) hn (Reading.begin _ _ _ _)
      hsound hq
  have hflag : l₂.req.rebuildFlag = false := by
    rw [hread.req]
    rfl
  exact Or.inr ⟨h0, l₂, ctx₃, l₃, rest₃, hread, hl₂, hp₂, hflag, hstep₂, hrest₃, hsm⟩

/-- **A read that has all of its pages** is decoded by its next step, and then answered if no carrier
is damaged, else its block is to be rebuilt. -/
theorem Reading.decoded (h : Reading ctx (takenRequest k ctx (flightRequest fresh ctx bio)) l)
    (hl : l.Sound) (hp : l.phase = .cryptoq) (hi : Instance ctx) (hk : ∀ n, k.kmalloc n = true)
    (hbio : bio.InBlock) (hb : bio.biSector / 8 < ctx.config.numBlocks)
    (hstep : l.step k g ctx a = some (ctx', l')) :
    ∃ req, a = .crypto ∧ Decoded k ctx bio ctx' req ∧
      ((¬ Damaged ctx (afsGetMapEntry ctx.config (bio.biSector / 8)) ∧
          l' = afsReqClean { l with req }) ∨
      (Damaged ctx (afsGetMapEntry ctx.config (bio.biSector / 8)) ∧
        l' = { l with req, phase := .rebuildBlocks })) := by
  have hn := hi.carriers
  have hlt := hi.config.blocks
  have hblock : (flightRequest fresh ctx bio).block = bio.biSector / 8 :=
    block_flightRequest (by omega)
  have hflag₂ : l.req.rebuildFlag = false := by
    rw [h.req]
    rfl
  obtain ⟨map, data, hdec, htup, hdata⟩ := h.decode hl hp hi hk rfl rfl g
  have hmis := h.mismatch_iff hl hp hn
  rw [hblock] at htup hdata hmis
  obtain ⟨req₁, rfl, hdec₁, hend⟩ :=
    Life.step_decode hstep hp (hl.1.queued (.inr (.inr (.inl hp))))
  have hflag := (readDecode_rebuildFlag hflag₂ hdec₁).trans hmis
  rw [hdec, Option.some.injEq, Prod.mk.injEq] at hdec₁
  obtain ⟨rfl, hreq₁⟩ := hdec₁
  obtain ⟨flag, er, hc⟩ := checkCarriers_frame ctx.afsMap l.req 4
  have hentry : req₁.mapEntry = afsGetMapEntry ctx.config (bio.biSector / 8) := by
    rw [← hreq₁, hc, h.req, ← hblock]
    rfl
  have hdecoded : Decoded k ctx bio { ctx with afsMap := map } req₁ := by
    refine ⟨⟨map, rfl, htup⟩, hentry, ?_, ?_, ?_, fun i hi' => ?_⟩
    · rw [← hreq₁, hc, h.req]
      rfl
    · rw [← hreq₁, hc, h.req]
      exact ivWords_flightRequest fresh ctx bio
    · rw [hentry, ← hreq₁]
      rw [ivWords_flightRequest] at hdata
      exact hdata
    · rw [← hreq₁]
      refine answerBio_byte hbio ?_ ?_ ?_ hi'
      · rw [hc, h.req]
        rfl
      · rw [hc, h.req]
        rfl
      · rw [hc, h.req]
        exact hbio.requestSize fresh ctx
  refine ⟨req₁, rfl, hdecoded, ?_⟩
  rcases hend with ⟨hf, rfl⟩ | ⟨hf, rfl⟩
  · exact Or.inl ⟨fun hd => Bool.false_ne_true (hf.symm.trans (hflag.2 hd)), rfl⟩
  · exact Or.inr ⟨hflag.1 hf, rfl⟩

/-- **A read of a mapped block that runs alone**: it is decoded, and then answered if no carrier is
damaged, else its block is rebuilt or given up. -/
theorem read_mapped (hi : Instance ctx) (hk : ∀ n, k.kmalloc n = true) (hbio : bio.InBlock)
    (hop : bio.biOp = .read) (hb : bio.biSector / 8 < ctx.config.numBlocks)
    (h0 : entryPtr ctx (bio.biSector / 8) 0 ≠ afsInvalidBlock)
    (hr : Runs k g ctx (newLife (mapRequest fresh ctx bio) .flightq) acts ctx' l')
    (hs : ∀ a ∈ acts, a.Smooth) (hq : l'.Quiet) :
    ∃ l₂ e ctx₁ req, Decoded k ctx bio ctx₁ req ∧ l₂.Sound ∧ l₂.phase = .cryptoq ∧
      ((¬ Damaged ctx (afsGetMapEntry ctx.config (bio.biSector / 8)) ∧
          ctx' = ctx₁ ∧ l' = afsReqClean { l₂ with req }) ∨
      (Damaged ctx (afsGetMapEntry ctx.config (bio.biSector / 8)) ∧
        ((∃ s rest, rebuildBlocksMap k g e ctx₁ req = some (.next s) ∧
          Runs k g s.1 (beginWritePages l₂ true s.1.config s.2) rest ctx' l' ∧
          ∀ a ∈ rest, a.Smooth) ∨
        ∃ code s, rebuildBlocksMap k g e ctx₁ req = some (.ret code s) ∧ ctx' = s.1 ∧
          l' = { l₂ with req := s.2, phase := .returned }))) := by
  have hlt := hi.config.blocks
  obtain ⟨-, l₂, ctx₃, l₃, rest₃, hread, hl₂, hp₂, -, hstep₂, hrest, hsm⟩ :=
    (read_alone hi.carriers (by omega) hop hr hs hq).resolve_left fun h => h0 h.1
  have hcount := hl₂.1.queued (.inr (.inr (.inl hp₂)))
  obtain ⟨req, -, hdecoded, hend⟩ := hread.decoded hl₂ hp₂ hi hk hbio hb hstep₂
  rcases hend with ⟨hd, rfl⟩ | ⟨hd, rfl⟩
  · obtain ⟨rfl, rfl⟩ := hrest.of_quiet (quiet_afsReqClean hcount)
    exact ⟨l₂, zeroEntropy, _, req, hdecoded, hl₂, hp₂, Or.inl ⟨hd, rfl, rfl⟩⟩
  · obtain ⟨e, hcase⟩ := hrest.rebuild hsm rfl hcount hq
    exact ⟨l₂, e, ctx₃, req, hdecoded, hl₂, hp₂, Or.inr ⟨hd, hcase⟩⟩

/-- **A read of a block that is not mapped** is answered with zeros. -/
theorem read_unmapped (hi : Instance ctx) (hbio : bio.InBlock)
    (hop : bio.biOp = .read) (hb : bio.biSector / 8 < ctx.config.numBlocks)
    (h0 : entryPtr ctx (bio.biSector / 8) 0 = afsInvalidBlock)
    (hr : Runs k g ctx (newLife (mapRequest fresh ctx bio) .flightq) acts ctx' l')
    (hq : l'.Quiet) :
    (∀ i < bio.biSize, l'.answer i = 0) ∧ ctx' = ctx ∧ LogEvent.endio ∈ l'.log := by
  have hlt := hi.config.blocks
  have hrange := hbio.range
  obtain ⟨-, rfl, rfl⟩ := (read_start (by omega) hop hr hq).resolve_right fun h => h.1 h0
  refine ⟨fun i hi' => ?_, rfl, by simp [afsReqClean]⟩
  have hans : segmentByte (zeroedRequest ctx' (flightRequest fresh ctx' bio)).bio.biIoVec i =
      fill (flightRequest fresh ctx' bio).dataBlock 0 4096 0 (bio.biSector % 8 * 512 + i) :=
    answerBio_byte hbio rfl rfl (hbio.requestSize fresh ctx') hi'
  rw [fill_in (Nat.zero_le _) (by omega)] at hans
  exact hans

theorem Life.Sound.beginWritePages {rebuild : Bool} {config : AfsConfig} (hl : l.Sound)
    (hp : l.phase = .cryptoq ∨ l.phase = .rebuildBlocks) (hn : config.numCarrierBlocks = 4) :
    (beginWritePages l rebuild config req).Sound := by
  have hcount := hl.1.queued (.inr (.inr hp))
  have hgone : l.phase ≠ .gone := by rcases hp with hp | hp <;> simp [hp]
  refine ⟨Counted.of_nil hcount ?_, hl.2.beginWritePages hgone⟩
  simp [PhaseCount, Artifice.beginWritePages, hcount, hn]

theorem pagesApart_of_copies {off : ℕ} (h : ∀ j < 4, Agree (req.carrierBlocks j) 0 d 0 4096) :
    PagesApart off req := fun i hi j hj _ => Or.inr ((h i hi).trans (h j hj).symm)

/-- **What a read of a mapped block returns**: the data that its carriers decode to. Its bio is
ended unless a carrier is damaged and there are no blocks for a rebuild. -/
theorem read_answer (hi : Instance ctx) (hk : ∀ n, k.kmalloc n = true) (hbio : bio.InBlock)
    (hop : bio.biOp = .read) (hb : bio.biSector / 8 < ctx.config.numBlocks)
    (h0 : entryPtr ctx (bio.biSector / 8) 0 ≠ afsInvalidBlock)
    (hr : Runs k g ctx (newLife (mapRequest fresh ctx bio) .flightq) acts ctx' l')
    (hs : ∀ a ∈ acts, a.Smooth) (hq : l'.Quiet) :
    (LogEvent.endio ∈ l'.log ↔
      (Damaged ctx (afsGetMapEntry ctx.config (bio.biSector / 8)) → CanAcquire ctx)) ∧
    (LogEvent.endio ∈ l'.log → ∀ i < bio.biSize, l'.answer i = decodedData k ctx
      (afsGetMapEntry ctx.config (bio.biSector / 8)) (bio.biSector % 8 * 512 + i)) := by
  have hrange := hbio.range
  obtain ⟨l₂, e, ctx₁, req, hdec, hl₂, hp₂, hend⟩ := read_mapped hi hk hbio hop hb h0 hr hs hq
  obtain ⟨map, hctx₁, -⟩ := hdec.context
  have hans : ∀ i < bio.biSize, segmentByte req.bio.biIoVec i = decodedData k ctx
      (afsGetMapEntry ctx.config (bio.biSector / 8)) (bio.biSector % 8 * 512 + i) := by
    intro i hi'
    have hbyte := hdec.data (bio.biSector % 8 * 512 + i) (by omega)
    rw [Nat.zero_add, hdec.entry] at hbyte
    exact (hdec.answer i hi').trans hbyte
  have hcan : CanAcquire ctx₁ ↔ CanAcquire ctx := by rw [hctx₁]; exact Iff.rfl
  rcases hend with ⟨hno, -, rfl⟩ | ⟨hd, ⟨s, rest, hmap, hrest, hsm⟩ | ⟨code, s, hmap, -, rfl⟩⟩
  · exact ⟨iff_of_true (by simp [afsReqClean]) fun hd => absurd hd hno, fun _ => hans⟩
  · have hi₁ : Instance ctx₁ := by
      rw [hctx₁]
      exact hi.of_sameInstance sameInstance_of_eq
    obtain ⟨hpt, -, hpages, hbios⟩ := rebuildBlocksMap_mapped hi₁ (hdec.entry.trans
      (by rw [hctx₁])) hmap
    have hn : s.1.config.numCarrierBlocks = 4 := by rw [hpt.same.config]; exact hi₁.carriers
    obtain ⟨l₃, ctx₃, hw, -, -, rfl⟩ := Writing.run hrest hsm hn (pagesApart_of_copies hpages)
      (Writing.begin _ _ _ _ _) (hl₂.beginWritePages (Or.inl hp₂) hn) hq
    refine ⟨iff_of_true (by simp [afsReqClean]) fun _ => hcan.1 (rebuildBlocksMap_next hmap),
      fun _ i hi' => ?_⟩
    show segmentByte l₃.req.bio.biIoVec i = _
    rw [hw.req, hbios]
    exact hans i hi'
  · have hlog : LogEvent.endio ∉ l₂.log := (hl₂.2.open_ (by simp [hp₂])).1
    exact ⟨iff_of_false hlog fun h => rebuildBlocksMap_ret hmap (hcan.2 (h hd)),
      fun h => absurd h hlog⟩

/-- **A read that runs alone** is answered with its range of what the block holds, and changes the
difference field of the entry only. -/
theorem read_run (hi : Instance ctx) (hk : ∀ n, k.kmalloc n = true) (hbio : bio.InBlock)
    (hop : bio.biOp = .read) (hb : bio.biSector / 8 < ctx.config.numBlocks)
    (hcont : Content k ctx (bio.biSector / 8) d)
    (hr : Runs k g ctx (newLife (mapRequest fresh ctx bio) .flightq) acts ctx' l')
    (hs : ∀ a ∈ acts, a.Smooth) (hq : l'.Quiet) :
    (∀ i < bio.biSize, l'.answer i = d (bio.biSector % 8 * 512 + i)) ∧
      ∃ map, ctx' = { ctx with afsMap := map } ∧
        SameTuples (afsGetMapEntry ctx.config (bio.biSector / 8)) ctx.afsMap map := by
  have hrange := hbio.range
  rcases hcont with ⟨hinv, hz⟩ | hst
  · obtain ⟨hans, rfl, -⟩ := read_unmapped hi hbio hop hb (hinv 0 (by norm_num)) hr hq
    refine ⟨fun i hi' => ?_, ctx'.afsMap, rfl, fun _ _ => rfl⟩
    rw [hans i hi', hz _ (by omega)]
  · have h0 := hst.valid 0 (by norm_num)
    obtain ⟨hend, hans⟩ := read_answer hi hk hbio hop hb h0 hr hs hq
    refine ⟨fun i hi' => ?_, ?_⟩
    · rw [hans (hend.2 fun hd => absurd hd hst.not_damaged) i hi']
      have hbyte := hst.decodedData (bio.biSector % 8 * 512 + i) (by omega)
      rwa [Nat.zero_add] at hbyte
    · obtain ⟨l₂, e, ctx₁, req, hdec, -, -, hcase⟩ := read_mapped hi hk hbio hop hb h0 hr hs hq
      obtain ⟨-, rfl, -⟩ := hcase.resolve_right fun h => hst.not_damaged h.1
      exact hdec.context

/-! ### Every request can finish -/

theorem Runs.append {acts' : List Act} {l₂ : Life} (h : Runs k g ctx l acts ctx' l')
    (h' : Runs k g ctx' l' acts' ctx₂ l₂) : Runs k g ctx l (acts ++ acts') ctx₂ l₂ := by
  induction h with
  | nil => exact h'
  | cons step _ ih => exact .cons step (ih h')

theorem Reading.reaches (hn : ctx.config.numCarrierBlocks = 4) (n : ℕ) (l : Life)
    (hlt : l.left < n) (h : Reading ctx req₁ l) (hl : l.Sound) (hbio : l.req.hasBio = true) :
    ∃ acts l₂, Runs k g ctx l acts ctx l₂ ∧ (∀ a ∈ acts, a.Smooth) ∧
      (∀ e, .rebuildBlocks e ∉ acts) ∧ Reading ctx req₁ l₂ ∧ l₂.Sound ∧ l₂.phase = .cryptoq := by
  induction n generalizing l with
  | zero => omega
  | succ n ih =>
    by_cases hp : l.phase = .cryptoq
    · exact ⟨[], l, .nil ctx l, by simp, by simp, h, hl, hp⟩
    · have hphase := h.phase
      obtain ⟨a, ctx₁, l₁, ha, hstep, hleft⟩ := Life.exists_step (k := k) (g := g) hl hn hbio
        (hphase.imp_right fun h => Or.inr (h.resolve_right hp))
      have hls := lifeStep_of_step hstep
      obtain ⟨rfl, h₁⟩ := h.step hls ha hn hl.1 hp
      obtain ⟨acts, l₂, hr, hs, hno, hrest⟩ := ih l₁ (by omega) h₁
        (hls.sound hn hl ha fun hc => by simp [hc] at hphase) (hls.hasBio.trans hbio)
      refine ⟨a :: acts, l₂, .cons hstep hr, List.forall_mem_cons.2 ⟨ha, hs⟩, ?_, hrest⟩
      intro e
      rw [List.mem_cons, not_or]
      refine ⟨?_, hno e⟩
      rintro rfl
      simp [hls.rebuildBlocks_phase] at hphase

theorem Writing.reaches (hn : ctx₁.config.numCarrierBlocks = 4)
    (hpages : PagesApart ctx₁.passiveFs.dataStartOff req₁) (n : ℕ) (ctx : AfsPrivate) (l : Life)
    (hlt : l.left < n) (h : Writing ctx₁ req₁ ctx l) (hl : l.Sound)
    (hbio : l.req.hasBio = true) :
    ∃ acts ctx' l', Runs k g ctx l acts ctx' l' ∧ (∀ a ∈ acts, a.Smooth) ∧ l'.Quiet ∧
      l'.Written := by
  induction n generalizing l ctx with
  | zero => omega
  | succ n ih =>
    have hphase := h.phase
    have hconf : ctx.config.numCarrierBlocks = 4 := by rw [h.context]; exact hn
    obtain ⟨a, ctx₃, l₃, ha, hstep, hleft⟩ := Life.exists_step (k := k) (g := g) hl hconf hbio
      (Or.inr hphase)
    have hls := lifeStep_of_step hstep
    have hl₃ : l₃.Sound := hls.sound hconf hl ha fun hc => by simp [hc] at hphase
    rcases h.step hls ha hn hl.1 hpages with hw | ⟨l₄, ctx₄, hw, harr, rfl, rfl⟩
    · obtain ⟨acts, ctx', l', hr, hs, hq⟩ := ih ctx₃ l₃ (by omega) hw hl₃
        (hls.hasBio.trans hbio)
      exact ⟨a :: acts, ctx', l', .cons hstep hr, List.forall_mem_cons.2 ⟨ha, hs⟩, hq⟩
    · exact ⟨[a], _, _, .cons hstep (.nil _ _), by simpa using ha,
        quiet_afsReqClean (hl₃.2.closed rfl).1,
        fun j hj => List.mem_append_left _ (hw.logged j hj (harr j hj))⟩

theorem encodeRequest_total (hk : ∀ n, k.kmalloc n = true) (hn : ctx.config.numCarrierBlocks = 4)
    (her : ∀ i < 4, req.erasures i = shareNumbers i) (g : GfCtx) (e : Entropy) :
    ∃ s, encodeRequest k g e ctx req = some s := by
  unfold encodeRequest
  split
  · have hinit : ∃ encoder, gfshareCtxInitEnc k req.erasures 4 2 4096 = some encoder := by
      unfold gfshareCtxInitEnc gfshareCtxInitCore
      rw [if_neg, if_neg (by norm_num), if_pos ⟨hk _, hk _, hk _⟩]
      · exact ⟨_, rfl⟩
      · simp only [List.any_eq_true, List.mem_range, decide_eq_true_eq, not_exists, not_and]
        intro i hi
        rw [her i hi]
        exact shareNumbers_ne_zero hi
    obtain ⟨encoder, hinit⟩ := hinit
    rw [hn, hinit]
    exact ⟨_, rfl⟩
  · exact ⟨_, rfl⟩
  · exact ⟨_, rfl⟩

theorem rebuildBlocksMap_total (hk : ∀ n, k.kmalloc n = true)
    (hn : ctx.config.numCarrierBlocks = 4) (hcan : CanAcquire ctx) (req : AfsMapRequest)
    (g : GfCtx) (e : Entropy) : ∃ s, rebuildBlocksMap k g e ctx req = some (.next s) := by
  have her : ∀ i < 4, (renumberRequest ctx req).erasures i = shareNumbers i :=
    fun i hi => numberShares_eq (by rw [hn]; exact hi)
  obtain ⟨⟨ctx₁, req₁⟩, henc⟩ := encodeRequest_total hk hn her g e
  obtain ⟨map, encoder, carriers, rfl, rfl, -⟩ := encodeRequest_frame henc
  obtain ⟨bs, v, random, hacq, hlen⟩ := hcan
  have hu : ∀ i req, (copyCarrier i req).mapEntry = req.mapEntry := fun _ _ => rfl
  unfold rebuildBlocksMap
  dsimp only
  rw [show encodeRequest k g e ctx { req with
    erasures := numberShares req.erasures ctx.config.numCarrierBlocks } = _ from henc]
  simp only [Option.bind_eq_bind, Option.bind_some]
  rw [remapCarrier_eq, forLoop_acquireCarrier hu]
  simp only [hacq, Option.map_some, hlen, if_true, Option.bind_some]
  exact ⟨_, rfl⟩

theorem Life.step_startWrite {s : AfsPrivate × AfsMapRequest} (hop : bio.biOp = .write)
    (hmap : writeRequestMap k g e ctx (flightRequest fresh ctx bio) = some (.next s)) :
    (newLife (mapRequest fresh ctx bio) .flightq).step k g ctx (.flight e) =
      some (s.1, beginWritePages (newLife (mapRequest fresh ctx bio) .flightq) false s.1.config
        s.2) :=
  (LifeStep.startWrite rfl hop hmap rfl).step

theorem Runs.startRebuild {s : AfsPrivate × AfsMapRequest} (hp : l.phase = .cryptoq)
    (hdec : readDecode k g ctx l.req = some (ctx₁, req)) (hflag : req.rebuildFlag = true)
    (hbio : l.req.hasBio = true) (hmap : rebuildBlocksMap k g e ctx₁ req = some (.next s)) :
    Runs k g ctx l [.crypto, .rebuildBlocks e] s.1 (beginWritePages l true s.1.config s.2) :=
  .cons (LifeStep.damaged hp hdec hflag hbio).step
    (.cons (LifeStep.rebuild rfl hmap).step (.nil _ _))

theorem read_reaches (hi : Instance ctx) (hk : ∀ n, k.kmalloc n = true) (hop : bio.biOp = .read)
    (hb : bio.biSector / 8 < ctx.config.numBlocks)
    (h0 : entryPtr ctx (bio.biSector / 8) 0 ≠ afsInvalidBlock) (fresh : AfsMapRequest)
    (g : GfCtx) :
    ∃ acts l₂ ctx₁ req, Runs k g ctx (newLife (mapRequest fresh ctx bio) .flightq) acts ctx l₂ ∧
      (∀ a ∈ acts, a.Smooth) ∧ (∀ e, .rebuildBlocks e ∉ acts) ∧ l₂.Sound ∧ l₂.phase = .cryptoq ∧
      l₂.req.hasBio = true ∧ readDecode k g ctx l₂.req = some (ctx₁, req) ∧
      (∃ map, ctx₁ = { ctx with afsMap := map }) ∧
      req.mapEntry = afsGetMapEntry ctx.config (bio.biSector / 8) ∧
      (req.rebuildFlag = true ↔ Damaged ctx (afsGetMapEntry ctx.config (bio.biSector / 8))) ∧
      Agree req.dataBlock 0
        (decodedData k ctx (afsGetMapEntry ctx.config (bio.biSector / 8))) 0 4096 := by
  have hn := hi.carriers
  have hlt := hi.config.blocks
  have hblock : (flightRequest fresh ctx bio).block = bio.biSector / 8 :=
    block_flightRequest (by omega)
  have hmap : readRequestMap k ctx (flightRequest fresh ctx bio) = _ := readRequestMap_eq rfl
  rw [hblock, if_neg (show carrierPtr ctx.afsMap _ 0 ≠ _ from h0)] at hmap
  have hstep : LifeStep k g ctx (newLife (mapRequest fresh ctx bio) .flightq)
      (.flight zeroEntropy) ctx (beginReadPages (newLife (mapRequest fresh ctx bio) .flightq)
        ctx.config (takenRequest k ctx (flightRequest fresh ctx bio))) :=
    .startRead rfl hop hmap rfl
  have hls := hstep.sound hn (sound_newLife rfl) trivial fun hp => by simp [newLife] at hp
  obtain ⟨acts, l₂, hr, hs, hno, hread, hl₂, hp₂⟩ := Reading.reaches (k := k) (g := g) hn _ _
    (Nat.lt_succ_self _) (Reading.begin _ ctx.config ctx _) hls rfl
  obtain ⟨map, data, hdec, -, hdata⟩ := hread.decode hl₂ hp₂ hi hk rfl rfl g
  rw [hblock, ivWords_flightRequest] at hdata
  have hflag₂ : l₂.req.rebuildFlag = false := by rw [hread.req]; rfl
  have hbio₂ : l₂.req.hasBio = true := by rw [hread.req]; rfl
  have hflag := (readDecode_rebuildFlag hflag₂ hdec).trans (hread.mismatch_iff hl₂ hp₂ hn)
  rw [hblock] at hflag
  obtain ⟨flag, er, hc⟩ := checkCarriers_frame ctx.afsMap l₂.req 4
  refine ⟨.flight zeroEntropy :: acts, l₂, _, _, .cons hstep.step hr,
    List.forall_mem_cons.2 ⟨trivial, hs⟩, by simpa using hno, hl₂, hp₂, hbio₂, hdec, ⟨map, rfl⟩,
    ?_, hflag, hdata⟩
  rw [hc, hread.req, ← hblock]
  rfl

/-- **A read of a mapped block can finish**, if there are blocks for the rebuild it may need. -/
theorem read_mapped_exists (hi : Instance ctx) (hk : ∀ n, k.kmalloc n = true)
    (hop : bio.biOp = .read) (hb : bio.biSector / 8 < ctx.config.numBlocks)
    (h0 : entryPtr ctx (bio.biSector / 8) 0 ≠ afsInvalidBlock)
    (hcan : Damaged ctx (afsGetMapEntry ctx.config (bio.biSector / 8)) → CanAcquire ctx)
    (fresh : AfsMapRequest) :
    ∃ acts ctx' l', Runs k g ctx (newLife (mapRequest fresh ctx bio) .flightq) acts ctx' l' ∧
      (∀ a ∈ acts, a.Smooth) ∧ l'.Quiet := by
  obtain ⟨acts, l₂, ctx₁, req, hr, hs, -, hl₂, hp₂, hbio₂, hdec, ⟨map, rfl⟩, hentry, hflag, -⟩ :=
    read_reaches hi hk hop hb h0 fresh g
  have hcount := hl₂.1.queued (.inr (.inr (.inl hp₂)))
  by_cases hd : Damaged ctx (afsGetMapEntry ctx.config (bio.biSector / 8))
  · have hi₁ : Instance { ctx with afsMap := map } := hi.of_sameInstance sameInstance_of_eq
    have hcan₁ : CanAcquire { ctx with afsMap := map } := hcan hd
    obtain ⟨s, hmap⟩ := rebuildBlocksMap_total hk hi₁.carriers hcan₁ req g zeroEntropy
    obtain ⟨hpt, -, hpages, -⟩ := rebuildBlocksMap_mapped hi₁ hentry hmap
    have hn : s.1.config.numCarrierBlocks = 4 := by rw [hpt.same.config]; exact hi₁.carriers
    have hstart := Runs.startRebuild hp₂ hdec (hflag.2 hd) hbio₂ hmap
    have hreb : s.2.hasBio = true := hstart.hasBio.trans hbio₂
    obtain ⟨acts', ctx', l', hr', hs', hq, -⟩ := Writing.reaches (k := k) (g := g) hn
      (pagesApart_of_copies hpages) _ s.1 _ (Nat.lt_succ_self _) (Writing.begin _ true _ _ _)
      (hl₂.beginWritePages (Or.inl hp₂) hn) hreb
    refine ⟨acts ++ ([.crypto, .rebuildBlocks zeroEntropy] ++ acts'), ctx', l',
      hr.append (hstart.append hr'), ?_, hq⟩
    simp only [List.forall_mem_append, List.forall_mem_cons]
    exact ⟨hs, ⟨trivial, trivial, by simp⟩, hs'⟩
  · have hno : req.rebuildFlag = false := by
      rw [← Bool.not_eq_true]
      exact fun h => hd (hflag.1 h)
    have hdecode := (LifeStep.decode hp₂ hdec hno hbio₂).step
    have hquiet : (afsReqClean { l₂ with req }).Quiet := quiet_afsReqClean hcount
    refine ⟨acts ++ [.crypto], _, _, hr.append (.cons hdecode (.nil _ _)), ?_, hquiet⟩
    simp only [List.forall_mem_append, List.forall_mem_cons]
    exact ⟨hs, trivial, by simp⟩

theorem Life.step_answer (hop : bio.biOp = .read)
    (h0 : carrierPtr ctx.afsMap (afsGetMapEntry ctx.config (flightRequest fresh ctx bio).block) 0 =
      afsInvalidBlock) :
    (newLife (mapRequest fresh ctx bio) .flightq).step k g ctx (.flight e) =
      some (ctx, afsReqClean { newLife (mapRequest fresh ctx bio) .flightq with
        req := zeroedRequest ctx (flightRequest fresh ctx bio) }) := by
  have hmap : readRequestMap k ctx (flightRequest fresh ctx bio) = _ := readRequestMap_eq rfl
  rw [if_pos h0] at hmap
  exact (LifeStep.answer rfl hop hmap rfl).step

/-- **A read of a block that is not damaged can finish.** -/
theorem read_exists (hi : Instance ctx) (hk : ∀ n, k.kmalloc n = true) (hop : bio.biOp = .read)
    (hb : bio.biSector / 8 < ctx.config.numBlocks) (hcont : Content k ctx (bio.biSector / 8) d)
    (fresh : AfsMapRequest) :
    ∃ acts ctx' l', Runs k g ctx (newLife (mapRequest fresh ctx bio) .flightq) acts ctx' l' ∧
      (∀ a ∈ acts, a.Smooth) ∧ l'.Quiet := by
  rcases hcont with ⟨hinv, -⟩ | hst
  · have hlt := hi.config.blocks
    have hblock : (flightRequest fresh ctx bio).block = bio.biSector / 8 :=
      block_flightRequest (by omega)
    have h0 : carrierPtr ctx.afsMap (afsGetMapEntry ctx.config (bio.biSector / 8)) 0 =
        afsInvalidBlock := hinv 0 (by norm_num)
    rw [← hblock] at h0
    have hstep := Life.step_answer (k := k) (g := g) (e := zeroEntropy) hop h0
    exact ⟨[.flight zeroEntropy], _, _, .cons hstep (.nil _ _), by simp [Act.Smooth],
      quiet_afsReqClean rfl⟩
  · exact read_mapped_exists hi hk hop hb (hst.valid 0 (by norm_num))
      (fun hd => absurd hd hst.not_damaged) fresh

theorem writeRequestMap_total (hk : ∀ n, k.kmalloc n = true)
    (hn : ctx.config.numCarrierBlocks = 4) (hstate : req.state = .flight)
    (hcan : CanMap ctx (loadRequest ctx req).mapEntry) (g : GfCtx) (e : Entropy) :
    ∃ s, writeRequestMap k g e ctx req = some (.next s) := by
  have her : ∀ i < 4, (loadRequest ctx req).erasures i = shareNumbers i :=
    fun i hi => numberShares_eq (by rw [hn]; exact hi)
  obtain ⟨⟨ctx₁, req₁⟩, henc⟩ := encodeRequest_total hk hn her g e
  have hptr := fun i hi => encodeRequest_carrierPtr henc (i := i) hi
  obtain ⟨map, encoder, carriers, rfl, rfl, -⟩ := encodeRequest_frame henc
  unfold writeRequestMap
  rw [if_neg (not_not.2 hstate)]
  simp only [henc, Option.bind_eq_bind, Option.bind_some]
  unfold CanMap at hcan
  split_ifs at hcan with h0
  · obtain ⟨bs, v, random, hacq, hlen⟩ := hcan
    rw [show decide (carrierPtr ctx.afsMap (loadRequest ctx req).mapEntry 0 ≠ afsInvalidBlock) =
      false by simp [h0], mapCarrier_false, forLoop_acquireCarrier fun _ _ => rfl]
    simp only [hacq, Option.map_some, hlen, if_true, Option.bind_some]
    exact ⟨_, rfl⟩
  · rw [show decide (carrierPtr ctx.afsMap (loadRequest ctx req).mapEntry 0 ≠ afsInvalidBlock) =
      true by simp [h0], forLoop_mapCarrier_true _ _ _ _ fun j _ hj => ?_]
    · exact ⟨_, rfl⟩
    · rw [Nat.zero_add] at hj
      exact fun hc => hcan j hj ((hptr j hj).symm.trans hc)

/-- **A write that has blocks for its carriers can finish.** -/
theorem write_exists (hi : Instance ctx) (hp : Placed ctx) (hk : ∀ n, k.kmalloc n = true)
    (hop : bio.biOp = .write) (hb : bio.biSector / 8 < ctx.config.numBlocks)
    (hcan : CanMap ctx (afsGetMapEntry ctx.config (bio.biSector / 8))) (fresh : AfsMapRequest)
    (g : GfCtx) (e : Entropy) :
    ∃ acts ctx' l', Runs k g ctx (newLife (mapRequest fresh ctx bio) .flightq)
        (.flight e :: acts) ctx' l' ∧ (∀ a ∈ .flight e :: acts, a.Smooth) ∧ l'.Quiet ∧
      l'.Written := by
  have hn := hi.carriers
  have hlt := hi.config.blocks
  have hblock : (flightRequest fresh ctx bio).block = bio.biSector / 8 :=
    block_flightRequest (by omega)
  have hentry : (loadRequest ctx (flightRequest fresh ctx bio)).mapEntry =
      afsGetMapEntry ctx.config (bio.biSector / 8) := by
    rw [← hblock]
    rfl
  obtain ⟨s, hmap⟩ := writeRequestMap_total hk hn
    (rfl : (flightRequest fresh ctx bio).state = .flight) (hentry ▸ hcan) g e
  obtain ⟨hm, -, -⟩ := writeRequestMap_mapped hi hp hk hb (by rw [hblock]) rfl hmap
  have hstep := Life.step_startWrite hop hmap
  have hls := (lifeStep_of_step hstep).sound hn (sound_newLife rfl) trivial
    fun hp => by simp [newLife] at hp
  have hpages : PagesApart s.1.passiveFs.dataStartOff s.2 := by
    rw [hm.same.passiveFs]
    exact hm.pagesApart hi hb
  obtain ⟨acts, ctx', l', hr, hs, hq⟩ := Writing.reaches (k := k) (g := g)
    (hm.same.config ▸ hn) hpages _ s.1 _ (Nat.lt_succ_self _) (Writing.begin _ _ _ _ _) hls
    ((writeRequestMap_bio hmap).2.trans rfl)
  exact ⟨acts, ctx', l', .cons hstep hr, List.forall_mem_cons.2 ⟨trivial, hs⟩, hq⟩

end

end Artifice
