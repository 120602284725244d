import Artifice.Engine.Target
import Artifice.Engine.Rebuild

/-!
A write and a read of one block at the same time.

Nothing keeps two requests for a block apart: a read that is decoded after the write has started can
find the checksums of one and the pages of the other, and then its rebuild moves the entry away from
the blocks that the write still writes to. So does a rebuild that was decided before the write
started and runs after it. As long as no rebuild meets the write, the read changes nothing of the
entry but its difference field, which no decoder looks at.
-/

namespace Artifice

open Lib

/-- The target with one write and one read under way. -/
def pairTarget (ctx : AfsPrivate) (w r : Life) : Target := ⟨ctx, [(.map, w), (.map, r)], [], [], true⟩

/-- A run of a write and a read in which no step fails. -/
structure PairRun (k : Kernel) (g : GfCtx) (ctx : AfsPrivate) (w r : Life)
    (run : List (Target × TargetEvent)) (ctx' : AfsPrivate) (w' r' : Life) : Prop where
  steps : TargetRun k g (pairTarget ctx w r) run (pairTarget ctx' w' r')
  smooth : ∀ m ∈ run, ∃ i a, m.2 = .step i a ∧ a.Smooth

/-- Nothing is left to do of the request, and its bio was ended. -/
def Life.Completed (l : Life) : Prop := l.Quiet ∧ LogEvent.endio ∈ l.log

/-- No rebuild of the request is due or under way: it still reads, or nothing is left of it. -/
def Life.StillReads (l : Life) : Prop := (l.type = .read ∧ l.phase ≠ .rebuildBlocks) ∨ l.phase = .gone

/-- No rebuild meets the write: the write does not start while the read is to be rebuilt or rebuilds,
and once the write has started, a read that is decoded finds no mismatch. And the write has blocks
for its carriers. -/
def Unraced (m : Target × TargetEvent) : Prop :=
  ∀ w r, m.1.lives = [(.map, w), (.map, r)] →
    (∀ e, m.2 = .step 0 (.flight e) → r.StillReads ∧
      CanMap m.1.ctx (afsGetMapEntry m.1.ctx.config w.req.block)) ∧
    (m.2 = .step 1 .crypto → Mismatch m.1.ctx r.req → w.phase = .flightq)

section

variable {k : Kernel} {g : GfCtx} {ctx ctx' ctx₀ ctx₁ ctxW : AfsPrivate} {l l' w w' r r' r₀ : Life}
  {a : Act} {req req₁ : AfsMapRequest} {b entry n i : ℕ} {d map map' map'' : Mem}
  {t t' : Target} {run : List (Target × TargetEvent)}

/-! ### Contexts that differ in the difference field -/

theorem SameTuples.refl (entry : ℕ) (map : Mem) : SameTuples entry map map := fun _ _ => rfl

theorem SameTuples.trans (h : SameTuples entry map map') (h' : SameTuples entry map' map'') :
    SameTuples entry map map'' := fun i hi => (h' i hi).trans (h i hi)

theorem SameTuples.storeChecksums (h : SameTuples entry map map') (req : AfsMapRequest) (n : ℕ) :
    SameTuples entry (storeChecksums map req n) (storeChecksums map' req n) := by
  induction n with
  | zero => exact h
  | succ n ih =>
    intro i hi
    simp only [Artifice.storeChecksums, setTupleChecksum, putLe]
    split_ifs
    · rfl
    · exact ih i hi

/-- The context has another difference field in the entry. -/
def Similar (entry : ℕ) (ctx ctx' : AfsPrivate) : Prop :=
  ∃ map, ctx' = { ctx with afsMap := map } ∧ SameTuples entry ctx.afsMap map

theorem Similar.refl (entry : ℕ) (ctx : AfsPrivate) : Similar entry ctx ctx :=
  ⟨ctx.afsMap, rfl, SameTuples.refl _ _⟩

theorem Similar.trans (h : Similar entry ctx ctx₁) (h' : Similar entry ctx₁ ctx') :
    Similar entry ctx ctx' := by
  obtain ⟨map, rfl, h⟩ := h
  obtain ⟨map', rfl, h'⟩ := h'
  exact ⟨map', rfl, h.trans h'⟩

theorem Similar.sameInstance (h : Similar entry ctx ctx') : SameInstance ctx ctx' := by
  obtain ⟨map, rfl, -⟩ := h
  exact sameInstance_of_eq

theorem Stored.similar (h : Stored k ctx entry d) (hs : Similar entry ctx ctx') :
    Stored k ctx' entry d := by
  obtain ⟨map, rfl, htup⟩ := hs
  exact h.congr sameInstance_of_eq (fun t ht => htup _ (by omega)) fun j _ => Agree.refl _ _ _

/-- **The write does not notice the read**: a step of it in one context is a step in the other. -/
theorem Writing.step_similar (h : Writing ctx₁ req₁ ctxW l) (hs : Similar entry ctxW ctx)
    (hstep : LifeStep k g ctx l a ctx' l') (ha : a.Smooth) :
    ∃ ctxW', LifeStep k g ctxW l a ctxW' l' ∧ Similar entry ctxW' ctx' := by
  obtain ⟨map, rfl, htup⟩ := hs
  cases hstep.writeStep ha h.type (h.phase.imp_right Or.inl) with
  | submit phase => exact ⟨ctxW, .submitWrite phase, map, rfl, htup⟩
  | @complete i mem more =>
    have hreq : (transfer { ctxW with afsMap := map } l i 0).2 = (transfer ctxW l i 0).2 := by
      rw [transfer_write _ h.type, transfer_write _ h.type]
    rw [hreq]
    refine ⟨_, .complete mem rfl more, map, ?_, ?_⟩
    · rw [transfer_write _ h.type, transfer_write _ h.type]
    · rw [transfer_write _ h.type]
      exact htup
  | @last i mem last bio =>
    have hreq : (transfer { ctxW with afsMap := map } l i 0).2 = (transfer ctxW l i 0).2 := by
      rw [transfer_write _ h.type, transfer_write _ h.type]
    rw [hreq]
    refine ⟨_, .lastWrite mem rfl last h.type bio, storeChecksums map
      (Artifice.countDown l (transfer ctxW l i 0).2 i).req ctxW.config.numCarrierBlocks, ?_, ?_⟩
    · rw [transfer_write _ h.type, transfer_write _ h.type]
    · rw [transfer_write _ h.type]
      exact htup.storeChecksums _ _

/-! ### The steps of the read -/

/-- A read of block `b` that began as `r₀`. -/
structure ReadSide (ctx₀ : AfsPrivate) (b : ℕ) (r₀ r : Life) : Prop where
  sound : r.Sound
  entry : r = r₀ ∨ (r.phase ≠ .flightq ∧ r.phase ≠ .rebuildq ∧
    r.req.mapEntry = afsGetMapEntry ctx₀.config b)

/-- What a step of the read can do to the context: nothing but to the difference field, start a
rebuild, write a carrier of it, or finish it. A rebuild becomes due where the read is decoded with a
mismatch. -/
inductive ReadEffect (k : Kernel) (g : GfCtx) (entry : ℕ) (ctx : AfsPrivate) (r : Life)
    (ctx' : AfsPrivate) (r' : Life) : Prop
  | similar (same : Similar entry ctx ctx') (type : r'.type = r.type)
      (due : r'.phase = .rebuildBlocks → r.phase = .cryptoq ∧ Mismatch ctx r.req)
  | rebuild {e s} (phase : r.phase = .rebuildBlocks) (entry : r.req.mapEntry = entry)
      (map : rebuildBlocksMap k g e ctx r.req = some (.next s)) (context : ctx' = s.1)
  | write {disk} (type : r.type = .write) (open_ : r.phase ≠ .gone)
      (context : ctx' = { ctx with disk })
  | finish {disk req} (type : r.type = .write) (open_ : r.phase ≠ .gone)
      (entry : req.mapEntry = entry) (context : ctx' = { ctx with
        disk, afsMap := storeChecksums ctx.afsMap req ctx.config.numCarrierBlocks })

theorem similar_readDecode {req' : AfsMapRequest} (hn : ctx.config.numCarrierBlocks = 4)
    (hentry : req.mapEntry = entry) (h : readDecode k g ctx req = some (ctx', req')) :
    Similar entry ctx ctx' ∧ req'.mapEntry = entry := by
  obtain ⟨map, _, _, _, _, _, rfl, rfl, hout⟩ := readDecode_frame h
  refine ⟨⟨map, rfl, fun i hi => hout i ?_⟩, hentry⟩
  rw [mapEntryDifference, hn, hentry]
  omega

/-- **A step of the read.** -/
theorem ReadSide.step (h : ReadSide ctx₀ b r₀ r) (hr₀ : r₀.phase = .flightq)
    (hop : r₀.req.bio.biOp = .read)
    (hblock : afsGetMapEntry ctx₀.config r₀.req.block = afsGetMapEntry ctx₀.config b)
    (hs : LifeStep k g ctx r a ctx' r') (ha : a.Smooth) (hi : Instance ctx)
    (hconf : ctx.config = ctx₀.config)
    (hno : r.phase = .rebuildBlocks → CanAcquire ctx) :
    ReadSide ctx₀ b r₀ r' ∧ ReadEffect k g (afsGetMapEntry ctx₀.config b) ctx r ctx' r' := by
  have hn := hi.carriers
  have hsound : r'.Sound := hs.sound hn h.sound ha hno
  have hstart : r.phase = .flightq → r = r₀ := fun hp => h.entry.resolve_right fun he => he.1 hp
  have hentry : r.phase ≠ .flightq → r.phase ≠ .rebuildq ∧
      r.req.mapEntry = afsGetMapEntry ctx₀.config b := fun hp =>
    (h.entry.resolve_left fun he => hp (he ▸ hr₀)).2
  have hopen : ∀ {i}, i ∈ r.outstanding → r.phase ≠ .gone := fun mem hp => by
    have := (h.sound.2.closed hp).1
    simp [this] at mem
  have hflight : ∀ {i}, i ∈ r.outstanding → r.phase ≠ .flightq := fun mem hp =>
    h.sound.1.not_queued mem (.inl hp)
  have hdue : ∀ {i}, i ∈ r.outstanding → r.phase ≠ .rebuildBlocks := fun mem hp =>
    h.sound.1.not_queued mem (.inr (.inr (.inr hp)))
  cases hs with
  | answer phase op map =>
    obtain rfl := hstart phase
    obtain ⟨-, rfl⟩ := readRequestMap_brk rfl map
    refine ⟨⟨hsound, Or.inr ⟨by simp [afsReqClean], by simp [afsReqClean], ?_⟩⟩,
      .similar (Similar.refl _ _) rfl (by simp [afsReqClean])⟩
    show afsGetMapEntry ctx.config r.req.block = _
    rw [hconf, hblock]
  | startRead phase op map =>
    obtain rfl := hstart phase
    obtain ⟨-, rfl⟩ := readRequestMap_next rfl map
    refine ⟨⟨hsound, Or.inr ⟨by simp [beginReadPages], by simp [beginReadPages], ?_⟩⟩,
      .similar (Similar.refl _ _) (h.sound.2.queued (Or.inl phase)).symm
        (by simp [beginReadPages])⟩
    show afsGetMapEntry ctx.config r.req.block = _
    rw [hconf, hblock]
  | submitRead phase =>
    have hent := hentry (by simp [phase])
    refine ⟨⟨hsound, Or.inr ⟨?_, ?_, hent.2⟩⟩, .similar (Similar.refl _ _) rfl ?_⟩
    · simp only [submitted]
      split_ifs <;> simp
    · simp only [submitted]
      split_ifs <;> simp
    · simp only [submitted]
      split_ifs <;> simp
  | submitWrite phase =>
    have hent := hentry (by simp [phase])
    refine ⟨⟨hsound, Or.inr ⟨?_, ?_, hent.2⟩⟩, .similar (Similar.refl _ _) rfl ?_⟩
    · simp only [submitted]
      split_ifs <;> simp
    · simp only [submitted]
      split_ifs <;> simp
    · simp only [submitted]
      split_ifs <;> simp
  | @complete i status t mem tr more =>
    obtain rfl : status = 0 := ha
    subst tr
    have hent := hentry (hflight mem)
    obtain ⟨disk, carriers, ht, -, hread⟩ := transfer_cases ctx r i 0
    refine ⟨⟨hsound, Or.inr ⟨hflight mem, hent.1, ?_⟩⟩, ?_⟩
    · rw [ht]
      exact hent.2
    · cases hty : r.type with
      | read =>
        rw [ht, hread hty]
        exact .similar (Similar.refl _ _) rfl fun hp => absurd hp (hdue mem)
      | write =>
        rw [ht]
        exact .write hty (hopen mem) rfl
  | @lastRead i status t mem tr last type =>
    obtain rfl : status = 0 := ha
    subst tr
    have hent := hentry (hflight mem)
    obtain ⟨disk, carriers, ht, -, hread⟩ := transfer_cases ctx r i 0
    refine ⟨⟨hsound, Or.inr ⟨by simp, by simp, ?_⟩⟩, ?_⟩
    · rw [ht]
      exact hent.2
    · rw [ht, hread type]
      exact .similar (Similar.refl _ _) rfl (by simp)
  | @lastWrite i status t mem tr last type =>
    obtain rfl : status = 0 := ha
    subst tr
    have hent := hentry (hflight mem)
    obtain ⟨disk, carriers, ht, -, -⟩ := transfer_cases ctx r i 0
    refine ⟨⟨hsound, Or.inr ⟨by simp [afsReqClean], by simp [afsReqClean], ?_⟩⟩, ?_⟩
    · rw [ht]
      exact hent.2
    · rw [ht]
      have hreq : (countDown r { r.req with carrierBlocks := carriers } i).req.mapEntry =
          afsGetMapEntry ctx₀.config b := hent.2
      exact .finish type (hopen mem) hreq rfl
  | decode phase dec =>
    have hent := hentry (by simp [phase])
    obtain ⟨hsim, hreq⟩ := similar_readDecode hn hent.2 dec
    exact ⟨⟨hsound, Or.inr ⟨by simp [afsReqClean], by simp [afsReqClean], hreq⟩⟩,
      .similar hsim rfl (by simp [afsReqClean])⟩
  | damaged phase dec flag =>
    have hent := hentry (by simp [phase])
    obtain ⟨hsim, hreq⟩ := similar_readDecode hn hent.2 dec
    have hflag : r.req.rebuildFlag = false :=
      h.sound.2.flag (h.sound.2.queued (.inr (.inr (.inl phase)))) (by simp [phase])
        (by simp [phase])
    exact ⟨⟨hsound, Or.inr ⟨by simp, by simp, hreq⟩⟩,
      .similar hsim rfl fun _ => ⟨phase, (readDecode_rebuildFlag hflag dec).1 flag⟩⟩
  | rebuild phase map =>
    have hent := hentry (by simp [phase])
    refine ⟨⟨hsound, Or.inr ⟨by simp [beginWritePages], by simp [beginWritePages], ?_⟩⟩,
      .rebuild phase hent.2 map rfl⟩
    obtain ⟨hpt, -⟩ := rebuildBlocksMap_mapped hi (hent.2.trans (by rw [hconf])) map
    exact hpt.entry.trans (by rw [hconf])
  | abandon phase map => exact (rebuildBlocksMap_ret map (hno phase)).elim
  | refuse phase op => simp [hstart phase, hop] at op
  | startWrite phase op => simp [hstart phase, hop] at op
  | unknown phase op => simp [hstart phase, hop] at op
  | skip phase => exact absurd phase (hentry (by simp [phase])).1
  | startRebuild phase => exact absurd phase (hentry (by simp [phase])).1
  | failRead _ fail => exact absurd ha fail
  | failWrite _ fail => exact absurd ha fail
  | failRebuild _ fail => exact absurd ha fail

/-- The read could not be rebuilt: nothing is left to do, and its bio is not ended. -/
def Life.Abandoned (l : Life) : Prop := l.Quiet ∧ LogEvent.endio ∉ l.log

theorem LifeStep.abandoned (hs : LifeStep k g ctx r a ctx' r') (hl : r.Sound)
    (hp : r.phase = .rebuildBlocks) (hcan : ¬ CanAcquire ctx) : r'.Abandoned := by
  have hcount := hl.1.queued (.inr (.inr (.inr hp)))
  have hopen := (hl.2.open_ (by simp [hp])).1
  cases hs with
  | rebuild _ map => exact absurd (rebuildBlocksMap_next map) hcan
  | abandon => exact ⟨⟨Or.inl rfl, hcount⟩, hopen⟩
  | decode phase => simp [phase] at hp
  | damaged phase => simp [phase] at hp
  | complete mem => simp [hcount] at mem
  | lastRead mem => simp [hcount] at mem
  | lastWrite mem => simp [hcount] at mem
  | submitRead phase => simp [phase] at hp
  | submitWrite phase => simp [phase] at hp
  | failRead phase => simp [phase] at hp
  | failWrite phase => simp [phase] at hp
  | failRebuild phase => simp [phase] at hp
  | answer phase => simp [phase] at hp
  | startRead phase => simp [phase] at hp
  | refuse phase => simp [phase] at hp
  | startWrite phase => simp [phase] at hp
  | unknown phase => simp [phase] at hp
  | skip phase => simp [phase] at hp
  | startRebuild phase => simp [phase] at hp

/-! ### The two together -/

theorem SameInstance.mapRequest (h : SameInstance ctx ctx') (fresh : AfsMapRequest) (bio : Bio) :
    mapRequest fresh ctx' bio = mapRequest fresh ctx bio := by
  simp only [Artifice.mapRequest, initRequest, h.encodingType, h.passphraseHash]

theorem ReadEffect.placed (h : ReadEffect k g (afsGetMapEntry ctx.config b) ctx r ctx' r')
    (hi : Instance ctx) (hp : Placed ctx) (hb : b < ctx.config.numBlocks) : Placed ctx' := by
  cases h with
  | similar same =>
    obtain ⟨map, rfl, htup⟩ := same
    exact hp.congr sameInstance_of_eq (fun b' hb' j hj => htup.entryPtr hi hb hb' hj) rfl
  | rebuild _ entry map context =>
    subst context
    obtain ⟨-, hm, -⟩ := rebuildBlocksMap_mapped hi entry map
    exact (hm hp hb).placed
  | write _ _ context =>
    subst context
    exact hp.congr ⟨rfl, rfl, rfl, rfl, rfl, rfl⟩ (fun _ _ _ _ => rfl) rfl
  | finish _ _ entry context =>
    subst context
    refine hp.congr ⟨rfl, rfl, rfl, rfl, rfl, rfl⟩ (fun b' hb' j hj => ?_) rfl
    rw [hi.carriers]
    exact entryPtr_storeChecksums hi ⟨rfl, rfl, rfl, rfl, rfl, rfl⟩ rfl entry hb hb' hj

/-- How far the write `w₀` of block `b` has come, next to the read `r₀`: it has not started, it
writes its carriers, or the block holds its data. The read may be left behind. -/
inductive PairInv (k : Kernel) (ctx₀ : AfsPrivate) (b : ℕ) (w₀ r₀ : Life) (d : Mem)
    (ctx : AfsPrivate) (w r : Life) : Prop
  | abandoned (read : r.Abandoned)
  | before (write : w = w₀) (same : SameInstance ctx₀ ctx) (placed : Placed ctx)
      (read : ReadSide ctx₀ b r₀ r)
  | during {ctx₁ s ctxW} (same : SameInstance ctx₀ ctx₁) (mapped : Mapped ctx₁ b s)
      (data : Agree (carriersData k ctx₁.encodingType (ivWords ctx₁.passphraseHash) shareNumbers
        s.2.carrierBlocks) 0 d 0 4096)
      (write : Writing s.1 s.2 ctxW w) (sound : w.Sound)
      (similar : Similar (afsGetMapEntry ctx₀.config b) ctxW ctx) (read : ReadSide ctx₀ b r₀ r)
      (calm : r.StillReads)
  | after (quiet : w.Quiet) (same : SameInstance ctx₀ ctx)
      (stored : Stored k ctx (afsGetMapEntry ctx₀.config b) d) (read : ReadSide ctx₀ b r₀ r)
      (calm : r.StillReads)

section Pair

variable {bio bio' : Bio} {fresh fresh' : AfsMapRequest}

/-- **A step of the write.** -/
theorem PairInv.writeStep (hi : Instance ctx₀) (hk : ∀ n, k.kmalloc n = true)
    (hbio : bio.InBlock) (hop : bio.biOp = .write) (hwhole : bio.Whole)
    (hb : bio.biSector / 8 < ctx₀.config.numBlocks)
    (h : PairInv k ctx₀ (bio.biSector / 8) (newLife (mapRequest fresh ctx₀ bio) .flightq) r₀
      (segmentByte bio.biIoVec) ctx w r)
    (hs : w.step k g ctx a = some (ctx', w')) (ha : a.Smooth)
    (hun : ∀ e, a = .flight e → r.StillReads ∧
      CanMap ctx (afsGetMapEntry ctx.config w.req.block)) :
    PairInv k ctx₀ (bio.biSector / 8) (newLife (mapRequest fresh ctx₀ bio) .flightq) r₀
      (segmentByte bio.biIoVec) ctx' w' r := by
  have hlt := hi.config.blocks
  cases h with
  | abandoned read => exact .abandoned read
  | before write same placed read =>
    subst write
    have hinst := hi.of_sameInstance same
    have hn := hinst.carriers
    have hb' : bio.biSector / 8 < ctx.config.numBlocks := same.config ▸ hb
    have hblock : (flightRequest fresh ctx bio).block = bio.biSector / 8 :=
      block_flightRequest (by omega)
    rw [← same.mapRequest] at hs hun
    obtain ⟨e, rfl, hcase⟩ := Life.step_write hs rfl rfl hop
    obtain ⟨calm, hcan⟩ := hun e rfl
    have hreq : { (newLife (mapRequest fresh ctx bio) .flightq).req with state := .flight } =
        flightRequest fresh ctx bio := rfl
    rw [hreq] at hcase
    obtain ⟨s', htotal⟩ := writeRequestMap_total hk hn
      (rfl : (flightRequest fresh ctx bio).state = .flight) hcan g e
    rcases hcase with ⟨s, hmap, rfl, rfl⟩ | ⟨code, s, hmap, -, -⟩
    · obtain ⟨hm, hdata, -⟩ := writeRequestMap_mapped hinst placed hk hb' (by rw [hblock]) rfl hmap
      rw [ivWords_flightRequest, dataBlock_loadRequest hbio] at hdata
      have hsound := (lifeStep_of_step hs).sound hn (sound_newLife rfl) ha
        fun hp => by simp [newLife] at hp
      exact .during same hm (hdata.trans (agree_spliced_whole hwhole _)) (Writing.begin _ _ _ _ _)
        hsound (Similar.refl _ _) read calm
    · rw [htotal] at hmap
      cases hmap
  | @during ctx₁ s ctxW same mapped data write sound similar read calm =>
    have hinst := hi.of_sameInstance same
    have hb' : bio.biSector / 8 < ctx₁.config.numBlocks := same.config ▸ hb
    have hn : s.1.config.numCarrierBlocks = 4 := by rw [mapped.same.config]; exact hinst.carriers
    have hnW : ctxW.config.numCarrierBlocks = 4 := by rw [write.context]; exact hn
    have hpages : PagesApart s.1.passiveFs.dataStartOff s.2 := by
      rw [mapped.same.passiveFs]
      exact mapped.pagesApart hinst hb'
    have hphase := write.phase
    obtain ⟨ctxW', hsW, hsim⟩ := write.step_similar similar (lifeStep_of_step hs) ha
    have hsound := hsW.sound hnW sound ha fun hp => by simp [hp] at hphase
    rcases write.step hsW ha hn sound.1 hpages with hw | ⟨l₂, ctx₂, hw, harr, rfl, rfl⟩
    · exact .during same mapped data hw hsound hsim read calm
    · have hst := mapped.stored hw harr data
      rw [same.config] at hst
      have hsame := (same.trans (mapped.sameInstance hw)).trans hsim.sameInstance
      exact .after (quiet_afsReqClean (hsound.2.closed rfl).1) hsame (hst.similar hsim) read calm
  | after quiet => exact absurd quiet (lifeStep_of_step hs).not_quiet

/-- **A step of the read.** -/
theorem PairInv.readStep {w₀ : Life} (hi : Instance ctx₀) (hb : b < ctx₀.config.numBlocks)
    (hr₀ : r₀.phase = .flightq) (hop : r₀.req.bio.biOp = .read)
    (hblock : afsGetMapEntry ctx₀.config r₀.req.block = afsGetMapEntry ctx₀.config b)
    (h : PairInv k ctx₀ b w₀ r₀ d ctx w r) (hs : r.step k g ctx a = some (ctx', r'))
    (ha : a.Smooth) (hun : a = .crypto → Mismatch ctx r.req → w.phase = .flightq) :
    PairInv k ctx₀ b w₀ r₀ d ctx' w r' := by
  have hls := lifeStep_of_step hs
  have hcrypto : r.Sound → r.phase = .cryptoq → Mismatch ctx r.req → w.phase = .flightq := by
    intro hl hp
    exact hun (Life.step_cryptoq hs hp (hl.1.queued (.inr (.inr (.inl hp))))).1
  have hread : ReadSide ctx₀ b r₀ r → r.StillReads → r.type = .read ∧ r.phase ≠ .rebuildBlocks := by
    intro hside hcalm
    exact hcalm.resolve_right fun hp =>
      hls.not_quiet ⟨Or.inr hp, (hside.sound.2.closed hp).1⟩
  cases h with
  | abandoned read => exact absurd read.1 hls.not_quiet
  | before write same placed read =>
    have hinst := hi.of_sameInstance same
    by_cases hno : r.phase = .rebuildBlocks → CanAcquire ctx
    · obtain ⟨hside, heff⟩ := read.step hr₀ hop hblock hls ha hinst same.config hno
      rw [← same.config] at heff
      exact .before write (same.trans hls.sameInstance)
        (heff.placed hinst placed (same.config ▸ hb)) hside
    · obtain ⟨hp, hcan⟩ := Classical.not_imp.1 hno
      exact .abandoned (hls.abandoned read.sound hp hcan)
  | @during ctx₁ s ctxW same mapped data write sound similar read calm =>
    have hphase := write.phase
    have hno : ¬ (r.phase = .cryptoq ∧ Mismatch ctx r.req) := by
      rintro ⟨hp, hm⟩
      simp [hcrypto read.sound hp hm] at hphase
    have hsame := ((same.trans mapped.same).trans
      (by rw [write.context]; exact ⟨rfl, rfl, rfl, rfl, rfl, rfl⟩)).trans similar.sameInstance
    have hinst := hi.of_sameInstance hsame
    obtain ⟨hty, hreb⟩ := hread read calm
    obtain ⟨hside, heff⟩ := read.step hr₀ hop hblock hls ha hinst hsame.config
      fun hp => absurd hp hreb
    cases heff with
    | similar hsim type due =>
      exact .during same mapped data write sound (similar.trans hsim) hside
        (Or.inl ⟨type.trans hty, fun hp => hno (due hp)⟩)
    | rebuild phase => exact absurd phase hreb
    | write type => simp [hty] at type
    | finish type => simp [hty] at type
  | after quiet same stored read calm =>
    have hno : ¬ (r.phase = .cryptoq ∧ Mismatch ctx r.req) := by
      rintro ⟨hp, hm⟩
      rcases quiet.1 with hq | hq <;> simp [hcrypto read.sound hp hm] at hq
    have hinst := hi.of_sameInstance same
    obtain ⟨hty, hreb⟩ := hread read calm
    obtain ⟨hside, heff⟩ := read.step hr₀ hop hblock hls ha hinst same.config
      fun hp => absurd hp hreb
    cases heff with
    | similar hsim type due =>
      exact .after quiet (same.trans hls.sameInstance) (stored.similar hsim) hside
        (Or.inl ⟨type.trans hty, fun hp => hno (due hp)⟩)
    | rebuild phase => exact absurd phase hreb
    | write type => simp [hty] at type
    | finish type => simp [hty] at type

/-- **Every run of the two keeps the invariant**, if no rebuild meets the write. -/
theorem TargetRun.pairInv (hi : Instance ctx₀) (hp : Placed ctx₀) (hk : ∀ n, k.kmalloc n = true)
    (hbio : bio.InBlock) (hop : bio.biOp = .write) (hwhole : bio.Whole)
    (hb : bio.biSector / 8 < ctx₀.config.numBlocks) (hop' : bio'.biOp = .read)
    (hblock : bio'.biSector / 8 = bio.biSector / 8)
    (hr : TargetRun k g (pairTarget ctx₀ (newLife (mapRequest fresh ctx₀ bio) .flightq)
      (newLife (mapRequest fresh' ctx₀ bio') .flightq)) run t)
    (hsm : ∀ m ∈ run, ∃ i a, m.2 = .step i a ∧ a.Smooth) (hun : ∀ m ∈ run, Unraced m) :
    ∃ ctx w r, t = pairTarget ctx w r ∧ PairInv k ctx₀ (bio.biSector / 8)
      (newLife (mapRequest fresh ctx₀ bio) .flightq)
      (newLife (mapRequest fresh' ctx₀ bio') .flightq) (segmentByte bio.biIoVec) ctx w r := by
  have hlt := hi.config.blocks
  have hentry : afsGetMapEntry ctx₀.config (mapRequest fresh' ctx₀ bio').block =
      afsGetMapEntry ctx₀.config (bio.biSector / 8) := by
    show afsGetMapEntry ctx₀.config (bio'.biSector / 8 % 2 ^ 32) = _
    rw [Nat.mod_eq_of_lt (by omega), hblock]
  induction hr with
  | start =>
    exact ⟨_, _, _, rfl, .before rfl (SameInstance.refl _) hp ⟨sound_newLife rfl, Or.inl rfl⟩⟩
  | @next run t ev t' _ hstep ih =>
    simp only [List.forall_mem_append, List.forall_mem_singleton] at hsm hun
    obtain ⟨ctx, w, r, rfl, hinv⟩ := ih hsm.1 hun.1
    obtain ⟨i, a, rfl, ha⟩ := hsm.2
    obtain ⟨hunw, hunr⟩ := hun.2 w r rfl
    obtain ⟨-, hcase⟩ := Target.next_cases hstep
    rcases hcase with ⟨_, _, _, _, _, hev, -⟩ | ⟨_, _, hev, -⟩ |
      ⟨i', a', o, l, ctx', l', hev, hl, hs, rfl⟩ | ⟨hev, -⟩
    · cases hev
    · cases hev
    · obtain ⟨rfl, rfl⟩ := TargetEvent.step.inj hev
      have hlen : i < 2 := (List.getElem?_eq_some_iff.1 hl).1
      interval_cases i
      · obtain ⟨rfl, rfl⟩ := Prod.mk.inj (Option.some.inj hl)
        exact ⟨ctx', l', r, rfl, hinv.writeStep hi hk hbio hop hwhole hb hs ha
          fun e he => hunw e (by rw [he])⟩
      · obtain ⟨rfl, rfl⟩ := Prod.mk.inj (Option.some.inj hl)
        exact ⟨ctx', w, l', rfl, hinv.readStep hi hb rfl hop' hentry hs ha
          fun he => hunr (by rw [he])⟩
    · cases hev

/-- **The write is not lost** in any run in which no rebuild meets it: when both requests have
completed, a read of the block returns its data. -/
theorem write_not_lost (hi : Instance ctx₀) (hp : Placed ctx₀) (hk : ∀ n, k.kmalloc n = true)
    (hbio : bio.InBlock) (hop : bio.biOp = .write) (hwhole : bio.Whole)
    (hb : bio.biSector / 8 < ctx₀.config.numBlocks) (hop' : bio'.biOp = .read)
    (hblock : bio'.biSector / 8 = bio.biSector / 8)
    (hr : PairRun k g ctx₀ (newLife (mapRequest fresh ctx₀ bio) .flightq)
      (newLife (mapRequest fresh' ctx₀ bio') .flightq) run ctx' w' r')
    (hun : ∀ m ∈ run, Unraced m) (hw : w'.Completed) (hr' : r'.Completed) :
    ReadsBack k g ctx' (bio.biSector / 8) (segmentByte bio.biIoVec) := by
  obtain ⟨ctx, w, r, heq, hinv⟩ := hr.steps.pairInv hi hp hk hbio hop hwhole hb hop' hblock
    hr.smooth hun
  simp only [pairTarget, Target.mk.injEq, List.cons.injEq, Prod.mk.injEq, true_and, and_true] at heq
  obtain ⟨rfl, rfl, rfl⟩ := heq
  cases hinv with
  | abandoned read => exact absurd hr'.2 read.2
  | before write =>
    have := hw.1.1
    simp [write, newLife] at this
  | during _ _ _ write sound =>
    rcases hw.1.1 with hq | hq
    · exact absurd hw.1.2 (sound.2.waiting hq).1
    · have := write.phase
      simp [hq] at this
  | after _ same stored =>
    rw [← same.config] at stored
    exact stored.readsBack (hi.of_sameInstance same) hk (same.config ▸ hb) g

/-! ### Runs of the two, step by step -/

theorem PairRun.nil (k : Kernel) (g : GfCtx) (ctx : AfsPrivate) (w r : Life) :
    PairRun k g ctx w r [] ctx w r := ⟨.start, by simp⟩

theorem PairRun.writeStep {w₁ w₂ r₁ : Life} (h : PairRun k g ctx w r run ctx₁ w₁ r₁)
    (hs : w₁.step k g ctx₁ a = some (ctx', w₂)) (ha : a.Smooth) :
    PairRun k g ctx w r (run ++ [(pairTarget ctx₁ w₁ r₁, .step 0 a)]) ctx' w₂ r₁ := by
  refine ⟨.next h.steps (Target.next_step rfl rfl hs), ?_⟩
  simp only [List.forall_mem_append, List.forall_mem_singleton]
  exact ⟨h.smooth, 0, a, rfl, ha⟩

theorem PairRun.readStep {w₁ r₁ r₂ : Life} (h : PairRun k g ctx w r run ctx₁ w₁ r₁)
    (hs : r₁.step k g ctx₁ a = some (ctx', r₂)) (ha : a.Smooth) :
    PairRun k g ctx w r (run ++ [(pairTarget ctx₁ w₁ r₁, .step 1 a)]) ctx' w₁ r₂ := by
  refine ⟨.next h.steps (Target.next_step rfl rfl hs), ?_⟩
  simp only [List.forall_mem_append, List.forall_mem_singleton]
  exact ⟨h.smooth, 1, a, rfl, ha⟩

theorem PairRun.write {w₁ w₂ r₁ : Life} {acts : List Act} (hr : Runs k g ctx₁ w₁ acts ctx' w₂)
    (hs : ∀ a ∈ acts, a.Smooth) (h : PairRun k g ctx w r run ctx₁ w₁ r₁) :
    ∃ run', PairRun k g ctx w r (run ++ run') ctx' w₂ r₁ ∧
      ∀ m ∈ run', ∃ a ∈ acts, m.2 = .step 0 a := by
  obtain ⟨run', hrun, hm⟩ := h.steps.runs (i := 0) (o := .map) (l := w₁) rfl rfl hr
  refine ⟨run', ⟨hrun, List.forall_mem_append.2 ⟨h.smooth, fun m hmem => ?_⟩⟩, hm⟩
  obtain ⟨a, ha, heq⟩ := hm m hmem
  exact ⟨0, a, heq, hs a ha⟩

theorem PairRun.read {w₁ r₁ r₂ : Life} {acts : List Act} (hr : Runs k g ctx₁ r₁ acts ctx' r₂)
    (hs : ∀ a ∈ acts, a.Smooth) (h : PairRun k g ctx w r run ctx₁ w₁ r₁) :
    ∃ run', PairRun k g ctx w r (run ++ run') ctx' w₁ r₂ := by
  obtain ⟨run', hrun, hm⟩ := h.steps.runs (i := 1) (o := .map) (l := r₁) rfl rfl hr
  refine ⟨run', hrun, List.forall_mem_append.2 ⟨h.smooth, fun m hmem => ?_⟩⟩
  obtain ⟨a, ha, heq⟩ := hm m hmem
  exact ⟨1, a, heq, hs a ha⟩

/-- The first write to a block takes the blocks that `acquire_block` gives, and leaves the
checksums of the entry until its last completion. -/
theorem writeRequestMap_acquired {e : Entropy} {bs random : List ℕ} {v : BitVector}
    {s : AfsPrivate × AfsMapRequest} (hi : Instance ctx)
    (hentry : afsGetMapEntry ctx.config req.block = afsGetMapEntry ctx.config b)
    (h0 : carrierPtr ctx.afsMap (loadRequest ctx req).mapEntry 0 = afsInvalidBlock)
    (hacq : acquireBlocks ctx.passiveFs 4 ctx.vector ctx.random = some (bs, v, random))
    (h : writeRequestMap k g e ctx req = some (.next s)) :
    s.1.vector = v ∧ s.1.random = random ∧ (∀ j < 4, bs[j]? = some (s.2.blockNums j)) ∧
      ∀ j < 4, tupleChecksum s.1.afsMap s.2.mapEntry j =
        tupleChecksum ctx.afsMap s.2.mapEntry j := by
  have hn := hi.carriers
  obtain ⟨ctx₁, req₁, henc₁, hcase⟩ := writeRequestMap_started h
  obtain ⟨map, encoder, carriers, rfl, rfl, htup⟩ := sameTuples_encodeRequest hn henc₁
  rcases hcase with ⟨-, hne, -⟩ | ⟨bs', v', random', hacq', hlen, rfl⟩
  · exact absurd h0 hne
  rw [hn, hacq, Option.some.injEq, Prod.mk.injEq, Prod.mk.injEq] at hacq'
  obtain ⟨rfl, rfl, rfl⟩ := hacq'
  obtain ⟨ps, hacq⟩ := acquireBlocks_spec hacq
  rw [hn] at hlen
  obtain ⟨-, hnums⟩ := pointed_of_acquired (b := b) (s := acquiredState { ctx with afsMap := map }
    { loadRequest ctx req with encoder, carrierBlocks := carriers } bs v random) hi hacq hlen rfl
    hentry htup rfl
  refine ⟨rfl, rfl, hnums, fun j hj => le_congr fun t ht => ?_⟩
  refine (setPtrs_out fun i hi' => ?_).trans (htup _ ?_)
  · simp only [acquiredState]
    omega
  · simp only [acquiredState]
    omega

/-- **A rebuild that started between the map update and the carriers of a write** ends after it:
the entry keeps the blocks of the rebuild, with its copies. -/
theorem PairRun.overtaken {config config' : AfsConfig} {s : AfsPrivate × AfsMapRequest}
    (h : PairRun k g ctx w r run s.1 (beginWritePages l false config req)
      (beginWritePages l' true config' s.2))
    (hl : (beginWritePages l false config req).Sound)
    (hl' : (beginWritePages l' true config' s.2).Sound) (hbio : req.hasBio = true)
    (hbio' : s.2.hasBio = true) (hi : Instance ctx₁)
    (hpt : Pointed ctx₁ b s) (hcopies : ∀ j < 4, Agree (s.2.carrierBlocks j) 0 d 0 4096)
    (hpages : PagesApart ctx₁.passiveFs.dataStartOff req)
    (hentry : req.mapEntry = afsGetMapEntry ctx₁.config b) :
    ∃ run' ctx' w' r', PairRun k g ctx w r run' ctx' w' r' ∧ w'.Completed ∧ r'.Completed ∧
      SameInstance ctx₁ ctx' ∧ Copied ctx' (afsGetMapEntry ctx₁.config b) d := by
  have hn : s.1.config.numCarrierBlocks = 4 := by rw [hpt.same.config]; exact hi.carriers
  rw [← hpt.same.passiveFs] at hpages
  -- the write
  obtain ⟨acts, ctx₂, w₂, hr, hs, hq, -⟩ := Writing.reaches (k := k) (g := g) hn hpages _ s.1 _
    (Nat.lt_succ_self _) (Writing.begin l false config s.1 req) hl hbio
  obtain ⟨l₂, ctx₃, hw, -, hctx₂, hw₂⟩ := Writing.run hr hs hn hpages
    (Writing.begin l false config s.1 req) hl hq
  obtain ⟨run₂, h₂, -⟩ := PairRun.write hr hs h
  have hsame := hr.sameInstance
  -- the rebuild, which finds its pointers in the map
  have hpt₂ : Pointed ctx₂ b (ctx₂, s.2) := by
    refine ⟨SameInstance.refl _, rfl, ?_, fun j hj => ?_, hpt.valid, fun _ _ => rfl⟩
    · rw [hsame.config, hpt.same.config]
      exact hpt.entry
    · rw [hctx₂]
      show carrierPtr (storeChecksums s.1.afsMap req 4) s.2.mapEntry j = _
      rw [← hpt.nums j hj, hpt.entry, ← hentry]
      exact carrierPtr_storeChecksums
  have hn₂ : ctx₂.config.numCarrierBlocks = 4 := by rw [hsame.config]; exact hn
  have hcopies₂ : PagesApart ctx₂.passiveFs.dataStartOff s.2 := pagesApart_of_copies hcopies
  obtain ⟨acts', ctx₄, r₂, hr', hs', hq', -⟩ := Writing.reaches (k := k) (g := g) hn₂ hcopies₂ _
    ctx₂ _ (Nat.lt_succ_self _) (Writing.begin l' true config' ctx₂ s.2) hl' hbio'
  obtain ⟨l₃, ctx₅, hw', harr, hctx₄, hr₂⟩ := Writing.run hr' hs' hn₂ hcopies₂
    (Writing.begin l' true config' ctx₂ s.2) hl' hq'
  obtain ⟨run₃, h₃⟩ := PairRun.read hr' hs' h₂
  have hcop := hpt₂.copied hw' harr hcopies
  rw [hsame.config, hpt.same.config] at hcop
  refine ⟨_, ctx₄, w₂, r₂, h₃, ⟨hq, ?_⟩, ⟨hq', ?_⟩,
    (hpt.same.trans hsame).trans hr'.sameInstance, hctx₄ ▸ hcop⟩
  · rw [hw₂]
    simp [afsReqClean]
  · rw [hr₂]
    simp [afsReqClean]

/-- **A read that meets the first write to its block** can find the new pointers with the old pages
and checksums. Then it leaves copies of what these pages decode to. -/
theorem race_exists {bs bs' random random' : List ℕ} {v v' : BitVector} (hi : Instance ctx₀)
    (hp : Placed ctx₀) (hk : ∀ n, k.kmalloc n = true) (hop : bio.biOp = .write)
    (hb : bio.biSector / 8 < ctx₀.config.numBlocks) (hop' : bio'.biOp = .read)
    (hblock : bio'.biSector / 8 = bio.biSector / 8)
    (h0 : entryPtr ctx₀ (bio.biSector / 8) 0 = afsInvalidBlock)
    (hacq : acquireBlocks ctx₀.passiveFs 4 ctx₀.vector ctx₀.random = some (bs, v, random))
    (hlen : bs.length = 4)
    (hacq' : acquireBlocks ctx₀.passiveFs 4 v random = some (bs', v', random'))
    (hlen' : bs'.length = 4)
    (hsum : tupleChecksum ctx₀.afsMap (afsGetMapEntry ctx₀.config (bio.biSector / 8)) 0 ≠
      (cityhash32To16 (devicePage ctx₀.disk ctx₀.passiveFs.dataStartOff (bs.getD 0 0)) 4096).toNat)
    (fresh fresh' : AfsMapRequest) (g : GfCtx) :
    ∃ run ctx' w' r' d er, PairRun k g ctx₀ (newLife (mapRequest fresh ctx₀ bio) .flightq)
        (newLife (mapRequest fresh' ctx₀ bio') .flightq) run ctx' w' r' ∧
      w'.Completed ∧ r'.Completed ∧ SameInstance ctx₀ ctx' ∧
      Copied ctx' (afsGetMapEntry ctx₀.config (bio.biSector / 8)) d ∧
      Agree d 0 (carriersData k ctx₀.encodingType (ivWords ctx₀.passphraseHash) er fun j =>
        devicePage ctx₀.disk ctx₀.passiveFs.dataStartOff (bs.getD j 0)) 0 4096 := by
  have hn := hi.carriers
  have hlt := hi.config.blocks
  have hblk : (flightRequest fresh ctx₀ bio).block = bio.biSector / 8 :=
    block_flightRequest (by omega)
  have hentry : afsGetMapEntry ctx₀.config (flightRequest fresh ctx₀ bio).block =
    afsGetMapEntry ctx₀.config (bio.biSector / 8) := by rw [hblk]
  -- the write takes its blocks
  have hcan : CanMap ctx₀ (loadRequest ctx₀ (flightRequest fresh ctx₀ bio)).mapEntry := by
    show CanMap ctx₀ (afsGetMapEntry ctx₀.config (flightRequest fresh ctx₀ bio).block)
    rw [hentry, CanMap, if_pos (show carrierPtr ctx₀.afsMap _ 0 = _ from h0)]
    exact ⟨bs, v, random, by rw [hn]; exact hacq, by rw [hn]; exact hlen⟩
  obtain ⟨s, hmap⟩ := writeRequestMap_total hk hn
    (rfl : (flightRequest fresh ctx₀ bio).state = .flight) hcan g zeroEntropy
  obtain ⟨hm, -, -⟩ := writeRequestMap_mapped hi hp hk hb hentry rfl hmap
  obtain ⟨hv, hrandom, hnums, hsums⟩ := writeRequestMap_acquired hi hentry
    (show carrierPtr ctx₀.afsMap (afsGetMapEntry ctx₀.config _) 0 = _ from hentry ▸ h0) hacq hmap
  have hstep := Life.step_startWrite hop hmap
  have hsound := (lifeStep_of_step hstep).sound hn (sound_newLife rfl) trivial
    fun hp => by simp [newLife] at hp
  -- the read takes the new pointers, and finds the old pages
  have hinst : Instance s.1 := hi.of_sameInstance hm.same
  have hptr : ∀ j < 4, entryPtr s.1 (bio.biSector / 8) j = bs.getD j 0 := by
    intro j hj
    rw [hm.entryPtr_eq hj, List.getD_eq_getElem?_getD, hnums j hj]
    rfl
  have hpage : ∀ j < 4, entryPage s.1 (afsGetMapEntry s.1.config (bio.biSector / 8)) j =
      devicePage ctx₀.disk ctx₀.passiveFs.dataStartOff (bs.getD j 0) := by
    intro j hj
    rw [← hptr j hj, entryPage, hm.disk, hm.same.passiveFs]
    rfl
  have hval : entryPtr s.1 (bio'.biSector / 8) 0 ≠ afsInvalidBlock := by
    rw [hblock, hm.entryPtr_eq (by norm_num)]
    exact hm.valid 0 (by norm_num)
  obtain ⟨acts, l₂, ctx₁, req, hr, hs, -, hl₂, hp₂, hbio₂, hdec, ⟨map, rfl⟩, hreq, hflag, hdata⟩ :=
    read_reaches hinst hk hop' (by rw [hblock, hm.same.config]; exact hb) hval fresh' g
  rw [hblock] at hreq hflag hdata
  have hdam : Damaged s.1 (afsGetMapEntry s.1.config (bio.biSector / 8)) := by
    refine ⟨0, by norm_num, ?_⟩
    rw [hpage 0 (by norm_num), hm.same.config, ← hm.entry, hsums 0 (by norm_num), hm.entry]
    exact hsum
  -- its rebuild takes other blocks
  have hinst₁ : Instance { s.1 with afsMap := map } := hinst.of_sameInstance sameInstance_of_eq
  have hcan₁ : CanAcquire { s.1 with afsMap := map } := by
    refine ⟨bs', v', random', ?_, ?_⟩
    · rw [hinst₁.carriers]
      show acquireBlocks s.1.passiveFs 4 s.1.vector s.1.random = _
      rw [hv, hrandom, hm.same.passiveFs]
      exact hacq'
    · rw [hinst₁.carriers]
      exact hlen'
  obtain ⟨s₂, hmap₂⟩ := rebuildBlocksMap_total hk hinst₁.carriers hcan₁ req g zeroEntropy
  obtain ⟨hpt, -, hcopies, -⟩ := rebuildBlocksMap_mapped hinst₁ hreq hmap₂
  have hn₂ : s₂.1.config.numCarrierBlocks = 4 := by rw [hpt.same.config]; exact hinst₁.carriers
  have hrebuild := Runs.startRebuild hp₂ hdec (hflag.2 hdam) hbio₂ hmap₂
  have hbio' : s₂.2.hasBio = true := hrebuild.hasBio.trans hbio₂
  rw [hm.same.mapRequest] at hr
  obtain ⟨run₂, h₂⟩ := PairRun.read hr hs ((PairRun.nil k g ctx₀ _
    (newLife (mapRequest fresh' ctx₀ bio') .flightq)).writeStep hstep trivial)
  obtain ⟨run₃, h₃⟩ := PairRun.read hrebuild (by simp [Act.Smooth]) h₂
  have hpages : PagesApart s.1.passiveFs.dataStartOff s.2 := by
    rw [hm.same.passiveFs]
    exact hm.pagesApart hi hb
  obtain ⟨run', ctx', w', r', h', hw', hr', hsame, hcop⟩ := h₃.overtaken
    hsound (hl₂.beginWritePages (.inl hp₂) hn₂) (writeRequestMap_bio hmap).2 hbio' hinst₁ hpt hcopies hpages
    (hm.entry.trans (by rw [hm.same.config]))
  have hconf : afsGetMapEntry s.1.config (bio.biSector / 8) =
    afsGetMapEntry ctx₀.config (bio.biSector / 8) := by rw [hm.same.config]
  refine ⟨run', ctx', w', r', req.dataBlock,
    checkedNumbers s.1 (afsGetMapEntry s.1.config (bio.biSector / 8)), h', hw', hr',
    hm.same.trans (SameInstance.trans sameInstance_of_eq hsame), hconf ▸ hcop, hdata.trans ?_⟩
  rw [decodedData, hm.same.encodingType, hm.same.passphraseHash]
  exact carriersData_congr fun j hj => by rw [hpage j (by omega)]; exact Agree.refl _ _ _

theorem LifeStep.left_flightq (h : LifeStep k g ctx l a ctx' l') (hp : l.phase ≠ .flightq) :
    l'.phase ≠ .flightq := by
  cases h with
  | complete => exact hp
  | submitRead =>
    simp only [submitted]
    split_ifs <;> simp
  | submitWrite =>
    simp only [submitted]
    split_ifs <;> simp
  | answer phase => exact absurd phase hp
  | startRead phase => exact absurd phase hp
  | refuse phase => exact absurd phase hp
  | startWrite phase => exact absurd phase hp
  | unknown phase => exact absurd phase hp
  | _ => simp [afsReqClean, beginReadPages, beginWritePages]

theorem Runs.not_flight {acts : List Act} (h : Runs k g ctx l acts ctx' l')
    (hp : l.phase ≠ .flightq) (e : Entropy) : Act.flight e ∉ acts := by
  induction h with
  | nil => simp
  | @cons ctx ctx₁ ctx₂ l l₁ l₂ a as step _ ih =>
    rw [List.mem_cons, not_or]
    refine ⟨?_, ih ((lifeStep_of_step step).left_flightq hp)⟩
    rintro rfl
    simp [Life.step, hp] at step

end Pair

end

/-! ### The first write to a block of a new instance -/

/-- A new instance with blocks for a write and a rebuild, on a device of zeros. -/
structure RaceInstance (ctx₀ : AfsPrivate) (bs : List ℕ) : Prop where
  built : afsCtr (constKernel 1) 1 smallArgs 128 256 smallFs (fun _ => 0)
    [2, 3, 4, 5, 6, 7, 8, 9, 10] = some (.ok ctx₀)
  instance_ : Instance ctx₀
  placed : Placed ctx₀
  unmapped : entryPtr ctx₀ 0 0 = afsInvalidBlock
  blocks : 0 < ctx₀.config.numBlocks
  encoding : ctx₀.encodingType = .aontRs
  acquire : ∃ v random, acquireBlocks ctx₀.passiveFs 4 ctx₀.vector ctx₀.random =
    some (bs, v, random) ∧ bs.length = 4 ∧
    ∃ bs' v' random', acquireBlocks ctx₀.passiveFs 4 v random = some (bs', v', random') ∧
      bs'.length = 4
  checksum : tupleChecksum ctx₀.afsMap (afsGetMapEntry ctx₀.config 0) 0 ≠
    (cityhash32To16 (devicePage ctx₀.disk ctx₀.passiveFs.dataStartOff (bs.getD 0 0)) 4096).toNat

theorem exists_raceInstance : ∃ ctx₀, RaceInstance ctx₀ [3, 4, 5, 6] := by
  have hbuilt : (builtContext (afsCtr (constKernel 1) 1 smallArgs 128 256 smallFs (fun _ => 0)
      [2, 3, 4, 5, 6, 7, 8, 9, 10])).map (fun ctx =>
        ((acquireBlocks ctx.passiveFs 4 ctx.vector ctx.random).map fun s =>
          (s.1, (acquireBlocks ctx.passiveFs 4 s.2.1 s.2.2).map (·.1.length)),
        ctx.config.numBlocks, ctx.encodingType,
        tupleChecksum ctx.afsMap (afsGetMapEntry ctx.config 0) 0,
        cityhash32To16 (devicePage ctx.disk ctx.passiveFs.dataStartOff 3) 4096)) =
      some (some ([3, 4, 5, 6], some 4), 16, .aontRs, 0, 46263) := by
    decide +kernel
  obtain ⟨ctx₀, hctr, h⟩ := exists_of_builtContext hbuilt
  simp only [Prod.mk.injEq, Option.map_eq_some_iff] at h
  obtain ⟨⟨⟨bs, v, random⟩, hacq, rfl, ⟨⟨bs', v', random'⟩, hacq', hlen'⟩⟩, hblocks, henc, hsum,
    hhash⟩ := h
  obtain ⟨hinst, hunmapped⟩ := unmapped_of_create (rfl : smallArgs.instanceType = .create)
    (by decide : smallFs.freeList.Pairwise (· < ·)) (by decide) hctr
  have hpos : 0 < ctx₀.config.numBlocks := by rw [hblocks]; norm_num
  have hholds : Holds (constKernel 1) ctx₀ fun _ _ => 0 := Holds.of_unmapped hinst hunmapped
  refine ⟨ctx₀, hctr, hinst, hholds.placed, hunmapped 0 hpos 0 (by norm_num), hpos, henc,
    ⟨v, random, hacq, rfl, bs', v', random', hacq', hlen'⟩, ?_⟩
  rw [hsum, show ([3, 4, 5, 6].getD 0 0 : ℕ) = 3 from rfl, hhash]
  decide

/-- **A read that starts together with the first write to its block** makes the write disappear. -/
theorem read_loses_write :
    ¬ ∀ (k : Kernel) (g : GfCtx) (ctx₀ ctx' : AfsPrivate) (bio bio' : Bio)
      (fresh fresh' : AfsMapRequest) (run : List (Target × TargetEvent)) (w' r' : Life),
      Instance ctx₀ → Placed ctx₀ → (∀ n, k.kmalloc n = true) → bio.InBlock →
      bio.biOp = .write → bio.Whole → bio.biSector / 8 < ctx₀.config.numBlocks →
      bio'.biOp = .read → bio'.biSector / 8 = bio.biSector / 8 →
      PairRun k g ctx₀ (newLife (mapRequest fresh ctx₀ bio) .flightq)
        (newLife (mapRequest fresh' ctx₀ bio') .flightq) run ctx' w' r' →
      w'.Completed → r'.Completed →
      ReadsBack k g ctx' (bio.biSector / 8) (segmentByte bio.biIoVec) := by
  intro hall
  obtain ⟨ctx₀, hrace⟩ := exists_raceInstance
  have hi := hrace.instance_
  have hk : ∀ n, (constKernel 1).kmalloc n = true := fun _ => rfl
  obtain ⟨v, random, hacq, hlen, bs', v', random', hacq', hlen'⟩ := hrace.acquire
  -- what a read returns after the race does not depend on the data of the write
  obtain ⟨lost, hlost⟩ : ∃ lost : Mem, lost = carriersData (constKernel 1) .aontRs
      (ivWords ctx₀.passphraseHash) shareNumbers fun _ => carriersData (constKernel 1) .aontRs
        (ivWords ctx₀.passphraseHash) shareNumbers fun j =>
          devicePage ctx₀.disk ctx₀.passiveFs.dataStartOff ([3, 4, 5, 6].getD j 0) := ⟨_, rfl⟩
  obtain ⟨x, hx⟩ := exists_apply_ne Function.injective_id (lost 0)
  have hop : (blockBio .write 0 fun _ => x).biOp = .write := rfl
  have hop' : (blockBio .read 0 fun _ => 0).biOp = .read := rfl
  have h0 : (blockBio .write 0 fun _ => x).biSector / 8 = 0 := by simp [blockBio]
  have hr0 : (blockBio .read 0 fun _ => 0).biSector / 8 = 0 := by simp [blockBio]
  have hb : (blockBio .write 0 fun _ => x).biSector / 8 < ctx₀.config.numBlocks := by
    rw [h0]
    exact hrace.blocks
  have hunmapped : entryPtr ctx₀ ((blockBio .write 0 fun _ => x).biSector / 8) 0 =
      afsInvalidBlock := by
    rw [h0]
    exact hrace.unmapped
  have hsum : tupleChecksum ctx₀.afsMap
      (afsGetMapEntry ctx₀.config ((blockBio .write 0 fun _ => x).biSector / 8)) 0 ≠
      (cityhash32To16 (devicePage ctx₀.disk ctx₀.passiveFs.dataStartOff
        ([3, 4, 5, 6].getD 0 0)) 4096).toNat := by
    rw [h0]
    exact hrace.checksum
  obtain ⟨run, ctx', w', r', d, er, hrun, hw, hr, hsame, hcop, hd⟩ := race_exists
    hi hrace.placed hk hop hb hop' (hr0.trans h0.symm) hunmapped hacq hlen hacq' hlen' hsum
    zeroRequest zeroRequest gfContextZero
  have hback := hall _ _ _ _ _ _ _ _ _ _ _ hi hrace.placed hk (inBlock_blockBio .write 0 _) hop
    ⟨rfl, rfl⟩ hb hop' (hr0.trans h0.symm) hrun hw hr
  have hi' := hi.of_sameInstance hsame
  rw [h0] at hcop hback
  rw [← hsame.config] at hcop
  obtain ⟨hagree, -⟩ := (readsBack_iff hi' hk (hsame.config ▸ hrace.blocks)
    (hcop.valid 0 (by norm_num)) gfContextZero).1 hback
  have hdec : decodedData (constKernel 1) ctx' (afsGetMapEntry ctx'.config 0) 0 = lost 0 := by
    rw [decodedData, hsame.encodingType, hsame.passphraseHash, hrace.encoding, hlost]
    rw [hrace.encoding] at hd
    exact carriersData_congr (fun j hj => (hcop.pages j (by omega)).trans hd) 0 (by norm_num)
  have hbyte := hagree 0 (by norm_num)
  rw [Nat.zero_add, hdec] at hbyte
  exact hx hbyte.symm

/-- A read that is answered before the write starts leaves it alone. -/
theorem write_after_read :
    ∃ ctx₀ run ctx' w' r', PairRun (constKernel 1) gfContextZero ctx₀
        (newLife (mapRequest zeroRequest ctx₀ (blockBio .write 0 UInt8.ofNat)) .flightq)
        (newLife (mapRequest zeroRequest ctx₀ (blockBio .read 0 fun _ => 0)) .flightq)
        run ctx' w' r' ∧ w'.Completed ∧ r'.Completed ∧
      ReadsBack (constKernel 1) gfContextZero ctx' 0
        (segmentByte (blockBio .write 0 UInt8.ofNat).biIoVec) := by
  obtain ⟨ctx₀, hrace⟩ := exists_raceInstance
  have hi := hrace.instance_
  have hk : ∀ n, (constKernel 1).kmalloc n = true := fun _ => rfl
  have hop : (blockBio .write 0 UInt8.ofNat).biOp = .write := rfl
  have hop' : (blockBio .read 0 fun _ => 0).biOp = .read := rfl
  have h0 : (blockBio .write 0 UInt8.ofNat).biSector / 8 = 0 := by simp [blockBio]
  have hr0 : (blockBio .read 0 fun _ => 0).biSector / 8 = 0 := by simp [blockBio]
  have hb : (blockBio .write 0 UInt8.ofNat).biSector / 8 < ctx₀.config.numBlocks := by
    rw [h0]
    exact hrace.blocks
  have hcan : CanMap ctx₀ (afsGetMapEntry ctx₀.config 0) := by
    obtain ⟨v, random, hacq, hlen, -⟩ := hrace.acquire
    rw [CanMap, if_pos (show carrierPtr ctx₀.afsMap _ 0 = _ from hrace.unmapped)]
    exact ⟨_, v, random, by rw [hi.carriers]; exact hacq, by rw [hi.carriers]; exact hlen⟩
  -- the read is answered with zeros
  have hread : (flightRequest zeroRequest ctx₀ (blockBio .read 0 fun _ => 0)).block = 0 :=
    (block_flightRequest (by rw [hr0]; norm_num)).trans hr0
  have hanswer := Life.step_answer (k := constKernel 1) (g := gfContextZero) (e := zeroEntropy) hop'
    (by rw [hread]; exact hrace.unmapped)
  have hrun₁ := (PairRun.nil (constKernel 1) gfContextZero ctx₀ (newLife (mapRequest zeroRequest
    ctx₀ (blockBio .write 0 UInt8.ofNat)) .flightq) _).readStep hanswer trivial
  -- the write runs alone
  obtain ⟨acts, ctx', w', hr, hs, hq, hw⟩ := write_exists hi hrace.placed hk hop hb
    (by rw [h0]; exact hcan) zeroRequest gfContextZero zeroEntropy
  have hended : LogEvent.endio ∈ w'.log := by
    rcases write_run hr hs hi.carriers hop rfl (fun e s hmap => (writeRequestMap_mapped hi
      hrace.placed hk hb (congrArg _ (block_flightRequest (by rw [h0]; norm_num))) rfl
      hmap).1.pagesApart hi hb) hq with ⟨_, _, _, _, _, _, _, _, rfl⟩ | ⟨_, _, _, _, _, rfl⟩
    · simp [afsReqClean]
    · simp [afsReqClean]
  cases hr with
  | @cons _ ctx₁ _ _ w₁ _ _ _ step rest =>
    rw [List.forall_mem_cons] at hs
    have hleft : w₁.phase ≠ .flightq := by
      obtain ⟨_, -, ⟨s, -, -, rfl⟩ | ⟨code, s, -, -, rfl⟩⟩ := Life.step_write step rfl rfl hop
      · simp [beginWritePages]
      · simp [afsReqClean]
    obtain ⟨run, hrun, hmem⟩ := PairRun.write rest hs.2 (hrun₁.writeStep step hs.1)
    refine ⟨ctx₀, _, ctx', w', _, hrun, ⟨hq, hended⟩, ⟨quiet_afsReqClean rfl, by simp [afsReqClean]⟩,
      ?_⟩
    rw [← h0]
    refine write_not_lost hi hrace.placed hk (inBlock_blockBio .write 0 _) hop ⟨rfl, rfl⟩ hb hop'
      (hr0.trans h0.symm) hrun ?_ ⟨hq, hended⟩ ⟨quiet_afsReqClean rfl, by simp [afsReqClean]⟩
    simp only [List.nil_append, List.forall_mem_append, List.forall_mem_singleton]
    refine ⟨⟨fun w r hl => ?_, fun w r hl => ?_⟩, fun m hm w r hl => ?_⟩
    · exact ⟨fun e he => by simp at he, fun he => by simp at he⟩
    · simp only [pairTarget, List.cons.injEq, Prod.mk.injEq, true_and, and_true] at hl
      obtain ⟨rfl, rfl⟩ := hl
      have hwrite : (flightRequest zeroRequest ctx₀ (blockBio .write 0 UInt8.ofNat)).block = 0 :=
        (block_flightRequest (by rw [h0]; norm_num)).trans h0
      refine ⟨fun e _ => ⟨Or.inr rfl, ?_⟩, fun he => by simp at he⟩
      show CanMap ctx₀ (afsGetMapEntry ctx₀.config
        (flightRequest zeroRequest ctx₀ (blockBio .write 0 UInt8.ofNat)).block)
      rw [hwrite]
      exact hcan
    · obtain ⟨a, ha, heq⟩ := hmem m hm
      rw [heq]
      refine ⟨fun e he => ?_, fun he => by cases he⟩
      obtain ⟨-, rfl⟩ := TargetEvent.step.inj he
      exact absurd ha (rest.not_flight hleft e)

end Artifice
