import Artifice.Engine.Alone

/-!
What the caller hears of a failure. No step of a life sets the status of the bio, so that every bio
that is ended is ended with success.

A write that is ended after no failure has its carriers on the device and its entry points at them,
as long as nothing else touches its entry and its blocks between its steps.
-/

namespace Artifice

open Lib

/-- A step that fails: a carrier bio cannot be set up, it completes with an error, or there is no
block for some carrier of a write or of a rebuild. -/
def Failing (m : Moment) : Prop :=
  (∃ code ≠ 0, m.act = .submit code) ∨ (∃ i, ∃ status ≠ 0, m.act = .complete i status) ∨
  (m.life.req.bio.biOp = .write ∧ (∃ e, m.act = .flight e) ∧
    ¬ CanMap m.ctx (afsGetMapEntry m.ctx.config m.life.req.block)) ∨ NoRebuild m

/-- All carriers of a write are on the device, and its entry points at them: those that its first
step has encoded, at the blocks that it has taken for them. -/
def CarriersStored (k : Kernel) (g : GfCtx) (run : List Moment) (ctx' : AfsPrivate) : Prop :=
  ∃ m ∈ run, ∃ e s, m.act = .flight e ∧
    writeRequestMap k g e m.ctx { m.life.req with state := .flight } = some (.next s) ∧
    ∀ j < 4,
      carrierPtr ctx'.afsMap (afsGetMapEntry m.ctx.config m.life.req.block) j = s.2.blockNums j ∧
      Agree (devicePage ctx'.disk ctx'.passiveFs.dataStartOff (s.2.blockNums j)) 0
        (s.2.carrierBlocks j) 0 4096

/-- **Errors reach the caller**: after a failing step the bio is ended with an error, and a write
has its carriers stored after the step that ends its bio with success. -/
def ErrorsReach (k : Kernel) (g : GfCtx) (bio : Bio) (run : List Moment) (l : Life) : Prop :=
  ((∃ m ∈ run, Failing m) → LogEvent.endio ∈ l.log ∧ l.req.bio.biStatus ≠ 0) ∧
  (bio.biOp = .write → ∀ m ∈ run, ∀ ctx' l', m.life.step k g m.ctx m.act = some (ctx', l') →
    LogEvent.endio ∉ m.life.log → LogEvent.endio ∈ l'.log → l'.req.bio.biStatus = 0 →
    CarriersStored k g run ctx')

/-- The blocks that a write can take are at different places of the device: those of its entry, and
those of the free list. -/
structure PlacesApart (ctx : AfsPrivate) (entry : ℕ) : Prop where
  bound : ∀ b ∈ ctx.passiveFs.blockList, b < 2 ^ 32
  listed : ∀ p q b b' : ℕ, p ≠ q → ctx.passiveFs.blockList[p]? = some b →
    ctx.passiveFs.blockList[q]? = some b' → Apart ctx.passiveFs.dataStartOff b b'
  mapped : (∀ j < 4, carrierPtr ctx.afsMap entry j ≠ afsInvalidBlock) → ∀ i < 4, ∀ j < 4, i ≠ j →
    Apart ctx.passiveFs.dataStartOff (carrierPtr ctx.afsMap entry i) (carrierPtr ctx.afsMap entry j)

/-- Between two steps of a request nothing else changes the pointers of its entry, or the pages that
they point at. -/
def LeftAlone (k : Kernel) (g : GfCtx) (m m' : Moment) : Prop :=
  ∀ ctx' l', m.life.step k g m.ctx m.act = some (ctx', l') → SameInstance ctx' m'.ctx ∧
    ∀ j < 4, carrierPtr m'.ctx.afsMap l'.req.mapEntry j =
        carrierPtr ctx'.afsMap l'.req.mapEntry j ∧
      Agree (devicePage m'.ctx.disk ctx'.passiveFs.dataStartOff
          (carrierPtr ctx'.afsMap l'.req.mapEntry j)) 0
        (devicePage ctx'.disk ctx'.passiveFs.dataStartOff
          (carrierPtr ctx'.afsMap l'.req.mapEntry j)) 0 4096

/-- A request that is left alone with its entry and its blocks. -/
structure Undisturbed (k : Kernel) (g : GfCtx) (run : List Moment) : Prop where
  apart : ∀ m ∈ run, (∃ e, m.act = .flight e) →
    PlacesApart m.ctx (afsGetMapEntry m.ctx.config m.life.req.block)
  kept : run.IsChain (LeftAlone k g)

section

variable {k : Kernel} {g : GfCtx} {e : Entropy} {ctx ctx' : AfsPrivate} {l l' : Life} {a : Act}
  {req req₁ : AfsMapRequest} {run : List Moment} {i j : ℕ}

/-! ### The status -/

/-- **A step changes nothing of the bio but its data.** -/
theorem LifeStep.bio (h : LifeStep k g ctx l a ctx' l') :
    ∃ biIoVec, l'.req.bio = { l.req.bio with biIoVec } := by
  have hsame : ∀ {bio : Bio}, bio = l.req.bio → ∃ biIoVec, bio = { l.req.bio with biIoVec } :=
    fun h => ⟨l.req.bio.biIoVec, h⟩
  have hdecode : ∀ {ctx₁ : AfsPrivate} {req : AfsMapRequest},
      readDecode k g ctx l.req = some (ctx₁, req) →
      ∃ biIoVec, req.bio = { l.req.bio with biIoVec } := by
    intro ctx₁ req hdec
    obtain ⟨_, _, _, _, _, _, -, rfl, -⟩ := readDecode_frame hdec
    exact ⟨_, rfl⟩
  cases h with
  | answer phase op map =>
    obtain ⟨-, rfl⟩ := readRequestMap_brk rfl map
    exact ⟨_, rfl⟩
  | startRead phase op map =>
    obtain ⟨-, rfl⟩ := readRequestMap_next rfl map
    exact hsame rfl
  | refuse phase op map => exact hsame (writeRequestMap_bio map).1
  | startWrite phase op map => exact hsame (writeRequestMap_bio map).1
  | unknown => exact hsame rfl
  | skip phase map =>
    rw [rebuildRequestMap_eq rfl] at map
    split_ifs at map
    rw [← Flow.brk.inj map]
    exact hsame rfl
  | startRebuild phase map =>
    obtain rfl := rebuildRequestMap_next rfl map
    exact hsame rfl
  | submitRead => exact hsame rfl
  | submitWrite => exact hsame rfl
  | failRead => exact hsame rfl
  | failWrite => exact hsame rfl
  | failRebuild => exact hsame (resetRebuild_bio ctx l.req).1
  | complete mem tr =>
    subst tr
    exact hsame (transfer_bio ctx l _ _).1
  | lastRead mem tr =>
    subst tr
    exact hsame (transfer_bio ctx l _ _).1
  | lastWrite mem tr =>
    subst tr
    exact hsame (transfer_bio ctx l _ _).1
  | decode phase dec =>
    have := hdecode dec
    exact this
  | damaged phase dec =>
    have := hdecode dec
    exact this
  | rebuild phase map => exact hsame (rebuildBlocksMap_bio map).1
  | abandon phase map => exact hsame (rebuildBlocksMap_bio map).1

theorem LifeStep.biOp (h : LifeStep k g ctx l a ctx' l') :
    l'.req.bio.biOp = l.req.bio.biOp := by
  obtain ⟨biIoVec, hbio⟩ := h.bio
  rw [hbio]

theorem Runs.biOp {acts : List Act} (h : Runs k g ctx l acts ctx' l') :
    l'.req.bio.biOp = l.req.bio.biOp := by
  induction h with
  | nil => rfl
  | cons step _ ih => exact ih.trans (lifeStep_of_step step).biOp

/-- **No step sets the status of the bio.** -/
theorem LifeStep.biStatus (h : LifeStep k g ctx l a ctx' l') :
    l'.req.bio.biStatus = l.req.bio.biStatus := by
  obtain ⟨biIoVec, hbio⟩ := h.bio
  rw [hbio]

theorem LifeRun.biStatus (h : LifeRun k g 4 l run l') :
    l'.req.bio.biStatus = l.req.bio.biStatus := by
  induction h with
  | nil => rfl
  | cons _ step _ ih => exact ih.trans (lifeStep_of_step step).biStatus

/-! ### The carriers of a write -/

theorem smooth_of_not_failing {m : Moment} (h : ¬ Failing m) : m.act.Smooth := by
  cases hact : m.act with
  | flight e => trivial
  | rebuild => trivial
  | submit code =>
    by_contra hne
    exact h (Or.inl ⟨code, hne, hact⟩)
  | complete i status =>
    by_contra hne
    exact h (Or.inr (Or.inl ⟨i, status, hne, hact⟩))
  | crypto => trivial
  | rebuildBlocks e => trivial

/-- The page of carrier `j` is on the device. -/
def PageStored (ctx : AfsPrivate) (req : AfsMapRequest) (j : ℕ) : Prop :=
  Agree (devicePage ctx.disk ctx.passiveFs.dataStartOff (req.blockNums j)) 0
    (req.carrierBlocks j) 0 4096

/-- A request that writes the carriers of `req₁`: its entry points at them, and those that have
arrived are on the device. -/
structure Carrying (req₁ : AfsMapRequest) (ctx : AfsPrivate) (l : Life) : Prop where
  type : l.type = .write
  phase : (∃ i, l.phase = .writePages false i) ∨ l.phase = .returned ∨ l.phase = .gone
  entry : l.req.mapEntry = req₁.mapEntry
  nums : l.req.blockNums = req₁.blockNums
  pages : l.req.carrierBlocks = req₁.carrierBlocks
  pointers : ∀ j < 4, carrierPtr ctx.afsMap req₁.mapEntry j = req₁.blockNums j
  stored : ∀ j < 4, l.Arrived j → PageStored ctx req₁ j

theorem Carrying.countDown (h : Carrying req₁ ctx l)
    (hapart : PagesApart ctx.passiveFs.dataStartOff req₁) (hi : i < 4) :
    Carrying req₁ (transfer ctx l i 0).1 (countDown l (transfer ctx l i 0).2 i) := by
  rw [transfer_write ctx h.type]
  refine ⟨h.type, h.phase, h.entry, h.nums, h.pages, h.pointers, fun j hj harr => ?_⟩
  simp only [PageStored, h.nums, h.pages]
  by_cases hji : j = i
  · subst hji
    exact devicePage_write rfl
  · rcases hapart i hi j hj (Ne.symm hji) with hap | hsame
    · exact (devicePage_write_apart hap).trans
        (h.stored j hj (harr.of_countDown.resolve_left hji))
    · -- the two carriers may be on one place, but then they are alike
      rcases carrierSector_eq_or_apart ctx.passiveFs.dataStartOff (req₁.blockNums i)
        (req₁.blockNums j) with heq | hap
      · exact (devicePage_write heq).trans hsame
      · exact (devicePage_write_apart hap).trans
          (h.stored j hj (harr.of_countDown.resolve_left hji))

/-- **A step of a write** that does not fail. -/
theorem Carrying.step (h : Carrying req₁ ctx l) (hs : LifeStep k g ctx l a ctx' l') (ha : a.Smooth)
    (hn : ctx.config.numCarrierBlocks = 4) (hc : Counted 4 l)
    (hapart : PagesApart ctx.passiveFs.dataStartOff req₁) : Carrying req₁ ctx' l' := by
  have hphase := h.phase
  cases hs.writeStep ha h.type (h.phase.imp_left fun ⟨i, hp⟩ => ⟨_, i, hp⟩) with
  | @submit rebuild i phase =>
    have hi : i < 4 := (hc.submitting (.inr ⟨rebuild, phase⟩)).1
    have hreb : rebuild = false := by simpa [phase] using hphase
    subst hreb
    refine ⟨h.type, ?_, h.entry, h.nums, h.pages, h.pointers, fun j hj harr =>
      h.stored j hj (harr.of_submitted ?_ ?_)⟩
    · rw [hn]
      simp only [submitted]
      split_ifs
      · exact Or.inl ⟨_, rfl⟩
      · exact Or.inr (Or.inl rfl)
    · rw [phase]
      rfl
    · rw [hn]
      exact upTo_next hi rfl
  | @complete i mem more => exact h.countDown hapart (hc.bound i mem)
  | @last i mem last =>
    obtain ⟨hp, ho⟩ := hc.last mem last
    have hw := h.countDown hapart (hc.bound i mem)
    refine ⟨hw.type, Or.inr (Or.inr rfl), hw.entry, hw.nums, hw.pages, fun j hj => ?_,
      fun j hj harr => hw.stored j hj ⟨?_, harr.2⟩⟩
    · rw [← hw.pointers j hj, ← hw.entry]
      exact carrierPtr_storeChecksums
    · simp only [Artifice.countDown, hp]
      exact hj

theorem Carrying.kept {m m' : Moment} (h : Carrying req₁ ctx l)
    (hstep : m.life.step k g m.ctx m.act = some (ctx, l)) (hkept : LeftAlone k g m m') :
    SameInstance ctx m'.ctx ∧ Carrying req₁ m'.ctx l := by
  obtain ⟨hsame, hkeep⟩ := hkept ctx l hstep
  rw [h.entry] at hkeep
  refine ⟨hsame, h.type, h.phase, h.entry, h.nums, h.pages, fun j hj => ?_, fun j hj harr => ?_⟩
  · exact (hkeep j hj).1.trans (h.pointers j hj)
  · have hpage := (hkeep j hj).2
    rw [h.pointers j hj] at hpage
    rw [PageStored, hsame.passiveFs]
    exact hpage.trans (h.stored j hj harr)

/-- **The carriers of a write without a failing step**, after every step of it. -/
theorem Carrying.after {m₀ : Moment} (h : LifeRun k g 4 l run l') (hall : ∀ m ∈ run, ¬ Failing m)
    (hm₀ : m₀.life.step k g m₀.ctx m₀.act = some (ctx, l))
    (hkept : (m₀ :: run).IsChain (LeftAlone k g)) (hw : Carrying req₁ ctx l) (hl : l.Sound)
    (hapart : PagesApart ctx.passiveFs.dataStartOff req₁) :
    ∀ m ∈ run, ∀ ctx' l', m.life.step k g m.ctx m.act = some (ctx', l') →
      Carrying req₁ ctx' l' ∧ l'.Sound := by
  induction h generalizing m₀ ctx with
  | nil => simp
  | @cons ctx₁ ctx₂ l l₁ l₂ a run carriers step rest ih =>
    obtain ⟨hk, hchain⟩ := List.isChain_cons_cons.1 hkept
    obtain ⟨hsame, hw₁⟩ := hw.kept hm₀ hk
    have hs := lifeStep_of_step step
    have ha : a.Smooth := smooth_of_not_failing (hall _ List.mem_cons_self)
    rw [← hsame.passiveFs] at hapart
    have hw₂ := hw₁.step hs ha carriers hl.1 hapart
    have hphase := hw.phase
    have hl₁ : l₁.Sound := hs.sound carriers hl ha fun hp => by simp [hp] at hphase
    rw [List.forall_mem_cons]
    refine ⟨fun ctx' l' h => ?_, ih (fun m hm => hall m (List.mem_cons_of_mem _ hm)) step hchain
      hw₂ hl₁ (hs.sameInstance.passiveFs ▸ hapart)⟩
    obtain ⟨rfl, rfl⟩ := Prod.mk.inj (Option.some.inj (step.symm.trans h))
    exact ⟨hw₂, hl₁⟩

theorem Carrying.ended (h : Carrying req₁ ctx l) (hl : l.Sound) (hend : LogEvent.endio ∈ l.log)
    (hj : j < 4) : PageStored ctx req₁ j := by
  have hgone : l.phase = .gone := by
    by_contra hp
    exact (hl.2.open_ hp).1 hend
  refine h.stored j hj ⟨?_, by simp [(hl.2.closed hgone).1]⟩
  rw [hgone]
  exact hj

theorem writeRequestMap_pointers {s : AfsPrivate × AfsMapRequest}
    (hn : ctx.config.numCarrierBlocks = 4) (hlt : ∀ b ∈ ctx.passiveFs.blockList, b < 2 ^ 32)
    (h : writeRequestMap k g e ctx req = some (.next s)) (hj : j < 4) :
    carrierPtr s.1.afsMap s.2.mapEntry j = s.2.blockNums j := by
  obtain ⟨ctx₁, req₁, henc₁, hcase⟩ := writeRequestMap_started h
  obtain ⟨map, encoder, carriers, rfl, rfl, -⟩ := encodeRequest_frame henc₁
  rcases hcase with ⟨-, -, rfl⟩ | ⟨bs, v, random, hacq, hlen, rfl⟩
  · simp only [takenState, hn]
    rw [if_pos hj]
  · rw [hn] at hacq hlen
    obtain ⟨ps, hacq⟩ := acquireBlocks_spec hacq
    obtain ⟨x, hx⟩ : ∃ x, bs[j]? = some x := ⟨_, List.getElem?_eq_getElem (hlen ▸ hj)⟩
    obtain ⟨-, p, -, hxp⟩ := hacq.blocks j x hx
    have hptr : carrierPtr (setPtrs map (loadRequest ctx req).mapEntry 0 bs)
        (loadRequest ctx req).mapEntry (0 + j) = x :=
      carrierPtr_setPtrs hx (hlt x (List.mem_of_getElem? hxp))
    have hnum : setNums (loadRequest ctx req).blockNums 0 bs (0 + j) = x := setNums_eq hx
    rw [Nat.zero_add] at hptr hnum
    exact hptr.trans hnum.symm

theorem PlacesApart.pagesApart {s : AfsPrivate × AfsMapRequest}
    (h : PlacesApart ctx (loadRequest ctx req).mapEntry) (hn : ctx.config.numCarrierBlocks = 4)
    (hmap : writeRequestMap k g e ctx req = some (.next s)) :
    PagesApart ctx.passiveFs.dataStartOff s.2 := by
  obtain ⟨ctx₁, req₁, henc₁, hcase⟩ := writeRequestMap_started hmap
  have hptr := fun i (hi : i < 4) => encodeRequest_carrierPtr henc₁ (hn.symm ▸ hi)
  obtain ⟨map, encoder, carriers, rfl, rfl, -⟩ := encodeRequest_frame henc₁
  rcases hcase with ⟨hall, -, rfl⟩ | ⟨bs, v, random, hacq, hlen, rfl⟩
  · rw [hn] at hall
    have hnum : ∀ i < 4, (takenState { ctx with afsMap := map } { loadRequest ctx req with
        encoder, carrierBlocks := carriers }).2.blockNums i =
        carrierPtr ctx.afsMap (loadRequest ctx req).mapEntry i := by
      intro i hi
      rw [← hptr i hi]
      exact if_pos (hn.symm ▸ hi)
    intro i hi j hj hij
    rw [hnum i hi, hnum j hj]
    exact Or.inl (h.mapped hall i hi j hj hij)
  · rw [hn] at hacq hlen
    obtain ⟨ps, hacq⟩ := acquireBlocks_spec hacq
    -- the blocks were acquired at different positions
    have hblock : ∀ i < 4, ∃ p, ps[i]? = some p ∧ ctx.passiveFs.blockList[p]? =
        some (setNums (loadRequest ctx req).blockNums 0 bs i) := by
      intro i hi
      obtain ⟨x, hx⟩ : ∃ x, bs[i]? = some x := ⟨_, List.getElem?_eq_getElem (hlen ▸ hi)⟩
      obtain ⟨-, p, hp, hxp⟩ := hacq.blocks i x hx
      have hnum : setNums (loadRequest ctx req).blockNums 0 bs (0 + i) = x := setNums_eq hx
      rw [Nat.zero_add] at hnum
      exact ⟨p, hp, by rw [hnum, hxp]⟩
    intro i hi j hj hij
    obtain ⟨p, hp, hxp⟩ := hblock i hi
    obtain ⟨q, hq, hxq⟩ := hblock j hj
    refine Or.inl (h.listed p q _ _ (fun hpq => hij ?_) hxp hxq)
    have hlt : i < ps.length := (List.getElem?_eq_some_iff.1 hp).1
    exact (List.getElem?_inj hlt hacq.nodup).1 (by rw [hp, hq, hpq])

theorem writeRequestMap_ret {code : ℤ} {s : AfsPrivate × AfsMapRequest}
    (hstate : req.state = .flight) (h : writeRequestMap k g e ctx req = some (.ret code s)) :
    ¬ CanMap ctx (loadRequest ctx req).mapEntry := by
  unfold CanMap
  rcases writeRequestMap_cases h with ⟨hne, -⟩ | ⟨-, ctx₁, req₁, -, hcase⟩
  · exact absurd hstate hne
  rcases hcase with ⟨h0, ⟨-, hf⟩ | ⟨⟨j, hj, hinv⟩, -⟩⟩ | ⟨h0, bs, v, random, hacq, hf⟩
  · cases hf
  · rw [if_neg h0]
    exact fun hall => hall j hj hinv
  · rw [if_pos h0, canAcquire_iff hacq]
    intro hl
    dsimp only at hf
    rw [if_pos hl] at hf
    cases hf

theorem writeRequestMap_next {s : AfsPrivate × AfsMapRequest}
    (h : writeRequestMap k g e ctx req = some (.next s)) :
    CanMap ctx (loadRequest ctx req).mapEntry := by
  unfold CanMap
  rcases writeRequestMap_cases h with ⟨-, hf⟩ | ⟨-, ctx₁, req₁, -, hcase⟩
  · cases hf
  rcases hcase with ⟨h0, ⟨hall, -⟩ | ⟨-, _, hf⟩⟩ | ⟨h0, bs, v, random, hacq, hf⟩
  · rw [if_neg h0]
    exact hall
  · cases hf
  · rw [if_pos h0]
    dsimp only at hf
    split_ifs at hf with hlen
    exact ⟨bs, v, random, hacq, hlen⟩

/-- **Errors reach the caller only if no step fails**, and then they do, if a write is left alone with
its entry and its blocks. -/
theorem errorsReach_iff {fresh : AfsMapRequest} {bio : Bio} (hstatus : bio.biStatus = 0)
    (hrun : LifeRun k g 4 (newLife (mapRequest fresh ctx bio) .flightq) run l) :
    (ErrorsReach k g bio run l → ∀ m ∈ run, ¬ Failing m) ∧
      ((∀ m ∈ run, ¬ Failing m) → (bio.biOp = .write → Undisturbed k g run) →
        ErrorsReach k g bio run l) := by
  have hst : l.req.bio.biStatus = 0 := hrun.biStatus.trans hstatus
  refine ⟨fun h m hm hf => (h.1 ⟨m, hm, hf⟩).2 hst, fun hall hundisturbed =>
    ⟨fun ⟨m, hm, hf⟩ => absurd hf (hall m hm), fun hop => ?_⟩⟩
  obtain ⟨hapart, hkept⟩ := hundisturbed hop
  cases hrun with
  | nil => simp
  | @cons ctx₀ ctx₁ _ l₁ _ a run carriers step rest =>
    have hstep := lifeStep_of_step step
    have hsound : l₁.Sound := hstep.sound carriers (sound_newLife rfl)
      (smooth_of_not_failing (hall _ List.mem_cons_self)) fun hp => by simp [newLife] at hp
    obtain ⟨e, rfl, ⟨s, map, rfl, rfl⟩ | ⟨code, s, map, rfl, rfl⟩⟩ := Life.step_write step rfl rfl hop
    · have hblocks : PlacesApart ctx₀ (loadRequest ctx₀
          { (newLife (mapRequest fresh ctx bio) .flightq).req with state := .flight }).mapEntry :=
        hapart _ List.mem_cons_self ⟨e, rfl⟩
      have hentry : s.2.mapEntry = afsGetMapEntry ctx₀.config (mapRequest fresh ctx bio).block := by
        obtain ⟨_, _, henc, hcase⟩ := writeRequestMap_started map
        obtain ⟨_, _, _, rfl, rfl, -⟩ := encodeRequest_frame henc
        rcases hcase with ⟨-, -, rfl⟩ | ⟨_, _, _, -, -, rfl⟩ <;> rfl
      have hpointers := fun j (hj : j < 4) => writeRequestMap_pointers carriers hblocks.bound map hj
      have hw : Carrying s.2 s.1 (beginWritePages (newLife (mapRequest fresh ctx bio) .flightq)
          false s.1.config s.2) :=
        ⟨rfl, Or.inl ⟨0, rfl⟩, rfl, rfl, rfl, hpointers, fun j _ h => absurd h.1 (Nat.not_lt_zero j)⟩
      have hpages : PagesApart s.1.passiveFs.dataStartOff s.2 := by
        rw [hstep.sameInstance.passiveFs]
        exact hblocks.pagesApart carriers map
      have hafter := hw.after rest (fun m hm => hall m (List.mem_cons_of_mem _ hm)) step hkept hsound
        hpages
      rw [List.forall_mem_cons]
      refine ⟨fun ctx' l' h hno hend => ?_, fun m hm ctx' l' h _ hend _ => ?_⟩
      · obtain ⟨rfl, rfl⟩ := Prod.mk.inj (Option.some.inj (step.symm.trans h))
        exact absurd hend (by simp [beginWritePages, newLife])
      · obtain ⟨hw', hl'⟩ := hafter m hm ctx' l' h
        refine ⟨_, List.mem_cons_self, e, s, rfl, map, fun j hj => ⟨?_, hw'.ended hl' hend hj⟩⟩
        rw [← hw'.pointers j hj, hentry]
        rfl
    · have hno := writeRequestMap_ret rfl map
      exact absurd (Or.inr (Or.inr (Or.inl ⟨hop, ⟨e, rfl⟩, hno⟩))) (hall _ List.mem_cons_self)

end

/-! ### A device without free blocks -/

/-- A small instance that has no block mapped and none free. -/
def fullContext : AfsPrivate :=
  { unmappedContext with vector := ⟨fun _ => true, 2 ^ 32 - 1⟩, random := [0, 0] }

/-- The request for a write of its first block. -/
def refusedWrite : Life :=
  newLife (mapRequest zeroRequest fullContext (blockBio .write 0 fun _ => 0)) .flightq

theorem refusedWrite_step :
    ∃ s : AfsPrivate × AfsMapRequest,
      refusedWrite.step (constKernel 0) gfContextZero fullContext (.flight zeroEntropy) =
        some (s.1, afsReqClean { refusedWrite with req := s.2 }) ∧
      ¬ CanMap fullContext (loadRequest fullContext
        { refusedWrite.req with state := .flight }).mapEntry := by
  have hret : (writeRequestMap (constKernel 0) gfContextZero zeroEntropy fullContext
      { refusedWrite.req with state := .flight }).map (fun f => match f with
        | .ret _ _ => true
        | _ => false) = some true := by
    decide +kernel
  obtain ⟨f, hmap, hf⟩ := Option.map_eq_some_iff.1 hret
  obtain ⟨code, s, rfl⟩ : ∃ code s, f = .ret code s := by
    cases f with
    | next s => cases hf
    | brk s => cases hf
    | ret code s => exact ⟨code, s, rfl⟩
  refine ⟨s, ?_, writeRequestMap_ret rfl hmap⟩
  have hop : refusedWrite.req.bio.biOp = .write := rfl
  have hphase : refusedWrite.phase = .flightq := rfl
  exact (LifeStep.refuse hphase hop hmap rfl).step

/-- A write for which there is no free block is ended with success. -/
theorem refused_write_succeeds :
    ¬ ∀ (k : Kernel) (g : GfCtx) (ctx : AfsPrivate) (fresh : AfsMapRequest) (bio : Bio)
      (run : List Moment) (l : Life), bio.biStatus = 0 →
      LifeRun k g 4 (newLife (mapRequest fresh ctx bio) .flightq) run l → l.Quiet →
      ErrorsReach k g bio run l := by
  intro hall
  obtain ⟨s, hstep, hno⟩ := refusedWrite_step
  have hrun : LifeRun (constKernel 0) gfContextZero 4 refusedWrite
      [⟨fullContext, refusedWrite, .flight zeroEntropy⟩] _ := .cons rfl hstep (.nil _)
  have hreach := hall _ _ fullContext zeroRequest (blockBio .write 0 fun _ => 0) _ _ rfl hrun
    ⟨Or.inr rfl, rfl⟩
  have hfail : Failing ⟨fullContext, refusedWrite, .flight zeroEntropy⟩ :=
    Or.inr (Or.inr (Or.inl ⟨rfl, ⟨zeroEntropy, rfl⟩, hno⟩))
  exact (hreach.1 ⟨_, List.mem_cons_self, hfail⟩).2 hrun.biStatus

/-! ### A write that is left alone -/

theorem placesApart_freeContext : PlacesApart freeContext 0 := by
  have hlist : freeContext.passiveFs.blockList = [4, 5, 6, 7, 8, 9, 10, 11] := rfl
  have hsmall : ∀ b ∈ ([4, 5, 6, 7, 8, 9, 10, 11] : List ℕ), b < 12 := by decide
  have hnodup : ([4, 5, 6, 7, 8, 9, 10, 11] : List ℕ).Nodup := by decide
  refine ⟨fun b hb => ?_, fun p q b b' hpq hb hb' => ?_, fun hall => ?_⟩
  · rw [hlist] at hb
    have := hsmall b hb
    omega
  · rw [hlist] at hb hb'
    have hne : b ≠ b' := by
      rintro rfl
      exact hpq ((List.getElem?_inj (List.getElem?_eq_some_iff.1 hb).1 hnodup).1 (hb.trans hb'.symm))
    have := hsmall b (List.mem_of_getElem? hb)
    have := hsmall b' (List.mem_of_getElem? hb')
    unfold Apart carrierSector
    have hoff : freeContext.passiveFs.dataStartOff = 0 := rfl
    omega
  · exact absurd (by decide +kernel) (hall 0 (by norm_num))

theorem errorsReach_firstWrite :
    ∃ run l, LifeRun (constKernel 0) gfContextZero 4 firstWrite run l ∧ l.Quiet ∧
      (∀ j < 4, LogEvent.complete j ∈ l.log) ∧
      ErrorsReach (constKernel 0) gfContextZero (blockBio .write 0 UInt8.ofNat) run l := by
  obtain ⟨s, acts, ctx', l, hmap, hr, ⟨hq, -⟩, hlog, hacts⟩ := firstWrite_run
  have hcan : CanMap freeContext (loadRequest freeContext
      { firstWrite.req with state := .flight }).mapEntry := writeRequestMap_next hmap
  cases hr with
  | cons step rest =>
    obtain ⟨run, hrun, hmem, hchain, hhead⟩ := rest.lifeRun (n := 4)
      ((lifeStep_of_step step).sameInstance.config ▸ rfl)
    have hall : LifeRun (constKernel 0) gfContextZero 4 firstWrite
        (⟨freeContext, firstWrite, .flight zeroEntropy⟩ :: run) l := .cons rfl step hrun
    refine ⟨_, l, hall, hq, fun j hj => (hlog j hj).2, (errorsReach_iff rfl hall).2 ?_
      fun _ => ⟨?_, ?_⟩⟩
    · -- the write has got its blocks, and the rest are submissions and completions
      rw [List.forall_mem_cons]
      refine ⟨?_, fun m hm => ?_⟩
      · rintro (⟨code, -, hact⟩ | ⟨i, status, -, hact⟩ | ⟨-, -, hno⟩ | ⟨⟨e, hact⟩, -⟩)
        · cases hact
        · cases hact
        · exact hno hcan
        · cases hact
      · rintro (⟨code, hne, hact⟩ | ⟨i, status, hne, hact⟩ | ⟨-, ⟨e, hact⟩, -⟩ | ⟨⟨e, hact⟩, -⟩)
        all_goals
          rcases hacts _ (hmem m hm) with h | ⟨j, h⟩ <;> rw [h] at hact <;> cases hact
          try exact hne rfl
    · rw [List.forall_mem_cons]
      refine ⟨fun _ => placesApart_freeContext, fun m hm ⟨e, hact⟩ => ?_⟩
      rcases hacts _ (hmem m hm) with h | ⟨j, h⟩ <;> rw [h] at hact <;> cases hact
    · -- every step finds what the step before has left
      have hkept : ∀ m m', Moment.Next (constKernel 0) gfContextZero m m' →
          LeftAlone (constKernel 0) gfContextZero m m' := by
        intro m m' hnext ctx' l' h
        rw [hnext ctx' l' h]
        exact ⟨SameInstance.refl _, fun j _ => ⟨rfl, Agree.refl _ _ _⟩⟩
      refine (hchain.imp hkept).cons fun m hm => hkept _ _ fun ctx' l' h => ?_
      obtain ⟨rfl, -⟩ := Prod.mk.inj (Option.some.inj (step.symm.trans h))
      exact hhead m hm

end Artifice
