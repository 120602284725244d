import Artifice.Engine.Effect

/-!
Any number of requests at the same time, each on its own data block.

The work items of the requests and the completions of their carriers come in any order. As long as
no request is mapped for a block that another one is still working on, nothing of this can be
noticed: the target is the device of a session, with every request taken at the moment where it
ends.
-/

namespace Artifice

open Lib

/-- The data block of a request. -/
def Life.dataBlock (l : Life) : ℕ := l.req.bio.biSector / 8

/-- Request `i` of the target, as long as something is left to do of it. -/
def Target.Open (t : Target) (i : ℕ) (l : Life) : Prop :=
  ∃ o, t.lives[i]? = some (o, l) ∧ ¬ l.Quiet

/-- What a step of a target does in order: whole blocks are written, no request is mapped for a
block that another one is working on, no step fails, and a write that starts has blocks for its
carriers. Bios that `afs_map` ends by itself are not restricted. -/
def Orderly (t : Target) : TargetEvent → Prop
  | .map alloc _ bio => alloc = true → bio.biOp = .read ∨ bio.biOp = .write →
      bio.InBlock ∧ (bio.biOp = .write → bio.Whole) ∧
      bio.biSector / 8 < t.ctx.config.numBlocks ∧ ∀ i l, t.Open i l → l.dataBlock ≠ bio.biSector / 8
  | .step i a => a.Smooth ∧ ∀ e l, a = .flight e → t.Open i l → l.req.bio.biOp = .write →
      CanMap t.ctx (afsGetMapEntry t.ctx.config l.req.block)
  | .rebuild _ _ | .dtr => False

/-- The request that a step of the target has finished. -/
def finished (t t' : Target) : TargetEvent → List Done
  | .step i _ =>
    match t.lives[i]?, t'.lives[i]? with
    | some (_, l), some (_, l') => if l'.Quiet then [⟨l.req.bio, l'⟩] else []
    | _, _ => []
  | _ => []

/-- An orderly run of a target that starts without requests, and the requests that have finished,
in this order. -/
inductive Interleaved (k : Kernel) (g : GfCtx) (ctx₀ : AfsPrivate) : List Done → Target → Prop
  | start : Interleaved k g ctx₀ [] (newTarget ctx₀)
  | next {done t ev t'} (before : Interleaved k g ctx₀ done t) (orderly : Orderly t ev)
      (step : t.next k g ev = some t') : Interleaved k g ctx₀ (done ++ finished t t' ev) t'

/-- How far a request for `bio` has come: it is queued, it reads the carriers of its block, or it
writes them. A write is followed in a context of its own, in which nobody else does anything. -/
inductive Stage (k : Kernel) (ctx : AfsPrivate) (bio : Bio) (l : Life) : Prop
  | queued (fresh) (life : l = newLife (mapRequest fresh ctx bio) .flightq)
  | reading (fresh) (op : bio.biOp = .read)
      (mapped : ∀ j < 4, entryPtr ctx (bio.biSector / 8) j ≠ afsInvalidBlock)
      (read : Reading ctx (takenRequest k ctx (flightRequest fresh ctx bio)) l) (sound : l.Sound)
  | writing {ctx₁ s ctxW} (op : bio.biOp = .write) (inst : Instance ctx₁)
      (block : bio.biSector / 8 < ctx₁.config.numBlocks) (mapped : Mapped ctx₁ (bio.biSector / 8) s)
      (data : Agree (carriersData k ctx₁.encodingType (ivWords ctx₁.passphraseHash) shareNumbers
        s.2.carrierBlocks) 0 (segmentByte bio.biIoVec) 0 4096)
      (write : Writing s.1 s.2 ctxW l) (sound : l.Sound) (alike : Alike (bio.biSector / 8) ctxW ctx)

/-- A request that is being served. -/
structure Serving (k : Kernel) (ctx : AfsPrivate) (l : Life) : Prop where
  inBlock : l.req.bio.InBlock
  op : l.req.bio.biOp = .read ∨ l.req.bio.biOp = .write
  whole : l.req.bio.biOp = .write → l.req.bio.Whole
  block : l.dataBlock < ctx.config.numBlocks
  hasBio : l.req.hasBio = true
  stage : Stage k ctx l.req.bio l

/-- What a step makes of a request for `bio`: it is served on, or it has ended and its block holds
what it should. -/
inductive Outcome (k : Kernel) (ctx : AfsPrivate) (bio : Bio) (d : Mem) (l : Life) : Prop
  | going (open_ : ¬ l.Quiet) (serving : Serving k ctx l) (sameBio : l.req.bio = bio)
      (content : l.type = .read → Content k ctx (bio.biSector / 8) d)
  | answered (op : bio.biOp = .read) (quiet : l.Quiet)
      (content : Content k ctx (bio.biSector / 8) d)
      (answer : ∀ i < bio.biSize, l.answer i = d (bio.biSector % 8 * 512 + i))
  | written (op : bio.biOp = .write) (quiet : l.Quiet)
      (content : Content k ctx (bio.biSector / 8) (segmentByte bio.biIoVec))

/-- The requests that are being served are on blocks of their own, and every block that is not being
overwritten holds its store. -/
structure Calm (k : Kernel) (t : Target) (store : ℕ → Mem) : Prop where
  registered : t.registered = true
  inst : Instance t.ctx
  placed : Placed t.ctx
  serving : ∀ i l, t.Open i l → Serving k t.ctx l
  alone : ∀ i j l l', t.Open i l → t.Open j l' → l.dataBlock = l'.dataBlock → i = j
  content : ∀ b < t.ctx.config.numBlocks,
    (∀ i l, t.Open i l → l.type = .write → l.dataBlock ≠ b) → Content k t.ctx b (store b)

/-- What a read of block `b` can do to the context: it stores the difference field of the entry. -/
def DifferenceOnly (b : ℕ) (ctx ctx' : AfsPrivate) : Prop :=
  ∃ map, ctx' = { ctx with afsMap := map } ∧
    SameTuples (afsGetMapEntry ctx.config b) ctx.afsMap map

section

variable {k : Kernel} {g : GfCtx} {e : Entropy} {ctx ctx' ctx₀ : AfsPrivate} {l l' : Life} {a : Act}
  {b i j : ℕ} {d : Mem} {fresh : AfsMapRequest} {bio : Bio} {store : ℕ → Mem} {t t' : Target}
  {ev : TargetEvent} {done : List Done} {o : Origin}

/-! ### One request -/

theorem serving_of_bio (h : l.req.bio = bio) (hbio : bio.InBlock)
    (hop : bio.biOp = .read ∨ bio.biOp = .write) (hwhole : bio.biOp = .write → bio.Whole)
    (hb : bio.biSector / 8 < ctx.config.numBlocks) (hhas : l.req.hasBio = true)
    (hstage : Stage k ctx bio l) : Serving k ctx l := by
  subst h
  exact ⟨hbio, hop, hwhole, hb, hhas, hstage⟩

theorem Serving.alike (h : Serving k ctx l) (hal : Alike l.dataBlock ctx ctx') (hi : Instance ctx) :
    Serving k ctx' l := by
  have hlt := hi.config.blocks
  have hblock := h.block
  refine ⟨h.inBlock, h.op, h.whole, hal.same.config ▸ h.block, h.hasBio, ?_⟩
  cases h.stage with
  | queued fresh life =>
    refine .queued fresh ?_
    rw [hal.same.mapRequest]
    exact life
  | reading fresh op mapped read sound =>
    refine .reading fresh op (fun j hj => ?_) ?_ sound
    · rw [Life.dataBlock] at hal
      rw [hal.entryPtr hj]
      exact mapped j hj
    · have hfl : flightRequest fresh ctx' l.req.bio = flightRequest fresh ctx l.req.bio := by
        rw [flightRequest, hal.same.mapRequest, flightRequest]
      rw [hfl]
      refine hal.reading hi.carriers (block_flightRequest ?_) mapped read
      rw [Life.dataBlock] at hblock
      omega
  | writing op inst block mapped data write sound alike =>
    exact .writing op inst block mapped data write sound (alike.trans hal)

theorem DifferenceOnly.refl (b : ℕ) (ctx : AfsPrivate) : DifferenceOnly b ctx ctx :=
  ⟨ctx.afsMap, rfl, fun _ _ => rfl⟩

theorem DifferenceOnly.effect (h : DifferenceOnly b ctx ctx') (hi : Instance ctx) (hp : Placed ctx)
    (hb : b < ctx.config.numBlocks) : Effect b ctx ctx' := by
  obtain ⟨map, rfl, htup⟩ := h
  exact effect_of_sameTuples hi hp hb htup

theorem serving_read_start (hi : Instance ctx) (hbio : bio.InBlock)
    (hop : bio.biOp = .read) (hb : bio.biSector / 8 < ctx.config.numBlocks)
    (hc : Content k ctx (bio.biSector / 8) d)
    (hs : (newLife (mapRequest fresh ctx bio) .flightq).step k g ctx a = some (ctx', l'))
    (ha : a.Smooth) : DifferenceOnly (bio.biSector / 8) ctx ctx' ∧ Outcome k ctx' bio d l' := by
  have hlt := hi.config.blocks
  have hrange := hbio.range
  have hblock : (newLife (mapRequest fresh ctx bio) .flightq).req.block = bio.biSector / 8 :=
    show (flightRequest fresh ctx bio).block = _ from block_flightRequest (by omega)
  have hsound := (lifeStep_of_step hs).sound hi.carriers (sound_newLife rfl) ha
    fun hp => by simp [newLife] at hp
  obtain ⟨rfl, -, hcase⟩ := Life.step_read hs rfl rfl hop
  rw [hblock] at hcase
  refine ⟨DifferenceOnly.refl _ _, ?_⟩
  rcases hcase with ⟨h0, rfl⟩ | ⟨h0, rfl⟩
  · -- a block that is not mapped holds zeros
    have hz : ∀ i < 4096, d i = 0 := by
      rcases hc with ⟨-, hz⟩ | hst
      · exact hz
      · exact absurd h0 (hst.valid 0 (by norm_num))
    refine .answered hop (quiet_afsReqClean rfl) hc fun i hi' => ?_
    rw [hz _ (by exact lt_of_lt_of_le (Nat.add_lt_add_left hi' _) hrange)]
    have hans : segmentByte (zeroedRequest ctx' (flightRequest fresh ctx' bio)).bio.biIoVec i =
        fill (flightRequest fresh ctx' bio).dataBlock 0 4096 0 (bio.biSector % 8 * 512 + i) :=
      answerBio_byte hbio rfl rfl (hbio.requestSize fresh ctx') hi'
    have hi'' : i < bio.biSize := hi'
    rw [fill_in (Nat.zero_le _) (by omega)] at hans
    exact hans
  · have hst : Stored k ctx' (afsGetMapEntry ctx'.config (bio.biSector / 8)) d := by
      rcases hc with ⟨hinv, -⟩ | hst
      · exact absurd (hinv 0 (by norm_num)) h0
      · exact hst
    have hl : (beginReadPages (newLife (mapRequest fresh ctx' bio) .flightq) ctx'.config
        (takenRequest k ctx' (flightRequest fresh ctx' bio))).req.bio = bio := rfl
    have hserving := serving_of_bio hl hbio (Or.inl hop) (fun hw => by simp [hop] at hw) hb rfl
      (.reading fresh hop (fun j hj => hst.valid j hj) (Reading.begin _ _ _ _) hsound)
    exact .going (by simp [Life.Quiet, beginReadPages]) hserving rfl fun _ => hc

theorem serving_write_start (hi : Instance ctx) (hp : Placed ctx) (hk : ∀ n, k.kmalloc n = true)
    (hbio : bio.InBlock) (hop : bio.biOp = .write) (hwhole : bio.Whole)
    (hb : bio.biSector / 8 < ctx.config.numBlocks)
    (hcan : ∀ e, a = .flight e → CanMap ctx (afsGetMapEntry ctx.config (bio.biSector / 8)))
    (hs : (newLife (mapRequest fresh ctx bio) .flightq).step k g ctx a = some (ctx', l'))
    (ha : a.Smooth) :
    Effect (bio.biSector / 8) ctx ctx' ∧
      Outcome k ctx' bio d l' := by
  have hlt := hi.config.blocks
  have hblock : (flightRequest fresh ctx bio).block = bio.biSector / 8 :=
    block_flightRequest (by omega)
  have hsound := (lifeStep_of_step hs).sound hi.carriers (sound_newLife rfl) ha
    fun hp => by simp [newLife] at hp
  obtain ⟨e, rfl, hcase⟩ := Life.step_write hs rfl rfl hop
  have hreq : { (newLife (mapRequest fresh ctx bio) .flightq).req with state := .flight } =
      flightRequest fresh ctx bio := rfl
  rw [hreq] at hcase
  obtain ⟨s', htotal⟩ := writeRequestMap_total hk hi.carriers
    (rfl : (flightRequest fresh ctx bio).state = .flight)
    (by rw [loadRequest, hblock]; exact hcan e rfl) g e
  rcases hcase with ⟨s, hmap, rfl, rfl⟩ | ⟨code, s, hmap, -, -⟩
  · obtain ⟨hm, hdata, hsbio⟩ := writeRequestMap_mapped hi hp hk hb (by rw [hblock]) rfl hmap
    rw [ivWords_flightRequest, dataBlock_loadRequest hbio] at hdata
    refine ⟨effect_of_start hi hp hk hb (by rw [hblock]) rfl hmap, ?_⟩
    have hl : (beginWritePages (newLife (mapRequest fresh ctx bio) .flightq) false s.1.config
        s.2).req.bio = bio := hsbio
    have hserving := serving_of_bio hl hbio (Or.inr hop) (fun _ => hwhole)
      (hm.same.config.symm ▸ hb) (writeRequestMap_bio hmap).2 (.writing (k := k) hop hi hb hm
        (hdata.trans (agree_spliced_whole hwhole _)) (Writing.begin _ _ _ _ _) hsound
        (Alike.refl _ _))
    exact .going (by simp [Life.Quiet, beginWritePages]) hserving hl fun hty => by
      simp [beginWritePages] at hty
  · rw [htotal] at hmap
    cases hmap

theorem serving_read_step (hi : Instance ctx) (hk : ∀ n, k.kmalloc n = true)
    (hbio : bio.InBlock) (hop : bio.biOp = .read) (hb : bio.biSector / 8 < ctx.config.numBlocks)
    (hmapped : ∀ j < 4, entryPtr ctx (bio.biSector / 8) j ≠ afsInvalidBlock)
    (hread : Reading ctx (takenRequest k ctx (flightRequest fresh ctx bio)) l) (hl : l.Sound)
    (hc : Content k ctx (bio.biSector / 8) d) (hs : l.step k g ctx a = some (ctx', l'))
    (ha : a.Smooth) :
    DifferenceOnly (bio.biSector / 8) ctx ctx' ∧ Outcome k ctx' bio d l' := by
  have hrange := hbio.range
  have hst : Stored k ctx (afsGetMapEntry ctx.config (bio.biSector / 8)) d := by
    rcases hc with ⟨hinv, -⟩ | hst
    · exact absurd (hinv 0 (by norm_num)) (hmapped 0 (by norm_num))
    · exact hst
  by_cases hcr : l.phase = .cryptoq
  · -- the carriers are not damaged, so the read is answered
    obtain ⟨req, rfl, hdec, hend⟩ := hread.decoded hl hcr hi hk hbio hb hs
    obtain ⟨-, rfl⟩ := hend.resolve_right fun h => hst.not_damaged h.1
    obtain ⟨map, rfl, htup⟩ := hdec.context
    refine ⟨⟨map, rfl, htup⟩, .answered hop
      (quiet_afsReqClean (hl.1.queued (.inr (.inr (.inl hcr))))) ?_ fun i hi' => ?_⟩
    · exact Or.inr (hst.congr sameInstance_of_eq (htup.agree hi hb hb) fun j _ => Agree.refl _ _ _)
    · have hdata := (hdec.data.trans (hdec.entry ▸ hst.decodedData))
        (bio.biSector % 8 * 512 + i) (by omega)
      rw [Nat.zero_add] at hdata
      exact (hdec.answer i hi').trans hdata
  · have hls := lifeStep_of_step hs
    have hphase := hread.phase
    have hl' := hls.sound hi.carriers hl ha fun h => by simp [h] at hphase
    obtain ⟨rfl, hread'⟩ := hread.step hls ha hi.carriers hl.1 hcr
    have hbio' : l'.req.bio = bio := by
      rw [hread'.req]
      rfl
    have hhas : l'.req.hasBio = true := by
      rw [hread'.req]
      rfl
    have hserving := serving_of_bio hbio' hbio (Or.inl hop) (fun hw => by simp [hop] at hw) hb hhas
      (.reading _ hop hmapped hread' hl')
    refine ⟨DifferenceOnly.refl _ _, .going (fun hq => ?_) hserving hbio' fun _ => hc⟩
    rcases hq.1 with hph | hph
    · exact (hl'.2.waiting hph).1 hq.2
    · have := hread'.phase
      simp [hph] at this

theorem serving_write_step {ctx₁ ctxW : AfsPrivate} {s : AfsPrivate × AfsMapRequest}
    (hi : Instance ctx) (hp : Placed ctx) (hbio : bio.InBlock) (hop : bio.biOp = .write)
    (hwhole : bio.Whole) (hi₁ : Instance ctx₁) (hb : bio.biSector / 8 < ctx₁.config.numBlocks)
    (hm : Mapped ctx₁ (bio.biSector / 8) s)
    (hdata : Agree (carriersData k ctx₁.encodingType (ivWords ctx₁.passphraseHash) shareNumbers
      s.2.carrierBlocks) 0 (segmentByte bio.biIoVec) 0 4096)
    (hreq : l.req.bio = bio) (hhas : l.req.hasBio = true) (hw : Writing s.1 s.2 ctxW l)
    (hl : l.Sound)
    (hal : Alike (bio.biSector / 8) ctxW ctx) (hs : l.step k g ctx a = some (ctx', l'))
    (ha : a.Smooth) :
    Effect (bio.biSector / 8) ctx ctx' ∧ Outcome k ctx' bio d l' := by
  have hctxW := hw.context
  have hsame : SameInstance ctx₁ ctx := by
    refine hm.same.trans (SameInstance.trans ?_ hal.same)
    rw [hctxW]
    exact ⟨rfl, rfl, rfl, rfl, rfl, rfl⟩
  have hnums : ∀ j < 4, entryPtr ctx (bio.biSector / 8) j = s.2.blockNums j := fun j hj => by
    rw [hal.entryPtr hj, hctxW]
    exact hm.entryPtr_eq hj
  obtain ⟨ctxW', hsW, hal', heff⟩ := hw.step_alike hal hi hp (hsame.config ▸ hb)
    (hm.entry.trans (by rw [hsame.config])) hnums hm.valid hl.1 (lifeStep_of_step hs) ha
  have hn : s.1.config.numCarrierBlocks = 4 := by rw [hm.same.config]; exact hi₁.carriers
  have hnW : ctxW.config.numCarrierBlocks = 4 := by rw [hctxW]; exact hn
  have hpages : PagesApart s.1.passiveFs.dataStartOff s.2 := by
    rw [hm.same.passiveFs]
    exact hm.pagesApart hi₁ hb
  have hphase := hw.phase
  have hl' := hsW.sound hnW hl ha fun hp => by simp [hp] at hphase
  refine ⟨heff, ?_⟩
  rcases hw.step hsW ha hn hl.1 hpages with hw' | ⟨l₂, ctx₂, hw₂, harr, rfl, rfl⟩
  · have hbio' : l'.req.bio = bio := by
      rw [← hreq, hw'.req, hw.req]
    have hserving := serving_of_bio hbio' hbio (Or.inr hop) (fun _ => hwhole)
      ((hsame.trans heff.same).config.symm ▸ hb) ((lifeStep_of_step hs).hasBio.trans hhas)
      (.writing hop hi₁ hb hm hdata hw' hl' hal')
    refine .going (fun hq => ?_) hserving hbio' fun hty => ?_
    · rcases hq.1 with hph | hph
      · exact (hl'.2.waiting hph).1 hq.2
      · have := hw'.phase
        simp [hph] at this
    · rw [hw'.type] at hty
      cases hty
  · have hst := hm.stored hw₂ harr hdata
    rw [← (hm.sameInstance hw₂).config] at hst
    exact .written hop (quiet_afsReqClean (hl'.2.closed rfl).1) (Or.inr (hal'.stored hst))

/-- **A step of a request that is served.** -/
theorem Serving.step (h : Serving k ctx l) (hi : Instance ctx) (hp : Placed ctx)
    (hk : ∀ n, k.kmalloc n = true) (hc : l.type = .read → Content k ctx l.dataBlock d)
    (hs : l.step k g ctx a = some (ctx', l')) (ha : a.Smooth)
    (hcan : ∀ e, a = .flight e → l.req.bio.biOp = .write →
      CanMap ctx (afsGetMapEntry ctx.config l.req.block)) :
    Effect l.dataBlock ctx ctx' ∧ Outcome k ctx' l.req.bio d l' := by
  have hlt := hi.config.blocks
  obtain ⟨inBlock, op, whole, block, hasBio, stage⟩ := h
  cases stage with
  | queued fresh life =>
    obtain ⟨bio, hbio⟩ : ∃ bio, l.req.bio = bio := ⟨_, rfl⟩
    rw [Life.dataBlock] at *
    rw [hbio] at inBlock op whole block life hc hcan ⊢
    have hblock : l.req.block = bio.biSector / 8 := by
      rw [life]
      exact show (flightRequest fresh ctx bio).block = _ from block_flightRequest (by omega)
    subst life
    rcases op with op | op
    · obtain ⟨heff, hout⟩ := serving_read_start hi inBlock op block (hc rfl) hs ha
      exact ⟨heff.effect hi hp block, hout⟩
    · refine serving_write_start hi hp hk inBlock op (whole op) block (fun e he => ?_) hs ha
      rw [← hblock]
      exact hcan e he op
  | reading _ op mapped read sound =>
    obtain ⟨heff, hout⟩ := serving_read_step hi hk inBlock op block mapped read sound (hc read.type)
      hs ha
    exact ⟨heff.effect hi hp block, hout⟩
  | writing op inst block mapped data write sound alike =>
    exact serving_write_step hi hp inBlock op (whole op) inst block mapped data rfl hasBio write
      sound alike hs ha

/-! ### All requests together -/

theorem open_set_iff (hne : j ≠ i) :
    ({ t with ctx := ctx', lives := t.lives.set i (o, l') } : Target).Open j l ↔ t.Open j l := by
  refine exists_congr fun o' => ?_
  rw [List.getElem?_set_ne hne.symm]

theorem Target.Open.self_of_set {x : Origin × Life} (hx : t.lives[i]? = some x)
    (h : ({ t with ctx := ctx', lives := t.lives.set i (o, l') } : Target).Open i l) :
    l = l' ∧ ¬ l'.Quiet := by
  obtain ⟨o', ho, hq⟩ := h
  rw [List.getElem?_set_self (List.getElem?_eq_some_iff.1 hx).1] at ho
  cases ho
  exact ⟨rfl, hq⟩

/-- The block of a request that does not write its carriers holds its store: nobody else works on
it. -/
theorem Calm.content_of_read (h : Calm k t store) (hopen : t.Open i l) (hty : l.type = .read) :
    Content k t.ctx l.dataBlock (store l.dataBlock) := by
  refine h.content _ (h.serving i l hopen).block fun j l₂ hj hty₂ heq => ?_
  obtain rfl := h.alone j i l₂ l hj hopen heq
  obtain ⟨o₂, ho₂, -⟩ := hj
  obtain ⟨o, ho, -⟩ := hopen
  rw [ho] at ho₂
  cases ho₂
  rw [hty] at hty₂
  cases hty₂

/-- **The step of one request** keeps all of them apart, and its block holds what it should. -/
theorem Calm.step (h : Calm k t store) (hk : ∀ n, k.kmalloc n = true)
    (hi : t.lives[i]? = some (o, l)) (hs : l.step k g t.ctx a = some (ctx', l')) (ha : a.Smooth)
    (hcan : ∀ e, a = .flight e → l.req.bio.biOp = .write →
      CanMap t.ctx (afsGetMapEntry t.ctx.config l.req.block)) :
    Calm k { t with ctx := ctx', lives := t.lives.set i (o, l') }
      (if l'.Quiet then deviceStep store ⟨l.req.bio, l'⟩ else store) ∧
    (l'.Quiet → l.req.bio.biOp = .read → Answered store ⟨l.req.bio, l'⟩) := by
  have hopen : t.Open i l := ⟨o, hi, (lifeStep_of_step hs).not_quiet⟩
  have hserving := h.serving i l hopen
  obtain ⟨heff, hout⟩ := hserving.step h.inst h.placed hk (h.content_of_read hopen) hs ha hcan
  have hinst := h.inst.of_sameInstance heff.same
  have hother : ∀ j l₂, j ≠ i → t.Open j l₂ → Alike l₂.dataBlock t.ctx ctx' := fun j l₂ hne hj =>
    heff.others _ (h.serving j l₂ hj).block fun heq => hne (h.alone j i l₂ l hj hopen heq)
  have hself : ∀ l₂, ({ t with ctx := ctx', lives := t.lives.set i (o, l') } : Target).Open i l₂ →
      l₂ = l' ∧ Serving k ctx' l' ∧ l'.req.bio = l.req.bio := by
    intro l₂ hl₂
    obtain ⟨rfl, hq⟩ := hl₂.self_of_set hi
    cases hout with
    | going _ serving sameBio => exact ⟨rfl, serving, sameBio⟩
    | answered _ quiet => exact absurd quiet hq
    | written _ quiet => exact absurd quiet hq
  -- what the other blocks hold
  have hblocks : ∀ b < ctx'.config.numBlocks, b ≠ l.dataBlock →
      (∀ j l₂, ({ t with ctx := ctx', lives := t.lives.set i (o, l') } : Target).Open j l₂ →
        l₂.type = .write → l₂.dataBlock ≠ b) → Content k ctx' b (store b) := by
    intro b hb hne hnot
    rw [heff.same.config] at hb
    refine (heff.others b hb hne).content (h.content b hb fun j l₂ hj hty => ?_)
    by_cases hji : j = i
    · subst hji
      obtain ⟨o₂, ho₂, -⟩ := hj
      rw [hi] at ho₂
      cases ho₂
      exact hne.symm
    · exact hnot j l₂ ((open_set_iff hji).2 hj) hty
  refine ⟨⟨h.registered, hinst, heff.placed, fun j l₂ hj => ?_, fun j j' l₂ l₃ hj hj' heq => ?_,
    fun b hb hnot => ?_⟩, ?_⟩
  · by_cases hji : j = i
    · subst hji
      obtain ⟨rfl, hserv, -⟩ := hself l₂ hj
      exact hserv
    · exact (h.serving j l₂ ((open_set_iff hji).1 hj)).alike (hother j l₂ hji ((open_set_iff hji).1 hj)) h.inst
  · by_cases hji : j = i
    · subst hji
      obtain ⟨rfl, -, hbio⟩ := hself l₂ hj
      by_cases hji' : j' = j
      · exact hji'.symm
      · refine h.alone j j' l l₃ hopen ((open_set_iff hji').1 hj') ?_
        rw [Life.dataBlock, ← hbio]
        exact heq
    · by_cases hji' : j' = i
      · subst hji'
        obtain ⟨rfl, -, hbio⟩ := hself l₃ hj'
        refine h.alone j j' l₂ l ((open_set_iff hji).1 hj) hopen ?_
        rw [heq, Life.dataBlock, Life.dataBlock, hbio]
      · exact h.alone j j' l₂ l₃ ((open_set_iff hji).1 hj) ((open_set_iff hji').1 hj') heq
  · by_cases hne : b = l.dataBlock
    · subst hne
      cases hout with
      | going open_ serving sameBio content =>
        rw [if_neg open_]
        refine content ?_
        cases hty : l'.type with
        | read => rfl
        | write =>
          refine absurd ?_ (hnot i l' ⟨o, ?_, open_⟩ hty)
          · rw [Life.dataBlock, sameBio, Life.dataBlock]
          · exact List.getElem?_set_self (List.getElem?_eq_some_iff.1 hi).1
      | answered op quiet content =>
        rw [if_pos quiet, deviceStep, if_neg (by simp [op])]
        exact content
      | written op quiet content =>
        rw [if_pos quiet, deviceStep, if_pos op, Life.dataBlock, Function.update_self]
        exact content
    · have hstore : (if l'.Quiet then deviceStep store ⟨l.req.bio, l'⟩ else store) b = store b := by
        rw [deviceStep]
        split_ifs
        · exact Function.update_of_ne hne _ _
        · rfl
        · rfl
      rw [hstore]
      exact hblocks b hb hne hnot
  · intro hq hop
    cases hout with
    | going open_ => exact absurd hq open_
    | answered _ _ _ answer => exact answer
    | written op =>
      rw [hop] at op
      cases op

/-- **A bio is mapped** for a block that nobody works on, or is ended at once. -/
theorem Calm.map {alloc : Bool} {code : MapioCode} (h : Calm k t store)
    (hord : Orderly t (.map alloc fresh bio))
    (hmap : afsMap t.flightEq alloc fresh t.ctx bio = some (code, l)) :
    Calm k { t with lives := t.lives ++ [(.map, l)] } store := by
  have hold : ∀ j l₂, ({ t with lives := t.lives ++ [(.map, l)] } : Target).Open j l₂ →
      t.Open j l₂ ∨ (j = t.lives.length ∧ l₂ = l ∧ ¬ l.Quiet) := by
    rintro j l₂ ⟨o₂, ho₂, hq⟩
    rcases lt_trichotomy j t.lives.length with hlt | rfl | hgt
    · exact Or.inl ⟨o₂, by rwa [List.getElem?_append_left hlt] at ho₂, hq⟩
    · rw [List.getElem?_append_right (le_refl _), Nat.sub_self] at ho₂
      cases ho₂
      exact Or.inr ⟨rfl, rfl, hq⟩
    · rw [List.getElem?_eq_none (by simp; omega)] at ho₂
      cases ho₂
  have hkeep : ∀ j l₂, t.Open j l₂ →
      ({ t with lives := t.lives ++ [(.map, l)] } : Target).Open j l₂ := by
    rintro j l₂ ⟨o₂, ho₂, hq⟩
    exact ⟨o₂, by rwa [List.getElem?_append_left (List.getElem?_eq_some_iff.1 ho₂).1], hq⟩
  -- the new request, if anything is left to do of it
  have hnew : ¬ l.Quiet → Serving k t.ctx l ∧ l.type = .read ∧
      ∀ i l', t.Open i l' → l'.dataBlock ≠ l.dataBlock := by
    intro hq
    rcases afsMap_cases hmap with ⟨⟨rfl, hop⟩, rfl⟩ | ⟨-, hq', -⟩
    · obtain ⟨hbio, hwhole, hb, hfree⟩ := hord rfl hop
      rw [acceptPartialBio_eq hbio.range]
      exact ⟨serving_of_bio rfl hbio hop hwhole hb rfl (.queued _ rfl), rfl, hfree⟩
    · exact absurd hq' hq
  refine ⟨h.registered, h.inst, h.placed, fun j l₂ hj => ?_, fun j j' l₂ l₃ hj hj' heq => ?_,
    fun b hb hnot => h.content b hb fun j l₂ hj hty => hnot j l₂ (hkeep j l₂ hj) hty⟩
  · rcases hold j l₂ hj with hj₁ | ⟨-, rfl, hq⟩
    · exact h.serving j l₂ hj₁
    · exact (hnew hq).1
  · rcases hold j l₂ hj with hj₁ | ⟨rfl, rfl, hq⟩
    · rcases hold j' l₃ hj' with hj₂ | ⟨rfl, rfl, hq⟩
      · exact h.alone j j' l₂ l₃ hj₁ hj₂ heq
      · exact absurd heq ((hnew hq).2.2 j l₂ hj₁)
    · rcases hold j' l₃ hj' with hj₂ | ⟨rfl, -, -⟩
      · exact absurd heq.symm ((hnew hq).2.2 j' l₃ hj₂)
      · rfl

theorem finished_step (hi : t.lives[i]? = some (o, l)) :
    finished t { t with ctx := ctx', lives := t.lives.set i (o, l') } (.step i a) =
      if l'.Quiet then [⟨l.req.bio, l'⟩] else [] := by
  simp only [finished, hi, List.getElem?_set_self (List.getElem?_eq_some_iff.1 hi).1]

/-- **A run of requests on different blocks**: the blocks that are not being overwritten hold what
was last written, and every read was answered with it. -/
theorem Interleaved.calm (h : Interleaved k g ctx₀ done t) (hk : ∀ n, k.kmalloc n = true)
    (h0 : Holds k ctx₀ fun _ _ => 0) :
    Calm k t (lastWrite done) ∧ ∀ pre r post, done = pre ++ r :: post → r.bio.biOp = .read →
      Answered (lastWrite pre) r := by
  induction h with
  | start =>
    refine ⟨⟨rfl, h0.instance_, h0.placed, ?_, ?_, fun b hb _ => h0.content b hb⟩, by simp⟩
    · rintro i l ⟨o, ho, -⟩
      simp [newTarget] at ho
    · rintro i j l l' ⟨o, ho, -⟩
      simp [newTarget] at ho
  | @next done t ev t' before orderly step ih =>
    obtain ⟨hcalm, hans⟩ := ih
    obtain ⟨-, ⟨alloc, fresh, bio, code, l, rfl, hmap, rfl⟩ | ⟨fresh, block, rfl, -⟩ |
      ⟨i, a, o, l, ctx', l', rfl, hi, hs, rfl⟩ | ⟨rfl, -⟩⟩ := Target.next_cases step
    · simp only [finished, List.append_nil]
      exact ⟨hcalm.map orderly hmap, hans⟩
    · exact orderly.elim
    · obtain ⟨ha, hcan⟩ := orderly
      have hopen : t.Open i l := ⟨o, hi, (lifeStep_of_step hs).not_quiet⟩
      obtain ⟨hcalm', hread⟩ := hcalm.step hk hi hs ha fun e he => hcan e l he hopen
      rw [finished_step hi]
      by_cases hq : l'.Quiet
      · rw [if_pos hq] at hcalm' ⊢
        rw [lastWrite_append]
        refine ⟨hcalm', fun pre r post heq hop => ?_⟩
        rcases List.eq_nil_or_concat post with rfl | ⟨post', x, rfl⟩
        · obtain ⟨rfl, hr⟩ := List.append_inj' heq rfl
          obtain rfl : _ = r := by simpa using hr
          exact hread hq hop
        · rw [List.concat_eq_append, ← List.cons_append, ← List.append_assoc] at heq
          exact hans pre r post' (List.append_inj' heq rfl).1 hop
      · rw [if_neg hq] at hcalm' ⊢
        rw [List.append_nil]
        exact ⟨hcalm', hans⟩
    · exact orderly.elim

/-! ### Every request can finish -/

/-- The steps that are left of a request, at most. -/
def Life.rank (l : Life) : ℕ := if l.phase = .flightq then 20 else 1 + l.left

/-- **A request that is served has a step that does not fail**, if it has blocks for its carriers. -/
theorem Serving.exists_step (h : Serving k ctx l) (hi : Instance ctx) (hk : ∀ n, k.kmalloc n = true)
    (hc : l.type = .read → Content k ctx l.dataBlock d)
    (hcan : l.phase = .flightq → l.req.bio.biOp = .write →
      CanMap ctx (afsGetMapEntry ctx.config l.req.block)) (g : GfCtx) :
    ∃ a ctx' l', a.Smooth ∧ l.step k g ctx a = some (ctx', l') ∧
      (∀ e, a = .flight e → l.phase = .flightq) ∧ (l'.Quiet ∨ l'.rank < l.rank) := by
  have hlt := hi.config.blocks
  obtain ⟨inBlock, op, whole, block, hasBio, stage⟩ := h
  rw [Life.dataBlock] at block
  cases stage with
  | queued fresh life =>
    have hphase : l.phase = .flightq := by rw [life]; rfl
    have hout : l.outstanding = [] := by rw [life]; rfl
    have hrank : l.rank = 20 := if_pos hphase
    rcases op with op | op
    · obtain ⟨r, hr⟩ : ∃ r, l.step k g ctx (.flight zeroEntropy) = some r := by
        rw [Life.step, if_pos hphase, afsFlightq, if_neg (not_not.2 hasBio)]
        simp only [op]
        split <;> exact ⟨_, rfl⟩
      refine ⟨.flight zeroEntropy, r.1, r.2, trivial, hr, fun _ _ => hphase, ?_⟩
      obtain ⟨-, -, ⟨-, heq⟩ | ⟨-, heq⟩⟩ := Life.step_read hr hphase hout op
      · rw [heq]
        exact Or.inl (quiet_afsReqClean hout)
      · right
        rw [heq, hrank, Life.rank, if_neg (by simp [beginReadPages])]
        simp [Life.left, beginReadPages, hout, Phase.upTo]
    · have hstate : ({ l.req with state := .flight } : AfsMapRequest).state = .flight := rfl
      obtain ⟨s, hs⟩ := writeRequestMap_total hk hi.carriers hstate (hcan hphase op) g zeroEntropy
      have hr : l.step k g ctx (.flight zeroEntropy) =
          some (s.1, beginWritePages l false s.1.config s.2) :=
        (LifeStep.startWrite hphase op hs hasBio).step
      refine ⟨.flight zeroEntropy, _, _, trivial, hr, fun _ _ => hphase, Or.inr ?_⟩
      rw [hrank, Life.rank, if_neg (by simp [beginWritePages])]
      simp [Life.left, beginWritePages, hout, Phase.upTo]
  | @reading fresh op mapped read sound =>
    have hphase := read.phase
    by_cases hcr : l.phase = .cryptoq
    · -- the checksums match, so the read is not rebuilt
      have hblock : (flightRequest fresh ctx l.req.bio).block = l.req.bio.biSector / 8 :=
        block_flightRequest (by omega)
      have hst : ¬ Damaged ctx (afsGetMapEntry ctx.config (l.req.bio.biSector / 8)) := by
        rcases hc read.type with ⟨hinv, -⟩ | hst
        · exact absurd (hinv 0 (by norm_num)) (mapped 0 (by norm_num))
        · exact hst.not_damaged
      obtain ⟨map, data, hdec, -, -⟩ := read.decode sound hcr hi hk rfl rfl g
      have hflag₀ : l.req.rebuildFlag = false := by
        rw [read.req]
        rfl
      have hmis := read.mismatch_iff sound hcr hi.carriers
      rw [hblock] at hmis
      have hflag := fun hf => hst (hmis.1 ((readDecode_rebuildFlag hflag₀ hdec).1 hf))
      have hs := (LifeStep.decode hcr hdec (Bool.not_eq_true _ ▸ hflag) hasBio).step
      exact ⟨.crypto, _, _, trivial, hs, (fun _ h => by cases h),
        Or.inl (quiet_afsReqClean (sound.1.queued (.inr (.inr (.inl hcr)))))⟩
    · obtain ⟨a, ctx', l', ha, hs, hleft⟩ := Life.exists_step (k := k) (g := g) sound hi.carriers
        hasBio (hphase.imp_right fun h => Or.inr (h.resolve_right hcr))
      have hfl : l.phase ≠ .flightq := fun hf => by simp [hf] at hphase
      refine ⟨a, ctx', l', ha, hs, fun e he => ?_, Or.inr ?_⟩
      · subst he
        simp [Life.step, hfl] at hs
      · rw [Life.rank, Life.rank, if_neg hfl, if_neg ((lifeStep_of_step hs).left_flightq hfl)]
        omega
  | writing op inst block mapped data write sound alike =>
    have hphase := write.phase
    obtain ⟨a, ctx', l', ha, hs, hleft⟩ := Life.exists_step (k := k) (g := g) sound hi.carriers
      hasBio (Or.inr hphase)
    have hfl : l.phase ≠ .flightq := fun hf => by simp [hf] at hphase
    refine ⟨a, ctx', l', ha, hs, fun e he => ?_, Or.inr ?_⟩
    · subst he
      simp [Life.step, hfl] at hs
    · rw [Life.rank, Life.rank, if_neg hfl, if_neg ((lifeStep_of_step hs).left_flightq hfl)]
      omega

/-- **Every request that is under way can be brought to its end** by steps of its own, whatever the
others are waiting for. -/
theorem Interleaved.drain (h : Interleaved k g ctx₀ done t) (hk : ∀ n, k.kmalloc n = true)
    (h0 : Holds k ctx₀ fun _ _ => 0) (hopen : t.Open i l)
    (hcan : l.phase = .flightq → l.req.bio.biOp = .write →
      CanMap t.ctx (afsGetMapEntry t.ctx.config l.req.block)) :
    ∃ t' l', Interleaved k g ctx₀ (done ++ [⟨l.req.bio, l'⟩]) t' ∧ l'.Quiet ∧
      (∀ j l₂, t'.Open j l₂ ↔ j ≠ i ∧ t.Open j l₂) := by
  obtain ⟨n, hn⟩ : ∃ n, l.rank < n := ⟨_, Nat.lt_succ_self _⟩
  induction n generalizing t l with
  | zero => omega
  | succ n ih =>
    obtain ⟨hcalm, -⟩ := h.calm hk h0
    have hserving := hcalm.serving i l hopen
    obtain ⟨a, ctx', l', ha, hs, hflight, hend⟩ :=
      hserving.exists_step hcalm.inst hk (hcalm.content_of_read hopen) hcan g
    obtain ⟨o, hi, -⟩ := id hopen
    have hcan' : ∀ e l₂, a = .flight e → t.Open i l₂ → l₂.req.bio.biOp = .write →
        CanMap t.ctx (afsGetMapEntry t.ctx.config l₂.req.block) := by
      rintro e l₂ he ⟨o₂, ho₂, -⟩ hop
      rw [hi] at ho₂
      cases ho₂
      exact hcan (hflight e he) hop
    have horderly : Orderly t (.step i a) := ⟨ha, hcan'⟩
    have hnext := h.next horderly (Target.next_step hcalm.registered hi hs)
    rw [finished_step hi] at hnext
    by_cases hq : l'.Quiet
    · rw [if_pos hq] at hnext
      refine ⟨_, l', hnext, hq, fun j l₂ => ?_⟩
      by_cases hji : j = i
      · subst hji
        refine iff_of_false (fun hj => ?_) fun hj => hj.1 rfl
        obtain ⟨-, hno⟩ := hj.self_of_set hi
        exact hno hq
      · rw [open_set_iff hji]
        exact (and_iff_right hji).symm
    · -- the request goes on, and less is left of it
      rw [if_neg hq, List.append_nil] at hnext
      have hlt := hend.resolve_left hq
      have hbio : l'.req.bio = l.req.bio := by
        obtain ⟨-, hout⟩ := hserving.step hcalm.inst hcalm.placed hk (hcalm.content_of_read hopen)
          hs ha fun e he => hcan' e l he hopen
        cases hout with
        | going _ _ sameBio => exact sameBio
        | answered _ quiet => exact absurd quiet hq
        | written _ quiet => exact absurd quiet hq
      have hfl : l'.phase ≠ .flightq := by
        by_cases hp : l.phase = .flightq
        · intro hp'
          rw [Life.rank, Life.rank, if_pos hp, if_pos hp'] at hlt
          exact lt_irrefl _ hlt
        · exact (lifeStep_of_step hs).left_flightq hp
      have hopen' : Target.Open { t with ctx := ctx', lives := t.lives.set i (o, l') } i l' :=
        ⟨o, List.getElem?_set_self (List.getElem?_eq_some_iff.1 hi).1, hq⟩
      obtain ⟨t₂, l₂, h₂, hq₂, hrest⟩ := ih hnext hopen' (fun hp => absurd hp hfl) (by omega)
      rw [hbio] at h₂
      refine ⟨t₂, l₂, h₂, hq₂, fun j l₃ => (hrest j l₃).trans (and_congr_right fun hji => ?_)⟩
      exact open_set_iff hji

end

/-- **Requests on different blocks do not interfere.** After a successful `TYPE_CREATE` over an
increasing free list, in every run of reads and whole-block writes whose steps come in any order,
with no two requests on one block at the same time: every read has returned what was last written
to its block when it ended, or zeros; every block that is not being overwritten holds what was last
written to it; and every request under way can be brought to its end. -/
theorem interleaved_refines_device {k : Kernel} {g : GfCtx} {rounds : ℕ} {args : AfsArgs}
    {len bdevSize : ℕ} {fs : AfsPassiveFs} {disk : Mem} {random : List ℕ} {ctx₀ : AfsPrivate}
    {t : Target} {done : List Done} (hk : ∀ n, k.kmalloc n = true)
    (htype : args.instanceType = .create) (hinc : fs.freeList.Pairwise (· < ·))
    (hsec : ∀ b ∈ fs.freeList, 8 * b + fs.dataStartOff < 2 ^ 32)
    (hctr : afsCtr k rounds args len bdevSize fs disk random = some (.ok ctx₀))
    (h : Interleaved k g ctx₀ done t) :
    (∀ pre r post, done = pre ++ r :: post → r.bio.biOp = .read → Answered (lastWrite pre) r) ∧
    (∀ b < t.ctx.config.numBlocks, (∀ i l, t.Open i l → l.type = .write → l.dataBlock ≠ b) →
      Content k t.ctx b (lastWrite done b)) ∧
    ∀ i l, t.Open i l →
      (l.phase = .flightq → l.req.bio.biOp = .write →
        CanMap t.ctx (afsGetMapEntry t.ctx.config l.req.block)) →
      ∃ t' l', Interleaved k g ctx₀ (done ++ [⟨l.req.bio, l'⟩]) t' ∧ l'.Quiet ∧
        ∀ j l₂, t'.Open j l₂ ↔ j ≠ i ∧ t.Open j l₂ := by
  obtain ⟨hinst, hunmapped⟩ := unmapped_of_create htype hinc hsec hctr
  have h0 : Holds k ctx₀ fun _ _ => 0 := Holds.of_unmapped hinst hunmapped
  obtain ⟨hcalm, hans⟩ := h.calm hk h0
  exact ⟨hans, hcalm.content, fun i l hopen hcan => h.drain hk h0 hopen hcan⟩

theorem next_map_inBlock {k : Kernel} {g : GfCtx} {t : Target} {bio : Bio}
    (hr : t.registered = true) (hbio : bio.InBlock) (hop : bio.biOp = .read ∨ bio.biOp = .write)
    (fresh : AfsMapRequest) :
    t.next k g (.map true fresh bio) = some { t with
      lives := t.lives ++ [(.map, newLife (mapRequest fresh t.ctx bio) .flightq)] } := by
  have hmap : afsMap t.flightEq true fresh t.ctx bio =
      some (.submitted, newLife (mapRequest fresh t.ctx bio) .flightq) := by
    rw [← afsMap_inBlock hbio hop fresh t.ctx, afsMap, afsMap]
    rcases hop with hop | hop <;> simp [acceptPartialBio_biOp, hop]
  rw [Target.next, if_neg (not_not.2 hr)]
  simp only [hmap, Option.bind_eq_bind, Option.bind_some]

theorem interleaved_first {k : Kernel} {g : GfCtx} {ctx₀ : AfsPrivate} {bio : Bio}
    (hbio : bio.InBlock) (hop : bio.biOp = .read ∨ bio.biOp = .write)
    (hwhole : bio.biOp = .write → bio.Whole) (hb : bio.biSector / 8 < ctx₀.config.numBlocks)
    (fresh : AfsMapRequest) :
    Interleaved k g ctx₀ []
      ⟨ctx₀, [(.map, newLife (mapRequest fresh ctx₀ bio) .flightq)], [], [], true⟩ := by
  have horderly : Orderly (newTarget ctx₀) (.map true fresh bio) := by
    refine fun _ _ => ⟨hbio, hwhole, hb, ?_⟩
    rintro i l ⟨o, ho, -⟩
    simp [newTarget] at ho
  exact Interleaved.next .start horderly (next_map_inBlock rfl hbio hop fresh)

/-- A read of the second block of a new instance ends while a write of the first one has not written
its carriers. -/
theorem interleaved_small :
    ∃ ctx₀ t r l, afsCtr (constKernel 1) 1 smallArgs 128 256 smallFs (fun _ => 0)
        [2, 3, 4, 5, 6] = some (.ok ctx₀) ∧
      Interleaved (constKernel 1) gfContextZero ctx₀ [r] t ∧ t.Open 0 l ∧ l.type = .write ∧
      r.bio = blockBio .read 1 (fun _ => 0) ∧ ∀ i < 4096, r.life.answer i = 0 := by
  obtain ⟨ctx₀, hctr, hholds, -, hcan, hblocks, -⟩ := exists_smallInstance
  have hk : ∀ n, (constKernel 1).kmalloc n = true := fun _ => rfl
  have hrefines := fun {done : List Done} {t : Target}
    (h : Interleaved (constKernel 1) gfContextZero ctx₀ done t) =>
      interleaved_refines_device hk (rfl : smallArgs.instanceType = .create)
        (by decide : smallFs.freeList.Pairwise (· < ·)) (by decide) hctr h
  have hwbio := inBlock_blockBio .write 0 UInt8.ofNat
  have hrbio := inBlock_blockBio .read 1 fun _ => 0
  have hop : (blockBio .write 0 UInt8.ofNat).biOp = .write := rfl
  have hw0 : (blockBio .write 0 UInt8.ofNat).biSector / 8 = 0 := by simp [blockBio]
  have hr1 : (blockBio .read 1 fun _ => 0).biSector / 8 = 1 := by simp [blockBio]
  -- the write is mapped, and takes its blocks
  have hpos : (blockBio .write 0 UInt8.ofNat).biSector / 8 < ctx₀.config.numBlocks := by
    rw [hw0, hblocks]
    norm_num
  have h₁ := interleaved_first (k := constKernel 1) (g := gfContextZero) hwbio (Or.inr hop)
    (fun _ => ⟨rfl, rfl⟩) hpos zeroRequest
  have hentry : (loadRequest ctx₀ (flightRequest zeroRequest ctx₀
      (blockBio .write 0 UInt8.ofNat))).mapEntry = afsGetMapEntry ctx₀.config 0 := by
    rw [loadRequest, block_flightRequest (by rw [hw0]; norm_num), hw0]
  obtain ⟨s, hs⟩ := writeRequestMap_total hk hholds.instance_.carriers
    (rfl : (flightRequest zeroRequest ctx₀ (blockBio .write 0 UInt8.ofNat)).state = .flight)
    (hentry ▸ hcan) gfContextZero zeroEntropy
  obtain ⟨hm, -, hsbio⟩ := writeRequestMap_mapped (b := 0) hholds.instance_ hholds.placed hk
    (by rw [hblocks]; norm_num) hentry rfl hs
  have hstep := Life.step_startWrite hop hs
  obtain ⟨w, hw⟩ : ∃ w, beginWritePages (newLife (mapRequest zeroRequest ctx₀
    (blockBio .write 0 UInt8.ofNat)) .flightq) false s.1.config s.2 = w := ⟨_, rfl⟩
  have hwopen : ¬ w.Quiet := by simp [← hw, Life.Quiet, beginWritePages]
  have hwblock : w.dataBlock = 0 := by
    rw [← hw, Life.dataBlock, show (beginWritePages _ false s.1.config s.2).req.bio = _ from hsbio]
    exact hw0
  rw [hw] at hstep
  have hord₂ : ∀ t : Target, t.ctx = ctx₀ → t.lives[0]? = some (.map, newLife (mapRequest zeroRequest
      ctx₀ (blockBio .write 0 UInt8.ofNat)) .flightq) → Orderly t (.step 0 (.flight zeroEntropy)) := by
    rintro t hctx hl
    refine ⟨trivial, fun e l _ hopen _ => ?_⟩
    obtain ⟨o, ho, -⟩ := hopen
    rw [hl] at ho
    cases ho
    rw [hctx]
    exact hentry ▸ hcan
  have h₂ := h₁.next (hord₂ _ rfl rfl) (Target.next_step rfl rfl hstep)
  rw [finished_step rfl, if_neg hwopen, List.append_nil] at h₂
  -- the read is mapped
  have hone : 1 < s.1.config.numBlocks := by
    rw [hm.same.config, hblocks]
    norm_num
  have hfree : ∀ i l, Target.Open ⟨s.1, [(.map, w)], [], [], true⟩ i l → l.dataBlock ≠ 1 := by
    rintro i l ⟨o, ho, -⟩
    cases i with
    | zero =>
      cases ho
      rw [hwblock]
      exact zero_ne_one
    | succ i => simp at ho
  have h₃ := h₂.next
    (show Orderly _ (.map true zeroRequest (blockBio .read 1 fun _ => 0)) from
      fun _ _ => ⟨hrbio, (fun h => by cases h), hr1 ▸ hone, hr1 ▸ hfree⟩)
    (next_map_inBlock rfl hrbio (Or.inl rfl) zeroRequest)
  simp only [finished, List.append_nil] at h₃
  -- and ends while the write waits
  obtain ⟨t, l', h₄, -, hopen⟩ := (hrefines h₃).2.2 1 _ ⟨.map, rfl, by simp [Life.Quiet, newLife]⟩
    fun _ h => by cases h
  refine ⟨ctx₀, t, _, w, hctr, h₄, (hopen 0 w).2 ⟨zero_ne_one, .map, rfl, hwopen⟩, ?_, rfl,
    fun i hi => ?_⟩
  · rw [← hw]
    rfl
  · exact (hrefines h₄).1 [] _ [] rfl rfl i hi

end Artifice
