import Artifice.Engine.Mapping
import Artifice.Engine.Life

/-!
All that a step of a life can do, and the count of the outstanding bios of a request that every
step keeps.
-/

namespace Artifice

open Lib

/-! ### The steps -/

/-- **What a step does**, one constructor for each way that it can go. A step that follows the bio of
the request finds that it was set. -/
inductive LifeStep (k : Kernel) (g : GfCtx) (ctx : AfsPrivate) (l : Life) :
    Act → AfsPrivate → Life → Prop
  | answer {e req} (phase : l.phase = .flightq) (op : l.req.bio.biOp = .read)
      (map : readRequestMap k ctx { l.req with state := .flight } = .brk req)
      (bio : l.req.hasBio = true) :
      LifeStep k g ctx l (.flight e) ctx (afsReqClean { l with req })
  | startRead {e req} (phase : l.phase = .flightq) (op : l.req.bio.biOp = .read)
      (map : readRequestMap k ctx { l.req with state := .flight } = .next req)
      (bio : l.req.hasBio = true) :
      LifeStep k g ctx l (.flight e) ctx (beginReadPages l ctx.config req)
  | refuse {e code s} (phase : l.phase = .flightq) (op : l.req.bio.biOp = .write)
      (map : writeRequestMap k g e ctx { l.req with state := .flight } = some (.ret code s))
      (bio : l.req.hasBio = true) :
      LifeStep k g ctx l (.flight e) s.1 (afsReqClean { l with req := s.2 })
  | startWrite {e s} (phase : l.phase = .flightq) (op : l.req.bio.biOp = .write)
      (map : writeRequestMap k g e ctx { l.req with state := .flight } = some (.next s))
      (bio : l.req.hasBio = true) :
      LifeStep k g ctx l (.flight e) s.1 (beginWritePages l false s.1.config s.2)
  | unknown {e} (phase : l.phase = .flightq)
      (op : l.req.bio.biOp ≠ .read ∧ l.req.bio.biOp ≠ .write) (bio : l.req.hasBio = true) :
      LifeStep k g ctx l (.flight e) ctx (afsReqClean l)
  | skip {req} (phase : l.phase = .rebuildq)
      (map : rebuildRequestMap k ctx { l.req with state := .flight } = .brk req)
      (bio : l.req.hasBio = true) :
      LifeStep k g ctx l .rebuild ctx (afsReqClean { l with req })
  | startRebuild {req} (phase : l.phase = .rebuildq)
      (map : rebuildRequestMap k ctx { l.req with state := .flight } = .next req) :
      LifeStep k g ctx l .rebuild ctx (beginReadPages l ctx.config req)
  | submitRead {i} (phase : l.phase = .readPages i) :
      LifeStep k g ctx l (.submit 0) ctx (submitted l i
        (if i + 1 < ctx.config.numCarrierBlocks then .readPages (i + 1) else .returned))
  | submitWrite {rebuild i} (phase : l.phase = .writePages rebuild i) :
      LifeStep k g ctx l (.submit 0) ctx (submitted l i
        (if i + 1 < ctx.config.numCarrierBlocks then .writePages rebuild (i + 1) else .returned))
  | failRead {i code} (phase : l.phase = .readPages i) (fail : code ≠ 0)
      (bio : l.req.hasBio = true) :
      LifeStep k g ctx l (.submit code) ctx (afsReqClean l)
  | failWrite {i code} (phase : l.phase = .writePages false i) (fail : code ≠ 0)
      (bio : l.req.hasBio = true) :
      LifeStep k g ctx l (.submit code) (resetWrite ctx l.req).1
        (afsReqClean { l with req := (resetWrite ctx l.req).2 })
  | failRebuild {i code} (phase : l.phase = .writePages true i) (fail : code ≠ 0) :
      LifeStep k g ctx l (.submit code) (resetRebuild ctx l.req).1
        { l with req := (resetRebuild ctx l.req).2, phase := .returned }
  | complete {i status t} (mem : i ∈ l.outstanding) (tr : transfer ctx l i status = t)
      (more : l.req.biosPending - 1 ≠ 0) :
      LifeStep k g ctx l (.complete i status) t.1 (countDown l t.2 i)
  | lastRead {i status t} (mem : i ∈ l.outstanding) (tr : transfer ctx l i status = t)
      (last : l.req.biosPending - 1 = 0) (type : l.type = .read) :
      LifeStep k g ctx l (.complete i status) t.1 { countDown l t.2 i with phase := .cryptoq }
  | lastWrite {i status t} (mem : i ∈ l.outstanding) (tr : transfer ctx l i status = t)
      (last : l.req.biosPending - 1 = 0) (type : l.type = .write) (bio : l.req.hasBio = true) :
      LifeStep k g ctx l (.complete i status)
        { t.1 with
          afsMap := storeChecksums t.1.afsMap (countDown l t.2 i).req
            t.1.config.numCarrierBlocks }
        (afsReqClean (countDown l t.2 i))
  | decode {ctx' req} (phase : l.phase = .cryptoq)
      (dec : readDecode k g ctx l.req = some (ctx', req)) (flag : req.rebuildFlag = false)
      (bio : l.req.hasBio = true) :
      LifeStep k g ctx l .crypto ctx' (afsReqClean { l with req })
  | damaged {ctx' req} (phase : l.phase = .cryptoq)
      (dec : readDecode k g ctx l.req = some (ctx', req)) (flag : req.rebuildFlag = true)
      (bio : l.req.hasBio = true) :
      LifeStep k g ctx l .crypto ctx' { l with req, phase := .rebuildBlocks }
  | rebuild {e s} (phase : l.phase = .rebuildBlocks)
      (map : rebuildBlocksMap k g e ctx l.req = some (.next s)) :
      LifeStep k g ctx l (.rebuildBlocks e) s.1 (beginWritePages l true s.1.config s.2)
  | abandon {e code s} (phase : l.phase = .rebuildBlocks)
      (map : rebuildBlocksMap k g e ctx l.req = some (.ret code s)) :
      LifeStep k g ctx l (.rebuildBlocks e) s.1 { l with req := s.2, phase := .returned }

section

variable {k : Kernel} {g : GfCtx} {e : Entropy} {ctx ctx' : AfsPrivate} {l l' : Life} {a : Act}
  {f : Flow (AfsPrivate × AfsMapRequest)} {req : AfsMapRequest} {i : ℕ} {status : ℤ}

/-- The pieces before `write_pages` never end in a `break`. -/
theorem writeRequestMap_ne_brk {s : AfsPrivate × AfsMapRequest} :
    writeRequestMap k g e ctx req ≠ some (.brk s) := by
  intro h
  rcases writeRequestMap_cases h with ⟨-, h⟩ | ⟨-, _, _, -, ⟨-, ⟨-, h⟩ | ⟨-, _, h⟩⟩ |
    ⟨-, _, _, _, -, h⟩⟩
  · cases h
  · cases h
  · cases h
  · split_ifs at h <;> cases h

theorem rebuildBlocksMap_ne_brk {s : AfsPrivate × AfsMapRequest} :
    rebuildBlocksMap k g e ctx req ≠ some (.brk s) := by
  intro h
  obtain ⟨_, _, -, _, _, _, -, h⟩ := rebuildBlocksMap_cases h
  split_ifs at h <;> cases h

theorem transfer_cases (ctx : AfsPrivate) (l : Life) (i : ℕ) (status : ℤ) :
    ∃ disk carrierBlocks, transfer ctx l i status =
      ({ ctx with disk }, { l.req with carrierBlocks }) ∧
      (l.type = .write → carrierBlocks = l.req.carrierBlocks) ∧
      (l.type = .read → disk = ctx.disk) := by
  unfold transfer
  split_ifs with h
  · exact ⟨ctx.disk, l.req.carrierBlocks, rfl, fun _ => rfl, fun _ => rfl⟩
  · split
    next hty => exact ⟨ctx.disk, _, rfl, fun hw => by simp [hty] at hw, fun _ => rfl⟩
    next hty => exact ⟨_, l.req.carrierBlocks, rfl, fun _ => rfl, fun hr => by simp [hty] at hr⟩

/-! ### The bio of a request -/

theorem transfer_bio (ctx : AfsPrivate) (l : Life) (i : ℕ) (status : ℤ) :
    (transfer ctx l i status).2.bio = l.req.bio ∧
      (transfer ctx l i status).2.hasBio = l.req.hasBio := by
  obtain ⟨disk, carriers, ht, -, -⟩ := transfer_cases ctx l i status
  rw [ht]
  exact ⟨rfl, rfl⟩

theorem writeRequestMap_bio (h : writeRequestMap k g e ctx req = some f) :
    f.state.2.bio = req.bio ∧ f.state.2.hasBio = req.hasBio := by
  rcases writeRequestMap_cases h with ⟨-, rfl⟩ | ⟨-, ctx₁, req₁, henc, hcase⟩
  · exact ⟨rfl, rfl⟩
  obtain ⟨map, encoder, carriers, rfl, rfl, -⟩ := encodeRequest_frame henc
  rcases hcase with ⟨-, ⟨-, rfl⟩ | ⟨-, nums, rfl⟩⟩ | ⟨-, bs, v, random, -, rfl⟩
  · exact ⟨rfl, rfl⟩
  · exact ⟨rfl, rfl⟩
  · by_cases hl : bs.length = ctx.config.numCarrierBlocks
    · rw [if_pos hl]
      exact ⟨rfl, rfl⟩
    · rw [if_neg hl]
      exact ⟨rfl, rfl⟩

theorem resetRebuild_bio (ctx : AfsPrivate) (req : AfsMapRequest) :
    (resetRebuild ctx req).2.bio = req.bio ∧ (resetRebuild ctx req).2.hasBio = req.hasBio := by
  simp only [resetRebuild]
  split_ifs
  · exact ⟨rfl, rfl⟩
  · exact ⟨rfl, rfl⟩

theorem rebuildBlocksMap_bio (h : rebuildBlocksMap k g e ctx req = some f) :
    f.state.2.bio = req.bio ∧ f.state.2.hasBio = req.hasBio := by
  obtain ⟨ctx₁, req₁, henc, bs, v, random, -, rfl⟩ := rebuildBlocksMap_cases h
  obtain ⟨map, encoder, carriers, rfl, rfl, -⟩ := encodeRequest_frame henc
  by_cases hl : bs.length = ctx.config.numCarrierBlocks
  · rw [if_pos hl]
    exact ⟨rfl, rfl⟩
  · rw [if_neg hl]
    exact resetRebuild_bio _ _

/-! ### Every step is one of these -/

theorem endRequest_eq_some {r : AfsPrivate × Life} :
    endRequest ctx l = some r ↔ l.req.hasBio = true ∧ r = (ctx, afsReqClean l) := by
  unfold endRequest
  split_ifs with hbio
  · rw [Option.some.injEq, eq_comm, and_iff_right hbio]
  · simp [hbio]

theorem lifeStep_of_completeBio (h : i ∈ l.outstanding)
    (hc : completeBio ctx l i status = some (ctx', l')) :
    LifeStep k g ctx l (.complete i status) ctx' l' := by
  obtain ⟨disk, carriers, ht, -, -⟩ := transfer_cases ctx l i status
  have hpend : (countDown l (transfer ctx l i status).2 i).req.biosPending =
      l.req.biosPending - 1 := by rw [ht]; rfl
  unfold completeBio at hc
  simp only [hpend] at hc
  split_ifs at hc with hlast
  · split at hc
    next hty =>
      simp only [Option.some.injEq, Prod.mk.injEq] at hc
      obtain ⟨rfl, rfl⟩ := hc
      exact .lastRead h rfl hlast hty
    next hty =>
      obtain ⟨hbio, hc⟩ := endRequest_eq_some.1 hc
      obtain ⟨rfl, rfl⟩ := Prod.mk.inj hc
      exact .lastWrite h rfl hlast hty ((transfer_bio ctx l i status).2.symm.trans hbio)
  · simp only [Option.some.injEq, Prod.mk.injEq] at hc
    obtain ⟨rfl, rfl⟩ := hc
    exact .complete h rfl hlast

theorem lifeStep_of_afsFlightq (hp : l.phase = .flightq)
    (h : afsFlightq k g e ctx l = some (ctx', l')) : LifeStep k g ctx l (.flight e) ctx' l' := by
  unfold afsFlightq at h
  split_ifs at h with hbio
  simp only at h
  split at h
  next hop =>
    split at h
    next req hm =>
      simp only [Option.some.injEq, Prod.mk.injEq] at h
      obtain ⟨rfl, rfl⟩ := h
      exact .startRead hp hop hm hbio
    next req hm =>
      simp only [Option.some.injEq, Prod.mk.injEq] at h
      obtain ⟨rfl, rfl⟩ := h
      exact .answer hp hop hm hbio
    next code req hm =>
      -- the request is in flight, so it is not refused
      simp only [readRequestMap] at hm
      split_ifs at hm with h1
      simp at h1
  next hop =>
    simp only [Option.bind_eq_bind, Option.bind_eq_some_iff] at h
    obtain ⟨f, hf, h⟩ := h
    cases f with
    | next s =>
      simp only [Option.some.injEq, Prod.mk.injEq] at h
      obtain ⟨rfl, rfl⟩ := h
      exact .startWrite hp hop hf hbio
    | brk s => exact absurd hf writeRequestMap_ne_brk
    | ret code s =>
      simp only [Option.some.injEq, Prod.mk.injEq] at h
      obtain ⟨rfl, rfl⟩ := h
      exact .refuse hp hop hf hbio
  next h1 h2 =>
    simp only [Option.some.injEq, Prod.mk.injEq] at h
    obtain ⟨rfl, rfl⟩ := h
    exact .unknown hp ⟨h1, h2⟩ hbio

theorem lifeStep_of_afsRebuildq (hp : l.phase = .rebuildq)
    (h : afsRebuildq k ctx l = some (ctx', l')) : LifeStep k g ctx l .rebuild ctx' l' := by
  unfold afsRebuildq at h
  split at h
  next req hm =>
    simp only [Option.some.injEq, Prod.mk.injEq] at h
    obtain ⟨rfl, rfl⟩ := h
    exact .startRebuild hp hm
  next req hm =>
    obtain ⟨hbio, h⟩ := endRequest_eq_some.1 h
    obtain ⟨rfl, rfl⟩ := Prod.mk.inj h
    -- the request of an entry that is not mapped has been given its entry only
    have hreq : req.hasBio = l.req.hasBio := by
      simp only [rebuildRequestMap] at hm
      split_ifs at hm
      rw [← Flow.brk.inj hm]
    exact .skip hp hm (hreq.symm.trans hbio)
  next code req hm =>
    simp only [rebuildRequestMap] at hm
    split_ifs at hm with h1
    simp at h1

theorem lifeStep_of_submitBio {code : ℤ} (h : submitBio ctx l code = some (ctx', l')) :
    LifeStep k g ctx l (.submit code) ctx' l' := by
  unfold submitBio at h
  split at h
  next i hp =>
    by_cases hc : code = 0
    · subst hc
      rw [if_neg (by simp), Option.some.injEq, Prod.mk.injEq] at h
      obtain ⟨rfl, rfl⟩ := h
      exact .submitRead hp
    · rw [if_pos hc] at h
      obtain ⟨hbio, h⟩ := endRequest_eq_some.1 h
      obtain ⟨rfl, rfl⟩ := Prod.mk.inj h
      exact .failRead hp hc hbio
  next rebuild i hp =>
    by_cases hc : code = 0
    · subst hc
      rw [if_neg (by simp), Option.some.injEq, Prod.mk.injEq] at h
      obtain ⟨rfl, rfl⟩ := h
      exact .submitWrite hp
    · rw [if_pos hc] at h
      cases rebuild with
      | false =>
        simp only [Bool.false_eq_true, if_false] at h
        obtain ⟨hbio, h⟩ := endRequest_eq_some.1 h
        obtain ⟨rfl, rfl⟩ := Prod.mk.inj h
        exact .failWrite hp hc hbio
      | true =>
        simp only [if_true, Option.some.injEq, Prod.mk.injEq] at h
        obtain ⟨rfl, rfl⟩ := h
        exact .failRebuild hp hc
  next => exact absurd h (by simp)

theorem lifeStep_of_afsCryptoq (hp : l.phase = .cryptoq)
    (h : afsCryptoq k g ctx l = some (ctx', l')) : LifeStep k g ctx l .crypto ctx' l' := by
  unfold afsCryptoq at h
  split_ifs at h with hbio
  simp only [Option.bind_eq_bind, Option.bind_eq_some_iff] at h
  obtain ⟨⟨ctx₁, req⟩, hdec, h⟩ := h
  simp only at h
  split_ifs at h with hflag
  · simp only [Option.some.injEq, Prod.mk.injEq] at h
    obtain ⟨rfl, rfl⟩ := h
    exact .damaged hp hdec hflag hbio
  · simp only [Option.some.injEq, Prod.mk.injEq] at h
    obtain ⟨rfl, rfl⟩ := h
    exact .decode hp hdec (by simpa using hflag) hbio

theorem lifeStep_of_cryptoqRebuild (hp : l.phase = .rebuildBlocks)
    (h : cryptoqRebuild k g e ctx l = some (ctx', l')) :
    LifeStep k g ctx l (.rebuildBlocks e) ctx' l' := by
  simp only [cryptoqRebuild, Option.bind_eq_bind, Option.bind_eq_some_iff] at h
  obtain ⟨f, hf, h⟩ := h
  cases f with
  | next s =>
    simp only [Option.some.injEq, Prod.mk.injEq] at h
    obtain ⟨rfl, rfl⟩ := h
    exact .rebuild hp hf
  | brk s => exact absurd hf rebuildBlocksMap_ne_brk
  | ret code s =>
    simp only [Option.some.injEq, Prod.mk.injEq] at h
    obtain ⟨rfl, rfl⟩ := h
    exact .abandon hp hf

/-- **Every step goes in one of these ways.** -/
theorem lifeStep_of_step (h : l.step k g ctx a = some (ctx', l')) :
    LifeStep k g ctx l a ctx' l' := by
  cases a with
  | flight e =>
    simp only [Life.step] at h
    split_ifs at h with hp
    exact lifeStep_of_afsFlightq hp h
  | rebuild =>
    simp only [Life.step] at h
    split_ifs at h with hp
    exact lifeStep_of_afsRebuildq hp h
  | submit code => exact lifeStep_of_submitBio h
  | complete i status =>
    simp only [Life.step] at h
    split_ifs at h with hm
    exact lifeStep_of_completeBio hm h
  | crypto =>
    simp only [Life.step] at h
    split_ifs at h with hp
    exact lifeStep_of_afsCryptoq hp h
  | rebuildBlocks e =>
    simp only [Life.step] at h
    split_ifs at h with hp
    exact lifeStep_of_cryptoqRebuild hp h

/-- **And each of these ways is a step.** -/
theorem LifeStep.step (h : LifeStep k g ctx l a ctx' l') :
    l.step k g ctx a = some (ctx', l') := by
  cases h with
  | answer phase op map bio =>
    rw [Life.step, if_pos phase, afsFlightq, if_neg (not_not.2 bio)]
    simp only [op, map]
  | startRead phase op map bio =>
    rw [Life.step, if_pos phase, afsFlightq, if_neg (not_not.2 bio)]
    simp only [op, map]
  | refuse phase op map bio =>
    rw [Life.step, if_pos phase, afsFlightq, if_neg (not_not.2 bio)]
    simp only [op, map, Option.bind_eq_bind, Option.bind_some]
  | startWrite phase op map bio =>
    rw [Life.step, if_pos phase, afsFlightq, if_neg (not_not.2 bio)]
    simp only [op, map, Option.bind_eq_bind, Option.bind_some]
  | unknown phase op bio =>
    rw [Life.step, if_pos phase, afsFlightq, if_neg (not_not.2 bio)]
    dsimp only
    split
    next hop => exact absurd hop op.1
    next hop => exact absurd hop op.2
    next => rfl
  | @skip req phase map bio =>
    have hreq : req.hasBio = l.req.hasBio := by
      simp only [rebuildRequestMap] at map
      split_ifs at map
      rw [← Flow.brk.inj map]
    rw [Life.step, if_pos phase, afsRebuildq]
    simp only [map]
    exact if_pos (hreq.trans bio)
  | startRebuild phase map =>
    rw [Life.step, if_pos phase, afsRebuildq]
    simp only [map]
  | submitRead phase => simp [Life.step, submitBio, phase]
  | submitWrite phase => simp [Life.step, submitBio, phase]
  | failRead phase fail bio =>
    simp only [Life.step, submitBio, phase]
    rw [if_pos fail]
    exact if_pos bio
  | failWrite phase fail bio =>
    simp only [Life.step, submitBio, phase]
    rw [if_pos fail, if_neg Bool.false_ne_true]
    exact if_pos bio
  | failRebuild phase fail => simp [Life.step, submitBio, phase, fail]
  | @complete i status t mem tr more =>
    obtain ⟨disk, carriers, ht, -, -⟩ := transfer_cases ctx l i status
    subst tr
    rw [ht]
    simp [Life.step, mem, completeBio, ht, countDown, more]
  | @lastRead i status t mem tr last type =>
    obtain ⟨disk, carriers, ht, -, -⟩ := transfer_cases ctx l i status
    subst tr
    rw [ht]
    simp [Life.step, mem, completeBio, ht, countDown, last, type]
  | @lastWrite i status t mem tr last type bio =>
    obtain ⟨disk, carriers, ht, -, -⟩ := transfer_cases ctx l i status
    subst tr
    rw [ht]
    simp [Life.step, mem, completeBio, ht, countDown, last, type, endRequest, bio]
  | decode phase dec flag bio =>
    rw [Life.step, if_pos phase, afsCryptoq, if_neg (not_not.2 bio)]
    simp [dec, flag]
  | damaged phase dec flag bio =>
    rw [Life.step, if_pos phase, afsCryptoq, if_neg (not_not.2 bio)]
    simp [dec, flag]
  | rebuild phase map => simp [Life.step, phase, cryptoqRebuild, map]
  | abandon phase map => simp [Life.step, phase, cryptoqRebuild, map]

theorem LifeStep.completion (h : LifeStep k g ctx l a ctx' l')
    (hphase : l.phase = .returned ∨ l.phase = .gone) :
    ∃ i status, a = .complete i status ∧ i ∈ l.outstanding ∧
      (l.req.biosPending - 1 ≠ 0 → l' = countDown l (transfer ctx l i status).2 i) := by
  cases h with
  | complete mem tr => exact ⟨_, _, rfl, mem, fun _ => tr ▸ rfl⟩
  | lastRead mem _ last => exact ⟨_, _, rfl, mem, fun more => absurd last more⟩
  | lastWrite mem _ last => exact ⟨_, _, rfl, mem, fun more => absurd last more⟩
  | answer phase => simp [phase] at hphase
  | startRead phase => simp [phase] at hphase
  | refuse phase => simp [phase] at hphase
  | startWrite phase => simp [phase] at hphase
  | unknown phase => simp [phase] at hphase
  | skip phase => simp [phase] at hphase
  | startRebuild phase => simp [phase] at hphase
  | submitRead phase => simp [phase] at hphase
  | submitWrite phase => simp [phase] at hphase
  | failRead phase => simp [phase] at hphase
  | failWrite phase => simp [phase] at hphase
  | failRebuild phase => simp [phase] at hphase
  | decode phase => simp [phase] at hphase
  | damaged phase => simp [phase] at hphase
  | rebuild phase => simp [phase] at hphase
  | abandon phase => simp [phase] at hphase

/-! ### Reads before `read_pages` -/

theorem takePointers_eq (map : Mem) (req : AfsMapRequest) (n : ℕ) :
    takePointers map req n = { req with
      blockNums := fun j => if j < n then carrierPtr map req.mapEntry j else req.blockNums j
      erasures := fun j => if j < n then UInt8.ofNat (j + 48) else req.erasures j } := by
  induction n with
  | zero => simp [takePointers]
  | succ n ih =>
    rw [takePointers, ih]
    simp only [AfsMapRequest.mk.injEq, true_and, and_true]
    constructor <;> funext j <;> rcases Nat.lt_trichotomy j n with h | rfl | h
    · rw [Function.update_of_ne (by omega), if_pos (by omega), if_pos (by omega)]
    · rw [Function.update_self, if_pos (by omega)]
    · rw [Function.update_of_ne (by omega), if_neg (by omega), if_neg (by omega)]
    · rw [Function.update_of_ne (by omega), if_pos (by omega), if_pos (by omega)]
    · rw [Function.update_self, if_pos (by omega)]
    · rw [Function.update_of_ne (by omega), if_neg (by omega), if_neg (by omega)]

/-- The request that a read or a rebuild goes to `read_pages` with. -/
def takenRequest (k : Kernel) (ctx : AfsPrivate) (req : AfsMapRequest) : AfsMapRequest :=
  { req with
    mapEntry := afsGetMapEntry ctx.config req.block
    encoder := if req.encodingType = .shamir then
      gfshareCtxInitDec k req.erasures ctx.config.numCarrierBlocks 2 4096 else req.encoder
    blockNums := fun j => if j < ctx.config.numCarrierBlocks then
      carrierPtr ctx.afsMap (afsGetMapEntry ctx.config req.block) j else req.blockNums j
    erasures := fun j => if j < ctx.config.numCarrierBlocks then UInt8.ofNat (j + 48)
      else req.erasures j }

/-- The request of a read whose block is not mapped. -/
def zeroedRequest (ctx : AfsPrivate) (req : AfsMapRequest) : AfsMapRequest :=
  answerBio { req with
    mapEntry := afsGetMapEntry ctx.config req.block
    dataBlock := fill req.dataBlock 0 4096 0 }

/-- **A read before `read_pages`.** -/
theorem readRequestMap_eq (hstate : req.state = .flight) :
    readRequestMap k ctx req =
      if carrierPtr ctx.afsMap (afsGetMapEntry ctx.config req.block) 0 = afsInvalidBlock then
        .brk (zeroedRequest ctx req)
      else .next (takenRequest k ctx req) := by
  rw [readRequestMap, if_neg (not_not.2 hstate)]
  dsimp only
  split_ifs with h0 hs
  · rfl
  · rw [takePointers_eq, takenRequest, if_pos hs]
  · rw [takePointers_eq, takenRequest, if_neg hs]

theorem rebuildRequestMap_eq (hstate : req.state = .flight) :
    rebuildRequestMap k ctx req =
      if carrierPtr ctx.afsMap (afsGetMapEntry ctx.config req.block) 0 = afsInvalidBlock then
        .brk { req with mapEntry := afsGetMapEntry ctx.config req.block }
      else .next (takenRequest k ctx req) := by
  rw [rebuildRequestMap, if_neg (not_not.2 hstate)]
  dsimp only
  split_ifs with h0 hs
  · rfl
  · rw [takePointers_eq, takenRequest, if_pos hs]
  · rw [takePointers_eq, takenRequest, if_neg hs]

theorem readRequestMap_next (hstate : req.state = .flight) {req' : AfsMapRequest}
    (h : readRequestMap k ctx req = .next req') :
    carrierPtr ctx.afsMap (afsGetMapEntry ctx.config req.block) 0 ≠ afsInvalidBlock ∧
      req' = takenRequest k ctx req := by
  rw [readRequestMap_eq hstate] at h
  split_ifs at h with h0
  · exact ⟨h0, (Flow.next.inj h).symm⟩

theorem readRequestMap_brk (hstate : req.state = .flight) {req' : AfsMapRequest}
    (h : readRequestMap k ctx req = .brk req') :
    carrierPtr ctx.afsMap (afsGetMapEntry ctx.config req.block) 0 = afsInvalidBlock ∧
      req' = zeroedRequest ctx req := by
  rw [readRequestMap_eq hstate] at h
  split_ifs at h with h0
  · exact ⟨h0, (Flow.brk.inj h).symm⟩

theorem rebuildRequestMap_next (hstate : req.state = .flight) {req' : AfsMapRequest}
    (h : rebuildRequestMap k ctx req = .next req') : req' = takenRequest k ctx req := by
  rw [rebuildRequestMap_eq hstate] at h
  split_ifs at h with h0
  exact (Flow.next.inj h).symm

/-! ### The first step of a request, and its decoding -/

theorem Life.step_flightq {r : AfsPrivate × Life} (h : l.step k g ctx a = some r)
    (hp : l.phase = .flightq) (ho : l.outstanding = []) :
    ∃ e, a = .flight e ∧ afsFlightq k g e ctx l = some r := by
  cases a with
  | flight e =>
    rw [Life.step, if_pos hp] at h
    exact ⟨e, rfl, h⟩
  | rebuild => simp [Life.step, hp] at h
  | submit code => simp [Life.step, submitBio, hp] at h
  | complete i status => simp [Life.step, ho] at h
  | crypto => simp [Life.step, hp] at h
  | rebuildBlocks e => simp [Life.step, hp] at h

theorem Life.step_cryptoq {r : AfsPrivate × Life} (h : l.step k g ctx a = some r)
    (hp : l.phase = .cryptoq) (ho : l.outstanding = []) :
    a = .crypto ∧ afsCryptoq k g ctx l = some r := by
  cases a with
  | flight e => simp [Life.step, hp] at h
  | rebuild => simp [Life.step, hp] at h
  | submit code => simp [Life.step, submitBio, hp] at h
  | complete i status => simp [Life.step, ho] at h
  | crypto =>
    rw [Life.step, if_pos hp] at h
    exact ⟨rfl, h⟩
  | rebuildBlocks e => simp [Life.step, hp] at h

theorem Life.step_rebuildBlocks {r : AfsPrivate × Life} (h : l.step k g ctx a = some r)
    (hp : l.phase = .rebuildBlocks) (ho : l.outstanding = []) :
    ∃ e, a = .rebuildBlocks e ∧ cryptoqRebuild k g e ctx l = some r := by
  cases a with
  | flight e => simp [Life.step, hp] at h
  | rebuild => simp [Life.step, hp] at h
  | submit code => simp [Life.step, submitBio, hp] at h
  | complete i status => simp [Life.step, ho] at h
  | crypto => simp [Life.step, hp] at h
  | rebuildBlocks e =>
    rw [Life.step, if_pos hp] at h
    exact ⟨e, rfl, h⟩

/-- **The first step of a write.** -/
theorem Life.step_write (h : l.step k g ctx a = some (ctx', l')) (hp : l.phase = .flightq)
    (ho : l.outstanding = []) (hop : l.req.bio.biOp = .write) :
    ∃ e, a = .flight e ∧
      ((∃ s, writeRequestMap k g e ctx { l.req with state := .flight } = some (.next s) ∧
        ctx' = s.1 ∧ l' = beginWritePages l false s.1.config s.2) ∨
      ∃ code s, writeRequestMap k g e ctx { l.req with state := .flight } = some (.ret code s) ∧
        ctx' = s.1 ∧ l' = afsReqClean { l with req := s.2 }) := by
  obtain ⟨e, rfl, hf⟩ := Life.step_flightq h hp ho
  refine ⟨e, rfl, ?_⟩
  cases lifeStep_of_afsFlightq hp hf with
  | startWrite _ _ map => exact Or.inl ⟨_, map, rfl, rfl⟩
  | refuse _ _ map => exact Or.inr ⟨_, _, map, rfl, rfl⟩
  | answer _ op => simp [hop] at op
  | startRead _ op => simp [hop] at op
  | unknown _ op => exact absurd hop op.2

/-- **The first step of a read.** -/
theorem Life.step_read (h : l.step k g ctx a = some (ctx', l')) (hp : l.phase = .flightq)
    (ho : l.outstanding = []) (hop : l.req.bio.biOp = .read) :
    ctx' = ctx ∧ (∃ e, a = .flight e) ∧
      (carrierPtr ctx.afsMap (afsGetMapEntry ctx.config l.req.block) 0 = afsInvalidBlock ∧
        l' = afsReqClean { l with req := zeroedRequest ctx { l.req with state := .flight } } ∨
      carrierPtr ctx.afsMap (afsGetMapEntry ctx.config l.req.block) 0 ≠ afsInvalidBlock ∧
        l' = beginReadPages l ctx.config
          (takenRequest k ctx { l.req with state := .flight })) := by
  obtain ⟨e, rfl, hf⟩ := Life.step_flightq h hp ho
  cases lifeStep_of_afsFlightq hp hf with
  | startWrite _ op => simp [hop] at op
  | refuse _ op => simp [hop] at op
  | answer _ _ map =>
    obtain ⟨h0, rfl⟩ := readRequestMap_brk rfl map
    exact ⟨rfl, ⟨e, rfl⟩, Or.inl ⟨h0, rfl⟩⟩
  | startRead _ _ map =>
    obtain ⟨h0, rfl⟩ := readRequestMap_next rfl map
    exact ⟨rfl, ⟨e, rfl⟩, Or.inr ⟨h0, rfl⟩⟩
  | unknown _ op => exact absurd hop op.1

/-- **The decoding of a read.** -/
theorem Life.step_decode (h : l.step k g ctx a = some (ctx', l')) (hp : l.phase = .cryptoq)
    (ho : l.outstanding = []) :
    ∃ req, a = .crypto ∧ readDecode k g ctx l.req = some (ctx', req) ∧
      ((req.rebuildFlag = false ∧ l' = afsReqClean { l with req }) ∨
      (req.rebuildFlag = true ∧ l' = { l with req, phase := .rebuildBlocks })) := by
  obtain ⟨rfl, hf⟩ := Life.step_cryptoq h hp ho
  cases lifeStep_of_afsCryptoq hp hf with
  | decode _ dec flag => exact ⟨_, rfl, dec, Or.inl ⟨flag, rfl⟩⟩
  | damaged _ dec flag => exact ⟨_, rfl, dec, Or.inr ⟨flag, rfl⟩⟩

/-- **The start of the rebuild of a read.** -/
theorem Life.step_rebuild (h : l.step k g ctx a = some (ctx', l')) (hp : l.phase = .rebuildBlocks)
    (ho : l.outstanding = []) :
    ∃ e, a = .rebuildBlocks e ∧
      ((∃ s, rebuildBlocksMap k g e ctx l.req = some (.next s) ∧
        ctx' = s.1 ∧ l' = beginWritePages l true s.1.config s.2) ∨
      ∃ code s, rebuildBlocksMap k g e ctx l.req = some (.ret code s) ∧
        ctx' = s.1 ∧ l' = { l with req := s.2, phase := .returned }) := by
  obtain ⟨e, rfl, hf⟩ := Life.step_rebuildBlocks h hp ho
  cases lifeStep_of_cryptoqRebuild hp hf with
  | rebuild _ map => exact ⟨e, rfl, Or.inl ⟨_, map, rfl, rfl⟩⟩
  | abandon _ map => exact ⟨e, rfl, Or.inr ⟨_, _, map, rfl, rfl⟩⟩

/-! ### The instance stays -/

theorem sameInstance_of_eq {vector : BitVector} {afsMap disk : Mem} {random : List ℕ} :
    SameInstance ctx { ctx with vector, afsMap, disk, random } := ⟨rfl, rfl, rfl, rfl, rfl, rfl⟩

theorem sameInstance_encodeRequest {req' : AfsMapRequest}
    (h : encodeRequest k g e ctx req = some (ctx', req')) : SameInstance ctx ctx' := by
  obtain ⟨map, _, _, rfl, -, -⟩ := encodeRequest_frame h
  exact sameInstance_of_eq

theorem sameInstance_resetEntry (ctx : AfsPrivate) (entry n : ℕ) :
    SameInstance ctx (resetEntry ctx entry n) := by
  obtain ⟨v, he, -, -⟩ := resetEntry_eq ctx entry n
  rw [he]
  exact sameInstance_of_eq

theorem sameInstance_writeRequestMap (h : writeRequestMap k g e ctx req = some f) :
    SameInstance ctx f.state.1 := by
  rcases writeRequestMap_cases h with ⟨-, rfl⟩ | ⟨-, ctx₁, req₁, henc, hcase⟩
  · exact SameInstance.refl ctx
  · have h1 := sameInstance_encodeRequest henc
    rcases hcase with ⟨-, ⟨-, rfl⟩ | ⟨-, nums, rfl⟩⟩ | ⟨-, bs, v, random, -, rfl⟩
    · exact h1
    · exact h1.trans (sameInstance_resetEntry ctx₁ _ _)
    · have h2 : SameInstance ctx₁ (acquiredState ctx₁ req₁ bs v random).1 := sameInstance_of_eq
      by_cases hl : bs.length = ctx.config.numCarrierBlocks
      · rw [if_pos hl]
        exact h1.trans h2
      · rw [if_neg hl]
        exact (h1.trans h2).trans (sameInstance_resetEntry _ _ _)

theorem sameInstance_rebuildBlocksMap (h : rebuildBlocksMap k g e ctx req = some f) :
    SameInstance ctx f.state.1 := by
  obtain ⟨ctx₁, req₁, henc, bs, v, random, -, rfl⟩ := rebuildBlocksMap_cases h
  have h1 := sameInstance_encodeRequest henc
  have h2 : SameInstance ctx₁ (reacquiredState ctx₁ req₁ bs v random).1 := sameInstance_of_eq
  by_cases hl : bs.length = ctx.config.numCarrierBlocks
  · rw [if_pos hl]
    exact h1.trans h2
  · rw [if_neg hl]
    exact (h1.trans h2).trans (sameInstance_resetEntry _ _ _)

theorem decodeRequest_frame {req' : AfsMapRequest}
    (h : decodeRequest k g ctx req = some (ctx', req')) :
    ∃ map dataBlock carrierBlocks, ctx' = { ctx with afsMap := map } ∧
      req' = { req with dataBlock, carrierBlocks } ∧
      ∀ j, j < mapEntryDifference ctx req ∨ mapEntryDifference ctx req + 32 ≤ j →
        map j = ctx.afsMap j := by
  unfold decodeRequest at h
  split at h
  · simp only [Option.bind_eq_bind, Option.bind_eq_some_iff, Option.some.injEq,
      Prod.mk.injEq] at h
    obtain ⟨encoder, -, rfl, rfl⟩ := h
    exact ⟨ctx.afsMap, _, _, rfl, rfl, fun _ _ => rfl⟩
  · simp only [Option.bind_eq_bind, Option.bind_eq_some_iff, Option.some.injEq,
      Prod.mk.injEq] at h
    obtain ⟨⟨-, difference, dataBlock, carriers⟩, -, rfl, rfl⟩ := h
    exact ⟨_, _, _, rfl, rfl, fun j hj => blit_out hj⟩
  · simp only [Option.some.injEq, Prod.mk.injEq] at h
    obtain ⟨rfl, rfl⟩ := h
    exact ⟨ctx.afsMap, _, _, rfl, rfl, fun _ _ => rfl⟩

theorem checkCarriers_frame (map : Mem) (req : AfsMapRequest) (n : ℕ) :
    ∃ rebuildFlag erasures, checkCarriers map req n = { req with rebuildFlag, erasures } := by
  induction n with
  | zero => exact ⟨req.rebuildFlag, req.erasures, rfl⟩
  | succ n ih =>
    obtain ⟨flag, er, hc⟩ := ih
    rw [checkCarriers, hc]
    simp only
    split_ifs
    · exact ⟨_, _, rfl⟩
    · exact ⟨_, _, rfl⟩

/-- A decoded read: the difference field of its entry has changed, and of the request the data, the
carriers, the flag, the share numbers and the answer. -/
theorem readDecode_frame {req' : AfsMapRequest} (h : readDecode k g ctx req = some (ctx', req')) :
    ∃ map dataBlock carrierBlocks rebuildFlag erasures biIoVec,
      ctx' = { ctx with afsMap := map } ∧
      req' = { req with
        dataBlock, carrierBlocks, rebuildFlag, erasures, bio := { req.bio with biIoVec } } ∧
      ∀ j, j < mapEntryDifference ctx req ∨ mapEntryDifference ctx req + 32 ≤ j →
        map j = ctx.afsMap j := by
  simp only [readDecode, Option.bind_eq_bind, Option.bind_eq_some_iff, Option.some.injEq,
    Prod.mk.injEq] at h
  obtain ⟨⟨ctx₁, req₁⟩, hdec, rfl, rfl⟩ := h
  obtain ⟨flag, er, hc⟩ := checkCarriers_frame ctx.afsMap req ctx.config.numCarrierBlocks
  rw [hc] at hdec
  obtain ⟨map, data, carriers, rfl, rfl, hout⟩ := decodeRequest_frame hdec
  exact ⟨map, data, carriers, flag, er, _, rfl, rfl, hout⟩

theorem sameInstance_readDecode {req' : AfsMapRequest}
    (h : readDecode k g ctx req = some (ctx', req')) : SameInstance ctx ctx' := by
  obtain ⟨map, _, _, _, _, _, rfl, -, -⟩ := readDecode_frame h
  exact sameInstance_of_eq

theorem sameInstance_transfer : SameInstance ctx (transfer ctx l i status).1 := by
  obtain ⟨disk, _, ht, -, -⟩ := transfer_cases ctx l i status
  rw [ht]
  exact sameInstance_of_eq

theorem LifeStep.sameInstance (h : LifeStep k g ctx l a ctx' l') : SameInstance ctx ctx' := by
  cases h with
  | answer => exact SameInstance.refl ctx
  | startRead => exact SameInstance.refl ctx
  | refuse _ _ map => exact sameInstance_writeRequestMap map
  | startWrite _ _ map => exact sameInstance_writeRequestMap map
  | unknown => exact SameInstance.refl ctx
  | skip => exact SameInstance.refl ctx
  | startRebuild => exact SameInstance.refl ctx
  | submitRead => exact SameInstance.refl ctx
  | submitWrite => exact SameInstance.refl ctx
  | failRead => exact SameInstance.refl ctx
  | failWrite => exact sameInstance_resetEntry ctx _ _
  | failRebuild => exact sameInstance_resetEntry ctx _ _
  | complete _ tr => exact tr ▸ sameInstance_transfer
  | lastRead _ tr => exact tr ▸ sameInstance_transfer
  | lastWrite _ tr =>
    subst tr
    exact sameInstance_transfer.trans sameInstance_of_eq
  | decode _ dec => exact sameInstance_readDecode dec
  | damaged _ dec => exact sameInstance_readDecode dec
  | rebuild _ map => exact sameInstance_rebuildBlocksMap map
  | abandon _ map => exact sameInstance_rebuildBlocksMap map

/-- **No step sets the bio of a request.** -/
theorem LifeStep.hasBio (h : LifeStep k g ctx l a ctx' l') : l'.req.hasBio = l.req.hasBio := by
  cases h with
  | answer phase op map =>
    obtain ⟨-, rfl⟩ := readRequestMap_brk rfl map
    rfl
  | startRead phase op map =>
    obtain ⟨-, rfl⟩ := readRequestMap_next rfl map
    rfl
  | refuse phase op map => exact (writeRequestMap_bio map).2
  | startWrite phase op map => exact (writeRequestMap_bio map).2
  | unknown => rfl
  | skip phase map =>
    rw [rebuildRequestMap_eq rfl] at map
    split_ifs at map
    rw [← Flow.brk.inj map]
    rfl
  | startRebuild phase map =>
    obtain rfl := rebuildRequestMap_next rfl map
    rfl
  | submitRead => rfl
  | submitWrite => rfl
  | failRead => rfl
  | failWrite => rfl
  | failRebuild => exact (resetRebuild_bio ctx l.req).2
  | complete mem tr => exact tr ▸ (transfer_bio ctx l _ _).2
  | lastRead mem tr => exact tr ▸ (transfer_bio ctx l _ _).2
  | lastWrite mem tr => exact tr ▸ (transfer_bio ctx l _ _).2
  | decode phase dec =>
    obtain ⟨_, _, _, _, _, _, -, rfl, -⟩ := readDecode_frame dec
    rfl
  | damaged phase dec =>
    obtain ⟨_, _, _, _, _, _, -, rfl, -⟩ := readDecode_frame dec
    rfl
  | rebuild phase map => exact (rebuildBlocksMap_bio map).2
  | abandon phase map => exact (rebuildBlocksMap_bio map).2

/-! ### The count of the outstanding bios -/

theorem resetRebuild_biosPending (ctx : AfsPrivate) (req : AfsMapRequest) :
    (resetRebuild ctx req).2.biosPending = req.biosPending := by
  simp only [resetRebuild]
  split_ifs
  · rfl
  · rfl

/-- The pending counter of a request and its outstanding bios, by phase. While a loop submits, the
bios that it has not submitted are pending as well; a request that was freed early, or given up by
a rebuild, counts bios that will never be submitted. -/
def PhaseCount (n : ℕ) (l : Life) : Prop :=
  match l.phase with
  | .flightq | .rebuildq | .cryptoq | .rebuildBlocks => l.outstanding = []
  | .readPages i => l.type = .read ∧ i < n ∧ (∀ j ∈ l.outstanding, j < i) ∧
      l.req.biosPending = n - i + l.outstanding.length
  | .writePages _ i => l.type = .write ∧ i < n ∧ (∀ j ∈ l.outstanding, j < i) ∧
      l.req.biosPending = n - i + l.outstanding.length
  | .returned => l.outstanding ≠ [] → l.outstanding.length ≤ l.req.biosPending
  | .gone => l.outstanding ≠ [] → l.outstanding.length < l.req.biosPending

/-- A life whose bios are counted. -/
structure Counted (n : ℕ) (l : Life) : Prop where
  nodup : l.outstanding.Nodup
  bound : ∀ j ∈ l.outstanding, j < n
  count : PhaseCount n l

variable {n : ℕ}

theorem Counted.newLife {phase : Phase} (h : phase = .flightq ∨ phase = .rebuildq) (req : AfsMapRequest)
    (n : ℕ) : Counted n (newLife req phase) := by
  refine ⟨List.nodup_nil, by simp [Artifice.newLife], ?_⟩
  rcases h with rfl | rfl <;> exact rfl

theorem Counted.queued (hc : Counted n l)
    (hp : l.phase = .flightq ∨ l.phase = .rebuildq ∨ l.phase = .cryptoq ∨
      l.phase = .rebuildBlocks) : l.outstanding = [] := by
  have hcount := hc.count
  rcases hp with hp | hp | hp | hp
  all_goals
    rw [PhaseCount, hp] at hcount
    exact hcount

theorem Counted.not_queued (hc : Counted n l) (mem : i ∈ l.outstanding) :
    ¬ (l.phase = .flightq ∨ l.phase = .rebuildq ∨ l.phase = .cryptoq ∨
      l.phase = .rebuildBlocks) := fun hp =>
  List.ne_nil_of_mem mem (hc.queued hp)

theorem Counted.submitting (hc : Counted n l)
    (hp : l.phase = .readPages i ∨ ∃ rebuild, l.phase = .writePages rebuild i) :
    i < n ∧ (∀ j ∈ l.outstanding, j < i) ∧ l.req.biosPending = n - i + l.outstanding.length := by
  have hcount := hc.count
  rcases hp with hp | ⟨rebuild, hp⟩
  all_goals
    rw [PhaseCount, hp] at hcount
    exact hcount.2

theorem Counted.last (hc : Counted n l) (mem : i ∈ l.outstanding)
    (last : l.req.biosPending - 1 = 0) : l.phase = .returned ∧ l.outstanding = [i] := by
  have hlen : 0 < l.outstanding.length := List.length_pos_of_mem mem
  have hne : l.outstanding ≠ [] := List.ne_nil_of_mem mem
  have hcount := hc.count
  unfold PhaseCount at hcount
  split at hcount
  · exact absurd hcount hne
  · exact absurd hcount hne
  · exact absurd hcount hne
  · exact absurd hcount hne
  · omega
  · omega
  next hp =>
    have := hcount hne
    obtain ⟨j, hj⟩ := List.length_eq_one_iff.1 (by omega : l.outstanding.length = 1)
    rw [hj, List.mem_singleton] at mem
    rw [mem]
    exact ⟨hp, hj⟩
  · have := hcount hne
    omega

theorem Counted.submitted {next : Phase} (hc : Counted n l)
    (hp : l.phase = .readPages i ∨ ∃ rebuild, l.phase = .writePages rebuild i)
    (hnext : (∀ j ∈ (submitted l i next).outstanding, j < i + 1) →
      (submitted l i next).req.biosPending =
        n - (i + 1) + (submitted l i next).outstanding.length →
      PhaseCount n (submitted l i next)) : Counted n (submitted l i next) := by
  obtain ⟨hi, hlt, hpend⟩ := hc.submitting hp
  refine ⟨?_, ?_, hnext ?_ ?_⟩
  · refine List.nodup_append.2 ⟨hc.nodup, List.nodup_singleton i, fun x hx y hy => ?_⟩
    rw [List.mem_singleton.1 hy]
    exact Nat.ne_of_lt (hlt x hx)
  · intro j hj
    rcases List.mem_append.1 hj with h | h
    · exact hc.bound j h
    · rw [List.mem_singleton.1 h]
      exact hi
  · intro j hj
    rcases List.mem_append.1 hj with h | h
    · exact Nat.lt_succ_of_lt (hlt j h)
    · rw [List.mem_singleton.1 h]
      exact Nat.lt_succ_self i
  · simp only [Artifice.submitted, List.length_append, List.length_singleton]
    omega

theorem Counted.countDown (hc : Counted n l) (mem : i ∈ l.outstanding)
    (hreq : req.biosPending = l.req.biosPending) : Counted n (countDown l req i) := by
  have hlen := List.length_erase_of_mem mem
  have hpos : 0 < l.outstanding.length := List.length_pos_of_mem mem
  have hne : l.outstanding ≠ [] := List.ne_nil_of_mem mem
  have hsub : ∀ j ∈ l.outstanding.erase i, j ∈ l.outstanding := fun j => List.mem_of_mem_erase
  refine ⟨hc.nodup.erase i, fun j hj => hc.bound j (hsub j hj), ?_⟩
  have hcount := hc.count
  unfold PhaseCount at hcount ⊢
  simp only [Artifice.countDown]
  split at hcount
  next hp => exact absurd hcount hne
  next hp => exact absurd hcount hne
  next hp => exact absurd hcount hne
  next hp => exact absurd hcount hne
  next j hp =>
    exact ⟨hcount.1, hcount.2.1, fun j hj => hcount.2.2.1 j (hsub j hj), by omega⟩
  next b j hp =>
    exact ⟨hcount.1, hcount.2.1, fun j hj => hcount.2.2.1 j (hsub j hj), by omega⟩
  next hp =>
    intro _
    have := hcount hne
    omega
  next hp =>
    intro _
    have := hcount hne
    omega

theorem Counted.afsReqClean (hc : Counted n l)
    (h : l.outstanding ≠ [] → l.outstanding.length < l.req.biosPending) :
    Counted n (afsReqClean l) := ⟨hc.nodup, hc.bound, h⟩

theorem Counted.of_nil (hc : l.outstanding = []) (hcount : PhaseCount n l) : Counted n l :=
  ⟨hc ▸ List.nodup_nil, by simp [hc], hcount⟩

/-- **Every step keeps the count.** -/
theorem LifeStep.counted (h : LifeStep k g ctx l a ctx' l') (hn : ctx.config.numCarrierBlocks = n)
    (hpos : 0 < n) (hc : Counted n l) : Counted n l' := by
  have hcount := hc.count
  unfold PhaseCount at hcount
  have hconf := h.sameInstance.config
  cases h with
  | answer phase =>
    rw [phase] at hcount
    exact .of_nil hcount fun h0 => absurd hcount h0
  | startRead phase =>
    rw [phase] at hcount
    exact .of_nil hcount ⟨rfl, hpos, by simp [beginReadPages, hcount],
      by simp [beginReadPages, hcount, hn]⟩
  | refuse phase =>
    rw [phase] at hcount
    exact .of_nil hcount fun h0 => absurd hcount h0
  | startWrite phase =>
    rw [phase] at hcount
    exact .of_nil hcount ⟨rfl, hpos, by simp [beginWritePages, hcount],
      by simp [beginWritePages, hcount, hconf, hn]⟩
  | unknown phase =>
    rw [phase] at hcount
    exact .of_nil hcount fun h0 => absurd hcount h0
  | skip phase =>
    rw [phase] at hcount
    exact .of_nil hcount fun h0 => absurd hcount h0
  | startRebuild phase =>
    rw [phase] at hcount
    exact .of_nil hcount ⟨rfl, hpos, by simp [beginReadPages, hcount],
      by simp [beginReadPages, hcount, hn]⟩
  | submitRead phase =>
    rw [phase] at hcount
    rw [hn]
    refine hc.submitted (.inl phase) fun hlt hpend => ?_
    split_ifs at hlt hpend ⊢ with hi
    · exact ⟨hcount.1, hi, hlt, hpend⟩
    · exact fun _ => hpend ▸ Nat.le_add_left ..
  | submitWrite phase =>
    rw [phase] at hcount
    rw [hn]
    refine hc.submitted (.inr ⟨_, phase⟩) fun hlt hpend => ?_
    split_ifs at hlt hpend ⊢ with hi
    · exact ⟨hcount.1, hi, hlt, hpend⟩
    · exact fun _ => hpend ▸ Nat.le_add_left ..
  | failRead phase =>
    rw [phase] at hcount
    exact hc.afsReqClean fun _ => by omega
  | failWrite phase =>
    rw [phase] at hcount
    refine ⟨hc.nodup, hc.bound, fun _ => ?_⟩
    show l.outstanding.length < l.req.biosPending
    omega
  | failRebuild phase =>
    rw [phase] at hcount
    refine ⟨hc.nodup, hc.bound, fun _ => ?_⟩
    simp only [resetRebuild_biosPending]
    omega
  | @complete i status t mem tr more =>
    obtain ⟨disk, carriers, ht, -, -⟩ := transfer_cases ctx l i status
    exact hc.countDown mem (by rw [← tr, ht])
  | @lastRead i status t mem tr last type =>
    obtain ⟨hp, ho⟩ := hc.last mem last
    exact .of_nil (by simp [countDown, ho]) (by simp [PhaseCount, countDown, ho])
  | @lastWrite i status t mem tr last type =>
    obtain ⟨hp, ho⟩ := hc.last mem last
    have : (countDown l t.2 i).outstanding = [] := by simp [countDown, ho]
    exact .of_nil this fun h0 => absurd this h0
  | decode phase =>
    rw [phase] at hcount
    exact .of_nil hcount fun h0 => absurd hcount h0
  | damaged phase =>
    rw [phase] at hcount
    exact .of_nil hcount hcount
  | rebuild phase =>
    rw [phase] at hcount
    exact .of_nil hcount ⟨rfl, hpos, by simp [beginWritePages, hcount],
      by simp [beginWritePages, hcount, hconf, hn]⟩
  | abandon phase =>
    rw [phase] at hcount
    exact .of_nil hcount fun h0 => absurd hcount h0

end

end Artifice
