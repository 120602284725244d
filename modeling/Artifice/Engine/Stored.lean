import Artifice.Engine.Carriers
import Artifice.Engine.Steps
import Artifice.Engine.Segments

/-!
The carriers of a request on the device: what a read has in its pages when all of its bios have
completed, and what a write has put on the device, in whatever order the bios complete.

Nothing else works on the device meanwhile: these are the two invariants of a request that runs
alone, kept by every step that does not fail.
-/

namespace Artifice

open Lib

/-- The page of block `b` on a device, where the carrier bios find it. -/
def devicePage (disk : Mem) (dataStartOff b : ℕ) : Mem := fun i =>
  disk (512 * carrierSector b dataStartOff + i)

/-- Two blocks are apart on the device. -/
def Apart (dataStartOff b b' : ℕ) : Prop :=
  carrierSector b dataStartOff + 8 ≤ carrierSector b' dataStartOff ∨
    carrierSector b' dataStartOff + 8 ≤ carrierSector b dataStartOff

/-- The act does not fail. -/
def Act.Smooth : Act → Prop
  | .submit code => code = 0
  | .complete _ status => status = 0
  | _ => True

/-- How many of the four carrier bios a request has submitted, once it submits. -/
def Phase.upTo : Phase → ℕ
  | .readPages i | .writePages _ i => i
  | _ => 4

/-- The bio of carrier `j` was submitted, and has completed. -/
def Life.Arrived (l : Life) (j : ℕ) : Prop := j < l.phase.upTo ∧ j ∉ l.outstanding

/-- A smooth step of a request that writes its carriers, or has them all submitted. -/
inductive WriteStep (ctx : AfsPrivate) (l : Life) : Act → AfsPrivate → Life → Prop
  | submit {rebuild i} (phase : l.phase = .writePages rebuild i) :
      WriteStep ctx l (.submit 0) ctx (submitted l i
        (if i + 1 < ctx.config.numCarrierBlocks then .writePages rebuild (i + 1) else .returned))
  | complete {i} (mem : i ∈ l.outstanding) (more : l.req.biosPending - 1 ≠ 0) :
      WriteStep ctx l (.complete i 0) (transfer ctx l i 0).1 (countDown l (transfer ctx l i 0).2 i)
  | last {i} (mem : i ∈ l.outstanding) (last : l.req.biosPending - 1 = 0)
      (bio : l.req.hasBio = true) :
      WriteStep ctx l (.complete i 0)
        { (transfer ctx l i 0).1 with
          afsMap := storeChecksums (transfer ctx l i 0).1.afsMap
            (countDown l (transfer ctx l i 0).2 i).req
            (transfer ctx l i 0).1.config.numCarrierBlocks }
        (afsReqClean (countDown l (transfer ctx l i 0).2 i))

section

variable {k : Kernel} {g : GfCtx} {ctx ctx' ctx₁ : AfsPrivate} {l l' : Life} {a : Act}
  {req req₁ : AfsMapRequest} {i j b b' off : ℕ} {disk page : Mem}

theorem carrierSector_eq_or_apart (off b b' : ℕ) :
    carrierSector b off = carrierSector b' off ∨ Apart off b b' := by
  unfold Apart carrierSector
  omega

theorem Apart.symm (h : Apart off b b') : Apart off b' b := Or.symm h

/-- **The steps of a write** from `write_pages` on, when none fails. -/
theorem LifeStep.writeStep (h : LifeStep k g ctx l a ctx' l') (ha : a.Smooth)
    (htype : l.type = .write) (hphase : (∃ rebuild i, l.phase = .writePages rebuild i) ∨
      l.phase = .returned ∨ l.phase = .gone) : WriteStep ctx l a ctx' l' := by
  cases h with
  | submitWrite phase => exact .submit phase
  | complete mem tr more =>
    obtain rfl := ha
    subst tr
    exact .complete mem more
  | lastWrite mem tr last _ bio =>
    obtain rfl := ha
    subst tr
    exact .last mem last bio
  | lastRead _ _ _ type => simp [htype] at type
  | failRead _ fail => exact absurd ha fail
  | failWrite _ fail => exact absurd ha fail
  | failRebuild _ fail => exact absurd ha fail
  | submitRead phase => simp [phase] at hphase
  | answer phase => simp [phase] at hphase
  | startRead phase => simp [phase] at hphase
  | refuse phase => simp [phase] at hphase
  | startWrite phase => simp [phase] at hphase
  | unknown phase => simp [phase] at hphase
  | skip phase => simp [phase] at hphase
  | startRebuild phase => simp [phase] at hphase
  | decode phase => simp [phase] at hphase
  | damaged phase => simp [phase] at hphase
  | rebuild phase => simp [phase] at hphase
  | abandon phase => simp [phase] at hphase

/-! ### Transfers -/

theorem transfer_read (ctx : AfsPrivate) (hty : l.type = .read) (i : ℕ) :
    ∃ page, transfer ctx l i 0 = (ctx, { l.req with
        carrierBlocks := Function.update l.req.carrierBlocks i page }) ∧
      Agree page 0 (devicePage ctx.disk ctx.passiveFs.dataStartOff (l.req.blockNums i)) 0 4096 := by
  unfold transfer
  rw [if_neg (by simp)]
  simp only [hty]
  refine ⟨_, rfl, fun t ht => (agree_blit _ _ _ _ _ t ht).trans ?_⟩
  rw [devicePage, Nat.zero_add]
  rfl

theorem transfer_write (ctx : AfsPrivate) (hty : l.type = .write) (i : ℕ) :
    transfer ctx l i 0 = ({ ctx with
      disk := blit ctx.disk (512 * carrierSector (l.req.blockNums i) ctx.passiveFs.dataStartOff)
        (l.req.carrierBlocks i) 0 4096 }, l.req) := by
  unfold transfer
  rw [if_neg (by simp)]
  simp only [hty]
  rfl

theorem devicePage_write (h : carrierSector b off = carrierSector b' off) :
    Agree (devicePage (blit disk (512 * carrierSector b off) page 0 4096) off b') 0 page 0 4096 := by
  intro t ht
  rw [devicePage, Nat.zero_add, ← h]
  exact (blit_in ht).trans (by rw [Nat.zero_add])

theorem devicePage_write_apart (h : Apart off b b') :
    Agree (devicePage (blit disk (512 * carrierSector b off) page 0 4096) off b') 0
      (devicePage disk off b') 0 4096 := by
  intro t ht
  unfold Apart at h
  rw [devicePage, devicePage, Nat.zero_add]
  exact blit_out (by omega)

/-! ### Arrivals -/

theorem upTo_next {phase : Phase} (hi : i < 4) (hup : phase.upTo = i + 1) :
    (if i + 1 < 4 then phase else .returned).upTo = i + 1 := by
  split_ifs
  · exact hup
  · show 4 = i + 1
    omega

theorem Life.Arrived.of_submitted {phase : Phase} (h : (submitted l i phase).Arrived j)
    (hi : l.phase.upTo = i) (hphase : phase.upTo = i + 1) : l.Arrived j := by
  obtain ⟨h1, h2⟩ := h
  simp only [submitted, List.mem_append, List.mem_singleton, not_or] at h1 h2
  exact ⟨by omega, h2.1⟩

theorem Life.Arrived.of_countDown (h : (countDown l req i).Arrived j) : j = i ∨ l.Arrived j := by
  obtain ⟨h1, h2⟩ := h
  by_cases hj : j = i
  · exact Or.inl hj
  · exact Or.inr ⟨h1, fun hm => h2 ((List.mem_erase_of_ne hj).2 hm)⟩

/-! ### Reads -/

/-- A request that reads its carriers, alone on the device: `req₁` is the request as it went to
`read_pages`. -/
structure Reading (ctx : AfsPrivate) (req₁ : AfsMapRequest) (l : Life) : Prop where
  type : l.type = .read
  phase : (∃ i, l.phase = .readPages i) ∨ l.phase = .returned ∨ l.phase = .cryptoq
  req : l.req = { req₁ with
    carrierBlocks := l.req.carrierBlocks, biosPending := l.req.biosPending }
  pages : ∀ j < 4, l.Arrived j → Agree (l.req.carrierBlocks j) 0
    (devicePage ctx.disk ctx.passiveFs.dataStartOff (req₁.blockNums j)) 0 4096

theorem Reading.begin (l : Life) (config : AfsConfig) (ctx : AfsPrivate) (req₁ : AfsMapRequest) :
    Reading ctx req₁ (beginReadPages l config req₁) :=
  ⟨rfl, Or.inl ⟨0, rfl⟩, rfl, fun j _ h => absurd h.1 (Nat.not_lt_zero j)⟩

theorem Reading.countDown (h : Reading ctx req₁ l) (i : ℕ) :
    Reading ctx req₁ (countDown l (transfer ctx l i 0).2 i) := by
  obtain ⟨page, ht, hp⟩ := transfer_read ctx h.type i
  have hreq := h.req
  have hnum : l.req.blockNums = req₁.blockNums := by rw [hreq]
  refine ⟨h.type, h.phase, ?_, fun j hj ha => ?_⟩
  · rw [ht]
    simp only [Artifice.countDown]
    rw [hreq]
  · have harr := ha.of_countDown
    rw [ht]
    simp only [Artifice.countDown]
    by_cases hji : j = i
    · subst hji
      rw [Function.update_self, ← hnum]
      exact hp
    · rw [Function.update_of_ne hji]
      exact h.pages j hj (harr.resolve_left hji)

/-- **A step of a read that runs alone**, up to the decoding. -/
theorem Reading.step (h : Reading ctx req₁ l) (hs : LifeStep k g ctx l a ctx' l')
    (ha : a.Smooth) (hn : ctx.config.numCarrierBlocks = 4) (hc : Counted 4 l)
    (hq : l.phase ≠ .cryptoq) : ctx' = ctx ∧ Reading ctx req₁ l' := by
  have hphase := h.phase
  cases hs with
  | @submitRead i phase =>
    have hi : i < 4 := (hc.submitting (.inl phase)).1
    refine ⟨rfl, h.type, ?_, h.req, fun j hj harr => h.pages j hj (harr.of_submitted ?_ ?_)⟩
    · rw [hn]
      simp only [submitted]
      split_ifs
      · exact Or.inl ⟨_, rfl⟩
      · exact Or.inr (Or.inl rfl)
    · rw [phase]
      rfl
    · rw [hn]
      exact upTo_next hi rfl
  | @complete i status t mem tr more =>
    obtain rfl : status = 0 := ha
    subst tr
    obtain ⟨page, ht, -⟩ := transfer_read ctx h.type i
    exact ⟨by rw [ht], h.countDown i⟩
  | @lastRead i status t mem tr last type =>
    obtain rfl : status = 0 := ha
    subst tr
    obtain ⟨page, ht, -⟩ := transfer_read ctx h.type i
    obtain ⟨hp, -⟩ := hc.last mem last
    have hd := h.countDown i
    have hup : (Artifice.countDown l (transfer ctx l i 0).2 i).phase.upTo = 4 := by
      simp only [Artifice.countDown, hp, Phase.upTo]
    exact ⟨by rw [ht], h.type, Or.inr (Or.inr rfl), hd.req, fun j hj harr => hd.pages j hj
      ⟨hup.symm ▸ hj, harr.2⟩⟩
  | lastWrite mem _ last type =>
    rw [h.type] at type
    cases type
  | failRead _ fail => exact absurd ha fail
  | failWrite _ fail => exact absurd ha fail
  | failRebuild _ fail => exact absurd ha fail
  | submitWrite phase => simp [phase] at hphase
  | answer phase => simp [phase] at hphase
  | startRead phase => simp [phase] at hphase
  | refuse phase => simp [phase] at hphase
  | startWrite phase => simp [phase] at hphase
  | unknown phase => simp [phase] at hphase
  | skip phase => simp [phase] at hphase
  | startRebuild phase => simp [phase] at hphase
  | decode phase => exact absurd phase hq
  | damaged phase => exact absurd phase hq
  | rebuild phase => simp [phase] at hphase
  | abandon phase => simp [phase] at hphase

/-! ### Writes -/

/-- Carriers that are on one place of the device have the same page. -/
def PagesApart (off : ℕ) (req : AfsMapRequest) : Prop :=
  ∀ i < 4, ∀ j < 4, i ≠ j → Apart off (req.blockNums i) (req.blockNums j) ∨
    Agree (req.carrierBlocks i) 0 (req.carrierBlocks j) 0 4096

/-- A request that writes its carriers, alone on the device: `ctx₁` and `req₁` are the context and
the request as they went to `write_pages`. -/
structure Writing (ctx₁ : AfsPrivate) (req₁ : AfsMapRequest) (ctx : AfsPrivate) (l : Life) :
    Prop where
  type : l.type = .write
  phase : (∃ b i, l.phase = .writePages b i) ∨ l.phase = .returned
  context : ctx = { ctx₁ with disk := ctx.disk }
  req : l.req = { req₁ with biosPending := l.req.biosPending }
  pages : ∀ j < 4, l.Arrived j → Agree
    (devicePage ctx.disk ctx₁.passiveFs.dataStartOff (req₁.blockNums j)) 0 (req₁.carrierBlocks j) 0
    4096
  other : ∀ b, (∀ j < 4, Apart ctx₁.passiveFs.dataStartOff b (req₁.blockNums j)) →
    Agree (devicePage ctx.disk ctx₁.passiveFs.dataStartOff b) 0
      (devicePage ctx₁.disk ctx₁.passiveFs.dataStartOff b) 0 4096
  logged : ∀ j < 4, l.Arrived j → LogEvent.complete j ∈ l.log

theorem Writing.begin (l : Life) (rebuild : Bool) (config : AfsConfig) (ctx₁ : AfsPrivate)
    (req₁ : AfsMapRequest) : Writing ctx₁ req₁ ctx₁ (beginWritePages l rebuild config req₁) :=
  ⟨rfl, Or.inl ⟨rebuild, 0, rfl⟩, rfl, rfl, fun j _ h => absurd h.1 (Nat.not_lt_zero j),
    fun _ _ => Agree.refl _ _ _, fun j _ h => absurd h.1 (Nat.not_lt_zero j)⟩

theorem storeChecksums_congr {map : Mem} (req' : AfsMapRequest) {n : ℕ}
    (h1 : req.mapEntry = req'.mapEntry) (h2 : req.carrierBlocks = req'.carrierBlocks) :
    storeChecksums map req n = storeChecksums map req' n := by
  induction n with
  | zero => rfl
  | succ n ih => rw [storeChecksums, storeChecksums, ih, h1, h2]

theorem Writing.countDown (h : Writing ctx₁ req₁ ctx l)
    (hpages : PagesApart ctx₁.passiveFs.dataStartOff req₁) (hi : i < 4) :
    Writing ctx₁ req₁ (transfer ctx l i 0).1 (countDown l (transfer ctx l i 0).2 i) := by
  have hreq := h.req
  have hnum : l.req.blockNums = req₁.blockNums := by rw [hreq]
  have hcar : l.req.carrierBlocks = req₁.carrierBlocks := by rw [hreq]
  have hoff : ctx.passiveFs = ctx₁.passiveFs := by rw [h.context]
  rw [transfer_write ctx h.type, hnum, hcar, hoff]
  refine ⟨h.type, h.phase, ?_, ?_, fun j hj ha => ?_, fun b hb => ?_, fun j hj ha => ?_⟩
  · rw [h.context]
  · simp only [Artifice.countDown]
    rw [hreq]
  · rcases carrierSector_eq_or_apart ctx₁.passiveFs.dataStartOff (req₁.blockNums i)
      (req₁.blockNums j) with heq | hap
    · have hself : Agree (devicePage (blit ctx.disk (512 * carrierSector (req₁.blockNums i)
          ctx₁.passiveFs.dataStartOff) (req₁.carrierBlocks i) 0 4096)
          ctx₁.passiveFs.dataStartOff (req₁.blockNums j)) 0 (req₁.carrierBlocks i) 0 4096 :=
        devicePage_write heq
      by_cases hij : i = j
      · rwa [hij] at hself ⊢
      · rcases hpages i hi j hj hij with hap | hagree
        · unfold Apart at hap
          omega
        · exact hself.trans hagree
    · have hij : j ≠ i := by
        rintro rfl
        unfold Apart at hap
        omega
      exact (devicePage_write_apart hap).trans (h.pages j hj (ha.of_countDown.resolve_left hij))
  · exact (devicePage_write_apart (hb i hi).symm).trans (h.other b hb)
  · simp only [Artifice.countDown, List.mem_append, List.mem_singleton, LogEvent.complete.injEq]
    exact ha.of_countDown.symm.imp (h.logged j hj) id

/-- **A step of a write that runs alone**: it goes on, or it is the last completion. -/
theorem Writing.step (h : Writing ctx₁ req₁ ctx l) (hs : LifeStep k g ctx l a ctx' l')
    (ha : a.Smooth) (hn : ctx₁.config.numCarrierBlocks = 4) (hc : Counted 4 l)
    (hpages : PagesApart ctx₁.passiveFs.dataStartOff req₁) :
    Writing ctx₁ req₁ ctx' l' ∨
      ∃ l₂ ctx₂, Writing ctx₁ req₁ ctx₂ l₂ ∧ (∀ j < 4, l₂.Arrived j) ∧
        ctx' = { ctx₂ with afsMap := storeChecksums ctx₁.afsMap req₁ 4 } ∧
        l' = afsReqClean l₂ := by
  have hconf : ctx.config = ctx₁.config := by rw [h.context]
  cases hs.writeStep ha h.type (h.phase.imp_right Or.inl) with
  | @submit rebuild i phase =>
    have hi : i < 4 := (hc.submitting (.inr ⟨rebuild, phase⟩)).1
    have harrived : ∀ j, (submitted l i (if i + 1 < ctx.config.numCarrierBlocks then
        .writePages rebuild (i + 1) else .returned)).Arrived j → l.Arrived j := by
      intro j harr
      refine harr.of_submitted (by rw [phase]; rfl) ?_
      rw [hconf, hn]
      exact upTo_next hi rfl
    refine Or.inl ⟨h.type, ?_, h.context, h.req, fun j hj harr => h.pages j hj (harrived j harr),
      h.other, fun j hj harr => List.mem_append_left _ (h.logged j hj (harrived j harr))⟩
    rw [hconf, hn]
    simp only [submitted]
    split_ifs
    · exact Or.inl ⟨_, _, rfl⟩
    · exact Or.inr rfl
  | @complete i mem more =>
    exact Or.inl (h.countDown hpages (hc.bound i mem))
  | @last i mem last =>
    obtain ⟨hp, ho⟩ := hc.last mem last
    have hd := h.countDown hpages (hc.bound i mem)
    refine Or.inr ⟨_, _, hd, fun j hj => ?_, ?_, rfl⟩
    · simp only [Life.Arrived, Artifice.countDown, hp, Phase.upTo, ho]
      exact ⟨hj, by simp⟩
    · have hreq := h.req
      rw [transfer_write ctx h.type]
      simp only [hconf, hn, Artifice.countDown]
      rw [storeChecksums_congr req₁ (by rw [hreq]) (by rw [hreq]),
        show ctx.afsMap = ctx₁.afsMap by rw [h.context]]

end

end Artifice
