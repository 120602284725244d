import Artifice.Engine.Atomic
import Artifice.Engine.Stored

/-!
How often the bio of a request is ended and the request is cleaned up.

A run is the life of one request among others: every step finds the context as the other requests
have left it. A step *goes wrong* when a carrier bio cannot be set up while others of the request
are outstanding, and when a rebuild fails: the first frees a request that is still in use, the
second leaves it behind.
-/

namespace Artifice

open Lib

/-- A step of a run: the context that it finds, the life before it, and the act. -/
structure Moment where
  ctx : AfsPrivate
  life : Life
  act : Act

/-- The life of a request with `n` carriers, while others work on the context. -/
inductive LifeRun (k : Kernel) (g : GfCtx) (n : ℕ) : Life → List Moment → Life → Prop
  | nil (l : Life) : LifeRun k g n l [] l
  | cons {ctx ctx' : AfsPrivate} {l l₁ l₂ : Life} {a : Act} {run : List Moment}
      (carriers : ctx.config.numCarrierBlocks = n) (step : l.step k g ctx a = some (ctx', l₁))
      (rest : LifeRun k g n l₁ run l₂) : LifeRun k g n l (⟨ctx, l, a⟩ :: run) l₂

/-- The bio is ended once and the request cleaned up once, and no carrier bio completes after
either. -/
def ExactlyOnce (log : List LogEvent) : Prop :=
  log.count .endio = 1 ∧ log.count .clean = 1 ∧
    ∀ pre post e, (e = .endio ∨ e = .clean) → log = pre ++ e :: post → ∀ i, .complete i ∉ post

/-- A carrier page has another checksum than its tuple. -/
def Mismatch (ctx : AfsPrivate) (req : AfsMapRequest) : Prop :=
  ∃ i < ctx.config.numCarrierBlocks, tupleChecksum ctx.afsMap req.mapEntry i ≠
    (cityhash32To16 (req.carrierBlocks i) 4096).toNat

/-- A carrier bio cannot be set up, while another is outstanding or in a rebuild. -/
def LateFailure (m : Moment) : Prop :=
  ∃ code ≠ 0, m.act = .submit code ∧
    (m.life.outstanding ≠ [] ∨ ∃ i, m.life.phase = .writePages true i)

/-- A read that has found a mismatch comes to its rebuild, and there are no blocks for it. -/
def NoRebuild (m : Moment) : Prop :=
  (∃ e, m.act = .rebuildBlocks e) ∧ ¬ CanAcquire m.ctx

section

variable {k : Kernel} {g : GfCtx} {e : Entropy} {ctx ctx' : AfsPrivate} {l l' : Life} {a : Act}
  {req req' : AfsMapRequest} {n : ℕ} {run : List Moment}

/-! ### The flag -/

theorem checkCarriers_rebuildFlag (map : Mem) (req : AfsMapRequest) (n : ℕ) :
    (checkCarriers map req n).rebuildFlag = true ↔ req.rebuildFlag = true ∨
      ∃ i < n, tupleChecksum map req.mapEntry i ≠
        (cityhash32To16 (req.carrierBlocks i) 4096).toNat := by
  induction n with
  | zero => simp [checkCarriers]
  | succ n ih =>
    obtain ⟨flag, er, hc⟩ := checkCarriers_frame map req n
    rw [checkCarriers]
    have hsame : (checkCarriers map req n).mapEntry = req.mapEntry ∧
        (checkCarriers map req n).carrierBlocks = req.carrierBlocks := by rw [hc]; exact ⟨rfl, rfl⟩
    simp only [hsame.1, hsame.2]
    split_ifs with hm
    · exact iff_of_true rfl (Or.inr ⟨n, Nat.lt_succ_self n, hm⟩)
    · rw [ih]
      refine or_congr_right ⟨?_, ?_⟩
      · rintro ⟨i, hi, h⟩
        exact ⟨i, by omega, h⟩
      · rintro ⟨i, hi, h⟩
        rcases Nat.lt_succ_iff_lt_or_eq.1 hi with hi | rfl
        · exact ⟨i, hi, h⟩
        · exact absurd h hm

theorem readDecode_rebuildFlag (hflag : req.rebuildFlag = false)
    (h : readDecode k g ctx req = some (ctx', req')) :
    req'.rebuildFlag = true ↔ Mismatch ctx req := by
  simp only [readDecode, Option.bind_eq_bind, Option.bind_eq_some_iff, Option.some.injEq,
    Prod.mk.injEq] at h
  obtain ⟨⟨ctx₁, req₁⟩, hdec, rfl, rfl⟩ := h
  obtain ⟨map, data, carriers, rfl, rfl, -⟩ := decodeRequest_frame hdec
  have := checkCarriers_rebuildFlag ctx.afsMap req ctx.config.numCarrierBlocks
  simpa [hflag, Mismatch, answerBio] using this

theorem rebuildBlocksMap_next {s : AfsPrivate × AfsMapRequest}
    (h : rebuildBlocksMap k g e ctx req = some (.next s)) : CanAcquire ctx := by
  obtain ⟨_, _, -, bs, v, random, hacq, hlen, -⟩ := rebuildBlocksMap_started h
  exact ⟨bs, v, random, hacq, hlen⟩

theorem rebuildBlocksMap_ret {code : ℤ} {s : AfsPrivate × AfsMapRequest}
    (h : rebuildBlocksMap k g e ctx req = some (.ret code s)) : ¬ CanAcquire ctx := by
  obtain ⟨_, _, -, bs, v, random, hacq, hf⟩ := rebuildBlocksMap_cases h
  rw [canAcquire_iff hacq]
  intro hl
  dsimp only at hf
  rw [if_pos hl] at hf
  cases hf

/-! ### Lives that go well -/

/-- A life in which no step has gone wrong. -/
structure Well (l : Life) : Prop where
  open_ : l.phase ≠ .gone → LogEvent.endio ∉ l.log ∧ LogEvent.clean ∉ l.log
  closed : l.phase = .gone → l.outstanding = [] ∧ ∃ pre, l.log = pre ++ [.endio, .clean] ∧
    LogEvent.endio ∉ pre ∧ LogEvent.clean ∉ pre
  waiting : l.phase = .returned → l.outstanding ≠ [] ∧ l.req.biosPending = l.outstanding.length
  queued : l.phase = .flightq ∨ l.phase = .rebuildq ∨ l.phase = .cryptoq ∨
    l.phase = .rebuildBlocks → l.type = .read
  flag : l.type = .read → l.phase ≠ .gone → l.phase ≠ .rebuildBlocks → l.req.rebuildFlag = false

/-- A life in which a step has gone wrong: the request was left behind, or freed while it was in
use. -/
inductive Wrong (l : Life) : Prop
  | lost (phase : l.phase = .returned) (open_ : LogEvent.endio ∉ l.log)
      (more : l.outstanding.length < l.req.biosPending ∨ l.outstanding = [])
  | early (phase : l.phase = .gone) (pre post : List LogEvent)
      (log : l.log = pre ++ .clean :: post)
      (late : l.outstanding ≠ [] ∨ ∃ i, LogEvent.complete i ∈ post)

theorem Well.afsReqClean (ho : l.outstanding = [])
    (hlog : LogEvent.endio ∉ l.log ∧ LogEvent.clean ∉ l.log) : Well (afsReqClean l) :=
  ⟨fun h => absurd rfl h, fun _ => ⟨ho, l.log, rfl, hlog⟩, fun h => Phase.noConfusion h,
    fun h => by rcases h with h | h | h | h <;> exact Phase.noConfusion h,
    fun _ h => absurd rfl h⟩

theorem Wrong.afsReqClean (ho : l.outstanding ≠ []) : Wrong (afsReqClean l) :=
  .early rfl (l.log ++ [.endio]) [] (by simp [Artifice.afsReqClean]) (Or.inl ho)

theorem Well.beginReadPages {config : AfsConfig} (hw : Well l)
    (hq : l.phase = .flightq ∨ l.phase = .rebuildq)
    (hflag : req.rebuildFlag = l.req.rebuildFlag) : Well (beginReadPages l config req) := by
  have hg : l.phase ≠ .gone := by rcases hq with h | h <;> simp [h]
  have hr : l.phase ≠ .rebuildBlocks := by rcases hq with h | h <;> simp [h]
  refine ⟨fun _ => hw.open_ hg, fun h => Phase.noConfusion h, fun h => Phase.noConfusion h,
    fun _ => rfl, fun _ _ _ => hflag.trans (hw.flag (hw.queued ?_) hg hr)⟩
  exact hq.imp_right Or.inl

theorem Well.beginWritePages {rebuild : Bool} {config : AfsConfig} (hw : Well l)
    (hg : l.phase ≠ .gone) : Well (beginWritePages l rebuild config req) := by
  refine ⟨fun _ => hw.open_ hg, fun h => Phase.noConfusion h, fun h => Phase.noConfusion h,
    fun h => ?_, fun h => AfsIoType.noConfusion h⟩
  rcases h with h | h | h | h <;> exact Phase.noConfusion h

theorem Well.submitted {i : ℕ} {phase : Phase} (hw : Well l) (hgone : l.phase ≠ .gone)
    (hreb : l.phase ≠ .rebuildBlocks) (hp : phase ≠ .gone)
    (hq : ¬ (phase = .flightq ∨ phase = .rebuildq ∨ phase = .cryptoq ∨ phase = .rebuildBlocks))
    (hlast : phase = .returned → l.req.biosPending = l.outstanding.length + 1) :
    Well (submitted l i phase) := by
  have hlog := hw.open_ hgone
  refine ⟨fun _ => ?_, fun h => absurd h hp, fun h => ⟨by simp [Artifice.submitted], ?_⟩,
    fun h => ?_, fun hty _ _ => hw.flag hty hgone hreb⟩
  · simp [Artifice.submitted, hlog.1, hlog.2]
  · simp only [Artifice.submitted, List.length_append, List.length_singleton]
    exact hlast h
  · exact absurd h hq

theorem Well.countDown {i : ℕ} (hw : Well l) (mem : i ∈ l.outstanding)
    (more : l.req.biosPending - 1 ≠ 0) (hpend : req.biosPending = l.req.biosPending)
    (hflag : req.rebuildFlag = l.req.rebuildFlag) : Well (countDown l req i) := by
  have hlen := List.length_erase_of_mem mem
  refine ⟨fun hg => ?_, fun hg => ?_, fun hr => ?_, hw.queued, fun hty hg hr =>
    hflag.trans (hw.flag hty hg hr)⟩
  · have := hw.open_ hg
    simp [Artifice.countDown, this.1, this.2]
  · have := (hw.closed hg).1
    rw [this] at mem
    exact absurd mem (by simp)
  · have hwait := (hw.waiting hr).2
    have hpos : 0 < (l.outstanding.erase i).length := by omega
    refine ⟨List.ne_nil_of_length_pos hpos, ?_⟩
    simp only [Artifice.countDown, hpend]
    omega

/-- **A step that does not go wrong** keeps a life well. -/
theorem LifeStep.well (h : LifeStep k g ctx l a ctx' l') (hn : ctx.config.numCarrierBlocks = n)
    (hc : Counted n l) (hw : Well l) (hlate : ¬ LateFailure ⟨ctx, l, a⟩)
    (hno : ¬ NoRebuild ⟨ctx, l, a⟩) : Well l' := by
  have hopen (phase : Phase) (hp : l.phase = phase) (hg : phase ≠ .gone) :
      LogEvent.endio ∉ l.log ∧ LogEvent.clean ∉ l.log := hw.open_ (hp ▸ hg)
  cases h with
  | answer phase => exact .afsReqClean (hc.queued (.inl phase)) (hopen _ phase (by simp))
  | startRead phase op map =>
    obtain ⟨-, rfl⟩ := readRequestMap_next rfl map
    exact hw.beginReadPages (Or.inl phase) rfl
  | refuse phase => exact .afsReqClean (hc.queued (.inl phase)) (hopen _ phase (by simp))
  | startWrite phase => exact hw.beginWritePages (by simp [phase])
  | unknown phase => exact .afsReqClean (hc.queued (.inl phase)) (hopen _ phase (by simp))
  | skip phase => exact .afsReqClean (hc.queued (.inr (.inl phase))) (hopen _ phase (by simp))
  | startRebuild phase map =>
    obtain rfl := rebuildRequestMap_next rfl map
    exact hw.beginReadPages (Or.inr phase) rfl
  | submitRead phase =>
    obtain ⟨hlt, -, hpend⟩ := hc.submitting (.inl phase)
    refine hw.submitted (by simp [phase]) (by simp [phase]) (by split_ifs <;> simp)
      (by split_ifs <;> simp) fun hr => ?_
    rw [hn] at hr
    split_ifs at hr with hi
    omega
  | submitWrite phase =>
    obtain ⟨hlt, -, hpend⟩ := hc.submitting (.inr ⟨_, phase⟩)
    refine hw.submitted (by simp [phase]) (by simp [phase]) (by split_ifs <;> simp)
      (by split_ifs <;> simp) fun hr => ?_
    rw [hn] at hr
    split_ifs at hr with hi
    omega
  | @failRead i code phase fail =>
    have ho : l.outstanding = [] := by
      by_contra ho
      exact hlate ⟨code, fail, rfl, Or.inl ho⟩
    exact .afsReqClean ho (hopen _ phase (by simp))
  | @failWrite i code phase fail =>
    have ho : l.outstanding = [] := by
      by_contra ho
      exact hlate ⟨code, fail, rfl, Or.inl ho⟩
    exact .afsReqClean ho (hopen _ phase (by simp))
  | @failRebuild i code phase fail => exact absurd ⟨code, fail, rfl, Or.inr ⟨i, phase⟩⟩ hlate
  | @complete i status t mem tr more =>
    obtain ⟨disk, carriers, ht, -, -⟩ := transfer_cases ctx l i status
    subst tr
    exact hw.countDown mem more (by rw [ht]) (by rw [ht])
  | @lastRead i status t mem tr last type =>
    obtain ⟨hp, ho⟩ := hc.last mem last
    obtain ⟨disk, carriers, ht, -, -⟩ := transfer_cases ctx l i status
    subst tr
    have hlog := hopen _ hp (by simp)
    refine ⟨fun _ => by simp [countDown, hlog.1, hlog.2], fun h => Phase.noConfusion h,
      fun h => Phase.noConfusion h, fun _ => type, fun _ _ _ => ?_⟩
    rw [ht]
    exact hw.flag type (by simp [hp]) (by simp [hp])
  | @lastWrite i status t mem tr last type =>
    obtain ⟨hp, ho⟩ := hc.last mem last
    have hlog := hopen _ hp (by simp)
    exact .afsReqClean (by simp [countDown, ho]) (by simp [countDown, hlog.1, hlog.2])
  | decode phase =>
    exact .afsReqClean (hc.queued (.inr (.inr (.inl phase)))) (hopen _ phase (by simp))
  | damaged phase =>
    exact ⟨fun _ => hopen _ phase (by simp), fun h => Phase.noConfusion h,
      fun h => Phase.noConfusion h, fun _ => hw.queued (Or.inr (Or.inr (Or.inl phase))),
      fun _ _ h => absurd rfl h⟩
  | rebuild phase => exact hw.beginWritePages (by simp [phase])
  | @abandon e code s phase map => exact absurd ⟨⟨e, rfl⟩, rebuildBlocksMap_ret map⟩ hno

/-- **A step that goes wrong.** -/
theorem LifeStep.wrong (h : LifeStep k g ctx l a ctx' l') (hc : Counted n l) (hw : Well l)
    (hbad : LateFailure ⟨ctx, l, a⟩ ∨ NoRebuild ⟨ctx, l, a⟩) : Wrong l' := by
  rcases hbad with ⟨code, hcode, hact, hlate⟩ | ⟨⟨e, hact⟩, hcan⟩
  · simp only at hact hlate
    subst hact
    cases h with
    | submitRead => exact absurd rfl hcode
    | submitWrite => exact absurd rfl hcode
    | failRead phase =>
      rcases hlate with ho | ⟨i, hp⟩
      · exact .afsReqClean ho
      · rw [phase] at hp
        cases hp
    | failWrite phase =>
      rcases hlate with ho | ⟨i, hp⟩
      · exact .afsReqClean (l := { l with req := (resetWrite ctx l.req).2 }) ho
      · rw [phase] at hp
        cases hp
    | failRebuild phase =>
      obtain ⟨hi, -, hpend⟩ := hc.submitting (.inr ⟨_, phase⟩)
      refine .lost rfl (hw.open_ (by simp [phase])).1 (Or.inl ?_)
      simp only [resetRebuild_biosPending]
      omega
  · simp only at hact hcan
    subst hact
    cases h with
    | rebuild phase map => exact absurd (rebuildBlocksMap_next map) hcan
    | abandon phase =>
      exact .lost rfl (hw.open_ (by simp [phase])).1
        (Or.inr (hc.queued (.inr (.inr (.inr phase)))))

theorem LifeStep.wrong_complete (h : LifeStep k g ctx l a ctx' l') (hc : Counted n l)
    (hw : Wrong l) : ∃ i status, a = .complete i status ∧ i ∈ l.outstanding ∧
      l.req.biosPending - 1 ≠ 0 ∧ l' = countDown l (transfer ctx l i status).2 i := by
  have hphase : l.phase = .returned ∨ l.phase = .gone := by
    cases hw with
    | lost phase => exact Or.inl phase
    | early phase => exact Or.inr phase
  have hlast (i : ℕ) (mem : i ∈ l.outstanding) : l.req.biosPending - 1 ≠ 0 := by
    intro last
    obtain ⟨hp, ho⟩ := hc.last mem last
    cases hw with
    | lost _ _ more =>
      rcases more with hm | hm
      · have := List.length_pos_of_mem mem
        omega
      · simp [hm] at ho
    | early phase => simp [hp] at phase
  obtain ⟨i, status, rfl, mem, hres⟩ := h.completion hphase
  exact ⟨i, status, rfl, mem, hlast i mem, hres (hlast i mem)⟩

theorem LifeStep.stays_wrong (h : LifeStep k g ctx l a ctx' l') (hc : Counted n l)
    (hw : Wrong l) : Wrong l' := by
  obtain ⟨i, status, -, mem, more, rfl⟩ := h.wrong_complete hc hw
  obtain ⟨disk, carriers, ht, -, -⟩ := transfer_cases ctx l i status
  have hlen := List.length_erase_of_mem mem
  have hpos := List.length_pos_of_mem mem
  cases hw with
  | lost phase open_ more' =>
    refine .lost phase (by simp [countDown, open_]) (Or.inl ?_)
    rcases more' with hm | hm
    · simp only [countDown, ht]
      omega
    · simp [hm] at mem
  | early phase pre post log late =>
    exact .early phase pre (post ++ [.complete i]) (by simp [countDown, log])
      (Or.inr ⟨i, by simp⟩)

/-! ### Runs -/

/-- A moment at which a step goes wrong. -/
def GoesWrong (m : Moment) : Prop := LateFailure m ∨ NoRebuild m

theorem LifeRun.stays_wrong (h : LifeRun k g n l run l') (hpos : 0 < n) (hc : Counted n l)
    (hw : Wrong l) : Wrong l' := by
  induction h with
  | nil l => exact hw
  | cons carriers step rest ih =>
    have hs := lifeStep_of_step step
    exact ih (hs.counted carriers hpos hc) (hs.stays_wrong hc hw)

theorem LifeRun.well_or_wrong (h : LifeRun k g n l run l') (hpos : 0 < n) (hc : Counted n l)
    (hw : Well l) :
    ((∀ m ∈ run, ¬ GoesWrong m) ∧ Well l') ∨ ((∃ m ∈ run, GoesWrong m) ∧ Wrong l') := by
  induction h with
  | nil l => exact Or.inl ⟨by simp, hw⟩
  | @cons ctx ctx' l l₁ l₂ a run carriers step rest ih =>
    have hs := lifeStep_of_step step
    have hc₁ := hs.counted carriers hpos hc
    by_cases hbad : GoesWrong ⟨ctx, l, a⟩
    · exact Or.inr ⟨⟨_, List.mem_cons_self, hbad⟩, rest.stays_wrong hpos hc₁ (hs.wrong hc hw hbad)⟩
    · have hgood := not_or.1 hbad
      rcases ih hc₁ (hs.well carriers hc hw hgood.1 hgood.2) with ⟨hall, hw'⟩ | ⟨⟨m, hm, hb⟩, hw'⟩
      · refine Or.inl ⟨fun m hm => ?_, hw'⟩
        rcases List.mem_cons.1 hm with rfl | hm
        · exact hbad
        · exact hall m hm
      · exact Or.inr ⟨⟨m, List.mem_cons_of_mem _ hm, hb⟩, hw'⟩

theorem Well.exactlyOnce (hw : Well l) (hq : l.Quiet) : ExactlyOnce l.log := by
  rcases hq with ⟨hp | hp, ho⟩
  · exact absurd ho (hw.waiting hp).1
  · obtain ⟨-, pre, hlog, h1, h2⟩ := hw.closed hp
    rw [hlog]
    refine ⟨?_, ?_, fun pre' post e he hsplit i hi => ?_⟩
    · simp [List.count_append, List.count_eq_zero_of_not_mem h1]
    · simp [List.count_append, List.count_eq_zero_of_not_mem h2]
    · rcases List.append_eq_append_iff.1 hsplit with ⟨mid, -, htail⟩ | ⟨mid, hpre, htail⟩
      · -- the event is one of the last two
        have hmem : LogEvent.complete i ∈ [LogEvent.endio, .clean] := by
          rw [htail]
          exact List.mem_append_right _ (List.mem_cons_of_mem _ hi)
        simp at hmem
      · cases mid with
        | nil =>
          have hmem : LogEvent.complete i ∈ [LogEvent.endio, .clean] := by
            rw [List.nil_append] at htail
            rw [← htail]
            exact List.mem_cons_of_mem _ hi
          simp at hmem
        | cons x mid =>
          have hx : e ∈ pre := by
            rw [List.cons_append, List.cons.injEq] at htail
            rw [hpre, htail.1]
            simp
          rcases he with rfl | rfl
          exacts [h1 hx, h2 hx]

theorem Wrong.not_exactlyOnce (hw : Wrong l) (hq : l.Quiet) : ¬ ExactlyOnce l.log := by
  rintro ⟨h1, h2, h3⟩
  cases hw with
  | lost phase open_ =>
    rw [List.count_eq_zero_of_not_mem open_] at h1
    omega
  | early phase pre post log late =>
    rcases late with ho | ⟨i, hi⟩
    · exact ho hq.2
    · exact h3 pre post .clean (Or.inr rfl) log i hi

theorem LifeStep.not_quiet (h : LifeStep k g ctx l a ctx' l') : ¬ l.Quiet := by
  rintro ⟨hphase, ho⟩
  obtain ⟨i, status, -, mem, -⟩ := h.completion hphase
  simp [ho] at mem

theorem LifeRun.of_quiet (h : LifeRun k g n l run l') (hq : l.Quiet) : l' = l ∧ run = [] := by
  cases h with
  | nil => exact ⟨rfl, rfl⟩
  | cons carriers step rest => exact absurd hq (lifeStep_of_step step).not_quiet

/-! ### Requests that come to rest -/

/-- A life whose bios are counted, and in which no step has gone wrong. -/
def Life.Sound (l : Life) : Prop := Counted 4 l ∧ Well l

theorem Act.Smooth.not_lateFailure (h : a.Smooth) : ¬ LateFailure ⟨ctx, l, a⟩ := by
  rintro ⟨code, hne, rfl, -⟩
  exact hne h

theorem LifeStep.rebuildBlocks_phase (h : LifeStep k g ctx l (.rebuildBlocks e) ctx' l') :
    l.phase = .rebuildBlocks := by
  cases h with
  | rebuild phase => exact phase
  | abandon phase => exact phase

theorem LifeStep.sound (h : LifeStep k g ctx l a ctx' l') (hn : ctx.config.numCarrierBlocks = 4)
    (hs : l.Sound) (ha : a.Smooth) (hno : l.phase = .rebuildBlocks → CanAcquire ctx) :
    l'.Sound := by
  refine ⟨h.counted hn (by norm_num) hs.1, h.well hn hs.1 hs.2 ha.not_lateFailure ?_⟩
  rintro ⟨⟨e, rfl⟩, hacq⟩
  exact hacq (hno h.rebuildBlocks_phase)

/-- How many steps a request is from having all of its bios completed. -/
def Life.left (l : Life) : ℕ := 2 * (4 - l.phase.upTo) + l.outstanding.length

theorem left_submitted {i : ℕ} {next : Phase} (hup : l.phase.upTo = i) (hi : i < 4)
    (hnext : next.upTo = i + 1) : (submitted l i next).left < l.left := by
  simp only [Life.left, submitted, hup, hnext, List.length_append, List.length_singleton]
  omega

theorem Life.exists_step (hl : l.Sound) (hn : ctx.config.numCarrierBlocks = 4)
    (hbio : l.req.hasBio = true) (hp : (∃ i, l.phase = .readPages i) ∨
      (∃ b i, l.phase = .writePages b i) ∨ l.phase = .returned) :
    ∃ a ctx' l', a.Smooth ∧ l.step k g ctx a = some (ctx', l') ∧ l'.left < l.left := by
  rcases hp with ⟨i, hp⟩ | ⟨b, i, hp⟩ | hp
  · have hi := (hl.1.submitting (.inl hp)).1
    refine ⟨.submit 0, _, _, rfl, (LifeStep.submitRead hp).step, ?_⟩
    rw [hn]
    exact left_submitted (by rw [hp]; rfl) hi (upTo_next hi rfl)
  · have hi := (hl.1.submitting (.inr ⟨b, hp⟩)).1
    refine ⟨.submit 0, _, _, rfl, (LifeStep.submitWrite hp).step, ?_⟩
    rw [hn]
    exact left_submitted (by rw [hp]; rfl) hi (upTo_next hi rfl)
  · obtain ⟨hne, -⟩ := hl.2.waiting hp
    obtain ⟨i, hi⟩ := List.exists_mem_of_ne_nil _ hne
    have hlen := List.length_erase_of_mem hi
    have hpos := List.length_pos_of_mem hi
    have hleft : ∀ l' : Life, l'.outstanding = l.outstanding.erase i → l'.phase.upTo = 4 →
        l'.left < l.left := by
      intro l' ho hup
      rw [Life.left, Life.left, ho, hup, hlen, hp]
      simp only [Phase.upTo]
      omega
    by_cases hlast : l.req.biosPending - 1 = 0
    · cases hty : l.type with
      | read =>
        exact ⟨.complete i 0, _, _, rfl, (LifeStep.lastRead hi rfl hlast hty).step,
          hleft _ rfl rfl⟩
      | write =>
        exact ⟨.complete i 0, _, _, rfl, (LifeStep.lastWrite hi rfl hlast hty hbio).step,
          hleft _ rfl rfl⟩
    · refine ⟨.complete i 0, _, _, rfl, (LifeStep.complete hi rfl hlast).step, hleft _ rfl ?_⟩
      simp only [countDown, hp, Phase.upTo]

theorem Runs.exists_quiet (hn : ctx.config.numCarrierBlocks = 4) (m : ℕ) (l : Life)
    (hlt : l.left < m) (hl : l.Sound) (hbio : l.req.hasBio = true) (hty : l.type = .write)
    (hp : (∃ b i, l.phase = .writePages b i) ∨ l.phase = .returned)
    (hlog : ∀ j < 4, (j < l.phase.upTo → LogEvent.submit j ∈ l.log) ∧
      (l.Arrived j → LogEvent.complete j ∈ l.log)) :
    ∃ acts ctx' l', Runs k g ctx l acts ctx' l' ∧ (l'.Quiet ∧ LogEvent.endio ∈ l'.log) ∧
      (∀ j < 4, LogEvent.submit j ∈ l'.log ∧ LogEvent.complete j ∈ l'.log) ∧
      ∀ a ∈ acts, a = .submit 0 ∨ ∃ j, a = .complete j 0 := by
  induction m generalizing ctx l with
  | zero => omega
  | succ m ih =>
    obtain ⟨a, ctx₁, l₁, ha, hstep, hleft⟩ :=
      Life.exists_step (k := k) (g := g) hl hn hbio (Or.inr hp)
    have hs := lifeStep_of_step hstep
    have hl₁ := hs.sound hn hl ha fun h => by simp [h] at hp
    have hn₁ : ctx₁.config.numCarrierBlocks = 4 := by rw [hs.sameInstance.config, hn]
    have hbio₁ := hs.hasBio.trans hbio
    cases hs.writeStep ha hty (hp.imp_right Or.inl) with
    | @submit rebuild i phase =>
      have hi := (hl.1.submitting (.inr ⟨rebuild, phase⟩)).1
      have hup : l.phase.upTo = i := by rw [phase]; rfl
      have hphase : (∃ b j, (submitted l i (if i + 1 < ctx.config.numCarrierBlocks then
          .writePages rebuild (i + 1) else .returned)).phase = .writePages b j) ∨
          (submitted l i (if i + 1 < ctx.config.numCarrierBlocks then
            .writePages rebuild (i + 1) else .returned)).phase = .returned := by
        simp only [submitted]
        split_ifs
        · exact Or.inl ⟨_, _, rfl⟩
        · exact Or.inr rfl
      obtain ⟨acts, ctx', l', hr, hq, hall, hacts⟩ :=
        ih hn₁ _ (by omega) hl₁ hbio₁ hty hphase fun j hj => by
          have hnext : (if i + 1 < 4 then Phase.writePages rebuild (i + 1)
            else .returned).upTo = i + 1 := upTo_next hi rfl
          rw [hn]
          refine ⟨fun hlt => ?_, fun harr => ?_⟩
          · simp only [submitted, hnext] at hlt
            rcases Nat.lt_succ_iff_lt_or_eq.1 hlt with hlt | rfl
            · simp [submitted, (hlog j hj).1 (hup.symm ▸ hlt)]
            · simp [submitted]
          · simp [submitted, (hlog j hj).2 (harr.of_submitted hup hnext)]
      exact ⟨_, ctx', l', .cons hstep hr, hq, hall, List.forall_mem_cons.2 ⟨Or.inl rfl, hacts⟩⟩
    | @complete i mem more =>
      obtain ⟨acts, ctx', l', hr, hq, hall, hacts⟩ := ih hn₁ _ (by omega) hl₁ hbio₁ hty hp
        fun j hj => by
          refine ⟨fun hlt => by simp [countDown, (hlog j hj).1 hlt], fun harr => ?_⟩
          rcases harr.of_countDown with rfl | harr
          · simp [countDown]
          · simp [countDown, (hlog j hj).2 harr]
      exact ⟨_, ctx', l', .cons hstep hr, hq, hall,
        List.forall_mem_cons.2 ⟨Or.inr ⟨i, rfl⟩, hacts⟩⟩
    | @last i mem last =>
      obtain ⟨hphase, ho⟩ := hl.1.last mem last
      refine ⟨_, _, _, .cons hstep (.nil _ _),
        ⟨⟨Or.inr rfl, by simp [afsReqClean, countDown, ho]⟩, by simp [afsReqClean]⟩,
        fun j hj => ?_, List.forall_mem_singleton.2 (Or.inr ⟨i, rfl⟩)⟩
      have hup : j < l.phase.upTo := by
        rw [hphase]
        exact hj
      refine ⟨by simp [afsReqClean, countDown, (hlog j hj).1 hup], ?_⟩
      by_cases hji : j = i
      · simp [afsReqClean, countDown, hji]
      · simp [afsReqClean, countDown, (hlog j hj).2 ⟨hup, by simpa [ho] using hji⟩]

/-- A moment finds the context as the moment before has left it. -/
def Moment.Next (k : Kernel) (g : GfCtx) (m m' : Moment) : Prop :=
  ∀ ctx' l', m.life.step k g m.ctx m.act = some (ctx', l') → m'.ctx = ctx'

theorem Runs.lifeRun {acts : List Act} (h : Runs k g ctx l acts ctx' l')
    (hn : ctx.config.numCarrierBlocks = n) :
    ∃ run, LifeRun k g n l run l' ∧ (∀ m ∈ run, m.act ∈ acts) ∧ run.IsChain (Moment.Next k g) ∧
      ∀ m ∈ run.head?, m.ctx = ctx := by
  induction h with
  | nil ctx l => exact ⟨[], .nil l, by simp, .nil, by simp⟩
  | @cons ctx ctx₁ ctx₂ l l₁ l₂ a as step _ ih =>
    obtain ⟨run, hrun, hacts, hchain, hhead⟩ :=
      ih ((lifeStep_of_step step).sameInstance.config ▸ hn)
    refine ⟨_, .cons hn step hrun, List.forall_mem_cons.2 ⟨List.mem_cons_self, fun m hm =>
      List.mem_cons_of_mem _ (hacts m hm)⟩, hchain.cons fun m hm ctx' l' h => ?_, by simp⟩
    rw [step, Option.some.injEq, Prod.mk.injEq] at h
    exact (hhead m hm).trans h.1

/-! ### The start of a request -/

theorem Well.newLife {phase : Phase} (hp : phase = .flightq ∨ phase = .rebuildq)
    (hflag : req.rebuildFlag = false) : Well (newLife req phase) := by
  have hother : phase ≠ .gone ∧ phase ≠ .returned := by rcases hp with rfl | rfl <;> simp
  exact ⟨fun _ => by simp [Artifice.newLife], fun h => absurd h hother.1,
    fun h => absurd h hother.2, fun _ => rfl, fun _ _ _ => hflag⟩

theorem sound_newLife (hflag : req.rebuildFlag = false) : (newLife req .flightq).Sound :=
  ⟨Counted.newLife (Or.inl rfl) req 4, Well.newLife (Or.inl rfl) hflag⟩

theorem afsMap_cases {flightEq : List ℕ} {alloc : Bool} {fresh : AfsMapRequest} {bio : Bio}
    {code : MapioCode} (h : afsMap flightEq alloc fresh ctx bio = some (code, l)) :
    ((alloc = true ∧ (bio.biOp = .read ∨ bio.biOp = .write)) ∧
      l = newLife (mapRequest fresh ctx (acceptPartialBio bio)) .flightq) ∨
    (¬ (alloc = true ∧ (bio.biOp = .read ∨ bio.biOp = .write)) ∧ l.Quiet ∧
      ¬ ExactlyOnce l.log ∧ ∀ j, LogEvent.submit j ∉ l.log) := by
  have hop := acceptPartialBio_biOp bio
  unfold afsMap at h
  cases alloc with
  | false =>
    simp only [Bool.false_eq_true, not_false_eq_true, if_true, Option.some.injEq,
      Prod.mk.injEq] at h
    obtain ⟨-, rfl⟩ := h
    have htwice : ¬ [LogEvent.endio, .endio].count .endio = 1 := by decide
    exact Or.inr ⟨by simp, ⟨Or.inr rfl, rfl⟩, fun h1 => htwice h1.1, by simp⟩
  | true =>
    simp only [not_true_eq_false, if_false, hop] at h
    cases hb : bio.biOp with
    | read =>
      simp only [hb, Option.some.injEq, Prod.mk.injEq] at h
      exact Or.inl ⟨by simp, h.2.symm⟩
    | write =>
      simp only [hb, Option.some.injEq, Prod.mk.injEq] at h
      exact Or.inl ⟨by simp, h.2.symm⟩
    | flush =>
      simp only [hb] at h
      split_ifs at h
      simp only [Option.some.injEq, Prod.mk.injEq] at h
      obtain ⟨-, rfl⟩ := h
      have hnever : ¬ [LogEvent.endio].count .clean = 1 := by decide
      exact Or.inr ⟨by simp, ⟨Or.inl rfl, rfl⟩, fun h1 => hnever h1.2.1, by simp⟩
    | other =>
      simp only [hb, Option.some.injEq, Prod.mk.injEq] at h
      obtain ⟨-, rfl⟩ := h
      have htwice : ¬ [LogEvent.endio, .clean, .endio].count .endio = 1 := by decide
      exact Or.inr ⟨by simp, ⟨Or.inr rfl, rfl⟩, fun h1 => htwice h1.1, by simp⟩

/-- **The bio is ended once and the request cleaned up once exactly if** the bio is a read or a
write, the request could be allocated, and no step of its life goes wrong. -/
theorem exactlyOnce_iff {flightEq : List ℕ} {alloc : Bool} {fresh : AfsMapRequest} {bio : Bio}
    {code : MapioCode} {l₀ : Life} (hpos : 0 < n)
    (hmap : afsMap flightEq alloc fresh ctx bio = some (code, l₀))
    (hrun : LifeRun k g n l₀ run l) (hq : l.Quiet) :
    ExactlyOnce l.log ↔ (alloc = true ∧ (bio.biOp = .read ∨ bio.biOp = .write)) ∧
      ∀ m ∈ run, ¬ (LateFailure m ∨ NoRebuild m) := by
  rcases afsMap_cases hmap with ⟨hop, rfl⟩ | ⟨hop, hq₀, honce, -⟩
  · have hcount := Counted.newLife (Or.inl rfl) (mapRequest fresh ctx (acceptPartialBio bio)) n
    rcases hrun.well_or_wrong hpos hcount (Well.newLife (Or.inl rfl) rfl) with
      ⟨hall, hw⟩ | ⟨⟨m, hm, hb⟩, hw⟩
    · exact iff_of_true (hw.exactlyOnce hq) ⟨hop, hall⟩
    · exact iff_of_false (hw.not_exactlyOnce hq) fun h => h.2 m hm hb
  · obtain ⟨rfl, rfl⟩ := hrun.of_quiet hq₀
    exact iff_of_false honce fun h => hop h.1

end

/-! ### Two short lives -/

/-- A small instance no block of which is mapped. -/
def unmappedContext : AfsPrivate :=
  { smallContext [4, 5, 6, 7, 8, 9, 10, 11] with afsMap := fun _ => 255 }

/-- The bio of an operation that is not supported is ended twice. -/
theorem unsupported_ended_twice :
    ¬ ∀ (k : Kernel) (g : GfCtx) (ctx : AfsPrivate) (fresh : AfsMapRequest) (bio : Bio)
      (code : MapioCode) (l₀ l : Life) (run : List Moment),
      afsMap [] true fresh ctx bio = some (code, l₀) → LifeRun k g 4 l₀ run l → l.Quiet →
        ExactlyOnce l.log := by
  intro h
  have hone := h (constKernel 0) gfContextZero unmappedContext zeroRequest
    (blockBio .other 0 fun _ => 0) .kill _ _ [] rfl (.nil _) ⟨Or.inr rfl, rfl⟩
  have htwice : ¬ [LogEvent.endio, .clean, .endio].count .endio = 1 := by decide
  exact htwice hone.1

/-- The same instance, with random numbers for the carriers of one block. -/
def freeContext : AfsPrivate := { unmappedContext with random := [0, 1, 2, 3] }

/-- The request for a write of its first block. -/
def firstWrite : Life :=
  newLife (mapRequest zeroRequest freeContext (blockBio .write 0 UInt8.ofNat)) .flightq

theorem firstWrite_run :
    ∃ s acts ctx' l, writeRequestMap (constKernel 0) gfContextZero zeroEntropy freeContext
        { firstWrite.req with state := .flight } = some (.next s) ∧
      Runs (constKernel 0) gfContextZero freeContext firstWrite (.flight zeroEntropy :: acts)
        ctx' l ∧ (l.Quiet ∧ LogEvent.endio ∈ l.log) ∧
      (∀ j < 4, LogEvent.submit j ∈ l.log ∧ LogEvent.complete j ∈ l.log) ∧
      ∀ a ∈ acts, a = .submit 0 ∨ ∃ j, a = .complete j 0 := by
  have hnext : (writeRequestMap (constKernel 0) gfContextZero zeroEntropy freeContext
      { firstWrite.req with state := .flight }).map (fun f => match f with
        | .next _ => true
        | _ => false) = some true := by
    decide +kernel
  obtain ⟨f, hmap, hf⟩ := Option.map_eq_some_iff.1 hnext
  cases f with
  | next s =>
    have hs : LifeStep (constKernel 0) gfContextZero freeContext firstWrite (.flight zeroEntropy)
        s.1 (beginWritePages firstWrite false s.1.config s.2) := .startWrite rfl rfl hmap rfl
    have hn : freeContext.config.numCarrierBlocks = 4 := rfl
    have hl := hs.sound hn (sound_newLife rfl) trivial fun h => Phase.noConfusion h
    obtain ⟨acts, ctx', l, hr, hq, hlog, hacts⟩ := Runs.exists_quiet (k := constKernel 0)
      (g := gfContextZero) (by rw [hs.sameInstance.config]; exact hn) _ _ (Nat.lt_succ_self _) hl
      (hs.hasBio.trans rfl) rfl (Or.inl ⟨_, _, rfl⟩) fun j _ =>
        ⟨fun h => absurd h (Nat.not_lt_zero j), fun h => absurd h.1 (Nat.not_lt_zero j)⟩
    exact ⟨s, acts, ctx', l, hmap, .cons hs.step hr, hq, hlog, hacts⟩
  | brk s => cases hf
  | ret code s => cases hf

theorem exactlyOnce_firstWrite :
    ∃ run l, LifeRun (constKernel 0) gfContextZero 4 firstWrite run l ∧ l.Quiet ∧
      (∀ j < 4, LogEvent.complete j ∈ l.log) ∧ ExactlyOnce l.log := by
  obtain ⟨s, acts, ctx', l, -, hr, ⟨hq, -⟩, hlog, hacts⟩ := firstWrite_run
  have hn : freeContext.config.numCarrierBlocks = 4 := rfl
  obtain ⟨run, hrun, hmem, -⟩ := hr.lifeRun hn
  refine ⟨run, l, hrun, hq, fun j hj => (hlog j hj).2, (exactlyOnce_iff (by norm_num)
    (rfl : afsMap [] true zeroRequest freeContext (blockBio .write 0 UInt8.ofNat) =
      some (.submitted, firstWrite)) hrun hq).2 ⟨⟨rfl, Or.inr rfl⟩, fun m hm => ?_⟩⟩
  rintro (⟨code, hne, hact, -⟩ | ⟨⟨e, hact⟩, -⟩)
  · rcases List.mem_cons.1 (hmem m hm) with h | h
    · simp [h] at hact
    · rcases hacts _ h with h | ⟨j, h⟩ <;> rw [h] at hact <;> cases hact
      exact hne rfl
  · rcases List.mem_cons.1 (hmem m hm) with h | h
    · simp [h] at hact
    · rcases hacts _ h with h | ⟨j, h⟩ <;> rw [h] at hact <;> cases hact

end Artifice
