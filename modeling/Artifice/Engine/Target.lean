import Artifice.Engine.Errors

/-!
The whole target: all requests on one context, in any order of their steps, with the flushes and the
destructor in between.

A flush waits while the flight queue has a request for its block, and the destructor while both
engine queues have requests. But no work item adds its request to an engine queue, so that neither
ever waits.
-/

namespace Artifice

open Lib

/-- Where a request comes from: a bio, or the rebuild of all blocks at a mount. -/
inductive Origin
  | map
  | rebuild
  deriving DecidableEq, Repr

/-- The target between two steps: the context, the requests in the order in which they were made,
the blocks of the requests on the two engine queues, and whether the destructor has not run. -/
structure Target where
  ctx : AfsPrivate
  lives : List (Origin × Life)
  flightEq : List ℕ
  rebuildEq : List ℕ
  registered : Bool

/-- What can happen next: a bio arrives, a block is queued for its rebuild, a request takes a step,
or the target is destroyed. -/
inductive TargetEvent
  | map (alloc : Bool) (fresh : AfsMapRequest) (bio : Bio)
  | rebuild (fresh : AfsMapRequest) (block : ℕ)
  | step (i : ℕ) (a : Act)
  | dtr

/-- `afs_dtr` up to the end of the map on the device. `none` is a destructor that waits. -/
def afsDtr (k : Kernel) (flightEq rebuildEq : List ℕ) (ctx : AfsPrivate) : Option AfsPrivate :=
  if flightEq ≠ [] ∧ rebuildEq ≠ [] then none
  else do
    let (err, ctx) ← afsCreateMapBlocks k ctx
    if err ≠ 0 then some ctx
    else do
      let (_, ctx) ← writeMapBlocks ctx true
      some ctx

/-- One step of the target. -/
def Target.next (k : Kernel) (g : GfCtx) (t : Target) (ev : TargetEvent) : Option Target :=
  if ¬ t.registered then none
  else match ev with
    | .map alloc fresh bio => do
      let (_, l) ← afsMap t.flightEq alloc fresh t.ctx bio
      some { t with lives := t.lives ++ [(.map, l)] }
    | .rebuild fresh block =>
      some { t with
        lives := t.lives ++ [(.rebuild, newLife (rebuildRequest fresh t.ctx block) .rebuildq)] }
    | .step i a => do
      let (o, l) ← t.lives[i]?
      let (ctx, l) ← l.step k g t.ctx a
      some { t with ctx, lives := t.lives.set i (o, l) }
    | .dtr => do
      let ctx ← afsDtr k t.flightEq t.rebuildEq t.ctx
      some { t with ctx, registered := false }

/-- The target after the constructor, with the engine queues as `afs_eq_init` makes them. -/
def newTarget (ctx : AfsPrivate) : Target := ⟨ctx, [], [], [], true⟩

/-- A run of the target: the steps, each with the state that it finds. -/
inductive TargetRun (k : Kernel) (g : GfCtx) (t₀ : Target) : List (Target × TargetEvent) →
    Target → Prop
  | start : TargetRun k g t₀ [] t₀
  | next {run t ev t'} (before : TargetRun k g t₀ run t) (step : t.next k g ev = some t') :
      TargetRun k g t₀ (run ++ [(t, ev)]) t'

/-! ### Barriers -/

/-- The checksums of request `i` have been recorded: its last completion has left the checksums of
its carriers in the map. -/
def Recorded (k : Kernel) (g : GfCtx) (n : ℕ) (run : List (Target × TargetEvent)) (i : ℕ) : Prop :=
  ∃ t j status t' l, (t, .step i (.complete j status)) ∈ run ∧
    t.next k g (.step i (.complete j status)) = some t' ∧ t'.lives[i]? = some (.map, l) ∧
    l.phase = .gone ∧ ∀ c < n, tupleChecksum t'.ctx.afsMap l.req.mapEntry c =
      (cityhash32To16 (l.req.carrierBlocks c) 4096).toNat

/-- Write `i` has completed: nothing of it is left to do, every carrier that it submitted has been
written, and if it submitted any, the checksums are recorded. -/
structure WriteCompleted (k : Kernel) (g : GfCtx) (n : ℕ) (run : List (Target × TargetEvent))
    (i : ℕ) (l : Life) : Prop where
  quiet : l.Quiet
  ended : LogEvent.endio ∈ l.log
  carriers : ∀ j, LogEvent.submit j ∈ l.log → LogEvent.complete j ∈ l.log
  recorded : (∃ j, LogEvent.submit j ∈ l.log) → Recorded k g n run i

/-- **Flushes and the destructor are barriers**: a flush finds every earlier write completed, and
the destructor finds every request quiet. -/
def Barriers (k : Kernel) (g : GfCtx) (n : ℕ) (run : List (Target × TargetEvent)) : Prop :=
  (∀ pre t alloc fresh bio post, run = pre ++ (t, .map alloc fresh bio) :: post →
    bio.biOp = .flush → ∀ i l, t.lives[i]? = some (.map, l) → l.req.bio.biOp = .write →
    WriteCompleted k g n pre i l) ∧
  ∀ pre t post, run = pre ++ (t, .dtr) :: post → ∀ o l, (o, l) ∈ t.lives → l.Quiet

/-- A carrier bio cannot be set up after an earlier one of the request was submitted. -/
def Interrupted (m : Moment) : Prop :=
  ∃ code ≠ 0, m.act = .submit code ∧ 0 < m.life.phase.upTo

/-- A step of a caller that waits for its bios itself, on a target that was created and not mounted:
a flush comes when the bios of all writes have been ended, the destructor when those of all requests
have. No request is interrupted, and no block is queued for a rebuild. -/
def Patient (m : Target × TargetEvent) : Prop :=
  match m.2 with
  | .map _ _ bio => bio.biOp = .flush →
      ∀ l, (Origin.map, l) ∈ m.1.lives → l.req.bio.biOp = .write → LogEvent.endio ∈ l.log
  | .rebuild _ _ => False
  | .step i a => ∀ o l, m.1.lives[i]? = some (o, l) → ¬ Interrupted ⟨m.1.ctx, l, a⟩
  | .dtr => ∀ o l, (o, l) ∈ m.1.lives → LogEvent.endio ∈ l.log

section

variable {k : Kernel} {g : GfCtx} {ctx ctx' : AfsPrivate} {l l' : Life} {a : Act} {n i j : ℕ}
  {t t' t₀ : Target} {ev : TargetEvent} {run : List (Target × TargetEvent)} {o : Origin}

/-! ### Requests that are not interrupted -/

/-- A request that goes well, or of which nothing is left to do. -/
def Tame (n : ℕ) (l : Life) : Prop := (Counted n l ∧ Well l) ∨ l.Quiet

theorem Counted.first {phase : ℕ → Phase} (hc : Counted n l)
    (hphase : ∀ i, phase i = .readPages i ∨ ∃ b, phase i = .writePages b i)
    (hp : l.phase = phase i) (hno : ¬ 0 < l.phase.upTo) : i = 0 ∧ l.outstanding = [] := by
  obtain ⟨-, hlt, -⟩ := hc.submitting ((hphase i).imp hp.trans fun ⟨b, h⟩ => ⟨b, hp.trans h⟩)
  have hup : l.phase.upTo = i := by
    rcases hphase i with h | ⟨b, h⟩
    all_goals rw [hp, h, Phase.upTo]
  obtain rfl : i = 0 := by rwa [hup, Nat.pos_iff_ne_zero, not_not] at hno
  exact ⟨rfl, List.eq_nil_iff_forall_not_mem.2 fun j hj => Nat.not_lt_zero j (hlt j hj)⟩

/-- **A request that is not interrupted stays tame.** -/
theorem LifeStep.tame (h : LifeStep k g ctx l a ctx' l') (hn : ctx.config.numCarrierBlocks = n)
    (hpos : 0 < n) (ht : Tame n l) (hno : ¬ Interrupted ⟨ctx, l, a⟩) : Tame n l' := by
  obtain ⟨hc, hw⟩ := ht.resolve_right h.not_quiet
  have hfirst : ∀ code, code ≠ 0 → a = .submit code → ¬ 0 < l.phase.upTo :=
    fun code hne hact hup => hno ⟨code, hne, hact, hup⟩
  by_cases hlate : LateFailure ⟨ctx, l, a⟩
  · obtain ⟨code, hne, hact, hcase⟩ := hlate
    simp only at hact hcase
    subst hact
    cases h with
    | submitRead => exact absurd rfl hne
    | submitWrite => exact absurd rfl hne
    | failRead phase =>
      have ho := (hc.first (fun i => Or.inl rfl) phase (hfirst _ hne rfl)).2
      exact Or.inr ⟨Or.inr rfl, ho⟩
    | failWrite phase =>
      have ho := (hc.first (fun i => Or.inr ⟨_, rfl⟩) phase (hfirst _ hne rfl)).2
      exact Or.inr ⟨Or.inr rfl, ho⟩
    | failRebuild phase =>
      have ho := (hc.first (fun i => Or.inr ⟨_, rfl⟩) phase (hfirst _ hne rfl)).2
      exact Or.inr ⟨Or.inl rfl, ho⟩
  by_cases hre : NoRebuild ⟨ctx, l, a⟩
  · obtain ⟨⟨e, hact⟩, hacq⟩ := hre
    simp only at hact hacq
    subst hact
    have hcount := hc.queued (.inr (.inr (.inr h.rebuildBlocks_phase)))
    cases h with
    | rebuild _ map => exact absurd (rebuildBlocksMap_next map) hacq
    | abandon => exact Or.inr ⟨Or.inl rfl, hcount⟩
  exact Or.inl ⟨h.counted hn hpos hc, h.well hn hc hw hlate hre⟩

theorem Tame.quiet (h : Tame n l) (hend : LogEvent.endio ∈ l.log) : l.Quiet := by
  rcases h with ⟨-, hw⟩ | hq
  · by_cases hp : l.phase = .gone
    · exact ⟨Or.inr hp, (hw.closed hp).1⟩
    · exact absurd hend (hw.open_ hp).1
  · exact hq

/-! ### Writes -/

/-- How far write `i` has come after a run: it is queued, it writes its carriers, or it has come to
its end, without any carrier or with all of them and their checksums. -/
inductive WriteTrace (k : Kernel) (g : GfCtx) (n : ℕ) (run : List (Target × TargetEvent)) (i : ℕ)
    (l : Life) : Prop
  | queued (phase : l.phase = .flightq) (log : l.log = [])
  | writing (type : l.type = .write) (open_ : LogEvent.endio ∉ l.log)
      (phase : (∃ j, l.phase = .writePages false j) ∨ l.phase = .returned)
      (upTo : ∀ j, LogEvent.submit j ∈ l.log → j < l.phase.upTo ∨ l.phase = .returned)
      (done : ∀ j, LogEvent.submit j ∈ l.log → LogEvent.complete j ∈ l.log ∨ j ∈ l.outstanding)
  | refused (quiet : l.Quiet) (log : ∀ j, LogEvent.submit j ∉ l.log)
  | recorded (quiet : l.Quiet)
      (done : ∀ j, LogEvent.submit j ∈ l.log → LogEvent.complete j ∈ l.log)
      (checksums : Recorded k g n run i)

theorem Recorded.append (h : Recorded k g n run i) (m : Target × TargetEvent) :
    Recorded k g n (run ++ [m]) i := by
  obtain ⟨t, j, status, t', l, hmem, hrest⟩ := h
  exact ⟨t, j, status, t', l, List.mem_append_left _ hmem, hrest⟩

theorem WriteTrace.append (h : WriteTrace k g n run i l) (m : Target × TargetEvent) :
    WriteTrace k g n (run ++ [m]) i l := by
  cases h with
  | queued phase log => exact .queued phase log
  | writing type open_ phase upTo done => exact .writing type open_ phase upTo done
  | refused quiet log => exact .refused quiet log
  | recorded quiet done checksums => exact .recorded quiet done (checksums.append m)

/-- **A step of a write that is not interrupted.** -/
theorem WriteTrace.step (h : WriteTrace k g n run i l) (hi : t.lives[i]? = some (.map, l))
    (hop : l.req.bio.biOp = .write) (hn : t.ctx.config.numCarrierBlocks = n) (hc : Counted n l)
    (hno : ¬ Interrupted ⟨t.ctx, l, a⟩) (hs : LifeStep k g t.ctx l a ctx' l')
    (hnext : t.next k g (.step i a) = some { t with
      ctx := ctx', lives := t.lives.set i (.map, l') }) :
    WriteTrace k g n (run ++ [(t, .step i a)]) i l' := by
  have hlt : i < t.lives.length := (List.getElem?_eq_some_iff.1 hi).1
  cases h with
  | queued phase log =>
    have hcount := hc.queued (.inl phase)
    cases hs with
    | refuse =>
      exact .refused ⟨Or.inr rfl, hcount⟩ (by simp [afsReqClean, log])
    | startWrite =>
      refine .writing rfl ?_ (Or.inl ⟨0, rfl⟩) ?_ ?_
      · simp [beginWritePages, log]
      · simp [beginWritePages, log]
      · simp [beginWritePages, log]
    | answer _ op => simp [hop] at op
    | startRead _ op => simp [hop] at op
    | unknown _ op => exact absurd hop op.2
    | complete mem => simp [hcount] at mem
    | lastRead mem => simp [hcount] at mem
    | lastWrite mem => simp [hcount] at mem
    | skip phase' => simp [phase] at phase'
    | startRebuild phase' => simp [phase] at phase'
    | submitRead phase' => simp [phase] at phase'
    | submitWrite phase' => simp [phase] at phase'
    | failRead phase' => simp [phase] at phase'
    | failWrite phase' => simp [phase] at phase'
    | failRebuild phase' => simp [phase] at phase'
    | decode phase' => simp [phase] at phase'
    | damaged phase' => simp [phase] at phase'
    | rebuild phase' => simp [phase] at phase'
    | abandon phase' => simp [phase] at phase'
  | writing type open_ phase upTo done =>
    cases hs with
    | @submitWrite rebuild c phase' =>
      obtain rfl : rebuild = false := by simpa [phase'] using phase
      refine .writing type (by simpa [submitted] using open_) ?_ (fun j hj => ?_) fun j hj => ?_
      · simp only [submitted]
        split_ifs
        · exact Or.inl ⟨_, rfl⟩
        · exact Or.inr rfl
      · simp only [submitted, List.mem_append, List.mem_singleton, LogEvent.submit.injEq] at hj ⊢
        split_ifs
        · left
          rcases hj with hj | rfl
          · have := (upTo j hj).resolve_right (by simp [phase'])
            rw [phase'] at this
            exact Nat.lt_succ_of_lt this
          · exact Nat.lt_succ_self _
        · exact Or.inr rfl
      · simp only [submitted, List.mem_append, List.mem_singleton, LogEvent.submit.injEq] at hj ⊢
        rcases hj with hj | rfl
        · exact (done j hj).imp Or.inl Or.inl
        · exact Or.inr (Or.inr rfl)
    | @failWrite c code phase' fail =>
      have hfirst : ¬ 0 < l.phase.upTo := fun hup => hno ⟨code, fail, rfl, hup⟩
      obtain ⟨rfl, ho⟩ := hc.first (fun i => Or.inr ⟨_, rfl⟩) phase' hfirst
      refine .refused ⟨Or.inr rfl, ho⟩ fun j hj => ?_
      have hj' : LogEvent.submit j ∈ l.log := by simpa [afsReqClean] using hj
      have := (upTo j hj').resolve_right (by simp [phase'])
      rw [phase'] at this
      exact absurd this (Nat.not_lt_zero j)
    | @complete c status s mem tr more =>
      refine .writing type (by simpa [countDown] using open_) phase (fun j hj => upTo j ?_)
        fun j hj => ?_
      · simpa [countDown] using hj
      · have hj' : LogEvent.submit j ∈ l.log := by simpa [countDown] using hj
        simp only [countDown, List.mem_append, List.mem_singleton, LogEvent.complete.injEq]
        by_cases hjc : j = c
        · exact Or.inl (Or.inr hjc)
        · exact (done j hj').imp Or.inl (List.mem_erase_of_ne hjc).2
    | @lastWrite c status s mem tr last type' =>
      obtain ⟨-, ho⟩ := hc.last mem last
      have hconf : s.1.config.numCarrierBlocks = n := by
        rw [← tr, sameInstance_transfer.config]
        exact hn
      refine .recorded ⟨Or.inr rfl, by simp [afsReqClean, countDown, ho]⟩ (fun j hj => ?_)
        ⟨t, c, status, _, _, by simp, hnext, List.getElem?_set_self hlt, rfl, fun j hj => ?_⟩
      · have hj' : LogEvent.submit j ∈ l.log := by simpa [afsReqClean, countDown] using hj
        have hcase := done j hj'
        rw [ho, List.mem_singleton] at hcase
        simp only [afsReqClean, countDown, List.mem_append, List.mem_singleton,
          LogEvent.complete.injEq]
        exact Or.inl hcase
      · rw [← hconf] at hj
        exact tupleChecksum_storeChecksums hj
    | lastRead mem tr last type' => simp [type] at type'
    | refuse phase' => simp [phase'] at phase
    | startWrite phase' => simp [phase'] at phase
    | answer phase' op => simp [hop] at op
    | startRead phase' op => simp [hop] at op
    | unknown phase' op => exact absurd hop op.2
    | skip phase' => simp [phase'] at phase
    | startRebuild phase' => simp [phase'] at phase
    | submitRead phase' => simp [phase'] at phase
    | failRead phase' => simp [phase'] at phase
    | failRebuild phase' => simp [phase'] at phase
    | decode phase' => simp [phase'] at phase
    | damaged phase' => simp [phase'] at phase
    | rebuild phase' => simp [phase'] at phase
    | abandon phase' => simp [phase'] at phase
  | refused quiet => exact absurd quiet hs.not_quiet
  | recorded quiet => exact absurd quiet hs.not_quiet

/-! ### Runs -/

theorem Target.next_cases (h : t.next k g ev = some t') :
    t.registered = true ∧
    ((∃ alloc fresh bio code l, ev = .map alloc fresh bio ∧
      afsMap t.flightEq alloc fresh t.ctx bio = some (code, l) ∧
      t' = { t with lives := t.lives ++ [(.map, l)] }) ∨
    (∃ fresh block, ev = .rebuild fresh block ∧ t' = { t with
      lives := t.lives ++ [(.rebuild, newLife (rebuildRequest fresh t.ctx block) .rebuildq)] }) ∨
    (∃ i a o l ctx' l', ev = .step i a ∧ t.lives[i]? = some (o, l) ∧
      l.step k g t.ctx a = some (ctx', l') ∧
      t' = { t with ctx := ctx', lives := t.lives.set i (o, l') }) ∨
    (ev = .dtr ∧ t'.lives = t.lives ∧ t'.registered = false)) := by
  unfold Target.next at h
  by_cases hr : t.registered = true
  · rw [if_neg (not_not.2 hr)] at h
    refine ⟨hr, ?_⟩
    cases ev with
    | map alloc fresh bio =>
      simp only [Option.bind_eq_bind, Option.bind_eq_some_iff, Option.some.injEq] at h
      obtain ⟨⟨code, l⟩, hmap, rfl⟩ := h
      exact Or.inl ⟨alloc, fresh, bio, code, l, rfl, hmap, rfl⟩
    | rebuild fresh block =>
      simp only [Option.some.injEq] at h
      exact Or.inr (Or.inl ⟨fresh, block, rfl, h.symm⟩)
    | step i a =>
      simp only [Option.bind_eq_bind, Option.bind_eq_some_iff, Option.some.injEq] at h
      obtain ⟨⟨o, l⟩, hi, ⟨ctx', l'⟩, hstep, rfl⟩ := h
      exact Or.inr (Or.inr (Or.inl ⟨i, a, o, l, ctx', l', rfl, hi, hstep, rfl⟩))
    | dtr =>
      simp only [Option.bind_eq_bind, Option.bind_eq_some_iff, Option.some.injEq] at h
      obtain ⟨ctx', -, rfl⟩ := h
      exact Or.inr (Or.inr (Or.inr ⟨rfl, rfl, rfl⟩))
  · rw [if_pos hr] at h
    cases h

theorem Target.next_step (hr : t.registered = true) (hi : t.lives[i]? = some (o, l))
    (hstep : l.step k g t.ctx a = some (ctx', l')) :
    t.next k g (.step i a) = some { t with ctx := ctx', lives := t.lives.set i (o, l') } := by
  simp only [Target.next, hr, hi, hstep, not_true_eq_false, if_false, Option.bind_eq_bind,
    Option.bind_some]

theorem TargetRun.runs {acts : List Act} (h : TargetRun k g t₀ run t) (hr : t.registered = true)
    (hi : t.lives[i]? = some (o, l)) (hruns : Runs k g t.ctx l acts ctx' l') :
    ∃ run', TargetRun k g t₀ (run ++ run') { t with ctx := ctx', lives := t.lives.set i (o, l') } ∧
      ∀ m ∈ run', ∃ a ∈ acts, m.2 = .step i a := by
  generalize hctx : t.ctx = ctx at hruns
  induction hruns generalizing run t with
  | nil ctx l =>
    refine ⟨[], ?_, by simp⟩
    obtain ⟨hlt, hget⟩ := List.getElem?_eq_some_iff.1 hi
    rw [List.append_nil, ← hctx, ← hget, List.set_getElem_self]
    exact h
  | @cons ctx ctx₁ ctx₂ l l₁ l₂ a as step _ ih =>
    subst hctx
    have hlt : i < t.lives.length := (List.getElem?_eq_some_iff.1 hi).1
    obtain ⟨run', hrun, hacts⟩ := ih (h.next (Target.next_step hr hi step)) hr
      (List.getElem?_set_self hlt) rfl
    refine ⟨(t, .step i a) :: run', ?_, List.forall_mem_cons.2 ⟨⟨a, List.mem_cons_self, rfl⟩,
      fun m hm => ?_⟩⟩
    · rw [List.append_assoc, List.singleton_append, List.set_set] at hrun
      exact hrun
    · obtain ⟨a', ha', hm⟩ := hacts m hm
      exact ⟨a', List.mem_cons_of_mem _ ha', hm⟩

theorem afsMap_tame {flightEq : List ℕ} {alloc : Bool} {fresh : AfsMapRequest} {bio : Bio}
    {code : MapioCode} (h : afsMap flightEq alloc fresh ctx bio = some (code, l)) (n : ℕ)
    (run : List (Target × TargetEvent)) (i : ℕ) : Tame n l ∧ WriteTrace k g n run i l := by
  rcases afsMap_cases h with ⟨-, rfl⟩ | ⟨-, hq, -, hlog⟩
  · exact ⟨Or.inl ⟨Counted.newLife (Or.inl rfl) _ n, Well.newLife (Or.inl rfl) rfl⟩,
      .queued rfl rfl⟩
  · exact ⟨Or.inr hq, .refused hq hlog⟩

/-- What holds of all requests after a patient run. -/
structure TargetInv (k : Kernel) (g : GfCtx) (n : ℕ) (run : List (Target × TargetEvent))
    (t : Target) : Prop where
  carriers : t.registered = true → t.ctx.config.numCarrierBlocks = n
  tame : ∀ (i : ℕ) (o : Origin) (l : Life), t.lives[i]? = some (o, l) → Tame n l
  writes : ∀ (i : ℕ) (l : Life), t.lives[i]? = some (.map, l) → l.req.bio.biOp = .write →
    WriteTrace k g n run i l

theorem getElem?_append_singleton {x : Origin × Life} {xs : List (Origin × Life)}
    (h : (xs ++ [x])[i]? = some (o, l)) : xs[i]? = some (o, l) ∨ (o, l) = x := by
  rcases Nat.lt_or_ge i xs.length with hlt | hge
  · rw [List.getElem?_append_left hlt] at h
    exact Or.inl h
  · rw [List.getElem?_append_right hge] at h
    exact Or.inr (List.mem_singleton.1 (List.mem_of_getElem? h))

/-- **A patient step keeps the requests tame, and the writes on their way.** -/
theorem TargetInv.next (h : TargetInv k g n run t) (hpos : 0 < n) (hp : Patient (t, ev))
    (hs : t.next k g ev = some t') : TargetInv k g n (run ++ [(t, ev)]) t' := by
  obtain ⟨hr, hcase⟩ := Target.next_cases hs
  rcases hcase with ⟨alloc, fresh, bio, code, l, rfl, hmap, rfl⟩ | ⟨fresh, block, rfl, rfl⟩ |
    ⟨i, a, o, l, ctx', l', rfl, hi, hstep, rfl⟩ | ⟨rfl, hlives, hreg⟩
  · refine ⟨h.carriers, fun i o l' hi => ?_, fun i l' hi hop => ?_⟩
    · rcases getElem?_append_singleton hi with hi | heq
      · exact h.tame i o l' hi
      · obtain ⟨-, rfl⟩ := Prod.mk.inj heq
        exact (afsMap_tame (k := k) (g := g) hmap n run i).1
    · rcases getElem?_append_singleton hi with hi | heq
      · exact (h.writes i l' hi hop).append _
      · obtain ⟨-, rfl⟩ := Prod.mk.inj heq
        exact (afsMap_tame hmap n _ i).2
  · exact hp.elim
  · have hn := h.carriers hr
    have hls := lifeStep_of_step hstep
    have hlt : i < t.lives.length := (List.getElem?_eq_some_iff.1 hi).1
    have hno := hp o l hi
    refine ⟨fun _ => hls.sameInstance.config ▸ hn, fun c o' l₂ hc => ?_, fun c l₂ hc hop => ?_⟩
    · by_cases hci : c = i
      · subst hci
        rw [List.getElem?_set_self hlt, Option.some.injEq, Prod.mk.injEq] at hc
        obtain ⟨-, rfl⟩ := hc
        exact hls.tame hn hpos (h.tame c o l hi) hno
      · rw [List.getElem?_set_ne (Ne.symm hci)] at hc
        exact h.tame c o' l₂ hc
    · by_cases hci : c = i
      · subst hci
        rw [List.getElem?_set_self hlt, Option.some.injEq, Prod.mk.injEq] at hc
        obtain ⟨rfl, rfl⟩ := hc
        have hop' : l.req.bio.biOp = .write := hls.biOp ▸ hop
        have hcount := ((h.tame c .map l hi).resolve_right hls.not_quiet).1
        exact (h.writes c l hi hop').step hi hop' hn hcount hno hls hs
      · rw [List.getElem?_set_ne (Ne.symm hci)] at hc
        exact (h.writes c l₂ hc hop).append _
  · refine ⟨fun hr' => by simp [hreg] at hr', fun i o l hi => ?_, fun i l hi hop => ?_⟩
    · rw [hlives] at hi
      exact h.tame i o l hi
    · rw [hlives] at hi
      exact (h.writes i l hi hop).append _

/-- **A patient run.** -/
theorem TargetRun.inv (h : TargetRun k g (newTarget ctx) run t)
    (hpos : 0 < ctx.config.numCarrierBlocks) (hp : ∀ m ∈ run, Patient m) :
    TargetInv k g ctx.config.numCarrierBlocks run t := by
  induction h with
  | start => exact ⟨fun _ => rfl, by simp [newTarget], by simp [newTarget]⟩
  | next before step ih =>
    simp only [List.forall_mem_append, List.forall_mem_singleton] at hp
    exact (ih hp.1).next hpos hp.2 step

theorem TargetRun.before {pre post : List (Target × TargetEvent)} {m : Target × TargetEvent}
    (h : TargetRun k g t₀ run t) (heq : run = pre ++ m :: post) : TargetRun k g t₀ pre m.1 := by
  induction h generalizing post with
  | start => simp at heq
  | @next run t ev t' before step ih =>
    rcases List.eq_nil_or_concat post with rfl | ⟨post', x, rfl⟩
    · obtain ⟨rfl, hm⟩ := List.append_inj' heq rfl
      rw [List.cons.injEq] at hm
      rw [← hm.1]
      exact before
    · rw [List.concat_eq_append, ← List.cons_append, ← List.append_assoc] at heq
      exact ih (List.append_inj' heq rfl).1

theorem WriteTrace.completed (h : WriteTrace k g n run i l) (hq : l.Quiet)
    (hend : LogEvent.endio ∈ l.log) : WriteCompleted k g n run i l := by
  cases h with
  | queued phase => rcases hq.1 with hp | hp <;> simp [phase] at hp
  | writing _ open_ => exact absurd hend open_
  | refused _ log =>
    exact ⟨hq, hend, fun j hj => absurd hj (log j), fun ⟨j, hj⟩ => absurd hj (log j)⟩
  | recorded _ done checksums => exact ⟨hq, hend, done, fun _ => checksums⟩

/-- **Flushes and the destructor are barriers in every patient run.** -/
theorem barriers_of_patient (h : TargetRun k g (newTarget ctx) run t)
    (hpos : 0 < ctx.config.numCarrierBlocks) (hp : ∀ m ∈ run, Patient m) :
    Barriers k g ctx.config.numCarrierBlocks run := by
  refine ⟨?_, ?_⟩
  · rintro pre t alloc fresh bio post rfl hflush i l hi hop
    have hinv := (h.before rfl).inv hpos fun m hm => hp m (List.mem_append_left _ hm)
    have hend : LogEvent.endio ∈ l.log :=
      hp _ (List.mem_append_right _ List.mem_cons_self) hflush l (List.mem_of_getElem? hi) hop
    exact (hinv.writes i l hi hop).completed ((hinv.tame i .map l hi).quiet hend) hend
  · rintro pre t post rfl o l hmem
    have hinv := (h.before rfl).inv hpos fun m hm => hp m (List.mem_append_left _ hm)
    have hend : LogEvent.endio ∈ l.log :=
      hp _ (List.mem_append_right _ List.mem_cons_self) o l hmem
    obtain ⟨i, hi⟩ := List.mem_iff_getElem?.1 hmem
    exact (hinv.tame i o l hi).quiet hend

end

/-! ### A flush after a write -/

/-- A flush does not wait for the write before it. -/
theorem flush_overtakes_write :
    ¬ ∀ (k : Kernel) (g : GfCtx) (ctx : AfsPrivate) (run : List (Target × TargetEvent))
      (t : Target), TargetRun k g (newTarget ctx) run t → 0 < ctx.config.numCarrierBlocks →
      Barriers k g ctx.config.numCarrierBlocks run := by
  intro hall
  let t₁ : Target := { newTarget freeContext with lives := [(.map, firstWrite)] }
  have hrun : TargetRun (constKernel 0) gfContextZero (newTarget freeContext)
      ([] ++ [(newTarget freeContext, .map true zeroRequest (blockBio .write 0 UInt8.ofNat))] ++
        [(t₁, .map true zeroRequest (blockBio .flush 0 fun _ => 0))]) _ :=
    .next (.next .start rfl) rfl
  have hdone := (hall _ _ _ _ _ hrun (by decide)).1 _ t₁ _ _ _ [] rfl rfl 0 firstWrite rfl rfl
  exact absurd hdone.ended (by simp [firstWrite, newLife])

/-- A flush that comes after the write has been ended finds it completed, with its carriers written
and their checksums recorded. -/
theorem flush_after_write :
    ∃ run t l, TargetRun (constKernel 0) gfContextZero (newTarget freeContext) (run ++
        [(t, .map true zeroRequest (blockBio .flush 0 fun _ => 0))])
        { t with lives := t.lives ++ [(.map, ⟨{ initRequest zeroRequest t.ctx with
          bio := blockBio .flush 0 fun _ => 0 }, .returned, .read, [], [.endio]⟩)] } ∧
      t.lives = [(.map, l)] ∧ l.req.bio.biOp = .write ∧
      (∀ j < 4, LogEvent.submit j ∈ l.log) ∧
      WriteCompleted (constKernel 0) gfContextZero 4 run 0 l := by
  obtain ⟨s, acts, ctx', l, -, hr, ⟨-, hended⟩, hlog, hacts⟩ := firstWrite_run
  let t₁ : Target := { newTarget freeContext with lives := [(.map, firstWrite)] }
  let t₂ : Target := { newTarget freeContext with ctx := ctx', lives := [(.map, l)] }
  have hop : l.req.bio.biOp = .write := hr.biOp
  have hrun₁ : TargetRun (constKernel 0) gfContextZero (newTarget freeContext)
      ([] ++ [(newTarget freeContext, .map true zeroRequest (blockBio .write 0 UInt8.ofNat))]) t₁ :=
    .next .start rfl
  obtain ⟨run, hrun₂, hsteps⟩ := hrun₁.runs (i := 0) (o := .map) rfl rfl hr
  have hrun : TargetRun (constKernel 0) gfContextZero (newTarget freeContext)
      ([] ++ [(newTarget freeContext, .map true zeroRequest (blockBio .write 0 UInt8.ofNat))] ++ run ++
        [(t₂, .map true zeroRequest (blockBio .flush 0 fun _ => 0))]) _ := .next hrun₂ rfl
  refine ⟨_, t₂, l, hrun, rfl, hop, fun j hj => (hlog j hj).1, ?_⟩
  have hpatient : ∀ m ∈ [] ++
      [(newTarget freeContext, .map true zeroRequest (blockBio .write 0 UInt8.ofNat))] ++ run ++
        [(t₂, .map true zeroRequest (blockBio .flush 0 fun _ => 0))], Patient m := by
    simp only [List.nil_append, List.forall_mem_append, List.forall_mem_singleton]
    refine ⟨⟨?_, fun m hm => ?_⟩, fun _ l₁ hl₁ _ => ?_⟩
    · intro h
      cases h
    · obtain ⟨a, ha, hm⟩ := hsteps m hm
      rw [Patient, hm]
      rintro o l₁ - ⟨code, hne, hact, -⟩
      rcases List.mem_cons.1 ha with h | h
      · simp [h] at hact
      · rcases hacts _ h with h | ⟨j, h⟩ <;> rw [h] at hact <;> cases hact
        exact hne rfl
    · obtain ⟨-, rfl⟩ := Prod.mk.inj (List.mem_singleton.1 hl₁)
      exact hended
  exact (barriers_of_patient hrun (by decide) hpatient).1 _ t₂ _ _ _ [] rfl rfl 0 l rfl hop

end Artifice
