import Artifice.Engine.Interleave

/-!
A target that is only read, as after a mount: reads of any blocks, next to the requests that
`afs_rebuild` queues.

No block has to be kept to one request here. Nothing is written, since no carrier is damaged; all
that the reads store is the difference field of their entry, which no request looks at.

The requests of `afs_rebuild` were given no bio. They read their carriers, and have no step where the
code follows the pointer that was not set: none of them ever ends.
-/

namespace Artifice

open Lib

/-- What happens to a target that is only read: a bio that reads inside of one of the first `n`
blocks, a request of `afs_rebuild`, or a step that does not fail. -/
def ReadsOnly (n : ℕ) : TargetEvent → Prop
  | .map alloc _ bio => alloc = true ∧ bio.biOp = .read ∧ bio.InBlock ∧ bio.biSector / 8 < n
  | .rebuild _ _ => True
  | .step _ a => a.Smooth
  | .dtr => False

/-- The read that a step of the target has finished. -/
def finishedRead (t t' : Target) : TargetEvent → List Done
  | .step i a =>
    match t.lives[i]? with
    | some (.map, _) => finished t t' (.step i a)
    | _ => []
  | _ => []

/-- A run of a target that is only read, and the reads that have finished. -/
inductive ReadOnlyRun (k : Kernel) (g : GfCtx) (n : ℕ) (ctx₀ : AfsPrivate) : List Done → Target → Prop
  | start : ReadOnlyRun k g n ctx₀ [] (newTarget ctx₀)
  | next {done t ev t'} (before : ReadOnlyRun k g n ctx₀ done t) (reads : ReadsOnly n ev)
      (step : t.next k g ev = some t') : ReadOnlyRun k g n ctx₀ (done ++ finishedRead t t' ev) t'

/-- A request without a bio: it is queued by `afs_rebuild`, it reads its carriers, or it is to be
decoded. -/
structure Bioless (l : Life) : Prop where
  hasBio : l.req.hasBio = false
  type : l.type = .read
  phase : l.phase = .rebuildq ∨ (∃ i, l.phase = .readPages i) ∨ l.phase = .returned ∨
    l.phase = .cryptoq
  sound : l.Sound

/-- A request of a target that is only read: a read is served or has finished, and a request of
`afs_rebuild` has no bio. -/
inductive ReadLife (k : Kernel) (ctx : AfsPrivate) (n : ℕ) : Origin → Life → Prop
  | serving {l} (op : l.req.bio.biOp = .read) (block : l.dataBlock < n) (serving : Serving k ctx l) :
      ReadLife k ctx n .map l
  | finished {l} (quiet : l.Quiet) : ReadLife k ctx n .map l
  | rebuild {l} (bioless : Bioless l) : ReadLife k ctx n .rebuild l

/-- A target that is only read: its first `n` blocks hold the store. -/
structure ReadOnly (k : Kernel) (store : ℕ → Mem) (n : ℕ) (t : Target) : Prop where
  registered : t.registered = true
  inst : Instance t.ctx
  blocks : n ≤ t.ctx.config.numBlocks
  content : ∀ b < n, Content k t.ctx b (store b)
  lives : ∀ (i : ℕ) (o : Origin) (l : Life), t.lives[i]? = some (o, l) → ReadLife k t.ctx n o l

section

variable {k : Kernel} {g : GfCtx} {ctx ctx' ctx₀ : AfsPrivate} {l l' : Life} {a : Act}
  {b i n : ℕ} {d : Mem} {req : AfsMapRequest} {store : ℕ → Mem} {t t' : Target} {ev : TargetEvent}
  {o : Origin}

/-! ### What a read changes -/

theorem DifferenceOnly.sameInstance (h : DifferenceOnly b ctx ctx') : SameInstance ctx ctx' := by
  obtain ⟨map, rfl, -⟩ := h
  exact ⟨rfl, rfl, rfl, rfl, rfl, rfl⟩

theorem DifferenceOnly.disk (h : DifferenceOnly b ctx ctx') : ctx'.disk = ctx.disk := by
  obtain ⟨map, rfl, -⟩ := h
  rfl

theorem DifferenceOnly.tuples (h : DifferenceOnly b ctx ctx') (hi : Instance ctx)
    (hb : b < ctx.config.numBlocks) {b' : ℕ} (hb' : b' < ctx.config.numBlocks) :
    Agree ctx'.afsMap (afsGetMapEntry ctx.config b') ctx.afsMap (afsGetMapEntry ctx.config b') 24 := by
  obtain ⟨map, rfl, htup⟩ := h
  exact htup.agree hi hb hb'

theorem DifferenceOnly.entryPtr (h : DifferenceOnly b ctx ctx') (hi : Instance ctx)
    (hb : b < ctx.config.numBlocks) {b' j : ℕ} (hb' : b' < ctx.config.numBlocks) (hj : j < 4) :
    entryPtr ctx' b' j = entryPtr ctx b' j := by
  rw [Artifice.entryPtr, Artifice.entryPtr, h.sameInstance.config]
  exact le_congr ((h.tuples hi hb hb').sub (by omega))

theorem DifferenceOnly.content (h : DifferenceOnly b ctx ctx') (hi : Instance ctx)
    (hb : b < ctx.config.numBlocks) {b' : ℕ} (hb' : b' < ctx.config.numBlocks)
    (hc : Content k ctx b' d) : Content k ctx' b' d := by
  rcases hc with ⟨hinv, hz⟩ | hst
  · exact Or.inl ⟨fun j hj => (h.entryPtr hi hb hb' hj).trans (hinv j hj), hz⟩
  · refine Or.inr ?_
    rw [h.sameInstance.config]
    exact hst.congr h.sameInstance (h.tuples hi hb hb') fun j _ => by
      rw [h.disk]
      exact Agree.refl _ _ _

theorem DifferenceOnly.reading (h : DifferenceOnly b ctx ctx') (hi : Instance ctx)
    (hb : b < ctx.config.numBlocks) (hreq : req.block < ctx.config.numBlocks)
    (hr : Reading ctx (takenRequest k ctx req) l) : Reading ctx' (takenRequest k ctx' req) l :=
  hr.moved hi.carriers h.sameInstance (fun _ hj => h.entryPtr hi hb hreq hj) fun _ _ => by
    rw [h.disk]
    exact Agree.refl _ _ _

/-! ### One request -/

theorem bioless_rebuildRequest (fresh : AfsMapRequest) (ctx : AfsPrivate) (b : ℕ) :
    Bioless (newLife (rebuildRequest fresh ctx b) .rebuildq) :=
  ⟨rfl, rfl, Or.inl rfl, Counted.newLife (Or.inr rfl) _ 4, Well.newLife (Or.inr rfl) rfl⟩

/-- **A request without a bio** reads its carriers, and that is all. -/
theorem Bioless.step (h : Bioless l) (hi : Instance ctx) (hs : LifeStep k g ctx l a ctx' l')
    (ha : a.Smooth) : ctx' = ctx ∧ Bioless l' := by
  have hphase := h.phase
  have hbio := hs.hasBio.trans h.hasBio
  have hsound := hs.sound hi.carriers h.sound ha fun hp => by simp [hp] at hphase
  cases hs with
  | startRebuild => exact ⟨rfl, hbio, rfl, Or.inr (Or.inl ⟨0, rfl⟩), hsound⟩
  | submitRead =>
    refine ⟨rfl, hbio, h.type, Or.inr ?_, hsound⟩
    simp only [submitted]
    split_ifs <;> simp
  | @complete i status t mem tr more =>
    subst tr
    obtain ⟨disk, carriers, ht, -, hread⟩ := transfer_cases ctx l i status
    refine ⟨?_, hbio, h.type, hphase, hsound⟩
    rw [ht, hread h.type]
  | @lastRead i status t mem tr last type =>
    subst tr
    obtain ⟨disk, carriers, ht, -, hread⟩ := transfer_cases ctx l i status
    refine ⟨?_, hbio, h.type, Or.inr (Or.inr (Or.inr rfl)), hsound⟩
    rw [ht, hread h.type]
  | lastWrite _ _ _ type => simp [h.type] at type
  | skip _ _ bio => simp [h.hasBio] at bio
  | decode _ _ _ bio => simp [h.hasBio] at bio
  | damaged _ _ _ bio => simp [h.hasBio] at bio
  | failRead _ fail => exact absurd ha fail
  | failWrite _ fail => exact absurd ha fail
  | failRebuild _ fail => exact absurd ha fail
  | submitWrite phase => simp [phase] at hphase
  | answer phase => simp [phase] at hphase
  | startRead phase => simp [phase] at hphase
  | refuse phase => simp [phase] at hphase
  | startWrite phase => simp [phase] at hphase
  | unknown phase => simp [phase] at hphase
  | rebuild phase => simp [phase] at hphase
  | abandon phase => simp [phase] at hphase

/-- It never ends. -/
theorem Bioless.not_quiet (h : Bioless l) : ¬ l.Quiet := by
  rintro ⟨hp | hp, hout⟩
  · exact (h.sound.2.waiting hp).1 hout
  · have hphase := h.phase
    simp [hp] at hphase

theorem ReadLife.other (h : ReadLife k ctx n o l) (hd : DifferenceOnly b ctx ctx')
    (hi : Instance ctx) (hb : b < ctx.config.numBlocks) : ReadLife k ctx' n o l := by
  have hsame := hd.sameInstance
  have hlt := hi.config.blocks
  cases h with
  | @serving l op block serving =>
    refine .serving op block ⟨serving.inBlock, serving.op, serving.whole,
      hsame.config ▸ serving.block, serving.hasBio, ?_⟩
    have hblock := serving.block
    rw [Life.dataBlock] at hblock
    cases serving.stage with
    | queued fresh life =>
      refine .queued fresh ?_
      rw [hsame.mapRequest]
      exact life
    | reading fresh op mapped read sound =>
      refine .reading fresh op (fun j hj => ?_) ?_ sound
      · rw [hd.entryPtr hi hb hblock hj]
        exact mapped j hj
      · have hfl : flightRequest fresh ctx' l.req.bio = flightRequest fresh ctx l.req.bio := by
          rw [flightRequest, hsame.mapRequest, flightRequest]
        rw [hfl]
        refine hd.reading hi hb ?_ read
        rw [show (flightRequest fresh ctx l.req.bio).block = _ from
          block_flightRequest (by omega)]
        exact hblock
    | writing op' =>
      rw [op] at op'
      cases op'
  | finished quiet => exact .finished quiet
  | rebuild bioless => exact .rebuild bioless

/-- **A step of a request** stores at most a difference, and a read that it ends is answered from the
store. -/
theorem ReadLife.step (h : ReadLife k ctx n o l) (hi : Instance ctx)
    (hk : ∀ n, k.kmalloc n = true) (hn : n ≤ ctx.config.numBlocks)
    (hc : ∀ b < n, Content k ctx b (store b)) (hs : l.step k g ctx a = some (ctx', l'))
    (ha : a.Smooth) :
    (ctx' = ctx ∨ ∃ b < n, DifferenceOnly b ctx ctx') ∧ ReadLife k ctx' n o l' ∧
      (o = .map → if l'.Quiet then Answered store ⟨l.req.bio, l'⟩ else l'.req.bio = l.req.bio) := by
  have hopen := (lifeStep_of_step hs).not_quiet
  have hlt := hi.config.blocks
  cases h with
  | @serving l op block serving =>
    obtain ⟨bio, hbio⟩ : ∃ bio, l.req.bio = bio := ⟨_, rfl⟩
    obtain ⟨inBlock, -, -, inRange, -, stage⟩ := serving
    rw [Life.dataBlock, hbio] at block inRange
    rw [hbio] at op inBlock stage ⊢
    have hstep : DifferenceOnly (bio.biSector / 8) ctx ctx' ∧
        Outcome k ctx' bio (store (bio.biSector / 8)) l' := by
      cases stage with
      | queued fresh life =>
        subst life
        exact serving_read_start hi inBlock op inRange (hc _ block) hs ha
      | reading fresh op' mapped read sound =>
        exact serving_read_step hi hk inBlock op inRange mapped read sound (hc _ block) hs ha
      | writing op' =>
        rw [op] at op'
        cases op'
    refine ⟨Or.inr ⟨_, block, hstep.1⟩, ?_⟩
    cases hstep.2 with
    | going open_ serving sameBio =>
      exact ⟨.serving (sameBio ▸ op) (by rw [Life.dataBlock, sameBio]; exact block) serving,
        fun _ => by rw [if_neg open_]; exact sameBio⟩
    | answered op quiet content answer =>
      exact ⟨.finished quiet, fun _ => by rw [if_pos quiet]; exact answer⟩
    | written op' =>
      rw [op] at op'
      cases op'
  | finished quiet => exact absurd quiet hopen
  | rebuild bioless =>
    obtain ⟨rfl, bioless'⟩ := bioless.step hi (lifeStep_of_step hs) ha
    exact ⟨Or.inl rfl, .rebuild bioless', fun h => by cases h⟩

/-! ### All requests together -/

/-- **No request of `afs_rebuild` ever ends.** -/
theorem ReadOnly.not_quiet (h : ReadOnly k store n t) (hi : t.lives[i]? = some (.rebuild, l)) :
    ¬ l.Quiet := by
  have hlife := h.lives i .rebuild l hi
  cases hlife with
  | rebuild bioless => exact bioless.not_quiet

theorem ReadOnly.append (h : ReadOnly k store n t) (hl : ReadLife k t.ctx n o l) :
    ReadOnly k store n { t with lives := t.lives ++ [(o, l)] } := by
  refine ⟨h.registered, h.inst, h.blocks, h.content, fun i o' l' hi => ?_⟩
  rcases getElem?_append_singleton hi with hi | hx
  · exact h.lives i o' l' hi
  · cases hx
    exact hl

/-- **What happens to a target that is only read** leaves its blocks and the device, and a read that
it finishes is answered from the store. -/
theorem ReadOnly.next (h : ReadOnly k store n t) (hk : ∀ n, k.kmalloc n = true)
    (hr : ReadsOnly n ev) (hs : t.next k g ev = some t') :
    ReadOnly k store n t' ∧ t'.ctx.disk = t.ctx.disk ∧
      ∀ r ∈ finishedRead t t' ev, Answered store r := by
  obtain ⟨-, ⟨alloc, fresh, bio, code, l, rfl, hmap, rfl⟩ | ⟨fresh, block, rfl, rfl⟩ |
    ⟨i, a, o, l, ctx', l', rfl, hi, hstep, rfl⟩ | ⟨rfl, -⟩⟩ := Target.next_cases hs
  · obtain ⟨rfl, hop, hbio, hb⟩ := hr
    refine ⟨h.append ?_, rfl, by simp [finishedRead]⟩
    rcases afsMap_cases hmap with ⟨-, rfl⟩ | ⟨hno, -⟩
    · rw [acceptPartialBio_eq hbio.range]
      have hwhole : bio.biOp = .write → bio.Whole := fun hw => by simp [hop] at hw
      exact .serving hop hb (serving_of_bio rfl hbio (Or.inl hop) hwhole
        (lt_of_lt_of_le hb h.blocks) rfl (.queued _ rfl))
    · exact absurd ⟨rfl, Or.inl hop⟩ hno
  · exact ⟨h.append (.rebuild (bioless_rebuildRequest fresh t.ctx block)), rfl,
      by simp [finishedRead]⟩
  · obtain ⟨hd, hl', hans⟩ := (h.lives i o l hi).step h.inst hk h.blocks h.content hstep hr
    -- the blocks and the other requests
    obtain ⟨hsame, hdisk, hcontent, hother⟩ : SameInstance t.ctx ctx' ∧ ctx'.disk = t.ctx.disk ∧
        (∀ b < n, Content k ctx' b (store b)) ∧
        ∀ o' l₂, ReadLife k t.ctx n o' l₂ → ReadLife k ctx' n o' l₂ := by
      rcases hd with rfl | ⟨b, hb, hd⟩
      · exact ⟨SameInstance.refl _, rfl, h.content, fun _ _ hl₂ => hl₂⟩
      · have hblock := lt_of_lt_of_le hb h.blocks
        exact ⟨hd.sameInstance, hd.disk, fun b' hb' => hd.content h.inst hblock
          (lt_of_lt_of_le hb' h.blocks) (h.content b' hb'), fun _ _ hl₂ => hl₂.other hd h.inst hblock⟩
    refine ⟨⟨h.registered, h.inst.of_sameInstance hsame, hsame.config.symm ▸ h.blocks, hcontent,
      fun j o' l₂ hj => ?_⟩, hdisk, fun r hmem => ?_⟩
    · by_cases hji : j = i
      · subst hji
        rw [List.getElem?_set_self (List.getElem?_eq_some_iff.1 hi).1] at hj
        cases hj
        exact hl'
      · rw [List.getElem?_set_ne (Ne.symm hji)] at hj
        exact hother o' l₂ (h.lives j o' l₂ hj)
    · cases o with
      | map =>
        simp only [finishedRead, hi] at hmem
        rw [finished_step hi] at hmem
        split_ifs at hmem with hq
        · obtain rfl := List.mem_singleton.1 hmem
          have hans := hans rfl
          rwa [if_pos hq] at hans
        · cases hmem
      | rebuild =>
        simp only [finishedRead, hi] at hmem
        cases hmem
  · exact hr.elim

/-- **A run of a target that is only read**: its blocks hold what they held, nothing is written, and
every read has been answered with what its block holds. -/
theorem ReadOnlyRun.readOnly {done : List Done} (h : ReadOnlyRun k g n ctx₀ done t)
    (hk : ∀ n, k.kmalloc n = true) (hi : Instance ctx₀) (hn : n ≤ ctx₀.config.numBlocks)
    (hc : ∀ b < n, Content k ctx₀ b (store b)) :
    ReadOnly k store n t ∧ t.ctx.disk = ctx₀.disk ∧ ∀ r ∈ done, Answered store r := by
  induction h with
  | start =>
    exact ⟨⟨rfl, hi, hn, hc, fun i o l hl => by simp [newTarget] at hl⟩, rfl, by simp⟩
  | next before reads step ih =>
    obtain ⟨hro, hdisk, hans⟩ := ih
    obtain ⟨hro', hdisk', hans'⟩ := hro.next hk reads step
    refine ⟨hro', hdisk'.trans hdisk, fun r hr => ?_⟩
    rcases List.mem_append.1 hr with hr | hr
    exacts [hans r hr, hans' r hr]

/-- **Every read that is under way can be brought to its end** by steps of its own. -/
theorem ReadOnlyRun.drain {done : List Done} (h : ReadOnlyRun k g n ctx₀ done t)
    (hk : ∀ n, k.kmalloc n = true) (hi : Instance ctx₀) (hn : n ≤ ctx₀.config.numBlocks)
    (hc : ∀ b < n, Content k ctx₀ b (store b)) (hl : t.lives[i]? = some (.map, l))
    (hq : ¬ l.Quiet) :
    ∃ t' l', ReadOnlyRun k g n ctx₀ (done ++ [⟨l.req.bio, l'⟩]) t' ∧ l'.Quiet := by
  obtain ⟨m, hm⟩ : ∃ m, l.rank < m := ⟨_, Nat.lt_succ_self _⟩
  induction m generalizing t l with
  | zero => omega
  | succ m ih =>
    obtain ⟨hro, -, -⟩ := h.readOnly hk hi hn hc
    have hlife := hro.lives i .map l hl
    cases hlife with
    | finished quiet => exact absurd quiet hq
    | serving op block serving =>
      obtain ⟨a, ctx', l', ha, hs, -, hend⟩ := serving.exists_step hro.inst hk
        (fun _ => hro.content _ block) (fun _ hw => by simp [op] at hw) g
      have hnext := h.next (show ReadsOnly n (.step i a) from ha)
        (Target.next_step hro.registered hl hs)
      have hfin : finishedRead t { t with ctx := ctx', lives := t.lives.set i (.map, l') }
          (.step i a) = if l'.Quiet then [⟨l.req.bio, l'⟩] else [] := by
        simp only [finishedRead, hl]
        exact finished_step hl
      rw [hfin] at hnext
      by_cases hq' : l'.Quiet
      · rw [if_pos hq'] at hnext
        exact ⟨_, l', hnext, hq'⟩
      · rw [if_neg hq', List.append_nil] at hnext
        obtain ⟨-, -, hbio⟩ := (hro.lives i .map l hl).step hro.inst hk hro.blocks hro.content hs ha
        have hbio := hbio rfl
        rw [if_neg hq'] at hbio
        have hlt := hend.resolve_left hq'
        obtain ⟨t₂, l₂, h₂, hq₂⟩ := ih hnext
          (List.getElem?_set_self (List.getElem?_eq_some_iff.1 hl).1) hq' (by omega)
        rw [hbio] at h₂
        exact ⟨t₂, l₂, h₂, hq₂⟩

end

end Artifice
