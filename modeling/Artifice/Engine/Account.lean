import Artifice.Engine.Race

/-!
The account of the free list: the positions that the allocation vector has marked, and the blocks
that the metadata and the map refer to.

A read that is not rebuilt changes neither. `rebuild_blocks` marks four positions for the new
carriers of its entry, and the old ones stay marked.
-/

namespace Artifice

open Lib

/-- A block that the metadata refers to. `replicas` are the blocks that hold a super block. -/
inductive MetadataRefers (replicas : Set ℕ) (ctx : AfsPrivate) : ℕ → Prop
  | replica {b : ℕ} (mem : b ∈ replicas) : MetadataRefers replicas ctx b
  | firstPtr (pos : 0 < ctx.config.numPtrBlocks) :
      MetadataRefers replicas ctx (le ctx.superBlock 4092 4)
  | nextPtr {i : ℕ} (lt : i + 1 < ctx.config.numPtrBlocks) :
      MetadataRefers replicas ctx (le ctx.afsPtrBlocks (4096 * i + 4092) 4)
  | mapSb {i : ℕ} (slot : i < 975) (lt : i < ctx.config.numMapBlocks) :
      MetadataRefers replicas ctx (slotGet ctx (.sb i))
  | mapPb {i j : ℕ} (slot : j < 1019) (lt : 975 + 1019 * i + j < ctx.config.numMapBlocks) :
      MetadataRefers replicas ctx (slotGet ctx (.pb i j))

/-- A block that the metadata or the map refers to. -/
def Refers (replicas : Set ℕ) (ctx : AfsPrivate) (x : ℕ) : Prop :=
  MetadataRefers replicas ctx x ∨
    ∃ b < ctx.config.numBlocks, ∃ j < 4, entryPtr ctx b j ≠ afsInvalidBlock ∧ x = entryPtr ctx b j

/-- **The account is exact**: the marked positions are those of the blocks that are referred to. -/
def Accounted (replicas : Set ℕ) (ctx : AfsPrivate) : Prop :=
  ∀ p < ctx.passiveFs.listLen, ctx.vector.bits p = true ↔
    ∃ x, ctx.passiveFs.blockList[p]? = some x ∧ Refers replicas ctx x

/-- The carriers are blocks of the free list, and nothing else refers to them. -/
structure Exclusive (replicas : Set ℕ) (ctx : AfsPrivate) : Prop where
  listed : ∀ b < ctx.config.numBlocks, ∀ j < 4, entryPtr ctx b j ≠ afsInvalidBlock →
    ∃ p < ctx.passiveFs.listLen, ctx.passiveFs.blockList[p]? = some (entryPtr ctx b j)
  metadata : ∀ b < ctx.config.numBlocks, ∀ j < 4, entryPtr ctx b j ≠ afsInvalidBlock →
    ¬ MetadataRefers replicas ctx (entryPtr ctx b j)
  distinct : ∀ b < ctx.config.numBlocks, ∀ b' < ctx.config.numBlocks, ∀ j < 4, ∀ j' < 4,
    entryPtr ctx b j ≠ afsInvalidBlock → entryPtr ctx b j = entryPtr ctx b' j' → b = b' ∧ j = j'

/-- A read that was decoded with a mismatch calls `rebuild_blocks`. -/
def Rebuilds (m : Target × TargetEvent) : Prop := ∃ i e, m.2 = .step i (.rebuildBlocks e)

/-- A read of a block of the instance, or a step of one. -/
def ReadEvent (config : AfsConfig) : TargetEvent → Prop
  | .map _ _ bio => bio.biOp = .read ∧ bio.biSector / 8 < config.numBlocks
  | .step _ _ => True
  | .rebuild _ _ | .dtr => False

/-- **A run of reads**, in any order of their steps, whose rebuilds find their blocks. Meanwhile the
host writes to the device what it likes. -/
inductive ReadRun (k : Kernel) (g : GfCtx) (t₀ : Target) : List (Target × TargetEvent) →
    Target → Prop
  | start : ReadRun k g t₀ [] t₀
  | next {run t ev t'} (before : ReadRun k g t₀ run t) (read : ReadEvent t₀.ctx.config ev)
      (found : Rebuilds (t, ev) → CanAcquire t.ctx) (step : t.next k g ev = some t') :
      ReadRun k g t₀ (run ++ [(t, ev)]) t'
  | host {run t} (before : ReadRun k g t₀ run t) (disk : Mem) :
      ReadRun k g t₀ run { t with ctx := { t.ctx with disk } }

section

variable {k : Kernel} {g : GfCtx} {e : Entropy} {ctx ctx' ctx₀ ctx₁ : AfsPrivate} {l l' : Life}
  {a : Act} {req : AfsMapRequest} {replicas : Set ℕ} {b j x : ℕ} {t t' : Target}
  {ev : TargetEvent} {run : List (Target × TargetEvent)}

/-! ### What reads leave -/

/-- The context has other data on the device and other difference fields in the map. -/
def Kept (ctx ctx' : AfsPrivate) : Prop :=
  ∃ afsMap disk, ctx' = { ctx with afsMap, disk } ∧
    ∀ c, ∀ i < 24, afsMap (64 * c + i) = ctx.afsMap (64 * c + i)

theorem Kept.refl (ctx : AfsPrivate) : Kept ctx ctx := ⟨ctx.afsMap, ctx.disk, rfl, fun _ _ _ => rfl⟩

theorem Kept.trans (h : Kept ctx ctx₁) (h' : Kept ctx₁ ctx') : Kept ctx ctx' := by
  obtain ⟨map, disk, rfl, hmap⟩ := h
  obtain ⟨map', disk', rfl, hmap'⟩ := h'
  exact ⟨map', disk', rfl, fun c i hi => (hmap' c i hi).trans (hmap c i hi)⟩

theorem Kept.sameInstance (h : Kept ctx ctx') : SameInstance ctx ctx' := by
  obtain ⟨map, disk, rfl, -⟩ := h
  exact ⟨rfl, rfl, rfl, rfl, rfl, rfl⟩

theorem Kept.entryPtr (h : Kept ctx ctx') (hi : Instance ctx) (hb : b < ctx.config.numBlocks)
    (hj : j < 4) : entryPtr ctx' b j = entryPtr ctx b j := by
  obtain ⟨map, disk, rfl, hmap⟩ := h
  rw [Artifice.entryPtr, Artifice.entryPtr, hi.afsGetMapEntry hb]
  exact le_congr fun i hi' => by
    rw [Nat.add_assoc]
    exact hmap b (6 * j + i) (by omega)

theorem MetadataRefers.congr (h : MetadataRefers replicas ctx' x)
    (hconf : ctx'.config = ctx.config) (hsb : ctx'.superBlock = ctx.superBlock)
    (hpb : ctx'.afsPtrBlocks = ctx.afsPtrBlocks) : MetadataRefers replicas ctx x := by
  cases h with
  | replica mem => exact .replica mem
  | firstPtr pos =>
    rw [hsb]
    exact .firstPtr (hconf ▸ pos)
  | nextPtr lt =>
    rw [hpb]
    exact .nextPtr (hconf ▸ lt)
  | mapSb slot lt =>
    rw [slotGet, hsb]
    exact MetadataRefers.mapSb slot (hconf ▸ lt)
  | mapPb slot lt =>
    rw [slotGet, hpb]
    exact MetadataRefers.mapPb slot (hconf ▸ lt)

theorem Kept.metadataRefers (h : Kept ctx ctx') (hm : MetadataRefers replicas ctx' x) :
    MetadataRefers replicas ctx x := by
  obtain ⟨map, disk, rfl, -⟩ := h
  exact hm.congr rfl rfl rfl

theorem Kept.symm (h : Kept ctx ctx') : Kept ctx' ctx := by
  obtain ⟨map, disk, rfl, hmap⟩ := h
  exact ⟨ctx.afsMap, ctx.disk, rfl, fun c i hi => (hmap c i hi).symm⟩

theorem Kept.refers (h : Kept ctx ctx') (hi : Instance ctx) (hr : Refers replicas ctx' x) :
    Refers replicas ctx x := by
  rcases hr with hm | ⟨b, hb, j, hj, hne, rfl⟩
  · exact .inl (h.metadataRefers hm)
  · rw [h.sameInstance.config] at hb
    rw [h.entryPtr hi hb hj] at hne ⊢
    exact .inr ⟨b, hb, j, hj, hne, rfl⟩

theorem Kept.accounted (h : Kept ctx ctx') (hi : Instance ctx) (ha : Accounted replicas ctx) :
    Accounted replicas ctx' := by
  have hi' := hi.of_sameInstance h.sameInstance
  intro p hp
  have hiff : ctx.vector.bits p = true ↔
      ∃ x, ctx.passiveFs.blockList[p]? = some x ∧ Refers replicas ctx x :=
    ha p (h.sameInstance.passiveFs ▸ hp)
  have hvector : ctx'.vector = ctx.vector := by
    obtain ⟨map, disk, rfl, -⟩ := h
    rfl
  rw [hvector, hiff, h.sameInstance.passiveFs]
  exact exists_congr fun x => and_congr_right fun _ => ⟨h.symm.refers hi', h.refers hi⟩

/-- A read of a mapped block that has not come to a rebuild: it has not done anything, it is over,
or it is under way. -/
inductive CalmRead (ctx₀ : AfsPrivate) (l : Life) : Prop
  | finished (outstanding : l.outstanding = []) (phase : l.phase = .gone)
  | queued (outstanding : l.outstanding = []) (phase : l.phase = .flightq)
      (op : l.req.bio.biOp = .read) (block : l.req.block < ctx₀.config.numBlocks)
  | going {b : ℕ} (type : l.type = .read)
      (phase : l.phase ≠ .flightq ∧ l.phase ≠ .rebuildq ∧ ∀ r i, l.phase ≠ .writePages r i)
      (block : b < ctx₀.config.numBlocks) (mapped : entryPtr ctx₀ b 0 ≠ afsInvalidBlock)
      (entry : l.req.mapEntry = afsGetMapEntry ctx₀.config b)

theorem kept_readDecode {req' : AfsMapRequest} (hi : Instance ctx) (hb : b < ctx.config.numBlocks)
    (hentry : req.mapEntry = afsGetMapEntry ctx.config b)
    (h : readDecode k g ctx req = some (ctx', req')) : Kept ctx ctx' := by
  obtain ⟨⟨map, rfl, htup⟩, -⟩ := similar_readDecode hi.carriers hentry h
  refine ⟨map, ctx.disk, rfl, fun c i hlt => htup _ ?_⟩
  rw [hi.afsGetMapEntry hb]
  omega

/-- **A step of a read that is not rebuilt.** -/
theorem CalmRead.step (h : CalmRead ctx₀ l) (hs : LifeStep k g ctx l a ctx' l') (hk : Kept ctx₀ ctx)
    (hi : Instance ctx₀) (hno : ∀ e, a ≠ .rebuildBlocks e) :
    CalmRead ctx₀ l' ∧ Kept ctx ctx' := by
  have hconf := hk.sameInstance.config
  have hi' := hi.of_sameInstance hk.sameInstance
  cases h with
  | finished outstanding phase =>
    cases hs <;> simp_all
  | queued outstanding phase op block =>
    cases hs with
    | answer _ _ map => exact ⟨.finished outstanding rfl, Kept.refl _⟩
    | startRead _ _ map =>
      obtain ⟨hmapped, rfl⟩ := readRequestMap_next rfl map
      have hptr := hk.entryPtr hi block (by norm_num : 0 < 4)
      refine ⟨.going rfl
        ⟨by simp [beginReadPages], by simp [beginReadPages], by simp [beginReadPages]⟩
        block ?_ ?_, Kept.refl _⟩
      · rw [← hptr]
        exact hmapped
      · show afsGetMapEntry ctx.config l.req.block = _
        rw [hconf]
    | _ => simp_all
  | @going b type phase block mapped entry =>
    have hentry : l.req.mapEntry = afsGetMapEntry ctx.config b := by rw [hconf]; exact entry
    have hb : b < ctx.config.numBlocks := by rw [hconf]; exact block
    cases hs with
    | submitRead hp =>
      refine ⟨.going type ⟨?_, ?_, ?_⟩ block mapped entry, Kept.refl _⟩
      · simp only [submitted]
        split_ifs <;> simp
      · simp only [submitted]
        split_ifs <;> simp
      · intro r i
        simp only [submitted]
        split_ifs <;> simp
    | failRead hp fail =>
      exact ⟨.going type ⟨by simp [afsReqClean], by simp [afsReqClean], by simp [afsReqClean]⟩
        block mapped entry, Kept.refl _⟩
    | @complete i status t mem tr more =>
      subst tr
      obtain ⟨disk, carriers, ht, -, hread⟩ := transfer_cases ctx l i status
      rw [ht, hread type]
      exact ⟨.going type phase block mapped entry, Kept.refl _⟩
    | @lastRead i status t mem tr last _ =>
      subst tr
      obtain ⟨disk, carriers, ht, -, hread⟩ := transfer_cases ctx l i status
      rw [ht, hread type]
      exact ⟨.going type ⟨by simp, by simp, by simp⟩ block mapped entry, Kept.refl _⟩
    | lastWrite _ _ _ ty => simp [type] at ty
    | decode _ dec =>
      have hkept := kept_readDecode hi' hb hentry dec
      obtain ⟨_, _, _, _, _, _, -, rfl, -⟩ := readDecode_frame dec
      exact ⟨.going type ⟨by simp [afsReqClean], by simp [afsReqClean], by simp [afsReqClean]⟩
        block mapped entry, hkept⟩
    | damaged _ dec =>
      have hkept := kept_readDecode hi' hb hentry dec
      obtain ⟨_, _, _, _, _, _, -, rfl, -⟩ := readDecode_frame dec
      exact ⟨.going type ⟨by simp, by simp, by simp⟩ block mapped entry, hkept⟩
    | rebuild => exact absurd rfl (hno _)
    | abandon => exact absurd rfl (hno _)
    | submitWrite hp => exact absurd hp (phase.2.2 _ _)
    | failWrite hp => exact absurd hp (phase.2.2 _ _)
    | failRebuild hp => exact absurd hp (phase.2.2 _ _)
    | answer hp => exact absurd hp phase.1
    | startRead hp => exact absurd hp phase.1
    | refuse hp => exact absurd hp phase.1
    | startWrite hp => exact absurd hp phase.1
    | unknown hp => exact absurd hp phase.1
    | skip hp => exact absurd hp phase.2.1
    | startRebuild hp => exact absurd hp phase.2.1

/-! ### What a rebuild leaves -/

/-- **The blocks of a rebuild**: they are at positions that were free. -/
theorem rebuildBlocksMap_acquired {s : AfsPrivate × AfsMapRequest} (hi : Instance ctx)
    (hentry : req.mapEntry = afsGetMapEntry ctx.config b)
    (h : rebuildBlocksMap k g e ctx req = some (.next s)) :
    s.1.superBlock = ctx.superBlock ∧ s.1.afsPtrBlocks = ctx.afsPtrBlocks ∧
      (∀ p, ctx.vector.bits p = true → s.1.vector.bits p = true) ∧
      ∀ j < 4, ∃ p < ctx.passiveFs.listLen, ctx.vector.bits p = false ∧
        ctx.passiveFs.blockList[p]? = some (s.2.blockNums j) := by
  have hn := hi.carriers
  obtain ⟨ctx₁, req₁, henc₁, bs, v, random, hacq, hlen, rfl⟩ := rebuildBlocksMap_started h
  obtain ⟨map, encoder, carriers, rfl, rfl, htup⟩ := sameTuples_encodeRequest hn henc₁
  rw [hn] at hacq hlen
  obtain ⟨ps, hacq⟩ := acquireBlocks_spec hacq
  have hpt := pointed_of_acquired (b := b) (s := reacquiredState { ctx with afsMap := map }
    { renumberRequest ctx req with encoder, carrierBlocks := carriers } bs v random) hi hacq hlen
    rfl hentry htup rfl
  refine ⟨rfl, rfl, fun p hp => ?_, fun j hj => ?_⟩
  · show v.bits p = true
    rw [hacq.bits, hp, Bool.true_or]
  · obtain ⟨-, p, hps, hx⟩ := hacq.blocks j _ (hpt.2 j hj)
    have hfree := hacq.free p (List.mem_of_getElem? hps)
    exact ⟨p, hfree.1, hfree.2.2, hx⟩

/-- **A rebuild leaks**: the position of the first carrier that it replaces stays marked, and nothing
refers to it. -/
theorem Exclusive.not_accounted {s : AfsPrivate × AfsMapRequest} (h : Exclusive replicas ctx)
    (hi : Instance ctx) (ha : Accounted replicas ctx) (hb : b < ctx.config.numBlocks)
    (hmapped : entryPtr ctx b 0 ≠ afsInvalidBlock)
    (hentry : req.mapEntry = afsGetMapEntry ctx.config b)
    (hs : rebuildBlocksMap k g e ctx req = some (.next s)) : ¬ Accounted replicas s.1 := by
  obtain ⟨hsb, hpb, hmarked, hnew⟩ := rebuildBlocksMap_acquired hi hentry hs
  obtain ⟨hpt, -⟩ := rebuildBlocksMap_mapped hi hentry hs
  obtain ⟨p, hp, hx⟩ := h.listed b hb 0 (by norm_num) hmapped
  have hbit : ctx.vector.bits p = true :=
    (ha p hp).2 ⟨_, hx, .inr ⟨b, hb, 0, by norm_num, hmapped, rfl⟩⟩
  intro ha'
  rw [Accounted, hpt.same.passiveFs] at ha'
  obtain ⟨x, hx', hr⟩ := (ha' p hp).1 (hmarked p hbit)
  obtain rfl : x = entryPtr ctx b 0 := Option.some.inj (hx'.symm.trans hx)
  rcases hr with hm | ⟨b', hb', j', hj', hne, heq⟩
  · -- the metadata is what it was
    exact h.metadata b hb 0 (by norm_num) hmapped (hm.congr hpt.same.config hsb hpb)
  · rw [hpt.same.config] at hb'
    by_cases hbb : b' = b
    · -- a new carrier was at a position that was free
      subst hbb
      obtain ⟨q, hq, hfree, hxq⟩ := hnew j' hj'
      rw [heq, hpt.entryPtr_eq hj'] at hx
      rw [hi.position_inj hp hq hx hxq, hfree] at hbit
      cases hbit
    · have hother : entryPtr s.1 b' j' = entryPtr ctx b' j' :=
        entryPtr_of_other hi hpt.same hb hb' hbb (by rw [← hpt.entry]; exact hpt.other) hj'
      rw [hother] at heq
      exact hbb (h.distinct b hb b' hb' 0 (by norm_num) j' hj' hmapped heq).1.symm

/-! ### Runs of reads -/

/-- The target while no read has been rebuilt. -/
structure ReadInv (ctx₀ : AfsPrivate) (t : Target) : Prop where
  kept : Kept ctx₀ t.ctx
  reads : ∀ (i : ℕ) (o : Origin) (l : Life), t.lives[i]? = some (o, l) → CalmRead ctx₀ l

theorem calmRead_afsMap {flightEq : List ℕ} {alloc : Bool} {fresh : AfsMapRequest} {bio : Bio}
    {code : MapioCode} (hi : Instance ctx₀) (hop : bio.biOp = .read)
    (hb : bio.biSector / 8 < ctx₀.config.numBlocks)
    (h : afsMap flightEq alloc fresh ctx bio = some (code, l)) : CalmRead ctx₀ l := by
  unfold afsMap at h
  simp only [acceptPartialBio_biOp, hop] at h
  split_ifs at h
  rotate_left
  · obtain ⟨-, rfl⟩ := Prod.mk.inj (Option.some.inj h)
    exact .finished rfl rfl
  · obtain ⟨-, rfl⟩ := Prod.mk.inj (Option.some.inj h)
    refine .queued rfl rfl ?_ ?_
    · exact (acceptPartialBio_biOp bio).trans hop
    · have hsmall := hi.small
      simp only [newLife, mapRequest, acceptPartialBio_biSector]
      omega

/-- **A step of a run in which no read is rebuilt.** -/
theorem ReadInv.next (h : ReadInv ctx₀ t) (hi : Instance ctx₀) (hread : ReadEvent ctx₀.config ev)
    (hno : ¬ Rebuilds (t, ev)) (hs : t.next k g ev = some t') : ReadInv ctx₀ t' := by
  obtain ⟨-, hcase⟩ := Target.next_cases hs
  rcases hcase with ⟨alloc, fresh, bio, code, l, rfl, hmap, rfl⟩ | ⟨fresh, block, rfl, rfl⟩ |
    ⟨i, a, o, l, ctx', l', rfl, hl, hstep, rfl⟩ | ⟨rfl, -, -⟩
  · refine ⟨h.kept, fun i o l' hl => ?_⟩
    rcases getElem?_append_singleton hl with hl | heq
    · exact h.reads i o l' hl
    · obtain ⟨-, rfl⟩ := Prod.mk.inj heq
      exact calmRead_afsMap hi hread.1 hread.2 hmap
  · exact hread.elim
  · have hcalm := (h.reads i o l hl).step (lifeStep_of_step hstep) h.kept hi
      fun e ha => hno ⟨i, e, by rw [ha]⟩
    have hlt : i < t.lives.length := (List.getElem?_eq_some_iff.1 hl).1
    refine ⟨h.kept.trans hcalm.2, fun c o' l₂ hc => ?_⟩
    by_cases hci : c = i
    · subst hci
      rw [List.getElem?_set_self hlt, Option.some.injEq, Prod.mk.injEq] at hc
      obtain ⟨-, rfl⟩ := hc
      exact hcalm.1
    · rw [List.getElem?_set_ne (Ne.symm hci)] at hc
      exact h.reads c o' l₂ hc
  · exact hread.elim

theorem Kept.exclusive (h : Kept ctx ctx') (hi : Instance ctx) (hex : Exclusive replicas ctx) :
    Exclusive replicas ctx' := by
  have hconf := h.sameInstance.config
  have hfs := h.sameInstance.passiveFs
  refine ⟨fun b hb j hj hne => ?_, fun b hb j hj hne hm => ?_,
    fun b hb b' hb' j hj j' hj' hne heq => ?_⟩
  · rw [hconf] at hb
    rw [h.entryPtr hi hb hj] at hne ⊢
    rw [hfs]
    exact hex.listed b hb j hj hne
  · rw [hconf] at hb
    rw [h.entryPtr hi hb hj] at hne hm
    exact hex.metadata b hb j hj hne (h.metadataRefers hm)
  · rw [hconf] at hb hb'
    rw [h.entryPtr hi hb hj] at hne heq
    rw [h.entryPtr hi hb' hj'] at heq
    exact hex.distinct b hb b' hb' j hj j' hj' hne heq

/-- **The step in which a read is rebuilt.** -/
theorem ReadInv.not_accounted (h : ReadInv ctx₀ t) (hi : Instance ctx₀)
    (hex : Exclusive replicas ctx₀) (ha : Accounted replicas ctx₀) (hre : Rebuilds (t, ev))
    (hcan : CanAcquire t.ctx) (hs : t.next k g ev = some t') : ¬ Accounted replicas t'.ctx := by
  obtain ⟨i, e, rfl⟩ := hre
  obtain ⟨-, hcase⟩ := Target.next_cases hs
  rcases hcase with ⟨_, _, _, _, _, hev, -⟩ | ⟨_, _, hev, -⟩ |
    ⟨i', a, o, l, ctx', l', hev, hl, hstep, rfl⟩ | ⟨hev, -⟩
  · cases hev
  · cases hev
  · cases hev
    have hstep := lifeStep_of_step hstep
    have hp := hstep.rebuildBlocks_phase
    cases h.reads i o l hl with
    | finished _ phase => simp [phase] at hp
    | queued _ phase => simp [phase] at hp
    | @going b type phase block mapped entry =>
      have hconf := h.kept.sameInstance.config
      cases hstep with
      | rebuild _ map =>
        refine (h.kept.exclusive hi hex).not_accounted (hi.of_sameInstance h.kept.sameInstance)
          (h.kept.accounted hi ha) (b := b) (by rw [hconf]; exact block) ?_ ?_ map
        · rw [h.kept.entryPtr hi block (by norm_num)]
          exact mapped
        · rw [hconf]
          exact entry
      | abandon _ map => exact (rebuildBlocksMap_ret map hcan).elim
  · cases hev

theorem accounted_disk (disk : Mem) :
    Accounted replicas { ctx with disk } ↔ Accounted replicas ctx := by
  refine forall₂_congr fun p _ => iff_congr Iff.rfl (exists_congr fun x => ?_)
  refine and_congr_right fun _ => or_congr ⟨fun h => ?_, fun h => ?_⟩ Iff.rfl
  · exact h.congr rfl rfl rfl
  · exact h.congr rfl rfl rfl

theorem ReadRun.inv (h : ReadRun k g (newTarget ctx₀) run t) (hi : Instance ctx₀)
    (hno : ∀ m ∈ run, ¬ Rebuilds m) : ReadInv ctx₀ t := by
  induction h with
  | start => exact ⟨Kept.refl _, by simp [newTarget]⟩
  | next before read found step ih =>
    simp only [List.forall_mem_append, List.forall_mem_singleton] at hno
    exact (ih hno.1).next hi read hno.2 step
  | host before disk ih =>
    exact ⟨(ih hno).kept.trans ⟨_, disk, rfl, fun _ _ _ => rfl⟩, (ih hno).reads⟩

/-- **The account of the free list stays exact in a run of reads exactly if** no read is rebuilt. -/
theorem accounted_iff (h : ReadRun k g (newTarget ctx₀) run t) (hi : Instance ctx₀)
    (hex : Exclusive replicas ctx₀) (ha : Accounted replicas ctx₀) :
    ((∀ m ∈ run, Accounted replicas m.1.ctx) ∧ Accounted replicas t.ctx) ↔
      ∀ m ∈ run, ¬ Rebuilds m := by
  induction h with
  | start => simpa [newTarget] using ha
  | @next run t ev t' before read found step ih =>
    simp only [List.forall_mem_append, List.forall_mem_singleton]
    constructor
    · rintro ⟨⟨hrun, ht⟩, ht'⟩
      have hno := ih.1 ⟨hrun, ht⟩
      refine ⟨hno, fun hre => ?_⟩
      exact (before.inv hi hno).not_accounted hi hex ha hre (found hre) step ht'
    · rintro ⟨hrun, hev⟩
      have hinv := before.inv hi hrun
      exact ⟨ih.2 hrun, (hinv.next hi read hev step).kept.accounted hi ha⟩
  | @host run t before disk ih =>
    rw [← ih]
    exact and_congr_right fun _ => accounted_disk disk

/-! ### Runs with a rebuild -/

/-- The target with one request. -/
def soleTarget (ctx : AfsPrivate) (l : Life) : Target := ⟨ctx, [(.map, l)], [], [], true⟩

theorem ReadRun.step {t₀ : Target} (h : ReadRun k g t₀ run (soleTarget ctx l))
    (hfound : ∀ e, a = .rebuildBlocks e → CanAcquire ctx) (hs : l.step k g ctx a = some (ctx', l')) :
    ReadRun k g t₀ (run ++ [(soleTarget ctx l, .step 0 a)]) (soleTarget ctx' l') := by
  have hread : ReadEvent t₀.ctx.config (.step 0 a) := trivial
  have hnext : (soleTarget ctx l).next k g (.step 0 a) = some (soleTarget ctx' l') :=
    Target.next_step rfl rfl hs
  refine .next h hread ?_ hnext
  rintro ⟨i, e, hev⟩
  exact hfound e (TargetEvent.step.inj hev).2

theorem ReadRun.runs {t₀ : Target} {acts : List Act} (hr : Runs k g ctx l acts ctx' l')
    (hno : ∀ e, .rebuildBlocks e ∉ acts) (h : ReadRun k g t₀ run (soleTarget ctx l)) :
    ∃ run', ReadRun k g t₀ run' (soleTarget ctx' l') := by
  induction hr generalizing run with
  | nil => exact ⟨run, h⟩
  | @cons ctx ctx₁ ctx₂ l l₁ l₂ a as step rest ih =>
    simp only [List.mem_cons, not_or] at hno
    exact ih (fun e => (hno e).2) (h.step (fun e ha => absurd ha.symm (hno e).1) step)

theorem ReadRun.first (hb : b < ctx.config.numBlocks) (k : Kernel) (g : GfCtx) :
    ReadRun k g (newTarget ctx)
      ([] ++ [(newTarget ctx, .map true zeroRequest (blockBio .read b fun _ => 0))])
      (soleTarget ctx (newLife (mapRequest zeroRequest ctx (blockBio .read b fun _ => 0))
        .flightq)) := by
  have hblock : (blockBio .read b fun _ => 0).biSector / 8 = b := by
    simp only [blockBio]
    omega
  have hread : ReadEvent (newTarget ctx).ctx.config
      (.map true zeroRequest (blockBio .read b fun _ => 0)) := ⟨rfl, by rw [hblock]; exact hb⟩
  have hnext : (newTarget ctx).next k g (.map true zeroRequest (blockBio .read b fun _ => 0)) =
      some (soleTarget ctx (newLife (mapRequest zeroRequest ctx (blockBio .read b fun _ => 0))
        .flightq)) := by
    simp only [Target.next, newTarget]
    rw [afsMap_inBlock (inBlock_blockBio .read b _) (.inl rfl)]
    rfl
  refine .next .start hread ?_ hnext
  rintro ⟨_, _, hev⟩
  cases hev

/-- **A read of a damaged block rebuilds it**, and leaves the account wrong. -/
theorem exists_leak (hi : Instance ctx) (hk : ∀ n, k.kmalloc n = true)
    (hex : Exclusive replicas ctx) (ha : Accounted replicas ctx)
    (hb : b < ctx.config.numBlocks) (h0 : entryPtr ctx b 0 ≠ afsInvalidBlock)
    (hd : Damaged ctx (afsGetMapEntry ctx.config b)) (hcan : CanAcquire ctx) (g : GfCtx) :
    ∃ run t, ReadRun k g (newTarget ctx) run t ∧ (∃ m ∈ run, Rebuilds m) ∧
      ¬ Accounted replicas t.ctx := by
  have hop : (blockBio .read b fun _ => 0).biOp = .read := rfl
  have hblock : (blockBio .read b fun _ => 0).biSector / 8 = b := by
    simp only [blockBio]
    omega
  obtain ⟨acts, l, ctx₁, req, hr, -, hno, -, hp, hbio, hdec, ⟨map, rfl⟩, hentry, hflag, -⟩ :=
    read_reaches hi hk hop (by rw [hblock]; exact hb) (by rw [hblock]; exact h0) zeroRequest g
  rw [hblock] at hentry hflag
  obtain ⟨run, h⟩ := ReadRun.runs hr hno (ReadRun.first hb k g)
  -- the rebuild
  have hi₁ : Instance { ctx with afsMap := map } := hi.of_sameInstance sameInstance_of_eq
  have hcan₁ : CanAcquire { ctx with afsMap := map } := hcan
  obtain ⟨s, hmap⟩ := rebuildBlocksMap_total hk hi₁.carriers hcan₁ req g zeroEntropy
  have hdecoded := h.step (fun _ _ => hcan) (LifeStep.damaged hp hdec (hflag.2 hd) hbio).step
  have hstep := hdecoded.step (fun _ _ => hcan₁) (LifeStep.rebuild rfl hmap).step
  refine ⟨_, _, hstep, ⟨_, List.mem_append_right _ (List.mem_singleton.2 rfl), 0, zeroEntropy, rfl⟩,
    ?_⟩
  have hkept : Kept ctx { ctx with afsMap := map } := by
    refine kept_readDecode hi hb ?_ hdec
    obtain ⟨_, _, _, _, _, _, -, rfl, -⟩ := readDecode_frame hdec
    exact hentry
  refine (hkept.exclusive hi hex).not_accounted hi₁ (hkept.accounted hi ha) hb ?_ hentry hmap
  rw [hkept.entryPtr hi hb (by norm_num)]
  exact h0

end

/-- An instance of 16 blocks over a list of twelve: block 0 of the host holds the super block, block
1 the map block, and blocks 2 to 5 are the carriers of its first block. -/
def filledContext : AfsPrivate :=
  { smallContext [0, 1, 2, 3, 4, 5, 6, 7, 8, 9, 10, 11] with
    vector := ⟨fun p => decide (p < 6), 2 ^ 32 - 1⟩
    superBlock := putLe (fun _ => 0) 192 4 1
    afsMap := fun a => if a < 24 then if a % 6 = 0 then UInt8.ofNat (2 + a / 6) else 0 else 255
    random := [6, 7, 8, 9] }

theorem entryPtr_filledContext : ∀ b < 16, ∀ j < 4,
    entryPtr filledContext b j = if b = 0 then 2 + j else afsInvalidBlock := by
  decide

theorem filledContext_instance : Instance filledContext :=
  ⟨rfl, buildConfiguration_ok (sizedConfig 16) 1 (by norm_num : 1 ≤ 4) (by norm_num), by decide,
    by decide, by decide, by decide⟩

theorem filledContext_damaged :
    Damaged filledContext (afsGetMapEntry filledContext.config 0) :=
  ⟨0, by norm_num, by decide +kernel⟩

theorem filledContext_canAcquire : CanAcquire filledContext :=
  ⟨[6, 7, 8, 9], _, _, rfl, rfl⟩

theorem metadataRefers_filledContext {x : ℕ} :
    MetadataRefers {0} filledContext x ↔ x = 0 ∨ x = 1 := by
  have hmapBlocks : filledContext.config.numMapBlocks = 1 := by decide
  have hptrBlocks : filledContext.config.numPtrBlocks = 0 := by decide
  constructor
  · intro h
    cases h with
    | replica mem => exact .inl mem
    | firstPtr pos => omega
    | nextPtr lt => omega
    | @mapSb i _ lt =>
      obtain rfl : i = 0 := by omega
      exact .inr (by decide)
    | mapPb _ lt => omega
  · rintro (rfl | rfl)
    · exact .replica rfl
    · exact MetadataRefers.mapSb (i := 0) (by norm_num) (by decide)

theorem filledContext_exclusive : Exclusive {0} filledContext := by
  have hmapped : ∀ b < 16, ∀ j < 4, entryPtr filledContext b j ≠ afsInvalidBlock →
      b = 0 ∧ entryPtr filledContext b j = 2 + j := by
    intro b hb j hj hne
    rw [entryPtr_filledContext b hb j hj] at hne ⊢
    split_ifs at hne ⊢ with h0
    · exact ⟨h0, rfl⟩
    · exact absurd rfl hne
  refine ⟨fun b hb j hj hne => ?_, fun b hb j hj hne hm => ?_,
    fun b hb b' hb' j hj j' hj' hne heq => ?_⟩
  · rw [(hmapped b hb j hj hne).2]
    refine ⟨2 + j, ?_, ?_⟩
    · show 2 + j < 12
      omega
    · interval_cases j <;> rfl
  · rw [(hmapped b hb j hj hne).2, metadataRefers_filledContext] at hm
    omega
  · obtain ⟨hb0, hj0⟩ := hmapped b hb j hj hne
    obtain ⟨hb0', hj0'⟩ := hmapped b' hb' j' hj' (heq ▸ hne)
    omega

theorem filledContext_accounted : Accounted {0} filledContext := by
  intro p hp
  have hlt : p < 12 := hp
  have hlist : filledContext.passiveFs.blockList[p]? = some p := by
    interval_cases p <;> rfl
  have hbits : filledContext.vector.bits p = true ↔ p < 6 := decide_eq_true_iff
  rw [hbits, hlist]
  constructor
  · intro h6
    refine ⟨p, rfl, ?_⟩
    rcases Nat.lt_or_ge p 2 with h2 | h2
    · exact .inl (metadataRefers_filledContext.2 (by omega))
    · have hptr := entryPtr_filledContext 0 (by norm_num) (p - 2) (by omega)
      rw [if_pos rfl] at hptr
      refine .inr ⟨0, by decide, p - 2, by omega, ?_, by omega⟩
      rw [hptr, afsInvalidBlock]
      omega
  · rintro ⟨x, hx, hm | ⟨b, hb, j, hj, hne, rfl⟩⟩
    · obtain rfl := Option.some.inj hx
      rcases metadataRefers_filledContext.1 hm with rfl | rfl <;> norm_num
    · have hptr := entryPtr_filledContext b hb j hj
      split_ifs at hptr
      · have := Option.some.inj hx
        omega
      · exact absurd hptr hne

theorem exists_filled_leak :
    ∃ run t, ReadRun (constKernel 1) gfContextZero (newTarget filledContext) run t ∧
      (∃ m ∈ run, Rebuilds m) ∧ ¬ Accounted {0} t.ctx := by
  refine exists_leak filledContext_instance (fun _ => rfl) filledContext_exclusive
    filledContext_accounted (by decide : 0 < filledContext.config.numBlocks) ?_
    filledContext_damaged filledContext_canAcquire gfContextZero
  rw [entryPtr_filledContext 0 (by norm_num) 0 (by norm_num)]
  decide

/-- The rebuild of its first block leaves the account wrong. -/
theorem rebuild_leaks :
    ¬ ∀ (k : Kernel) (g : GfCtx) (ctx₀ : AfsPrivate) (replicas : Set ℕ)
      (run : List (Target × TargetEvent)) (t : Target), Instance ctx₀ → Exclusive replicas ctx₀ →
      Accounted replicas ctx₀ → ReadRun k g (newTarget ctx₀) run t → Accounted replicas t.ctx := by
  intro hall
  obtain ⟨run, t, hrun, -, hleak⟩ := exists_filled_leak
  exact hleak (hall _ _ _ _ _ _ filledContext_instance filledContext_exclusive
    filledContext_accounted hrun)

/-- That run has a rebuild. -/
theorem accounted_filledContext :
    ∃ run t, ReadRun (constKernel 1) gfContextZero (newTarget filledContext) run t ∧
      (∃ m ∈ run, Rebuilds m) ∧
      ¬ ((∀ m ∈ run, Accounted {0} m.1.ctx) ∧ Accounted {0} t.ctx) := by
  obtain ⟨run, t, hrun, ⟨m, hm, hrebuilds⟩, -⟩ := exists_filled_leak
  refine ⟨run, t, hrun, ⟨m, hm, hrebuilds⟩, fun hacc => ?_⟩
  exact (accounted_iff hrun filledContext_instance filledContext_exclusive
    filledContext_accounted).1 hacc m hm hrebuilds

end Artifice
