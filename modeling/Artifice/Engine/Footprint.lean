import Artifice.Metadata.Footprint
import Artifice.Engine.Effect
import Artifice.Engine.Remount

/-!
The host file system is not touched.

Whatever comes of the requests of a target, and in whatever order, fails or collides, a request
writes its carriers to blocks of the free list: those that it has acquired, or those that the map
has for it. The rest of the device is the host's, and stays as it is from the constructor to the
destructor.
-/

namespace Artifice

open Lib

/-- The pointers of the map that are not invalid name blocks of the free list. -/
def PtrsListed (ctx : AfsPrivate) : Prop :=
  ∀ b < ctx.config.numBlocks, ∀ j < 4, entryPtr ctx b j ≠ afsInvalidBlock →
    entryPtr ctx b j ∈ ctx.passiveFs.freeList

/-- What a request for block `b` may do, whatever goes wrong: it changes its entry of the map,
where each pointer stays, or becomes invalid or that of a listed block, and it writes to listed
blocks. -/
structure Confined (b : ℕ) (ctx ctx' : AfsPrivate) : Prop where
  same : SameInstance ctx ctx'
  superBlock : ctx'.superBlock = ctx.superBlock
  afsPtrBlocks : ctx'.afsPtrBlocks = ctx.afsPtrBlocks
  outside : ∀ i, i < afsGetMapEntry ctx.config b ∨ afsGetMapEntry ctx.config b + 64 ≤ i →
    ctx'.afsMap i = ctx.afsMap i
  ptrs : ∀ j < 4, entryPtr ctx' b j = entryPtr ctx b j ∨ entryPtr ctx' b j = afsInvalidBlock ∨
    entryPtr ctx' b j ∈ ctx.passiveFs.freeList
  disk : OnlyFree ctx.passiveFs ctx.disk ctx'.disk

/-- A request that can do no harm: it is queued for a block of the instance, or it has the entry of
such a block and writes to listed blocks, or nothing is left to do of it. -/
inductive Harmless (ctx : AfsPrivate) (l : Life) : Prop
  | queued (block : l.req.block < ctx.config.numBlocks)
      (phase : l.phase = .flightq ∨ l.phase = .rebuildq) (none_ : l.outstanding = [])
  | started (block : l.req.block < ctx.config.numBlocks)
      (entry : l.req.mapEntry = afsGetMapEntry ctx.config l.req.block)
      (phase : l.phase ≠ .flightq ∧ l.phase ≠ .rebuildq)
      (index : ∀ i, (l.phase = .readPages i ∨ ∃ r, l.phase = .writePages r i) → i < 4)
      (outstanding : ∀ i ∈ l.outstanding, i < 4)
      (nums : l.type = .write → ∀ j < 4, l.req.blockNums j ∈ ctx.passiveFs.freeList)
  | idle (quiet : l.Quiet)

section

variable {k : Kernel} {g : GfCtx} {e : Entropy} {ctx ctx' ctx₀ ctx₁ : AfsPrivate} {l l' : Life}
  {a : Act} {req req₁ : AfsMapRequest} {b i j : ℕ} {map disk : Mem} {bs : List ℕ} {t t' : Target}
  {ev : TargetEvent} {f : Flow (AfsPrivate × AfsMapRequest)}

/-! ### Entries -/

theorem Confined.refl (b : ℕ) (ctx : AfsPrivate) : Confined b ctx ctx :=
  ⟨SameInstance.refl ctx, rfl, rfl, fun _ _ => rfl, fun _ _ => Or.inl rfl, OnlyFree.refl _ _⟩

theorem Confined.trans (h : Confined b ctx ctx₁) (h' : Confined b ctx₁ ctx') :
    Confined b ctx ctx' := by
  have hout := h'.outside
  have hptr := h'.ptrs
  have hdisk := h'.disk
  rw [h.same.config] at hout
  rw [h.same.passiveFs] at hptr hdisk
  refine ⟨h.same.trans h'.same, h'.superBlock.trans h.superBlock,
    h'.afsPtrBlocks.trans h.afsPtrBlocks, fun i hi => (hout i hi).trans (h.outside i hi),
    fun j hj => ?_, h.disk.trans hdisk⟩
  rcases hptr j hj with heq | hnew
  · rw [heq]
    exact h.ptrs j hj
  · exact Or.inr hnew

theorem PtrsListed.confined (h : PtrsListed ctx) (hc : Confined b ctx ctx') (hi : Instance ctx)
    (hb : b < ctx.config.numBlocks) : PtrsListed ctx' := by
  intro b' hb' j hj hval
  rw [hc.same.config] at hb'
  rw [hc.same.passiveFs]
  by_cases hbb : b' = b
  · subst hbb
    rcases hc.ptrs j hj with heq | hinv | hmem
    · rw [heq] at hval ⊢
      exact h b' hb' j hj hval
    · exact absurd hinv hval
    · exact hmem
  · have heq : entryPtr ctx' b' j = entryPtr ctx b' j := by
      rw [entryPtr, entryPtr, hc.same.config]
      exact le_congr ((agree_entry_out hi hb hb' hbb hc.outside).sub (by omega))
    rw [heq] at hval ⊢
    exact h b' hb' j hj hval

theorem confined_of_map {v : BitVector} {random : List ℕ}
    (hout : ∀ i, i < afsGetMapEntry ctx.config b ∨ afsGetMapEntry ctx.config b + 64 ≤ i →
      map i = ctx.afsMap i)
    (hptr : ∀ j < 4, carrierPtr map (afsGetMapEntry ctx.config b) j = entryPtr ctx b j ∨
      carrierPtr map (afsGetMapEntry ctx.config b) j = afsInvalidBlock ∨
      carrierPtr map (afsGetMapEntry ctx.config b) j ∈ ctx.passiveFs.freeList) :
    Confined b ctx { ctx with afsMap := map, vector := v, random } :=
  ⟨⟨rfl, rfl, rfl, rfl, rfl, rfl⟩, rfl, rfl, hout, hptr, OnlyFree.refl _ _⟩

theorem confined_of_difference (hn : ctx.config.numCarrierBlocks = 4)
    (hentry : req.mapEntry = afsGetMapEntry ctx.config b)
    (hmap : ∀ j, j < mapEntryDifference ctx req ∨ mapEntryDifference ctx req + 32 ≤ j →
      map j = ctx.afsMap j) :
    Confined b ctx { ctx with afsMap := map } := by
  rw [mapEntryDifference, hn, hentry] at hmap
  exact confined_of_map (fun i hi => hmap i (by omega)) fun j hj =>
    Or.inl (le_congr fun t ht => hmap _ (by omega))

theorem confined_of_setPtrs {v : BitVector} {random : List ℕ} (hlen : bs.length ≤ 4)
    (hbs : ∀ x ∈ bs, x < 2 ^ 32 ∧ (x = afsInvalidBlock ∨ x ∈ ctx.passiveFs.freeList))
    (hentry : req.mapEntry = afsGetMapEntry ctx.config b) :
    Confined b ctx { ctx with
      afsMap := setPtrs ctx.afsMap req.mapEntry 0 bs, vector := v, random } := by
  rw [hentry]
  refine confined_of_map (fun i hi => setPtrs_out fun t ht => by omega) fun j _ => ?_
  rcases Nat.lt_or_ge j bs.length with hlt | hge
  · have hptr : carrierPtr (setPtrs ctx.afsMap (afsGetMapEntry ctx.config b) 0 bs)
        (afsGetMapEntry ctx.config b) (0 + j) = bs[j] :=
      carrierPtr_setPtrs (List.getElem?_eq_getElem hlt) (hbs _ (List.getElem_mem hlt)).1
    rw [Nat.zero_add] at hptr
    rw [hptr]
    exact Or.inr (hbs _ (List.getElem_mem hlt)).2
  · exact Or.inl (carrierPtr_setPtrs_out (Or.inr (by omega)))

theorem confined_resetWrite (hn : ctx.config.numCarrierBlocks = 4)
    (hentry : req.mapEntry = afsGetMapEntry ctx.config b) :
    Confined b ctx (resetWrite ctx req).1 := by
  obtain ⟨v, he, -, -⟩ := resetEntry_eq ctx req.mapEntry 4
  rw [resetWrite, hn, he]
  refine confined_of_setPtrs (by simp) (fun x hx => ?_) hentry
  obtain rfl := (List.mem_replicate.1 hx).2
  exact ⟨afsInvalidBlock_lt, Or.inl rfl⟩

theorem confined_resetRebuild (hn : ctx.config.numCarrierBlocks = 4)
    (hentry : req.mapEntry = afsGetMapEntry ctx.config b) :
    Confined b ctx (resetRebuild ctx req).1 :=
  confined_resetWrite hn hentry

theorem resetRebuild_req (ctx : AfsPrivate) (req : AfsMapRequest) :
    ∃ encoder, (resetRebuild ctx req).2 = { req with encoder } := by
  rw [resetRebuild]
  split_ifs
  exacts [⟨none, rfl⟩, ⟨req.encoder, rfl⟩]

theorem mem_of_acquireBlocks {fs : AfsPassiveFs} {n : ℕ} {v v' : BitVector}
    {random random' : List ℕ} (h : acquireBlocks fs n v random = some (bs, v', random'))
    {x : ℕ} (hx : x ∈ bs) : x ∈ fs.freeList := by
  obtain ⟨ps, hacq⟩ := acquireBlocks_spec h
  obtain ⟨i, hi⟩ := List.mem_iff_getElem?.1 hx
  obtain ⟨-, p, hp, hb⟩ := hacq.blocks i x hi
  exact mem_freeList (hacq.free p (List.mem_of_getElem? hp)).1 hb

theorem acquired_listed (ha : Addressed ctx.passiveFs) {n : ℕ} {v v' : BitVector}
    {random random' : List ℕ}
    (h : acquireBlocks ctx.passiveFs n v random = some (bs, v', random')) :
    ∀ x ∈ bs, x < 2 ^ 32 ∧ (x = afsInvalidBlock ∨ x ∈ ctx.passiveFs.freeList) := by
  intro x hx
  have hmem := mem_of_acquireBlocks h hx
  exact ⟨lt_trans (ha.small x hmem) (by norm_num), Or.inr hmem⟩

theorem setNums_mem {nums : ℕ → ℕ} {fs : AfsPassiveFs} (hlen : bs.length = 4)
    (hbs : ∀ x ∈ bs, x ∈ fs.freeList) (hj : j < 4) : setNums nums 0 bs j ∈ fs.freeList := by
  have hlt : j < bs.length := hlen ▸ hj
  have hnum : setNums nums 0 bs (0 + j) = bs[j] := setNums_eq (List.getElem?_eq_getElem hlt)
  rw [Nat.zero_add] at hnum
  exact hnum ▸ hbs _ (List.getElem_mem hlt)

theorem setNums_cases (nums : ℕ → ℕ) (i : ℕ) (bs : List ℕ) (j : ℕ) :
    setNums nums i bs j ∈ bs ∨ setNums nums i bs j = nums j := by
  induction bs generalizing nums i with
  | nil => exact Or.inr rfl
  | cons b bs ih =>
    rw [setNums]
    rcases ih (Function.update nums i b) (i + 1) with hmem | heq
    · exact Or.inl (List.mem_cons_of_mem _ hmem)
    · rw [heq]
      by_cases hj : j = i
      · subst hj
        rw [Function.update_self]
        exact Or.inl List.mem_cons_self
      · rw [Function.update_of_ne hj]
        exact Or.inr rfl

/-! ### The pieces of a request -/

/-- **A write before `write_pages`** is confined to its entry, and goes on to listed blocks. -/
theorem confined_writeRequestMap (hi : Instance ctx) (ha : Addressed ctx.passiveFs)
    (hp : PtrsListed ctx) (hb : req.block < ctx.config.numBlocks)
    (h : writeRequestMap k g e ctx req = some f) :
    f.Sat (fun s => Confined req.block ctx s.1 ∧ s.2.block = req.block ∧
        s.2.mapEntry = afsGetMapEntry ctx.config req.block ∧
        ∀ j < 4, s.2.blockNums j ∈ ctx.passiveFs.freeList)
      (fun _ => False) fun _ s => Confined req.block ctx s.1 := by
  have hn := hi.carriers
  rcases writeRequestMap_cases h with ⟨-, rfl⟩ | ⟨-, ctx₁, req₁, henc, hcase⟩
  · exact Confined.refl _ _
  obtain ⟨map, encoder, carriers, rfl, rfl, hout⟩ := encodeRequest_frame henc
  have henc' : Confined req.block ctx { ctx with afsMap := map } :=
    confined_of_difference hn (rfl : (loadRequest ctx req).mapEntry = _) hout
  have hptr : ∀ j < 4, entryPtr { ctx with afsMap := map } req.block j = entryPtr ctx req.block j :=
    fun j hj => encodeRequest_carrierPtr henc (hn ▸ hj)
  rcases hcase with ⟨-, ⟨hall, rfl⟩ | ⟨-, nums, rfl⟩⟩ | ⟨-, bs, v, random, hacq, rfl⟩
  · -- a mapped block keeps its carriers
    refine ⟨henc', rfl, rfl, fun j hj => ?_⟩
    have hval : entryPtr ctx req.block j ≠ afsInvalidBlock := hall j (hn ▸ hj)
    have hnum : (takenState { ctx with afsMap := map } { loadRequest ctx req with
        encoder, carrierBlocks := carriers }).2.blockNums j = entryPtr ctx req.block j := by
      rw [← hptr j hj]
      exact if_pos (hn.symm ▸ hj)
    rw [hnum]
    exact hp req.block hb j hj hval
  · exact henc'.trans (confined_resetWrite hn rfl)
  · have hset : Confined req.block ctx (acquiredState { ctx with afsMap := map }
        { loadRequest ctx req with encoder, carrierBlocks := carriers } bs v random).1 :=
      henc'.trans (confined_of_setPtrs (hn ▸ acquireBlocks_length_le hacq)
        (acquired_listed ha hacq) (rfl : (loadRequest ctx req).mapEntry = _))
    split_ifs with hlen
    · exact ⟨hset, rfl, rfl, fun j hj => setNums_mem (hlen.trans hn)
        (fun x hx => mem_of_acquireBlocks hacq hx) hj⟩
    · exact hset.trans (confined_resetWrite hn rfl)

/-- **A rebuild before `write_pages`** likewise. -/
theorem confined_rebuildBlocksMap (hn : ctx.config.numCarrierBlocks = 4)
    (ha : Addressed ctx.passiveFs) (hentry : req.mapEntry = afsGetMapEntry ctx.config b)
    (h : rebuildBlocksMap k g e ctx req = some f) :
    f.Sat (fun s => Confined b ctx s.1 ∧ s.2.block = req.block ∧ s.2.mapEntry = req.mapEntry ∧
        ∀ j < 4, s.2.blockNums j ∈ ctx.passiveFs.freeList)
      (fun _ => False)
      fun _ s => Confined b ctx s.1 ∧ s.2.block = req.block ∧ s.2.mapEntry = req.mapEntry ∧
        ∀ j, s.2.blockNums j ∈ ctx.passiveFs.freeList ∨ s.2.blockNums j = req.blockNums j := by
  obtain ⟨ctx₁, req₁, henc, bs, v, random, hacq, rfl⟩ := rebuildBlocksMap_cases h
  obtain ⟨map, encoder, carriers, rfl, rfl, hout⟩ := encodeRequest_frame henc
  have hset : Confined b ctx (reacquiredState { ctx with afsMap := map }
      { renumberRequest ctx req with encoder, carrierBlocks := carriers } bs v random).1 :=
    (confined_of_difference hn (show (renumberRequest ctx req).mapEntry = _ from hentry)
      hout).trans (confined_of_setPtrs (hn ▸ acquireBlocks_length_le hacq)
        (acquired_listed ha hacq) hentry)
  split_ifs with hlen
  · exact ⟨hset, rfl, rfl, fun j hj => setNums_mem (hlen.trans hn)
      (fun x hx => mem_of_acquireBlocks hacq hx) hj⟩
  · refine ⟨hset.trans (confined_resetRebuild hn hentry), ?_⟩
    obtain ⟨encoder, hreq⟩ := resetRebuild_req (reacquiredState { ctx with afsMap := map }
      { renumberRequest ctx req with encoder, carrierBlocks := carriers } bs v random).1 _
    refine ⟨congrArg (·.block) hreq, congrArg (·.mapEntry) hreq, fun j => ?_⟩
    rw [show (resetRebuild _ _).2.blockNums = _ from congrArg (·.blockNums) hreq]
    exact (setNums_cases req.blockNums 0 bs j).imp_left fun hx => mem_of_acquireBlocks hacq hx

theorem confined_readDecode {req' : AfsMapRequest} (hn : ctx.config.numCarrierBlocks = 4)
    (hentry : req.mapEntry = afsGetMapEntry ctx.config b)
    (h : readDecode k g ctx req = some (ctx', req')) :
    Confined b ctx ctx' ∧ req'.block = req.block ∧ req'.mapEntry = req.mapEntry ∧
      req'.blockNums = req.blockNums := by
  obtain ⟨map, _, _, _, _, _, rfl, rfl, hout⟩ := readDecode_frame h
  exact ⟨confined_of_difference hn hentry hout, rfl, rfl, rfl⟩

theorem confined_transfer (ha : Addressed ctx.passiveFs) (b : ℕ) {status : ℤ}
    (hnum : l.type = .write → l.req.blockNums i ∈ ctx.passiveFs.freeList) :
    Confined b ctx (transfer ctx l i status).1 ∧
      ∃ carrierBlocks, (transfer ctx l i status).2 = { l.req with carrierBlocks } := by
  unfold transfer
  split_ifs with hstatus
  · exact ⟨Confined.refl _ _, l.req.carrierBlocks, rfl⟩
  · split
    next => exact ⟨Confined.refl _ _, _, rfl⟩
    next hty =>
      have hmem := hnum hty
      have hsector := (carrierSector_eq_iff _ _).2 (ha.sectors _ hmem)
      refine ⟨⟨⟨rfl, rfl, rfl, rfl, rfl, rfl⟩, rfl, rfl, fun _ _ => rfl, fun _ _ => Or.inl rfl, ?_⟩,
        l.req.carrierBlocks, rfl⟩
      show OnlyFree ctx.passiveFs ctx.disk
        (afsBlkdevIo (writePagesBio (l.req.blockNums i) ctx.passiveFs.dataStartOff) ctx.disk _ 0).1
      rw [writePagesBio, hsector]
      exact onlyFree_blit hmem

theorem confined_storeChecksums (hentry : req.mapEntry = afsGetMapEntry ctx.config b) :
    Confined b ctx { ctx with afsMap := storeChecksums ctx.afsMap req 4 } := by
  refine confined_of_map (fun i hi => storeChecksums_out fun t ht => by omega) fun j _ => Or.inl ?_
  rw [entryPtr, ← hentry]
  exact carrierPtr_storeChecksums

/-! ### One request -/

theorem Harmless.other (h : Harmless ctx l) (hs : SameInstance ctx ctx') : Harmless ctx' l := by
  cases h with
  | queued block phase none_ => exact .queued (hs.config ▸ block) phase none_
  | started block entry phase index outstanding nums =>
    exact .started (hs.config ▸ block) (hs.config ▸ entry) phase index outstanding
      (hs.passiveFs ▸ nums)
  | idle quiet => exact .idle quiet

/-- Whether a request waits for its first step. -/
def Phase.isQueued : Phase → Bool
  | .flightq | .rebuildq => true
  | _ => false

theorem Phase.not_queued {p : Phase} (h : p.isQueued = false) : p ≠ .flightq ∧ p ≠ .rebuildq := by
  refine ⟨?_, ?_⟩ <;> rintro rfl <;> cases h

/-- A request that has the entry of its block, and writes to listed blocks. -/
structure Located (ctx : AfsPrivate) (l : Life) : Prop where
  block : l.req.block < ctx.config.numBlocks
  entry : l.req.mapEntry = afsGetMapEntry ctx.config l.req.block
  outstanding : ∀ i ∈ l.outstanding, i < 4
  nums : l.type = .write → ∀ j < 4, l.req.blockNums j ∈ ctx.passiveFs.freeList

/-- A phase in which a request neither waits for its first step nor submits its bios. -/
def Phase.IsStill (p : Phase) : Prop :=
  p = .returned ∨ p = .cryptoq ∨ p = .rebuildBlocks ∨ p = .gone

theorem Located.harmless_still (h : Located ctx l) (hp : l.phase.IsStill) : Harmless ctx l := by
  refine .started h.block h.entry (Phase.not_queued ?_) ?_ h.outstanding h.nums
  · rcases hp with hp | hp | hp | hp <;> rw [hp] <;> rfl
  · rintro i (hi | ⟨r, hi⟩)
    all_goals rcases hp with hp | hp | hp | hp <;> rw [hp] at hi <;> cases hi

theorem Located.harmless_reads {c : ℕ} (h : Located ctx l) (hp : l.phase = .readPages c)
    (hc : c < 4) : Harmless ctx l := by
  refine .started h.block h.entry (by simp [hp]) ?_ h.outstanding h.nums
  rintro i (hi | ⟨r, hi⟩)
  · exact Phase.readPages.inj (hp.symm.trans hi) ▸ hc
  · rw [hp] at hi
    cases hi

theorem Located.harmless_writes {c : ℕ} {r : Bool} (h : Located ctx l)
    (hp : l.phase = .writePages r c) (hc : c < 4) : Harmless ctx l := by
  refine .started h.block h.entry (by simp [hp]) ?_ h.outstanding h.nums
  rintro i (hi | ⟨r', hi⟩)
  · rw [hp] at hi
    cases hi
  · exact (Phase.writePages.inj (hp.symm.trans hi)).2 ▸ hc

/-- All else of a request may change. -/
theorem Located.of_eq (h : Located ctx l) (hblock : l'.req.block = l.req.block)
    (hentry : l'.req.mapEntry = l.req.mapEntry) (hnums : l'.req.blockNums = l.req.blockNums)
    (htype : l'.type = l.type) (hout : l'.outstanding = l.outstanding) : Located ctx l' where
  block := hblock ▸ h.block
  entry := hentry.trans (h.entry.trans (congrArg _ hblock.symm))
  outstanding := hout ▸ h.outstanding
  nums hty j hj := by
    rw [hnums]
    exact h.nums (htype.symm.trans hty) j hj

theorem Located.other (h : Located ctx l) (hs : SameInstance ctx ctx') : Located ctx' l :=
  ⟨hs.config ▸ h.block, hs.config ▸ h.entry, h.outstanding, hs.passiveFs ▸ h.nums⟩

theorem Located.clean (h : Located ctx l) : Harmless ctx (afsReqClean l) :=
  Located.harmless_still (h.of_eq rfl rfl rfl rfl rfl) (.inr (.inr (.inr rfl)))

theorem Located.submitted (h : Located ctx l) (hi : i < 4) (phase : Phase) :
    Located ctx (submitted l i phase) := by
  refine ⟨h.block, h.entry, fun c hc => ?_, h.nums⟩
  rcases List.mem_append.1 hc with hc | hc
  · exact h.outstanding c hc
  · exact List.mem_singleton.1 hc ▸ hi

theorem Located.counted (h : Located ctx l) {carrierBlocks : ℕ → Mem}
    (hreq : req = { l.req with carrierBlocks }) (i : ℕ) : Located ctx (countDown l req i) := by
  subst hreq
  exact ⟨h.block, h.entry, fun c hc => h.outstanding c (List.mem_of_mem_erase hc), h.nums⟩

theorem harmless_beginReadPages (hblock : req.block < ctx.config.numBlocks)
    (hentry : req.mapEntry = afsGetMapEntry ctx.config req.block)
    (hout : ∀ i ∈ l.outstanding, i < 4) (config : AfsConfig) :
    Harmless ctx (beginReadPages l config req) :=
  Located.harmless_reads ⟨hblock, hentry, hout, fun h => by cases h⟩ rfl (by norm_num)

theorem harmless_beginWritePages (hblock : req.block < ctx.config.numBlocks)
    (hentry : req.mapEntry = afsGetMapEntry ctx.config req.block)
    (hout : ∀ i ∈ l.outstanding, i < 4) (hnums : ∀ j < 4, req.blockNums j ∈ ctx.passiveFs.freeList)
    (rebuild : Bool) (config : AfsConfig) :
    Harmless ctx (beginWritePages l rebuild config req) :=
  Located.harmless_writes ⟨hblock, hentry, hout, fun _ => hnums⟩ rfl (by norm_num)

theorem LifeStep.flight_phase (hs : LifeStep k g ctx l (.flight e) ctx' l') :
    l.phase = .flightq := by
  cases hs <;> assumption

theorem LifeStep.rebuild_phase (hs : LifeStep k g ctx l .rebuild ctx' l') :
    l.phase = .rebuildq := by
  cases hs <;> assumption

/-- **The first step of a request.** -/
theorem harmless_of_queued (hi : Instance ctx) (ha : Addressed ctx.passiveFs) (hp : PtrsListed ctx)
    (block : l.req.block < ctx.config.numBlocks)
    (phase : l.phase = .flightq ∨ l.phase = .rebuildq) (hnone : l.outstanding = [])
    (hs : LifeStep k g ctx l a ctx' l') :
    (∃ b < ctx.config.numBlocks, Confined b ctx ctx') ∧ Harmless ctx' l' := by
  have hquiet : ∀ req, (afsReqClean { l with req }).Quiet := fun _ => ⟨Or.inr rfl, hnone⟩
  have hout : ∀ i ∈ l.outstanding, i < 4 := by simp [hnone]
  have hblock' : ∀ {n}, l.req.block < n →
      ({ l.req with state := .flight } : AfsMapRequest).block < n := id
  have hreads : ∀ req, req.block = l.req.block →
      req.mapEntry = afsGetMapEntry ctx.config l.req.block →
      Harmless ctx (beginReadPages l ctx.config req) := fun _ hblock hentry =>
    harmless_beginReadPages (hblock ▸ block) (hentry.trans (congrArg _ hblock.symm)) hout _
  cases hs with
  | answer => exact ⟨⟨_, block, Confined.refl _ _⟩, .idle (hquiet _)⟩
  | startRead _ _ map =>
    obtain ⟨-, rfl⟩ := readRequestMap_next rfl map
    exact ⟨⟨_, block, Confined.refl _ _⟩, hreads _ rfl rfl⟩
  | refuse _ _ map =>
    have hc := confined_writeRequestMap hi ha hp (hblock' block) map
    exact ⟨⟨_, block, hc⟩, .idle (hquiet _)⟩
  | startWrite _ _ map =>
    obtain ⟨hc, hblock, hentry, hnums⟩ :=
      confined_writeRequestMap hi ha hp (hblock' block) map
    refine ⟨⟨_, block, hc⟩, harmless_beginWritePages ?_ ?_ hout (fun j hj => ?_) _ _⟩
    · rw [hc.same.config]
      exact hblock ▸ block
    · rw [hc.same.config]
      exact hentry.trans (congrArg _ hblock.symm)
    · rw [hc.same.passiveFs]
      exact hnums j hj
  | unknown => exact ⟨⟨_, block, Confined.refl _ _⟩, .idle (hquiet _)⟩
  | skip => exact ⟨⟨_, block, Confined.refl _ _⟩, .idle (hquiet _)⟩
  | startRebuild _ map =>
    obtain rfl := rebuildRequestMap_next rfl map
    exact ⟨⟨_, block, Confined.refl _ _⟩, hreads _ rfl rfl⟩
  | complete mem => simp [hnone] at mem
  | lastRead mem => simp [hnone] at mem
  | lastWrite mem => simp [hnone] at mem
  | submitRead phase' => simp [phase'] at phase
  | submitWrite phase' => simp [phase'] at phase
  | failRead phase' => simp [phase'] at phase
  | failWrite phase' => simp [phase'] at phase
  | failRebuild phase' => simp [phase'] at phase
  | decode phase' => simp [phase'] at phase
  | damaged phase' => simp [phase'] at phase
  | rebuild phase' => simp [phase'] at phase
  | abandon phase' => simp [phase'] at phase

/-- **The next bio of a request**, or its failure. -/
theorem Located.submit (h : Located ctx l) (hn : ctx.config.numCarrierBlocks = 4)
    (index : ∀ i, (l.phase = .readPages i ∨ ∃ r, l.phase = .writePages r i) → i < 4) {code : ℤ}
    (hs : LifeStep k g ctx l (.submit code) ctx' l') :
    (∃ b < ctx.config.numBlocks, Confined b ctx ctx') ∧ Harmless ctx' l' := by
  cases hs with
  | @submitRead i phase =>
    have hloc := h.submitted (index i (Or.inl phase))
    refine ⟨⟨_, h.block, Confined.refl _ _⟩, ?_⟩
    split_ifs with hlt
    · exact (hloc _).harmless_reads rfl (hn ▸ hlt)
    · exact (hloc _).harmless_still (.inl rfl)
  | @submitWrite r i phase =>
    have hloc := h.submitted (index i (Or.inr ⟨r, phase⟩))
    refine ⟨⟨_, h.block, Confined.refl _ _⟩, ?_⟩
    split_ifs with hlt
    · exact (hloc _).harmless_writes rfl (hn ▸ hlt)
    · exact (hloc _).harmless_still (.inl rfl)
  | failRead => exact ⟨⟨_, h.block, Confined.refl _ _⟩, h.clean⟩
  | failWrite =>
    have hc := confined_resetWrite hn h.entry
    exact ⟨⟨_, h.block, hc⟩, Located.clean ((h.other hc.same).of_eq rfl rfl rfl rfl rfl)⟩
  | failRebuild =>
    have hc := confined_resetRebuild hn h.entry
    obtain ⟨encoder, hreq⟩ := resetRebuild_req ctx l.req
    refine ⟨⟨_, h.block, hc⟩, ?_⟩
    rw [hreq]
    exact Located.harmless_still ((h.other hc.same).of_eq rfl rfl rfl rfl rfl) (.inl rfl)

/-- **The completion of a carrier bio.** -/
theorem Located.complete (h : Located ctx l) (ha : Addressed ctx.passiveFs)
    (hn : ctx.config.numCarrierBlocks = 4) (phase : l.phase ≠ .flightq ∧ l.phase ≠ .rebuildq)
    (index : ∀ i, (l.phase = .readPages i ∨ ∃ r, l.phase = .writePages r i) → i < 4) {status : ℤ}
    (hs : LifeStep k g ctx l (.complete i status) ctx' l') :
    (∃ b < ctx.config.numBlocks, Confined b ctx ctx') ∧ Harmless ctx' l' := by
  have htransfer : i ∈ l.outstanding → Confined l.req.block ctx (transfer ctx l i status).1 ∧
      Located ctx (countDown l (transfer ctx l i status).2 i) ∧
      (countDown l (transfer ctx l i status).2 i).req.block = l.req.block := by
    intro hi
    obtain ⟨hc, carriers, hreq⟩ := confined_transfer ha l.req.block
      fun hty => h.nums hty i (h.outstanding i hi)
    exact ⟨hc, h.counted hreq i, congrArg (·.block) hreq⟩
  cases hs with
  | complete mem tr more =>
    subst tr
    obtain ⟨hc, hloc, -⟩ := htransfer mem
    have hloc' := hloc.other hc.same
    exact ⟨⟨_, h.block, hc⟩, .started hloc'.block hloc'.entry phase index hloc'.outstanding
      hloc'.nums⟩
  | lastRead mem tr last type =>
    subst tr
    obtain ⟨hc, hloc, -⟩ := htransfer mem
    exact ⟨⟨_, h.block, hc⟩, Located.harmless_still
      ((hloc.other hc.same).of_eq rfl rfl rfl rfl rfl) (.inr (.inl rfl))⟩
  | lastWrite mem tr last type =>
    subst tr
    obtain ⟨hc, hloc, hblock⟩ := htransfer mem
    have hentry := (hloc.other hc.same).entry
    rw [hblock] at hentry
    have hstore := confined_storeChecksums hentry
    rw [hc.same.config, hn]
    exact ⟨⟨_, h.block, hc.trans hstore⟩, (hloc.other (hc.same.trans hstore.same)).clean⟩

/-- **The decoding of a read, and its rebuild.** -/
theorem Located.decoded (h : Located ctx l) (ha : Addressed ctx.passiveFs)
    (hn : ctx.config.numCarrierBlocks = 4) (hact : a = .crypto ∨ ∃ e, a = .rebuildBlocks e)
    (hs : LifeStep k g ctx l a ctx' l') :
    (∃ b < ctx.config.numBlocks, Confined b ctx ctx') ∧ Harmless ctx' l' := by
  cases hs with
  | decode phase dec =>
    obtain ⟨hc, hblock, hentry, hnums⟩ := confined_readDecode hn h.entry dec
    exact ⟨⟨_, h.block, hc⟩, Located.clean ((h.other hc.same).of_eq hblock hentry hnums rfl rfl)⟩
  | damaged phase dec =>
    obtain ⟨hc, hblock, hentry, hnums⟩ := confined_readDecode hn h.entry dec
    exact ⟨⟨_, h.block, hc⟩, Located.harmless_still
      ((h.other hc.same).of_eq hblock hentry hnums rfl rfl) (.inr (.inr (.inl rfl)))⟩
  | rebuild phase map =>
    obtain ⟨hc, hblock, hentry, hnums⟩ := confined_rebuildBlocksMap hn ha h.entry map
    refine ⟨⟨_, h.block, hc⟩, harmless_beginWritePages ?_ ?_ h.outstanding (fun j hj => ?_) _ _⟩
    · rw [hc.same.config]
      exact hblock ▸ h.block
    · rw [hc.same.config]
      exact hentry.trans (h.entry.trans (congrArg _ hblock.symm))
    · rw [hc.same.passiveFs]
      exact hnums j hj
  | @abandon e code s phase map =>
    obtain ⟨hc, hblock, hentry, hnums⟩ := confined_rebuildBlocksMap hn ha h.entry map
    have hloc : Located ctx { l with req := s.2, phase := .returned } := by
      refine ⟨hblock ▸ h.block, hentry.trans (h.entry.trans (congrArg _ hblock.symm)),
        h.outstanding, fun hty j hj => (hnums j).elim id fun hold => ?_⟩
      rw [show ({ l with req := s.2, phase := .returned } : Life).req.blockNums j = _ from hold]
      exact h.nums hty j hj
    exact ⟨⟨_, h.block, hc⟩, (hloc.other hc.same).harmless_still (.inl rfl)⟩
  | _ => rcases hact with h | ⟨_, h⟩ <;> cases h

/-- **A step of a request** changes the entry of one block, and writes to listed blocks. -/
theorem Harmless.step (h : Harmless ctx l) (hi : Instance ctx) (ha : Addressed ctx.passiveFs)
    (hp : PtrsListed ctx) (hs : LifeStep k g ctx l a ctx' l') :
    (∃ b < ctx.config.numBlocks, Confined b ctx ctx') ∧ Harmless ctx' l' := by
  cases h with
  | idle quiet => exact absurd quiet hs.not_quiet
  | queued block phase none_ => exact harmless_of_queued hi ha hp block phase none_ hs
  | started block entry phase index outstanding nums =>
    have hloc : Located ctx l := ⟨block, entry, outstanding, nums⟩
    cases a with
    | flight e => exact absurd hs.flight_phase phase.1
    | rebuild => exact absurd hs.rebuild_phase phase.2
    | submit code => exact hloc.submit hi.carriers index hs
    | complete i status => exact hloc.complete ha hi.carriers phase index hs
    | crypto => exact hloc.decoded ha hi.carriers (.inl rfl) hs
    | rebuildBlocks e => exact hloc.decoded ha hi.carriers (.inr ⟨e, rfl⟩) hs

/-! ### Runs -/

/-- What holds of all requests while the instance is up. -/
structure Fenced (t : Target) : Prop where
  inst : Instance t.ctx
  ptrs : PtrsListed t.ctx
  slots : SlotsListed t.ctx
  lives : ∀ (i : ℕ) (o : Origin) (l : Life), t.lives[i]? = some (o, l) → Harmless t.ctx l

theorem SlotsListed.confined (h : SlotsListed ctx) (hc : Confined b ctx ctx') :
    SlotsListed ctx' := by
  intro t ht
  rw [hc.same.config] at ht
  rw [hc.same.passiveFs, slotGet_congr hc.superBlock hc.afsPtrBlocks]
  exact h t ht

theorem Fenced.add {o : Origin} (h : Fenced t) (hl : Harmless t.ctx l) :
    Fenced { t with lives := t.lives ++ [(o, l)] } := by
  refine ⟨h.inst, h.ptrs, h.slots, fun i o' l' hi => ?_⟩
  rcases getElem?_append_singleton hi with hi | heq
  · exact h.lives i o' l' hi
  · obtain ⟨-, rfl⟩ := Prod.mk.inj heq
    exact hl

/-- **A request takes a step**, and all others wait. -/
theorem Fenced.step {o : Origin} (h : Fenced t) (ha : Addressed t.ctx.passiveFs)
    (hi : t.lives[i]? = some (o, l)) (hs : LifeStep k g t.ctx l a ctx' l') :
    Fenced { t with ctx := ctx', lives := t.lives.set i (o, l') } ∧
      OnlyFree t.ctx.passiveFs t.ctx.disk ctx'.disk := by
  obtain ⟨⟨b, hb, hc⟩, hl⟩ := (h.lives i o l hi).step h.inst ha h.ptrs hs
  refine ⟨⟨h.inst.of_sameInstance hc.same, h.ptrs.confined hc h.inst hb, h.slots.confined hc,
    fun i' o' l₁ hi' => ?_⟩, hc.disk⟩
  by_cases hii : i' = i
  · subst hii
    rw [List.getElem?_set_self (List.getElem?_eq_some_iff.1 hi).1, Option.some.injEq,
      Prod.mk.injEq] at hi'
    exact hi'.2 ▸ hl
  · rw [List.getElem?_set_ne (Ne.symm hii)] at hi'
    exact (h.lives i' o' l₁ hi').other hc.same

/-- **The destructor** writes the map to the slots of the map blocks. -/
theorem onlyFree_afsDtr {flightEq rebuildEq : List ℕ} (hok : ctx.config.Ok)
    (ha : Addressed ctx.passiveFs) (hs : SlotsListed ctx)
    (h : afsDtr k flightEq rebuildEq ctx = some ctx') :
    OnlyFree ctx.passiveFs ctx.disk ctx'.disk := by
  unfold afsDtr at h
  split_ifs at h with hwait
  simp only [Option.bind_eq_bind, Option.bind_eq_some_iff] at h
  obtain ⟨⟨err, ctx₁⟩, hcreate, h⟩ := h
  rcases afsCreateMapBlocks_cases hcreate with ⟨rfl, -, m, -, rfl⟩ | ⟨herr, rfl⟩
  · rw [if_neg (by simp)] at h
    simp only [Option.bind_eq_some_iff] at h
    obtain ⟨⟨ret, ctx₂⟩, hwrite, h⟩ := h
    obtain rfl := Option.some.inj h
    have hslots : SlotsListed { ctx with afsMapBlocks := m } := fun t ht => by
      have heq : slotGet { ctx with afsMapBlocks := m } (slotOf t) = slotGet ctx (slotOf t) :=
        slotGet_congr rfl rfl _
      rw [heq]
      exact hs t ht
    have hidx : ({ ctx with afsMapBlocks := m } : AfsPrivate).config.Indexed := hok.indexed
    have hdisk := onlyFree_updateMapBlocks (by exact ha) hslots hidx hwrite
    exact hdisk
  · rw [if_pos (by rcases herr with rfl | rfl <;> norm_num)] at h
    obtain rfl := Option.some.inj h
    exact OnlyFree.refl _ _

/-- What can happen to a created target of `numBlocks` blocks, as long as no request is freed under
its bios. The device mapper names blocks of the instance, and `afs_rebuild` is not called; no bio of
a request fails to be submitted while others of it are under way; and the destructor finds no request
under way. -/
def Regular (numBlocks : ℕ) (m : Target × TargetEvent) : Prop :=
  match m.2 with
  | .map alloc _ bio => alloc = true → bio.biOp = .read ∨ bio.biOp = .write →
      bio.biSector / 8 < numBlocks
  | .rebuild _ _ => False
  | .step i a => ∀ o l code, m.1.lives[i]? = some (o, l) → a = .submit code → code ≠ 0 →
      l.outstanding = []
  | .dtr => ∀ o l, (o, l) ∈ m.1.lives → l.Quiet

/-- **One event** writes nothing but listed blocks. -/
theorem Fenced.next (h : Fenced t) (ha : Addressed t.ctx.passiveFs)
    (hev : Regular t.ctx.config.numBlocks (t, ev)) (hn : t.next k g ev = some t') :
    (t'.registered = true → Fenced t' ∧ SameInstance t.ctx t'.ctx) ∧
      OnlyFree t.ctx.passiveFs t.ctx.disk t'.ctx.disk := by
  obtain ⟨hreg, hcases⟩ := Target.next_cases hn
  rcases hcases with ⟨alloc, fresh, bio, code, l, rfl, hmap, rfl⟩ | ⟨fresh, block, rfl, rfl⟩ |
    ⟨i, a, o, l, ctx', l', rfl, hi, hstep, rfl⟩ | ⟨rfl, -, hreg'⟩
  · refine ⟨fun _ => ⟨h.add ?_, SameInstance.refl _⟩, OnlyFree.refl _ _⟩
    rcases afsMap_cases hmap with ⟨⟨halloc, hop⟩, rfl⟩ | ⟨-, hq, -⟩
    · refine .queued ?_ (Or.inl rfl) rfl
      show (acceptPartialBio bio).biSector / 8 % 2 ^ 32 < _
      rw [acceptPartialBio_biSector]
      exact (Nat.mod_le _ _).trans_lt (hev halloc hop)
    · exact .idle hq
  · exact hev.elim
  · have hs := lifeStep_of_step hstep
    obtain ⟨hf, hdisk⟩ := h.step ha hi hs
    exact ⟨fun _ => ⟨hf, hs.sameInstance⟩, hdisk⟩
  · rw [Target.next, if_neg (not_not.2 hreg)] at hn
    simp only [Option.bind_eq_bind, Option.bind_eq_some_iff] at hn
    obtain ⟨ctx', hdtr, h'⟩ := hn
    obtain rfl := Option.some.inj h'
    exact ⟨fun hr => absurd hr (by simp), onlyFree_afsDtr h.inst.config ha h.slots hdtr⟩

/-- **A run** writes nothing but listed blocks. -/
theorem TargetRun.fenced (h : TargetRun k g (newTarget ctx) run t) (h0 : Fenced (newTarget ctx))
    (ha : Addressed ctx.passiveFs) (hev : ∀ m ∈ run, Regular ctx.config.numBlocks m) :
    (t.registered = true → Fenced t ∧ SameInstance ctx t.ctx) ∧
      OnlyFree ctx.passiveFs ctx.disk t.ctx.disk := by
  induction h with
  | start => exact ⟨fun _ => ⟨h0, SameInstance.refl _⟩, OnlyFree.refl _ _⟩
  | @next run t ev t' before step ih =>
    simp only [List.forall_mem_append, List.forall_mem_singleton] at hev
    obtain ⟨hup, hdisk⟩ := ih hev.1
    obtain ⟨hf, hs⟩ := hup (Target.next_cases step).1
    obtain ⟨hup', hdisk'⟩ := hf.next (by rw [hs.passiveFs]; exact ha)
      (by rw [hs.config]; exact hev.2) step
    rw [hs.passiveFs] at hdisk'
    exact ⟨fun hr => ⟨(hup' hr).1, hs.trans (hup' hr).2⟩, hdisk.trans hdisk'⟩

theorem fenced_newTarget (hi : Instance ctx)
    (hu : ∀ b < ctx.config.numBlocks, ∀ j < 4, entryPtr ctx b j = afsInvalidBlock)
    (hs : SlotsListed ctx) : Fenced (newTarget ctx) :=
  ⟨hi, fun b hb j hj hne => absurd (hu b hb j hj) hne, hs, fun i o l hl => by simp [newTarget] at hl⟩

theorem Layout.slotsListed {rounds : ℕ} (h : Layout k rounds ctx) : SlotsListed ctx := by
  intro t ht
  obtain ⟨p, hp, hb, -⟩ := (h.slot t ht).marked
  exact mem_freeList hp hb

theorem Interleaved.targetRun {rounds : ℕ} {done : List Done} (h : Interleaved k g ctx₀ done t)
    (hk : ∀ n, k.kmalloc n = true) (h0 : Holds k ctx₀ fun _ _ => 0) (hl : Layout k rounds ctx₀) :
    ∃ run, TargetRun k g (newTarget ctx₀) run t ∧
      ∀ m ∈ run, Regular ctx₀.config.numBlocks m := by
  induction h with
  | start => exact ⟨[], .start, by simp⟩
  | @next done t ev t' before orderly step ih =>
    obtain ⟨run, hrun, hev⟩ := ih
    refine ⟨run ++ [(t, ev)], .next hrun step, ?_⟩
    simp only [List.forall_mem_append, List.forall_mem_singleton]
    refine ⟨hev, ?_⟩
    obtain ⟨hsame, -⟩ := before.layout hk h0 hl
    rw [← hsame.config]
    cases ev with
    | map alloc fresh bio => exact fun halloc hop => (orderly halloc hop).2.2.1
    | rebuild => exact orderly.elim
    | step i a =>
      intro o l code _ hcode hne
      subst hcode
      exact absurd orderly.1 hne
    | dtr => exact orderly.elim

end

/-- **A run of a new instance writes nothing but listed blocks**, from before the constructor on. -/
theorem TargetRun.onlyFree {k : Kernel} {g : GfCtx} {rounds : ℕ} {args : AfsArgs}
    {len bdevSize : ℕ} {fs : AfsPassiveFs} {disk : Mem} {random : List ℕ} {ctx₀ : AfsPrivate}
    {t : Target} {run : List (Target × TargetEvent)} (h : TargetRun k g (newTarget ctx₀) run t)
    (htype : args.instanceType = .create) (hinc : fs.freeList.Pairwise (· < ·))
    (ha : Addressed fs) (hlisted : ReplicasListed k fs args.passphrase bdevSize)
    (hctr : afsCtr k rounds args len bdevSize fs disk random = some (.ok ctx₀))
    (hev : ∀ m ∈ run, Regular ctx₀.config.numBlocks m) : OnlyFree fs disk t.ctx.disk := by
  obtain ⟨hinst, hunmapped⟩ := unmapped_of_create htype hinc ha.sectors hctr
  have hlayout := layout_of_create htype ⟨hinc.imp fun h => h.ne, ha.small⟩ hlisted hctr
  obtain ⟨-, written, hw⟩ := afsCtr_written htype hctr
  have hctr' := withinFree_writeSuperBlock (show Addressed (createContext args len bdevSize fs disk
    random).passiveFs from ha) hlisted hw
  have hfs : ctx₀.passiveFs = fs := hctr'.passiveFs
  obtain ⟨-, hrun⟩ := h.fenced (fenced_newTarget hinst hunmapped hlayout.slotsListed)
    (hfs.symm ▸ ha) hev
  rw [hfs] at hrun
  exact hctr'.disk.trans hrun

end Artifice
