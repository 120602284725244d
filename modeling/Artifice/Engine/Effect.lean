import Artifice.Engine.Race

/-!
What a request for one block can do to the rest of the context.

Whatever a read or a write of block `b` does, the map entries and the carriers of the other blocks
stay, and so does every listed block that is in use and is no carrier: the metadata of the instance.
Both are said once, as the effect of a step, and every invariant over several requests is derived
from it.
-/

namespace Artifice

open Lib

/-- Two contexts of an instance that are alike at block `b`: in its map entry, and in the carriers
that the entry points at. -/
structure Alike (b : ℕ) (ctx ctx' : AfsPrivate) : Prop where
  same : SameInstance ctx ctx'
  entry : Agree ctx'.afsMap (afsGetMapEntry ctx.config b) ctx.afsMap
    (afsGetMapEntry ctx.config b) 64
  pages : ∀ j < 4, entryPtr ctx b j ≠ afsInvalidBlock →
    Agree (devicePage ctx'.disk ctx.passiveFs.dataStartOff (entryPtr ctx b j)) 0
      (devicePage ctx.disk ctx.passiveFs.dataStartOff (entryPtr ctx b j)) 0 4096

/-- A listed block that is in use, and not as a carrier. -/
structure Reserved (ctx : AfsPrivate) (x : ℕ) : Prop where
  marked : ∃ p < ctx.passiveFs.listLen, ctx.passiveFs.blockList[p]? = some x ∧
    ctx.vector.bits p = true
  free : ∀ b < ctx.config.numBlocks, ∀ j < 4, entryPtr ctx b j ≠ x

/-- What a request for block `b` may do: its entry and carriers are its own, the others and the
reserved blocks stay. -/
structure Effect (b : ℕ) (ctx ctx' : AfsPrivate) : Prop where
  same : SameInstance ctx ctx'
  placed : Placed ctx'
  others : ∀ b' < ctx.config.numBlocks, b' ≠ b → Alike b' ctx ctx'
  superBlock : ctx'.superBlock = ctx.superBlock
  afsPtrBlocks : ctx'.afsPtrBlocks = ctx.afsPtrBlocks
  reserved : ∀ x, Reserved ctx x → Reserved ctx' x ∧
    Agree (devicePage ctx'.disk ctx.passiveFs.dataStartOff x) 0
      (devicePage ctx.disk ctx.passiveFs.dataStartOff x) 0 4096

section

variable {k : Kernel} {g : GfCtx} {e : Entropy} {ctx ctx' ctx₁ ctxW : AfsPrivate} {l l' : Life}
  {a : Act} {req req₁ : AfsMapRequest} {b b' i j x off : ℕ} {d map disk disk' page : Mem}
  {fresh : AfsMapRequest} {bio : Bio}

/-! ### Alike contexts -/

theorem Alike.refl (b : ℕ) (ctx : AfsPrivate) : Alike b ctx ctx :=
  ⟨SameInstance.refl ctx, Agree.refl _ _ _, fun _ _ _ => Agree.refl _ _ _⟩

theorem Alike.entryPtr (h : Alike b ctx ctx') (hj : j < 4) :
    entryPtr ctx' b j = entryPtr ctx b j := by
  rw [Artifice.entryPtr, Artifice.entryPtr, h.same.config]
  exact le_congr (h.entry.sub (by omega))

theorem Alike.trans (h : Alike b ctx ctx₁) (h' : Alike b ctx₁ ctx') : Alike b ctx ctx' := by
  refine ⟨h.same.trans h'.same, ?_, fun j hj hval => ?_⟩
  · have := h'.entry
    rw [h.same.config] at this
    exact this.trans h.entry
  · have := h'.pages j hj (by rwa [h.entryPtr hj])
    rw [h.entryPtr hj, h.same.passiveFs] at this
    exact this.trans (h.pages j hj hval)

theorem Alike.stored (h : Alike b ctx ctx') (hst : Stored k ctx (afsGetMapEntry ctx.config b) d) :
    Stored k ctx' (afsGetMapEntry ctx'.config b) d := by
  rw [h.same.config]
  exact hst.congr h.same (h.entry.sub (j := 0) (by omega)) fun j hj =>
    h.pages j hj (hst.valid j hj)

theorem Alike.content (h : Alike b ctx ctx') (hc : Content k ctx b d) : Content k ctx' b d := by
  rcases hc with ⟨hinv, hz⟩ | hst
  · exact Or.inl ⟨fun j hj => (h.entryPtr hj).trans (hinv j hj), hz⟩
  · exact Or.inr (h.stored hst)

theorem takenRequest_congr (hn : ctx.config.numCarrierBlocks = 4) (hs : SameInstance ctx ctx')
    (hptr : ∀ j < 4, Artifice.entryPtr ctx' req.block j = Artifice.entryPtr ctx req.block j) :
    takenRequest k ctx' req = takenRequest k ctx req := by
  simp only [takenRequest, hs.config, hn]
  congr 1
  funext j
  split_ifs with hj
  · have := hptr j hj
    rw [Artifice.entryPtr, Artifice.entryPtr, hs.config] at this
    exact this
  · rfl

theorem Reading.moved (hr : Reading ctx (takenRequest k ctx req) l)
    (hn : ctx.config.numCarrierBlocks = 4) (hs : SameInstance ctx ctx')
    (hptr : ∀ j < 4, Artifice.entryPtr ctx' req.block j = Artifice.entryPtr ctx req.block j)
    (hpages : ∀ j < 4, Agree
      (devicePage ctx'.disk ctx.passiveFs.dataStartOff (Artifice.entryPtr ctx req.block j)) 0
      (devicePage ctx.disk ctx.passiveFs.dataStartOff (Artifice.entryPtr ctx req.block j)) 0 4096) :
    Reading ctx' (takenRequest k ctx' req) l := by
  rw [takenRequest_congr hn hs hptr]
  refine ⟨hr.type, hr.phase, hr.req, fun j hj harr => ?_⟩
  have hnum : (takenRequest k ctx req).blockNums j = Artifice.entryPtr ctx req.block j := by
    simp only [takenRequest, hn]
    rw [if_pos hj]
    rfl
  have hread := hr.pages j hj harr
  rw [hnum] at hread ⊢
  rw [hs.passiveFs]
  exact hread.trans (hpages j hj).symm

theorem Alike.reading (h : Alike b ctx ctx') (hn : ctx.config.numCarrierBlocks = 4)
    (hreq : req.block = b) (hval : ∀ j < 4, Artifice.entryPtr ctx b j ≠ afsInvalidBlock)
    (hr : Reading ctx (takenRequest k ctx req) l) :
    Reading ctx' (takenRequest k ctx' req) l := by
  subst hreq
  exact hr.moved hn h.same (fun j hj => h.entryPtr hj) fun j hj => h.pages j hj (hval j hj)

/-! ### Effects -/

theorem Effect.refl (hp : Placed ctx) (b : ℕ) : Effect b ctx ctx :=
  ⟨SameInstance.refl ctx, hp, fun b' _ _ => Alike.refl b' ctx, rfl, rfl,
    fun _ hx => ⟨hx, Agree.refl _ _ _⟩⟩

theorem Effect.trans (h : Effect b ctx ctx₁) (h' : Effect b ctx₁ ctx') : Effect b ctx ctx' := by
  refine ⟨h.same.trans h'.same, h'.placed, fun b' hb' hne => ?_,
    h'.superBlock.trans h.superBlock, h'.afsPtrBlocks.trans h.afsPtrBlocks, fun x hx => ?_⟩
  · exact (h.others b' hb' hne).trans (h'.others b' (h.same.config ▸ hb') hne)
  · obtain ⟨hx₁, hpage⟩ := h.reserved x hx
    obtain ⟨hx', hpage'⟩ := h'.reserved x hx₁
    rw [h.same.passiveFs] at hpage'
    exact ⟨hx', hpage'.trans hpage⟩

theorem Reserved.congr (h : Reserved ctx x) (hs : SameInstance ctx ctx')
    (hptr : ∀ b < ctx.config.numBlocks, ∀ j < 4, entryPtr ctx' b j = entryPtr ctx b j)
    (hv : ctx'.vector = ctx.vector) : Reserved ctx' x := by
  refine ⟨?_, fun b hb j hj => ?_⟩
  · rw [hs.passiveFs, hv]
    exact h.marked
  · rw [hs.config] at hb
    rw [hptr b hb j hj]
    exact h.free b hb j hj

theorem Reserved.apart (h : Reserved ctx x) (hi : Instance ctx) (hp : Placed ctx)
    (hb : b < ctx.config.numBlocks) (hj : j < 4) (hval : entryPtr ctx b j ≠ afsInvalidBlock) :
    Apart ctx.passiveFs.dataStartOff (entryPtr ctx b j) x := by
  obtain ⟨p, hp', hx, -⟩ := h.marked
  exact carrierSector_apart (hp.sector_lt hi hb hj hval)
    (hi.sectors _ (Instance.mem_freeList hp' hx)) (h.free b hb j hj)

theorem agree_entry_out (hi : Instance ctx) (hb : b < ctx.config.numBlocks)
    (hb' : b' < ctx.config.numBlocks) (hne : b' ≠ b)
    (hmap : ∀ i, i < afsGetMapEntry ctx.config b ∨ afsGetMapEntry ctx.config b + 64 ≤ i →
      map i = ctx.afsMap i) :
    Agree map (afsGetMapEntry ctx.config b') ctx.afsMap (afsGetMapEntry ctx.config b') 64 := by
  intro t ht
  refine hmap _ ?_
  rw [hi.afsGetMapEntry hb, hi.afsGetMapEntry hb']
  omega

/-- **The map is changed in the entry of the block**, and not at its pointers. -/
theorem effect_of_map (hi : Instance ctx) (hp : Placed ctx) (hb : b < ctx.config.numBlocks)
    (hmap : ∀ i, i < afsGetMapEntry ctx.config b ∨ afsGetMapEntry ctx.config b + 64 ≤ i →
      map i = ctx.afsMap i)
    (hptr : ∀ j < 4, carrierPtr map (afsGetMapEntry ctx.config b) j = entryPtr ctx b j) :
    Effect b ctx { ctx with afsMap := map } := by
  have hall : ∀ b' < ctx.config.numBlocks, ∀ j < 4,
      entryPtr { ctx with afsMap := map } b' j = entryPtr ctx b' j := by
    intro b' hb' j hj
    by_cases hne : b' = b
    · subst hne
      exact hptr j hj
    · exact le_congr ((agree_entry_out hi hb hb' hne hmap).sub (by omega))
  refine ⟨sameInstance_of_eq, hp.congr sameInstance_of_eq hall rfl, fun b' hb' hne => ?_, rfl, rfl,
    fun x hx => ⟨hx.congr sameInstance_of_eq hall rfl, Agree.refl _ _ _⟩⟩
  exact ⟨sameInstance_of_eq, agree_entry_out hi hb hb' hne hmap, fun _ _ _ => Agree.refl _ _ _⟩

theorem effect_of_sameTuples (hi : Instance ctx) (hp : Placed ctx) (hb : b < ctx.config.numBlocks)
    (htup : SameTuples (afsGetMapEntry ctx.config b) ctx.afsMap map) :
    Effect b ctx { ctx with afsMap := map } :=
  effect_of_map hi hp hb (fun i _ => htup i (by omega)) fun _ hj => htup.carrierPtr hj

theorem effect_of_checksums (hi : Instance ctx) (hp : Placed ctx) (hb : b < ctx.config.numBlocks)
    (hentry : req.mapEntry = afsGetMapEntry ctx.config b) :
    Effect b ctx { ctx with afsMap := storeChecksums ctx.afsMap req 4 } := by
  refine effect_of_map hi hp hb (fun i hout => ?_) fun j _ => ?_
  · rw [← hentry] at hout
    exact storeChecksums_out fun t ht => by omega
  · rw [← hentry, entryPtr, ← hentry]
    exact carrierPtr_storeChecksums

/-- **A carrier of the block is written.** -/
theorem effect_of_write (hi : Instance ctx) (hp : Placed ctx) (hb : b < ctx.config.numBlocks)
    (hj : j < 4) (hval : entryPtr ctx b j ≠ afsInvalidBlock) (page : Mem) :
    Effect b ctx { ctx with
      disk := blit ctx.disk (512 * carrierSector (entryPtr ctx b j) ctx.passiveFs.dataStartOff)
        page 0 4096 } := by
  refine ⟨⟨rfl, rfl, rfl, rfl, rfl, rfl⟩, hp.congr ⟨rfl, rfl, rfl, rfl, rfl, rfl⟩
    (fun _ _ _ _ => rfl) rfl, fun b' hb' hne => ?_, rfl, rfl, fun x hx => ?_⟩
  · exact ⟨⟨rfl, rfl, rfl, rfl, rfl, rfl⟩, Agree.refl _ _ _, fun i hi' hval' =>
      devicePage_write_apart (hp.apart hi hb hb' hj hi' hval hval' (Or.inl hne.symm))⟩
  · exact ⟨hx.congr ⟨rfl, rfl, rfl, rfl, rfl, rfl⟩ (fun _ _ _ _ => rfl) rfl,
      devicePage_write_apart (hx.apart hi hp hb hj hval)⟩

/-- **A write takes its blocks**: those of its entry again, or some that nothing uses. -/
theorem effect_of_start {s : AfsPrivate × AfsMapRequest} (hi : Instance ctx) (hp : Placed ctx)
    (hk : ∀ n, k.kmalloc n = true) (hb : b < ctx.config.numBlocks)
    (hentry : afsGetMapEntry ctx.config req.block = afsGetMapEntry ctx.config b)
    (henc : req.encodingType = ctx.encodingType)
    (h : writeRequestMap k g e ctx req = some (.next s)) : Effect b ctx s.1 := by
  have hn := hi.carriers
  obtain ⟨hm, -, -⟩ := writeRequestMap_mapped hi hp hk hb hentry henc h
  have hold : ∀ b' < ctx.config.numBlocks, b' ≠ b → ∀ j < 4,
      entryPtr s.1 b' j = entryPtr ctx b' j := fun b' hb' hne j hj =>
    entryPtr_of_other hi hm.same hb hb' hne (hm.entry ▸ hm.other) hj
  have hfields : s.1.superBlock = ctx.superBlock ∧ s.1.afsPtrBlocks = ctx.afsPtrBlocks ∧
      (∀ p, ctx.vector.bits p = true → s.1.vector.bits p = true) ∧
      ∀ x, Reserved ctx x → ∀ j < 4, entryPtr s.1 b j ≠ x := by
    obtain ⟨ctx₂, req₂, henc₁, hcase⟩ := writeRequestMap_started h
    obtain ⟨map, encoder, carriers, rfl, rfl, htup⟩ := sameTuples_encodeRequest hn henc₁
    rcases hcase with ⟨-, -, rfl⟩ | ⟨bs, v, random, hacq, hlen, hs⟩
    · refine ⟨rfl, rfl, fun p hp => hp, fun x hx j hj => ?_⟩
      have hptr : carrierPtr map (afsGetMapEntry ctx.config b) j = entryPtr ctx b j := by
        rw [← hentry]
        exact (htup.carrierPtr hj).trans (by rw [loadRequest, hentry, entryPtr])
      exact fun heq => hx.free b hb j hj (hptr.symm.trans heq)
    · rw [hn] at hacq hlen
      obtain ⟨ps, hacq⟩ := acquireBlocks_spec hacq
      refine ⟨by rw [hs]; rfl, by rw [hs]; rfl, fun p hp => ?_, fun x hx j hj heq => ?_⟩
      · rw [hs]
        show v.bits p = true
        rw [hacq.bits, hp, Bool.true_or]
      · -- a block that was acquired was not in use
        have hx' : bs[j]? = some x := by
          obtain ⟨y, hy⟩ : ∃ y, bs[j]? = some y := ⟨_, List.getElem?_eq_getElem (hlen ▸ hj)⟩
          have hset : s.2.blockNums (0 + j) = y := by
            rw [hs]
            exact setNums_eq hy
          rw [hy, ← heq, hm.entryPtr_eq hj, ← hset, Nat.zero_add]
        obtain ⟨-, p, hps, hxp⟩ := hacq.blocks j x hx'
        obtain ⟨hplt, -, hfree⟩ := hacq.free p (List.mem_of_getElem? hps)
        obtain ⟨q, hq, hxq, hmark⟩ := hx.marked
        obtain rfl := hi.position_inj hplt hq hxp hxq
        simp [hfree] at hmark
  obtain ⟨hsb, hpb, hbits, hnew⟩ := hfields
  refine ⟨hm.same, hm.placed, fun b' hb' hne => ⟨hm.same, ?_, fun j hj hval => ?_⟩, hsb, hpb,
    fun x hx => ⟨⟨?_, fun b' hb' j hj => ?_⟩, ?_⟩⟩
  · exact agree_entry_out hi hb hb' hne (hm.entry ▸ hm.other)
  · rw [hm.disk]
    exact Agree.refl _ _ _
  · obtain ⟨p, hp, hxp, hmark⟩ := hx.marked
    rw [hm.same.passiveFs]
    exact ⟨p, hp, hxp, hbits p hmark⟩
  · rw [hm.same.config] at hb'
    by_cases hne : b' = b
    · subst hne
      exact hnew x hx j hj
    · rw [hold b' hb' hne j hj]
      exact hx.free b' hb' j hj
  · rw [hm.disk]
    exact Agree.refl _ _ _

/-! ### A write that is under way -/

theorem Alike.write (h : Alike b ctx ctx') (x : ℕ) (page : Mem) :
    Alike b
      { ctx with disk := blit ctx.disk (512 * carrierSector x ctx.passiveFs.dataStartOff) page 0 4096 }
      { ctx' with
        disk := blit ctx'.disk (512 * carrierSector x ctx'.passiveFs.dataStartOff) page 0 4096 } := by
  have hsame := h.same
  refine ⟨⟨hsame.config, hsame.passphrase, hsame.passphraseHash, hsame.encodingType,
    hsame.entropyDir, hsame.passiveFs⟩, h.entry, fun j hj hval => ?_⟩
  have hpage := h.pages j hj hval
  rw [hsame.passiveFs]
  rcases carrierSector_eq_or_apart ctx.passiveFs.dataStartOff x (Artifice.entryPtr ctx b j) with
    heq | hap
  · exact (devicePage_write heq).trans (devicePage_write heq).symm
  · exact (devicePage_write_apart hap).trans (hpage.trans (devicePage_write_apart hap).symm)

theorem Alike.checksums (h : Alike b ctx ctx') (hentry : req.mapEntry = afsGetMapEntry ctx.config b)
    (n : ℕ) :
    Alike b { ctx with afsMap := storeChecksums ctx.afsMap req n }
      { ctx' with afsMap := storeChecksums ctx'.afsMap req n } := by
  have hsame := h.same
  have hmap : ∀ m, Agree (storeChecksums ctx'.afsMap req m) (afsGetMapEntry ctx.config b)
      (storeChecksums ctx.afsMap req m) (afsGetMapEntry ctx.config b) 64 := by
    intro m
    induction m with
    | zero => exact h.entry
    | succ m ih =>
      intro t ht
      simp only [storeChecksums, setTupleChecksum, putLe]
      split_ifs
      · rfl
      · exact ih t ht
  have hptr : ∀ j, Artifice.entryPtr { ctx with afsMap := storeChecksums ctx.afsMap req n } b j =
      Artifice.entryPtr ctx b j := fun j => by
    rw [Artifice.entryPtr, Artifice.entryPtr, ← hentry]
    exact carrierPtr_storeChecksums
  refine ⟨⟨hsame.config, hsame.passphrase, hsame.passphraseHash, hsame.encodingType,
    hsame.entropyDir, hsame.passiveFs⟩, hmap n, fun j hj hval => ?_⟩
  rw [hptr] at hval ⊢
  exact h.pages j hj hval

/-- **A write does not notice what is not alike**: a step of it is a step in any context that is
alike at its block, and leaves the two alike. -/
theorem Writing.step_alike (h : Writing ctx₁ req₁ ctxW l) (hal : Alike b ctxW ctx)
    (hi : Instance ctx) (hp : Placed ctx) (hb : b < ctx.config.numBlocks)
    (hentry : req₁.mapEntry = afsGetMapEntry ctx.config b)
    (hnums : ∀ j < 4, entryPtr ctx b j = req₁.blockNums j)
    (hval : ∀ j < 4, req₁.blockNums j ≠ afsInvalidBlock) (hc : Counted 4 l)
    (hstep : LifeStep k g ctx l a ctx' l') (ha : a.Smooth) :
    ∃ ctxW', LifeStep k g ctxW l a ctxW' l' ∧ Alike b ctxW' ctx' ∧ Effect b ctx ctx' := by
  have hn := hi.carriers
  have hconf := hal.same.config
  have hreq : l.req.mapEntry = req₁.mapEntry ∧ l.req.blockNums = req₁.blockNums := by
    rw [h.req]
    exact ⟨rfl, rfl⟩
  have hsnd : ∀ i, (transfer ctx l i 0).2 = (transfer ctxW l i 0).2 := fun i => by
    rw [transfer_write _ h.type, transfer_write _ h.type]
  -- one carrier is written, in either context
  have hpage : ∀ i ∈ l.outstanding, Alike b (transfer ctxW l i 0).1 (transfer ctx l i 0).1 ∧
      Effect b ctx (transfer ctx l i 0).1 := by
    intro i mem
    have hi' := hc.bound i mem
    rw [transfer_write _ h.type, transfer_write _ h.type]
    refine ⟨hal.write _ _, ?_⟩
    rw [hreq.2, ← hnums i hi']
    exact effect_of_write hi hp hb hi' (hnums i hi' ▸ hval i hi') _
  cases hstep.writeStep ha h.type (h.phase.imp_right Or.inl) with
  | submit phase =>
    rw [hconf]
    exact ⟨ctxW, .submitWrite phase, hal, Effect.refl hp b⟩
  | @complete i mem more =>
    obtain ⟨hal', heff⟩ := hpage i mem
    rw [hsnd]
    exact ⟨_, .complete mem rfl more, hal', heff⟩
  | @last i mem last bio =>
    obtain ⟨hal', heff⟩ := hpage i mem
    have hent : (Artifice.countDown l (transfer ctxW l i 0).2 i).req.mapEntry =
        afsGetMapEntry ctx.config b := by
      rw [transfer_write _ h.type]
      exact hreq.1.trans hentry
    rw [hsnd]
    refine ⟨_, .lastWrite mem rfl last h.type bio, ?_, ?_⟩
    · rw [hal'.same.config]
      refine hal'.checksums ?_ _
      rw [← hal'.same.config, heff.same.config]
      exact hent
    · rw [heff.same.config, hn]
      refine heff.trans (effect_of_checksums (hi.of_sameInstance heff.same) heff.placed ?_ ?_)
      · rwa [heff.same.config]
      · rw [heff.same.config]
        exact hent

end

end Artifice
