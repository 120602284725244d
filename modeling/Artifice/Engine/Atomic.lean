import Artifice.Engine.Mapping

/-!
What a failed write or rebuild leaves behind.

At `reset_entry` every pointer of the entry is given up, those that were there before the request
as well, and it is freed under its block number, where `acquire_block` marks the position in the
free list. The difference field that the encoder wrote stays. So a failure is undone only when
there was nothing to lose: the entry was not mapped, the difference field had the encoder's value
already, and the blocks that were acquired happen to be numbered like their positions.
-/

namespace Artifice

open Lib

/-- The map entry and the allocation vector are what they were. -/
def Undone (ctx ctx' : AfsPrivate) (entry : ℕ) : Prop :=
  Agree ctx'.afsMap entry ctx.afsMap entry ctx.config.mapEntrySz ∧ ctx'.vector = ctx.vector

/-- The encoder stores in the difference field what is there. -/
def KeepsDifference (k : Kernel) (g : GfCtx) (e : Entropy) (ctx : AfsPrivate)
    (req : AfsMapRequest) : Prop :=
  ∀ s, encodeRequest k g e ctx req = some s →
    Agree s.1.afsMap (mapEntryDifference ctx req) ctx.afsMap (mapEntryDifference ctx req) 32

/-- `acquire_block` gives a block for every carrier. -/
def CanAcquire (ctx : AfsPrivate) : Prop :=
  ∃ bs v random, acquireBlocks ctx.passiveFs ctx.config.numCarrierBlocks ctx.vector ctx.random =
    some (bs, v, random) ∧ bs.length = ctx.config.numCarrierBlocks

/-- The positions that `acquire_block` marks are the numbers of the blocks that it gives. -/
def NumberedByPosition (ctx : AfsPrivate) : Prop :=
  ∀ bs v random, acquireBlocks ctx.passiveFs ctx.config.numCarrierBlocks ctx.vector ctx.random =
    some (bs, v, random) → ∀ q, (v.bits q = true ∧ ctx.vector.bits q = false) ↔ q ∈ bs

/-- Nothing is lost by the failure of a request: no carrier is mapped, the difference field has
the encoder's value, and blocks are numbered by their positions. -/
structure NothingToLose (k : Kernel) (g : GfCtx) (e : Entropy) (ctx : AfsPrivate)
    (req : AfsMapRequest) : Prop where
  unmapped : ∀ i < ctx.config.numCarrierBlocks,
    carrierPtr ctx.afsMap req.mapEntry i = afsInvalidBlock
  difference : KeepsDifference k g e ctx req
  numbers : NumberedByPosition ctx

section

variable {k : Kernel} {g : GfCtx} {e : Entropy} {ctx ctx₁ ctx' : AfsPrivate}
  {req req' : AfsMapRequest} {setup : ℕ → ℤ} {ret : ℤ} {n entry : ℕ} {map : Mem}
  {bs random : List ℕ} {v : BitVector}

theorem afsInvalidBlock_lt : afsInvalidBlock < 2 ^ 32 := by decide

theorem keepsDifference_shamir (h : req.encodingType = .shamir) :
    KeepsDifference k g e ctx req := by
  intro s hs
  simp only [encodeRequest, h, Option.bind_eq_bind, Option.bind_eq_some_iff, Option.some.injEq] at hs
  obtain ⟨encoder, -, rfl⟩ := hs
  exact Agree.refl _ _ _

theorem carrierPtr_resetEntry (ctx : AfsPrivate) (entry : ℕ) {i : ℕ} (hi : i < n) :
    carrierPtr (resetEntry ctx entry n).afsMap entry i = afsInvalidBlock := by
  obtain ⟨v, he, -, -⟩ := resetEntry_eq ctx entry n
  have hr : (List.replicate n afsInvalidBlock)[i]? = some afsInvalidBlock := by
    rw [List.getElem?_replicate, if_pos hi]
  have hptr : carrierPtr (setPtrs ctx.afsMap entry 0 (List.replicate n afsInvalidBlock)) entry
      (0 + i) = afsInvalidBlock := carrierPtr_setPtrs hr afsInvalidBlock_lt
  rw [he]
  rwa [Nat.zero_add] at hptr

theorem resetEntry_out (ctx : AfsPrivate) (entry : ℕ) {j : ℕ}
    (h : ∀ t < n, j < entry + 6 * t ∨ entry + 6 * t + 4 ≤ j) :
    (resetEntry ctx entry n).afsMap j = ctx.afsMap j := by
  obtain ⟨v, he, -, -⟩ := resetEntry_eq ctx entry n
  rw [he]
  refine setPtrs_out fun t ht => ?_
  rw [List.length_replicate] at ht
  rw [Nat.zero_add]
  exact h t ht

theorem Undone.unmapped (hok : ctx.config.Ok)
    (h : Undone ctx (resetEntry ctx' entry ctx.config.numCarrierBlocks) entry) {i : ℕ}
    (hi : i < ctx.config.numCarrierBlocks) : carrierPtr ctx.afsMap entry i = afsInvalidBlock := by
  have hsz := hok.entrySz
  have hptr : Agree (resetEntry ctx' entry ctx.config.numCarrierBlocks).afsMap (entry + 6 * i)
      ctx.afsMap (entry + 6 * i) 4 := h.1.sub (by omega)
  rw [carrierPtr, ← le_congr hptr]
  exact carrierPtr_resetEntry ctx' entry hi

theorem agree_resetEntry_iff (hok : ctx.config.Ok) (hn : n = ctx.config.numCarrierBlocks)
    (hmap : ∀ j, j < entry + 6 * n ∨ entry + 6 * n + 32 ≤ j → map j = ctx.afsMap j)
    (hlen : bs.length ≤ n) (hctx : ctx'.afsMap = setPtrs map entry 0 bs) :
    Agree (resetEntry ctx' entry n).afsMap entry ctx.afsMap entry ctx.config.mapEntrySz ↔
      (∀ i < n, carrierPtr ctx.afsMap entry i = afsInvalidBlock) ∧
      Agree map (entry + 6 * n) ctx.afsMap (entry + 6 * n) 32 := by
  have hsz := hok.entrySz
  have hrest : ∀ j, (∀ t < n, j < entry + 6 * t ∨ entry + 6 * t + 4 ≤ j) →
      (resetEntry ctx' entry n).afsMap j = map j := by
    intro j hj
    rw [resetEntry_out ctx' entry hj, hctx]
    refine setPtrs_out fun t ht => ?_
    rw [Nat.zero_add]
    exact hj t (by omega)
  constructor
  · intro h
    refine ⟨fun i hi => ?_, fun j hj => ?_⟩
    · have hptr : Agree (resetEntry ctx' entry n).afsMap (entry + 6 * i) ctx.afsMap
          (entry + 6 * i) 4 := h.sub (by omega)
      rw [carrierPtr, ← le_congr hptr]
      exact carrierPtr_resetEntry ctx' entry hi
    · have := h (6 * n + j) (by omega)
      rw [← Nat.add_assoc] at this
      rw [← this, hrest _ fun t ht => by omega]
  · rintro ⟨hptr, hdiff⟩ j hj
    rcases Nat.lt_or_ge j (6 * n) with h6 | h6
    · rcases Nat.lt_or_ge (j % 6) 4 with h4 | h4
      · -- a byte of a pointer, which was invalid and is so again
        have hi : j / 6 < n := by omega
        have hp : Agree (resetEntry ctx' entry n).afsMap (entry + 6 * (j / 6)) ctx.afsMap
            (entry + 6 * (j / 6)) 4 := by
          refine agree_of_le_eq ?_
          exact (carrierPtr_resetEntry ctx' entry hi).trans (hptr _ hi).symm
        have := hp (j % 6) h4
        rwa [show entry + 6 * (j / 6) + j % 6 = entry + j by omega] at this
      · rw [hrest _ fun t ht => by omega, hmap _ (by omega)]
    · rw [hrest _ fun t ht => by omega]
      rcases Nat.lt_or_ge j (6 * n + 32) with h32 | h32
      · have := hdiff (j - 6 * n) (by omega)
        rwa [show entry + 6 * n + (j - 6 * n) = entry + j by omega] at this
      · exact hmap _ (by omega)

theorem exists_carrierPtr_iff (hu : ∀ i < n, carrierPtr map entry i = afsInvalidBlock)
    (hlen : bs.length ≤ n) (hbs : ∀ b ∈ bs, b ≠ afsInvalidBlock ∧ b < 2 ^ 32) (q : ℕ) :
    (q ≠ afsInvalidBlock ∧ ∃ i < n, carrierPtr (setPtrs map entry 0 bs) entry i = q) ↔ q ∈ bs := by
  have hptr : ∀ i b, bs[i]? = some b → carrierPtr (setPtrs map entry 0 bs) entry i = b := by
    intro i b hb
    have h : carrierPtr (setPtrs map entry 0 bs) entry (0 + i) = b :=
      carrierPtr_setPtrs hb (hbs b (List.mem_of_getElem? hb)).2
    rwa [Nat.zero_add] at h
  constructor
  · rintro ⟨hq, i, hi, rfl⟩
    rcases Nat.lt_or_ge i bs.length with h | h
    · rw [hptr i _ (List.getElem?_eq_getElem h)]
      exact List.getElem_mem h
    · rw [carrierPtr_setPtrs_out (Or.inr (by omega)), hu i hi] at hq
      exact absurd rfl hq
  · intro hq
    obtain ⟨i, hi⟩ := List.mem_iff_getElem?.1 hq
    have hlt : i < bs.length := by
      by_contra hge
      rw [List.getElem?_eq_none (by omega)] at hi
      exact absurd hi (by simp)
    exact ⟨(hbs q hq).1, i, by omega, hptr i q hi⟩

theorem Acquired.mem_iff_of_subset {ps : List ℕ} (h : Acquired ctx.passiveFs n ctx.vector ps bs v)
    (hsub : ∀ p ∈ ps, p ∈ bs) (q : ℕ) : q ∈ ps ↔ q ∈ bs := by
  have hcard : bs.toFinset.card ≤ ps.toFinset.card := by
    rw [List.toFinset_card_of_nodup h.nodup]
    exact (List.toFinset_card_le bs).trans h.marked
  have hss : ps.toFinset ⊆ bs.toFinset := fun p hp =>
    List.mem_toFinset.2 (hsub p (List.mem_toFinset.1 hp))
  have := Finset.eq_of_subset_of_card_le hss hcard
  rw [← List.mem_toFinset, this, List.mem_toFinset]

/-- **The vector after the failure**, when no other carrier was mapped. -/
theorem vector_resetEntry_iff (hu : ∀ i < n, carrierPtr map entry i = afsInvalidBlock)
    (hlt : ∀ b ∈ ctx.passiveFs.blockList, b < 2 ^ 32)
    (hacq : acquireBlocks ctx.passiveFs n ctx.vector ctx.random = some (bs, v, random))
    (hv : ctx'.vector = v) (hctx : ctx'.afsMap = setPtrs map entry 0 bs) :
    (resetEntry ctx' entry n).vector = ctx.vector ↔
      ∀ q, (v.bits q = true ∧ ctx.vector.bits q = false) ↔ q ∈ bs := by
  obtain ⟨ps, hps⟩ := acquireBlocks_spec hacq
  obtain ⟨w, he, hl, hbits⟩ := resetEntry_eq ctx' entry n
  have hbs : ∀ b ∈ bs, b ≠ afsInvalidBlock ∧ b < 2 ^ 32 := by
    intro b hb
    obtain ⟨i, hi⟩ := List.mem_iff_getElem?.1 hb
    obtain ⟨hne, p, -, hp⟩ := hps.blocks i b hi
    exact ⟨hne, hlt b (List.mem_of_getElem? hp)⟩
  have hptr := exists_carrierPtr_iff hu (acquireBlocks_length_le hacq) hbs
  -- a position is marked by the calls exactly if it is one of theirs
  have hmarked : ∀ q, (v.bits q = true ∧ ctx.vector.bits q = false) ↔ q ∈ ps := by
    intro q
    rw [hps.bits q]
    constructor
    · rintro ⟨h1, h2⟩
      simpa [h2] using h1
    · intro hq
      exact ⟨by simp [hq], (hps.free q hq).2.2⟩
  have hw : ∀ q, w.bits q = true ↔ v.bits q = true ∧ ¬ (q ≤ v.length ∧ q ∈ bs) := by
    intro q
    rw [hbits q, hv, hctx, ← hptr q]
  have hlen : w.length = ctx.vector.length := by rw [hl, hv, hps.length]
  have heq : (resetEntry ctx' entry n).vector = w := by rw [he]
  rw [heq]
  simp only [hmarked]
  constructor
  · intro h q
    refine hps.mem_iff_of_subset (fun p hp => ?_) q
    have hp' := (hmarked p).2 hp
    by_contra hnot
    have : w.bits p = true := (hw p).2 ⟨hp'.1, fun hc => hnot hc.2⟩
    rw [h, hp'.2] at this
    exact Bool.noConfusion this
  · intro h
    have hb : w.bits = ctx.vector.bits := by
      funext q
      rw [Bool.eq_iff_iff, hw q, hps.bits q]
      by_cases hq : q ∈ ps
      · have hf := hps.free q hq
        have hlq : q ≤ v.length := by rw [hps.length]; exact hf.2.1
        simp [hq, (h q).1 hq, hlq, hf.2.2]
      · have hq' : q ∉ bs := fun hc => hq ((h q).2 hc)
        simp [hq, hq']
    cases w with
    | mk bits length =>
      cases hcv : ctx.vector with
      | mk bits' length' =>
        rw [hcv] at hb hlen
        simp only at hb hlen
        rw [hb, hlen]

theorem undone_iff (ctx' : AfsPrivate) (hok : ctx.config.Ok)
    (hlt : ∀ b ∈ ctx.passiveFs.blockList, b < 2 ^ 32)
    (henc : encodeRequest k g e ctx req = some (ctx₁, req'))
    (hacq : acquireBlocks ctx.passiveFs ctx.config.numCarrierBlocks ctx.vector ctx.random =
      some (bs, v, random))
    (hv : ctx'.vector = v) (hctx : ctx'.afsMap = setPtrs ctx₁.afsMap req.mapEntry 0 bs) :
    Undone ctx (resetEntry ctx' req.mapEntry ctx.config.numCarrierBlocks) req.mapEntry ↔
      NothingToLose k g e ctx req := by
  obtain ⟨map, _, _, rfl, -, hout⟩ := encodeRequest_frame henc
  have hmap := agree_resetEntry_iff hok rfl hout (acquireBlocks_length_le hacq) hctx
  have hvec (hu : ∀ i < ctx.config.numCarrierBlocks,
      carrierPtr ctx.afsMap req.mapEntry i = afsInvalidBlock) :=
    vector_resetEntry_iff (fun i hi => (encodeRequest_carrierPtr henc hi).trans (hu i hi)) hlt hacq
      hv hctx
  constructor
  · rintro ⟨h1, h2⟩
    obtain ⟨hu, hdiff⟩ := hmap.1 h1
    refine ⟨hu, fun s hs => ?_, fun bs' v' random' hacq' => ?_⟩
    · rw [henc, Option.some.injEq] at hs
      subst hs
      exact hdiff
    · rw [hacq, Option.some.injEq, Prod.mk.injEq, Prod.mk.injEq] at hacq'
      obtain ⟨rfl, rfl, -⟩ := hacq'
      exact (hvec hu).1 h2
  · intro h
    exact ⟨hmap.2 ⟨h.unmapped, h.difference _ henc⟩, (hvec h.unmapped).2 (h.numbers _ _ _ hacq)⟩

theorem submitPages_eq_zero_iff (setup : ℕ → ℤ) (n i : ℕ) :
    (submitPages setup n i).1 = 0 ↔ ∀ j, i ≤ j → j < i + n → setup j = 0 := by
  induction n generalizing i with
  | zero => exact ⟨fun _ j h1 h2 => by omega, fun _ => rfl⟩
  | succ n ih =>
    rw [submitPages]
    split_ifs with h
    · exact ⟨fun h0 => absurd h0 h, fun hall => absurd (hall i (le_refl i) (by omega)) h⟩
    · rw [ih]
      constructor
      · intro hall j h1 h2
        rcases Nat.eq_or_lt_of_le h1 with rfl | h1
        · exact not_not.1 h
        · exact hall j h1 (by omega)
      · exact fun hall j h1 h2 => hall j (by omega) (by omega)

/-- The blocks for the carriers of a write: those that are mapped, or new ones. -/
def CanMap (ctx : AfsPrivate) (entry : ℕ) : Prop :=
  if carrierPtr ctx.afsMap entry 0 = afsInvalidBlock then CanAcquire ctx
  else ∀ i < ctx.config.numCarrierBlocks, carrierPtr ctx.afsMap entry i ≠ afsInvalidBlock

/-- Every carrier bio can be set up. -/
def CanSubmit (ctx : AfsPrivate) (setup : ℕ → ℤ) : Prop :=
  ∀ i < ctx.config.numCarrierBlocks, setup i = 0

instance (ctx : AfsPrivate) (setup : ℕ → ℤ) : Decidable (CanSubmit ctx setup) :=
  inferInstanceAs (Decidable (∀ i < _, setup i = 0))

theorem submitPages_iff (setup : ℕ → ℤ) :
    (submitPages setup ctx.config.numCarrierBlocks 0).1 = 0 ↔ CanSubmit ctx setup := by
  rw [submitPages_eq_zero_iff]
  exact ⟨fun h i hi => h i (Nat.zero_le i) (by omega), fun h i _ hi => h i (by omega)⟩

theorem submit_cases (ctx : AfsPrivate) {σ : Type} {done undo out : σ}
    (h : (if (submitPages setup ctx.config.numCarrierBlocks 0).1 ≠ 0 then some ((-5 : ℤ), undo)
      else some (0, done)) = some (ret, out)) :
    if CanSubmit ctx setup then ret = 0 ∧ out = done else ret ≠ 0 ∧ out = undo := by
  by_cases hs : CanSubmit ctx setup
  · rw [if_neg (not_not.2 ((submitPages_iff setup).2 hs))] at h
    simp only [Option.some.injEq, Prod.mk.injEq] at h
    rw [if_pos hs]
    exact ⟨h.1.symm, h.2.symm⟩
  · rw [if_pos fun h0 => hs ((submitPages_iff setup).1 h0)] at h
    simp only [Option.some.injEq, Prod.mk.injEq] at h
    rw [if_neg hs]
    exact ⟨by omega, h.2.symm⟩

theorem afsWriteRequest_cases (hstate : req.state = .flight)
    (h : afsWriteRequest k g e setup ctx req = some (ret, ctx', req')) :
    ∃ ctx₁ req₁, encodeRequest k g e ctx (loadRequest ctx req) = some (ctx₁, req₁) ∧
      ((carrierPtr ctx.afsMap (loadRequest ctx req).mapEntry 0 ≠ afsInvalidBlock ∧
        if (∀ j < ctx.config.numCarrierBlocks,
            carrierPtr ctx.afsMap (loadRequest ctx req).mapEntry j ≠ afsInvalidBlock) ∧
            CanSubmit ctx setup
        then ret = 0
        else ret ≠ 0 ∧ ctx' = resetEntry ctx₁ (loadRequest ctx req).mapEntry
          ctx.config.numCarrierBlocks) ∨
      (carrierPtr ctx.afsMap (loadRequest ctx req).mapEntry 0 = afsInvalidBlock ∧
        ∃ bs v random, acquireBlocks ctx.passiveFs ctx.config.numCarrierBlocks ctx.vector
            ctx.random = some (bs, v, random) ∧
          if bs.length = ctx.config.numCarrierBlocks ∧ CanSubmit ctx setup then ret = 0
          else ret ≠ 0 ∧ ctx' = resetEntry (acquiredState ctx₁ req₁ bs v random).1
            (loadRequest ctx req).mapEntry ctx.config.numCarrierBlocks)) := by
  simp only [afsWriteRequest, Option.bind_eq_bind, Option.bind_eq_some_iff] at h
  obtain ⟨f, hf, h⟩ := h
  rcases writeRequestMap_cases hf with ⟨hs, -⟩ | ⟨-, ctx₁, req₁, henc, hcase⟩
  · exact absurd hstate hs
  refine ⟨ctx₁, req₁, henc, ?_⟩
  obtain ⟨map, _, _, rfl, rfl, -⟩ := encodeRequest_frame henc
  rcases hcase with ⟨hm, ⟨hall, rfl⟩ | ⟨⟨j, hj, hinv⟩, nums, rfl⟩⟩ | ⟨hm, bs, v, random, hacq,
    rfl⟩
  · refine Or.inl ⟨hm, ?_⟩
    have hend := submit_cases ctx h
    by_cases hs : CanSubmit ctx setup
    · rw [if_pos hs] at hend
      rw [if_pos ⟨hall, hs⟩]
      exact hend.1
    · rw [if_neg hs] at hend
      rw [if_neg fun hc => hs hc.2]
      exact ⟨hend.1, congrArg Prod.fst hend.2⟩
  · simp only [Option.some.injEq, Prod.mk.injEq] at h
    refine Or.inl ⟨hm, ?_⟩
    rw [if_neg fun hc => hc.1 j hj hinv]
    exact ⟨by omega, (congrArg Prod.fst h.2).symm⟩
  · refine Or.inr ⟨hm, bs, v, random, hacq, ?_⟩
    by_cases hl : bs.length = ctx.config.numCarrierBlocks
    · rw [if_pos hl] at h
      have hend := submit_cases ctx h
      by_cases hs : CanSubmit ctx setup
      · rw [if_pos hs] at hend
        rw [if_pos ⟨hl, hs⟩]
        exact hend.1
      · rw [if_neg hs] at hend
        rw [if_neg fun hc => hs hc.2]
        exact ⟨hend.1, congrArg Prod.fst hend.2⟩
    · rw [if_neg hl] at h
      simp only [Option.some.injEq, Prod.mk.injEq] at h
      rw [if_neg fun hc => hl hc.1]
      exact ⟨by omega, (congrArg Prod.fst h.2).symm⟩

theorem rebuildBlocks_cases (h : rebuildBlocks k g e setup ctx req = some (ret, ctx', req')) :
    ∃ ctx₁ req₁, encodeRequest k g e ctx (renumberRequest ctx req) = some (ctx₁, req₁) ∧
      ∃ bs v random, acquireBlocks ctx.passiveFs ctx.config.numCarrierBlocks ctx.vector
          ctx.random = some (bs, v, random) ∧
        if bs.length = ctx.config.numCarrierBlocks ∧ CanSubmit ctx setup
        then ret = 0 ∧ (ctx', req') = ((reacquiredState ctx₁ req₁ bs v random).1,
          { (reacquiredState ctx₁ req₁ bs v random).2 with
            biosPending := ctx.config.numCarrierBlocks })
        else ret ≠ 0 ∧ ctx' = resetEntry (reacquiredState ctx₁ req₁ bs v random).1 req.mapEntry
          ctx.config.numCarrierBlocks := by
  simp only [rebuildBlocks, Option.bind_eq_bind, Option.bind_eq_some_iff] at h
  obtain ⟨f, hf, h⟩ := h
  obtain ⟨ctx₁, req₁, henc, bs, v, random, hacq, rfl⟩ := rebuildBlocksMap_cases hf
  refine ⟨ctx₁, req₁, henc, bs, v, random, hacq, ?_⟩
  obtain ⟨map, _, _, rfl, rfl, -⟩ := encodeRequest_frame henc
  by_cases hl : bs.length = ctx.config.numCarrierBlocks
  · rw [if_pos hl] at h
    have hend := submit_cases ctx h
    by_cases hs : CanSubmit ctx setup
    · rw [if_pos hs] at hend
      rw [if_pos ⟨hl, hs⟩]
      exact hend
    · rw [if_neg hs] at hend
      rw [if_neg fun hc => hs hc.2]
      exact ⟨hend.1, congrArg Prod.fst hend.2⟩
  · rw [if_neg hl] at h
    simp only [Option.some.injEq, Prod.mk.injEq] at h
    rw [if_neg fun hc => hl hc.1]
    exact ⟨by omega, (congrArg Prod.fst h.2).symm⟩

theorem canAcquire_iff (hacq : acquireBlocks ctx.passiveFs ctx.config.numCarrierBlocks ctx.vector
    ctx.random = some (bs, v, random)) :
    CanAcquire ctx ↔ bs.length = ctx.config.numCarrierBlocks := by
  constructor
  · rintro ⟨bs', v', random', h, hl⟩
    rw [hacq, Option.some.injEq, Prod.mk.injEq] at h
    rw [h.1]
    exact hl
  · exact fun hl => ⟨bs, v, random, hacq, hl⟩

theorem afsWriteRequest_undone_iff (hok : ctx.config.Ok)
    (hlt : ∀ b ∈ ctx.passiveFs.blockList, b < 2 ^ 32)
    (h : afsWriteRequest k g e setup ctx req = some (ret, ctx', req')) :
    (ret ≠ 0 → Undone ctx ctx' (loadRequest ctx req).mapEntry) ↔
      req.state ≠ .flight ∨
      (CanMap ctx (loadRequest ctx req).mapEntry ∧ CanSubmit ctx setup) ∨
      NothingToLose k g e ctx (loadRequest ctx req) := by
  have hpos := hok.carriers.1
  by_cases hstate : req.state = .flight
  · obtain ⟨ctx₁, req₁, henc, ⟨hm, hend⟩ | ⟨hm, bs, v, random, hacq, hend⟩⟩ :=
      afsWriteRequest_cases hstate h
    · rw [CanMap, if_neg hm]
      split_ifs at hend with hc
      · exact iff_of_true (fun h0 => absurd hend h0) (Or.inr (Or.inl hc))
      · -- a mapped carrier is lost
        refine iff_of_false (fun hu => ?_) ?_
        · obtain ⟨hret, rfl⟩ := hend
          exact hm ((hu hret).unmapped hok hpos)
        · rintro (hs | hs | hs)
          exacts [hs hstate, hc hs, hm (hs.unmapped 0 hpos)]
    · rw [CanMap, if_pos hm, canAcquire_iff hacq]
      split_ifs at hend with hc
      · exact iff_of_true (fun h0 => absurd hend h0) (Or.inr (Or.inl hc))
      · obtain ⟨hret, rfl⟩ := hend
        obtain ⟨map, _, _, rfl, rfl, -⟩ := encodeRequest_frame henc
        have hiff := undone_iff (acquiredState { ctx with afsMap := map } _ bs v random).1 hok hlt
          henc hacq rfl rfl
        simp only [hret, ne_eq, not_false_eq_true, true_imp_iff, hstate, not_true_eq_false,
          false_or, hc]
        exact hiff
  · refine iff_of_true (fun hret => ?_) (Or.inl hstate)
    simp only [afsWriteRequest, writeRequestMap, hstate, ne_eq, not_false_eq_true, if_true,
      Option.bind_eq_bind, Option.bind_some, Option.some.injEq, Prod.mk.injEq] at h
    obtain ⟨-, rfl, -⟩ := h
    exact ⟨Agree.refl _ _ _, rfl⟩

theorem rebuildBlocks_undone_iff (hok : ctx.config.Ok)
    (hlt : ∀ b ∈ ctx.passiveFs.blockList, b < 2 ^ 32)
    (h : rebuildBlocks k g e setup ctx req = some (ret, ctx', req')) :
    (ret ≠ 0 → Undone ctx ctx' req.mapEntry) ↔
      (CanAcquire ctx ∧ CanSubmit ctx setup) ∨
      NothingToLose k g e ctx (renumberRequest ctx req) := by
  obtain ⟨ctx₁, req₁, henc, bs, v, random, hacq, hend⟩ := rebuildBlocks_cases h
  rw [canAcquire_iff hacq]
  split_ifs at hend with hc
  · exact iff_of_true (fun h0 => absurd hend.1 h0) (Or.inl hc)
  · obtain ⟨hret, rfl⟩ := hend
    obtain ⟨map, _, _, rfl, rfl, -⟩ := encodeRequest_frame henc
    have hiff := undone_iff (reacquiredState { ctx with afsMap := map } _ bs v random).1 hok hlt
      henc hacq rfl rfl
    simp only [hret, ne_eq, not_false_eq_true, true_imp_iff, hc, false_or]
    exact hiff

/-- **A failed write or rebuild leaves the entry and the vector as they were exactly if nothing
was to lose**, or if the request could not fail: it had its carriers, and their bios could be set
up. -/
theorem failed_request_undone_iff (k : Kernel) (g : GfCtx) (e : Entropy) (setup : ℕ → ℤ)
    (ctx : AfsPrivate) (req : AfsMapRequest) (hok : ctx.config.Ok)
    (hlt : ∀ b ∈ ctx.passiveFs.blockList, b < 2 ^ 32) :
    (∀ ret ctx' req', afsWriteRequest k g e setup ctx req = some (ret, ctx', req') →
      ((ret ≠ 0 → Undone ctx ctx' (afsGetMapEntry ctx.config req.block)) ↔
        req.state ≠ .flight ∨
        (CanMap ctx (afsGetMapEntry ctx.config req.block) ∧ CanSubmit ctx setup) ∨
        NothingToLose k g e ctx (loadRequest ctx req))) ∧
    (∀ ret ctx' req', rebuildBlocks k g e setup ctx req = some (ret, ctx', req') →
      ((ret ≠ 0 → Undone ctx ctx' req.mapEntry) ↔
        (CanAcquire ctx ∧ CanSubmit ctx setup) ∨
        NothingToLose k g e ctx (renumberRequest ctx req))) :=
  ⟨fun _ _ _ h => afsWriteRequest_undone_iff hok hlt h,
    fun _ _ _ h => rebuildBlocks_undone_iff hok hlt h⟩

end

/-! ### An overwrite that loses its block -/

/-- A small instance whose first block is mapped: its carriers are the blocks 4 to 7, at the first
positions of the free list. -/
def mappedContext : AfsPrivate :=
  { smallContext [4, 5, 6, 7, 8, 9, 10, 11] with
    vector := ⟨fun q => decide (q < 4), 2 ^ 32 - 1⟩
    afsMap := setPtrs (fun _ => 0) 0 0 [4, 5, 6, 7] }

theorem mappedContext_ok : mappedContext.config.Ok :=
  buildConfiguration_ok (sizedConfig 16) 1 (by decide) (by decide)

/-- A write of the first block of the instance, whose first carrier bio cannot be set up: the
request returns `-EIO`, and the block is not mapped any more. -/
theorem overwrite_loses_entry :
    ¬ ∀ (k : Kernel) (g : GfCtx) (e : Entropy) (setup : ℕ → ℤ) (ctx : AfsPrivate)
      (req : AfsMapRequest) (ret : ℤ) (ctx' : AfsPrivate) (req' : AfsMapRequest),
      afsWriteRequest k g e setup ctx req = some (ret, ctx', req') → ret ≠ 0 →
        Undone ctx ctx' (afsGetMapEntry ctx.config req.block) := by
  intro hall
  obtain ⟨⟨ret, ctx', req'⟩, h⟩ : ∃ r, afsWriteRequest (constKernel 0) gfContextZero zeroEntropy
      (fun _ => -12) mappedContext { zeroRequest with state := .flight } = some r :=
    Option.isSome_iff_exists.1 (by decide +kernel)
  have hptr : carrierPtr mappedContext.afsMap 0 0 ≠ afsInvalidBlock := by decide +kernel
  obtain ⟨ctx₁, req₁, -, ⟨-, hend⟩ | ⟨hm, -⟩⟩ := afsWriteRequest_cases rfl h
  · rw [if_neg fun hc => absurd (hc.2 0 (by decide)) (by decide)] at hend
    obtain ⟨hret, rfl⟩ := hend
    exact hptr ((hall _ _ _ _ _ _ _ _ _ h hret).unmapped mappedContext_ok (by decide))
  · exact hptr hm

/-- The instance with no block mapped yet, over a free list that starts at block 0 and has no gap. -/
def gaplessContext : AfsPrivate :=
  { smallContext [0, 1, 2, 3, 4, 5, 6, 7] with
    afsMap := setPtrs (fun _ => 0) 0 0 (List.replicate 4 afsInvalidBlock)
    random := [3, 6, 0, 5] }

/-- A share of its first block leaves the difference field alone, and blocks are numbered like their
positions: a write whose carrier bios cannot be set up fails and is undone. -/
theorem failed_request_undone_gapless :
    ∃ ctx' req', afsWriteRequest (constKernel 0) gfContextZero zeroEntropy (fun _ => -12)
        gaplessContext { zeroRequest with state := .flight, encodingType := .shamir } =
          some (-5, ctx', req') ∧
      Undone gaplessContext ctx' 0 := by
  obtain ⟨⟨ret, ctx', req'⟩, h, hret⟩ := Option.map_eq_some_iff.1
    (by decide +kernel : (afsWriteRequest (constKernel 0) gfContextZero zeroEntropy (fun _ => -12)
      gaplessContext { zeroRequest with state := .flight, encodingType := .shamir }).map Prod.fst =
        some (-5))
  obtain rfl : ret = -5 := hret
  refine ⟨ctx', req', h, ((failed_request_undone_iff (constKernel 0) gfContextZero zeroEntropy
    (fun _ => -12) gaplessContext { zeroRequest with state := .flight, encodingType := .shamir }
    mappedContext_ok ?_).1 _ _ _ h).2 (Or.inr (Or.inr ?_)) (by decide)⟩
  · have hsmall : ∀ b ∈ [0, 1, 2, 3, 4, 5, 6, 7], b < 2 ^ 32 := by decide
    exact hsmall
  · refine ⟨by decide +kernel, keepsDifference_shamir rfl, fun bs v random hacq q => ?_⟩
    have hmarks : acquireBlocks gaplessContext.passiveFs gaplessContext.config.numCarrierBlocks
        gaplessContext.vector gaplessContext.random = some ([3, 6, 0, 5],
          (((gaplessContext.vector.mark 3).mark 6).mark 0).mark 5, []) := rfl
    rw [hmarks, Option.some.injEq, Prod.mk.injEq, Prod.mk.injEq] at hacq
    obtain ⟨rfl, rfl, -⟩ := hacq
    simp only [gaplessContext, smallContext, BitVector.mark_bits, BitVector.mark_length,
      Nat.reducePow, Nat.add_one_sub_one, Nat.reduceLeDiff, zero_le, and_true, Bool.false_or,
      Bool.or_eq_true, decide_eq_true_eq, List.mem_cons, List.not_mem_nil, or_false]
    tauto

end Artifice
