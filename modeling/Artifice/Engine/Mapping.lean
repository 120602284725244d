import Artifice.Metadata.Frame
import Artifice.Engine.Defs

/-!
The map entry of a request: the blocks that a write or a rebuild acquires for the carriers, their
pointers in the entry, and what `reset_entry` leaves when the request fails.
-/

namespace Artifice

open Lib

/-! ### Acquired blocks -/

/-- Up to `n` calls of `acquire_block`, as long as they give a block: the blocks, the vector, and
the random numbers left. -/
def acquireBlocks (fs : AfsPassiveFs) : ℕ → BitVector → List ℕ →
    Option (List ℕ × BitVector × List ℕ)
  | 0, v, random => some ([], v, random)
  | n + 1, v, random => do
    let (b, v, random) ← acquireBlock fs v random
    if b = afsInvalidBlock then some ([], v, random)
    else
      let (bs, v, random) ← acquireBlocks fs n v random
      some (b :: bs, v, random)

/-- Up to `n` calls marked the positions `ps`, from `v` to `v'`, and gave the blocks `bs` at the
first of them. A position that is marked for no block is one where the free list holds the invalid
block. -/
structure Acquired (fs : AfsPassiveFs) (n : ℕ) (v : BitVector) (ps bs : List ℕ)
    (v' : BitVector) : Prop where
  nodup : ps.Nodup
  calls : ps.length ≤ n
  marked : bs.length ≤ ps.length
  blocks : ∀ i b : ℕ, bs[i]? = some b → b ≠ afsInvalidBlock ∧
    ∃ p, ps[i]? = some p ∧ fs.blockList[p]? = some b
  free : ∀ p ∈ ps, p < fs.listLen ∧ p ≤ v.length ∧ v.bits p = false
  length : v'.length = v.length
  bits : ∀ q, v'.bits q = (v.bits q || decide (q ∈ ps))

section Acquire

variable {fs : AfsPassiveFs} {v v' v'' : BitVector} {ps bs random random' : List ℕ} {n p b : ℕ}

theorem Acquired.nil (fs : AfsPassiveFs) (n : ℕ) (v : BitVector) : Acquired fs n v [] [] v :=
  ⟨List.nodup_nil, Nat.zero_le n, le_refl 0, by simp, by simp, rfl, by simp⟩

theorem Acquired.cons (hp : p < fs.listLen) (hl : p ≤ v.length) (hf : v.bits p = false)
    (hb : b ≠ afsInvalidBlock) (hx : fs.blockList[p]? = some b)
    (h : Acquired fs n (v.mark p) ps bs v') : Acquired fs (n + 1) v (p :: ps) (b :: bs) v' := by
  have hbits : ∀ q, (v.mark p).bits q = (v.bits q || decide (q = p)) := by
    intro q
    rw [BitVector.mark_bits]
    simp [hl]
  have hfree := h.free
  refine ⟨List.nodup_cons.2 ⟨fun hmem => ?_, h.nodup⟩, Nat.succ_le_succ h.calls,
    Nat.succ_le_succ h.marked, fun i c hc => ?_, fun q hq => ?_,
    h.length.trans BitVector.mark_length, fun q => ?_⟩
  · have := (hfree p hmem).2.2
    rw [hbits] at this
    simp at this
  · cases i with
    | zero =>
      simp only [List.getElem?_cons_zero, Option.some.injEq] at hc
      subst hc
      exact ⟨hb, p, rfl, hx⟩
    | succ i => exact h.blocks i c hc
  · rcases List.mem_cons.1 hq with rfl | hq
    · exact ⟨hp, hl, hf⟩
    · have := hfree q hq
      rw [hbits, BitVector.mark_length, Bool.or_eq_false_iff] at this
      exact ⟨this.1, this.2.1, this.2.2.1⟩
  · rw [h.bits q, hbits q, Bool.or_assoc]
    simp [List.mem_cons]

/-- **What is acquired**: blocks at distinct free positions, which are marked. -/
theorem acquireBlocks_spec (h : acquireBlocks fs n v random = some (bs, v', random')) :
    ∃ ps, Acquired fs n v ps bs v' := by
  induction n generalizing v random bs with
  | zero =>
    simp only [acquireBlocks, Option.some.injEq, Prod.mk.injEq] at h
    obtain ⟨rfl, rfl, -⟩ := h
    exact ⟨[], Acquired.nil fs 0 v⟩
  | succ n ih =>
    simp only [acquireBlocks, Option.bind_eq_bind, Option.bind_eq_some_iff] at h
    obtain ⟨⟨b, v₁, random₁⟩, hb, h⟩ := h
    simp only at h
    split_ifs at h with hi
    · simp only [Option.some.injEq, Prod.mk.injEq] at h
      obtain ⟨rfl, rfl, -⟩ := h
      rcases acquireBlock_cases hb with ⟨p, hp, hl, hf, rfl, hx⟩ | ⟨-, rfl⟩
      · -- the free list holds the invalid block here: it is marked, and no block
        refine ⟨[p], by simp, by simp, by simp, by simp, ?_, BitVector.mark_length, fun q => ?_⟩
        · intro q hq
          obtain rfl := List.mem_singleton.1 hq
          exact ⟨hp, hl, hf⟩
        · rw [BitVector.mark_bits]
          simp [hl]
      · exact ⟨[], Acquired.nil fs (n + 1) v₁⟩
    · simp only [Option.bind_eq_some_iff] at h
      obtain ⟨⟨bs₁, v₂, random₂⟩, hbs, h⟩ := h
      simp only [Option.some.injEq, Prod.mk.injEq] at h
      obtain ⟨rfl, rfl, rfl⟩ := h
      rcases acquireBlock_cases hb with ⟨p, hp, hl, hf, rfl, hx⟩ | ⟨rfl, -⟩
      · obtain ⟨ps, hps⟩ := ih hbs
        exact ⟨p :: ps, hps.cons hp hl hf hi hx⟩
      · exact absurd rfl hi

theorem acquireBlocks_length_le (h : acquireBlocks fs n v random = some (bs, v', random')) :
    bs.length ≤ n := by
  obtain ⟨ps, hps⟩ := acquireBlocks_spec h
  exact hps.marked.trans hps.calls

end Acquire

/-! ### The pointers of an entry -/

/-- The pointers from tuple `i` on, set to the given blocks. -/
def setPtrs (map : Mem) (entry : ℕ) : ℕ → List ℕ → Mem
  | _, [] => map
  | i, b :: bs => setPtrs (setTuplePtr map entry i b) entry (i + 1) bs

section Pointers

variable {map : Mem} {entry i j n b : ℕ} {bs : List ℕ}

theorem carrierPtr_setTuplePtr (hb : b < 2 ^ 32) : carrierPtr (setTuplePtr map entry i b) entry i = b :=
  le_putLe_of_lt hb

theorem setTuplePtr_out (h : j < entry + 6 * i ∨ entry + 6 * i + 4 ≤ j) :
    setTuplePtr map entry i b j = map j :=
  putLe_out h

theorem setPtrs_out
    (h : ∀ t < bs.length, j < entry + 6 * (i + t) ∨ entry + 6 * (i + t) + 4 ≤ j) :
    setPtrs map entry i bs j = map j := by
  induction bs generalizing map i with
  | nil => rfl
  | cons b bs ih =>
    have h0 := h 0 (by simp)
    simp only [Nat.add_zero] at h0
    rw [setPtrs, ih fun t ht => ?_, setTuplePtr_out h0]
    have := h (t + 1) (by simpa using ht)
    rwa [show i + (t + 1) = i + 1 + t by omega] at this

theorem carrierPtr_setPtrs_out (h : j < i ∨ i + bs.length ≤ j) :
    carrierPtr (setPtrs map entry i bs) entry j = carrierPtr map entry j :=
  le_congr fun t _ => setPtrs_out fun s _ => by omega

theorem carrierPtr_setPtrs (hj : bs[j]? = some b) (hb : b < 2 ^ 32) :
    carrierPtr (setPtrs map entry i bs) entry (i + j) = b := by
  induction bs generalizing map i j with
  | nil => simp at hj
  | cons c bs ih =>
    cases j with
    | zero =>
      simp only [List.getElem?_cons_zero, Option.some.injEq] at hj
      subst hj
      simp only [setPtrs, Nat.add_zero]
      rw [carrierPtr_setPtrs_out (Or.inl (Nat.lt_add_one i)), carrierPtr_setTuplePtr hb]
    | succ j =>
      rw [setPtrs, show i + (j + 1) = i + 1 + j by omega]
      exact ih hj

theorem setPtrs_append (cs : List ℕ) :
    setPtrs map entry i (bs ++ cs) = setPtrs (setPtrs map entry i bs) entry (i + bs.length) cs := by
  induction bs generalizing map i with
  | nil => rfl
  | cons b bs ih =>
    rw [List.cons_append, setPtrs, setPtrs, ih, List.length_cons,
      show i + 1 + bs.length = i + (bs.length + 1) by omega]

end Pointers

/-! ### The loops over the carriers -/

/-- What a round of `afs_write_request` or `rebuild_blocks` does when it acquires a block: `u` is
what it does to the request, next to the block number. -/
def acquireCarrier (u : ℕ → AfsMapRequest → AfsMapRequest) (i : ℕ)
    (s : AfsPrivate × AfsMapRequest) : Option (Flow (AfsPrivate × AfsMapRequest)) := do
  let (blockNum, ctx) ← acquire s.1
  if blockNum = afsInvalidBlock then some (.ret (-28) (ctx, s.2))
  else some (.next ({ ctx with afsMap := setTuplePtr ctx.afsMap s.2.mapEntry i blockNum },
    u i { s.2 with blockNums := Function.update s.2.blockNums i blockNum }))

/-- The copy of the data block over carrier `i`. -/
def copyCarrier (i : ℕ) (req : AfsMapRequest) : AfsMapRequest :=
  { req with
    carrierBlocks := Function.update req.carrierBlocks i
      (blit (req.carrierBlocks i) 0 req.dataBlock 0 4096) }

/-- The request after rounds that acquired the given blocks. -/
def takeBlocks (u : ℕ → AfsMapRequest → AfsMapRequest) : ℕ → List ℕ → AfsMapRequest → AfsMapRequest
  | _, [], req => req
  | i, b :: bs, req =>
    takeBlocks u (i + 1) bs (u i { req with blockNums := Function.update req.blockNums i b })

theorem mapCarrier_false : mapCarrier false = acquireCarrier fun _ req => req := rfl

theorem remapCarrier_eq : remapCarrier = acquireCarrier copyCarrier := rfl

section Loops

variable {u : ℕ → AfsMapRequest → AfsMapRequest} {ctx : AfsPrivate} {req : AfsMapRequest} {i n : ℕ}

/-- **The loop that acquires the carriers.** -/
theorem forLoop_acquireCarrier (hu : ∀ i req, (u i req).mapEntry = req.mapEntry) (n i : ℕ)
    (ctx : AfsPrivate) (req : AfsMapRequest) :
    forLoop (acquireCarrier u) n i (ctx, req) =
      (acquireBlocks ctx.passiveFs n ctx.vector ctx.random).map fun r =>
        let s : AfsPrivate × AfsMapRequest := ({ ctx with
          vector := r.2.1
          random := r.2.2
          afsMap := setPtrs ctx.afsMap req.mapEntry i r.1 }, takeBlocks u i r.1 req)
        if r.1.length = n then .next s else .ret (-28) s := by
  induction n generalizing i ctx req with
  | zero => simp [forLoop, acquireBlocks, setPtrs, takeBlocks]
  | succ n ih =>
    rw [forLoop, acquireCarrier, acquire, acquireBlocks]
    cases acquireBlock ctx.passiveFs ctx.vector ctx.random with
    | none => rfl
    | some r =>
      obtain ⟨b, v, random⟩ := r
      simp only [Option.map_some, Option.bind_eq_bind, Option.bind_some]
      split_ifs with hb
      · simp [setPtrs, takeBlocks]
      · simp only [ih, hu]
        cases acquireBlocks ctx.passiveFs n v random with
        | none => rfl
        | some r => simp [setPtrs, takeBlocks]

/-- The numbers of the acquired blocks, from carrier `i` on. -/
def setNums (nums : ℕ → ℕ) : ℕ → List ℕ → ℕ → ℕ
  | _, [] => nums
  | i, b :: bs => setNums (Function.update nums i b) (i + 1) bs

theorem takeBlocks_id (i : ℕ) (bs : List ℕ) (req : AfsMapRequest) :
    takeBlocks (fun _ req => req) i bs req =
      { req with blockNums := setNums req.blockNums i bs } := by
  induction bs generalizing i req with
  | nil => rfl
  | cons b bs ih => rw [takeBlocks, ih, setNums]

theorem setNums_out {nums : ℕ → ℕ} {bs : List ℕ} {j : ℕ} (h : j < i) :
    setNums nums i bs j = nums j := by
  induction bs generalizing nums i with
  | nil => rfl
  | cons b bs ih => rw [setNums, ih (by omega), Function.update_of_ne (by omega)]

theorem setNums_eq {nums : ℕ → ℕ} {bs : List ℕ} {j b : ℕ} (h : bs[j]? = some b) :
    setNums nums i bs (i + j) = b := by
  induction bs generalizing nums i j with
  | nil => simp at h
  | cons c bs ih =>
    cases j with
    | zero =>
      simp only [List.getElem?_cons_zero, Option.some.injEq] at h
      simp only [setNums, Nat.add_zero]
      rw [setNums_out (Nat.lt_add_one i), Function.update_self, h]
    | succ j =>
      rw [setNums, show i + (j + 1) = i + 1 + j by omega]
      exact ih h

theorem takeBlocks_copyCarrier (i : ℕ) (bs : List ℕ) (req : AfsMapRequest) :
    takeBlocks copyCarrier i bs req =
      { req with
        blockNums := setNums req.blockNums i bs
        carrierBlocks := fun j => if i ≤ j ∧ j < i + bs.length then
          blit (req.carrierBlocks j) 0 req.dataBlock 0 4096 else req.carrierBlocks j } := by
  induction bs generalizing i req with
  | nil =>
    have : ∀ j, ¬ (i ≤ j ∧ j < i) := fun j h => by omega
    simp [takeBlocks, setNums, this]
  | cons b bs ih =>
    rw [takeBlocks, ih, setNums]
    simp only [copyCarrier, AfsMapRequest.mk.injEq, and_true]
    funext j
    simp only [List.length_cons]
    rcases Nat.lt_trichotomy j i with h | rfl | h
    · rw [if_neg (by omega), if_neg (by omega), Function.update_of_ne (by omega)]
    · rw [if_neg (by omega), if_pos (by omega), Function.update_self]
    · rw [Function.update_of_ne (by omega)]
      congr 1
      simp only [eq_iff_iff]
      omega

theorem forLoop_mapCarrier_true (n i : ℕ) (ctx : AfsPrivate) (req : AfsMapRequest)
    (h : ∀ j, i ≤ j → j < i + n → carrierPtr ctx.afsMap req.mapEntry j ≠ afsInvalidBlock) :
    forLoop (mapCarrier true) n i (ctx, req) = some (.next (ctx, { req with
      blockNums := fun j => if i ≤ j ∧ j < i + n then carrierPtr ctx.afsMap req.mapEntry j
        else req.blockNums j })) := by
  induction n generalizing i req with
  | zero =>
    have : ∀ j, ¬ (i ≤ j ∧ j < i) := fun j h => by omega
    simp [forLoop, this]
  | succ n ih =>
    have hself : setTuplePtr ctx.afsMap req.mapEntry i (carrierPtr ctx.afsMap req.mapEntry i) =
        ctx.afsMap := putLe_le _ _ _
    rw [forLoop, mapCarrier]
    simp only [if_true, Option.bind_eq_bind, Option.bind_some, h i (le_refl i) (by omega),
      if_false, hself]
    generalize hnums : Function.update req.blockNums i (carrierPtr ctx.afsMap req.mapEntry i) = nums
    rw [ih (i + 1) { req with blockNums := nums } fun j hj hj' => h j (by omega) (by omega)]
    simp only [Option.some.injEq, Flow.next.injEq, Prod.mk.injEq, true_and,
      AfsMapRequest.mk.injEq, and_true]
    funext j
    subst hnums
    rcases Nat.lt_trichotomy j i with hj | rfl | hj
    · rw [if_neg (by omega), if_neg (by omega), Function.update_of_ne (by omega)]
    · rw [if_neg (by omega), if_pos (by omega), Function.update_self]
    · rw [Function.update_of_ne (by omega)]
      congr 1
      simp only [eq_iff_iff]
      omega

/-- The loop over an entry with an invalid pointer fails. It leaves the context, and of the request
all but the block numbers. -/
theorem forLoop_mapCarrier_true_ret (n i : ℕ) (ctx : AfsPrivate) (req : AfsMapRequest)
    (h : ∃ j, i ≤ j ∧ j < i + n ∧ carrierPtr ctx.afsMap req.mapEntry j = afsInvalidBlock) :
    ∃ blockNums, forLoop (mapCarrier true) n i (ctx, req) =
      some (.ret (-28) (ctx, { req with blockNums })) := by
  induction n generalizing i req with
  | zero => obtain ⟨j, h1, h2, -⟩ := h; omega
  | succ n ih =>
    have hself : setTuplePtr ctx.afsMap req.mapEntry i (carrierPtr ctx.afsMap req.mapEntry i) =
        ctx.afsMap := putLe_le _ _ _
    rw [forLoop, mapCarrier]
    simp only [if_true, Option.bind_eq_bind, Option.bind_some, hself]
    by_cases hi : carrierPtr ctx.afsMap req.mapEntry i = afsInvalidBlock
    · exact ⟨req.blockNums, by rw [if_pos hi]⟩
    · obtain ⟨j, h1, h2, hj⟩ := h
      have hne : i ≠ j := fun e => hi (e ▸ hj)
      generalize hnums : Function.update req.blockNums i (carrierPtr ctx.afsMap req.mapEntry i) = nums
      rw [if_neg hi]
      exact ih (i + 1) { req with blockNums := nums } ⟨j, by omega, by omega, hj⟩

end Loops

/-! ### What the encoder changes -/

theorem encodeRequest_frame {k : Kernel} {g : GfCtx} {e : Entropy} {ctx ctx' : AfsPrivate}
    {req req' : AfsMapRequest} (h : encodeRequest k g e ctx req = some (ctx', req')) :
    ∃ map encoder carrierBlocks, ctx' = { ctx with afsMap := map } ∧
      req' = { req with encoder, carrierBlocks } ∧
      ∀ j, j < mapEntryDifference ctx req ∨ mapEntryDifference ctx req + 32 ≤ j →
        map j = ctx.afsMap j := by
  unfold encodeRequest at h
  split at h
  · simp only [Option.bind_eq_bind, Option.bind_eq_some_iff, Option.some.injEq,
      Prod.mk.injEq] at h
    obtain ⟨encoder, -, rfl, rfl⟩ := h
    exact ⟨ctx.afsMap, _, _, rfl, rfl, fun _ _ => rfl⟩
  · simp only [Option.some.injEq, Prod.mk.injEq] at h
    obtain ⟨rfl, rfl⟩ := h
    exact ⟨_, _, _, rfl, rfl, fun j hj => blit_out hj⟩
  · simp only [Option.some.injEq, Prod.mk.injEq] at h
    obtain ⟨rfl, rfl⟩ := h
    exact ⟨ctx.afsMap, _, _, rfl, rfl, fun _ _ => rfl⟩

theorem encodeRequest_carrierPtr {k : Kernel} {g : GfCtx} {e : Entropy} {ctx ctx' : AfsPrivate}
    {req req' : AfsMapRequest} (h : encodeRequest k g e ctx req = some (ctx', req')) {i : ℕ}
    (hi : i < ctx.config.numCarrierBlocks) :
    carrierPtr ctx'.afsMap req.mapEntry i = carrierPtr ctx.afsMap req.mapEntry i := by
  obtain ⟨map, _, _, rfl, -, hout⟩ := encodeRequest_frame h
  refine le_congr fun j hj => hout _ ?_
  unfold mapEntryDifference
  omega

/-! ### All that the pieces before `write_pages` can do -/

section Cases

variable {k : Kernel} {g : GfCtx} {e : Entropy} {ctx ctx₁ : AfsPrivate} {req req₁ : AfsMapRequest}
  {f : Flow (AfsPrivate × AfsMapRequest)}

/-- The context and the request after blocks were acquired for the carriers of an entry. -/
def acquiredState (ctx : AfsPrivate) (req : AfsMapRequest) (bs : List ℕ) (vector : BitVector)
    (random : List ℕ) : AfsPrivate × AfsMapRequest :=
  ({ ctx with vector, random, afsMap := setPtrs ctx.afsMap req.mapEntry 0 bs },
    { req with blockNums := setNums req.blockNums 0 bs })

/-- The request after the pointers of its entry were taken. -/
def takenState (ctx : AfsPrivate) (req : AfsMapRequest) : AfsPrivate × AfsMapRequest :=
  (ctx, { req with
    blockNums := fun j => if j < ctx.config.numCarrierBlocks then
      carrierPtr ctx.afsMap req.mapEntry j else req.blockNums j })

/-- **A write before `write_pages`**: it is refused, or it is encoded and then takes the pointers
of a mapped entry, or acquires blocks for one that is not mapped. -/
theorem writeRequestMap_cases (h : writeRequestMap k g e ctx req = some f) :
    (req.state ≠ .flight ∧ f = .ret (-22) (ctx, req)) ∨
    (req.state = .flight ∧ ∃ ctx₁ req₁,
      encodeRequest k g e ctx (loadRequest ctx req) = some (ctx₁, req₁) ∧
      ((carrierPtr ctx.afsMap (loadRequest ctx req).mapEntry 0 ≠ afsInvalidBlock ∧
        (((∀ j < ctx.config.numCarrierBlocks,
            carrierPtr ctx.afsMap (loadRequest ctx req).mapEntry j ≠ afsInvalidBlock) ∧
          f = .next (takenState ctx₁ req₁)) ∨
        (∃ j < ctx.config.numCarrierBlocks,
            carrierPtr ctx.afsMap (loadRequest ctx req).mapEntry j = afsInvalidBlock) ∧
          ∃ blockNums, f = .ret (-28) (resetWrite ctx₁ { req₁ with blockNums }))) ∨
      (carrierPtr ctx.afsMap (loadRequest ctx req).mapEntry 0 = afsInvalidBlock ∧
        ∃ bs v random, acquireBlocks ctx.passiveFs ctx.config.numCarrierBlocks ctx.vector
            ctx.random = some (bs, v, random) ∧
          let s := acquiredState ctx₁ req₁ bs v random
          f = if bs.length = ctx.config.numCarrierBlocks then .next s
            else .ret (-28) (resetWrite s.1 s.2)))) := by
  unfold writeRequestMap at h
  by_cases hstate : req.state = .flight
  · rw [if_neg (not_not.2 hstate)] at h
    simp only [Option.bind_eq_bind, Option.bind_eq_some_iff] at h
    obtain ⟨⟨ctx₁, req₁⟩, henc, f₁, hf₁, h⟩ := h
    refine Or.inr ⟨hstate, ctx₁, req₁, henc, ?_⟩
    have hptr := fun i => encodeRequest_carrierPtr henc (i := i)
    obtain ⟨map, encoder, carriers, rfl, rfl, -⟩ := encodeRequest_frame henc
    by_cases h0 : carrierPtr ctx.afsMap (loadRequest ctx req).mapEntry 0 = afsInvalidBlock
    · refine Or.inr ⟨h0, ?_⟩
      rw [show decide (carrierPtr ctx.afsMap (loadRequest ctx req).mapEntry 0 ≠ afsInvalidBlock) =
        false by simp [h0], mapCarrier_false, forLoop_acquireCarrier fun _ _ => rfl] at hf₁
      simp only [Option.map_eq_some_iff] at hf₁
      obtain ⟨⟨bs, v, random⟩, hacq, rfl⟩ := hf₁
      refine ⟨bs, v, random, hacq, ?_⟩
      simp only [takeBlocks_id] at h
      split_ifs at h ⊢ with hlen
      · simp only [Option.some.injEq] at h
        exact h.symm
      · simp only [Option.some.injEq] at h
        exact h.symm
    · refine Or.inl ⟨h0, ?_⟩
      rw [show decide (carrierPtr ctx.afsMap (loadRequest ctx req).mapEntry 0 ≠ afsInvalidBlock) =
        true by simp [h0]] at hf₁
      by_cases hall : ∀ j < ctx.config.numCarrierBlocks,
          carrierPtr ctx.afsMap (loadRequest ctx req).mapEntry j ≠ afsInvalidBlock
      · refine Or.inl ⟨hall, ?_⟩
        rw [forLoop_mapCarrier_true _ _ _ _ fun j _ hj => ?_] at hf₁
        · simp only [Option.some.injEq] at hf₁
          subst hf₁
          simp only [Option.some.injEq] at h
          rw [← h, takenState]
          simp
        · rw [Nat.zero_add] at hj
          exact fun hc => hall j hj ((hptr j hj).symm.trans hc)
      · push Not at hall
        obtain ⟨j, hj, hinv⟩ := hall
        refine Or.inr ⟨⟨j, hj, hinv⟩, ?_⟩
        obtain ⟨nums, hr⟩ := forLoop_mapCarrier_true_ret ctx.config.numCarrierBlocks 0
          { ctx with afsMap := map }
          { loadRequest ctx req with encoder, carrierBlocks := carriers }
          ⟨j, Nat.zero_le j, by rwa [Nat.zero_add], (hptr j hj).trans hinv⟩
        rw [hr, Option.some.injEq] at hf₁
        subst hf₁
        simp only [Option.some.injEq] at h
        exact ⟨nums, h.symm⟩
  · rw [if_pos hstate, Option.some.injEq] at h
    exact Or.inl ⟨hstate, h.symm⟩

/-- A rebuild before it is encoded. -/
def renumberRequest (ctx : AfsPrivate) (req : AfsMapRequest) : AfsMapRequest :=
  { req with erasures := numberShares req.erasures ctx.config.numCarrierBlocks }

/-- The carriers with the data block copied over the first `n`. -/
def copyPages (carrierBlocks : ℕ → Mem) (dataBlock : Mem) (n : ℕ) : ℕ → Mem := fun j =>
  if j < n then blit (carrierBlocks j) 0 dataBlock 0 4096 else carrierBlocks j

/-- The context and the request after blocks were acquired for the carriers of a rebuild. -/
def reacquiredState (ctx : AfsPrivate) (req : AfsMapRequest) (bs : List ℕ) (vector : BitVector)
    (random : List ℕ) : AfsPrivate × AfsMapRequest :=
  ({ ctx with vector, random, afsMap := setPtrs ctx.afsMap req.mapEntry 0 bs },
    { req with
      blockNums := setNums req.blockNums 0 bs
      carrierBlocks := copyPages req.carrierBlocks req.dataBlock bs.length })

/-- **A rebuild before `write_pages`**: it is encoded, and acquires blocks. -/
theorem rebuildBlocksMap_cases (h : rebuildBlocksMap k g e ctx req = some f) :
    ∃ ctx₁ req₁, encodeRequest k g e ctx (renumberRequest ctx req) = some (ctx₁, req₁) ∧
      ∃ bs v random, acquireBlocks ctx.passiveFs ctx.config.numCarrierBlocks ctx.vector
          ctx.random = some (bs, v, random) ∧
        let s := reacquiredState ctx₁ req₁ bs v random
        f = if bs.length = ctx.config.numCarrierBlocks then .next s
          else .ret (-28) (resetRebuild s.1 s.2) := by
  unfold rebuildBlocksMap at h
  simp only [Option.bind_eq_bind, Option.bind_eq_some_iff] at h
  obtain ⟨⟨ctx₁, req₁⟩, henc, f₁, hf₁, h⟩ := h
  refine ⟨ctx₁, req₁, henc, ?_⟩
  obtain ⟨map, encoder, carriers, rfl, rfl, -⟩ := encodeRequest_frame henc
  have hu : ∀ i req, (copyCarrier i req).mapEntry = req.mapEntry := fun _ _ => rfl
  rw [remapCarrier_eq, forLoop_acquireCarrier hu] at hf₁
  simp only [Option.map_eq_some_iff] at hf₁
  obtain ⟨⟨bs, v, random⟩, hacq, rfl⟩ := hf₁
  refine ⟨bs, v, random, hacq, ?_⟩
  have hcopy : (fun j => if 0 ≤ j ∧ j < 0 + bs.length then blit (carriers j) 0 req.dataBlock 0 4096
      else carriers j) = copyPages carriers req.dataBlock bs.length := by
    funext j
    simp [copyPages]
  simp only [takeBlocks_copyCarrier] at h
  rw [hcopy] at h
  split_ifs at h ⊢ with hlen
  · simp only [Option.some.injEq] at h
    exact h.symm
  · simp only [Option.some.injEq] at h
    exact h.symm

/-- **A write that goes to `write_pages`**: with the pointers of its entry, or with blocks that it
acquired. -/
theorem writeRequestMap_started {s : AfsPrivate × AfsMapRequest}
    (h : writeRequestMap k g e ctx req = some (.next s)) :
    ∃ ctx₁ req₁, encodeRequest k g e ctx (loadRequest ctx req) = some (ctx₁, req₁) ∧
      (((∀ j < ctx.config.numCarrierBlocks,
          carrierPtr ctx.afsMap (loadRequest ctx req).mapEntry j ≠ afsInvalidBlock) ∧
        carrierPtr ctx.afsMap (loadRequest ctx req).mapEntry 0 ≠ afsInvalidBlock ∧
        s = takenState ctx₁ req₁) ∨
      ∃ bs v random, acquireBlocks ctx.passiveFs ctx.config.numCarrierBlocks ctx.vector
          ctx.random = some (bs, v, random) ∧
        bs.length = ctx.config.numCarrierBlocks ∧ s = acquiredState ctx₁ req₁ bs v random) := by
  rcases writeRequestMap_cases h with ⟨-, hf⟩ | ⟨-, ctx₁, req₁, henc, hcase⟩
  · cases hf
  refine ⟨ctx₁, req₁, henc, ?_⟩
  rcases hcase with ⟨h0, ⟨hall, hf⟩ | ⟨-, _, hf⟩⟩ | ⟨-, bs, v, random, hacq, hf⟩
  · exact Or.inl ⟨hall, h0, Flow.next.inj hf⟩
  · cases hf
  · dsimp only at hf
    split_ifs at hf with hlen
    exact Or.inr ⟨bs, v, random, hacq, hlen, Flow.next.inj hf⟩

/-- **A rebuild that goes to `write_pages`** has acquired its blocks. -/
theorem rebuildBlocksMap_started {s : AfsPrivate × AfsMapRequest}
    (h : rebuildBlocksMap k g e ctx req = some (.next s)) :
    ∃ ctx₁ req₁, encodeRequest k g e ctx (renumberRequest ctx req) = some (ctx₁, req₁) ∧
      ∃ bs v random, acquireBlocks ctx.passiveFs ctx.config.numCarrierBlocks ctx.vector
          ctx.random = some (bs, v, random) ∧
        bs.length = ctx.config.numCarrierBlocks ∧ s = reacquiredState ctx₁ req₁ bs v random := by
  obtain ⟨ctx₁, req₁, henc, bs, v, random, hacq, hf⟩ := rebuildBlocksMap_cases h
  dsimp only at hf
  split_ifs at hf with hlen
  exact ⟨ctx₁, req₁, henc, bs, v, random, hacq, hlen, Flow.next.inj hf⟩

end Cases

/-! ### What `reset_entry` leaves -/

section Reset

variable {ctx : AfsPrivate} {entry n i : ℕ}

theorem allocationFree_bits (v : BitVector) (p q : ℕ) :
    (allocationFree v p).bits q = (v.bits q && !decide (q = p ∧ p ≤ v.length)) := by
  unfold allocationFree bitVectorClear
  split_ifs with h
  · simp [Nat.not_le.2 h]
  · by_cases hq : q = p
    · subst hq
      simp [Nat.not_lt.1 h]
    · simp [hq]

theorem allocationFree_length (v : BitVector) (p : ℕ) : (allocationFree v p).length = v.length := by
  unfold allocationFree bitVectorClear
  split_ifs <;> rfl

theorem resetEntry_eq (ctx : AfsPrivate) (entry n : ℕ) :
    ∃ v : BitVector, resetEntry ctx entry n =
        { ctx with
          vector := v
          afsMap := setPtrs ctx.afsMap entry 0 (List.replicate n afsInvalidBlock) } ∧
      v.length = ctx.vector.length ∧
      ∀ q, v.bits q = true ↔ ctx.vector.bits q = true ∧
        ¬ (q ≤ ctx.vector.length ∧ q ≠ afsInvalidBlock ∧ ∃ i < n, carrierPtr ctx.afsMap entry i = q) := by
  induction n with
  | zero => exact ⟨ctx.vector, rfl, rfl, by simp⟩
  | succ n ih =>
    obtain ⟨v, he, hl, hb⟩ := ih
    have hptr : carrierPtr (setPtrs ctx.afsMap entry 0 (List.replicate n afsInvalidBlock)) entry n =
        carrierPtr ctx.afsMap entry n := carrierPtr_setPtrs_out (Or.inr (by simp))
    have hmap : setTuplePtr (setPtrs ctx.afsMap entry 0 (List.replicate n afsInvalidBlock)) entry n
        afsInvalidBlock = setPtrs ctx.afsMap entry 0 (List.replicate (n + 1) afsInvalidBlock) := by
      rw [List.replicate_succ', setPtrs_append]
      simp [setPtrs]
    refine ⟨_, by rw [resetEntry, he]; simp only [hptr, hmap]; rfl, ?_, fun q => ?_⟩
    · split_ifs
      · rw [allocationFree_length, hl]
      · exact hl
    · split_ifs with hi
      · rw [allocationFree_bits, Bool.and_eq_true, hb, Bool.not_eq_true', decide_eq_false_iff_not,
          hl]
        constructor
        · rintro ⟨⟨h1, h2⟩, h3⟩
          refine ⟨h1, fun ⟨h4, h5, i, hin, h6⟩ => ?_⟩
          rcases Nat.lt_succ_iff_lt_or_eq.1 hin with hin | rfl
          · exact h2 ⟨h4, h5, i, hin, h6⟩
          · exact h3 ⟨h6.symm, h6 ▸ h4⟩
        · rintro ⟨h1, h2⟩
          refine ⟨⟨h1, fun ⟨h4, h5, i, hin, h6⟩ => h2 ⟨h4, h5, i, by omega, h6⟩⟩, ?_⟩
          rintro ⟨rfl, h4⟩
          exact h2 ⟨h4, hi, n, by omega, rfl⟩
      · rw [hb]
        constructor
        · rintro ⟨h1, h2⟩
          refine ⟨h1, fun ⟨h4, h5, i, hin, h6⟩ => ?_⟩
          rcases Nat.lt_succ_iff_lt_or_eq.1 hin with hin | rfl
          · exact h2 ⟨h4, h5, i, hin, h6⟩
          · exact h5 (h6.symm.trans (not_not.1 hi))
        · rintro ⟨h1, h2⟩
          exact ⟨h1, fun ⟨h4, h5, i, hin, h6⟩ => h2 ⟨h4, h5, i, by omega, h6⟩⟩

end Reset

end Artifice
