import Artifice.Engine.Alone
import Artifice.Engine.Create

/-!
One session of a device: requests one after another, from the constructor on.

The abstract device is a store of blocks, which a write updates and a read leaves. An instance
refines it: between any two requests it holds the store, and every read is answered from it.
-/

namespace Artifice

open Lib

/-- A block with the range of a bio replaced by its data. -/
def spliced (d : Mem) (bio : Bio) : Mem := fun i =>
  if bio.biSector % 8 * 512 ≤ i ∧ i < bio.biSector % 8 * 512 + bio.biSize then
    segmentByte bio.biIoVec (i - bio.biSector % 8 * 512) else d i

/-- A request that ran alone and without a failure, from `afs_map` to its end. -/
structure Served (k : Kernel) (g : GfCtx) (ctx : AfsPrivate) (fresh : AfsMapRequest) (bio : Bio)
    (ctx' : AfsPrivate) (l : Life) : Prop where
  run : ∃ l₀ acts, afsMap [] true fresh ctx bio = some (.submitted, l₀) ∧
    Runs k g ctx l₀ acts ctx' l ∧ ∀ a ∈ acts, a.Smooth
  quiet : l.Quiet

section

variable {k : Kernel} {g : GfCtx} {ctx ctx' : AfsPrivate} {l : Life} {bio : Bio} {d : Mem}
  {store : ℕ → Mem} {fresh : AfsMapRequest} {i b : ℕ}

theorem afsMap_inBlock (hbio : bio.InBlock) (hop : bio.biOp = .read ∨ bio.biOp = .write)
    (fresh : AfsMapRequest) (ctx : AfsPrivate) :
    afsMap [] true fresh ctx bio =
      some (.submitted, newLife (mapRequest fresh ctx bio) .flightq) := by
  unfold afsMap
  rw [acceptPartialBio_eq hbio.range]
  simp only [not_true_eq_false, if_false]
  rcases hop with h | h <;> simp only [h]

theorem Served.runs (h : Served k g ctx fresh bio ctx' l) (hbio : bio.InBlock)
    (hop : bio.biOp = .read ∨ bio.biOp = .write) :
    ∃ acts, Runs k g ctx (newLife (mapRequest fresh ctx bio) .flightq) acts ctx' l ∧
      ∀ a ∈ acts, a.Smooth := by
  obtain ⟨l₀, acts, hmap, hr, hs⟩ := h.run
  rw [afsMap_inBlock hbio hop, Option.some.injEq, Prod.mk.injEq] at hmap
  obtain ⟨-, rfl⟩ := hmap
  exact ⟨acts, hr, hs⟩

theorem dataBlock_loadRequest (hbio : bio.InBlock) :
    (loadRequest ctx (flightRequest fresh ctx bio)).dataBlock = spliced fresh.dataBlock bio := by
  have hsize := hbio.requestSize fresh ctx
  have hseg := hbio.segments
  funext i
  have hload : (loadRequest ctx (flightRequest fresh ctx bio)).dataBlock i =
      copyFromSegments (bio.biSector % 8 * 512) bio.biSize bio.biSize 0 bio.biIoVec
        fresh.dataBlock i := by
    simp only [loadRequest, hsize]
    rfl
  rw [hload, spliced]
  split_ifs with hr
  · obtain ⟨t, rfl⟩ : ∃ t, i = bio.biSector % 8 * 512 + t := ⟨i - bio.biSector % 8 * 512, by omega⟩
    have hin : copyFromSegments (bio.biSector % 8 * 512) bio.biSize bio.biSize 0 bio.biIoVec
        fresh.dataBlock (bio.biSector % 8 * 512 + 0 + t) = segmentByte bio.biIoVec t :=
      copyFromSegments_in (Nat.zero_add _) hseg (by omega)
    rw [Nat.add_zero] at hin
    rw [hin, Nat.add_sub_cancel_left]
  · exact copyFromSegments_out (Nat.zero_add _) (by omega)

theorem Holds.congr (h : Holds k ctx store) {store' : ℕ → Mem}
    (hs : ∀ b, Agree (store b) 0 (store' b) 0 4096) : Holds k ctx store' :=
  ⟨h.instance_, h.placed, fun b hb => (h.content b hb).agree (hs b)⟩

/-- **A write that was not refused** has mapped its carriers, and all of them were written. -/
theorem Served.written (hs : Served k g ctx fresh bio ctx' l) (hw : l.Written)
    (hi : Instance ctx) (hp : Placed ctx) (hk : ∀ n, k.kmalloc n = true) (hbio : bio.InBlock)
    (hop : bio.biOp = .write) (hb : bio.biSector / 8 < ctx.config.numBlocks) :
    ∃ s l₂ ctx₂, Mapped ctx (bio.biSector / 8) s ∧ Writing s.1 s.2 ctx₂ l₂ ∧
      (∀ j < 4, l₂.Arrived j) ∧ ctx' = writtenContext s ctx₂ ∧ l = afsReqClean l₂ ∧
      Agree (carriersData k ctx.encodingType (ivWords ctx.passphraseHash) shareNumbers
        s.2.carrierBlocks) 0 (spliced fresh.dataBlock bio) 0 4096 := by
  have hlt := hi.config.blocks
  have hblock : (flightRequest fresh ctx bio).block = bio.biSector / 8 :=
    block_flightRequest (by omega)
  have hmapped : ∀ e s, writeRequestMap k g e ctx (flightRequest fresh ctx bio) = some (.next s) →
      Mapped ctx (bio.biSector / 8) s ∧ Agree (carriersData k ctx.encodingType
        (ivWords ctx.passphraseHash) shareNumbers s.2.carrierBlocks) 0
        (spliced fresh.dataBlock bio) 0 4096 := by
    intro e s hmap
    obtain ⟨hm, hdata, -⟩ := writeRequestMap_mapped hi hp hk hb (by rw [hblock]) rfl hmap
    rw [ivWords_flightRequest, dataBlock_loadRequest hbio] at hdata
    exact ⟨hm, hdata⟩
  obtain ⟨acts, hr, hsm⟩ := hs.runs hbio (Or.inr hop)
  rcases write_run hr hsm hi.carriers hop rfl
    (fun e s hmap => (hmapped e s hmap).1.pagesApart hi hb) hs.quiet with
    ⟨e, s, hmap, l₂, ctx₂, hwr, harr, rfl, rfl⟩ | ⟨e, code, s, hmap, rfl, rfl⟩
  · obtain ⟨hm, hdata⟩ := hmapped e s hmap
    exact ⟨s, l₂, ctx₂, hm, hwr, harr, rfl, rfl, hdata⟩
  · -- a write that is refused submits no carrier
    have := hw 0 (by norm_num)
    simp [afsReqClean, newLife] at this

/-- **A write** puts what it encodes in its block, and leaves the others. -/
theorem Holds.write (h : Holds k ctx store) (hk : ∀ n, k.kmalloc n = true) (hbio : bio.InBlock)
    (hop : bio.biOp = .write) (hb : bio.biSector / 8 < ctx.config.numBlocks)
    (hs : Served k g ctx fresh bio ctx' l) (hw : l.Written) :
    Holds k ctx' (Function.update store (bio.biSector / 8) (spliced fresh.dataBlock bio)) := by
  obtain ⟨s, l₂, ctx₂, hm, hwr, harr, rfl, -, hdata⟩ :=
    hs.written hw h.instance_ h.placed hk hbio hop hb
  exact h.written hm hwr harr hb hdata

/-- **A read** is answered from the store, and leaves it. -/
theorem Holds.read (h : Holds k ctx store) (hk : ∀ n, k.kmalloc n = true) (hbio : bio.InBlock)
    (hop : bio.biOp = .read) (hb : bio.biSector / 8 < ctx.config.numBlocks)
    (hs : Served k g ctx fresh bio ctx' l) :
    (∀ i < bio.biSize, l.answer i = store (bio.biSector / 8) (bio.biSector % 8 * 512 + i)) ∧
      Holds k ctx' store := by
  obtain ⟨acts, hr, hsm⟩ := hs.runs hbio (Or.inl hop)
  obtain ⟨hans, map, rfl, htup⟩ := read_run h.instance_ hk hbio hop hb (h.content _ hb) hr hsm
    hs.quiet
  exact ⟨hans, h.of_sameTuples hb htup⟩

theorem Holds.read_exists (h : Holds k ctx store) (hk : ∀ n, k.kmalloc n = true)
    (hbio : bio.InBlock) (hop : bio.biOp = .read) (hb : bio.biSector / 8 < ctx.config.numBlocks)
    (g : GfCtx) (fresh : AfsMapRequest) : ∃ ctx' l, Served k g ctx fresh bio ctx' l := by
  obtain ⟨acts, ctx', l, hr, hs, hq⟩ := Artifice.read_exists (g := g) h.instance_ hk hop hb
    (h.content _ hb) fresh
  exact ⟨ctx', l, ⟨_, acts, afsMap_inBlock hbio (Or.inl hop) fresh ctx, hr, hs⟩, hq⟩

theorem Holds.write_exists (h : Holds k ctx store) (hk : ∀ n, k.kmalloc n = true)
    (hbio : bio.InBlock) (hop : bio.biOp = .write) (hb : bio.biSector / 8 < ctx.config.numBlocks)
    (hcan : CanMap ctx (afsGetMapEntry ctx.config (bio.biSector / 8))) (g : GfCtx)
    (fresh : AfsMapRequest) : ∃ ctx' l, Served k g ctx fresh bio ctx' l ∧ l.Written := by
  obtain ⟨acts, ctx', l, hr, hs, hq, hw⟩ := Artifice.write_exists h.instance_ h.placed hk hop hb
    hcan fresh g zeroEntropy
  exact ⟨ctx', l, ⟨⟨_, _, afsMap_inBlock hbio (Or.inr hop) fresh ctx, hr, hs⟩, hq⟩, hw⟩

end

/-! ### Sessions -/

/-- A request of a session: its bio, and its life when it has finished. -/
structure Done where
  bio : Bio
  life : Life

/-- The bio covers a whole block. -/
def Bio.Whole (bio : Bio) : Prop := bio.biSector % 8 = 0 ∧ bio.biSize = 4096

/-- A session: whole-block writes and reads inside of one block, each of which has finished before
the next one starts. -/
inductive Session (k : Kernel) (g : GfCtx) (ctx₀ : AfsPrivate) : List Done → AfsPrivate → Prop
  | start : Session k g ctx₀ [] ctx₀
  | write {done ctx fresh bio ctx' l} (before : Session k g ctx₀ done ctx)
      (ok : bio.InBlock) (op : bio.biOp = .write) (whole : bio.Whole)
      (block : bio.biSector / 8 < ctx.config.numBlocks)
      (served : Served k g ctx fresh bio ctx' l) (written : l.Written) :
      Session k g ctx₀ (done ++ [⟨bio, l⟩]) ctx'
  | read {done ctx fresh bio ctx' l} (before : Session k g ctx₀ done ctx)
      (ok : bio.InBlock) (op : bio.biOp = .read)
      (block : bio.biSector / 8 < ctx.config.numBlocks)
      (served : Served k g ctx fresh bio ctx' l) :
      Session k g ctx₀ (done ++ [⟨bio, l⟩]) ctx'

/-- The abstract device: a write replaces its block. -/
def deviceStep (store : ℕ → Mem) (r : Done) : ℕ → Mem :=
  if r.bio.biOp = .write then
    Function.update store (r.bio.biSector / 8) (segmentByte r.bio.biIoVec) else store

/-- What was last written to every block; zeros if nothing was. -/
def lastWrite (done : List Done) : ℕ → Mem := done.foldl deviceStep fun _ _ => 0

/-- A read returned the bytes of its range. -/
def Answered (store : ℕ → Mem) (r : Done) : Prop :=
  ∀ i < r.bio.biSize, r.life.answer i =
    store (r.bio.biSector / 8) (r.bio.biSector % 8 * 512 + i)

section

variable {k : Kernel} {g : GfCtx} {ctx₀ ctx : AfsPrivate} {bio : Bio} {done : List Done} {b : ℕ}

theorem Session.sameInstance (h : Session k g ctx₀ done ctx) : SameInstance ctx₀ ctx := by
  induction h with
  | start => exact SameInstance.refl ctx₀
  | write _ _ _ _ _ served _ ih =>
    obtain ⟨_, _, -, hr, -⟩ := served.run
    exact ih.trans hr.sameInstance
  | read _ _ _ _ served ih =>
    obtain ⟨_, _, -, hr, -⟩ := served.run
    exact ih.trans hr.sameInstance

theorem lastWrite_append (r : Done) :
    lastWrite (done ++ [r]) = deviceStep (lastWrite done) r := by
  rw [lastWrite, List.foldl_append]
  rfl

theorem agree_spliced_whole (hw : bio.Whole) (d : Mem) :
    Agree (spliced d bio) 0 (segmentByte bio.biIoVec) 0 4096 := by
  intro i hi
  rw [spliced, hw.1, hw.2, if_pos (by omega)]
  rfl

/-- **A session refines the device**: the instance holds what was last written, and every read was
answered with it. -/
theorem Session.holds (h : Session k g ctx₀ done ctx) (hk : ∀ n, k.kmalloc n = true)
    (h0 : Holds k ctx₀ fun _ _ => 0) :
    Holds k ctx (lastWrite done) ∧ ∀ pre r post, done = pre ++ r :: post → r.bio.biOp = .read →
      Answered (lastWrite pre) r := by
  -- a request at the end of a longer session, or one that was there before
  have hend : ∀ {done pre post : List Done} {r r' : Done}, done ++ [r] = pre ++ r' :: post →
      (done = pre ∧ r = r') ∨ ∃ post', done = pre ++ r' :: post' := by
    intro done pre post r r' heq
    rcases List.eq_nil_or_concat post with rfl | ⟨post', x, rfl⟩
    · exact Or.inl ⟨(List.append_inj' heq rfl).1, by simpa using (List.append_inj' heq rfl).2⟩
    · refine Or.inr ⟨post', ?_⟩
      rw [List.concat_eq_append, ← List.cons_append, ← List.append_assoc] at heq
      exact (List.append_inj' heq rfl).1
  induction h with
  | start => exact ⟨h0, by simp⟩
  | @write done ctx fresh bio ctx' l before ok op whole block served written ih =>
    refine ⟨?_, fun pre r post heq hr => ?_⟩
    · rw [lastWrite_append, deviceStep, if_pos op]
      refine (ih.1.write hk ok op block served written).congr fun b' => ?_
      by_cases hb : b' = bio.biSector / 8
      · subst hb
        rw [Function.update_self, Function.update_self]
        exact agree_spliced_whole whole fresh.dataBlock
      · rw [Function.update_of_ne hb, Function.update_of_ne hb]
        exact Agree.refl _ _ _
    · rcases hend heq with ⟨-, rfl⟩ | ⟨post', heq'⟩
      · rw [op] at hr
        cases hr
      · exact ih.2 pre r post' heq' hr
  | @read done ctx fresh bio ctx' l before ok op block served ih =>
    obtain ⟨hans, hholds⟩ := ih.1.read hk ok op block served
    refine ⟨?_, fun pre r post heq hr => ?_⟩
    · rw [lastWrite_append, deviceStep, if_neg (by rw [op]; exact fun h => by cases h)]
      exact hholds
    · rcases hend heq with ⟨rfl, rfl⟩ | ⟨post', heq'⟩
      · exact hans
      · exact ih.2 pre r post' heq' hr

end

/-- **An instance is a device.** After a successful `TYPE_CREATE` over an increasing free list, in
every session of whole-block writes and reads: every read has returned what was last written to its
block, or zeros; the next read of any block can finish; so can the next write that has blocks for
its carriers; and what was last written to a block is not changed by a write to another. -/
theorem session_refines_device {k : Kernel} {g : GfCtx} {rounds : ℕ} {args : AfsArgs}
    {len bdevSize : ℕ} {fs : AfsPassiveFs} {disk : Mem} {random : List ℕ} {ctx₀ ctx : AfsPrivate}
    {done : List Done} (hk : ∀ n, k.kmalloc n = true) (htype : args.instanceType = .create)
    (hinc : fs.freeList.Pairwise (· < ·))
    (hsec : ∀ b ∈ fs.freeList, 8 * b + fs.dataStartOff < 2 ^ 32)
    (hctr : afsCtr k rounds args len bdevSize fs disk random = some (.ok ctx₀))
    (h : Session k g ctx₀ done ctx) :
    (∀ pre r post, done = pre ++ r :: post → r.bio.biOp = .read → Answered (lastWrite pre) r) ∧
    (∀ bio fresh, bio.InBlock → bio.biOp = .read → bio.biSector / 8 < ctx.config.numBlocks →
      ∃ ctx' l, Served k g ctx fresh bio ctx' l) ∧
    (∀ bio fresh, bio.InBlock → bio.biOp = .write → bio.biSector / 8 < ctx.config.numBlocks →
      CanMap ctx (afsGetMapEntry ctx.config (bio.biSector / 8)) →
      ∃ ctx' l, Served k g ctx fresh bio ctx' l ∧ l.Written) ∧
    ∀ pre r post c, done = pre ++ r :: post → c ≠ r.bio.biSector / 8 →
      lastWrite (pre ++ [r]) c = lastWrite pre c := by
  obtain ⟨hinst, hunmapped⟩ := unmapped_of_create htype hinc hsec hctr
  obtain ⟨hholds, hans⟩ := h.holds hk (Holds.of_unmapped hinst hunmapped)
  refine ⟨hans, fun bio fresh hbio hop hb => hholds.read_exists hk hbio hop hb g fresh,
    fun bio fresh hbio hop hb hcan => hholds.write_exists hk hbio hop hb hcan g fresh,
    fun pre r post c _ hc => ?_⟩
  rw [lastWrite_append, deviceStep]
  split_ifs
  · exact Function.update_of_ne hc _ _
  · rfl

/-! ### A small session -/

/-- The arguments for a new instance. -/
def smallArgs : AfsArgs := ⟨fun _ => 0, fun _ => 0, .create⟩

/-- A device of 32 blocks with 12 free ones. -/
def smallFs : AfsPassiveFs := ⟨[0, 1, 2, 3, 4, 5, 6, 7, 8, 9, 10, 11], 12, 8, 32, 0, 0⟩

/-- The context of a constructor that succeeded. -/
def builtContext : Option (Except ℤ AfsPrivate) → Option AfsPrivate
  | some (.ok ctx) => some ctx
  | _ => none

theorem exists_of_builtContext {α : Type} {r : Option (Except ℤ AfsPrivate)}
    {f : AfsPrivate → α} {x : α} (h : (builtContext r).map f = some x) :
    ∃ ctx, r = some (.ok ctx) ∧ f ctx = x := by
  rcases r with _ | _ | ctx
  · cases h
  · cases h
  · exact ⟨ctx, rfl, Option.some.inj h⟩

theorem inBlock_blockBio (op : ReqOp) (b : ℕ) (page : Mem) : (blockBio op b page).InBlock := by
  refine ⟨⟨by simp [blockBio], by simp [blockBio, segmentsLen]⟩, ?_⟩
  simp only [blockBio]
  omega

/-- A new instance over it, with blocks for a first write. -/
structure SmallInstance (ctx₀ : AfsPrivate) : Prop where
  built : afsCtr (constKernel 1) 1 smallArgs 128 256 smallFs (fun _ => 0) [2, 3, 4, 5, 6] =
    some (.ok ctx₀)
  holds : Holds (constKernel 1) ctx₀ fun _ _ => 0
  canAcquire : CanAcquire ctx₀
  canMap : CanMap ctx₀ (afsGetMapEntry ctx₀.config 0)
  blocks : ctx₀.config.numBlocks = 16
  encoding : ctx₀.encodingType = .aontRs

theorem exists_smallInstance : ∃ ctx₀, SmallInstance ctx₀ := by
  have hacq : (builtContext (afsCtr (constKernel 1) 1 smallArgs 128 256 smallFs (fun _ => 0)
      [2, 3, 4, 5, 6])).map (fun ctx => ((acquireBlocks ctx.passiveFs 4 ctx.vector
        ctx.random).map (·.1), ctx.config.numBlocks, ctx.encodingType)) =
      some (some [3, 4, 5, 6], 16, .aontRs) := by
    decide +kernel
  obtain ⟨ctx₀, hctr, hacq⟩ := exists_of_builtContext hacq
  rw [Prod.mk.injEq, Prod.mk.injEq, Option.map_eq_some_iff] at hacq
  obtain ⟨⟨⟨bs, v, random⟩, hacq, hbs⟩, hblocks, henc⟩ := hacq
  obtain ⟨hinst, hunmapped⟩ := unmapped_of_create (rfl : smallArgs.instanceType = .create)
    (by decide : smallFs.freeList.Pairwise (· < ·)) (by decide) hctr
  have hcan : CanAcquire ctx₀ := by
    refine ⟨bs, v, random, ?_, ?_⟩
    · rw [hinst.carriers]
      exact hacq
    · rw [hinst.carriers, show bs = [3, 4, 5, 6] from hbs]
      rfl
  have h0 : carrierPtr ctx₀.afsMap (afsGetMapEntry ctx₀.config 0) 0 = afsInvalidBlock :=
    hunmapped 0 (by omega) 0 (by norm_num)
  refine ⟨ctx₀, hctr, Holds.of_unmapped hinst hunmapped, hcan, ?_, hblocks, henc⟩
  rw [CanMap, if_pos h0]
  exact hcan

/-- A write of the first block of a new instance, and a read of it. -/
theorem session_small :
    ∃ ctx₀ w r ctx, afsCtr (constKernel 1) 1 smallArgs 128 256 smallFs (fun _ => 0)
        [2, 3, 4, 5, 6] = some (.ok ctx₀) ∧
      Session (constKernel 1) gfContextZero ctx₀ [w, r] ctx ∧
      w.bio = blockBio .write 0 UInt8.ofNat ∧ r.bio = blockBio .read 0 (fun _ => 0) ∧
      ∀ i < 4096, r.life.answer i = UInt8.ofNat i := by
  obtain ⟨ctx₀, hctr, -, -, hcan, hblocks, -⟩ := exists_smallInstance
  have hk : ∀ n, (constKernel 1).kmalloc n = true := fun _ => rfl
  have hrefines := fun {done : List Done} {ctx : AfsPrivate}
    (h : Session (constKernel 1) gfContextZero ctx₀ done ctx) =>
      session_refines_device hk (rfl : smallArgs.instanceType = .create)
        (by decide : smallFs.freeList.Pairwise (· < ·)) (by decide) hctr h
  -- the write
  obtain ⟨ctx₁, l₁, hserved₁, hwritten⟩ := (hrefines .start).2.2.1 (blockBio .write 0 UInt8.ofNat)
    zeroRequest (inBlock_blockBio _ _ _) rfl (by rw [hblocks]; decide) hcan
  have hs₁ : Session (constKernel 1) gfContextZero ctx₀ [⟨blockBio .write 0 UInt8.ofNat, l₁⟩] ctx₁ :=
    .write .start (inBlock_blockBio _ _ _) rfl ⟨rfl, rfl⟩ (by rw [hblocks]; decide) hserved₁ hwritten
  -- the read
  have hblocks₁ : 0 < ctx₁.config.numBlocks := by
    rw [hs₁.sameInstance.config, hblocks]
    norm_num
  obtain ⟨ctx₂, l₂, hserved₂⟩ := (hrefines hs₁).2.1 (blockBio .read 0 fun _ => 0) zeroRequest
    (inBlock_blockBio _ _ _) rfl hblocks₁
  have hs₂ : Session (constKernel 1) gfContextZero ctx₀ [⟨blockBio .write 0 UInt8.ofNat, l₁⟩,
      ⟨blockBio .read 0 fun _ => 0, l₂⟩] ctx₂ :=
    .read hs₁ (inBlock_blockBio _ _ _) rfl hblocks₁ hserved₂
  refine ⟨ctx₀, _, _, ctx₂, hctr, hs₂, rfl, rfl, fun i hi => ?_⟩
  have hans := (hrefines hs₂).1 [⟨blockBio .write 0 UInt8.ofNat, l₁⟩] _ [] rfl rfl i hi
  rw [hans]
  simp only [lastWrite, List.foldl_cons, List.foldl_nil, deviceStep, blockBio, if_true]
  simp only [Nat.mul_zero, Nat.zero_div, Nat.zero_mod, Nat.zero_mul, Nat.zero_add,
    Function.update_self, segmentByte]
  rw [if_pos hi]

end Artifice
