import Artifice.Engine.Stored
import Artifice.Lib.Sorted

/-!
What an instance holds between requests.

The map says where the carriers of every block are, the vector says which positions of the free
list are taken, and the device has the pages. `Holds` ties the three to the contents of the blocks:
the carriers of all mapped blocks are at different places of the device, all of them marked, and
the four of a block decode to its content.
-/

namespace Artifice

open Lib

/-- Pointer `j` of the entry of block `b`. -/
def entryPtr (ctx : AfsPrivate) (b j : ℕ) : ℕ :=
  carrierPtr ctx.afsMap (afsGetMapEntry ctx.config b) j

/-- The page that pointer `j` of an entry points at. -/
def entryPage (ctx : AfsPrivate) (entry j : ℕ) : Mem :=
  devicePage ctx.disk ctx.passiveFs.dataStartOff (carrierPtr ctx.afsMap entry j)

/-- The entry is mapped, and its carriers hold `d`: their checksums are those of the map, and they
decode to `d`. -/
structure Stored (k : Kernel) (ctx : AfsPrivate) (entry : ℕ) (d : Mem) : Prop where
  valid : ∀ j < 4, carrierPtr ctx.afsMap entry j ≠ afsInvalidBlock
  checksum : ∀ j < 4, tupleChecksum ctx.afsMap entry j =
    (cityhash32To16 (entryPage ctx entry j) 4096).toNat
  data : Agree (carriersData k ctx.encodingType (ivWords ctx.passphraseHash) shareNumbers
    (entryPage ctx entry)) 0 d 0 4096

/-- The content of block `b`: zeros if it is not mapped. -/
def Content (k : Kernel) (ctx : AfsPrivate) (b : ℕ) (d : Mem) : Prop :=
  ((∀ j < 4, entryPtr ctx b j = afsInvalidBlock) ∧ ∀ i < 4096, d i = 0) ∨
    Stored k ctx (afsGetMapEntry ctx.config b) d

/-- The instance that the engine works on: four carriers, an encoding that has a codec, a map that
is indexed in 32 bits, and a free list that names every block once, with sectors of 32 bits. -/
structure Instance (ctx : AfsPrivate) : Prop where
  carriers : ctx.config.numCarrierBlocks = 4
  config : ctx.config.Ok
  small : 64 * ctx.config.numBlocks < 2 ^ 32
  encoding : ctx.encodingType ≠ .rsEntropy
  increasing : ctx.passiveFs.freeList.Pairwise (· < ·)
  sectors : ∀ b ∈ ctx.passiveFs.freeList, 8 * b + ctx.passiveFs.dataStartOff < 2 ^ 32

/-- The pointers of the map: at marked positions of the free list, and no two alike. -/
structure Placed (ctx : AfsPrivate) : Prop where
  marked : ∀ b < ctx.config.numBlocks, ∀ j < 4, entryPtr ctx b j ≠ afsInvalidBlock →
    ∃ p < ctx.passiveFs.listLen, ctx.passiveFs.blockList[p]? = some (entryPtr ctx b j) ∧
      ctx.vector.bits p = true
  distinct : ∀ b < ctx.config.numBlocks, ∀ b' < ctx.config.numBlocks, ∀ j < 4, ∀ j' < 4,
    entryPtr ctx b j ≠ afsInvalidBlock → entryPtr ctx b j = entryPtr ctx b' j' → b = b' ∧ j = j'

/-- **The instance holds `store`.** -/
structure Holds (k : Kernel) (ctx : AfsPrivate) (store : ℕ → Mem) : Prop where
  instance_ : Instance ctx
  placed : Placed ctx
  content : ∀ b < ctx.config.numBlocks, Content k ctx b (store b)

section

variable {k : Kernel} {g : GfCtx} {e : Entropy} {ctx ctx' : AfsPrivate} {req : AfsMapRequest}
  {entry b b' i j p q n : ℕ} {d map : Mem} {store : ℕ → Mem}

/-! ### Instances -/

theorem Instance.of_sameInstance (h : Instance ctx) (hs : SameInstance ctx ctx') :
    Instance ctx' := by
  refine ⟨?_, ?_, ?_, ?_, ?_, ?_⟩
  · rw [hs.config]
    exact h.carriers
  · rw [hs.config]
    exact h.config
  · rw [hs.config]
    exact h.small
  · rw [hs.encodingType]
    exact h.encoding
  · rw [hs.passiveFs]
    exact h.increasing
  · rw [hs.passiveFs]
    exact h.sectors

theorem Instance.mapEntrySz (h : Instance ctx) : ctx.config.mapEntrySz = 64 := by
  rw [h.config.entrySz, h.carriers]

theorem Instance.afsGetMapEntry (h : Instance ctx) (hb : b < ctx.config.numBlocks) :
    afsGetMapEntry ctx.config b = 64 * b := by
  have := h.small
  rw [Artifice.afsGetMapEntry, h.mapEntrySz, Nat.mod_eq_of_lt (by omega), Nat.mul_comm]

theorem Instance.position_inj (h : Instance ctx) (hp : p < ctx.passiveFs.listLen)
    (hq : q < ctx.passiveFs.listLen) (h1 : ctx.passiveFs.blockList[p]? = some b)
    (h2 : ctx.passiveFs.blockList[q]? = some b) : p = q := by
  obtain ⟨hpl, h1⟩ := List.getElem?_eq_some_iff.1 h1
  obtain ⟨hql, h2⟩ := List.getElem?_eq_some_iff.1 h2
  have hlen : ctx.passiveFs.freeList.length = min ctx.passiveFs.listLen
      ctx.passiveFs.blockList.length := List.length_take
  refine getElem_inj h.increasing (by omega) (by omega) ?_
  simp only [AfsPassiveFs.freeList, List.getElem_take, h1, h2]

theorem Instance.mem_freeList (hp : p < ctx.passiveFs.listLen)
    (h1 : ctx.passiveFs.blockList[p]? = some b) : b ∈ ctx.passiveFs.freeList := by
  obtain ⟨hpl, rfl⟩ := List.getElem?_eq_some_iff.1 h1
  exact List.mem_take_iff_getElem.2 ⟨p, by omega, rfl⟩

/-! ### The pages of a block -/

theorem Stored.congr (h : Stored k ctx entry d) (hs : SameInstance ctx ctx')
    (ht : Agree ctx'.afsMap entry ctx.afsMap entry 24)
    (hd : ∀ j < 4, Agree (devicePage ctx'.disk ctx.passiveFs.dataStartOff
        (carrierPtr ctx.afsMap entry j)) 0 (entryPage ctx entry j) 0 4096) : Stored k ctx' entry d := by
  have hptr : ∀ j < 4, carrierPtr ctx'.afsMap entry j = carrierPtr ctx.afsMap entry j :=
    fun j hj => le_congr (ht.sub (by omega))
  have hpage : ∀ j < 4, Agree (entryPage ctx' entry j) 0 (entryPage ctx entry j) 0 4096 := by
    intro j hj
    rw [entryPage, hptr j hj, hs.passiveFs]
    exact hd j hj
  refine ⟨fun j hj => ?_, fun j hj => ?_, ?_⟩
  · rw [hptr j hj]
    exact h.valid j hj
  · have hsum : tupleChecksum ctx'.afsMap entry j = tupleChecksum ctx.afsMap entry j := by
      have := ht.sub (j := 6 * j + 4) (k := 2) (by omega)
      rw [← Nat.add_assoc] at this
      exact le_congr this
    rw [hsum, cityhash32To16_congr (hpage j hj)]
    exact h.checksum j hj
  · rw [hs.encodingType, hs.passphraseHash]
    exact (carriersData_congr fun j hj => hpage j (by omega)).trans h.data

theorem Content.agree (h : Content k ctx b d) {d' : Mem} (hd : Agree d 0 d' 0 4096) :
    Content k ctx b d' := by
  rcases h with ⟨hinv, hz⟩ | hs
  · refine Or.inl ⟨hinv, fun i hi => ?_⟩
    have := hd i hi
    rw [Nat.zero_add] at this
    rw [← this]
    exact hz i hi
  · exact Or.inr ⟨hs.valid, hs.checksum, hs.data.trans hd⟩

/-! ### New pointers -/

/-- A request as it goes to `write_pages`: the pointers of its entry are its block numbers, and
nothing else has changed than the entry, the vector and the random numbers. -/
structure Pointed (ctx : AfsPrivate) (b : ℕ) (s : AfsPrivate × AfsMapRequest) : Prop where
  same : SameInstance ctx s.1
  disk : s.1.disk = ctx.disk
  entry : s.2.mapEntry = afsGetMapEntry ctx.config b
  nums : ∀ j < 4, carrierPtr s.1.afsMap s.2.mapEntry j = s.2.blockNums j
  valid : ∀ j < 4, s.2.blockNums j ≠ afsInvalidBlock
  other : ∀ i, i < s.2.mapEntry ∨ s.2.mapEntry + 64 ≤ i → s.1.afsMap i = ctx.afsMap i

/-- The pointers are placed, too. -/
structure Mapped (ctx : AfsPrivate) (b : ℕ) (s : AfsPrivate × AfsMapRequest) : Prop
    extends Pointed ctx b s where
  placed : Placed s.1

theorem entryPtr_of_other (h : Instance ctx) (hs : SameInstance ctx ctx')
    (hb : b < ctx.config.numBlocks) (hb' : b' < ctx.config.numBlocks) (hne : b' ≠ b)
    (hother : ∀ i, i < afsGetMapEntry ctx.config b ∨ afsGetMapEntry ctx.config b + 64 ≤ i →
      ctx'.afsMap i = ctx.afsMap i) (hj : j < 4) : entryPtr ctx' b' j = entryPtr ctx b' j := by
  rw [entryPtr, entryPtr, hs.config]
  refine le_congr fun t ht => hother _ ?_
  rw [h.afsGetMapEntry hb, h.afsGetMapEntry hb']
  omega

theorem Placed.congr (h : Placed ctx) (hs : SameInstance ctx ctx')
    (hptr : ∀ b < ctx.config.numBlocks, ∀ j < 4, entryPtr ctx' b j = entryPtr ctx b j)
    (hv : ctx'.vector = ctx.vector) : Placed ctx' := by
  refine ⟨fun b hb j hj hne => ?_, fun b hb b' hb' j hj j' hj' hne heq => ?_⟩
  · rw [hs.config] at hb
    rw [hptr b hb j hj] at hne ⊢
    rw [hs.passiveFs, hv]
    exact h.marked b hb j hj hne
  · rw [hs.config] at hb hb'
    rw [hptr b hb j hj] at hne heq
    rw [hptr b' hb' j' hj'] at heq
    exact h.distinct b hb b' hb' j hj j' hj' hne heq

/-- **Acquired blocks are placed**: they come from free positions, and the pointers of the other
entries are at marked ones. -/
theorem Placed.acquired {ps bs : List ℕ} (h : Placed ctx) (hi : Instance ctx)
    (hs : SameInstance ctx ctx') (hacq : Acquired ctx.passiveFs 4 ctx.vector ps bs ctx'.vector)
    (hnew : ∀ j < 4, bs[j]? = some (entryPtr ctx' b j))
    (hold : ∀ b' < ctx.config.numBlocks, b' ≠ b → ∀ j < 4,
      entryPtr ctx' b' j = entryPtr ctx b' j) : Placed ctx' := by
  -- the position of a new pointer, and of an old one
  have hpos : ∀ j < 4, ∃ p, ps[j]? = some p ∧ p < ctx.passiveFs.listLen ∧
      ctx.passiveFs.blockList[p]? = some (entryPtr ctx' b j) ∧ ctx.vector.bits p = false := by
    intro j hj
    obtain ⟨-, p, hp, hx⟩ := hacq.blocks j _ (hnew j hj)
    have hfree := hacq.free p (List.mem_of_getElem? hp)
    exact ⟨p, hp, hfree.1, hx, hfree.2.2⟩
  have hdiff : ∀ b' < ctx.config.numBlocks, b' ≠ b → ∀ j < 4, ∀ j' < 4,
      entryPtr ctx b' j' ≠ afsInvalidBlock → entryPtr ctx' b j ≠ entryPtr ctx b' j' := by
    intro b' hb' hne j hj j' hj' hval heq
    obtain ⟨p, -, hp, hx, hfree⟩ := hpos j hj
    obtain ⟨q, hq, hy, hmark⟩ := h.marked b' hb' j' hj' hval
    rw [hi.position_inj hp hq hx (heq ▸ hy), hmark] at hfree
    cases hfree
  refine ⟨fun c hc j hj hval => ?_, fun c hc c' hc' j hj j' hj' hval heq => ?_⟩
  · rw [hs.config] at hc
    by_cases hcb : c = b
    · subst hcb
      obtain ⟨p, hp, hlt, hx, -⟩ := hpos j hj
      rw [hs.passiveFs]
      refine ⟨p, hlt, hx, ?_⟩
      rw [hacq.bits p]
      simp [List.mem_of_getElem? hp]
    · rw [hold c hc hcb j hj] at hval ⊢
      obtain ⟨p, hlt, hx, hmark⟩ := h.marked c hc j hj hval
      rw [hs.passiveFs]
      refine ⟨p, hlt, hx, ?_⟩
      rw [hacq.bits p, hmark, Bool.true_or]
  · rw [hs.config] at hc hc'
    by_cases hcb : c = b
    · by_cases hcb' : c' = b
      · subst hcb hcb'
        refine ⟨rfl, ?_⟩
        obtain ⟨p, hp, hlt, hx, -⟩ := hpos j hj
        obtain ⟨q, hq, hlt', hy, -⟩ := hpos j' hj'
        obtain rfl := hi.position_inj hlt hlt' hx (heq ▸ hy)
        obtain ⟨hjl, hjp⟩ := List.getElem?_eq_some_iff.1 hp
        obtain ⟨hjl', hjp'⟩ := List.getElem?_eq_some_iff.1 hq
        exact (List.Nodup.getElem_inj_iff hacq.nodup).1 (hjp.trans hjp'.symm)
      · subst hcb
        rw [hold c' hc' hcb' j' hj'] at heq
        rw [heq] at hval
        exact absurd heq (hdiff c' hc' hcb' j hj j' hj' hval)
    · rw [hold c hc hcb j hj] at hval heq
      by_cases hcb' : c' = b
      · subst hcb'
        exact absurd heq.symm (hdiff c hc hcb j' hj' j hj hval)
      · rw [hold c' hc' hcb' j' hj'] at heq
        exact h.distinct c hc c' hc' j hj j' hj' hval heq

theorem Placed.sector_lt (h : Placed ctx) (hi : Instance ctx) (hb : b < ctx.config.numBlocks)
    (hj : j < 4) (hval : entryPtr ctx b j ≠ afsInvalidBlock) :
    8 * entryPtr ctx b j + ctx.passiveFs.dataStartOff < 2 ^ 32 := by
  obtain ⟨p, hp, hx, -⟩ := h.marked b hb j hj hval
  exact hi.sectors _ (Instance.mem_freeList hp hx)

/-- **The carriers of the map are apart on the device.** -/
theorem Placed.apart (h : Placed ctx) (hi : Instance ctx) (hb : b < ctx.config.numBlocks)
    (hb' : b' < ctx.config.numBlocks) (hj : j < 4) (hj' : i < 4)
    (hval : entryPtr ctx b j ≠ afsInvalidBlock) (hval' : entryPtr ctx b' i ≠ afsInvalidBlock)
    (hne : b ≠ b' ∨ j ≠ i) :
    Apart ctx.passiveFs.dataStartOff (entryPtr ctx b j) (entryPtr ctx b' i) := by
  refine carrierSector_apart (h.sector_lt hi hb hj hval) (h.sector_lt hi hb' hj' hval') fun heq => ?_
  obtain ⟨rfl, rfl⟩ := h.distinct b hb b' hb' j hj i hj' hval heq
  exact hne.elim (fun h => h rfl) fun h => h rfl

/-- A map that was changed at the difference field of an entry only. -/
def SameTuples (entry : ℕ) (map map' : Mem) : Prop :=
  ∀ i, i < entry + 24 ∨ entry + 56 ≤ i → map' i = map i

theorem SameTuples.carrierPtr (h : SameTuples entry map d) (hj : j < 4) :
    carrierPtr d entry j = carrierPtr map entry j :=
  le_congr fun t ht => h _ (by omega)

theorem pointed_of_acquired {ps bs random : List ℕ} {v : BitVector} {nums : ℕ → ℕ}
    {s : AfsPrivate × AfsMapRequest} (hi : Instance ctx)
    (hacq : Acquired ctx.passiveFs 4 ctx.vector ps bs v) (hlen : bs.length = 4)
    (hctx : s.1 = { ctx with vector := v, random, afsMap := setPtrs map s.2.mapEntry 0 bs })
    (hentry : s.2.mapEntry = afsGetMapEntry ctx.config b)
    (htup : SameTuples s.2.mapEntry ctx.afsMap map) (hnums : s.2.blockNums = setNums nums 0 bs) :
    Pointed ctx b s ∧ ∀ j < 4, bs[j]? = some (s.2.blockNums j) := by
  have hsame : SameInstance ctx s.1 := by
    rw [hctx]
    exact ⟨rfl, rfl, rfl, rfl, rfl, rfl⟩
  have hmap : s.1.afsMap = setPtrs map s.2.mapEntry 0 bs := by rw [hctx]
  have hnum : ∀ j < 4, bs[j]? = some (s.2.blockNums j) := by
    intro j hj
    obtain ⟨x, hx⟩ : ∃ x, bs[j]? = some x := ⟨_, List.getElem?_eq_getElem (hlen ▸ hj)⟩
    have hset : setNums nums 0 bs (0 + j) = x := setNums_eq hx
    rw [Nat.zero_add, ← hnums] at hset
    rw [hset]
    exact hx
  refine ⟨⟨hsame, by rw [hctx], hentry, fun j hj => ?_, fun j hj => ?_, fun i hout => ?_⟩, hnum⟩
  · obtain ⟨-, p, hps, hxp⟩ := hacq.blocks j _ (hnum j hj)
    have hfree := hacq.free p (List.mem_of_getElem? hps)
    have hlt := hi.sectors _ (Instance.mem_freeList hfree.1 hxp)
    have hset : carrierPtr (setPtrs map s.2.mapEntry 0 bs) s.2.mapEntry (0 + j) =
        s.2.blockNums j := carrierPtr_setPtrs (hnum j hj) (by omega)
    rwa [Nat.zero_add, ← hmap] at hset
  · exact (hacq.blocks j _ (hnum j hj)).1
  · rw [hmap, setPtrs_out fun t ht => by omega]
    exact htup i (by omega)

theorem mapped_of_acquired {ps bs : List ℕ} {v : BitVector} {s : AfsPrivate × AfsMapRequest}
    (hi : Instance ctx) (hp : Placed ctx) (hb : b < ctx.config.numBlocks)
    (hacq : Acquired ctx.passiveFs 4 ctx.vector ps bs v) (hv : s.1.vector = v)
    (h : Pointed ctx b s ∧ ∀ j < 4, bs[j]? = some (s.2.blockNums j)) : Mapped ctx b s := by
  obtain ⟨hpt, hnum⟩ := h
  refine ⟨hpt, hp.acquired hi hpt.same (hv ▸ hacq) (fun j hj => ?_) fun b' hb' hne j hj =>
    entryPtr_of_other hi hpt.same hb hb' hne (hpt.entry ▸ hpt.other) hj⟩
  rw [entryPtr, hpt.same.config, ← hpt.entry, hpt.nums j hj]
  exact hnum j hj

theorem mapped_of_taken (hi : Instance ctx) (hp : Placed ctx) (hb : b < ctx.config.numBlocks)
    (hentry : req.mapEntry = afsGetMapEntry ctx.config b)
    (htup : SameTuples req.mapEntry ctx.afsMap map)
    (hval : ∀ j < 4, carrierPtr ctx.afsMap req.mapEntry j ≠ afsInvalidBlock)
    (hnums : ∀ j < 4, req.blockNums j = carrierPtr map req.mapEntry j) :
    Mapped ctx b ({ ctx with afsMap := map }, req) := by
  have hsame : SameInstance ctx { ctx with afsMap := map } := ⟨rfl, rfl, rfl, rfl, rfl, rfl⟩
  have hother : ∀ i, i < req.mapEntry ∨ req.mapEntry + 64 ≤ i → map i = ctx.afsMap i :=
    fun i hout => htup i (by omega)
  refine ⟨⟨hsame, rfl, hentry, fun j hj => (hnums j hj).symm, fun j hj => ?_, hother⟩, ?_⟩
  · rw [hnums j hj, htup.carrierPtr hj]
    exact hval j hj
  · refine hp.congr hsame (fun b' hb' j hj => ?_) rfl
    by_cases hne : b' = b
    · subst hne
      rw [entryPtr, entryPtr, ← hentry]
      exact htup.carrierPtr hj
    · exact entryPtr_of_other hi hsame hb hb' hne (hentry ▸ hother) hj

theorem sameTuples_encodeRequest {req' : AfsMapRequest} (hn : ctx.config.numCarrierBlocks = 4)
    (h : encodeRequest k g e ctx req = some (ctx', req')) :
    ∃ map encoder carrierBlocks, ctx' = { ctx with afsMap := map } ∧
      req' = { req with encoder, carrierBlocks } ∧ SameTuples req.mapEntry ctx.afsMap map := by
  obtain ⟨map, encoder, carriers, rfl, rfl, hout⟩ := encodeRequest_frame h
  refine ⟨map, encoder, carriers, rfl, rfl, fun i hi => hout i ?_⟩
  rw [mapEntryDifference, hn]
  omega

/-- **A write before `write_pages`**: its carriers stand for its data block, and have their places
on the device. -/
theorem writeRequestMap_mapped {s : AfsPrivate × AfsMapRequest} (hi : Instance ctx)
    (hp : Placed ctx) (hk : ∀ n, k.kmalloc n = true) (hb : b < ctx.config.numBlocks)
    (hentry : afsGetMapEntry ctx.config req.block = afsGetMapEntry ctx.config b)
    (henc : req.encodingType = ctx.encodingType)
    (h : writeRequestMap k g e ctx req = some (.next s)) :
    Mapped ctx b s ∧
      Agree (carriersData k ctx.encodingType (ivWords req.iv) shareNumbers s.2.carrierBlocks) 0
        (loadRequest ctx req).dataBlock 0 4096 ∧ s.2.bio = req.bio := by
  have hn := hi.carriers
  obtain ⟨ctx₁, req₁, henc₁, hcase⟩ := writeRequestMap_started h
  have hdata := encodeRequest_spec hk hn (henc ▸ hi.encoding)
    (fun i hi => numberShares_eq (by rw [hn]; exact hi)) henc₁
  rw [show (loadRequest ctx req).encodingType = ctx.encodingType from henc] at hdata
  obtain ⟨map, encoder, carriers, rfl, rfl, htup⟩ := sameTuples_encodeRequest hn henc₁
  rcases hcase with ⟨hall, -, rfl⟩ | ⟨bs, v, random, hacq, hlen, rfl⟩
  · refine ⟨mapped_of_taken hi hp hb hentry htup (fun j hj => hall j (hn ▸ hj)) fun j hj => ?_,
      hdata, rfl⟩
    simp only [hn]
    rw [if_pos hj]
  · rw [hn] at hacq hlen
    obtain ⟨ps, hacq⟩ := acquireBlocks_spec hacq
    exact ⟨mapped_of_acquired hi hp hb hacq rfl
      (pointed_of_acquired hi hacq hlen rfl hentry htup rfl), hdata, rfl⟩

/-- **A rebuild before `write_pages`**: its carriers have new places on the device, and each of them
is the data block itself. -/
theorem rebuildBlocksMap_mapped {s : AfsPrivate × AfsMapRequest} (hi : Instance ctx)
    (hentry : req.mapEntry = afsGetMapEntry ctx.config b)
    (h : rebuildBlocksMap k g e ctx req = some (.next s)) :
    Pointed ctx b s ∧ (Placed ctx → b < ctx.config.numBlocks → Mapped ctx b s) ∧
      (∀ j < 4, Agree (s.2.carrierBlocks j) 0 req.dataBlock 0 4096) ∧ s.2.bio = req.bio := by
  have hn := hi.carriers
  obtain ⟨ctx₁, req₁, henc₁, bs, v, random, hacq, hlen, rfl⟩ := rebuildBlocksMap_started h
  obtain ⟨map, encoder, carriers, rfl, rfl, htup⟩ := sameTuples_encodeRequest hn henc₁
  rw [hn] at hacq hlen
  obtain ⟨ps, hacq⟩ := acquireBlocks_spec hacq
  have hpt := pointed_of_acquired (b := b) (s := reacquiredState { ctx with afsMap := map }
    { renumberRequest ctx req with encoder, carrierBlocks := carriers } bs v random) hi hacq hlen
    rfl hentry htup rfl
  refine ⟨hpt.1, fun hp hb => mapped_of_acquired hi hp hb hacq rfl hpt, fun j hj => ?_, rfl⟩
  simp only [reacquiredState, copyPages]
  rw [if_pos (by omega)]
  exact agree_blit _ _ _ _ _

/-! ### After the carriers have been written -/

theorem storeChecksums_out
    (h : ∀ t < n, i < req.mapEntry + 6 * t + 4 ∨ req.mapEntry + 6 * t + 6 ≤ i) :
    storeChecksums map req n i = map i := by
  induction n with
  | zero => rfl
  | succ n ih =>
    rw [storeChecksums, setTupleChecksum, putLe_out (by have := h n (by omega); omega)]
    exact ih fun t ht => h t (by omega)

theorem carrierPtr_storeChecksums :
    carrierPtr (storeChecksums map req n) req.mapEntry j = carrierPtr map req.mapEntry j :=
  le_congr fun t ht => storeChecksums_out fun s _ => by omega

theorem tupleChecksum_storeChecksums (hj : j < n) :
    tupleChecksum (storeChecksums map req n) req.mapEntry j =
      (cityhash32To16 (req.carrierBlocks j) 4096).toNat := by
  induction n with
  | zero => omega
  | succ n ih =>
    rw [storeChecksums, setTupleChecksum]
    by_cases h : j = n
    · subst h
      have := (cityhash32To16 (req.carrierBlocks j) 4096).toNat_lt
      rw [tupleChecksum, le_putLe_of_lt (by omega)]
    · rw [tupleChecksum, le_putLe_out (by omega)]
      exact ih (by omega)

theorem entryPtr_storeChecksums (hi : Instance ctx) (hs : SameInstance ctx ctx')
    (hmap : ctx'.afsMap = storeChecksums ctx.afsMap req 4)
    (hentry : req.mapEntry = afsGetMapEntry ctx.config b) (hb : b < ctx.config.numBlocks)
    (hb' : b' < ctx.config.numBlocks) (hj : j < 4) : entryPtr ctx' b' j = entryPtr ctx b' j := by
  by_cases hne : b' = b
  · subst hne
    rw [entryPtr, entryPtr, hs.config, ← hentry, hmap]
    exact carrierPtr_storeChecksums
  · refine entryPtr_of_other hi hs hb hb' hne (fun i hout => ?_) hj
    rw [← hentry] at hout
    rw [hmap]
    exact storeChecksums_out fun t ht => by omega

theorem SameTuples.agree (hi : Instance ctx) (hb : b < ctx.config.numBlocks)
    (htup : SameTuples (afsGetMapEntry ctx.config b) ctx.afsMap map)
    (hb' : b' < ctx.config.numBlocks) : Agree map (afsGetMapEntry ctx.config b') ctx.afsMap
      (afsGetMapEntry ctx.config b') 24 := by
  intro t ht
  refine htup _ ?_
  rw [hi.afsGetMapEntry hb, hi.afsGetMapEntry hb']
  omega

theorem SameTuples.entryPtr (hi : Instance ctx) (hb : b < ctx.config.numBlocks)
    (htup : SameTuples (afsGetMapEntry ctx.config b) ctx.afsMap map)
    (hb' : b' < ctx.config.numBlocks) (hj : j < 4) :
    entryPtr { ctx with afsMap := map } b' j = entryPtr ctx b' j :=
  le_congr ((htup.agree hi hb hb').sub (by omega))

section Written

variable {s : AfsPrivate × AfsMapRequest} {l₂ : Life} {ctx₂ : AfsPrivate}

theorem Pointed.entryPtr_eq (h : Pointed ctx b s) (hj : j < 4) :
    entryPtr s.1 b j = s.2.blockNums j := by
  rw [entryPtr, h.same.config, ← h.entry]
  exact h.nums j hj

theorem Mapped.pagesApart (h : Mapped ctx b s) (hi : Instance ctx)
    (hb : b < ctx.config.numBlocks) : PagesApart ctx.passiveFs.dataStartOff s.2 := by
  intro i hi' j hj hne
  left
  have hap := h.placed.apart (hi.of_sameInstance h.same) (h.same.config ▸ hb) (h.same.config ▸ hb)
    hi' hj (h.entryPtr_eq hi' ▸ h.valid i hi') (h.entryPtr_eq hj ▸ h.valid j hj) (Or.inr hne)
  rwa [h.entryPtr_eq hi', h.entryPtr_eq hj, h.same.passiveFs] at hap

/-- The context when all carriers have been written. -/
def writtenContext (s : AfsPrivate × AfsMapRequest) (ctx₂ : AfsPrivate) : AfsPrivate :=
  { ctx₂ with afsMap := storeChecksums s.1.afsMap s.2 4 }

theorem Pointed.sameInstance (h : Pointed ctx b s) (hw : Writing s.1 s.2 ctx₂ l₂) :
    SameInstance ctx (writtenContext s ctx₂) := by
  have hctx := hw.context
  refine h.same.trans ⟨?_, ?_, ?_, ?_, ?_, ?_⟩ <;> rw [writtenContext, hctx]

theorem Mapped.entryPtr_written (h : Mapped ctx b s) (hw : Writing s.1 s.2 ctx₂ l₂)
    (hi : Instance ctx) (hb : b < ctx.config.numBlocks) (hb' : b' < ctx.config.numBlocks)
    (hj : j < 4) : entryPtr (writtenContext s ctx₂) b' j = entryPtr s.1 b' j := by
  have hs : SameInstance s.1 (writtenContext s ctx₂) := by
    have hctx := hw.context
    refine ⟨?_, ?_, ?_, ?_, ?_, ?_⟩ <;> rw [writtenContext, hctx]
  have hentry : s.2.mapEntry = afsGetMapEntry s.1.config b := h.entry.trans (by rw [h.same.config])
  exact entryPtr_storeChecksums (hi.of_sameInstance h.same) hs rfl hentry (h.same.config ▸ hb)
    (h.same.config ▸ hb') hj

theorem Pointed.entryPage_written (h : Pointed ctx b s) (hw : Writing s.1 s.2 ctx₂ l₂)
    (harr : ∀ j < 4, l₂.Arrived j) (hj : j < 4) :
    Agree (entryPage (writtenContext s ctx₂) s.2.mapEntry j) 0 (s.2.carrierBlocks j) 0 4096 := by
  have hpage := hw.pages j hj (harr j hj)
  have hoff : ctx₂.passiveFs = s.1.passiveFs := by rw [hw.context]
  have hptr : carrierPtr (storeChecksums s.1.afsMap s.2 4) s.2.mapEntry j = s.2.blockNums j :=
    carrierPtr_storeChecksums.trans (h.nums j hj)
  rw [entryPage, writtenContext]
  simp only
  rw [hptr, hoff]
  exact hpage

/-- **The block of the request holds what its carriers stand for.** -/
theorem Pointed.stored (h : Pointed ctx b s) (hw : Writing s.1 s.2 ctx₂ l₂)
    (harr : ∀ j < 4, l₂.Arrived j)
    (hdata : Agree (carriersData k ctx.encodingType (ivWords ctx.passphraseHash) shareNumbers
      s.2.carrierBlocks) 0 d 0 4096) :
    Stored k (writtenContext s ctx₂) (afsGetMapEntry ctx.config b) d := by
  have hpage := fun j hj => h.entryPage_written hw harr (j := j) hj
  have hsame := h.sameInstance hw
  rw [← h.entry]
  refine ⟨fun j hj => ?_, fun j hj => ?_, ?_⟩
  · rw [writtenContext]
    simp only
    rw [carrierPtr_storeChecksums, h.nums j hj]
    exact h.valid j hj
  · rw [cityhash32To16_congr (hpage j hj)]
    exact tupleChecksum_storeChecksums hj
  · rw [hsame.encodingType, hsame.passphraseHash]
    exact (carriersData_congr fun j hj => hpage j (by omega)).trans hdata

/-- **Every other block holds what it held.** -/
theorem Mapped.content_other (h : Mapped ctx b s) (hw : Writing s.1 s.2 ctx₂ l₂)
    (hi : Instance ctx) (hb : b < ctx.config.numBlocks) (hb' : b' < ctx.config.numBlocks)
    (hne : b' ≠ b) (hc : Content k ctx b' d) : Content k (writtenContext s ctx₂) b' d := by
  have hsame := h.sameInstance hw
  have hptr : ∀ j < 4, entryPtr s.1 b' j = entryPtr ctx b' j := fun j hj =>
    entryPtr_of_other hi h.same hb hb' hne (h.entry ▸ h.other) hj
  rcases hc with ⟨hinv, hz⟩ | hst
  · refine Or.inl ⟨fun j hj => ?_, hz⟩
    rw [h.entryPtr_written hw hi hb hb' hj, hptr j hj]
    exact hinv j hj
  · right
    rw [hsame.config]
    refine hst.congr hsame (fun t ht => ?_) fun j hj => ?_
    · have hout : 64 * b' + t < s.2.mapEntry ∨ s.2.mapEntry + 64 ≤ 64 * b' + t := by
        rw [h.entry, hi.afsGetMapEntry hb]
        omega
      rw [hi.afsGetMapEntry hb', writtenContext]
      simp only
      rw [storeChecksums_out fun t' ht' => by omega, h.other _ hout]
    · -- the carriers of the request are at other places of the device
      have hval : entryPtr s.1 b' j ≠ afsInvalidBlock := hptr j hj ▸ hst.valid j hj
      have hap : ∀ i < 4, Apart s.1.passiveFs.dataStartOff (entryPtr s.1 b' j)
          (s.2.blockNums i) := by
        intro i hi'
        rw [← h.entryPtr_eq hi']
        exact h.placed.apart (hi.of_sameInstance h.same) (h.same.config ▸ hb')
          (h.same.config ▸ hb) hj hi' hval (h.entryPtr_eq hi' ▸ h.valid i hi') (Or.inl hne)
      have hpage := hw.other _ hap
      rw [h.disk, h.same.passiveFs, hptr j hj] at hpage
      exact hpage

theorem Mapped.placed_written (h : Mapped ctx b s) (hw : Writing s.1 s.2 ctx₂ l₂)
    (hi : Instance ctx) (hb : b < ctx.config.numBlocks) : Placed (writtenContext s ctx₂) := by
  have hctx := hw.context
  have hs : SameInstance s.1 (writtenContext s ctx₂) := by
    refine ⟨?_, ?_, ?_, ?_, ?_, ?_⟩ <;> rw [writtenContext, hctx]
  refine h.placed.congr hs (fun b' hb' j hj => ?_) (by rw [writtenContext, hctx])
  exact h.entryPtr_written hw hi hb (h.same.config ▸ hb') hj

/-- **A write that has completed changes its own block only.** -/
theorem Holds.written (h : Holds k ctx store) (hm : Mapped ctx b s)
    (hw : Writing s.1 s.2 ctx₂ l₂) (harr : ∀ j < 4, l₂.Arrived j) (hb : b < ctx.config.numBlocks)
    (hdata : Agree (carriersData k ctx.encodingType (ivWords ctx.passphraseHash) shareNumbers
      s.2.carrierBlocks) 0 d 0 4096) :
    Holds k (writtenContext s ctx₂) (Function.update store b d) := by
  have hsame := hm.sameInstance hw
  refine ⟨h.instance_.of_sameInstance hsame, hm.placed_written hw h.instance_ hb,
    fun b' hb' => ?_⟩
  rw [hsame.config] at hb'
  by_cases hne : b' = b
  · subst hne
    rw [Function.update_self]
    exact Or.inr (hsame.config ▸ hm.stored hw harr hdata)
  · rw [Function.update_of_ne hne]
    exact hm.content_other hw h.instance_ hb hb' hne (h.content b' hb')

theorem Holds.of_sameTuples (h : Holds k ctx store) (hb : b < ctx.config.numBlocks)
    (htup : SameTuples (afsGetMapEntry ctx.config b) ctx.afsMap map) :
    Holds k { ctx with afsMap := map } store := by
  have hi := h.instance_
  have hsame : SameInstance ctx { ctx with afsMap := map } := ⟨rfl, rfl, rfl, rfl, rfl, rfl⟩
  refine ⟨hi.of_sameInstance hsame,
    h.placed.congr hsame (fun b' hb' j hj => htup.entryPtr hi hb hb' hj) rfl, fun b' hb' => ?_⟩
  rcases h.content b' hb' with ⟨hinv, hz⟩ | hst
  · exact Or.inl ⟨fun j hj => (htup.entryPtr hi hb hb' hj).trans (hinv j hj), hz⟩
  · exact Or.inr (hst.congr hsame (htup.agree hi hb hb') fun j hj => Agree.refl _ _ _)

end Written

end

end Artifice
