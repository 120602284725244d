import Artifice.Metadata.Mount

/-!
The metadata index on the device: the slots of the super block, and the chain of pointer blocks
behind it. A walk over what `write_ptr_blocks` leaves finds every map block in order, and every
pointer block sealed.

`rebuild_ptr_blocks` reads the chain back at a mount. From the second pointer block on it takes the
block number from the entry that it is about to read into, which is fresh memory. With one pointer
block at most the array comes back as it was written, and the update of the map blocks at the
unmount hits the blocks that they are in.
-/

namespace Artifice

open Lib

/-! ### The walk -/

/-- What a walk over the index finds: the pointer blocks, and the blocks of the map blocks. -/
structure IndexWalk where
  ptrBlocks : List ℕ
  mapBlocks : List ℕ

/-- The walk along the chain of pointer blocks from block `b`, up to 1019 slots of each, until
the invalid block. `left` map blocks are still to be found; the first argument bounds the
rounds. -/
def walkChain (ctx : AfsPrivate) : ℕ → ℕ → ℕ → Option IndexWalk
  | 0, _, _ => none
  | rounds + 1, left, b =>
    if b = afsInvalidBlock then some ⟨[], []⟩
    else
      let pb := pageAt ctx b
      let slots := (List.range (min 1019 left)).map fun j => le pb (16 + 4 * j) 4
      (walkChain ctx rounds (left - 1019) (le pb 4092 4)).map fun w =>
        ⟨b :: w.ptrBlocks, slots ++ w.mapBlocks⟩

/-- The walk over the index: the slots of the super block, and then the chain. -/
def walkIndex (ctx : AfsPrivate) (sb : Mem) (rounds : ℕ) : Option IndexWalk :=
  let slots := (List.range (min 975 ctx.config.numMapBlocks)).map fun i => le sb (192 + 4 * i) 4
  (walkChain ctx rounds (ctx.config.numMapBlocks - 975) (le sb 4092 4)).map fun w =>
    ⟨w.ptrBlocks, slots ++ w.mapBlocks⟩

section

variable {k : Kernel} {ctx ctx' ctx₀ ctx₁ ctx₂ : AfsPrivate} {a c : ℕ → ℕ} {b i j n t : ℕ}

/-- What follows pointer block `i - 1` in the chain of `n`. -/
def chainLink (c : ℕ → ℕ) (n i : ℕ) : ℕ := if i < n then c i else afsInvalidBlock

theorem PtrWritten.pageAt (h : PtrWritten k ctx₀ ctx a c 0) (hi : i < ctx₀.config.numPtrBlocks) :
    Agree (pageAt ctx (c i)) 0 ctx.afsPtrBlocks (4096 * i) 4096 :=
  agree_readPage.trans (h.page i (Nat.zero_le i) hi)

theorem PtrWritten.link (h : PtrWritten k ctx₀ ctx a c 0) (hi : i < ctx₀.config.numPtrBlocks) :
    le (Artifice.pageAt ctx (c i)) 4092 4 = chainLink c ctx₀.config.numPtrBlocks (i + 1) := by
  have hle := le_congr ((h.pageAt hi).sub (j := 4092) (k := 4) (by norm_num))
  rw [Nat.zero_add] at hle
  rw [hle, chainLink]
  split_ifs with hlt
  · exact h.next i (Nat.zero_le _) hlt
  · have hlast := h.last (by omega)
    rwa [show ctx₀.config.numPtrBlocks - 1 = i by omega] at hlast

theorem PtrWritten.chainSlot (h : PtrWritten k ctx₀ ctx a c 0)
    (hi : i < ctx₀.config.numPtrBlocks) (hj : j < 1019)
    (ht : 975 + 1019 * i + j < ctx₀.config.numMapBlocks) :
    le (Artifice.pageAt ctx (c i)) (16 + 4 * j) 4 = a (975 + 1019 * i + j) := by
  have hslot := h.map.slot _ ht
  rw [slotOf_pb hj] at hslot
  simp only [slotGet] at hslot
  have hle := le_congr ((h.pageAt hi).sub (j := 16 + 4 * j) (k := 4) (by omega))
  rw [Nat.zero_add, ← Nat.add_assoc, hslot] at hle
  exact hle

theorem slots_append (a : ℕ → ℕ) (s m left : ℕ) :
    (List.range (min m left)).map (fun j => a (s + j)) ++ (List.range' (s + m) (left - m)).map a =
      (List.range' s left).map a := by
  have hfirst : (List.range (min m left)).map (fun j => a (s + j)) =
      (List.range' s (min m left)).map a := by
    rw [List.range'_eq_map_range, List.map_map]
    rfl
  rw [hfirst, ← List.map_append]
  rcases Nat.le_total m left with h | h
  · rw [Nat.min_eq_left h, List.range'_append_1, Nat.add_sub_cancel' h]
  · rw [Nat.min_eq_right h, Nat.sub_eq_zero_of_le h, List.range'_zero, List.append_nil]

/-- **The walk along the chain** from pointer block `i` on. -/
theorem PtrWritten.walkChain (h : PtrWritten k ctx₀ ctx a c 0) (hidx : ctx₀.config.Indexed)
    {rounds : ℕ} (hn : i + n = ctx₀.config.numPtrBlocks) (hr : n < rounds) :
    walkChain ctx rounds (ctx₀.config.numMapBlocks - (975 + 1019 * i))
        (chainLink c ctx₀.config.numPtrBlocks i) =
      some ⟨(List.range' i n).map c, (List.range' (975 + 1019 * i)
        (ctx₀.config.numMapBlocks - (975 + 1019 * i))).map a⟩ := by
  have hptr := hidx.ptrBlocks
  induction n generalizing i rounds with
  | zero =>
    obtain ⟨rounds, rfl⟩ := Nat.exists_eq_add_of_lt hr
    have hleft : ctx₀.config.numMapBlocks - (975 + 1019 * i) = 0 := by omega
    rw [chainLink, if_neg (by omega), hleft]
    rfl
  | succ n ih =>
    obtain ⟨rounds, rfl⟩ := Nat.exists_eq_add_of_lt hr
    have hi : i < ctx₀.config.numPtrBlocks := by omega
    have hsmall := h.small i (Nat.zero_le i) hi
    have hne : c i ≠ afsInvalidBlock := by
      rw [afsInvalidBlock]
      omega
    have hslots : (List.range (min 1019 (ctx₀.config.numMapBlocks - (975 + 1019 * i)))).map
        (fun j => le (Artifice.pageAt ctx (c i)) (16 + 4 * j) 4) =
        (List.range (min 1019 (ctx₀.config.numMapBlocks - (975 + 1019 * i)))).map
          fun j => a (975 + 1019 * i + j) := by
      refine List.map_congr_left fun j hj => ?_
      rw [List.mem_range] at hj
      exact h.chainSlot hi (by omega) (by omega)
    have hrest := @ih (i + 1) (n + rounds + 1) (by omega) (by omega)
    rw [show ctx₀.config.numMapBlocks - (975 + 1019 * (i + 1)) =
      ctx₀.config.numMapBlocks - (975 + 1019 * i) - 1019 by omega,
      show 975 + 1019 * (i + 1) = 975 + 1019 * i + 1019 by omega] at hrest
    rw [show n + 1 + rounds + 1 = n + rounds + 1 + 1 by omega, Artifice.walkChain,
      show chainLink c ctx₀.config.numPtrBlocks i = c i from if_pos hi, if_neg hne]
    simp only [h.link hi, hrest, Option.map_some, hslots, slots_append]
    rw [List.range'_succ, List.map_cons]

theorem PtrWritten.firstLink (h : PtrWritten k ctx₀ ctx a c 0)
    (hfirst : le ctx₀.superBlock 4092 4 = afsInvalidBlock) :
    le ctx.superBlock 4092 4 = chainLink c ctx₀.config.numPtrBlocks 0 := by
  rw [chainLink]
  split_ifs with h0
  · exact h.first rfl h0
  · rw [h.unlinked (by omega), hfirst]

/-- **The walk over the index.** -/
theorem PtrWritten.walkIndex (h : PtrWritten k ctx₀ ctx a c 0) (hidx : ctx₀.config.Indexed)
    (hfirst : le ctx₀.superBlock 4092 4 = afsInvalidBlock) {rounds : ℕ}
    (hr : ctx₀.config.numPtrBlocks < rounds) :
    walkIndex ctx ctx.superBlock rounds =
      some ⟨(List.range ctx₀.config.numPtrBlocks).map c,
        (List.range ctx₀.config.numMapBlocks).map a⟩ := by
  have hchain := h.walkChain hidx (Nat.zero_add ctx₀.config.numPtrBlocks) hr
  have hslots : (List.range (min 975 ctx₀.config.numMapBlocks)).map
      (fun i => le ctx.superBlock (192 + 4 * i) 4) =
      (List.range (min 975 ctx₀.config.numMapBlocks)).map fun i => a (0 + i) := by
    refine List.map_congr_left fun i hi => ?_
    rw [List.mem_range] at hi
    have hslot := h.map.slot i (by omega)
    rw [slotOf_sb (by omega)] at hslot
    rw [Nat.zero_add]
    exact hslot
  have hall := slots_append a 0 975 ctx₀.config.numMapBlocks
  rw [Nat.zero_add] at hall
  rw [Nat.mul_zero, Nat.add_zero] at hchain
  rw [Artifice.walkIndex, h.firstLink hfirst]
  simp only [h.map.same.config, hchain, Option.map_some, hslots, hall]
  rw [List.range_eq_range', List.range_eq_range']

theorem PtrWritten.sealed (h : PtrWritten k ctx₀ ctx a c 0) (hi : i < ctx₀.config.numPtrBlocks) :
    bytes (Artifice.pageAt ctx (c i)) 0 16 =
      bytes (k.sha1 (bytes (Artifice.pageAt ctx (c i)) 16 (4096 - 16))) 0 16 := by
  have hpage := h.pageAt hi
  have hrest : Agree (Artifice.pageAt ctx (c i)) 16 ctx.afsPtrBlocks (4096 * i + 16)
      (4096 - 16) := hpage.sub (j := 16) (by norm_num)
  rw [bytes_congr hrest]
  exact bytes_congr (Agree.trans (fun o ho => hpage o (by omega)) (h.hash i (Nat.zero_le i) hi))

theorem PtrWritten.nodup (h : PtrWritten k ctx₀ ctx a c 0) :
    ((List.range ctx₀.config.numPtrBlocks).map c ++
      (List.range ctx₀.config.numMapBlocks).map a).Nodup := by
  refine List.nodup_append.2 ⟨?_, ?_, ?_⟩
  · refine (List.nodup_map_iff_inj_on List.nodup_range).2 fun i hi j hj he => ?_
    rw [List.mem_range] at hi hj
    rcases lt_trichotomy i j with hlt | heq | hlt
    · exact absurd he (h.inj i j (Nat.zero_le i) hlt hj)
    · exact heq
    · exact absurd he.symm (h.inj j i (Nat.zero_le j) hlt hi)
  · refine (List.nodup_map_iff_inj_on List.nodup_range).2 fun t ht t' ht' he => ?_
    rw [List.mem_range] at ht ht'
    rcases lt_trichotomy t t' with hlt | heq | hlt
    · exact absurd he (h.map.inj t' ht' t hlt)
    · exact heq
    · exact absurd he.symm (h.map.inj t ht t' hlt)
  · rintro x hx y hy rfl
    obtain ⟨j, hj, rfl⟩ := List.mem_map.1 hx
    obtain ⟨t, ht, he⟩ := List.mem_map.1 hy
    exact h.apart j (Nat.zero_le j) (List.mem_range.1 hj) t (List.mem_range.1 ht) he.symm

/-- **The index on the device is well formed.** After `write_ptr_blocks` has returned 0, the walk
over the device ends at the invalid block, having visited as many pointer blocks as are configured
and found the blocks of all map blocks, map block `t` at the `t`-th of them. No block occurs twice,
and every pointer block stores the hash of the rest of it. -/
theorem index_wellFormed {config : AfsConfig} {numCarrierBlocks numEntropyBlocks : ℕ}
    (hcfg : ctx.config = buildConfiguration config numCarrierBlocks numEntropyBlocks)
    (hfirst : le ctx.superBlock 4092 4 = afsInvalidBlock)
    (h : writePtrBlocks k ctx = some (0, ctx')) (hh : HandedOut ctx ctx') :
    ∃ w, (∀ rounds, ctx.config.numPtrBlocks < rounds →
        walkIndex ctx' ctx'.superBlock rounds = some w) ∧
      w.ptrBlocks.length = ctx.config.numPtrBlocks ∧
      w.mapBlocks.length = ctx.config.numMapBlocks ∧ (w.ptrBlocks ++ w.mapBlocks).Nodup ∧
      (∀ t b, w.mapBlocks[t]? = some b →
        Agree (pageAt ctx' b) 0 ctx.afsMapBlocks (4096 * t) 4096) ∧
      ∀ b ∈ w.ptrBlocks, bytes (pageAt ctx' b) 0 16 =
        bytes (k.sha1 (bytes (pageAt ctx' b) 16 (4096 - 16))) 0 16 := by
  have hidx : ctx.config.Indexed := hcfg ▸ buildConfiguration_indexed _ _ _
  obtain ⟨a, c, hw⟩ := writePtrBlocks_spec h hidx hh
  refine ⟨_, fun rounds hr => hw.walkIndex hidx hfirst hr, ?_, ?_, hw.nodup, ?_, ?_⟩
  · rw [List.length_map, List.length_range]
  · rw [List.length_map, List.length_range]
  · intro t b hb
    rw [List.getElem?_map, Option.map_eq_some_iff] at hb
    obtain ⟨t', ht', rfl⟩ := hb
    obtain ⟨hlt, ht'⟩ := List.getElem?_eq_some_iff.1 ht'
    rw [List.getElem_range] at ht'
    subst ht'
    rw [List.length_range] at hlt
    exact agree_readPage.trans (hw.map.page _ hlt)
  · intro b hb
    obtain ⟨i, hi, rfl⟩ := List.mem_map.1 hb
    exact hw.sealed (List.mem_range.1 hi)

end

/-- An instance whose map blocks are one more than the super block and a pointer block have slots
for, with 2000 free blocks. -/
def chainContext : AfsPrivate :=
  { smallContext (List.range 2000) with
    config := buildConfiguration (sizedConfig 125623) 4 1
    superBlock := putLe (fun _ => 0) 4092 4 afsInvalidBlock
    random := List.range' 0 2000 }

theorem chainContext_config : chainContext.config.numMapBlocks = 1995 ∧
    chainContext.config.numPtrBlocks = 2 := by
  decide +kernel

theorem exists_chainWritten : ∃ ctx, writePtrBlocks (constKernel 1) chainContext = some (0, ctx) ∧
    HandedOut chainContext ctx := by
  obtain ⟨hM, hptr⟩ := chainContext_config
  have hok : chainContext.config.Ok := buildConfiguration_ok _ 1 (by norm_num) (by norm_num)
  have hready : Ready chainContext 0 2000 := ready_range (by norm_num) rfl rfl rfl
  obtain ⟨ctx, hwrite⟩ := hready.writePtrBlocks hok (hM ▸ by norm_num) (hM ▸ hptr ▸ by norm_num)
    (constKernel 1)
  have hfs : SmallBlocks ctx.passiveFs := by
    rw [(sameMap_writePtrBlocks hwrite).passiveFs]
    exact smallBlocks_range (by norm_num)
  exact ⟨ctx, hwrite, hfs.handedOut⟩

/-- The walk over its index visits two pointer blocks and finds 1995 map blocks. -/
theorem index_wellFormed_chain :
    ∃ ctx w, writePtrBlocks (constKernel 1) chainContext = some (0, ctx) ∧
      walkIndex ctx ctx.superBlock 3 = some w ∧ w.ptrBlocks.length = 2 ∧
      w.mapBlocks.length = 1995 := by
  obtain ⟨hM, hptr⟩ := chainContext_config
  obtain ⟨ctx, hwrite, hh⟩ := exists_chainWritten
  have hfirst : le chainContext.superBlock 4092 4 = afsInvalidBlock :=
    le_putLe_of_lt (by decide)
  obtain ⟨w, hwalk, hp, hm, -⟩ := index_wellFormed (k := constKernel 1)
    (rfl : chainContext.config = buildConfiguration (sizedConfig 125623) 4 1) hfirst hwrite hh
  refine ⟨ctx, w, hwrite, hwalk 3 (by rw [hptr]; norm_num), ?_, ?_⟩
  · rw [hp, hptr]
  · rw [hm, hM]

/-! ### The update of the map blocks -/

section

variable {k : Kernel} {ctx ctx' ctx₀ ctx₁ ctx₂ : AfsPrivate} {a c : ℕ → ℕ} {b i j n t w : ℕ}

/-- The slots name pairwise distinct blocks, all below `2 ^ 20`. -/
structure SlotsDistinct (ctx : AfsPrivate) : Prop where
  small : ∀ t < ctx.config.numMapBlocks, slotGet ctx (slotOf t) < 2 ^ 20
  inj : ∀ t < ctx.config.numMapBlocks, ∀ t' < t, slotGet ctx (slotOf t') ≠ slotGet ctx (slotOf t)

/-- The first `w` map blocks are written to the blocks that their slots name, and nothing else
is. -/
structure MapUpdated (ctx₀ ctx : AfsPrivate) (w : ℕ) : Prop where
  context : ctx = { ctx₀ with disk := ctx.disk }
  page : ∀ t < w, Agree (pageAt ctx (slotGet ctx₀ (slotOf t))) 0 ctx₀.afsMapBlocks (4096 * t) 4096
  other : ∀ b < 2 ^ 20, (∀ t < w, b ≠ slotGet ctx₀ (slotOf t)) →
    Agree (pageAt ctx b) 0 (pageAt ctx₀ b) 0 4096

theorem agree_pageAt : Agree (pageAt ctx b) 0 ctx.disk
    (512 * pageSector b ctx.passiveFs.dataStartOff) 4096 :=
  agree_readPage

theorem MapUpdated.step (h : MapUpdated ctx₀ ctx w) (hd : SlotsDistinct ctx₀)
    (hw : w < ctx₀.config.numMapBlocks) (hm : ctx₀.config.numMapBlocks ≤ 2 ^ 20) :
    ∃ ctx', writeMapBlock true (slotOf w) (ctx, w) = some (.next (ctx', w + 1)) ∧
      MapUpdated ctx₀ ctx' (w + 1) := by
  have hslot : slotGet ctx (slotOf w) = slotGet ctx₀ (slotOf w) := by
    refine slotGet_congr ?_ ?_ _ <;> rw [h.context]
  have hoff : ctx.passiveFs = ctx₀.passiveFs := by rw [h.context]
  have hblocks : ctx.afsMapBlocks = ctx₀.afsMapBlocks := by rw [h.context]
  have hsmall := hd.small w hw
  generalize hb : slotGet ctx₀ (slotOf w) = b at hslot hsmall
  obtain ⟨disk, hdisk⟩ : ∃ disk, disk = writePage ctx.afsMapBlocks (w * 4096 % 2 ^ 32) ctx.disk b
    ctx.passiveFs.dataStartOff := ⟨_, rfl⟩
  have hrun : writeMapBlock true (slotOf w) (ctx, w) = some (.next ({ ctx with disk }, w + 1)) := by
    simp only [writeMapBlock, if_true, hslot, ← hdisk]
    rw [Nat.mod_eq_of_lt (by omega)]
  -- the page at another block below `2 ^ 20` stays
  have hkeep : ∀ b' < 2 ^ 20, b ≠ b' →
      Agree (pageAt { ctx with disk } b') 0 (pageAt ctx b') 0 4096 := by
    intro b' hb' hne
    refine agree_pageAt.trans (Agree.trans ?_ agree_pageAt.symm)
    simp only [hdisk]
    exact agree_writePage_out hsmall hb' hne
  refine ⟨{ ctx with disk }, hrun, ?_, fun t ht => ?_, fun b' hb' hall => ?_⟩
  · rw [h.context]
  · rcases Nat.lt_succ_iff_lt_or_eq.1 ht with hlt | rfl
    · have hne : b ≠ slotGet ctx₀ (slotOf t) := fun he => hd.inj w hw t hlt (he ▸ hb.symm)
      exact (hkeep _ (hd.small t (by omega)) hne).trans (h.page t hlt)
    · rw [hb, ← hblocks, ← show t * 4096 % 2 ^ 32 = 4096 * t by omega]
      refine agree_pageAt.trans ?_
      simp only [hdisk]
      exact agree_writePage
  · have hne : b ≠ b' := fun he => hall w (Nat.lt_succ_self w) (he.symm.trans hb.symm)
    exact (hkeep b' hb' hne).trans (h.other b' hb' fun t ht => hall t (by omega))

/-- The state between two map blocks of an update. -/
def UpdateProgress (ctx₀ : AfsPrivate) (w : ℕ) (s : AfsPrivate × ℕ) : Prop :=
  (s.2 = w ∨ s.2 = ctx₀.config.numMapBlocks) ∧ s.2 ≤ ctx₀.config.numMapBlocks ∧
    MapUpdated ctx₀ s.1 s.2

theorem UpdateProgress.step {s : AfsPrivate × ℕ} {g : Flow (AfsPrivate × ℕ)}
    (hs : UpdateProgress ctx₀ w s) (hd : SlotsDistinct ctx₀)
    (hm : ctx₀.config.numMapBlocks ≤ 2 ^ 20) (hg : g = .brk s ∨ g = .ret 0 s) :
    ∃ f, (if (s.1.config.numMapBlocks + 2 ^ 32 - s.2) % 2 ^ 32 = 0 then some g
      else writeMapBlock true (slotOf w) s) = some f ∧
      f.Sat (UpdateProgress ctx₀ (w + 1)) (UpdateProgress ctx₀ ctx₀.config.numMapBlocks)
        (fun c t => c = 0 ∧ UpdateProgress ctx₀ ctx₀.config.numMapBlocks t) := by
  obtain ⟨hw, hle, hup⟩ := hs
  have hconf : s.1.config = ctx₀.config := by rw [hup.context]
  rw [hconf]
  simp only [blocksLeft_eq_zero hle (show ctx₀.config.numMapBlocks < 2 ^ 32 by omega)]
  split_ifs with hdone
  · refine ⟨g, rfl, ?_⟩
    rcases hg with rfl | rfl
    · exact ⟨Or.inr hdone, hle, hup⟩
    · exact ⟨rfl, Or.inr hdone, hle, hup⟩
  · obtain ⟨ctx, v⟩ := s
    obtain rfl : v = w := hw.resolve_right hdone
    obtain ⟨ctx', hrun, hup'⟩ := hup.step hd (by simp only at hle hdone; omega) hm
    refine ⟨_, hrun, Or.inl rfl, ?_, hup'⟩
    simp only at hle hdone ⊢
    omega

/-- **The update of the map blocks** writes each of them to the block that its slot names. -/
theorem writeMapBlocks_update (hidx : ctx.config.Indexed) (hd : SlotsDistinct ctx) :
    ∃ ctx', writeMapBlocks ctx true = some (0, ctx') ∧
      MapUpdated ctx ctx' ctx.config.numMapBlocks := by
  have hm : ctx.config.numMapBlocks ≤ 2 ^ 20 := le_of_distinct hd.small hd.inj
  have hptr := hidx.ptrBlocks
  have hfinish : ∀ s, UpdateProgress ctx ctx.config.numMapBlocks s →
      MapUpdated ctx s.1 ctx.config.numMapBlocks := by
    rintro s ⟨hs, -, hup⟩
    rw [or_self] at hs
    rwa [hs] at hup
  have hdone : ∀ s v, UpdateProgress ctx ctx.config.numMapBlocks s → UpdateProgress ctx v s :=
    fun s v hs => ⟨Or.inr (hs.1.elim id id), hs.2⟩
  obtain ⟨f, hf, h1⟩ : ∃ f, writeMapBlocksSb true 975 0 (ctx, 0) = some f ∧ _ :=
    forLoop_total (I := UpdateProgress ctx)
      (fun i s _ hi hs => by
        rw [← slotOf_sb (by omega)]
        exact hs.step hd hm (Or.inr rfl))
      ⟨Or.inl rfl, Nat.zero_le _, rfl, fun t ht => absurd ht (Nat.not_lt_zero t),
        fun b _ _ => Agree.refl _ _ _⟩
  simp only [writeMapBlocks, Option.bind_eq_bind]
  rw [hf, Option.bind_some]
  cases f with
  | ret c s =>
    obtain ⟨rfl, hs⟩ := h1
    exact ⟨s.1, rfl, hfinish s hs⟩
  | brk s => exact h1.elim
  | next s =>
    have hs : UpdateProgress ctx (975 + 1019 * 0) s := h1.elim id (hdone s _)
    obtain ⟨g, hg, h2⟩ := forLoop_total (n := ctx.config.numPtrBlocks)
      (I := fun i => UpdateProgress ctx (975 + 1019 * i)) (B := fun _ => False)
      (R := fun c t => c = 0 ∧ UpdateProgress ctx ctx.config.numMapBlocks t)
      (fun i s _ _ hs => by
        obtain ⟨f, hf, h3⟩ : ∃ f, writeMapBlocksPb true i 1019 0 s = some f ∧ _ :=
          forLoop_total (I := fun j => UpdateProgress ctx (975 + 1019 * i + j))
            (fun j s _ hj hs => by
              rw [← slotOf_pb (by omega)]
              exact hs.step hd hm (Or.inl rfl)) hs
        refine ⟨f, hf, ?_⟩
        rw [show 975 + 1019 * (i + 1) = 975 + 1019 * i + (0 + 1019) by omega]
        exact h3.mono (fun t ht => ht.elim id (hdone t _)) (fun _ => id) (fun _ _ => id))
      hs
    simp only
    rw [hg, Option.bind_some]
    cases g with
    | ret c t =>
      obtain ⟨rfl, ht⟩ := h2
      exact ⟨t.1, rfl, hfinish t ht⟩
    | brk t => exact h2.elim
    | next t =>
      obtain ⟨hw, hle, hup⟩ := h2.resolve_right id
      exact ⟨t.1, rfl, hfinish t ⟨Or.inr (by omega), hle, hup⟩⟩

/-! ### The pointer blocks through a mount -/

/-- The block that `rebuild_ptr_blocks` reads pointer block `i` from: from the second on it is
taken from what the fresh array holds at its place. -/
def stalePtr (ctx : AfsPrivate) (i : ℕ) : ℕ :=
  if i = 0 then le ctx.superBlock 4092 4 else le ctx.afsPtrBlocks (4096 * i + 4092) 4

theorem agree_rebuildPtrBlocks_out {o m : ℕ} (h : 4096 * n ≤ o) :
    Agree (rebuildPtrBlocks ctx n).afsPtrBlocks o ctx.afsPtrBlocks o m := by
  induction n with
  | zero => exact Agree.refl _ _ _
  | succ n ih =>
    rw [rebuildPtrBlocks]
    exact (agree_readPage_out (by omega)).trans (ih (by omega))

/-- **What `rebuild_ptr_blocks` reads.** -/
theorem agree_rebuildPtrBlocks (hi : i < n) :
    Agree (rebuildPtrBlocks ctx n).afsPtrBlocks (4096 * i) (pageAt ctx (stalePtr ctx i)) 0 4096 := by
  induction n with
  | zero => omega
  | succ n ih =>
    obtain ⟨m, hm⟩ := rebuildPtrBlocks_frame ctx n
    rw [rebuildPtrBlocks]
    rcases Nat.lt_succ_iff_lt_or_eq.1 hi with hlt | rfl
    · exact (agree_readPage_out (by omega)).trans (ih hlt)
    · have hout : Agree (rebuildPtrBlocks ctx i).afsPtrBlocks (4096 * i + 4092) ctx.afsPtrBlocks
          (4096 * i + 4092) 4 := agree_rebuildPtrBlocks_out (by omega)
      refine Agree.trans ?_ agree_pageAt.symm
      rw [stalePtr, ← le_congr hout]
      simp only [hm]
      exact agree_readPage

/-- A context that mounts what `ctx₂` has written, as it goes to `rebuild_ptr_blocks`: its pointer
blocks are fresh memory. -/
structure Mounts (ctx₂ ctx' : AfsPrivate) : Prop where
  config : ctx'.config = ctx₂.config
  dataStartOff : ctx'.passiveFs.dataStartOff = ctx₂.passiveFs.dataStartOff
  superBlock : Agree ctx'.superBlock 192 ctx₂.superBlock 192 (4096 - 192)
  disk : ctx'.disk = ctx₂.disk

/-- The pointer blocks come back as they were written, and the update at the unmount, of whatever
map blocks, writes every map block to the block that it was in and leaves the others. -/
def ChainRestored (ctx₂ ctx' : AfsPrivate) : Prop :=
  let ctx₃ := rebuildPtrBlocks ctx' ctx'.config.numPtrBlocks
  Agree ctx₃.afsPtrBlocks 0 ctx₂.afsPtrBlocks 0 (4096 * ctx₂.config.numPtrBlocks) ∧
    ∀ afsMapBlocks, ∃ ctx₄, writeMapBlocks { ctx₃ with afsMapBlocks } true = some (0, ctx₄) ∧
      (∀ t < ctx₂.config.numMapBlocks,
        Agree (pageAt ctx₄ (slotGet ctx₂ (slotOf t))) 0 afsMapBlocks (4096 * t) 4096) ∧
      ∀ b < 2 ^ 20, (∀ t < ctx₂.config.numMapBlocks, b ≠ slotGet ctx₂ (slotOf t)) →
        Agree (pageAt ctx₄ b) 0 (pageAt ctx₂ b) 0 4096

theorem Mounts.pageAt (h : Mounts ctx₂ ctx') (b : ℕ) : pageAt ctx' b = pageAt ctx₂ b := by
  rw [Artifice.pageAt, Artifice.pageAt, h.disk, h.dataStartOff]

theorem Mounts.first (h : Mounts ctx₂ ctx') :
    le ctx'.superBlock 4092 4 = le ctx₂.superBlock 4092 4 :=
  le_congr (h.superBlock.sub (j := 3900) (by norm_num))

theorem Mounts.slot (h : Mounts ctx₂ ctx') (hidx : ctx₂.config.Indexed) {pb : Mem}
    (hpb : Agree pb 0 ctx₂.afsPtrBlocks 0 (4096 * ctx₂.config.numPtrBlocks))
    (ht : t < ctx₂.config.numMapBlocks) :
    slotGet { ctx' with afsPtrBlocks := pb } (slotOf t) = slotGet ctx₂ (slotOf t) := by
  have hptr := hidx.ptrBlocks
  rcases Nat.lt_or_ge t 975 with hlt | hge
  · rw [slotOf_sb hlt]
    have hsb := h.superBlock.sub (j := 4 * t) (k := 4) (by omega)
    exact le_congr hsb
  · obtain ⟨i, j, hj, rfl⟩ : ∃ i j, j < 1019 ∧ t = 975 + 1019 * i + j :=
      ⟨(t - 975) / 1019, (t - 975) % 1019, Nat.mod_lt _ (by norm_num), by omega⟩
    rw [slotOf_pb hj]
    have hsub := hpb.sub (j := 4096 * i + 16 + 4 * j) (k := 4) (by omega)
    rw [Nat.zero_add] at hsub
    exact le_congr hsub

theorem PtrWritten.restored (h : PtrWritten k ctx₀ ctx₂ a c 0) (hidx : ctx₀.config.Indexed)
    (hm : Mounts ctx₂ ctx') (hpb : Agree (rebuildPtrBlocks ctx' ctx'.config.numPtrBlocks).afsPtrBlocks
      0 ctx₂.afsPtrBlocks 0 (4096 * ctx₂.config.numPtrBlocks)) : ChainRestored ctx₂ ctx' := by
  have hconf := h.map.same.config
  obtain ⟨pb, hframe⟩ := rebuildPtrBlocks_frame ctx' ctx'.config.numPtrBlocks
  refine ⟨hpb, fun afsMapBlocks => ?_⟩
  rw [hframe] at hpb ⊢
  have hidx₂ : ctx₂.config.Indexed := hconf ▸ hidx
  have hslot : ∀ t < ctx₂.config.numMapBlocks,
      slotGet { ctx' with afsPtrBlocks := pb, afsMapBlocks } (slotOf t) =
        slotGet ctx₂ (slotOf t) := fun t ht =>
    (slotGet_congr rfl rfl _).trans (hm.slot hidx₂ hpb ht)
  have hwritten : ∀ t < ctx₂.config.numMapBlocks, slotGet ctx₂ (slotOf t) = a t := fun t ht =>
    h.map.slot t (hconf ▸ ht)
  have hd : SlotsDistinct { ctx' with afsPtrBlocks := pb, afsMapBlocks } := by
    refine ⟨fun t ht => ?_, fun t ht t' ht' => ?_⟩
    · simp only [hm.config] at ht
      rw [hslot t ht, hwritten t ht]
      exact h.map.small t (hconf ▸ ht)
    · simp only [hm.config] at ht
      rw [hslot t ht, hslot t' (by omega), hwritten t ht, hwritten t' (by omega)]
      exact h.map.inj t (hconf ▸ ht) t' ht'
  have hidx' : { ctx' with afsPtrBlocks := pb, afsMapBlocks }.config.Indexed := by
    show ctx'.config.Indexed
    rw [hm.config]
    exact hidx₂
  obtain ⟨ctx₄, hrun, hup⟩ := writeMapBlocks_update hidx' hd
  have hnum : ctx'.config.numMapBlocks = ctx₂.config.numMapBlocks := by rw [hm.config]
  refine ⟨ctx₄, hrun, fun t ht => ?_, fun b hb hall => ?_⟩
  · rw [← hslot t ht]
    exact hup.page t (hnum ▸ ht)
  · have hother := hup.other b hb fun t ht => by
      have ht₂ : t < ctx₂.config.numMapBlocks := hnum ▸ ht
      rw [hslot t ht₂]
      exact hall t ht₂
    have hpage := hm.pageAt b
    rw [← hpage]
    exact hother

/-- With two pointer blocks or more there is a mount that does not get them back: its fresh array
names the first pointer block at the place of the second. -/
theorem PtrWritten.not_restored (h : PtrWritten k ctx₀ ctx₂ a c 0)
    (hn : 2 ≤ ctx₀.config.numPtrBlocks) :
    ∃ ctx', Mounts ctx₂ ctx' ∧ ¬ ChainRestored ctx₂ ctx' := by
  have hconf := h.map.same.config
  have h32 : c 0 < 256 ^ 4 := by
    have := h.small 0 (le_refl 0) (by omega)
    norm_num
    omega
  obtain ⟨fresh, hfresh⟩ : ∃ fresh : Mem, fresh = putLe (fun _ => 0) (4096 * 1 + 4092) 4 (c 0) :=
    ⟨_, rfl⟩
  have hm : Mounts ctx₂ { ctx₂ with afsPtrBlocks := fresh } := ⟨rfl, rfl, Agree.refl _ _ _, rfl⟩
  refine ⟨_, hm, fun hrest => ?_⟩
  have hread : Agree (rebuildPtrBlocks { ctx₂ with afsPtrBlocks := fresh }
      ctx₂.config.numPtrBlocks).afsPtrBlocks (4096 * 1)
      (Artifice.pageAt { ctx₂ with afsPtrBlocks := fresh }
        (stalePtr { ctx₂ with afsPtrBlocks := fresh } 1)) 0 4096 :=
    agree_rebuildPtrBlocks (by rw [hconf]; omega)
  have hstale : stalePtr { ctx₂ with afsPtrBlocks := fresh } 1 = c 0 := by
    rw [stalePtr, if_neg one_ne_zero]
    simp only [hfresh]
    exact le_putLe_of_lt h32
  rw [hstale, hm.pageAt] at hread
  have hsame := (hrest.1.sub (j := 4096 * 1) (k := 4096) (by rw [hconf]; omega)).symm.trans
    (by rw [Nat.zero_add]; exact hread.trans (h.pageAt (by omega)))
  -- its next pointer is the block of the second one, which is not the next of that
  have hnext := le_congr (hsame.sub (j := 4092) (k := 4) (by norm_num))
  have hfirst : le ctx₂.afsPtrBlocks (4096 * 0 + 4092) 4 = c (0 + 1) :=
    h.next 0 (Nat.zero_le _) (by omega)
  rw [Nat.zero_add, hfirst] at hnext
  have hsmall := h.small (0 + 1) (Nat.zero_le _) (by omega)
  by_cases h2 : 1 + 1 < ctx₀.config.numPtrBlocks
  · rw [h.next 1 (Nat.zero_le _) h2] at hnext
    exact h.inj (0 + 1) (1 + 1) (Nat.zero_le _) (by norm_num) h2 hnext.symm
  · have hlast := h.last (by omega)
    rw [show ctx₀.config.numPtrBlocks - 1 = 1 by omega, hnext, afsInvalidBlock] at hlast
    omega

end

/-- **The chain of pointer blocks survives every mount exactly if it has one block at most.** With
two or more, what the fresh array of `rebuild_ptr_blocks` holds decides where the second pointer
block is read from. -/
theorem chain_restored_iff {k : Kernel} {ctx ctx₂ : AfsPrivate} {config : AfsConfig}
    {numCarrierBlocks numEntropyBlocks : ℕ}
    (hcfg : ctx.config = buildConfiguration config numCarrierBlocks numEntropyBlocks)
    (h : writePtrBlocks k ctx = some (0, ctx₂)) (hh : HandedOut ctx ctx₂) :
    (∀ ctx', Mounts ctx₂ ctx' → ChainRestored ctx₂ ctx') ↔ ctx.config.numPtrBlocks ≤ 1 := by
  have hidx : ctx.config.Indexed := hcfg ▸ buildConfiguration_indexed _ _ _
  obtain ⟨a, c, hw⟩ := writePtrBlocks_spec h hidx hh
  have hconf := hw.map.same.config
  constructor
  · intro hall
    by_contra hlt
    obtain ⟨ctx', hm, hnot⟩ := hw.not_restored (by omega)
    exact hnot (hall ctx' hm)
  · intro hle ctx' hm
    refine hw.restored hidx hm fun o ho => ?_
    have hn : ctx₂.config.numPtrBlocks ≤ 1 := hconf ▸ hle
    have h0 : 0 < ctx'.config.numPtrBlocks := by
      rw [hm.config]
      omega
    have h0' : 0 < ctx.config.numPtrBlocks := by
      rw [← hconf, ← hm.config]
      exact h0
    have hread : Agree (rebuildPtrBlocks ctx' ctx'.config.numPtrBlocks).afsPtrBlocks (4096 * 0)
        (pageAt ctx' (stalePtr ctx' 0)) 0 4096 := agree_rebuildPtrBlocks h0
    have hptr : stalePtr ctx' 0 = c 0 := by
      rw [stalePtr, if_pos rfl, hm.first]
      exact hw.first rfl h0'
    rw [hptr, hm.pageAt] at hread
    exact (hread.trans (hw.pageAt h0')) o (by omega)

/-- An instance with one pointer block gets it back. -/
theorem chain_restored_big :
    ∃ ctx₂, writePtrBlocks (constKernel 1) bigContext = some (0, ctx₂) ∧
      ∀ ctx', Mounts ctx₂ ctx' → ChainRestored ctx₂ ctx' := by
  obtain ⟨-, -, -, hM, hptr⟩ := bigContext_config
  have hok : bigContext.config.Ok := buildConfiguration_ok _ 1 (by norm_num) (by norm_num)
  have hready : Ready bigContext 0 1000 := ready_range (by norm_num) rfl rfl rfl
  obtain ⟨ctx₂, hwrite⟩ := hready.writePtrBlocks hok (hM ▸ by norm_num) (hM ▸ hptr ▸ by norm_num)
    (constKernel 1)
  have hfs : SmallBlocks ctx₂.passiveFs := by
    rw [(sameMap_writePtrBlocks hwrite).passiveFs]
    exact smallBlocks_range (by norm_num)
  refine ⟨ctx₂, hwrite, (chain_restored_iff
    (rfl : bigContext.config = buildConfiguration (sizedConfig 61489) 4 1) hwrite
    hfs.handedOut).2 ?_⟩
  rw [hptr]

/-- An instance with two pointer blocks may get the first one twice. -/
theorem chain_not_restored :
    ¬ ∀ (k : Kernel) (ctx ctx₂ : AfsPrivate) (config : AfsConfig)
      (numCarrierBlocks numEntropyBlocks : ℕ),
      ctx.config = buildConfiguration config numCarrierBlocks numEntropyBlocks →
      writePtrBlocks k ctx = some (0, ctx₂) → HandedOut ctx ctx₂ →
      ∀ ctx', Mounts ctx₂ ctx' → ChainRestored ctx₂ ctx' := by
  intro hall
  obtain ⟨-, hptr⟩ := chainContext_config
  obtain ⟨ctx₂, hwrite, hh⟩ := exists_chainWritten
  have hidx : chainContext.config.Indexed := buildConfiguration_indexed _ _ _
  obtain ⟨a, c, hw⟩ := writePtrBlocks_spec hwrite hidx hh
  obtain ⟨ctx', hm, hnot⟩ := hw.not_restored (by rw [hptr])
  exact hnot (hall _ _ _ _ 4 1 (rfl : chainContext.config = buildConfiguration (sizedConfig 125623)
    4 1) hwrite hh ctx' hm)

end Artifice
