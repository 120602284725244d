import Artifice.Metadata.Index

/-!
The bytes of the device that the metadata code writes.

Everything that the constructor and the destructor write goes to blocks of the free list, through
`write_page`. What lies outside of them belongs to the file system that is hidden in, and stays.
-/

namespace Artifice

open Lib

/-- Byte `i` of the device is in a block of the free list. -/
def InFreeList (fs : AfsPassiveFs) (i : ℕ) : Prop :=
  ∃ b ∈ fs.freeList, 512 * (8 * b + fs.dataStartOff) ≤ i ∧
    i < 512 * (8 * b + fs.dataStartOff) + 4096

/-- Two devices are the same outside of the free list. -/
def OnlyFree (fs : AfsPassiveFs) (disk disk' : Mem) : Prop :=
  ∀ i, ¬ InFreeList fs i → disk' i = disk i

/-- Both ways of addressing the device are exact on the free list. -/
structure Addressed (fs : AfsPassiveFs) : Prop where
  small : ∀ b ∈ fs.freeList, b < 2 ^ 20
  sectors : ∀ b ∈ fs.freeList, 8 * b + fs.dataStartOff < 2 ^ 32

/-- All slots of the map blocks name blocks of the free list. -/
def SlotsListed (ctx : AfsPrivate) : Prop :=
  ∀ t < ctx.config.numMapBlocks, slotGet ctx (slotOf t) ∈ ctx.passiveFs.freeList

/-- The context is that of the same file system, and its device the same outside of the free
list. -/
structure WithinFree (ctx ctx' : AfsPrivate) : Prop where
  passiveFs : ctx'.passiveFs = ctx.passiveFs
  disk : OnlyFree ctx.passiveFs ctx.disk ctx'.disk

section

variable {k : Kernel} {fs : AfsPassiveFs} {ctx ctx' ctx'' ctx₁ : AfsPrivate}
  {disk disk' disk'' page sb : Mem} {b p w rounds : ℕ} {ret : ℤ} {locs written : List ℕ}

/-! ### One page -/

theorem OnlyFree.refl (fs : AfsPassiveFs) (disk : Mem) : OnlyFree fs disk disk := fun _ _ => rfl

theorem OnlyFree.trans (h : OnlyFree fs disk disk') (h' : OnlyFree fs disk' disk'') :
    OnlyFree fs disk disk'' := fun i hi => (h' i hi).trans (h i hi)

theorem onlyFree_blit (hb : b ∈ fs.freeList) :
    OnlyFree fs disk (blit disk (512 * (8 * b + fs.dataStartOff)) page p 4096) := fun i hi =>
  blit_out (by
    by_contra h
    exact hi ⟨b, hb, by omega, by omega⟩)

theorem onlyFree_writePage (ha : Addressed fs) (hb : b ∈ fs.freeList) :
    OnlyFree fs disk (writePage page p disk b fs.dataStartOff) := by
  have hsector := (pageSector_eq_iff b fs.dataStartOff).2 ⟨ha.small b hb, ha.sectors b hb⟩
  rw [writePage, writePageIo, hsector]
  exact onlyFree_blit hb

/-! ### Map blocks and pointer blocks -/

theorem WithinFree.refl (ctx : AfsPrivate) : WithinFree ctx ctx := ⟨rfl, OnlyFree.refl _ _⟩

theorem WithinFree.trans (h : WithinFree ctx ctx') (h' : WithinFree ctx' ctx'') :
    WithinFree ctx ctx'' := by
  refine ⟨h'.passiveFs.trans h.passiveFs, h.disk.trans ?_⟩
  have := h'.disk
  rwa [h.passiveFs] at this

theorem withinFree_of_disk (hfs : ctx'.passiveFs = ctx.passiveFs) (hd : ctx'.disk = ctx.disk) :
    WithinFree ctx ctx' :=
  ⟨hfs, fun i _ => congrFun hd i⟩

theorem withinFree_writePage (ha : Addressed ctx.passiveFs) (hb : b ∈ ctx.passiveFs.freeList)
    (hfs : ctx'.passiveFs = ctx.passiveFs)
    (hd : ∃ page p, ctx'.disk = writePage page p ctx.disk b ctx.passiveFs.dataStartOff) :
    WithinFree ctx ctx' := by
  obtain ⟨page, p, hd⟩ := hd
  exact ⟨hfs, hd ▸ onlyFree_writePage ha hb⟩

theorem withinFree_acquire (h : acquire ctx = some (b, ctx')) :
    WithinFree ctx ctx' ∧ (b ≠ afsInvalidBlock → b ∈ ctx.passiveFs.freeList) := by
  obtain ⟨random, ⟨q, hq, -, -, hb, rfl⟩ | ⟨rfl, rfl⟩⟩ := acquire_cases h
  · exact ⟨withinFree_of_disk rfl rfl, fun _ => mem_freeList hq hb⟩
  · exact ⟨withinFree_of_disk rfl rfl, fun h => absurd rfl h⟩

theorem withinFree_writeMapBlock {slot : Slot} {s : AfsPrivate × ℕ} {f : Flow (AfsPrivate × ℕ)}
    (ha : Addressed s.1.passiveFs) (h : writeMapBlock false slot s = some f) :
    f.Sat (fun t => WithinFree s.1 t.1) (fun t => WithinFree s.1 t.1)
      (fun _ t => WithinFree s.1 t.1) := by
  obtain ⟨b, ctx, hacq, ⟨-, rfl⟩ | ⟨hb, rfl⟩⟩ := writeMapBlock_cases h
  · exact (withinFree_acquire hacq).1
  · obtain ⟨hw, hmem⟩ := withinFree_acquire hacq
    exact hw.trans (withinFree_writePage (hw.passiveFs ▸ ha) (hw.passiveFs ▸ hmem hb)
      (sameMap_slotSet ctx b slot).passiveFs ⟨_, _, rfl⟩)

theorem withinFree_writePtrBlock {i : ℕ} {f : Flow AfsPrivate} (ha : Addressed ctx.passiveFs)
    (h : writePtrBlock k i ctx = some f) :
    f.Sat (WithinFree ctx) (WithinFree ctx) fun _ => WithinFree ctx := by
  obtain ⟨pb, b, ctx₁, -, hacq, hf⟩ := writePtrBlock_cases h
  obtain ⟨hw', hmem⟩ := withinFree_acquire hacq
  have hw : WithinFree ctx ctx₁ := ⟨hw'.passiveFs, hw'.disk⟩
  rcases hf with ⟨-, rfl⟩ | ⟨hb, -, rfl⟩ | ⟨hb, -, rfl⟩
  · exact hw
  · exact hw.trans (withinFree_writePage (hw.passiveFs ▸ ha) (hw.passiveFs ▸ hmem hb) rfl
      ⟨_, _, rfl⟩)
  · exact hw.trans (withinFree_writePage (hw.passiveFs ▸ ha) (hw.passiveFs ▸ hmem hb) rfl
      ⟨_, _, rfl⟩)

theorem withinFree_writeMapBlocks_step {slot : Slot} {s : AfsPrivate × ℕ}
    {f g : Flow (AfsPrivate × ℕ)} (ha : Addressed ctx.passiveFs) (hs : WithinFree ctx s.1)
    (hg : g = .brk s ∨ g = .ret 0 s)
    (h : (if (s.1.config.numMapBlocks + 2 ^ 32 - s.2) % 2 ^ 32 = 0 then some g
      else writeMapBlock false slot s) = some f) :
    f.Sat (fun t => WithinFree ctx t.1) (fun t => WithinFree ctx t.1)
      (fun _ t => WithinFree ctx t.1) := by
  split_ifs at h
  · rw [← Option.some.inj h]
    rcases hg with rfl | rfl
    exacts [hs, hs]
  · exact (withinFree_writeMapBlock (hs.passiveFs ▸ ha) h).mono (fun _ => hs.trans)
      (fun _ => hs.trans) (fun _ _ => hs.trans)

/-- **The first writing of the map blocks.** -/
theorem withinFree_writeMapBlocks (ha : Addressed ctx.passiveFs)
    (h : writeMapBlocks ctx false = some (ret, ctx')) : WithinFree ctx ctx' := by
  simp only [writeMapBlocks, Option.bind_eq_bind, Option.bind_eq_some_iff] at h
  obtain ⟨f, hf, h⟩ := h
  have h1 := forLoop_inv (I := fun _ s => WithinFree ctx s.1)
    (fun j s g _ _ hs hb => withinFree_writeMapBlocks_step ha hs (Or.inr rfl) hb)
    (WithinFree.refl ctx) hf
  cases f with
  | ret c s =>
    simp only [Option.some.injEq, Prod.mk.injEq] at h
    rw [← h.2]
    exact h1
  | brk s => exact h1.elim
  | next s =>
    have hs : WithinFree ctx s.1 := h1.elim id id
    simp only [Option.bind_eq_some_iff] at h
    obtain ⟨g, hg, h⟩ := h
    have h2 := forLoop_inv (I := fun _ s => WithinFree ctx s.1)
      (B := fun s => WithinFree ctx s.1) (R := fun _ s => WithinFree ctx s.1)
      (fun i s g _ _ hs hb => by
        have := forLoop_inv (I := fun _ s => WithinFree ctx s.1)
          (fun j s g _ _ hs hb => withinFree_writeMapBlocks_step ha hs (Or.inl rfl) hb) hs hb
        exact this.mono (fun _ hs => hs.elim id id) (fun _ => False.elim) (fun _ _ => id))
      hs hg
    cases g with
    | ret c s =>
      simp only [Option.some.injEq, Prod.mk.injEq] at h
      rw [← h.2]
      exact h2
    | brk s => exact h2.elim
    | next s =>
      simp only [Option.some.injEq, Prod.mk.injEq] at h
      rw [← h.2]
      exact h2.elim id id

theorem withinFree_writePtrBlocks (ha : Addressed ctx.passiveFs)
    (h : writePtrBlocks k ctx = some (ret, ctx')) : WithinFree ctx ctx' := by
  simp only [writePtrBlocks, Option.bind_eq_bind, Option.bind_eq_some_iff] at h
  obtain ⟨⟨r, ctx₁⟩, hm, h⟩ := h
  have h1 := withinFree_writeMapBlocks ha hm
  split_ifs at h with hr
  · simp only [Option.some.injEq, Prod.mk.injEq] at h
    rw [← h.2]
    exact h1
  · simp only [Option.bind_eq_some_iff] at h
    obtain ⟨f, hf, h⟩ := h
    have h2 := forLoop_inv (I := fun _ => WithinFree ctx)
      (fun j s g _ _ hs hb => (withinFree_writePtrBlock (hs.passiveFs ▸ ha) hb).mono
        (fun _ => hs.trans) (fun _ => hs.trans) (fun _ _ => hs.trans)) h1 hf
    cases f with
    | ret c s =>
      simp only [Option.some.injEq, Prod.mk.injEq] at h
      rw [← h.2]
      exact h2
    | brk s => exact h2.elim
    | next s =>
      simp only [Option.some.injEq, Prod.mk.injEq] at h
      rw [← h.2]
      exact h2.elim id id

/-! ### The super block -/

theorem onlyFree_writeReplicas (ha : Addressed fs) (hlocs : ∀ v ∈ locs, v < fs.listLen)
    (h : writeReplicas fs sb locs disk = some (disk', written)) : OnlyFree fs disk disk' := by
  induction locs generalizing disk written with
  | nil =>
    simp only [writeReplicas, Option.some.injEq, Prod.mk.injEq] at h
    exact h.1 ▸ OnlyFree.refl fs disk
  | cons v locs ih =>
    simp only [writeReplicas, Option.bind_eq_bind, Option.bind_eq_some_iff] at h
    obtain ⟨b, hb, ⟨d, w⟩, hrest, h⟩ := h
    simp only [Option.some.injEq, Prod.mk.injEq] at h
    obtain ⟨rfl, -⟩ := h
    have hmem := mem_freeList (hlocs v (List.mem_cons_self ..)) hb
    exact (onlyFree_writePage ha hmem).trans
      (ih (fun x hx => hlocs x (List.mem_cons_of_mem _ hx)) hrest)

/-- **The constructor writes nothing but listed blocks**, if the locations of all replicas are
listed. -/
theorem withinFree_writeSuperBlock (ha : Addressed ctx.passiveFs)
    (hlisted : ∀ i < 8, replicaBlock k ctx.passiveFs ctx.passphrase
      (blockDeviceSize ctx.config) i < ctx.passiveFs.listLen)
    (h : writeSuperBlock k rounds ctx = some (0, ctx', written)) : WithinFree ctx ctx' := by
  obtain ⟨ctx₁, sbBlock, disk', hprep, hd, rfl⟩ := writeSuperBlock_written h
  obtain ⟨-, v, c₁, c₂, c₃, hplace, hmap, hblocks, hptr, rfl⟩ := prepareSuperBlock_steps hprep
  have h1 : WithinFree ctx c₁ := by
    rcases afsCreateMap_cases hmap with ⟨-, -, m, -, rfl⟩ | ⟨hr, -⟩
    · exact withinFree_of_disk rfl rfl
    · omega
  have h2 : WithinFree c₁ c₂ := by
    rcases afsCreateMapBlocks_cases hblocks with ⟨-, -, m, -, rfl⟩ | ⟨hr, -⟩
    · exact withinFree_of_disk rfl rfl
    · omega
  have h3 : WithinFree ctx c₂ := h1.trans h2
  have h4 : WithinFree ctx c₃ := by
    have := withinFree_writePtrBlocks (by exact h3.passiveFs ▸ ha) hptr
    exact h3.trans ⟨this.passiveFs, this.disk⟩
  have hlocs : ∀ x ∈ sbBlock, x < ctx.passiveFs.listLen := by
    intro x hx
    have hnth := placeReplicas_nth hplace
    rw [Nat.count_zero] at hnth
    rw [hnth] at hx
    obtain ⟨i, hi, rfl⟩ := List.mem_map.1 hx
    rw [Nat.zero_add]
    exact hlisted i (List.mem_range.1 hi)
  refine ⟨h4.passiveFs, h4.disk.trans ?_⟩
  simp only [h4.passiveFs] at hd
  exact onlyFree_writeReplicas ha hlocs hd

/-! ### The update of the map blocks -/

/-- The state between two map blocks of an update: of the context only the device has changed. -/
def UpdateWithin (ctx : AfsPrivate) (w : ℕ) (s : AfsPrivate × ℕ) : Prop :=
  (s.2 = w ∨ s.2 = ctx.config.numMapBlocks) ∧ s.2 ≤ ctx.config.numMapBlocks ∧
    s.1 = { ctx with disk := s.1.disk } ∧ OnlyFree ctx.passiveFs ctx.disk s.1.disk

theorem UpdateWithin.step {s : AfsPrivate × ℕ} {f g : Flow (AfsPrivate × ℕ)}
    (hs : UpdateWithin ctx w s) (ha : Addressed ctx.passiveFs) (hl : SlotsListed ctx)
    (hm : ctx.config.numMapBlocks < 2 ^ 32) (hg : g = .brk s ∨ g = .ret 0 s)
    (h : (if (s.1.config.numMapBlocks + 2 ^ 32 - s.2) % 2 ^ 32 = 0 then some g
      else writeMapBlock true (slotOf w) s) = some f) :
    f.Sat (UpdateWithin ctx (w + 1)) (UpdateWithin ctx ctx.config.numMapBlocks)
      (fun _ => UpdateWithin ctx ctx.config.numMapBlocks) := by
  obtain ⟨hw, hle, hctx, hdisk⟩ := hs
  have hconf : s.1.config = ctx.config := by rw [hctx]
  rw [hconf] at h
  simp only [blocksLeft_eq_zero hle hm] at h
  split_ifs at h with hdone
  · obtain rfl := Option.some.inj h
    rcases hg with rfl | rfl
    · exact ⟨Or.inr hdone, hle, hctx, hdisk⟩
    · exact ⟨Or.inr hdone, hle, hctx, hdisk⟩
  · obtain ⟨c, v⟩ := s
    obtain rfl : v = w := hw.resolve_right hdone
    dsimp only at hctx hdisk hle hdone
    have hlt : v < ctx.config.numMapBlocks := by omega
    have hslot : slotGet c (slotOf v) = slotGet ctx (slotOf v) := by
      refine slotGet_congr ?_ ?_ _ <;> rw [hctx]
    have hfs : c.passiveFs = ctx.passiveFs := by rw [hctx]
    have hnext : (v + 1) % 2 ^ 32 = v + 1 := Nat.mod_eq_of_lt (by omega)
    simp only [writeMapBlock, if_true, hnext, Option.some.injEq] at h
    subst h
    refine ⟨Or.inl rfl, hlt, ?_, hdisk.trans ?_⟩
    · rw [hctx]
    · show OnlyFree ctx.passiveFs c.disk (writePage _ _ c.disk (slotGet c (slotOf v))
        c.passiveFs.dataStartOff)
      rw [hslot, hfs]
      exact onlyFree_writePage ha (hl v hlt)

/-- **The update of the map blocks** writes nothing but listed blocks. -/
theorem onlyFree_updateMapBlocks (ha : Addressed ctx.passiveFs) (hl : SlotsListed ctx)
    (hidx : ctx.config.Indexed) (h : writeMapBlocks ctx true = some (ret, ctx')) :
    OnlyFree ctx.passiveFs ctx.disk ctx'.disk := by
  have hm := hidx.mapBlocks
  have hdone : ∀ s v, UpdateWithin ctx ctx.config.numMapBlocks s → UpdateWithin ctx v s :=
    fun s v hs => ⟨Or.inr (hs.1.elim id id), hs.2⟩
  simp only [writeMapBlocks, Option.bind_eq_bind, Option.bind_eq_some_iff] at h
  obtain ⟨f, hf, h⟩ := h
  have h0 : UpdateWithin ctx 0 (ctx, 0) := ⟨Or.inl rfl, Nat.zero_le _, rfl, OnlyFree.refl _ _⟩
  have h1 := forLoop_inv (I := UpdateWithin ctx)
    (fun i s f _ hi hs hb => by
      rw [← slotOf_sb (by omega)] at hb
      exact hs.step ha hl hm (Or.inr rfl) hb) h0 hf
  cases f with
  | ret c s =>
    simp only [Option.some.injEq, Prod.mk.injEq] at h
    rw [← h.2]
    exact h1.2.2.2
  | brk s => exact h1.elim
  | next s =>
    have hs : UpdateWithin ctx (975 + 1019 * 0) s := h1.elim id (hdone s _)
    simp only [Option.bind_eq_some_iff] at h
    obtain ⟨g, hg, h⟩ := h
    have h2 := forLoop_inv (I := fun i => UpdateWithin ctx (975 + 1019 * i)) (B := fun _ => False)
      (R := fun _ => UpdateWithin ctx ctx.config.numMapBlocks)
      (fun i s f _ _ hs hb => by
        have h3 := forLoop_inv (I := fun j => UpdateWithin ctx (975 + 1019 * i + j))
          (fun j s f _ hj hs hb => by
            rw [← slotOf_pb (by omega)] at hb
            exact hs.step ha hl hm (Or.inl rfl) hb) hs hb
        rw [show 975 + 1019 * (i + 1) = 975 + 1019 * i + (0 + 1019) by omega]
        exact h3.mono (fun t ht => ht.elim id (hdone t _)) (fun _ => id) (fun _ _ => id)) hs hg
    cases g with
    | ret c t =>
      simp only [Option.some.injEq, Prod.mk.injEq] at h
      rw [← h.2]
      exact h2.2.2.2
    | brk t => exact h2.elim
    | next t =>
      simp only [Option.some.injEq, Prod.mk.injEq] at h
      rw [← h.2]
      exact (h2.resolve_right id).2.2.2

end

end Artifice
