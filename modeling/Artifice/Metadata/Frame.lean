import Artifice.Metadata.Defs

/-!
What the metadata code leaves alone, whichever way a call returns: the configuration, the passive
file system and the arguments of the instance (`SameInstance`), and, once it is created, the map
(`SameMap`).
-/

namespace Artifice

open Lib

/-- The two contexts are of one instance: they differ at most in the vector, the metadata in
memory, the device and the random numbers. -/
structure SameInstance (ctx ctx' : AfsPrivate) : Prop where
  config : ctx'.config = ctx.config
  passphrase : ctx'.passphrase = ctx.passphrase
  passphraseHash : ctx'.passphraseHash = ctx.passphraseHash
  encodingType : ctx'.encodingType = ctx.encodingType
  entropyDir : ctx'.entropyDir = ctx.entropyDir
  passiveFs : ctx'.passiveFs = ctx.passiveFs

/-- The same, with the map as it was. -/
structure SameMap (ctx ctx' : AfsPrivate) : Prop extends SameInstance ctx ctx' where
  afsMap : ctx'.afsMap = ctx.afsMap

section

variable {k : Kernel} {ctx ctx' ctx'' : AfsPrivate} {ret : ℤ} {b : ℕ}

theorem SameInstance.refl (ctx : AfsPrivate) : SameInstance ctx ctx :=
  ⟨rfl, rfl, rfl, rfl, rfl, rfl⟩

theorem SameInstance.trans (h : SameInstance ctx ctx') (h' : SameInstance ctx' ctx'') :
    SameInstance ctx ctx'' :=
  ⟨h'.config.trans h.config, h'.passphrase.trans h.passphrase,
    h'.passphraseHash.trans h.passphraseHash, h'.encodingType.trans h.encodingType,
    h'.entropyDir.trans h.entropyDir, h'.passiveFs.trans h.passiveFs⟩

theorem SameMap.refl (ctx : AfsPrivate) : SameMap ctx ctx := ⟨SameInstance.refl ctx, rfl⟩

theorem SameMap.trans (h : SameMap ctx ctx') (h' : SameMap ctx' ctx'') : SameMap ctx ctx'' :=
  ⟨h.toSameInstance.trans h'.toSameInstance, h'.afsMap.trans h.afsMap⟩

theorem acquire_cases (h : acquire ctx = some (b, ctx')) :
    ∃ random,
      (∃ p < ctx.passiveFs.listLen, p ≤ ctx.vector.length ∧ ctx.vector.bits p = false ∧
        ctx.passiveFs.blockList[p]? = some b ∧
        ctx' = { ctx with vector := ctx.vector.mark p, random }) ∨
      (b = afsInvalidBlock ∧ ctx' = { ctx with random }) := by
  simp only [acquire, Option.map_eq_some_iff, Prod.mk.injEq] at h
  obtain ⟨⟨b', v', random⟩, hr, rfl, rfl⟩ := h
  refine ⟨random, ?_⟩
  rcases acquireBlock_cases hr with ⟨p, hp, hv, hf, rfl, hb⟩ | ⟨rfl, rfl⟩
  · exact Or.inl ⟨p, hp, hv, hf, hb, rfl⟩
  · exact Or.inr ⟨rfl, rfl⟩

theorem sameMap_acquire (h : acquire ctx = some (b, ctx')) : SameMap ctx ctx' := by
  obtain ⟨random, ⟨p, -, -, -, -, rfl⟩ | ⟨-, rfl⟩⟩ := acquire_cases h
  · exact ⟨⟨rfl, rfl, rfl, rfl, rfl, rfl⟩, rfl⟩
  · exact ⟨⟨rfl, rfl, rfl, rfl, rfl, rfl⟩, rfl⟩

theorem sameMap_slotSet (ctx : AfsPrivate) (b : ℕ) (slot : Slot) :
    SameMap ctx (slotSet ctx b slot) := by
  cases slot <;> exact ⟨⟨rfl, rfl, rfl, rfl, rfl, rfl⟩, rfl⟩

theorem afsCreateMap_cases (h : afsCreateMap k ctx = some (ret, ctx')) :
    (ret = 0 ∧ k.vmalloc (ctx.config.numBlocks * ctx.config.mapEntrySz % 2 ^ 32) = true ∧
      ∃ m, createMapLoop ctx.config
        (pageRound (ctx.config.numBlocks * ctx.config.mapEntrySz % 2 ^ 32)) k.uninit
        ctx.config.numBlocks = some m ∧ ctx' = { ctx with afsMap := m }) ∨
    (ret = -12 ∧ ctx' = ctx) := by
  unfold afsCreateMap at h
  simp only at h
  split_ifs at h with hv
  · simp only [Option.bind_eq_bind, Option.bind_eq_some_iff, Option.some.injEq,
      Prod.mk.injEq] at h
    obtain ⟨m, hm, rfl, rfl⟩ := h
    exact Or.inl ⟨rfl, hv, m, hm, rfl⟩
  · simp only [Option.some.injEq, Prod.mk.injEq] at h
    exact Or.inr ⟨h.1.symm, h.2.symm⟩

theorem afsCreateMapBlocks_cases (h : afsCreateMapBlocks k ctx = some (ret, ctx')) :
    (ret = 0 ∧ k.vmalloc (4096 * ctx.config.numMapBlocks % 2 ^ 32) = true ∧
      ∃ m, createMapBlocksLoop k ctx.config ctx.afsMap (4096 * ctx.config.numMapBlocks % 2 ^ 32)
        (fill k.uninit 0 (4096 * ctx.config.numMapBlocks % 2 ^ 32) 0, 0)
        ctx.config.numMapBlocks = some (m, ctx.config.numBlocks) ∧
      ctx' = { ctx with afsMapBlocks := m }) ∨
    ((ret = -5 ∨ ret = -12) ∧ ctx' = ctx) := by
  unfold afsCreateMapBlocks at h
  simp only at h
  split_ifs at h with hv
  · simp only [Option.bind_eq_bind, Option.bind_eq_some_iff] at h
    obtain ⟨⟨m, w⟩, hm, h⟩ := h
    simp only at h
    split_ifs at h with hw
    · simp only [Option.some.injEq, Prod.mk.injEq] at h
      subst hw
      exact Or.inl ⟨h.1.symm, hv, m, hm, h.2.symm⟩
    · simp only [Option.some.injEq, Prod.mk.injEq] at h
      exact Or.inr ⟨Or.inl h.1.symm, h.2.symm⟩
  · simp only [Option.some.injEq, Prod.mk.injEq] at h
    exact Or.inr ⟨Or.inr h.1.symm, h.2.symm⟩

theorem sameInstance_afsCreateMap (h : afsCreateMap k ctx = some (ret, ctx')) :
    SameInstance ctx ctx' := by
  rcases afsCreateMap_cases h with ⟨-, -, m, -, rfl⟩ | ⟨-, rfl⟩
  · exact ⟨rfl, rfl, rfl, rfl, rfl, rfl⟩
  · exact SameInstance.refl _

theorem sameMap_afsCreateMapBlocks (h : afsCreateMapBlocks k ctx = some (ret, ctx')) :
    SameMap ctx ctx' := by
  rcases afsCreateMapBlocks_cases h with ⟨-, -, m, -, rfl⟩ | ⟨-, rfl⟩
  · exact ⟨⟨rfl, rfl, rfl, rfl, rfl, rfl⟩, rfl⟩
  · exact SameMap.refl _

theorem bytes_congr {m m' : Mem} {o o' n : ℕ} (h : Agree m o m' o' n) :
    bytes m o n = bytes m' o' n :=
  List.map_congr_left fun i hi => h i (List.mem_range.1 hi)

/-! ### The writer loops -/

/-- All that one map block of a fresh write can do: no block is left, or the block of a free
position is stored in the slot and the map block is written there. -/
theorem writeMapBlock_cases {slot : Slot} {s : AfsPrivate × ℕ} {f : Flow (AfsPrivate × ℕ)}
    (h : writeMapBlock false slot s = some f) :
    ∃ b ctx, acquire s.1 = some (b, ctx) ∧
      ((b = afsInvalidBlock ∧ f = .ret (-28) (ctx, s.2)) ∨
        (b ≠ afsInvalidBlock ∧ f = .next
          ({ slotSet ctx b slot with
              disk := writePage ctx.afsMapBlocks (s.2 * 4096 % 2 ^ 32) ctx.disk b
                ctx.passiveFs.dataStartOff }, (s.2 + 1) % 2 ^ 32))) := by
  simp only [writeMapBlock, Bool.false_eq_true, if_false, Option.bind_eq_bind,
    Option.bind_eq_some_iff] at h
  obtain ⟨⟨b, ctx⟩, ha, h⟩ := h
  refine ⟨b, ctx, ha, ?_⟩
  simp only at h
  split_ifs at h with hb
  · exact Or.inl ⟨hb, (Option.some.inj h).symm⟩
  · refine Or.inr ⟨hb, ?_⟩
    rw [← Option.some.inj h]
    cases slot <;> rfl

theorem writePtrBlock_cases {i : ℕ} {f : Flow AfsPrivate} (h : writePtrBlock k i ctx = some f) :
    ∃ pb b ctx₁, pb = sealPtrBlock k ctx.config i ctx.afsPtrBlocks ∧
      acquire { ctx with afsPtrBlocks := pb } = some (b, ctx₁) ∧
      ((b = afsInvalidBlock ∧ f = .ret (-28) ctx₁) ∨
        (b ≠ afsInvalidBlock ∧ i = 0 ∧ f = .next
          { ctx₁ with
            disk := writePage pb (4096 * i) ctx₁.disk b ctx₁.passiveFs.dataStartOff
            superBlock := putLe ctx₁.superBlock 4092 4 b }) ∨
        (b ≠ afsInvalidBlock ∧ i ≠ 0 ∧ f = .next
          { ctx₁ with
            disk := writePage pb (4096 * i) ctx₁.disk b ctx₁.passiveFs.dataStartOff
            afsPtrBlocks := putLe pb (4096 * (i - 1) + 4092) 4 b })) := by
  simp only [writePtrBlock, Option.bind_eq_bind, Option.bind_eq_some_iff] at h
  obtain ⟨⟨b, ctx₁⟩, ha, h⟩ := h
  refine ⟨_, b, ctx₁, rfl, ha, ?_⟩
  simp only at h
  by_cases hb : b = afsInvalidBlock
  · rw [if_pos hb] at h
    exact Or.inl ⟨hb, (Option.some.inj h).symm⟩
  · rw [if_neg hb] at h
    by_cases hi : i = 0
    · rw [if_pos hi] at h
      exact Or.inr (Or.inl ⟨hb, hi, (Option.some.inj h).symm⟩)
    · rw [if_neg hi] at h
      exact Or.inr (Or.inr ⟨hb, hi, (Option.some.inj h).symm⟩)

theorem sameMap_writeMapBlock {slot : Slot} {s : AfsPrivate × ℕ}
    {f : Flow (AfsPrivate × ℕ)} (h : writeMapBlock false slot s = some f) :
    f.Sat (fun t => SameMap s.1 t.1) (fun t => SameMap s.1 t.1)
      (fun _ t => SameMap s.1 t.1) := by
  obtain ⟨b, ctx, ha, ⟨-, rfl⟩ | ⟨-, rfl⟩⟩ := writeMapBlock_cases h
  · exact sameMap_acquire ha
  · have h1 := (sameMap_acquire ha).trans (sameMap_slotSet ctx b slot)
    exact h1.trans ⟨⟨rfl, rfl, rfl, rfl, rfl, rfl⟩, rfl⟩

theorem sameInstance_writeMapBlock {slot : Slot} {s : AfsPrivate × ℕ}
    {f : Flow (AfsPrivate × ℕ)} (h : writeMapBlock false slot s = some f) :
    f.Sat (fun t => SameInstance s.1 t.1) (fun t => SameInstance s.1 t.1)
      (fun _ t => SameInstance s.1 t.1) :=
  (sameMap_writeMapBlock h).mono (fun _ h => h.toSameInstance) (fun _ h => h.toSameInstance)
    (fun _ _ h => h.toSameInstance)

theorem sameMap_writePtrBlock {i : ℕ} {f : Flow AfsPrivate}
    (h : writePtrBlock k i ctx = some f) :
    f.Sat (SameMap ctx) (SameMap ctx) (fun _ => SameMap ctx) := by
  obtain ⟨pb, b, ctx₁, -, ha, hf⟩ := writePtrBlock_cases h
  have h0 : SameMap ctx { ctx with afsPtrBlocks := pb } := ⟨⟨rfl, rfl, rfl, rfl, rfl, rfl⟩, rfl⟩
  have h2 := h0.trans (sameMap_acquire ha)
  rcases hf with ⟨-, rfl⟩ | ⟨-, -, rfl⟩ | ⟨-, -, rfl⟩
  · exact h2
  · exact h2.trans ⟨⟨rfl, rfl, rfl, rfl, rfl, rfl⟩, rfl⟩
  · exact h2.trans ⟨⟨rfl, rfl, rfl, rfl, rfl, rfl⟩, rfl⟩

theorem sameInstance_writePtrBlock {i : ℕ} {f : Flow AfsPrivate}
    (h : writePtrBlock k i ctx = some f) :
    f.Sat (SameInstance ctx) (SameInstance ctx) (fun _ => SameInstance ctx) :=
  (sameMap_writePtrBlock h).mono (fun _ h => h.toSameInstance) (fun _ h => h.toSameInstance)
    (fun _ _ h => h.toSameInstance)

theorem sameMap_writeMapBlocks_step {slot : Slot} {s : AfsPrivate × ℕ}
    {f g : Flow (AfsPrivate × ℕ)} (hs : SameMap ctx s.1)
    (hg : g = .brk s ∨ g = .ret 0 s)
    (h : (if (s.1.config.numMapBlocks + 2 ^ 32 - s.2) % 2 ^ 32 = 0 then some g
      else writeMapBlock false slot s) = some f) :
    f.Sat (fun t => SameMap ctx t.1) (fun t => SameMap ctx t.1)
      (fun _ t => SameMap ctx t.1) := by
  split_ifs at h
  · rw [← Option.some.inj h]
    rcases hg with rfl | rfl
    exacts [hs, hs]
  · exact (sameMap_writeMapBlock h).mono (fun _ => hs.trans) (fun _ => hs.trans)
      (fun _ _ => hs.trans)

theorem sameMap_writeMapBlocks (h : writeMapBlocks ctx false = some (ret, ctx')) :
    SameMap ctx ctx' := by
  simp only [writeMapBlocks, Option.bind_eq_bind, Option.bind_eq_some_iff] at h
  obtain ⟨f, hf, h⟩ := h
  have h1 := forLoop_inv (I := fun _ s => SameMap ctx s.1)
    (fun j s g _ _ hs hb => sameMap_writeMapBlocks_step hs (Or.inr rfl) hb)
    (SameMap.refl ctx) hf
  cases f with
  | ret c s =>
    simp only [Option.some.injEq, Prod.mk.injEq] at h
    rw [← h.2]
    exact h1
  | brk s => exact h1.elim
  | next s =>
    have hs : SameMap ctx s.1 := h1.elim id id
    simp only [Option.bind_eq_some_iff] at h
    obtain ⟨g, hg, h⟩ := h
    have h2 := forLoop_inv (I := fun _ s => SameMap ctx s.1)
      (B := fun s => SameMap ctx s.1) (R := fun _ s => SameMap ctx s.1)
      (fun i s g _ _ hs hb => by
        have := forLoop_inv (I := fun _ s => SameMap ctx s.1)
          (fun j s g _ _ hs hb => sameMap_writeMapBlocks_step hs (Or.inl rfl) hb) hs hb
        exact this.mono (fun _ hs => hs.elim id id) (fun _ => False.elim) (fun _ _ => id))
      hs hg
    cases g with
    | ret c s =>
      simp only [Option.some.injEq, Prod.mk.injEq] at h
      rw [← h.2]
      exact h2
    | brk s => exact h2.elim
    | next s =>
      simp only [Option.some.injEq, Prod.mk.injEq] at h
      rw [← h.2]
      exact h2.elim id id

theorem sameMap_writePtrBlocks (h : writePtrBlocks k ctx = some (ret, ctx')) :
    SameMap ctx ctx' := by
  simp only [writePtrBlocks, Option.bind_eq_bind, Option.bind_eq_some_iff] at h
  obtain ⟨⟨r, ctx₁⟩, hm, h⟩ := h
  have h1 := sameMap_writeMapBlocks hm
  split_ifs at h with hr
  · simp only [Option.some.injEq, Prod.mk.injEq] at h
    rw [← h.2]
    exact h1
  · simp only [Option.bind_eq_some_iff] at h
    obtain ⟨f, hf, h⟩ := h
    have h2 := forLoop_inv (I := fun _ => SameMap ctx)
      (fun j s g _ _ hs hb => (sameMap_writePtrBlock hb).mono (fun _ => hs.trans)
        (fun _ => hs.trans) (fun _ _ => hs.trans)) h1 hf
    cases f with
    | ret c s =>
      simp only [Option.some.injEq, Prod.mk.injEq] at h
      rw [← h.2]
      exact h2
    | brk s => exact h2.elim
    | next s =>
      simp only [Option.some.injEq, Prod.mk.injEq] at h
      rw [← h.2]
      exact h2.elim id id

/-! ### Reading the map back -/

theorem sameInstance_mark (ctx : AfsPrivate) (i : ℕ) : SameInstance ctx (mark ctx i) :=
  ⟨rfl, rfl, rfl, rfl, rfl, rfl⟩

theorem sameInstance_fillMapBlock {s : AfsPrivate × ℕ} {f : Flow (AfsPrivate × ℕ)}
    (h : fillMapBlock k b s = some f) :
    f.Sat (fun t => SameInstance s.1 t.1) (fun t => SameInstance s.1 t.1)
      (fun _ t => SameInstance s.1 t.1) := by
  simp only [fillMapBlock] at h
  split_ifs at h <;> simp only [Option.map_some, Option.map_none, Option.some.injEq,
    reduceCtorEq] at h <;> subst h <;> exact ⟨rfl, rfl, rfl, rfl, rfl, rfl⟩

theorem sameInstance_fillMapPb {page : Mem} {rounds i j : ℕ} {s t : AfsPrivate × ℕ}
    (h : fillMapPb k page rounds i s = some (j, t)) : SameInstance s.1 t.1 := by
  induction rounds generalizing i s with
  | zero => simp [fillMapPb] at h
  | succ rounds ih =>
    simp only [fillMapPb, Option.bind_eq_bind, Option.bind_eq_some_iff] at h
    obtain ⟨f, hf, h⟩ := h
    have hsame := sameInstance_fillMapBlock hf
    cases f with
    | brk s' =>
      simp only [Option.some.injEq, Prod.mk.injEq] at h
      rw [← h.2]
      exact hsame
    | next s' => exact SameInstance.trans hsame (ih h)
    | ret c s' => exact SameInstance.trans hsame (ih h)

theorem sameInstance_fillMapPtrBlocks {sb page : Mem} {rounds i : ℕ} {s t : AfsPrivate × ℕ}
    (h : fillMapPtrBlocks k sb rounds i page s = some t) : SameInstance s.1 t.1 := by
  induction rounds generalizing i page s with
  | zero => simp [fillMapPtrBlocks] at h
  | succ rounds ih =>
    rw [fillMapPtrBlocks] at h
    by_cases hi : i < s.1.config.numPtrBlocks
    · rw [if_pos hi] at h
      simp only [Option.bind_eq_bind, Option.bind_eq_some_iff] at h
      obtain ⟨⟨i', s'⟩, hpb, h⟩ := h
      have h1 := sameInstance_fillMapPb hpb
      exact ((sameInstance_mark _ _).trans h1).trans (ih h)
    · rw [if_neg hi] at h
      rw [← Option.some.inj h]
      exact SameInstance.refl _

theorem sameInstance_afsFillMap {sb : Mem} (h : afsFillMap k sb ctx = some (ret, ctx')) :
    SameInstance ctx ctx' := by
  simp only [afsFillMap] at h
  split_ifs at h
  · simp only [Option.bind_eq_bind, Option.bind_eq_some_iff] at h
    obtain ⟨f, hf, h⟩ := h
    have h1 := forLoop_inv (I := fun _ s => SameInstance ctx s.1)
      (fun j s g _ _ hs hb => (sameInstance_fillMapBlock hb).mono (fun _ => hs.trans)
        (fun _ => hs.trans) (fun _ _ => hs.trans)) (SameInstance.refl ctx) hf
    cases f with
    | ret c s =>
      simp only [Option.some.injEq, Prod.mk.injEq] at h
      rw [← h.2]
      exact h1
    | brk s => exact h1.elim
    | next s =>
      simp only [Option.bind_eq_some_iff] at h
      obtain ⟨s', hs', h⟩ := h
      have h2 := (h1.elim id id).trans (sameInstance_fillMapPtrBlocks hs')
      split_ifs at h <;>
      · simp only [Option.some.injEq, Prod.mk.injEq] at h
        rw [← h.2]
        exact h2
  · simp only [Option.some.injEq, Prod.mk.injEq] at h
    rw [← h.2]
    exact SameInstance.refl ctx

end

end Artifice
