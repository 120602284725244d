import Artifice.Allocation
import Artifice.Lib.Sorted

/-!
What runs of `acquire_block` give, and when a call gives up.

Each call returns a block of the free list and marks its position, or returns the invalid block and
marks nothing; so a run over a free list without repetitions never returns a block twice. A call
gives up when the position that it drew first is drawn again. That says nothing about the positions
which it never drew.
-/

namespace Artifice

/-- What a call of `acquire_block` that returns `b` has done: it has marked the position of `b`,
which was free, or nothing at all. -/
def SoundCall (fs : AfsPassiveFs) (v : BitVector) (b : ℕ) (v' : BitVector) : Prop :=
  if b = afsInvalidBlock then v' = v
  else ∃ p, fs.freeList[p]? = some b ∧ v.bits p = false ∧
    v' = { v with bits := Function.update v.bits p true }

section

variable {fs : AfsPassiveFs} {v v₁ v₂ v' : BitVector} {b p : ℕ} {bs random random' : List ℕ}

/-! ### Runs -/

theorem acquireBlock_sound (hlt : ∀ b ∈ fs.freeList, b < afsInvalidBlock)
    (h : acquireBlock fs v random = some (b, v', random')) : SoundCall fs v b v' := by
  rcases acquireBlock_cases h with ⟨p, hp, hlen, hfree, rfl, hb⟩ | ⟨rfl, rfl⟩
  · have hmem : fs.freeList[p]? = some b := (List.getElem?_take_of_lt hp).trans hb
    have hne := (hlt b (List.mem_of_getElem? hmem)).ne
    rw [SoundCall, if_neg hne]
    exact ⟨p, hmem, hfree, by rw [BitVector.mark, if_pos hlen]⟩
  · rw [SoundCall, if_pos rfl]

theorem SoundCall.free (h : SoundCall fs v b v') (hne : b ≠ afsInvalidBlock) :
    ∃ p, fs.freeList[p]? = some b ∧ v.bits p = false ∧ v'.bits p = true := by
  rw [SoundCall, if_neg hne] at h
  obtain ⟨p, hp, hfree, rfl⟩ := h
  exact ⟨p, hp, hfree, by simp⟩

theorem Acquires.notMarked (h : Acquires fs v bs v') (hb : b ∈ bs) (hne : b ≠ afsInvalidBlock) :
    ∃ p, fs.freeList[p]? = some b ∧ v.bits p = false := by
  obtain ⟨p, hp, -, hfree, hb⟩ := h.free hb hne
  exact ⟨p, (List.getElem?_take_of_lt hp).trans hb, hfree⟩

/-- No block is returned twice. -/
theorem Acquires.nodup (hinc : fs.freeList.Pairwise (· < ·))
    (hlt : ∀ b ∈ fs.freeList, b < afsInvalidBlock) (h : Acquires fs v bs v') :
    (bs.filter (· ≠ afsInvalidBlock)).Nodup := by
  induction h with
  | nil => exact List.nodup_nil
  | @cons v v₁ v' b bs random random' call rest ih =>
    by_cases hne : b = afsInvalidBlock
    · rwa [List.filter_cons_of_neg (by simpa using hne)]
    · rw [List.filter_cons_of_pos (by simpa using hne), List.nodup_cons]
      refine ⟨fun hmem => ?_, ih⟩
      obtain ⟨p, hp, -, hset⟩ := (acquireBlock_sound hlt call).free hne
      obtain ⟨q, hq, hfree⟩ := rest.notMarked (List.mem_filter.1 hmem).1 hne
      -- the position of a block is unique, and it is marked after the first call
      obtain ⟨hpl, hpb⟩ := List.getElem?_eq_some_iff.1 hp
      obtain ⟨hql, hqb⟩ := List.getElem?_eq_some_iff.1 hq
      have hpq : p = q := Lib.getElem_inj hinc hpl hql (hpb.trans hqb.symm)
      rw [hpq, hfree] at hset
      cases hset

theorem Acquires.call_at {pre post : List ℕ} (h : Acquires fs v (pre ++ b :: post) v') :
    ∃ v₁ random v₂ random', Acquires fs v pre v₁ ∧
      acquireBlock fs v₁ random = some (b, v₂, random') ∧ Acquires fs v₂ post v' := by
  induction pre generalizing v with
  | nil =>
    cases h with
    | cons call rest => exact ⟨v, _, _, _, .nil v, call, rest⟩
  | cons c pre ih =>
    cases h with
    | cons call rest =>
      obtain ⟨v₁, random, v₂, random', hpre, hcall, hpost⟩ := ih rest
      exact ⟨v₁, random, v₂, random', .cons call hpre, hcall, hpost⟩

/-- **Allocation is sound over runs**: each call of a run returns a block of the free list and marks
its position, which was free, or returns the invalid block and marks nothing; and the blocks that
the run returns are distinct. -/
theorem acquires_sound (hinc : fs.freeList.Pairwise (· < ·))
    (hlt : ∀ b ∈ fs.freeList, b < afsInvalidBlock) (h : Acquires fs v bs v') :
    (∀ pre b post, bs = pre ++ b :: post → ∃ v₁ v₂, Acquires fs v pre v₁ ∧
      SoundCall fs v₁ b v₂ ∧ Acquires fs v₂ post v') ∧
    (bs.filter (· ≠ afsInvalidBlock)).Nodup := by
  refine ⟨fun pre b post hbs => ?_, h.nodup hinc hlt⟩
  subst hbs
  obtain ⟨v₁, random, v₂, random', hpre, hcall, hpost⟩ := h.call_at
  exact ⟨v₁, v₂, hpre, acquireBlock_sound hlt hcall, hpost⟩

/-! ### When a call gives up -/

/-- `allocation_set` would mark the position. -/
def Takable (v : BitVector) (p : ℕ) : Prop := p ≤ v.length ∧ v.bits p = false

/-- The position that the random number at place `m` stands for. -/
def draw (fs : AfsPassiveFs) (random : List ℕ) (m : ℕ) : ℕ := random.getD m 0 % fs.listLen

/-- The first position is drawn again, and nothing that was drawn before could be marked. -/
def DrawnAgain (fs : AfsPassiveFs) (v : BitVector) (random : List ℕ) : Prop :=
  ∃ m < random.length, 0 < m ∧ draw fs random m = draw fs random 0 ∧
    ∀ j < m, ¬ Takable v (draw fs random j)

/-- The first position that is drawn and can be marked holds the invalid block. -/
def InvalidListed (fs : AfsPassiveFs) (v : BitVector) (random : List ℕ) : Prop :=
  ∃ m < random.length, Takable v (draw fs random m) ∧
    fs.blockList[draw fs random m]? = some afsInvalidBlock ∧
    ∀ j < m, ¬ Takable v (draw fs random j) ∧ (0 < j → draw fs random j ≠ draw fs random 0)

@[simp] theorem draw_cons_zero (r : ℕ) : draw fs (r :: random) 0 = r % fs.listLen := rfl

@[simp] theorem draw_cons_succ (r m : ℕ) : draw fs (r :: random) (m + 1) = draw fs random m := rfl

theorem allocationSet_takable (h : Takable v p) : allocationSet v p = (true, v.mark p) := by
  rw [allocationSet_eq, h.2, decide_eq_true h.1]
  rfl

theorem allocationSet_not_takable (h : ¬ Takable v p) : (allocationSet v p).1 = false := by
  rw [allocationSet_eq]
  by_contra hne
  simp only [Bool.not_eq_false, Bool.and_eq_true, decide_eq_true_eq, Bool.not_eq_true'] at hne
  exact h hne

theorem acquireLoop_takable {currentNum : ℕ} (h : Takable v p) :
    acquireLoop fs v currentNum p random =
      (fs.blockList[p]?).map fun ret => (ret, v.mark p, random) := by
  unfold acquireLoop
  rw [allocationSet_takable h]

theorem acquireLoop_nil {currentNum : ℕ} (h : ¬ Takable v p) :
    acquireLoop fs v currentNum p [] = none := by
  have hset := allocationSet_not_takable h
  unfold acquireLoop
  split
  next hs => rw [hs] at hset; cases hset
  next => rfl

theorem acquireLoop_cons {currentNum r : ℕ} (h : ¬ Takable v p) (hpos : fs.listLen ≠ 0) :
    acquireLoop fs v currentNum p (r :: random) =
      if r % fs.listLen ≠ currentNum then
        acquireLoop fs v currentNum (r % fs.listLen) random
      else some (afsInvalidBlock, v, random) := by
  have hset := allocationSet_not_takable h
  conv_lhs => unfold acquireLoop
  split
  next hs => rw [hs] at hset; cases hset
  next => exact if_neg hpos

theorem acquireLoop_invalid {currentNum : ℕ} (hpos : fs.listLen ≠ 0) :
    (∃ v' random', acquireLoop fs v currentNum p random =
      some (afsInvalidBlock, v', random')) ↔
    (Takable v p ∧ fs.blockList[p]? = some afsInvalidBlock) ∨
    (¬ Takable v p ∧ ∃ m < random.length,
      (∀ j < m, draw fs random j ≠ currentNum ∧ ¬ Takable v (draw fs random j)) ∧
      (draw fs random m = currentNum ∨ (Takable v (draw fs random m) ∧
        fs.blockList[draw fs random m]? = some afsInvalidBlock))) := by
  induction random generalizing p with
  | nil =>
    by_cases ht : Takable v p
    · simp [acquireLoop_takable ht, ht]
    · simp [acquireLoop_nil ht, ht]
  | cons r random ih =>
    by_cases ht : Takable v p
    · simp [acquireLoop_takable ht, ht]
    · rw [acquireLoop_cons ht hpos]
      simp only [ht, false_and, false_or, not_false_eq_true, true_and, List.length_cons]
      by_cases hr : r % fs.listLen = currentNum
      · rw [if_neg (not_not.2 hr)]
        exact iff_of_true ⟨v, random, rfl⟩
          ⟨0, Nat.succ_pos _, fun j hj => absurd hj (Nat.not_lt_zero j), .inl hr⟩
      · rw [if_pos hr, ih]
        constructor
        · rintro (⟨ht', hb⟩ | ⟨ht', m, hm, hbefore, hlast⟩)
          · exact ⟨0, Nat.succ_pos _, fun j hj => absurd hj (Nat.not_lt_zero j), .inr ⟨ht', hb⟩⟩
          · refine ⟨m + 1, Nat.succ_lt_succ hm, fun j hj => ?_, hlast⟩
            cases j with
            | zero => exact ⟨hr, ht'⟩
            | succ j => exact hbefore j (Nat.lt_of_succ_lt_succ hj)
        · rintro ⟨m, hm, hbefore, hlast⟩
          cases m with
          | zero => exact .inl (hlast.resolve_left hr)
          | succ m =>
            exact .inr ⟨(hbefore 0 (Nat.succ_pos m)).2, m, Nat.lt_of_succ_lt_succ hm,
              fun j hj => hbefore (j + 1) (Nat.succ_lt_succ hj), hlast⟩

/-- **When `acquire_block` returns the invalid block.** -/
theorem acquireBlock_invalid (hpos : fs.listLen ≠ 0) :
    (∃ v' random', acquireBlock fs v random = some (afsInvalidBlock, v', random')) ↔
      DrawnAgain fs v random ∨ InvalidListed fs v random := by
  cases random with
  | nil => simp [acquireBlock, randomBlockIndex, DrawnAgain, InvalidListed]
  | cons r random =>
    simp only [acquireBlock, randomBlockIndex, hpos, if_false, Option.bind_eq_bind,
      Option.bind_some]
    rw [acquireLoop_invalid hpos]
    constructor
    · rintro (⟨ht, hb⟩ | ⟨ht, m, hm, hbefore, hlast⟩)
      · exact .inr ⟨0, Nat.succ_pos _, ht, hb, fun j hj => absurd hj (Nat.not_lt_zero j)⟩
      · have hnot : ∀ j < m + 1, ¬ Takable v (draw fs (r :: random) j) ∧
            (0 < j → draw fs (r :: random) j ≠ draw fs (r :: random) 0) := by
          intro j hj
          cases j with
          | zero => exact ⟨ht, fun h0 => absurd h0 (Nat.lt_irrefl 0)⟩
          | succ j =>
            obtain ⟨hne, ht'⟩ := hbefore j (Nat.lt_of_succ_lt_succ hj)
            exact ⟨ht', fun _ => hne⟩
        rcases hlast with heq | ⟨ht', hb⟩
        · exact .inl ⟨m + 1, Nat.succ_lt_succ hm, Nat.succ_pos m, heq, fun j hj => (hnot j hj).1⟩
        · exact .inr ⟨m + 1, Nat.succ_lt_succ hm, ht', hb, hnot⟩
    · rintro (⟨m, hm, h0, heq, hnot⟩ | ⟨m, hm, ht, hb, hbefore⟩)
      · -- the first time that it is drawn again
        have hex : ∃ j, draw fs random j = r % fs.listLen := by
          obtain ⟨j, rfl⟩ := Nat.exists_eq_succ_of_ne_zero h0.ne'
          exact ⟨j, heq⟩
        have hle : Nat.find hex + 1 ≤ m := by
          obtain ⟨j, rfl⟩ := Nat.exists_eq_succ_of_ne_zero h0.ne'
          exact Nat.succ_le_succ (Nat.find_min' hex heq)
        rw [List.length_cons] at hm
        exact .inr ⟨hnot 0 h0, Nat.find hex, by omega, fun j hj => ⟨Nat.find_min hex hj,
          hnot (j + 1) (by omega)⟩, .inl (Nat.find_spec hex)⟩
      · cases m with
        | zero => exact .inl ⟨ht, hb⟩
        | succ m =>
          exact .inr ⟨(hbefore 0 (Nat.succ_pos m)).1, m, Nat.lt_of_succ_lt_succ hm, fun j hj =>
            ⟨(hbefore (j + 1) (Nat.succ_lt_succ hj)).2 (Nat.succ_pos j),
              (hbefore (j + 1) (Nat.succ_lt_succ hj)).1⟩, .inr ⟨ht, hb⟩⟩

/-- A call of `acquire_block` that returns the invalid block finds every position marked. -/
def NoSpuriousExhaustion (fs : AfsPassiveFs) (v : BitVector) (random : List ℕ) : Prop :=
  ∀ v' random', acquireBlock fs v random = some (afsInvalidBlock, v', random') →
    ∀ p < fs.listLen, allocationGet v p = true

/-- **When exhaustion is not spurious**: exactly when all positions are marked, or a position that can
be marked, with a block, is drawn before the first position is drawn again. -/
theorem noSpuriousExhaustion_iff (hpos : fs.listLen ≠ 0) :
    NoSpuriousExhaustion fs v random ↔ (∀ p < fs.listLen, allocationGet v p = true) ∨
      (¬ DrawnAgain fs v random ∧ ¬ InvalidListed fs v random) := by
  have hinv : (∃ v' random', acquireBlock fs v random = some (afsInvalidBlock, v', random')) ↔ _ :=
    acquireBlock_invalid hpos
  rw [← not_or, ← hinv, NoSpuriousExhaustion]
  constructor
  · intro h
    by_cases hret : ∃ v' random', acquireBlock fs v random = some (afsInvalidBlock, v', random')
    · obtain ⟨v', random', hret⟩ := hret
      exact .inl (h v' random' hret)
    · exact .inr hret
  · rintro (hall | hnone) v' random' hret
    · exact hall
    · exact absurd ⟨v', random', hret⟩ hnone

end

/-- A free list of two blocks. -/
def twoBlocks : AfsPassiveFs := ⟨[3, 7], 2, 8, 16, 0, 0⟩

/-- Two calls that draw both positions. -/
theorem acquires_both : ∃ v v₁ v', Acquires twoBlocks v [7, 3] v' ∧ Acquires twoBlocks v [7] v₁ ∧
    SoundCall twoBlocks v₁ 3 v' ∧ ([7, 3].filter (· ≠ afsInvalidBlock)).Nodup := by
  let v : BitVector := ⟨fun _ => false, 2 ^ 32 - 1⟩
  have h1 : acquireBlock twoBlocks v [1] = some (7, v.mark 1, []) :=
    acquireBlock_of_free (by decide) (by decide) rfl rfl []
  have h0 : acquireBlock twoBlocks (v.mark 1) [0] = some (3, (v.mark 1).mark 0, []) :=
    acquireBlock_of_free (by decide) (by decide) rfl rfl []
  have hrun : Acquires twoBlocks v [7, 3] ((v.mark 1).mark 0) := .cons h1 (.cons h0 (.nil _))
  obtain ⟨hcalls, hnodup⟩ := acquires_sound (by decide) (by decide) hrun
  obtain ⟨v₁, v₂, hpre, hcall, hpost⟩ := hcalls [7] 3 [] rfl
  cases hpost
  exact ⟨v, v₁, _, hrun, hpre, hcall, hnodup⟩

/-- A call that draws position 1 while only position 0 is marked. -/
theorem noSpuriousExhaustion_free :
    NoSpuriousExhaustion twoBlocks ⟨fun p => p = 0, 2 ^ 32 - 1⟩ [0, 1] := by
  refine (noSpuriousExhaustion_iff (by decide)).2 (.inr ⟨?_, ?_⟩)
  · rintro ⟨m, hm, h0, heq, -⟩
    obtain rfl : m = 1 := by
      simp only [List.length_cons, List.length_nil] at hm
      omega
    exact absurd heq (by decide)
  · rintro ⟨m, -, -, hb, -⟩
    have hmem := List.mem_of_getElem? hb
    revert hmem
    decide

/-- A call that draws position 0 twice while position 1 is free. -/
theorem not_noSpuriousExhaustion :
    ¬ NoSpuriousExhaustion twoBlocks ⟨fun p => p = 0, 2 ^ 32 - 1⟩ [0, 0] := by
  intro h
  have hcall : acquireBlock twoBlocks ⟨fun p => p = 0, 2 ^ 32 - 1⟩ [0, 0] =
      some (afsInvalidBlock, ⟨fun p => p = 0, 2 ^ 32 - 1⟩, []) := rfl
  exact absurd (h _ _ hcall 1 (by decide)) (by decide)

end Artifice
