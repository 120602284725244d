import Artifice.Config

/-!
The allocation vector and `acquire_block` (`dm_afs_allocation.c`, `lib/bit_vector.c`).

`get_random_bytes` is a list of the numbers it will return; a call that needs one more than the
list holds gives `none`, as does a division by an empty list length and a read past the end of
the `block_list` buffer.
-/

namespace Artifice

/-- `struct _bit_vector_t`: the bits of `array`, and `length`. -/
structure BitVector where
  bits : ℕ → Bool
  length : ℕ

/-- `bit_vector_get`; `-22` is `-EINVAL`. -/
def bitVectorGet (v : BitVector) (index : ℕ) : ℤ :=
  if index > v.length then -22 else if v.bits index then 1 else 0

/-- `bit_vector_set`. -/
def bitVectorSet (v : BitVector) (index : ℕ) : ℤ × BitVector :=
  if index > v.length then (-22, v) else (0, { v with bits := Function.update v.bits index true })

/-- `bit_vector_clear`. -/
def bitVectorClear (v : BitVector) (index : ℕ) : ℤ × BitVector :=
  if index > v.length then (-22, v) else (0, { v with bits := Function.update v.bits index false })

/-- `allocation_get`: an index past the vector reads as free. -/
def allocationGet (v : BitVector) (index : ℕ) : Bool :=
  let ret := bitVectorGet v index
  if ret < 0 then false else ret ≠ 0

/-- `allocation_set`: whether the index was free, and the vector with the index marked. -/
def allocationSet (v : BitVector) (index : ℕ) : Bool × BitVector :=
  if allocationGet v index then (false, v) else
    match bitVectorSet v index with
    | (ret, v') => if ret = 0 then (true, v') else (false, v')

/-- `allocation_free`. -/
def allocationFree (v : BitVector) (index : ℕ) : BitVector :=
  (bitVectorClear v index).2

/-- `struct afs_passive_fs`. `blockList` is the whole buffer, of which the free list is the first
`listLen` entries. -/
structure AfsPassiveFs where
  blockList : List ℕ
  listLen : ℕ
  sectorsPerBlock : ℕ
  totalBlocks : ℕ
  dataStartOff : ℕ
  blocksInTuple : ℕ

/-- The free list: the entries of `block_list` below `list_len`. -/
def AfsPassiveFs.freeList (fs : AfsPassiveFs) : List ℕ := fs.blockList.take fs.listLen

/-- `random_block_index`: the next random number, modulo the length of the free list. -/
def randomBlockIndex (fs : AfsPassiveFs) : List ℕ → Option (ℕ × List ℕ)
  | [] => none
  | r :: random => if fs.listLen = 0 then none else some (r % fs.listLen, random)

/-- The loop of `acquire_block`: it ends when a position could be marked, or when the position
it started from is drawn again. -/
def acquireLoop (fs : AfsPassiveFs) (v : BitVector) (currentNum : ℕ) :
    ℕ → List ℕ → Option (ℕ × BitVector × List ℕ)
  | blockNum, random =>
    match allocationSet v blockNum with
    | (true, v') => (fs.blockList[blockNum]?).map fun ret => (ret, v', random)
    | (false, _) =>
      match random with
      | [] => none
      | r :: random =>
        if fs.listLen = 0 then none
        else if r % fs.listLen ≠ currentNum then
          acquireLoop fs v currentNum (r % fs.listLen) random
        else some (afsInvalidBlock, v, random)

/-- `acquire_block`: the block, the vector after the call, and the random numbers left. -/
def acquireBlock (fs : AfsPassiveFs) (v : BitVector) (random : List ℕ) :
    Option (ℕ × BitVector × List ℕ) := do
  let (blockNum, random) ← randomBlockIndex fs random
  acquireLoop fs v blockNum blockNum random

/-! ### What the operations do -/

section

variable {v v' : BitVector} {fs : AfsPassiveFs} {i j p b : ℕ} {random random' : List ℕ}

/-- The vector with one more position marked. -/
def BitVector.mark (v : BitVector) (i : ℕ) : BitVector :=
  if i ≤ v.length then { v with bits := Function.update v.bits i true } else v

@[simp] theorem BitVector.mark_length : (v.mark i).length = v.length := by
  unfold mark
  split_ifs <;> rfl

theorem BitVector.mark_bits : (v.mark i).bits j = (v.bits j || decide (j = i ∧ i ≤ v.length)) := by
  unfold mark
  split_ifs with h
  · by_cases hj : j = i
    · subst hj
      simp [h]
    · simp [hj]
  · simp [h]

theorem allocationGet_eq : allocationGet v i = (decide (i ≤ v.length) && v.bits i) := by
  unfold allocationGet bitVectorGet
  by_cases h : i ≤ v.length
  · cases hb : v.bits i <;> simp [h, Nat.not_lt.2 h]
  · simp [h, Nat.lt_of_not_le h]

theorem BitVector.mark_eq_self (h : v.bits i = true) : v.mark i = v := by
  cases v with
  | mk bits length =>
    simp only at h
    unfold mark
    split_ifs
    · simp only [BitVector.mk.injEq, and_true]
      rw [← h, Function.update_eq_self]
    · rfl

theorem allocationSet_eq :
    allocationSet v i = (decide (i ≤ v.length) && !v.bits i, v.mark i) := by
  unfold allocationSet bitVectorSet
  rw [allocationGet_eq]
  by_cases h : i ≤ v.length
  · cases hb : v.bits i with
    | true => simp [h, BitVector.mark_eq_self hb]
    | false => simp [h, Nat.not_lt.2 h, BitVector.mark]
  · simp [h, Nat.lt_of_not_le h, BitVector.mark]

theorem allocationSet_taken {random₁ : List ℕ} {v₁ : BitVector} (hs : allocationSet v p = (true, v₁))
    (h : (fs.blockList[p]?).map (fun ret => (ret, v₁, random₁)) = some (b, v', random')) :
    p ≤ v.length ∧ v.bits p = false ∧ v' = v.mark p ∧ fs.blockList[p]? = some b := by
  rw [allocationSet_eq] at hs
  simp only [Prod.mk.injEq, Bool.and_eq_true, decide_eq_true_eq, Bool.not_eq_true'] at hs
  simp only [Option.map_eq_some_iff, Prod.mk.injEq] at h
  obtain ⟨ret, hret, rfl, rfl, -⟩ := h
  exact ⟨hs.1.1, hs.1.2, hs.2.symm, hret⟩

theorem acquireLoop_cases {currentNum blockNum : ℕ}
    (h : acquireLoop fs v currentNum blockNum random = some (b, v', random'))
    (hlt : blockNum < fs.listLen) :
    (∃ p < fs.listLen, p ≤ v.length ∧ v.bits p = false ∧ v' = v.mark p ∧
      fs.blockList[p]? = some b) ∨
    (b = afsInvalidBlock ∧ v' = v) := by
  induction random generalizing blockNum with
  | nil =>
    unfold acquireLoop at h
    split at h
    next hs => exact Or.inl ⟨blockNum, hlt, allocationSet_taken hs h⟩
    next => simp at h
  | cons r random ih =>
    unfold acquireLoop at h
    split at h
    next hs => exact Or.inl ⟨blockNum, hlt, allocationSet_taken hs h⟩
    next =>
      simp only at h
      split_ifs at h with h0 hr
      · exact ih h (Nat.mod_lt _ (by omega))
      · simp only [Option.some.injEq, Prod.mk.injEq] at h
        exact Or.inr ⟨h.1.symm, h.2.1.symm⟩

/-- **All that `acquire_block` can do.** It marks a free position of the list and returns the
entry there, or it returns the invalid block and leaves the vector. -/
theorem acquireBlock_cases (h : acquireBlock fs v random = some (b, v', random')) :
    (∃ p < fs.listLen, p ≤ v.length ∧ v.bits p = false ∧ v' = v.mark p ∧
      fs.blockList[p]? = some b) ∨
    (b = afsInvalidBlock ∧ v' = v) := by
  cases random with
  | nil => simp [acquireBlock, randomBlockIndex] at h
  | cons r random =>
    simp only [acquireBlock, randomBlockIndex] at h
    split_ifs at h with h0
    · simp at h
    · exact acquireLoop_cases h (Nat.mod_lt _ (by omega))

theorem acquireBlock_of_free (hp : p < fs.listLen) (hv : p ≤ v.length) (hf : v.bits p = false)
    (hb : fs.blockList[p]? = some b) (random : List ℕ) :
    acquireBlock fs v (p :: random) = some (b, v.mark p, random) := by
  have h0 : fs.listLen ≠ 0 := by omega
  simp only [acquireBlock, randomBlockIndex, h0, if_false, Nat.mod_eq_of_lt hp]
  simp only [Option.bind_eq_bind, Option.bind_some]
  unfold acquireLoop
  rw [allocationSet_eq]
  simp [hv, hf, hb]

/-! ### Marked positions, and runs of `acquire_block` -/

/-- From `v` to `v'`, the positions in `S` were marked. -/
structure Marked (v v' : BitVector) (S : Set ℕ) : Prop where
  length : v'.length = v.length
  bits : ∀ q ≤ v.length, v'.bits q = true ↔ v.bits q = true ∨ q ∈ S

theorem Marked.refl (v : BitVector) : Marked v v ∅ := ⟨rfl, by simp⟩

theorem Marked.mark {S : Set ℕ} (h : Marked v v' S) (i : ℕ) : Marked v (v'.mark i) (insert i S) := by
  refine ⟨by rw [BitVector.mark_length, h.length], fun q hq => ?_⟩
  rw [BitVector.mark_bits, Bool.or_eq_true, h.bits q hq, decide_eq_true_eq, h.length,
    Set.mem_insert_iff]
  constructor
  · rintro ((hv | hS) | ⟨rfl, -⟩)
    exacts [Or.inl hv, Or.inr (Or.inr hS), Or.inr (Or.inl rfl)]
  · rintro (hv | rfl | hS)
    exacts [Or.inl (Or.inl hv), Or.inr ⟨rfl, hq⟩, Or.inl (Or.inr hS)]

theorem Marked.trans {v'' : BitVector} {S S' : Set ℕ} (h : Marked v v' S) (h' : Marked v' v'' S') :
    Marked v v'' (S ∪ S') := by
  refine ⟨h'.length.trans h.length, fun q hq => ?_⟩
  rw [h'.bits q (by rw [h.length]; exact hq), h.bits q hq, Set.mem_union, or_assoc]

/-- A run of calls of `acquire_block`, each with its own random numbers, and the blocks that they
return. -/
inductive Acquires (fs : AfsPassiveFs) : BitVector → List ℕ → BitVector → Prop
  | nil (v : BitVector) : Acquires fs v [] v
  | cons {v v₁ v' : BitVector} {b : ℕ} {bs random random' : List ℕ}
      (call : acquireBlock fs v random = some (b, v₁, random')) (rest : Acquires fs v₁ bs v') :
      Acquires fs v (b :: bs) v'

theorem Acquires.free {bs : List ℕ} (h : Acquires fs v bs v') (hb : b ∈ bs)
    (hne : b ≠ afsInvalidBlock) :
    ∃ p < fs.listLen, p ≤ v.length ∧ v.bits p = false ∧ fs.blockList[p]? = some b := by
  induction h with
  | nil v => simp at hb
  | cons call rest ih =>
    rcases List.mem_cons.1 hb with rfl | hb
    · rcases acquireBlock_cases call with ⟨p, hp, hv, hf, -, hx⟩ | ⟨rfl, -⟩
      · exact ⟨p, hp, hv, hf, hx⟩
      · exact absurd rfl hne
    · obtain ⟨p, hp, hv, hf, hx⟩ := ih hb
      rcases acquireBlock_cases call with ⟨q, -, -, -, rfl, -⟩ | ⟨-, rfl⟩
      · rw [BitVector.mark_length] at hv
        rw [BitVector.mark_bits, Bool.or_eq_false_iff] at hf
        exact ⟨p, hp, hv, hf.1, hx⟩
      · exact ⟨p, hp, hv, hf, hx⟩

/-- **What runs can return**: the blocks of the free positions, each of them in some run. -/
theorem acquires_iff (hne : b ≠ afsInvalidBlock) :
    (∃ bs v', Acquires fs v bs v' ∧ b ∈ bs) ↔
      ∃ p < fs.listLen, p ≤ v.length ∧ v.bits p = false ∧ fs.blockList[p]? = some b := by
  constructor
  · rintro ⟨bs, v', h, hb⟩
    exact h.free hb hne
  · rintro ⟨p, hp, hv, hf, hx⟩
    exact ⟨[b], v.mark p, .cons (acquireBlock_of_free hp hv hf hx []) (.nil _), by simp⟩

end

end Artifice
