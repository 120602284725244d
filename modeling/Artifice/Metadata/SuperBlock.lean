import Artifice.Metadata.Frame
import Artifice.Lib.Sorted
import Mathlib.Data.Nat.Nth

/-!
The super block: where `write_super_block` puts its replicas and where `find_super_block` looks.

Both walk the hash chain of the passphrase and stop at a block number that passes the free list
test (`binary_search`). The chain and the numbers it yields are `chainHash` and `chainValue`; the
placement loops stop at the first eight chain values that pass the test (`placeReplicas_nth`).
-/

namespace Artifice

open Lib

/-! ### The free list test -/

theorem toInt32_of_mem {x : ℤ} (h : -2 ^ 31 ≤ x) (h' : x < 2 ^ 31) : toInt32 x = x := by
  unfold toInt32
  omega

/-- The middle of an interval is inside it, unless the sum of its ends overflows; then it is
negative. -/
theorem middle_cases {first last : ℤ} (h0 : 0 ≤ first) (h : first ≤ last) (h1 : last < 2 ^ 31) :
    ((toInt32 (first + last)).tdiv 2 = (first + last) / 2 ∧ first + last < 2 ^ 31) ∨
      ((toInt32 (first + last)).tdiv 2 < 0 ∧ 2 ^ 31 ≤ first + last) := by
  rcases lt_or_ge (first + last) (2 ^ 31) with hs | hs
  · left
    rw [toInt32_of_mem (by omega) hs, Int.tdiv_eq_ediv_of_nonneg (by omega)]
    exact ⟨rfl, hs⟩
  · right
    refine ⟨?_, hs⟩
    have ht : toInt32 (first + last) = -(2 ^ 32 - (first + last)) := by
      unfold toInt32
      omega
    rw [ht, Int.neg_tdiv, Int.tdiv_eq_ediv_of_nonneg (by omega)]
    omega

section BinarySearch

variable {array : List ℕ} {value length rounds : ℕ} {first last index : ℤ}

theorem binarySearchLoop_round (hf : 0 ≤ first) (h1 : first ≤ last) (hs : first + last < 2 ^ 31) :
    binarySearchLoop array value (rounds + 1) first last =
      array[((first + last) / 2).toNat]?.bind fun x =>
        if x < value then binarySearchLoop array value rounds ((first + last) / 2 + 1) last
        else if x = value then some ((first + last) / 2)
        else binarySearchLoop array value rounds first ((first + last) / 2 - 1) := by
  rw [binarySearchLoop, if_pos h1]
  rcases middle_cases hf h1 (by omega) with ⟨hm, -⟩ | ⟨-, hs'⟩
  · simp only [hm]
    rw [if_neg (by omega), toInt32_of_mem (by omega) (by omega),
      toInt32_of_mem (by omega) (by omega)]
    cases array[((first + last) / 2).toNat]? with
    | none => rfl
    | some x => rfl
  · omega

theorem binarySearchLoop_overflow (hf : 0 ≤ first) (h1 : first ≤ last) (hl : last < 2 ^ 31)
    (hs : 2 ^ 31 ≤ first + last) : binarySearchLoop array value rounds first last = none := by
  cases rounds with
  | zero => rfl
  | succ n =>
    rw [binarySearchLoop, if_pos h1]
    rcases middle_cases hf h1 hl with ⟨-, hs'⟩ | ⟨hm, -⟩
    · omega
    · exact if_pos hm

/-- **The ways of a round** of a search that returns. -/
theorem binarySearchLoop_cases (hf : 0 ≤ first) (h1 : first ≤ last) (hl : last < 2 ^ 31)
    (h : binarySearchLoop array value (rounds + 1) first last = some index) :
    first + last < 2 ^ 31 ∧ ∃ x, array[((first + last) / 2).toNat]? = some x ∧
      ((x < value ∧
          binarySearchLoop array value rounds ((first + last) / 2 + 1) last = some index) ∨
        (x = value ∧ index = (first + last) / 2) ∨
        (value < x ∧
          binarySearchLoop array value rounds first ((first + last) / 2 - 1) = some index)) := by
  have hs : first + last < 2 ^ 31 := by
    by_contra hge
    rw [binarySearchLoop_overflow hf h1 hl (by omega)] at h
    cases h
  rw [binarySearchLoop_round hf h1 hs, Option.bind_eq_some_iff] at h
  obtain ⟨x, hx, h⟩ := h
  refine ⟨hs, x, hx, ?_⟩
  split_ifs at h with hlt heq
  · exact Or.inl ⟨hlt, h⟩
  · exact Or.inr (Or.inl ⟨heq, (Option.some.inj h).symm⟩)
  · exact Or.inr (Or.inr ⟨by omega, h⟩)

theorem binarySearchLoop_sound (hf : 0 ≤ first) (hl : last < 2 ^ 31)
    (h : binarySearchLoop array value rounds first last = some index) :
    index = -1 ∨ 0 ≤ index ∧ index ≤ last ∧ array[index.toNat]? = some value := by
  induction rounds generalizing first last with
  | zero => simp [binarySearchLoop] at h
  | succ n ih =>
    by_cases h1 : first ≤ last
    · obtain ⟨hs, x, hx, ⟨-, h⟩ | ⟨rfl, rfl⟩ | ⟨-, h⟩⟩ := binarySearchLoop_cases hf h1 hl h
      · exact ih (by omega) hl h
      · exact Or.inr ⟨by omega, by omega, hx⟩
      · exact (ih hf (by omega) h).imp_right fun hi => ⟨hi.1, by omega, hi.2.2⟩
    · rw [binarySearchLoop, if_neg h1] at h
      exact Or.inl (Option.some.inj h).symm

theorem binarySearch_sound (hlen : length < 2 ^ 32)
    (h : binarySearch array value length = some index) (hi : index ≠ -1) :
    index.toNat < length ∧ array[index.toNat]? = some value := by
  have hl : toInt32 ((length : ℤ) - 1) < 2 ^ 31 ∧ toInt32 ((length : ℤ) - 1) < length := by
    unfold toInt32
    omega
  obtain ⟨h0, h1, h2⟩ := (binarySearchLoop_sound (le_refl 0) hl.1 h).resolve_left hi
  exact ⟨by omega, h2⟩

/-- The entries of `array` below `length` are strictly increasing. -/
def Increasing (array : List ℕ) (length : ℕ) : Prop :=
  ∀ i j x y, i < j → j < length → array[i]? = some x → array[j]? = some y → x < y

theorem increasing_of_pairwise (h : (array.take length).Pairwise (· < ·)) :
    Increasing array length := by
  intro i j x y hij hj hx hy
  obtain ⟨hi', rfl⟩ := List.getElem?_eq_some_iff.1 hx
  obtain ⟨hj', rfl⟩ := List.getElem?_eq_some_iff.1 hy
  have hl : j < (array.take length).length := by
    rw [List.length_take]
    omega
  have := getElem_lt h hij hl
  rwa [List.getElem_take, List.getElem_take] at this

theorem binarySearchLoop_complete (hinc : Increasing array length) (hlen : length ≤ 2 ^ 31)
    (h : binarySearchLoop array value rounds first last = some (-1))
    (hf : 0 ≤ first) (hl : last < length)
    (hlo : ∀ i x : ℕ, (i : ℤ) < first → array[i]? = some x → x < value)
    (hhi : ∀ i x : ℕ, last < i → i < length → array[i]? = some x → value < x) :
    ∀ i < length, array[i]? ≠ some value := by
  induction rounds generalizing first last with
  | zero => simp [binarySearchLoop] at h
  | succ n ih =>
    by_cases h1 : first ≤ last
    · obtain ⟨hs, x, hx, ⟨hlt, h⟩ | ⟨-, hindex⟩ | ⟨hlt, h⟩⟩ :=
        binarySearchLoop_cases hf h1 (by omega) h
      · -- the entries up to the middle are below its own
        refine ih h (by omega) hl (fun i y hi hy => ?_) hhi
        rcases Nat.lt_or_ge i (((first + last) / 2).toNat) with hbefore | hge
        · exact (hinc i _ y x hbefore (by omega) hy hx).trans hlt
        · obtain rfl : i = ((first + last) / 2).toNat := by omega
          simp only [hx, Option.some.injEq] at hy
          omega
      · omega
      · refine ih h hf (by omega) hlo (fun i y hi hi' hy => ?_)
        rcases Nat.lt_or_ge ((first + last) / 2).toNat i with hbehind | hge
        · exact hlt.trans (hinc _ i x y hbehind hi' hx hy)
        · obtain rfl : i = ((first + last) / 2).toNat := by omega
          simp only [hx, Option.some.injEq] at hy
          omega
    · intro i hi hx
      rcases lt_or_ge (i : ℤ) first with hlt | hge
      · exact absurd (hlo i value hlt hx) (lt_irrefl _)
      · exact absurd (hhi i value (by omega) hi hx) (lt_irrefl _)

theorem binarySearch_complete (hinc : Increasing array length) (hlen : length ≤ 2 ^ 31)
    (h : binarySearch array value length = some (-1)) :
    ∀ i < length, array[i]? ≠ some value := by
  unfold binarySearch at h
  rw [toInt32_of_mem (by omega) (by omega)] at h
  refine binarySearchLoop_complete hinc hlen h (le_refl 0) (by omega) (fun i x hi => ?_)
    (fun i x hi => ?_) <;> omega

theorem binarySearch_of_long (hlen : 2 ^ 31 < length) (hlen' : length < 2 ^ 32) :
    binarySearch array value length = some (-1) := by
  unfold binarySearch binarySearchLoop
  rw [if_neg]
  unfold toInt32
  omega

theorem binarySearchLoop_returns (hlen : length ≤ array.length) (hl30 : length ≤ 2 ^ 30)
    (hf : 0 ≤ first) (hl : last < length) (hr : last - first + 1 < 2 ^ rounds) :
    ∃ index, binarySearchLoop array value (rounds + 1) first last = some index := by
  induction rounds generalizing first last with
  | zero =>
    unfold binarySearchLoop
    rw [if_neg (by simp at hr; omega)]
    exact ⟨-1, rfl⟩
  | succ n ih =>
    by_cases h1 : first ≤ last
    · rw [binarySearchLoop_round hf h1 (by omega), List.getElem?_eq_getElem (by omega),
        Option.bind_some]
      rw [pow_succ] at hr
      split_ifs
      · exact ih (by omega) hl (by omega)
      · exact ⟨_, rfl⟩
      · exact ih hf (by omega) (by omega)
    · rw [binarySearchLoop, if_neg h1]
      exact ⟨-1, rfl⟩

end BinarySearch

/-! ### The chain -/

/-- The hashes of the chain: of the passphrase, then each of the one before. -/
def chainHash (k : Kernel) (passphrase : Mem) : ℕ → Mem
  | 0 => k.sha1 (bytes passphrase 0 64)
  | n + 1 => k.sha1 (bytes (chainHash k passphrase n) 0 20)

/-- The block numbers of the chain, on a device of `size` blocks. -/
def chainValue (k : Kernel) (passphrase : Mem) (size n : ℕ) : ℕ :=
  le (chainHash k passphrase n) 0 4 % size

/-- Whether a block number passes the free list test of `fs`. -/
def passes (fs : AfsPassiveFs) (b : ℕ) : Bool :=
  match binarySearch fs.blockList b fs.listLen with
  | some index => decide (index ≠ -1)
  | none => false

/-- Chain value `n` passes the free list test. -/
def ChainPasses (k : Kernel) (fs : AfsPassiveFs) (passphrase : Mem) (size n : ℕ) : Prop :=
  passes fs (chainValue k passphrase size n) = true

instance (k : Kernel) (fs : AfsPassiveFs) (passphrase : Mem) (size : ℕ) :
    DecidablePred (ChainPasses k fs passphrase size) := fun n =>
  inferInstanceAs (Decidable (passes fs (chainValue k passphrase size n) = true))

/-- The location of replica `i`: the chain value that is the `i`-th to pass the test. -/
noncomputable def replicaBlock (k : Kernel) (fs : AfsPassiveFs) (passphrase : Mem) (size i : ℕ) :
    ℕ :=
  chainValue k passphrase size (Nat.nth (ChainPasses k fs passphrase size) i)

section Chain

variable {k : Kernel} {fs : AfsPassiveFs} {passphrase : Mem} {size m n rounds : ℕ}

theorem passes_of_ne {b : ℕ} {index : ℤ}
    (h : binarySearch fs.blockList b fs.listLen = some index) (hi : index ≠ -1) :
    passes fs b = true := by
  simp [passes, h, hi]

theorem not_passes_of_eq {b : ℕ} (h : binarySearch fs.blockList b fs.listLen = some (-1)) :
    passes fs b = false := by
  simp [passes, h]

theorem exists_of_passes {b : ℕ} (h : passes fs b = true) :
    ∃ index, binarySearch fs.blockList b fs.listLen = some index ∧ index ≠ -1 := by
  unfold passes at h
  split at h
  next index hi => exact ⟨index, hi, by simpa using h⟩
  next => simp at h

theorem mem_freeList_of_passes {b : ℕ} (hlen : fs.listLen < 2 ^ 32) (h : passes fs b = true) :
    b ∈ fs.freeList := by
  obtain ⟨index, hi, hne⟩ := exists_of_passes h
  obtain ⟨hlt, hx⟩ := binarySearch_sound hlen hi hne
  exact List.mem_of_getElem? ((List.getElem?_take_of_lt hlt).trans hx)

theorem rehashLoop_spec {t t' v : ℕ} {h : Mem}
    (hr : rehashLoop k fs size rounds (chainHash k passphrase m)
      (chainValue k passphrase size m) t = some (h, v, t')) :
    ∃ n, m ≤ n ∧ n < m + rounds ∧ h = chainHash k passphrase n ∧
      v = chainValue k passphrase size n ∧
      passes fs (chainValue k passphrase size n) = true ∧
      ∀ j, m ≤ j → j < n →
        binarySearch fs.blockList (chainValue k passphrase size j) fs.listLen = some (-1) := by
  induction rounds generalizing m t with
  | zero => simp [rehashLoop] at hr
  | succ r ih =>
    simp only [rehashLoop, Option.bind_eq_bind, Option.bind_eq_some_iff] at hr
    obtain ⟨index, hi, hr⟩ := hr
    split_ifs at hr with hne
    · subst hne
      obtain ⟨n, hn, hn', h1, h2, h3, h4⟩ := ih (m := m + 1) hr
      refine ⟨n, by omega, by omega, h1, h2, h3, fun j hj hj' => ?_⟩
      rcases Nat.eq_or_lt_of_le hj with rfl | hlt
      · exact hi
      · exact h4 j hlt hj'
    · simp only [Option.some.injEq, Prod.mk.injEq] at hr
      obtain ⟨rfl, rfl, rfl⟩ := hr
      exact ⟨m, le_refl m, by omega, rfl, rfl, passes_of_ne hi hne, fun j hj hj' => by omega⟩

/-- With enough rounds the rehash loop reaches the first value that passes. Its count is that of its
rehashes, in a `uint32_t`. -/
theorem rehashLoop_tries {t : ℕ} (hn : m ≤ n) (hr : n - m < rounds) (ht : t < 2 ^ 32)
    (hp : ChainPasses k fs passphrase size n)
    (hj : ∀ j, m ≤ j → j < n →
      binarySearch fs.blockList (chainValue k passphrase size j) fs.listLen = some (-1)) :
    rehashLoop k fs size rounds (chainHash k passphrase m) (chainValue k passphrase size m) t =
      some (chainHash k passphrase n, chainValue k passphrase size n, (t + (n - m)) % 2 ^ 32) := by
  induction rounds generalizing m t with
  | zero => omega
  | succ r ih =>
    simp only [rehashLoop, Option.bind_eq_bind]
    rcases Nat.eq_or_lt_of_le hn with rfl | hlt
    · obtain ⟨index, hi, hne⟩ := exists_of_passes hp
      rw [hi, Option.bind_some, if_neg hne, Nat.sub_self, Nat.add_zero, Nat.mod_eq_of_lt ht]
    · rw [hj m (le_refl m) hlt, Option.bind_some, if_pos rfl]
      have hrest : rehashLoop k fs size r (chainHash k passphrase (m + 1))
          (chainValue k passphrase size (m + 1)) ((t + 1) % 2 ^ 32) = _ :=
        ih hlt (by omega) (Nat.mod_lt _ (by norm_num)) fun j hj1 => hj j (by omega)
      rw [chainHash, chainValue, chainHash] at hrest
      rw [hrest, Nat.mod_add_mod, show t + 1 + (n - (m + 1)) = t + (n - m) by omega]

theorem count_eq_of_not {p : ℕ → Prop} [DecidablePred p] (hmn : m ≤ n)
    (h : ∀ j, m ≤ j → j < n → ¬ p j) : Nat.count p n = Nat.count p m := by
  obtain ⟨d, rfl⟩ : ∃ d, n = m + d := ⟨n - m, by omega⟩
  have : Nat.count (fun j => p (m + j)) d = 0 :=
    Nat.count_iff_forall_not.2 fun j hj => h (m + j) (by omega) (by omega)
  rw [Nat.count_add, this, Nat.add_zero]

theorem not_chainPasses
    (h : binarySearch fs.blockList (chainValue k passphrase size n) fs.listLen = some (-1)) :
    ¬ChainPasses k fs passphrase size n := by
  simp [ChainPasses, not_passes_of_eq h]

theorem placeReplicas_succ {locs : List ℕ} {v v' : BitVector} {c : ℕ}
    (h : placeReplicas k fs size rounds (c + 1) (chainHash k passphrase m) v = some (locs, v')) :
    ∃ n rest, m ≤ n ∧ ChainPasses k fs passphrase size n ∧
      (∀ j, m ≤ j → j < n →
        binarySearch fs.blockList (chainValue k passphrase size j) fs.listLen = some (-1)) ∧
      locs = chainValue k passphrase size n :: rest ∧
      placeReplicas k fs size rounds c (chainHash k passphrase (n + 1))
        (allocationSet v (chainValue k passphrase size n)).2 = some (rest, v') := by
  simp only [placeReplicas, Option.bind_eq_bind, Option.bind_eq_some_iff] at h
  obtain ⟨⟨hash, b, t⟩, hr, ⟨rest, v₁⟩, hp, h⟩ := h
  simp only [Option.some.injEq, Prod.mk.injEq] at h
  obtain ⟨rfl, rfl⟩ := h
  obtain ⟨n, hmn, -, rfl, rfl, hpass, hj⟩ := rehashLoop_spec hr
  exact ⟨n, rest, hmn, hpass, hj, rfl, hp⟩

/-- **The placement loops choose the first chain values that pass the test.** -/
theorem placeReplicas_nth {locs : List ℕ} {v v' : BitVector} {c : ℕ}
    (h : placeReplicas k fs size rounds c (chainHash k passphrase m) v = some (locs, v')) :
    locs = (List.range c).map fun i => replicaBlock k fs passphrase size
      (Nat.count (ChainPasses k fs passphrase size) m + i) := by
  induction c generalizing m v locs with
  | zero =>
    simp only [placeReplicas, Option.some.injEq, Prod.mk.injEq] at h
    exact h.1.symm
  | succ c ih =>
    obtain ⟨n, rest, hmn, hpass, hj, rfl, hp⟩ := placeReplicas_succ h
    have hcount := count_eq_of_not (p := ChainPasses k fs passphrase size) hmn
      fun j h1 h2 => not_chainPasses (hj j h1 h2)
    have hnth : Nat.nth (ChainPasses k fs passphrase size)
        (Nat.count (ChainPasses k fs passphrase size) m) = n := by
      rw [← hcount]
      exact Nat.nth_count hpass
    have hsucc : Nat.count (ChainPasses k fs passphrase size) (n + 1)
        = Nat.count (ChainPasses k fs passphrase size) m + 1 := by
      rw [← hcount]
      exact Nat.count_succ_eq_succ_count_iff.2 hpass
    have hrest := ih (m := n + 1) hp
    rw [List.range_succ_eq_map, List.map_cons, List.map_map, hrest, hsucc]
    simp only [replicaBlock, Nat.add_zero, hnth, List.cons.injEq, true_and]
    refine List.map_congr_left fun i _ => ?_
    simp only [Function.comp, Nat.succ_eq_add_one, Nat.add_assoc, Nat.add_comm 1 i]

theorem placeReplicas_marks {locs : List ℕ} {v v' : BitVector} {c : ℕ} {hash : Mem}
    (h : placeReplicas k fs size rounds c hash v = some (locs, v')) :
    Marked v v' {p | p ∈ locs} := by
  induction c generalizing hash v locs with
  | zero =>
    simp only [placeReplicas, Option.some.injEq, Prod.mk.injEq] at h
    obtain ⟨rfl, rfl⟩ := h
    simpa using Marked.refl v
  | succ c ih =>
    simp only [placeReplicas, Option.bind_eq_bind, Option.bind_eq_some_iff] at h
    obtain ⟨⟨hash', b, t⟩, -, ⟨rest, v₁⟩, hp, h⟩ := h
    simp only [Option.some.injEq, Prod.mk.injEq] at h
    obtain ⟨rfl, rfl⟩ := h
    rw [allocationSet_eq] at hp
    have hmark := ((Marked.refl v).mark b).trans (ih hp)
    have hset : insert b ∅ ∪ {p | p ∈ rest} = {p | p ∈ b :: rest} := by
      ext p
      simp
    rwa [hset] at hmark

end Chain

/-! ### The super block page -/

theorem sbValid_congr {k : Kernel} {sb sb' : Mem} (h : Agree sb 0 sb' 0 4096) :
    sbValid k sb = sbValid k sb' := by
  have h1 : Agree sb 0 sb' 0 32 := h.sub (j := 0) (by omega)
  have h2 : Agree sb 32 sb' 32 (4096 - 32) := by
    have := h.sub (j := 32) (k := 4096 - 32) (by omega)
    rwa [Nat.zero_add] at this
  rw [sbValid, sbValid, bytes_congr h1, bytes_congr h2]

/-- The page at a block of the device is a valid super block. -/
def blockValid (k : Kernel) (disk : Mem) (b off : ℕ) : Bool :=
  sbValid k (readPage (fun _ => 0) 0 disk b off)

theorem sbValid_readPage (k : Kernel) (page disk : Mem) (b off : ℕ) :
    sbValid k (readPage page 0 disk b off) = blockValid k disk b off :=
  sbValid_congr (agree_readPage.trans agree_readPage.symm)

theorem blockValid_of_agree {k : Kernel} {disk sb : Mem} {b off : ℕ}
    (h : Agree disk (512 * pageSector b off) sb 0 4096) :
    blockValid k disk b off = sbValid k sb :=
  sbValid_congr (agree_readPage.trans h)

theorem blockValid_congr {k : Kernel} {disk disk' : Mem} {b off : ℕ}
    (h : Agree disk (512 * pageSector b off) disk' (512 * pageSector b off) 4096) :
    blockValid k disk b off = blockValid k disk' b off :=
  sbValid_congr (agree_readPage.trans (h.trans agree_readPage.symm))

theorem sbValid_blit (k : Kernel) (sb : Mem) :
    sbValid k (blit sb 0 (k.sha256 (bytes sb 32 (4096 - 32))) 0 32) = true := by
  have h1 : Agree (blit sb 0 (k.sha256 (bytes sb 32 (4096 - 32))) 0 32) 32 sb 32 (4096 - 32) :=
    agree_blit_out (by omega)
  rw [sbValid, bytes_congr h1, bytes_congr (agree_blit _ _ _ _ _)]
  simp

section Create

variable {k : Kernel} {rounds : ℕ} {ctx ctx₁ ctx₂ : AfsPrivate} {fs : AfsPassiveFs}
  {sbBlock locs written : List ℕ} {sb disk disk' : Mem}

/-- The super block after the index has been written: the instance size, the entropy directory, and
the hash in front. -/
def finishSuperBlock (k : Kernel) (ctx : AfsPrivate) : Mem :=
  let sb := strncpy (putLe ctx.superBlock 52 8 ctx.config.instanceSize) 64 ctx.entropyDir 64
  blit sb 0 (k.sha256 (bytes sb 32 (4096 - 32))) 0 32

/-- **The steps of `write_super_block` before the replica loop**, when none of them fails. -/
theorem prepareSuperBlock_steps (h : prepareSuperBlock k rounds ctx = some (0, ctx₁, sbBlock)) :
    blockDeviceSize ctx.config ≠ 0 ∧ ∃ v c₁ c₂ c₃,
      placeReplicas k ctx.passiveFs (blockDeviceSize ctx.config) rounds 8
        (chainHash k ctx.passphrase 0) ctx.vector = some (sbBlock, v) ∧
      afsCreateMap k { ctx with vector := v } = some (0, c₁) ∧
      afsCreateMapBlocks k c₁ = some (0, c₂) ∧
      writePtrBlocks k { c₂ with
        afsPtrBlocks := fill k.uninit 0 (c₂.config.numPtrBlocks * 4096) 0
        superBlock := putLe c₂.superBlock 4092 4 afsInvalidBlock } = some (0, c₃) ∧
      ctx₁ = { c₃ with superBlock := finishSuperBlock k c₃ } := by
  simp only [prepareSuperBlock] at h
  split_ifs at h with h0
  simp only [Option.bind_eq_bind, Option.bind_eq_some_iff] at h
  obtain ⟨⟨locs, v⟩, hp, ⟨r1, c₁⟩, hm, h⟩ := h
  by_cases e1 : r1 = 0
  · rw [if_neg (by simpa using e1)] at h
    simp only [Option.bind_eq_some_iff] at h
    obtain ⟨⟨r2, c₂⟩, hb, h⟩ := h
    by_cases e2 : r2 = 0
    · rw [if_neg (by simpa using e2)] at h
      simp only at h
      by_cases e3 : k.kmalloc (c₂.config.numPtrBlocks * 4096)
      · rw [if_pos e3] at h
        simp only [Option.bind_eq_some_iff] at h
        obtain ⟨⟨r3, c₃⟩, hw, h⟩ := h
        by_cases e4 : r3 = 0
        · rw [if_neg (by simpa using e4)] at h
          simp only [Option.some.injEq, Prod.mk.injEq] at h
          obtain ⟨-, rfl, rfl⟩ := h
          exact ⟨h0, v, c₁, c₂, c₃, hp, e1 ▸ hm, e2 ▸ hb, e4 ▸ hw, rfl⟩
        · rw [if_pos (by simpa using e4)] at h
          simp only [Option.some.injEq, Prod.mk.injEq] at h
          exact absurd h.1 e4
      · rw [if_neg e3] at h
        simp at h
    · rw [if_pos (by simpa using e2)] at h
      simp only [Option.some.injEq, Prod.mk.injEq] at h
      exact absurd h.1 e2
  · rw [if_pos (by simpa using e1)] at h
    simp only [Option.some.injEq, Prod.mk.injEq] at h
    exact absurd h.1 e1

theorem prepareSuperBlock_spec (h : prepareSuperBlock k rounds ctx = some (0, ctx₁, sbBlock)) :
    blockDeviceSize ctx.config ≠ 0 ∧
      (∃ v, placeReplicas k ctx.passiveFs (blockDeviceSize ctx.config) rounds 8
        (chainHash k ctx.passphrase 0) ctx.vector = some (sbBlock, v)) ∧
      SameInstance ctx ctx₁ ∧ sbValid k ctx₁.superBlock = true ∧
      ∃ c c' c'', c.config = ctx.config ∧ afsCreateMap k c = some (0, c') ∧
        afsCreateMapBlocks k c' = some (0, c'') ∧ ctx₁.afsMap = c'.afsMap := by
  obtain ⟨h0, v, c₁, c₂, c₃, hp, hm, hb, hw, rfl⟩ := prepareSuperBlock_steps h
  have s2 := sameMap_afsCreateMapBlocks hb
  have s3 := sameMap_writePtrBlocks hw
  have s4 : SameMap c₂ { c₂ with
      afsPtrBlocks := fill k.uninit 0 (c₂.config.numPtrBlocks * 4096) 0
      superBlock := putLe c₂.superBlock 4092 4 afsInvalidBlock } :=
    ⟨⟨rfl, rfl, rfl, rfl, rfl, rfl⟩, rfl⟩
  have s5 := s2.trans (s4.trans s3)
  have s6 := (sameInstance_afsCreateMap hm).trans s5.toSameInstance
  exact ⟨h0, ⟨v, hp⟩, ⟨s6.config, s6.passphrase, s6.passphraseHash, s6.encodingType, s6.entropyDir,
    s6.passiveFs⟩, sbValid_blit k _, { ctx with vector := v }, c₁, c₂, rfl, hm, hb, s5.afsMap⟩

theorem writeSuperBlock_written (h : writeSuperBlock k rounds ctx = some (0, ctx₂, written)) :
    ∃ ctx₁ sbBlock disk, prepareSuperBlock k rounds ctx = some (0, ctx₁, sbBlock) ∧
      writeReplicas ctx₁.passiveFs ctx₁.superBlock sbBlock ctx₁.disk = some (disk, written) ∧
      ctx₂ = { ctx₁ with disk } := by
  simp only [writeSuperBlock, Option.bind_eq_bind, Option.bind_eq_some_iff] at h
  obtain ⟨⟨r, ctx₁, sbBlock⟩, hprep, h⟩ := h
  split_ifs at h with hr
  · simp only [Option.some.injEq, Prod.mk.injEq] at h
    exact absurd h.1 hr
  · simp only [ne_eq, Decidable.not_not] at hr
    subst hr
    simp only [Option.bind_eq_some_iff, Option.some.injEq, Prod.mk.injEq, true_and] at h
    obtain ⟨⟨disk, w⟩, hw, rfl, rfl⟩ := h
    exact ⟨ctx₁, sbBlock, disk, hprep, hw, rfl⟩

/-- The replica loop ends exactly when every location is a position of the buffer, and then
writes to the entries at these positions. -/
theorem writeReplicas_iff :
    (∃ disk', writeReplicas fs sb locs disk = some (disk', written)) ↔
      locs.map (fun v => fs.blockList[v]?) = written.map some := by
  induction locs generalizing disk written with
  | nil =>
    cases written with
    | nil => simp [writeReplicas]
    | cons b rest => simp [writeReplicas]
  | cons v locs ih =>
    simp only [writeReplicas, Option.bind_eq_bind, Option.bind_eq_some_iff]
    constructor
    · rintro ⟨disk', b, hb, ⟨d, w⟩, hw, h⟩
      simp only [Option.some.injEq, Prod.mk.injEq] at h
      obtain ⟨rfl, rfl⟩ := h
      simp only [List.map_cons, hb, ih.1 ⟨d, hw⟩]
    · intro h
      cases written with
      | nil => simp at h
      | cons b rest =>
        simp only [List.map_cons, List.cons.injEq] at h
        obtain ⟨d, hd⟩ : ∃ d, writeReplicas fs sb locs (writePage sb 0 disk b fs.dataStartOff)
            = some (d, rest) := ih.2 h.2
        exact ⟨d, b, h.1, ⟨d, rest⟩, hd, rfl⟩

theorem pageSector_eq_or_apart (b b' off : ℕ) :
    pageSector b off = pageSector b' off ∨ pageSector b off + 8 ≤ pageSector b' off ∨
      pageSector b' off + 8 ≤ pageSector b off := by
  unfold pageSector
  omega

theorem writeReplicas_keeps {b : ℕ} (h : writeReplicas fs sb locs disk = some (disk', written))
    (hb : Agree disk (512 * pageSector b fs.dataStartOff) sb 0 4096) :
    Agree disk' (512 * pageSector b fs.dataStartOff) sb 0 4096 := by
  induction locs generalizing disk written with
  | nil =>
    simp only [writeReplicas, Option.some.injEq, Prod.mk.injEq] at h
    exact h.1 ▸ hb
  | cons v locs ih =>
    simp only [writeReplicas, Option.bind_eq_bind, Option.bind_eq_some_iff] at h
    obtain ⟨b', -, ⟨d, w⟩, hw, h⟩ := h
    simp only [Option.some.injEq, Prod.mk.injEq] at h
    obtain ⟨rfl, rfl⟩ := h
    refine ih hw ?_
    rcases pageSector_eq_or_apart b b' fs.dataStartOff with he | ha
    · rw [he]
      exact agree_writePage
    · refine Agree.trans (agree_blit_out ?_) hb
      simp only [writePageIo]
      omega

theorem writeReplicas_agree {b : ℕ} (h : writeReplicas fs sb locs disk = some (disk', written))
    (hb : b ∈ written) : Agree disk' (512 * pageSector b fs.dataStartOff) sb 0 4096 := by
  induction locs generalizing disk written with
  | nil =>
    simp only [writeReplicas, Option.some.injEq, Prod.mk.injEq] at h
    simp [← h.2] at hb
  | cons v locs ih =>
    simp only [writeReplicas, Option.bind_eq_bind, Option.bind_eq_some_iff] at h
    obtain ⟨b', -, ⟨d, w⟩, hw, h⟩ := h
    simp only [Option.some.injEq, Prod.mk.injEq] at h
    obtain ⟨rfl, rfl⟩ := h
    rcases List.mem_cons.1 hb with rfl | hb
    · exact writeReplicas_keeps hw agree_writePage
    · exact ih hw hb

theorem writeReplicas_other {b : ℕ} (h : writeReplicas fs sb locs disk = some (disk', written))
    (hb : b < 2 ^ 20) (hw : ∀ x ∈ written, x < 2 ^ 20 ∧ x ≠ b) :
    Agree disk' (512 * pageSector b fs.dataStartOff) disk (512 * pageSector b fs.dataStartOff)
      4096 := by
  induction locs generalizing disk written with
  | nil =>
    simp only [writeReplicas, Option.some.injEq, Prod.mk.injEq] at h
    exact h.1 ▸ Agree.refl _ _ _
  | cons v locs ih =>
    simp only [writeReplicas, Option.bind_eq_bind, Option.bind_eq_some_iff] at h
    obtain ⟨b', -, ⟨d, w⟩, hrest, h⟩ := h
    simp only [Option.some.injEq, Prod.mk.injEq] at h
    obtain ⟨rfl, rfl⟩ := h
    obtain ⟨hlt, hne⟩ := hw b' (List.mem_cons_self ..)
    exact (ih hrest fun x hx => hw x (List.mem_cons_of_mem _ hx)).trans
      (agree_writePage_out hlt hb hne)

end Create

section Search

variable {k : Kernel} {rounds n b size : ℕ} {ctx : AfsPrivate} {s : SbSearch}

/-- At a location that passes the test the search does not move: it reads the same block again
until it has used up its tries. -/
theorem searchLoop_stays (size n tries : ℕ) (passHash : Mem) (hr : 0 < rounds)
    (hp : passes ctx.passiveFs s.sbBlock = true)
    (hb : ctx.passiveFs.blockList[s.sbBlock]? = some b)
    (hbad : blockValid k ctx.disk b ctx.passiveFs.dataStartOff = false) (hs : s.valid = false) :
    ∃ s', searchLoop k ctx size rounds n passHash tries s = some s' ∧ s'.valid = false ∧
      s'.sbBlock = s.sbBlock ∧ ∃ l, s'.reads = s.reads ++ l ∧ ∀ x ∈ l, x = b := by
  obtain ⟨r, rfl⟩ : ∃ r, rounds = r + 1 := ⟨rounds - 1, by omega⟩
  obtain ⟨index, hi, hne⟩ := exists_of_passes hp
  induction n generalizing s passHash tries with
  | zero => exact ⟨s, rfl, hs, rfl, [], by simp⟩
  | succ n ih =>
    by_cases ht : tries < 32
    · simp only [searchLoop, ht, if_true, rehashLoop, Option.bind_eq_bind, hi, Option.bind_some,
        hne, if_false, hb, sbValid_readPage, hbad, Bool.false_eq_true]
      have hnext := ih ((tries + 1) % 2 ^ 32) passHash
        (s := ⟨readPage s.sb 0 ctx.disk b ctx.passiveFs.dataStartOff, false, s.sbBlock,
          s.reads ++ [b]⟩) hp hb rfl hi
      obtain ⟨s', h1, h2, h3, l, h4, h5⟩ := hnext
      refine ⟨s', h1, h2, h3, b :: l, by simp [h4], fun x hx => ?_⟩
      exact (List.mem_cons.1 hx).elim id (h5 x)
    · simp only [searchLoop, ht, if_false]
      exact ⟨s, rfl, hs, rfl, [], by simp⟩

/-- Chain value `n` is the first to pass the free list test of `fs`, and the search for it does
not go astray on the values before. -/
def FirstPasses (k : Kernel) (fs : AfsPassiveFs) (passphrase : Mem) (size n : ℕ) : Prop :=
  ChainPasses k fs passphrase size n ∧
    ∀ j < n, binarySearch fs.blockList (chainValue k passphrase size j) fs.listLen = some (-1)

theorem FirstPasses.nth_eq {fs : AfsPassiveFs} {passphrase : Mem}
    (h : FirstPasses k fs passphrase size n) :
    Nat.nth (ChainPasses k fs passphrase size) 0 = n := by
  have hc : Nat.count (ChainPasses k fs passphrase size) n = 0 :=
    Nat.count_iff_forall_not.2 fun j hj => by
      simp [ChainPasses, not_passes_of_eq (h.2 j hj)]
  rw [← hc]
  exact Nat.nth_count h.1

/-- **What the search does**: it reads the entry at the position that is the first chain value to
pass the test, again and again, and succeeds exactly when that block is valid. -/
theorem searchSuperBlock_eq (h0 : blockDeviceSize ctx.config ≠ 0)
    (hn : FirstPasses k ctx.passiveFs ctx.passphrase (blockDeviceSize ctx.config) n)
    (hb : ctx.passiveFs.blockList[chainValue k ctx.passphrase
      (blockDeviceSize ctx.config) n]? = some b) (hr : n < rounds) :
    ∃ s, searchSuperBlock k rounds ctx = some s ∧
      s.sbBlock = chainValue k ctx.passphrase (blockDeviceSize ctx.config) n ∧
      s.valid = blockValid k ctx.disk b ctx.passiveFs.dataStartOff ∧
      s.reads ≠ [] ∧ (∀ x ∈ s.reads, x = b) ∧
      (s.valid = true → Agree s.sb 0 ctx.disk
        (512 * pageSector b ctx.passiveFs.dataStartOff) 4096) := by
  obtain ⟨t, ht⟩ : ∃ t, rehashLoop k ctx.passiveFs (blockDeviceSize ctx.config) rounds
      (k.sha1 (bytes ctx.passphrase 0 64))
      (le (k.sha1 (bytes ctx.passphrase 0 64)) 0 4 % blockDeviceSize ctx.config) 0 =
      some (chainHash k ctx.passphrase n,
        chainValue k ctx.passphrase (blockDeviceSize ctx.config) n, t) :=
    ⟨_, rehashLoop_tries (Nat.zero_le n) (show n - 0 < rounds by omega) (Nat.two_pow_pos 32) hn.1
      fun j _ => hn.2 j⟩
  unfold searchSuperBlock
  simp only [h0, if_false]
  rw [show (33 : ℕ) = 32 + 1 from rfl, searchLoop, if_pos (by norm_num)]
  simp only [Option.bind_eq_bind, ht, Option.bind_some, hb, sbValid_readPage]
  cases hv : blockValid k ctx.disk b ctx.passiveFs.dataStartOff with
  | true =>
    simp only [if_true]
    exact ⟨_, rfl, rfl, rfl, by simp, by simp, fun _ => agree_readPage⟩
  | false =>
    simp only [Bool.false_eq_true, if_false]
    have hstay := searchLoop_stays (blockDeviceSize ctx.config) 32 ((t + 1) % 2 ^ 32)
      (chainHash k ctx.passphrase n) (show 0 < rounds by omega)
      (s := ⟨readPage ctx.superBlock 0 ctx.disk b ctx.passiveFs.dataStartOff, false,
        chainValue k ctx.passphrase (blockDeviceSize ctx.config) n, [] ++ [b]⟩) hn.1 hb hv rfl
    obtain ⟨s', h1, h2, h3, l, h4, h5⟩ := hstay
    refine ⟨s', h1, h3, h2, by simp [h4], fun x hx => ?_, by simp [h2]⟩
    simp only [h4, List.nil_append, List.cons_append, List.mem_cons] at hx
    exact hx.elim id (h5 x)

theorem searchSuperBlock_spec (h : searchSuperBlock k rounds ctx = some s) :
    blockDeviceSize ctx.config ≠ 0 ∧ ∃ n b, n < rounds ∧
      FirstPasses k ctx.passiveFs ctx.passphrase (blockDeviceSize ctx.config) n ∧
      ctx.passiveFs.blockList[chainValue k ctx.passphrase
        (blockDeviceSize ctx.config) n]? = some b := by
  unfold searchSuperBlock at h
  simp only at h
  split_ifs at h with h0
  rw [show (33 : ℕ) = 32 + 1 from rfl, searchLoop, if_pos (by norm_num)] at h
  simp only [Option.bind_eq_bind, Option.bind_eq_some_iff] at h
  obtain ⟨⟨hash, v, t⟩, hr, b, hb, -⟩ := h
  obtain ⟨n, -, hn, -, rfl, hp, hj⟩ := rehashLoop_spec (m := 0) hr
  exact ⟨h0, n, b, by omega, ⟨hp, fun j => hj j (Nat.zero_le j)⟩, hb⟩

end Search

/-! ### Where the replicas go, and where the search looks -/

/-- Every block up to `b` is in the free list. -/
def ListedUpTo (fs : AfsPassiveFs) (b : ℕ) : Prop := ∀ c ≤ b, c ∈ fs.freeList

theorem listedUpTo_iff {fs : AfsPassiveFs} {b : ℕ} (h : fs.freeList.Pairwise (· < ·)) :
    ListedUpTo fs b ↔ b < fs.listLen ∧ fs.blockList[b]? = some b := by
  rw [ListedUpTo, ← getElem?_eq_self_iff h, AfsPassiveFs.freeList]
  constructor
  · intro hb
    have hlt : b < fs.listLen := by
      by_contra hge
      rw [List.getElem?_take_eq_none (by omega)] at hb
      simp at hb
    rw [List.getElem?_take_of_lt hlt] at hb
    exact ⟨hlt, hb⟩
  · rintro ⟨hlt, hb⟩
    rwa [List.getElem?_take_of_lt hlt]

/-- `write_super_block` writes each replica to the block whose number is the chain value that
passed the test, and reads `block_list` only in range. -/
def ReplicasPlaced (k : Kernel) (rounds : ℕ) (ctx : AfsPrivate) : Prop :=
  (∃ ctx₂, writeSuperBlock k rounds ctx = some (0, ctx₂, (List.range 8).map
    (replicaBlock k ctx.passiveFs ctx.passphrase (blockDeviceSize ctx.config)))) ∧
  ∀ i < 8, replicaBlock k ctx.passiveFs ctx.passphrase (blockDeviceSize ctx.config) i
    < ctx.passiveFs.listLen

/-- The search at mount reads block `b`, through an entry of the free list, once it is given
enough rounds. -/
def MountReads (k : Kernel) (ctx : AfsPrivate) (b : ℕ) : Prop :=
  ∃ r₀, ∀ rounds ≥ r₀, ∃ s, searchSuperBlock k rounds ctx = some s ∧
    s.sbBlock < ctx.passiveFs.listLen ∧ s.reads ≠ [] ∧ ∀ x ∈ s.reads, x = b

/-- The free list that `ctx'` mounts with, of an instance that `ctx` created, still lists the
block of replica 0 and lists none of the chain values before it. -/
structure StillListed (k : Kernel) (ctx ctx' : AfsPrivate) : Prop where
  passphrase : ctx'.passphrase = ctx.passphrase
  size : blockDeviceSize ctx'.config = blockDeviceSize ctx.config
  listed : replicaBlock k ctx.passiveFs ctx.passphrase (blockDeviceSize ctx.config) 0
    ∈ ctx'.passiveFs.freeList
  earlier : ∀ j < Nat.nth (ChainPasses k ctx.passiveFs ctx.passphrase
    (blockDeviceSize ctx.config)) 0,
    chainValue k ctx.passphrase (blockDeviceSize ctx.config) j ∉ ctx'.passiveFs.freeList

section Location

variable {k : Kernel} {rounds : ℕ} {ctx ctx' ctx₁ : AfsPrivate} {sbBlock : List ℕ}

/-- `write_super_block` puts every replica at its location exactly when the blocks up to each
location are all free. -/
theorem replicasPlaced_iff (hinc : ctx.passiveFs.freeList.Pairwise (· < ·))
    (hprep : prepareSuperBlock k rounds ctx = some (0, ctx₁, sbBlock)) :
    ReplicasPlaced k rounds ctx ↔ ∀ i < 8, ListedUpTo ctx.passiveFs
      (replicaBlock k ctx.passiveFs ctx.passphrase (blockDeviceSize ctx.config) i) := by
  obtain ⟨-, ⟨v, hplace⟩, hsame, -⟩ := prepareSuperBlock_spec hprep
  have hlocs := placeReplicas_nth hplace
  simp only [Nat.count_zero, Nat.zero_add] at hlocs
  have hw : (∃ ctx₂, writeSuperBlock k rounds ctx = some (0, ctx₂, sbBlock)) ↔
      ∀ v ∈ sbBlock, ctx.passiveFs.blockList[v]? = some v := by
    have hmap : (∃ d, writeReplicas ctx.passiveFs ctx₁.superBlock sbBlock ctx₁.disk
        = some (d, sbBlock)) ↔ _ := writeReplicas_iff
    rw [List.map_inj_left] at hmap
    rw [← hmap]
    simp only [writeSuperBlock, hprep, Option.bind_eq_bind, Option.bind_some, ne_eq,
      not_true_eq_false, if_false, hsame.passiveFs, Option.bind_eq_some_iff, Option.some.injEq,
      Prod.mk.injEq, true_and]
    constructor
    · rintro ⟨ctx₂, ⟨d, w⟩, hd, -, rfl⟩
      exact ⟨d, hd⟩
    · rintro ⟨d, hd⟩
      exact ⟨_, ⟨d, sbBlock⟩, hd, rfl, rfl⟩
  rw [hlocs] at hw
  simp only [List.mem_map, List.mem_range, forall_exists_index, and_imp,
    forall_apply_eq_imp_iff₂] at hw
  rw [ReplicasPlaced, hw, ← forall₂_and]
  refine forall₂_congr fun i _ => ?_
  rw [listedUpTo_iff hinc, and_comm]

/-- The search at mount reads the location of replica 0 exactly when the blocks up to it are all
free, and the free list test answers for it and for the chain values before it. -/
theorem mountReads_iff {n : ℕ}
    (hinc : ctx.passiveFs.freeList.Pairwise (· < ·))
    (hlen : ctx.passiveFs.listLen < 2 ^ 32) (h0 : blockDeviceSize ctx.config ≠ 0)
    (hlisted : chainValue k ctx.passphrase (blockDeviceSize ctx.config) n
      ∈ ctx.passiveFs.freeList)
    (hearlier : ∀ j < n, chainValue k ctx.passphrase (blockDeviceSize ctx.config) j
      ∉ ctx.passiveFs.freeList) :
    MountReads k ctx (chainValue k ctx.passphrase (blockDeviceSize ctx.config) n) ↔
      ListedUpTo ctx.passiveFs (chainValue k ctx.passphrase (blockDeviceSize ctx.config) n) ∧
      FirstPasses k ctx.passiveFs ctx.passphrase (blockDeviceSize ctx.config) n := by
  constructor
  · rintro ⟨r₀, hr⟩
    obtain ⟨s, hs, hlt, hne, hall⟩ := hr r₀ (le_refl r₀)
    obtain ⟨-, m, b, hm, hfirst, hb⟩ := searchSuperBlock_spec hs
    obtain ⟨s', hs', hsb, -, -, hread, -⟩ := searchSuperBlock_eq h0 hfirst hb hm
    obtain rfl : s = s' := by
      rw [hs] at hs'
      exact Option.some.inj hs'
    -- the search stops at chain value `n`: before it nothing is listed, and it is not skipped
    obtain rfl : m = n := by
      rcases Nat.lt_trichotomy m n with h | h | h
      · exact absurd (mem_freeList_of_passes hlen hfirst.1) (hearlier m h)
      · exact h
      · have hmiss := hfirst.2 n h
        obtain ⟨i, hi, hx⟩ := List.getElem_of_mem hlisted
        simp only [AfsPassiveFs.freeList, List.length_take, List.getElem_take] at hi hx
        rcases Nat.lt_or_ge (2 ^ 31) ctx.passiveFs.listLen with hl | hl
        · have hp := hfirst.1
          rw [ChainPasses, not_passes_of_eq (binarySearch_of_long hl hlen)] at hp
          simp at hp
        · exact absurd (List.getElem?_eq_some_iff.2 ⟨by omega, hx⟩)
            (binarySearch_complete (increasing_of_pairwise hinc) hl hmiss i (by omega))
    obtain ⟨x, hx⟩ := List.exists_mem_of_ne_nil _ hne
    have hbn : b = chainValue k ctx.passphrase (blockDeviceSize ctx.config) m :=
      (hread x hx).symm.trans (hall x hx)
    refine ⟨(listedUpTo_iff hinc).2 ⟨hsb ▸ hlt, ?_⟩, hfirst⟩
    rw [hb, hbn]
  · rintro ⟨hup, hfirst⟩
    obtain ⟨hlt, hb⟩ := (listedUpTo_iff hinc).1 hup
    refine ⟨n + 1, fun rounds hr => ?_⟩
    obtain ⟨s, hs, hsb, -, hne, hread, -⟩ := searchSuperBlock_eq h0 hfirst hb hr
    exact ⟨s, hs, hsb ▸ hlt, hne, hread⟩

/-- **Location of the super block.** Every replica is put at the chain value that passed the test,
and the search at mount reads replica 0's block, exactly when the blocks up to each location are
all free at creation, those up to the first are at mount, and the search of the free list at mount
does not go astray. -/
theorem superBlock_location_iff
    (hinc : ctx.passiveFs.freeList.Pairwise (· < ·))
    (hinc' : ctx'.passiveFs.freeList.Pairwise (· < ·))
    (hlen' : ctx'.passiveFs.listLen < 2 ^ 32)
    (hprep : prepareSuperBlock k rounds ctx = some (0, ctx₁, sbBlock))
    (hstill : StillListed k ctx ctx') :
    (ReplicasPlaced k rounds ctx ∧ MountReads k ctx' (replicaBlock k ctx.passiveFs
        ctx.passphrase (blockDeviceSize ctx.config) 0)) ↔
      (∀ i < 8, ListedUpTo ctx.passiveFs (replicaBlock k ctx.passiveFs ctx.passphrase
        (blockDeviceSize ctx.config) i)) ∧
      ListedUpTo ctx'.passiveFs (replicaBlock k ctx.passiveFs ctx.passphrase
        (blockDeviceSize ctx.config) 0) ∧
      FirstPasses k ctx'.passiveFs ctx.passphrase (blockDeviceSize ctx.config)
        (Nat.nth (ChainPasses k ctx.passiveFs ctx.passphrase (blockDeviceSize ctx.config)) 0) := by
  obtain ⟨h0, -⟩ := prepareSuperBlock_spec hprep
  have hmount := mountReads_iff (k := k) hinc' hlen' (hstill.size ▸ h0)
    (n := Nat.nth (ChainPasses k ctx.passiveFs ctx.passphrase (blockDeviceSize ctx.config)) 0)
  rw [hstill.passphrase, hstill.size] at hmount
  exact and_congr (replicasPlaced_iff hinc hprep) (hmount hstill.listed hstill.earlier)

end Location

theorem chainValue_constKernel (b : ℕ) (passphrase : Mem) (size n : ℕ) :
    chainValue (constKernel b) passphrase size n = b % 2 ^ 32 % size := by
  cases n <;> simp only [chainValue, chainHash, constKernel, le_putLe] <;> rfl

theorem nth_constKernel {b : ℕ} {fs : AfsPassiveFs} (passphrase : Mem) (size : ℕ)
    (h : passes fs (b % 2 ^ 32 % size) = true) :
    Nat.nth (ChainPasses (constKernel b) fs passphrase size) 0 = 0 := by
  refine FirstPasses.nth_eq ⟨?_, fun j hj => absurd hj (Nat.not_lt_zero j)⟩
  rwa [ChainPasses, chainValue_constKernel]

theorem replicaBlock_constKernel (b : ℕ) (fs : AfsPassiveFs) (passphrase : Mem) (size i : ℕ) :
    replicaBlock (constKernel b) fs passphrase size i = b % 2 ^ 32 % size :=
  chainValue_constKernel b passphrase size _

theorem stillListed_small {l l' : List ℕ} (h : passes (smallContext l).passiveFs 1 = true)
    (h' : 1 ∈ (smallContext l').passiveFs.freeList) :
    StillListed (constKernel 1) (smallContext l) (smallContext l') := by
  have h1 : 1 % 2 ^ 32 % blockDeviceSize (smallContext l).config = 1 := by
    norm_num [blockDeviceSize, smallContext, sizedConfig, buildConfiguration]
  refine ⟨rfl, rfl, ?_, ?_⟩
  · rw [replicaBlock_constKernel, h1]
    exact h'
  · rw [nth_constKernel _ _ (by rwa [h1])]
    exact fun j hj => absurd hj (Nat.not_lt_zero j)

/-- An instance created over the free list 0, 1, 2, 3 and mounted over 0, 1, 2, with its super
block at block 1. -/
theorem superBlock_location_small :
    ReplicasPlaced (constKernel 1) 1 (smallContext [0, 1, 2, 3]) ∧
      MountReads (constKernel 1) (smallContext [0, 1, 2]) (replicaBlock (constKernel 1)
        (smallContext [0, 1, 2, 3]).passiveFs (smallContext [0, 1, 2, 3]).passphrase
        (blockDeviceSize (smallContext [0, 1, 2, 3]).config) 0) := by
  have hret : (prepareSuperBlock (constKernel 1) 1 (smallContext [0, 1, 2, 3])).map (·.1)
      = some 0 := by
    decide +kernel
  obtain ⟨⟨r, ctx₁, sbBlock⟩, hprep, rfl⟩ := Option.map_eq_some_iff.1 hret
  refine (superBlock_location_iff (by decide) (by decide) (by decide) hprep
    (stillListed_small (by decide) (by decide))).2 ⟨fun i _ => ?_, ?_, ?_⟩
  · rw [replicaBlock_constKernel]
    unfold ListedUpTo
    decide
  · rw [replicaBlock_constKernel]
    unfold ListedUpTo
    decide
  · rw [nth_constKernel _ _ (by decide)]
    refine ⟨?_, fun j hj => absurd hj (Nat.not_lt_zero j)⟩
    rw [ChainPasses, chainValue_constKernel]
    decide

/-- Over the free list 1, 2, 3 the super block of block 1 is written to block 2. -/
theorem superBlock_misplaced :
    ¬ ∀ (k : Kernel) (rounds : ℕ) (ctx ctx' ctx₁ : AfsPrivate) (sbBlock : List ℕ),
      ctx.passiveFs.freeList.Pairwise (· < ·) → ctx'.passiveFs.freeList.Pairwise (· < ·) →
      ctx.passiveFs.listLen < 2 ^ 32 → ctx'.passiveFs.listLen < 2 ^ 32 →
      prepareSuperBlock k rounds ctx = some (0, ctx₁, sbBlock) → StillListed k ctx ctx' →
      ReplicasPlaced k rounds ctx ∧ MountReads k ctx' (replicaBlock k ctx.passiveFs
        ctx.passphrase (blockDeviceSize ctx.config) 0) := by
  intro h
  have hret : (prepareSuperBlock (constKernel 1) 1 (smallContext [1, 2, 3])).map (·.1)
      = some 0 := by
    decide +kernel
  obtain ⟨⟨r, ctx₁, sbBlock⟩, hprep, rfl⟩ := Option.map_eq_some_iff.1 hret
  obtain ⟨⟨⟨ctx₂, hw⟩, -⟩, -⟩ := h _ _ _ (smallContext [1, 2, 3]) _ _ (by decide) (by decide)
    (by decide) (by decide) hprep (stillListed_small (by decide) (by decide))
  have hwritten : (writeSuperBlock (constKernel 1) 1 (smallContext [1, 2, 3])).map (·.2.2)
      = some (List.replicate 8 2) := by
    decide +kernel
  rw [hw, Option.map_some, Option.some.injEq, List.map_congr_left fun i _ =>
    replicaBlock_constKernel _ _ _ _ i] at hwritten
  exact absurd (List.cons.inj hwritten).1 (by decide)

end Artifice
