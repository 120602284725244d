import Artifice.Metadata.Replicas

/-!
Whether the replicas of the super block are in different blocks.

The placement loops of `write_super_block` rehash until a block number is in the free list. They mark
the block in the allocation vector, but never ask whether it was marked before: `allocation_set`
answers that, and its answer is ignored. So a block number that the hash chain repeats is chosen
again.
-/

namespace Artifice

open Lib

/-- Chain value `n` is one of the `c` values from number `m` on that pass the free list test
first. -/
structure Hit (k : Kernel) (fs : AfsPassiveFs) (passphrase : Mem) (size m c n : ℕ) : Prop where
  from_start : m ≤ n
  passes : ChainPasses k fs passphrase size n
  early : Nat.count (ChainPasses k fs passphrase size) n <
    Nat.count (ChainPasses k fs passphrase size) m + c

/-- Among the first `c` chain values that pass the free list test, none comes twice. -/
def NoRepeat (k : Kernel) (fs : AfsPassiveFs) (passphrase : Mem) (size c : ℕ) : Prop :=
  ∀ i j, i < j → ChainPasses k fs passphrase size i → ChainPasses k fs passphrase size j →
    Nat.count (ChainPasses k fs passphrase size) j < c →
    chainValue k passphrase size i ≠ chainValue k passphrase size j

section

variable {k : Kernel} {fs : AfsPassiveFs} {passphrase : Mem} {size m n c rounds i b : ℕ}
  {locs : List ℕ} {v v' : BitVector}

theorem hit_succ (hmn : m ≤ n) (hpass : ChainPasses k fs passphrase size n)
    (hfirst : ∀ j, m ≤ j → j < n → ¬ChainPasses k fs passphrase size j) :
    Hit k fs passphrase size m (c + 1) i ↔ i = n ∨ Hit k fs passphrase size (n + 1) c i := by
  have hcount := count_eq_of_not hmn hfirst
  have hsucc := Nat.count_succ_eq_succ_count_iff.2 hpass
  constructor
  · intro h
    rcases Nat.lt_trichotomy i n with hlt | rfl | hgt
    · exact absurd h.passes (hfirst i h.from_start hlt)
    · exact .inl rfl
    · have := h.early
      exact .inr ⟨hgt, h.passes, by omega⟩
  · rintro (rfl | h)
    · exact ⟨hmn, hpass, by omega⟩
    · have := h.early
      have := h.from_start
      exact ⟨by omega, h.passes, by omega⟩

theorem mem_placeReplicas
    (h : placeReplicas k fs size rounds c (chainHash k passphrase m) v = some (locs, v')) :
    b ∈ locs ↔ ∃ i, Hit k fs passphrase size m c i ∧ chainValue k passphrase size i = b := by
  induction c generalizing m v locs with
  | zero =>
    simp only [placeReplicas, Option.some.injEq, Prod.mk.injEq] at h
    obtain ⟨rfl, -⟩ := h
    constructor
    · exact fun hb => absurd hb List.not_mem_nil
    · rintro ⟨i, hi, -⟩
      have := Nat.count_monotone (ChainPasses k fs passphrase size) hi.from_start
      have := hi.early
      omega
  | succ c ih =>
    obtain ⟨n, rest, hmn, hpass, hj, rfl, hrest⟩ := placeReplicas_succ h
    have hfirst : ∀ j, m ≤ j → j < n → ¬ChainPasses k fs passphrase size j :=
      fun j h1 h2 => not_chainPasses (hj j h1 h2)
    rw [List.mem_cons, ih hrest]
    simp only [hit_succ hmn hpass hfirst]
    constructor
    · rintro (rfl | ⟨i, hi, hib⟩)
      · exact ⟨n, .inl rfl, rfl⟩
      · exact ⟨i, .inr hi, hib⟩
    · rintro ⟨i, rfl | hi, hib⟩
      · exact .inl hib.symm
      · exact .inr ⟨i, hi, hib⟩

theorem nodup_placeReplicas
    (h : placeReplicas k fs size rounds c (chainHash k passphrase m) v = some (locs, v')) :
    locs.Nodup ↔ ∀ i j, i < j → Hit k fs passphrase size m c i → Hit k fs passphrase size m c j →
      chainValue k passphrase size i ≠ chainValue k passphrase size j := by
  induction c generalizing m v locs with
  | zero =>
    simp only [placeReplicas, Option.some.injEq, Prod.mk.injEq] at h
    obtain ⟨rfl, -⟩ := h
    refine iff_of_true List.nodup_nil fun i j _ hi _ => ?_
    have := Nat.count_monotone (ChainPasses k fs passphrase size) hi.from_start
    have := hi.early
    omega
  | succ c ih =>
    obtain ⟨n, rest, hmn, hpass, hj, rfl, hrest⟩ := placeReplicas_succ h
    have hfirst : ∀ j, m ≤ j → j < n → ¬ChainPasses k fs passphrase size j :=
      fun j h1 h2 => not_chainPasses (hj j h1 h2)
    rw [List.nodup_cons, ih hrest, mem_placeReplicas hrest]
    simp only [hit_succ hmn hpass hfirst]
    constructor
    · rintro ⟨hnew, hold⟩ i j hij (rfl | hi) (rfl | hj) heq
      · omega
      · exact hnew ⟨j, hj, heq.symm⟩
      · have := hi.from_start
        omega
      · exact hold i j hij hi hj heq
    · intro hall
      refine ⟨?_, fun i j hij hi hj => hall i j hij (.inr hi) (.inr hj)⟩
      rintro ⟨i, hi, heq⟩
      exact hall n i hi.from_start (.inl rfl) (.inr hi) heq.symm

/-- **When the replicas are in different blocks**: exactly when the hash chain of the passphrase does
not repeat a block number of the free list before it has hit the list eight times. -/
theorem replicas_nodup_iff
    (h : placeReplicas k fs size rounds 8 (chainHash k passphrase 0) v = some (locs, v')) :
    locs.length = 8 ∧ (locs.Nodup ↔ NoRepeat k fs passphrase size 8) := by
  have hlocs := placeReplicas_nth h
  refine ⟨by rw [hlocs, List.length_map, List.length_range], ?_⟩
  rw [nodup_placeReplicas h]
  have hearly : ∀ n, Nat.count (ChainPasses k fs passphrase size) n <
      Nat.count (ChainPasses k fs passphrase size) 0 + 8 ↔
      Nat.count (ChainPasses k fs passphrase size) n < 8 := by
    intro n
    rw [Nat.count_zero, Nat.zero_add]
  constructor
  · intro hall i j hij hi hj hcount
    have hmono := Nat.count_monotone (ChainPasses k fs passphrase size) hij.le
    exact hall i j hij ⟨Nat.zero_le i, hi, (hearly i).2 (by omega)⟩
      ⟨Nat.zero_le j, hj, (hearly j).2 hcount⟩
  · intro hnew i j hij hi hj
    exact hnew i j hij hi.passes hj.passes ((hearly j).1 hj.early)

end

/-- A chain that counts the blocks up repeats none in its first eight hits. -/
theorem noRepeat_count : NoRepeat countKernel (smallContext (List.range 13)).passiveFs (fun _ => 0)
    32 8 := by
  have h : (placeReplicas countKernel (smallContext (List.range 13)).passiveFs 32 1 8
      (chainHash countKernel (fun _ => 0) 0) (smallContext []).vector).map (·.1) =
        some [1, 2, 3, 4, 5, 6, 7, 8] := by
    decide +kernel
  obtain ⟨⟨locs, v⟩, hplace, rfl⟩ := Option.map_eq_some_iff.1 h
  exact (replicas_nodup_iff hplace).2.1 (by decide)

/-- Where the chain stays at block 1, all replicas are put there. -/
theorem replicas_not_nodup :
    ¬∀ (k : Kernel) (fs : AfsPassiveFs) (passphrase : Mem) (size rounds : ℕ) (v v' : BitVector)
      (locs : List ℕ), 0 < size → fs.freeList.Pairwise (· < ·) → 8 ≤ fs.freeList.length →
      placeReplicas k fs size rounds 8 (chainHash k passphrase 0) v = some (locs, v') →
        locs.Nodup := by
  intro hall
  have h : (placeReplicas (constKernel 1) (smallContext (List.range 13)).passiveFs 32 1 8
      (chainHash (constKernel 1) (fun _ => 0) 0) (smallContext []).vector).map (·.1) =
        some (List.replicate 8 1) := by
    decide +kernel
  obtain ⟨⟨locs, v⟩, hplace, rfl⟩ := Option.map_eq_some_iff.1 h
  exact absurd (hall _ _ _ _ _ _ _ _ (by decide) (by decide) (by decide) hplace) (by decide)

end Artifice
