import Artifice.Metadata.SuperBlock

/-!
How many replicas of the super block a mount can do without.

`find_super_block` retries after a failed check, but the location it retries has already passed
the free list test, so its rehash loop does not move on: only replica 0 is ever read.
-/

namespace Artifice

open Lib

/-- The search finds the super block at block `b`, and `find_super_block` does not fail with
`-ENOENT`, its code for a corrupted super block. -/
def Finds (k : Kernel) (ctx : AfsPrivate) (b : ℕ) : Prop :=
  ∃ r₀, ∀ rounds ≥ r₀,
    (∃ s, searchSuperBlock k rounds ctx = some s ∧ s.valid = true ∧
      s.reads.getLast? = some b) ∧
    ∀ c, findSuperBlock k rounds ctx ≠ some (-2, c)

section

variable {k : Kernel} {rounds c : ℕ} {ctx ctx' ctx₁ ctx₂ : AfsPrivate} {fs : AfsPassiveFs}
  {passphrase sb : Mem} {size : ℕ} {locs written : List ℕ} {ret : ℤ} {s : AfsPrivate × ℕ}

theorem placeReplicas_first {v v' : BitVector}
    (h : placeReplicas k fs size rounds (c + 1) (chainHash k passphrase 0) v = some (locs, v')) :
    ∃ n rest, FirstPasses k fs passphrase size n ∧
      locs = chainValue k passphrase size n :: rest := by
  obtain ⟨n, rest, -, hp, hj, hlocs, -⟩ := placeReplicas_succ h
  exact ⟨n, rest, ⟨hp, fun j => hj j (Nat.zero_le j)⟩, hlocs⟩

/-- What `write_super_block` leaves: the first replica is at the entry of `block_list` that the
search will look at, and every replica holds a valid super block. -/
theorem writeSuperBlock_spec (h : writeSuperBlock k rounds ctx = some (0, ctx₂, written)) :
    blockDeviceSize ctx.config ≠ 0 ∧
      (∃ n b rest, FirstPasses k ctx.passiveFs ctx.passphrase (blockDeviceSize ctx.config) n ∧
        ctx.passiveFs.blockList[chainValue k ctx.passphrase
          (blockDeviceSize ctx.config) n]? = some b ∧ written = b :: rest) ∧
      ∀ b ∈ written, blockValid k ctx₂.disk b ctx.passiveFs.dataStartOff = true := by
  obtain ⟨ctx₁, sbBlock, d, hprep, hd, rfl⟩ := writeSuperBlock_written h
  obtain ⟨h0, ⟨v, hplace⟩, hsame, hvalid, -⟩ := prepareSuperBlock_spec hprep
  obtain ⟨n, rest, hn, rfl⟩ := placeReplicas_first hplace
  rw [hsame.passiveFs] at hd
  refine ⟨h0, ?_, fun b hb => ?_⟩
  · have hmap := writeReplicas_iff.1 ⟨d, hd⟩
    cases written with
    | nil => simp at hmap
    | cons b w =>
      simp only [List.map_cons, List.cons.injEq] at hmap
      exact ⟨n, b, w, hn, hmap.1, rfl⟩
  · rw [blockValid_of_agree (writeReplicas_agree hd hb), hvalid]

theorem fillMapBlock_flow {b : ℕ} {f : Flow (AfsPrivate × ℕ)}
    (h : fillMapBlock k b s = some f) :
    f.Sat (fun _ => True) (fun _ => True) (fun _ _ => False) := by
  simp only [fillMapBlock] at h
  split_ifs at h <;> simp only [Option.map_some, Option.map_none, Option.some.injEq,
    reduceCtorEq] at h <;> subst h <;> trivial

theorem afsFillMap_ret (h : afsFillMap k sb ctx = some (ret, ctx')) : ret ≠ -2 := by
  simp only [afsFillMap] at h
  split_ifs at h with hk
  · simp only [Option.bind_eq_bind, Option.bind_eq_some_iff] at h
    obtain ⟨f, hf, h⟩ := h
    have hflow := forLoop_inv (I := fun _ _ => True) (fun j s g _ _ _ hb => fillMapBlock_flow hb)
      trivial hf
    cases f with
    | ret c s => exact hflow.elim
    | brk s => exact hflow.elim
    | next s =>
      simp only [Option.bind_eq_some_iff] at h
      obtain ⟨s', -, h⟩ := h
      split_ifs at h <;> simp only [Option.some.injEq, Prod.mk.injEq] at h <;> omega
  · simp only [Option.some.injEq, Prod.mk.injEq] at h
    omega

theorem findSuperBlock_ret {s : SbSearch} (hs : searchSuperBlock k rounds ctx = some s)
    (hv : s.valid = true) (h : findSuperBlock k rounds ctx = some (ret, ctx')) : ret ≠ -2 := by
  simp only [findSuperBlock, hs, Option.bind_eq_bind, Option.bind_some, hv, not_true_eq_false,
    if_false] at h
  split_ifs at h
  · simp only [Option.some.injEq, Prod.mk.injEq] at h
    omega
  · simp only [Option.bind_eq_some_iff] at h
    obtain ⟨⟨r1, c1⟩, hm, h⟩ := h
    split_ifs at h with e1
    · simp only [Option.some.injEq, Prod.mk.injEq] at h
      rcases afsCreateMap_cases hm with ⟨hr, -⟩ | ⟨hr, -⟩ <;> omega
    · simp only [Option.bind_eq_some_iff] at h
      obtain ⟨⟨r2, c2⟩, hf, h⟩ := h
      have hr2 := afsFillMap_ret hf
      split_ifs at h <;> simp only [Option.some.injEq, Prod.mk.injEq] at h <;> omega

theorem finds_iff {b x : ℕ} {rest : List ℕ}
    (hwrite : writeSuperBlock k rounds ctx = some (0, ctx₂, b :: rest))
    (hfs : ctx'.passiveFs = ctx.passiveFs) (hpass : ctx'.passphrase = ctx.passphrase)
    (hsize : ctx'.config.bdevSize = ctx.config.bdevSize) :
    Finds k ctx' x ↔ x = b ∧ blockValid k ctx'.disk b ctx.passiveFs.dataStartOff = true := by
  obtain ⟨h0, ⟨n, b', rest', hn, hb, heq⟩, -⟩ := writeSuperBlock_spec hwrite
  obtain ⟨rfl, rfl⟩ := List.cons.inj heq
  have hdev : blockDeviceSize ctx'.config = blockDeviceSize ctx.config := by
    rw [blockDeviceSize, hsize, blockDeviceSize]
  have hsearch : ∀ rounds, n < rounds → ∃ s, searchSuperBlock k rounds ctx' = some s ∧
      s.valid = blockValid k ctx'.disk b ctx.passiveFs.dataStartOff ∧
      s.reads.getLast? = some b := by
    intro rounds hlt
    rw [← hdev, ← hfs, ← hpass] at hn hb
    obtain ⟨s, hs, -, hv, hne, hall, -⟩ := searchSuperBlock_eq (hdev ▸ h0) hn hb hlt
    obtain ⟨y, hy⟩ := Option.isSome_iff_exists.1 (List.getLast?_isSome.2 hne)
    exact ⟨s, hs, hfs ▸ hv, by rw [hy, hall y (List.mem_of_getLast? hy)]⟩
  constructor
  · rintro ⟨r₀, hfind⟩
    obtain ⟨⟨s, hs, hv, hlast⟩, -⟩ := hfind (max r₀ (n + 1)) (le_max_left _ _)
    obtain ⟨s', hs', hv', hlast'⟩ := hsearch (max r₀ (n + 1)) (by omega)
    rw [hs, Option.some.injEq] at hs'
    subst hs'
    rw [hlast, Option.some.injEq] at hlast'
    exact ⟨hlast', hv' ▸ hv⟩
  · rintro ⟨rfl, hvalid⟩
    refine ⟨n + 1, fun rounds hlt => ?_⟩
    obtain ⟨s, hs, hv, hlast⟩ := hsearch rounds hlt
    exact ⟨⟨s, hs, hv.trans hvalid, hlast⟩, fun c hc =>
      findSuperBlock_ret hs (hv.trans hvalid) hc rfl⟩

/-- **Only replica 0 is ever found.** After a creation, with all replicas but one overwritten by
pages that do not hash to the value they store, a mount with the same passphrase and free list
finds the remaining replica exactly when it is replica 0. -/
theorem replica_found_iff {r : ℕ}
    (hwrite : writeSuperBlock k rounds ctx = some (0, ctx₂, written))
    (hfs : ctx'.passiveFs = ctx.passiveFs) (hpass : ctx'.passphrase = ctx.passphrase)
    (hsize : ctx'.config.bdevSize = ctx.config.bdevSize) (hr : r < written.length)
    (hintact : Agree ctx'.disk (512 * pageSector written[r] ctx.passiveFs.dataStartOff)
      ctx₂.disk (512 * pageSector written[r] ctx.passiveFs.dataStartOff) 4096)
    (hbad : ∀ j (hj : j < written.length), j ≠ r →
      blockValid k ctx'.disk written[j] ctx.passiveFs.dataStartOff = false) :
    Finds k ctx' written[r] ↔ r = 0 := by
  obtain ⟨-, ⟨n, b, rest, -, -, rfl⟩, hvalid⟩ := writeSuperBlock_spec hwrite
  rw [finds_iff hwrite hfs hpass hsize]
  constructor
  · rintro ⟨-, hb⟩
    by_contra hne
    have hb0 : blockValid k ctx'.disk b ctx.passiveFs.dataStartOff = false :=
      hbad 0 (by simp) (Ne.symm hne)
    rw [hb0] at hb
    simp at hb
  · rintro rfl
    exact ⟨rfl, (blockValid_congr hintact).trans (hvalid b (by simp))⟩

end

/-- A kernel whose hash chain counts the blocks up from the first byte of the passphrase. -/
def countKernel : Kernel :=
  { constKernel 0 with sha1 := fun l => putLe (fun _ => 0) 0 4 ((l.headD 0).toNat + 1) }

theorem bytes_getElem? (m : Mem) (o : ℕ) {i n : ℕ} (h : i < n) :
    (bytes m o n)[i]? = some (m (o + i)) := by
  rw [bytes, List.getElem?_map, List.getElem?_range h, Option.map_some]

theorem blockValid_countKernel {disk : Mem} {b off : ℕ} (h : disk (512 * pageSector b off) ≠ 0) :
    blockValid countKernel disk b off = false := by
  have h0 : readPage (fun _ => 0) 0 disk b off 0 = disk (512 * pageSector b off) :=
    agree_readPage 0 (by norm_num)
  rw [blockValid, sbValid, beq_eq_false_iff_ne]
  intro he
  have hbyte := congrArg (fun l => l[0]?) he
  simp only [bytes_getElem? _ _ (show 0 < 32 by norm_num), Option.some.injEq] at hbyte
  exact h (h0.symm.trans hbyte)

/-- The small instance over the blocks 0 to 12, with `disk` on the device. -/
def damagedContext (disk : Mem) : AfsPrivate := { smallContext (List.range 13) with disk }

theorem damagedContext_passiveFs (disk : Mem) :
    (damagedContext disk).passiveFs = (smallContext (List.range 13)).passiveFs := rfl

theorem damagedContext_passphrase (disk : Mem) :
    (damagedContext disk).passphrase = (smallContext (List.range 13)).passphrase := rfl

theorem damagedContext_config (disk : Mem) :
    (damagedContext disk).config = (smallContext (List.range 13)).config := rfl

theorem writeSuperBlock_small :
    ∃ ctx₂, writeSuperBlock countKernel 1 (smallContext (List.range 13)) =
      some (0, ctx₂, [1, 2, 3, 4, 5, 6, 7, 8]) := by
  have h : (writeSuperBlock countKernel 1 (smallContext (List.range 13))).map
      (fun r => (r.1, r.2.2)) = some (0, [1, 2, 3, 4, 5, 6, 7, 8]) := by
    decide +kernel
  obtain ⟨⟨r, ctx₂, written⟩, hw, he⟩ := Option.map_eq_some_iff.1 h
  simp only [Prod.mk.injEq] at he
  obtain ⟨rfl, rfl⟩ := he
  exact ⟨ctx₂, hw⟩

theorem replicaBlock_small {i : ℕ} (hi : i < 8) :
    replicaBlock countKernel (smallContext (List.range 13)).passiveFs
      (smallContext (List.range 13)).passphrase
      (blockDeviceSize (smallContext (List.range 13)).config) i = i + 1 := by
  have h : (prepareSuperBlock countKernel 1 (smallContext (List.range 13))).map
      (fun r => (r.1, r.2.2)) = some (0, (List.range 8).map (· + 1)) := by
    decide +kernel
  obtain ⟨⟨r, ctx₁, sbBlock⟩, hprep, he⟩ := Option.map_eq_some_iff.1 h
  simp only [Prod.mk.injEq] at he
  obtain ⟨rfl, rfl⟩ := he
  obtain ⟨-, ⟨v, hplace⟩, -⟩ := prepareSuperBlock_spec hprep
  have hlocs := placeReplicas_nth hplace
  simp only [Nat.count_zero, Nat.zero_add] at hlocs
  exact (List.map_inj_left.1 hlocs i (List.mem_range.2 hi)).symm

theorem pageSector_small {b : ℕ} (h : b < 2 ^ 20) :
    512 * pageSector b (smallContext (List.range 13)).passiveFs.dataStartOff = 4096 * b := by
  show 512 * pageSector b 0 = 4096 * b
  rw [(pageSector_eq_iff b 0).2 ⟨h, by omega⟩]
  omega

theorem blockValid_small {disk : Mem} {b : ℕ} (hb : b < 2 ^ 20) (h : disk (4096 * b) = 1) :
    blockValid countKernel disk b (smallContext (List.range 13)).passiveFs.dataStartOff
      = false := by
  refine blockValid_countKernel ?_
  rw [pageSector_small hb, h]
  decide

/-- With everything from block 2 on overwritten, replica 0 in block 1 is found. -/
theorem replica_found_small :
    ∃ ctx₂, writeSuperBlock countKernel 1 (smallContext (List.range 13)) =
        some (0, ctx₂, [1, 2, 3, 4, 5, 6, 7, 8]) ∧
      Finds countKernel (damagedContext fun i => if 8192 ≤ i then 1 else ctx₂.disk i) 1 := by
  obtain ⟨ctx₂, hw⟩ := writeSuperBlock_small
  have hintact : Agree (damagedContext fun i => if 8192 ≤ i then 1 else ctx₂.disk i).disk
      (512 * pageSector 1 (smallContext (List.range 13)).passiveFs.dataStartOff) ctx₂.disk
      (512 * pageSector 1 (smallContext (List.range 13)).passiveFs.dataStartOff) 4096 := by
    intro i hi
    rw [pageSector_small (by norm_num)]
    exact if_neg (by omega)
  have hbad : ∀ j (hj : j < [1, 2, 3, 4, 5, 6, 7, 8].length), j ≠ 0 →
      blockValid countKernel (damagedContext fun i => if 8192 ≤ i then 1 else ctx₂.disk i).disk
        [1, 2, 3, 4, 5, 6, 7, 8][j] (smallContext (List.range 13)).passiveFs.dataStartOff
        = false := by
    intro j hj hne
    have hb : 2 ≤ [1, 2, 3, 4, 5, 6, 7, 8][j] ∧ [1, 2, 3, 4, 5, 6, 7, 8][j] < 2 ^ 20 := by
      simp only [List.length_cons, List.length_nil] at hj
      interval_cases j <;> simp at hne ⊢
    exact blockValid_small hb.2 (if_pos (by omega))
  exact ⟨ctx₂, hw, (replica_found_iff (r := 0) hw (damagedContext_passiveFs _)
    (damagedContext_passphrase _) (congrArg _ (damagedContext_config _)) (by decide)
    hintact hbad).2 rfl⟩

/-- With block 1 and everything from block 3 on overwritten, replica 1 in block 2 is intact and
not found. -/
theorem replica_not_found :
    ¬ ∀ (k : Kernel) (rounds : ℕ) (ctx ctx₂ ctx' : AfsPrivate) (written : List ℕ) (r : ℕ)
      (hr : r < written.length),
      writeSuperBlock k rounds ctx = some (0, ctx₂, written) → written.Nodup →
      (∀ i < 8, replicaBlock k ctx.passiveFs ctx.passphrase (blockDeviceSize ctx.config) i
        < ctx.passiveFs.listLen) →
      ctx'.passiveFs = ctx.passiveFs → ctx'.passphrase = ctx.passphrase →
      ctx'.config = ctx.config →
      Agree ctx'.disk (512 * pageSector written[r] ctx.passiveFs.dataStartOff)
        ctx₂.disk (512 * pageSector written[r] ctx.passiveFs.dataStartOff) 4096 →
      (∀ j (hj : j < written.length), j ≠ r →
        blockValid k ctx'.disk written[j] ctx.passiveFs.dataStartOff = false) →
      Finds k ctx' written[r] := by
  intro h
  obtain ⟨ctx₂, hw⟩ := writeSuperBlock_small
  have hlocs : ∀ i < 8, replicaBlock countKernel (smallContext (List.range 13)).passiveFs
      (smallContext (List.range 13)).passphrase
      (blockDeviceSize (smallContext (List.range 13)).config) i
      < (smallContext (List.range 13)).passiveFs.listLen := by
    intro i hi
    have hlen : (smallContext (List.range 13)).passiveFs.listLen = 13 := by decide
    rw [replicaBlock_small hi, hlen]
    omega
  have hf := h countKernel 1 _ ctx₂ (damagedContext fun i =>
    if 4096 ≤ i ∧ (i < 8192 ∨ 12288 ≤ i) then 1 else ctx₂.disk i) _ 1 (by decide) hw (by decide)
    hlocs (damagedContext_passiveFs _) (damagedContext_passphrase _) (damagedContext_config _)
    (fun i hi => by
      rw [List.getElem_cons_succ, List.getElem_cons_zero, pageSector_small (by norm_num)]
      exact if_neg (by omega))
    (fun j hj hne => by
      have hb : ([1, 2, 3, 4, 5, 6, 7, 8][j] = 1 ∨ 3 ≤ [1, 2, 3, 4, 5, 6, 7, 8][j]) ∧
          [1, 2, 3, 4, 5, 6, 7, 8][j] < 2 ^ 20 := by
        simp only [List.length_cons, List.length_nil] at hj
        interval_cases j <;> simp at hne ⊢
      exact blockValid_small hb.2 (if_pos (by omega)))
  have hx := ((finds_iff hw (damagedContext_passiveFs _) (damagedContext_passphrase _)
    (congrArg _ (damagedContext_config _))).1 hf).1
  exact absurd hx (by decide)

end Artifice
