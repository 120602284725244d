import Artifice.Modules.Ext4

/-!
The free list that the scan of the group bitmaps makes, exactly.

The scan of a group reads its bitmap into the bit vector, sets the bits of the backups, and lists the
bits that are clear; every bit is cleared again behind the scan, so that the next group starts from a
clear vector. The list is that of the groups in order, each with its clear bits in order
(`scanGroups_eq`).
-/

namespace Artifice

open Lib

section

variable {k : Kernel} {is64bit : Bool} {disk : Ext4Disk} {device gd : Mem} {gdArr : ℕ → Mem}
  {bvec : BitVector} {p : ℕ → Bool} {alloc o n m i j g : ℕ} {s : Ext4Scan}

/-! ### The vector of a group -/

theorem bitVectorSet_bits_iff (hj : j < bvec.length) :
    (bitVectorSet bvec i).2.bits j = true ↔ bvec.bits j = true ∨ j = i := by
  unfold bitVectorSet
  split_ifs with h
  · constructor
    · exact .inl
    · rintro (hbit | rfl)
      · exact hbit
      · omega
  · by_cases hji : j = i
    · simp [hji]
    · simp [hji]

theorem bitVectorSet_length : (bitVectorSet bvec i).2.length = bvec.length := by
  unfold bitVectorSet
  split_ifs <;> rfl

/-- The bits inside of the vector that `setWhere` has set. An index behind the vector is refused, and
the one at its end is not a bit that is scanned. -/
theorem setWhere_bits_iff (hj : j < bvec.length) :
    (setWhere p o bvec n).bits j = true ↔
      bvec.bits j = true ∨ (o ≤ j ∧ j < o + n ∧ p j = true) := by
  induction n with
  | zero =>
    rw [setWhere]
    constructor
    · exact .inl
    · rintro (hbit | h)
      · exact hbit
      · omega
  | succ n ih =>
    have hlast : ∀ q, (o ≤ j ∧ j < o + (n + 1) ∧ q) ↔ (o ≤ j ∧ j < o + n ∧ q) ∨ (j = o + n ∧ q) := by
      intro q
      constructor
      · rintro ⟨h1, h2, hq⟩
        rcases Nat.lt_succ_iff_lt_or_eq.1 h2 with h | h
        · exact .inl ⟨h1, h, hq⟩
        · exact .inr ⟨h, hq⟩
      · rintro (⟨h1, h2, hq⟩ | ⟨h, hq⟩)
        · exact ⟨h1, by omega, hq⟩
        · exact ⟨by omega, by omega, hq⟩
    rw [setWhere, hlast, ← or_assoc, ← ih]
    split_ifs with hp
    · rw [bitVectorSet_bits_iff (by rwa [setWhere_length])]
      constructor
      · rintro (h | rfl)
        · exact .inl h
        · exact .inr ⟨rfl, hp⟩
      · rintro (h | h)
        · exact .inl h
        · exact .inr h.1
    · constructor
      · exact .inl
      · rintro (h | ⟨rfl, h⟩)
        · exact h
        · exact absurd h hp

/-- The blocks of a backup: the super block, the descriptor table, and the blocks reserved for it. -/
def backupLength (disk : Ext4Disk) : ℕ :=
  1 + (disk.numGrpDescs * disk.grpDescSz / disk.blkSz +
    if disk.numGrpDescs * disk.grpDescSz % disk.blkSz / disk.grpDescSz ≠ 0 then 1 else 0) +
    disk.reservedGdtBlocks

/-- Whether group `g` has a backup. -/
def hasBackups (disk : Ext4Disk) (g : ℕ) : Bool :=
  disk.isSparseSuper && (g = 0 || isPowN g 3 || isPowN g 5 || isPowN g 7)

theorem setBackups_bits_iff (hj : j < bvec.length) :
    (setBackups disk g bvec).bits j = true ↔
      bvec.bits j = true ∨ (hasBackups disk g = true ∧ j < backupLength disk) := by
  have hcond : (disk.isSparseSuper && (g = 0 || isPowN g 3 || isPowN g 5 || isPowN g 7)) =
      hasBackups disk g := rfl
  rw [setBackups, hcond]
  by_cases hback : hasBackups disk g = true
  · rw [if_pos hback]
    dsimp only
    rw [setWhere_bits_iff (by rwa [setWhere_length, bitVectorSet_length]),
      setWhere_bits_iff (by rwa [bitVectorSet_length]), bitVectorSet_bits_iff hj, backupLength]
    generalize disk.numGrpDescs * disk.grpDescSz / disk.blkSz = gdBlks
    generalize disk.numGrpDescs * disk.grpDescSz % disk.blkSz / disk.grpDescSz = remGds
    by_cases hbit : bvec.bits j = true
    · simp [hbit]
    · simp only [hbit, hback, Bool.false_eq_true, false_or, true_and, and_true]
      split_ifs <;> omega
  · rw [if_neg hback]
    constructor
    · exact .inl
    · rintro (hbit | h)
      · exact hbit
      · exact absurd h.1 hback

/-- The blocks of group `g` that `read_bitmap` finds free: their bit is clear, and they are not in a
backup. -/
def groupFree (is64bit : Bool) (disk : Ext4Disk) (device gd : Mem) (g j : ℕ) : Bool :=
  !bitmapBit (bitmapPage is64bit device gd) j &&
    !(hasBackups disk g && decide (j < backupLength disk))

/-- What `read_bitmap` needs: a page, which has a bit for every block of a group. -/
structure BitmapPage (k : Kernel) (disk : Ext4Disk) : Prop where
  page : k.vmalloc 4096 = true
  group : disk.blksPerGrp ≤ 32768

theorem readBitmap_page {bvec' : BitVector}
    (h : readBitmap k is64bit disk device gd g bvec = some bvec') : BitmapPage k disk := by
  unfold readBitmap at h
  split_ifs at h with hpage
  rw [not_or, Bool.not_eq_false, Nat.not_lt] at hpage
  exact ⟨hpage.1, hpage.2⟩

theorem readBitmap_bits (hpage : BitmapPage k disk)
    (hlen : bvec.length = disk.blksPerGrp) (hclear : ∀ q < disk.blksPerGrp, bvec.bits q = false) :
    ∃ bvec', readBitmap k is64bit disk device gd g bvec = some bvec' ∧
      bvec'.length = disk.blksPerGrp ∧
      ∀ j < disk.blksPerGrp, bvec'.bits j = !groupFree is64bit disk device gd g j := by
  have hbpg := hpage.group
  refine ⟨_, if_neg (by rw [hpage.page]; simp; omega), ?_, fun j hj => ?_⟩
  · rw [setBackups_length, setWhere_length, hlen]
  · rw [Bool.eq_iff_iff, setBackups_bits_iff (by rwa [setWhere_length, hlen]),
      setWhere_bits_iff (by rwa [hlen]), hclear j hj]
    simp [groupFree, hj]

/-! ### The list -/

/-- The entry that the scan makes of bit `j` of group `g`. -/
def groupEntry (disk : Ext4Disk) (g j : ℕ) : ℕ :=
  disk.blksPerGrp * g % 2 ^ 32 + (j + disk.firstDataBlock) % 2 ^ 32

/-- The entries of the `m` bits from `j` on that are clear and have a block number. -/
def clearEntries (disk : Ext4Disk) (bits : ℕ → Bool) (g j m : ℕ) : List ℕ :=
  ((List.range' j m).filter fun q => !bits q && decide (groupEntry disk g q ≤ 0xFFFFFFFF)).map
    (groupEntry disk g)

theorem clearEntries_congr {bits bits' : ℕ → Bool} (h : ∀ q, j ≤ q → q < j + m → bits q = bits' q) :
    clearEntries disk bits g j m = clearEntries disk bits' g j m := by
  unfold clearEntries
  congr 1
  refine List.filter_congr fun q hq => ?_
  obtain ⟨h1, h2⟩ := List.mem_range'_1.1 hq
  rw [h q h1 h2]

/-- The vector with the `m` bits from `j` on cleared. -/
def clearBits (bvec : BitVector) (j m : ℕ) : BitVector :=
  { bvec with bits := fun q => if j ≤ q ∧ q < j + m then false else bvec.bits q }

theorem clearEntries_succ (bits : ℕ → Bool) :
    clearEntries disk bits g j (m + 1) =
      (if bits j = false ∧ groupEntry disk g j ≤ 0xFFFFFFFF then [groupEntry disk g j] else []) ++
        clearEntries disk bits g (j + 1) m := by
  rw [clearEntries, List.range'_succ, List.filter_cons, clearEntries]
  by_cases h : bits j = false ∧ groupEntry disk g j ≤ 0xFFFFFFFF
  · rw [if_pos h, if_pos (by simp [h.1, h.2])]
    rfl
  · rw [if_neg h, if_neg (by simpa using h)]
    rfl

theorem scanGroup_succ : scanGroup disk alloc g (m + 1) j s =
    if bitVectorGet s.bvec j = 0 ∧ groupEntry disk g j ≤ 0xFFFFFFFF then
      if 4 * (s.blockList.length + 1) ≤ alloc then
        scanGroup disk alloc g m (j + 1) { s with
          bvec := (bitVectorClear s.bvec j).2, blockList := s.blockList ++ [groupEntry disk g j] }
      else none
    else scanGroup disk alloc g m (j + 1) { s with bvec := (bitVectorClear s.bvec j).2 } := by
  have hentry : disk.blksPerGrp * g % 2 ^ 32 + (j + disk.firstDataBlock) % 2 ^ 32 =
      groupEntry disk g j := rfl
  rw [scanGroup, forLoop]
  dsimp only
  rw [hentry]
  split_ifs <;> rfl

/-- The scan of the bits of a group appends the entries of those that are clear, as far as the buffer
reaches, and clears them all. -/
theorem scanGroup_eq (hlen : j + m ≤ s.bvec.length) (hfit : 4 * s.blockList.length ≤ alloc) :
    scanGroup disk alloc g m j s =
      if 4 * (s.blockList.length + (clearEntries disk s.bvec.bits g j m).length) ≤ alloc
      then some (.next { s with
        bvec := clearBits s.bvec j m
        blockList := s.blockList ++ clearEntries disk s.bvec.bits g j m })
      else none := by
  induction m generalizing j s with
  | zero =>
    have hbits : clearBits s.bvec j 0 = s.bvec := by
      unfold clearBits
      congr 1
      funext q
      exact if_neg (by omega)
    have hnil : clearEntries disk s.bvec.bits g j 0 = [] := rfl
    rw [hnil, hbits, List.append_nil, List.length_nil, Nat.add_zero, if_pos hfit]
    rfl
  | succ m ih =>
    -- the vector behind the first round
    have hclear : (bitVectorClear s.bvec j).2 =
        ⟨Function.update s.bvec.bits j false, s.bvec.length⟩ := by
      rw [bitVectorClear, if_neg (by omega)]
    have hget : bitVectorGet s.bvec j = 0 ↔ s.bvec.bits j = false := by
      rw [bitVectorGet, if_neg (by omega)]
      cases s.bvec.bits j <;> simp
    have hrest : clearEntries disk (Function.update s.bvec.bits j false) g (j + 1) m =
        clearEntries disk s.bvec.bits g (j + 1) m :=
      clearEntries_congr fun q hq _ => Function.update_of_ne (by omega) _ _
    have hbits : clearBits ⟨Function.update s.bvec.bits j false, s.bvec.length⟩ (j + 1) m =
        clearBits s.bvec j (m + 1) := by
      unfold clearBits
      congr 1
      funext q
      dsimp only
      by_cases hq : q = j
      · subst hq
        simp
      · rw [Function.update_of_ne hq]
        refine if_congr ?_ rfl rfl
        omega
    rw [clearEntries_succ, scanGroup_succ, hclear]
    by_cases hfree : s.bvec.bits j = false ∧ groupEntry disk g j ≤ 0xFFFFFFFF
    · rw [if_pos ⟨hget.2 hfree.1, hfree.2⟩, if_pos hfree]
      by_cases hroom : 4 * (s.blockList.length + 1) ≤ alloc
      · rw [if_pos hroom, ih (by dsimp only; omega) (by simpa using hroom)]
        dsimp only
        rw [hrest, hbits, List.append_assoc, List.length_append, List.length_append, Nat.add_assoc]
      · rw [if_neg hroom, if_neg]
        simp only [List.length_append, List.length_singleton]
        omega
    · rw [if_neg fun h => hfree ⟨hget.1 h.1, h.2⟩, if_neg hfree]
      rw [ih]
      · dsimp only
        rw [hrest, hbits, List.nil_append]
      · show j + 1 + m ≤ s.bvec.length
        omega
      · exact hfit

/-- The entries of group `g`. -/
def groupEntries (is64bit : Bool) (disk : Ext4Disk) (device gd : Mem) (g : ℕ) : List ℕ :=
  ((List.range disk.blksPerGrp).filter fun j =>
    groupFree is64bit disk device gd g j && decide (groupEntry disk g j ≤ 0xFFFFFFFF)).map
    (groupEntry disk g)

/-- The vector between two groups: it has a bit for each block of a group, and none is set. -/
structure ClearVector (disk : Ext4Disk) (bvec : BitVector) : Prop where
  length : bvec.length = disk.blksPerGrp
  clear : ∀ q < disk.blksPerGrp, bvec.bits q = false

/-- **The list that the scan makes**: the entries of the groups in order, as far as the buffer
reaches. -/
theorem scanGroups_eq (hpage : 0 < n → BitmapPage k disk) (hclear : ClearVector disk s.bvec)
    (hfit : 4 * s.blockList.length ≤ alloc) :
    ∃ bvec', ClearVector disk bvec' ∧
      scanGroups k is64bit disk gdArr device alloc n i s =
        if 4 * (s.blockList.length + ((List.range' i n).flatMap fun g =>
            groupEntries is64bit disk device (gdArr g) g).length) ≤ alloc
        then some (.next ⟨bvec', s.blockList ++ (List.range' i n).flatMap fun g =>
          groupEntries is64bit disk device (gdArr g) g, s.groups ++ List.range' i n⟩)
        else none := by
  induction n generalizing i s with
  | zero =>
    refine ⟨s.bvec, hclear, ?_⟩
    rw [List.range'_zero, List.flatMap_nil, List.length_nil, Nat.add_zero, if_pos hfit,
      List.append_nil, List.append_nil]
    rfl
  | succ n ih =>
    obtain ⟨bvec, hread, hlen, hbits⟩ : ∃ bvec, readBitmap k is64bit disk device (gdArr i) i s.bvec =
        some bvec ∧ _ :=
      readBitmap_bits (hpage n.succ_pos) hclear.length hclear.clear
    have hentries : clearEntries disk bvec.bits i 0 bvec.length =
        groupEntries is64bit disk device (gdArr i) i := by
      rw [clearEntries, groupEntries, hlen, ← List.range_eq_range']
      congr 1
      refine List.filter_congr fun j hj => ?_
      rw [hbits j (List.mem_range.1 hj), Bool.not_not]
    have hnext : ClearVector disk (clearBits bvec 0 bvec.length) :=
      ⟨hlen, fun q hq => if_pos ⟨Nat.zero_le q, by omega⟩⟩
    have hscan : scanGroup disk alloc i bvec.length 0
        { s with bvec, groups := s.groups ++ [i] } = _ :=
      scanGroup_eq (show 0 + bvec.length ≤ bvec.length by omega) hfit
    dsimp only at hscan
    rw [hentries] at hscan
    have hround : scanGroups k is64bit disk gdArr device alloc (n + 1) i s =
        if 4 * (s.blockList.length + (groupEntries is64bit disk device (gdArr i) i).length) ≤ alloc
        then scanGroups k is64bit disk gdArr device alloc n (i + 1)
          ⟨clearBits bvec 0 bvec.length,
            s.blockList ++ groupEntries is64bit disk device (gdArr i) i, s.groups ++ [i]⟩
        else none := by
      rw [scanGroups, forLoop]
      simp only [hread, Option.bind_eq_bind, Option.bind_some, hscan]
      split_ifs <;> rfl
    rw [hround]
    by_cases hroom : 4 * (s.blockList.length +
        (groupEntries is64bit disk device (gdArr i) i).length) ≤ alloc
    · obtain ⟨bvec', hclear', heq⟩ := ih (fun _ => hpage n.succ_pos) (i := i + 1)
        (s := ⟨clearBits bvec 0 bvec.length,
          s.blockList ++ groupEntries is64bit disk device (gdArr i) i, s.groups ++ [i]⟩) hnext
        (by rwa [List.length_append])
      refine ⟨bvec', hclear', ?_⟩
      rw [if_pos hroom, heq, List.range'_succ, List.flatMap_cons]
      dsimp only
      rw [List.append_assoc, List.append_assoc, List.singleton_append, List.length_append,
        List.length_append, Nat.add_assoc]
    · refine ⟨_, hnext, ?_⟩
      rw [if_neg hroom, if_neg]
      rw [List.range'_succ, List.flatMap_cons, List.length_append]
      omega

/-- The entries of all groups. -/
def scanList (is64bit : Bool) (disk : Ext4Disk) (gdArr : ℕ → Mem) (device : Mem) : List ℕ :=
  (List.range disk.numGrpDescs).flatMap fun g => groupEntries is64bit disk device (gdArr g) g

theorem readBitmaps_eq {fs : AfsPassiveFs} (hvec : k.vmalloc (disk.blksPerGrp / 8 + 1) = true)
    (hlist : k.vmalloc (disk.freeBlockCount * 4) = true)
    (hpage : 0 < disk.numGrpDescs → BitmapPage k disk) (hnum : disk.numGrpDescs < 2 ^ 32) :
    readBitmaps k is64bit disk gdArr device fs =
      if 4 * (scanList is64bit disk gdArr device).length ≤ pageRound (disk.freeBlockCount * 4) then
        if k.vmalloc ((scanList is64bit disk gdArr device).length % 2 ^ 32 * 4) then
          some (0, { fs with
            blockList := scanList is64bit disk gdArr device ++
              (List.range (pageRound (disk.freeBlockCount * 4) / 4 -
                (scanList is64bit disk gdArr device).length)).map fun i =>
                le k.uninit (4 * ((scanList is64bit disk gdArr device).length + i)) 4
            listLen := (scanList is64bit disk gdArr device).length % 2 ^ 32 },
            List.range disk.numGrpDescs)
        else some (1, { fs with
          blockList := [], listLen := (scanList is64bit disk gdArr device).length % 2 ^ 32 },
          List.range disk.numGrpDescs)
      else none := by
  obtain ⟨bvec', -, heq⟩ : ∃ bvec', ClearVector disk bvec' ∧
      scanGroups k is64bit disk gdArr device (pageRound (disk.freeBlockCount * 4)) disk.numGrpDescs 0
        ⟨⟨fun _ => false, disk.blksPerGrp⟩, [], []⟩ = _ :=
    scanGroups_eq hpage ⟨rfl, fun _ _ => rfl⟩ (Nat.zero_le _)
  dsimp only at heq
  rw [List.nil_append, List.nil_append, List.length_nil, Nat.zero_add, ← List.range_eq_range',
    ← scanList] at heq
  unfold readBitmaps
  dsimp only
  rw [if_neg (by rw [hvec, hlist]; simp), if_neg (Nat.not_le.2 hnum), heq]
  by_cases hfit : 4 * (scanList is64bit disk gdArr device).length ≤
      pageRound (disk.freeBlockCount * 4)
  · simp only [hfit, if_true, Option.bind_eq_bind, Option.bind_some]
  · simp only [hfit, if_false, Option.bind_eq_bind, Option.bind_none]

theorem scanGroups_page {f : Flow Ext4Scan}
    (h : scanGroups k is64bit disk gdArr device alloc n i s = some f) (hn : 0 < n) :
    BitmapPage k disk := by
  cases n with
  | zero => omega
  | succ n =>
    cases hread : readBitmap k is64bit disk device (gdArr i) i s.bvec with
    | none =>
      rw [scanGroups, forLoop] at h
      simp [hread] at h
    | some bvec => exact readBitmap_page hread

theorem readBitmaps_cases {fs fs' : AfsPassiveFs} {ret : ℤ} {groups : List ℕ}
    (h : readBitmaps k is64bit disk gdArr device fs = some (ret, fs', groups)) :
    (ret = 1 ∧ fs' = fs) ∨ (groups = List.range disk.numGrpDescs ∧
      fs'.freeList.Sublist (scanList is64bit disk gdArr device)) := by
  by_cases hlists : k.vmalloc (disk.blksPerGrp / 8 + 1) = true ∧
      k.vmalloc (disk.freeBlockCount * 4) = true
  · have hfail : ¬(k.vmalloc (disk.blksPerGrp / 8 + 1) = false ∨
        k.vmalloc (disk.freeBlockCount * 4) = false) := by
      rw [hlists.1, hlists.2]
      simp
    have hnum : disk.numGrpDescs < 2 ^ 32 := by
      by_contra hmany
      rw [readBitmaps, if_neg hfail, if_pos (Nat.not_lt.1 hmany)] at h
      exact absurd h (by simp)
    have hpage : 0 < disk.numGrpDescs → BitmapPage k disk := fun hn => by
      rw [readBitmaps, if_neg hfail, if_neg (Nat.not_le.2 hnum)] at h
      obtain ⟨f, hscan, -⟩ := Option.bind_eq_some_iff.1 h
      exact scanGroups_page hscan hn
    rw [readBitmaps_eq hlists.1 hlists.2 hpage hnum] at h
    split_ifs at h
    · simp only [Option.some.injEq, Prod.mk.injEq] at h
      obtain ⟨-, rfl, rfl⟩ := h
      refine .inr ⟨rfl, ?_⟩
      rw [AfsPassiveFs.freeList, List.take_append_of_le_length (Nat.mod_le _ _)]
      exact List.take_sublist _ _
    · simp only [Option.some.injEq, Prod.mk.injEq] at h
      obtain ⟨-, rfl, rfl⟩ := h
      refine .inr ⟨rfl, ?_⟩
      rw [AfsPassiveFs.freeList, List.take_nil]
      exact List.nil_sublist _
  · rw [readBitmaps, if_pos (by rwa [not_and_or, Bool.not_eq_true, Bool.not_eq_true] at hlists)] at h
    simp only [Option.some.injEq, Prod.mk.injEq] at h
    exact .inl ⟨h.1.symm, h.2.1.symm⟩

theorem mem_scanList {b : ℕ} : b ∈ scanList is64bit disk gdArr device ↔
    ∃ g < disk.numGrpDescs, ∃ j < disk.blksPerGrp,
      groupFree is64bit disk device (gdArr g) g j = true ∧ groupEntry disk g j ≤ 0xFFFFFFFF ∧
        groupEntry disk g j = b := by
  simp only [scanList, groupEntries, List.mem_flatMap, List.mem_map, List.mem_filter,
    List.mem_range, Bool.and_eq_true, decide_eq_true_eq, and_assoc]

/-- **The list is strictly increasing**, where the groups start below `2 ^ 32`. -/
theorem scanList_sorted (hbpg : disk.blksPerGrp ≤ 32768) (hfirst : disk.firstDataBlock ≤ 1)
    (hstart : ∀ g < disk.numGrpDescs, disk.blksPerGrp * g < 2 ^ 32) :
    (scanList is64bit disk gdArr device).Pairwise (· < ·) := by
  have hentry : ∀ g < disk.numGrpDescs, ∀ j < disk.blksPerGrp,
      groupEntry disk g j = disk.blksPerGrp * g + (j + disk.firstDataBlock) := by
    intro g hg j hj
    rw [groupEntry, Nat.mod_eq_of_lt (hstart g hg), Nat.mod_eq_of_lt (by omega)]
  rw [scanList, List.pairwise_flatMap]
  constructor
  · intro g hg
    have hg := List.mem_range.1 hg
    rw [groupEntries, List.pairwise_map]
    refine (List.pairwise_lt_range.filter _).imp_of_mem fun {j j'} hj hj' hlt => ?_
    have hj := List.mem_range.1 (List.mem_filter.1 hj).1
    have hj' := List.mem_range.1 (List.mem_filter.1 hj').1
    rw [hentry g hg j hj, hentry g hg j' hj']
    omega
  · refine List.pairwise_lt_range.imp_of_mem fun {g g'} hg hg' hlt x hx y hy => ?_
    have hg := List.mem_range.1 hg
    have hg' := List.mem_range.1 hg'
    simp only [groupEntries, List.mem_map, List.mem_filter, List.mem_range] at hx hy
    obtain ⟨j, ⟨hj, -⟩, rfl⟩ := hx
    obtain ⟨j', ⟨hj', -⟩, rfl⟩ := hy
    -- a group ends before the next one starts
    have hnext : disk.blksPerGrp * (g + 1) ≤ disk.blksPerGrp * g' := Nat.mul_le_mul_left _ hlt
    rw [Nat.mul_succ] at hnext
    rw [hentry g hg j hj, hentry g' hg' j' hj']
    omega

end

end Artifice
