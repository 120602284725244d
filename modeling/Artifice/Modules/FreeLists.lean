import Artifice.Modules.Ext4Scan
import Artifice.Modules.Ext4Memory
import Artifice.Modules.Fat32
import Artifice.Modules.Ntfs

/-!
The free lists of the three modules are strictly increasing.

The search for the super block compares with the middle of the list, and two positions of the list
are two blocks. Each scanner goes through its bits in order, and gives each bit the numbers behind
those of the bit before.
-/

namespace Artifice

open Lib

section

variable {k : Kernel} {is64bit : Bool} {sb : Ext4Superblock} {disk : Ext4Disk} {gdArr : ℕ → Mem}
  {data device : Mem} {fs fs' : AfsPassiveFs} {vol : NtfsVolume} {fuel alloc n : ℕ}
  {l : List ℕ}

/-! ### FAT32 -/

theorem afsFat32Detect_sorted (h : afsFat32Detect k data device fs = some (true, fs')) :
    fs'.freeList.Pairwise (· < ·) := by
  obtain ⟨vol, l, -, hl, -, hlist⟩ := afsFat32Detect_list h
  obtain ⟨fat, -, rfl, -⟩ := fatMap_list hl
  rw [hlist]
  exact (List.pairwise_lt_range.filter _).sublist (List.take_sublist _ _)

/-! ### ext4 -/

/-- The super blocks in question. -/
structure Ext4Groups (sb : Ext4Superblock) : Prop where
  group : 1 ≤ sb.blocksPerGroup ∧ sb.blocksPerGroup ≤ 32768
  first : sb.firstDataBlock ≤ 1

/-- The entries that `read_bitmaps` appends, into a buffer of `alloc` bytes. -/
def appendedEntries (k : Kernel) (is64bit : Bool) (disk : Ext4Disk) (gdArr : ℕ → Mem) (device : Mem)
    (alloc : ℕ) : Option (List ℕ) :=
  (scanGroups k is64bit disk gdArr device alloc disk.numGrpDescs 0
    ⟨⟨fun _ => false, disk.blksPerGrp⟩, [], []⟩).map fun f => f.state.blockList

theorem start_lt_of_numGrpDescs {g : ℕ} (hg : g < numGrpDescs sb)
    (hcount : sb.blocksCountLo < 2 ^ 32) : sb.blocksPerGroup * g < 2 ^ 32 := by
  have hle : g ≤ sb.blocksCountLo / sb.blocksPerGroup := by
    unfold numGrpDescs at hg
    split_ifs at hg <;> omega
  have hmul := Nat.mul_le_mul_left sb.blocksPerGroup hle
  have hdiv := Nat.mul_div_le sb.blocksCountLo sb.blocksPerGroup
  omega

theorem newDisk_sorted (hsb : Ext4Groups sb) (hcount : sb.blocksCountLo < 2 ^ 32)
    (h : newDisk k is64bit sb = some (some disk)) :
    disk.blksPerGrp ≤ 32768 ∧ (scanList is64bit disk gdArr device).Pairwise (· < ·) := by
  obtain ⟨hnum, hbpg, hfirst⟩ := newDisk_spec h
  have hle : disk.blksPerGrp ≤ 32768 := hbpg ▸ hsb.group.2
  refine ⟨hle, scanList_sorted hle (hfirst ▸ hsb.first) fun g hg => ?_⟩
  rw [hbpg]
  exact start_lt_of_numGrpDescs (hnum ▸ hg) hcount

theorem appendedEntries_eq (hpage : 0 < disk.numGrpDescs → BitmapPage k disk) :
    appendedEntries k is64bit disk gdArr device alloc =
      if 4 * (scanList is64bit disk gdArr device).length ≤ alloc
      then some (scanList is64bit disk gdArr device) else none := by
  obtain ⟨bvec', -, heq⟩ : ∃ bvec', ClearVector disk bvec' ∧
      scanGroups k is64bit disk gdArr device alloc disk.numGrpDescs 0
        ⟨⟨fun _ => false, disk.blksPerGrp⟩, [], []⟩ = _ :=
    scanGroups_eq hpage ⟨rfl, fun _ _ => rfl⟩ (Nat.zero_le _)
  dsimp only at heq
  rw [List.nil_append, List.nil_append, List.length_nil, Nat.zero_add, ← List.range_eq_range',
    ← scanList] at heq
  rw [appendedEntries, heq]
  split_ifs <;> rfl

theorem appendedEntries_some (h : appendedEntries k is64bit disk gdArr device alloc = some l) :
    l = scanList is64bit disk gdArr device := by
  have hpage : 0 < disk.numGrpDescs → BitmapPage k disk := fun hn => by
    obtain ⟨f, hscan, -⟩ := Option.map_eq_some_iff.1 h
    exact scanGroups_page hscan hn
  rw [appendedEntries_eq hpage] at h
  split_ifs at h
  exact (Option.some.inj h).symm

theorem afsExt4Detect_sorted {r : Bool × AfsPassiveFs × Bool}
    (hsb : Ext4Groups (ext4Superblock data))
    (h : afsExt4Detect k is64bit data device fs = some r) :
    r.2.1 = fs ∨ r.2.1.freeList.Pairwise (· < ·) := by
  unfold afsExt4Detect at h
  split_ifs at h with hk
  · rw [← Option.some.inj h]
    exact .inl rfl
  · have hcount : (ext4Superblock data).blocksCountLo < 2 ^ 32 := le_lt data _ 4
    have hread : (readSuperblock is64bit data).2.1 = ext4Superblock data := by
      rw [readSuperblock]
      split_ifs <;> rfl
    dsimp only at h
    rw [hread] at h
    split_ifs at h with hstatus
    · rw [← Option.some.inj h]
      exact .inl rfl
    · simp only [Option.bind_eq_bind, Option.bind_eq_some_iff] at h
      obtain ⟨disk, hdisk, h⟩ := h
      cases disk with
      | none =>
        rw [← Option.some.inj h]
        exact .inl rfl
      | some disk =>
        simp only [Option.bind_eq_some_iff] at h
        obtain ⟨gdArr, hdescs, ⟨ret, fs', groups⟩, hbitmaps, h⟩ := h
        rw [← Option.some.inj h]
        rcases readBitmaps_cases hbitmaps with ⟨-, hsame⟩ | ⟨-, hlist⟩
        · exact .inl hsame
        · exact .inr ((newDisk_sorted hsb hcount hdisk).2.sublist hlist)

/-! ### NTFS -/

theorem flatMap_clusterBlocks_sorted (h : l.Pairwise (· < ·))
    (hfit : ∀ c ∈ l, (c + 1) * vol.afsBlocksPerCluster ≤ 2 ^ 32) :
    (l.flatMap (clusterBlocks vol)).Pairwise (· < ·) := by
  have hblock : ∀ c ∈ l, ∀ b < vol.afsBlocksPerCluster,
      (c * vol.afsBlocksPerCluster + b) % 2 ^ 32 = c * vol.afsBlocksPerCluster + b := by
    intro c hc b hb
    have hend := hfit c hc
    rw [Nat.succ_mul] at hend
    exact Nat.mod_eq_of_lt (by omega)
  rw [List.pairwise_flatMap]
  constructor
  · intro c hc
    rw [clusterBlocks, List.pairwise_map]
    refine List.pairwise_lt_range.imp_of_mem fun {b b'} hb hb' hlt => ?_
    rw [hblock c hc b (List.mem_range.1 hb), hblock c hc b' (List.mem_range.1 hb')]
    omega
  · refine h.imp_of_mem fun {c c'} hc hc' hlt x hx y hy => ?_
    simp only [clusterBlocks, List.mem_map, List.mem_range] at hx hy
    obtain ⟨b, hb, rfl⟩ := hx
    obtain ⟨b', hb', rfl⟩ := hy
    rw [hblock c hc b hb, hblock c' hc' b' hb']
    -- a cluster ends before the next one starts
    have hnext : (c + 1) * vol.afsBlocksPerCluster ≤ c' * vol.afsBlocksPerCluster :=
      Nat.mul_le_mul_right _ hlt
    rw [Nat.succ_mul] at hnext
    omega

/-- The block numbers of the clusters whose bit is clear in what has been read of `$Bitmap` have
32 bits. -/
def NtfsBlocksFit (fuel : ℕ) (k : Kernel) (data device : Mem) : Prop :=
  ∀ vol records file, readNtfsBootSector data = some (some vol) →
    ntfsRecords k vol device = some records → bitmapFile fuel k vol device records = some file →
    ∀ c ∈ clearClusters file.buffer (file.bufferOffset * 8),
      (c + 1) * vol.afsBlocksPerCluster ≤ 2 ^ 32

theorem afsNtfsDetect_sorted (hfit : NtfsBlocksFit fuel k data device)
    (h : afsNtfsDetect fuel k data device fs = some (true, fs')) :
    fs'.freeList.Pairwise (· < ·) := by
  obtain ⟨vol, records, file, hboot, hrecords, hfile, -, -, hlist⟩ := afsNtfsDetect_spec h
  rw [hlist]
  refine (flatMap_clusterBlocks_sorted ?_ (hfit vol records file hboot hrecords hfile)).sublist
    (List.take_sublist _ _)
  exact List.pairwise_lt_range.filter _

/-- **The free lists of the three modules are strictly increasing**. For ext4 this holds of the
entries that are appended, into a buffer of any size, and a buffer of some size has room for them. -/
theorem freeLists_sorted :
    (∀ k data device fs fs' vol, readFatBootSector data = some vol →
      vol.numDataClusters < 2 ^ 31 → afsFat32Detect k data device fs = some (true, fs') →
      fs'.freeList.Pairwise (· < ·)) ∧
    (∀ k is64bit data device fs r, Ext4Groups (ext4Superblock data) →
      afsExt4Detect k is64bit data device fs = some r →
      r.2.1 = fs ∨ r.2.1.freeList.Pairwise (· < ·)) ∧
    (∀ k is64bit data disk, Ext4Groups (ext4Superblock data) →
      newDisk k is64bit (ext4Superblock data) = some (some disk) → ∀ gdArr device,
      (∀ alloc l, appendedEntries k is64bit disk gdArr device alloc = some l →
        l.Pairwise (· < ·)) ∧
      (k.vmalloc 4096 = true → ∃ size, ∀ alloc, size ≤ alloc →
        ∃ l, appendedEntries k is64bit disk gdArr device alloc = some l)) ∧
    ∀ fuel k data device fs fs', NtfsBlocksFit fuel k data device →
      afsNtfsDetect fuel k data device fs = some (true, fs') → fs'.freeList.Pairwise (· < ·) := by
  refine ⟨fun k data device fs fs' vol _ _ h => afsFat32Detect_sorted h,
    fun k is64bit data device fs r hsb h => afsExt4Detect_sorted hsb h, ?_,
    fun fuel k data device fs fs' hfit h => afsNtfsDetect_sorted hfit h⟩
  intro k is64bit data disk hsb hdisk gdArr device
  obtain ⟨hbpg, hsorted⟩ : disk.blksPerGrp ≤ 32768 ∧
      (scanList is64bit disk gdArr device).Pairwise (· < ·) :=
    newDisk_sorted hsb (le_lt data _ 4) hdisk
  constructor
  · intro alloc l h
    rw [appendedEntries_some h]
    exact hsorted
  · intro hv
    refine ⟨4 * (scanList is64bit disk gdArr device).length, fun alloc halloc => ?_⟩
    exact ⟨_, (appendedEntries_eq fun _ => ⟨hv, hbpg⟩).trans (if_pos halloc)⟩

end

/-- An NTFS volume of 64 clusters of 4096 bytes, with the records in the clusters from 2 on and the
bitmap inside of its record. -/
def ntfsImage (bitmap : List UInt8) : Mem :=
  let boot := putLe (putLe (putLe (putLe (putLe (putLe (fun _ => 0) 3 8 0x202020205346544E) 11 2 512)
    13 1 8) 40 8 512) 48 8 2) 64 1 1
  let records := putLe (putLe (putLe (putLe (putLe boot (2 * 4096 + 28) 4 4096) (8 * 4096 + 20) 2 56)
    (8 * 4096 + 56) 4 0x80) (8 * 4096 + 60) 4 24) (8 * 4096 + 80) 4 0xFFFFFFFF
  fun i => if 8 * 4096 + 70 ≤ i ∧ i < 8 * 4096 + 70 + bitmap.length then
    bitmap.getD (i - (8 * 4096 + 70)) 0 else records i

/-- The bitmap with clusters 10 and 39 free. -/
def ntfsFree : Mem := ntfsImage [0xFF, 0xFB, 0xFF, 0xFF, 0x7F, 0xFF, 0xFF, 0xFF]

example : ((afsNtfsDetect 4 (constKernel 0) ntfsFree ntfsFree emptyFs).map fun r =>
    (r.1, r.2.freeList)) = some (true, [10, 39]) := by decide +kernel

theorem ntfsFree_fit : NtfsBlocksFit 4 (constKernel 0) ntfsFree ntfsFree := by
  have hrun : ((readNtfsBootSector ntfsFree).bind fun vol => vol.bind fun vol =>
      (ntfsRecords (constKernel 0) vol ntfsFree).bind fun records =>
        (bitmapFile 4 (constKernel 0) vol ntfsFree records).map fun file =>
          decide (∀ c ∈ clearClusters file.buffer (file.bufferOffset * 8),
            (c + 1) * vol.afsBlocksPerCluster ≤ 2 ^ 32)) = some true := by
    decide +kernel
  intro vol records file hboot hrecords hfile
  rw [hboot] at hrun
  simp only [Option.bind_some, hrecords, hfile, Option.map_some] at hrun
  exact of_decide_eq_true (Option.some.inj hrun)

/-- A volume of each kind. -/
theorem freeLists_sorted_small :
    (∃ fs', afsFat32Detect (constKernel 0) fatEmpty fatEmpty emptyFs = some (true, fs') ∧
      fs'.freeList.Pairwise (· < ·)) ∧
    (∃ r, afsExt4Detect (constKernel 0) false (oneGroupImage 0 0) (oneGroupImage 0 0) emptyFs =
      some r ∧ r.2.1.freeList.Pairwise (· < ·)) ∧
    ∃ fs', afsNtfsDetect 4 (constKernel 0) ntfsFree ntfsFree emptyFs = some (true, fs') ∧
      fs'.freeList.Pairwise (· < ·) := by
  obtain ⟨hfat, hext4, -, hntfs⟩ := freeLists_sorted
  refine ⟨?_, ?_, ?_⟩
  · have hrun : ((readFatBootSector fatEmpty).bind fun vol =>
        (afsFat32Detect (constKernel 0) fatEmpty fatEmpty emptyFs).map fun r =>
          (r.1, decide (vol.numDataClusters < 2 ^ 31))) = some (true, true) := by
      decide +kernel
    obtain ⟨vol, hboot, hrun⟩ := Option.bind_eq_some_iff.1 hrun
    obtain ⟨⟨found, fs'⟩, hdetect, heq⟩ := Option.map_eq_some_iff.1 hrun
    obtain ⟨rfl, hclusters⟩ := Prod.mk.inj heq
    exact ⟨fs', hdetect, hfat _ _ _ _ fs' vol hboot (of_decide_eq_true hclusters) hdetect⟩
  · have hrun : ((afsExt4Detect (constKernel 0) false (oneGroupImage 0 0) (oneGroupImage 0 0)
        emptyFs).map fun r => r.2.1.listLen) = some 8 := by
      decide +kernel
    obtain ⟨r, hdetect, hlen⟩ := Option.map_eq_some_iff.1 hrun
    have hsb : Ext4Groups (ext4Superblock (oneGroupImage 0 0)) :=
      ⟨by decide +kernel, by decide +kernel⟩
    refine ⟨r, hdetect, (hext4 _ _ _ _ _ r hsb hdetect).resolve_left fun hsame => ?_⟩
    rw [hsame] at hlen
    exact absurd hlen (by decide)
  · have hrun : ((afsNtfsDetect 4 (constKernel 0) ntfsFree ntfsFree emptyFs).map fun r => r.1) =
        some true := by
      decide +kernel
    obtain ⟨⟨found, fs'⟩, hdetect, rfl⟩ := Option.map_eq_some_iff.1 hrun
    exact ⟨fs', hdetect, hntfs _ _ _ _ _ fs' ntfsFree_fit hdetect⟩

end Artifice
