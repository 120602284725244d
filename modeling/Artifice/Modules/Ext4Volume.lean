import Artifice.Modules.Ext4Scan

/-!
The volume bound of the ext4 module: the groups that are scanned are those of the volume, and no
block behind its end is listed, as far as `new_disk` rounds the number of groups the right way.
-/

namespace Artifice

open Lib

/-- A detection that gets through the scan of the bitmaps. -/
structure Ext4Run (k : Kernel) (data device : Mem) (fs : AfsPassiveFs) where
  before : Bool
  is64bit : Bool
  disk : Ext4Disk
  gdArr : ℕ → Mem
  found : AfsPassiveFs
  groups : List ℕ
  superblock : readSuperblock before data = (0, ext4Superblock data, is64bit)
  summary : newDisk k is64bit (ext4Superblock data) = some (some disk)
  descs : readGroupDescs k disk device = some gdArr
  scan : readBitmaps k is64bit disk gdArr device fs = some (0, found, groups)

/-- The groups of the volume. -/
def volumeGroups (sb : Ext4Superblock) : ℕ :=
  (sb.blocksCountLo + sb.blocksPerGroup - 1) / sb.blocksPerGroup

/-- The bitmap of a partial last group has the bits behind the end of the volume set, as ext4
writes them. -/
def Ext4Run.Padded {k : Kernel} {data device : Mem} {fs : AfsPassiveFs}
    (r : Ext4Run k data device fs) : Prop :=
  let sb := ext4Superblock data
  sb.blocksCountLo % sb.blocksPerGroup ≠ 0 → ∀ j, sb.blocksCountLo % sb.blocksPerGroup ≤ j →
    j < sb.blocksPerGroup →
    bitmapBit (bitmapPage r.is64bit device (r.gdArr (sb.blocksCountLo / sb.blocksPerGroup))) j
      = true

/-- `new_disk` counts the groups of the volume, so that in every run these and no others are
scanned, and no block behind the end of the volume is listed. -/
structure VolumeBound (data : Mem) : Prop where
  groups : numGrpDescs (ext4Superblock data) = volumeGroups (ext4Superblock data)
  scanned : ∀ k device fs, ∀ r : Ext4Run k data device fs,
    r.groups = List.range (volumeGroups (ext4Superblock data))
  bound : ∀ k device fs, ∀ r : Ext4Run k data device fs, r.Padded →
    ∀ b ∈ r.found.freeList, b < (ext4Superblock data).blocksCountLo

section

variable {k : Kernel} {data device : Mem} {fs : AfsPassiveFs}

theorem numGrpDescs_eq_iff {sb : Ext4Superblock} (h : 0 < sb.blocksPerGroup) :
    numGrpDescs sb = volumeGroups sb ↔
      (sb.freeBlocksCountLo % sb.blocksPerGroup = 0 ↔
        sb.blocksCountLo % sb.blocksPerGroup = 0) := by
  rw [volumeGroups, ← div_add_ite_mod _ h, numGrpDescs]
  by_cases h1 : sb.freeBlocksCountLo % sb.blocksPerGroup = 0 <;>
    by_cases h2 : sb.blocksCountLo % sb.blocksPerGroup = 0 <;> simp [h1, h2]

theorem group_start_lt {count g i : ℕ} (h : 0 < g) (hi : i < (count + g - 1) / g) :
    g * i < count := by
  rw [Nat.lt_iff_add_one_le, Nat.le_div_iff_mul_le h, Nat.succ_mul] at hi
  rw [Nat.mul_comm]
  omega

theorem last_group {count g i : ℕ} (h : g * i ≤ count) (h' : count < g * i + g) :
    count / g = i ∧ count % g = count - g * i := by
  have hdiv : count / g = i := by
    rw [Nat.div_eq_iff (by omega), Nat.mul_comm]
    omega
  have := Nat.div_add_mod count g
  rw [hdiv] at this
  exact ⟨hdiv, by omega⟩

theorem readBitmaps_spec {is64bit : Bool} {disk : Ext4Disk} {gdArr : ℕ → Mem} {fs' : AfsPassiveFs}
    {groups : List ℕ} (h : readBitmaps k is64bit disk gdArr device fs = some (0, fs', groups)) :
    groups = List.range disk.numGrpDescs ∧
      ∀ b ∈ fs'.freeList, ∃ i < disk.numGrpDescs, ∃ j < disk.blksPerGrp,
        bitmapBit (bitmapPage is64bit device (gdArr i)) j = false ∧
        b = disk.blksPerGrp * i % 2 ^ 32 + (j + disk.firstDataBlock) % 2 ^ 32 := by
  rcases readBitmaps_cases h with ⟨hret, -⟩ | ⟨hgroups, hlist⟩
  · exact absurd hret (by norm_num)
  · refine ⟨hgroups, fun b hb => ?_⟩
    obtain ⟨i, hi, j, hj, hfree, -, rfl⟩ := mem_scanList.1 (hlist.subset hb)
    refine ⟨i, hi, j, hj, ?_, rfl⟩
    rw [groupFree, Bool.and_eq_true, Bool.not_eq_true'] at hfree
    exact hfree.1

theorem Ext4Run.bound (r : Ext4Run k data device fs)
    (hpos : 0 < (ext4Superblock data).blocksPerGroup)
    (hfirst : (ext4Superblock data).firstDataBlock = 0)
    (hgroups : numGrpDescs (ext4Superblock data) = volumeGroups (ext4Superblock data)) :
    r.groups = List.range (volumeGroups (ext4Superblock data)) ∧
      (r.Padded → ∀ b ∈ r.found.freeList, b < (ext4Superblock data).blocksCountLo) := by
  obtain ⟨hn, hbpg, hfdb⟩ := newDisk_spec r.summary
  obtain ⟨hscan, hlist⟩ := readBitmaps_spec r.scan
  refine ⟨by rw [hscan, hn, hgroups], fun hpad b hb => ?_⟩
  obtain ⟨i, hi, j, hj, hbit, rfl⟩ := hlist b hb
  rw [hn, hgroups, volumeGroups] at hi
  rw [hbpg] at hj ⊢
  rw [hfdb, hfirst, Nat.add_zero]
  have hc : (ext4Superblock data).blocksCountLo < 2 ^ 32 := le_lt data _ 4
  have hj32 : j < 2 ^ 32 := lt_trans hj (le_lt data _ 4)
  have hstart := group_start_lt hpos hi
  rw [Nat.mod_eq_of_lt (lt_trans hstart hc), Nat.mod_eq_of_lt hj32]
  by_contra hge
  -- only the last group reaches past the end, and there the padding bits are set
  obtain ⟨hdiv, hmod⟩ := last_group hstart.le (by omega : _ < _ * i + _)
  have hset := hpad (by omega) j (by omega) hj
  rw [hdiv, hbit] at hset
  simp at hset

/-- **When the volume bound holds**: exactly when the free blocks and the blocks of the volume
both, or neither, fill groups. -/
theorem volumeBound_iff (hpos : 0 < (ext4Superblock data).blocksPerGroup)
    (hfirst : (ext4Superblock data).firstDataBlock = 0) :
    VolumeBound data ↔
      ((ext4Superblock data).freeBlocksCountLo % (ext4Superblock data).blocksPerGroup = 0 ↔
        (ext4Superblock data).blocksCountLo % (ext4Superblock data).blocksPerGroup = 0) := by
  rw [← numGrpDescs_eq_iff hpos]
  constructor
  · intro h
    exact h.groups
  · intro h
    exact ⟨h, fun k device fs r => (r.bound hpos hfirst h).1,
      fun k device fs r => (r.bound hpos hfirst h).2⟩

end

/-- The first page of an ext4 volume of `count` blocks, `free` of them free, in groups of 32768. -/
def ext4Page (count free : ℕ) : Mem :=
  putLe (putLe (putLe (putLe (fun _ => 0) (1024 + 4) 4 count) (1024 + 12) 4 free)
    (1024 + 32) 4 32768) (1024 + 56) 2 0xEF53

/-- Two full groups with a full group of free blocks. -/
theorem volumeBound_two_groups : VolumeBound (ext4Page 65536 32768) :=
  (volumeBound_iff (by decide +kernel) (by decide +kernel)).2 (by decide +kernel)

/-- Two full groups with 1000 free blocks count as three. -/
theorem volumeBound_fails :
    ¬ ∀ data : Mem, (ext4Superblock data).magic = 0xEF53 →
      0 < (ext4Superblock data).blocksPerGroup → (ext4Superblock data).firstDataBlock = 0 →
      VolumeBound data := by
  intro h
  have hbound := h (ext4Page 65536 1000) (by decide +kernel) (by decide +kernel)
    (by decide +kernel)
  exact absurd hbound.groups (by decide +kernel)

end Artifice
