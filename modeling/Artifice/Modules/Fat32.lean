import Artifice.Io
import Artifice.Kernel
import Artifice.Allocation
import Artifice.Lib.Loop

/-!
The FAT32 module (`modules/dm_afs_fat32.c`): it reads the boot sector, loads the pages of the first
FAT and lists the words of them that are zero.

The FAT is loaded from the start of the page it begins in, and the list holds the index of a word
in these pages. The data cluster that an index `e` stands for on the device is cluster `e + 2`.

A call gives `none` when it does not return: it reads or writes outside of the pages of a `vmalloc`
buffer, which is none at all when it could not be allocated.
-/

namespace Artifice

open Lib

/-- `struct fat_volume`, the fields that are used. -/
structure FatVolume where
  bytesSector : ℕ
  sectorOrder : ℕ
  secCluster : ℕ
  reserved : ℕ
  tables : ℕ
  rootEntries : ℕ
  totalSec : ℕ
  secFat : ℕ
  numDataClusters : ℕ

/-- `is_power_of_2`. -/
def isPowerOf2 (n : ℕ) : Bool := n ≠ 0 && n &&& (n - 1) = 0

/-- `fat_read_dos_2_0_bpb`, or `none` when it returns `-1`. `bsr` is `Nat.log2`. -/
def fatReadDos20Bpb (bootSec : Mem) : Option FatVolume :=
  let bytesSector := le bootSec 11 2
  let sectorOrder := Nat.log2 bytesSector
  let secCluster := le bootSec 13 1
  let tables := le bootSec 16 1
  if ¬ (isPowerOf2 bytesSector ∧ 5 ≤ sectorOrder ∧ sectorOrder ≤ 12) then none
  else if ¬ (isPowerOf2 secCluster ∧ Nat.log2 secCluster ≤ 7) then none
  else if ¬ (tables = 1 ∨ tables = 2) then none
  else some
    { bytesSector, sectorOrder, secCluster, tables
      reserved := le bootSec 14 2
      rootEntries := le bootSec 17 2
      totalSec := le bootSec 19 2
      secFat := le bootSec 22 2
      numDataClusters := 0 }

/-- `fat_read_dos_3_31_bpb`. -/
def fatReadDos331Bpb (vol : FatVolume) (bootSec : Mem) : FatVolume :=
  if vol.totalSec = 0 then { vol with totalSec := le bootSec 32 4 } else vol

/-- `fat_read_fat32_ebpb`, or `none` when it returns `-1`. -/
def fatReadFat32Ebpb (vol : FatVolume) (bootSec : Mem) : Option FatVolume :=
  let secFat := le bootSec 36 4
  let fsInfoSec := if le bootSec 48 2 = 0xffff then 0 else le bootSec 48 2
  if secFat ≠ 0 ∧ secFat * 2 ^ vol.sectorOrder % 2 ^ 64 / 2 ^ vol.sectorOrder ≠ secFat then none
  else if le bootSec 42 2 ≠ 0 then none
  else if le bootSec 44 4 = 0 then none
  else if fsInfoSec ≠ 0 ∧ vol.sectorOrder < 9 then none
  else some (if secFat ≠ 0 then { vol with secFat } else vol)

/-- `num_data_sectors` of `read_boot_sector`, an unsigned difference. -/
def numDataSectors (vol : FatVolume) : ℕ :=
  (vol.totalSec + 3 * 2 ^ 32 - vol.reserved - vol.secFat * vol.tables % 2 ^ 32
    - vol.rootEntries * 32 / 2 ^ vol.sectorOrder) % 2 ^ 32

/-- `read_boot_sector`, or `none` when it returns `-1`. -/
def readFatBootSector (data : Mem) : Option FatVolume := do
  let vol ← fatReadDos20Bpb data
  let vol ← fatReadFat32Ebpb (fatReadDos331Bpb vol data) data
  some { vol with numDataClusters := numDataSectors vol / vol.secCluster }

/-! ### The FAT -/

/-- `fat_aligned_offset`. -/
def fatAlignedOffset (vol : FatVolume) : ℕ := vol.reserved * 2 ^ vol.sectorOrder / 4096 * 4096

/-- `fat_size_bytes`. -/
def fatSizeBytes (vol : FatVolume) : ℕ := vol.secFat * vol.bytesSector % 2 ^ 32

/-- `fat_aligned_size_bytes`. -/
def fatAlignedSizeBytes (vol : FatVolume) : ℕ :=
  fatSizeBytes vol + (vol.reserved * 2 ^ vol.sectorOrder - fatAlignedOffset vol)

/-- The loop of `fat_map` that loads the first pages of the FAT into a buffer of `alloc` bytes.
`i * 4096` is an `int`. -/
def loadFat (k : Kernel) (vol : FatVolume) (device : Mem) (alloc : ℕ) : ℕ → Option Mem
  | 0 => some k.uninit
  | i + 1 => do
    let fatData ← loadFat k vol device alloc i
    if 4096 * i + 4096 ≤ alloc ∧ 4096 * i < 2 ^ 31 then
      some (blit fatData (4096 * i)
        (readPage k.uninit 0 device (fatAlignedOffset vol / 4096 + i) 0) 0 4096)
    else none

/-- `fat_data` of `fat_map`, with the bytes that its pages have. -/
def fatData (k : Kernel) (vol : FatVolume) (device : Mem) : Option (Mem × ℕ) :=
  let pageNumber := fatAlignedSizeBytes vol / 4096 + 1
  let alloc := pageNumber * 4096 % 2 ^ 32
  if 4096 < fatAlignedOffset vol + fatAlignedSizeBytes vol then
    if k.kmalloc 4096 ∧ k.vmalloc alloc then
      (loadFat k vol device alloc pageNumber).map fun m => (m, alloc)
    else none
  else some (k.uninit, 0)

/-- The loop of `fat_map` over the words of the FAT, and the list `empty_clusters` so far. -/
def scanFat (fat : Mem × ℕ) (alloc : ℕ) : ℕ → ℕ → List ℕ → Option (Flow (List ℕ)) :=
  forLoop fun i emptyClusters =>
    if 4 * (i + 1) ≤ fat.2 then
      if le fat.1 (4 * i) 4 = 0 then
        if 4 * (emptyClusters.length + 1) ≤ alloc then some (.next (emptyClusters ++ [i]))
        else none
      else some (.next emptyClusters)
    else none

/-- `fat_map`: the list of empty clusters. -/
def fatMap (k : Kernel) (vol : FatVolume) (device : Mem) : Option (List ℕ) := do
  let fat ← fatData k vol device
  let n := fatSizeBytes vol
  if n = 0 ∨ k.vmalloc n then
    match ← scanFat fat (pageRound n) vol.numDataClusters 0 [] with
    | .next l | .brk l | .ret _ l => some l
  else none

/-- `data_start_off`, in sectors. -/
def fatDataStartOff (vol : FatVolume) : ℕ :=
  (vol.tables * vol.secFat + vol.reserved) % 2 ^ 32

/-- `afs_fat32_detect`: whether the device holds FAT32, and the passive file system. Behind the
entries of the list its buffer holds zeros, up to the size of the FAT. -/
def afsFat32Detect (k : Kernel) (data device : Mem) (fs : AfsPassiveFs) :
    Option (Bool × AfsPassiveFs) :=
  if k.kmalloc 512 then
    match readFatBootSector data with
    | none => some (false, fs)
    | some vol => do
      let l ← fatMap k vol device
      let rest := (List.range (pageRound (fatSizeBytes vol) / 4 - l.length)).map fun i =>
        le (fill k.uninit 0 (fatSizeBytes vol) 0) (4 * (l.length + i)) 4
      some (true,
        { fs with
          totalBlocks := vol.numDataClusters
          sectorsPerBlock := vol.secCluster
          blockList := l ++ rest
          listLen := l.length % 2 ^ 32
          dataStartOff := fatDataStartOff vol })
  else none

/-! ### What is listed -/

/-- Word `j` of the device, counted from the page that the first FAT begins in. -/
def fatWord (vol : FatVolume) (device : Mem) (j : ℕ) : ℕ :=
  le device (fatAlignedOffset vol + 4 * j) 4

section

variable {k : Kernel} {vol : FatVolume} {data device m : Mem} {fat : Mem × ℕ}
  {alloc n : ℕ} {l : List ℕ} {fs fs' : AfsPassiveFs}

theorem loadFat_spec (hoff : fatAlignedOffset vol / 4096 < 2 ^ 19)
    (h : loadFat k vol device alloc n = some m) :
    n ≤ 2 ^ 19 ∧ (0 < n → 4096 * n ≤ alloc) ∧
      Agree m 0 device (fatAlignedOffset vol) (4096 * n) := by
  induction n generalizing m with
  | zero => exact ⟨by omega, by omega, fun i hi => absurd hi (Nat.not_lt_zero i)⟩
  | succ n ih =>
    simp only [loadFat, Option.bind_eq_bind, Option.bind_eq_some_iff] at h
    obtain ⟨m₁, h1, h⟩ := h
    split_ifs at h with hfit
    rw [← Option.some.inj h]
    obtain ⟨-, -, hagree⟩ := ih h1
    refine ⟨by omega, by omega, fun i hi => ?_⟩
    have hstart : fatAlignedOffset vol = 4096 * (fatAlignedOffset vol / 4096) := by
      unfold fatAlignedOffset
      omega
    have hsector : pageSector (fatAlignedOffset vol / 4096 + n) 0
        = 8 * (fatAlignedOffset vol / 4096 + n) := by
      rw [(pageSector_eq_iff _ 0).2 ⟨by omega, by omega⟩, Nat.add_zero]
    rw [Nat.zero_add]
    rcases Nat.lt_or_ge i (4096 * n) with hlt | hge
    · rw [blit_out (by omega)]
      have := hagree i hlt
      rwa [Nat.zero_add] at this
    · obtain ⟨j, rfl⟩ : ∃ j, i = 4096 * n + j := ⟨i - 4096 * n, by omega⟩
      rw [blit_in (by omega)]
      have hpage : Agree (readPage k.uninit 0 device (fatAlignedOffset vol / 4096 + n) 0) 0 device
          (512 * pageSector (fatAlignedOffset vol / 4096 + n) 0) 4096 := agree_readPage
      rw [hpage j (by omega), hsector]
      congr 1
      omega

theorem scanFat_spec {f : Flow (List ℕ)} (h : scanFat fat alloc n 0 [] = some f) :
    f = .next ((List.range n).filter fun e => le fat.1 (4 * e) 4 = 0) ∧
      ∀ e < n, 4 * (e + 1) ≤ fat.2 := by
  have hinv := forLoop_inv
    (I := fun i l => l = ((List.range i).filter fun e => le fat.1 (4 * e) 4 = 0) ∧
      ∀ e < i, 4 * (e + 1) ≤ fat.2)
    (B := fun _ => False) (R := fun _ _ => False)
    (fun i l g _ _ hl hg => by
      obtain ⟨hl, hin⟩ := hl
      rw [List.range_succ, List.filter_append]
      split_ifs at hg with hfat hzero hfit
      · rw [← Option.some.inj hg]
        exact ⟨by simp [hzero, hl], fun e he => (Nat.lt_succ_iff_lt_or_eq.1 he).elim (hin e)
          fun h => h ▸ hfat⟩
      · rw [← Option.some.inj hg]
        exact ⟨by simp [hzero, hl], fun e he => (Nat.lt_succ_iff_lt_or_eq.1 he).elim (hin e)
          fun h => h ▸ hfat⟩)
    ⟨rfl, fun e he => absurd he (Nat.not_lt_zero e)⟩ h
  cases f with
  | next l =>
    obtain ⟨hl, hin⟩ := hinv.resolve_right id
    rw [Nat.zero_add] at hl hin
    exact ⟨by rw [hl], hin⟩
  | brk l => exact hinv.elim
  | ret c l => exact hinv.elim

theorem fatMap_list (h : fatMap k vol device = some l) :
    ∃ fat, fatData k vol device = some fat ∧
      l = ((List.range vol.numDataClusters).filter fun e => le fat.1 (4 * e) 4 = 0) ∧
      ∀ e < vol.numDataClusters, 4 * (e + 1) ≤ fat.2 := by
  simp only [fatMap, Option.bind_eq_bind, Option.bind_eq_some_iff] at h
  obtain ⟨fat, hfat, h⟩ := h
  split_ifs at h
  simp only [Option.bind_eq_some_iff] at h
  obtain ⟨f, hf, h⟩ := h
  obtain ⟨rfl, hin⟩ := scanFat_spec hf
  simp only [Option.some.injEq] at h
  exact ⟨fat, hfat, h.symm, hin⟩

theorem fatMap_spec (hoff : fatAlignedOffset vol / 4096 < 2 ^ 19)
    (h : fatMap k vol device = some l) :
    l = (List.range vol.numDataClusters).filter fun e => fatWord vol device e = 0 := by
  obtain ⟨fat, hfat, rfl, hin⟩ := fatMap_list h
  refine List.filter_congr fun e he => ?_
  have hlt := hin e (List.mem_range.1 he)
  -- a word was scanned, so the pages were loaded
  unfold fatData at hfat
  simp only at hfat
  split_ifs at hfat with hread hmem
  · obtain ⟨m, hm, rfl⟩ := Option.map_eq_some_iff.1 hfat
    obtain ⟨-, -, hagree⟩ := loadFat_spec hoff hm
    have hword := hagree.sub (j := 4 * e) (k := 4) (by simp only at hlt; omega)
    rw [Nat.zero_add] at hword
    rw [le_congr hword, fatWord]
  · rw [← Option.some.inj hfat] at hlt
    simp only at hlt
    omega

/-- The range of the fields of a boot sector, and how its order follows from its sector size. -/
structure FatVolume.Parsed (vol : FatVolume) : Prop where
  sector : vol.sectorOrder = Nat.log2 vol.bytesSector
  reserved : vol.reserved < 2 ^ 16
  total : vol.totalSec < 2 ^ 32

theorem parsed_fatReadDos20Bpb (h : fatReadDos20Bpb data = some vol) : vol.Parsed := by
  unfold fatReadDos20Bpb at h
  simp only at h
  split_ifs at h
  rw [← Option.some.inj h]
  exact ⟨rfl, le_lt data 14 2, lt_of_lt_of_le (le_lt data 19 2) (by norm_num)⟩

theorem FatVolume.Parsed.dos331 (h : vol.Parsed) : (fatReadDos331Bpb vol data).Parsed := by
  unfold fatReadDos331Bpb
  split_ifs
  · exact ⟨h.sector, h.reserved, le_lt data 32 4⟩
  · exact h

theorem FatVolume.Parsed.fat32 {vol' : FatVolume} (h : vol.Parsed)
    (hread : fatReadFat32Ebpb vol data = some vol') : vol'.Parsed := by
  obtain ⟨n, rfl⟩ : ∃ n, vol' = { vol with secFat := n } := by
    unfold fatReadFat32Ebpb at hread
    simp only at hread
    split_ifs at hread <;> exact ⟨_, (Option.some.inj hread).symm⟩
  exact ⟨h.sector, h.reserved, h.total⟩

theorem readFatBootSector_spec (h : readFatBootSector data = some vol) :
    vol.Parsed ∧ vol.numDataClusters = numDataSectors vol / vol.secCluster := by
  simp only [readFatBootSector, Option.bind_eq_bind, Option.bind_eq_some_iff] at h
  obtain ⟨v₁, h1, v₂, h2, h⟩ := h
  have hp := (parsed_fatReadDos20Bpb h1).dos331.fat32 h2
  rw [← Option.some.inj h]
  exact ⟨⟨hp.sector, hp.reserved, hp.total⟩, rfl⟩

theorem afsFat32Detect_list (h : afsFat32Detect k data device fs = some (true, fs')) :
    ∃ vol l, readFatBootSector data = some vol ∧ fatMap k vol device = some l ∧
      fs'.dataStartOff = fatDataStartOff vol ∧ fs'.freeList = l.take (l.length % 2 ^ 32) := by
  unfold afsFat32Detect at h
  split_ifs at h
  cases hboot : readFatBootSector data with
  | none =>
    rw [hboot] at h
    simp at h
  | some vol =>
    rw [hboot] at h
    simp only [Option.bind_eq_bind, Option.bind_eq_some_iff, Option.some.injEq, Prod.mk.injEq,
      true_and] at h
    obtain ⟨l, hl, rfl⟩ := h
    exact ⟨vol, l, rfl, hl, rfl, List.take_append_of_le_length (Nat.mod_le _ _)⟩

/-- **What `afs_fat32_detect` lists**: the indices of the words that are zero. -/
theorem afsFat32Detect_spec (hboot : readFatBootSector data = some vol)
    (hoff : fatAlignedOffset vol / 4096 < 2 ^ 19)
    (h : afsFat32Detect k data device fs = some (true, fs')) :
    fs'.dataStartOff = fatDataStartOff vol ∧
      fs'.freeList = (List.range vol.numDataClusters).filter fun e => fatWord vol device e = 0 := by
  obtain ⟨vol', l, hboot', hl, hstart, hlist⟩ := afsFat32Detect_list h
  obtain rfl : vol' = vol := Option.some.inj (hboot'.symm.trans hboot)
  have hl' := fatMap_spec hoff hl
  refine ⟨hstart, ?_⟩
  have hlen : l.length < 2 ^ 32 := by
    have h1 : l.length ≤ vol'.numDataClusters := by
      rw [hl']
      exact (List.length_filter_le _ _).trans (by rw [List.length_range])
    have h2 := (readFatBootSector_spec hboot).2
    have h3 : numDataSectors vol' < 2 ^ 32 := Nat.mod_lt _ (by norm_num)
    have h4 := Nat.div_le_self (numDataSectors vol') vol'.secCluster
    omega
  rw [hlist, Nat.mod_eq_of_lt hlen, List.take_length, hl']

/-! ### What the entries of the list stand for -/

/-- The first data sector of the volume: the reserved sectors, the tables and the root directory
come before it. -/
def fatDataStart (vol : FatVolume) : ℕ :=
  vol.reserved + vol.tables * vol.secFat + (vol.rootEntries * 32 + 511) / 512

/-- The entry of cluster `n` in the first FAT; the upper four bits are not part of it. -/
def fatEntry (vol : FatVolume) (device : Mem) (n : ℕ) : ℕ :=
  le device (512 * vol.reserved + 4 * n) 4 % 2 ^ 28

/-- The sectors that `fs` and `write_pages` have for the listed block `e` are those of cluster
`e + 2`, a cluster of the volume with an entry in the FAT, and the entry marks it as free. -/
structure FreeCluster (vol : FatVolume) (device : Mem) (fs : AfsPassiveFs) (e : ℕ) : Prop where
  start : fs.dataStartOff = fatDataStart vol
  sector : carrierSector e fs.dataStartOff = fatDataStart vol + 8 * e
  inside : fatDataStart vol + 8 * (e + 1) ≤ vol.totalSec
  inTable : 4 * (e + 2) + 4 ≤ 512 * vol.secFat
  free : fatEntry vol device (e + 2) = 0

/-- The words of the FAT that are scanned are 2 entries, and the start of the FAT in its page, away
from those that count. -/
theorem fatEntry_eq (horder : vol.sectorOrder = 9) (device : Mem) (e : ℕ) :
    fatEntry vol device (e + 2)
      = fatWord vol device (e + 2 + 128 * (vol.reserved % 8)) % 2 ^ 28 := by
  rw [fatEntry, fatWord, fatAlignedOffset, horder]
  congr 2
  omega

theorem freeCluster_iff {e : ℕ} (horder : vol.sectorOrder = 9) (htotal : vol.totalSec < 2 ^ 32)
    (hstart : fs.dataStartOff = fatDataStartOff vol) :
    FreeCluster vol device fs e ↔ vol.rootEntries = 0 ∧
      vol.reserved + vol.tables * vol.secFat + 8 * (e + 1) ≤ vol.totalSec ∧
      4 * (e + 3) ≤ 512 * vol.secFat ∧
      fatWord vol device (e + 2 + 128 * (vol.reserved % 8)) % 2 ^ 28 = 0 := by
  rw [← fatEntry_eq horder]
  constructor
  · rintro ⟨h1, -, h2, h3, h4⟩
    rw [hstart] at h1
    unfold fatDataStartOff at h1
    unfold fatDataStart at h1 h2
    generalize vol.tables * vol.secFat = t at *
    exact ⟨by omega, by omega, by omega, h4⟩
  · rintro ⟨h1, h2, h3, h4⟩
    have hoff : fs.dataStartOff = fatDataStart vol := by
      rw [hstart, fatDataStartOff, fatDataStart, h1, Nat.mod_eq_of_lt (by omega)]
      omega
    have hin : fatDataStart vol + 8 * (e + 1) ≤ vol.totalSec := by
      rw [fatDataStart, h1]
      omega
    refine ⟨hoff, ?_, hin, by omega, h4⟩
    rw [hoff, (carrierSector_eq_iff _ _).2 (by omega), Nat.add_comm]

/-- **When the list of a FAT32 volume is sound**: exactly when every zero word `e` that is scanned
has a zero entry in word `e + 2 + 128 (reserved % 8)`, and the cluster `e + 2` it stands for exists
on a volume without a root directory of its own. -/
theorem fat32_sound_iff (hboot : readFatBootSector data = some vol)
    (h512 : vol.bytesSector = 512) (h8 : vol.secCluster = 8)
    (hrun : afsFat32Detect k data device fs = some (true, fs')) :
    (∀ e ∈ fs'.freeList, FreeCluster vol device fs' e) ↔
      ∀ e < (numDataSectors vol) / 8, fatWord vol device e = 0 → vol.rootEntries = 0 ∧
        vol.reserved + vol.tables * vol.secFat + 8 * (e + 1) ≤ vol.totalSec ∧
        4 * (e + 3) ≤ 512 * vol.secFat ∧
        fatWord vol device (e + 2 + 128 * (vol.reserved % 8)) % 2 ^ 28 = 0 := by
  obtain ⟨⟨horder, hres, htotal⟩, hclusters⟩ := readFatBootSector_spec hboot
  have h9 : vol.sectorOrder = 9 := by
    rw [horder, h512]
    rfl
  have hoff : fatAlignedOffset vol / 4096 < 2 ^ 19 := by
    rw [fatAlignedOffset, h9]
    omega
  obtain ⟨hstart, hlist⟩ := afsFat32Detect_spec hboot hoff hrun
  rw [hlist, hclusters, h8]
  constructor
  · intro h e he hw
    exact (freeCluster_iff h9 htotal hstart).1 (h e (by simp [he, hw]))
  · intro h e he
    rw [List.mem_filter, List.mem_range, decide_eq_true_eq] at he
    exact (freeCluster_iff h9 htotal hstart).2 (h e he.1 he.2)

end

/-- The first FAT of a small volume: the entries of the clusters from 0 on. -/
def putWords (m : Mem) (o : ℕ) : List ℕ → Mem
  | [] => m
  | w :: words => putWords (putLe m o 4 w) (o + 4) words

/-- A volume of 16 clusters of 8 sectors, with 8 reserved sectors and one FAT of 8. -/
def fatDevice (words : List ℕ) : Mem :=
  let boot := putLe (putLe (putLe (putLe (fun _ => 0) 11 2 512) 13 1 8) 14 2 8) 16 1 1
  putWords (putLe (putLe (putLe boot 32 4 144) 36 4 8) 44 4 2) 4096 words

/-- Only cluster 2, the root directory, is in use. -/
def fatEmpty : Mem := fatDevice [0x0FFFFFF8, 0x0FFFFFFF, 0x0FFFFFFF]

/-- Cluster 5 is in use too. -/
def fatFile : Mem := fatDevice [0x0FFFFFF8, 0x0FFFFFFF, 0x0FFFFFFF, 0, 0, 0x0FFFFFFF]

/-- On the volume with nothing but its root directory, every entry of the list stands for a free
cluster. -/
theorem fat32_sound_empty :
    ∃ vol fs', readFatBootSector fatEmpty = some vol ∧
      afsFat32Detect (constKernel 0) fatEmpty fatEmpty ⟨[], 0, 0, 0, 0, 0⟩ = some (true, fs') ∧
      ∀ e ∈ fs'.freeList, FreeCluster vol fatEmpty fs' e := by
  have hrun : ((readFatBootSector fatEmpty).bind fun vol =>
      (afsFat32Detect (constKernel 0) fatEmpty fatEmpty ⟨[], 0, 0, 0, 0, 0⟩).map fun r =>
        (r.1, vol.bytesSector, vol.secCluster, decide (∀ e < numDataSectors vol / 8,
          fatWord vol fatEmpty e = 0 → vol.rootEntries = 0 ∧
          vol.reserved + vol.tables * vol.secFat + 8 * (e + 1) ≤ vol.totalSec ∧
          4 * (e + 3) ≤ 512 * vol.secFat ∧
          fatWord vol fatEmpty (e + 2 + 128 * (vol.reserved % 8)) % 2 ^ 28 = 0)))
      = some (true, 512, 8, true) := by
    decide +kernel
  obtain ⟨vol, hboot, hrun⟩ := Option.bind_eq_some_iff.1 hrun
  obtain ⟨⟨found, fs'⟩, hdetect, heq⟩ := Option.map_eq_some_iff.1 hrun
  simp only [Prod.mk.injEq] at heq
  obtain ⟨rfl, h512, h8, hcond⟩ := heq
  exact ⟨vol, fs', hboot, hdetect,
    (fat32_sound_iff hboot h512 h8 hdetect).2 (of_decide_eq_true hcond)⟩

/-- Word 3 is zero, so 3 is listed, and its sectors are those of cluster 5. -/
theorem fat32_unsound :
    ¬ ∀ (k : Kernel) (data device : Mem) (fs fs' : AfsPassiveFs) (vol : FatVolume),
      readFatBootSector data = some vol → vol.bytesSector = 512 → vol.secCluster = 8 →
      afsFat32Detect k data device fs = some (true, fs') →
      ∀ e ∈ fs'.freeList, FreeCluster vol device fs' e := by
  intro h
  have hrun : ((readFatBootSector fatFile).bind fun vol =>
      (afsFat32Detect (constKernel 0) fatFile fatFile ⟨[], 0, 0, 0, 0, 0⟩).map fun r =>
        (r.1, vol.bytesSector, vol.secCluster, decide (3 ∈ r.2.freeList),
          decide (fatEntry vol fatFile 5 = 0))) = some (true, 512, 8, true, false) := by
    decide +kernel
  obtain ⟨vol, hboot, hrun⟩ := Option.bind_eq_some_iff.1 hrun
  obtain ⟨⟨found, fs'⟩, hdetect, heq⟩ := Option.map_eq_some_iff.1 hrun
  simp only [Prod.mk.injEq] at heq
  obtain ⟨rfl, h512, h8, hlisted, hused⟩ := heq
  have hfree := h (constKernel 0) fatFile fatFile _ fs' vol hboot h512 h8 hdetect 3
    (of_decide_eq_true hlisted)
  exact absurd hfree.free (of_decide_eq_false hused)

end Artifice
