import Artifice.Modules.Ext4Scan
import Artifice.Modules.Ext4Memory
import Artifice.Lib.Sorted

/-!
The ext4 free list against the volume on the device.

The group descriptors are read page by page, the first page at sector 8; the sector is counted in
an `int` that `read_page` takes as a `uint32_t`. As far as the table ends below sector `2 ^ 32`, the
free list is exactly that of the clear bits, less the backups.
-/

namespace Artifice

open Lib

/-! ### The volume -/

/-- Descriptor `g` of the table, which starts in block 1. -/
def groupDesc (disk : Ext4Disk) (device : Mem) (g : ℕ) : Mem := fun i =>
  device (4096 + g * disk.grpDescSz + i)

/-- The block of the bitmap that descriptor `g` names. -/
def bitmapBlock (is64bit : Bool) (disk : Ext4Disk) (device : Mem) (g : ℕ) : ℕ :=
  blockBmap is64bit (groupDesc disk device g)

/-- The blocks that the descriptor table takes. -/
def tableBlocks (disk : Ext4Disk) : ℕ := (disk.numGrpDescs * disk.grpDescSz + 4095) / 4096

/-- Block `j` of group `g` is in the backup of the super block, of the descriptor table, or in the
blocks reserved for the table. -/
structure InBackup (disk : Ext4Disk) (g j : ℕ) : Prop where
  sparse : disk.isSparseSuper = true
  group : g = 0 ∨ ∃ e, g = 3 ^ e ∨ g = 5 ^ e ∨ g = 7 ^ e
  block : j < 1 + tableBlocks disk + disk.reservedGdtBlocks

/-- The free blocks of the volume: those whose bit is clear, less the backups. -/
def freeBlocks (is64bit : Bool) (disk : Ext4Disk) (device : Mem) : Set ℕ :=
  {b | ∃ g < disk.numGrpDescs, ∃ j < disk.blksPerGrp, b = g * disk.blksPerGrp + j ∧
    (device (4096 * bitmapBlock is64bit disk device g + j / 8)).toNat.testBit (j % 8) = false ∧
    ¬InBackup disk g j}

/-- The volumes in question: blocks of 4096 bytes, groups of at most 32768 of them from block 0 on,
descriptors of 32 bytes, or of at least 64 on a 64-bit volume, and at most `2 ^ 32` blocks. -/
structure Ext4Geometry (is64bit : Bool) (disk : Ext4Disk) : Prop where
  blkSz : disk.blkSz = 4096
  first : disk.firstDataBlock = 0
  group : 1 ≤ disk.blksPerGrp ∧ disk.blksPerGrp ≤ 32768
  desc : (is64bit = false ∧ disk.grpDescSz = 32) ∨
    (is64bit = true ∧ 64 ≤ disk.grpDescSz ∧ disk.grpDescSz ∣ 4096)
  volume : disk.numGrpDescs * disk.blksPerGrp ≤ 2 ^ 32
  count : 0 < disk.freeBlockCount ∧ disk.freeBlockCount < 2 ^ 32

/-- The allocations of the two functions succeed. -/
structure Ext4Memory (k : Kernel) (disk : Ext4Disk) : Prop where
  page : k.vmalloc 4096 = true
  desc : k.kmalloc disk.grpDescSz = true
  vector : k.vmalloc (disk.blksPerGrp / 8 + 1) = true
  list : ∀ n, 0 < n → n ≤ disk.freeBlockCount → k.vmalloc (n * 4) = true

/-- `read_group_descs` and `read_bitmaps` give the free blocks of the volume in ascending order. -/
def ReadsFreeBlocks (k : Kernel) (is64bit : Bool) (disk : Ext4Disk) (device : Mem)
    (fs : AfsPassiveFs) : Prop :=
  ∃ gdArr ret fs' groups, readGroupDescs k disk device = some gdArr ∧
    readBitmaps k is64bit disk gdArr device fs = some (ret, fs', groups) ∧
    fs'.freeList.Pairwise (· < ·) ∧
    ∀ b, b ∈ fs'.freeList ↔ b ∈ freeBlocks is64bit disk device

/-- The free list is right for every image with this geometry whose bitmaps are at blocks below
`2 ^ 29`, as far as the buffer holds it. -/
def ReadsEveryImage (is64bit : Bool) (disk : Ext4Disk) : Prop :=
  ∀ k device fs, Ext4Memory k disk →
    (∀ g < disk.numGrpDescs, bitmapBlock is64bit disk device g < 2 ^ 29) →
    (freeBlocks is64bit disk device).ncard ≤ disk.freeBlockCount →
    ReadsFreeBlocks k is64bit disk device fs

section

variable {k : Kernel} {is64bit : Bool} {disk : Ext4Disk} {device page sb : Mem} {gdArr : ℕ → Mem}
  {first g j m n num rounds : ℕ}

/-! ### Powers -/

theorem powLoop_iff (hn : 2 ≤ n) (hnum : 0 < num) (hr : num ≤ rounds) :
    powLoop n rounds num = 1 ↔ ∃ e, num = n ^ e := by
  induction rounds generalizing num with
  | zero => omega
  | succ rounds ih =>
    rw [powLoop]
    split_ifs with hdvd
    · obtain ⟨q, rfl⟩ := Nat.dvd_of_mod_eq_zero hdvd
      have hq : 0 < q := Nat.pos_of_mul_pos_left hnum
      have hlt : q < n * q := by
        have := Nat.mul_le_mul_right q hn
        omega
      rw [Nat.mul_div_cancel_left q (by omega), ih hq (by omega)]
      constructor
      · rintro ⟨e, rfl⟩
        exact ⟨e + 1, (pow_succ' n e).symm⟩
      · rintro ⟨e, he⟩
        cases e with
        | zero =>
          rw [pow_zero] at he
          omega
        | succ e =>
          rw [pow_succ'] at he
          exact ⟨e, Nat.eq_of_mul_eq_mul_left (by omega) he⟩
    · constructor
      · rintro rfl
        exact ⟨0, rfl⟩
      · rintro ⟨e, rfl⟩
        cases e with
        | zero => rfl
        | succ e => exact absurd (Nat.mul_mod_left _ _) (pow_succ n e ▸ hdvd)

theorem isPowN_iff (hn : 2 ≤ n) : isPowN num n = true ↔ ∃ e, num = n ^ e := by
  rw [isPowN, Bool.and_eq_true, decide_eq_true_eq, decide_eq_true_eq]
  constructor
  · rintro ⟨h0, h⟩
    exact (powLoop_iff hn (Nat.pos_of_ne_zero h0) (le_refl num)).1 h
  · rintro ⟨e, rfl⟩
    have hpos : 0 < n ^ e := pow_pos (by omega) e
    exact ⟨hpos.ne', (powLoop_iff hn hpos (le_refl _)).2 ⟨e, rfl⟩⟩

/-! ### The descriptors -/

theorem readGroupDescPage_eq (h : disk.grpDescSz * n ≤ 4096) :
    readGroupDescPage k disk page first gdArr n = some fun g =>
      if first ≤ g ∧ g < first + n then
        blit k.uninit 0 page (disk.grpDescSz * (g - first)) disk.grpDescSz
      else gdArr g := by
  induction n with
  | zero =>
    rw [readGroupDescPage]
    congr 1
    funext g
    rw [if_neg (by omega)]
  | succ n ih =>
    have hn : disk.grpDescSz * n + disk.grpDescSz ≤ 4096 := by rwa [← Nat.mul_succ]
    rw [readGroupDescPage, ih (by omega)]
    simp only [Option.bind_eq_bind, Option.bind_some]
    rw [if_pos hn]
    congr 1
    funext g
    by_cases hg : g = first + n
    · rw [hg, Function.update_self, if_pos (by omega), Nat.add_sub_cancel_left]
    · rw [Function.update_of_ne hg]
      refine if_congr ?_ rfl rfl
      omega

/-- The descriptor that `read_group_descs` reads at place `g`, `per` of them in a page. -/
def readDesc (k : Kernel) (disk : Ext4Disk) (device : Mem) (per g : ℕ) : Mem :=
  blit k.uninit 0 (readPage (fun _ => 0) 0 device 0 (8 + 8 * (g / per)))
    (disk.grpDescSz * (g % per)) disk.grpDescSz

theorem readGroupDescBlocks_eq {per : ℕ} (hper : 0 < per) (h : disk.grpDescSz * per ≤ 4096) :
    readGroupDescBlocks k disk device per gdArr n = some fun g =>
      if g < n * per then readDesc k disk device per g else gdArr g := by
  induction n with
  | zero =>
    rw [readGroupDescBlocks]
    congr 1
    funext g
    rw [if_neg (by omega)]
  | succ n ih =>
    rw [readGroupDescBlocks, ih]
    simp only [Option.bind_eq_bind, Option.bind_some]
    rw [readGroupDescPage_eq h]
    congr 1
    funext g
    have hsucc : (n + 1) * per = n * per + per := Nat.succ_mul n per
    by_cases hpage : n * per ≤ g ∧ g < n * per + per
    · -- the place is in the last page
      have hdiv : g / per = n := Nat.div_eq_of_lt_le hpage.1 (by omega)
      have hmod : g % per = g - n * per := by
        rw [← hdiv, Nat.mod_eq_sub, Nat.mul_comm]
      rw [if_pos hpage, if_pos (by omega), readDesc, hdiv, hmod]
    · rw [if_neg hpage]
      refine if_congr ?_ rfl rfl
      omega

theorem readGroupDescs_eq {per : ℕ} (hmem : Ext4Memory k disk) (hblk : disk.blkSz = 4096)
    (hper : disk.grpDescSz * per = 4096) :
    ∃ gdArr, readGroupDescs k disk device = some gdArr ∧
      ∀ g < disk.numGrpDescs, gdArr g = readDesc k disk device per g := by
  have hsz : 0 < disk.grpDescSz := Nat.pos_of_ne_zero fun h0 => by
    rw [h0, Nat.zero_mul] at hper
    omega
  have hper0 : 0 < per := Nat.pos_of_ne_zero fun h0 => by
    rw [h0, Nat.mul_zero] at hper
    omega
  have hcount : 4096 / disk.grpDescSz = per := by rw [← hper, Nat.mul_div_cancel_left per hsz]
  have hfull : disk.numGrpDescs * disk.grpDescSz / 4096 = disk.numGrpDescs / per := by
    rw [← hper, Nat.mul_comm disk.grpDescSz, Nat.mul_div_mul_right _ _ hsz]
  have hrem : disk.numGrpDescs * disk.grpDescSz % 4096 / disk.grpDescSz =
      disk.numGrpDescs % per := by
    rw [← hper, Nat.mul_comm disk.grpDescSz, Nat.mul_mod_mul_right, Nat.mul_div_cancel _ hsz]
  have hlt : disk.numGrpDescs % per < per := Nat.mod_lt _ hper0
  have hpage : disk.grpDescSz * (disk.numGrpDescs % per) ≤ 4096 := by
    rw [← hper]
    exact Nat.mul_le_mul_left _ hlt.le
  rw [readGroupDescs, if_neg (by rw [hmem.page, hmem.desc]; simp; omega)]
  dsimp only
  rw [hblk, hcount, hfull, hrem, readGroupDescBlocks_eq hper0 hper.le]
  simp only [Option.bind_eq_bind, Option.bind_some]
  rw [readGroupDescPage_eq hpage]
  refine ⟨_, rfl, fun g hg => ?_⟩
  have hdm : disk.numGrpDescs / per * per + disk.numGrpDescs % per = disk.numGrpDescs :=
    Nat.div_add_mod' _ _
  by_cases hlast : disk.numGrpDescs / per * per ≤ g
  · -- a descriptor of the last page, which is not full
    have hdiv : g / per = disk.numGrpDescs / per := Nat.div_eq_of_lt_le hlast (by
      rw [Nat.succ_mul]
      omega)
    have hmod : g % per = g - disk.numGrpDescs / per * per := by
      rw [← hdiv, Nat.mod_eq_sub, Nat.mul_comm]
    rw [if_pos ⟨hlast, by omega⟩, readDesc, hdiv, hmod]
  · rw [if_neg (by omega), if_pos (by omega)]

theorem readPage_sector {off i : ℕ} (hi : i < 4096) :
    readPage page 0 device 0 off i = device (512 * (off % 2 ^ 32) + i) := by
  have hsec : pageSector 0 off = off % 2 ^ 32 := by
    unfold pageSector
    omega
  rw [readPage, afsBlkdevIo, readPageIo]
  dsimp only
  rw [hsec]
  have hin : blit page 0 device (512 * (off % 2 ^ 32)) 4096 (0 + i) = _ := blit_in hi
  rwa [Nat.zero_add] at hin

theorem readDesc_agree {per : ℕ} (hper : disk.grpDescSz * per = 4096) (hper0 : 0 < per)
    (hsector : g / per + 1 < 2 ^ 29) :
    Agree (readDesc k disk device per g) 0 (groupDesc disk device g) 0 (min disk.grpDescSz 64) := by
  intro i hi
  have hi : i < disk.grpDescSz := hi.trans_le (Nat.min_le_left _ _)
  have hmod : g % per < per := Nat.mod_lt _ hper0
  have hplace : disk.grpDescSz * (g % per) + disk.grpDescSz ≤ 4096 := by
    rw [← Nat.mul_succ, ← hper]
    exact Nat.mul_le_mul_left _ hmod
  have hg : g * disk.grpDescSz = 4096 * (g / per) + disk.grpDescSz * (g % per) := by
    conv_lhs => rw [← Nat.div_add_mod g per]
    rw [← hper]
    ring
  rw [readDesc, blit_in hi, readPage_sector (by omega), Nat.mod_eq_of_lt (by omega), Nat.zero_add,
    groupDesc, hg]
  congr 1
  omega

theorem Ext4Geometry.desc_le (hgeo : Ext4Geometry is64bit disk) : disk.grpDescSz ∣ 4096 := by
  rcases hgeo.desc with ⟨-, h⟩ | ⟨-, -, h⟩
  · rw [h]
    decide
  · exact h

theorem Ext4Geometry.blockBmap_congr {gd gd' : Mem} (hgeo : Ext4Geometry is64bit disk)
    (h : Agree gd 0 gd' 0 (min disk.grpDescSz 64)) : blockBmap is64bit gd = blockBmap is64bit gd' := by
  have hle : ∀ o, o + 4 ≤ min disk.grpDescSz 64 → le gd o 4 = le gd' o 4 := fun o ho =>
    le_congr fun i hi => by
      have hbyte := h (o + i) (by omega)
      rwa [Nat.zero_add] at hbyte
  unfold blockBmap
  rcases hgeo.desc with ⟨rfl, hsz⟩ | ⟨rfl, hsz, -⟩
  · rw [if_neg Bool.false_ne_true, if_neg Bool.false_ne_true, hle 0 (by omega)]
  · rw [hle 0 (by omega), hle 32 (by omega)]

theorem Ext4Geometry.bitmapBit_eq {gd : Mem} (hgeo : Ext4Geometry is64bit disk)
    (hblock : blockBmap is64bit gd < 2 ^ 29) (hj : j < disk.blksPerGrp) :
    bitmapBit (bitmapPage is64bit device gd) j =
      (device (4096 * blockBmap is64bit gd + j / 8)).toNat.testBit (j % 8) := by
  have hbpg := hgeo.group.2
  rw [bitmapBit, bitmapPage, readPage_sector (by omega)]
  congr 3
  omega

/-! ### The backups -/

theorem Ext4Geometry.backupLength_eq (hgeo : Ext4Geometry is64bit disk) :
    backupLength disk = 1 + tableBlocks disk + disk.reservedGdtBlocks := by
  obtain ⟨per, hper⟩ := hgeo.desc_le
  have hsz : 0 < disk.grpDescSz := Nat.pos_of_ne_zero fun h0 => by
    rw [h0, Nat.zero_mul] at hper
    omega
  -- the remainder is a multiple of the descriptor size
  have hrem : disk.numGrpDescs * disk.grpDescSz % 4096 / disk.grpDescSz ≠ 0 ↔
      disk.numGrpDescs * disk.grpDescSz % 4096 ≠ 0 := by
    rw [hper, Nat.mul_comm disk.grpDescSz per, Nat.mul_mod_mul_right, Nat.mul_div_cancel _ hsz]
    simp [hsz.ne']
  rw [backupLength, hgeo.blkSz, tableBlocks]
  simp only [hrem]
  generalize disk.numGrpDescs * disk.grpDescSz = bytes
  split_ifs <;> omega

theorem Ext4Geometry.inBackup_iff (hgeo : Ext4Geometry is64bit disk) :
    InBackup disk g j ↔ hasBackups disk g = true ∧ j < backupLength disk := by
  have hpow : hasBackups disk g = true ↔
      disk.isSparseSuper = true ∧ (g = 0 ∨ ∃ e, g = 3 ^ e ∨ g = 5 ^ e ∨ g = 7 ^ e) := by
    simp only [hasBackups, Bool.and_eq_true, Bool.or_eq_true, decide_eq_true_eq,
      isPowN_iff (show 2 ≤ 3 by omega), isPowN_iff (show 2 ≤ 5 by omega),
      isPowN_iff (show 2 ≤ 7 by omega), exists_or, or_assoc]
  rw [hpow, hgeo.backupLength_eq]
  constructor
  · rintro ⟨h1, h2, h3⟩
    exact ⟨⟨h1, h2⟩, h3⟩
  · rintro ⟨⟨h1, h2⟩, h3⟩
    exact ⟨h1, h2, h3⟩

/-! ### The list -/

theorem Ext4Geometry.groupEntry_eq (hgeo : Ext4Geometry is64bit disk) (hg : g < disk.numGrpDescs)
    (hj : j < disk.blksPerGrp) :
    groupEntry disk g j = g * disk.blksPerGrp + j ∧ g * disk.blksPerGrp + j < 2 ^ 32 := by
  have hend : g * disk.blksPerGrp + disk.blksPerGrp ≤ 2 ^ 32 := by
    rw [← Nat.succ_mul]
    exact le_trans (Nat.mul_le_mul_right _ hg) hgeo.volume
  have hbpg := hgeo.group
  rw [groupEntry, hgeo.first, Nat.mul_comm]
  rw [Nat.mod_eq_of_lt (by omega), Nat.mod_eq_of_lt (by omega)]
  exact ⟨rfl, by omega⟩

theorem Ext4Geometry.scanList_sorted (hgeo : Ext4Geometry is64bit disk) :
    (scanList is64bit disk gdArr device).Pairwise (· < ·) := by
  refine Artifice.scanList_sorted hgeo.group.2 (by rw [hgeo.first]; omega) fun g hg => ?_
  have hentry := (hgeo.groupEntry_eq hg hgeo.group.1).2
  rw [Nat.mul_comm]
  omega

theorem Ext4Geometry.mem_scanList (hgeo : Ext4Geometry is64bit disk)
    (hblock : ∀ g < disk.numGrpDescs,
      blockBmap is64bit (gdArr g) = bitmapBlock is64bit disk device g)
    (hlow : ∀ g < disk.numGrpDescs, bitmapBlock is64bit disk device g < 2 ^ 29) {b : ℕ} :
    b ∈ scanList is64bit disk gdArr device ↔ b ∈ freeBlocks is64bit disk device := by
  rw [Artifice.mem_scanList, freeBlocks, Set.mem_ofPred_eq]
  refine exists_congr fun g => and_congr_right fun hg => exists_congr fun j =>
    and_congr_right fun hj => ?_
  obtain ⟨hentry, hlt⟩ := hgeo.groupEntry_eq hg hj
  have hfree : groupFree is64bit disk device (gdArr g) g j = true ↔
      (device (4096 * bitmapBlock is64bit disk device g + j / 8)).toNat.testBit (j % 8) = false ∧
        ¬InBackup disk g j := by
    rw [hgeo.inBackup_iff, groupFree, hgeo.bitmapBit_eq (by rw [hblock g hg]; exact hlow g hg) hj,
      hblock g hg]
    rw [Bool.and_eq_true, Bool.not_eq_true', Bool.not_eq_true', Bool.and_eq_false_iff,
      decide_eq_false_iff_not, not_and_or, Bool.not_eq_true]
  rw [hfree, hentry]
  constructor
  · rintro ⟨⟨hbit, hback⟩, -, rfl⟩
    exact ⟨rfl, hbit, hback⟩
  · rintro ⟨rfl, hbit, hback⟩
    exact ⟨⟨hbit, hback⟩, by omega, rfl⟩

theorem readBitmaps_freeList {fs : AfsPassiveFs} (hgeo : Ext4Geometry is64bit disk)
    (hmem : Ext4Memory k disk) (hnum : disk.numGrpDescs < 2 ^ 32)
    (hlen : (scanList is64bit disk gdArr device).length ≤ disk.freeBlockCount) :
    ∃ ret fs' groups, readBitmaps k is64bit disk gdArr device fs = some (ret, fs', groups) ∧
      fs'.freeList = scanList is64bit disk gdArr device := by
  have hcount := hgeo.count
  have hfit : 4 * (scanList is64bit disk gdArr device).length ≤
      pageRound (disk.freeBlockCount * 4) := by
    have := le_pageRound (disk.freeBlockCount * 4)
    omega
  rw [readBitmaps_eq hmem.vector (hmem.list _ hcount.1 (le_refl _))
    (fun _ => ⟨hmem.page, hgeo.group.2⟩) hnum,
    if_pos hfit, Nat.mod_eq_of_lt (by omega)]
  by_cases hnil : scanList is64bit disk gdArr device = []
  · -- nothing is free: the last allocation is of no bytes
    refine ⟨1, _, _, if_neg ?_, ?_⟩
    · rw [hnil, List.length_nil, Nat.zero_mul, k.vmalloc_zero]
      exact Bool.false_ne_true
    · rw [hnil]
      rfl
  · refine ⟨0, _, _, if_pos ?_, ?_⟩
    · exact hmem.list _ (List.length_pos_of_ne_nil hnil) hlen
    · exact List.take_left

theorem length_eq_ncard {l : List ℕ} {S : Set ℕ} (hsorted : l.Pairwise (· < ·))
    (hmem : ∀ b, b ∈ l ↔ b ∈ S) : l.length = S.ncard := by
  have hset : S = ↑l.toFinset := Set.ext fun b => by
    rw [Finset.mem_coe, List.mem_toFinset, hmem]
  rw [hset, Set.ncard_coe_finset, List.toFinset_card_of_nodup (hsorted.imp Nat.ne_of_lt)]

theorem Ext4Geometry.readsFreeBlocks {fs : AfsPassiveFs} (hgeo : Ext4Geometry is64bit disk)
    (hmem : Ext4Memory k disk) (hnum : disk.numGrpDescs < 2 ^ 32)
    (htable : tableBlocks disk < 2 ^ 29)
    (hlow : ∀ g < disk.numGrpDescs, bitmapBlock is64bit disk device g < 2 ^ 29)
    (hbuffer : (freeBlocks is64bit disk device).ncard ≤ disk.freeBlockCount) :
    ReadsFreeBlocks k is64bit disk device fs := by
  obtain ⟨per, hper⟩ := hgeo.desc_le
  have hper0 : 0 < per := Nat.pos_of_ne_zero fun h0 => by
    rw [h0, Nat.mul_zero] at hper
    omega
  obtain ⟨gdArr, hread, hdesc⟩ : ∃ gdArr, readGroupDescs k disk device = some gdArr ∧
      ∀ g < disk.numGrpDescs, gdArr g = readDesc k disk device per g :=
    readGroupDescs_eq hmem hgeo.blkSz hper.symm
  have hblock : ∀ g < disk.numGrpDescs,
      blockBmap is64bit (gdArr g) = bitmapBlock is64bit disk device g := by
    intro g hg
    -- the page of descriptor `g` is one of those that the table takes
    have hpage : g / per + 1 ≤ tableBlocks disk := by
      have hbytes : (g / per * per + 1) * disk.grpDescSz ≤ disk.numGrpDescs * disk.grpDescSz :=
        Nat.mul_le_mul_right _ (by
          have := Nat.div_mul_le_self g per
          omega)
      have hpages : (g / per * per + 1) * disk.grpDescSz = 4096 * (g / per) + disk.grpDescSz := by
        rw [hper]
        ring
      have hsz : 0 < disk.grpDescSz := Nat.pos_of_ne_zero fun h0 => by
        rw [h0, Nat.zero_mul] at hper
        omega
      rw [hpages] at hbytes
      rw [tableBlocks]
      generalize g / per = page at *
      omega
    rw [hdesc g hg]
    exact hgeo.blockBmap_congr (readDesc_agree hper.symm hper0 (by omega))
  have hlist : ∀ b, b ∈ scanList is64bit disk gdArr device ↔ b ∈ freeBlocks is64bit disk device :=
    fun b => hgeo.mem_scanList hblock hlow
  have hlen : (scanList is64bit disk gdArr device).length ≤ disk.freeBlockCount := by
    rw [length_eq_ncard hgeo.scanList_sorted hlist]
    exact hbuffer
  obtain ⟨ret, fs', groups, hbitmaps, hfree⟩ : ∃ ret fs' groups,
      readBitmaps k is64bit disk gdArr device fs = some (ret, fs', groups) ∧
        fs'.freeList = scanList is64bit disk gdArr device :=
    readBitmaps_freeList hgeo hmem hnum hlen
  refine ⟨gdArr, ret, fs', groups, hread, hbitmaps, ?_, fun b => ?_⟩
  · rw [hfree]
    exact hgeo.scanList_sorted
  · rw [hfree]
    exact hlist b

/-! ### A table that the sectors do not reach -/

/-- A device with the super block of `sb` behind a clear boot block, where every descriptor of `disk`
names block 255, whose first byte is set. -/
def blindDevice (sb : Mem) (disk : Ext4Disk) : Mem := fun a =>
  if a < 1024 then 0
  else if a < 4096 then sb a
  else if (a - 4096) % disk.grpDescSz = 0 then 255 else 0

theorem Ext4Geometry.desc_ge (hgeo : Ext4Geometry is64bit disk) : 32 ≤ disk.grpDescSz := by
  rcases hgeo.desc with ⟨-, h⟩ | ⟨-, h, -⟩ <;> omega

theorem Ext4Geometry.bitmapBlock_blind (hgeo : Ext4Geometry is64bit disk) :
    bitmapBlock is64bit disk (blindDevice sb disk) g = 255 := by
  have hbyte : ∀ i < disk.grpDescSz,
      groupDesc disk (blindDevice sb disk) g i = if i = 0 then 255 else 0 := by
    intro i hi
    have hplace : 4096 + g * disk.grpDescSz + i - 4096 = disk.grpDescSz * g + i := by
      rw [Nat.mul_comm disk.grpDescSz]
      omega
    rw [groupDesc, blindDevice, if_neg (by omega), if_neg (by omega), hplace, Nat.mul_add_mod_self_left,
      Nat.mod_eq_of_lt hi]
  have hsz := hgeo.desc_ge
  have hlow : le (groupDesc disk (blindDevice sb disk) g) 0 4 = 255 := by
    simp only [le]
    rw [hbyte 0 (by omega), hbyte 1 (by omega), hbyte 2 (by omega), hbyte 3 (by omega)]
    rfl
  rw [bitmapBlock, blockBmap]
  rcases hgeo.desc with ⟨rfl, -⟩ | ⟨rfl, hsz, -⟩
  · rw [if_neg Bool.false_ne_true, hlow]
  · have hhigh : le (groupDesc disk (blindDevice sb disk) g) 32 4 = 0 := by
      simp only [le]
      rw [hbyte 32 (by omega), hbyte 33 (by omega), hbyte 34 (by omega), hbyte 35 (by omega)]
      rfl
    rw [if_pos rfl, hlow, hhigh, Nat.zero_mul, Nat.zero_add]

theorem Ext4Geometry.blindDevice_testBit (hgeo : Ext4Geometry is64bit disk) (hj : j < 8) :
    (blindDevice sb disk (4096 * 255 + j / 8)).toNat.testBit (j % 8) = true := by
  have hset : blindDevice sb disk (4096 * 255 + j / 8) = 255 := by
    have hsz : disk.grpDescSz ∣ 4096 * 254 := Dvd.dvd.mul_right hgeo.desc_le 254
    rw [blindDevice, if_neg (by omega), if_neg (by omega), if_pos]
    have hplace : 4096 * 255 + j / 8 - 4096 = 4096 * 254 := by omega
    rw [hplace]
    exact Nat.mod_eq_zero_of_dvd hsz
  rw [hset]
  interval_cases j <;> decide

theorem Ext4Geometry.freeBlocks_blind (hgeo : Ext4Geometry is64bit disk)
    (hbpg : disk.blksPerGrp ≤ 8) : freeBlocks is64bit disk (blindDevice sb disk) = ∅ := by
  refine Set.eq_empty_of_forall_notMem fun b hb => ?_
  obtain ⟨g, -, j, hj, -, hbit, -⟩ := hb
  rw [hgeo.bitmapBlock_blind, hgeo.blindDevice_testBit (by omega)] at hbit
  exact Bool.noConfusion hbit

theorem readDesc_wrap {per : ℕ} (hper : disk.grpDescSz * per = 4096) (hper0 : 0 < per) {i : ℕ}
    (hi : i < disk.grpDescSz) (hi64 : i < 64) :
    readDesc k disk (blindDevice sb disk) per ((2 ^ 29 - 1) * per) i = 0 := by
  have hdiv : (2 ^ 29 - 1) * per / per = 2 ^ 29 - 1 := Nat.mul_div_cancel _ hper0
  have hmod : (2 ^ 29 - 1) * per % per = 0 := Nat.mul_mod_left _ _
  have hsz : disk.grpDescSz ≤ 4096 := by
    rw [← hper]
    exact Nat.le_mul_of_pos_right _ hper0
  rw [readDesc, hdiv, hmod, Nat.mul_zero, blit_zero_in hi, readPage_sector (by omega), blindDevice,
    if_pos (by omega)]

theorem hasBackups_wrap {per : ℕ} (hper : per ∣ 4096) :
    hasBackups disk ((2 ^ 29 - 1) * per) = false := by
  have hper0 : 0 < per := Nat.pos_of_dvd_of_pos hper (by omega)
  -- 233 is a prime factor of the number
  have hnot : ∀ p e : ℕ, p.Prime → p ≠ 233 → (2 ^ 29 - 1) * per ≠ p ^ e := by
    intro p e hp hne heq
    have hdvd : 233 ∣ p ^ e := by
      rw [← heq]
      exact Dvd.dvd.mul_right (by decide) per
    have h233 : Nat.Prime 233 := by norm_num
    exact hne ((Nat.prime_dvd_prime_iff_eq h233 hp).1 (h233.dvd_of_dvd_pow hdvd)).symm
  have hpow : ∀ p : ℕ, p.Prime → p ≠ 233 → isPowN ((2 ^ 29 - 1) * per) p = false := by
    intro p hp hne
    rw [Bool.eq_false_iff]
    intro h
    obtain ⟨e, he⟩ := (isPowN_iff hp.two_le).1 h
    exact hnot p e hp hne he
  rw [hasBackups, hpow 3 (by norm_num) (by omega), hpow 5 (by norm_num) (by omega),
    hpow 7 (by norm_num) (by omega)]
  simp [hper0.ne']

theorem ext4Memory_const : Ext4Memory (constKernel 0) disk where
  page := rfl
  desc := rfl
  vector := rfl
  list n hn _ := by
    have hne : n * 4 ≠ 0 := by omega
    simp [constKernel, hne]

theorem length_lt_of_sorted {l : List ℕ} {N : ℕ} (hsorted : l.Pairwise (· < ·)) (hN : 0 < N)
    (h : ∀ b ∈ l, 0 < b ∧ b < N) : l.length < N := by
  have hcons : (0 :: l).Pairwise (· < ·) := List.pairwise_cons.2 ⟨fun b hb => (h b hb).1, hsorted⟩
  have hlast : l.length < (0 :: l).length := Nat.lt_succ_self _
  have hle : l.length ≤ (0 :: l)[l.length] := le_getElem hcons hlast
  rcases List.mem_cons.1 (List.getElem_mem hlast) with h0 | hmem
  · omega
  · exact lt_of_le_of_lt hle (h _ hmem).2

theorem lt_of_tableBlocks {per : ℕ} (hper : disk.grpDescSz * per = 4096)
    (htable : 2 ^ 29 ≤ tableBlocks disk) : (2 ^ 29 - 1) * per < disk.numGrpDescs := by
  by_contra hle
  have hbytes : disk.numGrpDescs * disk.grpDescSz ≤ (2 ^ 29 - 1) * per * disk.grpDescSz :=
    Nat.mul_le_mul_right _ (by omega)
  have hend : (2 ^ 29 - 1) * per * disk.grpDescSz = (2 ^ 29 - 1) * 4096 := by
    rw [← hper]
    ring
  rw [hend] at hbytes
  rw [tableBlocks] at htable
  omega

theorem Ext4Geometry.blksPerGrp_le (hgeo : Ext4Geometry is64bit disk)
    (htable : 2 ^ 29 ≤ tableBlocks disk) : disk.blksPerGrp ≤ 8 := by
  obtain ⟨per, hper⟩ := hgeo.desc_le
  have hper0 : 0 < per := Nat.pos_of_ne_zero fun h0 => by
    rw [h0, Nat.mul_zero] at hper
    omega
  have hwrap := lt_of_tableBlocks hper.symm htable
  have hvolume := hgeo.volume
  by_contra hgt
  have hmany : (2 ^ 29 - 1) * 9 ≤ disk.numGrpDescs * disk.blksPerGrp :=
    Nat.mul_le_mul (by omega) (by omega)
  omega

theorem Ext4Geometry.not_readsFreeBlocks (hgeo : Ext4Geometry is64bit disk)
    (hnum : disk.numGrpDescs < 2 ^ 32) (htable : 2 ^ 29 ≤ tableBlocks disk) {fs : AfsPassiveFs} :
    ¬ReadsFreeBlocks (constKernel 0) is64bit disk (blindDevice sb disk) fs := by
  have hmem : Ext4Memory (constKernel 0) disk := ext4Memory_const
  obtain ⟨per, hper⟩ := hgeo.desc_le
  have hper0 : 0 < per := Nat.pos_of_ne_zero fun h0 => by
    rw [h0, Nat.mul_zero] at hper
    omega
  have hsz := hgeo.desc_ge
  obtain ⟨hbpg0, -⟩ := hgeo.group
  -- the first descriptor that the sectors do not reach
  have hwrap : (2 ^ 29 - 1) * per < disk.numGrpDescs := lt_of_tableBlocks hper.symm htable
  have hbpg := hgeo.blksPerGrp_le htable
  rintro ⟨gdArr, ret, fs', groups, hread, hbitmaps, -, hlist⟩
  have hempty : ∀ b, b ∉ fs'.freeList := fun b hb => by
    have hb := (hlist b).1 hb
    rw [hgeo.freeBlocks_blind hbpg] at hb
    exact hb
  obtain ⟨gdArr', hread', hdesc⟩ : ∃ gdArr',
      readGroupDescs (constKernel 0) disk (blindDevice sb disk) = some gdArr' ∧
        ∀ g < disk.numGrpDescs, gdArr' g = readDesc (constKernel 0) disk (blindDevice sb disk) per g :=
    readGroupDescs_eq hmem hgeo.blkSz hper.symm
  obtain rfl : gdArr' = gdArr := Option.some.inj (hread'.symm.trans hread)
  -- its bitmap is taken to be block 0, where the first bit is clear
  have hzero : blockBmap is64bit (gdArr' ((2 ^ 29 - 1) * per)) = 0 := by
    have hagree : Agree (gdArr' ((2 ^ 29 - 1) * per)) 0 (fun _ => 0) 0 (min disk.grpDescSz 64) := by
      intro i hi
      rw [Nat.zero_add, hdesc _ hwrap, readDesc_wrap hper.symm hper0 (by omega) (by omega)]
    rw [hgeo.blockBmap_congr hagree]
    cases is64bit <;> rfl
  have hlisted : disk.blksPerGrp * ((2 ^ 29 - 1) * per) ∈
      scanList is64bit disk gdArr' (blindDevice sb disk) := by
    obtain ⟨hentry, hlt⟩ := hgeo.groupEntry_eq hwrap hbpg0
    refine Artifice.mem_scanList.2 ⟨_, hwrap, 0, hbpg0, ?_, by omega, ?_⟩
    · have hbit : bitmapBit (bitmapPage is64bit (blindDevice sb disk)
          (gdArr' ((2 ^ 29 - 1) * per))) 0 = false := by
        have hclear : blindDevice sb disk (4096 * 0 + 0 / 8) = 0 := if_pos (by omega)
        rw [hgeo.bitmapBit_eq (by rw [hzero]; omega) hbpg0, hzero, hclear]
        rfl
      rw [groupFree, hbit, hasBackups_wrap ⟨disk.grpDescSz, by rw [hper, Nat.mul_comm]⟩]
      rfl
    · rw [hentry, Nat.add_zero, Nat.mul_comm]
  -- there are fewer than `2 ^ 32` entries: block 0 is not one of them
  have hlen : (scanList is64bit disk gdArr' (blindDevice sb disk)).length < 2 ^ 32 := by
    have hentry0 : ∀ b ∈ scanList is64bit disk gdArr' (blindDevice sb disk), 0 < b ∧ b < 2 ^ 32 := by
      intro b hb
      obtain ⟨g, hg, j, hj, hfree, hle, rfl⟩ := Artifice.mem_scanList.1 hb
      refine ⟨Nat.pos_of_ne_zero fun h0 => ?_, by omega⟩
      rw [(hgeo.groupEntry_eq hg hj).1] at h0
      obtain ⟨hg0, rfl⟩ : g = 0 ∧ j = 0 := by
        have := Nat.le_mul_of_pos_right g hbpg0
        omega
      subst hg0
      have hblock : blockBmap is64bit (gdArr' 0) = 255 := by
        rw [hdesc 0 hg, ← hgeo.bitmapBlock_blind (g := 0)]
        exact hgeo.blockBmap_congr (readDesc_agree hper.symm hper0 (by
          rw [Nat.zero_div]
          omega))
      have hbit : bitmapBit (bitmapPage is64bit (blindDevice sb disk) (gdArr' 0)) 0 = true := by
        rw [hgeo.bitmapBit_eq (by rw [hblock]; omega) hbpg0, hblock]
        exact hgeo.blindDevice_testBit (by omega)
      rw [groupFree, hbit] at hfree
      exact Bool.noConfusion hfree
    exact length_lt_of_sorted hgeo.scanList_sorted (by omega) hentry0
  rw [readBitmaps_eq hmem.vector (hmem.list _ hgeo.count.1 (le_refl _))
    (fun _ => ⟨hmem.page, hgeo.group.2⟩) hnum,
    Nat.mod_eq_of_lt hlen] at hbitmaps
  have hpos : 0 < (scanList is64bit disk gdArr' (blindDevice sb disk)).length :=
    List.length_pos_of_mem hlisted
  have hnext : (constKernel 0).vmalloc
      ((scanList is64bit disk gdArr' (blindDevice sb disk)).length * 4) = true := by
    have hne : (scanList is64bit disk gdArr' (blindDevice sb disk)).length * 4 ≠ 0 := by omega
    simp [constKernel, hne]
  rw [if_pos hnext] at hbitmaps
  split_ifs at hbitmaps
  have hfs := congrArg (fun r : ℤ × AfsPassiveFs × List ℕ => r.2.1.freeList)
    (Option.some.inj hbitmaps)
  have hfree : fs'.freeList = scanList is64bit disk gdArr' (blindDevice sb disk) :=
    hfs.symm.trans List.take_left
  exact hempty _ (by rw [hfree]; exact hlisted)

/-- **When the free list is exactly the clear bits**: for every image, if and only if there are fewer
than `2 ^ 32` groups and the descriptor table ends at or below sector `2 ^ 32`. -/
theorem readsEveryImage_iff (hgeo : Ext4Geometry is64bit disk) :
    ReadsEveryImage is64bit disk ↔ disk.numGrpDescs < 2 ^ 32 ∧ tableBlocks disk < 2 ^ 29 := by
  constructor
  · intro h
    have hblind : disk.blksPerGrp ≤ 8 → ReadsFreeBlocks (constKernel 0) is64bit disk
        (blindDevice (fun _ => 0) disk) emptyFs := fun hbpg =>
      h _ _ _ ext4Memory_const (fun g _ => by rw [hgeo.bitmapBlock_blind]; omega)
        (by rw [hgeo.freeBlocks_blind hbpg, Set.ncard_empty]; omega)
    have hvolume := hgeo.volume
    have hnum : disk.numGrpDescs < 2 ^ 32 := by
      by_contra hmany
      -- the loop over the groups does not end
      have hbpg : disk.blksPerGrp ≤ 8 := by
        by_contra hgt
        have := Nat.mul_le_mul (Nat.not_lt.1 hmany) (Nat.not_le.1 hgt).le
        omega
      obtain ⟨gdArr, ret, fs', groups, -, hbitmaps, -⟩ := hblind hbpg
      rw [readBitmaps] at hbitmaps
      dsimp only at hbitmaps
      rw [if_pos (Nat.not_lt.1 hmany)] at hbitmaps
      split_ifs at hbitmaps with hfail
      rw [ext4Memory_const.vector, ext4Memory_const.list _ hgeo.count.1 (le_refl _)] at hfail
      simp at hfail
    refine ⟨hnum, Nat.not_le.1 fun htable => ?_⟩
    exact hgeo.not_readsFreeBlocks hnum htable (hblind (hgeo.blksPerGrp_le htable))
  · rintro ⟨hnum, htable⟩ k device fs hmem hlow hbuffer
    exact hgeo.readsFreeBlocks hmem hnum htable hlow hbuffer

end

/-- A volume of `n` groups of `blksPerGrp` blocks. -/
def plainDisk (n blksPerGrp grpDescSz : ℕ) : Ext4Disk where
  firstDataBlock := 0
  freeBlockCount := 1
  reservedGdtBlocks := 0
  blkSz := 4096
  numGrpDescs := n
  grpDescSz := grpDescSz
  blksPerGrp := blksPerGrp
  isSparseSuper := true

/-- A volume of two groups. -/
theorem readsEveryImage_two : ReadsEveryImage false (plainDisk 2 32768 32) :=
  (readsEveryImage_iff ⟨rfl, rfl, by decide, .inl ⟨rfl, rfl⟩, by decide, by decide⟩).2 (by decide)

/-- A 64-bit volume of `2 ^ 32 - 8` blocks in groups of 8, with descriptors of 4096 bytes. -/
def wideDevice : Mem :=
  blindDevice (putLe (putLe (putLe (putLe (putLe (putLe (putLe (putLe (fun _ => 0)
    (1024 + 4) 4 (2 ^ 32 - 8)) (1024 + 12) 4 1) (1024 + 24) 4 2) (1024 + 32) 4 8)
    (1024 + 56) 2 0xEF53) (1024 + 96) 4 0x80) (1024 + 100) 4 1) (1024 + 254) 2 4096)
    (plainDisk (2 ^ 29) 8 4096)

theorem newDisk_wideDevice : newDisk (constKernel 0) true (ext4Superblock wideDevice) =
    some (some (plainDisk (2 ^ 29) 8 4096)) := by
  have hcount : (ext4Superblock wideDevice).blocksCountLo = 2 ^ 32 - 8 := by decide +kernel
  have hfree : (ext4Superblock wideDevice).freeBlocksCountLo = 1 := by decide +kernel
  have hfirst : (ext4Superblock wideDevice).firstDataBlock = 0 := by decide +kernel
  have hblk : (ext4Superblock wideDevice).logBlkSz = 2 := by decide +kernel
  have hgroup : (ext4Superblock wideDevice).blocksPerGroup = 8 := by decide +kernel
  have hcompat : (ext4Superblock wideDevice).featureRoCompat = 1 := by decide +kernel
  have hreserved : (ext4Superblock wideDevice).reservedGdtBlocks = 0 := by decide +kernel
  have hdesc : (ext4Superblock wideDevice).descSize = 4096 := by decide +kernel
  simp only [newDisk, newGroupDescArr, numGrpDescs, grpDescSz, hcount, hfree, hfirst, hblk, hgroup,
    hcompat, hreserved, hdesc]
  rfl

/-- On the volume with `2 ^ 29` descriptors of 4096 bytes a block that is not free is listed. -/
theorem not_readsEveryImage :
    (readSuperblock false wideDevice).1 = 0 ∧ (readSuperblock false wideDevice).2.2 = true ∧
      ∃ disk, newDisk (constKernel 0) true (ext4Superblock wideDevice) = some (some disk) ∧
        Ext4Geometry true disk ∧ Ext4Memory (constKernel 0) disk ∧
        (∀ g < disk.numGrpDescs, bitmapBlock true disk wideDevice g < 2 ^ 29) ∧
        (freeBlocks true disk wideDevice).ncard ≤ disk.freeBlockCount ∧
        ¬ReadsFreeBlocks (constKernel 0) true disk wideDevice emptyFs := by
  have hgeo : Ext4Geometry true (plainDisk (2 ^ 29) 8 4096) :=
    ⟨rfl, rfl, by decide, .inr ⟨rfl, by decide, by decide⟩, by decide, by decide⟩
  refine ⟨by decide +kernel, by decide +kernel, _, newDisk_wideDevice, hgeo, ext4Memory_const,
    fun g _ => ?_, ?_, ?_⟩
  · rw [wideDevice, hgeo.bitmapBlock_blind]
    omega
  · rw [wideDevice, hgeo.freeBlocks_blind (le_refl _), Set.ncard_empty]
    omega
  · rw [wideDevice]
    exact hgeo.not_readsFreeBlocks (by decide) (by decide)

end Artifice
