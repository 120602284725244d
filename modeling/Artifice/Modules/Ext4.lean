import Artifice.Io
import Artifice.Kernel
import Artifice.Allocation
import Artifice.Lib.Loop

/-!
The ext4 module (`modules/dm_afs_ext4.c`): it reads the super block, the group descriptors and the
block bitmap of every group, and lists the blocks whose bit is clear.

A call gives `none` when it does not return: it divides by zero, it shifts by more than an `int`
has, or it reads or writes outside of the pages of a `vmalloc` buffer. `is_64bit` is a global of
the module; it is passed in and out.
-/

namespace Artifice

open Lib

/-! ### The super block and the group descriptors -/

/-- `struct ext4_superblock`, the fields that are used. -/
structure Ext4Superblock where
  blocksCountLo : ℕ
  freeBlocksCountLo : ℕ
  firstDataBlock : ℕ
  logBlkSz : ℕ
  blocksPerGroup : ℕ
  magic : ℕ
  featureIncompat : ℕ
  featureRoCompat : ℕ
  reservedGdtBlocks : ℕ
  descSize : ℕ

/-- The super block in the first page of a device, 1024 bytes into it. -/
def ext4Superblock (data : Mem) : Ext4Superblock where
  blocksCountLo := le data (1024 + 4) 4
  freeBlocksCountLo := le data (1024 + 12) 4
  firstDataBlock := le data (1024 + 20) 4
  logBlkSz := le data (1024 + 24) 4
  blocksPerGroup := le data (1024 + 32) 4
  magic := le data (1024 + 56) 2
  featureIncompat := le data (1024 + 96) 4
  featureRoCompat := le data (1024 + 100) 4
  reservedGdtBlocks := le data (1024 + 206) 2
  descSize := le data (1024 + 254) 2

/-- `read_superblock`: the status, the super block and `is_64bit` after it, which is never
cleared. -/
def readSuperblock (is64bit : Bool) (data : Mem) : ℤ × Ext4Superblock × Bool :=
  let sb := ext4Superblock data
  if sb.magic ≠ 0xEF53 then (1, sb, is64bit)
  else (0, sb, is64bit || sb.featureIncompat.testBit 7)

/-- `struct ext4_disk`, the fields that are used. -/
structure Ext4Disk where
  firstDataBlock : ℕ
  freeBlockCount : ℕ
  reservedGdtBlocks : ℕ
  blkSz : ℕ
  numGrpDescs : ℕ
  grpDescSz : ℕ
  blksPerGrp : ℕ
  isSparseSuper : Bool

/-- The number of group descriptors in `new_disk`: rounded to the next one by the remainder of
the free blocks. -/
def numGrpDescs (sb : Ext4Superblock) : ℕ :=
  if sb.freeBlocksCountLo % sb.blocksPerGroup = 0 then sb.blocksCountLo / sb.blocksPerGroup
  else sb.blocksCountLo / sb.blocksPerGroup + 1

/-- The size of a group descriptor in `new_disk` and `new_group_desc`. -/
def grpDescSz (is64bit : Bool) (sb : Ext4Superblock) : ℕ := if is64bit then sb.descSize else 32

/-- `new_group_desc_arr`: whether it returns an array, whose descriptors are not set. An array of
no descriptors is `NULL`; any other one that cannot be allocated is used all the same. -/
def newGroupDescArr (k : Kernel) (is64bit : Bool) (sb : Ext4Superblock) (n : ℕ) : Option Bool :=
  if n = 0 then some false
  else if k.vmalloc (n * 64) && k.kmalloc (grpDescSz is64bit sb) then some true
  else none

/-- `new_disk`, or `some none` when it returns `NULL`. -/
def newDisk (k : Kernel) (is64bit : Bool) (sb : Ext4Superblock) : Option (Option Ext4Disk) :=
  let shift := (10 + sb.logBlkSz) % 2 ^ 32
  if k.vmalloc 72 = false ∨ 31 ≤ shift ∨ sb.blocksPerGroup = 0 then none
  else (newGroupDescArr k is64bit sb (numGrpDescs sb)).map fun ok =>
    if ok then some
      { firstDataBlock := sb.firstDataBlock
        freeBlockCount := sb.freeBlocksCountLo
        reservedGdtBlocks := sb.reservedGdtBlocks
        blkSz := 2 ^ shift
        numGrpDescs := numGrpDescs sb
        grpDescSz := grpDescSz is64bit sb
        blksPerGrp := sb.blocksPerGroup
        isSparseSuper := sb.featureRoCompat.testBit 0 }
    else none

/-- The descriptors in one page of the table, from descriptor `first` on. -/
def readGroupDescPage (k : Kernel) (disk : Ext4Disk) (page : Mem) (first : ℕ)
    (gdArr : ℕ → Mem) : ℕ → Option (ℕ → Mem)
  | 0 => some gdArr
  | j + 1 => do
    let gdArr ← readGroupDescPage k disk page first gdArr j
    if disk.grpDescSz * j + disk.grpDescSz ≤ 4096 then
      some (Function.update gdArr (first + j)
        (blit k.uninit 0 page (disk.grpDescSz * j) disk.grpDescSz))
    else none

/-- The loop of `read_group_descs` over the full blocks of the table. -/
def readGroupDescBlocks (k : Kernel) (disk : Ext4Disk) (device : Mem) (numGdsPerBlk : ℕ)
    (gdArr : ℕ → Mem) : ℕ → Option (ℕ → Mem)
  | 0 => some gdArr
  | i + 1 => do
    let gdArr ← readGroupDescBlocks k disk device numGdsPerBlk gdArr i
    readGroupDescPage k disk (readPage (fun _ => 0) 0 device 0 (8 + 8 * i)) (i * numGdsPerBlk)
      gdArr numGdsPerBlk

/-- `read_group_descs`: the array of group descriptors. -/
def readGroupDescs (k : Kernel) (disk : Ext4Disk) (device : Mem) : Option (ℕ → Mem) :=
  if k.vmalloc 4096 = false ∨ disk.grpDescSz = 0 ∨ k.kmalloc disk.grpDescSz = false then none
  else do
    let numGdsPerBlk := disk.blkSz / disk.grpDescSz
    let gdBlks := disk.numGrpDescs * disk.grpDescSz / disk.blkSz
    let remGds := disk.numGrpDescs * disk.grpDescSz % disk.blkSz / disk.grpDescSz
    let gdArr ← readGroupDescBlocks k disk device numGdsPerBlk (fun _ => k.uninit) gdBlks
    readGroupDescPage k disk (readPage (fun _ => 0) 0 device 0 (8 + 8 * gdBlks))
      (gdBlks * numGdsPerBlk) gdArr remGds

/-! ### The bitmaps -/

/-- The loop of `is_pow_n`. -/
def powLoop (n : ℕ) : ℕ → ℕ → ℕ
  | 0, num => num
  | rounds + 1, num => if num % n = 0 then powLoop n rounds (num / n) else num

/-- `is_pow_n`; a number has fewer than itself factors. -/
def isPowN (num n : ℕ) : Bool := num ≠ 0 && powLoop n num num = 1

/-- `bit_vector_set` of the indices `o` to `o + n` that `p` picks. -/
def setWhere (p : ℕ → Bool) (o : ℕ) (bvec : BitVector) : ℕ → BitVector
  | 0 => bvec
  | n + 1 =>
    let bvec := setWhere p o bvec n
    if p (o + n) then (bitVectorSet bvec (o + n)).2 else bvec

/-- The block of a group's bitmap, `block_bmap`. -/
def blockBmap (is64bit : Bool) (gd : Mem) : ℕ :=
  if is64bit then le gd 32 4 * 2 ^ 32 + le gd 0 4 else le gd 0 4

/-- The page of a group's bitmap. -/
def bitmapPage (is64bit : Bool) (device gd : Mem) : Mem :=
  readPage (fun _ => 0) 0 device 0 (blockBmap is64bit gd * 8 % 2 ^ 64)

/-- Bit `i` of a bitmap. -/
def bitmapBit (buf : Mem) (i : ℕ) : Bool := (buf (i / 8)).toNat.testBit (i % 8)

/-- The blocks of a group that `read_bitmap` takes as used whatever the bitmap says: the backup of
the super block, of the group descriptors, and the blocks reserved for more of these. -/
def setBackups (disk : Ext4Disk) (grpNum : ℕ) (bvec : BitVector) : BitVector :=
  if disk.isSparseSuper && (grpNum = 0 || isPowN grpNum 3 || isPowN grpNum 5 || isPowN grpNum 7)
  then
    let gdBlks := disk.numGrpDescs * disk.grpDescSz / disk.blkSz
    let remGds := disk.numGrpDescs * disk.grpDescSz % disk.blkSz / disk.grpDescSz
    let gdBlks := if remGds ≠ 0 then gdBlks + 1 else gdBlks
    let bvec := (bitVectorSet bvec 0).2
    let bvec := setWhere (fun _ => true) 1 bvec gdBlks
    setWhere (fun _ => true) (1 + gdBlks) bvec disk.reservedGdtBlocks
  else bvec

/-- `read_bitmap`. -/
def readBitmap (k : Kernel) (is64bit : Bool) (disk : Ext4Disk) (device gd : Mem) (grpNum : ℕ)
    (bvec : BitVector) : Option BitVector :=
  if k.vmalloc 4096 = false ∨ 8 * 4096 < disk.blksPerGrp then none
  else some (setBackups disk grpNum
    (setWhere (bitmapBit (bitmapPage is64bit device gd)) 0 bvec disk.blksPerGrp))

/-- The state of `read_bitmaps`: the bit vector, the entries of `block_list` so far, and the groups
whose bitmap has been read. -/
structure Ext4Scan where
  bvec : BitVector
  blockList : List ℕ
  groups : List ℕ

/-- The loop of `read_bitmaps` over the bits of group `i`. `alloc` is the size of the pages of
`block_list`. -/
def scanGroup (disk : Ext4Disk) (alloc i : ℕ) :
    ℕ → ℕ → Ext4Scan → Option (Flow Ext4Scan) :=
  forLoop fun j s =>
    let next := { s with bvec := (bitVectorClear s.bvec j).2 }
    let offset := disk.blksPerGrp * i % 2 ^ 32 + (j + disk.firstDataBlock) % 2 ^ 32
    if bitVectorGet s.bvec j = 0 ∧ offset ≤ 0xFFFFFFFF then
      if 4 * (s.blockList.length + 1) ≤ alloc then
        some (.next { next with blockList := s.blockList ++ [offset] })
      else none
    else some (.next next)

/-- The loop of `read_bitmaps` over the groups. -/
def scanGroups (k : Kernel) (is64bit : Bool) (disk : Ext4Disk) (gdArr : ℕ → Mem) (device : Mem)
    (alloc : ℕ) : ℕ → ℕ → Ext4Scan → Option (Flow Ext4Scan) :=
  forLoop fun i s => do
    let bvec ← readBitmap k is64bit disk device (gdArr i) i s.bvec
    scanGroup disk alloc i bvec.length 0 { s with bvec, groups := s.groups ++ [i] }

/-- `read_bitmaps`: the status, the passive file system and the groups that were read. The buffer
behind the listed blocks is left as it was allocated. The loop counts the groups in a `uint32_t`, so
that it does not end with `2 ^ 32` of them. -/
def readBitmaps (k : Kernel) (is64bit : Bool) (disk : Ext4Disk) (gdArr : ℕ → Mem) (device : Mem)
    (fs : AfsPassiveFs) : Option (ℤ × AfsPassiveFs × List ℕ) :=
  let bytes := disk.freeBlockCount * 4
  if k.vmalloc (disk.blksPerGrp / 8 + 1) = false ∨ k.vmalloc bytes = false then some (1, fs, [])
  else if 2 ^ 32 ≤ disk.numGrpDescs then none
  else do
    match ← scanGroups k is64bit disk gdArr device (pageRound bytes) disk.numGrpDescs 0
      ⟨⟨fun _ => false, disk.blksPerGrp⟩, [], []⟩ with
    | .ret code s => some (code, fs, s.groups)
    | .next s | .brk s =>
      let listLen := s.blockList.length % 2 ^ 32
      let rest := (List.range (pageRound bytes / 4 - s.blockList.length)).map fun i =>
        le k.uninit (4 * (s.blockList.length + i)) 4
      if k.vmalloc (listLen * 4) then
        some (0, { fs with blockList := s.blockList ++ rest, listLen }, s.groups)
      else some (1, { fs with blockList := [], listLen }, s.groups)

/-- `afs_ext4_detect`: whether the device holds ext4, the passive file system, and `is_64bit`. A
failure after the super block leaves the answer as it is. -/
def afsExt4Detect (k : Kernel) (is64bit : Bool) (data device : Mem) (fs : AfsPassiveFs) :
    Option (Bool × AfsPassiveFs × Bool) := do
  if k.kmalloc 1024 = false then some (false, fs, is64bit)
  else
    let (status, sb, is64bit) := readSuperblock is64bit data
    if status ≠ 0 then some (false, fs, is64bit)
    else
      match ← newDisk k is64bit sb with
      | none => some (true, fs, is64bit)
      | some disk =>
        let gdArr ← readGroupDescs k disk device
        let (_, fs, _) ← readBitmaps k is64bit disk gdArr device fs
        some (true, fs, is64bit)

/-! ### Lengths and fields -/

section

variable {k : Kernel} {is64bit : Bool} {sb : Ext4Superblock} {disk : Ext4Disk} {bvec : BitVector}
  {p : ℕ → Bool} {o n : ℕ}

theorem setWhere_length : (setWhere p o bvec n).length = bvec.length := by
  induction n with
  | zero => rfl
  | succ n ih =>
    rw [setWhere]
    split_ifs
    · unfold bitVectorSet
      split_ifs <;> exact ih
    · exact ih

theorem setBackups_length {grpNum : ℕ} :
    (setBackups disk grpNum bvec).length = bvec.length := by
  unfold setBackups
  split_ifs
  · simp only [setWhere_length]
    unfold bitVectorSet
    split_ifs <;> rfl
  · rfl

theorem newDisk_spec (h : newDisk k is64bit sb = some (some disk)) :
    disk.numGrpDescs = numGrpDescs sb ∧ disk.blksPerGrp = sb.blocksPerGroup ∧
      disk.firstDataBlock = sb.firstDataBlock := by
  unfold newDisk at h
  simp only at h
  split_ifs at h
  obtain ⟨ok, -, hok⟩ := Option.map_eq_some_iff.1 h
  split_ifs at hok
  rw [← Option.some.inj hok]
  exact ⟨rfl, rfl, rfl⟩

end

end Artifice
