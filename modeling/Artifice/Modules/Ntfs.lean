import Artifice.Io
import Artifice.Kernel
import Artifice.Allocation
import Artifice.Lib.Loop

/-!
The NTFS module (`modules/dm_afs_ntfs.c`): it reads the boot sector and the records of the twelve
metafiles, reads the file `$Bitmap` from its record, and lists the blocks of the clusters whose bit
is clear.

A call gives `none` when it does not return: it divides by zero, it shifts by as many bits as the
operand has or more, or it reads or writes outside of the pages of a `vmalloc` buffer, which is none
at all when it could not be allocated. The walk over the attributes of a record need not end; `fuel`
bounds the attributes that are looked at.
-/

namespace Artifice

open Lib

/-! ### The boot sector -/

/-- `struct ntfs_volume`, the fields that are used. -/
structure NtfsVolume where
  clusterCount : ℕ
  bytesPerCluster : ℕ
  mftCluster : ℕ
  mftRecordSize : ℕ
  afsBlocksPerCluster : ℕ
  mftRecordsPerCluster : ℕ
  numAfsBlocks : ℕ

/-- `is_ntfs_magic_value` of the name in a boot sector: `"NTFS    "`. -/
def isNtfsMagicValue (data : Mem) : Bool :=
  (List.range 8).map (fun i => data (3 + i)) = [0x4E, 0x54, 0x46, 0x53, 0x20, 0x20, 0x20, 0x20]

/-- `mft_record_size` of a boot sector. `clusters_per_record` is a `__u8`, so that it is not
negative, and the second case shifts by 0. -/
def mftRecordSize (data : Mem) : ℕ :=
  if 0 < le data 64 1 then le data 11 2 * le data 13 1 * le data 64 1 % 2 ^ 32 else 1

/-- `read_boot_sector`, or `some none` when it returns 1. The quotients are cut to the `uint8_t` that
they are kept in. -/
def readNtfsBootSector (data : Mem) : Option (Option NtfsVolume) :=
  let sectorsPerCluster := le data 13 1
  let bytesPerCluster := le data 11 2 * sectorsPerCluster
  let clusterCount := le data 40 8 / sectorsPerCluster
  let afsBlocksPerCluster := bytesPerCluster / 4096 % 2 ^ 8
  if ¬isNtfsMagicValue data ∨ le data 16 1 ≠ 0 ∨ le data 17 2 ≠ 0 ∨ le data 19 2 ≠ 0 ∨
      le data 22 2 ≠ 0 then some none
  else if sectorsPerCluster = 0 then none
  else if bytesPerCluster % 4096 ≠ 0 then some none
  else if mftRecordSize data = 0 then none
  else some <| some
    { clusterCount
      bytesPerCluster
      mftCluster := le data 48 8
      mftRecordSize := mftRecordSize data
      afsBlocksPerCluster
      mftRecordsPerCluster := bytesPerCluster / mftRecordSize data % 2 ^ 8
      numAfsBlocks := clusterCount * afsBlocksPerCluster % 2 ^ 32 }

/-! ### Clusters and records -/

/-- The loop of `read_ntfs_cluster`, into a buffer of `alloc` bytes. -/
def readClusterPages (device : Mem) (alloc blockNum : ℕ) (buffer : Mem) (p : ℕ) : ℕ → Option Mem
  | 0 => some buffer
  | i + 1 => do
    let buffer ← readClusterPages device alloc blockNum buffer p i
    if p + 4096 * i + 4096 ≤ alloc then
      some (readPage buffer (p + 4096 * i) device ((blockNum + 4096 * i) % 2 ^ 32) 0)
    else none

/-- `read_ntfs_cluster` into `buffer + p`. The block offset counts blocks, but is stepped by
`AFS_BLOCK_SIZE`. -/
def readNtfsCluster (vol : NtfsVolume) (device : Mem) (cluster alloc : ℕ) (buffer : Mem) (p : ℕ) :
    Option Mem :=
  readClusterPages device alloc (cluster * vol.afsBlocksPerCluster % 2 ^ 32) buffer p
    ((vol.afsBlocksPerCluster + 4095) / 4096)

/-- `read_mft_records` into `records + p`. Its status is not looked at. -/
def readMftRecords (vol : NtfsVolume) (device : Mem) (number alloc : ℕ) (records : Mem) (p : ℕ) :
    Option Mem :=
  if vol.mftRecordsPerCluster = 0 then none
  else if number % vol.mftRecordsPerCluster = 0 then
    readNtfsCluster vol device ((vol.mftCluster + number / vol.mftRecordsPerCluster) % 2 ^ 64) alloc
      records p
  else some records

/-- The loop of `ntfs_map` over the metafiles from `mftNumber` on. There are pointers for 12. -/
def readMetafiles (vol : NtfsVolume) (device : Mem) (alloc : ℕ) : ℕ → ℕ → Mem → Option Mem
  | 0, _, records => some records
  | rounds + 1, mftNumber, records =>
    if mftNumber < 12 then do
      let records ← readMftRecords vol device mftNumber alloc records
        (mftNumber * vol.mftRecordSize % 2 ^ 32)
      if mftNumber + vol.mftRecordsPerCluster ≤ 12 then
        readMetafiles vol device alloc rounds (mftNumber + vol.mftRecordsPerCluster) records
      else none
    else some records

/-- The place of `metafiles[n]` in the records. -/
def metafile (vol : NtfsVolume) (n : ℕ) : ℕ :=
  let mftNumber := n / vol.mftRecordsPerCluster * vol.mftRecordsPerCluster
  mftNumber * vol.mftRecordSize % 2 ^ 32 + (n - mftNumber) * vol.mftRecordSize % 2 ^ 32

/-- The records that `ntfs_map` reads, with the bytes that their pages have. -/
def ntfsRecords (k : Kernel) (vol : NtfsVolume) (device : Mem) : Option (Mem × ℕ) :=
  let size := 12 * vol.mftRecordSize % 2 ^ 32
  if k.vmalloc size then
    (readMetafiles vol device (pageRound size) 12 0 k.uninit).map fun m => (m, pageRound size)
  else none

/-! ### The attributes of a record -/

/-- A little-endian number in a buffer. -/
def readLe (buf : Mem × ℕ) (o n : ℕ) : Option ℕ :=
  if o + n ≤ buf.2 then some (le buf.1 o n) else none

/-- The state of `read_nonresident_data`: the buffer, `amt_written`, and the clusters read so far. -/
structure NtfsRead where
  buffer : Mem
  amtWritten : ℕ
  clusters : List ℕ

/-- The loop of `read_nonresident_data` over the clusters of a run, into `buffer + p`. It leaves the
function when there is enough. -/
def readRun (vol : NtfsVolume) (device : Mem) (alloc p amtToRead offset : ℕ) :
    ℕ → ℕ → NtfsRead → Option (Flow NtfsRead) :=
  forLoop fun i s => do
    let buffer ← readNtfsCluster vol device (offset + i) alloc s.buffer (p + s.amtWritten)
    let amtWritten := (s.amtWritten + vol.bytesPerCluster) % 2 ^ 64
    let s := ⟨buffer, amtWritten, s.clusters ++ [offset + i]⟩
    some (if amtToRead ≤ amtWritten then .ret 0 s else .next s)

/-- The loop of `read_nonresident_data` over the runs, from byte `i` of the run list on. Offset and
length are masked to the bytes they have. -/
def readRuns (vol : NtfsVolume) (device : Mem) (records : Mem × ℕ)
    (runlist alloc p amtToRead : ℕ) : ℕ → ℕ → NtfsRead → Option NtfsRead
  | 0, _, _ => none
  | rounds + 1, i, s => do
    let fieldSizes ← readLe records (runlist + i) 1
    if fieldSizes = 0 then some s
    else
      let offsetSizeBytes := fieldSizes / 16
      let lengthSizeBytes := fieldSizes % 16
      if 8 ≤ offsetSizeBytes ∨ 8 ≤ lengthSizeBytes then none
      else
        let length ← readLe records (runlist + i + 1) 8
        let offset ← readLe records (runlist + i + 1 + lengthSizeBytes) 8
        match ← readRun vol device alloc p amtToRead (offset % 2 ^ (8 * offsetSizeBytes))
          (length % 2 ^ (8 * lengthSizeBytes)) 0 s with
        | .next s | .brk s =>
          readRuns vol device records runlist alloc p amtToRead rounds
            (i + 1 + lengthSizeBytes + offsetSizeBytes) s
        | .ret _ s => some s

/-- `read_nonresident_data` into `buffer + p`. A run list ends inside of the records or is read past
them. -/
def readNonresidentData (vol : NtfsVolume) (device : Mem) (records : Mem × ℕ)
    (attr alloc p max : ℕ) (buffer : Mem) : Option NtfsRead := do
  let contentActualSize ← readLe records (attr + 48) 8
  let offsetToRunlist ← readLe records (attr + 32) 2
  let runlist := attr + offsetToRunlist
  let _ ← readLe records runlist 1
  let startVcnRunlist ← readLe records (attr + 16) 8
  if startVcnRunlist ≠ 0 then some ⟨buffer, 0, []⟩
  else
    readRuns vol device records runlist alloc p (min max contentActualSize) (records.2 + 1) 0
      ⟨buffer, 0, []⟩

/-- The state of `read_file`: the buffer, `buffer_offset`, the places of the attributes that have
been looked at, and the clusters read so far. -/
structure NtfsFile where
  buffer : Mem
  bufferOffset : ℕ
  attrs : List ℕ
  clusters : List ℕ

/-- A 64-bit word as a signed number. -/
def signed64 (n : ℕ) : ℤ := if n < 2 ^ 63 then n else n - 2 ^ 64

/-- The case of `read_file` for an attribute with data. Resident data are copied from behind the
first 14 bytes of the attribute. -/
def readData (vol : NtfsVolume) (device : Mem) (records : Mem × ℕ) (attr alloc maxBytes : ℕ)
    (s : NtfsFile) : Option (Flow NtfsFile) := do
  let nonresidentFlag ← readLe records (attr + 8) 1
  if nonresidentFlag = 0 then
    let length ← readLe records (attr + 4) 4
    let amount := min ((maxBytes : ℤ) - signed64 s.bufferOffset) length
    if amount < 0 then some (.brk s)
    else
      let amount := amount.toNat
      if amount = 0 ∨ (attr + 14 + amount ≤ records.2 ∧ s.bufferOffset + amount ≤ alloc) then
        some (.next { s with
          buffer := blit s.buffer s.bufferOffset records.1 (attr + 14) amount
          bufferOffset := (s.bufferOffset + amount) % 2 ^ 64 })
      else none
  else
    let r ← readNonresidentData vol device records attr alloc s.bufferOffset
      ((maxBytes + 2 ^ 64 - s.bufferOffset) % 2 ^ 64) s.buffer
    some (.next { s with
      buffer := r.buffer
      bufferOffset := (s.bufferOffset + r.amtWritten) % 2 ^ 64
      clusters := s.clusters ++ r.clusters })

/-- The loop of `read_file`. The offset of an attribute is compared as an unsigned number. -/
def readAttrs (vol : NtfsVolume) (device : Mem) (records : Mem × ℕ) (header alloc maxBytes : ℕ) :
    ℕ → ℕ → NtfsFile → Option NtfsFile
  | 0, _, _ => none
  | fuel + 1, recordOffset, s =>
    if recordOffset < vol.mftRecordSize then do
      let attr := header + recordOffset
      let typeId ← readLe records attr 4
      let s := { s with attrs := s.attrs ++ [recordOffset] }
      if typeId = 0xFFFFFFFF then some s
      else
        match ← (if typeId = 0x80 then readData vol device records attr alloc maxBytes s
          else some (.next s)) with
        | .brk s | .ret _ s => some s
        | .next s =>
          let length ← readLe records (attr + 4) 4
          if length = 0 then some s
          else
            readAttrs vol device records header alloc maxBytes fuel
              ((recordOffset + length) % 2 ^ 32) s
    else some s

/-- `read_file` of the record at `header`, into a buffer of `alloc` bytes. -/
def readFile (fuel : ℕ) (vol : NtfsVolume) (device : Mem) (records : Mem × ℕ)
    (header alloc maxBytes : ℕ) (buffer : Mem) : Option NtfsFile := do
  let offsetToFirstAttribute ← readLe records (header + 20) 2
  readAttrs vol device records header alloc maxBytes fuel offsetToFirstAttribute ⟨buffer, 0, [], []⟩

/-! ### The bitmap -/

/-- The bytes that the buffer for the bitmap has. -/
def bitmapAlloc (k : Kernel) (vol : NtfsVolume) : ℕ :=
  if k.vmalloc (vol.clusterCount / 8) then pageRound (vol.clusterCount / 8) else 0

/-- What `extract_bitmap` reads of `$Bitmap`. -/
def bitmapFile (fuel : ℕ) (k : Kernel) (vol : NtfsVolume) (device : Mem) (records : Mem × ℕ) :
    Option NtfsFile :=
  readFile fuel vol device records (metafile vol 6) (bitmapAlloc k vol) (vol.clusterCount / 8)
    k.uninit

/-- `hweight8`. -/
def hweight8 (b : UInt8) : ℕ := ((List.range 8).filter fun i => b.toNat.testBit i).length

/-- `total_unused_clusters` of the first `read` bytes. -/
def totalUnusedClusters (bitmap : Mem) : ℕ → ℕ
  | 0 => 0
  | i + 1 => (totalUnusedClusters bitmap i + (8 - hweight8 (bitmap i))) % 2 ^ 64

/-- The loop of `extract_bitmap` over the blocks of cluster `i * 8 + bpos`, and the entries of
`empty_blocks` so far. -/
def scanClusterBlocks (vol : NtfsVolume) (total alloc i bpos : ℕ) :
    ℕ → ℕ → List ℕ → Option (Flow (List ℕ)) :=
  forLoop fun blockNum emptyBlocks =>
    let block := ((i * 8 + bpos) * vol.afsBlocksPerCluster + blockNum) % 2 ^ 32
    if total * vol.afsBlocksPerCluster % 2 ^ 64 ≤ emptyBlocks.length then some (.ret 1 emptyBlocks)
    else if 4 * (emptyBlocks.length + 1) ≤ alloc then some (.next (emptyBlocks ++ [block]))
    else none

/-- The loop of `extract_bitmap` over the bits of byte `i`. -/
def scanBitmapByte (vol : NtfsVolume) (bitmap : Mem) (total alloc i : ℕ) :
    ℕ → ℕ → List ℕ → Option (Flow (List ℕ)) :=
  forLoop fun bpos emptyBlocks =>
    if (bitmap i).toNat.testBit bpos then some (.next emptyBlocks)
    else scanClusterBlocks vol total alloc i bpos vol.afsBlocksPerCluster 0 emptyBlocks

/-- The loop of `extract_bitmap` over the bytes. -/
def scanBitmap (vol : NtfsVolume) (bitmap : Mem) (total alloc : ℕ) :
    ℕ → ℕ → List ℕ → Option (Flow (List ℕ)) :=
  forLoop fun i emptyBlocks => scanBitmapByte vol bitmap total alloc i 8 0 emptyBlocks

/-- `extract_bitmap`: `empty_blocks` and the number of unused clusters, or `some none` when it
returns 1. -/
def extractBitmap (fuel : ℕ) (k : Kernel) (vol : NtfsVolume) (device : Mem) (records : Mem × ℕ) :
    Option (Option (List ℕ × ℕ)) := do
  let file ← bitmapFile fuel k vol device records
  let read := file.bufferOffset
  if read = 0 then some none
  else if bitmapAlloc k vol < read then none
  else
    let total := totalUnusedClusters file.buffer read
    let bytes := 4 * total * vol.afsBlocksPerCluster % 2 ^ 64
    if k.vmalloc bytes then
      match ← scanBitmap vol file.buffer total (pageRound bytes) read 0 [] with
      | .next l | .brk l => some (some (l, total))
      | .ret _ _ => some none
    else some none

/-- `ntfs_map`: `empty_blocks` and the number of unused clusters, or `some none` when it
returns 1. -/
def ntfsMap (fuel : ℕ) (k : Kernel) (vol : NtfsVolume) (device : Mem) :
    Option (Option (List ℕ × ℕ)) := do
  let records ← ntfsRecords k vol device
  let allocatedSizeOfRecord ← readLe records (metafile vol 0 + 28) 4
  if allocatedSizeOfRecord ≠ vol.mftRecordSize then some none
  else extractBitmap fuel k vol device records

/-- `afs_ntfs_detect`: whether the device holds NTFS, and the passive file system. The length of the
list is the number of unused clusters. Behind the entries its buffer is left as it was allocated. -/
def afsNtfsDetect (fuel : ℕ) (k : Kernel) (data device : Mem) (fs : AfsPassiveFs) :
    Option (Bool × AfsPassiveFs) := do
  match ← readNtfsBootSector data with
  | none => some (false, fs)
  | some vol =>
    match ← ntfsMap fuel k vol device with
    | none => some (false, fs)
    | some (l, total) =>
      let bytes := 4 * total * vol.afsBlocksPerCluster % 2 ^ 64
      let rest := (List.range (pageRound bytes / 4 - l.length)).map fun i =>
        le k.uninit (4 * (l.length + i)) 4
      some (true,
        { fs with
          totalBlocks := vol.numAfsBlocks
          sectorsPerBlock := 8
          blockList := l ++ rest
          listLen := total % 2 ^ 32
          dataStartOff := 0 })

/-! ### What is listed -/

/-- The clusters below `n` whose bit is clear. -/
def clearClusters (bitmap : Mem) (n : ℕ) : List ℕ :=
  (List.range n).filter fun c => !(bitmap (c / 8)).toNat.testBit (c % 8)

/-- The entries of a cluster. -/
def clusterBlocks (vol : NtfsVolume) (c : ℕ) : List ℕ :=
  (List.range vol.afsBlocksPerCluster).map fun b => (c * vol.afsBlocksPerCluster + b) % 2 ^ 32

section

variable {k : Kernel} {vol : NtfsVolume} {bitmap data device : Mem} {records : Mem × ℕ}
  {fuel total alloc i n bpos : ℕ} {l : List ℕ} {f : Flow (List ℕ)} {fs fs' : AfsPassiveFs}

theorem scanClusterBlocks_spec
    (h : scanClusterBlocks vol total alloc i bpos vol.afsBlocksPerCluster 0 l = some f) :
    f.Sat (· = l ++ clusterBlocks vol (i * 8 + bpos)) (fun _ => False) (fun _ _ => True) := by
  have hinv := forLoop_inv
    (I := fun b l' => l' = l ++ (List.range b).map fun b =>
      ((i * 8 + bpos) * vol.afsBlocksPerCluster + b) % 2 ^ 32)
    (B := fun _ => False) (R := fun _ _ => True)
    (fun b l' g _ _ hl hg => by
      dsimp only at hg
      split_ifs at hg
      · rw [← Option.some.inj hg]
        exact trivial
      · rw [← Option.some.inj hg]
        show _ = _
        rw [hl, List.range_succ, List.map_append, List.append_assoc]
        rfl)
    (List.append_nil l).symm h
  rw [Nat.zero_add] at hinv
  exact hinv.mono (fun l' hl => hl.resolve_right id) (fun _ => id) (fun _ _ => id)

theorem testBit_byte (hb : bpos < 8) :
    (bitmap ((i * 8 + bpos) / 8)).toNat.testBit ((i * 8 + bpos) % 8) =
      (bitmap i).toNat.testBit bpos := by
  have hdiv : (i * 8 + bpos) / 8 = i := by omega
  have hmod : (i * 8 + bpos) % 8 = bpos := by omega
  rw [hdiv, hmod]

theorem clearClusters_succ : clearClusters bitmap (n + 1) = clearClusters bitmap n ++
    if (bitmap (n / 8)).toNat.testBit (n % 8) then [] else [n] := by
  rw [clearClusters, List.range_succ, List.filter_append, clearClusters]
  by_cases h : (bitmap (n / 8)).toNat.testBit (n % 8) = true
  · rw [if_pos h]
    simp [h]
  · rw [if_neg h]
    simp [h]

theorem scanBitmapByte_spec (h : scanBitmapByte vol bitmap total alloc i 8 0
    ((clearClusters bitmap (i * 8)).flatMap (clusterBlocks vol)) = some f) :
    f.Sat (· = (clearClusters bitmap ((i + 1) * 8)).flatMap (clusterBlocks vol)) (fun _ => False)
      (fun _ _ => True) := by
  have hinv := forLoop_inv
    (I := fun b l => l = (clearClusters bitmap (i * 8 + b)).flatMap (clusterBlocks vol))
    (B := fun _ => False) (R := fun _ _ => True)
    (fun b l g _ hb hl hg => by
      have hsucc : (clearClusters bitmap (i * 8 + (b + 1))).flatMap (clusterBlocks vol) =
          l ++ if (bitmap i).toNat.testBit b then [] else clusterBlocks vol (i * 8 + b) := by
        rw [← Nat.add_assoc, clearClusters_succ, testBit_byte (by omega), List.flatMap_append, hl]
        split_ifs <;> simp
      rw [hsucc]
      split_ifs at hg with hbit
      · rw [← Option.some.inj hg, if_pos hbit, List.append_nil]
        rfl
      · rw [if_neg hbit]
        exact scanClusterBlocks_spec hg)
    rfl h
  exact hinv.mono (fun l hl => by rw [hl.resolve_right id, Nat.succ_mul]) (fun _ => id)
    (fun _ _ => id)

theorem scanBitmap_spec (h : scanBitmap vol bitmap total alloc n 0 [] = some f) :
    f.Sat (· = (clearClusters bitmap (n * 8)).flatMap (clusterBlocks vol)) (fun _ => False)
      (fun _ _ => True) := by
  have hinv := forLoop_inv
    (I := fun i l => l = (clearClusters bitmap (i * 8)).flatMap (clusterBlocks vol))
    (B := fun _ => False) (R := fun _ _ => True)
    (fun i l g _ _ hl hg => scanBitmapByte_spec (by rw [← hl]; exact hg))
    rfl h
  rw [Nat.zero_add] at hinv
  exact hinv.mono (fun l hl => hl.resolve_right id) (fun _ => id) (fun _ _ => id)

theorem hweight8_add (b : UInt8) :
    hweight8 b + ((List.range 8).filter fun q => !b.toNat.testBit q).length = 8 :=
  (List.length_eq_length_filter_add _).symm.trans List.length_range

theorem clearClusters_length_succ : (clearClusters bitmap ((i + 1) * 8)).length =
    (clearClusters bitmap (i * 8)).length + (8 - hweight8 (bitmap i)) := by
  have hbits : (List.range 8).filter ((fun c => !(bitmap (c / 8)).toNat.testBit (c % 8)) ∘
      (i * 8 + ·)) = (List.range 8).filter fun q => !(bitmap i).toNat.testBit q :=
    List.filter_congr fun q hq => by
      rw [Function.comp, testBit_byte (List.mem_range.1 hq)]
  have hcount := hweight8_add (bitmap i)
  rw [clearClusters, Nat.succ_mul, List.range_add, List.filter_append, List.length_append,
    List.filter_map, List.length_map, hbits, clearClusters]
  omega

theorem totalUnusedClusters_eq :
    totalUnusedClusters bitmap n = (clearClusters bitmap (n * 8)).length % 2 ^ 64 := by
  induction n with
  | zero => rfl
  | succ n ih =>
    rw [totalUnusedClusters, ih, clearClusters_length_succ, Nat.mod_add_mod]

theorem clusterBlocks_length (c : ℕ) :
    (clusterBlocks vol c).length = vol.afsBlocksPerCluster := by
  rw [clusterBlocks, List.length_map, List.length_range]

theorem flatMap_clusterBlocks_length :
    (l.flatMap (clusterBlocks vol)).length = l.length * vol.afsBlocksPerCluster := by
  rw [List.length_flatMap]
  simp only [clusterBlocks_length, List.map_const', List.sum_replicate, smul_eq_mul]

/-- **What `extract_bitmap` lists**. -/
theorem extractBitmap_spec (h : extractBitmap fuel k vol device records = some (some (l, total))) :
    ∃ file, bitmapFile fuel k vol device records = some file ∧
      total = (clearClusters file.buffer (file.bufferOffset * 8)).length % 2 ^ 64 ∧
      l = (clearClusters file.buffer (file.bufferOffset * 8)).flatMap (clusterBlocks vol) ∧
      0 < vol.afsBlocksPerCluster := by
  simp only [extractBitmap, Option.bind_eq_bind, Option.bind_eq_some_iff] at h
  obtain ⟨file, hfile, h⟩ := h
  refine ⟨file, hfile, ?_⟩
  split_ifs at h with hread halloc hv
  · exact absurd (Option.some.inj h) (by simp)
  · obtain ⟨f, hf, h⟩ := Option.bind_eq_some_iff.1 h
    have hspec := scanBitmap_spec hf
    cases f with
    | next l' =>
      simp only [Option.some.injEq, Prod.mk.injEq] at h
      obtain ⟨rfl, rfl⟩ := h
      refine ⟨totalUnusedClusters_eq, hspec, Nat.pos_of_ne_zero fun h0 => ?_⟩
      -- a list without entries cannot be allocated
      rw [h0, Nat.mul_zero, Nat.zero_mod, k.vmalloc_zero] at hv
      exact Bool.false_ne_true hv
    | brk l' => exact hspec.elim
    | ret c l' => simp at h
  · simp at h

/-- **What `afs_ntfs_detect` lists**: the first entries of the clusters whose bit is clear in the
bytes of `$Bitmap` that were read, as many as there are such clusters. -/
theorem afsNtfsDetect_spec (h : afsNtfsDetect fuel k data device fs = some (true, fs')) :
    ∃ vol records file, readNtfsBootSector data = some (some vol) ∧
      ntfsRecords k vol device = some records ∧
      bitmapFile fuel k vol device records = some file ∧
      0 < vol.afsBlocksPerCluster ∧
      fs'.listLen = (clearClusters file.buffer (file.bufferOffset * 8)).length % 2 ^ 32 ∧
      fs'.freeList = ((clearClusters file.buffer (file.bufferOffset * 8)).flatMap
        (clusterBlocks vol)).take fs'.listLen := by
  simp only [afsNtfsDetect, Option.bind_eq_bind, Option.bind_eq_some_iff] at h
  obtain ⟨vol, hboot, h⟩ := h
  cases vol with
  | none => simp at h
  | some vol =>
    obtain ⟨r, hmap, h⟩ := Option.bind_eq_some_iff.1 h
    cases r with
    | none => simp at h
    | some r =>
      obtain ⟨l, total⟩ := r
      simp only [Option.some.injEq, Prod.mk.injEq, true_and] at h
      subst h
      simp only [ntfsMap, Option.bind_eq_bind, Option.bind_eq_some_iff] at hmap
      obtain ⟨records, hrecords, size, -, hmap⟩ := hmap
      split_ifs at hmap
      · exact absurd (Option.some.inj hmap) (by simp)
      · obtain ⟨file, hfile, htotal, hl, hpos⟩ := extractBitmap_spec hmap
        have hlen : total % 2 ^ 32 =
            (clearClusters file.buffer (file.bufferOffset * 8)).length % 2 ^ 32 := by
          rw [htotal, Nat.mod_mod_of_dvd _ (by decide)]
        refine ⟨vol, records, file, hboot, hrecords, hfile, hpos, hlen, ?_⟩
        -- there are at least as many entries as clusters
        have hle : total % 2 ^ 32 ≤ l.length := by
          rw [hl, flatMap_clusterBlocks_length, hlen]
          exact (Nat.mod_le _ _).trans (Nat.le_mul_of_pos_right _ hpos)
        show (l ++ _).take (total % 2 ^ 32) = _
        rw [List.take_append_of_le_length hle, hl]

end

end Artifice
