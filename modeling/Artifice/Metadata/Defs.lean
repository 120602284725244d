import Artifice.Io
import Artifice.Kernel
import Artifice.Allocation
import Artifice.Lib.Loop

/-!
The metadata code of an instance (`dm_afs_metadata.c`): the map and its map blocks, the chain of
pointer blocks, and the super block.

A super block and a pointer block are pages, read and written at the offsets that their packed
structures give: the super block holds its hash at 0, the instance size at 52, the entropy
directory at 64, map block pointer `i` at `192 + 4 i` and the first pointer block at 4092; a
pointer block holds a hash at 0, map block pointer `j` at `16 + 4 j` and the next pointer block
at 4092.

A call gives `none` when it does not return: it divides by zero, it writes past the pages of a
`vmalloc` buffer, it reads `block_list` outside of its buffer, it needs more random numbers than
there are, or its rehash loop runs out of the rounds it is given. An error code is the negative
number that the source returns, with the context as the call left it.
-/

namespace Artifice

open Lib

/-- `struct afs_private`, as far as the metadata and the engine use it. `disk` is what `bdev`
holds, `random` what `get_random_bytes` will return. -/
structure AfsPrivate where
  config : AfsConfig
  passphrase : Mem
  passphraseHash : Mem
  encodingType : EncodingType
  entropyDir : Mem
  passiveFs : AfsPassiveFs
  vector : BitVector
  superBlock : Mem
  afsMap : Mem
  afsMapBlocks : Mem
  afsPtrBlocks : Mem
  disk : Mem
  random : List ℕ

/-- The `n` bytes of `m` at `o`, as the string that is hashed. -/
def bytes (m : Mem) (o n : ℕ) : List UInt8 := (List.range n).map fun i => m (o + i)

/-- `acquire_block` on the context. -/
def acquire (ctx : AfsPrivate) : Option (ℕ × AfsPrivate) :=
  (acquireBlock ctx.passiveFs ctx.vector ctx.random).map fun r =>
    (r.1, { ctx with vector := r.2.1, random := r.2.2 })

/-- `allocation_set` on the context. -/
def mark (ctx : AfsPrivate) (index : ℕ) : AfsPrivate :=
  { ctx with vector := (allocationSet ctx.vector index).2 }

/-! ### The map -/

/-- The tuples of a fresh map entry, the first `j` of them. -/
def createMapTuples (m : Mem) (entry : ℕ) : ℕ → Mem
  | 0 => m
  | j + 1 => putLe (putLe (createMapTuples m entry j) (entry + 6 * j) 4 afsInvalidBlock)
      (entry + 6 * j + 4) 2 0

/-- A fresh map entry: invalid tuples, then the carrier hash and the entropy hash cleared. -/
def createMapEntry (config : AfsConfig) (m : Mem) (entry : ℕ) : Mem :=
  fill (createMapTuples m entry config.numCarrierBlocks) (entry + 6 * config.numCarrierBlocks)
    40 0

/-- The loop of `afs_create_map` over a buffer whose pages hold `alloc` bytes. -/
def createMapLoop (config : AfsConfig) (alloc : ℕ) (m : Mem) : ℕ → Option Mem
  | 0 => some m
  | i + 1 => do
    let m ← createMapLoop config alloc m i
    let entry := i * config.mapEntrySz % 2 ^ 32
    if entry + config.mapEntrySz ≤ alloc then some (createMapEntry config m entry) else none

/-- `afs_create_map`. -/
def afsCreateMap (k : Kernel) (ctx : AfsPrivate) : Option (ℤ × AfsPrivate) :=
  let size := ctx.config.numBlocks * ctx.config.mapEntrySz % 2 ^ 32
  if k.vmalloc size then do
    let m ← createMapLoop ctx.config (pageRound size) k.uninit ctx.config.numBlocks
    some (0, { ctx with afsMap := m })
  else some (-12, ctx)

/-- Map block `i` of `afs_create_map_blocks`: the next entries of the map behind the unused space,
and the hash in front of them. The second component counts the entries written. -/
def createMapBlock (k : Kernel) (config : AfsConfig) (afsMap : Mem) (i : ℕ) (s : Mem × ℕ) :
    Mem × ℕ :=
  let entriesStart := 4096 * i + 64 + config.unusedSpacePerBlock
  let entriesLeft := (config.numBlocks + 2 ^ 32 - s.2) % 2 ^ 32
  let n := if entriesLeft ≤ config.numMapEntriesPerBlock then entriesLeft
    else config.numMapEntriesPerBlock
  let m := blit s.1 entriesStart afsMap (s.2 * config.mapEntrySz % 2 ^ 32) (n * config.mapEntrySz)
  let hash := k.sha512 (bytes m entriesStart (4096 - 64 - config.unusedSpacePerBlock))
  (blit m (4096 * i) hash 0 64, (s.2 + n) % 2 ^ 32)

/-- The loop of `afs_create_map_blocks`. -/
def createMapBlocksLoop (k : Kernel) (config : AfsConfig) (afsMap : Mem) (alloc : ℕ)
    (s : Mem × ℕ) : ℕ → Option (Mem × ℕ)
  | 0 => some s
  | i + 1 => do
    let s ← createMapBlocksLoop k config afsMap alloc s i
    if 4096 * (i + 1) ≤ alloc then some (createMapBlock k config afsMap i s) else none

/-- `afs_create_map_blocks`. -/
def afsCreateMapBlocks (k : Kernel) (ctx : AfsPrivate) : Option (ℤ × AfsPrivate) :=
  let size := 4096 * ctx.config.numMapBlocks % 2 ^ 32
  if k.vmalloc size then do
    let (m, entriesWritten) ← createMapBlocksLoop k ctx.config ctx.afsMap size
      (fill k.uninit 0 size 0, 0) ctx.config.numMapBlocks
    if entriesWritten = ctx.config.numBlocks then some (0, { ctx with afsMapBlocks := m })
    else some (-5, ctx)
  else some (-12, ctx)

/-! ### Map blocks and pointer blocks on the device -/

/-- Where a map block pointer is kept: in the super block, or in a pointer block. -/
inductive Slot
  | sb (i : ℕ)
  | pb (i j : ℕ)

/-- The map block pointer in a slot. -/
def slotGet (ctx : AfsPrivate) : Slot → ℕ
  | .sb i => le ctx.superBlock (192 + 4 * i) 4
  | .pb i j => le ctx.afsPtrBlocks (4096 * i + 16 + 4 * j) 4

/-- The store of a map block pointer in a slot. -/
def slotSet (ctx : AfsPrivate) (blockNum : ℕ) : Slot → AfsPrivate
  | .sb i => { ctx with superBlock := putLe ctx.superBlock (192 + 4 * i) 4 blockNum }
  | .pb i j =>
    { ctx with afsPtrBlocks := putLe ctx.afsPtrBlocks (4096 * i + 16 + 4 * j) 4 blockNum }

/-- The body that both loops of `write_map_blocks` share: the block for the slot is acquired, or
on an update read back from it, and the next map block is written there. -/
def writeMapBlock (update : Bool) (slot : Slot) (s : AfsPrivate × ℕ) :
    Option (Flow (AfsPrivate × ℕ)) :=
  let write (ctx : AfsPrivate) (blockNum : ℕ) : Flow (AfsPrivate × ℕ) :=
    let disk := writePage ctx.afsMapBlocks (s.2 * 4096 % 2 ^ 32) ctx.disk blockNum
      ctx.passiveFs.dataStartOff
    .next ({ ctx with disk }, (s.2 + 1) % 2 ^ 32)
  if update then some (write s.1 (slotGet s.1 slot))
  else do
    let (blockNum, ctx) ← acquire s.1
    if blockNum = afsInvalidBlock then some (.ret (-28) (ctx, s.2))
    else some (write (slotSet ctx blockNum slot) blockNum)

/-- The loop of `write_map_blocks` over the slots of the super block. -/
def writeMapBlocksSb (update : Bool) : ℕ → ℕ → AfsPrivate × ℕ → Option (Flow (AfsPrivate × ℕ)) :=
  forLoop fun i s =>
    if (s.1.config.numMapBlocks + 2 ^ 32 - s.2) % 2 ^ 32 = 0 then some (.ret 0 s)
    else writeMapBlock update (.sb i) s

/-- The loop of `write_map_blocks` over the slots of pointer block `i`. -/
def writeMapBlocksPb (update : Bool) (i : ℕ) :
    ℕ → ℕ → AfsPrivate × ℕ → Option (Flow (AfsPrivate × ℕ)) :=
  forLoop fun j s =>
    if (s.1.config.numMapBlocks + 2 ^ 32 - s.2) % 2 ^ 32 = 0 then some (.brk s)
    else writeMapBlock update (.pb i j) s

/-- `write_map_blocks`. -/
def writeMapBlocks (ctx : AfsPrivate) (update : Bool) : Option (ℤ × AfsPrivate) := do
  match ← writeMapBlocksSb update 975 0 (ctx, 0) with
  | .ret code s => some (code, s.1)
  | .next s | .brk s =>
    match ← forLoop (fun i => writeMapBlocksPb update i 1019 0) ctx.config.numPtrBlocks 0 s with
    | .ret code s => some (code, s.1)
    | .next s | .brk s => some (0, s.1)

/-- Pointer block `i` before it is written: the chain is closed at the last one, and the hash of
the rest of the block is put in front. -/
def sealPtrBlock (k : Kernel) (config : AfsConfig) (i : ℕ) (pb : Mem) : Mem :=
  let pb := if i + 1 = config.numPtrBlocks then putLe pb (4096 * i + 4092) 4 afsInvalidBlock
    else pb
  blit pb (4096 * i) (k.sha1 (bytes pb (4096 * i + 16) (4096 - 16))) 0 16

/-- Pointer block `i` in the loop of `write_ptr_blocks`: write it to a fresh block, and link the
one before, or the super block, to it. -/
def writePtrBlock (k : Kernel) (i : ℕ) (ctx : AfsPrivate) : Option (Flow AfsPrivate) := do
  let pb := sealPtrBlock k ctx.config i ctx.afsPtrBlocks
  let (blockNum, ctx) ← acquire { ctx with afsPtrBlocks := pb }
  if blockNum = afsInvalidBlock then some (.ret (-28) ctx)
  else
    let disk := writePage pb (4096 * i) ctx.disk blockNum ctx.passiveFs.dataStartOff
    if i = 0 then some (.next
      { ctx with disk, superBlock := putLe ctx.superBlock 4092 4 blockNum })
    else some (.next
      { ctx with disk, afsPtrBlocks := putLe pb (4096 * (i - 1) + 4092) 4 blockNum })

/-- `write_ptr_blocks`; its loop runs from the last pointer block to the first. -/
def writePtrBlocks (k : Kernel) (ctx : AfsPrivate) : Option (ℤ × AfsPrivate) := do
  let (ret, ctx) ← writeMapBlocks ctx false
  if ret ≠ 0 then some (ret, ctx)
  else
    let n := ctx.config.numPtrBlocks
    match ← forLoop (fun i => writePtrBlock k (n - 1 - i)) n 0 ctx with
    | .ret code ctx => some (code, ctx)
    | .next ctx | .brk ctx => some (0, ctx)

/-! ### Reading the map back -/

/-- The body that both loops of `afs_fill_map` share: read the map block, mark it, and copy its
entries behind those already read, inside the pages of the map. The flow is `brk` once no entries
are left. -/
def fillMapBlock (k : Kernel) (blockNum : ℕ) (s : AfsPrivate × ℕ) :
    Option (Flow (AfsPrivate × ℕ)) :=
  let ctx := mark s.1 blockNum
  let config := ctx.config
  let mapBlock := readPage k.uninit 0 ctx.disk blockNum ctx.passiveFs.dataStartOff
  let entriesLeft := (config.numBlocks + 2 ^ 32 - s.2) % 2 ^ 32
  let start := s.2 * config.mapEntrySz % 2 ^ 32
  let copy (n : ℕ) : Option (AfsPrivate × ℕ) :=
    let afsMap := blit ctx.afsMap start mapBlock (64 + config.unusedSpacePerBlock)
      (n * config.mapEntrySz)
    if start + n * config.mapEntrySz ≤ pageRound (config.numBlocks * config.mapEntrySz % 2 ^ 32)
    then some ({ ctx with afsMap }, (s.2 + n) % 2 ^ 32) else none
  if entriesLeft ≤ config.numMapEntriesPerBlock then (copy entriesLeft).map .brk
  else (copy config.numMapEntriesPerBlock).map .next

/-- The loop of `afs_fill_map` over the slots of the super block `sb`. -/
def fillMapSb (k : Kernel) (sb : Mem) : ℕ → ℕ → AfsPrivate × ℕ → Option (Flow (AfsPrivate × ℕ)) :=
  forLoop fun i s => fillMapBlock k (le sb (192 + 4 * i) 4) s

/-- The loop of `afs_fill_map` over the slots of a pointer block. Its header is
`for (j = 0; j < NUM_MAP_BLKS_IN_PB; i++)`: it stays on slot 0, counts in `i`, and only a `break`
ends it. The result carries the counter `i`; the first argument bounds the rounds. -/
def fillMapPb (k : Kernel) (ptrBlock : Mem) :
    ℕ → ℕ → AfsPrivate × ℕ → Option (ℕ × AfsPrivate × ℕ)
  | 0, _, _ => none
  | rounds + 1, i, s => do
    match ← fillMapBlock k (le ptrBlock 16 4) s with
    | .brk s' => some (i, s')
    | .next s' => fillMapPb k ptrBlock rounds ((i + 1) % 2 ^ 32) s'
    | .ret _ s' => fillMapPb k ptrBlock rounds ((i + 1) % 2 ^ 32) s'

/-- The loop of `afs_fill_map` over the pointer blocks, with `ptr_block` as the last one read. -/
def fillMapPtrBlocks (k : Kernel) (sb : Mem) :
    ℕ → ℕ → Mem → AfsPrivate × ℕ → Option (AfsPrivate × ℕ)
  | 0, _, _, _ => none
  | rounds + 1, i, ptrBlock, s =>
    if i < s.1.config.numPtrBlocks then do
      let nextBlock := if i = 0 then le sb 4092 4 else le ptrBlock 4092 4
      let ptrBlock := readPage ptrBlock 0 s.1.disk nextBlock s.1.passiveFs.dataStartOff
      let (i, s) ← fillMapPb k ptrBlock (s.1.config.numBlocks + 1) i (mark s.1 nextBlock, s.2)
      fillMapPtrBlocks k sb rounds ((i + 1) % 2 ^ 32) ptrBlock s
    else some s

/-- `afs_fill_map`. The rounds that the pointer block loop is given are more than the blocks it
can count. -/
def afsFillMap (k : Kernel) (sb : Mem) (ctx : AfsPrivate) : Option (ℤ × AfsPrivate) := do
  if k.kmalloc 4096 then
    match ← fillMapSb k sb 975 0 (ctx, 0) with
    | .ret code s => some (code, s.1)
    | .next s | .brk s =>
      let s ← fillMapPtrBlocks k sb (ctx.config.numPtrBlocks + 1) 0 k.uninit s
      if s.2 = ctx.config.numBlocks then some (0, s.1) else some (-5, s.1)
  else some (-12, ctx)

/-- `rebuild_allocation_vector`: the pointers of the first `j` tuples of a map entry. -/
def rebuildEntry (ctx : AfsPrivate) (entry : ℕ) : ℕ → AfsPrivate
  | 0 => ctx
  | j + 1 =>
    let ctx := rebuildEntry ctx entry j
    mark ctx (le ctx.afsMap (entry + 6 * j) 4)

/-- `rebuild_allocation_vector`, over the first entries of the map. -/
def rebuildAllocationVector (ctx : AfsPrivate) : ℕ → AfsPrivate
  | 0 => ctx
  | i + 1 =>
    let ctx := rebuildAllocationVector ctx i
    rebuildEntry ctx (i * ctx.config.mapEntrySz % 2 ^ 32) ctx.config.numCarrierBlocks

/-- `rebuild_ptr_blocks`, the first `i` of them. From the second on the block number is taken
from the pointer block that is about to be read. -/
def rebuildPtrBlocks (ctx : AfsPrivate) : ℕ → AfsPrivate
  | 0 => ctx
  | i + 1 =>
    let ctx := rebuildPtrBlocks ctx i
    let blockNum := if i = 0 then le ctx.superBlock 4092 4
      else le ctx.afsPtrBlocks (4096 * i + 4092) 4
    let afsPtrBlocks := readPage ctx.afsPtrBlocks (4096 * i) ctx.disk blockNum
      ctx.passiveFs.dataStartOff
    { ctx with afsPtrBlocks }

/-! ### The super block -/

/-- An `int` that holds the low 32 bits of `x`. -/
def toInt32 (x : ℤ) : ℤ := (x + 2 ^ 31) % 2 ^ 32 - 2 ^ 31

/-- The loop of `binary_search`; `first`, `last` and `middle` are 32-bit `int`s. A read outside of
the array gives `none`. -/
def binarySearchLoop (array : List ℕ) (value : ℕ) : ℕ → ℤ → ℤ → Option ℤ
  | 0, _, _ => none
  | rounds + 1, first, last =>
    if first ≤ last then
      let middle := (toInt32 (first + last)).tdiv 2
      if middle < 0 then none
      else match array[middle.toNat]? with
        | none => none
        | some x =>
          if x < value then binarySearchLoop array value rounds (toInt32 (middle + 1)) last
          else if x = value then some middle
          else binarySearchLoop array value rounds first (toInt32 (middle - 1))
    else some (-1)

/-- `binary_search`. The interval has fewer than `2 ^ 31` positions and is at least halved by
every round. -/
def binarySearch (array : List ℕ) (value length : ℕ) : Option ℤ :=
  binarySearchLoop array value 33 0 (toInt32 ((length : ℤ) - 1))

/-- The rehash loop of `write_super_block` and `find_super_block`: hash again until the block
number passes the free list test. It gives the hash, the block number and the number of
rehashes. -/
def rehashLoop (k : Kernel) (fs : AfsPassiveFs) (size : ℕ) :
    ℕ → Mem → ℕ → ℕ → Option (Mem × ℕ × ℕ)
  | 0, _, _, _ => none
  | rounds + 1, passHash, sbBlock, tries => do
    if (← binarySearch fs.blockList sbBlock fs.listLen) = -1 then
      let passHash := k.sha1 (bytes passHash 0 20)
      rehashLoop k fs size rounds passHash (le passHash 0 4 % size) ((tries + 1) % 2 ^ 32)
    else some (passHash, sbBlock, tries)

/-- `block_device_size` of `write_super_block` and `find_super_block`. -/
def blockDeviceSize (config : AfsConfig) : ℕ := config.bdevSize / 8 % 2 ^ 32

/-- The placement loops of `write_super_block`: the locations of the replicas, each marked in the
vector, and the vector. `passHash` is the hash that the next replica starts from. -/
def placeReplicas (k : Kernel) (fs : AfsPassiveFs) (size rounds : ℕ) :
    ℕ → Mem → BitVector → Option (List ℕ × BitVector)
  | 0, _, v => some ([], v)
  | n + 1, passHash, v => do
    let (passHash, sbBlock, _) ← rehashLoop k fs size rounds passHash (le passHash 0 4 % size) 0
    let (rest, v) ← placeReplicas k fs size rounds n (k.sha1 (bytes passHash 0 20))
      (allocationSet v sbBlock).2
    some (sbBlock :: rest, v)

/-- `strncpy(dst + d, src, n)`: up to the first zero byte, the rest filled with zeros. -/
def strncpy (dst : Mem) (d : ℕ) (src : Mem) (n : ℕ) : Mem := fun i =>
  if d ≤ i ∧ i < d + n then
    if (List.range (i - d)).all fun j => src j != 0 then src (i - d) else 0
  else dst i

/-- `write_super_block` up to the loop that writes the replicas: the return code so far, the
context with the finished super block, and the locations `sb_block`. -/
def prepareSuperBlock (k : Kernel) (rounds : ℕ) (ctx : AfsPrivate) :
    Option (ℤ × AfsPrivate × List ℕ) := do
  let size := blockDeviceSize ctx.config
  if size = 0 then none
  else
    let (sbBlock, vector) ← placeReplicas k ctx.passiveFs size rounds 8
      (k.sha1 (bytes ctx.passphrase 0 64)) ctx.vector
    let (ret, ctx) ← afsCreateMap k { ctx with vector }
    if ret ≠ 0 then some (ret, ctx, sbBlock)
    else
      let (ret, ctx) ← afsCreateMapBlocks k ctx
      if ret ≠ 0 then some (ret, ctx, sbBlock)
      else if k.kmalloc (ctx.config.numPtrBlocks * 4096) then
        let ctx := { ctx with
          afsPtrBlocks := fill k.uninit 0 (ctx.config.numPtrBlocks * 4096) 0
          superBlock := putLe ctx.superBlock 4092 4 afsInvalidBlock }
        let (ret, ctx) ← writePtrBlocks k ctx
        if ret ≠ 0 then some (ret, ctx, sbBlock)
        else
          let sb := putLe ctx.superBlock 52 8 ctx.config.instanceSize
          let sb := strncpy sb 64 ctx.entropyDir 64
          let sb := blit sb 0 (k.sha256 (bytes sb 32 (4096 - 32))) 0 32
          some (0, { ctx with superBlock := sb }, sbBlock)
      else some (-12, ctx, sbBlock)

/-- The loop of `write_super_block` that writes the replicas: the device, and the blocks that
were written. The location of a replica is used as an index into `block_list`. -/
def writeReplicas (fs : AfsPassiveFs) (sb : Mem) : List ℕ → Mem → Option (Mem × List ℕ)
  | [], disk => some (disk, [])
  | sbBlock :: rest, disk => do
    let blockNum ← fs.blockList[sbBlock]?
    let (disk, written) ← writeReplicas fs sb rest (writePage sb 0 disk blockNum fs.dataStartOff)
    some (disk, blockNum :: written)

/-- `write_super_block`: the return code, the context, and the blocks that hold a replica. -/
def writeSuperBlock (k : Kernel) (rounds : ℕ) (ctx : AfsPrivate) :
    Option (ℤ × AfsPrivate × List ℕ) := do
  let (ret, ctx, sbBlock) ← prepareSuperBlock k rounds ctx
  if ret ≠ 0 then some (ret, ctx, [])
  else
    let (disk, written) ← writeReplicas ctx.passiveFs ctx.superBlock sbBlock ctx.disk
    some (0, { ctx with disk }, written)

/-- The search of `find_super_block` after it has ended: the last page read, whether its hash
matched, the location it came from, and the blocks that were read. -/
structure SbSearch where
  sb : Mem
  valid : Bool
  sbBlock : ℕ
  reads : List ℕ

/-- Whether the hash that a super block stores is the hash of the rest of it. -/
def sbValid (k : Kernel) (sb : Mem) : Bool :=
  bytes sb 0 32 == bytes (k.sha256 (bytes sb 32 (4096 - 32))) 0 32

/-- The loop `while (sb_tries < 32)` of `find_super_block`. Only its first round rehashes, and
every later one raises `sb_tries` by one, so 33 rounds are enough. -/
def searchLoop (k : Kernel) (ctx : AfsPrivate) (size rounds : ℕ) :
    ℕ → Mem → ℕ → SbSearch → Option SbSearch
  | 0, _, _, s => some s
  | n + 1, passHash, tries, s =>
    if tries < 32 then do
      let (passHash, sbBlock, tries) ← rehashLoop k ctx.passiveFs size rounds passHash s.sbBlock
        tries
      let blockNum ← ctx.passiveFs.blockList[sbBlock]?
      let sb := readPage s.sb 0 ctx.disk blockNum ctx.passiveFs.dataStartOff
      let reads := s.reads ++ [blockNum]
      if sbValid k sb then some ⟨sb, true, sbBlock, reads⟩
      else
        searchLoop k ctx size rounds n passHash ((tries + 1) % 2 ^ 32)
          ⟨sb, false, sbBlock, reads⟩
    else some s

/-- The search of `find_super_block`, from the hash of the passphrase. -/
def searchSuperBlock (k : Kernel) (rounds : ℕ) (ctx : AfsPrivate) : Option SbSearch :=
  let size := blockDeviceSize ctx.config
  if size = 0 then none
  else
    let passHash := k.sha1 (bytes ctx.passphrase 0 64)
    searchLoop k ctx size rounds 33 passHash 0
      ⟨ctx.superBlock, true, le passHash 0 4 % size, []⟩

/-- `find_super_block`. -/
def findSuperBlock (k : Kernel) (rounds : ℕ) (ctx : AfsPrivate) : Option (ℤ × AfsPrivate) := do
  let s ← searchSuperBlock k rounds ctx
  let ctx := mark { ctx with superBlock := s.sb } s.sbBlock
  if ¬ s.valid then some (-2, ctx)
  else if ctx.config.instanceSize ≠ le s.sb 52 8 then some (-22, ctx)
  else
    let (ret, ctx) ← afsCreateMap k { ctx with config := buildConfiguration ctx.config 4 1 }
    if ret ≠ 0 then some (ret, ctx)
    else
      let (ret, ctx) ← afsFillMap k s.sb ctx
      if ret ≠ 0 then some (ret, ctx)
      else
        let ctx := rebuildAllocationVector ctx ctx.config.numBlocks
        if k.kmalloc (ctx.config.numPtrBlocks * 4096) then
          let ctx := rebuildPtrBlocks { ctx with afsPtrBlocks := k.uninit } ctx.config.numPtrBlocks
          some (0, ctx)
        else some (-12, ctx)

/-! ### A small instance -/

/-- A configuration before it is built, for `n` data blocks on a device of 32 blocks. -/
def sizedConfig (n : ℕ) : AfsConfig where
  numCarrierBlocks := 0
  numEntropyBlocks := 0
  mapEntrySz := 0
  unusedSpacePerBlock := 0
  numMapEntriesPerBlock := 0
  numBlocks := 0
  numMapBlocks := 0
  numPtrBlocks := 0
  instanceSize := 4096 * n
  bdevSize := 256

/-- A fresh context of a small instance, 16 data blocks on a device of 32, with the given free
list. -/
def smallContext (freeList : List ℕ) : AfsPrivate where
  config := buildConfiguration (sizedConfig 16) 4 1
  passphrase := fun _ => 0
  passphraseHash := fun _ => 0
  encodingType := .aontRs
  entropyDir := fun _ => 0
  passiveFs := ⟨freeList, freeList.length, 8, 32, 0, 0⟩
  vector := ⟨fun _ => false, 2 ^ 32 - 1⟩
  superBlock := fun _ => 0
  afsMap := fun _ => 0
  afsMapBlocks := fun _ => 0
  afsPtrBlocks := fun _ => 0
  disk := fun _ => 0
  random := [0]

end Artifice
