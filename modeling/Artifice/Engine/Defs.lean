import Artifice.Metadata.Defs
import Artifice.Codec.City
import Artifice.Codec.Aont
import Artifice.Codec.GfShare

/-!
The engine (`dm_afs_engine.c`) and the functions of `dm_afs.c` that drive it: the life of a request
from `afs_map`, over the work queues and the bios of its carriers, to `afs_req_clean`.

A request is given in the pieces between which other requests and completions can run: the part of
`afs_read_request`, `afs_write_request` and `rebuild_blocks` before they submit a bio, the set-up
and submission of one carrier bio, its completion, and the decoding of a read. A piece gives
`none` when it dereferences a null pointer, leaves an array, or needs more random numbers than
there are.

What `kmalloc` and `__get_free_page` return is not cleared: a new request is made from an
arbitrary one. The map entry of a request is the offset of the entry in the map.
-/

namespace Artifice

open Lib

/-! ### Bios -/

/-- The operation of a bio, as far as `afs_map` tells them apart. -/
inductive ReqOp
  | read
  | write
  | flush
  | other
  deriving DecidableEq, Repr

/-- `struct bio_vec`, with the content of its page. -/
structure BioVec where
  bvPage : Mem
  bvOffset : ℕ
  bvLen : ℕ

/-- `struct bio`: the operation, the iterator, the segments and the status. -/
structure Bio where
  biOp : ReqOp
  biSector : ℕ
  biSize : ℕ
  biIoVec : List BioVec
  biStatus : ℤ

/-- `bio_sectors`. -/
def bioSectors (bio : Bio) : ℕ := bio.biSize / 512

/-- The truncation of a bio to its block in `afs_map`. -/
def acceptPartialBio (bio : Bio) : Bio :=
  let maxSectorCount := 8 - bio.biSector % 8
  if bioSectors bio > maxSectorCount then { bio with biSize := 512 * maxSectorCount } else bio

/-- Byte `i` of the data of some segments. -/
def segmentByte : List BioVec → ℕ → UInt8
  | [], _ => 0
  | bv :: rest, i =>
    if i < bv.bvLen then bv.bvPage (bv.bvOffset + i) else segmentByte rest (i - bv.bvLen)

/-- The bytes that some segments have room for. -/
def segmentsLen (segments : List BioVec) : ℕ := (segments.map BioVec.bvLen).sum

/-- The loop of `afs_write_request` over the segments. `size` is what is left of the bio, and
`segmentOffset` what has been copied. -/
def copyFromSegments (offset requestSize : ℕ) : ℕ → ℕ → List BioVec → Mem → Mem
  | _, _, [], dataBlock => dataBlock
  | size, segmentOffset, bv :: rest, dataBlock =>
    if size = 0 then dataBlock
    else
      let bvLen := min bv.bvLen size
      if bvLen ≤ requestSize - segmentOffset then
        copyFromSegments offset requestSize (size - bvLen) (segmentOffset + bvLen) rest
          (blit dataBlock (offset + segmentOffset) bv.bvPage bv.bvOffset bvLen)
      else blit dataBlock (offset + segmentOffset) bv.bvPage bv.bvOffset (requestSize - segmentOffset)

/-- The loop of `afs_read_request` and `afs_read_decode` over the segments. -/
def copyToSegments (offset requestSize : ℕ) (dataBlock : Mem) :
    ℕ → ℕ → List BioVec → List BioVec
  | _, _, [] => []
  | size, segmentOffset, bv :: rest =>
    if size = 0 then bv :: rest
    else
      let bvLen := min bv.bvLen size
      let copy (n : ℕ) : BioVec :=
        { bv with bvPage := blit bv.bvPage bv.bvOffset dataBlock (offset + segmentOffset) n }
      if bvLen ≤ requestSize - segmentOffset then
        copy bvLen :: copyToSegments offset requestSize dataBlock (size - bvLen)
          (segmentOffset + bvLen) rest
      else copy (requestSize - segmentOffset) :: rest

/-! ### Requests -/

/-- `REQ_STATE_GROUND`, `REQ_STATE_FLIGHT` and `REQ_STATE_COMPLETED`. -/
inductive ReqState
  | ground
  | flight
  | completed
  deriving DecidableEq, Repr

/-- `struct afs_map_request`, less the pointers into the context. `hasBio` is whether `bio` has been
set: the pointer of a request whose bio has not been set is what `kmalloc` left there, and no step
that follows it has a result. -/
structure AfsMapRequest where
  carrierBlocks : ℕ → Mem
  dataBlock : Mem
  state : ReqState
  bio : Bio
  hasBio : Bool
  biosPending : ℕ
  mapEntry : ℕ
  encoder : Option GfshareCtx
  encodingType : EncodingType
  erasures : Mem
  numErasures : ℕ
  iv : Mem
  block : ℕ
  requestSize : ℕ
  sectorOffset : ℕ
  blockNums : ℕ → ℕ
  rebuildFlag : Bool

/-- What `get_random_bytes` gives to the encoders for one block. -/
structure Entropy where
  key : Fin 4 → UInt64
  seed : UInt64 × UInt64

/-- `init_request`, from the memory `fresh` that it is given. It does not set the bio. -/
def initRequest (fresh : AfsMapRequest) (ctx : AfsPrivate) : AfsMapRequest :=
  { fresh with
    hasBio := false
    encoder := none
    numErasures := 0
    encodingType := ctx.encodingType
    iv := blit fresh.iv 0 ctx.passphraseHash 0 16
    rebuildFlag := false
    state := .ground }

/-- The request that `afs_map` queues for a read or a write. -/
def mapRequest (fresh : AfsMapRequest) (ctx : AfsPrivate) (bio : Bio) : AfsMapRequest :=
  { initRequest fresh ctx with
    bio
    hasBio := true
    block := bio.biSector / 8 % 2 ^ 32
    sectorOffset := bio.biSector % 8
    requestSize := bioSectors bio * 512 % 2 ^ 32 }

/-- `afs_get_map_entry`. -/
def afsGetMapEntry (config : AfsConfig) (index : ℕ) : ℕ := index * config.mapEntrySz % 2 ^ 32

/-- `map_entry_tuple[i].carrier_block_ptr`. -/
def carrierPtr (map : Mem) (entry i : ℕ) : ℕ := le map (entry + 6 * i) 4

/-- `map_entry_tuple[i].checksum`. -/
def tupleChecksum (map : Mem) (entry i : ℕ) : ℕ := le map (entry + 6 * i + 4) 2

/-- The store of `map_entry_tuple[i].carrier_block_ptr`. -/
def setTuplePtr (map : Mem) (entry i blockNum : ℕ) : Mem := putLe map (entry + 6 * i) 4 blockNum

/-- The store of `map_entry_tuple[i].checksum`. -/
def setTupleChecksum (map : Mem) (entry i : ℕ) (checksum : UInt16) : Mem :=
  putLe map (entry + 6 * i + 4) 2 checksum.toNat

/-- `map_entry_difference`. -/
def mapEntryDifference (ctx : AfsPrivate) (req : AfsMapRequest) : ℕ :=
  req.mapEntry + 6 * ctx.config.numCarrierBlocks

/-- `(uint64_t *)req->iv`, an array of two words. -/
def ivWords (iv : Mem) : ℕ → UInt64 := fun i => if i < 2 then load64 iv (8 * i) else 0

/-- The first `n` rounds of `erasures[i] = i + '0'`. -/
def numberShares (erasures : Mem) : ℕ → Mem
  | 0 => erasures
  | i + 1 => Function.update (numberShares erasures i) i (UInt8.ofNat (i + 48))

/-! ### Encoding and decoding -/

/-- The encoding of `data_block` into the carriers, as `afs_write_request` and `rebuild_blocks`
make it. -/
def encodeRequest (k : Kernel) (g : GfCtx) (e : Entropy) (ctx : AfsPrivate) (req : AfsMapRequest) :
    Option (AfsPrivate × AfsMapRequest) :=
  match req.encodingType with
  | .shamir => do
    let encoder ← gfshareCtxInitEnc k req.erasures ctx.config.numCarrierBlocks 2 4096
    some (ctx, { req with
      encoder := some encoder
      carrierBlocks := gfshareCtxEncGetshares e.seed encoder req.dataBlock req.carrierBlocks })
  | .aontRs =>
    let d := mapEntryDifference ctx req
    let (_, difference, shares) := encodeAontPackage k g e.key (fun i => ctx.afsMap (d + i))
      req.dataBlock 4096 req.carrierBlocks 2 (ctx.config.numCarrierBlocks - 2) (ivWords req.iv)
    some ({ ctx with afsMap := blit ctx.afsMap d difference 0 32 },
      { req with carrierBlocks := shares })
  | .rsEntropy => some (ctx, req)

/-- The decoding of the carriers into `data_block` in `afs_read_decode`. -/
def decodeRequest (k : Kernel) (g : GfCtx) (ctx : AfsPrivate) (req : AfsMapRequest) :
    Option (AfsPrivate × AfsMapRequest) :=
  match req.encodingType with
  | .shamir => do
    let encoder ← req.encoder
    some (ctx, { req with
      dataBlock := gfshareCtxDecDecode encoder req.erasures req.carrierBlocks req.dataBlock })
  | .aontRs => do
    let d := mapEntryDifference ctx req
    let (_, difference, dataBlock, carrierBlocks) ← decodeAontPackage k g
      (fun i => ctx.afsMap (d + i)) req.dataBlock 4096 req.carrierBlocks 2
      (ctx.config.numCarrierBlocks - 2) (ivWords req.iv) req.erasures req.numErasures
    some ({ ctx with afsMap := blit ctx.afsMap d difference 0 32 },
      { req with dataBlock, carrierBlocks })
  | .rsEntropy => some (ctx, req)

/-! ### Writes -/

/-- Round `i` of the loop of `afs_write_request` over the carriers. -/
def mapCarrier (modification : Bool) (i : ℕ) (s : AfsPrivate × AfsMapRequest) :
    Option (Flow (AfsPrivate × AfsMapRequest)) := do
  let (blockNum, ctx) ← if modification then some (carrierPtr s.1.afsMap s.2.mapEntry i, s.1)
    else acquire s.1
  if blockNum = afsInvalidBlock then some (.ret (-28) (ctx, s.2))
  else some (.next ({ ctx with afsMap := setTuplePtr ctx.afsMap s.2.mapEntry i blockNum },
    { s.2 with blockNums := Function.update s.2.blockNums i blockNum }))

/-- The loop at `reset_entry`, the first rounds of it. The pointers are freed as if they were
positions of the free list. -/
def resetEntry (ctx : AfsPrivate) (entry : ℕ) : ℕ → AfsPrivate
  | 0 => ctx
  | i + 1 =>
    let ctx := resetEntry ctx entry i
    let ptr := carrierPtr ctx.afsMap entry i
    { ctx with
      vector := if ptr ≠ afsInvalidBlock then allocationFree ctx.vector ptr else ctx.vector
      afsMap := setTuplePtr ctx.afsMap entry i afsInvalidBlock }

/-- What `afs_write_request` does at `reset_entry`. -/
def resetWrite (ctx : AfsPrivate) (req : AfsMapRequest) : AfsPrivate × AfsMapRequest :=
  (resetEntry ctx req.mapEntry ctx.config.numCarrierBlocks, { req with encoder := none })

/-- A write request before it is encoded: its map entry, the copy from the segments, and the
numbers of its shares. -/
def loadRequest (ctx : AfsPrivate) (req : AfsMapRequest) : AfsMapRequest :=
  { req with
    mapEntry := afsGetMapEntry ctx.config req.block
    dataBlock := copyFromSegments (req.sectorOffset * 512) req.requestSize req.bio.biSize 0
      req.bio.biIoVec req.dataBlock
    erasures := numberShares req.erasures ctx.config.numCarrierBlocks }

/-- `afs_write_request` up to its call of `write_pages`: `next` when it goes on to it. A block that
is mapped keeps its carriers. -/
def writeRequestMap (k : Kernel) (g : GfCtx) (e : Entropy) (ctx : AfsPrivate)
    (req : AfsMapRequest) : Option (Flow (AfsPrivate × AfsMapRequest)) :=
  if req.state ≠ .flight then some (.ret (-22) (ctx, req))
  else do
    let req := loadRequest ctx req
    let modification := decide (carrierPtr ctx.afsMap req.mapEntry 0 ≠ afsInvalidBlock)
    let s ← encodeRequest k g e ctx req
    match ← forLoop (mapCarrier modification) ctx.config.numCarrierBlocks 0 s with
    | .ret code s => some (.ret code (resetWrite s.1 s.2))
    | .next s | .brk s => some (.next s)

/-- The loop of `write_pages` and `read_pages`: the return code, and how many bios were submitted.
`setup i` is zero, or the code with which bio `i` cannot be set up. -/
def submitPages (setup : ℕ → ℤ) : ℕ → ℕ → ℤ × ℕ
  | 0, i => (0, i)
  | n + 1, i => if setup i ≠ 0 then (setup i, i) else submitPages setup n (i + 1)

/-- `afs_write_request`: the return code, the context and the request. -/
def afsWriteRequest (k : Kernel) (g : GfCtx) (e : Entropy) (setup : ℕ → ℤ) (ctx : AfsPrivate)
    (req : AfsMapRequest) : Option (ℤ × AfsPrivate × AfsMapRequest) := do
  match ← writeRequestMap k g e ctx req with
  | .ret code s => some (code, s)
  | .next s | .brk s =>
    let req := { s.2 with biosPending := s.1.config.numCarrierBlocks }
    let (ret, _) := submitPages setup s.1.config.numCarrierBlocks 0
    if ret ≠ 0 then some (-5, resetWrite s.1 req) else some (0, s.1, req)

/-- The checksums that `afs_write_endio` stores at the last completion, the first `n` of them. -/
def storeChecksums (map : Mem) (req : AfsMapRequest) : ℕ → Mem
  | 0 => map
  | i + 1 => setTupleChecksum (storeChecksums map req i) req.mapEntry i
      (cityhash32To16 (req.carrierBlocks i) 4096)

/-! ### Rebuilds -/

/-- Round `i` of the loop of `rebuild_blocks` over the carriers. -/
def remapCarrier (i : ℕ) (s : AfsPrivate × AfsMapRequest) :
    Option (Flow (AfsPrivate × AfsMapRequest)) := do
  let (blockNum, ctx) ← acquire s.1
  if blockNum = afsInvalidBlock then some (.ret (-28) (ctx, s.2))
  else some (.next ({ ctx with afsMap := setTuplePtr ctx.afsMap s.2.mapEntry i blockNum },
    { s.2 with
      blockNums := Function.update s.2.blockNums i blockNum
      carrierBlocks := Function.update s.2.carrierBlocks i
        (blit (s.2.carrierBlocks i) 0 s.2.dataBlock 0 4096) }))

/-- What `rebuild_blocks` does at `reset_entry`. -/
def resetRebuild (ctx : AfsPrivate) (req : AfsMapRequest) : AfsPrivate × AfsMapRequest :=
  (resetEntry ctx req.mapEntry ctx.config.numCarrierBlocks,
    if req.encodingType = .shamir then { req with encoder := none } else req)

/-- `rebuild_blocks` up to its call of `write_pages`: `next` when it goes on to it. -/
def rebuildBlocksMap (k : Kernel) (g : GfCtx) (e : Entropy) (ctx : AfsPrivate)
    (req : AfsMapRequest) : Option (Flow (AfsPrivate × AfsMapRequest)) := do
  let req := { req with erasures := numberShares req.erasures ctx.config.numCarrierBlocks }
  let s ← encodeRequest k g e ctx req
  match ← forLoop remapCarrier ctx.config.numCarrierBlocks 0 s with
  | .ret code s => some (.ret code (resetRebuild s.1 s.2))
  | .next s | .brk s => some (.next s)

/-- `rebuild_blocks`: the return code, the context and the request. -/
def rebuildBlocks (k : Kernel) (g : GfCtx) (e : Entropy) (setup : ℕ → ℤ) (ctx : AfsPrivate)
    (req : AfsMapRequest) : Option (ℤ × AfsPrivate × AfsMapRequest) := do
  match ← rebuildBlocksMap k g e ctx req with
  | .ret code s => some (code, s)
  | .next s | .brk s =>
    let req := { s.2 with biosPending := s.1.config.numCarrierBlocks }
    let (ret, _) := submitPages setup s.1.config.numCarrierBlocks 0
    if ret ≠ 0 then some (-5, resetRebuild s.1 req) else some (0, s.1, req)

/-! ### Reads -/

/-- The copy of `data_block` to the segments of the bio. -/
def answerBio (req : AfsMapRequest) : AfsMapRequest :=
  { req with bio := { req.bio with
    biIoVec := copyToSegments (req.sectorOffset * 512) req.requestSize req.dataBlock
      req.bio.biSize 0 req.bio.biIoVec } }

/-- The block numbers and share numbers that a read takes from the entry, the first `n`. -/
def takePointers (map : Mem) (req : AfsMapRequest) : ℕ → AfsMapRequest
  | 0 => req
  | i + 1 =>
    let req := takePointers map req i
    { req with
      blockNums := Function.update req.blockNums i (carrierPtr map req.mapEntry i)
      erasures := Function.update req.erasures i (UInt8.ofNat (i + 48)) }

/-- `afs_read_request` up to its call of `read_pages`: `next` when it goes on to it, `brk` when the
block is not mapped and the request has been answered. -/
def readRequestMap (k : Kernel) (ctx : AfsPrivate) (req : AfsMapRequest) : Flow AfsMapRequest :=
  if req.state ≠ .flight then .ret (-22) req
  else
    let req := { req with mapEntry := afsGetMapEntry ctx.config req.block }
    if carrierPtr ctx.afsMap req.mapEntry 0 = afsInvalidBlock then
      .brk (answerBio { req with dataBlock := fill req.dataBlock 0 4096 0 })
    else
      let req := if req.encodingType = .shamir then
        { req with encoder := gfshareCtxInitDec k req.erasures ctx.config.numCarrierBlocks 2 4096 }
        else req
      .next (takePointers ctx.afsMap req ctx.config.numCarrierBlocks)

/-- `afs_rebuild_request` up to its call of `read_pages`. -/
def rebuildRequestMap (k : Kernel) (ctx : AfsPrivate) (req : AfsMapRequest) : Flow AfsMapRequest :=
  if req.state ≠ .flight then .ret (-22) req
  else
    let req := { req with mapEntry := afsGetMapEntry ctx.config req.block }
    if carrierPtr ctx.afsMap req.mapEntry 0 = afsInvalidBlock then .brk req
    else
      let req := if req.encodingType = .shamir then
        { req with encoder := gfshareCtxInitDec k req.erasures ctx.config.numCarrierBlocks 2 4096 }
        else req
      .next (takePointers ctx.afsMap req ctx.config.numCarrierBlocks)

/-- The checksum loop of `afs_read_decode`, the first `n` carriers. -/
def checkCarriers (map : Mem) (req : AfsMapRequest) : ℕ → AfsMapRequest
  | 0 => req
  | i + 1 =>
    let req := checkCarriers map req i
    if tupleChecksum map req.mapEntry i ≠ (cityhash32To16 (req.carrierBlocks i) 4096).toNat then
      { req with rebuildFlag := true, erasures := Function.update req.erasures i 48 }
    else req

/-- `afs_read_decode` up to the test of `rebuild_flag`. -/
def readDecode (k : Kernel) (g : GfCtx) (ctx : AfsPrivate) (req : AfsMapRequest) :
    Option (AfsPrivate × AfsMapRequest) := do
  let (ctx, req) ← decodeRequest k g ctx
    (checkCarriers ctx.afsMap req ctx.config.numCarrierBlocks)
  some (ctx, answerBio req)

/-! ### A small request -/

/-- A bio over the whole of block `b`, with one segment that holds `page`. -/
def blockBio (op : ReqOp) (b : ℕ) (page : Mem) : Bio := ⟨op, 8 * b, 4096, [⟨page, 0, 4096⟩], 0⟩

/-- A request whose memory is all zero, with a bio. -/
def zeroRequest : AfsMapRequest where
  carrierBlocks := fun _ _ => 0
  dataBlock := fun _ => 0
  state := .ground
  bio := blockBio .write 0 fun _ => 0
  hasBio := true
  biosPending := 0
  mapEntry := 0
  encoder := none
  encodingType := .aontRs
  erasures := fun _ => 0
  numErasures := 0
  iv := fun _ => 0
  block := 0
  requestSize := 0
  sectorOffset := 0
  blockNums := fun _ => 0
  rebuildFlag := false

/-- Random numbers that are all zero. -/
def zeroEntropy : Entropy := ⟨fun _ => 0, 0, 0⟩

end Artifice
