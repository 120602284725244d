import Artifice.Engine.Defs

/-!
The life of a request: `afs_map`, the work items `afs_flightq`, `afs_cryptoq` and `afs_rebuildq`,
the bios of the carriers with `afs_read_endio` and `afs_write_endio`, and `afs_req_clean`.

Every step of a life takes the context as it finds it and leaves it as it should be; what other
requests do in between is for the run to say. A log keeps what a caller can observe of a life.
-/

namespace Artifice

open Lib

/-- What happens to the bio of a request, to its carrier bios, and to the request itself. -/
inductive LogEvent
  | submit (i : ℕ)
  | complete (i : ℕ)
  | endio
  | clean
  deriving DecidableEq, Repr

/-- Where a request is: queued on one of the work queues, in the loop of `read_pages` or
`write_pages` before bio `i`, decoded and before the call of `rebuild_blocks`, returned from its work
item, or freed. -/
inductive Phase
  | flightq
  | rebuildq
  | readPages (i : ℕ)
  | writePages (rebuild : Bool) (i : ℕ)
  | returned
  | cryptoq
  | rebuildBlocks
  | gone
  deriving DecidableEq, Repr

/-- A request with what is outstanding of it: `outstanding` are the carriers whose bios have been
submitted and not completed, all of them of one `type`. -/
structure Life where
  req : AfsMapRequest
  phase : Phase
  type : AfsIoType
  outstanding : List ℕ
  log : List LogEvent

/-- One step of a life. `code` is zero, or the code with which the next carrier bio cannot be set
up; `status` is the status with which a carrier bio completes. -/
inductive Act
  | flight (e : Entropy)
  | rebuild
  | submit (code : ℤ)
  | complete (i : ℕ) (status : ℤ)
  | crypto
  | rebuildBlocks (e : Entropy)

/-- `afs_req_clean`: the bio is ended and the request freed. -/
def afsReqClean (l : Life) : Life :=
  { l with
    req := { l.req with state := .completed, encoder := none }
    phase := .gone
    log := l.log ++ [.endio, .clean] }

/-- `afs_req_clean` where the bio may not have been set. -/
def endRequest (ctx : AfsPrivate) (l : Life) : Option (AfsPrivate × Life) :=
  if l.req.hasBio then some (ctx, afsReqClean l) else none

/-- The start of `read_pages`. -/
def beginReadPages (l : Life) (config : AfsConfig) (req : AfsMapRequest) : Life :=
  { l with
    req := { req with biosPending := config.numCarrierBlocks }
    phase := .readPages 0
    type := .read }

/-- The start of `write_pages`. -/
def beginWritePages (l : Life) (rebuild : Bool) (config : AfsConfig) (req : AfsMapRequest) : Life :=
  { l with
    req := { req with biosPending := config.numCarrierBlocks }
    phase := .writePages rebuild 0
    type := .write }

/-- `afs_flightq` up to the first carrier bio. It looks at the bio first. -/
def afsFlightq (k : Kernel) (g : GfCtx) (e : Entropy) (ctx : AfsPrivate) (l : Life) :
    Option (AfsPrivate × Life) :=
  if ¬ l.req.hasBio then none
  else
    let req := { l.req with state := .flight }
    match req.bio.biOp with
    | .read =>
      match readRequestMap k ctx req with
      | .next req => some (ctx, beginReadPages l ctx.config req)
      | .brk req | .ret _ req => some (ctx, afsReqClean { l with req })
    | .write => do
      match ← writeRequestMap k g e ctx req with
      | .next s | .brk s => some (s.1, beginWritePages l false s.1.config s.2)
      | .ret _ s => some (s.1, afsReqClean { l with req := s.2 })
    | _ => some (ctx, afsReqClean l)

/-- `afs_rebuildq` up to the first carrier bio. -/
def afsRebuildq (k : Kernel) (ctx : AfsPrivate) (l : Life) : Option (AfsPrivate × Life) :=
  match rebuildRequestMap k ctx { l.req with state := .flight } with
  | .next req => some (ctx, beginReadPages l ctx.config req)
  | .brk req | .ret _ req => endRequest ctx { l with req }

/-- `afs_cryptoq` up to its call of `rebuild_blocks`. The decoded block is copied to the bio before
`rebuild_flag` is looked at. -/
def afsCryptoq (k : Kernel) (g : GfCtx) (ctx : AfsPrivate) (l : Life) :
    Option (AfsPrivate × Life) :=
  if ¬ l.req.hasBio then none
  else do
    let (ctx, req) ← readDecode k g ctx l.req
    if req.rebuildFlag then some (ctx, { l with req, phase := .rebuildBlocks })
    else some (ctx, afsReqClean { l with req })

/-- The rest of `afs_cryptoq`: the call of `rebuild_blocks`, up to the first carrier bio. Its return
value is not looked at. -/
def cryptoqRebuild (k : Kernel) (g : GfCtx) (e : Entropy) (ctx : AfsPrivate) (l : Life) :
    Option (AfsPrivate × Life) := do
  match ← rebuildBlocksMap k g e ctx l.req with
  | .next s | .brk s => some (s.1, beginWritePages l true s.1.config s.2)
  | .ret _ s => some (s.1, { l with req := s.2, phase := .returned })

/-- Carrier bio `i` has been submitted. -/
def submitted (l : Life) (i : ℕ) (phase : Phase) : Life :=
  { l with phase, outstanding := l.outstanding ++ [i], log := l.log ++ [.submit i] }

/-- The next round of `read_pages` or `write_pages`, with what its caller does when the bio cannot
be set up. -/
def submitBio (ctx : AfsPrivate) (l : Life) (code : ℤ) : Option (AfsPrivate × Life) :=
  match l.phase with
  | .readPages i =>
    if code ≠ 0 then endRequest ctx l
    else some (ctx, submitted l i
      (if i + 1 < ctx.config.numCarrierBlocks then .readPages (i + 1) else .returned))
  | .writePages rebuild i =>
    if code ≠ 0 then
      if rebuild then
        let s := resetRebuild ctx l.req
        some (s.1, { l with req := s.2, phase := .returned })
      else
        let s := resetWrite ctx l.req
        endRequest s.1 { l with req := s.2 }
    else some (ctx, submitted l i
      (if i + 1 < ctx.config.numCarrierBlocks then .writePages rebuild (i + 1) else .returned))
  | _ => none

/-- The transfer of carrier `i`, if it succeeds. -/
def transfer (ctx : AfsPrivate) (l : Life) (i : ℕ) (status : ℤ) : AfsPrivate × AfsMapRequest :=
  if status ≠ 0 then (ctx, l.req)
  else match l.type with
    | .read =>
      let page := (afsBlkdevIo (readPagesBio (l.req.blockNums i) ctx.passiveFs.dataStartOff)
        ctx.disk (l.req.carrierBlocks i) 0).2
      (ctx, { l.req with carrierBlocks := Function.update l.req.carrierBlocks i page })
    | .write =>
      let disk := (afsBlkdevIo (writePagesBio (l.req.blockNums i) ctx.passiveFs.dataStartOff)
        ctx.disk (l.req.carrierBlocks i) 0).1
      ({ ctx with disk }, l.req)

/-- A carrier bio has completed: one less is pending. -/
def countDown (l : Life) (req : AfsMapRequest) (i : ℕ) : Life :=
  { l with
    req := { req with biosPending := req.biosPending - 1 }
    outstanding := l.outstanding.erase i
    log := l.log ++ [.complete i] }

/-- The completion of carrier bio `i`, with `afs_read_endio` or `afs_write_endio`. Neither looks at
the status. A bio that completes after its request was freed counts down in freed memory. -/
def completeBio (ctx : AfsPrivate) (l : Life) (i : ℕ) (status : ℤ) : Option (AfsPrivate × Life) :=
  let (ctx, req) := transfer ctx l i status
  let l := countDown l req i
  if l.req.biosPending = 0 then
    match l.type with
    | .read => some (ctx, { l with phase := .cryptoq })
    | .write =>
      endRequest
        { ctx with afsMap := storeChecksums ctx.afsMap l.req ctx.config.numCarrierBlocks } l
  else some (ctx, l)

/-- **A step of a life.** -/
def Life.step (k : Kernel) (g : GfCtx) (ctx : AfsPrivate) (l : Life) :
    Act → Option (AfsPrivate × Life)
  | .flight e => if l.phase = .flightq then afsFlightq k g e ctx l else none
  | .rebuild => if l.phase = .rebuildq then afsRebuildq k ctx l else none
  | .submit code => submitBio ctx l code
  | .complete i status => if i ∈ l.outstanding then completeBio ctx l i status else none
  | .crypto => if l.phase = .cryptoq then afsCryptoq k g ctx l else none
  | .rebuildBlocks e => if l.phase = .rebuildBlocks then cryptoqRebuild k g e ctx l else none

/-! ### The start of a life -/

/-- The codes that `afs_map` returns. -/
inductive MapioCode
  | submitted
  | kill
  deriving DecidableEq, Repr

/-- `afs_eq_req_exist`, for an engine queue that holds requests for the given blocks. -/
def afsEqReqExist (eq : List ℕ) (bio : Bio) : Bool := (bio.biSector * 512 / 4096 % 2 ^ 32) ∈ eq

/-- A request that has not done anything. -/
def newLife (req : AfsMapRequest) (phase : Phase) : Life := ⟨req, phase, .read, [], []⟩

/-- `afs_map`: the code, and the life of the request. `none` is a flush that waits; `alloc` is
whether the request can be allocated. On `DM_MAPIO_KILL` the bio is ended by `afs_map`, and once
more by the device mapper. A life whose request is not queued keeps the bio of the call. -/
def afsMap (flightEq : List ℕ) (alloc : Bool) (fresh : AfsMapRequest) (ctx : AfsPrivate)
    (bio : Bio) : Option (MapioCode × Life) :=
  let bio := acceptPartialBio bio
  if ¬ alloc then
    some (.kill, { newLife { fresh with bio } .gone with log := [.endio, .endio] })
  else match bio.biOp with
    | .read | .write => some (.submitted, newLife (mapRequest fresh ctx bio) .flightq)
    | .flush =>
      if afsEqReqExist flightEq bio then none
      else some (.submitted,
        { newLife { initRequest fresh ctx with bio } .returned with log := [.endio] })
    | .other => some (.kill,
        { newLife { initRequest fresh ctx with bio } .gone with log := [.endio, .clean, .endio] })

/-- The request that `afs_rebuild` queues for a block when an instance is mounted. Nothing sets its
bio, neither here nor later. -/
def rebuildRequest (fresh : AfsMapRequest) (ctx : AfsPrivate) (block : ℕ) : AfsMapRequest :=
  { initRequest fresh ctx with block, sectorOffset := 0, requestSize := 4096 }

/-- A life in which nothing is left to do: no work is queued, no loop runs, and no bio is
outstanding. -/
def Life.Quiet (l : Life) : Prop :=
  (l.phase = .returned ∨ l.phase = .gone) ∧ l.outstanding = []

instance (l : Life) : Decidable l.Quiet := inferInstanceAs (Decidable (_ ∧ _))

/-! ### Runs of one request -/

/-- A run of one request that has the context to itself. -/
inductive Runs (k : Kernel) (g : GfCtx) : AfsPrivate → Life → List Act → AfsPrivate → Life → Prop
  | nil (ctx : AfsPrivate) (l : Life) : Runs k g ctx l [] ctx l
  | cons {ctx ctx₁ ctx₂ : AfsPrivate} {l l₁ l₂ : Life} {a : Act} {as : List Act}
      (step : l.step k g ctx a = some (ctx₁, l₁)) (rest : Runs k g ctx₁ l₁ as ctx₂ l₂) :
      Runs k g ctx l (a :: as) ctx₂ l₂

end Artifice
