import Artifice.Engine.Life
import Artifice.Engine.Segments

/-!
The requests of a bio. `afs_map` truncates a bio to its block and the device mapper submits the
rest again, so that a bio becomes a list of requests; each of them copies its part of the segments
to or from its data block. Seen over the whole bio this is a flat copy between the buffer of the bio
and the sectors that it names.
-/

namespace Artifice

open Lib

/-! ### What is left of a bio -/

/-- `bvec_iter_advance`: the segments after the first `n` bytes. -/
def advanceSegments : ℕ → List BioVec → List BioVec
  | _, [] => []
  | n, bv :: rest =>
    if n < bv.bvLen then { bv with bvOffset := bv.bvOffset + n, bvLen := bv.bvLen - n } :: rest
    else advanceSegments (n - bv.bvLen) rest

/-- `bio_advance` over `n` sectors. -/
def advanceBio (bio : Bio) (n : ℕ) : Bio :=
  { bio with
    biSector := bio.biSector + n
    biSize := bio.biSize - 512 * n
    biIoVec := advanceSegments (512 * n) bio.biIoVec }

theorem segmentByte_advanceSegments (segments : List BioVec) (n i : ℕ) :
    segmentByte (advanceSegments n segments) i = segmentByte segments (n + i) := by
  induction segments generalizing n with
  | nil => rfl
  | cons bv rest ih =>
    rw [advanceSegments]
    split_ifs with h
    · simp only [segmentByte]
      by_cases hi : n + i < bv.bvLen
      · rw [if_pos hi, if_pos (by omega), Nat.add_assoc]
      · rw [if_neg hi, if_neg (by omega)]
        congr 1
        omega
    · rw [ih, segmentByte, if_neg (by omega)]
      congr 1
      omega

theorem segmentsLen_advanceSegments (segments : List BioVec) (n : ℕ) :
    segmentsLen (advanceSegments n segments) = segmentsLen segments - n := by
  induction segments generalizing n with
  | nil => simp [advanceSegments, segmentsLen]
  | cons bv rest ih =>
    rw [advanceSegments, segmentsLen_cons]
    split_ifs with h
    · rw [segmentsLen_cons]
      simp only
      omega
    · rw [ih]
      omega

/-- The requests that `afs_map` makes from a bio, when every one of them can be allocated and the
device mapper submits what was not accepted. A round that is `n` rounds before the end finds the
memory `fresh n` and the context `ctx n`. -/
def submitRounds (fresh : ℕ → AfsMapRequest) (ctx : ℕ → AfsPrivate) :
    ℕ → Bio → List AfsMapRequest
  | 0, _ => []
  | n + 1, bio =>
    if bioSectors bio = 0 then []
    else match afsMap [] true (fresh n) (ctx n) bio with
      | some (.submitted, l) =>
        l.req :: submitRounds fresh ctx n (advanceBio bio (bioSectors l.req.bio))
      | _ => []

/-- The requests of a bio. Every round accepts a sector, so that there are not more rounds than
sectors. -/
def bioRequests (fresh : ℕ → AfsMapRequest) (ctx : ℕ → AfsPrivate) (bio : Bio) :
    List AfsMapRequest :=
  submitRounds fresh ctx (bioSectors bio) bio

/-- `cur` is what is left of a bio after `done` sectors. -/
structure Bio.Left (bio : Bio) (done : ℕ) (cur : Bio) : Prop where
  ok : cur.Ok
  op : cur.biOp = bio.biOp
  sector : cur.biSector = bio.biSector + done
  size : cur.biSize + 512 * done = bio.biSize
  bytes : ∀ i, segmentByte cur.biIoVec i = segmentByte bio.biIoVec (512 * done + i)

theorem Bio.Ok.left {bio : Bio} (h : bio.Ok) : bio.Left 0 bio :=
  ⟨h, rfl, rfl, rfl, fun i => by rw [Nat.mul_zero, Nat.zero_add]⟩

theorem Bio.Left.advance {bio cur : Bio} {done n : ℕ} (h : bio.Left done cur)
    (hn : n ≤ bioSectors cur) : bio.Left (done + n) (advanceBio cur n) := by
  have hsectors := h.ok.sectors
  have hsize := h.size
  unfold bioSectors at hn
  refine ⟨⟨?_, ?_⟩, h.op, ?_, ?_, ?_⟩
  · simp only [advanceBio]
    omega
  · have hsegments := h.ok.segments
    simp only [advanceBio]
    rw [segmentsLen_advanceSegments]
    omega
  · simp only [advanceBio]
    rw [h.sector]
    omega
  · simp only [advanceBio]
    omega
  · intro i
    simp only [advanceBio]
    rw [segmentByte_advanceSegments, h.bytes]
    congr 1
    omega

/-! ### One request -/

/-- The segment keeps its place, and its page what is outside of it. -/
structure BioVec.SameOutside (bv bv' : BioVec) : Prop where
  offset : bv'.bvOffset = bv.bvOffset
  len : bv'.bvLen = bv.bvLen
  page : ∀ i, i < bv.bvOffset ∨ bv.bvOffset + bv.bvLen ≤ i → bv'.bvPage i = bv.bvPage i

theorem BioVec.SameOutside.refl (bv : BioVec) : bv.SameOutside bv := ⟨rfl, rfl, fun _ _ => rfl⟩

section

variable {offset rs size seg i : ℕ} {segments : List BioVec} {dataBlock : Mem}

theorem segmentByte_copyToSegments_out (hrs : seg + size = rs) (hi : size ≤ i) :
    segmentByte (copyToSegments offset rs dataBlock size seg segments) i =
      segmentByte segments i := by
  induction segments generalizing size seg i with
  | nil => rfl
  | cons bv rest ih =>
    rw [copyToSegments]
    split_ifs with h0
    · rfl
    simp only
    rw [if_pos (by omega), segmentByte, segmentByte]
    simp only
    split_ifs with hlt
    · exact blit_out (by omega)
    · rw [ih (by omega) (by omega)]

theorem copyToSegments_sameOutside (hrs : seg + size = rs) :
    List.Forall₂ BioVec.SameOutside segments
      (copyToSegments offset rs dataBlock size seg segments) := by
  induction segments generalizing size seg with
  | nil => exact .nil
  | cons bv rest ih =>
    rw [copyToSegments]
    split_ifs with h0
    · exact List.forall₂_same.2 fun bv _ => .refl bv
    simp only
    rw [if_pos (by omega)]
    exact .cons ⟨rfl, rfl, fun i hi => blit_out (by omega)⟩ (ih (by omega))

end

/-- The request carries a slice of the bio: the sectors from `done` on that are in one block, and
what the loops over its segments copy. -/
structure Slice (bio : Bio) (done : ℕ) (req : AfsMapRequest) : Prop where
  nonempty : 0 < req.requestSize
  sectors : req.requestSize % 512 = 0
  size : req.bio.biSize = req.requestSize
  start : 8 * req.block + req.sectorOffset = bio.biSector + done
  inBlock : req.sectorOffset * 512 + req.requestSize ≤ 4096
  /-- The slice ends with its block, or with the bio. -/
  ends : req.sectorOffset * 512 + req.requestSize = 4096 ∨
    done + req.requestSize / 512 = bioSectors bio
  /-- The request's segments are those of the bio, from the slice on. -/
  bytes : ∀ i, segmentByte req.bio.biIoVec i = segmentByte bio.biIoVec (512 * done + i)
  /-- `afs_write_request` copies `request_size` bytes from the segments. -/
  gather : ∀ ctx dataBlock, ∀ i < req.requestSize,
    (loadRequest ctx { req with dataBlock }).dataBlock (req.sectorOffset * 512 + i) =
      segmentByte bio.biIoVec (512 * done + i)
  gatherOut : ∀ ctx dataBlock j,
    j < req.sectorOffset * 512 ∨ req.sectorOffset * 512 + req.requestSize ≤ j →
    (loadRequest ctx { req with dataBlock }).dataBlock j = dataBlock j
  /-- `afs_read_request` and `afs_read_decode` copy `request_size` bytes to the segments. -/
  scatter : ∀ dataBlock, ∀ i < req.requestSize,
    segmentByte (answerBio { req with dataBlock }).bio.biIoVec i =
      dataBlock (req.sectorOffset * 512 + i)
  scatterOut : ∀ dataBlock i, req.requestSize ≤ i →
    segmentByte (answerBio { req with dataBlock }).bio.biIoVec i = segmentByte req.bio.biIoVec i
  scatterPages : ∀ dataBlock, List.Forall₂ BioVec.SameOutside req.bio.biIoVec
    (answerBio { req with dataBlock }).bio.biIoVec

/-- The requests are the slices of the bio from `done` on, in order. -/
inductive Sliced (bio : Bio) : ℕ → List AfsMapRequest → Prop
  | nil : Sliced bio (bioSectors bio) []
  | cons {done : ℕ} {req : AfsMapRequest} {reqs : List AfsMapRequest} (slice : Slice bio done req)
      (rest : Sliced bio (done + req.requestSize / 512) reqs) : Sliced bio done (req :: reqs)

section

variable {bio cur : Bio} {done : ℕ}

theorem accepted_pos (h : 0 < bioSectors cur) : 0 < bioSectors (acceptPartialBio cur) := by
  unfold acceptPartialBio
  simp only
  split_ifs with hlt
  · unfold bioSectors
    simp only
    omega
  · exact h

theorem accepted_ends (cur : Bio) :
    bioSectors (acceptPartialBio cur) = bioSectors cur ∨
      cur.biSector % 8 + bioSectors (acceptPartialBio cur) = 8 := by
  unfold acceptPartialBio
  simp only
  split_ifs with hlt
  · right
    simp only [bioSectors]
    omega
  · exact .inl rfl

theorem accepted_le (cur : Bio) : bioSectors (acceptPartialBio cur) ≤ bioSectors cur := by
  unfold acceptPartialBio
  simp only
  split_ifs with hlt
  · unfold bioSectors at hlt ⊢
    simp only
    omega
  · exact le_rfl

/-- **The request that `afs_map` makes** from what is left of a bio is the next slice of it. -/
theorem Bio.Left.slice (h : bio.Left done cur) (hpos : 0 < bioSectors cur)
    (hlt : cur.biSector < 2 ^ 35) (fresh : AfsMapRequest) (ctx : AfsPrivate) :
    Slice bio done (mapRequest fresh ctx (acceptPartialBio cur)) ∧
      (mapRequest fresh ctx (acceptPartialBio cur)).requestSize / 512 =
        bioSectors (acceptPartialBio cur) := by
  have hok := h.ok.acceptPartialBio
  have hle := acceptPartialBio_le cur
  have hpos' := accepted_pos hpos
  have hends := accepted_ends cur
  have hsectors := hok.sectors
  have hsegments := hok.segments
  have hsector := acceptPartialBio_biSector cur
  have hbytes : ∀ i, segmentByte (acceptPartialBio cur).biIoVec i =
      segmentByte bio.biIoVec (512 * done + i) := by
    intro i
    rw [acceptPartialBio_biIoVec, h.bytes]
  obtain ⟨part, hpart⟩ : ∃ part, part = acceptPartialBio cur := ⟨_, rfl⟩
  rw [← hpart] at hok hle hpos' hends hsectors hsegments hsector hbytes ⊢
  have hsize : (mapRequest fresh ctx part).requestSize = part.biSize := by
    simp only [mapRequest, bioSectors]
    omega
  have hoffset : (mapRequest fresh ctx part).sectorOffset = cur.biSector % 8 := by
    simp only [mapRequest, hsector]
  have hbio : (mapRequest fresh ctx part).bio = part := rfl
  have hblock : (mapRequest fresh ctx part).block = cur.biSector / 8 := by
    simp only [mapRequest, hsector]
    omega
  obtain ⟨req, hreq⟩ : ∃ req, req = mapRequest fresh ctx part := ⟨_, rfl⟩
  rw [← hreq] at hsize hoffset hbio hblock ⊢
  have hin : req.sectorOffset * 512 + part.biSize ≤ 4096 := by
    rw [hoffset]
    omega
  have hleft := h.size
  unfold bioSectors at hpos' hends
  refine ⟨⟨?_, ?_, ?_, ?_, ?_, ?_, ?_, ?_, ?_, ?_, ?_, ?_⟩, ?_⟩
  · rw [hsize]
    omega
  · rw [hsize]
    exact hsectors
  · rw [hbio, hsize]
  · rw [hblock, hoffset, ← h.sector]
    omega
  · rw [hsize]
    exact hin
  · rw [hsize, bioSectors]
    rcases hends with hends | hends
    · right
      omega
    · left
      rw [hoffset]
      omega
  · rw [hbio]
    exact hbytes
  · intro ctx' dataBlock i hi
    rw [hsize] at hi
    simp only [loadRequest]
    rw [hbio, hsize, ← hbytes]
    generalize req.sectorOffset * 512 = offset
    exact copyFromSegments_in (Nat.zero_add part.biSize) hsegments hi
  · intro ctx' dataBlock j hj
    rw [hsize] at hj
    simp only [loadRequest]
    rw [hbio, hsize]
    generalize req.sectorOffset * 512 = offset at hj
    exact copyFromSegments_out (Nat.zero_add _) hj
  · intro dataBlock i hi
    rw [hsize] at hi
    simp only [answerBio]
    rw [hbio, hsize]
    generalize req.sectorOffset * 512 = offset
    exact segmentByte_copyToSegments (Nat.zero_add part.biSize) hsegments hi
  · intro dataBlock i hi
    rw [hsize] at hi
    simp only [answerBio]
    rw [hbio, hsize]
    exact segmentByte_copyToSegments_out (Nat.zero_add _) hi
  · intro dataBlock
    simp only [answerBio]
    rw [hbio, hsize]
    exact copyToSegments_sameOutside (Nat.zero_add _)
  · rw [hsize, bioSectors]

theorem afsMap_submitted (hop : bio.biOp = .read ∨ bio.biOp = .write) (fresh : AfsMapRequest)
    (ctx : AfsPrivate) :
    afsMap [] true fresh ctx bio =
      some (.submitted, newLife (mapRequest fresh ctx (acceptPartialBio bio)) .flightq) := by
  unfold afsMap
  rw [if_neg (by simp)]
  simp only [acceptPartialBio_biOp]
  rcases hop with hop | hop <;> rw [hop]

theorem Bio.Left.sliced (h : bio.Left done cur) (hop : bio.biOp = .read ∨ bio.biOp = .write)
    (hlt : bio.biSector + bioSectors bio ≤ 2 ^ 35) (fresh : ℕ → AfsMapRequest)
    (ctx : ℕ → AfsPrivate) {n : ℕ} (hn : bioSectors cur ≤ n) :
    Sliced bio done (submitRounds fresh ctx n cur) := by
  have hdone : done + bioSectors cur = bioSectors bio := by
    have hsize := h.size
    unfold bioSectors
    omega
  -- a round takes at least one of the sectors that are left
  induction n generalizing done cur with
  | zero =>
    obtain rfl : done = bioSectors bio := by omega
    exact .nil
  | succ n ih =>
    rw [submitRounds]
    split_ifs with h0
    · obtain rfl : done = bioSectors bio := by omega
      exact .nil
    have hpos : 0 < bioSectors cur := by omega
    have hsector := h.sector
    have hle := accepted_le cur
    have haccepted := accepted_pos hpos
    obtain ⟨hslice, hsize⟩ := h.slice hpos (by omega) (fresh n) (ctx n)
    rw [afsMap_submitted (by rwa [h.op])]
    have hleft := h.advance hle
    have hadvanced : bioSectors (advanceBio cur (bioSectors (acceptPartialBio cur))) =
        bioSectors cur - bioSectors (acceptPartialBio cur) := by
      have := h.ok.sectors
      unfold advanceBio
      simp only [bioSectors]
      omega
    refine .cons hslice ?_
    have hbio : (newLife (mapRequest (fresh n) (ctx n) (acceptPartialBio cur)) .flightq).req.bio =
        acceptPartialBio cur := rfl
    rw [hbio]
    simp only [newLife]
    rw [hsize]
    exact ih hleft (by rw [hadvanced]; omega) (by rw [hadvanced]; omega)

theorem Bio.Ok.sliced (h : bio.Ok) (hop : bio.biOp = .read ∨ bio.biOp = .write)
    (hlt : bio.biSector + bioSectors bio ≤ 2 ^ 35) (fresh : ℕ → AfsMapRequest)
    (ctx : ℕ → AfsPrivate) : Sliced bio 0 (bioRequests fresh ctx bio) :=
  h.left.sliced hop hlt fresh ctx le_rfl

end

/-! ### The whole bio -/

/-- The data blocks after the loops of some writes, each of them over the block that it is for. -/
def gatherRequests (ctx : AfsPrivate) : (ℕ → Mem) → List AfsMapRequest → ℕ → Mem
  | store, [] => store
  | store, req :: rest =>
    gatherRequests ctx (Function.update store req.block
      (loadRequest ctx { req with dataBlock := store req.block }).dataBlock) rest

/-- The bytes that the loops of some reads put into the buffer of the bio, each of them from the
block that it is for. -/
def scatterRequests (store : ℕ → Mem) : List AfsMapRequest → ℕ → UInt8
  | [], _ => 0
  | req :: rest, i =>
    if i < req.requestSize then
      segmentByte (answerBio { req with dataBlock := store req.block }).bio.biIoVec i
    else scatterRequests store rest (i - req.requestSize)

/-- Byte `a` of the blocks, one after the other. -/
def flatByte (store : ℕ → Mem) (a : ℕ) : UInt8 := store (a / 4096) (a % 4096)

section

variable {bio bio' : Bio} {done : ℕ} {req : AfsMapRequest} {reqs reqs' : List AfsMapRequest}

theorem Sliced.le (h : Sliced bio done reqs) : done ≤ bioSectors bio := by
  induction h with
  | nil => exact le_rfl
  | cons slice rest ih => omega

theorem Slice.flatByte_lt (h : Slice bio done req) (store : ℕ → Mem) {i : ℕ}
    (hi : i < req.requestSize) :
    flatByte store (512 * (bio.biSector + done) + i) =
      store req.block (req.sectorOffset * 512 + i) := by
  have hstart := h.start
  have hin := h.inBlock
  have hdiv : (512 * (bio.biSector + done) + i) / 4096 = req.block := by omega
  have hmod : (512 * (bio.biSector + done) + i) % 4096 = req.sectorOffset * 512 + i := by omega
  rw [flatByte, hdiv, hmod]

theorem Slice.flatByte_update (h : Slice bio done req) (ctx : AfsPrivate) (store : ℕ → Mem)
    (a : ℕ) :
    flatByte (Function.update store req.block
        (loadRequest ctx { req with dataBlock := store req.block }).dataBlock) a =
      if 512 * (bio.biSector + done) ≤ a ∧ a < 512 * (bio.biSector + done) + req.requestSize then
        segmentByte bio.biIoVec (a - 512 * bio.biSector)
      else flatByte store a := by
  have hstart := h.start
  have hin := h.inBlock
  split_ifs with hrange
  · obtain ⟨i, rfl⟩ : ∃ i, a = 512 * (bio.biSector + done) + i :=
      ⟨a - 512 * (bio.biSector + done), by omega⟩
    have hi : i < req.requestSize := by omega
    rw [h.flatByte_lt _ hi, Function.update_self, h.gather _ _ i hi]
    congr 1
    omega
  · unfold flatByte
    by_cases hblock : a / 4096 = req.block
    · rw [hblock, Function.update_self]
      exact h.gatherOut _ _ _ (by omega)
    · rw [Function.update_of_ne hblock]

theorem Sliced.flatByte_gather (h : Sliced bio done reqs) (ctx : AfsPrivate) (store : ℕ → Mem)
    (a : ℕ) :
    flatByte (gatherRequests ctx store reqs) a =
      if 512 * (bio.biSector + done) ≤ a ∧ a < 512 * (bio.biSector + bioSectors bio) then
        segmentByte bio.biIoVec (a - 512 * bio.biSector)
      else flatByte store a := by
  induction h generalizing store with
  | nil =>
    rw [if_neg (by omega), gatherRequests]
  | cons slice rest ih =>
    have hsectors := slice.sectors
    have hle := rest.le
    rw [gatherRequests, ih, slice.flatByte_update]
    -- a byte of the slice, of the later slices, or of none
    split_ifs <;> first | rfl | omega

theorem Sliced.scatter (h : Sliced bio done reqs) (store : ℕ → Mem) {i : ℕ}
    (hi : 512 * done + i < 512 * bioSectors bio) :
    scatterRequests store reqs i = flatByte store (512 * (bio.biSector + done) + i) := by
  induction h generalizing i with
  | nil => omega
  | cons slice rest ih =>
    have hsectors := slice.sectors
    rw [scatterRequests]
    split_ifs with hlt
    · rw [slice.scatter _ i hlt, slice.flatByte_lt store hlt]
    · rw [ih (by omega)]
      congr 1
      omega

/-- Where a request lies. -/
def AfsMapRequest.shape (req : AfsMapRequest) : ℕ × ℕ × ℕ :=
  (req.block, req.sectorOffset, req.requestSize)

theorem Sliced.shape_eq (h : Sliced bio done reqs) (h' : Sliced bio' done reqs')
    (hsector : bio'.biSector = bio.biSector) (hsize : bio'.biSize = bio.biSize) :
    reqs'.map AfsMapRequest.shape = reqs.map AfsMapRequest.shape := by
  have hsectors : bioSectors bio' = bioSectors bio := by rw [bioSectors, bioSectors, hsize]
  induction h generalizing reqs' with
  | nil =>
    obtain ⟨done, hdone⟩ : ∃ done, done = bioSectors bio := ⟨_, rfl⟩
    rw [← hdone] at h'
    cases h' with
    | nil => rfl
    | cons slice' rest' =>
      have hpos := slice'.nonempty
      have hmod := slice'.sectors
      have hle := rest'.le
      omega
  | @cons done req reqs slice rest ih =>
    have hpos := slice.nonempty
    have hmod := slice.sectors
    have hle := rest.le
    have hstart := slice.start
    have hin := slice.inBlock
    have hends := slice.ends
    cases h' with
    | nil => omega
    | @cons _ req' reqs' slice' rest' =>
      have hpos' := slice'.nonempty
      have hmod' := slice'.sectors
      have hle' := rest'.le
      have hstart' := slice'.start
      have hin' := slice'.inBlock
      have hends' := slice'.ends
      have hblock : req'.block = req.block := by omega
      have hoffset : req'.sectorOffset = req.sectorOffset := by omega
      have hrequest : req'.requestSize = req.requestSize := by omega
      rw [hrequest] at rest'
      rw [List.map_cons, List.map_cons, ih rest', AfsMapRequest.shape, AfsMapRequest.shape, hblock,
        hoffset, hrequest]

/-- The flat copy of a bio, by its requests: they partition its sectors in order, and their loops
move the bytes between its buffer and the blocks, each to the one place and no other. -/
structure FlatCopy (bio : Bio) (reqs : List AfsMapRequest) : Prop where
  sliced : Sliced bio 0 reqs
  gather : ∀ ctx store a, flatByte (gatherRequests ctx store reqs) a =
    if 512 * bio.biSector ≤ a ∧ a < 512 * bio.biSector + bio.biSize then
      segmentByte bio.biIoVec (a - 512 * bio.biSector)
    else flatByte store a
  scatter : ∀ store, ∀ i < bio.biSize,
    scatterRequests store reqs i = flatByte store (512 * bio.biSector + i)

theorem Bio.Ok.flatCopy (h : bio.Ok) (hop : bio.biOp = .read ∨ bio.biOp = .write)
    (hlt : bio.biSector + bioSectors bio ≤ 2 ^ 35) (fresh : ℕ → AfsMapRequest)
    (ctx : ℕ → AfsPrivate) : FlatCopy bio (bioRequests fresh ctx bio) := by
  have hsliced := h.sliced hop hlt fresh ctx
  have hsectors : 512 * bioSectors bio = bio.biSize := by
    have := h.sectors
    unfold bioSectors
    omega
  refine ⟨hsliced, ?_, ?_⟩
  · intro ctx store a
    rw [hsliced.flatByte_gather, Nat.mul_add 512 _ (bioSectors bio), hsectors]
    rfl
  · intro store i hi
    exact hsliced.scatter store (by omega)

/-- **Slicing a bio is a flat copy**, and a read of the range of a write is inverse to it, whatever
the segments of the two are. -/
theorem requests_flat_copy {bio bio' : Bio} (h : bio.Ok) (h' : bio'.Ok)
    (hop : bio.biOp = .read ∨ bio.biOp = .write) (hop' : bio'.biOp = .read ∨ bio'.biOp = .write)
    (hlt : bio.biSector + bioSectors bio ≤ 2 ^ 35) (hsector : bio'.biSector = bio.biSector)
    (hsize : bio'.biSize = bio.biSize) (fresh fresh' : ℕ → AfsMapRequest)
    (ctx ctx' : ℕ → AfsPrivate) :
    FlatCopy bio (bioRequests fresh ctx bio) ∧
      (bioRequests fresh' ctx' bio').map AfsMapRequest.shape =
        (bioRequests fresh ctx bio).map AfsMapRequest.shape ∧
      (∀ c store, ∀ i < bio.biSize,
        scatterRequests (gatherRequests c store (bioRequests fresh ctx bio))
          (bioRequests fresh' ctx' bio') i = segmentByte bio.biIoVec i) ∧
      ∀ c store, (∀ i < bio.biSize, segmentByte bio.biIoVec i =
          scatterRequests store (bioRequests fresh' ctx' bio') i) →
        flatByte (gatherRequests c store (bioRequests fresh ctx bio)) = flatByte store := by
  have hlt' : bio'.biSector + bioSectors bio' ≤ 2 ^ 35 := by
    rw [hsector, bioSectors, hsize]
    exact hlt
  have hflat := h.flatCopy hop hlt fresh ctx
  have hflat' := h'.flatCopy hop' hlt' fresh' ctx'
  refine ⟨hflat, hflat.sliced.shape_eq hflat'.sliced hsector hsize, ?_, ?_⟩
  · intro c store i hi
    rw [hflat'.scatter _ i (by omega), hsector, hflat.gather, if_pos (by omega),
      Nat.add_sub_cancel_left]
  · intro c store hbytes
    funext a
    rw [hflat.gather]
    split_ifs with hrange
    · rw [hbytes _ (by omega), hflat'.scatter _ _ (by omega), hsector,
        Nat.add_sub_cancel' hrange.1]
    · rfl

end

/-- A write of ten sectors from sector 5 on, in one segment. -/
def longWrite : Bio := ⟨.write, 5, 5120, [⟨fun i => UInt8.ofNat i, 0, 8192⟩], 0⟩

/-- A read of the same sectors, in three segments. -/
def longRead : Bio :=
  ⟨.read, 5, 5120, [⟨fun _ => 1, 100, 1000⟩, ⟨fun _ => 2, 7, 4000⟩, ⟨fun _ => 3, 0, 120⟩], 0⟩

theorem longWrite_ok : longWrite.Ok := ⟨rfl, by decide⟩

theorem longRead_ok : longRead.Ok := ⟨rfl, by decide⟩

/-- The last byte of the read is that of the write, over two requests each. -/
theorem longRead_after_longWrite :
    scatterRequests
        (gatherRequests (smallContext []) (fun _ _ => 0)
          (bioRequests (fun _ => zeroRequest) (fun _ => smallContext []) longWrite))
        (bioRequests (fun _ => zeroRequest) (fun _ => smallContext []) longRead) 5119 = 255 :=
  (requests_flat_copy longWrite_ok longRead_ok (.inr rfl) (.inl rfl) (by decide) rfl rfl _ _ _
    _).2.2.1 _ _ 5119 (by decide)

end Artifice
