import Artifice.Engine.Interleave
import Artifice.Engine.Slicing

/-!
Bios of any length, any number of them at the same time.

The device mapper submits a bio until `afs_map` has taken all of it, and every part that was taken
is a request of its own. The requests of all bios take their steps in any order. Seen over the bios,
the target is a flat device of bytes: a write replaces its range when the bio is complete, and a read
returns the range that it names.
-/

namespace Artifice

open Lib

/-- A part of a bio that `afs_map` has taken: the number of its request, the sectors of the bio that
are before it, and its own. -/
structure Piece where
  index : ℕ
  start : ℕ
  len : ℕ

/-- A bio that is under way: the sectors that were taken of it, what is left, and its parts. -/
structure Pending where
  bio : Bio
  taken : ℕ
  left : Bio
  pieces : List Piece

/-- A bio that has been submitted. -/
def Bio.pending (bio : Bio) : Pending := ⟨bio, 0, bio, []⟩

/-- `afs_map` takes the next part, for request `index`. -/
def Pending.submit (p : Pending) (index : ℕ) : Pending :=
  let n := bioSectors (acceptPartialBio p.left)
  { p with
    taken := p.taken + n
    left := advanceBio p.left n
    pieces := ⟨index, p.taken, n⟩ :: p.pieces }

/-- The buffer of the bio, when its requests have ended: every part is in the buffer of its own. -/
def Pending.buffer (t : Target) (p : Pending) (i : ℕ) : UInt8 :=
  match p.pieces.find? fun q => 512 * q.start ≤ i ∧ i < 512 * (q.start + q.len) with
  | some q => (t.lives[q.index]?).elim 0 fun l => l.2.answer (i - 512 * q.start)
  | none => 0

/-- The bio has sectors of block `b`. -/
def Bio.Touches (bio : Bio) (b : ℕ) : Prop :=
  bio.biSector / 8 ≤ b ∧ 8 * b < bio.biSector + bioSectors bio

/-- No block has sectors of both. -/
def Bio.Apart (bio bio' : Bio) : Prop := ∀ b, bio.Touches b → ¬ bio'.Touches b

/-- A bio that a flat run submits: sectors of the device, and whole blocks if it is a write. -/
structure Bio.Submittable (numBlocks : ℕ) (bio : Bio) : Prop extends bio.Ok where
  op : bio.biOp = .read ∨ bio.biOp = .write
  aligned : bio.biOp = .write → bio.biSector % 8 = 0 ∧ bio.biSize % 4096 = 0
  range : bio.biSector + bioSectors bio ≤ 8 * numBlocks

/-- A bio that is complete, and its buffer. -/
structure Completed where
  bio : Bio
  bytes : ℕ → UInt8

/-- A run of bios: they are submitted as long as they share no block with one that is under way,
their parts are mapped one after the other, all requests take their steps in any order, and a bio is
complete when all of it was taken and its requests have ended. -/
inductive FlatRun (k : Kernel) (g : GfCtx) (ctx₀ : AfsPrivate) :
    List Completed → List Pending → Target → Prop
  | start : FlatRun k g ctx₀ [] [] (newTarget ctx₀)
  | submit {done pending t} (bio : Bio) (before : FlatRun k g ctx₀ done pending t)
      (ok : bio.Submittable t.ctx.config.numBlocks) (apart : ∀ p ∈ pending, bio.Apart p.bio) :
      FlatRun k g ctx₀ done (bio.pending :: pending) t
  | map {done pre p post t fresh t'} (before : FlatRun k g ctx₀ done (pre ++ p :: post) t)
      (some_ : 0 < bioSectors p.left) (step : t.next k g (.map true fresh p.left) = some t') :
      FlatRun k g ctx₀ done (pre ++ p.submit t.lives.length :: post) t'
  | step {done pending t i a t'} (before : FlatRun k g ctx₀ done pending t)
      (orderly : Orderly t (.step i a)) (step : t.next k g (.step i a) = some t') :
      FlatRun k g ctx₀ done pending t'
  | complete {done pre p post t} (before : FlatRun k g ctx₀ done (pre ++ p :: post) t)
      (taken : bioSectors p.left = 0)
      (quiet : ∀ q ∈ p.pieces, ∀ l, ¬ t.Open q.index l) :
      FlatRun k g ctx₀ (done ++ [⟨p.bio, p.buffer t⟩]) (pre ++ post) t

/-- The flat device: a write replaces its range. -/
def flatStep (bytes : ℕ → UInt8) (r : Completed) : ℕ → UInt8 := fun a =>
  if r.bio.biOp = .write ∧ 512 * r.bio.biSector ≤ a ∧ a < 512 * r.bio.biSector + r.bio.biSize then
    segmentByte r.bio.biIoVec (a - 512 * r.bio.biSector)
  else bytes a

/-- The flat device after some bios; zeros where nothing was written. -/
def flatWrites (done : List Completed) : ℕ → UInt8 := done.foldl flatStep fun _ => 0

/-- What is known of a bio under way, besides its requests. -/
structure Pending.Valid (numBlocks : ℕ) (p : Pending) : Prop where
  submittable : p.bio.Submittable numBlocks
  rest : p.bio.Left p.taken p.left
  /-- What is left starts with a block. -/
  cut : p.taken = 0 ∨ (p.bio.biSector + p.taken) % 8 = 0 ∨ bioSectors p.left = 0
  covered : ∀ s < p.taken, ∃ q ∈ p.pieces, q.start ≤ s ∧ s < q.start + q.len

/-- The part lies in its bio, in one block. -/
structure Piece.Valid (p : Pending) (q : Piece) : Prop where
  pos : 0 < q.len
  taken : q.start + q.len ≤ p.taken
  inBlock : (p.bio.biSector + q.start) % 8 + q.len ≤ 8
  whole : p.bio.biOp = .write → (p.bio.biSector + q.start) % 8 = 0 ∧ q.len = 8

/-- The block of a part. -/
def Piece.block (p : Pending) (q : Piece) : ℕ := (p.bio.biSector + q.start) / 8

/-- The bio of a request is the part. -/
structure Piece.Carried (p : Pending) (q : Piece) (part : Bio) : Prop where
  sector : part.biSector = p.bio.biSector + q.start
  size : part.biSize = 512 * q.len
  op : part.biOp = p.bio.biOp
  bytes : ∀ i, segmentByte part.biIoVec i = segmentByte p.bio.biIoVec (512 * q.start + i)

/-- How far the request of a part has come: it is open, or it has ended and returned what the device
holds, or written what the bio holds. -/
inductive Piece.Stage (flat : ℕ → UInt8) (store : ℕ → Mem) (p : Pending) (q : Piece) (l : Life) :
    Prop
  | going (open_ : ¬ l.Quiet) (carried : q.Carried p l.req.bio)
  | answered (op : p.bio.biOp = .read) (quiet : l.Quiet)
      (answer : ∀ i < 512 * q.len, l.answer i = flat (512 * (p.bio.biSector + q.start) + i))
  | written (op : p.bio.biOp = .write) (quiet : l.Quiet)
      (data : ∀ i < 4096, store (q.block p) i = segmentByte p.bio.biIoVec (512 * q.start + i))

/-- A flat run is a run of one-block requests. The open ones are parts of the bios under way; every
block without a pending write holds what the flat device does. -/
structure Flattened (k : Kernel) (g : GfCtx) (ctx₀ : AfsPrivate) (done : List Completed)
    (pending : List Pending) (t : Target) (trace : List Done) : Prop where
  run : Interleaved k g ctx₀ trace t
  valid : ∀ p ∈ pending, p.Valid t.ctx.config.numBlocks
  apart : (pending.map Pending.bio).Pairwise Bio.Apart
  pieces : ∀ p ∈ pending, ∀ q ∈ p.pieces, q.Valid p
  stage : ∀ p ∈ pending, ∀ q ∈ p.pieces, ∃ o l, t.lives[q.index]? = some (o, l) ∧
    q.Stage (flatWrites done) (lastWrite trace) p l
  owned : ∀ i l, t.Open i l → ∃ p ∈ pending, ∃ q ∈ p.pieces, q.index = i
  store : ∀ b, (∀ p ∈ pending, p.bio.biOp = .write → ¬ p.bio.Touches b) → ∀ i < 4096,
    lastWrite trace b i = flatWrites done (4096 * b + i)
  answers : ∀ pre r post, done = pre ++ r :: post → r.bio.biOp = .read → ∀ i < r.bio.biSize,
    r.bytes i = flatWrites pre (512 * r.bio.biSector + i)

section

variable {k : Kernel} {g : GfCtx} {ctx₀ : AfsPrivate} {done : List Completed}
  {pending pre post : List Pending} {t t' : Target} {trace : List Done} {p p' : Pending}
  {q q' : Piece} {bio : Bio} {b i numBlocks : ℕ} {l : Life} {a : Act} {fresh : AfsMapRequest}

theorem flatWrites_append (r : Completed) :
    flatWrites (done ++ [r]) = flatStep (flatWrites done) r := by
  rw [flatWrites, List.foldl_append]
  rfl

/-! ### The parts of a bio -/

theorem bioSectors_left (h : p.bio.Left p.taken p.left) :
    p.taken + bioSectors p.left = bioSectors p.bio := by
  have hsize := h.size
  unfold bioSectors
  omega

theorem Piece.Valid.touches (h : q.Valid p) (hp : p.Valid numBlocks) : p.bio.Touches (q.block p) := by
  have hpos := h.pos
  have htaken := h.taken
  have hleft := bioSectors_left hp.rest
  unfold Bio.Touches Piece.block
  omega

@[simp] theorem Pending.submit_bio (p : Pending) (index : ℕ) : (p.submit index).bio = p.bio := rfl

instance : Std.Symm Bio.Apart := ⟨fun _ _ h b hb hb' => h b hb' hb⟩

theorem Pending.Valid.part (h : p.Valid numBlocks) (hpos : 0 < bioSectors p.left) (index : ℕ) :
    (acceptPartialBio p.left).InBlock ∧
      (⟨index, p.taken, bioSectors (acceptPartialBio p.left)⟩ : Piece).Valid (p.submit index) ∧
      (⟨index, p.taken, bioSectors (acceptPartialBio p.left)⟩ : Piece).Carried (p.submit index)
        (acceptPartialBio p.left) := by
  have hok := h.rest.ok.acceptPartialBio
  have hsectors := hok.sectors
  have hsector : (acceptPartialBio p.left).biSector = p.bio.biSector + p.taken := by
    rw [acceptPartialBio_biSector, h.rest.sector]
  have hrange := acceptPartialBio_le p.left
  have hends := accepted_ends p.left
  have hleft := bioSectors_left h.rest
  have hpart := accepted_pos hpos
  have hcut := h.cut
  rw [h.rest.sector] at hends hrange
  refine ⟨⟨hok, ?_⟩, ⟨hpart, le_refl _, ?_, fun hop => ?_⟩, hsector, ?_, ?_, fun i => ?_⟩
  · rw [hsector]
    omega
  · simp only [Pending.submit, bioSectors]
    omega
  · obtain ⟨h0, hsize⟩ := h.submittable.aligned hop
    simp only [Pending.submit]
    unfold bioSectors at *
    omega
  · simp only [bioSectors]
    omega
  · rw [acceptPartialBio_biOp, h.rest.op, Pending.submit_bio]
  · rw [acceptPartialBio_biIoVec, h.rest.bytes, Pending.submit_bio]

theorem Pending.Valid.submit (h : p.Valid numBlocks) (index : ℕ) :
    (p.submit index).Valid numBlocks := by
  have hends := accepted_ends p.left
  have hleft := h.rest.advance (accepted_le p.left)
  have hsectors := bioSectors_left h.rest
  have hsectors' := bioSectors_left (p := p.submit index) hleft
  rw [h.rest.sector] at hends
  refine ⟨h.submittable, hleft, ?_, fun s hs => ?_⟩
  · simp only [Pending.submit] at hsectors' ⊢
    omega
  · simp only [Pending.submit] at hs
    by_cases hlt : s < p.taken
    · obtain ⟨q, hq, hcover⟩ := h.covered s hlt
      exact ⟨q, List.mem_cons_of_mem _ hq, hcover⟩
    · exact ⟨_, List.mem_cons_self .., Nat.le_of_not_lt hlt, hs⟩

theorem Piece.Valid.submit (h : q.Valid p) (index : ℕ) : q.Valid (p.submit index) :=
  ⟨h.pos, h.taken.trans (Nat.le_add_right _ _), h.inBlock, h.whole⟩

theorem Piece.Valid.block_lt (h : q.Valid p) (hp : p.Valid numBlocks)
    (hpos : 0 < bioSectors p.left) : q.block p < (acceptPartialBio p.left).biSector / 8 := by
  have hcut := hp.cut
  have hq := h.pos
  have htaken := h.taken
  rw [acceptPartialBio_biSector, hp.rest.sector, Piece.block]
  omega

theorem acceptPartialBio_idem (h : (acceptPartialBio bio).InBlock) :
    acceptPartialBio (acceptPartialBio bio) = acceptPartialBio bio :=
  acceptPartialBio_eq h.range

theorem next_map_part (h : (acceptPartialBio bio).InBlock) (fresh : AfsMapRequest) :
    t.next k g (.map true fresh bio) = t.next k g (.map true fresh (acceptPartialBio bio)) := by
  unfold Target.next afsMap
  simp only [acceptPartialBio_idem h]

/-! ### The requests of the bios -/

theorem Flattened.apart_of_ne (h : Flattened k g ctx₀ done pending t trace) (hp : p ∈ pending)
    (hp' : p' ∈ pending) (hne : p ≠ p') : p.bio.Apart p'.bio := by
  have hpairwise := List.pairwise_map.1 h.apart
  have : Std.Symm fun a b : Pending => a.bio.Apart b.bio := ⟨fun _ _ h => symm h⟩
  exact hpairwise.forall hp hp' hne

theorem Flattened.carried (h : Flattened k g ctx₀ done pending t trace) (hopen : t.Open i l) :
    ∃ p ∈ pending, ∃ q ∈ p.pieces, q.index = i ∧ q.Carried p l.req.bio := by
  obtain ⟨p, hp, q, hq, rfl⟩ := h.owned i l hopen
  obtain ⟨o, ho, hquiet⟩ := hopen
  obtain ⟨o', l', hl', hstage⟩ := h.stage p hp q hq
  rw [ho] at hl'
  cases hl'
  refine ⟨p, hp, q, hq, rfl, ?_⟩
  cases hstage with
  | going _ carried => exact carried
  | answered _ quiet => exact absurd quiet hquiet
  | written _ quiet => exact absurd quiet hquiet

theorem Piece.Carried.dataBlock (h : q.Carried p l.req.bio) : l.dataBlock = q.block p := by
  rw [Life.dataBlock, h.sector, Piece.block]

/-- **A bio is submitted.** -/
theorem Flattened.submit (h : Flattened k g ctx₀ done pending t trace)
    (hok : bio.Submittable t.ctx.config.numBlocks)
    (hapart : ∀ p ∈ pending, bio.Apart p.bio) :
    Flattened k g ctx₀ done (bio.pending :: pending) t trace := by
  refine ⟨h.run, ?_, List.pairwise_cons.2 ⟨List.forall_mem_map.2 hapart, h.apart⟩, ?_, ?_,
    fun i l hopen => ?_,
    fun b hb => h.store b fun p hp => hb p (List.mem_cons_of_mem _ hp), h.answers⟩
  · refine List.forall_mem_cons.2 ⟨?_, h.valid⟩
    exact ⟨hok, hok.left, Or.inl rfl, fun s hs => absurd hs (Nat.not_lt_zero s)⟩
  · exact List.forall_mem_cons.2 ⟨fun q hq => absurd hq (List.not_mem_nil), h.pieces⟩
  · exact List.forall_mem_cons.2 ⟨fun q hq => absurd hq (List.not_mem_nil), h.stage⟩
  · obtain ⟨p, hp, hq⟩ := h.owned i l hopen
    exact ⟨p, List.mem_cons_of_mem _ hp, hq⟩

theorem getElem?_lives_append {x y : Origin × Life} (h : t.lives[i]? = some x) :
    (t.lives ++ [y])[i]? = some x := by
  rw [List.getElem?_append_left (List.getElem?_eq_some_iff.1 h).1]
  exact h

/-- **The next part of a bio is mapped.** -/
theorem Flattened.map (h : Flattened k g ctx₀ done (pre ++ p :: post) t trace)
    (hk : ∀ n, k.kmalloc n = true) (h0 : Holds k ctx₀ fun _ _ => 0) (hpos : 0 < bioSectors p.left)
    (hstep : t.next k g (.map true fresh p.left) = some t') :
    Flattened k g ctx₀ done (pre ++ p.submit t.lives.length :: post) t' trace := by
  have hmem : p ∈ pre ++ p :: post := List.mem_append_right _ (List.mem_cons_self ..)
  have hp := h.valid p hmem
  obtain ⟨hin, hnew, hcarried⟩ := hp.part hpos t.lives.length
  obtain ⟨hcalm, -⟩ := h.run.calm hk h0
  have hop : (acceptPartialBio p.left).biOp = .read ∨ (acceptPartialBio p.left).biOp = .write := by
    rw [hcarried.op]
    exact hp.submittable.op
  rw [next_map_part hin] at hstep
  have hnext := next_map_inBlock (k := k) (g := g) hcalm.registered hin hop fresh
  rw [hstep] at hnext
  obtain rfl := Option.some.inj hnext
  have htouch : p.bio.Touches ((acceptPartialBio p.left).biSector / 8) := by
    rw [hcarried.sector]
    exact hnew.touches (hp.submit t.lives.length)
  -- the block of the part is in range, and nobody works on it
  have hrange : (acceptPartialBio p.left).biSector / 8 < t.ctx.config.numBlocks := by
    have hbio := hp.submittable.range
    have hlt := htouch.2
    omega
  have hfree : ∀ i l, t.Open i l → l.dataBlock ≠ (acceptPartialBio p.left).biSector / 8 := by
    intro i l hopen
    obtain ⟨p', hp', q, hq, -, hc⟩ := h.carried hopen
    have hvalid := h.pieces p' hp' q hq
    rw [hc.dataBlock]
    by_cases heq : p' = p
    · subst heq
      exact (hvalid.block_lt hp hpos).ne
    · intro hb
      exact h.apart_of_ne hp' hmem heq _ (hvalid.touches (h.valid p' hp')) (hb ▸ htouch)
  have horderly : Orderly t (.map true fresh (acceptPartialBio p.left)) := by
    refine fun _ _ => ⟨hin, fun hw => ?_, hrange, hfree⟩
    rw [hcarried.op] at hw
    obtain ⟨h8, hlen⟩ := hnew.whole hw
    refine ⟨hcarried.sector ▸ h8, ?_⟩
    rw [hcarried.size, hlen]
  have hrun := h.run.next horderly hstep
  simp only [finished, List.append_nil] at hrun
  -- the bios are those of before, and one of them has got one more part
  have hbios : (pre ++ p.submit t.lives.length :: post).map Pending.bio =
      (pre ++ p :: post).map Pending.bio := by simp
  have hcases : ∀ p' ∈ pre ++ p.submit t.lives.length :: post,
      p' = p.submit t.lives.length ∨ p' ∈ pre ++ p :: post := by
    intro p' hp'
    simp only [List.mem_append, List.mem_cons] at hp' ⊢
    tauto
  have hlives := fun {i : ℕ} {x : Origin × Life} (hx : t.lives[i]? = some x) =>
    @getElem?_lives_append t i x (.map, newLife (mapRequest fresh t.ctx (acceptPartialBio p.left))
      .flightq) hx
  refine ⟨hrun, fun p' hp' => ?_, hbios ▸ h.apart, fun p' hp' q hq => ?_, fun p' hp' q hq => ?_,
    fun i l hopen => ?_, fun b hb => h.store b fun p' hp' => ?_, h.answers⟩
  · rcases hcases p' hp' with rfl | hold
    · exact hp.submit _
    · exact h.valid p' hold
  · rcases hcases p' hp' with rfl | hold
    · rcases List.mem_cons.1 hq with rfl | hq
      · exact hnew
      · exact (h.pieces p hmem q hq).submit _
    · exact h.pieces p' hold q hq
  · rcases hcases p' hp' with rfl | hold
    · rcases List.mem_cons.1 hq with rfl | hq
      · exact ⟨_, _, List.getElem?_concat_length, .going (by simp [Life.Quiet, newLife]) hcarried⟩
      · obtain ⟨o, l, hl, hstage⟩ := h.stage p hmem q hq
        refine ⟨o, l, hlives hl, ?_⟩
        cases hstage with
        | going open_ carried =>
          exact .going open_ ⟨carried.sector, carried.size, carried.op, carried.bytes⟩
        | answered op quiet answer => exact .answered op quiet answer
        | written op quiet data => exact .written op quiet data
    · obtain ⟨o, l, hl, hstage⟩ := h.stage p' hold q hq
      exact ⟨o, l, hlives hl, hstage⟩
  · obtain ⟨o, ho, hquiet⟩ := hopen
    dsimp only at ho
    rcases lt_trichotomy i t.lives.length with hlt | rfl | hgt
    · rw [List.getElem?_append_left hlt] at ho
      obtain ⟨p', hp', q, hq, hi⟩ := h.owned i l ⟨o, ho, hquiet⟩
      by_cases heq : p' = p
      · subst heq
        exact ⟨_, List.mem_append_right _ (List.mem_cons_self ..), q, List.mem_cons_of_mem _ hq, hi⟩
      · refine ⟨p', ?_, q, hq, hi⟩
        simp only [List.mem_append, List.mem_cons] at hp' ⊢
        tauto
    · exact ⟨_, List.mem_append_right _ (List.mem_cons_self ..), _, List.mem_cons_self .., rfl⟩
    · rw [List.getElem?_eq_none (by simp; omega)] at ho
      cases ho
  · by_cases heq : p' = p
    · subst heq
      exact hb (p'.submit t.lives.length) (List.mem_append_right _ (List.mem_cons_self ..))
    · refine hb p' ?_
      simp only [List.mem_append, List.mem_cons] at hp' ⊢
      tauto

theorem flatStep_out {r : Completed} {bytes : ℕ → UInt8} (hok : r.bio.Ok) (hi : i < 4096)
    (h : r.bio.biOp = .write → ¬ r.bio.Touches b) :
    flatStep bytes r (4096 * b + i) = bytes (4096 * b + i) := by
  rw [flatStep, if_neg]
  rintro ⟨hop, hge, hlt⟩
  have hsectors := hok.sectors
  refine h hop ⟨by omega, ?_⟩
  unfold bioSectors
  omega

theorem Flattened.ended (h : Flattened k g ctx₀ done pending t trace) (hp : p ∈ pending)
    (hq : q ∈ p.pieces) (hquiet : l.Quiet) {part : Bio} (hc : q.Carried p part)
    (hans : p.bio.biOp = .read → Answered (lastWrite trace) ⟨part, l⟩) :
    q.Stage (flatWrites done) (deviceStep (lastWrite trace) ⟨part, l⟩) p l := by
  have hvalid := h.pieces p hp q hq
  have hvalid' := h.valid p hp
  have htouch := hvalid.touches hvalid'
  rcases hvalid'.submittable.op with hop | hop
  · refine .answered hop hquiet fun i hi => ?_
    have hin := hvalid.inBlock
    have hanswer := hans hop i (by simpa only [hc.size] using hi)
    dsimp only at hanswer
    rw [hanswer, hc.sector]
    -- no write under way touches the block
    rw [h.store _ (fun p' hp' hw hb => ?_) _ (by omega)]
    · congr 1
      omega
    · by_cases heq : p' = p
      · subst heq
        rw [hop] at hw
        cases hw
      · exact h.apart_of_ne hp' hp heq _ hb htouch
  · refine .written hop hquiet fun i _ => ?_
    have hblock : part.biSector / 8 = q.block p := by rw [hc.sector, Piece.block]
    rw [deviceStep, if_pos (hc.op.trans hop)]
    simp only [hblock, Function.update_self]
    exact hc.bytes i

theorem Flattened.stage_deviceStep (h : Flattened k g ctx₀ done pending t trace) (hp : p ∈ pending)
    (hq : q ∈ p.pieces) (hp' : p' ∈ pending) (hq' : q' ∈ p'.pieces) {part : Bio} {life : Life}
    (hc : q.Carried p part) (hs : q'.Stage (flatWrites done) (lastWrite trace) p' l) :
    q'.Stage (flatWrites done) (deviceStep (lastWrite trace) ⟨part, life⟩) p' l := by
  cases hs with
  | going open_ carried => exact .going open_ carried
  | answered op quiet answer => exact .answered op quiet answer
  | written op quiet data =>
    refine .written op quiet fun i hi => ?_
    rw [deviceStep]
    split_ifs with hw
    · have hblock : part.biSector / 8 = q.block p := by rw [hc.sector, Piece.block]
      by_cases hb : q'.block p' = q.block p
      · -- two parts of one write on one block are the same
        have hv := h.pieces p hp q hq
        have hv' := h.pieces p' hp' q' hq'
        obtain rfl : p = p' := by
          by_contra hne
          exact h.apart_of_ne hp hp' hne _ (hv.touches (h.valid p hp))
            (hb ▸ hv'.touches (h.valid p' hp'))
        obtain ⟨h8, -⟩ := hv.whole op
        obtain ⟨h8', -⟩ := hv'.whole op
        have hstart : q.start = q'.start := by
          unfold Piece.block at hb
          omega
        simp only [hblock, hb, Function.update_self]
        rw [hc.bytes, hstart]
      · simp only [hblock, Function.update_of_ne hb]
        exact data i hi
    · exact data i hi

theorem Flattened.store_deviceStep (h : Flattened k g ctx₀ done pending t trace) (hp : p ∈ pending)
    (hq : q ∈ p.pieces) {part : Bio} (hc : q.Carried p part)
    (hb : ∀ p ∈ pending, p.bio.biOp = .write → ¬ p.bio.Touches b) :
    deviceStep (lastWrite trace) ⟨part, l⟩ b = lastWrite trace b := by
  rw [deviceStep]
  split_ifs with hw
  · have hblock : part.biSector / 8 = q.block p := by rw [hc.sector, Piece.block]
    refine Function.update_of_ne ?_ _ _
    simp only [hblock]
    rintro rfl
    exact hb p hp (hc.op.symm.trans hw) ((h.pieces p hp q hq).touches (h.valid p hp))
  · rfl

/-- **A request takes a step.** -/
theorem Flattened.step (h : Flattened k g ctx₀ done pending t trace)
    (hk : ∀ n, k.kmalloc n = true) (h0 : Holds k ctx₀ fun _ _ => 0)
    (hord : Orderly t (.step i a)) (hstep : t.next k g (.step i a) = some t') :
    ∃ trace', Flattened k g ctx₀ done pending t' trace' := by
  have hrun := h.run.next hord hstep
  obtain ⟨hcalm, -⟩ := h.run.calm hk h0
  obtain ⟨-, ⟨_, _, _, _, _, hev, -⟩ | ⟨_, _, hev, -⟩ | ⟨j, c, o, l, ctx', l', hev, hi, hs, rfl⟩ |
    ⟨hev, -⟩⟩ := Target.next_cases hstep
  · cases hev
  · cases hev
  · obtain ⟨rfl, rfl⟩ : i = j ∧ a = c := by
      cases hev
      exact ⟨rfl, rfl⟩
    obtain ⟨ha, hcan⟩ := hord
    have hopen : t.Open i l := ⟨o, hi, (lifeStep_of_step hs).not_quiet⟩
    obtain ⟨heff, hout⟩ := (hcalm.serving i l hopen).step hcalm.inst hcalm.placed hk
      (hcalm.content_of_read hopen) hs ha fun e he => hcan e l he hopen
    obtain ⟨-, hans⟩ := hcalm.step hk hi hs ha fun e he => hcan e l he hopen
    obtain ⟨p, hp, q, hq, hqi, hc⟩ := h.carried hopen
    rw [finished_step hi] at hrun
    have hself : (t.lives.set i (o, l'))[i]? = some (o, l') :=
      List.getElem?_set_self (List.getElem?_eq_some_iff.1 hi).1
    have hother : ∀ {j : ℕ}, j ≠ i → (t.lives.set i (o, l'))[j]? = t.lives[j]? := fun hne =>
      List.getElem?_set_ne hne.symm
    have hvalid : ∀ p ∈ pending, p.Valid ctx'.config.numBlocks := by
      rw [heff.same.config]
      exact h.valid
    -- the parts that are request `i`
    have hcarried : ∀ p' ∈ pending, ∀ q' ∈ p'.pieces, q'.index = i → q'.Carried p' l.req.bio := by
      rintro p' hp' q' hq' rfl
      obtain ⟨o', l₂, hl₂, hstage⟩ := h.stage p' hp' q' hq'
      rw [hi] at hl₂
      cases hl₂
      cases hstage with
      | going _ carried => exact carried
      | answered _ quiet => exact absurd quiet (lifeStep_of_step hs).not_quiet
      | written _ quiet => exact absurd quiet (lifeStep_of_step hs).not_quiet
    have howned : ∀ j l₂, ({ t with ctx := ctx', lives := t.lives.set i (o, l') } : Target).Open j l₂ →
        ∃ p ∈ pending, ∃ q ∈ p.pieces, q.index = j := by
      intro j l₂ hj
      by_cases hji : j = i
      · exact ⟨p, hp, q, hq, hqi.trans hji.symm⟩
      · exact h.owned j l₂ ((open_set_iff hji).1 hj)
    by_cases hquiet : l'.Quiet
    · rw [if_pos hquiet] at hrun
      refine ⟨_, hrun, hvalid, h.apart, h.pieces, fun p' hp' q' hq' => ?_, howned,
        fun b hb i' hi' => ?_, h.answers⟩
      · rw [lastWrite_append]
        by_cases hji : q'.index = i
        · have hc' := hcarried p' hp' q' hq' hji
          exact ⟨o, l', hji ▸ hself, h.ended hp' hq' hquiet hc' fun hop =>
            hans hquiet (hc'.op.trans hop)⟩
        · obtain ⟨o', l₂, hl₂, hstage⟩ := h.stage p' hp' q' hq'
          exact ⟨o', l₂, (hother hji).trans hl₂, h.stage_deviceStep hp hq hp' hq' hc hstage⟩
      · rw [lastWrite_append, h.store_deviceStep hp hq hc hb]
        exact h.store b hb i' hi'
    · rw [if_neg hquiet, List.append_nil] at hrun
      have hbio : l'.req.bio = l.req.bio := by
        cases hout with
        | going _ _ sameBio => exact sameBio
        | answered _ quiet => exact absurd quiet hquiet
        | written _ quiet => exact absurd quiet hquiet
      refine ⟨_, hrun, hvalid, h.apart, h.pieces, fun p' hp' q' hq' => ?_, howned, h.store,
        h.answers⟩
      by_cases hji : q'.index = i
      · exact ⟨o, l', hji ▸ hself, .going hquiet (hbio ▸ hcarried p' hp' q' hq' hji)⟩
      · obtain ⟨o', l₂, hl₂, hstage⟩ := h.stage p' hp' q' hq'
        exact ⟨o', l₂, (hother hji).trans hl₂, hstage⟩
  · cases hev

theorem Flattened.closed (h : Flattened k g ctx₀ done pending t trace) (hp : p ∈ pending)
    (htaken : bioSectors p.left = 0) (hquiet : ∀ q ∈ p.pieces, ∀ l, ¬ t.Open q.index l) :
    p.taken = bioSectors p.bio ∧ ∀ q ∈ p.pieces, ∃ o l, t.lives[q.index]? = some (o, l) ∧ l.Quiet ∧
      q.Stage (flatWrites done) (lastWrite trace) p l := by
  have hsectors := bioSectors_left (h.valid p hp).rest
  refine ⟨by omega, fun q hq => ?_⟩
  obtain ⟨o, l, hl, hstage⟩ := h.stage p hp q hq
  refine ⟨o, l, hl, ?_, hstage⟩
  by_contra hno
  exact hquiet q hq l ⟨o, hl, hno⟩

/-- **A read that is complete has the bytes of the flat device in its buffer.** -/
theorem Flattened.buffer (h : Flattened k g ctx₀ done pending t trace) (hp : p ∈ pending)
    (htaken : bioSectors p.left = 0) (hquiet : ∀ q ∈ p.pieces, ∀ l, ¬ t.Open q.index l)
    (hop : p.bio.biOp = .read) (hi : i < p.bio.biSize) :
    p.buffer t i = flatWrites done (512 * p.bio.biSector + i) := by
  obtain ⟨hall, hclosed⟩ := h.closed hp htaken hquiet
  have hvalid := h.valid p hp
  have hsectors := hvalid.submittable.sectors
  obtain ⟨q₀, hq₀, hge, hlt⟩ := hvalid.covered (i / 512) (by unfold bioSectors at hall; omega)
  rw [Pending.buffer]
  cases hfind : p.pieces.find? fun q => 512 * q.start ≤ i ∧ i < 512 * (q.start + q.len) with
  | none =>
    have hno := List.find?_eq_none.1 hfind q₀ hq₀
    simp only [decide_eq_true_eq] at hno
    omega
  | some q =>
    have hrange := List.find?_some hfind
    simp only [decide_eq_true_eq] at hrange
    obtain ⟨o, l, hl, hq, hstage⟩ := hclosed q (List.mem_of_find?_eq_some hfind)
    simp only [hl, Option.elim_some]
    cases hstage with
    | going open_ => exact absurd hq open_
    | answered _ _ answer =>
      rw [answer _ (by omega)]
      congr 1
      omega
    | written op =>
      rw [hop] at op
      cases op

/-- **A write that is complete has its bytes on the device.** -/
theorem Flattened.written (h : Flattened k g ctx₀ done pending t trace) (hp : p ∈ pending)
    (htaken : bioSectors p.left = 0) (hquiet : ∀ q ∈ p.pieces, ∀ l, ¬ t.Open q.index l)
    (hop : p.bio.biOp = .write) (hb : p.bio.Touches b) (hi : i < 4096) :
    lastWrite trace b i = flatStep (flatWrites done) ⟨p.bio, p.buffer t⟩ (4096 * b + i) := by
  obtain ⟨hall, hclosed⟩ := h.closed hp htaken hquiet
  have hvalid := h.valid p hp
  obtain ⟨h8, hsize⟩ := hvalid.submittable.aligned hop
  obtain ⟨hge, hlt⟩ := hb
  obtain ⟨q, hq, hstart, hend⟩ := hvalid.covered (8 * b - p.bio.biSector) (by omega)
  obtain ⟨o, l, -, hquiet', hstage⟩ := hclosed q hq
  obtain ⟨hq8, hlen⟩ := (h.pieces p hp q hq).whole hop
  have hblock : q.block p = b := by
    unfold Piece.block
    omega
  cases hstage with
  | going open_ => exact absurd hquiet' open_
  | answered op =>
    rw [hop] at op
    cases op
  | written _ _ data =>
    unfold bioSectors at hlt
    have hin : 512 * p.bio.biSector ≤ 4096 * b + i ∧
        4096 * b + i < 512 * p.bio.biSector + p.bio.biSize := by omega
    rw [← hblock, data i hi, hblock, flatStep, if_pos ⟨hop, hin⟩]
    unfold Piece.block at hblock
    congr 1
    dsimp only
    omega

/-- **A bio is complete.** -/
theorem Flattened.complete (h : Flattened k g ctx₀ done (pre ++ p :: post) t trace)
    (htaken : bioSectors p.left = 0) (hquiet : ∀ q ∈ p.pieces, ∀ l, ¬ t.Open q.index l) :
    Flattened k g ctx₀ (done ++ [⟨p.bio, p.buffer t⟩]) (pre ++ post) t trace := by
  have hmem : p ∈ pre ++ p :: post := List.mem_append_right _ (List.mem_cons_self ..)
  have hsub : ∀ p' ∈ pre ++ post, p' ∈ pre ++ p :: post := by
    intro p' hp'
    simp only [List.mem_append, List.mem_cons] at hp' ⊢
    tauto
  have hok := (h.valid p hmem).submittable.toOk
  have hpairs := h.apart
  simp only [List.map_append, List.map_cons, List.pairwise_append, List.pairwise_cons,
    List.mem_map, List.mem_cons] at hpairs
  obtain ⟨hpre, ⟨hp, hpost⟩, hcross⟩ := hpairs
  have hapart : ∀ p' ∈ pre ++ post, p.bio.Apart p'.bio := by
    intro p' hp'
    rcases List.mem_append.1 hp' with hp' | hp'
    · exact symm (hcross _ ⟨p', hp', rfl⟩ _ (Or.inl rfl))
    · exact hp _ ⟨p', hp', rfl⟩
  refine ⟨h.run, fun p' hp' => h.valid p' (hsub p' hp'), ?_, fun p' hp' => h.pieces p' (hsub p' hp'),
    fun p' hp' q hq => ?_, fun i l hopen => ?_, fun b hb i hi => ?_, fun pre' r post' heq hop => ?_⟩
  · refine h.apart.sublist (List.Sublist.map _ ?_)
    exact (List.Sublist.refl pre).append (List.sublist_cons_self ..)
  · obtain ⟨o, l, hl, hstage⟩ := h.stage p' (hsub p' hp') q hq
    refine ⟨o, l, hl, ?_⟩
    cases hstage with
    | going open_ carried => exact .going open_ carried
    | answered op quiet answer =>
      refine .answered op quiet fun i hi => ?_
      have hv := h.pieces p' (hsub p' hp') q hq
      have hin := hv.inBlock
      have hpos : 512 * (p'.bio.biSector + q.start) + i =
          4096 * q.block p' + (512 * ((p'.bio.biSector + q.start) % 8) + i) := by
        unfold Piece.block
        omega
      rw [answer i hi, flatWrites_append, hpos, flatStep_out hok (by omega)]
      intro _ htouch
      exact hapart p' hp' _ htouch (hv.touches (h.valid p' (hsub p' hp')))
    | written op quiet data => exact .written op quiet data
  · obtain ⟨p', hp', q, hq, rfl⟩ := h.owned i l hopen
    simp only [List.mem_append, List.mem_cons] at hp'
    rcases hp' with hp' | rfl | hp'
    · exact ⟨p', List.mem_append_left _ hp', q, hq, rfl⟩
    · exact absurd hopen (hquiet q hq l)
    · exact ⟨p', List.mem_append_right _ hp', q, hq, rfl⟩
  · rw [flatWrites_append]
    by_cases hw : p.bio.biOp = .write ∧ p.bio.Touches b
    · exact h.written hmem htaken hquiet hw.1 hw.2 hi
    · rw [flatStep_out hok hi fun hop htouch => hw ⟨hop, htouch⟩]
      refine h.store b (fun p' hp' hop htouch => ?_) i hi
      simp only [List.mem_append, List.mem_cons] at hp'
      rcases hp' with hp' | rfl | hp'
      · exact hb p' (List.mem_append_left _ hp') hop htouch
      · exact hw ⟨hop, htouch⟩
      · exact hb p' (List.mem_append_right _ hp') hop htouch
  · rcases List.eq_nil_or_concat post' with rfl | ⟨post'', x, rfl⟩
    · obtain ⟨rfl, hr⟩ := List.append_inj' heq rfl
      obtain rfl : _ = r := by simpa using hr
      exact fun i hi => h.buffer hmem htaken hquiet hop hi
    · rw [List.concat_eq_append, ← List.cons_append, ← List.append_assoc] at heq
      exact h.answers pre' r post'' (List.append_inj' heq rfl).1 hop

/-- **A flat run is a run of one-block requests.** -/
theorem FlatRun.flattened (h : FlatRun k g ctx₀ done pending t) (hk : ∀ n, k.kmalloc n = true)
    (h0 : Holds k ctx₀ fun _ _ => 0) : ∃ trace, Flattened k g ctx₀ done pending t trace := by
  induction h with
  | start =>
    refine ⟨[], .start, by simp, by simp, by simp, by simp, ?_, fun _ _ _ _ => rfl, by simp⟩
    rintro i l ⟨o, ho, -⟩
    simp [newTarget] at ho
  | submit bio before ok apart ih =>
    obtain ⟨trace, h⟩ := ih
    exact ⟨trace, h.submit ok apart⟩
  | map before some_ step ih =>
    obtain ⟨trace, h⟩ := ih
    exact ⟨trace, h.map hk h0 some_ step⟩
  | step before orderly step ih =>
    obtain ⟨trace, h⟩ := ih
    exact h.step hk h0 orderly step
  | complete before taken quiet ih =>
    obtain ⟨trace, h⟩ := ih
    exact ⟨trace, h.complete taken quiet⟩

theorem FlatRun.config (h : FlatRun k g ctx₀ done pending t) : t.ctx.config = ctx₀.config := by
  have hnext : ∀ {t t' : Target} {ev : TargetEvent}, t.next k g ev = some t' → ev ≠ .dtr →
      t'.ctx.config = t.ctx.config := by
    intro t t' ev hstep hev
    obtain ⟨-, ⟨_, _, _, _, _, -, -, rfl⟩ | ⟨_, _, -, rfl⟩ | ⟨_, _, _, _, _, _, -, -, hs, rfl⟩ |
      ⟨hdtr, -⟩⟩ := Target.next_cases hstep
    · rfl
    · rfl
    · exact (lifeStep_of_step hs).sameInstance.config
    · exact absurd hdtr hev
  induction h with
  | start => rfl
  | submit _ _ _ _ ih => exact ih
  | map _ _ step ih => exact (hnext step fun h => by cases h).trans ih
  | step _ _ step ih => exact (hnext step fun h => by cases h).trans ih
  | complete _ _ _ ih => exact ih

/-! ### Every bio can finish -/

/-- **A request under way can be brought to its end** by steps of its own. -/
theorem FlatRun.drain (h : FlatRun k g ctx₀ done pending t) (hk : ∀ n, k.kmalloc n = true)
    (h0 : Holds k ctx₀ fun _ _ => 0) (hopen : t.Open i l)
    (hcan : l.phase = .flightq → l.req.bio.biOp = .write →
      CanMap t.ctx (afsGetMapEntry t.ctx.config l.req.block)) :
    ∃ t', FlatRun k g ctx₀ done pending t' ∧ (∀ j l₂, t'.Open j l₂ ↔ j ≠ i ∧ t.Open j l₂) ∧
      t'.lives.length = t.lives.length := by
  obtain ⟨n, hn⟩ : ∃ n, l.rank < n := ⟨_, Nat.lt_succ_self _⟩
  induction n generalizing t l with
  | zero => omega
  | succ n ih =>
    obtain ⟨trace, hflat⟩ := h.flattened hk h0
    obtain ⟨hcalm, -⟩ := hflat.run.calm hk h0
    obtain ⟨a, ctx', l', ha, hs, hflight, hend⟩ := (hcalm.serving i l hopen).exists_step hcalm.inst
      hk (hcalm.content_of_read hopen) hcan g
    obtain ⟨o, hi, -⟩ := id hopen
    have horderly : Orderly t (.step i a) := by
      refine ⟨ha, ?_⟩
      rintro e l₂ he ⟨o₂, ho₂, -⟩ hop
      rw [hi] at ho₂
      cases ho₂
      exact hcan (hflight e he) hop
    have hnext := h.step horderly (Target.next_step hcalm.registered hi hs)
    by_cases hq : l'.Quiet
    · refine ⟨_, hnext, fun j l₂ => ?_, List.length_set ..⟩
      by_cases hji : j = i
      · subst hji
        exact iff_of_false (fun hj => (hj.self_of_set hi).2 hq) fun hj => hj.1 rfl
      · rw [open_set_iff hji]
        exact (and_iff_right hji).symm
    · -- the request goes on, and less is left of it
      have hlt := hend.resolve_left hq
      have hfl : l'.phase ≠ .flightq := by
        by_cases hp : l.phase = .flightq
        · intro hp'
          rw [Life.rank, Life.rank, if_pos hp, if_pos hp'] at hlt
          exact lt_irrefl _ hlt
        · exact (lifeStep_of_step hs).left_flightq hp
      have hopen' : Target.Open { t with ctx := ctx', lives := t.lives.set i (o, l') } i l' :=
        ⟨o, List.getElem?_set_self (List.getElem?_eq_some_iff.1 hi).1, hq⟩
      obtain ⟨t₂, h₂, hrest, hlen⟩ := ih hnext hopen' (fun hp => absurd hp hfl) (by omega)
      refine ⟨t₂, h₂, fun j l₃ => (hrest j l₃).trans (and_congr_right fun hji => ?_),
        hlen.trans (List.length_set ..)⟩
      exact open_set_iff hji

theorem FlatRun.map_all (h : FlatRun k g ctx₀ done (pre ++ p :: post) t)
    (hk : ∀ n, k.kmalloc n = true) (h0 : Holds k ctx₀ fun _ _ => 0) :
    ∃ p' t', FlatRun k g ctx₀ done (pre ++ p' :: post) t' ∧ p'.bio = p.bio ∧
      bioSectors p'.left = 0 := by
  obtain ⟨n, hn⟩ : ∃ n, bioSectors p.left ≤ n := ⟨_, le_refl _⟩
  induction n generalizing p t with
  | zero => exact ⟨p, t, h, rfl, Nat.le_zero.1 hn⟩
  | succ n ih =>
    by_cases hpos : 0 < bioSectors p.left
    · obtain ⟨trace, hflat⟩ := h.flattened hk h0
      obtain ⟨hcalm, -⟩ := hflat.run.calm hk h0
      have hp := hflat.valid p (List.mem_append_right _ (List.mem_cons_self ..))
      obtain ⟨hin, -, hcarried⟩ := hp.part hpos t.lives.length
      have hop : (acceptPartialBio p.left).biOp = .read ∨
          (acceptPartialBio p.left).biOp = .write := by
        rw [hcarried.op]
        exact hp.submittable.op
      have hstep := next_map_inBlock (k := k) (g := g) hcalm.registered hin hop zeroRequest
      rw [← next_map_part hin] at hstep
      have hnext := h.map hpos hstep
      have hrest := bioSectors_left (hp.submit t.lives.length).rest
      have hleft := bioSectors_left hp.rest
      have hpart := accepted_pos hpos
      have hless : bioSectors (p.submit t.lives.length).left ≤ n := by
        simp only [Pending.submit] at hrest ⊢
        omega
      obtain ⟨p', t', h', hbio, htaken⟩ := ih hnext hless
      exact ⟨p', t', h', hbio, htaken⟩
    · exact ⟨p, t, h, rfl, by omega⟩

theorem FlatRun.drain_pieces (h : FlatRun k g ctx₀ done pending t)
    (hk : ∀ n, k.kmalloc n = true) (h0 : Holds k ctx₀ fun _ _ => 0) (hp : p ∈ pending)
    (hop : p.bio.biOp = .read) {pieces : List Piece} (hsub : ∀ q ∈ pieces, q ∈ p.pieces) :
    ∃ t', FlatRun k g ctx₀ done pending t' ∧ ∀ q ∈ pieces, ∀ l, ¬ t'.Open q.index l := by
  induction pieces with
  | nil => exact ⟨t, h, by simp⟩
  | cons q pieces ih =>
    obtain ⟨t₁, h₁, hclosed⟩ := ih fun q' hq' => hsub q' (List.mem_cons_of_mem _ hq')
    by_cases hopen : ∃ l, t₁.Open q.index l
    · obtain ⟨l, hopen⟩ := hopen
      obtain ⟨trace, hflat⟩ := h₁.flattened hk h0
      have hread : l.req.bio.biOp = .read := by
        obtain ⟨o, ho, hquiet⟩ := hopen
        obtain ⟨o', l', hl', hstage⟩ := hflat.stage p hp q (hsub q (List.mem_cons_self ..))
        rw [ho] at hl'
        cases hl'
        cases hstage with
        | going _ carried => exact carried.op.trans hop
        | answered _ quiet => exact absurd quiet hquiet
        | written _ quiet => exact absurd quiet hquiet
      obtain ⟨t₂, h₂, hrest, -⟩ := h₁.drain hk h0 hopen fun _ hw => by simp [hread] at hw
      refine ⟨t₂, h₂, List.forall_mem_cons.2 ⟨fun l₂ hl₂ => ((hrest _ l₂).1 hl₂).1 rfl, ?_⟩⟩
      exact fun q' hq' l₂ hl₂ => hclosed q' hq' l₂ ((hrest _ l₂).1 hl₂).2
    · exact ⟨t₁, h₁, List.forall_mem_cons.2 ⟨fun l hl => hopen ⟨l, hl⟩, hclosed⟩⟩

/-- **A read under way can be completed.** -/
theorem FlatRun.complete_read (h : FlatRun k g ctx₀ done (pre ++ p :: post) t)
    (hk : ∀ n, k.kmalloc n = true) (h0 : Holds k ctx₀ fun _ _ => 0) (hop : p.bio.biOp = .read) :
    ∃ bytes t', FlatRun k g ctx₀ (done ++ [⟨p.bio, bytes⟩]) (pre ++ post) t' := by
  obtain ⟨p', t₁, h₁, hbio, htaken⟩ := h.map_all hk h0
  obtain ⟨t₂, h₂, hclosed⟩ := h₁.drain_pieces hk h0 (List.mem_append_right _ (List.mem_cons_self ..))
    (hbio ▸ hop) fun _ hq => hq
  exact ⟨_, t₂, hbio ▸ h₂.complete htaken hclosed⟩

theorem Serving.op_of_write {ctx : AfsPrivate} (h : Serving k ctx l) (hty : l.type = .write) :
    l.req.bio.biOp = .write := by
  cases h.stage with
  | queued fresh life =>
    rw [life] at hty
    cases hty
  | reading fresh op mapped read =>
    rw [read.type] at hty
    cases hty
  | writing op => exact op

end

/-- **The target is a flat device.** After a successful `TYPE_CREATE` over an increasing free list, in
every run of reads of any sectors and writes of any number of whole blocks, whose parts are mapped and
served in any order as long as bios under way share no block: every read that is complete has the
bytes in its buffer that the writes completed before have left in its range, or zeros; every block
that no write is under way for holds those bytes; and every read under way can be completed. -/
theorem flat_device {k : Kernel} {g : GfCtx} {rounds : ℕ} {args : AfsArgs} {len bdevSize : ℕ}
    {fs : AfsPassiveFs} {disk : Mem} {random : List ℕ} {ctx₀ : AfsPrivate} {t : Target}
    {done : List Completed} {pending : List Pending} (hk : ∀ n, k.kmalloc n = true)
    (htype : args.instanceType = .create) (hinc : fs.freeList.Pairwise (· < ·))
    (hsec : ∀ b ∈ fs.freeList, 8 * b + fs.dataStartOff < 2 ^ 32)
    (hctr : afsCtr k rounds args len bdevSize fs disk random = some (.ok ctx₀))
    (h : FlatRun k g ctx₀ done pending t) :
    (∀ pre r post, done = pre ++ r :: post → r.bio.biOp = .read → ∀ i < r.bio.biSize,
      r.bytes i = flatWrites pre (512 * r.bio.biSector + i)) ∧
    (∀ b < t.ctx.config.numBlocks,
      (∀ p ∈ pending, p.bio.biOp = .write → ¬ p.bio.Touches b) →
      Content k t.ctx b fun i => flatWrites done (4096 * b + i)) ∧
    ∀ pre p post, pending = pre ++ p :: post → p.bio.biOp = .read →
      ∃ bytes t', FlatRun k g ctx₀ (done ++ [⟨p.bio, bytes⟩]) (pre ++ post) t' := by
  obtain ⟨hinst, hunmapped⟩ := unmapped_of_create htype hinc hsec hctr
  have h0 : Holds k ctx₀ fun _ _ => 0 := Holds.of_unmapped hinst hunmapped
  obtain ⟨trace, hflat⟩ := h.flattened hk h0
  obtain ⟨hcalm, -⟩ := hflat.run.calm hk h0
  refine ⟨hflat.answers, fun b hb hfree => ?_, ?_⟩
  · refine Content.agree (hcalm.content b hb fun i l hopen hty hblock => ?_) fun i hi => ?_
    · obtain ⟨p, hp, q, hq, -, hc⟩ := hflat.carried hopen
      have hop := (hcalm.serving i l hopen).op_of_write hty
      have htouch := (hflat.pieces p hp q hq).touches (hflat.valid p hp)
      rw [← hc.dataBlock, hblock] at htouch
      exact hfree p hp (hc.op.symm.trans hop) htouch
    · rw [Nat.zero_add]
      exact hflat.store b hfree i hi
  · rintro pre p post rfl hop
    exact h.complete_read hk h0 hop

theorem flatWrites_blockBio {w : Completed} {b : ℕ} {page : Mem} (hw : w.bio = blockBio .write b page)
    (a : ℕ) : flatWrites [w] a =
      if 4096 * b ≤ a ∧ a < 4096 * b + 4096 then page (a - 4096 * b) else 0 := by
  have hstart : 512 * (8 * b) = 4096 * b := by omega
  rw [flatWrites, List.foldl_cons, List.foldl_nil, flatStep, hw]
  simp only [blockBio, hstart, true_and]
  split_ifs with ha
  · rw [segmentByte, if_pos (by dsimp only; omega), Nat.zero_add]
  · rfl

/-- A write of the first block of a new instance, and then a read of ten sectors from sector 4 on: the
read is cut in two, and has four sectors of the page and six of zeros. -/
theorem flat_small :
    ∃ ctx₀ w r t, afsCtr (constKernel 1) 1 smallArgs 128 256 smallFs (fun _ => 0)
        [2, 3, 4, 5, 6] = some (.ok ctx₀) ∧
      FlatRun (constKernel 1) gfContextZero ctx₀ [w, r] [] t ∧
      w.bio = blockBio .write 0 UInt8.ofNat ∧ r.bio.biSector = 4 ∧ r.bio.biSize = 5120 ∧
      (∀ i < 2048, r.bytes i = UInt8.ofNat (2048 + i)) ∧
      ∀ i < 5120, 2048 ≤ i → r.bytes i = 0 := by
  obtain ⟨ctx₀, hctr, hholds, -, hcan, hblocks, -⟩ := exists_smallInstance
  have hk : ∀ n, (constKernel 1).kmalloc n = true := fun _ => rfl
  have hdevice := fun {done : List Completed} {pending : List Pending} {t : Target}
    (h : FlatRun (constKernel 1) gfContextZero ctx₀ done pending t) =>
      flat_device hk (rfl : smallArgs.instanceType = .create)
        (by decide : smallFs.freeList.Pairwise (· < ·)) (by decide) hctr h
  -- the write, in one part
  have hwbio := inBlock_blockBio .write 0 UInt8.ofNat
  have hsub : (blockBio .write 0 UInt8.ofNat).Submittable ctx₀.config.numBlocks := by
    refine ⟨hwbio.toOk, Or.inr rfl, fun _ => ⟨rfl, rfl⟩, ?_⟩
    rw [hblocks]
    decide
  have h₁ := FlatRun.submit (g := gfContextZero) _ (.start (k := constKernel 1)) hsub (by simp)
  have h₂ := @FlatRun.map _ _ _ [] [] _ [] _ _ _ h₁ (by decide)
    (next_map_inBlock rfl hwbio (Or.inr rfl) zeroRequest)
  have hw0 : (blockBio .write 0 UInt8.ofNat).biSector / 8 = 0 := by simp [blockBio]
  have hblock : (newLife (mapRequest zeroRequest ctx₀ (blockBio .write 0 UInt8.ofNat))
      .flightq).req.block = 0 := by
    show (flightRequest zeroRequest ctx₀ _).block = 0
    rw [block_flightRequest (by rw [hw0]; norm_num), hw0]
  obtain ⟨t₃, h₃, hopen, -⟩ := h₂.drain hk hholds
    (⟨.map, rfl, by simp [Life.Quiet, newLife]⟩ : Target.Open _ 0 _) fun _ _ => hblock ▸ hcan
  have h₄ := @FlatRun.complete _ _ _ [] [] _ [] _ h₃
    (by simp [Pending.submit, Bio.pending, advanceBio, acceptPartialBio, bioSectors, blockBio]) (by
    intro q hq l hl
    obtain rfl := List.mem_singleton.1 hq
    exact ((hopen _ l).1 hl).1 rfl)
  -- the read
  have hrok : (⟨.read, 4, 5120, [⟨fun _ => 1, 100, 1000⟩, ⟨fun _ => 2, 7, 4120⟩], 0⟩ :
      Bio).Submittable t₃.ctx.config.numBlocks := by
    refine ⟨⟨rfl, by decide⟩, Or.inl rfl, (fun h => by cases h), ?_⟩
    rw [h₃.config, hblocks]
    decide
  have h₅ := FlatRun.submit _ h₄ hrok (by simp)
  obtain ⟨-, -, hreads⟩ := hdevice h₅
  obtain ⟨bytes, t, h₆⟩ := hreads [] _ [] rfl rfl
  obtain ⟨hans, -, -⟩ := hdevice h₆
  have hbytes : ∀ i < 5120, bytes i = _ := hans [_] _ [] rfl rfl
  refine ⟨ctx₀, _, _, t, hctr, h₆, rfl, rfl, rfl, fun i hi => ?_, fun i hi hge => ?_⟩
  · refine (hbytes i (by omega)).trans ((flatWrites_blockBio rfl (512 * 4 + i)).trans ?_)
    rw [if_pos (by omega)]
    congr 1
  · refine (hbytes i hi).trans ((flatWrites_blockBio rfl (512 * 4 + i)).trans ?_)
    rw [if_neg (by omega)]

end Artifice
