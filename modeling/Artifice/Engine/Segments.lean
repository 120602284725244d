import Artifice.Engine.Defs

/-!
The data of a bio and the data block of a request: what the two copy loops move.
-/

namespace Artifice

open Lib

/-- A bio as the block layer makes it: whole sectors, and segments for all of them. -/
structure Bio.Ok (bio : Bio) : Prop where
  sectors : bio.biSize % 512 = 0
  segments : bio.biSize ≤ segmentsLen bio.biIoVec

section

variable {offset rs size seg i j : ℕ} {segments : List BioVec} {dataBlock : Mem}

theorem segmentsLen_cons (bv : BioVec) (rest : List BioVec) :
    segmentsLen (bv :: rest) = bv.bvLen + segmentsLen rest := by
  simp [segmentsLen]

theorem copyFromSegments_out (hrs : seg + size = rs)
    (hj : j < offset + seg ∨ offset + seg + size ≤ j) :
    copyFromSegments offset rs size seg segments dataBlock j = dataBlock j := by
  induction segments generalizing size seg dataBlock with
  | nil => rfl
  | cons bv rest ih =>
    rw [copyFromSegments]
    simp only
    split_ifs with h0
    · rfl
    · rw [ih (by omega) (by omega), blit_out (by omega)]
    · exact blit_out (by omega)

theorem copyFromSegments_in (hrs : seg + size = rs) (hlen : size ≤ segmentsLen segments)
    (hi : i < size) :
    copyFromSegments offset rs size seg segments dataBlock (offset + seg + i) =
      segmentByte segments i := by
  induction segments generalizing size seg i dataBlock with
  | nil =>
    have : segmentsLen [] = 0 := rfl
    omega
  | cons bv rest ih =>
    rw [segmentsLen_cons] at hlen
    rw [copyFromSegments, if_neg (by omega), if_pos (by omega), segmentByte]
    split_ifs with h
    · -- a byte of the first segment, which the later rounds leave
      rw [copyFromSegments_out (by omega) (by omega), blit_in (by omega)]
    · obtain ⟨i', rfl⟩ : ∃ i', i = bv.bvLen + i' := ⟨i - bv.bvLen, by omega⟩
      have hmin : min bv.bvLen size = bv.bvLen := by omega
      rw [hmin, show offset + seg + (bv.bvLen + i') = offset + (seg + bv.bvLen) + i' by omega,
        ih (by omega) (by omega) (by omega), Nat.add_sub_cancel_left]

theorem segmentByte_copyToSegments (hrs : seg + size = rs) (hlen : size ≤ segmentsLen segments)
    (hi : i < size) :
    segmentByte (copyToSegments offset rs dataBlock size seg segments) i =
      dataBlock (offset + seg + i) := by
  induction segments generalizing size seg i with
  | nil =>
    have : segmentsLen [] = 0 := rfl
    omega
  | cons bv rest ih =>
    rw [segmentsLen_cons] at hlen
    rw [copyToSegments, if_neg (by omega)]
    simp only
    rw [if_pos (by omega), segmentByte]
    simp only
    split_ifs with h
    · exact blit_in (by omega)
    · obtain ⟨i', rfl⟩ : ∃ i', i = bv.bvLen + i' := ⟨i - bv.bvLen, by omega⟩
      have hmin : min bv.bvLen size = bv.bvLen := by omega
      rw [hmin, Nat.add_sub_cancel_left, ih (by omega) (by omega) (by omega),
        show offset + (seg + bv.bvLen) + i' = offset + seg + (bv.bvLen + i') by omega]

end

/-! ### The range of a request -/

section

variable {fresh : AfsMapRequest} {ctx : AfsPrivate} {bio : Bio} {i j : ℕ} {dataBlock : Mem}

theorem Bio.Ok.acceptPartialBio (h : bio.Ok) : (acceptPartialBio bio).Ok := by
  have h1 := h.sectors
  have h2 := h.segments
  unfold Artifice.acceptPartialBio
  simp only
  split_ifs with hlt
  · refine ⟨Nat.mul_mod_right 512 _, ?_⟩
    unfold bioSectors at hlt
    simp only
    omega
  · exact h

theorem acceptPartialBio_le (bio : Bio) :
    bio.biSector % 8 * 512 + (acceptPartialBio bio).biSize / 512 * 512 ≤ 4096 := by
  unfold acceptPartialBio bioSectors
  simp only
  split_ifs with h
  · simp only
    omega
  · omega

theorem acceptPartialBio_biSector (bio : Bio) : (acceptPartialBio bio).biSector = bio.biSector := by
  unfold acceptPartialBio
  simp only
  split_ifs <;> rfl

theorem acceptPartialBio_biOp (bio : Bio) : (acceptPartialBio bio).biOp = bio.biOp := by
  unfold acceptPartialBio
  simp only
  split_ifs <;> rfl

theorem acceptPartialBio_biIoVec (bio : Bio) : (acceptPartialBio bio).biIoVec = bio.biIoVec := by
  unfold acceptPartialBio
  simp only
  split_ifs <;> rfl

theorem acceptPartialBio_eq (h : bio.biSector % 8 * 512 + bio.biSize ≤ 4096) :
    acceptPartialBio bio = bio := by
  unfold acceptPartialBio bioSectors
  simp only
  rw [if_neg (by omega)]

end

end Artifice
