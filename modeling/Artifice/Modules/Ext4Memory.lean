import Artifice.Modules.Ext4

/-!
What a detection of ext4 leaves for the next one.

`is_64bit` is a static variable of the module. `read_superblock` sets it at a volume with the 64-bit
feature, and nothing clears it. So after such a volume every other one is read as a 64-bit volume,
for as long as the module is loaded.
-/

namespace Artifice

open Lib

/-- What a detection on an image gives to its caller: the answer and the passive file system. -/
def detectResult (k : Kernel) (is64bit : Bool) (image : Mem) (fs : AfsPassiveFs) :
    Option (Bool × AfsPassiveFs) :=
  (afsExt4Detect k is64bit image image fs).map fun r => (r.1, r.2.1)

/-- The image is a 64-bit ext4 volume. -/
def Is64bitExt4 (image : Mem) : Prop :=
  (ext4Superblock image).magic = 0xEF53 ∧ (ext4Superblock image).featureIncompat.testBit 7 = true

/-- The image of a volume of one group of 8 blocks, all free. -/
def oneGroupImage (featureIncompat descSize : ℕ) : Mem :=
  putLe (putLe (putLe (putLe (putLe (putLe (putLe (fun _ => 0) (1024 + 4) 4 8) (1024 + 12) 4 8)
    (1024 + 24) 4 2) (1024 + 32) 4 8) (1024 + 56) 2 0xEF53) (1024 + 96) 4 featureIncompat)
    (1024 + 254) 2 descSize

/-- A passive file system before the detection. -/
def emptyFs : AfsPassiveFs := ⟨[], 0, 8, 32, 0, 0⟩

section

variable {k : Kernel} {before : Bool} {image : Mem} {fs : AfsPassiveFs}
  {r : Bool × AfsPassiveFs × Bool}

theorem afsExt4Detect_flag (h : afsExt4Detect k before image image fs = some r) :
    r.2.2 = true ↔ before = true ∨ (k.kmalloc 1024 = true ∧ Is64bitExt4 image) := by
  unfold afsExt4Detect at h
  split_ifs at h with hk
  · rw [← Option.some.inj h]
    simp [hk]
  · have hflag : r.2.2 = (readSuperblock before image).2.2 := by
      dsimp only at h
      split_ifs at h with hstatus
      · rw [← Option.some.inj h]
      · simp only [Option.bind_eq_bind, Option.bind_eq_some_iff] at h
        obtain ⟨disk, -, h⟩ := h
        cases disk with
        | none => rw [← Option.some.inj h]
        | some disk =>
          simp only [Option.bind_eq_some_iff] at h
          obtain ⟨gdArr, -, ⟨ret, fs', groups⟩, -, h⟩ := h
          rw [← Option.some.inj h]
    rw [hflag, readSuperblock]
    simp only [Bool.not_eq_false] at hk
    split_ifs with hmagic
    · simp [Is64bitExt4, hmagic]
    · simp [Is64bitExt4, not_not.1 hmagic, hk]

theorem detectResult_fresh :
    (detectResult (constKernel 0) false (oneGroupImage 0 0) emptyFs).isSome = true := by
  decide +kernel

theorem detectResult_stale :
    detectResult (constKernel 0) true (oneGroupImage 0 0) emptyFs = none := by
  have h : (detectResult (constKernel 0) true (oneGroupImage 0 0) emptyFs).isNone = true := by
    decide +kernel
  exact Option.isNone_iff_eq_none.1 h

/-- **When a detection leaves nothing behind**: no later detection comes out differently, exactly
when the flag was set before, or the image is not taken for a 64-bit ext4 volume. -/
theorem ext4Detect_forgets_iff (h : afsExt4Detect k before image image fs = some r) :
    (∀ k' later fs', detectResult k' r.2.2 later fs' = detectResult k' before later fs') ↔
      before = true ∨ ¬(k.kmalloc 1024 = true ∧ Is64bitExt4 image) := by
  have hflag := afsExt4Detect_flag h
  constructor
  · intro hall
    by_contra hcond
    obtain ⟨hbefore, hset⟩ := not_or.1 hcond
    rw [not_not] at hset
    have hstale := hall (constKernel 0) (oneGroupImage 0 0) emptyFs
    have hfresh := detectResult_fresh
    rw [hflag.2 (.inr hset), Bool.eq_false_of_not_eq_true hbefore, detectResult_stale] at hstale
    rw [← hstale] at hfresh
    cases hfresh
  · intro hcond k' later fs'
    have hsame : r.2.2 = before := by
      rw [Bool.eq_iff_iff, hflag]
      tauto
    rw [hsame]

end

/-- A 32-bit volume leaves nothing behind. -/
theorem ext4Detect_forgets_small : ∃ r,
    afsExt4Detect (constKernel 0) false (oneGroupImage 0 0) (oneGroupImage 0 0) emptyFs = some r ∧
      ∀ k' later fs', detectResult k' r.2.2 later fs' = detectResult k' false later fs' := by
  obtain ⟨r, hr⟩ := Option.isSome_iff_exists.1 (show (afsExt4Detect (constKernel 0) false
    (oneGroupImage 0 0) (oneGroupImage 0 0) emptyFs).isSome = true by decide +kernel)
  refine ⟨r, hr, (ext4Detect_forgets_iff hr).2 (.inr fun hset => ?_)⟩
  exact absurd hset.2.2 (by decide +kernel)

/-- After a 64-bit volume, a 32-bit one is not read any more. -/
theorem ext4Detect_remembers :
    ¬∀ (k k' : Kernel) (first second : Mem) (fs fs' : AfsPassiveFs)
      (r : Bool × AfsPassiveFs × Bool), afsExt4Detect k false first first fs = some r →
        detectResult k' r.2.2 second fs' = detectResult k' false second fs' := by
  intro hall
  obtain ⟨r, hr⟩ := Option.isSome_iff_exists.1 (show (afsExt4Detect (constKernel 0) false
    (oneGroupImage 128 64) (oneGroupImage 128 64) emptyFs).isSome = true by decide +kernel)
  have hset : Is64bitExt4 (oneGroupImage 128 64) := ⟨by decide +kernel, by decide +kernel⟩
  have hsame := hall _ (constKernel 0) _ (oneGroupImage 0 0) _ emptyFs r hr
  have hfresh := detectResult_fresh
  rw [(afsExt4Detect_flag hr).2 (.inr ⟨rfl, hset⟩), detectResult_stale] at hsame
  rw [← hsame] at hfresh
  cases hfresh

end Artifice
