import Artifice.Modules.NtfsRuns

/-!
The blocks that the NTFS module lists against `$Bitmap` as the file system has it.

The bytes that are taken for the bitmap are those of one attribute. If it is resident they begin 14
bytes into the attribute, and not where its content does. Else they come in whole clusters, of which
only the first page is read, and from the clusters that the run list gives with unsigned offsets.
-/

namespace Artifice

open Lib

/-! ### The attribute -/

/-- A little-endian number of `n` bytes in two's complement. -/
def signedLe (m : Mem) (o n : ℕ) : ℤ :=
  if 2 * le m o n < 256 ^ n then le m o n else le m o n - 256 ^ n

/-- The clusters of a file by its run list: the offset of a run is signed, and counts from the run
before. A run without an offset is not on the device. -/
def fileClusters (records : Mem) (runlist : ℕ) : ℕ → ℕ → ℤ → List (Option ℤ)
  | 0, _, _ => []
  | rounds + 1, i, before =>
    let fieldSizes := le records (runlist + i) 1
    let offsetSizeBytes := fieldSizes / 16
    let lengthSizeBytes := fieldSizes % 16
    if fieldSizes = 0 then []
    else
      let lcn := before + signedLe records (runlist + i + 1 + lengthSizeBytes) offsetSizeBytes
      ((List.range (le records (runlist + i + 1) lengthSizeBytes)).map fun n =>
        if offsetSizeBytes = 0 then none else some (lcn + n)) ++
        fileClusters records runlist rounds (i + 1 + lengthSizeBytes + offsetSizeBytes) lcn

/-- The size of the content of an attribute. -/
def contentSize (records : Mem) (attr : ℕ) : ℕ :=
  if le records (attr + 8) 1 = 0 then le records (attr + 16) 4 else le records (attr + 48) 8

/-- Byte `i` of the content of an attribute. -/
def contentByte (vol : NtfsVolume) (device : Mem) (records : Mem × ℕ) (attr i : ℕ) : UInt8 :=
  if le records.1 (attr + 8) 1 = 0 then records.1 (attr + le records.1 (attr + 20) 2 + i)
  else
    match (fileClusters records.1 (attr + le records.1 (attr + 32) 2) (records.2 + 1) 0
      0)[i / vol.bytesPerCluster]? with
    | some (some lcn) => device (lcn.toNat * vol.bytesPerCluster + i % vol.bytesPerCluster)
    | _ => 0

/-- Cluster `c` is one of the volume, and its bit in `$Bitmap` is clear. -/
structure FreeNtfsCluster (vol : NtfsVolume) (device : Mem) (records : Mem × ℕ) (attr c : ℕ) :
    Prop where
  volume : c < vol.clusterCount
  file : c / 8 < contentSize records.1 attr
  clear : (contentByte vol device records attr (c / 8)).toNat.testBit (c % 8) = false

/-- Block `b` is one of the volume, and of a free cluster. -/
def FreeNtfsBlock (vol : NtfsVolume) (device : Mem) (records : Mem × ℕ) (attr b : ℕ) : Prop :=
  b < vol.numAfsBlocks ∧ ∃ c, FreeNtfsCluster vol device records attr c ∧
    ∃ j < vol.afsBlocksPerCluster, b = c * vol.afsBlocksPerCluster + j

section

variable {k : Kernel} {vol : NtfsVolume} {data device buffer bitmap : Mem} {records : Mem × ℕ}
  {l : List ℕ} {fuel alloc p n c b o attr header maxBytes t : ℕ} {s s' : NtfsFile} {r : NtfsRead}
  {f : Flow NtfsFile} {fs fs' : AfsPassiveFs} {file : NtfsFile}

/-! ### What is read -/

theorem NtfsVolume.Paged.readNonresidentData_spec (hvol : vol.Paged) (hmax : maxBytes < 2 ^ 63)
    (h : readNonresidentData vol device records attr alloc p maxBytes buffer = some r) :
    ReadClusters vol device buffer p
      (if le records.1 (attr + 16) 8 ≠ 0 then []
        else
          (runClusters
            (decodedRuns records.1 (attr + le records.1 (attr + 32) 2) (records.2 + 1) 0)).take
              (enoughClusters vol (min maxBytes (le records.1 (attr + 48) 8)))) r := by
  have hnil : ReadClusters vol device buffer p [] ⟨buffer, 0, []⟩ :=
    ⟨rfl, (Nat.zero_mul _).symm, clusterPages_nil.symm⟩
  simp only [readNonresidentData, Option.bind_eq_bind, Option.bind_eq_some_iff] at h
  obtain ⟨size, hsize, offset, hoffset, byte, -, vcn, hvcn, h⟩ := h
  rw [← (readLe_eq_some hsize).2, ← (readLe_eq_some hoffset).2, ← (readLe_eq_some hvcn).2] at h
  split_ifs at h with hstart
  · rw [if_pos hstart, ← Option.some.inj h]
    exact hnil
  · rw [if_neg hstart]
    have hamt : min maxBytes (le records.1 (attr + 48) 8) < 2 ^ 63 := by omega
    have hspec := ((hvol.readInv hamt).readRuns_spec (hvol.amountFits hamt) hnil (by
      unfold enoughClusters
      rw [List.length_nil]
      omega) h).1
    rwa [List.nil_append, List.length_nil, Nat.sub_zero] at hspec

/-- One round of `read_file` inside of the record: it ends with the end mark, with the data of the
attribute, or goes on to the next one. -/
theorem readAttrs_succ (hin : o < vol.mftRecordSize)
    (h : readAttrs vol device records header alloc maxBytes (n + 1) o s = some s') :
    let attr := header + o
    let s₁ : NtfsFile := { s with attrs := s.attrs ++ [o] }
    (le records.1 attr 4 = 0xFFFFFFFF ∧ s' = s₁) ∨
      ∃ f, (if le records.1 attr 4 = 0x80 then
          readData vol device records attr alloc maxBytes s₁ else some (.next s₁)) = some f ∧
        ((s' = f.state ∧ ∀ s₂, f = .next s₂ → le records.1 (attr + 4) 4 = 0) ∨
          ∃ s₂, f = .next s₂ ∧ le records.1 attr 4 ≠ 0xFFFFFFFF ∧ le records.1 (attr + 4) 4 ≠ 0 ∧
            readAttrs vol device records header alloc maxBytes n
              ((o + le records.1 (attr + 4) 4) % 2 ^ 32) s₂ = some s') := by
  intro attr s₁
  rw [readAttrs, if_pos hin] at h
  obtain ⟨typeId, htype, h⟩ := Option.bind_eq_some_iff.1 h
  obtain ⟨-, rfl⟩ := readLe_eq_some htype
  dsimp only at h
  by_cases hend : le records.1 (header + o) 4 = 0xFFFFFFFF
  · rw [if_pos hend] at h
    exact .inl ⟨hend, (Option.some.inj h).symm⟩
  · rw [if_neg hend] at h
    obtain ⟨f, hf, h⟩ := Option.bind_eq_some_iff.1 h
    refine .inr ⟨f, hf, ?_⟩
    cases f with
    | brk s₂ => exact .inl ⟨(Option.some.inj h).symm, fun _ => nofun⟩
    | ret c s₂ => exact .inl ⟨(Option.some.inj h).symm, fun _ => nofun⟩
    | next s₂ =>
      obtain ⟨length, hlength, h⟩ := Option.bind_eq_some_iff.1 h
      obtain ⟨-, rfl⟩ := readLe_eq_some hlength
      split_ifs at h with h0
      · exact .inl ⟨(Option.some.inj h).symm, fun _ _ => h0⟩
      · exact .inr ⟨s₂, rfl, hend, h0, h⟩

theorem freeNtfsBlock_iff : FreeNtfsBlock vol device records attr b ↔
    b < vol.numAfsBlocks ∧ 0 < vol.afsBlocksPerCluster ∧
      b / vol.afsBlocksPerCluster < vol.clusterCount ∧
      b / vol.afsBlocksPerCluster / 8 < contentSize records.1 attr ∧
      (contentByte vol device records attr (b / vol.afsBlocksPerCluster / 8)).toNat.testBit
        (b / vol.afsBlocksPerCluster % 8) = false := by
  constructor
  · rintro ⟨hin, c, ⟨h1, h2, h3⟩, j, hj, rfl⟩
    have hpos : 0 < vol.afsBlocksPerCluster := by omega
    have hdiv : (c * vol.afsBlocksPerCluster + j) / vol.afsBlocksPerCluster = c := by
      rw [Nat.mul_comm, Nat.mul_add_div hpos, Nat.div_eq_of_lt hj, Nat.add_zero]
    rw [hdiv]
    exact ⟨hin, hpos, h1, h2, h3⟩
  · rintro ⟨hin, hpos, h1, h2, h3⟩
    exact ⟨hin, _, ⟨h1, h2, h3⟩, _, Nat.mod_lt b hpos, (Nat.div_add_mod' b _).symm⟩

end

/-- An NTFS volume of 64 clusters of 4096 bytes, with the records in the clusters from 2 on, and a
resident bitmap of 8 bytes. -/
def residentImage (bitmap : ℕ) : Mem :=
  let boot := putLe (putLe (putLe (putLe (putLe (putLe (fun _ => 0) 3 8 0x202020205346544E) 11 2 512)
    13 1 8) 40 8 512) 48 8 2) 64 1 1
  let records := putLe (putLe boot (2 * 4096 + 28) 4 4096) (8 * 4096 + 20) 2 56
  let attr := 8 * 4096 + 56
  putLe (putLe (putLe (putLe (putLe (putLe records attr 4 0x80) (attr + 4) 4 32) (attr + 16) 4 8)
    (attr + 20) 2 24) (attr + 24) 8 bitmap) (attr + 32) 4 0xFFFFFFFF

instance (vol : NtfsVolume) (device : Mem) (records : Mem × ℕ) (attr b : ℕ) :
    Decidable (FreeNtfsBlock vol device records attr b) := decidable_of_iff' _ freeNtfsBlock_iff

end Artifice
