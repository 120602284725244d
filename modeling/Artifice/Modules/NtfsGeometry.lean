import Artifice.Modules.NtfsBitmap

/-!
The geometry that the NTFS module takes from a boot sector.

The size of a record is given by a signed byte: clusters if it is positive, and the power of two of a
negative one in bytes. The module reads it from a `__u8`, so that the usual records of 1024 bytes, with
the byte `0xF6`, become records of 246 clusters, and no record fits a cluster. Only records of one
cluster are usable.
-/

namespace Artifice

open Lib

/-- `clusters_per_record` of a boot sector, read as a signed byte. -/
def clustersPerRecord (data : Mem) : ℤ :=
  if le data 64 1 < 128 then le data 64 1 else le data 64 1 - 256

/-- The size of a record by the rule of NTFS: clusters if it is positive, and a power of two in bytes
if it is negative. -/
structure RecordSizeRule (data : Mem) (vol : NtfsVolume) : Prop where
  clusters : 0 < clustersPerRecord data →
    (vol.mftRecordSize : ℤ) = clustersPerRecord data * vol.bytesPerCluster
  bytes : clustersPerRecord data < 0 → vol.mftRecordSize = 2 ^ (-clustersPerRecord data).toNat

/-- The loop of `ntfs_map` over the metafiles ends, after 12 rounds at most, having set pointers of the
12 there are, and written inside of the bytes of the 12 records. -/
def MetafilesRead (vol : NtfsVolume) : Prop :=
  ∀ (device records : Mem), ∃ m, ∀ rounds ≥ 12,
    readMetafiles vol device (12 * vol.mftRecordSize % 2 ^ 32) rounds 0 records = some m

/-- A boot sector with a usable geometry: `read_boot_sector` returns, the size of a record is right,
and the metafiles can be read. -/
def NtfsUsable (data : Mem) : Prop :=
  ∃ vol, readNtfsBootSector data = some (some vol) ∧ RecordSizeRule data vol ∧ MetafilesRead vol

section

variable {data device records : Mem} {vol : NtfsVolume} {alloc n rounds : ℕ}

theorem mftRecordSize_eq (hpos : 0 < le data 64 1) :
    mftRecordSize data = le data 11 2 * le data 13 1 * le data 64 1 := by
  have h11 : le data 11 2 ≤ 2 ^ 16 - 1 := Nat.le_pred_of_lt (le_lt data 11 2)
  have h13 : le data 13 1 ≤ 2 ^ 8 - 1 := Nat.le_pred_of_lt (le_lt data 13 1)
  have h64 : le data 64 1 ≤ 2 ^ 8 - 1 := Nat.le_pred_of_lt (le_lt data 64 1)
  rw [mftRecordSize, if_pos hpos]
  exact Nat.mod_eq_of_lt ((Nat.mul_le_mul (Nat.mul_le_mul h11 h13) h64).trans_lt (by norm_num))

theorem not_metafilesRead (h : vol.mftRecordsPerCluster = 0) : ¬MetafilesRead vol := by
  intro hread
  obtain ⟨m, hm⟩ := hread (fun _ => 0) (fun _ => 0)
  have hfirst := hm 12 (le_refl 12)
  rw [readMetafiles, if_pos (by omega), readMftRecords, if_pos h] at hfirst
  cases hfirst

theorem readMetafiles_clusters (hone : vol.mftRecordsPerCluster = 1)
    (hsize : 4096 ≤ vol.mftRecordSize ∧ vol.mftRecordSize < 2 ^ 24)
    (hblocks : vol.afsBlocksPerCluster ≤ 4096) (hn : n ≤ 12) :
    ∃ m, ∀ rounds ≥ n, readMetafiles vol device (12 * vol.mftRecordSize) rounds (12 - n) records =
      some m := by
  induction n generalizing records with
  | zero =>
    refine ⟨records, fun rounds _ => ?_⟩
    cases rounds with
    | zero => rfl
    | succ rounds => exact if_neg (by omega)
  | succ n ih =>
    -- the record is inside of the buffer
    have hplace : (12 - (n + 1)) * vol.mftRecordSize + 4096 ≤ 12 * vol.mftRecordSize := by
      have := Nat.mul_le_mul_right vol.mftRecordSize (show 12 - (n + 1) + 1 ≤ 12 by omega)
      rw [Nat.succ_mul] at this
      omega
    have hmod : (12 - (n + 1)) * vol.mftRecordSize % 2 ^ 32 = (12 - (n + 1)) * vol.mftRecordSize :=
      Nat.mod_eq_of_lt (by omega)
    obtain ⟨records', hread⟩ : ∃ records', readMftRecords vol device (12 - (n + 1))
        (12 * vol.mftRecordSize) records ((12 - (n + 1)) * vol.mftRecordSize) = some records' := by
      rw [readMftRecords, hone, if_neg (by omega), if_pos (Nat.mod_one _)]
      exact readNtfsCluster_returns hblocks (.inr hplace)
    obtain ⟨m, hm⟩ : ∃ m, ∀ rounds ≥ n, readMetafiles vol device (12 * vol.mftRecordSize) rounds
        (12 - n) records' = some m := ih (by omega)
    refine ⟨m, fun rounds hrounds => ?_⟩
    obtain ⟨r, rfl⟩ : ∃ r, rounds = r + 1 := ⟨rounds - 1, by omega⟩
    have hnext : 12 - (n + 1) + vol.mftRecordsPerCluster = 12 - n := by omega
    rw [readMetafiles, if_pos (by omega), hmod, hread, Option.bind_eq_bind, Option.bind_some, hnext,
      if_pos (by omega)]
    exact hm r (by omega)

/-- **When the geometry is usable**: exactly when a record is one cluster, and a cluster is not
empty. -/
theorem ntfsUsable_iff (haccepted : readNtfsBootSector data ≠ some none) :
    NtfsUsable data ↔ le data 64 1 = 1 ∧ le data 11 2 ≠ 0 ∧ le data 13 1 ≠ 0 := by
  constructor
  · rintro ⟨vol, hboot, -, hread⟩
    obtain ⟨hcluster, hbytes, hblock, hrecord, hsize, -, hper⟩ := readNtfsBootSector_eq hboot
    rcases Nat.eq_zero_or_pos (le data 64 1) with hzero | hpos
    · -- records of one byte: their number in a cluster is a multiple of 256
      have hone : vol.mftRecordSize = 1 := by
        rw [hrecord, mftRecordSize, if_neg (by omega)]
      refine absurd hread (not_metafilesRead ?_)
      rw [hper, hone]
      omega
    · have hrule := mftRecordSize_eq hpos
      rw [← hbytes] at hrule
      have hsector : le data 11 2 ≠ 0 := by
        intro h0
        rw [h0, Nat.zero_mul] at hbytes
        rw [hrule, hbytes, Nat.zero_mul] at hsize
        exact hsize rfl
      refine ⟨?_, hsector, hcluster⟩
      by_contra hmany
      refine not_metafilesRead ?_ hread
      have hbytes0 : 0 < vol.bytesPerCluster := by
        rw [hbytes]
        exact Nat.mul_pos (Nat.pos_of_ne_zero hsector) (Nat.pos_of_ne_zero hcluster)
      have hlt : vol.bytesPerCluster < vol.mftRecordSize := by
        rw [hrecord, hrule]
        exact lt_mul_of_one_lt_right hbytes0 (by omega)
      rw [hper, Nat.div_eq_of_lt hlt]
      rfl
  · rintro ⟨hone, hsector, hcluster⟩
    have hrule : mftRecordSize data = _ := mftRecordSize_eq (by omega)
    have hpos : 0 < le data 11 2 * le data 13 1 :=
      Nat.mul_pos (Nat.pos_of_ne_zero hsector) (Nat.pos_of_ne_zero hcluster)
    rw [hone, Nat.mul_one] at hrule
    obtain ⟨vol, hboot⟩ : ∃ vol, readNtfsBootSector data = some (some vol) := by
      unfold readNtfsBootSector at haccepted ⊢
      dsimp only at haccepted ⊢
      rw [if_neg hcluster, hrule] at haccepted ⊢
      split_ifs at haccepted ⊢ with hcheck hblock hzero
      · exact absurd rfl haccepted
      · exact absurd rfl haccepted
      · omega
      · exact ⟨_, rfl⟩
    obtain ⟨-, hbytes, hblock, hrecord, hsize, hblocks, hper⟩ := readNtfsBootSector_eq hboot
    have hsame : vol.mftRecordSize = vol.bytesPerCluster := by rw [hrecord, hrule, hbytes]
    have hlt : vol.bytesPerCluster < 2 ^ 24 := (readNtfsBootSector_lt hboot).1
    have hsigned : clustersPerRecord data = 1 := by
      rw [clustersPerRecord, hone]
      rfl
    refine ⟨vol, hboot, ⟨fun _ => ?_, fun hneg => ?_⟩, fun device records => ?_⟩
    · rw [hsigned, hsame, one_mul]
    · rw [hsigned] at hneg
      omega
    · have hrec : vol.mftRecordsPerCluster = 1 := by
        rw [hper, hsame, Nat.div_self (by omega)]
        rfl
      have hread : ∃ m, ∀ rounds ≥ 12, readMetafiles vol device (12 * vol.mftRecordSize) rounds
          (12 - 12) records = some m :=
        readMetafiles_clusters hrec ⟨by omega, by omega⟩ (by omega) (le_refl 12)
      rwa [Nat.mod_eq_of_lt (by omega)]

end

/-- Records of one cluster of 4096 bytes. -/
theorem ntfsUsable_resident : NtfsUsable (residentImage 0) :=
  (ntfsUsable_iff (by
    have hboot : (readNtfsBootSector (residentImage 0)).bind (fun vol => vol.map fun _ => ()) =
        some () := by decide +kernel
    intro h
    rw [h] at hboot
    cases hboot)).2 (by decide +kernel)

/-- The same volume with the usual records of 1024 bytes, of which a cluster has four. -/
def smallRecordsImage : Mem := putLe (residentImage 0) 64 1 0xF6

/-- Its boot sector is accepted, with records of 246 clusters. -/
theorem not_ntfsUsable : readNtfsBootSector smallRecordsImage ≠ some none ∧
    clustersPerRecord smallRecordsImage = -10 ∧ ¬NtfsUsable smallRecordsImage := by
  have hboot : (readNtfsBootSector smallRecordsImage).bind (fun vol => vol.map fun vol =>
      (vol.mftRecordSize, vol.mftRecordsPerCluster)) = some (246 * 4096, 0) := by
    decide +kernel
  obtain ⟨vol?, hvol, h⟩ := Option.bind_eq_some_iff.1 hboot
  obtain ⟨vol, rfl, hgeometry⟩ := Option.map_eq_some_iff.1 h
  rw [Prod.mk.injEq] at hgeometry
  refine ⟨by rw [hvol]; simp, by decide +kernel, ?_⟩
  rintro ⟨vol', hvol', -, hread⟩
  obtain rfl : vol = vol' := Option.some.inj (Option.some.inj (hvol.symm.trans hvol'))
  exact not_metafilesRead hgeometry.2 hread

end Artifice
