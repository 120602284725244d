import Artifice.Modules.Ntfs

/-!
What `read_nonresident_data` reads: the clusters of the runs in order, up to the first one with
which there are enough bytes, and of each of them the first page.

The run list is decoded with unsigned offsets that count from the start of the volume.
-/

namespace Artifice

open Lib

/-! ### The run list -/

/-- The runs from byte `i` of a run list on, as they are decoded: the first cluster and the number of
them. -/
def decodedRuns (records : Mem) (runlist : ℕ) : ℕ → ℕ → List (ℕ × ℕ)
  | 0, _ => []
  | rounds + 1, i =>
    let fieldSizes := le records (runlist + i) 1
    let offsetSizeBytes := fieldSizes / 16
    let lengthSizeBytes := fieldSizes % 16
    if fieldSizes = 0 then []
    else
      (le records (runlist + i + 1 + lengthSizeBytes) 8 % 2 ^ (8 * offsetSizeBytes),
        le records (runlist + i + 1) 8 % 2 ^ (8 * lengthSizeBytes)) ::
        decodedRuns records runlist rounds (i + 1 + lengthSizeBytes + offsetSizeBytes)

/-- The run list can be read from byte `i` on, where `n` clusters have been read before it and `want`
are wanted: a run has no field of 8 bytes or more, and what is loaded of it is in the records. -/
def RunsReadable (records : Mem × ℕ) (runlist want : ℕ) : ℕ → ℕ → ℕ → Prop
  | 0, _, _ => False
  | rounds + 1, i, n =>
    let fieldSizes := le records.1 (runlist + i) 1
    let lengthSizeBytes := fieldSizes % 16
    let length := le records.1 (runlist + i + 1) 8 % 2 ^ (8 * lengthSizeBytes)
    runlist + i + 1 ≤ records.2 ∧ (fieldSizes = 0 ∨
      (fieldSizes / 16 < 8 ∧ lengthSizeBytes < 8) ∧
        (runlist + i + 1 + 8 ≤ records.2 ∧ runlist + i + 1 + lengthSizeBytes + 8 ≤ records.2) ∧
        (want ≤ n + length ∨ RunsReadable records runlist want rounds
          (i + 1 + lengthSizeBytes + fieldSizes / 16) (n + length)))

/-- The clusters of runs, in order. -/
def runClusters (runs : List (ℕ × ℕ)) : List ℕ := runs.flatMap fun run => List.range' run.1 run.2

/-- The number of clusters with which there are enough bytes; there is a first one in any case. -/
def enoughClusters (vol : NtfsVolume) (amtToRead : ℕ) : ℕ :=
  max 1 ((amtToRead + vol.bytesPerCluster - 1) / vol.bytesPerCluster)

/-! ### The buffer -/

/-- The geometry of a volume whose clusters have pages. -/
structure NtfsVolume.Paged (vol : NtfsVolume) : Prop where
  blocks : 0 < vol.afsBlocksPerCluster ∧ vol.afsBlocksPerCluster < 2 ^ 8
  bytes : 4096 ≤ vol.bytesPerCluster ∧ vol.bytesPerCluster < 2 ^ 24

/-- The buffer behind the reading of clusters to place `p`: the first page of each. -/
def clusterPages (vol : NtfsVolume) (device buffer : Mem) (p : ℕ) (clusters : List ℕ) : Mem :=
  fun i =>
    if p ≤ i ∧ (i - p) % vol.bytesPerCluster < 4096 then
      match clusters[(i - p) / vol.bytesPerCluster]? with
      | some c => device (512 * pageSector (c * vol.afsBlocksPerCluster % 2 ^ 32) 0 +
          (i - p) % vol.bytesPerCluster)
      | none => buffer i
    else buffer i

/-- The state of `read_nonresident_data` when it has read `clusters`. -/
structure ReadClusters (vol : NtfsVolume) (device start : Mem) (p : ℕ) (l : List ℕ)
    (s : NtfsRead) : Prop where
  clusters : s.clusters = l
  amount : s.amtWritten = l.length * vol.bytesPerCluster
  buffer : s.buffer = clusterPages vol device start p l

section

variable {vol : NtfsVolume} {data device buffer buffer' : Mem} {records : Mem × ℕ}
  {l clusters : List ℕ} {alloc p amtToRead offset n i c rounds runlist attr maxBytes : ℕ}
  {s s' : NtfsRead} {f : Flow NtfsRead}

theorem readNtfsBootSector_eq (h : readNtfsBootSector data = some (some vol)) :
    le data 13 1 ≠ 0 ∧ vol.bytesPerCluster = le data 11 2 * le data 13 1 ∧
      vol.bytesPerCluster % 4096 = 0 ∧ vol.mftRecordSize = mftRecordSize data ∧
      mftRecordSize data ≠ 0 ∧
      vol.afsBlocksPerCluster = vol.bytesPerCluster / 4096 % 2 ^ 8 ∧
      vol.mftRecordsPerCluster = vol.bytesPerCluster / vol.mftRecordSize % 2 ^ 8 := by
  unfold readNtfsBootSector at h
  dsimp only at h
  split_ifs at h with hcheck hcluster hblock hrecord
  · exact absurd (Option.some.inj h) (by simp)
  · exact absurd (Option.some.inj h) (by simp)
  · rw [← Option.some.inj (Option.some.inj h)]
    exact ⟨hcluster, rfl, not_not.1 hblock, rfl, hrecord, rfl, rfl⟩

theorem readNtfsBootSector_lt (h : readNtfsBootSector data = some (some vol)) :
    vol.bytesPerCluster < 2 ^ 24 ∧ vol.afsBlocksPerCluster < 2 ^ 8 := by
  obtain ⟨-, hbytes, -, -, -, hblocks, -⟩ := readNtfsBootSector_eq h
  refine ⟨?_, by rw [hblocks]; exact Nat.mod_lt _ (by norm_num)⟩
  rw [hbytes]
  exact (Nat.mul_lt_mul'' (le_lt data 11 2) (le_lt data 13 1)).trans_le (by norm_num)

theorem readNtfsBootSector_spec (h : readNtfsBootSector data = some (some vol)) :
    vol.clusterCount < 2 ^ 64 ∧ (0 < vol.afsBlocksPerCluster → vol.Paged) := by
  obtain ⟨-, -, -, -, -, hblocks, -⟩ := readNtfsBootSector_eq h
  obtain ⟨hlt, hblocks8⟩ := readNtfsBootSector_lt h
  refine ⟨?_, fun hpos => ⟨⟨hpos, hblocks8⟩, ?_, hlt⟩⟩
  · unfold readNtfsBootSector at h
    dsimp only at h
    split_ifs at h
    · exact absurd (Option.some.inj h) (by simp)
    · exact absurd (Option.some.inj h) (by simp)
    · rw [← Option.some.inj (Option.some.inj h)]
      exact lt_of_le_of_lt (Nat.div_le_self _ _) (le_lt data 40 8)
  · by_contra hless
    rw [hblocks, Nat.div_eq_of_lt (Nat.not_le.1 hless)] at hpos
    exact absurd hpos (lt_irrefl 0)

theorem readNtfsCluster_returns (hblocks : vol.afsBlocksPerCluster ≤ 4096)
    (hroom : vol.afsBlocksPerCluster = 0 ∨ p + 4096 ≤ alloc) :
    ∃ buffer', readNtfsCluster vol device c alloc buffer p = some buffer' := by
  rw [readNtfsCluster]
  rcases Nat.eq_zero_or_pos vol.afsBlocksPerCluster with hnone | hpos
  · rw [hnone]
    exact ⟨buffer, rfl⟩
  · have hpages : (vol.afsBlocksPerCluster + 4095) / 4096 = 1 := by omega
    rw [hpages, readClusterPages, readClusterPages]
    exact ⟨_, if_pos (by omega)⟩

theorem NtfsVolume.Paged.readNtfsCluster (hvol : vol.Paged)
    (h : Artifice.readNtfsCluster vol device c alloc buffer p = some buffer') :
    p + 4096 ≤ alloc ∧
      buffer' = readPage buffer p device (c * vol.afsBlocksPerCluster % 2 ^ 32) 0 := by
  have hrounds : (vol.afsBlocksPerCluster + 4095) / 4096 = 1 := by
    have := hvol.blocks
    omega
  rw [Artifice.readNtfsCluster, hrounds, readClusterPages, readClusterPages] at h
  simp only [Option.bind_eq_bind, Option.bind_some, Nat.mul_zero, Nat.add_zero, Nat.mod_mod] at h
  split_ifs at h with hfit
  exact ⟨hfit, (Option.some.inj h).symm⟩

theorem NtfsVolume.Paged.clusterPages_append (hvol : vol.Paged) :
    readPage (clusterPages vol device buffer p clusters) (p + clusters.length * vol.bytesPerCluster)
      device (c * vol.afsBlocksPerCluster % 2 ^ 32) 0 =
      clusterPages vol device buffer p (clusters ++ [c]) := by
  have hbytes := hvol.bytes.1
  funext i
  rw [readPage, afsBlkdevIo, readPageIo]
  dsimp only
  by_cases hin : p + clusters.length * vol.bytesPerCluster ≤ i ∧
      i < p + clusters.length * vol.bytesPerCluster + 4096
  · -- a byte of the page
    obtain ⟨q, rfl⟩ : ∃ q, i = p + clusters.length * vol.bytesPerCluster + q :=
      ⟨_, (Nat.add_sub_cancel' hin.1).symm⟩
    have hplace : p + clusters.length * vol.bytesPerCluster + q - p =
        q + clusters.length * vol.bytesPerCluster := by omega
    have hq : q < vol.bytesPerCluster := by omega
    have hdiv : (q + clusters.length * vol.bytesPerCluster) / vol.bytesPerCluster =
        clusters.length := by
      rw [Nat.add_mul_div_right _ _ (by omega), Nat.div_eq_of_lt hq, Nat.zero_add]
    have hmod : (q + clusters.length * vol.bytesPerCluster) % vol.bytesPerCluster = q := by
      rw [Nat.add_mul_mod_self_right, Nat.mod_eq_of_lt hq]
    rw [blit_in (by omega), clusterPages, hplace, hmod, if_pos ⟨by omega, by omega⟩, hdiv,
      List.getElem?_concat_length]
  · rw [blit_out (by omega), clusterPages, clusterPages]
    split_ifs with hpage
    · have hdm := Nat.div_add_mod (i - p) vol.bytesPerCluster
      rcases Nat.lt_trichotomy ((i - p) / vol.bytesPerCluster) clusters.length with hlt | heq | hgt
      · rw [List.getElem?_append_left hlt]
      · rw [heq, Nat.mul_comm] at hdm
        omega
      · rw [List.getElem?_eq_none hgt.le, List.getElem?_eq_none (by simpa using hgt)]
    · rfl

theorem clusterPages_nil : clusterPages vol device buffer p [] = buffer := by
  funext i
  rw [clusterPages]
  split_ifs
  · rw [List.getElem?_nil]
  · rfl

/-! ### The loops -/

theorem enoughClusters_iff (hpos : 0 < vol.bytesPerCluster) (hn : n < enoughClusters vol amtToRead) :
    amtToRead ≤ n * vol.bytesPerCluster + vol.bytesPerCluster ↔
      n + 1 = enoughClusters vol amtToRead := by
  have hceil : (amtToRead + vol.bytesPerCluster - 1) / vol.bytesPerCluster ≤ n + 1 ↔
      amtToRead ≤ n * vol.bytesPerCluster + vol.bytesPerCluster := by
    rw [← Nat.lt_succ_iff, Nat.div_lt_iff_lt_mul (by omega), Nat.succ_mul, Nat.succ_mul]
    omega
  rw [← hceil]
  unfold enoughClusters at hn ⊢
  omega

theorem NtfsVolume.Paged.amount_lt (hvol : vol.Paged) (hamt : amtToRead < 2 ^ 63)
    (hn : n < enoughClusters vol amtToRead) :
    n * vol.bytesPerCluster + vol.bytesPerCluster < 2 ^ 64 := by
  have hbytes := hvol.bytes
  have hle : n * vol.bytesPerCluster ≤ amtToRead + vol.bytesPerCluster - 1 := by
    unfold enoughClusters at hn
    rcases Nat.eq_zero_or_pos n with rfl | hpos
    · omega
    · have hdiv : n ≤ (amtToRead + vol.bytesPerCluster - 1) / vol.bytesPerCluster := by omega
      exact (Nat.mul_le_mul_right _ hdiv).trans (Nat.div_mul_le_self _ _)
  omega

/-- The amounts up to the wanted one do not wrap. -/
structure AmountFits (vol : NtfsVolume) (amtToRead : ℕ) : Prop where
  pos : 0 < vol.bytesPerCluster
  nowrap : ∀ n < enoughClusters vol amtToRead,
    n * vol.bytesPerCluster + vol.bytesPerCluster < 2 ^ 64

/-- An invariant of the reading of clusters to place `p`, by the clusters that have been read. -/
structure NtfsReadInv (vol : NtfsVolume) (device : Mem) (alloc p amtToRead : ℕ)
    (I : List ℕ → NtfsRead → Prop) : Prop where
  amount : ∀ {l s}, I l s → s.amtWritten = l.length * vol.bytesPerCluster
  step : ∀ {l s c buffer'}, I l s → l.length < enoughClusters vol amtToRead →
    readNtfsCluster vol device c alloc s.buffer (p + s.amtWritten) = some buffer' →
    I (l ++ [c]) ⟨buffer', (s.amtWritten + vol.bytesPerCluster) % 2 ^ 64, s.clusters ++ [c]⟩

section Invariant

variable {I : List ℕ → NtfsRead → Prop}

theorem NtfsReadInv.round (hI : NtfsReadInv vol device alloc p amtToRead I) (hfit : AmountFits vol amtToRead)
    (hs : I l s) (hless : l.length < enoughClusters vol amtToRead)
    (hread : readNtfsCluster vol device c alloc s.buffer (p + s.amtWritten) = some buffer') :
    I (l ++ [c]) ⟨buffer', (s.amtWritten + vol.bytesPerCluster) % 2 ^ 64, s.clusters ++ [c]⟩ ∧
      (amtToRead ≤ (s.amtWritten + vol.bytesPerCluster) % 2 ^ 64 ↔
        l.length + 1 = enoughClusters vol amtToRead) := by
  refine ⟨hI.step hs hless hread, ?_⟩
  rw [hI.amount hs, Nat.mod_eq_of_lt (hfit.nowrap _ hless), enoughClusters_iff hfit.pos hless]

theorem NtfsReadInv.run_round (hI : NtfsReadInv vol device alloc p amtToRead I)
    (hfit : AmountFits vol amtToRead) (hs : I (l ++ List.range' offset i) s)
    (hless : l.length + i < enoughClusters vol amtToRead) (hi : i < n)
    (hread : readNtfsCluster vol device (offset + i) alloc s.buffer (p + s.amtWritten) =
      some buffer')
    (hf : f = if amtToRead ≤ (s.amtWritten + vol.bytesPerCluster) % 2 ^ 64
      then Flow.ret 0 ⟨buffer', (s.amtWritten + vol.bytesPerCluster) % 2 ^ 64,
        s.clusters ++ [offset + i]⟩
      else .next ⟨buffer', (s.amtWritten + vol.bytesPerCluster) % 2 ^ 64,
        s.clusters ++ [offset + i]⟩) :
    f.Sat
      (fun s' => I (l ++ List.range' offset (i + 1)) s' ∧
        l.length + (i + 1) < enoughClusters vol amtToRead)
      (fun _ => False)
      (fun _ s' => ∃ m ≤ n, I (l ++ List.range' offset m) s' ∧
        l.length + m = enoughClusters vol amtToRead) := by
  have hlen : (l ++ List.range' offset i).length = l.length + i := by
    rw [List.length_append, List.length_range']
  have hrange : List.range' offset (i + 1) = List.range' offset i ++ [offset + i] := by
    rw [List.range'_concat, Nat.one_mul]
  obtain ⟨hnext, henough⟩ := hI.round hfit hs (by rwa [hlen]) hread
  rw [List.append_assoc, ← hrange] at hnext
  rw [hlen] at henough
  rw [hf]
  split_ifs with hstop
  · exact ⟨i + 1, hi, hnext, henough.1 hstop⟩
  · have hmore := mt henough.2 hstop
    exact ⟨hnext, by omega⟩

theorem NtfsReadInv.readRun_spec (hI : NtfsReadInv vol device alloc p amtToRead I)
    (hfit : AmountFits vol amtToRead) (hs : I l s)
    (hmore : l.length < enoughClusters vol amtToRead)
    (h : readRun vol device alloc p amtToRead offset n 0 s = some f) :
    f.Sat
      (fun s' => I (l ++ List.range' offset n) s' ∧ l.length + n < enoughClusters vol amtToRead)
      (fun _ => False)
      (fun _ s' => ∃ m ≤ n, I (l ++ List.range' offset m) s' ∧
        l.length + m = enoughClusters vol amtToRead) := by
  have hinv := forLoop_inv
    (I := fun i s => I (l ++ List.range' offset i) s ∧ l.length + i < enoughClusters vol amtToRead)
    (B := fun _ => False)
    (R := fun _ s => ∃ m ≤ n, I (l ++ List.range' offset m) s ∧
      l.length + m = enoughClusters vol amtToRead)
    (fun i s g _ hi hs hg => by
      obtain ⟨buffer', hread, hg⟩ := Option.bind_eq_some_iff.1 hg
      exact hI.run_round hfit hs.1 hs.2 (by omega) hread (Option.some.inj hg).symm)
    ⟨by rwa [List.range'_zero, List.append_nil], hmore⟩ h
  rw [Nat.zero_add] at hinv
  exact hinv.mono (fun s' hs' => hs'.resolve_right id) (fun _ => id) (fun _ _ => id)

theorem NtfsReadInv.readRun_returns (hI : NtfsReadInv vol device alloc p amtToRead I)
    (hfit : AmountFits vol amtToRead) (hs : I l s)
    (hmore : l.length < enoughClusters vol amtToRead)
    (hroom : ∀ c b, ∀ j < min (l.length + n) (enoughClusters vol amtToRead),
      ∃ b', readNtfsCluster vol device c alloc b (p + j * vol.bytesPerCluster) = some b') :
    ∃ f, readRun vol device alloc p amtToRead offset n 0 s = some f := by
  unfold readRun
  refine Exists.imp (fun f => And.left) (forLoop_total
    (I := fun i s => I (l ++ List.range' offset i) s ∧ l.length + i < enoughClusters vol amtToRead)
    (B := fun _ => False)
    (R := fun _ s => ∃ m ≤ n, I (l ++ List.range' offset m) s ∧
      l.length + m = enoughClusters vol amtToRead)
    (fun i s _ hi hs => ?_) ⟨by rwa [List.range'_zero, List.append_nil], hmore⟩)
  obtain ⟨buffer', hread⟩ := hroom (offset + i) s.buffer (l.length + i) (by omega)
  have hplace : s.amtWritten = (l.length + i) * vol.bytesPerCluster := by
    rw [hI.amount hs.1, List.length_append, List.length_range']
  rw [← hplace] at hread
  refine ⟨_, by rw [hread]; rfl, ?_⟩
  exact hI.run_round hfit hs.1 hs.2 (by omega) hread rfl

theorem readLe_eq_some {o m : ℕ} {v : ℕ} (h : readLe records o m = some v) :
    o + m ≤ records.2 ∧ le records.1 o m = v := by
  unfold readLe at h
  split_ifs at h with hin
  exact ⟨hin, Option.some.inj h⟩

theorem readLe_of_le {o m : ℕ} (h : o + m ≤ records.2) :
    readLe records o m = some (le records.1 o m) := if_pos h

/-- **The clusters that are read**: those of the decoded runs, until there are enough; and the run list
could be read up to there. -/
theorem NtfsReadInv.readRuns_spec (hI : NtfsReadInv vol device alloc p amtToRead I)
    (hfit : AmountFits vol amtToRead) (hs : I l s)
    (hmore : l.length < enoughClusters vol amtToRead)
    (h : readRuns vol device records runlist alloc p amtToRead rounds i s = some s') :
    I (l ++ (runClusters (decodedRuns records.1 runlist rounds i)).take
        (enoughClusters vol amtToRead - l.length)) s' ∧
      RunsReadable records runlist (enoughClusters vol amtToRead) rounds i l.length := by
  induction rounds generalizing i l s with
  | zero => simp [readRuns] at h
  | succ rounds ih =>
    rw [readRuns] at h
    simp only [Option.bind_eq_bind, Option.bind_eq_some_iff] at h
    obtain ⟨fieldSizes, hfield, h⟩ := h
    obtain ⟨hin, rfl⟩ := readLe_eq_some hfield
    rw [decodedRuns, RunsReadable]
    split_ifs at h with hend hshift
    · rw [if_pos hend, ← Option.some.inj h]
      refine ⟨?_, hin, .inl hend⟩
      simpa [runClusters] using hs
    · simp only [Option.bind_eq_some_iff] at h
      obtain ⟨length, hlength, offset, hoffset, f, hrun, h⟩ := h
      obtain ⟨hlin, rfl⟩ := readLe_eq_some hlength
      obtain ⟨hoin, rfl⟩ := readLe_eq_some hoffset
      have hspec := hI.readRun_spec hfit hs hmore hrun
      rw [if_neg hend, runClusters, List.flatMap_cons]
      rw [not_or, Nat.not_le, Nat.not_le] at hshift
      cases f with
      | next s₁ =>
        obtain ⟨hs₁, hless⟩ := hspec
        obtain ⟨hrest, hread⟩ := ih hs₁ (by rwa [List.length_append, List.length_range']) h
        rw [List.length_append, List.length_range'] at hread
        rw [List.length_append, List.length_range', ← Nat.sub_sub, List.append_assoc] at hrest
        refine ⟨?_, hin, .inr ⟨hshift, ⟨hlin, hoin⟩, .inr hread⟩⟩
        rw [List.take_append, List.length_range', List.take_of_length_le (by
          rw [List.length_range']
          omega)]
        exact hrest
      | brk s₁ => exact hspec.elim
      | ret code s₁ =>
        obtain ⟨m, hm, hs₁, henough⟩ := hspec
        have htake : enoughClusters vol amtToRead - l.length = m := by omega
        refine ⟨?_, hin, .inr ⟨hshift, ⟨hlin, hoin⟩, .inl (by omega)⟩⟩
        rw [← Option.some.inj h, htake,
          List.take_append_of_le_length (by rwa [List.length_range']),
          List.take_range'_of_length_ge hm]
        exact hs₁

/-- The run list is read to its end, or until there are enough clusters, where it can be read and the
clusters can. -/
theorem NtfsReadInv.readRuns_returns (hI : NtfsReadInv vol device alloc p amtToRead I)
    (hfit : AmountFits vol amtToRead) (hs : I l s)
    (hmore : l.length < enoughClusters vol amtToRead)
    (hread : RunsReadable records runlist (enoughClusters vol amtToRead) rounds i l.length)
    (hroom : ∀ c b, ∀ j < min
        (l.length + (runClusters (decodedRuns records.1 runlist rounds i)).length)
        (enoughClusters vol amtToRead),
      ∃ b', readNtfsCluster vol device c alloc b (p + j * vol.bytesPerCluster) = some b') :
    ∃ s', readRuns vol device records runlist alloc p amtToRead rounds i s = some s' := by
  induction rounds generalizing i l s with
  | zero => exact hread.elim
  | succ rounds ih =>
    rw [RunsReadable] at hread
    obtain ⟨hin, hread⟩ := hread
    rw [decodedRuns] at hroom
    rw [readRuns, readLe_of_le hin, Option.bind_eq_bind, Option.bind_some]
    by_cases hend : le records.1 (runlist + i) 1 = 0
    · exact ⟨s, if_pos hend⟩
    · obtain ⟨hshift, hloads, hread⟩ := hread.resolve_left hend
      rw [if_neg hend, runClusters, List.flatMap_cons, List.length_append, List.length_range',
        ← Nat.add_assoc] at hroom
      rw [if_neg hend]
      dsimp only
      rw [if_neg (by omega), readLe_of_le hloads.1, Option.bind_eq_bind, Option.bind_some,
        readLe_of_le hloads.2, Option.bind_some]
      generalize le records.1 (runlist + i + 1 + le records.1 (runlist + i) 1 % 16) 8 %
        2 ^ (8 * (le records.1 (runlist + i) 1 / 16)) = offset
      generalize le records.1 (runlist + i + 1) 8 %
        2 ^ (8 * (le records.1 (runlist + i) 1 % 16)) = n at hroom hread ⊢
      obtain ⟨f, hrun⟩ : ∃ f, readRun vol device alloc p amtToRead offset n 0 s = some f :=
        hI.readRun_returns hfit hs hmore fun c b j hj => hroom c b j (by omega)
      have hspec := hI.readRun_spec hfit hs hmore hrun
      rw [hrun, Option.bind_some]
      cases f with
      | next s₁ =>
        obtain ⟨hs₁, hless⟩ := hspec
        have hlen : (l ++ List.range' offset n).length = l.length + n := by
          rw [List.length_append, List.length_range']
        refine ih hs₁ (by rwa [hlen]) ?_ fun c b j hj => hroom c b j ?_
        · rw [hlen]
          exact hread.resolve_left (by omega)
        · rwa [hlen] at hj
      | brk s₁ => exact hspec.elim
      | ret code s₁ => exact ⟨s₁, rfl⟩

end Invariant

theorem ReadClusters.append (hs : ReadClusters vol device buffer p l s) (hvol : vol.Paged)
    (hamt : amtToRead < 2 ^ 63) (hless : l.length < enoughClusters vol amtToRead)
    (h : readNtfsCluster vol device c alloc s.buffer (p + s.amtWritten) = some buffer') :
    ReadClusters vol device buffer p (l ++ [c])
      ⟨buffer', (s.amtWritten + vol.bytesPerCluster) % 2 ^ 64, s.clusters ++ [c]⟩ := by
  obtain ⟨-, hpage⟩ := hvol.readNtfsCluster h
  refine ⟨?_, ?_, ?_⟩
  · rw [hs.clusters]
  · rw [hs.amount, List.length_append, List.length_singleton, Nat.succ_mul]
    exact Nat.mod_eq_of_lt (hvol.amount_lt hamt hless)
  · rw [hpage, hs.buffer, hs.amount, hvol.clusterPages_append]

theorem NtfsVolume.Paged.readInv (hvol : vol.Paged) (hamt : amtToRead < 2 ^ 63) :
    NtfsReadInv vol device alloc p amtToRead (ReadClusters vol device buffer p) where
  amount h := h.amount
  step hs hless h := hs.append hvol hamt hless h

theorem NtfsVolume.Paged.amountFits (hvol : vol.Paged) (hamt : amtToRead < 2 ^ 63) :
    AmountFits vol amtToRead where
  pos := by
    have := hvol.bytes.1
    omega
  nowrap _ hn := hvol.amount_lt hamt hn

end

end Artifice
