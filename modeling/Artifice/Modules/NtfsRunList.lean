import Artifice.Modules.NtfsBitmap

/-!
The run list of a file against the format.

A run has a length, and an offset: a signed number that counts from the first cluster of the run before.
`read_nonresident_data` takes the offset of every run as unsigned, and as the cluster itself, so that it
is right for the first run and wrong for a fragment behind it.
-/

namespace Artifice

open Lib

/-! ### Run lists -/

/-- A run of a well-formed run list. -/
structure NtfsRun where
  lengthBytes : ℕ
  offsetBytes : ℕ
  length : ℕ
  delta : ℤ
  lengthBytes_range : 1 ≤ lengthBytes ∧ lengthBytes ≤ 8
  offsetBytes_range : 1 ≤ offsetBytes ∧ offsetBytes ≤ 8

/-- The bytes of a run. -/
def NtfsRun.size (r : NtfsRun) : ℕ := 1 + r.lengthBytes + r.offsetBytes

/-- The run list is in the memory at `o`: a header byte, the length and the signed offset of each run,
and a zero byte behind the last one. -/
def RunListAt (m : Mem) : ℕ → List NtfsRun → Prop
  | o, [] => le m o 1 = 0
  | o, r :: runs =>
    (le m o 1 = 16 * r.offsetBytes + r.lengthBytes ∧ le m (o + 1) r.lengthBytes = r.length ∧
      signedLe m (o + 1 + r.lengthBytes) r.offsetBytes = r.delta) ∧ RunListAt m (o + r.size) runs

/-- The bytes of a run list. -/
def runListSize (runs : List NtfsRun) : ℕ := (runs.map NtfsRun.size).sum + 1

/-- The clusters of a run list, where the run before it begins at cluster `before`. -/
def runListClusters : ℤ → List NtfsRun → List ℤ
  | _, [] => []
  | before, r :: runs =>
    ((List.range r.length).map fun n : ℕ => before + r.delta + n) ++
      runListClusters (before + r.delta) runs

/-- An attribute in the records that is not resident and begins at cluster 0 of its file, with a run
list that ends 8 bytes before the end of the records. -/
structure NonresidentAt (records : Mem × ℕ) (attr : ℕ) (runs : List NtfsRun) : Prop where
  header : attr + 56 ≤ records.2
  start : le records.1 (attr + 16) 8 = 0
  list : RunListAt records.1 (attr + le records.1 (attr + 32) 2) runs
  room : attr + le records.1 (attr + 32) 2 + runListSize runs + 8 ≤ records.2

/-- The buffer has room for the pages of the clusters that are wanted. -/
structure ClusterRoom (vol : NtfsVolume) (alloc p amtToRead : ℕ) : Prop where
  pages : p + (enoughClusters vol amtToRead - 1) * vol.bytesPerCluster + 4096 ≤ alloc
  memory : alloc < 2 ^ 63

/-- `read_nonresident_data` reads the clusters of the run list in order, up to the first one with which
there are enough bytes. -/
def ReadsRunList (vol : NtfsVolume) (device : Mem) (records : Mem × ℕ) (attr alloc p max : ℕ)
    (buffer : Mem) (runs : List NtfsRun) : Prop :=
  ∃ r, readNonresidentData vol device records attr alloc p max buffer = some r ∧
    r.clusters.map Int.ofNat = (runListClusters 0 runs).take
      (enoughClusters vol (min max (le records.1 (attr + 48) 8)))

/-- The run is read as it is behind the runs `earlier`: its fields are no longer than 7 bytes, and if
it has a cluster, the offsets before it sum up to 0, or to what an unsigned offset is off by. -/
structure RunKept (earlier : List NtfsRun) (r : NtfsRun) : Prop where
  lengthBytes : r.lengthBytes ≤ 7
  offsetBytes : r.offsetBytes ≤ 7
  start : 0 < r.length →
    (earlier.map NtfsRun.delta).sum = if r.delta < 0 then 256 ^ r.offsetBytes else 0

section

variable {vol : NtfsVolume} {device buffer data m : Mem} {records : Mem × ℕ} {r : NtfsRun}
  {runs earlier later : List NtfsRun} {res : NtfsRead} {l clusters : List ℕ}
  {alloc p attr max amtToRead want runlist rounds i n o k : ℕ} {before : ℤ}

/-! ### Reading an attribute -/

/-- The clusters and the amount of `read_nonresident_data`. -/
structure HasRead (vol : NtfsVolume) (l : List ℕ) (s : NtfsRead) : Prop where
  clusters : s.clusters = l
  amount : s.amtWritten = l.length * vol.bytesPerCluster

theorem hasRead_inv (hfit : AmountFits vol amtToRead) :
    NtfsReadInv vol device alloc p amtToRead (HasRead vol) where
  amount h := h.amount
  step := by
    rintro l s c buffer' hs hless -
    refine ⟨by rw [hs.clusters], ?_⟩
    rw [hs.amount, List.length_append, List.length_singleton, Nat.succ_mul]
    exact Nat.mod_eq_of_lt (hfit.nowrap _ hless)

/-- What is loaded of an attribute that is not resident is in the records. -/
structure AttrReadable (records : Mem × ℕ) (attr want : ℕ) : Prop where
  header : attr + 56 ≤ records.2
  list : attr + le records.1 (attr + 32) 2 + 1 ≤ records.2
  runs : le records.1 (attr + 16) 8 = 0 →
    RunsReadable records (attr + le records.1 (attr + 32) 2) want (records.2 + 1) 0 0

/-- The clusters of the attribute that are read when `want` are wanted. -/
def attrClusters (records : Mem × ℕ) (attr want : ℕ) : List ℕ :=
  if le records.1 (attr + 16) 8 ≠ 0 then []
  else (runClusters (decodedRuns records.1 (attr + le records.1 (attr + 32) 2) (records.2 + 1) 0)).take
    want

theorem enoughClusters_pos : 0 < enoughClusters vol amtToRead := by
  unfold enoughClusters
  omega

theorem readNonresidentData_spec (hfit : AmountFits vol (min max (le records.1 (attr + 48) 8)))
    (h : readNonresidentData vol device records attr alloc p max buffer = some res) :
    HasRead vol (attrClusters records attr
        (enoughClusters vol (min max (le records.1 (attr + 48) 8)))) res ∧
      AttrReadable records attr (enoughClusters vol (min max (le records.1 (attr + 48) 8))) := by
  have hnil : HasRead vol [] ⟨buffer, 0, []⟩ := ⟨rfl, (Nat.zero_mul _).symm⟩
  simp only [readNonresidentData, Option.bind_eq_bind, Option.bind_eq_some_iff] at h
  obtain ⟨size, hsize, offset, hoffset, byte, hbyte, vcn, hvcn, h⟩ := h
  obtain ⟨hheader, rfl⟩ := readLe_eq_some hsize
  obtain ⟨-, rfl⟩ := readLe_eq_some hoffset
  obtain ⟨hlist, -⟩ := readLe_eq_some hbyte
  obtain ⟨-, rfl⟩ := readLe_eq_some hvcn
  rw [attrClusters]
  split_ifs at h with hstart
  · rw [if_pos hstart, ← Option.some.inj h]
    exact ⟨hnil, by omega, hlist, fun hzero => absurd hzero hstart⟩
  · rw [if_neg hstart]
    obtain ⟨hread, hruns⟩ := (hasRead_inv hfit).readRuns_spec hfit hnil enoughClusters_pos h
    rw [List.nil_append, List.length_nil, Nat.sub_zero] at hread
    exact ⟨hread, by omega, hlist, fun _ => hruns⟩

theorem readNonresidentData_returns
    (hfit : AmountFits vol (min max (le records.1 (attr + 48) 8)))
    (hread : AttrReadable records attr (enoughClusters vol (min max (le records.1 (attr + 48) 8))))
    (hroom : ∀ c b, ∀ j < (attrClusters records attr
        (enoughClusters vol (min max (le records.1 (attr + 48) 8)))).length,
      ∃ b', readNtfsCluster vol device c alloc b (p + j * vol.bytesPerCluster) = some b') :
    ∃ res, readNonresidentData vol device records attr alloc p max buffer = some res := by
  have hheader := hread.header
  have hnil : HasRead vol [] ⟨buffer, 0, []⟩ := ⟨rfl, (Nat.zero_mul _).symm⟩
  rw [readNonresidentData, readLe_of_le (by omega), Option.bind_eq_bind, Option.bind_some,
    readLe_of_le (by omega), Option.bind_some]
  dsimp only
  rw [readLe_of_le hread.list, Option.bind_some, readLe_of_le (by omega), Option.bind_some]
  split_ifs with hstart
  · exact ⟨_, rfl⟩
  · rw [attrClusters, if_neg hstart, List.length_take] at hroom
    refine (hasRead_inv hfit).readRuns_returns hfit hnil enoughClusters_pos
      (hread.runs (not_not.1 hstart)) fun c b j hj => hroom c b j ?_
    rw [List.length_nil, Nat.zero_add, Nat.min_comm] at hj
    exact hj

/-! ### Decoding a run list -/

theorem le_eq_signedLe : (le m o n : ℤ) = signedLe m o n + if signedLe m o n < 0 then 256 ^ n else 0 := by
  have hlt : (le m o n : ℤ) < 256 ^ n := by exact_mod_cast le_lt m o n
  unfold signedLe
  split_ifs <;> omega

/-- The fields of a run as they are decoded. -/
structure RunDecoded (m : Mem) (o : ℕ) (r : NtfsRun) : Prop where
  header : le m o 1 = 16 * r.offsetBytes + r.lengthBytes
  lengthBytes : le m o 1 % 16 = r.lengthBytes
  offsetBytes : le m o 1 / 16 = r.offsetBytes
  length : le m (o + 1) 8 % 2 ^ (8 * r.lengthBytes) = r.length
  offset : ((le m (o + 1 + r.lengthBytes) 8 % 2 ^ (8 * r.offsetBytes) : ℕ) : ℤ) =
    r.delta + if r.delta < 0 then 256 ^ r.offsetBytes else 0

theorem runDecoded (h : RunListAt m o (r :: runs)) : RunDecoded m o r := by
  obtain ⟨⟨hheader, hlength, hdelta⟩, -⟩ := h
  have hl := r.lengthBytes_range
  have ho := r.offsetBytes_range
  have hpow : ∀ n, 2 ^ (8 * n) = 256 ^ n := fun n => by
    rw [pow_mul]
    norm_num
  refine ⟨hheader, by omega, by omega, ?_, ?_⟩
  · rw [hpow, le_mod_pow hl.2, hlength]
  · rw [hpow, le_mod_pow ho.2, le_eq_signedLe, hdelta]

/-- The first cluster that is taken for a run. -/
def codeStart (r : NtfsRun) : ℕ := (r.delta + if r.delta < 0 then 256 ^ r.offsetBytes else 0).toNat

theorem decodedRuns_eq (h : RunListAt m (runlist + i) runs) (hrounds : runs.length < rounds) :
    decodedRuns m runlist rounds i = runs.map fun r => (codeStart r, r.length) := by
  induction runs generalizing i rounds with
  | nil =>
    obtain ⟨rounds, rfl⟩ : ∃ n, rounds = n + 1 := ⟨rounds - 1, by omega⟩
    rw [decodedRuns]
    exact if_pos h
  | cons r runs ih =>
    obtain ⟨rounds, rfl⟩ : ∃ n, rounds = n + 1 := ⟨rounds - 1, by omega⟩
    have hdec := runDecoded h
    have hl := r.lengthBytes_range
    have hrest := h.2
    rw [Nat.add_assoc, show i + r.size = i + 1 + r.lengthBytes + r.offsetBytes by
      rw [NtfsRun.size]; omega] at hrest
    rw [decodedRuns, if_neg (by rw [hdec.header]; omega), hdec.lengthBytes, hdec.offsetBytes, hdec.length,
      ih hrest (by rw [List.length_cons] at hrounds; omega), List.map_cons, codeStart, ← hdec.offset,
      Int.toNat_natCast]

theorem forall_split_cons {P : List NtfsRun → NtfsRun → Prop} :
    (∀ earlier r' later, r :: runs = earlier ++ r' :: later → P earlier r') ↔
      P [] r ∧ ∀ earlier r' later, runs = earlier ++ r' :: later → P (r :: earlier) r' := by
  constructor
  · intro h
    exact ⟨h [] r runs rfl, fun earlier r' later heq => h (r :: earlier) r' later (by rw [heq]; rfl)⟩
  · rintro ⟨hhead, htail⟩ earlier r' later heq
    cases earlier with
    | nil =>
      rw [List.nil_append] at heq
      rw [← (List.cons.inj heq).1]
      exact hhead
    | cons r₀ earlier =>
      rw [List.cons_append] at heq
      rw [← (List.cons.inj heq).1]
      exact htail earlier r' later (List.cons.inj heq).2

/-- A well-formed run list inside of the records can be read where the fields of the runs that are
come to are not too long. -/
theorem runsReadable_iff (h : RunListAt records.1 (runlist + i) runs) (hrounds : runs.length < rounds)
    (hroom : runlist + i + runListSize runs + 8 ≤ records.2) (hn : n < want) :
    RunsReadable records runlist want rounds i n ↔
      ∀ earlier r later, runs = earlier ++ r :: later →
        n + (earlier.map NtfsRun.length).sum < want → r.lengthBytes ≤ 7 ∧ r.offsetBytes ≤ 7 := by
  induction runs generalizing i n rounds with
  | nil =>
    obtain ⟨rounds, rfl⟩ : ∃ n, rounds = n + 1 := ⟨rounds - 1, by omega⟩
    constructor
    · intro _ earlier r later heq
      exact absurd heq (by simp)
    · intro _
      exact ⟨by omega, .inl h⟩
  | cons r runs ih =>
    obtain ⟨rounds, rfl⟩ : ∃ n, rounds = n + 1 := ⟨rounds - 1, by omega⟩
    have hdec := runDecoded h
    have hl := r.lengthBytes_range
    have ho := r.offsetBytes_range
    have hsize : runListSize (r :: runs) = r.size + runListSize runs := by
      simp only [runListSize, List.map_cons, List.sum_cons]
      omega
    have hnext : runlist + (i + 1 + r.lengthBytes + r.offsetBytes) = runlist + i + r.size := by
      rw [NtfsRun.size]
      omega
    have hone : 0 < runListSize runs := by rw [runListSize]; omega
    have hrun : r.size = 1 + r.lengthBytes + r.offsetBytes := rfl
    have hne : le records.1 (runlist + i) 1 ≠ 0 := by
      rw [hdec.header]
      omega
    have hlater : ∀ earlier, n + ((r :: earlier).map NtfsRun.length).sum =
        n + r.length + (earlier.map NtfsRun.length).sum := fun earlier => by
      rw [List.map_cons, List.sum_cons, Nat.add_assoc]
    rw [RunsReadable, hdec.lengthBytes, hdec.offsetBytes, hdec.length, forall_split_cons, List.map_nil,
      List.sum_nil, Nat.add_zero]
    simp only [hlater]
    have hrest : n + r.length < want →
        (RunsReadable records runlist want rounds (i + 1 + r.lengthBytes + r.offsetBytes)
          (n + r.length) ↔ _) := fun hless =>
      ih (by rw [hnext]; exact h.2) (by rw [List.length_cons] at hrounds; omega)
        (by rw [hnext]; omega) hless
    constructor
    · rintro ⟨-, hfields⟩
      obtain ⟨hshift, -, hmore⟩ := hfields.resolve_left hne
      refine ⟨fun _ => ⟨by omega, by omega⟩, fun earlier r' later heq hsum => ?_⟩
      have hless : n + r.length < want := by omega
      exact (hrest hless).1 (hmore.resolve_left (by omega)) earlier r' later heq hsum
    · rintro ⟨hfirst, htail⟩
      have hshift := hfirst hn
      refine ⟨by omega, .inr ⟨⟨by omega, by omega⟩, ⟨by omega, by omega⟩, ?_⟩⟩
      rcases Nat.lt_or_ge (n + r.length) want with hless | hge
      · exact .inr ((hrest hless).2 htail)
      · exact .inl hge

/-! ### The clusters -/

theorem map_range'_eq_iff {a : ℕ} {b : ℤ} {w : ℕ} :
    ((List.range' a n).map Int.ofNat).take w = ((List.range n).map fun j : ℕ => b + j).take w ↔
      (0 < w → 0 < n → (a : ℤ) = b) := by
  constructor
  · intro h hw hn
    obtain ⟨w, rfl⟩ : ∃ m, w = m + 1 := ⟨w - 1, by omega⟩
    obtain ⟨n, rfl⟩ : ∃ m, n = m + 1 := ⟨n - 1, by omega⟩
    rw [List.range'_succ, List.range_succ_eq_map, List.map_cons, List.map_cons, List.take_succ_cons,
      List.take_succ_cons] at h
    have := (List.cons.inj h).1
    simpa using this
  · intro h
    rcases Nat.eq_zero_or_pos w with rfl | hw
    · rw [List.take_zero, List.take_zero]
    · rcases Nat.eq_zero_or_pos n with rfl | hn
      · rfl
      · rw [← h hw hn, List.range'_eq_map_range, List.map_map]
        congr 2

/-- The clusters of the runs are the same exactly when the runs that are come to, and have a cluster,
begin at the same one. -/
theorem take_runClusters_iff {w : ℕ} :
    ((runClusters (runs.map fun r => (codeStart r, r.length))).map Int.ofNat).take w =
        (runListClusters before runs).take w ↔
      ∀ earlier r later, runs = earlier ++ r :: later → (earlier.map NtfsRun.length).sum < w →
        0 < r.length → (codeStart r : ℤ) = before + (earlier.map NtfsRun.delta).sum + r.delta := by
  induction runs generalizing before w with
  | nil =>
    constructor
    · intro _ earlier r later heq
      exact absurd heq (by simp)
    · intro _
      rfl
  | cons r runs ih =>
    have hlen : (((List.range' (codeStart r) r.length).map Int.ofNat).take w).length =
        (((List.range r.length).map fun j : ℕ => before + r.delta + j).take w).length := by
      simp
    have hsplit : ((runClusters ((r :: runs).map fun r => (codeStart r, r.length))).map
          Int.ofNat).take w = (runListClusters before (r :: runs)).take w ↔
        ((List.range' (codeStart r) r.length).map Int.ofNat).take w =
            ((List.range r.length).map fun j : ℕ => before + r.delta + j).take w ∧
          ((runClusters (runs.map fun r => (codeStart r, r.length))).map Int.ofNat).take
              (w - r.length) = (runListClusters (before + r.delta) runs).take (w - r.length) := by
      rw [runListClusters, List.map_cons, runClusters, List.flatMap_cons, List.map_append,
        List.take_append, List.take_append, List.length_map, List.length_map, List.length_range',
        List.length_range]
      constructor
      · intro h
        exact List.append_inj h hlen
      · rintro ⟨h1, h2⟩
        rw [h1]
        exact congrArg _ h2
    rw [hsplit, map_range'_eq_iff, ih, forall_split_cons]
    refine and_congr ?_ ?_
    · rw [List.map_nil, List.map_nil, List.sum_nil, List.sum_nil, add_zero]
    · refine forall_congr' fun earlier => forall_congr' fun r' => forall_congr' fun later =>
        forall_congr' fun _ => ?_
      rw [List.map_cons, List.sum_cons, List.map_cons, List.sum_cons, add_assoc before]
      refine imp_congr ?_ Iff.rfl
      omega

/-! ### When the run list is read -/

theorem length_lt_runListSize (runs : List NtfsRun) : runs.length < runListSize runs := by
  unfold runListSize
  induction runs with
  | nil => exact Nat.one_pos
  | cons r runs ih =>
    have hsize : 1 ≤ r.size := by
      rw [NtfsRun.size]
      omega
    rw [List.length_cons, List.map_cons, List.sum_cons]
    omega

theorem codeStart_eq (h : RunListAt m o runs) (hr : r ∈ runs) :
    (codeStart r : ℤ) = r.delta + if r.delta < 0 then 256 ^ r.offsetBytes else 0 := by
  induction runs generalizing o with
  | nil => exact absurd hr List.not_mem_nil
  | cons r₀ runs ih =>
    rcases List.mem_cons.1 hr with rfl | hmem
    · rw [codeStart, ← (runDecoded h).offset, Int.toNat_natCast]
    · exact ih h.2 hmem

/-- The amounts of a volume do not wrap in a buffer that has room. -/
theorem ClusterRoom.amountFits (hroom : ClusterRoom vol alloc p amtToRead)
    (hpos : 0 < vol.bytesPerCluster) (hlt : vol.bytesPerCluster < 2 ^ 24) :
    AmountFits vol amtToRead := by
  refine ⟨hpos, fun n hn => ?_⟩
  have hmul : n * vol.bytesPerCluster ≤
      (enoughClusters vol amtToRead - 1) * vol.bytesPerCluster := Nat.mul_le_mul_right _ (by omega)
  have hpages := hroom.pages
  have hmemory := hroom.memory
  omega

/-- **When the run list of a file is read per the format**: exactly when every run that is come to,
before there are enough clusters, has fields of at most 7 bytes, and begins, if it has a cluster, where
its offset alone says. -/
theorem readsRunList_iff (hboot : readNtfsBootSector data = some (some vol))
    (hpos : 0 < vol.bytesPerCluster) (hattr : NonresidentAt records attr runs)
    (hroom : ClusterRoom vol alloc p (min max (le records.1 (attr + 48) 8))) :
    ReadsRunList vol device records attr alloc p max buffer runs ↔
      ∀ earlier r later, runs = earlier ++ r :: later →
        (earlier.map NtfsRun.length).sum <
          enoughClusters vol (min max (le records.1 (attr + 48) 8)) → RunKept earlier r := by
  obtain ⟨hlt, hblocks⟩ := readNtfsBootSector_lt hboot
  obtain ⟨hheader, hstart, hlist, hend⟩ := hattr
  have hfit := hroom.amountFits hpos hlt
  have hpages := hroom.pages
  generalize hwant : enoughClusters vol (min max (le records.1 (attr + 48) 8)) = want at *
  generalize hrunlist : attr + le records.1 (attr + 32) 2 = runlist at *
  have hwant0 : 0 < want := hwant ▸ enoughClusters_pos
  have hlength : runs.length < records.2 + 1 := by
    have hle := length_lt_runListSize runs
    omega
  have hdecoded : decodedRuns records.1 runlist (records.2 + 1) 0 =
      runs.map fun r => (codeStart r, r.length) := decodedRuns_eq hlist hlength
  have hclusters : (attrClusters records attr want).map Int.ofNat =
      ((runClusters (runs.map fun r => (codeStart r, r.length))).map Int.ofNat).take want := by
    rw [attrClusters, if_neg (by omega), hrunlist, hdecoded, List.map_take]
  have hreadable : RunsReadable records runlist want (records.2 + 1) 0 0 ↔ _ :=
    runsReadable_iff (i := 0) hlist hlength (by omega) hwant0
  simp only [Nat.zero_add] at hreadable
  have hstarts : ∀ earlier r later, runs = earlier ++ r :: later →
      ((codeStart r : ℤ) = 0 + (earlier.map NtfsRun.delta).sum + r.delta ↔
        (earlier.map NtfsRun.delta).sum = if r.delta < 0 then 256 ^ r.offsetBytes else 0) := by
    intro earlier r later heq
    have hmem : r ∈ runs := by
      rw [heq]
      exact List.mem_append_right _ List.mem_cons_self
    rw [codeStart_eq hlist hmem, zero_add, add_comm r.delta, add_left_inj]
    exact eq_comm
  constructor
  · rintro ⟨res, hres, heq⟩ earlier r later hsplit hsum
    obtain ⟨hread, hruns⟩ := readNonresidentData_spec hfit hres
    rw [hwant] at hread hruns
    have hruns := hruns.runs hstart
    rw [hrunlist] at hruns
    obtain ⟨hl, ho⟩ := hreadable.1 hruns earlier r later hsplit hsum
    rw [hread.clusters, hwant, hclusters, take_runClusters_iff] at heq
    exact ⟨hl, ho, fun hr => (hstarts earlier r later hsplit).1 (heq earlier r later hsplit hsum hr)⟩
  · intro h
    have hruns := hreadable.2 fun earlier r later hsplit hsum =>
      ⟨(h earlier r later hsplit hsum).lengthBytes, (h earlier r later hsplit hsum).offsetBytes⟩
    have hattr : AttrReadable records attr want :=
      ⟨hheader, by unfold runListSize at hend; omega, fun _ => by rwa [hrunlist]⟩
    obtain ⟨res, hres⟩ : ∃ res,
        readNonresidentData vol device records attr alloc p max buffer = some res := by
      refine readNonresidentData_returns hfit (by rwa [hwant]) fun c b j hj => ?_
      rw [hwant, attrClusters, if_neg (by omega), List.length_take] at hj
      have hmul := Nat.mul_le_mul_right vol.bytesPerCluster (show j ≤ want - 1 by omega)
      exact readNtfsCluster_returns (by omega) (.inr (by omega))
    refine ⟨res, hres, ?_⟩
    have hread := (readNonresidentData_spec hfit hres).1
    rw [hwant] at hread
    rw [hread.clusters, hwant, hclusters, take_runClusters_iff]
    intro earlier r later hsplit hsum hr
    exact (hstarts earlier r later hsplit).2 ((h earlier r later hsplit hsum).start hr)

end

/-- A run of one cluster with short fields. -/
def shortRun (delta : ℤ) : NtfsRun := ⟨1, 1, 1, delta, by omega, by omega⟩

/-- Records of 4096 bytes with an attribute of 8192 bytes at their start, whose run list has the bytes
`runs`. -/
def runListRecords (runs : ℕ) : Mem × ℕ :=
  (putLe (putLe (putLe (fun _ => 0) 32 2 64) 48 8 8192) 64 8 runs, 4096)

instance decidableRunListAt (m : Mem) : (o : ℕ) → (runs : List NtfsRun) → Decidable (RunListAt m o runs)
  | o, [] => inferInstanceAs (Decidable (le m o 1 = 0))
  | o, r :: runs =>
    have := decidableRunListAt m (o + r.size) runs
    inferInstanceAs (Decidable ((le m o 1 = 16 * r.offsetBytes + r.lengthBytes ∧
      le m (o + 1) r.lengthBytes = r.length ∧
      signedLe m (o + 1 + r.lengthBytes) r.offsetBytes = r.delta) ∧ RunListAt m (o + r.size) runs))

/-- A run of one cluster at cluster 256. -/
def farRun : NtfsRun := ⟨1, 2, 1, 256, by omega, by omega⟩

/-- A file in two fragments, at cluster 256 and 3 clusters before it: what the unsigned offset of the
second one is off by is where the first one begins. -/
theorem readsRunList_two : ∃ vol, readNtfsBootSector (residentImage 0) = some (some vol) ∧
    ReadsRunList vol (fun _ => 0) (runListRecords 0xFD011101000121) 0 8192 0 8192 (fun _ => 0)
      [farRun, shortRun (-3)] := by
  have hboot : ((readNtfsBootSector (residentImage 0)).bind fun vol => vol.map fun vol =>
      vol.bytesPerCluster) = some 4096 := by decide +kernel
  obtain ⟨vol?, hvol, h⟩ := Option.bind_eq_some_iff.1 hboot
  obtain ⟨vol, rfl, hbytes⟩ := Option.map_eq_some_iff.1 h
  have hmin : min 8192 (le (runListRecords 0xFD011101000121).1 (0 + 48) 8) = 8192 := by
    decide +kernel
  refine ⟨vol, hvol, (readsRunList_iff hvol (by omega)
    ⟨by decide, by decide +kernel, by decide +kernel, by decide +kernel⟩ ?_).2 ?_⟩
  · rw [hmin]
    refine ⟨?_, by norm_num⟩
    rw [enoughClusters, hbytes]
    decide
  · intro earlier r later heq _
    cases earlier with
    | nil =>
      obtain ⟨rfl, -⟩ := List.cons.inj heq
      exact ⟨by decide, by decide, fun _ => by decide⟩
    | cons r₀ earlier =>
      obtain ⟨rfl, hrest⟩ := List.cons.inj heq
      cases earlier with
      | nil =>
        obtain ⟨rfl, -⟩ := List.cons.inj hrest
        exact ⟨by decide, by decide, fun _ => by decide⟩
      | cons r₁ earlier => exact absurd (List.cons.inj hrest).2 (by simp)

/-- The second fragment, 3 clusters behind the first one at cluster 5, is read at cluster 3. -/
theorem not_readsRunList : ∃ vol, readNtfsBootSector (residentImage 0) = some (some vol) ∧
    0 < vol.bytesPerCluster ∧
    NonresidentAt (runListRecords 0x030111050111) 0 [shortRun 5, shortRun 3] ∧
    ClusterRoom vol 8192 0 (min 8192 (le (runListRecords 0x030111050111).1 (0 + 48) 8)) ∧
    ¬ReadsRunList vol (fun _ => 0) (runListRecords 0x030111050111) 0 8192 0 8192 (fun _ => 0)
      [shortRun 5, shortRun 3] := by
  have hboot : ((readNtfsBootSector (residentImage 0)).bind fun vol => vol.map fun vol =>
      (vol.bytesPerCluster, (readNonresidentData vol (fun _ => 0) (runListRecords 0x030111050111) 0 8192
        0 8192 (fun _ => 0)).map NtfsRead.clusters)) = some (4096, some [5, 3]) := by decide +kernel
  obtain ⟨vol?, hvol, h⟩ := Option.bind_eq_some_iff.1 hboot
  obtain ⟨vol, rfl, hread⟩ := Option.map_eq_some_iff.1 h
  obtain ⟨hbytes, hclusters⟩ := Prod.mk.inj hread
  have hmin : min 8192 (le (runListRecords 0x030111050111).1 (0 + 48) 8) = 8192 := by decide +kernel
  refine ⟨vol, hvol, by omega, ⟨by decide, by decide +kernel, by decide +kernel, by decide +kernel⟩, ?_, ?_⟩
  · rw [hmin]
    refine ⟨?_, by norm_num⟩
    rw [enoughClusters, hbytes]
    decide
  · rintro ⟨res, hres, heq⟩
    rw [hres] at hclusters
    rw [Option.some.inj hclusters, hmin, enoughClusters, hbytes] at heq
    exact absurd heq (by decide)

end Artifice
