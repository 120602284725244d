import Artifice.Modules.Fat32

/-!
When the parsing of FAT32 stays in its buffers.

The number of data clusters, up to which the FAT is scanned, comes from the sectors of the volume; the
pages that are loaded and the list of empty clusters have the size of the FAT. The boot sector is
accepted whatever these numbers are to each other. With a FAT that is all zero every cluster is listed,
so that the list needs as much room as the FAT that is scanned.
-/

namespace Artifice

open Lib

/-! ### The property -/

/-- The sectors of the root directory. -/
def rootSectors (vol : FatVolume) : ℕ := vol.rootEntries * 32 / 2 ^ vol.sectorOrder

/-- The sectors of the FATs, as a `uint32_t`. -/
def tableSectors (vol : FatVolume) : ℕ := vol.secFat * vol.tables % 2 ^ 32

/-- No difference in `num_data_sectors` goes below zero, `fat_map` loads the pages of the FAT into their
buffer, and its scan reads inside of these pages and writes inside of the bytes of `empty_clusters`. -/
structure FatInBuffers (vol : FatVolume) : Prop where
  sectors : (numDataSectors vol : ℤ) =
    vol.totalSec - vol.reserved - tableSectors vol - rootSectors vol
  scan : ∀ (k : Kernel) (device : Mem), k.HasMemory → ∃ fat l, fatData k vol device = some fat ∧
    scanFat fat (fatSizeBytes vol) vol.numDataClusters 0 [] = some l

/-! ### The condition -/

/-- The sectors before the data, and the clusters behind them. -/
def sectorsBeforeData (vol : FatVolume) : ℕ := vol.reserved + tableSectors vol + rootSectors vol

/-- The clusters that have room behind the sectors before the data. -/
def clustersOf (vol : FatVolume) : ℕ := (vol.totalSec - sectorsBeforeData vol) / vol.secCluster

/-- The FAT ends behind the first page that is counted from the start of the volume. Otherwise it is
not loaded at all. -/
def FatLoaded (vol : FatVolume) : Prop := 4096 < fatAlignedOffset vol + fatAlignedSizeBytes vol

instance (vol : FatVolume) : Decidable (FatLoaded vol) :=
  inferInstanceAs (Decidable (4096 < fatAlignedOffset vol + fatAlignedSizeBytes vol))

/-- The bytes of the pages that the FAT is loaded into. -/
def fatPageBytes (vol : FatVolume) : ℕ := (fatAlignedSizeBytes vol / 4096 + 1) * 4096

/-- The sizes in a boot sector fit each other. -/
structure FatConsistent (vol : FatVolume) : Prop where
  sectors : sectorsBeforeData vol ≤ vol.totalSec
  pages : FatLoaded vol → fatPageBytes vol ≤ 2 ^ 31
  entries : 4 * clustersOf vol ≤ fatSizeBytes vol
  loaded : 0 < clustersOf vol → FatLoaded vol

section

variable {k : Kernel} {vol : FatVolume} {data device m : Mem} {fat : Mem × ℕ} {alloc i n : ℕ}
  {l : List ℕ} {f : Flow (List ℕ)}

/-! ### The sectors -/

theorem readFatBootSector_rootEntries (h : readFatBootSector data = some vol) :
    vol.rootEntries < 2 ^ 16 := by
  simp only [readFatBootSector, Option.bind_eq_bind, Option.bind_eq_some_iff] at h
  obtain ⟨v₁, h1, v₂, h2, h⟩ := h
  have hroot : v₁.rootEntries = le data 17 2 := by
    unfold fatReadDos20Bpb at h1
    dsimp only at h1
    split_ifs at h1
    rw [← Option.some.inj h1]
  have hkeep : v₂.rootEntries = v₁.rootEntries := by
    unfold fatReadFat32Ebpb fatReadDos331Bpb at h2
    dsimp only at h2
    split_ifs at h2 <;> rw [← Option.some.inj h2]
  rw [← Option.some.inj h]
  show v₂.rootEntries < 2 ^ 16
  rw [hkeep, hroot]
  exact le_lt data 17 2

/-- The unsigned difference is the difference exactly when the sectors before the data are on the
volume. -/
theorem numDataSectors_iff (hboot : readFatBootSector data = some vol) :
    (numDataSectors vol : ℤ) = vol.totalSec - vol.reserved - tableSectors vol - rootSectors vol ↔
      sectorsBeforeData vol ≤ vol.totalSec := by
  obtain ⟨⟨-, hres, htotal⟩, -⟩ := readFatBootSector_spec hboot
  have hroot : rootSectors vol < 2 ^ 21 := by
    have h16 := readFatBootSector_rootEntries hboot
    exact (Nat.div_le_self _ _).trans_lt (by omega)
  have htables : tableSectors vol < 2 ^ 32 := Nat.mod_lt _ (by norm_num)
  have hdef : numDataSectors vol =
      (vol.totalSec + 3 * 2 ^ 32 - vol.reserved - tableSectors vol - rootSectors vol) % 2 ^ 32 := rfl
  unfold sectorsBeforeData
  omega

theorem numDataClusters_eq (hboot : readFatBootSector data = some vol)
    (hsectors : sectorsBeforeData vol ≤ vol.totalSec) :
    vol.numDataClusters = clustersOf vol := by
  have hnum := (numDataSectors_iff hboot).2 hsectors
  rw [(readFatBootSector_spec hboot).2, clustersOf]
  congr 1
  unfold sectorsBeforeData at hsectors ⊢
  omega

/-! ### The pages -/

/-- The pages of the FAT are loaded exactly when they are all in the buffer, at offsets that an `int`
has. -/
theorem loadFat_iff : (∃ m, loadFat k vol device alloc n = some m) ↔
    ∀ i < n, 4096 * i + 4096 ≤ alloc ∧ 4096 * i < 2 ^ 31 := by
  induction n with
  | zero =>
    constructor
    · intro _ i hi
      omega
    · intro _
      exact ⟨_, rfl⟩
  | succ n ih =>
    constructor
    · rintro ⟨m, h⟩ i hi
      obtain ⟨m₁, h1, h⟩ := Option.bind_eq_some_iff.1 h
      split_ifs at h with hfit
      rcases Nat.lt_succ_iff_lt_or_eq.1 hi with hlt | rfl
      · exact ih.1 ⟨m₁, h1⟩ i hlt
      · exact hfit
    · intro h
      obtain ⟨m, hm⟩ := ih.2 fun i hi => h i (by omega)
      rw [loadFat, hm]
      exact ⟨_, if_pos (h n (by omega))⟩

theorem loadFat_zero {b : ℕ} (h : loadFat (constKernel b) vol (fun _ => 0) alloc n = some m) :
    m = fun _ => 0 := by
  induction n generalizing m with
  | zero => exact (Option.some.inj h).symm
  | succ n ih =>
    obtain ⟨m₁, h1, h⟩ := Option.bind_eq_some_iff.1 h
    split_ifs at h
    rw [← Option.some.inj h, ih h1]
    funext i
    simp only [blit, readPage, afsBlkdevIo, readPageIo, constKernel, ite_self]

theorem fatData_returns (hk : k.HasMemory) (hpages : FatLoaded vol → fatPageBytes vol ≤ 2 ^ 31) :
    ∃ m, fatData k vol device = some (m, if FatLoaded vol then fatPageBytes vol else 0) := by
  unfold fatData
  dsimp only
  by_cases hloaded : FatLoaded vol
  · have hsize := hpages hloaded
    unfold fatPageBytes at hsize ⊢
    have hmod : (fatAlignedSizeBytes vol / 4096 + 1) * 4096 % 2 ^ 32 =
        (fatAlignedSizeBytes vol / 4096 + 1) * 4096 := Nat.mod_eq_of_lt (by omega)
    obtain ⟨m, hm⟩ : ∃ m, loadFat k vol device ((fatAlignedSizeBytes vol / 4096 + 1) * 4096)
        (fatAlignedSizeBytes vol / 4096 + 1) = some m :=
      loadFat_iff.2 fun i hi => ⟨by omega, by omega⟩
    have hmem : k.kmalloc 4096 = true ∧
        k.vmalloc ((fatAlignedSizeBytes vol / 4096 + 1) * 4096) = true :=
      ⟨hk.kmalloc _, hk.vmalloc _ (by omega)⟩
    refine ⟨m, ?_⟩
    rw [hmod, if_pos hloaded, if_pos (show 4096 < _ from hloaded), if_pos hmem, hm]
    rfl
  · refine ⟨k.uninit, ?_⟩
    rw [if_neg hloaded, if_neg (show ¬4096 < _ from hloaded)]

theorem fatData_pages (h : fatData k vol device = some fat) :
    (FatLoaded vol → fatPageBytes vol ≤ 2 ^ 31) ∧
      fat.2 = if FatLoaded vol then fatPageBytes vol else 0 := by
  unfold fatData at h
  dsimp only at h
  by_cases hloaded : FatLoaded vol
  · rw [if_pos (show 4096 < _ from hloaded)] at h
    split_ifs at h
    obtain ⟨m, hm, rfl⟩ := Option.map_eq_some_iff.1 h
    -- the last page is in the buffer
    have hlast := loadFat_iff.1 ⟨m, hm⟩ (fatAlignedSizeBytes vol / 4096) (by omega)
    rw [if_pos hloaded]
    unfold fatPageBytes
    exact ⟨fun _ => by omega, by omega⟩
  · rw [if_neg (show ¬4096 < _ from hloaded)] at h
    rw [← Option.some.inj h, if_neg hloaded]
    exact ⟨fun hl => absurd hl hloaded, rfl⟩

/-! ### The scan -/

theorem scanFat_returns (hfat : 4 * n ≤ fat.2) (hlist : 4 * n ≤ alloc) :
    ∃ f, scanFat fat alloc n 0 [] = some f := by
  unfold scanFat
  refine Exists.imp (fun f => And.left) (forLoop_total (I := fun i l => l.length ≤ i)
    (B := fun _ => False) (R := fun _ _ => False) (fun j l _ hj hl => ?_) (Nat.le_refl 0))
  rw [if_pos (by omega)]
  split_ifs with hzero hroom
  · exact ⟨_, rfl, by
      show (l ++ [j]).length ≤ j + 1
      rw [List.length_append, List.length_singleton]
      omega⟩
  · omega
  · exact ⟨_, rfl, Nat.le_succ_of_le hl⟩

theorem scanFat_zero (hzero : fat.1 = fun _ => 0) (h : scanFat fat alloc n i l = some f) (hn : 0 < n) :
    4 * (i + n) ≤ fat.2 ∧ 4 * (l.length + n) ≤ alloc := by
  induction n generalizing i l with
  | zero => omega
  | succ n ih =>
    have hword : le fat.1 (4 * i) 4 = 0 := by
      rw [hzero]
      rfl
    rw [scanFat, forLoop, hword, if_pos rfl] at h
    split_ifs at h with hread hroom
    · rcases Nat.eq_zero_or_pos n with rfl | hpos
      · exact ⟨hread, hroom⟩
      · have hrest := ih (i := i + 1) (l := l ++ [i]) h hpos
        rw [List.length_append, List.length_singleton] at hrest
        omega

/-- **When the parsing of FAT32 stays in its buffers**: exactly when the sizes in the boot sector fit
each other. -/
theorem fatInBuffers_iff (hboot : readFatBootSector data = some vol) :
    FatInBuffers vol ↔ FatConsistent vol := by
  have hsize : fatSizeBytes vol < fatPageBytes vol := by
    unfold fatPageBytes fatAlignedSizeBytes
    omega
  constructor
  · rintro ⟨hsectors, hscan⟩
    have hfit := (numDataSectors_iff hboot).1 hsectors
    obtain ⟨fat, f, hfat, hf⟩ := hscan (constKernel 0) (fun _ => 0) (constKernel_hasMemory 0)
    obtain ⟨hpages, hbytes⟩ := fatData_pages hfat
    have hzero : fat.1 = fun _ => 0 := by
      unfold fatData at hfat
      dsimp only at hfat
      split_ifs at hfat
      · obtain ⟨m, hm, rfl⟩ := Option.map_eq_some_iff.1 hfat
        exact loadFat_zero hm
      · rw [← Option.some.inj hfat]
        rfl
    rw [numDataClusters_eq hboot hfit] at hf
    have hroom : 0 < clustersOf vol → 4 * clustersOf vol ≤ fat.2 ∧
        4 * clustersOf vol ≤ fatSizeBytes vol := by
      intro hpos
      have := scanFat_zero hzero hf hpos
      rwa [Nat.zero_add, List.length_nil, Nat.zero_add] at this
    refine ⟨hfit, hpages, ?_, fun hpos => ?_⟩
    · rcases Nat.eq_zero_or_pos (clustersOf vol) with hnone | hpos
      · rw [hnone]
        omega
      · exact (hroom hpos).2
    · by_contra hnot
      rw [if_neg hnot] at hbytes
      have := (hroom hpos).1
      omega
  · intro h
    refine ⟨(numDataSectors_iff hboot).2 h.sectors, fun k device hk => ?_⟩
    obtain ⟨m, hm⟩ : ∃ m, fatData k vol device = some (m, _) := fatData_returns hk h.pages
    have hread : 4 * clustersOf vol ≤ if FatLoaded vol then fatPageBytes vol else 0 := by
      have hentries := h.entries
      rcases Nat.eq_zero_or_pos (clustersOf vol) with hnone | hpos
      · rw [hnone]
        exact Nat.zero_le _
      · rw [if_pos (h.loaded hpos)]
        omega
    rw [numDataClusters_eq hboot h.sectors]
    obtain ⟨f, hf⟩ : ∃ f, scanFat (m, _) (vol.secFat * vol.bytesSector % 2 ^ 32) _ 0 [] = some f :=
      scanFat_returns hread h.entries
    exact ⟨_, f, hm, hf⟩

end

/-- The volume of 16 clusters with a FAT of 4096 bytes. -/
theorem fatInBuffers_empty : ∃ vol, readFatBootSector fatEmpty = some vol ∧ FatInBuffers vol := by
  have hboot : (readFatBootSector fatEmpty).map (fun vol => decide
      (sectorsBeforeData vol ≤ vol.totalSec ∧ fatPageBytes vol ≤ 2 ^ 31 ∧
        4 * clustersOf vol ≤ fatSizeBytes vol ∧ FatLoaded vol)) = some true := by
    decide +kernel
  obtain ⟨vol, hvol, hcond⟩ := Option.map_eq_some_iff.1 hboot
  obtain ⟨hsectors, hpages, hentries, hloaded⟩ := of_decide_eq_true hcond
  exact ⟨vol, hvol, (fatInBuffers_iff hvol).2 ⟨hsectors, fun _ => hpages, hentries, fun _ => hloaded⟩⟩

/-- The same volume with a FAT of one sector, and 2048 sectors of data: 256 clusters, for which the FAT
has 128 entries. -/
def fatShort : Mem := putLe (putLe fatEmpty 36 4 1) 32 4 (8 + 1 + 2048)

/-- Its scan leaves the list. -/
theorem not_fatInBuffers : ∃ vol, readFatBootSector fatShort = some vol ∧ ¬FatInBuffers vol := by
  have hboot : (readFatBootSector fatShort).map (fun vol =>
      ((fatData (constKernel 0) vol fun _ => 0).bind fun fat =>
        scanFat fat (fatSizeBytes vol) vol.numDataClusters 0 []).isNone) = some true := by
    decide +kernel
  obtain ⟨vol, hvol, hnone⟩ := Option.map_eq_some_iff.1 hboot
  refine ⟨vol, hvol, fun h => ?_⟩
  obtain ⟨fat, f, hfat, hf⟩ := h.scan (constKernel 0) (fun _ => 0) (constKernel_hasMemory 0)
  rw [hfat, Option.bind_some, hf] at hnone
  cases hnone

end Artifice
