import Artifice.Lib.Walk
import Artifice.Modules.NtfsRunList

/-!
The walk of `read_file` over the attributes of a record.

It goes from one attribute to the next by an unchecked length, and ends at the end mark, at a length of
0 or behind the record. On a damaged record it may go round, or look at a header that is not in the
record; and data that are not resident are copied in whole clusters.
-/

namespace Artifice

open Lib

/-! ### Safe walks -/

/-- `struct attribute_header` at `o` is in the record. The end mark has only a type. -/
structure HeaderInside (vol : NtfsVolume) (records : Mem) (header o : ℕ) : Prop where
  type : o + 4 ≤ vol.mftRecordSize
  rest : le records (header + o) 4 ≠ 0xFFFFFFFF → o + 14 ≤ vol.mftRecordSize

/-- The case of `read_file` for the attribute at `o`. -/
def readAttr (vol : NtfsVolume) (device : Mem) (records : Mem × ℕ) (header maxBytes o : ℕ)
    (s : NtfsFile) : Option (Flow NtfsFile) :=
  if le records.1 (header + o) 4 = 0x80 then
    readData vol device records (header + o) maxBytes maxBytes { s with attrs := s.attrs ++ [o] }
  else some (.next { s with attrs := s.attrs ++ [o] })

/-- The loop of `read_file`, into a buffer of `maxBytes` bytes, is before a round at offset `o` with
state `s`, after `n` rounds. -/
inductive AtAttr (vol : NtfsVolume) (device : Mem) (records : Mem × ℕ) (header maxBytes : ℕ)
    (buffer : Mem) : ℕ → ℕ → NtfsFile → Prop
  | first : AtAttr vol device records header maxBytes buffer 0 (le records.1 (header + 20) 2)
      ⟨buffer, 0, [], []⟩
  | next {n o : ℕ} {s s' : NtfsFile} :
      AtAttr vol device records header maxBytes buffer n o s → o < vol.mftRecordSize →
      le records.1 (header + o) 4 ≠ 0xFFFFFFFF →
      readAttr vol device records header maxBytes o s = some (.next s') →
      le records.1 (header + o + 4) 4 ≠ 0 →
      AtAttr vol device records header maxBytes buffer (n + 1)
        ((o + le records.1 (header + o + 4) 4) % 2 ^ 32) s'

/-- `read_file` of a record ends, every header that it inspects is in the record, and the amount that it
copies is never above `maxBytes`, which is all that the buffer has. -/
structure WalkSafe (vol : NtfsVolume) (device : Mem) (records : Mem × ℕ) (header maxBytes : ℕ)
    (buffer : Mem) : Prop where
  ends : ∃ fuel file, readFile fuel vol device records header maxBytes maxBytes buffer = some file ∧
    file.bufferOffset ≤ maxBytes
  headers : ∀ n o s, AtAttr vol device records header maxBytes buffer n o s → o < vol.mftRecordSize →
    HeaderInside vol records.1 header o
  amounts : ∀ n o s, AtAttr vol device records header maxBytes buffer n o s →
    s.bufferOffset ≤ maxBytes

/-! ### The record -/

/-- A record in the memory of the records. -/
structure RecordIn (vol : NtfsVolume) (records : Mem × ℕ) (header : ℕ) : Prop where
  first : header + 22 ≤ records.2
  record : header + vol.mftRecordSize ≤ records.2

/-- An offset that is in the record. -/
def insideRecord (vol : NtfsVolume) (o : ℕ) : Option ℕ := if o < vol.mftRecordSize then some o else none

/-- The attribute behind the one at `o`. -/
def nextAttr (vol : NtfsVolume) (records : Mem) (header o : ℕ) : Option ℕ :=
  if le records (header + o) 4 = 0xFFFFFFFF ∨ le records (header + o + 4) 4 = 0 then none
  else insideRecord vol ((o + le records (header + o + 4) 4) % 2 ^ 32)

/-- The `n`-th attribute of a record, by the lengths of those before it. -/
def attrAt (vol : NtfsVolume) (records : Mem) (header : ℕ) : ℕ → Option ℕ :=
  walk (nextAttr vol records header) (insideRecord vol (le records (header + 20) 2))

/-- The bytes of data of an attribute: its length if they are resident, and the whole clusters that its
size takes of its runs if not. -/
def attrSize (vol : NtfsVolume) (records : Mem × ℕ) (header o : ℕ) : ℕ :=
  if le records.1 (header + o) 4 ≠ 0x80 then 0
  else if le records.1 (header + o + 8) 1 = 0 then le records.1 (header + o + 4) 4
  else
    (attrClusters records (header + o)
      (enoughClusters vol (le records.1 (header + o + 48) 8))).length * vol.bytesPerCluster

/-- The bytes of data before the `n`-th attribute. -/
def sizeBefore (vol : NtfsVolume) (records : Mem × ℕ) (header n : ℕ) : ℕ :=
  ((List.range n).map fun m =>
    (attrAt vol records.1 header m).elim 0 (attrSize vol records header)).sum

/-- An attribute at `o` with room for `room` bytes: its header is in the record; of resident data what
is copied is in the memory; if they are not resident, the run list can be read, and the clusters fit the
room, or fill it. -/
structure AttrFits (vol : NtfsVolume) (records : Mem × ℕ) (header room o : ℕ) : Prop where
  inside : HeaderInside vol records.1 header o
  resident : le records.1 (header + o) 4 = 0x80 → le records.1 (header + o + 8) 1 = 0 →
    min room (le records.1 (header + o + 4) 4) = 0 ∨
      header + o + 14 + min room (le records.1 (header + o + 4) 4) ≤ records.2
  nonresident : le records.1 (header + o) 4 = 0x80 → le records.1 (header + o + 8) 1 ≠ 0 →
    AttrReadable records (header + o)
      (enoughClusters vol (min room (le records.1 (header + o + 48) 8))) ∧
    (attrSize vol records header o ≤ room ∨ 0 < room ∧ vol.bytesPerCluster ∣ room)

section

variable {vol : NtfsVolume} {device buffer data : Mem} {records : Mem × ℕ} {s s' : NtfsFile}
  {f : Flow NtfsFile} {file : NtfsFile}
  {alloc header maxBytes room used n m o o' fuel amt content attr want total : ℕ}

/-! ### Whole clusters in a room -/

theorem le_enoughClusters_mul (hpos : 0 < vol.bytesPerCluster) :
    amt ≤ enoughClusters vol amt * vol.bytesPerCluster := by
  have hdm := Nat.div_add_mod (amt + vol.bytesPerCluster - 1) vol.bytesPerCluster
  have hmod := Nat.mod_lt (amt + vol.bytesPerCluster - 1) hpos
  have hle : (amt + vol.bytesPerCluster - 1) / vol.bytesPerCluster * vol.bytesPerCluster ≤
      enoughClusters vol amt * vol.bytesPerCluster :=
    Nat.mul_le_mul_right _ (le_max_right _ _)
  rw [Nat.mul_comm] at hle
  omega

theorem enoughClusters_mul_le :
    enoughClusters vol amt * vol.bytesPerCluster ≤ amt + vol.bytesPerCluster := by
  have hdiv := Nat.div_mul_le_self (amt + vol.bytesPerCluster - 1) vol.bytesPerCluster
  unfold enoughClusters
  rcases Nat.le_total ((amt + vol.bytesPerCluster - 1) / vol.bytesPerCluster) 1 with h | h
  · rw [max_eq_left h]
    omega
  · rw [max_eq_right h]
    omega

theorem enoughClusters_le_iff (hpos : 0 < vol.bytesPerCluster) :
    enoughClusters vol amt ≤ n ↔ 0 < n ∧ amt ≤ n * vol.bytesPerCluster := by
  have hceil : (amt + vol.bytesPerCluster - 1) / vol.bytesPerCluster ≤ n ↔
      amt ≤ n * vol.bytesPerCluster := by
    rw [← Nat.lt_succ_iff, Nat.div_lt_iff_lt_mul hpos, Nat.succ_mul]
    omega
  rw [enoughClusters, Nat.max_le, hceil]
  exact Iff.rfl

/-- The clusters that are read of `total` ones fit a room exactly when those of the whole content do, or
clusters fill the room. -/
theorem clusters_le_iff (hpos : 0 < vol.bytesPerCluster) :
    min (enoughClusters vol (min room content)) total * vol.bytesPerCluster ≤ room ↔
      min (enoughClusters vol content) total * vol.bytesPerCluster ≤ room ∨
        0 < room ∧ vol.bytesPerCluster ∣ room := by
  have hfill : 0 < room ∧ vol.bytesPerCluster ∣ room ↔
      0 < room / vol.bytesPerCluster ∧ room ≤ room / vol.bytesPerCluster * vol.bytesPerCluster := by
    constructor
    · rintro ⟨hroom, hdvd⟩
      exact ⟨Nat.div_pos (Nat.le_of_dvd hroom hdvd) hpos, (Nat.div_mul_cancel hdvd).ge⟩
    · rintro ⟨hq, hle⟩
      have heq := le_antisymm (Nat.div_mul_le_self room vol.bytesPerCluster) hle
      exact ⟨hpos.trans_le (Nat.div_pos_iff.1 hq).2, Dvd.intro_left _ heq⟩
  rw [hfill, ← Nat.le_div_iff_mul_le hpos, ← Nat.le_div_iff_mul_le hpos, min_le_iff, min_le_iff,
    enoughClusters_le_iff hpos, enoughClusters_le_iff hpos, min_le_iff]
  tauto

theorem clusters_eq (hpos : 0 < vol.bytesPerCluster)
    (h : min (enoughClusters vol (min room content)) total * vol.bytesPerCluster ≤ room) :
    min (enoughClusters vol (min room content)) total * vol.bytesPerCluster =
      min (min (enoughClusters vol content) total * vol.bytesPerCluster) room := by
  rcases Nat.le_total content room with hle | hle
  · rw [min_eq_right hle] at h ⊢
    exact (min_eq_left h).symm
  · rw [min_eq_left hle] at h ⊢
    have hmono : enoughClusters vol room ≤ enoughClusters vol content :=
      (enoughClusters_le_iff hpos).2 ⟨enoughClusters_pos, hle.trans (le_enoughClusters_mul hpos)⟩
    rcases Nat.le_total total (enoughClusters vol room) with htotal | htotal
    · rw [min_eq_right htotal] at h ⊢
      rw [min_eq_right (htotal.trans hmono), min_eq_left h]
    · -- the room is filled
      rw [min_eq_left htotal] at h ⊢
      rw [min_eq_right ((le_enoughClusters_mul hpos).trans
        (Nat.mul_le_mul_right _ (le_min hmono htotal)))]
      exact le_antisymm h (le_enoughClusters_mul hpos)

/-! ### One attribute -/

/-- The amounts of a volume do not wrap in a buffer. -/
theorem amountFits_of_lt (hpos : 0 < vol.bytesPerCluster) (hlt : vol.bytesPerCluster < 2 ^ 24)
    (hamt : amt < 2 ^ 63) : AmountFits vol amt := by
  refine ⟨hpos, fun n hn => ?_⟩
  have hmul : (n + 1) * vol.bytesPerCluster ≤ enoughClusters vol amt * vol.bytesPerCluster :=
    Nat.mul_le_mul_right _ hn
  have hle : enoughClusters vol amt * vol.bytesPerCluster ≤ amt + vol.bytesPerCluster :=
    enoughClusters_mul_le
  rw [Nat.succ_mul] at hmul
  omega

theorem attrClusters_length :
    (attrClusters records attr want).length = min want (if le records.1 (attr + 16) 8 ≠ 0 then 0
      else (runClusters (decodedRuns records.1 (attr + le records.1 (attr + 32) 2) (records.2 + 1)
        0)).length) := by
  unfold attrClusters
  split_ifs
  · exact (Nat.min_zero want).symm
  · exact List.length_take

/-- What is known of a volume when it is read from: its clusters have bytes. -/
structure NtfsVolume.Clustered (vol : NtfsVolume) : Prop where
  bytes : 0 < vol.bytesPerCluster ∧ vol.bytesPerCluster < 2 ^ 24
  pages : 0 < vol.afsBlocksPerCluster → vol.Paged
  blocks : vol.afsBlocksPerCluster < 2 ^ 8

theorem clustered (hboot : readNtfsBootSector data = some (some vol)) (hsize : 4 ≤ vol.mftRecordSize) :
    vol.Clustered := by
  obtain ⟨-, hbytes, -, hrecord, hne, -, -⟩ := readNtfsBootSector_eq hboot
  obtain ⟨hlt, hblocks⟩ := readNtfsBootSector_lt hboot
  refine ⟨⟨Nat.pos_of_ne_zero fun hzero => ?_, hlt⟩, (readNtfsBootSector_spec hboot).2, hblocks⟩
  rw [hrecord] at hsize
  unfold mftRecordSize at hsize hne
  rw [← hbytes, hzero, Nat.zero_mul, Nat.zero_mod] at hsize hne
  split_ifs at hsize hne
  · exact hne rfl
  · omega

theorem readAttr_resident (hmax : maxBytes < 2 ^ 63) (hs : s.bufferOffset ≤ maxBytes)
    (hin : header + o + 9 ≤ records.2) (htype : le records.1 (header + o) 4 = 0x80)
    (hflag : le records.1 (header + o + 8) 1 = 0) :
    readAttr vol device records header maxBytes o s =
      let amount := min (maxBytes - s.bufferOffset) (le records.1 (header + o + 4) 4)
      if amount = 0 ∨ header + o + 14 + amount ≤ records.2 then
        some (.next
          ⟨blit s.buffer s.bufferOffset records.1 (header + o + 14) amount, s.bufferOffset + amount,
            s.attrs ++ [o], s.clusters⟩)
      else none := by
  have hamount : (maxBytes : ℤ) - signed64 s.bufferOffset = (maxBytes - s.bufferOffset : ℕ) := by
    rw [signed64, if_pos (by omega)]
    omega
  rw [readAttr, if_pos htype, readData, readLe_of_le (by omega), Option.bind_eq_bind, Option.bind_some,
    if_pos hflag, readLe_of_le (by omega), Option.bind_some]
  dsimp only
  rw [hamount, ← Nat.cast_min, if_neg (by omega), Int.toNat_natCast,
    Nat.mod_eq_of_lt (by omega)]
  refine if_congr ?_ rfl rfl
  omega

theorem readAttr_nonresident (hmax : maxBytes < 2 ^ 63) (hs : s.bufferOffset ≤ maxBytes)
    (hin : header + o + 9 ≤ records.2) (htype : le records.1 (header + o) 4 = 0x80)
    (hflag : le records.1 (header + o + 8) 1 ≠ 0) :
    readAttr vol device records header maxBytes o s =
      (readNonresidentData vol device records (header + o) maxBytes s.bufferOffset
        (maxBytes - s.bufferOffset) s.buffer).map fun r => .next
          ⟨r.buffer, (s.bufferOffset + r.amtWritten) % 2 ^ 64, s.attrs ++ [o],
            s.clusters ++ r.clusters⟩ := by
  have hroom : (maxBytes + 2 ^ 64 - s.bufferOffset) % 2 ^ 64 = maxBytes - s.bufferOffset := by omega
  rw [readAttr, if_pos htype, readData, readLe_of_le (by omega), Option.bind_eq_bind, Option.bind_some,
    if_neg hflag]
  dsimp only
  rw [hroom, Option.map_eq_bind]
  rfl

theorem readAttr_other (htype : le records.1 (header + o) 4 ≠ 0x80) :
    readAttr vol device records header maxBytes o s =
      some (.next { s with attrs := s.attrs ++ [o] }) := if_neg htype

theorem attrClusters_mul (hpos : 0 < vol.bytesPerCluster) (htype : le records.1 (header + o) 4 = 0x80)
    (hflag : le records.1 (header + o + 8) 1 ≠ 0) :
    ((attrClusters records (header + o) (enoughClusters vol
        (min room (le records.1 (header + o + 48) 8)))).length * vol.bytesPerCluster ≤ room ↔
      attrSize vol records header o ≤ room ∨ 0 < room ∧ vol.bytesPerCluster ∣ room) ∧
    ((attrClusters records (header + o) (enoughClusters vol
        (min room (le records.1 (header + o + 48) 8)))).length * vol.bytesPerCluster ≤ room →
      (attrClusters records (header + o) (enoughClusters vol
        (min room (le records.1 (header + o + 48) 8)))).length * vol.bytesPerCluster =
        min (attrSize vol records header o) room) := by
  rw [attrSize, if_neg (not_not.2 htype), if_neg hflag, attrClusters_length, attrClusters_length]
  exact ⟨clusters_le_iff hpos, clusters_eq hpos⟩

/-- **An attribute that fits** is read, and takes what there is of the room. -/
theorem AttrFits.readAttr_returns (device : Mem) (hvol : vol.Clustered) (hmax : maxBytes < 2 ^ 63)
    (hs : s.bufferOffset ≤ maxBytes) (hin : header + o + 9 ≤ records.2)
    (hfits : AttrFits vol records header (maxBytes - s.bufferOffset) o) :
    ∃ s', readAttr vol device records header maxBytes o s = some (.next s') ∧
      s'.bufferOffset = s.bufferOffset + min (attrSize vol records header o)
        (maxBytes - s.bufferOffset) := by
  by_cases htype : le records.1 (header + o) 4 = 0x80
  · by_cases hflag : le records.1 (header + o + 8) 1 = 0
    · -- resident data
      rw [readAttr_resident hmax hs hin htype hflag]
      dsimp only
      rw [if_pos (hfits.resident htype hflag)]
      refine ⟨_, rfl, ?_⟩
      rw [attrSize, if_neg (not_not.2 htype), if_pos hflag, Nat.min_comm]
    · obtain ⟨hreadable, hroom⟩ := hfits.nonresident htype hflag
      obtain ⟨hiff, heq⟩ := attrClusters_mul hvol.bytes.1 htype hflag
      have hle := hiff.2 hroom
      have hfit : AmountFits vol (min (maxBytes - s.bufferOffset) (le records.1 (header + o + 48) 8)) :=
        amountFits_of_lt hvol.bytes.1 hvol.bytes.2 (by omega)
      obtain ⟨r, hr⟩ : ∃ r, readNonresidentData vol device records (header + o) maxBytes
          s.bufferOffset (maxBytes - s.bufferOffset) s.buffer = some r := by
        refine readNonresidentData_returns hfit hreadable fun c b j hj => ?_
        refine readNtfsCluster_returns (by have := hvol.blocks; omega) ?_
        refine (Nat.eq_zero_or_pos vol.afsBlocksPerCluster).imp id fun hblocks => ?_
        have hbytes := (hvol.pages hblocks).bytes.1
        have hmul := Nat.mul_le_mul_right vol.bytesPerCluster (Nat.succ_le_of_lt hj)
        rw [Nat.succ_mul] at hmul
        omega
      obtain ⟨hread, -⟩ := readNonresidentData_spec hfit hr
      rw [readAttr_nonresident hmax hs hin htype hflag, hr]
      refine ⟨_, rfl, ?_⟩
      show (s.bufferOffset + r.amtWritten) % 2 ^ 64 = _
      rw [hread.amount, heq hle, Nat.mod_eq_of_lt (by omega)]
  · rw [readAttr_other htype]
    refine ⟨_, rfl, ?_⟩
    rw [attrSize, if_pos htype, Nat.zero_min, Nat.add_zero]

theorem attrFits_of_readAttr (hvol : vol.Clustered) (hmax : maxBytes < 2 ^ 63)
    (hs : s.bufferOffset ≤ maxBytes) (hin : header + o + 9 ≤ records.2)
    (hinside : HeaderInside vol records.1 header o)
    (h : readAttr vol device records header maxBytes o s = some (.next s'))
    (hs' : s'.bufferOffset ≤ maxBytes) :
    AttrFits vol records header (maxBytes - s.bufferOffset) o := by
  refine ⟨hinside, fun htype hflag => ?_, fun htype hflag => ?_⟩
  · rw [readAttr_resident hmax hs hin htype hflag] at h
    by_contra hout
    rw [if_neg hout] at h
    cases h
  · rw [readAttr_nonresident hmax hs hin htype hflag] at h
    obtain ⟨r, hr, heq⟩ := Option.map_eq_some_iff.1 h
    have hfit : AmountFits vol (min (maxBytes - s.bufferOffset) (le records.1 (header + o + 48) 8)) :=
      amountFits_of_lt hvol.bytes.1 hvol.bytes.2 (by omega)
    obtain ⟨hread, hreadable⟩ := readNonresidentData_spec hfit hr
    refine ⟨hreadable, (attrClusters_mul hvol.bytes.1 htype hflag).1.1 ?_⟩
    -- the amount does not wrap
    have hlast : (attrClusters records (header + o) (enoughClusters vol
        (min (maxBytes - s.bufferOffset) (le records.1 (header + o + 48) 8)))).length *
          vol.bytesPerCluster ≤ maxBytes - s.bufferOffset + vol.bytesPerCluster := by
      refine ((Nat.mul_le_mul_right _ ?_).trans enoughClusters_mul_le).trans
        (Nat.add_le_add_right (min_le_left _ (le records.1 (header + o + 48) 8)) _)
      rw [attrClusters_length]
      exact min_le_left _ _
    have hbytes := hvol.bytes
    rw [← Flow.next.inj heq] at hs'
    dsimp only at hs'
    rw [hread.amount, Nat.mod_eq_of_lt (by omega)] at hs'
    omega

theorem readAttr_next (hmax : maxBytes < 2 ^ 63) (hs : s.bufferOffset ≤ maxBytes)
    (hin : header + o + 9 ≤ records.2)
    (h : readAttr vol device records header maxBytes o s = some f) : ∃ s', f = .next s' := by
  by_cases htype : le records.1 (header + o) 4 = 0x80
  · by_cases hflag : le records.1 (header + o + 8) 1 = 0
    · rw [readAttr_resident hmax hs hin htype hflag] at h
      dsimp only at h
      split_ifs at h
      exact ⟨_, (Option.some.inj h).symm⟩
    · rw [readAttr_nonresident hmax hs hin htype hflag] at h
      obtain ⟨r, -, heq⟩ := Option.map_eq_some_iff.1 h
      exact ⟨_, heq.symm⟩
  · rw [readAttr_other htype] at h
    exact ⟨_, (Option.some.inj h).symm⟩

/-! ### The walk -/

theorem insideRecord_eq_some : insideRecord vol o = some o' ↔ o' = o ∧ o < vol.mftRecordSize := by
  unfold insideRecord
  split_ifs with h
  · rw [Option.some.injEq, eq_comm]
    exact (and_iff_left h).symm
  · exact ⟨nofun, fun h' => absurd h'.2 h⟩

theorem nextAttr_eq_some : nextAttr vol records.1 header o = some o' ↔
    le records.1 (header + o) 4 ≠ 0xFFFFFFFF ∧ le records.1 (header + o + 4) 4 ≠ 0 ∧
      o' = (o + le records.1 (header + o + 4) 4) % 2 ^ 32 ∧ o' < vol.mftRecordSize := by
  unfold nextAttr
  split_ifs with h
  · exact ⟨nofun, fun h' => absurd h (not_or.2 ⟨h'.1, h'.2.1⟩)⟩
  · rw [insideRecord_eq_some]
    obtain ⟨hend, hlength⟩ := not_or.1 h
    constructor
    · rintro ⟨rfl, hlt⟩
      exact ⟨hend, hlength, rfl, hlt⟩
    · rintro ⟨-, -, rfl, hlt⟩
      exact ⟨rfl, hlt⟩

theorem attrAt_lt (h : attrAt vol records.1 header n = some o) : o < vol.mftRecordSize := by
  cases n with
  | zero =>
    obtain ⟨rfl, hlt⟩ := insideRecord_eq_some.1 h
    exact hlt
  | succ n =>
    obtain ⟨o₁, -, hnext⟩ := Option.bind_eq_some_iff.1 (walk_succ.symm.trans h)
    exact (nextAttr_eq_some.1 hnext).2.2.2

theorem sizeBefore_succ (h : attrAt vol records.1 header n = some o) :
    sizeBefore vol records header (n + 1) =
      sizeBefore vol records header n + attrSize vol records header o := by
  rw [sizeBefore, List.range_succ, List.map_append, List.sum_append, List.map_singleton,
    List.sum_singleton, h]
  rfl

theorem readAttrs_next (ho : o < vol.mftRecordSize) (hin : header + o + 9 ≤ records.2)
    (hend : le records.1 (header + o) 4 ≠ 0xFFFFFFFF)
    (h : readAttr vol device records header maxBytes o s = some (.next s')) :
    readAttrs vol device records header maxBytes maxBytes (fuel + 1) o s =
      if le records.1 (header + o + 4) 4 = 0 then some s'
      else readAttrs vol device records header maxBytes maxBytes fuel
        ((o + le records.1 (header + o + 4) 4) % 2 ^ 32) s' := by
  unfold readAttr at h
  rw [readAttrs, if_pos ho]
  dsimp only
  rw [readLe_of_le (by omega), Option.bind_eq_bind, Option.bind_some, if_neg hend, h,
    Option.bind_eq_bind, Option.bind_some, readLe_of_le (by omega)]
  rfl

theorem readAttrs_end (ho : o < vol.mftRecordSize) (hin : header + o + 4 ≤ records.2)
    (hend : le records.1 (header + o) 4 = 0xFFFFFFFF) :
    readAttrs vol device records header maxBytes maxBytes (fuel + 1) o s =
      some { s with attrs := s.attrs ++ [o] } := by
  rw [readAttrs, if_pos ho]
  dsimp only
  rw [readLe_of_le hin, Option.bind_eq_bind, Option.bind_some, if_pos hend]

theorem HeaderInside.read (h : HeaderInside vol records.1 header o) (hrec : RecordIn vol records header)
    (hend : le records.1 (header + o) 4 ≠ 0xFFFFFFFF) : header + o + 9 ≤ records.2 := by
  have hrest := h.rest hend
  have hrecord := hrec.record
  omega

theorem min_add_min {a b c : ℕ} (h : a = min c b) : a + min n (c - a) = min c (b + n) := by omega

/-- Every attribute that the walk comes to has room. -/
def AttrsFit (vol : NtfsVolume) (records : Mem × ℕ) (header maxBytes : ℕ) : Prop :=
  ∀ n o, attrAt vol records.1 header n = some o →
    AttrFits vol records header (maxBytes - sizeBefore vol records header n) o

theorem AttrsFit.fitsRest (hfits : AttrsFit vol records header maxBytes)
    (hs : s.bufferOffset = min maxBytes (sizeBefore vol records header n))
    (hat : attrAt vol records.1 header n = insideRecord vol o) (ho : o < vol.mftRecordSize) :
    attrAt vol records.1 header n = some o ∧
      AttrFits vol records header (maxBytes - s.bufferOffset) o := by
  have hsome : attrAt vol records.1 header n = some o := by rw [hat, insideRecord, if_pos ho]
  have hroom : maxBytes - sizeBefore vol records header n = maxBytes - s.bufferOffset := by omega
  have hfit := hfits n o hsome
  rw [hroom] at hfit
  exact ⟨hsome, hfit⟩

/-- Where the attributes fit, the loop goes from one to the next, and the data take their part of the
buffer. -/
theorem AttrsFit.atAttr (hvol : 4 ≤ vol.mftRecordSize → vol.Clustered) (hmax : maxBytes < 2 ^ 63)
    (hrec : RecordIn vol records header) (hfits : AttrsFit vol records header maxBytes)
    (h : AtAttr vol device records header maxBytes buffer n o s) :
    s.bufferOffset = min maxBytes (sizeBefore vol records header n) ∧
      attrAt vol records.1 header n = insideRecord vol o := by
  induction h with
  | first => exact ⟨(Nat.min_zero maxBytes).symm, rfl⟩
  | @next n o s s' _ ho hend hread hlength ih =>
    obtain ⟨hs, hat⟩ := ih
    obtain ⟨hsome, hfit⟩ := hfits.fitsRest hs hat ho
    obtain ⟨s₂, hread₂, hs₂⟩ := hfit.readAttr_returns device
      (hvol (by have := hfit.inside.type; omega)) hmax (by omega) (hfit.inside.read hrec hend)
    obtain rfl : s' = s₂ := Flow.next.inj (Option.some.inj (hread.symm.trans hread₂))
    constructor
    · rw [hs₂, sizeBefore_succ hsome]
      exact min_add_min hs
    · rw [attrAt, walk_succ, ← attrAt, hsome, Option.bind_some, nextAttr,
        if_neg (not_or.2 ⟨hend, hlength⟩)]

theorem AttrsFit.readAttrs_returns (hvol : 4 ≤ vol.mftRecordSize → vol.Clustered)
    (hmax : maxBytes < 2 ^ 63) (hrec : RecordIn vol records header)
    (hfits : AttrsFit vol records header maxBytes)
    (h : AtAttr vol device records header maxBytes buffer n o s)
    (hends : attrAt vol records.1 header (n + m) = none) :
    ∃ file, readAttrs vol device records header maxBytes maxBytes (m + 1) o s = some file ∧
      file.bufferOffset ≤ maxBytes := by
  induction m generalizing n o s with
  | zero =>
    obtain ⟨hs, hat⟩ := hfits.atAttr hvol hmax hrec h
    have hout : ¬o < vol.mftRecordSize := fun ho => by
      rw [Nat.add_zero, hat, insideRecord, if_pos ho] at hends
      cases hends
    rw [readAttrs, if_neg hout]
    exact ⟨s, rfl, by omega⟩
  | succ m ih =>
    obtain ⟨hs, hat⟩ := hfits.atAttr hvol hmax hrec h
    by_cases ho : o < vol.mftRecordSize
    · obtain ⟨-, hfit⟩ := hfits.fitsRest hs hat ho
      have hrecord := hrec.record
      have htype := hfit.inside.type
      by_cases hend : le records.1 (header + o) 4 = 0xFFFFFFFF
      · exact ⟨_, readAttrs_end ho (by omega) hend, by
          show s.bufferOffset ≤ maxBytes
          omega⟩
      · have hin := hfit.inside.read hrec hend
        obtain ⟨s', hread, hs'⟩ := hfit.readAttr_returns device (hvol (by omega)) hmax
          (by omega) hin
        rw [readAttrs_next ho hin hend hread]
        split_ifs with hlength
        · exact ⟨s', rfl, by omega⟩
        · refine ih (h.next ho hend hread hlength) ?_
          rwa [Nat.add_assoc, Nat.add_comm 1]
    · rw [readAttrs, if_neg ho]
      exact ⟨s, rfl, by omega⟩

theorem AtAttr.readFile (h : AtAttr vol device records header maxBytes buffer n o s)
    (hfile : readFile fuel vol device records header maxBytes maxBytes buffer = some file)
    (hin : ∀ m o s, AtAttr vol device records header maxBytes buffer m o s → o < vol.mftRecordSize →
      le records.1 (header + o) 4 ≠ 0xFFFFFFFF → header + o + 9 ≤ records.2) :
    ∃ k, fuel = n + k ∧
      readAttrs vol device records header maxBytes maxBytes k o s = some file := by
  induction h with
  | first =>
    obtain ⟨first, hfirst, hrun⟩ := Option.bind_eq_some_iff.1 hfile
    rw [← (readLe_eq_some hfirst).2] at hrun
    exact ⟨fuel, (Nat.zero_add fuel).symm, hrun⟩
  | @next n o s s' hat ho hend hread hlength ih =>
    obtain ⟨k, rfl, hrun⟩ := ih
    cases k with
    | zero => cases hrun
    | succ k =>
      rw [readAttrs_next ho (hin n o s hat ho hend) hend hread, if_neg hlength] at hrun
      exact ⟨k, by omega, hrun⟩

theorem WalkSafe.attrFits (hsafe : WalkSafe vol device records header maxBytes buffer)
    (hvol : 4 ≤ vol.mftRecordSize → vol.Clustered) (hmax : maxBytes < 2 ^ 63)
    (hrec : RecordIn vol records header)
    (h : AtAttr vol device records header maxBytes buffer n o s) (ho : o < vol.mftRecordSize) :
    AttrFits vol records header (maxBytes - s.bufferOffset) o ∧
      (le records.1 (header + o) 4 ≠ 0xFFFFFFFF →
        ∃ s', readAttr vol device records header maxBytes o s = some (.next s')) := by
  have hinside := hsafe.headers n o s h ho
  have hs := hsafe.amounts n o s h
  by_cases hend : le records.1 (header + o) 4 = 0xFFFFFFFF
  · have hother : le records.1 (header + o) 4 ≠ 0x80 := by
      rw [hend]
      norm_num
    exact ⟨⟨hinside, fun hdata => absurd hdata hother, fun hdata => absurd hdata hother⟩,
      fun hne => absurd hend hne⟩
  · have hin := hinside.read hrec hend
    obtain ⟨fuel, file, hfile, hamount⟩ := hsafe.ends
    obtain ⟨k, -, hrun⟩ := h.readFile hfile fun m o s hat ho hend =>
      (hsafe.headers m o s hat ho).read hrec hend
    cases k with
    | zero => cases hrun
    | succ k =>
      obtain ⟨hmark, -⟩ | ⟨f, hf, hstep⟩ := readAttrs_succ ho hrun
      · exact absurd hmark hend
      · have hf : readAttr vol device records header maxBytes o s = some f := hf
        obtain ⟨s', rfl⟩ := readAttr_next hmax hs hin hf
        have hs' : s'.bufferOffset ≤ maxBytes := by
          rcases hstep with ⟨rfl, -⟩ | ⟨s₂, heq, -, hlength, -⟩
          · exact hamount
          · rw [Flow.next.inj heq]
            rw [Flow.next.inj heq] at hf
            exact hsafe.amounts _ _ _ (h.next ho hend hf hlength)
        exact ⟨attrFits_of_readAttr (hvol (by have := hinside.type; omega)) hmax hs hin hinside hf hs',
          fun _ => ⟨s', hf⟩⟩

theorem WalkSafe.atAttr (hsafe : WalkSafe vol device records header maxBytes buffer)
    (hvol : 4 ≤ vol.mftRecordSize → vol.Clustered) (hmax : maxBytes < 2 ^ 63)
    (hrec : RecordIn vol records header) (h : attrAt vol records.1 header n = some o) :
    ∃ s, AtAttr vol device records header maxBytes buffer n o s ∧
      s.bufferOffset = min maxBytes (sizeBefore vol records header n) := by
  induction n generalizing o with
  | zero =>
    obtain ⟨rfl, -⟩ := insideRecord_eq_some.1 h
    exact ⟨_, .first, (Nat.min_zero maxBytes).symm⟩
  | succ n ih =>
    obtain ⟨o₁, hsome, hnext⟩ := Option.bind_eq_some_iff.1 (walk_succ.symm.trans h)
    obtain ⟨hend, hlength, rfl, -⟩ := nextAttr_eq_some.1 hnext
    obtain ⟨s, hat, hs⟩ := ih hsome
    have ho := attrAt_lt hsome
    obtain ⟨hfit, hreads⟩ := hsafe.attrFits hvol hmax hrec hat ho
    obtain ⟨s', hread⟩ := hreads hend
    obtain ⟨s₂, hread₂, hs₂⟩ := hfit.readAttr_returns device
      (hvol (by have := hfit.inside.type; omega)) hmax (by omega) (hfit.inside.read hrec hend)
    obtain rfl : s' = s₂ := Flow.next.inj (Option.some.inj (hread.symm.trans hread₂))
    refine ⟨s', hat.next ho hend hread hlength, ?_⟩
    rw [hs₂, sizeBefore_succ hsome]
    exact min_add_min hs

/-- **When the walk over the attributes is safe**: exactly when it comes to no attribute twice, and every
attribute fits what those before it leave of the buffer. -/
theorem walkSafe_iff (hboot : readNtfsBootSector data = some (some vol)) (hmax : maxBytes < 2 ^ 63)
    (hrec : RecordIn vol records header) :
    WalkSafe vol device records header maxBytes buffer ↔
      (∀ i j, i < j → attrAt vol records.1 header j ≠ none →
        attrAt vol records.1 header i ≠ attrAt vol records.1 header j) ∧
      ∀ n o, attrAt vol records.1 header n = some o →
        AttrFits vol records header (maxBytes - sizeBefore vol records header n) o := by
  have hvol : 4 ≤ vol.mftRecordSize → vol.Clustered := clustered hboot
  have hwalk : (∃ n, attrAt vol records.1 header n = none) ↔ _ :=
    walk_ends_iff (Finset.range vol.mftRecordSize) fun n a ha => Finset.mem_range.2 (attrAt_lt ha)
  rw [← attrAt] at hwalk
  rw [← hwalk]
  constructor
  · intro hsafe
    constructor
    · obtain ⟨fuel, file, hfile, -⟩ := hsafe.ends
      refine ⟨fuel, Option.eq_none_iff_forall_ne_some.2 fun o ho => ?_⟩
      obtain ⟨s, hat, -⟩ := hsafe.atAttr hvol hmax hrec ho
      obtain ⟨k, hk, hrun⟩ := hat.readFile hfile fun m o s hat ho hend =>
        (hsafe.headers m o s hat ho).read hrec hend
      obtain rfl : k = 0 := by omega
      cases hrun
    · intro n o hsome
      obtain ⟨s, hat, hs⟩ := hsafe.atAttr hvol hmax hrec hsome
      obtain ⟨hfit, -⟩ := hsafe.attrFits hvol hmax hrec hat (attrAt_lt hsome)
      rwa [show maxBytes - s.bufferOffset = maxBytes - sizeBefore vol records header n by omega] at hfit
  · rintro ⟨⟨n, hends⟩, hfits⟩
    have hfits : AttrsFit vol records header maxBytes := hfits
    refine ⟨?_, fun m o s hat ho => ?_, fun m o s hat => ?_⟩
    · have hstart : AtAttr vol device records header maxBytes buffer 0
          (le records.1 (header + 20) 2) ⟨buffer, 0, [], []⟩ := .first
      obtain ⟨file, hrun, hamount⟩ := hfits.readAttrs_returns hvol hmax hrec hstart (by rwa [Nat.zero_add])
      refine ⟨n + 1, file, ?_, hamount⟩
      have hfirst : header + 20 + 2 ≤ records.2 := hrec.first
      rw [readFile, readLe_of_le hfirst, Option.bind_eq_bind, Option.bind_some]
      exact hrun
    · obtain ⟨-, hsome⟩ := hfits.atAttr hvol hmax hrec hat
      rw [insideRecord, if_pos ho] at hsome
      exact (hfits m o hsome).inside
    · obtain ⟨hs, -⟩ := hfits.atAttr hvol hmax hrec hat
      omega

end

/-- A record of 4096 bytes with two attributes of the types and lengths. -/
def twoAttrs (type length type' length' : ℕ) : Mem × ℕ :=
  (putLe (putLe (putLe (putLe (putLe (fun _ => 0) 20 2 56) 56 4 type) 60 4 length) (56 + length) 4 type')
    (60 + length) 4 length', 4096)

/-- A record with 8 bytes of resident data and an end mark. -/
theorem walkSafe_resident : ∃ vol, readNtfsBootSector (residentImage 0) = some (some vol) ∧
    WalkSafe vol (fun _ => 0) (twoAttrs 0x80 32 0xFFFFFFFF 0) 0 8 (fun _ => 0) := by
  have hboot : ((readNtfsBootSector (residentImage 0)).bind fun vol => vol.map fun vol =>
      (vol.mftRecordSize, (List.range 3).map (attrAt vol (twoAttrs 0x80 32 0xFFFFFFFF 0).1 0))) =
        some (4096, [some 56, some 88, none]) := by decide +kernel
  obtain ⟨vol?, hvol, h⟩ := Option.bind_eq_some_iff.1 hboot
  obtain ⟨vol, rfl, hwalk⟩ := Option.map_eq_some_iff.1 h
  simp only [Prod.mk.injEq, List.range_succ, List.range_zero, List.nil_append, List.cons_append,
    List.map_cons, List.map_nil, List.cons.injEq, and_true] at hwalk
  obtain ⟨hsize, h0, h1, h2⟩ := hwalk
  have hends : ∀ n, attrAt vol (twoAttrs 0x80 32 0xFFFFFFFF 0).1 0 (n + 2) = none := fun n =>
    walk_ended h2 (by omega)
  refine ⟨vol, hvol, (walkSafe_iff hvol (by norm_num) ⟨by decide, by rw [hsize]; decide⟩).2 ⟨?_, ?_⟩⟩
  · intro i j hij hj
    match i, j with
    | 0, 1 => simp [h0, h1]
    | i + 1, 1 => omega
    | _, j + 2 => exact absurd (hends j) hj
  · intro n o hsome
    match n with
    | 0 =>
      obtain rfl : 56 = o := Option.some.inj (h0.symm.trans hsome)
      refine ⟨⟨by omega, fun _ => by omega⟩, fun _ _ => .inr ?_, fun _ hflag => absurd ?_ hflag⟩
      · exact (Nat.add_le_add_left ((min_le_left _ _).trans (Nat.sub_le 8 _)) _).trans
          (by decide : 0 + 56 + 14 + 8 ≤ 4096)
      · decide +kernel
    | 1 =>
      obtain rfl : 88 = o := Option.some.inj (h1.symm.trans hsome)
      have hmark : le (twoAttrs 0x80 32 0xFFFFFFFF 0).1 (0 + 88) 4 = 0xFFFFFFFF := by decide +kernel
      refine ⟨⟨by omega, fun hne => absurd hmark hne⟩, fun hdata => ?_, fun hdata => ?_⟩
      · rw [hmark] at hdata
        norm_num at hdata
      · rw [hmark] at hdata
        norm_num at hdata
    | n + 2 => exact absurd (hends n) (by rw [hsome]; simp)

/-- Two attributes of which the second has length -16: the walk goes from the one to the other for
ever. -/
theorem not_walkSafe : ∃ vol, readNtfsBootSector (residentImage 0) = some (some vol) ∧
    RecordIn vol (twoAttrs 0x10 16 0x10 0xFFFFFFF0) 0 ∧
    (∀ fuel, readFile fuel vol (fun _ => 0) (twoAttrs 0x10 16 0x10 0xFFFFFFF0) 0 8 8 (fun _ => 0) =
      none) ∧
    ¬WalkSafe vol (fun _ => 0) (twoAttrs 0x10 16 0x10 0xFFFFFFF0) 0 8 (fun _ => 0) := by
  have hboot : ((readNtfsBootSector (residentImage 0)).bind fun vol => vol.map fun vol =>
      vol.mftRecordSize) = some 4096 := by decide +kernel
  obtain ⟨vol?, hvol, h⟩ := Option.bind_eq_some_iff.1 hboot
  obtain ⟨vol, rfl, hsize⟩ := Option.map_eq_some_iff.1 h
  generalize hrecords : twoAttrs 0x10 16 0x10 0xFFFFFFF0 = records
  have hbytes : records.2 = 4096 ∧ le records.1 (0 + 20) 2 = 56 ∧ le records.1 (0 + 56) 4 = 0x10 ∧
      le records.1 (0 + 56 + 4) 4 = 16 ∧ le records.1 (0 + 72) 4 = 0x10 ∧
      le records.1 (0 + 72 + 4) 4 = 0xFFFFFFF0 := by
    rw [← hrecords]
    decide +kernel
  obtain ⟨hlen, hfirst, htype, hlength, htype', hlength'⟩ := hbytes
  have hrec : RecordIn vol records 0 := ⟨by omega, by omega⟩
  have hround : ∀ fuel s, readAttrs vol (fun _ => 0) records 0 8 8 fuel 56 s = none ∧
      readAttrs vol (fun _ => 0) records 0 8 8 fuel 72 s = none := by
    intro fuel
    induction fuel with
    | zero => exact fun _ => ⟨rfl, rfl⟩
    | succ fuel ih =>
      intro s
      constructor
      · rw [readAttrs_next (by omega) (by omega) (by omega) (readAttr_other (by omega)), if_neg (by omega),
          hlength]
        exact (ih _).2
      · rw [readAttrs_next (by omega) (by omega) (by omega) (readAttr_other (by omega)), if_neg (by omega),
          hlength']
        exact (ih _).1
  have hnone : ∀ fuel, readFile fuel vol (fun _ => 0) records 0 8 8 (fun _ => 0) = none := by
    intro fuel
    rw [readFile, readLe_of_le (by omega), Option.bind_eq_bind, Option.bind_some, hfirst]
    exact (hround fuel _).1
  refine ⟨vol, hvol, hrec, hnone, ?_⟩
  rintro ⟨⟨fuel, file, hfile, -⟩, -, -⟩
  rw [hnone fuel] at hfile
  cases hfile

end Artifice
