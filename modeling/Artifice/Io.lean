import Artifice.Lib.Mem

/-!
Block I/O. The metadata code moves one page at a time with `read_page` and `write_page`
(`dm_afs_io.c`), the engine moves the carriers of a request with `read_pages` and `write_pages`
(`dm_afs_engine.c`). Both turn a block number into a sector with `uint32_t` arithmetic before the
sector is widened to 64 bits, but with different expressions.

The device is a byte memory: it returns the last page written at a sector.
-/

namespace Artifice

open Lib

/-- `enum afs_io_type`. -/
inductive AfsIoType
  | read
  | write
  deriving DecidableEq, Repr

/-- `struct afs_io`, less the device and the page. A carrier's bio has the same content. -/
structure AfsIo where
  ioSector : ℕ
  ioSize : ℕ
  type : AfsIoType
  deriving DecidableEq, Repr

/-- `afs_blkdev_io`: the device and the page after the transfer between the sector and
`page + p`. -/
def afsBlkdevIo (request : AfsIo) (disk page : Mem) (p : ℕ) : Mem × Mem :=
  match request.type with
  | .read => (disk, blit page p disk (512 * request.ioSector) request.ioSize)
  | .write => (blit disk (512 * request.ioSector) page p request.ioSize, page)

/-! ### One page -/

/-- `((block_num * AFS_BLOCK_SIZE) / AFS_SECTOR_SIZE) + sector_offset`. -/
def pageSector (blockNum sectorOffset : ℕ) : ℕ :=
  (blockNum * 4096 % 2 ^ 32 / 512 + sectorOffset) % 2 ^ 32

/-- The request that `read_page` builds. -/
def readPageIo (blockNum sectorOffset : ℕ) : AfsIo :=
  ⟨pageSector blockNum sectorOffset, 4096, .read⟩

/-- The request that `write_page` builds. -/
def writePageIo (blockNum sectorOffset : ℕ) : AfsIo :=
  ⟨pageSector blockNum sectorOffset, 4096, .write⟩

/-- `read_page` into `page + p`: the buffer after it. -/
def readPage (page : Mem) (p : ℕ) (disk : Mem) (blockNum sectorOffset : ℕ) : Mem :=
  (afsBlkdevIo (readPageIo blockNum sectorOffset) disk page p).2

/-- `write_page` from `page + p`: the device after it. -/
def writePage (page : Mem) (p : ℕ) (disk : Mem) (blockNum sectorOffset : ℕ) : Mem :=
  (afsBlkdevIo (writePageIo blockNum sectorOffset) disk page p).1

/-! ### The carriers of a request -/

/-- `(block_nums[i] * AFS_SECTORS_PER_BLOCK) + fs->data_start_off`. -/
def carrierSector (blockNum dataStartOff : ℕ) : ℕ :=
  (blockNum * 8 % 2 ^ 32 + dataStartOff) % 2 ^ 32

/-- The bio of one carrier in `read_pages`. -/
def readPagesBio (blockNum dataStartOff : ℕ) : AfsIo :=
  ⟨carrierSector blockNum dataStartOff, 4096, .read⟩

/-- The bio of one carrier in `write_pages`. -/
def writePagesBio (blockNum dataStartOff : ℕ) : AfsIo :=
  ⟨carrierSector blockNum dataStartOff, 4096, .write⟩

/-- `read_pages`: the carrier pages after the first `numPages` bios have completed. -/
def readPages (disk : Mem) (blockNums : ℕ → ℕ) (dataStartOff : ℕ) (carriers : ℕ → Mem) :
    ℕ → ℕ → Mem
  | 0 => carriers
  | i + 1 => Function.update (readPages disk blockNums dataStartOff carriers i) i
      (afsBlkdevIo (readPagesBio (blockNums i) dataStartOff) disk (carriers i) 0).2

/-- `write_pages`: the device after the first `numPages` bios have completed. -/
def writePages (disk : Mem) (blockNums : ℕ → ℕ) (dataStartOff : ℕ) (carriers : ℕ → Mem) :
    ℕ → Mem
  | 0 => disk
  | i + 1 => (afsBlkdevIo (writePagesBio (blockNums i) dataStartOff)
      (writePages disk blockNums dataStartOff carriers i) (carriers i) 0).1

/-! ### Sectors -/

/-- The metadata path is exact below `2 ^ 20` blocks: from there on `block_num * 4096` wraps. -/
theorem pageSector_eq_iff (b off : ℕ) :
    pageSector b off = 8 * b + off ↔ b < 2 ^ 20 ∧ 8 * b + off < 2 ^ 32 := by
  unfold pageSector
  omega

theorem carrierSector_eq_iff (b off : ℕ) :
    carrierSector b off = 8 * b + off ↔ 8 * b + off < 2 ^ 32 := by
  unfold carrierSector
  omega

/-- Two blocks below `2 ^ 20` are apart on the device, also where the offset wraps. -/
theorem pageSector_apart {b b' : ℕ} (off : ℕ) (hb : b < 2 ^ 20) (hb' : b' < 2 ^ 20)
    (h : b ≠ b') :
    pageSector b off + 8 ≤ pageSector b' off ∨ pageSector b' off + 8 ≤ pageSector b off := by
  unfold pageSector
  omega

theorem carrierSector_apart {b b' off : ℕ} (hb : 8 * b + off < 2 ^ 32)
    (hb' : 8 * b' + off < 2 ^ 32) (h : b ≠ b') :
    carrierSector b off + 8 ≤ carrierSector b' off ∨
      carrierSector b' off + 8 ≤ carrierSector b off := by
  rw [(carrierSector_eq_iff b off).2 hb, (carrierSector_eq_iff b' off).2 hb']
  omega

/-- The four expressions for the sector of block `b` all give `8 b + off`. -/
def ExactSector (b off : ℕ) : Prop :=
  (readPageIo b off).ioSector = 8 * b + off ∧ (writePageIo b off).ioSector = 8 * b + off ∧
    (readPagesBio b off).ioSector = 8 * b + off ∧ (writePagesBio b off).ioSector = 8 * b + off

/-- No sector of `io` is a sector of `io'`. -/
def AfsIo.Apart (io io' : AfsIo) : Prop :=
  ∀ s, ¬ (io.ioSector ≤ s ∧ s < io.ioSector + 8 ∧ io'.ioSector ≤ s ∧ s < io'.ioSector + 8)

/-- Blocks `b` and `b'` are apart on the device, whichever of the two paths accesses them. -/
def BlocksApart (b b' off : ℕ) : Prop :=
  ∀ io ∈ [readPageIo b off, writePageIo b off, readPagesBio b off, writePagesBio b off],
    ∀ io' ∈ [readPageIo b' off, writePageIo b' off, readPagesBio b' off, writePagesBio b' off],
      io.Apart io'

theorem exactSector_iff (b off : ℕ) :
    ExactSector b off ↔ b < 2 ^ 20 ∧ 8 * b + off < 2 ^ 32 := by
  simp only [ExactSector, readPageIo, writePageIo, readPagesBio, writePagesBio,
    pageSector_eq_iff, carrierSector_eq_iff]
  omega

theorem blocksApart_of_exactSector {b b' off : ℕ} (hb : ExactSector b off)
    (hb' : ExactSector b' off) (h : b ≠ b') : BlocksApart b b' off := by
  obtain ⟨h1, h2, h3, h4⟩ := hb
  obtain ⟨h1', h2', h3', h4'⟩ := hb'
  intro io hio io' hio' s
  simp only [List.mem_cons, List.not_mem_nil, or_false] at hio hio'
  have hs : io.ioSector = 8 * b + off := by
    rcases hio with rfl | rfl | rfl | rfl
    exacts [h1, h2, h3, h4]
  have hs' : io'.ioSector = 8 * b' + off := by
    rcases hio' with rfl | rfl | rfl | rfl
    exacts [h1', h2', h3', h4']
  omega

/-- **The two paths address the device alike, and different blocks apart, exactly below block
`2 ^ 20` and sector `2 ^ 32`.** -/
theorem sectors_exact_iff (b b' off : ℕ) :
    (ExactSector b off ∧ ExactSector b' off ∧ (b ≠ b' → BlocksApart b b' off)) ↔
      (b < 2 ^ 20 ∧ 8 * b + off < 2 ^ 32) ∧ b' < 2 ^ 20 ∧ 8 * b' + off < 2 ^ 32 := by
  constructor
  · rintro ⟨hb, hb', -⟩
    exact ⟨(exactSector_iff b off).1 hb, (exactSector_iff b' off).1 hb'⟩
  · rintro ⟨hb, hb'⟩
    have he := (exactSector_iff b off).2 hb
    have he' := (exactSector_iff b' off).2 hb'
    exact ⟨he, he', blocksApart_of_exactSector he he'⟩

/-- Block `2 ^ 20` of a device of 4 GiB and one block: the metadata path writes it over
block 0. -/
theorem sectors_wrap :
    ¬ ∀ b off : ℕ, b < 2 ^ 32 → off < 2 ^ 32 → 8 * b + off < 2 ^ 35 →
      ExactSector b off ∧ ∀ b' : ℕ, b' < 2 ^ 32 → 8 * b' + off < 2 ^ 35 → b ≠ b' →
        BlocksApart b b' off := by
  intro h
  have := ((exactSector_iff (2 ^ 20) 0).1 (h (2 ^ 20) 0 (by norm_num) (by norm_num)
    (by norm_num)).1).1
  omega

/-! ### Pages -/

section Pages

variable {page disk : Mem} {p b b' off : ℕ}

theorem agree_readPage : Agree (readPage page p disk b off) p disk (512 * pageSector b off) 4096 :=
  agree_blit _ _ _ _ _

theorem agree_readPage_out {o n : ℕ} (h : o + n ≤ p ∨ p + 4096 ≤ o) :
    Agree (readPage page p disk b off) o page o n :=
  agree_blit_out h

theorem agree_writePage :
    Agree (writePage page p disk b off) (512 * pageSector b off) page p 4096 :=
  agree_blit _ _ _ _ _

theorem agree_writePage_out (hb : b < 2 ^ 20) (hb' : b' < 2 ^ 20) (h : b ≠ b') :
    Agree (writePage page p disk b off) (512 * pageSector b' off) disk
      (512 * pageSector b' off) 4096 := by
  refine agree_blit_out ?_
  have := pageSector_apart off hb hb' h
  simp only [writePageIo]
  omega

end Pages

end Artifice
