import Artifice.Engine.Session

/-!
Writes of a part of a block. `init_request` does not clear the data block of a request and
`afs_write_request` does not read the block first, so that a write encodes what the memory of the
request held around the range of the bio.
-/

namespace Artifice

open Lib

section

variable {k : Kernel} {g : GfCtx} {ctx ctx₁ ctx₂ : AfsPrivate} {l₁ l₂ : Life} {bio bio' : Bio}
  {store : ℕ → Mem} {fresh fresh' : AfsMapRequest}

theorem answer_after_write (h : Holds k ctx store) (hk : ∀ n, k.kmalloc n = true)
    (hbio : bio.InBlock) (hop : bio.biOp = .write) (hb : bio.biSector / 8 < ctx.config.numBlocks)
    (hw : Served k g ctx fresh bio ctx₁ l₁) (hwritten : l₁.Written) (hbio' : bio'.InBlock)
    (hop' : bio'.biOp = .read) (hwhole : bio'.Whole) (hsame : bio'.biSector / 8 = bio.biSector / 8)
    (hr : Served k g ctx₁ fresh' bio' ctx₂ l₂) {i : ℕ} (hi : i < 4096) :
    l₂.answer i = spliced fresh.dataBlock bio i := by
  have h₁ := h.write hk hbio hop hb hw hwritten
  have hconf : ctx₁.config = ctx.config := by
    obtain ⟨_, _, -, hruns, -⟩ := hw.run
    exact hruns.sameInstance.config
  have hans := (h₁.read hk hbio' hop' (by rw [hsame, hconf]; exact hb) hr).1 i
    (by rw [hwhole.2]; exact hi)
  rwa [hsame, Function.update_self, hwhole.1, Nat.zero_mul, Nat.zero_add] at hans

/-- **A write of a part of a block is a read-modify-write exactly if** the memory of its request
happens to hold the block around the range. -/
theorem partial_write_iff (h : Holds k ctx store) (hk : ∀ n, k.kmalloc n = true)
    (hbio : bio.InBlock) (hop : bio.biOp = .write) (hb : bio.biSector / 8 < ctx.config.numBlocks)
    (hw : Served k g ctx fresh bio ctx₁ l₁) (hwritten : l₁.Written) (hbio' : bio'.InBlock)
    (hop' : bio'.biOp = .read) (hwhole : bio'.Whole)
    (hsame : bio'.biSector / 8 = bio.biSector / 8) (fresh' : AfsMapRequest) :
    (∃ ctx₂ l₂, Served k g ctx₁ fresh' bio' ctx₂ l₂) ∧
    ∀ ctx₂ l₂, Served k g ctx₁ fresh' bio' ctx₂ l₂ →
      ((∀ i < 4096, l₂.answer i = spliced (store (bio.biSector / 8)) bio i) ↔
        ∀ i < 4096, i < bio.biSector % 8 * 512 ∨ bio.biSector % 8 * 512 + bio.biSize ≤ i →
          fresh.dataBlock i = store (bio.biSector / 8) i) := by
  have hconf : ctx₁.config = ctx.config := by
    obtain ⟨_, _, -, hruns, -⟩ := hw.run
    exact hruns.sameInstance.config
  refine ⟨(h.write hk hbio hop hb hw hwritten).read_exists hk hbio' hop'
    (by rw [hsame, hconf]; exact hb) g fresh', fun ctx₂ l₂ hr => ?_⟩
  refine forall₂_congr fun i hi => ?_
  rw [answer_after_write h hk hbio hop hb hw hwritten hbio' hop' hwhole hsame hr hi, spliced,
    spliced]
  split_ifs with hin
  · exact iff_of_true rfl fun hout => by omega
  · exact ⟨fun heq _ => heq, fun heq => heq (by omega)⟩

end

/-! ### A sector of a new block -/

/-- A bio of the first sector of the device. -/
def sectorBio (op : ReqOp) (page : Mem) : Bio := ⟨op, 0, 512, [⟨page, 0, 512⟩], 0⟩

theorem inBlock_sectorBio (op : ReqOp) (page : Mem) : (sectorBio op page).InBlock :=
  ⟨⟨by simp [sectorBio], by simp [sectorBio, segmentsLen]⟩, by simp [sectorBio]⟩

/-- A write of the first sector of a new instance, from memory that held ones: the rest of the
block is not zero any more. -/
theorem partial_write_garbage :
    ¬ ∀ (k : Kernel) (g : GfCtx) (ctx ctx₁ ctx₂ : AfsPrivate) (store : ℕ → Mem)
      (fresh fresh' : AfsMapRequest) (bio bio' : Bio) (l₁ l₂ : Life),
      Holds k ctx store → (∀ n, k.kmalloc n = true) → bio.InBlock → bio.biOp = .write →
      bio.biSector / 8 < ctx.config.numBlocks → Served k g ctx fresh bio ctx₁ l₁ → l₁.Written →
      bio'.InBlock → bio'.biOp = .read → bio'.Whole → bio'.biSector / 8 = bio.biSector / 8 →
      Served k g ctx₁ fresh' bio' ctx₂ l₂ →
      ∀ i < 4096, l₂.answer i = spliced (store (bio.biSector / 8)) bio i := by
  intro hall
  obtain ⟨ctx₀, -, hholds, -, hcan, hblocks, -⟩ := exists_smallInstance
  have hk : ∀ n, (constKernel 1).kmalloc n = true := fun _ => rfl
  have hb : (sectorBio .write fun _ => 0).biSector / 8 < ctx₀.config.numBlocks := by
    rw [hblocks]
    decide
  obtain ⟨ctx₁, l₁, hw, hwritten⟩ := hholds.write_exists hk (inBlock_sectorBio .write fun _ => 0) rfl
    hb hcan gfContextZero { zeroRequest with dataBlock := fun _ => 1 }
  have hb₁ : (blockBio .read 0 fun _ => 0).biSector / 8 < ctx₁.config.numBlocks := by
    obtain ⟨_, _, -, hruns, -⟩ := hw.run
    rw [hruns.sameInstance.config, hblocks]
    decide
  obtain ⟨ctx₂, l₂, hr⟩ := (hholds.write hk (inBlock_sectorBio .write fun _ => 0) rfl hb hw
    hwritten).read_exists hk (inBlock_blockBio .read 0 fun _ => 0) rfl hb₁ gfContextZero zeroRequest
  have hread := hall _ _ _ _ _ _ _ _ _ _ _ _ hholds hk (inBlock_sectorBio .write fun _ => 0) rfl hb
    hw hwritten (inBlock_blockBio .read 0 fun _ => 0) rfl ⟨rfl, rfl⟩ rfl hr 512 (by norm_num)
  rw [answer_after_write hholds hk (inBlock_sectorBio .write fun _ => 0) rfl hb hw hwritten
    (inBlock_blockBio .read 0 fun _ => 0) rfl ⟨rfl, rfl⟩ rfl hr (by norm_num : 512 < 4096)] at hread
  revert hread
  decide

/-- From memory that held zeros, the write of a sector of a new block is a read-modify-write. -/
theorem partial_write_zeroed :
    ∃ ctx₀ ctx₁ l₁, Holds (constKernel 1) ctx₀ (fun _ _ => 0) ∧
      Served (constKernel 1) gfContextZero ctx₀ zeroRequest (sectorBio .write fun _ => 7) ctx₁ l₁ ∧
      ∃ ctx₂ l₂, Served (constKernel 1) gfContextZero ctx₁ zeroRequest
          (blockBio .read 0 fun _ => 0) ctx₂ l₂ ∧
        ∀ i < 4096, l₂.answer i = spliced (fun _ => 0) (sectorBio .write fun _ => 7) i := by
  obtain ⟨ctx₀, -, hholds, -, hcan, hblocks, -⟩ := exists_smallInstance
  have hk : ∀ n, (constKernel 1).kmalloc n = true := fun _ => rfl
  have hb : (sectorBio .write fun _ => 7).biSector / 8 < ctx₀.config.numBlocks := by
    rw [hblocks]
    decide
  obtain ⟨ctx₁, l₁, hw, hwritten⟩ := hholds.write_exists hk (inBlock_sectorBio .write fun _ => 7) rfl
    hb hcan gfContextZero zeroRequest
  obtain ⟨⟨ctx₂, l₂, hr⟩, hiff⟩ := partial_write_iff hholds hk
    (inBlock_sectorBio .write fun _ => 7) rfl hb hw hwritten (inBlock_blockBio .read 0 fun _ => 0)
    rfl ⟨rfl, rfl⟩ rfl zeroRequest
  exact ⟨ctx₀, ctx₁, l₁, hholds, hw, ctx₂, l₂, hr, (hiff ctx₂ l₂ hr).2 fun _ _ _ => rfl⟩

end Artifice
