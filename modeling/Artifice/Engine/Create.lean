import Artifice.Metadata.SuperBlock
import Artifice.Metadata.FillMap
import Artifice.Codec.Sha3
import Artifice.Engine.Holds

/-!
The constructor of a device (`afs_ctr`), and that an instance that was just created holds zeros.

What `parse_afs_args`, `dm_get_device` and `detect_fs` give is taken as it is: the arguments, the
device and the free list. The work queues are left out.
-/

namespace Artifice

open Lib

/-- `TYPE_CREATE`, `TYPE_MOUNT` and `TYPE_SHADOW`. -/
inductive InstanceType
  | create
  | mount
  | shadow
  deriving DecidableEq, Repr

/-- `struct afs_args`, as far as the constructor uses it. -/
structure AfsArgs where
  passphrase : Mem
  entropyDir : Mem
  instanceType : InstanceType

/-- The cleared context of `afs_ctr`, with what is stored in it before the super block. The
invalid block is masked in the vector. -/
def newContext (args : AfsArgs) (instanceSize bdevSize : ℕ) (fs : AfsPassiveFs) (disk : Mem)
    (random : List ℕ) : AfsPrivate where
  config := ⟨0, 0, 0, 0, 0, 0, 0, 0, instanceSize, bdevSize⟩
  passphrase := args.passphrase
  passphraseHash := sha3_256 args.passphrase 64 fun _ => 0
  encodingType := .aontRs
  entropyDir := args.entropyDir
  passiveFs := fs
  vector := (allocationSet ⟨fun _ => false, 2 ^ 32 - 1⟩ afsInvalidBlock).2
  superBlock := fun _ => 0
  afsMap := fun _ => 0
  afsMapBlocks := fun _ => 0
  afsPtrBlocks := fun _ => 0
  disk
  random

/-- `afs_ctr` for a target of `len` sectors: an error code, or the context. The allocations are
those of the context and of the vector. -/
def afsCtr (k : Kernel) (rounds : ℕ) (args : AfsArgs) (len bdevSize : ℕ) (fs : AfsPassiveFs)
    (disk : Mem) (random : List ℕ) : Option (Except ℤ AfsPrivate) :=
  let instanceSize := len * 512 % 2 ^ 64
  if instanceSize < 2 ^ 16 then some (.error (-22))
  else if ¬ k.kmalloc 12288 then some (.error (-12))
  else if ¬ (k.kmalloc 24 ∧ k.vmalloc ((2 ^ 32 - 1) / 8 + 1)) then some (.error (-12))
  else
    let ctx := newContext args instanceSize bdevSize fs disk random
    match args.instanceType with
    | .create => do
      let (ret, ctx, _) ← writeSuperBlock k rounds
        { ctx with config := buildConfiguration ctx.config 4 1 }
      some (if ret ≠ 0 then .error ret else .ok ctx)
    | .mount => do
      let (ret, ctx) ← findSuperBlock k rounds ctx
      some (if ret ≠ 0 then .error ret else .ok ctx)
    | .shadow => some (.ok ctx)

section

variable {k : Kernel} {ctx ctx' : AfsPrivate} {config : AfsConfig} {m m' : Mem}
  {alloc entry b i j n : ℕ}

/-! ### A fresh map -/

theorem createMapTuples_out (h : i < entry ∨ entry + 6 * n ≤ i) :
    createMapTuples m entry n i = m i := by
  induction n with
  | zero => rfl
  | succ n ih =>
    rw [createMapTuples, putLe_out (by omega), putLe_out (by omega)]
    exact ih (by omega)

theorem carrierPtr_createMapTuples (hj : j < n) :
    carrierPtr (createMapTuples m entry n) entry j = afsInvalidBlock := by
  induction n with
  | zero => omega
  | succ n ih =>
    rw [createMapTuples, carrierPtr, le_putLe_out (by omega)]
    by_cases h : j = n
    · subst h
      exact le_putLe_of_lt (by decide)
    · rw [le_putLe_out (by omega)]
      exact ih (by omega)

theorem createMapEntry_out (h : i < entry ∨ entry + (6 * config.numCarrierBlocks + 40) ≤ i) :
    createMapEntry config m entry i = m i := by
  rw [createMapEntry, fill_out (by omega), createMapTuples_out (by omega)]

theorem carrierPtr_createMapEntry (hj : j < config.numCarrierBlocks) :
    carrierPtr (createMapEntry config m entry) entry j = afsInvalidBlock := by
  have hfill : carrierPtr (createMapEntry config m entry) entry j =
      carrierPtr (createMapTuples m entry config.numCarrierBlocks) entry j :=
    le_congr fun t ht => fill_out (by omega)
  rw [hfill, carrierPtr_createMapTuples hj]

/-- **The entries of a fresh map are not mapped.** -/
theorem carrierPtr_createMapLoop (hok : config.Ok) (hn : n * config.mapEntrySz ≤ 2 ^ 32)
    (h : createMapLoop config alloc m n = some m') (hb : b < n)
    (hj : j < config.numCarrierBlocks) :
    carrierPtr m' (b * config.mapEntrySz) j = afsInvalidBlock := by
  have hsz := hok.entrySz
  induction n generalizing m' with
  | zero => omega
  | succ n ih =>
    rw [Nat.succ_mul] at hn
    simp only [createMapLoop, Option.bind_eq_bind, Option.bind_eq_some_iff] at h
    obtain ⟨m₁, hm₁, h⟩ := h
    split_ifs at h
    rw [Nat.mod_eq_of_lt (by omega), Option.some.injEq] at h
    subst h
    by_cases hbn : b = n
    · subst hbn
      exact carrierPtr_createMapEntry hj
    · rw [← ih (by omega) hm₁ (by omega)]
      have hle : b * config.mapEntrySz + config.mapEntrySz ≤ n * config.mapEntrySz := by
        rw [← Nat.succ_mul]
        exact Nat.mul_le_mul_right _ (by omega)
      exact le_congr fun t ht => createMapEntry_out (by omega)

theorem createMapBlocksLoop_le {s s' : Mem × ℕ}
    (h : createMapBlocksLoop k config m alloc s n = some s') : 4096 * n ≤ alloc := by
  cases n with
  | zero => omega
  | succ n =>
    simp only [createMapBlocksLoop, Option.bind_eq_bind, Option.bind_eq_some_iff] at h
    obtain ⟨s₁, -, h⟩ := h
    split_ifs at h with hle
    exact hle

theorem small_of_mapBlocks (hok : config.Ok) (hn : config.numCarrierBlocks = 4)
    (h : 4096 * config.numMapBlocks < 2 ^ 32) : 64 * config.numBlocks < 2 ^ 32 := by
  have hsz := hok.entrySz
  have hblock := hok.block
  have hp := hok.entries
  have hmb := hok.mapBlocks
  rw [hn] at hsz
  rw [hsz] at hblock
  -- as many map blocks as hold all entries, 63 at most in each
  have hle : config.numBlocks ≤ config.numMapBlocks * config.numMapEntriesPerBlock := by
    rw [hmb, Nat.mul_comm]
    have := Nat.div_add_mod (config.numBlocks + config.numMapEntriesPerBlock - 1)
      config.numMapEntriesPerBlock
    have := Nat.mod_lt (config.numBlocks + config.numMapEntriesPerBlock - 1) hp
    omega
  have hper : config.numMapEntriesPerBlock ≤ 63 := by omega
  have := Nat.mul_le_mul_left config.numMapBlocks hper
  omega

/-- The context with which `afs_ctr` calls `write_super_block`. -/
def createContext (args : AfsArgs) (len bdevSize : ℕ) (fs : AfsPassiveFs) (disk : Mem)
    (random : List ℕ) : AfsPrivate :=
  let ctx := newContext args (len * 512 % 2 ^ 64) bdevSize fs disk random
  { ctx with config := buildConfiguration ctx.config 4 1 }

theorem afsCtr_written {rounds : ℕ} {args : AfsArgs} {len bdevSize : ℕ} {fs : AfsPassiveFs}
    {disk : Mem} {random : List ℕ} (htype : args.instanceType = .create)
    (h : afsCtr k rounds args len bdevSize fs disk random = some (.ok ctx)) :
    2 ^ 16 ≤ len * 512 % 2 ^ 64 ∧ ∃ written,
      writeSuperBlock k rounds (createContext args len bdevSize fs disk random) =
        some (0, ctx, written) := by
  unfold afsCtr at h
  simp only [htype] at h
  by_cases h1 : len * 512 % 2 ^ 64 < 2 ^ 16
  · rw [if_pos h1] at h
    cases h
  by_cases h2 : k.kmalloc 12288 = true
  · by_cases h3 : k.kmalloc 24 = true ∧ k.vmalloc ((2 ^ 32 - 1) / 8 + 1) = true
    · rw [if_neg h1, if_neg (not_not.2 h2), if_neg (not_not.2 h3), Option.bind_eq_bind,
        Option.bind_eq_some_iff] at h
      obtain ⟨⟨ret, ctx₁, written⟩, hw, h⟩ := h
      have hret : ret = 0 ∧ ctx₁ = ctx := by
        by_cases h0 : ret = 0
        · simp only [h0, ne_eq, not_true_eq_false, if_false, Option.some.injEq,
            Except.ok.injEq] at h
          exact ⟨h0, h⟩
        · simp [h0] at h
      obtain ⟨rfl, rfl⟩ := hret
      exact ⟨not_lt.1 h1, written, hw⟩
    · rw [if_neg h1, if_neg (not_not.2 h2), if_pos h3] at h
      cases h
  · rw [if_neg h1, if_pos h2] at h
    cases h

theorem createContext_ok (args : AfsArgs) (len bdevSize : ℕ) (fs : AfsPassiveFs) (disk : Mem)
    (random : List ℕ) : (createContext args len bdevSize fs disk random).config.Ok :=
  buildConfiguration_ok _ 1 (by norm_num) (by norm_num)

theorem afsCtr_create {rounds : ℕ} {args : AfsArgs} {len bdevSize : ℕ} {fs : AfsPassiveFs}
    {disk : Mem} {random : List ℕ} (htype : args.instanceType = .create)
    (h : afsCtr k rounds args len bdevSize fs disk random = some (.ok ctx)) :
    ∃ ctx₀ ctx₁ sbBlock disk', ctx₀.config.Ok ∧ ctx₀.config.numCarrierBlocks = 4 ∧
      ctx₀.encodingType = .aontRs ∧ ctx₀.passiveFs = fs ∧
      prepareSuperBlock k rounds ctx₀ = some (0, ctx₁, sbBlock) ∧
      ctx = { ctx₁ with disk := disk' } := by
  obtain ⟨-, written, hw⟩ := afsCtr_written htype h
  obtain ⟨ctx₁, sbBlock, disk', hprep, -, rfl⟩ := writeSuperBlock_written hw
  exact ⟨_, ctx₁, sbBlock, disk', createContext_ok args len bdevSize fs disk random, rfl, rfl, rfl,
    hprep, rfl⟩

/-- What a new instance is: its configuration, and a map without blocks. -/
structure Created (fs : AfsPassiveFs) (ctx : AfsPrivate) : Prop where
  carriers : ctx.config.numCarrierBlocks = 4
  config : ctx.config.Ok
  small : 64 * ctx.config.numBlocks < 2 ^ 32
  encoding : ctx.encodingType = .aontRs
  passiveFs : ctx.passiveFs = fs
  unmapped : ∀ b < ctx.config.numBlocks, ∀ j < 4, entryPtr ctx b j = afsInvalidBlock

/-- **An instance that was just created has no block that is mapped.** -/
theorem created_of_create {rounds : ℕ} {args : AfsArgs} {len bdevSize : ℕ} {fs : AfsPassiveFs}
    {disk : Mem} {random : List ℕ} (htype : args.instanceType = .create)
    (h : afsCtr k rounds args len bdevSize fs disk random = some (.ok ctx)) : Created fs ctx := by
  obtain ⟨ctx₀, ctx₁, sbBlock, disk', hok, hn, henc, rfl, hprep, rfl⟩ := afsCtr_create htype h
  obtain ⟨-, -, hsame, -, c, c', c'', hc, hmap, hblocks, hafs⟩ := prepareSuperBlock_spec hprep
  rw [← hc] at hok hn
  have hconf : ctx₁.config = c.config := hsame.config.trans hc.symm
  rcases afsCreateMap_cases hmap with ⟨-, -, m, hm, rfl⟩ | ⟨hr, -⟩
  · have hsmall : 64 * c.config.numBlocks < 2 ^ 32 := by
      rcases afsCreateMapBlocks_cases hblocks with ⟨-, -, m', hm', -⟩ | ⟨hr, -⟩
      · have := createMapBlocksLoop_le hm'
        exact small_of_mapBlocks hok hn (by dsimp only at this; omega)
      · omega
    have hsz : c.config.mapEntrySz = 64 := by rw [hok.entrySz, hn]
    refine ⟨?_, ?_, ?_, ?_, ?_, fun b hb j hj => ?_⟩
    · simp only [hconf, hn]
    · simp only [hconf]
      exact hok
    · simp only [hconf]
      exact hsmall
    · simp only [hsame.encodingType, henc]
    · simp only [hsame.passiveFs]
    · simp only [hconf] at hb
      have hentry : afsGetMapEntry c.config b = b * c.config.mapEntrySz := by
        rw [afsGetMapEntry, Nat.mod_eq_of_lt (by rw [hsz]; omega)]
      simp only [entryPtr, hconf]
      rw [hentry, show ctx₁.afsMap = m from hafs]
      exact carrierPtr_createMapLoop hok (by rw [hsz]; omega) hm hb (hn ▸ hj)
  · omega

theorem unmapped_of_create {rounds : ℕ} {args : AfsArgs} {len bdevSize : ℕ} {fs : AfsPassiveFs}
    {disk : Mem} {random : List ℕ} (htype : args.instanceType = .create)
    (hinc : fs.freeList.Pairwise (· < ·))
    (hsec : ∀ b ∈ fs.freeList, 8 * b + fs.dataStartOff < 2 ^ 32)
    (h : afsCtr k rounds args len bdevSize fs disk random = some (.ok ctx)) :
    Instance ctx ∧ ∀ b < ctx.config.numBlocks, ∀ j < 4, entryPtr ctx b j = afsInvalidBlock := by
  obtain ⟨hn, hok, hsmall, henc, hfs, hunmapped⟩ := created_of_create htype h
  refine ⟨⟨hn, hok, hsmall, ?_, ?_, ?_⟩, hunmapped⟩
  · rw [henc]
    exact fun h => by cases h
  · rw [hfs]
    exact hinc
  · rw [hfs]
    exact hsec

/-- **An instance that was just created holds zeros.** -/
theorem Holds.of_unmapped (hi : Instance ctx)
    (hu : ∀ b < ctx.config.numBlocks, ∀ j < 4, entryPtr ctx b j = afsInvalidBlock) :
    Holds k ctx fun _ _ => 0 :=
  ⟨hi, ⟨fun b hb j hj hne => absurd (hu b hb j hj) hne,
    fun b hb _ _ j hj _ _ hne => absurd (hu b hb j hj) hne⟩,
    fun b hb => Or.inl ⟨hu b hb, fun _ _ => rfl⟩⟩

end

end Artifice
