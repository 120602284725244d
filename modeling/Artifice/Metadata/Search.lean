import Artifice.Metadata.Mount

/-!
When the search for the super block ends.

The loop of `find_super_block` allows 32 tries, but the rehash loop inside of it, which counts in the
same `sb_tries`, does not look at the limit: it goes on until the hash chain meets the free list. With
an empty free list that is never.
-/

namespace Artifice

open Lib

/-! ### Counting the tries -/

/-- The rehashes that the rehash loop makes. -/
def rehashes (k : Kernel) (fs : AfsPassiveFs) (size : ℕ) : ℕ → Mem → ℕ → Option ℕ
  | 0, _, _ => none
  | rounds + 1, passHash, sbBlock => do
    if (← binarySearch fs.blockList sbBlock fs.listLen) = -1 then
      let passHash := k.sha1 (bytes passHash 0 20)
      (rehashes k fs size rounds passHash (le passHash 0 4 % size)).map (· + 1)
    else some 0

/-- The tries of the loop `while (sb_tries < 32)`: its rehashes and its failed reads. The loop's own
count `tries` is kept beside, since it is a `uint32_t`. -/
def searchTries (k : Kernel) (ctx : AfsPrivate) (size rounds : ℕ) : ℕ → Mem → ℕ → ℕ → Option ℕ
  | 0, _, _, _ => some 0
  | n + 1, passHash, tries, sbBlock =>
    if tries < 32 then do
      let rehashed ← rehashes k ctx.passiveFs size rounds passHash sbBlock
      let (passHash, sbBlock, tries) ← rehashLoop k ctx.passiveFs size rounds passHash sbBlock tries
      let blockNum ← ctx.passiveFs.blockList[sbBlock]?
      if blockValid k ctx.disk blockNum ctx.passiveFs.dataStartOff then some rehashed
      else
        let later ← searchTries k ctx size rounds n passHash ((tries + 1) % 2 ^ 32) sbBlock
        some (rehashed + 1 + later)
    else some 0

/-- `find_super_block` stops after at most 32 tries, and returns 0 or an error. -/
def SearchStops (k : Kernel) (ctx : AfsPrivate) : Prop :=
  ∃ r₀, ∀ rounds ≥ r₀,
    (∃ t ≤ 32, searchTries k ctx (blockDeviceSize ctx.config) rounds 33
      (k.sha1 (bytes ctx.passphrase 0 64)) 0
      (chainValue k ctx.passphrase (blockDeviceSize ctx.config) 0) = some t) ∧
    ∃ ret ctx', findSuperBlock k rounds ctx = some (ret, ctx') ∧ ret ≤ 0

/-- `afs_create_map` and `afs_fill_map` stay inside of the buffer of the map, for an instance of
`instanceSize` bytes: it has fewer than `2 ^ 26` blocks, or an allocation fails first. -/
def MapInBounds (k : Kernel) (instanceSize : ℕ) : Prop :=
  k.vmalloc (instanceSize / 4096 % 2 ^ 32 * 64 % 2 ^ 32) = true →
    instanceSize / 4096 % 2 ^ 32 < 2 ^ 26 ∨
      (pageRound (instanceSize / 4096 % 2 ^ 32 * 64 % 2 ^ 32) = 2 ^ 32 ∧ k.kmalloc 4096 = false)

section Tries

variable {k : Kernel} {ctx : AfsPrivate} {fs : AfsPassiveFs} {passphrase passHash : Mem}
  {size rounds m n b tries t : ℕ}

theorem rehashes_reaches (hn : m ≤ n) (hr : n - m < rounds)
    (hp : ChainPasses k fs passphrase size n)
    (hj : ∀ j, m ≤ j → j < n →
      binarySearch fs.blockList (chainValue k passphrase size j) fs.listLen = some (-1)) :
    rehashes k fs size rounds (chainHash k passphrase m) (chainValue k passphrase size m) =
      some (n - m) := by
  induction rounds generalizing m with
  | zero => omega
  | succ r ih =>
    simp only [rehashes, Option.bind_eq_bind]
    rcases Nat.eq_or_lt_of_le hn with rfl | hlt
    · obtain ⟨index, hi, hne⟩ := exists_of_passes hp
      rw [hi, Option.bind_some, if_neg hne, Nat.sub_self]
    · rw [hj m (le_refl m) hlt, Option.bind_some, if_pos rfl]
      have hrest := ih (m := m + 1) hlt (by omega) fun j hj1 => hj j (by omega)
      rw [chainHash, chainValue, chainHash] at hrest
      rw [hrest, Option.map_some]
      congr 1
      omega

/-- At a location that passes the test, over an invalid block, each of the tries that are left is a
failed read. -/
theorem searchTries_stays (size : ℕ) {sbBlock : ℕ} (hr : 0 < rounds)
    (hp : passes ctx.passiveFs sbBlock = true)
    (hb : ctx.passiveFs.blockList[sbBlock]? = some b)
    (hbad : blockValid k ctx.disk b ctx.passiveFs.dataStartOff = false) (hn : 32 - tries ≤ n) :
    searchTries k ctx size rounds n passHash tries sbBlock = some (32 - tries) := by
  obtain ⟨r, rfl⟩ : ∃ r, rounds = r + 1 := ⟨rounds - 1, by omega⟩
  obtain ⟨index, hi, hne⟩ := exists_of_passes hp
  induction n generalizing passHash tries with
  | zero =>
    rw [searchTries, show 32 - tries = 0 by omega]
  | succ n ih =>
    by_cases ht : tries < 32
    · have hmod : (tries + 1) % 2 ^ 32 = tries + 1 := Nat.mod_eq_of_lt (by omega)
      have hnext : searchTries k ctx size (r + 1) n passHash (tries + 1) sbBlock = _ :=
        ih (by omega)
      simp only [searchTries, ht, if_true, rehashes, rehashLoop, Option.bind_eq_bind, hi,
        Option.bind_some, hne, if_false, hb, hbad, Bool.false_eq_true, hmod, hnext]
      congr 1
      omega
    · rw [searchTries, if_neg ht, show 32 - tries = 0 by omega]

/-- **The tries of the search**: at most 32 exactly when the chain meets the free list within 31
rehashes, or with the 32nd and over a valid block. -/
theorem searchTries_le_iff
    (hn : FirstPasses k ctx.passiveFs ctx.passphrase (blockDeviceSize ctx.config) n)
    (hb : ctx.passiveFs.blockList[chainValue k ctx.passphrase
      (blockDeviceSize ctx.config) n]? = some b) (hr : n < rounds) :
    (∃ t ≤ 32, searchTries k ctx (blockDeviceSize ctx.config) rounds 33
      (k.sha1 (bytes ctx.passphrase 0 64)) 0
      (chainValue k ctx.passphrase (blockDeviceSize ctx.config) 0) = some t) ↔
    n < 32 ∨ (n = 32 ∧ blockValid k ctx.disk b ctx.passiveFs.dataStartOff = true) := by
  have hcount := rehashes_reaches (Nat.zero_le n) (show n - 0 < rounds by omega) hn.1
    fun j _ => hn.2 j
  have hloop : rehashLoop k ctx.passiveFs (blockDeviceSize ctx.config) rounds _ _ 0 = _ :=
    rehashLoop_tries (Nat.zero_le n) (show n - 0 < rounds by omega) (by norm_num) hn.1
      fun j _ => hn.2 j
  rw [chainHash] at hcount hloop
  rw [show (33 : ℕ) = 32 + 1 from rfl, searchTries, if_pos (by norm_num)]
  simp only [hcount, hloop, Option.bind_eq_bind, Option.bind_some, hb, Nat.zero_add, Nat.sub_zero]
  cases hv : blockValid k ctx.disk b ctx.passiveFs.dataStartOff with
  | true =>
    simp only [if_true, Option.some.injEq, exists_eq_right', and_true]
    omega
  | false =>
    simp only [Bool.false_eq_true, if_false]
    rw [searchTries_stays (blockDeviceSize ctx.config) (show 0 < rounds by omega) hn.1 hb hv
      (Nat.sub_le _ _), Option.bind_some]
    simp only [Option.some.injEq, exists_eq_right', and_false, or_false]
    omega

end Tries

/-! ### Reading the map returns -/

section Fill

variable {k : Kernel} {ctx : AfsPrivate} {c : AfsConfig} {sb : Mem} {s : AfsPrivate × ℕ}
  {rounds i b : ℕ}

theorem fillMapBlock_total (hc : c.MapFits) (hcfg : s.1.config = c) (hs : s.2 ≤ c.numBlocks) :
    ∃ f, fillMapBlock k b s = some f ∧ f.Sat
      (fun s' => s'.1.config = c ∧ s.2 < s'.2 ∧ s'.2 ≤ c.numBlocks)
      (fun s' => s'.1.config = c ∧ s'.2 = c.numBlocks) (fun _ _ => False) := by
  have hN := hc.blocks
  have hp := hc.entries
  have hmap := hc.map
  have hround := le_pageRound (c.numBlocks * c.mapEntrySz)
  have hmark : (mark s.1 b).config = c := hcfg
  have hstart : s.2 * c.mapEntrySz ≤ c.numBlocks * c.mapEntrySz := Nat.mul_le_mul_right _ hs
  have hleft : (c.numBlocks + 2 ^ 32 - s.2) % 2 ^ 32 = c.numBlocks - s.2 := by omega
  have hbound : ∀ n ≤ c.numBlocks - s.2,
      s.2 * c.mapEntrySz + n * c.mapEntrySz ≤ c.numBlocks * c.mapEntrySz := by
    intro n hn
    rw [← Nat.add_mul]
    exact Nat.mul_le_mul_right _ (by omega)
  simp only [fillMapBlock, hmark, hleft, Nat.mod_eq_of_lt hmap,
    Nat.mod_eq_of_lt (show s.2 * c.mapEntrySz < 2 ^ 32 by omega)]
  by_cases hlast : c.numBlocks - s.2 ≤ c.numMapEntriesPerBlock
  · have := hbound _ (le_refl _)
    rw [if_pos hlast, if_pos (by omega)]
    refine ⟨_, rfl, rfl, ?_⟩
    show (s.2 + (c.numBlocks - s.2)) % 2 ^ 32 = c.numBlocks
    omega
  · have := hbound c.numMapEntriesPerBlock (by omega)
    rw [if_neg hlast, if_pos (by omega)]
    refine ⟨_, rfl, rfl, ?_⟩
    show s.2 < (s.2 + c.numMapEntriesPerBlock) % 2 ^ 32 ∧
      (s.2 + c.numMapEntriesPerBlock) % 2 ^ 32 ≤ c.numBlocks
    omega

/-- The loop over a pointer block, which only a `break` ends, ends; its counter has not wrapped. -/
theorem fillMapPb_total (hc : c.MapFits) (hcfg : s.1.config = c) (hs : s.2 ≤ c.numBlocks)
    (ptrBlock : Mem) (hr : c.numBlocks - s.2 < rounds) (hi : i + (c.numBlocks - s.2) < 2 ^ 32) :
    ∃ j s', fillMapPb k ptrBlock rounds i s = some (j, s') ∧ i ≤ j ∧ j ≤ i + (c.numBlocks - s.2) ∧
      s'.1.config = c ∧ s'.2 ≤ c.numBlocks := by
  induction rounds generalizing i s with
  | zero => omega
  | succ r ih =>
    obtain ⟨f, hf, hsat⟩ := fillMapBlock_total (k := k) (b := le ptrBlock 16 4) hc hcfg hs
    rw [fillMapPb, hf, Option.bind_eq_bind, Option.bind_some]
    cases f with
    | next s' =>
      obtain ⟨hcfg', hlt, hle⟩ := hsat
      obtain ⟨j, s'', hj, hij, hj', hs''⟩ := ih (i := (i + 1) % 2 ^ 32) hcfg' hle (by omega)
        (by omega)
      exact ⟨j, s'', hj, by omega, by omega, hs''⟩
    | brk s' => exact ⟨i, s', rfl, le_refl i, by omega, hsat.1, hsat.2.le⟩
    | ret code s' => exact hsat.elim

theorem fillMapPtrBlocks_total (hc : c.MapFits) (hcfg : s.1.config = c) (hs : s.2 ≤ c.numBlocks)
    (page : Mem) (hr : c.numPtrBlocks - i < rounds) :
    ∃ s', fillMapPtrBlocks k sb rounds i page s = some s' ∧ s'.1.config = c := by
  have hmap := hc.map
  have hptr : c.numPtrBlocks ≤ c.numBlocks := by
    have hle := ceil_le c.numBlocks hc.entries
    rw [← hc.mapBlocks] at hle
    have := hc.ptrBlocks
    omega
  have hsize : c.numBlocks * 2 ≤ c.numBlocks * c.mapEntrySz :=
    Nat.mul_le_mul_left _ (by rw [hc.entrySz]; omega)
  induction rounds generalizing i page s with
  | zero => omega
  | succ r ih =>
    rw [fillMapPtrBlocks, hcfg]
    by_cases hlt : i < c.numPtrBlocks
    · rw [if_pos hlt]
      obtain ⟨j, s', hj, hij, hji, hcfg', hs'⟩ := fillMapPb_total (k := k) (i := i)
        (s := (mark s.1 (if i = 0 then le sb 4092 4 else le page 4092 4), s.2)) hc hcfg hs
        (readPage page 0 s.1.disk (if i = 0 then le sb 4092 4 else le page 4092 4)
          s.1.passiveFs.dataStartOff) (Nat.lt_add_one_of_le (Nat.sub_le c.numBlocks s.2))
        (show i + (c.numBlocks - s.2) < 2 ^ 32 by omega)
      simp only [Option.bind_eq_bind]
      rw [hj, Option.bind_some]
      exact ih hcfg' hs' _ (by omega)
    · rw [if_neg hlt]
      exact ⟨s, rfl, hcfg⟩

/-- `afs_fill_map` returns 0 or an error, whatever the device holds. -/
theorem afsFillMap_total (hc : ctx.config.MapFits) :
    ∃ ret ctx', afsFillMap k sb ctx = some (ret, ctx') ∧ ret ≤ 0 := by
  unfold afsFillMap
  split_ifs with hk
  · obtain ⟨f, hf, hsat⟩ : ∃ f, fillMapSb k sb 975 0 (ctx, 0) = some f ∧ f.Sat _ _ _ :=
      forLoop_total (I := fun _ s => s.1.config = ctx.config ∧ s.2 ≤ ctx.config.numBlocks)
        (B := fun s => s.1.config = ctx.config ∧ s.2 ≤ ctx.config.numBlocks)
        (R := fun _ _ => False) (fun j s _ _ hI => by
          obtain ⟨f, hf, hsat⟩ := fillMapBlock_total (k := k) (b := le sb (192 + 4 * j) 4) hc
            hI.1 hI.2
          exact ⟨f, hf, hsat.mono (fun s h => ⟨h.1, h.2.2⟩) (fun s h => ⟨h.1, h.2.le⟩)
            fun _ _ => id⟩)
        ⟨rfl, Nat.zero_le _⟩
    rw [hf]
    cases f with
    | ret code s => exact hsat.elim
    | brk s => exact hsat.elim
    | next s =>
      obtain ⟨hcfg, hs⟩ := or_self_iff.1 hsat
      obtain ⟨s', hs', -⟩ : ∃ s', fillMapPtrBlocks k sb (ctx.config.numPtrBlocks + 1) 0 k.uninit s =
          some s' ∧ _ :=
        fillMapPtrBlocks_total hc hcfg hs k.uninit (by omega)
      simp only [Option.bind_eq_bind, Option.bind_some]
      rw [hs', Option.bind_some]
      split_ifs
      · exact ⟨_, _, rfl, le_refl _⟩
      · exact ⟨_, _, rfl, by norm_num⟩
  · exact ⟨_, _, rfl, by norm_num⟩

theorem createMapLoop_isSome_iff {alloc n : ℕ} {m : Mem} :
    (∃ m', createMapLoop c alloc m n = some m') ↔
      ∀ i < n, i * c.mapEntrySz % 2 ^ 32 + c.mapEntrySz ≤ alloc := by
  induction n with
  | zero => exact iff_of_true ⟨m, rfl⟩ fun i hi => absurd hi (Nat.not_lt_zero i)
  | succ n ih =>
    simp only [createMapLoop, Option.bind_eq_bind, Option.bind_eq_some_iff]
    constructor
    · rintro ⟨m', m₁, hm₁, h⟩ i hi
      split_ifs at h with hfit
      rcases Nat.lt_succ_iff_lt_or_eq.1 hi with hlt | rfl
      · exact ih.1 ⟨m₁, hm₁⟩ i hlt
      · exact hfit
    · intro hall
      obtain ⟨m₁, hm₁⟩ := ih.2 fun i hi => hall i (by omega)
      exact ⟨_, m₁, hm₁, if_pos (hall n (Nat.lt_succ_self n))⟩

end Fill

/-! ### The search ends -/

section Stops

variable {k : Kernel} {rounds n b : ℕ} {ctx c : AfsPrivate} {sb : Mem} {s : SbSearch}

theorem pageRound_le {size : ℕ} (h : size ≤ 2 ^ 32) : pageRound size ≤ 2 ^ 32 := by
  unfold pageRound
  omega

/-- With the configuration of a mount, the entries of the map fit in its buffer exactly when there
are fewer than `2 ^ 26`, or the last page of the buffer ends at `2 ^ 32`. -/
theorem createMapLoop_configured (hcfg : c.config = (configured ctx).config) (m : Mem) :
    (∃ m', createMapLoop c.config
      (pageRound (ctx.config.instanceSize / 4096 % 2 ^ 32 * 64 % 2 ^ 32)) m
      (ctx.config.instanceSize / 4096 % 2 ^ 32) = some m') ↔
    ctx.config.instanceSize / 4096 % 2 ^ 32 < 2 ^ 26 ∨
      pageRound (ctx.config.instanceSize / 4096 % 2 ^ 32 * 64 % 2 ^ 32) = 2 ^ 32 := by
  have hsz : c.config.mapEntrySz = 64 := by rw [hcfg, (configured_sizes ctx).1]
  rw [createMapLoop_isSome_iff, hsz]
  generalize ctx.config.instanceSize / 4096 % 2 ^ 32 = N
  constructor
  · intro hall
    by_contra hlong
    obtain ⟨h26, hpage⟩ := not_or.1 hlong
    have hlast := hall (2 ^ 26 - 1) (by omega)
    have hle := pageRound_le (Nat.mod_lt (N * 64) (show 0 < 2 ^ 32 by norm_num)).le
    omega
  · rintro (h26 | hpage) i hi
    · have hround := le_pageRound (N * 64 % 2 ^ 32)
      omega
    · omega

/-- `find_super_block` from `afs_create_map` on. -/
def loadMap (k : Kernel) (sb : Mem) (c : AfsPrivate) : Option (ℤ × AfsPrivate) := do
  let (ret, ctx) ← afsCreateMap k c
  if ret ≠ 0 then some (ret, ctx)
  else
    let (ret, ctx) ← afsFillMap k sb ctx
    if ret ≠ 0 then some (ret, ctx)
    else
      let ctx := rebuildAllocationVector ctx ctx.config.numBlocks
      if k.kmalloc (ctx.config.numPtrBlocks * 4096) then
        let ctx := rebuildPtrBlocks { ctx with afsPtrBlocks := k.uninit } ctx.config.numPtrBlocks
        some (0, ctx)
      else some (-12, ctx)

theorem loadMap_of_fill {m : Mem} (hmap : afsCreateMap k c = some (0, { c with afsMap := m }))
    (hfill : ∃ ret ctx', afsFillMap k sb { c with afsMap := m } = some (ret, ctx') ∧ ret ≤ 0) :
    ∃ ret ctx', loadMap k sb c = some (ret, ctx') ∧ ret ≤ 0 := by
  obtain ⟨ret, ctx', hfill, hret⟩ := hfill
  simp only [loadMap, hmap, hfill, Option.bind_eq_bind, Option.bind_some, ne_eq, not_true_eq_false,
    if_false]
  split_ifs
  · exact ⟨_, _, rfl, le_refl _⟩
  · exact ⟨_, _, rfl, by norm_num⟩
  · exact ⟨ret, ctx', rfl, hret⟩

/-- With the configuration of a mount, the map is loaded, or an error returned, exactly when the map
stays in bounds. -/
theorem loadMap_iff (hcfg : c.config = (configured ctx).config) :
    (∃ ret ctx', loadMap k sb c = some (ret, ctx') ∧ ret ≤ 0) ↔
      MapInBounds k ctx.config.instanceSize := by
  have hN : c.config.numBlocks = ctx.config.instanceSize / 4096 % 2 ^ 32 := by
    rw [hcfg]
    rfl
  have hsz : c.config.mapEntrySz = 64 := by rw [hcfg, (configured_sizes ctx).1]
  have hp : c.config.numMapEntriesPerBlock = 63 := by rw [hcfg, (configured_sizes ctx).2.1]
  have hok : c.config.Ok := hcfg ▸ configured_ok ctx
  have hloop := createMapLoop_configured hcfg k.uninit
  have hcreate : afsCreateMap k c = if k.vmalloc
      (ctx.config.instanceSize / 4096 % 2 ^ 32 * 64 % 2 ^ 32) then (createMapLoop c.config
        (pageRound (ctx.config.instanceSize / 4096 % 2 ^ 32 * 64 % 2 ^ 32)) k.uninit
        (ctx.config.instanceSize / 4096 % 2 ^ 32)).bind fun m => some (0, { c with afsMap := m })
      else some (-12, c) := by
    rw [afsCreateMap, hsz, hN]
    rfl
  rw [MapInBounds]
  by_cases hv : k.vmalloc (ctx.config.instanceSize / 4096 % 2 ^ 32 * 64 % 2 ^ 32) = true
  · rw [if_pos hv] at hcreate
    rw [iff_true_intro hv, true_imp_iff]
    constructor
    · rintro ⟨ret, ctx', hload, -⟩
      rw [loadMap, hcreate] at hload
      cases hm : createMapLoop c.config
          (pageRound (ctx.config.instanceSize / 4096 % 2 ^ 32 * 64 % 2 ^ 32)) k.uninit
          (ctx.config.instanceSize / 4096 % 2 ^ 32) with
      | none =>
        rw [hm] at hload
        cases hload
      | some m =>
        rcases Nat.lt_or_ge (ctx.config.instanceSize / 4096 % 2 ^ 32) (2 ^ 26) with h26 | h26
        · exact .inl h26
        · -- `afs_fill_map` would not get through the map
          refine .inr ⟨(hloop.1 ⟨m, hm⟩).resolve_left (by omega), ?_⟩
          by_contra hk
          have hptr : 0 < c.config.numPtrBlocks := by
            rw [hok.ptrBlocks, hok.mapBlocks, hp, hN]
            omega
          have hlong : Overlong c.config := ⟨hok.blocks, hsz, hp, by omega⟩
          have hfill : afsFillMap k sb { c with afsMap := m } = none :=
            Overlong.afsFillMap hlong hptr (by simpa using hk)
          rw [hm, Option.bind_some] at hload
          simp only [Option.bind_eq_bind, Option.bind_some, ne_eq, not_true_eq_false, if_false,
            hfill, Option.bind_none, reduceCtorEq] at hload
    · intro hin
      obtain ⟨m, hm⟩ := hloop.2 (hin.imp_right And.left)
      rw [hm, Option.bind_some] at hcreate
      refine loadMap_of_fill hcreate ?_
      rcases hin with h26 | ⟨-, hk⟩
      · refine afsFillMap_total ⟨hok, ?_⟩
        show c.config.numBlocks * c.config.mapEntrySz < 2 ^ 32
        rw [hN, hsz]
        omega
      · rw [afsFillMap, hk]
        exact ⟨_, _, rfl, by norm_num⟩
  · rw [if_neg hv] at hcreate
    refine iff_of_true ?_ fun h => absurd h hv
    rw [loadMap, hcreate]
    exact ⟨_, _, rfl, by norm_num⟩

theorem findSuperBlock_eq (hs : searchSuperBlock k rounds ctx = some s) :
    findSuperBlock k rounds ctx =
      if ¬ s.valid then some (-2, mark { ctx with superBlock := s.sb } s.sbBlock)
      else if ctx.config.instanceSize ≠ le s.sb 52 8 then
        some (-22, mark { ctx with superBlock := s.sb } s.sbBlock)
      else loadMap k s.sb { mark { ctx with superBlock := s.sb } s.sbBlock with
        config := buildConfiguration ctx.config 4 1 } := by
  rw [findSuperBlock, hs]
  rfl

theorem findSuperBlock_iff (hs : searchSuperBlock k rounds ctx = some s) :
    (∃ ret ctx', findSuperBlock k rounds ctx = some (ret, ctx') ∧ ret ≤ 0) ↔
      (s.valid = true → ctx.config.instanceSize = le s.sb 52 8 →
        MapInBounds k ctx.config.instanceSize) := by
  rw [findSuperBlock_eq hs]
  by_cases hv : s.valid = true
  · rw [if_neg (not_not.2 hv)]
    by_cases hsize : ctx.config.instanceSize = le s.sb 52 8
    · rw [if_neg (not_not.2 hsize)]
      have hload : ∀ c : AfsPrivate, c.config = (configured ctx).config →
          ((∃ ret ctx', loadMap k s.sb c = some (ret, ctx') ∧ ret ≤ 0) ↔ _) :=
        fun c => loadMap_iff
      rw [hload]
      · exact ⟨fun h _ _ => h, fun h => h hv hsize⟩
      · rfl
    · rw [if_pos hsize]
      exact iff_of_true ⟨_, _, rfl, by norm_num⟩ fun _ h => absurd h hsize
  · rw [if_pos hv]
    exact iff_of_true ⟨_, _, rfl, by norm_num⟩ fun h => absurd h hv

/-- **When the search for the super block stops**: `find_super_block` stops after at most 32 tries
and returns 0 or an error exactly when the device has blocks (in a `uint32_t`), the hash chain meets
the free list within 31 rehashes, or with the 32nd and over a valid super block, the entry at that
position of `block_list` exists, and the map stays in bounds where it is loaded. -/
theorem searchStops_iff : SearchStops k ctx ↔
    blockDeviceSize ctx.config ≠ 0 ∧ ∃ n b,
      FirstPasses k ctx.passiveFs ctx.passphrase (blockDeviceSize ctx.config) n ∧
      ctx.passiveFs.blockList[chainValue k ctx.passphrase (blockDeviceSize ctx.config) n]? =
        some b ∧
      (n < 32 ∨ (n = 32 ∧ blockValid k ctx.disk b ctx.passiveFs.dataStartOff = true)) ∧
      (blockValid k ctx.disk b ctx.passiveFs.dataStartOff = true →
        ctx.config.instanceSize = le ctx.disk
          (512 * pageSector b ctx.passiveFs.dataStartOff + 52) 8 →
        MapInBounds k ctx.config.instanceSize) := by
  have hreturn : ∀ {rounds n b}, blockDeviceSize ctx.config ≠ 0 → n < rounds →
      FirstPasses k ctx.passiveFs ctx.passphrase (blockDeviceSize ctx.config) n →
      ctx.passiveFs.blockList[chainValue k ctx.passphrase (blockDeviceSize ctx.config) n]? =
        some b →
      ((∃ ret ctx', findSuperBlock k rounds ctx = some (ret, ctx') ∧ ret ≤ 0) ↔
        (blockValid k ctx.disk b ctx.passiveFs.dataStartOff = true →
          ctx.config.instanceSize = le ctx.disk
            (512 * pageSector b ctx.passiveFs.dataStartOff + 52) 8 →
          MapInBounds k ctx.config.instanceSize)) := by
    intro rounds n b h0 hr hn hb
    obtain ⟨s, hs, -, hv, -, -, hagree⟩ := searchSuperBlock_eq h0 hn hb hr
    rw [findSuperBlock_iff hs, hv]
    refine forall_congr' fun hvalid => ?_
    have hpage := (hagree (hv.trans hvalid)).sub (j := 52) (k := 8) (by norm_num)
    rw [Nat.zero_add] at hpage
    rw [le_congr hpage]
  constructor
  · rintro ⟨r₀, hall⟩
    obtain ⟨-, ret, ctx', hfind, -⟩ := hall r₀ (le_refl r₀)
    have hsearch : ∃ s, searchSuperBlock k r₀ ctx = some s := by
      simp only [findSuperBlock, Option.bind_eq_bind, Option.bind_eq_some_iff] at hfind
      exact ⟨_, hfind.choose_spec.1⟩
    obtain ⟨h0, n, b, hlt, hn, hb⟩ := searchSuperBlock_spec hsearch.choose_spec
    obtain ⟨htries, hret⟩ := hall r₀ (le_refl r₀)
    exact ⟨h0, n, b, hn, hb, (searchTries_le_iff hn hb hlt).1 htries, (hreturn h0 hlt hn hb).1 hret⟩
  · rintro ⟨h0, n, b, hn, hb, htries, hret⟩
    exact ⟨n + 1, fun rounds hlt => ⟨(searchTries_le_iff hn hb hlt).2 htries,
      (hreturn h0 hlt hn hb).2 hret⟩⟩

end Stops

/-- With the empty free list, which `afs_ctr` keeps where it recognised no file system, the search
does not stop. -/
theorem emptyList_not_searchStops :
    ¬∀ (k : Kernel) (ctx : AfsPrivate), 8 ≤ ctx.config.bdevSize →
      ctx.passiveFs.freeList.Pairwise (· < ·) → SearchStops k ctx := by
  intro hall
  obtain ⟨r₀, hstops⟩ := hall (constKernel 1) (smallContext []) (by decide) (by decide)
  obtain ⟨-, ret, ctx', hfind, -⟩ := hstops r₀ (le_refl r₀)
  simp only [findSuperBlock, Option.bind_eq_bind, Option.bind_eq_some_iff] at hfind
  obtain ⟨s, hs, -⟩ := hfind
  obtain ⟨-, n, -, -, hn, -⟩ := searchSuperBlock_spec hs
  have hpass := hn.1
  rw [ChainPasses, chainValue_constKernel] at hpass
  exact absurd hpass (by decide)

end Artifice
