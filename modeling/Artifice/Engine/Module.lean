import Artifice.Codec.Package
import Artifice.Engine.Session
import Artifice.Engine.Target

/-!
The kernel module: the variables of the codec, which all targets share, with `afs_init`, the
constructors, and the targets that they make.

`gf_init` fills the tables of the codec, and with them every package is a code word. But nothing in
the module calls it. So the tables are zero in every call of `encode_aont_package`; the last share
of each package is zero, and no part of the data can be got back from it.
-/

namespace Artifice

open Lib ByteField

/-! ### Packages -/

/-- A call of `encode_aont_package`: the key that it draws, the context, and the request to
encode. -/
structure AontCall where
  entropy : Entropy
  ctx : AfsPrivate
  req : AfsMapRequest

/-- The shares that the call leaves in the carriers. -/
def AontCall.shares (k : Kernel) (g : GfCtx) (c : AontCall) : ℕ → Mem :=
  (encodeAontPackage k g c.entropy.key (fun i => c.ctx.afsMap (mapEntryDifference c.ctx c.req + i))
    c.req.dataBlock 4096 c.req.carrierBlocks 2 (c.ctx.config.numCarrierBlocks - 2)
    (ivWords c.req.iv)).2.2

/-- The tables are those that `gf_init` builds. -/
def TablesBuilt (g : GfCtx) : Prop :=
  ∃ cpuHasSsse3, g = (gfInit cpuHasSsse3 gfStaticsZero).2.gfContext

/-- **A call that produces a code word**: the tables are built, the parity shares are the
combinations of the data shares, and any two of the four shares determine the data. -/
structure Codeword (k : Kernel) (g : GfCtx) (c : AontCall) : Prop where
  tables : TablesBuilt g
  parity : ∀ i < 2, ∀ q < 2064, ofByte cauchyTables (c.shares k g (2 + i) q) =
    ∑ j ∈ Finset.range 2, ofByte cauchyTables (getMatrixElement g (UInt8.ofNat (2 + i))
      (UInt8.ofNat 2) (UInt8.ofNat j)) * ofByte cauchyTables (c.shares k g j q)
  determined : TwoSharesDetermine g 2064

/-- The call of `encode_aont_package` that a step of a life makes: by `afs_write_request`, or by
`rebuild_blocks` after `afs_read_decode` has found damage. -/
def Life.aontCall (ctx : AfsPrivate) (l : Life) : Act → Option AontCall
  | .flight e =>
    if l.phase = .flightq ∧ l.req.bio.biOp = .write ∧ l.req.encodingType = .aontRs then
      some ⟨e, ctx, loadRequest ctx { l.req with state := .flight }⟩
    else none
  | .rebuildBlocks e =>
    if l.phase = .rebuildBlocks ∧ l.req.encodingType = .aontRs then
      some ⟨e, ctx, renumberRequest ctx l.req⟩
    else none
  | _ => none

/-! ### The module -/

/-- The module: the variables of the codec, whether its target is registered, and the targets that
were made. -/
structure AfsModule where
  gf : GfStatics
  registered : Bool
  targets : List Target

/-- What can happen to the module. `ret` is what `dm_register_target` returns. A device can be
written by others too. -/
inductive ModuleEvent
  | init (ret : ℤ)
  | ctr (rounds : ℕ) (args : AfsArgs) (len bdevSize : ℕ) (fs : AfsPassiveFs) (disk : Mem)
      (random : List ℕ)
  | device (i : ℕ) (disk : Mem)
  | target (i : ℕ) (ev : TargetEvent)

/-- The module when it is inserted. -/
def loadedModule : AfsModule := ⟨gfStaticsZero, false, []⟩

/-- `afs_init`: the code, and the module. -/
def afsInit (ret : ℤ) (m : AfsModule) : ℤ × AfsModule :=
  if ret ≥ 0 then (ret, { m with registered := true }) else (ret, m)

/-- One step of the module. -/
def AfsModule.next (k : Kernel) (m : AfsModule) : ModuleEvent → Option AfsModule
  | .init ret => if m.registered then none else some (afsInit ret m).2
  | .ctr rounds args len bdevSize fs disk random =>
    if ¬ m.registered then none
    else do
      match ← afsCtr k rounds args len bdevSize fs disk random with
      | .ok ctx => some { m with targets := m.targets ++ [newTarget ctx] }
      | .error _ => some m
  | .device i disk => do
    let t ← m.targets[i]?
    some { m with targets := m.targets.set i { t with ctx := { t.ctx with disk } } }
  | .target i ev => do
    let t ← m.targets[i]?
    let t ← t.next k m.gf.gfContext ev
    some { m with targets := m.targets.set i t }

/-- A run of the module: the steps, each with the state that it finds. -/
inductive ModuleRun (k : Kernel) : List (AfsModule × ModuleEvent) → AfsModule → Prop
  | start : ModuleRun k [] loadedModule
  | next {run m ev m'} (before : ModuleRun k run m) (step : m.next k ev = some m') :
      ModuleRun k (run ++ [(m, ev)]) m'

/-- The call of `encode_aont_package` that a step of the module makes. -/
def AfsModule.aontCall (m : AfsModule) : ModuleEvent → Option AontCall
  | .target i (.step j a) => do
    let t ← m.targets[i]?
    let (_, l) ← t.lives[j]?
    l.aontCall t.ctx a
  | _ => none

/-- **Only code words**: every call of `encode_aont_package` in the run produces one. -/
def Codewords (k : Kernel) (run : List (AfsModule × ModuleEvent)) : Prop :=
  ∀ s ∈ run, ∀ c, s.1.aontCall s.2 = some c → Codeword k s.1.gf.gfContext c

section

variable {k : Kernel} {g : GfCtx} {e : Entropy} {ctx ctx' : AfsPrivate} {l l' : Life} {a : Act}
  {c : AontCall} {m m' : AfsModule} {ev : ModuleEvent} {run : List (AfsModule × ModuleEvent)}

/-! ### Built tables -/

theorem TablesBuilt.valid (h : TablesBuilt g) : g.Valid cauchyTables := by
  obtain ⟨cpuHasSsse3, rfl⟩ := h
  exact gfInit_valid cpuHasSsse3

/-- **With the tables of `gf_init` every call produces a code word.** -/
theorem TablesBuilt.codeword (h : TablesBuilt g) (hk : k.kmalloc 4128 = true)
    (hn : c.ctx.config.numCarrierBlocks = 4) : Codeword k g c := by
  refine ⟨h, fun i hi q hq => ?_, h.valid.twoSharesDetermine 2064⟩
  have hshares : c.shares k g = (cauchyRsEncode g ⟨2, 2, (2064 : ℕ)⟩ (splitPayload c.req.carrierBlocks
      (sealPayload k c.entropy.key (fun i => c.ctx.afsMap (mapEntryDifference c.ctx c.req + i))
        c.req.dataBlock 4096 (ivWords c.req.iv)) 2064 2) (fun i => i) (fun i => 2 + i)).2 := by
    rw [AontCall.shares, encodeAontPackage_shares hk, hn]
    norm_num
  rw [hshares, ofByte_parity_two h.valid hi hq]
  refine Finset.sum_congr rfl fun j hj => ?_
  rw [cauchyRsEncode_out fun b _ => by have := Finset.mem_range.1 hj; omega]

/-! ### Zero tables -/

theorem parity_zero {bytes q : ℕ} (hq : q < bytes) (pages : ℕ → Mem) :
    (cauchyRsEncode gfContextZero ⟨2, 2, bytes⟩ pages (fun i => i) (fun i => 2 + i)).2 3 q = 0 := by
  have hcoeff : ∀ xi x0 yj, getMatrixElement gfContextZero xi x0 yj = 0 := fun _ _ _ => rfl
  have hpos : ¬ ((2 : ℤ) ≤ 0 ∨ (2 : ℤ) ≤ 0 ∨ (bytes : ℤ) ≤ 0) := by omega
  rw [cauchyRsEncode, if_neg hpos, if_neg (by norm_num)]
  have hblock : ∀ originals block, cauchyRsEncodeBlock gfContextZero ⟨2, 2, bytes⟩ originals
      ((2 : ℤ) + (1 : ℕ)) block q = 0 := by
    intro originals block
    rw [cauchyRsEncodeBlock, if_neg (by norm_num), if_neg (by norm_num)]
    simp only [hcoeff, gfMuladdMem, gfMulMem, if_true, List.foldl_fixed]
    exact fill_in (Nat.zero_le q) (by omega)
  rw [show (⟨2, 2, bytes⟩ : CauchyEncoderParams).recoveryCount.toNat = 1 + 1 from rfl,
    cauchyRsEncodeLoop]
  simp only [Function.update_apply, if_true]
  exact hblock _ _

/-- **With zero tables the first and the last share do not determine the data.** -/
theorem not_twoSharesDetermine_zero {bytes : ℕ} (hpos : 0 < bytes) :
    ¬ TwoSharesDetermine gfContextZero bytes := by
  intro h
  have hagree := h (fun _ _ => 0) (fun j _ => if j = 1 then 1 else 0) 0 3 (by norm_num)
    (by norm_num) ?_ 1 (by norm_num) 0 hpos
  · exact absurd hagree (by decide)
  · rintro s (rfl | rfl) q hq
    · rw [cauchyRsEncode_out fun b _ => by omega, cauchyRsEncode_out fun b _ => by omega]
      rfl
    · rw [Nat.zero_add, parity_zero hq, parity_zero hq]

theorem not_tablesBuilt_zero : ¬ TablesBuilt gfContextZero := fun h =>
  not_twoSharesDetermine_zero Nat.one_pos (h.valid.twoSharesDetermine 1)

/-! ### Runs -/

theorem AfsModule.next_gf (h : m.next k ev = some m') : m'.gf = m.gf := by
  cases ev with
  | init ret =>
    rw [AfsModule.next] at h
    split_ifs at h
    obtain rfl := Option.some.inj h
    rw [afsInit]
    split_ifs <;> rfl
  | ctr rounds args len bdevSize fs disk random =>
    simp only [AfsModule.next] at h
    split_ifs at h
    simp only [Option.bind_eq_bind, Option.bind_eq_some_iff] at h
    obtain ⟨r, -, h⟩ := h
    cases r with
    | ok ctx =>
      obtain rfl := Option.some.inj h
      rfl
    | error code =>
      obtain rfl := Option.some.inj h
      rfl
  | device i disk =>
    simp only [AfsModule.next, Option.bind_eq_bind, Option.bind_eq_some_iff,
      Option.some.injEq] at h
    obtain ⟨t, -, rfl⟩ := h
    rfl
  | target i ev =>
    simp only [AfsModule.next, Option.bind_eq_bind, Option.bind_eq_some_iff,
      Option.some.injEq] at h
    obtain ⟨t, -, t', -, rfl⟩ := h
    rfl

/-- **The tables are zero in all states of a run.** -/
theorem ModuleRun.gf_zero (h : ModuleRun k run m) :
    m.gf = gfStaticsZero ∧ ∀ s ∈ run, s.1.gf = gfStaticsZero := by
  induction h with
  | start => exact ⟨rfl, by simp⟩
  | next before step ih =>
    refine ⟨(AfsModule.next_gf step).trans ih.1, ?_⟩
    simp only [List.forall_mem_append, List.forall_mem_singleton]
    exact ⟨ih.2, ih.1⟩

theorem ModuleRun.not_codewords (h : ModuleRun k run m) {s : AfsModule × ModuleEvent} (hs : s ∈ run)
    (hc : s.1.aontCall s.2 ≠ none) : ¬ Codewords k run := by
  intro hcode
  obtain ⟨c, hc⟩ := Option.ne_none_iff_exists'.1 hc
  have htables := (hcode s hs c hc).tables
  rw [h.gf_zero.2 s hs] at htables
  exact not_tablesBuilt_zero htables

/-- **No call of `encode_aont_package` produces a code word**: a run produces code words only
exactly when none of its steps makes a call; and the tables of a call leave the data undetermined
by two of its shares. With the tables of `gf_init` every one of the calls would produce a code word. -/
theorem codewords_iff (h : ModuleRun k run m) :
    (Codewords k run ↔ ∀ s ∈ run, s.1.aontCall s.2 = none) ∧
      (∀ s ∈ run, s.1.aontCall s.2 ≠ none → ¬ TablesBuilt s.1.gf.gfContext ∧
        ¬ TwoSharesDetermine s.1.gf.gfContext 2064) ∧
      ∀ s ∈ run, ∀ c, s.1.aontCall s.2 = some c → c.ctx.config.numCarrierBlocks = 4 →
        k.kmalloc 4128 = true → ∀ g, TablesBuilt g → Codeword k g c := by
  refine ⟨⟨fun hcode s hs => ?_, fun hnone s hs c hc => ?_⟩, fun s hs _ => ?_,
    fun _ _ _ _ hn hk _ hg => hg.codeword hk hn⟩
  · by_contra hc
    exact h.not_codewords hs hc hcode
  · rw [hnone s hs] at hc
    cases hc
  · rw [h.gf_zero.2 s hs]
    exact ⟨not_tablesBuilt_zero, not_twoSharesDetermine_zero (by norm_num)⟩

end

/-! ### The first write -/

theorem exists_aontCall : ∃ run m, ModuleRun (constKernel 1) run m ∧
    ∃ s ∈ run, s.1.aontCall s.2 ≠ none := by
  obtain ⟨ctx₀, hsmall⟩ := exists_smallInstance
  let bio := blockBio .write 0 UInt8.ofNat
  let l := newLife (mapRequest zeroRequest ctx₀ bio) .flightq
  let t₁ : Target := { newTarget ctx₀ with lives := [(.map, l)] }
  let m₁ : AfsModule := ⟨gfStaticsZero, true, [newTarget ctx₀]⟩
  let m₂ : AfsModule := ⟨gfStaticsZero, true, [t₁]⟩
  have hctr : AfsModule.next (constKernel 1) ⟨gfStaticsZero, true, []⟩
      (.ctr 1 smallArgs 128 256 smallFs (fun _ => 0) [2, 3, 4, 5, 6]) = some m₁ := by
    simp only [AfsModule.next, hsmall.built]
    rfl
  have hmap : m₁.next (constKernel 1) (.target 0 (.map true zeroRequest bio)) = some m₂ := by
    have h := afsMap_inBlock (inBlock_blockBio .write 0 UInt8.ofNat) (.inr rfl) zeroRequest ctx₀
    have ht : (newTarget ctx₀).next (constKernel 1) gfContextZero
        (.map true zeroRequest bio) = some t₁ := by
      unfold Target.next
      rw [if_neg (by simp [newTarget])]
      simp only [newTarget, bio, h, Option.bind_eq_bind, Option.bind_some]
      rfl
    simp only [AfsModule.next, m₁, gfStaticsZero, List.getElem?_cons_zero, Option.bind_eq_bind,
      Option.bind_some, ht]
    rfl
  have hflight : ∃ m, m₂.next (constKernel 1) (.target 0 (.step 0 (.flight zeroEntropy))) =
      some m := by
    have hk : ∀ n, (constKernel 1).kmalloc n = true := fun _ => rfl
    have hsector : bio.biSector / 8 < 2 ^ 32 := by decide
    have hblock : (flightRequest zeroRequest ctx₀ bio).block = 0 :=
      (block_flightRequest hsector).trans (by decide)
    have hcan : CanMap ctx₀ (loadRequest ctx₀ (flightRequest zeroRequest ctx₀ bio)).mapEntry := by
      rw [show (loadRequest ctx₀ (flightRequest zeroRequest ctx₀ bio)).mapEntry =
        afsGetMapEntry ctx₀.config (flightRequest zeroRequest ctx₀ bio).block from rfl, hblock]
      exact hsmall.canMap
    obtain ⟨s, hwrite⟩ := writeRequestMap_total hk hsmall.holds.instance_.carriers
      (rfl : (flightRequest zeroRequest ctx₀ bio).state = .flight) hcan gfContextZero zeroEntropy
    have hstep := Life.step_startWrite (show bio.biOp = .write from rfl) hwrite
    have ht := Target.next_step (t := t₁) (i := 0) rfl rfl hstep
    simp only [AfsModule.next, m₂, gfStaticsZero, List.getElem?_cons_zero, Option.bind_eq_bind,
      Option.bind_some, ht]
    exact ⟨_, rfl⟩
  obtain ⟨m₃, hflight⟩ := hflight
  have hrun : ModuleRun (constKernel 1) _ m₃ :=
    .next (.next (.next (.next .start (rfl : loadedModule.next _ (.init 0) = _)) hctr) hmap) hflight
  refine ⟨_, m₃, hrun, _, List.mem_append_right _ (List.mem_singleton_self _), ?_⟩
  have hcall : l.aontCall ctx₀ (.flight zeroEntropy) ≠ none := by
    rw [Life.aontCall, if_pos ⟨rfl, rfl, hsmall.encoding⟩]
    exact Option.some_ne_none _
  exact hcall

/-- The first write to the small instance is not a code word. -/
theorem firstWrite_not_codeword : ∃ run m, ModuleRun (constKernel 1) run m ∧
    ¬ Codewords (constKernel 1) run ∧
    ∃ s ∈ run, ¬ TwoSharesDetermine s.1.gf.gfContext 2064 := by
  obtain ⟨run, m, hrun, s, hs, hc⟩ := exists_aontCall
  obtain ⟨hiff, hcalls, -⟩ := codewords_iff hrun
  exact ⟨run, m, hrun, fun h => hc (hiff.1 h s hs), s, hs, (hcalls s hs hc).2⟩

/-- Not every run of the module produces code words only. -/
theorem not_all_codewords : ¬ ∀ (k : Kernel) (run : List (AfsModule × ModuleEvent)) (m : AfsModule),
    ModuleRun k run m → Codewords k run := by
  intro h
  obtain ⟨run, m, hrun, s, hs, hc⟩ := exists_aontCall
  exact hrun.not_codewords hs hc (h _ run m hrun)

end Artifice
