import Artifice.Modules.Detect
import Artifice.Modules.FreeLists
import Artifice.Engine.Footprint
import Artifice.Engine.Args

/-!
An instance and the host file system that it hides in.

The constructor takes its free list from the detection of the host. Nothing but free blocks of the
host is ever written, so that its files stay; and as long as the blocks that the detection reads are
not free themselves, the next constructor finds the same free list, and with it the instance.
-/

namespace Artifice

open Lib

/-- The passive file system of a context that is all zero. -/
def noFs : AfsPassiveFs := ⟨[], 0, 0, 0, 0, 0⟩

/-- `afs_ctr` with `detect_fs`: what it returns, and `is_64bit` of the ext4 module after it. A device
of no known file system is no error. -/
def afsCtrDetect (fuel : ℕ) (k : Kernel) (rounds : ℕ) (is64bit : Bool) (args : AfsArgs)
    (len bdevSize : ℕ) (disk : Mem) (random : List ℕ) : Option (Except ℤ AfsPrivate × Bool) :=
  if len * 512 % 2 ^ 64 < 2 ^ 16 then some (.error (-22), is64bit)
  else if ¬ k.kmalloc 12288 then some (.error (-12), is64bit)
  else do
    let (type, fs, is64bit) ← detectFs fuel k is64bit disk noFs
    if type = .shadow then some (.error (-6), is64bit)
    else do
      let r ← afsCtr k rounds args len bdevSize fs disk random
      some (r, is64bit)

/-- `afs_ctr` with `parse_afs_args` and `detect_fs`. -/
def afsCtrArgv (fuel : ℕ) (k : Kernel) (rounds : ℕ) (is64bit : Bool) (argv : List CString)
    (len bdevSize : ℕ) (disk : Mem) (random : List ℕ) : Option (Except ℤ AfsPrivate × Bool) :=
  if len * 512 % 2 ^ 64 < 2 ^ 16 then some (.error (-22), is64bit)
  else if ¬ k.kmalloc 12288 then some (.error (-12), is64bit)
  else
    match parseAfsArgs argv with
    | .error _ => some (.error (-22), is64bit)
    | .ok args => afsCtrDetect fuel k rounds is64bit args.afsArgs len bdevSize disk random

/-- The blocks that `detect_fs` reads on a device are not in the free list that it finds. -/
def HostApart (fuel : ℕ) (k : Kernel) (is64bit : Bool) (disk : Mem) (type : FsType)
    (fs : AfsPassiveFs) : Prop :=
  ∀ i, DetectReads fuel k is64bit disk type i → ¬ InFreeList fs i

/-- Nothing of a FAT32 volume of 8 sectors a cluster has changed: what is before the data, and the
clusters that are in use. -/
structure Fat32Intact (vol : FatVolume) (disk disk' : Mem) : Prop where
  tables : ∀ i < 512 * fatDataStart vol, disk' i = disk i
  clusters : ∀ n ≥ 2, fatEntry vol disk n ≠ 0 →
    Agree disk' (512 * (fatDataStart vol + 8 * (n - 2))) disk
      (512 * (fatDataStart vol + 8 * (n - 2))) 4096

section

variable {k : Kernel} {args : AfsArgs} {fuel rounds len bdevSize : ℕ} {is64bit flag : Bool}
  {disk disk' data : Mem} {random : List ℕ} {fs : AfsPassiveFs} {type : FsType} {ctx : AfsPrivate}
  {vol : FatVolume}

/-! ### The constructor -/

theorem afsCtrDetect_iff (hdetect : detectFs fuel k is64bit disk noFs = some (type, fs, flag)) :
    afsCtrDetect fuel k rounds is64bit args len bdevSize disk random = some (.ok ctx, flag) ↔
      afsCtr k rounds args len bdevSize fs disk random = some (.ok ctx) := by
  have hshadow : type ≠ .shadow := by
    rcases detectFs_cases hdetect with ⟨-, rfl, -⟩ | ⟨-, ⟨rfl, -⟩ | ⟨-, ⟨rfl, -⟩ | ⟨-, -,
      ⟨rfl, -⟩ | ⟨rfl, -⟩⟩⟩⟩ <;> simp
  unfold afsCtrDetect
  by_cases h1 : len * 512 % 2 ^ 64 < 2 ^ 16
  · have herr : afsCtr k rounds args len bdevSize fs disk random = some (.error (-22)) := if_pos h1
    rw [if_pos h1, herr]
    simp
  by_cases h2 : k.kmalloc 12288 = true
  · rw [if_neg h1, if_neg (not_not.2 h2), hdetect, Option.bind_eq_bind, Option.bind_some]
    simp only [if_neg hshadow, Option.bind_eq_bind, Option.bind_eq_some_iff, Option.some.injEq,
      Prod.mk.injEq, and_true]
    constructor
    · rintro ⟨r, h, rfl⟩
      exact h
    · intro h
      exact ⟨_, h, rfl⟩
  · have herr : afsCtr k rounds args len bdevSize fs disk random = some (.error (-12)) :=
      (if_neg h1).trans (if_pos h2)
    rw [if_neg h1, if_pos h2, herr]
    simp

theorem afsCtrArgv_iff {argv : List CString} {args : ParsedArgs}
    (hparse : parseAfsArgs argv = .ok args) :
    afsCtrArgv fuel k rounds is64bit argv len bdevSize disk random = some (.ok ctx, flag) ↔
      afsCtrDetect fuel k rounds is64bit args.afsArgs len bdevSize disk random =
        some (.ok ctx, flag) := by
  unfold afsCtrArgv
  by_cases h1 : len * 512 % 2 ^ 64 < 2 ^ 16
  · rw [if_pos h1, afsCtrDetect, if_pos h1]
  by_cases h2 : k.kmalloc 12288 = true
  · rw [if_neg h1, if_neg (not_not.2 h2), hparse]
  · rw [if_neg h1, if_pos h2, afsCtrDetect, if_neg h1, if_pos h2]

theorem HostApart.detectFs_eq (h : HostApart fuel k flag disk type fs)
    (hdetect : detectFs fuel k is64bit disk noFs = some (type, fs, flag))
    (hfree : OnlyFree fs disk disk') : detectFs fuel k flag disk' noFs = some (type, fs, flag) :=
  detectFs_stable hdetect fun i hi => hfree i (h i hi)

theorem regular_dtr {t : Target} {n : ℕ} (hquiet : ∀ i l, ¬ t.Open i l) : Regular n (t, .dtr) := by
  intro o l hmem
  obtain ⟨i, hi⟩ := List.getElem?_of_mem hmem
  by_contra hq
  exact hquiet i l ⟨o, hi, hq⟩

/-! ### FAT32 -/

/-- Every listed entry stands for a cluster that is free, so that the volume stays. -/
theorem fat32Intact_of_onlyFree (hfree : ∀ e ∈ fs.freeList, FreeCluster vol disk fs e)
    (h : OnlyFree fs disk disk') : Fat32Intact vol disk disk' := by
  refine ⟨fun i hi => h i ?_, fun n hn hused i hi => h _ ?_⟩
  · rintro ⟨e, he, hge, -⟩
    rw [(hfree e he).start] at hge
    omega
  · rintro ⟨e, he, hge, hlt⟩
    have hcluster := hfree e he
    rw [hcluster.start] at hge hlt
    obtain rfl : n = e + 2 := by omega
    exact hused hcluster.free

theorem readFatBootSector_tables (h : readFatBootSector data = some vol) : 0 < vol.tables := by
  simp only [readFatBootSector, Option.bind_eq_bind, Option.bind_eq_some_iff] at h
  obtain ⟨v₁, h1, v₂, h2, h⟩ := h
  have hdos : 0 < v₁.tables := by
    unfold fatReadDos20Bpb at h1
    simp only at h1
    split_ifs at h1 with _ _ htables
    rw [← Option.some.inj h1]
    show 0 < le data 16 1
    omega
  have hkeep : v₂.tables = v₁.tables := by
    unfold fatReadFat32Ebpb fatReadDos331Bpb at h2
    simp only at h2
    split_ifs at h2 <;> rw [← Option.some.inj h2]
  rw [← Option.some.inj h]
  exact hkeep ▸ hdos

theorem hostApart_fat32 (hboot : readFatBootSector (firstPage k disk) = some vol)
    (h512 : vol.bytesSector = 512) (hentries : 4 * vol.numDataClusters ≤ 512 * vol.secFat)
    (hfree : ∀ e ∈ fs.freeList, FreeCluster vol disk fs e) :
    HostApart fuel k flag disk .fat32 fs := by
  rintro i ⟨vol', hboot', hreads⟩ ⟨e, he, hge, -⟩
  obtain rfl : vol = vol' := Option.some.inj (hboot.symm.trans hboot')
  have hcluster := hfree e he
  have hin := hcluster.inTable
  have htables := readFatBootSector_tables hboot
  have horder : vol.sectorOrder = 9 := by
    rw [(readFatBootSector_spec hboot).1.sector, h512]
    rfl
  have hle : vol.secFat ≤ vol.tables * vol.secFat := Nat.le_mul_of_pos_left _ htables
  rw [hcluster.start, fatDataStart] at hge
  rcases hreads with hlt | ⟨-, hlt⟩
  · omega
  · have haligned : fatAlignedOffset vol ≤ vol.reserved * 2 ^ 9 := by
      rw [fatAlignedOffset, horder]
      exact Nat.div_mul_le_self _ _
    omega

theorem fat32_addressed (hdetect : detectFs fuel k is64bit disk noFs = some (.fat32, fs, flag))
    (hboot : readFatBootSector (firstPage k disk) = some vol)
    (hclusters : vol.numDataClusters ≤ 2 ^ 20)
    (hfree : ∀ e ∈ fs.freeList, FreeCluster vol disk fs e) :
    fs.freeList.Pairwise (· < ·) ∧ Addressed fs := by
  obtain ⟨-, h, -⟩ | ⟨-, ⟨-, hfat, -⟩ | ⟨-, ⟨h, -⟩ | ⟨-, -, ⟨h, -⟩ | ⟨h, -⟩⟩⟩⟩ :=
    detectFs_cases hdetect
  · cases h
  · obtain ⟨-, hlist⟩ := afsFat32Detect_spec hboot (fatAlignedOffset_lt hboot) hfat
    refine ⟨afsFat32Detect_sorted hfat, fun b hb => ?_, fun b hb => ?_⟩
    · rw [hlist, List.mem_filter, List.mem_range] at hb
      omega
    · have hcluster := hfree b hb
      refine (carrierSector_eq_iff b fs.dataStartOff).1 ?_
      rw [hcluster.sector, hcluster.start, Nat.add_comm]
  · cases h
  · cases h
  · cases h

end

/-- **The host file system is not touched.** After a successful `TYPE_CREATE` over the free list that
was detected, if that is increasing and below block `2 ^ 20`, has sector numbers of 32 bits, and is long
enough for the eight numbers that the passphrase gives the replicas, and whatever happens then on the
blocks of the instance, in any order of the steps: bios that collide, carriers that fail, reads that
find a mismatch and move their block, requests that find no block, and the destructor. A byte of the
device that is in no block of the free list is what it was before the constructor; and if the
detection has read no such block, it finds the same as before. No request is freed here while bios of
it are under way. -/
theorem host_untouched {k : Kernel} {g : GfCtx} {fuel rounds : ℕ} {is64bit flag : Bool}
    {args : AfsArgs} {len bdevSize : ℕ} {type : FsType} {fs : AfsPassiveFs} {disk : Mem}
    {random : List ℕ} {ctx₀ : AfsPrivate} {t : Target} {run : List (Target × TargetEvent)}
    (htype : args.instanceType = .create)
    (hdetect : detectFs fuel k is64bit disk noFs = some (type, fs, flag))
    (hinc : fs.freeList.Pairwise (· < ·)) (hsmall : ∀ b ∈ fs.freeList, b < 2 ^ 20)
    (hsec : ∀ b ∈ fs.freeList, 8 * b + fs.dataStartOff < 2 ^ 32)
    (hlisted : ReplicasListed k fs args.passphrase bdevSize)
    (hctr : afsCtrDetect fuel k rounds is64bit args len bdevSize disk random =
      some (.ok ctx₀, flag))
    (h : TargetRun k g (newTarget ctx₀) run t)
    (hev : ∀ m ∈ run, Regular ctx₀.config.numBlocks m) :
    (∀ i, ¬ InFreeList fs i → t.ctx.disk i = disk i) ∧
      (HostApart fuel k flag disk type fs →
        detectFs fuel k flag t.ctx.disk noFs = some (type, fs, flag)) := by
  have hfree := h.onlyFree htype hinc ⟨hsmall, hsec⟩ hlisted ((afsCtrDetect_iff hdetect).1 hctr) hev
  exact ⟨hfree, fun hapart => hapart.detectFs_eq hdetect hfree⟩

/-- **The files of a FAT32 volume stay.** On a volume of 8 sectors of 512 bytes a cluster and at most
`2 ^ 20` clusters, with an entry in the FAT for each of them, where every listed entry stands for a
free cluster and the list is long enough for the numbers of the replicas: whatever happens after a
successful `TYPE_CREATE`, as long as no request is freed under its bios, everything before the data and
every cluster in use is what it was before the constructor, and the volume is detected with the same
free list. -/
theorem fat32_untouched {k : Kernel} {g : GfCtx} {fuel rounds : ℕ} {is64bit flag : Bool}
    {args : AfsArgs} {len bdevSize : ℕ} {vol : FatVolume} {fs : AfsPassiveFs} {disk : Mem}
    {random : List ℕ} {ctx₀ : AfsPrivate} {t : Target} {run : List (Target × TargetEvent)}
    (htype : args.instanceType = .create)
    (hdetect : detectFs fuel k is64bit disk noFs = some (.fat32, fs, flag))
    (hboot : readFatBootSector (firstPage k disk) = some vol) (h512 : vol.bytesSector = 512)
    (hclusters : vol.numDataClusters ≤ 2 ^ 20)
    (hentries : 4 * vol.numDataClusters ≤ 512 * vol.secFat)
    (hfree : ∀ e ∈ fs.freeList, FreeCluster vol disk fs e)
    (hlisted : ReplicasListed k fs args.passphrase bdevSize)
    (hctr : afsCtrDetect fuel k rounds is64bit args len bdevSize disk random =
      some (.ok ctx₀, flag))
    (h : TargetRun k g (newTarget ctx₀) run t)
    (hev : ∀ m ∈ run, Regular ctx₀.config.numBlocks m) :
    Fat32Intact vol disk t.ctx.disk ∧
      detectFs fuel k flag t.ctx.disk noFs = some (.fat32, fs, flag) := by
  obtain ⟨hinc, ha⟩ := fat32_addressed hdetect hboot hclusters hfree
  have honly := h.onlyFree htype hinc ha hlisted ((afsCtrDetect_iff hdetect).1 hctr) hev
  exact ⟨fat32Intact_of_onlyFree hfree honly,
    (hostApart_fat32 hboot h512 hentries hfree).detectFs_eq hdetect honly⟩

/-- **An instance survives on its host.** After a successful `TYPE_CREATE` over the free list that was
detected, increasing, below block `2 ^ 20`, with all replicas and without the blocks that the detection
reads, and any interleaving of reads and whole-block writes on different blocks that has come to its
end: the destructor succeeds, and the constructor on the strings of a `TYPE_MOUNT` with the same
passphrase and device then detects the same free list and succeeds as well, whatever its other
arguments and its random numbers are. In every run of reads of the first 976 map blocks' data blocks and
of requests of `afs_rebuild`, in any order, each read that ends returns what was last written to its
block before the unmount, or zeros; nothing on the device changes; every read under way can be brought
to its end by steps of its own; and no request of `afs_rebuild` ends. -/
theorem cycle_restores {k : Kernel} {g : GfCtx} {fuel rounds rounds' : ℕ} {is64bit flag : Bool}
    {argv mountArgv : List CString} {args mountArgs : ParsedArgs} {len bdevSize : ℕ} {type : FsType}
    {fs : AfsPassiveFs} {disk : Mem} {random random' : List ℕ} {ctx₀ : AfsPrivate} {t : Target}
    {done : List Done} (hk : k.HasMemory) (hparse : parseAfsArgs argv = .ok args)
    (htype : args.instanceType = 0) (hmount : parseAfsArgs mountArgv = .ok mountArgs)
    (hmtype : mountArgs.instanceType = 1) (hpass : mountArgs.passphrase = args.passphrase)
    (hdetect : detectFs fuel k is64bit disk noFs = some (type, fs, flag))
    (hapart : HostApart fuel k flag disk type fs)
    (hinc : fs.freeList.Pairwise (· < ·)) (hsmall : ∀ b ∈ fs.freeList, b < 2 ^ 20)
    (hsec : ∀ b ∈ fs.freeList, 8 * b + fs.dataStartOff < 2 ^ 32)
    (hlisted : ReplicasListed k fs args.passphrase bdevSize)
    (hctr : afsCtrArgv fuel k rounds is64bit argv len bdevSize disk random =
      some (.ok ctx₀, flag))
    (h : Interleaved k g ctx₀ done t) (hquiet : ∀ i l, ¬ t.Open i l) (hr : rounds ≤ rounds') :
    ∃ t' ctx₁, t.next k g .dtr = some t' ∧
      afsCtrArgv fuel k rounds' flag mountArgv len bdevSize t'.ctx.disk random' =
        some (.ok ctx₁, flag) ∧
      ctx₁.config = ctx₀.config ∧
      ∀ n ≤ ctx₁.config.numBlocks, n ≤ 976 * 63 → ∀ done' t₁, ReadOnlyRun k g n ctx₁ done' t₁ →
        t₁.ctx.disk = t'.ctx.disk ∧ (∀ r ∈ done', Answered (lastWrite done) r) ∧
        (∀ (i : ℕ) (l : Life), t₁.lives[i]? = some (Origin.map, l) → ¬ l.Quiet →
          ∃ t₂ l', ReadOnlyRun k g n ctx₁ (done' ++ [⟨l.req.bio, l'⟩]) t₂ ∧ l'.Quiet) ∧
        ∀ (i : ℕ) (l : Life), t₁.lives[i]? = some (Origin.rebuild, l) → ¬ l.Quiet := by
  have hcreate : args.afsArgs.instanceType = .create := by simp only [ParsedArgs.afsArgs, htype]
  have hmount' : mountArgs.afsArgs.instanceType = .mount := by simp only [ParsedArgs.afsArgs, hmtype]
  have hctr' := (afsCtrDetect_iff hdetect).1 ((afsCtrArgv_iff hparse).1 hctr)
  obtain ⟨t', ctx₁, hnext, hctr₁, hrest⟩ := @remount_restores _ _ _ rounds' _ _ _ _ _ _ _
    random' _ _ _ hk hcreate hmount' hpass hinc hsec hsmall hlisted hctr' h hquiet hr
  refine ⟨t', ctx₁, hnext, ?_, hrest⟩
  -- the device is detected as before
  obtain ⟨hinst, hunmapped⟩ := unmapped_of_create hcreate hinc hsec hctr'
  have hlayout := layout_of_create hcreate ⟨hinc.imp fun h => h.ne, hsmall⟩ hlisted hctr'
  obtain ⟨run, hrun, hev⟩ := h.targetRun hk.kmalloc (Holds.of_unmapped hinst hunmapped) hlayout
  have honly := (TargetRun.next hrun hnext).onlyFree hcreate hinc ⟨hsmall, hsec⟩ hlisted hctr' (by
    simp only [List.forall_mem_append, List.forall_mem_singleton]
    exact ⟨hev, regular_dtr hquiet⟩)
  exact (afsCtrArgv_iff hmount).2
    ((afsCtrDetect_iff (hapart.detectFs_eq hdetect honly)).2 hctr₁)

/-! ### An instance on a small volume -/

/-- The line that creates an instance on the volume, and the line that mounts it. -/
def createLine : ArgLine :=
  ⟨⟨literal "0", by decide⟩, ⟨literal "pass", by decide⟩, ⟨literal "/dev/sdb", by decide⟩,
    [(.entropy, ⟨literal "/usr", by decide⟩)]⟩

def mountLine : ArgLine :=
  ⟨⟨literal "1", by decide⟩, ⟨literal "pass", by decide⟩, ⟨literal "/dev/sdb", by decide⟩, []⟩

/-- What a line of this type is parsed into. -/
def ArgLine.parsed (line : ArgLine) (instanceType : ℕ) : ParsedArgs where
  passphrase := fieldOf 63 line.passphrase
  shadowPassphrase := lastValue .shadowPassphrase line.options fun _ => 0
  passiveDev := fieldOf 31 line.disk
  entropyDir := lastValue .entropy line.options fun _ => 0
  instanceType

theorem parseAfsArgs_createLine :
    parseAfsArgs createLine.argv = .ok (createLine.parsed 0) :=
  ArgLine.Denotes.parseAfsArgs
    ⟨by decide, rfl, rfl, rfl, rfl, Or.inl ⟨rfl, by decide, rfl⟩⟩

theorem parseAfsArgs_mountLine : parseAfsArgs mountLine.argv = .ok (mountLine.parsed 1) :=
  ArgLine.Denotes.parseAfsArgs
    ⟨by decide, rfl, rfl, rfl, rfl, Or.inr (Or.inl ⟨rfl, rfl, rfl⟩)⟩

/-- The arguments of the first line. -/
def fatArgs : AfsArgs := (createLine.parsed 0).afsArgs

/-- A new instance on a FAT32 volume with nothing but its root directory, with blocks for a first
write. -/
structure FatInstance (fs : AfsPassiveFs) (ctx₀ : AfsPrivate) : Prop where
  detect : detectFs 4 (constKernel 3) false fatEmpty noFs = some (.fat32, fs, false)
  freeList : fs.freeList = [3, 4, 5, 6, 7, 8, 9, 10, 11, 12, 13, 14, 15]
  length : fs.listLen = 13
  start : fs.dataStartOff = 16
  built : afsCtrDetect 4 (constKernel 3) 1 false fatArgs 128 144 fatEmpty [2, 3, 4, 5, 6, 7] =
    some (.ok ctx₀, false)
  holds : Holds (constKernel 3) ctx₀ fun _ _ => 0
  canMap : CanMap ctx₀ (afsGetMapEntry ctx₀.config 0)
  blocks : ctx₀.config.numBlocks = 16

theorem exists_fatInstance : ∃ fs ctx₀, FatInstance fs ctx₀ := by
  have hrun : ((detectFs 4 (constKernel 3) false fatEmpty noFs).bind fun r =>
      (builtContext (afsCtr (constKernel 3) 1 fatArgs 128 144 r.2.1 fatEmpty
        [2, 3, 4, 5, 6, 7])).map fun ctx => decide (r.1 = .fat32 ∧ r.2.2 = false ∧
          r.2.1.freeList = [3, 4, 5, 6, 7, 8, 9, 10, 11, 12, 13, 14, 15] ∧ r.2.1.listLen = 13 ∧
          r.2.1.dataStartOff = 16 ∧ (acquireBlocks ctx.passiveFs 4 ctx.vector ctx.random).map (·.1) =
            some [7, 8, 9, 10] ∧ ctx.config.numBlocks = 16)) = some true := by
    decide +kernel
  obtain ⟨⟨type, fs, flag⟩, hdetect, hrun⟩ := Option.bind_eq_some_iff.1 hrun
  obtain ⟨ctx₀, hctr, hrun⟩ := exists_of_builtContext hrun
  obtain ⟨rfl, rfl, hlist, hlen, hstart, hacq, hblocks⟩ := of_decide_eq_true hrun
  dsimp only at hctr hlist hlen hstart
  obtain ⟨⟨bs, v, random⟩, hacq, hbs⟩ := Option.map_eq_some_iff.1 hacq
  obtain ⟨hinst, hunmapped⟩ := unmapped_of_create (rfl : fatArgs.instanceType = .create)
    (by rw [hlist]; decide) (by rw [hlist, hstart]; decide) hctr
  refine ⟨fs, ctx₀, hdetect, hlist, hlen, hstart, (afsCtrDetect_iff hdetect).2 hctr,
    Holds.of_unmapped hinst hunmapped, ?_, hblocks⟩
  have h0 : carrierPtr ctx₀.afsMap (afsGetMapEntry ctx₀.config 0) 0 = afsInvalidBlock :=
    hunmapped 0 (by omega) 0 (by norm_num)
  rw [CanMap, if_pos h0]
  refine ⟨bs, v, random, ?_, ?_⟩
  · rw [hinst.carriers]
    exact hacq
  · rw [hinst.carriers, show bs = [7, 8, 9, 10] from hbs]
    rfl

section

variable {fs : AfsPassiveFs} {ctx₀ : AfsPrivate}

theorem FatInstance.volume (h : FatInstance fs ctx₀) :
    ∃ vol, readFatBootSector (firstPage (constKernel 3) fatEmpty) = some vol ∧
      vol.bytesSector = 512 ∧ vol.numDataClusters = 16 ∧ vol.secFat = 8 ∧
      ∀ e ∈ fs.freeList, FreeCluster vol fatEmpty fs e := by
  have hrun : (readFatBootSector (firstPage (constKernel 3) fatEmpty)).map (fun vol => decide (
      vol.bytesSector = 512 ∧ vol.numDataClusters = 16 ∧ vol.secFat = 8 ∧ vol.sectorOrder = 9 ∧
      fatDataStartOff vol = 16 ∧
      ∀ e ∈ [3, 4, 5, 6, 7, 8, 9, 10, 11, 12, 13, 14, 15], vol.rootEntries = 0 ∧
        vol.reserved + vol.tables * vol.secFat + 8 * (e + 1) ≤ vol.totalSec ∧
        4 * (e + 3) ≤ 512 * vol.secFat ∧
        fatWord vol fatEmpty (e + 2 + 128 * (vol.reserved % 8)) % 2 ^ 28 = 0)) = some true := by
    decide +kernel
  obtain ⟨vol, hboot, hrun⟩ := Option.map_eq_some_iff.1 hrun
  obtain ⟨h512, hclusters, hsec, horder, hstart, hfree⟩ := of_decide_eq_true hrun
  refine ⟨vol, hboot, h512, hclusters, hsec, fun e he => ?_⟩
  rw [h.freeList] at he
  exact (freeCluster_iff horder (readFatBootSector_spec hboot).1.total (h.start.trans hstart.symm)).2
    (hfree e he)

theorem FatInstance.addressed (h : FatInstance fs ctx₀) :
    fs.freeList.Pairwise (· < ·) ∧ Addressed fs := by
  refine ⟨?_, ?_, ?_⟩
  · rw [h.freeList]
    decide
  · rw [h.freeList]
    decide
  · rw [h.freeList, h.start]
    decide

theorem FatInstance.replicas (h : FatInstance fs ctx₀) :
    ReplicasListed (constKernel 3) fs fatArgs.passphrase 144 := fun i _ => by
  rw [replicaBlock_constKernel, h.length]
  decide

theorem FatInstance.write (h : FatInstance fs ctx₀) :
    ∃ w t, Interleaved (constKernel 3) gfContextZero ctx₀ [w] t ∧
      w.bio = blockBio .write 0 UInt8.ofNat ∧ ∀ i l, ¬ t.Open i l := by
  have hwbio := inBlock_blockBio .write 0 UInt8.ofNat
  have hw0 : (blockBio .write 0 UInt8.ofNat).biSector / 8 = 0 := by simp [blockBio]
  have hpos : (blockBio .write 0 UInt8.ofNat).biSector / 8 < ctx₀.config.numBlocks := by
    rw [hw0, h.blocks]
    norm_num
  -- the write is mapped, and comes to its end
  have h₁ := interleaved_first (k := constKernel 3) (g := gfContextZero) hwbio (Or.inr rfl)
    (fun _ => ⟨rfl, rfl⟩) hpos zeroRequest
  have hblock : (newLife (mapRequest zeroRequest ctx₀ (blockBio .write 0 UInt8.ofNat))
      .flightq).req.block = 0 := by
    show (flightRequest zeroRequest ctx₀ _).block = 0
    rw [block_flightRequest (by rw [hw0]; norm_num), hw0]
  obtain ⟨t, l, h₂, -, hopen⟩ := h₁.drain (fun _ => rfl) h.holds
    (⟨.map, rfl, by simp [Life.Quiet, newLife]⟩ : Target.Open _ 0 _) fun _ _ => hblock ▸ h.canMap
  refine ⟨_, t, h₂, rfl, fun i l hi => ?_⟩
  obtain ⟨hne, o, ho, -⟩ := (hopen i l).1 hi
  cases i with
  | zero => exact hne rfl
  | succ i => simp at ho

theorem FatInstance.unmounted (h : FatInstance fs ctx₀) :
    ∃ w t t' run, Interleaved (constKernel 3) gfContextZero ctx₀ [w] t ∧
      w.bio = blockBio .write 0 UInt8.ofNat ∧
      TargetRun (constKernel 3) gfContextZero (newTarget ctx₀) (run ++ [(t, .dtr)]) t' ∧
      ∀ m ∈ run ++ [(t, .dtr)], Regular ctx₀.config.numBlocks m := by
  obtain ⟨w, t, hint, hbio, hquiet⟩ := h.write
  have hk := constKernel_hasMemory 3
  have hlayout : Layout (constKernel 3) 1 ctx₀ :=
    layout_of_create (rfl : fatArgs.instanceType = .create)
      ⟨h.addressed.1.imp fun h => h.ne, h.addressed.2.small⟩ h.replicas
      ((afsCtrDetect_iff h.detect).1 h.built)
  obtain ⟨run, hrun, hev⟩ := hint.targetRun hk.kmalloc h.holds hlayout
  obtain ⟨-, hlayout'⟩ := hint.layout hk.kmalloc h.holds hlayout
  obtain ⟨ctx', hdtr, -⟩ := hlayout'.afsDtr hk
  obtain ⟨t', hnext⟩ : ∃ t', t.next (constKernel 3) gfContextZero .dtr = some t' := by
    obtain ⟨hcalm, -⟩ := hint.calm hk.kmalloc h.holds
    obtain ⟨hflight, hrebuild⟩ := hint.queues
    rw [Target.next, if_neg (not_not.2 hcalm.registered)]
    simp only [hflight, hrebuild, hdtr, Option.bind_eq_bind, Option.bind_some]
    exact ⟨_, rfl⟩
  refine ⟨w, t, t', run, hint, hbio, .next hrun hnext, ?_⟩
  simp only [List.forall_mem_append, List.forall_mem_singleton]
  exact ⟨hev, regular_dtr hquiet⟩

end

/-- What is stored behind the clusters of the volume stays. -/
theorem host_untouched_small :
    ∃ fs ctx₀ w t t' run, FatInstance fs ctx₀ ∧
      Interleaved (constKernel 3) gfContextZero ctx₀ [w] t ∧
      w.bio = blockBio .write 0 UInt8.ofNat ∧
      TargetRun (constKernel 3) gfContextZero (newTarget ctx₀) (run ++ [(t, .dtr)]) t' ∧
      ∀ i ≥ 73728, t'.ctx.disk i = fatEmpty i := by
  obtain ⟨fs, ctx₀, h⟩ := exists_fatInstance
  obtain ⟨w, t, t', run, hint, hbio, hrun, hev⟩ := h.unmounted
  obtain ⟨hinc, ha⟩ := h.addressed
  refine ⟨fs, ctx₀, w, t, t', run, h, hint, hbio, hrun, fun i hi => ?_⟩
  refine (host_untouched (rfl : fatArgs.instanceType = .create) h.detect hinc ha.small ha.sectors
    h.replicas h.built hrun hev).1 i ?_
  rintro ⟨e, he, -, hlt⟩
  have hlast : e ≤ 15 := by
    rw [h.freeList] at he
    revert he
    exact (by decide : ∀ e ∈ [3, 4, 5, 6, 7, 8, 9, 10, 11, 12, 13, 14, 15], e ≤ 15) e
  rw [h.start] at hlt
  omega

/-- The volume stays. -/
theorem fat32_untouched_small :
    ∃ vol fs ctx₀ w t t' run, FatInstance fs ctx₀ ∧
      Interleaved (constKernel 3) gfContextZero ctx₀ [w] t ∧
      w.bio = blockBio .write 0 UInt8.ofNat ∧
      TargetRun (constKernel 3) gfContextZero (newTarget ctx₀) (run ++ [(t, .dtr)]) t' ∧
      Fat32Intact vol fatEmpty t'.ctx.disk := by
  obtain ⟨fs, ctx₀, h⟩ := exists_fatInstance
  obtain ⟨w, t, t', run, hint, hbio, hrun, hev⟩ := h.unmounted
  obtain ⟨vol, hboot, h512, hclusters, hsec, hfree⟩ := h.volume
  exact ⟨vol, fs, ctx₀, w, t, t', run, h, hint, hbio, hrun,
    (fat32_untouched (rfl : fatArgs.instanceType = .create) h.detect hboot h512
      (by rw [hclusters]; norm_num) (by rw [hclusters, hsec]; norm_num) hfree h.replicas h.built hrun
      hev).1⟩

/-- What was written to the first block is read from it after the next mount. -/
theorem cycle_small :
    ∃ fs ctx₀ w t t' ctx₁ r t₁, FatInstance fs ctx₀ ∧
      Interleaved (constKernel 3) gfContextZero ctx₀ [w] t ∧
      w.bio = blockBio .write 0 UInt8.ofNat ∧ t.next (constKernel 3) gfContextZero .dtr = some t' ∧
      afsCtrArgv 4 (constKernel 3) 1 false mountLine.argv 128 144 t'.ctx.disk [] =
        some (.ok ctx₁, false) ∧
      ReadOnlyRun (constKernel 3) gfContextZero 1 ctx₁ [r] t₁ ∧
      r.bio = blockBio .read 0 (fun _ => 0) ∧ ∀ i < 4096, r.life.answer i = UInt8.ofNat i := by
  obtain ⟨fs, ctx₀, h⟩ := exists_fatInstance
  obtain ⟨w, t, hint, hbio, hquiet⟩ := h.write
  obtain ⟨vol, hboot, h512, hclusters, hsec, hfree⟩ := h.volume
  obtain ⟨hinc, ha⟩ := h.addressed
  have hapart : HostApart 4 (constKernel 3) false fatEmpty .fat32 fs :=
    hostApart_fat32 hboot h512 (by rw [hclusters, hsec]; norm_num) hfree
  have hrbio := inBlock_blockBio .read 0 fun _ => 0
  have hr0 : (blockBio .read 0 fun _ => 0).biSector / 8 = 0 := by simp [blockBio]
  obtain ⟨t', ctx₁, hdtr, hmount, hconfig, hreads⟩ :=
    @cycle_restores _ _ _ 1 1 _ _ _ _ _ _ _ _ _ _ _ _ [] _ _ _ (constKernel_hasMemory 3)
      parseAfsArgs_createLine rfl parseAfsArgs_mountLine rfl rfl h.detect hapart hinc ha.small
      ha.sectors h.replicas ((afsCtrArgv_iff parseAfsArgs_createLine).2 h.built) hint hquiet
      (le_refl 1)
  have hone : 1 ≤ ctx₁.config.numBlocks := by
    rw [hconfig, h.blocks]
    norm_num
  -- the read
  have hmapped : (newTarget ctx₁).next (constKernel 3) gfContextZero
      (.map true zeroRequest (blockBio .read 0 fun _ => 0)) = some _ :=
    next_map_inBlock rfl hrbio (Or.inl rfl) zeroRequest
  have h₃ := ReadOnlyRun.next .start
    (show ReadsOnly 1 (.map true zeroRequest (blockBio .read 0 fun _ => 0)) from
      ⟨rfl, rfl, hrbio, by rw [hr0]; norm_num⟩) hmapped
  obtain ⟨-, -, hdrain, -⟩ := hreads 1 hone (by norm_num) _ _ h₃
  obtain ⟨t₁, l', h₄, -⟩ := hdrain 0 _ rfl (by simp [Life.Quiet, newLife])
  obtain ⟨-, hans, -⟩ := hreads 1 hone (by norm_num) _ _ h₄
  refine ⟨fs, ctx₀, w, t, t', ctx₁, _, t₁, h, hint, hbio, hdtr, hmount, h₄, rfl, fun i hi => ?_⟩
  have hread : l'.answer i = lastWrite [w] ((blockBio .read 0 fun _ => 0).biSector / 8)
      ((blockBio .read 0 fun _ => 0).biSector % 8 * 512 + i) :=
    hans _ (List.mem_append_right _ (List.mem_singleton_self _)) i hi
  have hoff : (blockBio .read 0 fun _ => 0).biSector % 8 = 0 := by simp [blockBio]
  rw [hread, hr0, hoff, Nat.zero_mul, Nat.zero_add, lastWrite_blockBio hbio hi]

end Artifice
