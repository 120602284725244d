import Artifice.Metadata.Frame

/-!
What `write_ptr_blocks` leaves on the device: the map blocks at blocks that are pairwise distinct
and that the super block and the pointer blocks name in order, and the pointer blocks as a chain
from the super block.

A block is *owned* once its position in the free list is marked. What `acquire_block` returns was
not owned before and is owned afterwards, so the blocks that a run acquires are pairwise distinct
as far as the free list has them so.
-/

namespace Artifice

open Lib

/-- Position `p` of the free list was marked since `ctx₀`. -/
def MarkedSince (ctx₀ ctx : AfsPrivate) (p : ℕ) : Prop :=
  p < ctx.passiveFs.listLen ∧ ctx₀.vector.bits p = false ∧ ctx.vector.bits p = true

/-- Block `b` is at a position of the free list that was marked since `ctx₀`. -/
def Owned (ctx₀ ctx : AfsPrivate) (b : ℕ) : Prop :=
  ∃ p, MarkedSince ctx₀ ctx p ∧ ctx.passiveFs.blockList[p]? = some b

/-- The blocks that were handed out since `ctx₀` are pairwise distinct, and all below `2 ^ 20`. -/
structure HandedOut (ctx₀ ctx : AfsPrivate) : Prop where
  distinct : ∀ p p' b, MarkedSince ctx₀ ctx p → MarkedSince ctx₀ ctx p' →
    ctx.passiveFs.blockList[p]? = some b → ctx.passiveFs.blockList[p']? = some b → p = p'
  small : ∀ b, Owned ctx₀ ctx b → b < 2 ^ 20

/-- The free list is the same, and what was marked still is. -/
structure Grows (ctx ctx' : AfsPrivate) : Prop where
  passiveFs : ctx'.passiveFs = ctx.passiveFs
  bits : ∀ p, ctx.vector.bits p = true → ctx'.vector.bits p = true

/-- The free list holds pairwise distinct blocks, all below `2 ^ 20`. -/
structure SmallBlocks (fs : AfsPassiveFs) : Prop where
  nodup : fs.freeList.Nodup
  small : ∀ b ∈ fs.freeList, b < 2 ^ 20

section

variable {k : Kernel} {ctx ctx' ctx'' ctx₀ : AfsPrivate} {fs : AfsPassiveFs} {b b' p p' i t w : ℕ}
  {a c : ℕ → ℕ}

theorem mem_freeList (hp : p < fs.listLen) (hb : fs.blockList[p]? = some b) : b ∈ fs.freeList :=
  List.mem_of_getElem? ((List.getElem?_take_of_lt hp).trans hb)

theorem freeList_pos_inj (h : fs.freeList.Nodup) (hp : p < fs.listLen) (hp' : p' < fs.listLen)
    (hb : fs.blockList[p]? = some b) (hb' : fs.blockList[p']? = some b) : p = p' := by
  have h1 : fs.freeList[p]? = some b := (List.getElem?_take_of_lt hp).trans hb
  have h2 : fs.freeList[p']? = some b := (List.getElem?_take_of_lt hp').trans hb'
  obtain ⟨hl, he⟩ := List.getElem?_eq_some_iff.1 h1
  obtain ⟨hl', he'⟩ := List.getElem?_eq_some_iff.1 h2
  exact (List.Nodup.getElem_inj_iff h).1 (he.trans he'.symm)

theorem Grows.refl (ctx : AfsPrivate) : Grows ctx ctx := ⟨rfl, fun _ => id⟩

theorem Grows.trans (h : Grows ctx ctx') (h' : Grows ctx' ctx'') : Grows ctx ctx'' :=
  ⟨h'.passiveFs.trans h.passiveFs, fun p hp => h'.bits p (h.bits p hp)⟩

theorem MarkedSince.mono (h : MarkedSince ctx₀ ctx p) (hg : Grows ctx ctx') :
    MarkedSince ctx₀ ctx' p :=
  ⟨hg.passiveFs ▸ h.1, h.2.1, hg.bits p h.2.2⟩

theorem Owned.mono (h : Owned ctx₀ ctx b) (hg : Grows ctx ctx') : Owned ctx₀ ctx' b := by
  obtain ⟨p, hp, hb⟩ := h
  exact ⟨p, hp.mono hg, hg.passiveFs ▸ hb⟩

theorem HandedOut.of_grows (h : HandedOut ctx₀ ctx') (hg : Grows ctx ctx') :
    HandedOut ctx₀ ctx := by
  refine ⟨fun p p' b hp hp' hb hb' => ?_, fun b hb => h.small b (hb.mono hg)⟩
  exact h.distinct p p' b (hp.mono hg) (hp'.mono hg) (hg.passiveFs ▸ hb) (hg.passiveFs ▸ hb')

theorem SmallBlocks.handedOut (h : SmallBlocks ctx.passiveFs) : HandedOut ctx₀ ctx := by
  refine ⟨fun p p' b hp hp' hb hb' => freeList_pos_inj h.nodup hp.1 hp'.1 hb hb', ?_⟩
  rintro b ⟨p, hp, hb⟩
  exact h.small b (mem_freeList hp.1 hb)

theorem acquire_grows (h : acquire ctx = some (b, ctx')) : Grows ctx ctx' := by
  obtain ⟨random, ⟨p, -, -, -, -, rfl⟩ | ⟨-, rfl⟩⟩ := acquire_cases h
  · exact ⟨rfl, fun q hq => by simp [BitVector.mark_bits, hq]⟩
  · exact ⟨rfl, fun _ => id⟩

theorem acquire_owned (h : acquire ctx = some (b, ctx')) (hg : Grows ctx₀ ctx)
    (hh : HandedOut ctx₀ ctx') (hb : b ≠ afsInvalidBlock) :
    b < 2 ^ 20 ∧ ¬ Owned ctx₀ ctx b ∧ Owned ctx₀ ctx' b ∧
      ∃ v random, ctx' = { ctx with vector := v, random } := by
  have hgrow := acquire_grows h
  obtain ⟨random, ⟨p, hp, hv, hf, hbl, rfl⟩ | ⟨rfl, -⟩⟩ := acquire_cases h
  · have hf₀ : ctx₀.vector.bits p = false := by
      by_contra ht
      rw [hg.bits p (by simpa using ht)] at hf
      cases hf
    have hmarked : MarkedSince ctx₀ { ctx with vector := ctx.vector.mark p, random } p :=
      ⟨hp, hf₀, by simp [BitVector.mark_bits, hv]⟩
    have hown : Owned ctx₀ { ctx with vector := ctx.vector.mark p, random } b := ⟨p, hmarked, hbl⟩
    refine ⟨hh.small b hown, ?_, hown, _, _, rfl⟩
    rintro ⟨p', hp', hb'⟩
    obtain rfl := hh.distinct p p' b hmarked (hp'.mono hgrow) hbl hb'
    rw [hp'.2.2] at hf
    cases hf
  · exact absurd rfl hb

/-! ### Slots -/

/-- The slot that names map block `t`. -/
def slotOf (t : ℕ) : Slot := if t < 975 then .sb t else .pb ((t - 975) / 1019) ((t - 975) % 1019)

theorem slotOf_sb (h : i < 975) : slotOf i = .sb i := if_pos h

theorem slotOf_pb {j : ℕ} (hj : j < 1019) : slotOf (975 + 1019 * i + j) = .pb i j := by
  rw [slotOf, if_neg (by omega), show (975 + 1019 * i + j - 975) / 1019 = i by omega,
    show (975 + 1019 * i + j - 975) % 1019 = j by omega]

theorem slotGet_slotSet (hb : b < 2 ^ 20) (s : Slot) : slotGet (slotSet ctx b s) s = b := by
  have h32 : b < 256 ^ 4 := by norm_num; omega
  cases s with
  | sb i => exact le_putLe_of_lt h32
  | pb i j => exact le_putLe_of_lt h32

theorem slotSet_eq (ctx : AfsPrivate) (b : ℕ) (s : Slot) :
    slotSet ctx b s = { ctx with
      superBlock := (slotSet ctx b s).superBlock
      afsPtrBlocks := (slotSet ctx b s).afsPtrBlocks } := by
  cases s <;> rfl

theorem slotGet_congr (hsb : ctx'.superBlock = ctx.superBlock)
    (hpb : ctx'.afsPtrBlocks = ctx.afsPtrBlocks) (s : Slot) : slotGet ctx' s = slotGet ctx s := by
  cases s <;> simp only [slotGet, hsb, hpb]

theorem slotGet_slotSet_ne (h : t ≠ w) :
    slotGet (slotSet ctx b (slotOf w)) (slotOf t) = slotGet ctx (slotOf t) := by
  unfold slotOf
  split_ifs with hw ht ht
  · simp only [slotSet, slotGet]
    rw [le_putLe_out (by omega)]
  · simp only [slotSet, slotGet]
  · simp only [slotSet, slotGet]
  · simp only [slotSet, slotGet]
    rw [le_putLe_out (by omega)]

/-! ### The map blocks -/

/-- The first `w` map blocks of `ctx₀` are on the device, map block `t` at block `a t`. -/
structure MapWritten (ctx₀ ctx : AfsPrivate) (a : ℕ → ℕ) (w : ℕ) : Prop where
  same : SameInstance ctx₀ ctx
  grows : Grows ctx₀ ctx
  mapBlocks : ctx.afsMapBlocks = ctx₀.afsMapBlocks
  owned : ∀ t < w, Owned ctx₀ ctx (a t)
  small : ∀ t < w, a t < 2 ^ 20
  slot : ∀ t < w, slotGet ctx (slotOf t) = a t
  page : ∀ t < w, Agree ctx.disk (512 * pageSector (a t) ctx.passiveFs.dataStartOff)
    ctx₀.afsMapBlocks (4096 * t) 4096
  inj : ∀ t < w, ∀ t' < t, a t' ≠ a t

/-- Another block that is acquired and written, with the slots left as they are, leaves the map
blocks in place. -/
theorem MapWritten.write (h : MapWritten ctx₀ ctx a w) (hsame : SameInstance ctx ctx')
    (hgrow : Grows ctx ctx') (hmap : ctx'.afsMapBlocks = ctx.afsMapBlocks) {page : Mem} {q : ℕ}
    (hdisk : ctx'.disk = writePage page q ctx.disk b ctx.passiveFs.dataStartOff)
    (hb : b < 2 ^ 20) (hno : ¬ Owned ctx₀ ctx b)
    (hslot : ∀ t < w, slotGet ctx' (slotOf t) = slotGet ctx (slotOf t)) :
    MapWritten ctx₀ ctx' a w where
  same := h.same.trans hsame
  grows := h.grows.trans hgrow
  mapBlocks := hmap.trans h.mapBlocks
  owned t ht := (h.owned t ht).mono hgrow
  small := h.small
  slot t ht := (hslot t ht).trans (h.slot t ht)
  page t ht := by
    have hne : b ≠ a t := fun he => hno (he ▸ h.owned t ht)
    rw [hdisk, hsame.passiveFs]
    exact (agree_writePage_out hb (h.small t ht) hne).trans (h.page t ht)
  inj := h.inj

theorem le_of_distinct {n : ℕ} (hsmall : ∀ t < w, a t < n) (hinj : ∀ t < w, ∀ t' < t, a t' ≠ a t) :
    w ≤ n := by
  have hmaps : Set.MapsTo a (Finset.range w) (Finset.range n) := by
    intro t ht
    simp only [Finset.coe_range, Set.mem_Iio] at ht ⊢
    exact hsmall t ht
  have hon : Set.InjOn a (Finset.range w) := by
    intro t ht t' ht' he
    simp only [Finset.coe_range, Set.mem_Iio] at ht ht'
    rcases lt_trichotomy t t' with hlt | heq | hlt
    · exact absurd he (hinj t' ht' t hlt)
    · exact heq
    · exact absurd he.symm (hinj t ht t' hlt)
  have hcard := Finset.card_le_card_of_injOn a hmaps hon
  rwa [Finset.card_range, Finset.card_range] at hcard

theorem MapWritten.lt (h : MapWritten ctx₀ ctx a w) (hb : b < 2 ^ 20)
    (hno : ¬ Owned ctx₀ ctx b) : w < 2 ^ 20 := by
  have hold : ∀ t < w, Function.update a w b t = a t := fun t ht =>
    Function.update_of_ne (by omega) _ _
  have hnew : Function.update a w b w = b := Function.update_self _ _ _
  refine le_of_distinct (a := Function.update a w b) (fun t ht => ?_) fun t ht t' ht' => ?_
  · rcases Nat.lt_succ_iff_lt_or_eq.1 ht with hlt | rfl
    · rw [hold t hlt]
      exact h.small t hlt
    · rw [hnew]
      exact hb
  · rw [hold t' (by omega)]
    rcases Nat.lt_succ_iff_lt_or_eq.1 ht with hlt | rfl
    · rw [hold t hlt]
      exact h.inj t hlt t' ht'
    · rw [hnew]
      exact fun he => hno (he ▸ h.owned t' ht')

theorem MapWritten.step (h : MapWritten ctx₀ ctx a w) {s : AfsPrivate × ℕ}
    (hf : writeMapBlock false (slotOf w) (ctx, w) = some (.next s)) (hh : HandedOut ctx₀ s.1) :
    s.2 = w + 1 ∧ ∃ a, MapWritten ctx₀ s.1 a (w + 1) := by
  have hsame := sameInstance_writeMapBlock hf
  simp only [Flow.Sat] at hsame
  obtain ⟨b, ctx₁, hacq, ⟨-, hret⟩ | ⟨hb, hnext⟩⟩ := writeMapBlock_cases hf
  · cases hret
  rw [Flow.next.injEq] at hnext
  subst hnext
  have hgrow := acquire_grows hacq
  rw [slotSet_eq] at hh hsame ⊢
  have hh₁ : HandedOut ctx₀ ctx₁ := hh.of_grows ⟨rfl, fun _ => id⟩
  obtain ⟨hsmall, hno, hown, v, random, rfl⟩ := acquire_owned hacq h.grows hh₁ hb
  have hw : w < 2 ^ 20 := h.lt hsmall hno
  have hset : slotGet (slotSet { ctx with vector := v, random := random } b (slotOf w))
    (slotOf w) = b := slotGet_slotSet hsmall _
  have hne : ∀ t < w, slotGet (slotSet { ctx with vector := v, random := random } b (slotOf w))
      (slotOf t) = slotGet { ctx with vector := v, random := random } (slotOf t) :=
    fun t ht => slotGet_slotSet_ne (by omega)
  generalize slotSet { ctx with vector := v, random := random } b (slotOf w) = ctx₂ at *
  have hgrow₂ : Grows ctx { ctx with
      vector := v, random := random, superBlock := ctx₂.superBlock,
      afsPtrBlocks := ctx₂.afsPtrBlocks, disk := writePage ctx.afsMapBlocks (w * 4096 % 2 ^ 32)
        ctx.disk b ctx.passiveFs.dataStartOff } := ⟨rfl, hgrow.bits⟩
  have hprev := h.write hsame hgrow₂ rfl rfl hsmall hno fun t ht =>
    (slotGet_congr rfl rfl _).trans ((hne t ht).trans (slotGet_congr rfl rfl _))
  have hold : ∀ t < w, Function.update a w b t = a t := fun t ht =>
    Function.update_of_ne (by omega) _ _
  have hnew : Function.update a w b w = b := Function.update_self _ _ _
  refine ⟨by simp only; omega, Function.update a w b, hprev.same, hprev.grows, hprev.mapBlocks,
    ?_, ?_, ?_, ?_, ?_⟩
  all_goals
    intro t ht
    rcases Nat.lt_succ_iff_lt_or_eq.1 ht with hlt | rfl
  · rw [hold t hlt]
    exact hprev.owned t hlt
  · rw [hnew]
    exact hown
  · rw [hold t hlt]
    exact hprev.small t hlt
  · rw [hnew]
    exact hsmall
  · rw [hold t hlt]
    exact hprev.slot t hlt
  · rw [hnew]
    exact (slotGet_congr rfl rfl _).trans hset
  · rw [hold t hlt]
    exact hprev.page t hlt
  · rw [hnew, ← h.mapBlocks, ← show t * 4096 % 2 ^ 32 = 4096 * t by omega]
    exact agree_writePage
  · intro t' ht'
    rw [hold t hlt, hold t' (by omega)]
    exact h.inj t hlt t' ht'
  · intro t' ht'
    rw [hold t' ht', hnew]
    exact fun he => hno (he ▸ h.owned t' ht')

theorem writeMapBlock_first {s s' : AfsPrivate × ℕ}
    (hf : writeMapBlock false (slotOf w) s = some (.next s')) :
    Grows s.1 s'.1 ∧ le s'.1.superBlock 4092 4 = le s.1.superBlock 4092 4 := by
  obtain ⟨b, ctx₁, hacq, ⟨-, hret⟩ | ⟨hb, hnext⟩⟩ := writeMapBlock_cases hf
  · cases hret
  rw [Flow.next.injEq] at hnext
  subst hnext
  have hgrow := acquire_grows hacq
  have hsb : ctx₁.superBlock = s.1.superBlock := by
    obtain ⟨random, ⟨p, -, -, -, -, rfl⟩ | ⟨-, rfl⟩⟩ := acquire_cases hacq
    · rfl
    · rfl
  unfold slotOf
  split_ifs with hw
  · refine ⟨⟨hgrow.passiveFs, hgrow.bits⟩, ?_⟩
    have hout : 4092 + 4 ≤ 192 + 4 * w ∨ 192 + 4 * w + 4 ≤ 4092 := by omega
    exact (le_putLe_out hout).trans (by rw [hsb])
  · generalize (w - 975) / 1019 = i, (w - 975) % 1019 = j
    refine ⟨⟨hgrow.passiveFs, hgrow.bits⟩, ?_⟩
    simp only [slotSet]
    rw [hsb]

theorem blocksLeft_eq_zero {m : ℕ} (hw : w ≤ m) (hm : m < 2 ^ 32) :
    (m + 2 ^ 32 - w) % 2 ^ 32 = 0 ↔ w = m := by
  omega

/-- The first `w` map blocks are on the device if what was handed out is distinct, and the super
block is not linked to a pointer block yet. -/
structure MapState (ctx : AfsPrivate) (s : AfsPrivate) (w : ℕ) : Prop where
  config : s.config = ctx.config
  first : le s.superBlock 4092 4 = le ctx.superBlock 4092 4
  written : HandedOut ctx s → ∃ a, MapWritten ctx s a w

/-- The state between two map blocks: all of them are written, or the next one belongs in the
slot `w`. -/
def MapProgress (ctx : AfsPrivate) (w : ℕ) (s : AfsPrivate × ℕ) : Prop :=
  (HandedOut ctx s.1 → s.2 = w ∨ s.2 = ctx.config.numMapBlocks) ∧
    (HandedOut ctx s.1 → s.2 ≤ ctx.config.numMapBlocks) ∧ MapState ctx s.1 s.2

/-- All map blocks are written. -/
def MapDone (ctx : AfsPrivate) (s : AfsPrivate × ℕ) : Prop :=
  (HandedOut ctx s.1 → s.2 = ctx.config.numMapBlocks) ∧ MapState ctx s.1 s.2

theorem MapDone.progress {s : AfsPrivate × ℕ} (h : MapDone ctx s) : MapProgress ctx w s :=
  ⟨fun hh => Or.inr (h.1 hh), fun hh => (h.1 hh).le, h.2⟩

theorem MapProgress.step (hm : ctx.config.numMapBlocks < 2 ^ 32) {s : AfsPrivate × ℕ}
    {f g : Flow (AfsPrivate × ℕ)} (hs : MapProgress ctx w s) (hg : g = .brk s ∨ g = .ret 0 s)
    (h : (if (s.1.config.numMapBlocks + 2 ^ 32 - s.2) % 2 ^ 32 = 0 then some g
      else writeMapBlock false (slotOf w) s) = some f) :
    f.Sat (MapProgress ctx (w + 1)) (MapDone ctx) (fun c t => c = 0 → MapDone ctx t) := by
  obtain ⟨hw, hle, hstate⟩ := hs
  rw [hstate.config] at h
  split_ifs at h with hdone
  · rw [← Option.some.inj h]
    have hd : MapDone ctx s := ⟨fun hh => (blocksLeft_eq_zero (hle hh) hm).1 hdone, hstate⟩
    rcases hg with rfl | rfl
    · exact hd
    · exact fun _ => hd
  · have hsame := sameInstance_writeMapBlock h
    have hkind : f = .next f.state ∨ ∃ t, f = .ret (-28) t := by
      obtain ⟨b, ctx₁, -, ⟨-, rfl⟩ | ⟨-, rfl⟩⟩ := writeMapBlock_cases h
      · exact Or.inr ⟨_, rfl⟩
      · exact Or.inl rfl
    rcases hkind with hnext | ⟨t, rfl⟩
    · generalize f.state = t at hnext
      subst hnext
      simp only [Flow.Sat] at hsame ⊢
      obtain ⟨hgrow, hfirst⟩ := writeMapBlock_first h
      -- what was handed out up to here is distinct if what was handed out by now is
      have hstep : HandedOut ctx t.1 → t.2 = s.2 + 1 ∧ s.2 = w ∧
          s.2 < ctx.config.numMapBlocks ∧ ∃ a, MapWritten ctx t.1 a (s.2 + 1) := by
        intro hh
        have hh₀ := hh.of_grows hgrow
        have hne : s.2 ≠ ctx.config.numMapBlocks := fun he =>
          hdone ((blocksLeft_eq_zero (hle hh₀) hm).2 he)
        have hsw : s.2 = w := (hw hh₀).resolve_right hne
        obtain ⟨a, ha⟩ := hstate.written hh₀
        rw [← hsw] at h
        obtain ⟨ht, ha'⟩ := ha.step h hh
        have hle₀ := hle hh₀
        exact ⟨ht, hsw, by omega, ha'⟩
      refine ⟨fun hh => ?_, fun hh => ?_, hsame.config.trans hstate.config,
        hfirst.trans hstate.first, fun hh => ?_⟩
      · obtain ⟨ht, hsw, -, -⟩ := hstep hh
        exact Or.inl (by omega)
      · obtain ⟨ht, -, hlt, -⟩ := hstep hh
        omega
      · obtain ⟨ht, -, -, ha⟩ := hstep hh
        rw [ht]
        exact ha
    · intro h0
      norm_num at h0

/-- **The map blocks after `write_map_blocks`.** -/
theorem writeMapBlocks_spec (hidx : ctx.config.Indexed)
    (h : writeMapBlocks ctx false = some (0, ctx')) :
    MapState ctx ctx' ctx.config.numMapBlocks := by
  have hm := hidx.mapBlocks
  have hptr := hidx.ptrBlocks
  have hfinish : ∀ t : AfsPrivate × ℕ, MapDone ctx t → MapState ctx t.1 ctx.config.numMapBlocks := by
    rintro t ⟨hall, hstate⟩
    refine ⟨hstate.config, hstate.first, fun hh => ?_⟩
    rw [← hall hh]
    exact hstate.written hh
  simp only [writeMapBlocks, Option.bind_eq_bind, Option.bind_eq_some_iff] at h
  obtain ⟨f, hf, h⟩ := h
  have hinit : MapProgress ctx 0 (ctx, 0) :=
    ⟨fun _ => Or.inl rfl, fun _ => Nat.zero_le _, rfl, rfl, fun _ => ⟨fun _ => 0,
      SameInstance.refl ctx, Grows.refl ctx, rfl, by simp, by simp, by simp, by simp, by simp⟩⟩
  have h1 := forLoop_inv (I := MapProgress ctx)
    (fun i s g _ hi hs hb => by
      rw [← slotOf_sb (by omega)] at hb
      exact hs.step hm (Or.inr rfl) hb)
    hinit hf
  cases f with
  | ret c s =>
    simp only [Option.some.injEq, Prod.mk.injEq] at h
    obtain ⟨rfl, rfl⟩ := h
    exact hfinish s (h1 rfl)
  | brk s => exact h1.elim
  | next s =>
    have hs : MapProgress ctx (975 + 1019 * 0) s := h1.elim id MapDone.progress
    simp only [Option.bind_eq_some_iff] at h
    obtain ⟨g, hg, h⟩ := h
    -- the outer loop: one pointer block takes 1019 slots
    have h2 := forLoop_inv (I := fun i => MapProgress ctx (975 + 1019 * i))
      (B := fun _ => False)
      (fun i s g _ _ hs hb => by
        have := forLoop_inv (I := fun j => MapProgress ctx (975 + 1019 * i + j))
          (fun j s g _ hj hs hb => by
            rw [← slotOf_pb (by omega)] at hb
            exact hs.step hm (Or.inl rfl) hb)
          hs hb
        rw [show 975 + 1019 * (i + 1) = 975 + 1019 * i + (0 + 1019) by omega]
        exact this.mono (fun t ht => ht.elim id MapDone.progress) (fun _ => False.elim)
          (fun _ _ => id))
      hs hg
    cases g with
    | ret c t =>
      simp only [Option.some.injEq, Prod.mk.injEq] at h
      obtain ⟨rfl, rfl⟩ := h
      exact hfinish t (h2 rfl)
    | brk t => exact h2.elim
    | next t =>
      simp only [Option.some.injEq, Prod.mk.injEq] at h
      obtain ⟨-, rfl⟩ := h
      obtain ⟨hw, hle, hstate⟩ := h2.resolve_right id
      refine hfinish t ⟨fun hh => ?_, hstate⟩
      have := hw hh
      have := hle hh
      omega

/-! ### The pointer blocks -/

theorem agree_sealPtrBlock {config : AfsConfig} {pb : Mem} {o n : ℕ}
    (h1 : o + n ≤ 4096 * i ∨ 4096 * i + 16 ≤ o)
    (h2 : i + 1 = config.numPtrBlocks → o + n ≤ 4096 * i + 4092 ∨ 4096 * i + 4096 ≤ o) :
    Agree (sealPtrBlock k config i pb) o pb o n := by
  unfold sealPtrBlock
  refine (agree_blit_out h1).trans ?_
  split_ifs with hi
  · exact agree_putLe_out (h2 hi)
  · exact Agree.refl _ _ _

theorem sealPtrBlock_last {config : AfsConfig} {pb : Mem} (h : i + 1 = config.numPtrBlocks) :
    le (sealPtrBlock k config i pb) (4096 * i + 4092) 4 = afsInvalidBlock := by
  unfold sealPtrBlock
  rw [if_pos h, le_congr (agree_blit_out (by omega)), le_putLe_of_lt (by decide)]

/-- Pointer block `i` has the hash of the rest of it in front. -/
def PtrSealed (k : Kernel) (pb : Mem) (i : ℕ) : Prop :=
  Agree pb (4096 * i) (k.sha1 (bytes pb (4096 * i + 16) (4096 - 16))) 0 16

theorem PtrSealed.congr {pb pb' : Mem} (h : PtrSealed k pb i)
    (hpb : Agree pb' (4096 * i) pb (4096 * i) 4096) : PtrSealed k pb' i := by
  have hrest : Agree pb' (4096 * i + 16) pb (4096 * i + 16) (4096 - 16) :=
    hpb.sub (by norm_num)
  rw [PtrSealed, bytes_congr hrest]
  exact Agree.trans (fun j hj => hpb j (by omega)) h

theorem ptrSealed_sealPtrBlock {config : AfsConfig} {pb : Mem} :
    PtrSealed k (sealPtrBlock k config i pb) i := by
  rw [PtrSealed]
  unfold sealPtrBlock
  generalize (if i + 1 = config.numPtrBlocks then putLe pb (4096 * i + 4092) 4 afsInvalidBlock
    else pb) = pb'
  have hrest : Agree (blit pb' (4096 * i) (k.sha1 (bytes pb' (4096 * i + 16) (4096 - 16))) 0 16)
      (4096 * i + 16) pb' (4096 * i + 16) (4096 - 16) := agree_blit_out (by omega)
  rw [bytes_congr hrest]
  exact agree_blit _ _ _ _ _

/-- The pointer blocks from `i` on are on the device, pointer block `j` at block `c j`, each
linked to the one after it, and the one before `i` linked to `c i`. -/
structure PtrWritten (k : Kernel) (ctx₀ ctx : AfsPrivate) (a c : ℕ → ℕ) (i : ℕ) : Prop where
  map : MapWritten ctx₀ ctx a ctx₀.config.numMapBlocks
  owned : ∀ j, i ≤ j → j < ctx₀.config.numPtrBlocks → Owned ctx₀ ctx (c j)
  small : ∀ j, i ≤ j → j < ctx₀.config.numPtrBlocks → c j < 2 ^ 20
  apart : ∀ j, i ≤ j → j < ctx₀.config.numPtrBlocks → ∀ t < ctx₀.config.numMapBlocks, c j ≠ a t
  inj : ∀ j j', i ≤ j → j < j' → j' < ctx₀.config.numPtrBlocks → c j ≠ c j'
  page : ∀ j, i ≤ j → j < ctx₀.config.numPtrBlocks →
    Agree ctx.disk (512 * pageSector (c j) ctx.passiveFs.dataStartOff) ctx.afsPtrBlocks
      (4096 * j) 4096
  next : ∀ j, i ≤ j + 1 → j + 1 < ctx₀.config.numPtrBlocks →
    le ctx.afsPtrBlocks (4096 * j + 4092) 4 = c (j + 1)
  last : i < ctx₀.config.numPtrBlocks →
    le ctx.afsPtrBlocks (4096 * (ctx₀.config.numPtrBlocks - 1) + 4092) 4 = afsInvalidBlock
  first : i = 0 → 0 < ctx₀.config.numPtrBlocks → le ctx.superBlock 4092 4 = c 0
  unlinked : ctx₀.config.numPtrBlocks = 0 →
    le ctx.superBlock 4092 4 = le ctx₀.superBlock 4092 4
  hash : ∀ j, i ≤ j → j < ctx₀.config.numPtrBlocks → PtrSealed k ctx.afsPtrBlocks j

/-- What a round of `write_ptr_blocks` does, with `b` the block it acquires: pointer block `i` is
sealed and written to `b`, and the pointer to it is stored in the one before, or in the super
block. -/
structure PtrStep (k : Kernel) (ctx₀ ctx ctx' : AfsPrivate) (i b : ℕ) : Prop where
  same : SameInstance ctx ctx'
  grows : Grows ctx ctx'
  mapBlocks : ctx'.afsMapBlocks = ctx.afsMapBlocks
  small : b < 2 ^ 20
  fresh : ¬ Owned ctx₀ ctx b
  owned : Owned ctx₀ ctx' b
  disk : ∃ page q, ctx'.disk = writePage page q ctx.disk b ctx.passiveFs.dataStartOff
  page : Agree ctx'.disk (512 * pageSector b ctx.passiveFs.dataStartOff) ctx'.afsPtrBlocks
    (4096 * i) 4096
  sbSlot : ∀ j < 975, le ctx'.superBlock (192 + 4 * j) 4 = le ctx.superBlock (192 + 4 * j) 4
  first : i = 0 → le ctx'.superBlock 4092 4 = b
  other : ∀ o n, (o + n ≤ 4096 * i ∨ 4096 * i + 16 ≤ o) →
    (i + 1 = ctx.config.numPtrBlocks → o + n ≤ 4096 * i + 4092 ∨ 4096 * i + 4096 ≤ o) →
    (i ≠ 0 → o + n ≤ 4096 * (i - 1) + 4092 ∨ 4096 * i ≤ o) →
    Agree ctx'.afsPtrBlocks o ctx.afsPtrBlocks o n
  link : i ≠ 0 → le ctx'.afsPtrBlocks (4096 * (i - 1) + 4092) 4 = b
  last : i + 1 = ctx.config.numPtrBlocks →
    le ctx'.afsPtrBlocks (4096 * i + 4092) 4 = afsInvalidBlock
  hash : PtrSealed k ctx'.afsPtrBlocks i

theorem writePtrBlock_grows (hf : writePtrBlock k i ctx = some (.next ctx')) : Grows ctx ctx' := by
  obtain ⟨pb, b, ctx₁, -, hacq, hf⟩ := writePtrBlock_cases hf
  have hgrow := acquire_grows hacq
  rcases hf with ⟨-, hret⟩ | ⟨-, -, hnext⟩ | ⟨-, -, hnext⟩
  · cases hret
  · rw [Flow.next.injEq] at hnext
    subst hnext
    exact ⟨hgrow.passiveFs, hgrow.bits⟩
  · rw [Flow.next.injEq] at hnext
    subst hnext
    exact ⟨hgrow.passiveFs, hgrow.bits⟩

/-- **One pointer block**, if what was handed out is distinct. -/
theorem writePtrBlock_step (hg : Grows ctx₀ ctx) (hf : writePtrBlock k i ctx = some (.next ctx'))
    (hh : HandedOut ctx₀ ctx') : ∃ b, PtrStep k ctx₀ ctx ctx' i b := by
  have hsame := sameInstance_writePtrBlock hf
  have hgrow := writePtrBlock_grows hf
  simp only [Flow.Sat] at hsame
  obtain ⟨pb, b, ctx₁, rfl, hacq, hf⟩ := writePtrBlock_cases hf
  have hg' : Grows ctx₀ { ctx with
    afsPtrBlocks := sealPtrBlock k ctx.config i ctx.afsPtrBlocks } := ⟨hg.passiveFs, hg.bits⟩
  rcases hf with ⟨-, hret⟩ | ⟨hb, rfl, hnext⟩ | ⟨hb, hi, hnext⟩
  · cases hret
  · rw [Flow.next.injEq] at hnext
    subst hnext
    obtain ⟨hsmall, hno, hown, v, random, rfl⟩ :=
      acquire_owned hacq hg' (hh.of_grows ⟨rfl, fun _ => id⟩) hb
    have h32 : b < 256 ^ 4 := by norm_num; omega
    exact ⟨b, {
      same := hsame
      grows := hgrow
      mapBlocks := rfl
      small := hsmall
      fresh := hno
      owned := hown
      disk := ⟨_, _, rfl⟩
      page := agree_writePage
      sbSlot := fun j hj => le_putLe_out (by omega)
      first := fun _ => le_putLe_of_lt h32
      other := fun o n h1 h2 _ => agree_sealPtrBlock h1 h2
      link := fun h => absurd rfl h
      last := fun h => sealPtrBlock_last h
      hash := ptrSealed_sealPtrBlock }⟩
  · rw [Flow.next.injEq] at hnext
    subst hnext
    obtain ⟨hsmall, hno, hown, v, random, rfl⟩ :=
      acquire_owned hacq hg' (hh.of_grows ⟨rfl, fun _ => id⟩) hb
    have h32 : b < 256 ^ 4 := by norm_num; omega
    exact ⟨b, {
      same := hsame
      grows := hgrow
      mapBlocks := rfl
      small := hsmall
      fresh := hno
      owned := hown
      disk := ⟨_, _, rfl⟩
      page := agree_writePage.trans (agree_putLe_out (by omega)).symm
      sbSlot := fun j hj => rfl
      first := fun h => absurd h hi
      other := fun o n h1 h2 h3 =>
        (agree_putLe_out (by have := h3 hi; omega)).trans (agree_sealPtrBlock h1 h2)
      link := fun _ => le_putLe_of_lt h32
      last := fun h => (le_putLe_out (by omega)).trans (sealPtrBlock_last h)
      hash := ptrSealed_sealPtrBlock.congr (agree_putLe_out (by omega)) }⟩

theorem PtrStep.slot (h : PtrStep k ctx₀ ctx ctx' i b) (t : ℕ) :
    slotGet ctx' (slotOf t) = slotGet ctx (slotOf t) := by
  unfold slotOf
  split_ifs with ht
  · exact h.sbSlot t ht
  · simp only [slotGet]
    exact le_congr (h.other _ _ (by omega) (by omega) (by omega))

theorem PtrWritten.step (h : PtrWritten k ctx₀ ctx a c (i + 1))
    (hi : i < ctx₀.config.numPtrBlocks) (hs : PtrStep k ctx₀ ctx ctx' i b) :
    PtrWritten k ctx₀ ctx' a (Function.update c i b) i := by
  have hcfg : ctx.config.numPtrBlocks = ctx₀.config.numPtrBlocks := by
    rw [h.map.same.config]
  have hold : ∀ j, i + 1 ≤ j → Function.update c i b j = c j := fun j hj =>
    Function.update_of_ne (by omega) _ _
  have hnew : Function.update c i b i = b := Function.update_self _ _ _
  obtain ⟨page, q, hdisk⟩ := hs.disk
  have hoff := hs.same.passiveFs
  refine ⟨?_, ?_, ?_, ?_, ?_, ?_, ?_, ?_, ?_, ?_, ?_⟩
  · exact h.map.write hs.same hs.grows hs.mapBlocks hdisk hs.small hs.fresh fun t _ => hs.slot t
  · intro j hj hjn
    rcases Nat.eq_or_lt_of_le hj with rfl | hlt
    · rw [hnew]
      exact hs.owned
    · rw [hold j hlt]
      exact (h.owned j hlt hjn).mono hs.grows
  · intro j hj hjn
    rcases Nat.eq_or_lt_of_le hj with rfl | hlt
    · rw [hnew]
      exact hs.small
    · rw [hold j hlt]
      exact h.small j hlt hjn
  · intro j hj hjn t ht
    rcases Nat.eq_or_lt_of_le hj with rfl | hlt
    · rw [hnew]
      exact fun he => hs.fresh (he ▸ h.map.owned t ht)
    · rw [hold j hlt]
      exact h.apart j hlt hjn t ht
  · intro j j' hj hjj hjn
    rw [hold j' (by omega)]
    rcases Nat.eq_or_lt_of_le hj with rfl | hlt
    · rw [hnew]
      exact fun he => hs.fresh (he ▸ h.owned j' (by omega) hjn)
    · rw [hold j hlt]
      exact h.inj j j' hlt hjj hjn
  · intro j hj hjn
    rw [hoff]
    rcases Nat.eq_or_lt_of_le hj with rfl | hlt
    · rw [hnew]
      exact hs.page
    · have hne : b ≠ c j := fun he => hs.fresh (he ▸ h.owned j hlt hjn)
      rw [hold j hlt, hdisk]
      refine (agree_writePage_out hs.small (h.small j hlt hjn) hne).trans ?_
      exact (h.page j hlt hjn).trans (hs.other _ _ (by omega) (by omega) (by omega)).symm
  · intro j hj hjn
    rcases Nat.eq_or_lt_of_le hj with rfl | hlt
    · rw [hnew]
      exact hs.link (by omega)
    · rw [hold (j + 1) hlt, ← h.next j hlt hjn]
      exact le_congr (hs.other _ _ (by omega) (by omega) (by omega))
  · intro _
    by_cases hlast : i + 1 = ctx₀.config.numPtrBlocks
    · rw [show ctx₀.config.numPtrBlocks - 1 = i by omega]
      exact hs.last (by omega)
    · rw [← h.last (by omega)]
      exact le_congr (hs.other _ _ (by omega) (by omega) (by omega))
  · rintro rfl -
    rw [hnew]
    exact hs.first rfl
  · intro h0
    omega
  · intro j hj hjn
    rcases Nat.eq_or_lt_of_le hj with rfl | hlt
    · exact hs.hash
    · exact (h.hash j hlt hjn).congr (hs.other _ _ (by omega) (by omega) (by omega))

/-- **The metadata index after `write_ptr_blocks`**, if what was handed out is distinct. -/
theorem writePtrBlocks_spec (h : writePtrBlocks k ctx = some (0, ctx')) (hidx : ctx.config.Indexed)
    (hh : HandedOut ctx ctx') : ∃ a c, PtrWritten k ctx ctx' a c 0 := by
  simp only [writePtrBlocks, Option.bind_eq_bind, Option.bind_eq_some_iff] at h
  obtain ⟨⟨r, ctx₁⟩, hmap, h⟩ := h
  split_ifs at h with hr
  · simp only [Option.some.injEq, Prod.mk.injEq] at h
    exact absurd h.1 hr
  · simp only [ne_eq, Decidable.not_not] at hr
    subst hr
    have hstate := writeMapBlocks_spec hidx hmap
    simp only [Option.bind_eq_some_iff, hstate.config] at h
    obtain ⟨f, hf, h⟩ := h
    have hinit : HandedOut ctx ctx₁ →
        ∃ a c, PtrWritten k ctx ctx₁ a c ctx.config.numPtrBlocks := by
      intro hh
      obtain ⟨a, ha⟩ := hstate.written hh
      refine ⟨a, fun _ => 0, ha, ?_, ?_, ?_, ?_, ?_, ?_, ?_, ?_, fun _ => hstate.first, ?_⟩ <;>
        intros <;> omega
    have h1 := forLoop_inv
      (I := fun j s => HandedOut ctx s →
        ∃ a c, PtrWritten k ctx s a c (ctx.config.numPtrBlocks - j))
      (B := fun _ => False) (R := fun code _ => code ≠ 0)
      (fun j s g _ hj hs hb => by
        have hkind : g = .next g.state ∨ ∃ t, g = .ret (-28) t := by
          obtain ⟨pb, b, ctx₁, -, -, ⟨-, rfl⟩ | ⟨-, -, rfl⟩ | ⟨-, -, rfl⟩⟩ :=
            writePtrBlock_cases hb
          · exact Or.inr ⟨_, rfl⟩
          · exact Or.inl rfl
          · exact Or.inl rfl
        rcases hkind with hnext | ⟨t, rfl⟩
        · generalize g.state = s' at hnext
          subst hnext
          intro hh'
          obtain ⟨a, c, hc⟩ := hs (hh'.of_grows (writePtrBlock_grows hb))
          obtain ⟨b, hstep⟩ := writePtrBlock_step hc.map.grows hb hh'
          rw [show ctx.config.numPtrBlocks - j = ctx.config.numPtrBlocks - 1 - j + 1 by omega]
            at hc
          rw [show ctx.config.numPtrBlocks - (j + 1) = ctx.config.numPtrBlocks - 1 - j by omega]
          exact ⟨a, _, hc.step (by omega) hstep⟩
        · simp only [Flow.Sat]
          norm_num)
      (by rwa [Nat.sub_zero]) hf
    cases f with
    | ret code s =>
      simp only [Option.some.injEq, Prod.mk.injEq] at h
      exact absurd h.1 h1
    | brk s => exact h1.elim
    | next s =>
      simp only [Option.some.injEq, Prod.mk.injEq, true_and] at h
      subst h
      obtain ⟨a, c, hc⟩ := h1.resolve_right id hh
      rw [Nat.zero_add, Nat.sub_self] at hc
      exact ⟨a, c, hc⟩

/-! ### Progress -/

/-- The next `n` random numbers are free positions of the list, one after the other. -/
structure Ready (ctx : AfsPrivate) (p n : ℕ) : Prop where
  random : ∃ rest, ctx.random = List.range' p n ++ rest
  list : p + n ≤ ctx.passiveFs.listLen ∧ ctx.passiveFs.listLen ≤ ctx.passiveFs.blockList.length
  vector : p + n ≤ ctx.vector.length + 1
  free : ∀ q, p ≤ q → ctx.vector.bits q = false
  valid : afsInvalidBlock ∉ ctx.passiveFs.freeList

theorem Ready.acquire {n : ℕ} (h : Ready ctx p (n + 1)) :
    ∃ b ctx', acquire ctx = some (b, ctx') ∧ b ≠ afsInvalidBlock ∧ Ready ctx' (p + 1) n := by
  obtain ⟨rest, hrest⟩ := h.random
  obtain ⟨h1, h2⟩ := h.list
  have hv := h.vector
  have hp : p < ctx.passiveFs.blockList.length := by omega
  have hlt : p < ctx.passiveFs.listLen := by omega
  have hacq := acquireBlock_of_free hlt (by omega) (h.free p (le_refl p))
    (List.getElem?_eq_getElem hp) (List.range' (p + 1) n ++ rest)
  refine ⟨ctx.passiveFs.blockList[p], { ctx with
    vector := ctx.vector.mark p, random := List.range' (p + 1) n ++ rest }, ?_, ?_, ?_⟩
  · rw [Artifice.acquire, hrest, List.range'_succ, List.cons_append, hacq]
    rfl
  · exact fun he => h.valid (he ▸ mem_freeList (by omega) (List.getElem?_eq_getElem hp))
  · refine ⟨⟨rest, rfl⟩, ⟨by simp only; omega, h2⟩, by simp only [BitVector.mark_length]; omega,
      fun q hq => ?_, h.valid⟩
    simp only [BitVector.mark_bits, h.free q (by omega), Bool.false_or, decide_eq_false_iff_not]
    omega

theorem Ready.congr {n : ℕ} (h : Ready ctx p n) (hr : ctx'.random = ctx.random)
    (hfs : ctx'.passiveFs = ctx.passiveFs) (hv : ctx'.vector = ctx.vector) : Ready ctx' p n := by
  obtain ⟨h1, h2, h3, h4, h5⟩ := h
  exact ⟨hr ▸ h1, hfs ▸ h2, hv ▸ h3, hv ▸ h4, hfs ▸ h5⟩

theorem Ready.writeMapBlock {n : ℕ} {s : AfsPrivate × ℕ} (h : Ready s.1 p (n + 1))
    (hw : s.2 < 2 ^ 32 - 1) (slot : Slot) :
    ∃ s', writeMapBlock false slot s = some (.next s') ∧ s'.2 = s.2 + 1 ∧
      SameInstance s.1 s'.1 ∧ Ready s'.1 (p + 1) n := by
  obtain ⟨b, ctx', hacq, hb, hr⟩ := h.acquire
  obtain ⟨d, hf⟩ : ∃ d, Artifice.writeMapBlock false slot s
      = some (.next ({ slotSet ctx' b slot with disk := d }, (s.2 + 1) % 2 ^ 32)) := by
    simp only [Artifice.writeMapBlock, Bool.false_eq_true, if_false, hacq, Option.bind_eq_bind,
      Option.bind_some, hb]
    exact ⟨_, rfl⟩
  refine ⟨_, hf, by simp only; omega, sameInstance_writeMapBlock hf, ?_⟩
  cases slot <;> exact hr.congr rfl rfl rfl

theorem Ready.writePtrBlock {n : ℕ} (h : Ready ctx p (n + 1)) (k : Kernel) (i : ℕ) :
    ∃ ctx', writePtrBlock k i ctx = some (.next ctx') ∧ Ready ctx' (p + 1) n := by
  have h' : Ready { ctx with afsPtrBlocks := sealPtrBlock k ctx.config i ctx.afsPtrBlocks } p
      (n + 1) := h.congr rfl rfl rfl
  obtain ⟨b, ctx', hacq, hb, hr⟩ := h'.acquire
  simp only [Artifice.writePtrBlock, hacq, Option.bind_eq_bind, Option.bind_some, hb, if_false]
  split_ifs
  · exact ⟨_, rfl, hr.congr rfl rfl rfl⟩
  · exact ⟨_, rfl, hr.congr rfl rfl rfl⟩

/-- The state of a run of `write_map_blocks` that has enough random numbers. -/
def MapReady (ctx : AfsPrivate) (p n w : ℕ) (s : AfsPrivate × ℕ) : Prop :=
  (s.2 = w ∨ s.2 = ctx.config.numMapBlocks) ∧ s.2 ≤ ctx.config.numMapBlocks ∧
    SameInstance ctx s.1 ∧ Ready s.1 (p + s.2) (n - s.2)

theorem MapReady.step {n : ℕ} {s : AfsPrivate × ℕ} {g : Flow (AfsPrivate × ℕ)} (slot : Slot)
    (hs : MapReady ctx p n w s) (hm : ctx.config.numMapBlocks < 2 ^ 20)
    (hn : ctx.config.numMapBlocks ≤ n) (hg : g = .brk s ∨ g = .ret 0 s) :
    ∃ f, (if (s.1.config.numMapBlocks + 2 ^ 32 - s.2) % 2 ^ 32 = 0 then some g
      else Artifice.writeMapBlock false slot s) = some f ∧
      f.Sat (MapReady ctx p n (w + 1)) (MapReady ctx p n ctx.config.numMapBlocks)
        (fun c t => c = 0 ∧ MapReady ctx p n ctx.config.numMapBlocks t) := by
  obtain ⟨hw, hle, hsame, hr⟩ := hs
  rw [hsame.config]
  simp only [blocksLeft_eq_zero hle (show ctx.config.numMapBlocks < 2 ^ 32 by omega)]
  split_ifs with hdone
  · refine ⟨g, rfl, ?_⟩
    rcases hg with rfl | rfl
    · exact ⟨Or.inr hdone, hle, hsame, hr⟩
    · exact ⟨rfl, Or.inr hdone, hle, hsame, hr⟩
  · rw [show n - s.2 = n - (s.2 + 1) + 1 by omega] at hr
    obtain ⟨s', hf, hs', hsame', hr'⟩ := hr.writeMapBlock (by omega) slot
    refine ⟨_, hf, ⟨Or.inl (by omega), by omega, hsame.trans hsame', ?_⟩⟩
    rwa [hs']

theorem Ready.writeMapBlocks {n : ℕ} (hok : ctx.config.Ok) (h : Ready ctx p n)
    (hm : ctx.config.numMapBlocks < 2 ^ 20) (hn : ctx.config.numMapBlocks ≤ n) :
    ∃ ctx', writeMapBlocks ctx false = some (0, ctx') ∧ SameInstance ctx ctx' ∧
      Ready ctx' (p + ctx.config.numMapBlocks) (n - ctx.config.numMapBlocks) := by
  have hptr := hok.ptrBlocks
  have hdone : ∀ t, MapReady ctx p n ctx.config.numMapBlocks t → SameInstance ctx t.1 ∧
      Ready t.1 (p + ctx.config.numMapBlocks) (n - ctx.config.numMapBlocks) := by
    rintro t ⟨ht, -, hsame, hr⟩
    rw [or_self] at ht
    exact ⟨hsame, ht ▸ hr⟩
  obtain ⟨f, hf, h1⟩ : ∃ f, writeMapBlocksSb false 975 0 (ctx, 0) = some f ∧ _ :=
    forLoop_total (I := MapReady ctx p n)
      (fun i s _ _ hs => hs.step (.sb i) hm hn (Or.inr rfl))
      ⟨Or.inl rfl, Nat.zero_le _, SameInstance.refl ctx, h⟩
  simp only [Artifice.writeMapBlocks, Option.bind_eq_bind]
  rw [hf, Option.bind_some]
  cases f with
  | ret c s =>
    obtain ⟨rfl, hs⟩ := h1
    exact ⟨s.1, rfl, hdone s hs⟩
  | brk s => exact h1.elim
  | next s =>
    have hs : MapReady ctx p n (975 + 1019 * 0) s :=
      h1.elim id fun hs => ⟨Or.inr (by have := hs.1; omega), hs.2⟩
    obtain ⟨g, hg, h2⟩ := forLoop_total (n := ctx.config.numPtrBlocks)
      (I := fun i => MapReady ctx p n (975 + 1019 * i)) (B := fun _ => False)
      (R := fun c t => c = 0 ∧ MapReady ctx p n ctx.config.numMapBlocks t)
      (fun i s _ _ hs => by
        obtain ⟨f, hf, h3⟩ : ∃ f, writeMapBlocksPb false i 1019 0 s = some f ∧ _ :=
          forLoop_total (I := fun j => MapReady ctx p n (975 + 1019 * i + j))
            (fun j s _ _ hs => hs.step (.pb i j) hm hn (Or.inl rfl)) hs
        refine ⟨f, hf, ?_⟩
        rw [show 975 + 1019 * (i + 1) = 975 + 1019 * i + (0 + 1019) by omega]
        exact h3.mono (fun t ht => ht.elim id fun ht => ⟨Or.inr (by have := ht.1; omega), ht.2⟩)
          (fun _ => id) (fun _ _ => id))
      hs
    simp only
    rw [hg, Option.bind_some]
    cases g with
    | ret c t =>
      obtain ⟨rfl, ht⟩ := h2
      exact ⟨t.1, rfl, hdone t ht⟩
    | brk t => exact h2.elim
    | next t =>
      obtain ⟨hw, hle, hrest⟩ := h2.resolve_right id
      exact ⟨t.1, rfl, hdone t ⟨Or.inr (by omega), hle, hrest⟩⟩

/-- **With enough random numbers at hand `write_ptr_blocks` returns 0.** -/
theorem Ready.writePtrBlocks {n : ℕ} (h : Ready ctx p n) (hok : ctx.config.Ok)
    (hm : ctx.config.numMapBlocks < 2 ^ 20)
    (hn : ctx.config.numMapBlocks + ctx.config.numPtrBlocks ≤ n) (k : Kernel) :
    ∃ ctx', writePtrBlocks k ctx = some (0, ctx') := by
  obtain ⟨ctx₁, hmap, hsame, hr⟩ := h.writeMapBlocks hok hm (by omega)
  simp only [Artifice.writePtrBlocks, hmap, Option.bind_eq_bind, Option.bind_some, ne_eq,
    not_true_eq_false, if_false, hsame.config]
  obtain ⟨f, hf, h1⟩ : ∃ f, forLoop (fun i => Artifice.writePtrBlock k
      (ctx.config.numPtrBlocks - 1 - i)) ctx.config.numPtrBlocks 0 ctx₁ = some f ∧ _ :=
    forLoop_total (I := fun i s => Ready s (p + ctx.config.numMapBlocks + i)
      (n - ctx.config.numMapBlocks - i)) (B := fun _ => False) (R := fun _ _ => False)
    (fun i s _ hi hs => by
      rw [show n - ctx.config.numMapBlocks - i
        = n - ctx.config.numMapBlocks - (i + 1) + 1 by omega] at hs
      obtain ⟨s', hs', hr'⟩ := hs.writePtrBlock k (ctx.config.numPtrBlocks - 1 - i)
      exact ⟨_, hs', hr'⟩)
    hr
  rw [hf, Option.bind_some]
  cases f with
  | ret c s => exact h1.elim
  | brk s => exact h1.elim
  | next s => exact ⟨s, rfl⟩

end

end Artifice
