import Artifice.Codec.Shamir
import Artifice.Engine.Mapping

/-!
What the carriers of a block stand for: the data block that the four pages decode to, that the
encoders make such pages, and that the decoders open them.
-/

namespace Artifice

open Lib

/-- The numbers that the shares of a block have. -/
def shareNumbers : Mem := fun i => UInt8.ofNat (i + 48)

/-- The data block that carrier pages decode to, for shares with the numbers in `erasures`. -/
def carriersData (k : Kernel) (encoding : EncodingType) (nonce : ℕ → UInt64) (erasures : Mem)
    (pages : ℕ → Mem) : Mem :=
  match encoding with
  | .shamir => fun j => xtime^[lineLog (erasures 0) (erasures 1)] (pages 0 j) ^^^
      xtime^[lineLog (erasures 1) (erasures 0)] (pages 1 j)
  | .aontRs => openPayload k (joinPayload pages k.uninit 2064 2) 4096 nonce
  | .rsEntropy => fun _ => 0

section

variable {k : Kernel} {g : GfCtx} {e : Entropy} {ctx ctx' : AfsPrivate} {req req' : AfsMapRequest}
  {encoding : EncodingType} {nonce : ℕ → UInt64} {erasures : Mem} {pages pages' : ℕ → Mem}
  {n i : ℕ}

theorem numberShares_eq (hi : i < n) : numberShares erasures n i = shareNumbers i := by
  induction n with
  | zero => omega
  | succ n ih =>
    rw [numberShares]
    by_cases h : i = n
    · subst h
      rw [Function.update_self]
      rfl
    · rw [Function.update_of_ne h]
      exact ih (by omega)

theorem shareNumbers_ne_zero (hi : i < 4) : shareNumbers i ≠ 0 := by
  interval_cases i <;> decide

theorem carriersData_congr (h : ∀ i < 2, Agree (pages i) 0 (pages' i) 0 4096) :
    Agree (carriersData k encoding nonce erasures pages) 0
      (carriersData k encoding nonce erasures pages') 0 4096 := by
  cases encoding with
  | shamir =>
    intro j hj
    have h0 := h 0 (by omega) j hj
    have h1 := h 1 (by omega) j hj
    simp only [Nat.zero_add] at h0 h1 ⊢
    simp only [carriersData, h0, h1]
  | aontRs =>
    refine agree_openPayload (n := 512) ?_
    have hjoin : Agree (joinPayload pages k.uninit 2064 2) 0
        (joinPayload pages' k.uninit 2064 2) 0 (2 * 2064) := by
      refine agree_joinPayload_of_shares fun i hi => ?_
      exact Agree.trans (fun j hj => h i hi j (by omega)) (agree_joinPayload hi).symm
    exact fun j hj => hjoin j (by omega)
  | rsEntropy => exact fun _ _ => rfl

/-- **The data itself is no package of it**: pages one of which starts as its part of the data do
not decode to the data. -/
theorem not_agree_carriersData_aontRs {d : Mem} (hi : i < 2)
    (h : Agree (pages i) 0 d (2064 * i) 32) :
    ¬ Agree (carriersData k .aontRs nonce erasures pages) 0 d 0 4096 := by
  have hjoin : Agree (joinPayload pages k.uninit 2064 2) (16 * (129 * i)) d (16 * (129 * i)) 32 := by
    intro j hj
    have hpart : Agree (joinPayload pages k.uninit 2064 2) (2064 * i) (pages i) 0 2064 :=
      agree_joinPayload hi
    rw [show 16 * (129 * i) = 2064 * i by omega]
    exact (hpart j (by omega)).trans (h j hj)
  exact not_agree_openPayload (n := 512) hjoin (by omega)

theorem exists_apply_ne {f : UInt8 → UInt8} (hf : Function.Injective f) (y : UInt8) :
    ∃ v, f v ≠ y := by
  by_contra h
  push Not at h
  exact absurd (hf ((h 0).trans (h 1).symm)) (by decide)

/-- **Each of the first two carriers can spoil a block**, by its first bytes alone. -/
theorem exists_spoiled (k : Kernel) (nonce : ℕ → UInt64) (erasures : Mem) (pages : ℕ → Mem)
    (henc : encoding ≠ .rsEntropy) (hi : i < 2) (d : Mem) :
    ∃ head : Mem, ∀ pages', (∀ j < 2, j ≠ i → Agree (pages' j) 0 (pages j) 0 4096) →
      Agree (pages' i) 0 head 0 32 →
      ¬ Agree (carriersData k encoding nonce erasures pages') 0 d 0 4096 := by
  cases encoding with
  | aontRs =>
    refine ⟨fun t => d (2064 * i + t), fun pages' _ hhead => ?_⟩
    refine not_agree_carriersData_aontRs hi fun t ht => (hhead t ht).trans ?_
    rw [Nat.zero_add]
  | shamir =>
    have hinj (l : ℕ) : Function.Injective xtime^[l] := gfAntilog.injective.iterate l
    obtain rfl | rfl : i = 0 ∨ i = 1 := by omega
    · obtain ⟨v, hv⟩ := exists_apply_ne (f := fun v =>
        xtime^[lineLog (erasures 0) (erasures 1)] v ^^^
          xtime^[lineLog (erasures 1) (erasures 0)] (pages 1 0))
        (fun v w h => hinj _ ((UInt8.xor_left_inj _).1 h)) (d 0)
      refine ⟨fun _ => v, fun pages' hother hhead hagree => hv ?_⟩
      have hbyte := hagree 0 (by norm_num)
      simp only [carriersData, Nat.zero_add] at hbyte
      rwa [hhead 0 (by norm_num), hother 1 (by norm_num) (by norm_num) 0 (by norm_num)] at hbyte
    · obtain ⟨v, hv⟩ := exists_apply_ne (f := fun v =>
        xtime^[lineLog (erasures 0) (erasures 1)] (pages 0 0) ^^^
          xtime^[lineLog (erasures 1) (erasures 0)] v)
        (fun v w h => hinj _ ((UInt8.xor_right_inj _).1 h)) (d 0)
      refine ⟨fun _ => v, fun pages' hother hhead hagree => hv ?_⟩
      have hbyte := hagree 0 (by norm_num)
      simp only [carriersData, Nat.zero_add] at hbyte
      rwa [hhead 0 (by norm_num), hother 0 (by norm_num) (by norm_num) 0 (by norm_num)] at hbyte
  | rsEntropy => exact absurd rfl henc

/-! ### Encoding -/

theorem line_equal (s : UInt8) :
    xtime^[lineLog (shareNumbers 0) (shareNumbers 1)] s ^^^
      xtime^[lineLog (shareNumbers 1) (shareNumbers 0)] s = s := by
  have h0 : lineLog (shareNumbers 0) (shareNumbers 1) = gfLog (shareNumbers 1) := by decide +kernel
  have h1 : lineLog (shareNumbers 1) (shareNumbers 0) = gfLog (shareNumbers 0) := by decide +kernel
  have hlog : ∀ x, 2 * gfLog x < 510 := fun x => by
    have := gfLog_lt x
    omega
  rw [h0, h1]
  exact gfAntilog.iterate_log_xor hlog (by decide) (by decide) (by decide) s

theorem line_shares (r s : UInt8) :
    xtime^[lineLog (shareNumbers 0) (shareNumbers 1)]
        (xtime^[gfLog (shareNumbers 0)] r ^^^ s) ^^^
      xtime^[lineLog (shareNumbers 1) (shareNumbers 0)]
        (xtime^[gfLog (shareNumbers 1)] r ^^^ s) = s := by
  have h0 : lineLog (shareNumbers 0) (shareNumbers 1) = gfLog (shareNumbers 1) := by decide +kernel
  have h1 : lineLog (shareNumbers 1) (shareNumbers 0) = gfLog (shareNumbers 0) := by decide +kernel
  have hs := line_equal s
  rw [h0, h1] at hs
  -- the random byte is multiplied with both share numbers on both sides
  have hr : xtime^[gfLog (shareNumbers 1)] (xtime^[gfLog (shareNumbers 0)] r) =
      xtime^[gfLog (shareNumbers 0)] (xtime^[gfLog (shareNumbers 1)] r) := by
    rw [← Function.iterate_add_apply, ← Function.iterate_add_apply, Nat.add_comm]
  rw [h0, h1, gfAntilog.iterate_xor, gfAntilog.iterate_xor, hr]
  calc _ = (xtime^[gfLog (shareNumbers 0)] (xtime^[gfLog (shareNumbers 1)] r) ^^^
          xtime^[gfLog (shareNumbers 0)] (xtime^[gfLog (shareNumbers 1)] r)) ^^^
        (xtime^[gfLog (shareNumbers 1)] s ^^^ xtime^[gfLog (shareNumbers 0)] s) := by ac_rfl
    _ = s := by rw [UInt8.xor_self, UInt8.zero_xor, hs]

theorem agree_carriersData_shamir {d : Mem} (h : ∀ i < 2, Agree (pages i) 0 d 0 4096) :
    Agree (carriersData k .shamir nonce shareNumbers pages) 0 d 0 4096 := by
  intro j hj
  have h0 := h 0 (by norm_num) j hj
  have h1 := h 1 (by norm_num) j hj
  rw [Nat.zero_add] at h0 h1 ⊢
  simp only [carriersData, h0, h1]
  exact line_equal (d j)

/-- **The encoders make pages that stand for the data block.** -/
theorem encodeRequest_spec (hk : ∀ n, k.kmalloc n = true) (hn : ctx.config.numCarrierBlocks = 4)
    (henc : req.encodingType ≠ .rsEntropy) (her : ∀ i < 4, req.erasures i = shareNumbers i)
    (h : encodeRequest k g e ctx req = some (ctx', req')) :
    Agree (carriersData k req.encodingType (ivWords req.iv) shareNumbers req'.carrierBlocks) 0
      req.dataBlock 0 4096 := by
  unfold encodeRequest at h
  split at h
  next hs =>
    rw [hs]
    simp only [Option.bind_eq_bind, Option.bind_eq_some_iff, Option.some.injEq,
      Prod.mk.injEq] at h
    obtain ⟨encoder, hinit, -, rfl⟩ := h
    rw [hn] at hinit
    obtain ⟨r, hr⟩ := gfshareCtxEncGetshares_two (by norm_num) hinit e.seed req.dataBlock
      req.carrierBlocks
    intro j hj
    rw [Nat.zero_add]
    simp only [carriersData]
    rw [hr 0 (by norm_num) j hj, hr 1 (by norm_num) j hj, her 0 (by norm_num), her 1 (by norm_num),
      line_shares]
  next hs =>
    rw [hs]
    simp only [Option.some.injEq, Prod.mk.injEq] at h
    obtain ⟨-, rfl⟩ := h
    simp only [carriersData]
    have hjoin : Agree (joinPayload (encodeAontPackage k g e.key
          (fun i => ctx.afsMap (mapEntryDifference ctx req + i)) req.dataBlock 4096
          req.carrierBlocks 2 (ctx.config.numCarrierBlocks - 2) (ivWords req.iv)).2.2
          k.uninit 2064 2) 0
        (sealPayload k e.key (fun i => ctx.afsMap (mapEntryDifference ctx req + i)) req.dataBlock
          4096 (ivWords req.iv)) 0 (2 * 2064) :=
      agree_joinPayload_of_shares fun i hi => agree_encodeAontPackage (hk _) hi
    exact (agree_openPayload (n := 512) hjoin).trans (agree_openPayload_sealPayload (n := 512))
  next hs => exact absurd hs henc

/-! ### Decoding -/

/-- The decoder that a read of a shared block has prepared. -/
def DecoderReady (k : Kernel) (req : AfsMapRequest) : Prop :=
  req.encodingType = .shamir → ∃ er, req.encoder = gfshareCtxInitDec k er 4 2 4096

/-- **The decoders open the pages.** Besides, they change the difference field of the entry. -/
theorem decodeRequest_spec (hk : ∀ n, k.kmalloc n = true) (hn : ctx.config.numCarrierBlocks = 4)
    (henc : req.encodingType ≠ .rsEntropy) (hready : DecoderReady k req)
    (h0 : req.numErasures = 0) (her : ∀ i < 2, req.erasures i ≠ 0) :
    ∃ map dataBlock, decodeRequest k g ctx req = some ({ ctx with afsMap := map },
        { req with dataBlock }) ∧
      (∀ j, j < mapEntryDifference ctx req ∨ mapEntryDifference ctx req + 32 ≤ j →
        map j = ctx.afsMap j) ∧
      Agree dataBlock 0 (carriersData k req.encodingType (ivWords req.iv) req.erasures
        req.carrierBlocks) 0 4096 := by
  unfold decodeRequest
  cases hs : req.encodingType with
  | shamir =>
    obtain ⟨er, hinit⟩ := hready hs
    simp only [gfshareCtxInitDec, gfshareCtxInitCore, hk] at hinit
    rw [if_neg (by norm_num), if_pos (by simp)] at hinit
    simp only [hinit, Option.bind_eq_bind, Option.bind_some]
    refine ⟨ctx.afsMap, _, rfl, fun _ _ => rfl, fun j hj => ?_⟩
    rw [Nat.zero_add]
    exact gfshareCtxDecDecode_two rfl (by norm_num) (le_refl 4096) (by norm_num) (her 0 (by omega))
      (her 1 (by omega)) req.dataBlock hj
  | aontRs =>
    simp only [h0]
    rw [decodeAontPackage_zero (hk _) (by norm_num) (by rw [hn]; norm_num) (by norm_num)
      (by rw [hn]; norm_num)]
    simp only [Option.bind_eq_bind, Option.bind_some]
    exact ⟨_, _, rfl, fun j hj => blit_out hj, agree_blit _ _ _ _ _⟩
  | rsEntropy => exact absurd hs henc

end

end Artifice
