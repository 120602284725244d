import Artifice.Codec.Aont
import Artifice.Codec.Recover

/-!
The AONT-RS package as a code word.

With the tables of `gf_init` the shares of a package are a code word: its parity shares are
combinations of its data shares. So `decode_aont_package` gets the payload back when some of the
data shares are lost, and two of four shares are enough to know the payload.
-/

namespace Artifice

open Lib ByteField

section

variable {t : FieldTables} {g : GfCtx} {k : Kernel} {key : Fin 4 → UInt64} {nonce : ℕ → UInt64}
  {difference data erasures : Mem} {shares damaged : ℕ → Mem} {n L numErasures : ℕ} {m : ℤ}

/-! ### Losses of data shares -/

theorem encodeAontPackage_shares (hk : k.kmalloc (L + 32) = true) :
    (encodeAontPackage k g key difference data L shares n m nonce).2.2 =
      (cauchyRsEncode g ⟨n, m, ((L + 32) / n : ℕ)⟩
        (splitPayload shares (sealPayload k key difference data L nonce) ((L + 32) / n) n)
        (fun i => i) (fun i => n + i)).2 := by
  simp only [encodeAontPackage, hk, if_true]
  rfl

/-- Two of the four shares of a code word determine its data shares. -/
def TwoSharesDetermine (g : GfCtx) (bytes : ℕ) : Prop :=
  ∀ (pages pages' : ℕ → Mem) (a b : ℕ), a < b → b < 4 →
    (∀ s, s = a ∨ s = b →
      Agree ((cauchyRsEncode g ⟨2, 2, bytes⟩ pages (fun i => i) (fun i => 2 + i)).2 s) 0
        ((cauchyRsEncode g ⟨2, 2, bytes⟩ pages' (fun i => i) (fun i => 2 + i)).2 s) 0 bytes) →
    ∀ j < 2, Agree (pages j) 0 (pages' j) 0 bytes

theorem ofByte_parity_two (hg : g.Valid t) {bytes i q : ℕ} (hi : i < 2) (hq : q < bytes)
    (pages : ℕ → Mem) :
    ofByte t ((cauchyRsEncode g ⟨2, 2, bytes⟩ pages (fun i => i) (fun i => 2 + i)).2 (2 + i) q) =
      ∑ j ∈ Finset.range 2, ofByte t (getMatrixElement g (UInt8.ofNat (2 + i)) (UInt8.ofNat 2)
        (UInt8.ofNat j)) * ofByte t (pages j q) := by
  have hi' : (i : ℤ) < 2 := by omega
  exact @ofByte_cauchyRsEncode t g ⟨2, 2, bytes⟩ pages (fun i => i) (fun i => 2 + i) hg 2 i q rfl
    (by norm_num) (by norm_num) hi' (fun h => absurd h (by norm_num))
    (fun _ _ h => Nat.add_left_cancel h) (fun i _ j hj h => by omega) hq

/-- The coefficients of a share: of itself, or a row of the matrix. -/
def shareCoefficient (t : FieldTables) (s j : ℕ) : ByteField t :=
  if s < 2 then if s = j then 1 else 0
  else (ofByte t (UInt8.ofNat 2) + ofByte t (UInt8.ofNat j)) /
    (ofByte t (UInt8.ofNat s) + ofByte t (UInt8.ofNat j))

theorem ofByte_share_two (hg : g.Valid t) {bytes s q : ℕ} (hs : s < 4) (hq : q < bytes)
    (pages : ℕ → Mem) :
    ofByte t ((cauchyRsEncode g ⟨2, 2, bytes⟩ pages (fun i => i) (fun i => 2 + i)).2 s q) =
      shareCoefficient t s 0 * ofByte t (pages 0 q) +
        shareCoefficient t s 1 * ofByte t (pages 1 q) := by
  by_cases h2 : s < 2
  · rw [cauchyRsEncode_out fun b _ => by omega]
    rcases (by omega : s = 0 ∨ s = 1) with rfl | rfl
    · simp [shareCoefficient]
    · simp [shareCoefficient]
  · obtain ⟨i, rfl⟩ : ∃ i, s = 2 + i := ⟨s - 2, by omega⟩
    rw [ofByte_parity_two hg (by omega) hq, Finset.sum_range_succ, Finset.sum_range_one,
      ofByte_getMatrixElement hg, ofByte_getMatrixElement hg, shareCoefficient, if_neg h2,
      shareCoefficient, if_neg h2]

theorem shareCoefficient_det {a b : ℕ} (hab : a < b) (hb : b < 4) :
    shareCoefficient t a 0 * shareCoefficient t b 1 -
      shareCoefficient t a 1 * shareCoefficient t b 0 ≠ 0 := by
  have hne : ∀ i < 4, ∀ j < 4, i ≠ j →
      ofByte t (UInt8.ofNat i) + ofByte t (UInt8.ofNat j) ≠ 0 := fun i hi j hj h =>
    ofNat_add_ne_zero (by omega) (by omega) h
  have hrow : ∀ s, 2 ≤ s → s < 4 → ∀ j < 2, shareCoefficient t s j ≠ 0 := by
    intro s hs hs4 j hj
    rw [shareCoefficient, if_neg (by omega)]
    exact div_ne_zero (hne 2 (by norm_num) j (by omega) (by omega))
      (hne s hs4 j (by omega) (by omega))
  rcases (by omega : (a = 0 ∧ b = 1) ∨ (a = 0 ∧ 2 ≤ b) ∨ (a = 1 ∧ 2 ≤ b) ∨ (a = 2 ∧ b = 3)) with
    ⟨rfl, rfl⟩ | ⟨rfl, hb2⟩ | ⟨rfl, hb2⟩ | ⟨rfl, rfl⟩
  · simp [shareCoefficient]
  · have := hrow b hb2 hb 1 (by norm_num)
    have h0 : shareCoefficient t 0 0 = 1 := by simp [shareCoefficient]
    have h1 : shareCoefficient t 0 1 = 0 := by simp [shareCoefficient]
    rwa [h0, h1, one_mul, zero_mul, sub_zero]
  · have := hrow b hb2 hb 0 (by norm_num)
    have h0 : shareCoefficient t 1 0 = 0 := by simp [shareCoefficient]
    have h1 : shareCoefficient t 1 1 = 1 := by simp [shareCoefficient]
    rwa [h0, h1, one_mul, zero_mul, zero_sub, neg_ne_zero]
  · -- the difference of two entries of a Cauchy matrix
    have h20 := hne 2 (by norm_num) 0 (by norm_num) (by norm_num)
    have h21 := hne 2 (by norm_num) 1 (by norm_num) (by norm_num)
    have h30 := hne 3 (by norm_num) 0 (by norm_num) (by norm_num)
    have h31 := hne 3 (by norm_num) 1 (by norm_num) (by norm_num)
    have h23 := hne 2 (by norm_num) 3 (by norm_num) (by norm_num)
    have h01 := hne 0 (by norm_num) 1 (by norm_num) (by norm_num)
    rw [← ByteField.sub_eq] at h23 h01
    intro h
    simp only [shareCoefficient, if_neg (by norm_num : ¬(2 : ℕ) < 2),
      if_neg (by norm_num : ¬(3 : ℕ) < 2)] at h
    rw [div_self h20, div_self h21, one_mul, one_mul, div_sub_div _ _ h31 h30,
      div_eq_zero_iff] at h
    have hnum := h.resolve_right (mul_ne_zero h31 h30)
    refine mul_ne_zero h23 h01 ?_
    rw [← hnum]
    ring

/-- **With the tables of a field, two of four shares determine the data.** -/
theorem GfCtx.Valid.twoSharesDetermine (hg : g.Valid t) (bytes : ℕ) :
    TwoSharesDetermine g bytes := by
  intro pages pages' a b hab hb hagree j hj q hq
  have heq : ∀ s, s = a ∨ s = b → shareCoefficient t s 0 * (ofByte t (pages 0 q) -
      ofByte t (pages' 0 q)) + shareCoefficient t s 1 * (ofByte t (pages 1 q) -
      ofByte t (pages' 1 q)) = 0 := by
    intro s hs
    have h := hagree s hs q hq
    rw [Nat.zero_add] at h
    have h := congrArg (ofByte t) h
    rw [ofByte_share_two hg (by omega) hq, ofByte_share_two hg (by omega) hq] at h
    linear_combination h
  have hdet := shareCoefficient_det (t := t) hab hb
  have ha := heq a (.inl rfl)
  have hb := heq b (.inr rfl)
  rw [Nat.zero_add]
  refine ofByte_injective (t := t) (sub_eq_zero.1 ((mul_eq_zero.1 ?_).resolve_left hdet))
  rcases (by omega : j = 0 ∨ j = 1) with rfl | rfl
  · linear_combination shareCoefficient t b 1 * ha - shareCoefficient t a 1 * hb
  · linear_combination shareCoefficient t a 0 * hb - shareCoefficient t b 0 * ha

end

end Artifice
