import Mathlib.Data.FinEnum
import Artifice.Codec.Shamir

/-!
What shares say about the secret.

When the coefficients can be any bytes, fewer shares than the threshold say nothing: for every two
secrets there is a polynomial that is the difference of the two at zero and vanishes at the numbers
of the shares that are seen. Its coefficients are a mask: the shares of the one secret with some
coefficients are those of the other secret with the masked ones. As many shares as the threshold
tell any two secrets apart.

The generator of the source expands a seed of 128 bits. One share and the seed give the secret, so
that a share of a secret longer than the seed cannot be a share of every other secret as well.
-/

namespace Artifice

open Lib Polynomial

/-! ### Polynomials that vanish -/

section Vanishing

variable {F : Type} [Field F]

theorem hornerPoly_congr {b b' : ℕ → F} {m : ℕ} (h : ∀ c ≤ m, b c = b' c) :
    hornerPoly b m = hornerPoly b' m := by
  induction m with
  | zero => rw [hornerPoly, hornerPoly, h 0 le_rfl]
  | succ m ih =>
    rw [hornerPoly, hornerPoly, ih fun c hc => h c (Nat.le_succ_of_le hc), h (m + 1) le_rfl]

theorem hornerPoly_add (b b' : ℕ → F) (m : ℕ) :
    hornerPoly (fun c => b c + b' c) m = hornerPoly b m + hornerPoly b' m := by
  induction m with
  | zero => rw [hornerPoly, hornerPoly, hornerPoly, C_add]
  | succ m ih =>
    rw [hornerPoly, hornerPoly, hornerPoly, ih, C_add]
    ring

theorem last_of_eval_hornerPoly {b b' : ℕ → F} {m : ℕ} (h : ∀ c < m, b c = b' c) (x : F)
    (heval : (hornerPoly b m).eval x = (hornerPoly b' m).eval x) : b m = b' m := by
  cases m with
  | zero => rwa [hornerPoly, hornerPoly, eval_C, eval_C] at heval
  | succ m =>
    have hsame := hornerPoly_congr fun c hc => h c (Nat.lt_succ_of_le hc)
    rw [hornerPoly, hornerPoly, hsame, eval_add, eval_add, eval_C, eval_C] at heval
    exact add_left_cancel heval

theorem hornerPoly_coeff {p : F[X]} {m : ℕ} (h : p.natDegree ≤ m) :
    hornerPoly (fun c => p.coeff (m - c)) m = p := by
  induction m generalizing p with
  | zero =>
    rw [hornerPoly]
    exact (eq_C_of_natDegree_le_zero h).symm
  | succ m ih =>
    have hdiv : p.divX.natDegree ≤ m := by
      rw [natDegree_divX_eq_natDegree_tsub_one]
      omega
    conv_rhs => rw [← divX_mul_X_add p, ← ih hdiv]
    rw [hornerPoly, Nat.sub_self]
    congr 2
    refine hornerPoly_congr fun c hc => ?_
    rw [coeff_divX]
    congr 1
    omega

/-- **A polynomial with a given value at zero** vanishes at nodes that are fewer than its
coefficients, if none of them is zero. -/
theorem exists_vanishing {s : Finset ℕ} {x : ℕ → F} {m : ℕ} (hx : ∀ i ∈ s, x i ≠ 0)
    (hs : s.card ≤ m) (d : F) :
    ∃ b : ℕ → F, b m = d ∧ ∀ i ∈ s, (hornerPoly b m).eval (x i) = 0 := by
  obtain ⟨p, hp⟩ : ∃ p, p = ∏ i ∈ s, (X - C (x i)) := ⟨_, rfl⟩
  have hdegree : (C (d * (p.eval 0)⁻¹) * p).natDegree ≤ m := by
    refine (natDegree_C_mul_le _ _).trans ?_
    rw [hp, natDegree_prod_of_monic _ _ fun i _ => monic_X_sub_C (x i)]
    simpa using hs
  have hzero : p.eval 0 ≠ 0 := by
    rw [hp, eval_prod]
    refine Finset.prod_ne_zero_iff.2 fun i hi => ?_
    simpa using hx i hi
  refine ⟨fun c => (C (d * (p.eval 0)⁻¹) * p).coeff (m - c), ?_, fun i hi => ?_⟩
  · dsimp only
    rw [Nat.sub_self, coeff_zero_eq_eval_zero, eval_mul, eval_C, mul_assoc, inv_mul_cancel₀ hzero,
      mul_one]
  · rw [hornerPoly_coeff hdegree, eval_mul]
    have hroot : p.eval (x i) = 0 := by
      rw [hp, eval_prod]
      exact Finset.prod_eq_zero hi (by simp)
    rw [hroot, mul_zero]

end Vanishing

/-! ### Shares -/

/-- The shares in `seen` say nothing about the secret, when one of the choices in `ι` is made at
random: for every two secrets the choices can be permuted, such that the shares of the one secret
are those of the other secret with the permuted choice. -/
def Hides {ι : Type} (fillRand : ι → Mem → ℕ → Mem) (enc : GfshareCtx) (size : ℕ)
    (seen : Finset ℕ) : Prop :=
  ∀ secret secret' : Mem, ∃ σ : Equiv.Perm ι, ∀ (r : ι) (shares : ℕ → Mem), ∃ encoded encoded',
    encGetsharesChecked (fillRand r) enc secret shares = some encoded ∧
    encGetsharesChecked (fillRand (σ r)) enc secret' shares = some encoded' ∧
    ∀ i ∈ seen, Agree (encoded i) 0 (encoded' i) 0 size

/-- The bytes `r`, and zeros behind them. -/
def drawn {n : ℕ} (r : Fin n → UInt8) : Mem := fun i => if h : i < n then r ⟨i, h⟩ else 0

/-- A generator that draws the bytes `r`. -/
def drawing {n : ℕ} (r : Fin n → UInt8) (buffer : Mem) (count : ℕ) : Mem :=
  blit buffer 0 (drawn r) 0 count

section

variable {enc : GfshareCtx} {k : Kernel} {sharenrs secret secret' : Mem}
  {seed : UInt64 × UInt64} {n t size i j c : ℕ} {seen : Finset ℕ}

theorem hides_iff_bytes {ι : Type} {fillRand : ι → Mem → ℕ → Mem}
    (henc : gfshareCtxInitEnc k sharenrs n t size = some enc) (hseen : seen ⊆ Finset.range n) :
    Hides fillRand enc size seen ↔ ∀ secret secret' : Mem, ∃ σ : Equiv.Perm ι,
      ∀ (r : ι) (shares : ℕ → Mem), ∀ i ∈ seen, ∀ j < size,
        getshare (sharingContext (fillRand r) enc secret) i (shares i) j =
          getshare (sharingContext (fillRand (σ r)) enc secret') i (shares i) j := by
  obtain ⟨-, hcore⟩ := gfshareCtxInitEnc_eq henc
  have hcount : enc.sharecount = n := (gfshareCtxInitCore_eq hcore).2.2.2.1
  refine forall₂_congr fun secret secret' => exists_congr fun σ => forall₂_congr fun r shares => ?_
  simp only [encGetsharesChecked_eq, Option.some.injEq, exists_and_left, exists_eq_left', hcount]
  refine forall₂_congr fun i hi => forall₂_congr fun j _ => ?_
  rw [Nat.zero_add, if_pos (Finset.mem_range.1 (hseen hi)), if_pos (Finset.mem_range.1 (hseen hi))]

/-! ### Coefficients that can be anything -/

theorem drawing_out {m : ℕ} (r : Fin m → UInt8) (buffer : Mem) (count i : ℕ) (h : count ≤ i) :
    drawing r buffer count i = buffer i :=
  blit_out (Or.inr (by omega))

/-- The coefficients of a byte: those that were drawn, and the byte of the secret. -/
def drawnCoeff (t size : ℕ) (secret : Mem) (r : Fin ((t - 1) * size) → UInt8) (j c : ℕ) :
    ByteField gfshareTables :=
  if c < t - 1 then gf (drawn r (c * size + j)) else gf (secret j)

theorem coeff_lt (hc : c < t - 1) (hj : j < size) : c * size + j < (t - 1) * size := by
  have hle := Nat.mul_le_mul_right size (show c + 1 ≤ t - 1 from hc)
  rw [Nat.succ_mul] at hle
  omega

theorem getshare_drawing (hsize : n * size < 2 ^ 32)
    (henc : gfshareCtxInitEnc k sharenrs n t size = some enc) (hi : i < n) (hj : j < size)
    (r : Fin ((t - 1) * size) → UInt8) (share : Mem) :
    gf (getshare (sharingContext (drawing r) enc secret) i share j) =
      (hornerPoly (drawnCoeff t size secret r j) (t - 1)).eval (gf (sharenrs i)) := by
  rw [getshare_sharing hsize henc hi hj, hornerPoly_congr fun c hc => ?_]
  rw [drawnCoeff]
  split_ifs with hlt
  · rw [sharingContext_buffer hsize henc, drawing, blit_zero_in (coeff_lt hlt hj)]
  · obtain rfl : c = t - 1 := by omega
    rw [sharingContext_secret hsize (drawing_out r) henc hj secret]

/-- The bytes that make up the coefficients `b`. -/
def maskOf (t size : ℕ) (b : ℕ → ℕ → ByteField gfshareTables) (x : Fin ((t - 1) * size)) : UInt8 :=
  (b (x % size) (x / size)).toByte

theorem mask_involutive {m : ℕ} (mask : Fin m → UInt8) :
    Function.Involutive fun (r : Fin m → UInt8) x => r x ^^^ mask x := by
  intro r
  funext x
  show r x ^^^ mask x ^^^ mask x = r x
  rw [UInt8.xor_assoc, UInt8.xor_self, UInt8.xor_zero]

/-- Drawn bytes under a mask. -/
def maskPerm {m : ℕ} (mask : Fin m → UInt8) : Equiv.Perm (Fin m → UInt8) :=
  (mask_involutive mask).toPerm

theorem drawnCoeff_mask {b : ℕ → ℕ → ByteField gfshareTables} (hj : j < size)
    (hlast : b j (t - 1) = gf (secret j ^^^ secret' j)) (hc : c ≤ t - 1)
    (r : Fin ((t - 1) * size) → UInt8) :
    drawnCoeff t size secret' (maskPerm (maskOf t size b) r) j c =
      drawnCoeff t size secret r j c + b j c := by
  unfold drawnCoeff
  split_ifs with hlt
  · have hdiv : (c * size + j) / size = c := by
      rw [Nat.mul_comm, Nat.mul_add_div (by omega), Nat.div_eq_of_lt hj, Nat.add_zero]
    have hmod : (c * size + j) % size = j := by
      rw [Nat.mul_comm, Nat.mul_add_mod, Nat.mod_eq_of_lt hj]
    rw [drawn, drawn, dif_pos (coeff_lt hlt hj), dif_pos (coeff_lt hlt hj)]
    simp only [maskPerm, maskOf, Function.Involutive.coe_toPerm, hdiv, hmod]
    rfl
  · obtain rfl : c = t - 1 := by omega
    rw [hlast, gf_xor, ← add_assoc, ByteField.add_self, zero_add]

/-- **Fewer shares than the threshold hide the secret.** -/
theorem hides_of_few (hsize : n * size < 2 ^ 32)
    (henc : gfshareCtxInitEnc k sharenrs n t size = some enc) (hseen : seen ⊆ Finset.range n)
    (hcard : seen.card < t) :
    Hides (drawing (n := (t - 1) * size)) enc size seen := by
  rw [hides_iff_bytes henc hseen]
  intro secret secret'
  obtain ⟨hnz, hcore⟩ := gfshareCtxInitEnc_eq henc
  obtain ⟨hsize1, ht1, -⟩ := gfshareCtxInitCore_eq hcore
  -- one polynomial for every byte
  have hvanish := fun j => exists_vanishing (s := seen) (x := fun i => gf (sharenrs i)) (m := t - 1)
    (fun i hi => by
      rw [Ne, ByteField.ofByte_eq_zero]
      exact hnz i (Finset.mem_range.1 (hseen hi))) (by omega) (gf (secret j ^^^ secret' j))
  choose b hlast hroot using hvanish
  refine ⟨maskPerm (maskOf t size b), fun r shares i hi j hj => ?_⟩
  have hlt := Finset.mem_range.1 (hseen hi)
  refine ByteField.ofByte_injective (t := gfshareTables) ?_
  show gf _ = gf _
  rw [getshare_drawing hsize henc hlt hj, getshare_drawing hsize henc hlt hj,
    hornerPoly_congr fun c hc => drawnCoeff_mask hj (hlast j) hc r, hornerPoly_add, eval_add,
    hroot j i hi, add_zero]

/-- **As many shares as the threshold do not**, whatever generator is used: they tell two secrets
apart. -/
theorem not_hides_of_enough {ι : Type} [Inhabited ι] {fillRand : ι → Mem → ℕ → Mem}
    (hsize : n * size < 2 ^ 32)
    (hrand : ∀ r buffer count i, count ≤ i → fillRand r buffer count i = buffer i)
    (henc : gfshareCtxInitEnc k sharenrs n t size = some enc)
    (hdistinct : ∀ i < n, ∀ j < n, sharenrs i = sharenrs j → i = j)
    (hseen : seen ⊆ Finset.range n) (hcard : t ≤ seen.card) :
    ¬ Hides fillRand enc size seen := by
  intro hhides
  obtain ⟨-, hcore⟩ := gfshareCtxInitEnc_eq henc
  have hsize1 : 1 ≤ size := (gfshareCtxInitCore_eq hcore).1
  obtain ⟨σ, hσ⟩ := (hides_iff_bytes henc hseen).1 hhides (fun _ => 0) fun _ => 1
  obtain ⟨f, hf, hzero, hshare⟩ := exists_sharePoly hsize (hrand default) henc hsize1 (fun _ => 0)
    fun _ _ => 0
  obtain ⟨f', hf', hzero', hshare'⟩ := exists_sharePoly hsize (hrand (σ default)) henc hsize1
    (fun _ => 1) fun _ _ => 0
  -- two polynomials of degree below the threshold that agree at the shares
  have hinj : Set.InjOn (fun i => gf (sharenrs i)) seen := by
    intro i hi j hj heq
    exact hdistinct i (Finset.mem_range.1 (hseen hi)) j (Finset.mem_range.1 (hseen hj))
      (ByteField.ofByte_injective heq)
  have heq : f = f' := by
    refine eq_of_degrees_lt_of_eval_index_eq seen hinj (hf.trans_le ?_) (hf'.trans_le ?_) ?_
    · exact_mod_cast hcard
    · exact_mod_cast hcard
    · intro i hi
      have hlt := Finset.mem_range.1 (hseen hi)
      rw [← hshare i hlt, ← hshare' i hlt]
      exact congrArg gf (hσ default (fun _ _ => 0) i hi 0 hsize1)
  rw [heq, hzero'] at hzero
  exact absurd (ByteField.ofByte_injective hzero) (by decide)

/-! ### Coefficients from a seed -/

/-- **One share and the seed give the secret.** -/
theorem secret_of_share (hsize : n * size < 2 ^ 32)
    (henc : gfshareCtxInitEnc k sharenrs n t size = some enc) (hi : i < n) (hj : j < size)
    {share : Mem} (h : getshare (sharingContext (gfshareFillRand seed) enc secret) i share j =
      getshare (sharingContext (gfshareFillRand seed) enc secret') i share j) :
    secret j = secret' j := by
  refine ByteField.ofByte_injective (t := gfshareTables) ?_
  have heval := congrArg gf h
  rw [getshare_sharing hsize henc hi hj, getshare_sharing hsize henc hi hj] at heval
  have hlast := last_of_eval_hornerPoly (fun c hc => ?_) _ heval
  · rwa [sharingContext_secret hsize (gfshareFillRand_out seed) henc hj,
      sharingContext_secret hsize (gfshareFillRand_out seed) henc hj] at hlast
  · -- the coefficients that are drawn do not depend on the secret
    rw [sharingContext_buffer hsize henc, sharingContext_buffer hsize henc, gfshareFillRand,
      gfshareFillRand]
    refine congrArg gf (generateBlockCtr_congr ?_ seed _)
    have hlt := coeff_lt hc hj
    rw [blit_out (Or.inl hlt), blit_out (Or.inl hlt)]

theorem drawn_injective {m : ℕ} {s s' : Fin m → UInt8} (h : ∀ j < m, drawn s j = drawn s' j) :
    s = s' := by
  funext x
  have hx := h x x.isLt
  rwa [drawn, drawn, dif_pos x.isLt, dif_pos x.isLt] at hx

theorem card_secrets_le (hsize : n * size < 2 ^ 32)
    (henc : gfshareCtxInitEnc k sharenrs n t size = some enc) (hseen : seen ⊆ Finset.range n)
    (hi : i ∈ seen) (hhides : Hides gfshareFillRand enc size seen) : size ≤ 16 := by
  have hlt := Finset.mem_range.1 (hseen hi)
  choose σ hσ using fun s : Fin size → UInt8 =>
    (hides_iff_bytes henc hseen).1 hhides (fun _ => 0) (drawn s)
  have hinj : Function.Injective fun s => σ s (0, 0) := by
    intro s s' (heq : σ s (0, 0) = σ s' (0, 0))
    refine drawn_injective fun j hj => ?_
    have hbyte := hσ s (0, 0) (fun _ _ => 0) i hi j hj
    rw [hσ s' (0, 0) (fun _ _ => 0) i hi j hj, heq] at hbyte
    exact (secret_of_share hsize henc hlt hj hbyte).symm
  have hcard := Fintype.card_le_of_injective _ hinj
  rw [Fintype.card_fun, Fintype.card_fin, Fintype.card_prod, ← FinEnum.card_eq_fintypeCard,
    ← FinEnum.card_eq_fintypeCard, FinEnum.card_UInt8, FinEnum.card_UInt64, ← pow_mul,
    ← pow_add] at hcard
  have := (Nat.pow_le_pow_iff_right (by norm_num)).1 hcard
  omega

theorem not_hides_of_undrawn (hsize : n * size < 2 ^ 32)
    (henc : gfshareCtxInitEnc k sharenrs n t size = some enc) (hseen : seen ⊆ Finset.range n)
    (hi : i ∈ seen) (hcount : (t - 1) * size < 16) : ¬ Hides gfshareFillRand enc size seen := by
  intro hhides
  obtain ⟨-, hcore⟩ := gfshareCtxInitEnc_eq henc
  have hsize1 : 1 ≤ size := (gfshareCtxInitCore_eq hcore).1
  obtain ⟨σ, hσ⟩ := (hides_iff_bytes henc hseen).1 hhides (fun _ => 0) fun _ => 1
  have hsame : ∀ seed, sharingContext (gfshareFillRand seed) enc (fun _ => 1) =
      sharingContext (gfshareFillRand (0, 0)) enc fun _ => 1 := by
    intro seed
    obtain ⟨-, -, -, -, he2, he3, -⟩ := gfshareCtxInitCore_eq hcore
    have hmod := (Nat.mod_le ((t - 1) * size) (2 ^ 32)).trans_lt hcount
    simp only [sharingContext, he2, he3, gfshareFillRand_of_lt hmod]
  have hbyte := hσ (0, 0) (fun _ _ => 0) i hi 0 hsize1
  rw [hsame] at hbyte
  exact absurd (secret_of_share hsize henc (Finset.mem_range.1 (hseen hi)) hsize1 hbyte) (by decide)

end

/-- **A set of shares hides the secret exactly if it is smaller than the threshold**, whatever the
threshold, the number of shares and their numbers are, when the coefficients can be any bytes. With
the generator of the source no share hides a secret of more than 16 bytes, nor one for which fewer
than 16 bytes of coefficients are needed. -/
theorem hides_iff {k : Kernel} {sharenrs : Mem} {n t size : ℕ} {enc : GfshareCtx} {seen : Finset ℕ}
    (hsize : n * size < 2 ^ 32) (henc : gfshareCtxInitEnc k sharenrs n t size = some enc)
    (hdistinct : ∀ i < n, ∀ j < n, sharenrs i = sharenrs j → i = j)
    (hseen : seen ⊆ Finset.range n) :
    (Hides (drawing (n := (t - 1) * size)) enc size seen ↔ seen.card < t) ∧
      (seen.Nonempty → 16 < size ∨ (t - 1) * size < 16 → ¬ Hides gfshareFillRand enc size seen) := by
  refine ⟨⟨fun h => ?_, hides_of_few hsize henc hseen⟩, ?_⟩
  · by_contra hcard
    exact not_hides_of_enough hsize drawing_out henc hdistinct hseen (Nat.le_of_not_lt hcard) h
  · rintro ⟨i, hi⟩ (hlong | hcount) h
    · exact absurd (card_secrets_le hsize henc hseen hi h) (by omega)
    · exact not_hides_of_undrawn hsize henc hseen hi hcount h

/-- One of three shares numbered 1, 2 and 3 hides a page, for a threshold of two, and two of them
do not, when the coefficients can be any bytes. With the generator of the source no share does. -/
theorem hides_one_of_three :
    ∃ enc, gfshareCtxInitEnc (constKernel 1) (fun i => UInt8.ofNat (i + 1)) 3 2 4096 = some enc ∧
      Hides (drawing (n := 4096)) enc 4096 {1} ∧ ¬ Hides (drawing (n := 4096)) enc 4096 {0, 2} ∧
      ¬ Hides gfshareFillRand enc 4096 {1} := by
  obtain ⟨enc, henc⟩ : ∃ enc, gfshareCtxInitEnc (constKernel 1) (fun i => UInt8.ofNat (i + 1)) 3 2
    4096 = some enc := ⟨_, rfl⟩
  have hdistinct : ∀ i < 3, ∀ j < 3, UInt8.ofNat (i + 1) = UInt8.ofNat (j + 1) → i = j := by
    decide
  have hone := hides_iff (by norm_num) henc hdistinct
    (by decide : ({1} : Finset ℕ) ⊆ Finset.range 3)
  refine ⟨enc, henc, hone.1.2 (by decide), fun h => ?_,
    hone.2 (Finset.singleton_nonempty 1) (Or.inl (by norm_num))⟩
  exact absurd ((hides_iff (by norm_num) henc hdistinct (by decide)).1.1 h) (by decide)

end Artifice
