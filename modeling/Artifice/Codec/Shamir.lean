import Mathlib.LinearAlgebra.Lagrange
import Artifice.Codec.GfShare
import Artifice.Lib.ByteField

/-!
Secret sharing with any threshold.

At every byte the shares are the values of a polynomial of degree below the threshold, and the
secret is its value at zero. The decoder takes the first shares that are provided, as many as the
threshold, and adds them up with the coefficients of the interpolation at zero; it has the
logarithms of these coefficients. The field is that of the tables `logs` and `exps`.
-/

namespace Artifice

open Lib Polynomial

/-! ### Interpolation at zero -/

section Interpolation

variable {F : Type} [Field F]

/-- The polynomial that Horner's rule evaluates, with the leading coefficient first. -/
noncomputable def hornerPoly (b : ℕ → F) : ℕ → F[X]
  | 0 => C (b 0)
  | m + 1 => hornerPoly b m * X + C (b (m + 1))

theorem degree_hornerPoly (b : ℕ → F) (m : ℕ) : (hornerPoly b m).degree < (m + 1 : ℕ) := by
  have hle : (hornerPoly b m).natDegree ≤ m := by
    induction m with
    | zero => exact (natDegree_C _).le
    | succ m ih =>
      refine natDegree_add_le_of_degree_le ?_ ((natDegree_C _).le.trans (Nat.zero_le _))
      exact natDegree_mul_le.trans (Nat.add_le_add ih natDegree_X_le)
  exact lt_of_le_of_lt degree_le_natDegree (by exact_mod_cast Nat.lt_succ_of_le hle)

theorem eval_zero_hornerPoly (b : ℕ → F) (m : ℕ) : (hornerPoly b m).eval 0 = b m := by
  cases m with
  | zero => rw [hornerPoly, eval_C]
  | succ m => rw [hornerPoly, eval_add, eval_mul, eval_X, mul_zero, zero_add, eval_C]

/-- **Interpolation at zero** from as many nodes as there are coefficients. -/
theorem eval_zero_eq_sum {s : Finset ℕ} {x : ℕ → F} {f : F[X]} (hx : Set.InjOn x s)
    (hf : f.degree < s.card) :
    f.eval 0 = ∑ i ∈ s, f.eval (x i) * ∏ j ∈ s.erase i, (x i - x j)⁻¹ * (0 - x j) := by
  conv_lhs => rw [Lagrange.eq_interpolate hx hf]
  rw [Lagrange.interpolate_apply, eval_finsetSum]
  refine Finset.sum_congr rfl fun i _ => ?_
  rw [eval_mul, eval_C, Lagrange.basis, eval_prod]
  refine congrArg _ (Finset.prod_congr rfl fun j _ => ?_)
  rw [Lagrange.basisDivisor, eval_mul, eval_C, eval_sub, eval_X, eval_C]

end Interpolation

/-! ### Reads of the tables -/

/-- The look-up `exps[l + logs[b]]` stays inside of the two tables. -/
def InTables (l : ℕ) (b : UInt8) : Prop := b.toNat < logs.length ∧ l + gfLog b < exps.length

instance (l : ℕ) (b : UInt8) : Decidable (InTables l b) := inferInstanceAs (Decidable (_ ∧ _))

/-- Share `i` in `gfshare_ctx_enc_getshares`, or `none` if a table is read out of its bounds. -/
def getshareChecked (ctx : GfshareCtx) (i : ℕ) (share : Mem) : Option Mem :=
  let ilog := gfLog (ctx.sharenrs i)
  if (ctx.sharenrs i).toNat < logs.length then
    (List.range' 1 (ctx.threshold - 1)).foldlM (fun share coefficient =>
      if ∀ pos < ctx.size, share pos ≠ 0 → InTables ilog (share pos) then
        some (shareStep ctx ilog coefficient share)
      else none) (blit share 0 ctx.buffer 0 ctx.size)
  else none

/-- The buffer of `gfshare_ctx_enc_getshares` before the shares are computed: the coefficients that
`gfshare_fill_rand` draws, and the secret behind them. -/
def sharingContext (fillRand : Mem → ℕ → Mem) (ctx : GfshareCtx) (secret : Mem) : GfshareCtx :=
  let coefficients := (ctx.threshold - 1) * ctx.maxsize % 2 ^ 32
  { ctx with buffer := fillRand (blit ctx.buffer coefficients secret 0 ctx.size) coefficients }

/-- `gfshare_ctx_enc_getshares` with the function that `gfshare_fill_rand` points at, or `none` if
a table is read out of its bounds. -/
def encGetsharesChecked (fillRand : Mem → ℕ → Mem) (ctx : GfshareCtx) (secret : Mem)
    (shares : ℕ → Mem) : Option (ℕ → Mem) :=
  let ctx := sharingContext fillRand ctx secret
  if ∀ i < ctx.sharecount, (getshareChecked ctx i (shares i)).isSome then
    some fun i => if i < ctx.sharecount then (getshareChecked ctx i (shares i)).getD (shares i)
      else shares i
  else none

/-- The outer loop of `gfshare_ctx_dec_decode`, or `none` if a table is read out of its bounds. -/
def recombineChecked (ctx : GfshareCtx) : ℕ → ℕ → ℕ → Mem → Option Mem
  | 0, _, _, secret => some secret
  | r + 1, i, n, secret =>
    if n < ctx.threshold then
      if ctx.sharenrs i = 0 then recombineChecked ctx r (i + 1) n secret
      else
        let LiTop := lagrangeLog ctx i
        let share := fun j => ctx.buffer (ctx.maxsize * i % 2 ^ 32 + j)
        if (∀ j < ctx.sharecount, (ctx.sharenrs j).toNat < logs.length ∧
            (ctx.sharenrs i ^^^ ctx.sharenrs j).toNat < logs.length) ∧
            ∀ j < ctx.size, share j ≠ 0 → InTables LiTop (share j) then
          recombineChecked ctx r (i + 1) (n + 1) fun j =>
            if j < ctx.size ∧ share j ≠ 0 then secret j ^^^ gfExp (LiTop + gfLog (share j))
            else secret j
        else none
    else some secret

/-- `gfshare_ctx_dec_decode`, or `none` if a table is read out of its bounds. -/
def decDecodeChecked (ctx : GfshareCtx) (sharenrs : Mem) (shares : ℕ → Mem) (secretbuf : Mem) :
    Option Mem :=
  let ctx := { ctx with
    sharenrs := blit ctx.sharenrs 0 sharenrs 0 ctx.sharecount
    buffer := collectShares ctx shares ctx.sharecount }
  recombineChecked ctx ctx.sharecount 0 0 (fill secretbuf 0 ctx.size 0)

section

variable {ctx : GfshareCtx} {seed : UInt64 × UInt64} {secret sharenrs secretbuf : Mem}
  {shares : ℕ → Mem} {i j n r l pos : ℕ}

theorem exps_length : exps.length = 510 := by decide +kernel

theorem logs_length : logs.length = 256 := by decide +kernel

theorem toNat_lt_logs (b : UInt8) : b.toNat < logs.length := by
  rw [logs_length]
  exact b.toNat_lt

/-- **A look-up with an exponent below 255 stays inside of the tables.** -/
theorem inTables_of_lt (hl : l < 255) (b : UInt8) : InTables l b := by
  refine ⟨toNat_lt_logs b, ?_⟩
  have hb := gfLog_lt b
  rw [exps_length]
  omega

theorem lagrangeLog_lt (ctx : GfshareCtx) (i : ℕ) : lagrangeLog ctx i < 255 :=
  Nat.mod_lt _ (by norm_num)

theorem getshareChecked_eq (ctx : GfshareCtx) (i : ℕ) (share : Mem) :
    getshareChecked ctx i share = some (getshare ctx i share) := by
  rw [getshareChecked, if_pos (toNat_lt_logs _), getshare]
  generalize blit share 0 ctx.buffer 0 ctx.size = share
  induction List.range' 1 (ctx.threshold - 1) generalizing share with
  | nil => rfl
  | cons c cs ih =>
    rw [List.foldlM_cons, if_pos fun pos _ _ => inTables_of_lt (gfLog_lt _) _, List.foldl_cons]
    exact ih _

/-- **No read of the encoder leaves the tables**, and what it computes is what the plain encoder
does. -/
theorem encGetsharesChecked_eq (fillRand : Mem → ℕ → Mem) (ctx : GfshareCtx) (secret : Mem)
    (shares : ℕ → Mem) : encGetsharesChecked fillRand ctx secret shares =
      some fun i => if i < ctx.sharecount then
        getshare (sharingContext fillRand ctx secret) i (shares i) else shares i := by
  have hall : ∀ i < (sharingContext fillRand ctx secret).sharecount,
      (getshareChecked (sharingContext fillRand ctx secret) i (shares i)).isSome := by
    intro i _
    rw [getshareChecked_eq]
    rfl
  rw [encGetsharesChecked, if_pos hall]
  simp only [getshareChecked_eq, Option.getD_some]
  rfl

theorem recombineChecked_eq (ctx : GfshareCtx) (r i n : ℕ) (secret : Mem) :
    recombineChecked ctx r i n secret = some (recombineLoop ctx r i n secret) := by
  induction r generalizing i n secret with
  | zero => rfl
  | succ r ih =>
    rw [recombineChecked, recombineLoop]
    split_ifs with hn h0
    · exact ih _ _ _
    · simp only
      rw [if_pos ⟨fun j _ => ⟨toNat_lt_logs _, toNat_lt_logs _⟩,
        fun j _ _ => inTables_of_lt (lagrangeLog_lt ctx i) _⟩]
      exact ih _ _ _
    · rfl

/-- **No read of the decoder leaves the tables.** -/
theorem decDecodeChecked_eq (ctx : GfshareCtx) (sharenrs : Mem) (shares : ℕ → Mem)
    (secretbuf : Mem) : decDecodeChecked ctx sharenrs shares secretbuf =
      some (gfshareCtxDecDecode ctx sharenrs shares secretbuf) :=
  recombineChecked_eq _ _ _ _ _

/-! ### Shares are values of a polynomial -/

/-- The field of the tables `logs` and `exps`. -/
def gfshareTables : FieldTables where
  T := xtime
  exp := gfExp
  log := gfLog
  size := 510
  antilog := gfAntilog
  size_gt := by norm_num
  exp_period := by decide
  log_lt := fun b _ => gfLog_lt b

/-- A byte in that field. -/
abbrev gf (b : UInt8) : ByteField gfshareTables := ByteField.ofByte gfshareTables b

theorem gf_xor (a b : UInt8) : gf (a ^^^ b) = gf a + gf b := rfl

theorem gf_zero : gf 0 = 0 := rfl

theorem gf_iterate (l : ℕ) (b : UInt8) :
    gf (xtime^[l] b) = ByteField.gen gfshareTables ^ l * gf b :=
  ByteField.ofByte_iterate l b

theorem gen_pow_gfLog {b : UInt8} (hb : b ≠ 0) :
    ByteField.gen gfshareTables ^ gfLog b = gf b :=
  ByteField.gen_pow_log hb

/-- **A share is the value of a polynomial** at its number, byte for byte. -/
theorem getshare_eq_eval (ht : 1 ≤ ctx.threshold)
    (hm : ctx.threshold * ctx.maxsize < 2 ^ 32) (hi : ctx.sharenrs i ≠ 0) (hpos : pos < ctx.size)
    (share : Mem) :
    gf (getshare ctx i share pos) =
      (hornerPoly (fun c => gf (ctx.buffer (c * ctx.maxsize + pos))) (ctx.threshold - 1)).eval
        (gf (ctx.sharenrs i)) := by
  have hmain : ∀ m < ctx.threshold, gf ((List.range' 1 m).foldl (fun share coefficient =>
      shareStep ctx (gfLog (ctx.sharenrs i)) coefficient share)
        (blit share 0 ctx.buffer 0 ctx.size) pos) =
      (hornerPoly (fun c => gf (ctx.buffer (c * ctx.maxsize + pos))) m).eval
        (gf (ctx.sharenrs i)) := by
    intro m hm'
    induction m with
    | zero =>
      rw [List.range'_zero, List.foldl_nil, hornerPoly, eval_C, blit_zero_in hpos, Nat.zero_mul,
        Nat.zero_add]
    | succ m ih =>
      have hle : (1 + m) * ctx.maxsize ≤ ctx.threshold * ctx.maxsize :=
        Nat.mul_le_mul_right _ (by omega)
      rw [List.range'_1_concat, List.foldl_concat, hornerPoly, eval_add, eval_mul, eval_X, eval_C,
        ← ih (by omega), shareStep, if_pos hpos, gfExp_gfLog (gfLog_lt _), gf_xor,
        gf_iterate, gen_pow_gfLog hi, mul_comm, Nat.mod_eq_of_lt (by omega), Nat.add_comm 1 m]
  exact hmain _ (by omega)

/-! ### The decoder interpolates -/

/-- The shares that are provided, the first `n` of them, from `i` on. -/
def providedShares (ctx : GfshareCtx) (i n : ℕ) : List ℕ :=
  (List.range' i n).filter fun j => ctx.sharenrs j ≠ 0

theorem providedShares_succ (ctx : GfshareCtx) (i n : ℕ) :
    providedShares ctx i (n + 1) =
      if ctx.sharenrs i = 0 then providedShares ctx (i + 1) n
      else i :: providedShares ctx (i + 1) n := by
  rw [providedShares, List.range'_succ, List.filter_cons]
  split_ifs with h1 h2 h2
  · simp [h2] at h1
  · rfl
  · rfl
  · simp [h2] at h1

/-- **The inner loop** adds the logarithms of the other shares, as many as are left of the
threshold. -/
theorem lagrangeLoop_eq (hi : ctx.sharenrs i ≠ 0) (n j jn : ℕ) (L : ℕ × ℕ) :
    lagrangeLoop ctx i n j jn L =
      (L.1 + ((((providedShares ctx j n).take (ctx.threshold - jn)).filter (· ≠ i)).map
        fun m => gfLog (ctx.sharenrs m)).sum,
      L.2 + ((((providedShares ctx j n).take (ctx.threshold - jn)).filter (· ≠ i)).map
        fun m => gfLog (ctx.sharenrs i ^^^ ctx.sharenrs m)).sum) := by
  induction n generalizing j jn L with
  | zero => simp [lagrangeLoop, providedShares]
  | succ n ih =>
    rw [lagrangeLoop]
    by_cases hjn : jn < ctx.threshold
    · rw [if_pos hjn, show ctx.threshold - jn = ctx.threshold - (jn + 1) + 1 by omega,
        providedShares_succ]
      by_cases hij : i = j
      · subst hij
        rw [if_pos rfl, if_neg hi, List.take_succ_cons, List.filter_cons_of_neg (by simp), ih]
      · rw [if_neg hij]
        by_cases h0 : ctx.sharenrs j = 0
        · rw [if_pos h0, if_pos h0, ih,
            show ctx.threshold - (jn + 1) + 1 = ctx.threshold - jn by omega]
        · rw [if_neg h0, if_neg h0, List.take_succ_cons,
            List.filter_cons_of_pos (by simpa using fun h => hij h.symm), ih, List.map_cons,
            List.map_cons, List.sum_cons, List.sum_cons, Nat.add_assoc, Nat.add_assoc]
    · rw [if_neg hjn, show ctx.threshold - jn = 0 by omega]
      simp

/-- **The outer loop** adds the products of the shares with their coefficients. -/
theorem recombineLoop_eq (hpos : pos < ctx.size) (r i n : ℕ) (secret : Mem) :
    gf (recombineLoop ctx r i n secret pos) = gf (secret pos) +
      (((providedShares ctx i r).take (ctx.threshold - n)).map fun m =>
        ByteField.gen gfshareTables ^ lagrangeLog ctx m *
          gf (ctx.buffer (ctx.maxsize * m % 2 ^ 32 + pos))).sum := by
  induction r generalizing i n secret with
  | zero => simp [recombineLoop, providedShares]
  | succ r ih =>
    rw [recombineLoop]
    by_cases hn : n < ctx.threshold
    · rw [if_pos hn, show ctx.threshold - n = ctx.threshold - (n + 1) + 1 by omega,
        providedShares_succ]
      by_cases h0 : ctx.sharenrs i = 0
      · rw [if_pos h0, if_pos h0, ih, show ctx.threshold - (n + 1) + 1 = ctx.threshold - n by omega]
      · rw [if_neg h0, if_neg h0, List.take_succ_cons, List.map_cons, List.sum_cons, ih]
        simp only
        rw [recombine_byte (lagrangeLog_lt ctx i) hpos, gf_xor, gf_iterate, add_assoc]
    · rw [if_neg hn, show ctx.threshold - n = 0 by omega]
      simp

/-- The shares that are interpolated: the first that are provided, as many as the threshold. -/
def usedShares (ctx : GfshareCtx) : List ℕ :=
  (providedShares ctx 0 ctx.sharecount).take ctx.threshold

theorem nodup_providedShares (ctx : GfshareCtx) (i n : ℕ) : (providedShares ctx i n).Nodup :=
  List.Nodup.filter _ List.nodup_range'

theorem nodup_usedShares (ctx : GfshareCtx) : (usedShares ctx).Nodup :=
  (nodup_providedShares ctx 0 _).sublist (List.take_sublist _ _)

theorem mem_usedShares (h : i ∈ usedShares ctx) : i < ctx.sharecount ∧ ctx.sharenrs i ≠ 0 := by
  have hmem := List.mem_of_mem_take h
  rw [providedShares, List.mem_filter, List.mem_range'_1] at hmem
  exact ⟨by omega, by simpa using hmem.2⟩

/-- The element that the share number stands for. -/
def nodeOf (ctx : GfshareCtx) (i : ℕ) : ByteField gfshareTables := gf (ctx.sharenrs i)

theorem lagrangeLog_eq (hi : ctx.sharenrs i ≠ 0) :
    lagrangeLog ctx i =
      ((((usedShares ctx).filter (· ≠ i)).map fun m => gfLog (ctx.sharenrs m)).sum +
        (255 - (((usedShares ctx).filter (· ≠ i)).map fun m =>
          gfLog (ctx.sharenrs i ^^^ ctx.sharenrs m)).sum % 255)) % 255 := by
  rw [lagrangeLog, lagrangeLoop_eq hi, Nat.sub_zero]
  simp only [Nat.zero_add]
  rw [← usedShares]

/-- **The logarithm is that of the coefficient of the interpolation.** -/
theorem gen_pow_lagrangeLog (hx : Set.InjOn (nodeOf ctx) (usedShares ctx).toFinset)
    (hi : i ∈ usedShares ctx) :
    ByteField.gen gfshareTables ^ lagrangeLog ctx i =
      ∏ m ∈ (usedShares ctx).toFinset.erase i,
        (nodeOf ctx i - nodeOf ctx m)⁻¹ * (0 - nodeOf ctx m) := by
  have hi0 := (mem_usedShares hi).2
  have hset : ((usedShares ctx).filter (· ≠ i)).toFinset = (usedShares ctx).toFinset.erase i := by
    rw [List.toFinset_filter, ← Finset.filter_ne']
    simp
  have hsum : ∀ f : ℕ → ℕ, (((usedShares ctx).filter (· ≠ i)).map f).sum =
      ∑ m ∈ (usedShares ctx).toFinset.erase i, f m := by
    intro f
    rw [← hset, List.sum_toFinset f ((nodup_usedShares ctx).filter _)]
  have hlog : lagrangeLog ctx i =
      ((∑ m ∈ (usedShares ctx).toFinset.erase i, gfLog (ctx.sharenrs m)) +
        (255 - (∑ m ∈ (usedShares ctx).toFinset.erase i,
          gfLog (ctx.sharenrs i ^^^ ctx.sharenrs m)) % 255)) % 255 := by
    rw [lagrangeLog_eq hi0, hsum, hsum]
  -- the factors of the numerator and of the denominator
  have htop : ∀ m ∈ (usedShares ctx).toFinset.erase i,
      ByteField.gen gfshareTables ^ gfLog (ctx.sharenrs m) = 0 - nodeOf ctx m := by
    intro m hm
    have hm' := List.mem_toFinset.1 (Finset.mem_of_mem_erase hm)
    rw [gen_pow_gfLog (mem_usedShares hm').2, ByteField.sub_eq, zero_add]
    rfl
  have hbottom : ∀ m ∈ (usedShares ctx).toFinset.erase i,
      ByteField.gen gfshareTables ^ gfLog (ctx.sharenrs i ^^^ ctx.sharenrs m) =
        nodeOf ctx i - nodeOf ctx m := by
    intro m hm
    obtain ⟨hne, hmem⟩ := Finset.mem_erase.1 hm
    have hx0 : ctx.sharenrs i ^^^ ctx.sharenrs m ≠ 0 := by
      intro h
      refine hne (hx (List.mem_toFinset.2 hi) hmem ?_).symm
      exact congrArg gf (UInt8.xor_eq_zero_iff.1 h)
    rw [gen_pow_gfLog hx0, ByteField.sub_eq]
    rfl
  rw [hlog, ByteField.gen_pow_mod, pow_add,
    ByteField.gen_pow_sub (Nat.mod_lt _ (by norm_num)).le, ByteField.gen_pow_mod,
    ← Finset.prod_pow_eq_pow_sum, ← Finset.prod_pow_eq_pow_sum, Finset.prod_congr rfl htop,
    Finset.prod_congr rfl hbottom, ← Finset.prod_inv_distrib, mul_comm, ← Finset.prod_mul_distrib]

/-- **What the decoder computes from values of a polynomial** at the numbers of the shares that it
uses is the value at zero. -/
theorem recombineLoop_eval {f : (ByteField gfshareTables)[X]} (hpos : pos < ctx.size)
    (hsecret : secret pos = 0) (hx : Set.InjOn (nodeOf ctx) (usedShares ctx).toFinset)
    (hf : f.degree < (usedShares ctx).length)
    (hval : ∀ i ∈ usedShares ctx, gf (ctx.buffer (ctx.maxsize * i % 2 ^ 32 + pos)) =
      f.eval (nodeOf ctx i)) :
    gf (recombineLoop ctx ctx.sharecount 0 0 secret pos) = f.eval 0 := by
  have hcard : (usedShares ctx).toFinset.card = (usedShares ctx).length :=
    List.toFinset_card_of_nodup (nodup_usedShares ctx)
  rw [recombineLoop_eq hpos, Nat.sub_zero, ← usedShares, hsecret, gf_zero, zero_add,
    ← List.sum_toFinset _ (nodup_usedShares ctx), eval_zero_eq_sum hx (by rw [hcard]; exact hf)]
  refine Finset.sum_congr rfl fun i hi => ?_
  have hi' := List.mem_toFinset.1 hi
  rw [gen_pow_lagrangeLog hx hi', hval i hi', mul_comm]

theorem length_usedShares {kept : Finset ℕ} (hkept : kept ⊆ Finset.range ctx.sharecount)
    (hnrs : ∀ i ∈ kept, ctx.sharenrs i ≠ 0) (hcard : ctx.threshold ≤ kept.card) :
    (usedShares ctx).length = ctx.threshold := by
  have hsub : kept ⊆ (providedShares ctx 0 ctx.sharecount).toFinset := by
    intro i hi
    rw [List.mem_toFinset, providedShares, List.mem_filter, List.mem_range'_1]
    have := Finset.mem_range.1 (hkept hi)
    exact ⟨by omega, by simpa using hnrs i hi⟩
  have hle := Finset.card_le_card hsub
  rw [List.toFinset_card_of_nodup (nodup_providedShares ctx 0 _)] at hle
  rw [usedShares, List.length_take]
  omega

/-! ### Preparation -/

theorem gfshareCtxInitCore_eq {k : Kernel} {t size : ℕ}
    (h : gfshareCtxInitCore k sharenrs n t size = some ctx) :
    1 ≤ size ∧ 1 ≤ t ∧ t ≤ n ∧ ctx.sharecount = n ∧ ctx.threshold = t ∧ ctx.maxsize = size ∧
      ctx.size = size ∧ ∀ i < n, ctx.sharenrs i = sharenrs i := by
  unfold gfshareCtxInitCore at h
  split_ifs at h with h1
  rw [Option.some.injEq] at h
  subst h
  exact ⟨by omega, by omega, by omega, rfl, rfl, rfl, rfl, fun i hi => blit_zero_in hi⟩

theorem gfshareCtxInitEnc_eq {k : Kernel} {t size : ℕ}
    (h : gfshareCtxInitEnc k sharenrs n t size = some ctx) :
    (∀ i < n, sharenrs i ≠ 0) ∧ gfshareCtxInitCore k sharenrs n t size = some ctx := by
  unfold gfshareCtxInitEnc at h
  split_ifs at h with hany
  refine ⟨fun i hi h0 => hany ?_, h⟩
  exact List.any_eq_true.2 ⟨i, List.mem_range.2 hi, by simpa using h0⟩

theorem sharingContext_buffer {k : Kernel} {fillRand : Mem → ℕ → Mem} {t size : ℕ}
    {enc : GfshareCtx} (hsize : n * size < 2 ^ 32)
    (henc : gfshareCtxInitEnc k sharenrs n t size = some enc) :
    (sharingContext fillRand enc secret).buffer =
      fillRand (blit enc.buffer ((t - 1) * size) secret 0 size) ((t - 1) * size) := by
  obtain ⟨-, hcore⟩ := gfshareCtxInitEnc_eq henc
  obtain ⟨-, -, htn, -, he2, he3, he4, -⟩ := gfshareCtxInitCore_eq hcore
  have hle : (t - 1) * size ≤ n * size := Nat.mul_le_mul_right _ (by omega)
  rw [sharingContext]
  simp only [he2, he3, he4, Nat.mod_eq_of_lt (show (t - 1) * size < 2 ^ 32 by omega)]

/-- **A share, byte for byte**, whatever generator draws the coefficients. -/
theorem getshare_sharing {k : Kernel} {fillRand : Mem → ℕ → Mem} {t size : ℕ} {enc : GfshareCtx}
    (hsize : n * size < 2 ^ 32) (henc : gfshareCtxInitEnc k sharenrs n t size = some enc)
    (hi : i < n) (hj : j < size) (share : Mem) :
    gf (getshare (sharingContext fillRand enc secret) i share j) =
      (hornerPoly (fun c => gf ((sharingContext fillRand enc secret).buffer (c * size + j)))
        (t - 1)).eval (gf (sharenrs i)) := by
  obtain ⟨hnz, hcore⟩ := gfshareCtxInitEnc_eq henc
  obtain ⟨hsize1, ht1, htn, he1, he2, he3, he4, henrs⟩ := gfshareCtxInitCore_eq hcore
  obtain ⟨E, hE⟩ : ∃ E, E = sharingContext fillRand enc secret := ⟨_, rfl⟩
  have hEt : E.threshold = t := by rw [hE]; exact he2
  have hEm : E.maxsize = size := by rw [hE]; exact he3
  have hEs : E.size = size := by rw [hE]; exact he4
  have hEi : E.sharenrs i = sharenrs i := by rw [hE]; exact henrs i hi
  have htsize : t * size ≤ n * size := Nat.mul_le_mul_right _ htn
  have heval : gf (getshare E i share j) = _ := getshare_eq_eval (by omega)
    (by rw [hEt, hEm]; omega) (by rw [hEi]; exact hnz i hi) (by omega) share
  rwa [hEi, hEt, hEm, hE] at heval

theorem sharingContext_secret {k : Kernel} {fillRand : Mem → ℕ → Mem} {t size : ℕ}
    {enc : GfshareCtx} (hsize : n * size < 2 ^ 32)
    (hrand : ∀ buffer count i, count ≤ i → fillRand buffer count i = buffer i)
    (henc : gfshareCtxInitEnc k sharenrs n t size = some enc) (hj : j < size) (secret : Mem) :
    (sharingContext fillRand enc secret).buffer ((t - 1) * size + j) = secret j := by
  rw [sharingContext_buffer hsize henc, hrand _ _ _ (by omega), blit_in hj, Nat.zero_add]

/-- **The encoder**: a polynomial for every byte, of degree below the threshold, with the secret at
zero and the shares at their numbers. -/
theorem exists_sharePoly {k : Kernel} {fillRand : Mem → ℕ → Mem} {t size : ℕ} {enc : GfshareCtx}
    (hsize : n * size < 2 ^ 32)
    (hrand : ∀ buffer count i, count ≤ i → fillRand buffer count i = buffer i)
    (henc : gfshareCtxInitEnc k sharenrs n t size = some enc) (hj : j < size) (secret : Mem)
    (shares : ℕ → Mem) :
    ∃ f : (ByteField gfshareTables)[X], f.degree < (t : ℕ) ∧ f.eval 0 = gf (secret j) ∧
      ∀ i < n, gf (getshare (sharingContext fillRand enc secret) i (shares i) j) =
        f.eval (gf (sharenrs i)) := by
  obtain ⟨-, hcore⟩ := gfshareCtxInitEnc_eq henc
  have ht1 : 1 ≤ t := (gfshareCtxInitCore_eq hcore).2.1
  refine ⟨hornerPoly (fun c => gf ((sharingContext fillRand enc secret).buffer (c * size + j)))
    (t - 1), ?_, ?_, fun i hi => getshare_sharing hsize henc hi hj _⟩
  · have := degree_hornerPoly (fun c => gf ((sharingContext fillRand enc secret).buffer
      (c * size + j))) (t - 1)
    rwa [Nat.sub_add_cancel ht1] at this
  · rw [eval_zero_hornerPoly, sharingContext_secret hsize hrand henc hj secret]

/-- The value at zero of the polynomial of the shares is recombined, when the numbers of enough of
them are known, and the others are zero. -/
theorem recombineLoop_of_kept {kept : Finset ℕ} {f : (ByteField gfshareTables)[X]}
    (hcount : ctx.sharecount = n) (hnz : ∀ i < n, sharenrs i ≠ 0)
    (hdistinct : ∀ i < n, ∀ j < n, sharenrs i = sharenrs j → i = j)
    (hkept : kept ⊆ Finset.range n) (hcard : ctx.threshold ≤ kept.card)
    (hnrs : ∀ i < n, ctx.sharenrs i = if i ∈ kept then sharenrs i else 0) (hpos : pos < ctx.size)
    (hsecret : secret pos = 0) (hf : f.degree < (ctx.threshold : ℕ))
    (hval : ∀ i ∈ kept, gf (ctx.buffer (ctx.maxsize * i % 2 ^ 32 + pos)) =
      f.eval (gf (sharenrs i))) :
    gf (recombineLoop ctx ctx.sharecount 0 0 secret pos) = f.eval 0 := by
  -- only kept shares are used, and there are enough of them
  have hused : ∀ i ∈ usedShares ctx, i < n ∧ i ∈ kept ∧ ctx.sharenrs i = sharenrs i := by
    intro i hi
    obtain ⟨hlt, hne⟩ := mem_usedShares hi
    rw [hcount] at hlt
    have hin : i ∈ kept := by
      by_contra hout
      exact hne (by rw [hnrs i hlt, if_neg hout])
    exact ⟨hlt, hin, by rw [hnrs i hlt, if_pos hin]⟩
  have hlen : (usedShares ctx).length = ctx.threshold := by
    refine length_usedShares (by rw [hcount]; exact hkept) (fun i hi => ?_) hcard
    have hlt := Finset.mem_range.1 (hkept hi)
    rw [hnrs i hlt, if_pos hi]
    exact hnz i hlt
  have hx : Set.InjOn (nodeOf ctx) (usedShares ctx).toFinset := by
    intro i hi i' hi' heq
    obtain ⟨hlt, -, hnr⟩ := hused i (List.mem_toFinset.1 hi)
    obtain ⟨hlt', -, hnr'⟩ := hused i' (List.mem_toFinset.1 hi')
    refine hdistinct i hlt i' hlt' ?_
    rw [← hnr, ← hnr']
    exact ByteField.ofByte_injective heq
  refine recombineLoop_eval hpos hsecret hx (by rw [hlen]; exact hf) fun i hi => ?_
  obtain ⟨-, hin, hnr⟩ := hused i hi
  rw [nodeOf, hnr]
  exact hval i hin

/-- **The decoder**: from values of a polynomial at the numbers of the kept shares it computes the
value at zero. -/
theorem gfshareCtxDecDecode_eval {k : Kernel} {sharenrs₀ sharenrs' : Mem} {t size : ℕ}
    {dec : GfshareCtx} {kept : Finset ℕ} {f : (ByteField gfshareTables)[X]}
    (hsize : n * size < 2 ^ 32) (hdec : gfshareCtxInitDec k sharenrs₀ n t size = some dec)
    (hnz : ∀ i < n, sharenrs i ≠ 0) (hdistinct : ∀ i < n, ∀ j < n, sharenrs i = sharenrs j → i = j)
    (hkept : kept ⊆ Finset.range n) (hcard : t ≤ kept.card)
    (hnrs : ∀ i < n, sharenrs' i = if i ∈ kept then sharenrs i else 0) (hj : j < size)
    (hf : f.degree < (t : ℕ)) (hval : ∀ i ∈ kept, gf (shares i j) = f.eval (gf (sharenrs i))) :
    gf (gfshareCtxDecDecode dec sharenrs' shares secretbuf j) = f.eval 0 := by
  obtain ⟨-, -, -, hd1, hd2, hd3, hd4, -⟩ := gfshareCtxInitCore_eq hdec
  refine recombineLoop_of_kept (hd1 : _ = n) hnz hdistinct hkept (hd2.trans_le hcard)
    (fun i hi => ?_) (by dsimp only; omega) (fill_in (by omega) (by dsimp only; omega))
    (by dsimp only; rw [hd2]; exact hf) fun i hi => ?_
  · rw [← hnrs i hi]
    exact blit_zero_in (by omega)
  · have hlt := Finset.mem_range.1 (hkept hi)
    have hagree : Agree (collectShares dec shares dec.sharecount) (dec.maxsize * i % 2 ^ 32)
        (shares i) 0 dec.size := agree_collectShares (by omega) (by rw [hd1, hd3]; omega) (by omega)
    have hbyte := hagree j (by omega)
    rw [Nat.zero_add] at hbyte
    dsimp only
    rw [hbyte]
    exact hval i hi

/-! ### A threshold of two

A share is `x r + s` at every byte, for its number `x`, a random byte `r` and the byte `s` of the
secret, and two shares are interpolated on a line. -/

/-- The logarithm of the coefficient of the share numbered `a`, beside the one numbered `b`. -/
def lineLog (a b : UInt8) : ℕ := (gfLog b + (255 - gfLog (a ^^^ b) % 255)) % 255

theorem gfshareCtxEncGetshares_two {k : Kernel} {size : ℕ} {enc : GfshareCtx}
    (hsize : n * size < 2 ^ 32) (henc : gfshareCtxInitEnc k sharenrs n 2 size = some enc)
    (seed : UInt64 × UInt64) (secret : Mem) (shares : ℕ → Mem) :
    ∃ r : Mem, ∀ i < n, ∀ j < size, gfshareCtxEncGetshares seed enc secret shares i j =
      xtime^[gfLog (sharenrs i)] (r j) ^^^ secret j := by
  obtain ⟨hnz, hcore⟩ := gfshareCtxInitEnc_eq henc
  have hcount : enc.sharecount = n := (gfshareCtxInitCore_eq hcore).2.2.2.1
  refine ⟨(sharingContext (gfshareFillRand seed) enc secret).buffer, fun i hi j hj => ?_⟩
  have hshare : gfshareCtxEncGetshares seed enc secret shares i =
      getshare (sharingContext (gfshareFillRand seed) enc secret) i (shares i) :=
    if_pos (hi.trans_eq hcount.symm)
  have hlast := sharingContext_secret hsize (gfshareFillRand_out seed) henc hj secret
  refine ByteField.ofByte_injective (t := gfshareTables) ?_
  show gf _ = gf _
  rw [hshare, getshare_sharing hsize henc hi hj, gf_xor, gf_iterate, gen_pow_gfLog (hnz i hi),
    ← hlast]
  simp only [hornerPoly, Nat.add_one_sub_one, eval_add, eval_mul, eval_C, eval_X, Nat.zero_mul,
    Nat.zero_add]
  rw [mul_comm]

theorem usedShares_two (ht : ctx.threshold = 2) (hc : 2 ≤ ctx.sharecount)
    (h0 : ctx.sharenrs 0 ≠ 0) (h1 : ctx.sharenrs 1 ≠ 0) : usedShares ctx = [0, 1] := by
  obtain ⟨n, hn⟩ : ∃ n, ctx.sharecount = n + 2 := ⟨ctx.sharecount - 2, by omega⟩
  rw [usedShares, hn, providedShares_succ, if_neg h0, providedShares_succ, if_neg h1, ht]
  rfl

/-- **What is recombined from shares**, for a threshold of two: the first two, whatever the
others hold. Their numbers may be the same. -/
theorem gfshareCtxDecDecode_two (ht : ctx.threshold = 2) (hc : 2 ≤ ctx.sharecount)
    (hs : ctx.size ≤ ctx.maxsize) (hm : ctx.sharecount * ctx.maxsize < 2 ^ 32)
    (h0 : sharenrs 0 ≠ 0) (h1 : sharenrs 1 ≠ 0) (secretbuf : Mem) (hj : j < ctx.size) :
    gfshareCtxDecDecode ctx sharenrs shares secretbuf j =
      xtime^[lineLog (sharenrs 0) (sharenrs 1)] (shares 0 j) ^^^
        xtime^[lineLog (sharenrs 1) (sharenrs 0)] (shares 1 j) := by
  obtain ⟨D, hD⟩ : ∃ D, D = { ctx with
    sharenrs := blit ctx.sharenrs 0 sharenrs 0 ctx.sharecount
    buffer := collectShares ctx shares ctx.sharecount } := ⟨_, rfl⟩
  have hnrs : ∀ i < 2, D.sharenrs i = sharenrs i := fun i hi => by
    rw [hD]
    exact blit_zero_in (by omega)
  have hpage : ∀ i < 2, D.buffer (D.maxsize * i % 2 ^ 32 + j) = shares i j := fun i hi => by
    have hagree : Agree (collectShares ctx shares ctx.sharecount) (ctx.maxsize * i % 2 ^ 32)
        (shares i) 0 ctx.size := agree_collectShares hs hm (by omega)
    rw [hD]
    exact (hagree j hj).trans (by rw [Nat.zero_add])
  have hused : usedShares D = [0, 1] := by
    refine usedShares_two (by rw [hD]; exact ht) (by rw [hD]; exact hc) ?_ ?_
    · rwa [hnrs 0 (by norm_num)]
    · rwa [hnrs 1 (by norm_num)]
  have hlog0 : lagrangeLog D 0 = lineLog (sharenrs 0) (sharenrs 1) := by
    rw [lagrangeLog_eq (by rwa [hnrs 0 (by norm_num)]), hused, lineLog, ← hnrs 0 (by norm_num),
      ← hnrs 1 (by norm_num)]
    rfl
  have hlog1 : lagrangeLog D 1 = lineLog (sharenrs 1) (sharenrs 0) := by
    rw [lagrangeLog_eq (by rwa [hnrs 1 (by norm_num)]), hused, lineLog, ← hnrs 0 (by norm_num),
      ← hnrs 1 (by norm_num)]
    rfl
  have hpos : j < D.size := by rw [hD]; exact hj
  have hsum := recombineLoop_eq hpos D.sharecount 0 0 (fill secretbuf 0 D.size 0)
  rw [Nat.sub_zero, ← usedShares, hused, fill_in (by omega) (by omega), gf_zero,
    zero_add, List.map_cons, List.map_cons, List.map_nil, List.sum_cons, List.sum_cons,
    List.sum_nil, add_zero, hlog0, hlog1, hpage 0 (by norm_num), hpage 1 (by norm_num)] at hsum
  refine ByteField.ofByte_injective (t := gfshareTables) ?_
  show gf _ = gf _
  rw [gf_xor, gf_iterate, gf_iterate, ← hsum, hD]
  rfl

end

/-- **Any shares that are as many as the threshold give the secret.** The shares are those of
`gfshare_ctx_enc_getshares` with whatever coefficients; of the shares that are not kept the number
is zero and the page is arbitrary. No read on the way leaves the tables. -/
theorem secret_of_kept_shares {k k' : Kernel} {fillRand : Mem → ℕ → Mem}
    {sharenrs sharenrs₀ sharenrs' : Mem} {n t size : ℕ} {enc dec : GfshareCtx} {kept : Finset ℕ}
    (hsize : n * size < 2 ^ 32)
    (hrand : ∀ buffer count i, count ≤ i → fillRand buffer count i = buffer i)
    (henc : gfshareCtxInitEnc k sharenrs n t size = some enc)
    (hdec : gfshareCtxInitDec k' sharenrs₀ n t size = some dec)
    (hdistinct : ∀ i < n, ∀ j < n, sharenrs i = sharenrs j → i = j)
    (hkept : kept ⊆ Finset.range n) (hcard : t ≤ kept.card)
    (hnrs : ∀ i < n, sharenrs' i = if i ∈ kept then sharenrs i else 0) (secret secretbuf : Mem)
    (shares : ℕ → Mem) :
    ∃ encoded, encGetsharesChecked fillRand enc secret shares = some encoded ∧
      ∀ shares' : ℕ → Mem, (∀ i ∈ kept, Agree (shares' i) 0 (encoded i) 0 size) →
        ∃ out, decDecodeChecked dec sharenrs' shares' secretbuf = some out ∧
          ∀ j < size, out j = secret j := by
  obtain ⟨hnz, hcore⟩ := gfshareCtxInitEnc_eq henc
  have hcount : enc.sharecount = n := (gfshareCtxInitCore_eq hcore).2.2.2.1
  refine ⟨_, encGetsharesChecked_eq _ _ _ _, fun shares' hshares =>
    ⟨_, decDecodeChecked_eq _ _ _ _, fun j hj => ?_⟩⟩
  obtain ⟨f, hf, hzero, hshare⟩ := exists_sharePoly hsize hrand henc hj secret shares
  refine ByteField.ofByte_injective ((gfshareCtxDecDecode_eval hsize hdec hnz hdistinct hkept hcard
    hnrs hj hf fun i hi => ?_).trans hzero)
  have hlt := Finset.mem_range.1 (hkept hi)
  have hpage := hshares i hi j hj
  simp only [hcount, if_pos hlt, Nat.zero_add] at hpage
  rw [hpage]
  exact hshare i hlt

/-- The first and the last of three shares numbered 1, 2 and 3, for a threshold of two. -/
theorem secret_of_two_of_three :
    ∃ enc dec encoded out,
      gfshareCtxInitEnc (constKernel 1) (fun i => UInt8.ofNat (i + 1)) 3 2 16 = some enc ∧
      gfshareCtxInitDec (constKernel 1) (fun _ => 0) 3 2 16 = some dec ∧
      encGetsharesChecked (gfshareFillRand (5, 7)) enc UInt8.ofNat (fun _ _ => 0) = some encoded ∧
      decDecodeChecked dec (fun i => if i ∈ ({0, 2} : Finset ℕ) then UInt8.ofNat (i + 1) else 0)
        (fun i => if i = 1 then fun _ => 9 else encoded i) (fun _ => 0) = some out ∧
      ∀ j < 16, out j = UInt8.ofNat j := by
  obtain ⟨enc, henc⟩ : ∃ enc, gfshareCtxInitEnc (constKernel 1) (fun i => UInt8.ofNat (i + 1)) 3 2
    16 = some enc := ⟨_, rfl⟩
  obtain ⟨dec, hdec⟩ : ∃ dec, gfshareCtxInitDec (constKernel 1) (fun _ => 0) 3 2 16 = some dec :=
    ⟨_, rfl⟩
  have hdistinct : ∀ i < 3, ∀ j < 3, UInt8.ofNat (i + 1) = UInt8.ofNat (j + 1) → i = j := by
    decide
  obtain ⟨encoded, hencoded, hall⟩ := secret_of_kept_shares (by norm_num) (gfshareFillRand_out (5, 7))
    henc hdec hdistinct (by decide : ({0, 2} : Finset ℕ) ⊆ Finset.range 3) (by decide) (fun _ _ => rfl) UInt8.ofNat
    (fun _ => 0) fun _ _ => 0
  obtain ⟨out, hout, hsecret⟩ := hall (fun i => if i = 1 then fun _ => 9 else encoded i)
    fun i hi => by
      have hne : i ≠ 1 := by
        rintro rfl
        revert hi
        decide
      rw [if_neg hne]
      exact Agree.refl _ _ _
  exact ⟨enc, dec, encoded, out, henc, hdec, hencoded, hout, hsecret⟩

end Artifice
