import Artifice.Codec.Shamir

/-!
Recombination step by step, with the other functions of `lib/libgfshare.c`.

A context is told the share numbers, the size and the shares by calls in any order, each of which
may be repeated. What counts in the end is what was last said: the calls are followed on a record
of the size, the numbers and the shares, and extraction gives the secret as soon as the numbers and
the shares of this record are those of enough shares.
-/

namespace Artifice

open Lib Polynomial

/-- `gfshare_ctx_setsize`: the return code, and the context. -/
def gfshareCtxSetsize (ctx : GfshareCtx) (size : ℕ) : ℤ × GfshareCtx :=
  if size < 1 ∨ size ≥ ctx.maxsize then (1, ctx) else (0, { ctx with size })

/-- `gfshare_ctx_dec_newshares`. -/
def gfshareCtxDecNewshares (ctx : GfshareCtx) (sharenrs : Mem) : GfshareCtx :=
  { ctx with sharenrs := blit ctx.sharenrs 0 sharenrs 0 ctx.sharecount }

/-- `gfshare_ctx_dec_giveshare`: the return code, and the context. -/
def gfshareCtxDecGiveshare (ctx : GfshareCtx) (sharenr : UInt8) (share : Mem) : ℤ × GfshareCtx :=
  if sharenr.toNat ≥ ctx.sharecount then (1, ctx)
  else
    (0, { ctx with
      buffer := blit ctx.buffer (sharenr.toNat * ctx.maxsize % 2 ^ 32) share 0 ctx.size })

/-- `gfshare_ctx_dec_extract`: `secretbuf` after the call. Its loops are those of
`gfshare_ctx_dec_decode`. -/
def gfshareCtxDecExtract (ctx : GfshareCtx) (secretbuf : Mem) : Mem :=
  recombineLoop ctx ctx.sharecount 0 0 (fill secretbuf 0 ctx.size 0)

/-- A call on a context. -/
inductive DecCall
  | setsize (size : ℕ)
  | newshares (sharenrs : Mem)
  | giveshare (sharenr : UInt8) (share : Mem)

/-- The context after a call. -/
def DecCall.run (ctx : GfshareCtx) : DecCall → GfshareCtx
  | .setsize size => (gfshareCtxSetsize ctx size).2
  | .newshares sharenrs => gfshareCtxDecNewshares ctx sharenrs
  | .giveshare sharenr share => (gfshareCtxDecGiveshare ctx sharenr share).2

/-- What the calls have said: the size, the share numbers, and a share for every index. -/
structure DecSession where
  size : ℕ
  numbers : Mem
  shares : ℕ → Mem

/-- What is said after a call. A size that does not leave room is not taken, and no more of a share
than the size. -/
def DecSession.after (maxsize : ℕ) (s : DecSession) : DecCall → DecSession
  | .setsize size => if 1 ≤ size ∧ size < maxsize then { s with size } else s
  | .newshares sharenrs => { s with numbers := sharenrs }
  | .giveshare sharenr share => { s with
      shares := fun i => if i = sharenr.toNat then blit (s.shares i) 0 share 0 s.size
        else s.shares i }

/-- What is said by a context that has just been made. -/
def DecSession.start (sharenrs : Mem) (ctx : GfshareCtx) : DecSession where
  size := ctx.maxsize
  numbers := sharenrs
  shares i j := ctx.buffer (ctx.maxsize * i + j)

/-- The context holds what has been said. -/
structure DecSession.HeldBy (s : DecSession) (ctx : GfshareCtx) : Prop where
  size : ctx.size = s.size
  fits : s.size ≤ ctx.maxsize
  numbers : ∀ i < ctx.sharecount, ctx.sharenrs i = s.numbers i
  shares : ∀ i < ctx.sharecount, ∀ j < ctx.maxsize,
    ctx.buffer (ctx.maxsize * i + j) = s.shares i j

/-- Nothing but the size, the numbers and the buffer is changed. -/
structure SameShape (ctx ctx' : GfshareCtx) : Prop where
  sharecount : ctx'.sharecount = ctx.sharecount
  threshold : ctx'.threshold = ctx.threshold
  maxsize : ctx'.maxsize = ctx.maxsize

section

variable {ctx ctx' : GfshareCtx} {s : DecSession} {call : DecCall} {sharenrs secretbuf : Mem}
  {i i' j m n : ℕ}

theorem sameShape_run (ctx : GfshareCtx) (call : DecCall) : SameShape ctx (call.run ctx) := by
  cases call with
  | setsize size =>
    rw [DecCall.run, gfshareCtxSetsize]
    split_ifs <;> exact ⟨rfl, rfl, rfl⟩
  | newshares sharenrs => exact ⟨rfl, rfl, rfl⟩
  | giveshare sharenr share =>
    rw [DecCall.run, gfshareCtxDecGiveshare]
    split_ifs <;> exact ⟨rfl, rfl, rfl⟩

theorem share_apart (hj : j < m) (hne : i ≠ i') : m * i + j < m * i' ∨ m * i' + m ≤ m * i + j := by
  rcases Nat.lt_or_gt_of_ne hne with h | h
  · left
    have := Nat.mul_le_mul_left m (show i + 1 ≤ i' from h)
    rw [Nat.mul_succ] at this
    omega
  · right
    have := Nat.mul_le_mul_left m (show i' + 1 ≤ i from h)
    rw [Nat.mul_succ] at this
    omega

/-- **A call** leaves in the context what is said after it. -/
theorem DecSession.HeldBy.run (h : s.HeldBy ctx) (hsize : ctx.sharecount * ctx.maxsize < 2 ^ 32)
    (call : DecCall) : (s.after ctx.maxsize call).HeldBy (call.run ctx) := by
  cases call with
  | setsize size =>
    rw [DecCall.run, gfshareCtxSetsize, DecSession.after]
    by_cases hs : size < 1 ∨ size ≥ ctx.maxsize
    · rw [if_pos hs, if_neg (by omega)]
      exact h
    · rw [if_neg hs, if_pos (by omega)]
      exact ⟨rfl, by dsimp only; omega, h.numbers, h.shares⟩
  | newshares sharenrs => exact ⟨h.size, h.fits, fun i hi => blit_zero_in hi, h.shares⟩
  | giveshare sharenr share =>
    rw [DecCall.run, gfshareCtxDecGiveshare]
    obtain ⟨nr, hnr⟩ : ∃ nr, sharenr.toNat = nr := ⟨_, rfl⟩
    rw [DecSession.after, hnr]
    by_cases hge : nr ≥ ctx.sharecount
    · -- the index is refused, and no share with this index is ever read
      rw [if_pos hge]
      refine ⟨h.size, h.fits, h.numbers, fun i hi j hj => ?_⟩
      dsimp only at hi ⊢
      rw [if_neg (by omega)]
      exact h.shares i hi j hj
    · rw [if_neg hge]
      have hle : (nr + 1) * ctx.maxsize ≤ ctx.sharecount * ctx.maxsize :=
        Nat.mul_le_mul_right _ (by omega)
      rw [Nat.succ_mul] at hle
      refine ⟨h.size, h.fits, h.numbers, fun i hi j hj => ?_⟩
      have hfits := h.fits
      dsimp only at hi hj ⊢
      rw [Nat.mod_eq_of_lt (by omega), Nat.mul_comm nr, h.size]
      by_cases hin : i = nr
      · subst hin
        rw [if_pos rfl]
        by_cases hlt : j < s.size
        · rw [blit_in hlt, blit_zero_in hlt, Nat.zero_add]
        · rw [blit_out (by omega), blit_out (by omega)]
          exact h.shares i hi j hj
      · rw [if_neg hin, blit_out ((share_apart hj hin).imp id fun h => by omega)]
        exact h.shares i hi j hj

/-- **Calls in any order** leave in the context what was last said. -/
theorem DecSession.HeldBy.calls (h : s.HeldBy ctx) (hsize : ctx.sharecount * ctx.maxsize < 2 ^ 32)
    (calls : List DecCall) :
    SameShape ctx (calls.foldl DecCall.run ctx) ∧
      (calls.foldl (DecSession.after ctx.maxsize) s).HeldBy (calls.foldl DecCall.run ctx) := by
  induction calls generalizing ctx s with
  | nil => exact ⟨⟨rfl, rfl, rfl⟩, h⟩
  | cons call calls ih =>
    have hshape := sameShape_run ctx call
    obtain ⟨hrest, hheld⟩ := ih (h.run hsize call)
      (by rw [hshape.sharecount, hshape.maxsize]; exact hsize)
    rw [hshape.maxsize] at hheld
    exact ⟨⟨hrest.sharecount.trans hshape.sharecount, hrest.threshold.trans hshape.threshold,
      hrest.maxsize.trans hshape.maxsize⟩, hheld⟩

end

/-- **What is extracted is decided by what was last said.** After any calls on a decoding context, in
any order, with shares given again, with the size changed in between and with indices that are
refused: if the numbers that were said last are those of kept shares that are as many as the
threshold, and zero for the others, and each kept share was last given as
`gfshare_ctx_enc_getshares` has computed it, up to the size, then extraction gives the secret up to
the size. -/
theorem extract_of_calls {k k' : Kernel} {fillRand : Mem → ℕ → Mem} {sharenrs sharenrs₀ : Mem}
    {n t size : ℕ} {enc dec : GfshareCtx} {kept : Finset ℕ} (hsize : n * size < 2 ^ 32)
    (hrand : ∀ buffer count i, count ≤ i → fillRand buffer count i = buffer i)
    (henc : gfshareCtxInitEnc k sharenrs n t size = some enc)
    (hdec : gfshareCtxInitDec k' sharenrs₀ n t size = some dec)
    (hdistinct : ∀ i < n, ∀ j < n, sharenrs i = sharenrs j → i = j)
    (hkept : kept ⊆ Finset.range n) (hcard : t ≤ kept.card) (secret secretbuf : Mem)
    (shares : ℕ → Mem) :
    ∃ encoded, encGetsharesChecked fillRand enc secret shares = some encoded ∧
      ∀ (calls : List DecCall) (s : DecSession),
        calls.foldl (DecSession.after size) (.start sharenrs₀ dec) = s →
        (∀ i < n, s.numbers i = if i ∈ kept then sharenrs i else 0) →
        (∀ i ∈ kept, Agree (s.shares i) 0 (encoded i) 0 s.size) →
        ∀ j < s.size, gfshareCtxDecExtract (calls.foldl DecCall.run dec) secretbuf j = secret j := by
  obtain ⟨hnz, hcore⟩ := gfshareCtxInitEnc_eq henc
  have hcount : enc.sharecount = n := (gfshareCtxInitCore_eq hcore).2.2.2.1
  obtain ⟨-, -, -, hd1, hd2, hd3, hd4, hdnrs⟩ := gfshareCtxInitCore_eq hdec
  refine ⟨_, encGetsharesChecked_eq _ _ _ _, fun calls s hs hnumbers hshares j hj => ?_⟩
  have hstart : (DecSession.start sharenrs₀ dec).HeldBy dec :=
    ⟨hd4.trans hd3.symm, le_refl _, fun i hi => hdnrs i (hd1 ▸ hi), fun _ _ _ _ => rfl⟩
  obtain ⟨hshape, hheld⟩ := hstart.calls (by rw [hd1, hd3]; exact hsize) calls
  rw [hd3, hs] at hheld
  obtain ⟨ctx, hctx⟩ : ∃ ctx, calls.foldl DecCall.run dec = ctx := ⟨_, rfl⟩
  rw [hctx] at hshape hheld ⊢
  have hc1 := hshape.sharecount.trans hd1
  have hc2 := hshape.threshold.trans hd2
  have hc3 := hshape.maxsize.trans hd3
  have hfits := hheld.fits
  obtain ⟨f, hf, hzero, hshare⟩ := exists_sharePoly hsize hrand henc
    (show j < size by omega) secret shares
  refine ByteField.ofByte_injective ((recombineLoop_of_kept hc1 hnz hdistinct hkept
    (hc2.trans_le hcard) (fun i hi => ?_) (hheld.size ▸ hj)
    (fill_in (by omega) (by rw [hheld.size]; omega)) (by rw [hc2]; exact hf) fun i hi => ?_).trans
      hzero)
  · rw [hheld.numbers i (by omega)]
    exact hnumbers i hi
  · have hlt := Finset.mem_range.1 (hkept hi)
    have hle : (i + 1) * size ≤ n * size := Nat.mul_le_mul_right _ (by omega)
    rw [Nat.succ_mul, Nat.mul_comm] at hle
    have hbyte := hshares i hi j hj
    simp only [hcount, if_pos hlt, Nat.zero_add] at hbyte
    rw [hc3, Nat.mod_eq_of_lt (by omega), ← hc3, hheld.shares i (by omega) j (by omega), hbyte]
    exact hshare i hlt

/-- The last of three shares is given a second time, an index is refused, and the first share is given
after the size has been halved. -/
theorem extract_of_six_calls :
    ∃ enc dec encoded,
      gfshareCtxInitEnc (constKernel 1) (fun i => UInt8.ofNat (i + 1)) 3 2 16 = some enc ∧
      gfshareCtxInitDec (constKernel 1) (fun _ => 0) 3 2 16 = some dec ∧
      encGetsharesChecked (gfshareFillRand (5, 7)) enc UInt8.ofNat (fun _ _ => 0) = some encoded ∧
      ∀ j < 8, gfshareCtxDecExtract ([.giveshare 2 fun _ => 9, .newshares fun i =>
          if i ∈ ({0, 2} : Finset ℕ) then UInt8.ofNat (i + 1) else 0, .giveshare 7 fun _ => 9,
        .giveshare 2 (encoded 2), .setsize 8, .giveshare 0 (encoded 0)].foldl DecCall.run dec)
          (fun _ => 0) j = UInt8.ofNat j := by
  obtain ⟨enc, henc⟩ : ∃ enc, gfshareCtxInitEnc (constKernel 1) (fun i => UInt8.ofNat (i + 1)) 3 2
    16 = some enc := ⟨_, rfl⟩
  obtain ⟨dec, hdec⟩ : ∃ dec, gfshareCtxInitDec (constKernel 1) (fun _ => 0) 3 2 16 = some dec :=
    ⟨_, rfl⟩
  have hdistinct : ∀ i < 3, ∀ j < 3, UInt8.ofNat (i + 1) = UInt8.ofNat (j + 1) → i = j := by
    decide
  obtain ⟨encoded, hencoded, hall⟩ := extract_of_calls (by norm_num) (gfshareFillRand_out (5, 7)) henc
    hdec hdistinct
    (by decide : ({0, 2} : Finset ℕ) ⊆ Finset.range 3) (by decide) UInt8.ofNat (fun _ => 0)
    fun _ _ => 0
  refine ⟨enc, dec, encoded, henc, hdec, hencoded, fun j hj =>
    hall _ _ rfl (fun i _ => rfl) (fun i hi j hj => ?_) j hj⟩
  -- both shares were given from their first byte on
  have hj8 : j < 8 := hj
  simp only [List.foldl_cons, List.foldl_nil, DecSession.after, DecSession.start]
  rcases Finset.mem_insert.1 hi with rfl | hi
  · norm_num
    rw [blit_zero_in hj8]
  · obtain rfl := Finset.mem_singleton.1 hi
    have hmax : dec.maxsize = 16 := (gfshareCtxInitCore_eq hdec).2.2.2.2.2.1
    norm_num
    rw [if_pos (by decide), blit_zero_in (by omega)]

end Artifice
