import Mathlib.Data.List.GetD
import Artifice.Kernel
import Artifice.Lib.Antilog

/-!
`lib/libgfshare.c`: secret sharing over GF(256).

The shares are the values of a polynomial at the share numbers. Its coefficients are drawn, but
for the constant one, which is the secret; the decoder interpolates at zero, from the first
shares whose number is not zero. Products are taken with the tables `logs` and `exps`.
-/

namespace Artifice

open Lib

/-- `logs`. -/
def logs : List UInt8 := [
    0x00, 0x00, 0x01, 0x19, 0x02, 0x32, 0x1a, 0xc6, 0x03, 0xdf, 0x33, 0xee, 0x1b, 0x68, 0xc7,
    0x4b, 0x04, 0x64, 0xe0, 0x0e, 0x34, 0x8d, 0xef, 0x81, 0x1c, 0xc1, 0x69, 0xf8, 0xc8, 0x08,
    0x4c, 0x71, 0x05, 0x8a, 0x65, 0x2f, 0xe1, 0x24, 0x0f, 0x21, 0x35, 0x93, 0x8e, 0xda, 0xf0,
    0x12, 0x82, 0x45, 0x1d, 0xb5, 0xc2, 0x7d, 0x6a, 0x27, 0xf9, 0xb9, 0xc9, 0x9a, 0x09, 0x78,
    0x4d, 0xe4, 0x72, 0xa6, 0x06, 0xbf, 0x8b, 0x62, 0x66, 0xdd, 0x30, 0xfd, 0xe2, 0x98, 0x25,
    0xb3, 0x10, 0x91, 0x22, 0x88, 0x36, 0xd0, 0x94, 0xce, 0x8f, 0x96, 0xdb, 0xbd, 0xf1, 0xd2,
    0x13, 0x5c, 0x83, 0x38, 0x46, 0x40, 0x1e, 0x42, 0xb6, 0xa3, 0xc3, 0x48, 0x7e, 0x6e, 0x6b,
    0x3a, 0x28, 0x54, 0xfa, 0x85, 0xba, 0x3d, 0xca, 0x5e, 0x9b, 0x9f, 0x0a, 0x15, 0x79, 0x2b,
    0x4e, 0xd4, 0xe5, 0xac, 0x73, 0xf3, 0xa7, 0x57, 0x07, 0x70, 0xc0, 0xf7, 0x8c, 0x80, 0x63,
    0x0d, 0x67, 0x4a, 0xde, 0xed, 0x31, 0xc5, 0xfe, 0x18, 0xe3, 0xa5, 0x99, 0x77, 0x26, 0xb8,
    0xb4, 0x7c, 0x11, 0x44, 0x92, 0xd9, 0x23, 0x20, 0x89, 0x2e, 0x37, 0x3f, 0xd1, 0x5b, 0x95,
    0xbc, 0xcf, 0xcd, 0x90, 0x87, 0x97, 0xb2, 0xdc, 0xfc, 0xbe, 0x61, 0xf2, 0x56, 0xd3, 0xab,
    0x14, 0x2a, 0x5d, 0x9e, 0x84, 0x3c, 0x39, 0x53, 0x47, 0x6d, 0x41, 0xa2, 0x1f, 0x2d, 0x43,
    0xd8, 0xb7, 0x7b, 0xa4, 0x76, 0xc4, 0x17, 0x49, 0xec, 0x7f, 0x0c, 0x6f, 0xf6, 0x6c, 0xa1,
    0x3b, 0x52, 0x29, 0x9d, 0x55, 0xaa, 0xfb, 0x60, 0x86, 0xb1, 0xbb, 0xcc, 0x3e, 0x5a, 0xcb,
    0x59, 0x5f, 0xb0, 0x9c, 0xa9, 0xa0, 0x51, 0x0b, 0xf5, 0x16, 0xeb, 0x7a, 0x75, 0x2c, 0xd7,
    0x4f, 0xae, 0xd5, 0xe9, 0xe6, 0xe7, 0xad, 0xe8, 0x74, 0xd6, 0xf4, 0xea, 0xa8, 0x50, 0x58, 0xaf]

/-- `exps`. -/
def exps : List UInt8 := [
    0x01, 0x02, 0x04, 0x08, 0x10, 0x20, 0x40, 0x80, 0x1d, 0x3a, 0x74, 0xe8, 0xcd, 0x87, 0x13,
    0x26, 0x4c, 0x98, 0x2d, 0x5a, 0xb4, 0x75, 0xea, 0xc9, 0x8f, 0x03, 0x06, 0x0c, 0x18, 0x30,
    0x60, 0xc0, 0x9d, 0x27, 0x4e, 0x9c, 0x25, 0x4a, 0x94, 0x35, 0x6a, 0xd4, 0xb5, 0x77, 0xee,
    0xc1, 0x9f, 0x23, 0x46, 0x8c, 0x05, 0x0a, 0x14, 0x28, 0x50, 0xa0, 0x5d, 0xba, 0x69, 0xd2,
    0xb9, 0x6f, 0xde, 0xa1, 0x5f, 0xbe, 0x61, 0xc2, 0x99, 0x2f, 0x5e, 0xbc, 0x65, 0xca, 0x89,
    0x0f, 0x1e, 0x3c, 0x78, 0xf0, 0xfd, 0xe7, 0xd3, 0xbb, 0x6b, 0xd6, 0xb1, 0x7f, 0xfe, 0xe1,
    0xdf, 0xa3, 0x5b, 0xb6, 0x71, 0xe2, 0xd9, 0xaf, 0x43, 0x86, 0x11, 0x22, 0x44, 0x88, 0x0d,
    0x1a, 0x34, 0x68, 0xd0, 0xbd, 0x67, 0xce, 0x81, 0x1f, 0x3e, 0x7c, 0xf8, 0xed, 0xc7, 0x93,
    0x3b, 0x76, 0xec, 0xc5, 0x97, 0x33, 0x66, 0xcc, 0x85, 0x17, 0x2e, 0x5c, 0xb8, 0x6d, 0xda,
    0xa9, 0x4f, 0x9e, 0x21, 0x42, 0x84, 0x15, 0x2a, 0x54, 0xa8, 0x4d, 0x9a, 0x29, 0x52, 0xa4,
    0x55, 0xaa, 0x49, 0x92, 0x39, 0x72, 0xe4, 0xd5, 0xb7, 0x73, 0xe6, 0xd1, 0xbf, 0x63, 0xc6,
    0x91, 0x3f, 0x7e, 0xfc, 0xe5, 0xd7, 0xb3, 0x7b, 0xf6, 0xf1, 0xff, 0xe3, 0xdb, 0xab, 0x4b,
    0x96, 0x31, 0x62, 0xc4, 0x95, 0x37, 0x6e, 0xdc, 0xa5, 0x57, 0xae, 0x41, 0x82, 0x19, 0x32,
    0x64, 0xc8, 0x8d, 0x07, 0x0e, 0x1c, 0x38, 0x70, 0xe0, 0xdd, 0xa7, 0x53, 0xa6, 0x51, 0xa2,
    0x59, 0xb2, 0x79, 0xf2, 0xf9, 0xef, 0xc3, 0x9b, 0x2b, 0x56, 0xac, 0x45, 0x8a, 0x09, 0x12,
    0x24, 0x48, 0x90, 0x3d, 0x7a, 0xf4, 0xf5, 0xf7, 0xf3, 0xfb, 0xeb, 0xcb, 0x8b, 0x0b, 0x16,
    0x2c, 0x58, 0xb0, 0x7d, 0xfa, 0xe9, 0xcf, 0x83, 0x1b, 0x36, 0x6c, 0xd8, 0xad, 0x47, 0x8e,
    0x01, 0x02, 0x04, 0x08, 0x10, 0x20, 0x40, 0x80, 0x1d, 0x3a, 0x74, 0xe8, 0xcd, 0x87, 0x13,
    0x26, 0x4c, 0x98, 0x2d, 0x5a, 0xb4, 0x75, 0xea, 0xc9, 0x8f, 0x03, 0x06, 0x0c, 0x18, 0x30,
    0x60, 0xc0, 0x9d, 0x27, 0x4e, 0x9c, 0x25, 0x4a, 0x94, 0x35, 0x6a, 0xd4, 0xb5, 0x77, 0xee,
    0xc1, 0x9f, 0x23, 0x46, 0x8c, 0x05, 0x0a, 0x14, 0x28, 0x50, 0xa0, 0x5d, 0xba, 0x69, 0xd2,
    0xb9, 0x6f, 0xde, 0xa1, 0x5f, 0xbe, 0x61, 0xc2, 0x99, 0x2f, 0x5e, 0xbc, 0x65, 0xca, 0x89,
    0x0f, 0x1e, 0x3c, 0x78, 0xf0, 0xfd, 0xe7, 0xd3, 0xbb, 0x6b, 0xd6, 0xb1, 0x7f, 0xfe, 0xe1,
    0xdf, 0xa3, 0x5b, 0xb6, 0x71, 0xe2, 0xd9, 0xaf, 0x43, 0x86, 0x11, 0x22, 0x44, 0x88, 0x0d,
    0x1a, 0x34, 0x68, 0xd0, 0xbd, 0x67, 0xce, 0x81, 0x1f, 0x3e, 0x7c, 0xf8, 0xed, 0xc7, 0x93,
    0x3b, 0x76, 0xec, 0xc5, 0x97, 0x33, 0x66, 0xcc, 0x85, 0x17, 0x2e, 0x5c, 0xb8, 0x6d, 0xda,
    0xa9, 0x4f, 0x9e, 0x21, 0x42, 0x84, 0x15, 0x2a, 0x54, 0xa8, 0x4d, 0x9a, 0x29, 0x52, 0xa4,
    0x55, 0xaa, 0x49, 0x92, 0x39, 0x72, 0xe4, 0xd5, 0xb7, 0x73, 0xe6, 0xd1, 0xbf, 0x63, 0xc6,
    0x91, 0x3f, 0x7e, 0xfc, 0xe5, 0xd7, 0xb3, 0x7b, 0xf6, 0xf1, 0xff, 0xe3, 0xdb, 0xab, 0x4b,
    0x96, 0x31, 0x62, 0xc4, 0x95, 0x37, 0x6e, 0xdc, 0xa5, 0x57, 0xae, 0x41, 0x82, 0x19, 0x32,
    0x64, 0xc8, 0x8d, 0x07, 0x0e, 0x1c, 0x38, 0x70, 0xe0, 0xdd, 0xa7, 0x53, 0xa6, 0x51, 0xa2,
    0x59, 0xb2, 0x79, 0xf2, 0xf9, 0xef, 0xc3, 0x9b, 0x2b, 0x56, 0xac, 0x45, 0x8a, 0x09, 0x12,
    0x24, 0x48, 0x90, 0x3d, 0x7a, 0xf4, 0xf5, 0xf7, 0xf3, 0xfb, 0xeb, 0xcb, 0x8b, 0x0b, 0x16,
    0x2c, 0x58, 0xb0, 0x7d, 0xfa, 0xe9, 0xcf, 0x83, 0x1b, 0x36, 0x6c, 0xd8, 0xad, 0x47, 0x8e]

/-- `logs[x]`. -/
def gfLog (x : UInt8) : ℕ := (logs.getD x.toNat 0).toNat

/-- `exps[i]`. -/
def gfExp (i : ℕ) : UInt8 := exps.getD i 0

/-- `struct _gfshare_ctx`. -/
structure GfshareCtx where
  sharecount : ℕ
  threshold : ℕ
  maxsize : ℕ
  size : ℕ
  sharenrs : Mem
  buffer : Mem

/-! ### Preparation -/

/-- `_gfshare_ctx_init_core`; `none` stands for `NULL`. -/
def gfshareCtxInitCore (k : Kernel) (sharenrs : Mem) (sharecount threshold maxsize : ℕ) :
    Option GfshareCtx :=
  if maxsize < 1 ∨ threshold < 1 ∨ threshold > sharecount then none
  else if k.kmalloc 40 ∧ k.kmalloc sharecount ∧ k.kmalloc (sharecount * maxsize) then
    some ⟨sharecount, threshold, maxsize, maxsize, blit k.uninit 0 sharenrs 0 sharecount, k.uninit⟩
  else none

/-- `gfshare_ctx_init_enc`: no share has the number zero. -/
def gfshareCtxInitEnc (k : Kernel) (sharenrs : Mem) (sharecount threshold maxsize : ℕ) :
    Option GfshareCtx :=
  if (List.range sharecount).any fun i => sharenrs i = 0 then none
  else gfshareCtxInitCore k sharenrs sharecount threshold maxsize

/-- `gfshare_ctx_init_dec`. -/
def gfshareCtxInitDec (k : Kernel) (sharenrs : Mem) (sharecount threshold maxsize : ℕ) :
    Option GfshareCtx :=
  gfshareCtxInitCore k sharenrs sharecount threshold maxsize

/-! ### Random coefficients -/

/-- The macro `R`: the two words after one round. -/
def speckRngRound (x y k : UInt64) : UInt64 × UInt64 :=
  let x := (x >>> 8) ||| (x <<< 56)
  let x := (x + y) ^^^ k
  let y := (y <<< 3) ||| (y >>> 61)
  (x, y ^^^ x)

/-- `speck_encrypt_rng`. -/
def speckEncryptRng (pt K : UInt64 × UInt64) : UInt64 × UInt64 :=
  let (x, y) := speckRngRound pt.2 pt.1 K.1
  let s := (List.range 31).foldl (fun (s : (UInt64 × UInt64) × UInt64 × UInt64) i =>
    let ((a, b), x, y) := s
    let (a, b) := speckRngRound a b (UInt64.ofNat i)
    ((a, b), speckRngRound x y b)) ((K.2, K.1), x, y)
  (s.2.2, s.2.1)

/-- `generate_block_ctr`, the first `n` rounds. -/
def generateBlockCtr (outputBlock : Mem) (seed : UInt64 × UInt64) : ℕ → Mem
  | 0 => outputBlock
  | i + 1 =>
    let output := speckEncryptRng (UInt64.ofNat i, 0) seed
    let outputBlock := generateBlockCtr outputBlock seed i
    store64 (store64 outputBlock (8 * (2 * i + 1)) output.2) (8 * (2 * i)) output.1

/-- `gfshare_fill_rand`, which is `_gfshare_fill_rand_using_speck`. -/
def gfshareFillRand (seed : UInt64 × UInt64) (buffer : Mem) (count : ℕ) : Mem :=
  generateBlockCtr buffer seed (count / 16 % 2 ^ 32)

/-! ### Splitting -/

/-- One coefficient of a share, at every byte: the share so far is multiplied with the share
number, and the coefficient is added. -/
def shareStep (ctx : GfshareCtx) (ilog coefficient : ℕ) (share : Mem) : Mem := fun pos =>
  if pos < ctx.size then
    (if share pos ≠ 0 then gfExp (ilog + gfLog (share pos)) else 0) ^^^
      ctx.buffer (coefficient * ctx.maxsize % 2 ^ 32 + pos)
  else share pos

/-- Share `i` in `gfshare_ctx_enc_getshares`. -/
def getshare (ctx : GfshareCtx) (i : ℕ) (share : Mem) : Mem :=
  let ilog := gfLog (ctx.sharenrs i)
  (List.range' 1 (ctx.threshold - 1)).foldl (fun share coefficient =>
    shareStep ctx ilog coefficient share) (blit share 0 ctx.buffer 0 ctx.size)

/-- `gfshare_ctx_enc_getshares`. `seed` is what `get_random_bytes` returns. -/
def gfshareCtxEncGetshares (seed : UInt64 × UInt64) (ctx : GfshareCtx) (secret : Mem)
    (shares : ℕ → Mem) : ℕ → Mem :=
  let coefficients := (ctx.threshold - 1) * ctx.maxsize % 2 ^ 32
  let buffer := blit ctx.buffer coefficients secret 0 ctx.size
  let ctx := { ctx with buffer := gfshareFillRand seed buffer coefficients }
  fun i => if i < ctx.sharecount then getshare ctx i (shares i) else shares i

/-! ### Recombination -/

/-- The inner loop of `gfshare_ctx_dec_decode` over the last shares, from `j` on: `Li_top` and
`Li_bottom`. A share number of zero is not counted in `jn`, the share `i` itself is. -/
def lagrangeLoop (ctx : GfshareCtx) (i : ℕ) : ℕ → ℕ → ℕ → ℕ × ℕ → ℕ × ℕ
  | 0, _, _, L => L
  | n + 1, j, jn, L =>
    if jn < ctx.threshold then
      if i = j then lagrangeLoop ctx i n (j + 1) (jn + 1) L
      else if ctx.sharenrs j = 0 then lagrangeLoop ctx i n (j + 1) jn L
      else lagrangeLoop ctx i n (j + 1) (jn + 1)
        (L.1 + gfLog (ctx.sharenrs j), L.2 + gfLog (ctx.sharenrs i ^^^ ctx.sharenrs j))
    else L

/-- The logarithm of the Lagrange coefficient of share `i`. -/
def lagrangeLog (ctx : GfshareCtx) (i : ℕ) : ℕ :=
  let (top, bottom) := lagrangeLoop ctx i ctx.sharecount 0 0 (0, 0)
  (top + (255 - bottom % 255)) % 255

/-- The outer loop of `gfshare_ctx_dec_decode` over the last shares, from `i` on. -/
def recombineLoop (ctx : GfshareCtx) : ℕ → ℕ → ℕ → Mem → Mem
  | 0, _, _, secret => secret
  | r + 1, i, n, secret =>
    if n < ctx.threshold then
      if ctx.sharenrs i = 0 then recombineLoop ctx r (i + 1) n secret
      else
        let LiTop := lagrangeLog ctx i
        recombineLoop ctx r (i + 1) (n + 1) fun j =>
          let share := ctx.buffer (ctx.maxsize * i % 2 ^ 32 + j)
          if j < ctx.size ∧ share ≠ 0 then secret j ^^^ gfExp (LiTop + gfLog share) else secret j
    else secret

/-- The copies of the first shares into the buffer. -/
def collectShares (ctx : GfshareCtx) (shares : ℕ → Mem) : ℕ → Mem
  | 0 => ctx.buffer
  | i + 1 => blit (collectShares ctx shares i) (i * ctx.maxsize % 2 ^ 32) (shares i) 0 ctx.size

/-- `gfshare_ctx_dec_decode`: `secretbuf` after the call. -/
def gfshareCtxDecDecode (ctx : GfshareCtx) (sharenrs : Mem) (shares : ℕ → Mem) (secretbuf : Mem) :
    Mem :=
  let ctx := { ctx with
    sharenrs := blit ctx.sharenrs 0 sharenrs 0 ctx.sharecount
    buffer := collectShares ctx shares ctx.sharecount }
  recombineLoop ctx ctx.sharecount 0 0 (fill secretbuf 0 ctx.size 0)

/-! ### The field -/

/-- The product of a byte with the generator 2, modulo `0x11d`. -/
def xtime (b : UInt8) : UInt8 :=
  (b <<< 1) ^^^ (b >>> 7) ^^^ ((b >>> 7) <<< 2) ^^^ ((b >>> 7) <<< 3) ^^^ ((b >>> 7) <<< 4)

theorem xtime_xor (a b : UInt8) : xtime (a ^^^ b) = xtime a ^^^ xtime b := by
  simp only [xtime, UInt8.shiftLeft_xor, UInt8.shiftRight_xor]
  ac_rfl

theorem exps_isChain : exps.IsChain fun a b => b = xtime a := by decide +kernel

theorem gfExp_succ {i : ℕ} (hi : i + 1 < 510) : gfExp (i + 1) = xtime (gfExp i) := by
  have hlen : exps.length = 510 := by decide +kernel
  have := List.isChain_iff_getElem.1 exps_isChain i (by rw [hlen]; exact hi)
  rw [gfExp, gfExp, List.getD_eq_getElem _ _ (by rw [hlen]; exact hi),
    List.getD_eq_getElem _ _ (by rw [hlen]; omega), this]

theorem gfLog_lt (b : UInt8) : gfLog b < 255 := by
  have hall : ∀ x ∈ logs, x.toNat < 255 := by decide +kernel
  have hlen : logs.length = 256 := by decide +kernel
  have hb := b.toNat_lt
  rw [gfLog, List.getD_eq_getElem _ _ (by rw [hlen]; exact hb)]
  exact hall _ (List.getElem_mem _)

/-- **The tables are those of a field.** -/
theorem gfAntilog : Antilog xtime gfExp gfLog 510 where
  map_xor := xtime_xor
  eq_zero := forall_byte (by decide +kernel)
  exp_zero := rfl
  exp_succ _ hi := gfExp_succ hi
  exp_log := forall_byte (by decide +kernel)

/-! ### Bytes of the buffers -/

section

variable {ctx : GfshareCtx} {seed : UInt64 × UInt64} {m m' : Mem} {shares : ℕ → Mem} {n i j : ℕ}

theorem gfExp_gfLog {l : ℕ} (hl : l < 255) (b : UInt8) :
    (if b ≠ 0 then gfExp (l + gfLog b) else 0) = xtime^[l] b := by
  have hb := gfLog_lt b
  rw [← gfAntilog.times_eq (by omega), times, ite_not]

theorem generateBlockCtr_out (h : 16 * n ≤ i) : generateBlockCtr m seed n i = m i := by
  induction n with
  | zero => rfl
  | succ n ih =>
    simp only [generateBlockCtr, store64]
    rw [putLe_out (by omega), putLe_out (by omega), ih (by omega)]

theorem generateBlockCtr_congr (h : m i = m' i) (seed : UInt64 × UInt64) (n : ℕ) :
    generateBlockCtr m seed n i = generateBlockCtr m' seed n i := by
  induction n with
  | zero => exact h
  | succ n ih => simp only [generateBlockCtr, store64, putLe, ih]

theorem gfshareFillRand_out (seed : UInt64 × UInt64) (m : Mem) (n i : ℕ) (h : n ≤ i) :
    gfshareFillRand seed m n i = m i := by
  have hle := Nat.mod_le (n / 16) (2 ^ 32)
  exact generateBlockCtr_out (by omega)

theorem gfshareFillRand_of_lt (h : n < 16) : gfshareFillRand seed m n = m := by
  rw [gfshareFillRand, Nat.div_eq_of_lt h]
  rfl

theorem agree_collectShares (hs : ctx.size ≤ ctx.maxsize) (hm : n * ctx.maxsize < 2 ^ 32)
    (hi : i < n) :
    Agree (collectShares ctx shares n) (ctx.maxsize * i % 2 ^ 32) (shares i) 0 ctx.size := by
  induction n with
  | zero => omega
  | succ n ih =>
    rw [Nat.succ_mul] at hm
    have hn : n * ctx.maxsize % 2 ^ 32 = n * ctx.maxsize := Nat.mod_eq_of_lt (by omega)
    rw [collectShares, hn]
    by_cases h : i = n
    · subst h
      rw [Nat.mul_comm ctx.maxsize, hn]
      exact agree_blit _ _ _ _ _
    · have hle : ctx.maxsize * i + ctx.maxsize ≤ n * ctx.maxsize := by
        rw [← Nat.mul_succ, Nat.mul_comm]
        exact Nat.mul_le_mul_right _ (by omega)
      have hmod : ctx.maxsize * i % 2 ^ 32 = ctx.maxsize * i := Nat.mod_eq_of_lt (by omega)
      refine (agree_blit_out ?_).trans (ih (by omega) (by omega))
      omega

theorem recombine_byte {l : ℕ} (hl : l < 255) (hj : j < n) (a b : UInt8) :
    (if j < n ∧ b ≠ 0 then a ^^^ gfExp (l + gfLog b) else a) = a ^^^ xtime^[l] b := by
  rw [← gfExp_gfLog hl]
  by_cases hb : b = 0
  · simp [hb]
  · simp [hb, hj]

end

end Artifice
