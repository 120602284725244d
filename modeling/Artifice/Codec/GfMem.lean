import Artifice.Lib.Mem

/-!
GF(256) of `lib/cauchy_rs.c`: the tables of `GFContext`, and the kernels that work on whole
buffers, in the x86 build without AVX2.

A buffer is a memory and an offset in it. A 128-bit vector is a memory too, of which the first 16
bytes count. A kernel goes over its buffers in chunks of falling size: vectors, then words, then
single bytes.
-/

namespace Artifice

open Lib

/-- `gf_ctx`, the tables that the codec reads, and `CpuHasSSSE3`. -/
structure GfCtx where
  gfMulTable : ℕ → UInt8
  gfDivTable : ℕ → UInt8
  gfInvTable : ℕ → UInt8
  tableLoY : ℕ → Mem
  tableHiY : ℕ → Mem
  cpuHasSsse3 : Bool

/-- `GFContext` before `gf_init`. -/
def gfContextZero : GfCtx where
  gfMulTable _ := 0
  gfDivTable _ := 0
  gfInvTable _ := 0
  tableLoY _ _ := 0
  tableHiY _ _ := 0
  cpuHasSsse3 := false

/-- `gf_add`. -/
def gfAdd (x y : UInt8) : UInt8 := x ^^^ y

/-- `gf_mul`. -/
def gfMul (g : GfCtx) (x y : UInt8) : UInt8 := g.gfMulTable (y.toNat * 256 + x.toNat)

/-- `gf_div`. -/
def gfDiv (g : GfCtx) (x y : UInt8) : UInt8 := g.gfDivTable (y.toNat * 256 + x.toNat)

/-! ### Vectors -/

/-- The vector at `o`. -/
def load128 (m : Mem) (o : ℕ) : Mem := fun i => m (o + i)

/-- The store of a vector at `o`. -/
def store128 (m : Mem) (o : ℕ) (v : Mem) : Mem := blit m o v 0 16

/-- `vector_xor`. -/
def vectorXor (x y : Mem) : Mem := fun i => x i ^^^ y i

/-- `vector_and`. -/
def vectorAnd (x y : Mem) : Mem := fun i => x i &&& y i

/-- `vector_srli_epi64`: both 64-bit halves, shifted to the right. -/
def vectorSrliEpi64 (x : Mem) (y : ℕ) : Mem :=
  store64 (store64 x 0 (load64 x 0 >>> UInt64.ofNat y)) 8 (load64 x 8 >>> UInt64.ofNat y)

/-- `vector_shuffle_epi8`: a table look-up at each byte of `y`. -/
def vectorShuffleEpi8 (x y : Mem) : Mem := fun i =>
  if y i &&& 0x80 = 0 then x (y i &&& 0x0f).toNat else 0

/-- `vector_set`. -/
def vectorSet (x : UInt8) : Mem := fun _ => x

/-- The products of the 16 bytes of `x` with `y`, from the tables of the low and the high half. -/
def vectorMul (g : GfCtx) (y : UInt8) (x : Mem) : Mem :=
  let clrMask := vectorSet 0x0f
  let l := vectorAnd x clrMask
  let h := vectorAnd (vectorSrliEpi64 x 4) clrMask
  vectorXor (vectorShuffleEpi8 (g.tableLoY y.toNat) l) (vectorShuffleEpi8 (g.tableHiY y.toNat) h)

/-! ### Bulk -/

/-- Where a kernel is: the output, the bytes left, and the bytes done. -/
structure Bulk where
  z : Mem
  bytes : ℕ
  pos : ℕ

/-- `while (bytes >= w) { body; bytes -= w; }`, with the pointers moved on. -/
def Bulk.chunks (s : Bulk) (w : ℕ) (body : ℕ → Mem → Mem) : Bulk :=
  let n := s.bytes / w
  ⟨(List.range n).foldl (fun z i => body (s.pos + w * i) z) s.z, s.bytes % w, s.pos + w * n⟩

/-- The block of 8 bytes, the block of 4 and the last bytes, at the end of a kernel. -/
def Bulk.rest (s : Bulk) (eight four one : ℕ → Mem → Mem) : Mem :=
  let z := if s.bytes / 8 % 2 = 1 then eight s.pos s.z else s.z
  let p := s.pos + 8 * (s.bytes / 8 % 2)
  let z := if s.bytes / 4 % 2 = 1 then four p z else z
  let offset := p + 4 * (s.bytes / 4 % 2)
  let z := if s.bytes % 4 ≥ 3 then one (offset + 2) z else z
  let z := if s.bytes % 4 ≥ 2 then one (offset + 1) z else z
  if s.bytes % 4 ≥ 1 then one offset z else z

/-- The `n` bytes that the word `*z8`, `*z4` or the byte at `p` takes from a table, put together
from the least significant on. -/
def tableWord (table : UInt8 → UInt8) (x : Mem) (o : ℕ) : ℕ → ℕ
  | 0 => 0
  | n + 1 => tableWord table x o n ||| (table (x (o + n))).toNat <<< (8 * n)

/-- `gf_add_mem`. -/
def gfAddMem (vx : Mem) (xo : ℕ) (vy : Mem) (yo bytes : ℕ) : Mem :=
  let x16 (p : ℕ) (x : Mem) : Mem :=
    store128 x (xo + p) (vectorXor (load128 x (xo + p)) (load128 vy (yo + p)))
  let s : Bulk := ⟨vx, bytes, 0⟩
  let s := s.chunks 64 fun p x => x16 (p + 48) (x16 (p + 32) (x16 (p + 16) (x16 p x)))
  let s := s.chunks 16 x16
  s.rest (fun p x => store64 x (xo + p) (load64 x (xo + p) ^^^ load64 vy (yo + p)))
    (fun p x => store32 x (xo + p) (load32 x (xo + p) ^^^ load32 vy (yo + p)))
    (fun p x => Function.update x (xo + p) (x (xo + p) ^^^ vy (yo + p)))

/-- `gf_add2_mem`. -/
def gfAdd2Mem (vz : Mem) (zo : ℕ) (vx : Mem) (xo : ℕ) (vy : Mem) (yo bytes : ℕ) : Mem :=
  let s : Bulk := ⟨vz, bytes, 0⟩
  let s := s.chunks 16 fun p z => store128 z (zo + p)
    (vectorXor (load128 z (zo + p)) (vectorXor (load128 vx (xo + p)) (load128 vy (yo + p))))
  s.rest
    (fun p z => store64 z (zo + p)
      (load64 z (zo + p) ^^^ (load64 vx (xo + p) ^^^ load64 vy (yo + p))))
    (fun p z => store32 z (zo + p)
      (load32 z (zo + p) ^^^ (load32 vx (xo + p) ^^^ load32 vy (yo + p))))
    (fun p z => Function.update z (zo + p) (z (zo + p) ^^^ (vx (xo + p) ^^^ vy (yo + p))))

/-- `gf_addset_mem`. -/
def gfAddsetMem (vz : Mem) (zo : ℕ) (vx : Mem) (xo : ℕ) (vy : Mem) (yo bytes : ℕ) : Mem :=
  let z16 (p : ℕ) (z : Mem) : Mem :=
    store128 z (zo + p) (vectorXor (load128 vx (xo + p)) (load128 vy (yo + p)))
  let s : Bulk := ⟨vz, bytes, 0⟩
  let s := s.chunks 64 fun p z => z16 (p + 48) (z16 (p + 32) (z16 (p + 16) (z16 p z)))
  let s := s.chunks 16 z16
  s.rest (fun p z => store64 z (zo + p) (load64 vx (xo + p) ^^^ load64 vy (yo + p)))
    (fun p z => store32 z (zo + p) (load32 vx (xo + p) ^^^ load32 vy (yo + p)))
    (fun p z => Function.update z (zo + p) (vx (xo + p) ^^^ vy (yo + p)))

/-- The row of `GF_MUL_TABLE` for the multiplier `y`. -/
def gfMulRow (g : GfCtx) (y x : UInt8) : UInt8 := g.gfMulTable (y.toNat * 256 + x.toNat)

/-- `gf_mul_mem`. The input may be the output: each byte is read before it is written. -/
def gfMulMem (g : GfCtx) (vz : Mem) (zo : ℕ) (vx : Mem) (xo : ℕ) (y : UInt8) (bytes : ℕ) : Mem :=
  if y = 0 then fill vz zo bytes 0
  else if y = 1 then blit vz zo vx xo bytes
  else
    let table := gfMulRow g y
    let s : Bulk := ⟨vz, bytes, 0⟩
    let s := if g.cpuHasSsse3 then s.chunks 16 fun p z =>
      store128 z (zo + p) (vectorMul g y (load128 vx (xo + p))) else s
    let s := s.chunks 8 fun p z => putLe z (zo + p) 8 (tableWord table vx (xo + p) 8)
    s.rest (fun _ z => z) (fun p z => putLe z (zo + p) 4 (tableWord table vx (xo + p) 4))
      (fun p z => Function.update z (zo + p) (table (vx (xo + p))))

/-- `gf_muladd_mem`. -/
def gfMuladdMem (g : GfCtx) (vz : Mem) (zo : ℕ) (y : UInt8) (vx : Mem) (xo bytes : ℕ) : Mem :=
  if y = 0 then vz
  else if y = 1 then gfAddMem vz zo vx xo bytes
  else
    let table := gfMulRow g y
    let z16 (p : ℕ) (z : Mem) : Mem :=
      store128 z (zo + p) (vectorXor (vectorMul g y (load128 vx (xo + p))) (load128 z (zo + p)))
    let s : Bulk := ⟨vz, bytes, 0⟩
    let s := if g.cpuHasSsse3 then
      (s.chunks 32 fun p z => z16 p (z16 (p + 16) z)).chunks 16 z16 else s
    let s := s.chunks 8 fun p z =>
      putLe z (zo + p) 8 (le z (zo + p) 8 ^^^ tableWord table vx (xo + p) 8)
    s.rest (fun _ z => z)
      (fun p z => putLe z (zo + p) 4 (le z (zo + p) 4 ^^^ tableWord table vx (xo + p) 4))
      (fun p z => Function.update z (zo + p) (z (zo + p) ^^^ table (vx (xo + p))))

/-- `gf_div_mem`. -/
def gfDivMem (g : GfCtx) (vz : Mem) (zo : ℕ) (vx : Mem) (xo : ℕ) (y : UInt8) (bytes : ℕ) : Mem :=
  gfMulMem g vz zo vx xo (if y = 1 then 1 else g.gfInvTable y.toNat) bytes

end Artifice
