import Artifice.Codec.GfInit

/-!
The kernels of `lib/cauchy_rs.c`, byte by byte.

A kernel changes the bytes of its output one by one, whatever the size of the chunks that it goes
over them with: each of its bodies changes the bytes of a chunk by a function `f` of their place
that is the same for all of them. With the tables of a field, `f` is a sum or a product.
-/

namespace Artifice

open Lib

/-! ### Chunks -/

/-- `body` changes the `w` bytes from place `p` on by `f`, in an output that starts at `zo`. -/
def Bulk.Changes (zo : ℕ) (f : ℕ → UInt8 → UInt8) (w : ℕ) (body : ℕ → Mem → Mem) : Prop :=
  ∀ p z, body p z = mapBytes z (zo + p) w fun j => f (p + j)

/-- The bytes up to `pos` are changed, out of `total`. -/
structure Bulk.Done (zo : ℕ) (f : ℕ → UInt8 → UInt8) (z₀ : Mem) (total : ℕ) (s : Bulk) :
    Prop where
  z : s.z = mapBytes z₀ zo s.pos f
  total : s.pos + s.bytes = total

section

variable {zo total : ℕ} {f : ℕ → UInt8 → UInt8} {z₀ : Mem} {s : Bulk}

theorem Bulk.done_start (zo total : ℕ) (f : ℕ → UInt8 → UInt8) (z₀ : Mem) :
    Bulk.Done zo f z₀ total ⟨z₀, total, 0⟩ :=
  ⟨(mapBytes_zero _ _ _).symm, Nat.zero_add total⟩

theorem Bulk.Changes.comp {w v : ℕ} {body next : ℕ → Mem → Mem} (h : Bulk.Changes zo f w body)
    (h' : Bulk.Changes zo f v next) :
    Bulk.Changes zo f (w + v) fun p z => next (p + w) (body p z) := by
  intro p z
  dsimp only
  rw [h p z, h' (p + w), ← Nat.add_assoc]
  simp only [Nat.add_assoc p w]
  exact mapBytes_append z (zo + p) w v fun j => f (p + j)

theorem Bulk.Changes.comp_rev {w v : ℕ} {body next : ℕ → Mem → Mem}
    (h : Bulk.Changes zo f w body) (h' : Bulk.Changes zo f v next) :
    Bulk.Changes zo f (w + v) fun p z => body p (next (p + w) z) := by
  intro p z
  dsimp only
  rw [h p, h' (p + w), ← Nat.add_assoc]
  simp only [Nat.add_assoc p w]
  exact mapBytes_prepend z (zo + p) w v fun j => f (p + j)

theorem Bulk.Changes.four {body : ℕ → Mem → Mem} (h : Bulk.Changes zo f 16 body) :
    Bulk.Changes zo f 64 fun p z => body (p + 48) (body (p + 32) (body (p + 16) (body p z))) :=
  ((h.comp h).comp h).comp h

theorem Bulk.Done.chunks (h : s.Done zo f z₀ total) {w : ℕ} {body : ℕ → Mem → Mem}
    (hbody : Bulk.Changes zo f w body) : (s.chunks w body).Done zo f z₀ total := by
  have hloop : ∀ n, (List.range n).foldl (fun z i => body (s.pos + w * i) z) s.z =
      mapBytes z₀ zo (s.pos + w * n) f := by
    intro n
    induction n with
    | zero => exact h.z
    | succ n ih =>
      rw [List.range_succ, List.foldl_append, ih, List.foldl_cons, List.foldl_nil, hbody,
        mapBytes_append, Nat.mul_succ, Nat.add_assoc]
  refine ⟨hloop _, ?_⟩
  have htotal := h.total
  have hdiv := Nat.div_add_mod s.bytes w
  simp only [Bulk.chunks]
  omega

theorem Bulk.Changes.tail {one : ℕ → Mem → Mem} (h : Bulk.Changes zo f 1 one) (p n : ℕ)
    (hn : n < 4) (z : Mem) :
    (let z := if n ≥ 3 then one (p + 2) z else z
     let z := if n ≥ 2 then one (p + 1) z else z
     if n ≥ 1 then one p z else z) = mapBytes z (zo + p) n fun j => f (p + j) := by
  have hone : ∀ i z, one (p + i) z = mapBytes z (zo + p + i) 1 fun j => f (p + (i + j)) := by
    intro i z
    rw [h]
    simp only [Nat.add_assoc]
  have htwo : ∀ z, one p (one (p + 1) z) = mapBytes z (zo + p) 2 fun j => f (p + j) := by
    intro z
    rw [hone 1, h p]
    exact mapBytes_prepend z (zo + p) 1 1 fun j => f (p + j)
  have hthree : one p (one (p + 1) (one (p + 2) z)) =
      mapBytes z (zo + p) 3 fun j => f (p + j) := by
    rw [htwo, hone 2]
    exact mapBytes_prepend z (zo + p) 2 1 fun j => f (p + j)
  rcases (by omega : n = 0 ∨ n = 1 ∨ n = 2 ∨ n = 3) with rfl | rfl | rfl | rfl
  · exact (mapBytes_zero _ _ _).symm
  · exact h p z
  · exact htwo z
  · exact hthree

theorem Bulk.Done.rest (h : s.Done zo f z₀ total) (h16 : s.bytes < 16)
    {eight four one : ℕ → Mem → Mem} (h8 : 8 ≤ s.bytes → Bulk.Changes zo f 8 eight)
    (h4 : Bulk.Changes zo f 4 four) (h1 : Bulk.Changes zo f 1 one) :
    s.rest eight four one = mapBytes z₀ zo total f := by
  -- each step changes the bytes that the size has a bit for
  have height : (if s.bytes / 8 % 2 = 1 then eight s.pos s.z else s.z) =
      mapBytes z₀ zo (s.pos + 8 * (s.bytes / 8 % 2)) f := by
    split_ifs with hbit
    · rw [h8 (by omega), h.z, mapBytes_append, hbit]
    · rw [h.z, show s.bytes / 8 % 2 = 0 by omega]
      rfl
  have hfour : ∀ p, (if s.bytes / 4 % 2 = 1 then four p (mapBytes z₀ zo p f)
      else mapBytes z₀ zo p f) = mapBytes z₀ zo (p + 4 * (s.bytes / 4 % 2)) f := by
    intro p
    split_ifs with hbit
    · rw [h4, mapBytes_append, hbit]
    · rw [show s.bytes / 4 % 2 = 0 by omega]
      rfl
  unfold Bulk.rest
  simp only [height, hfour]
  rw [h1.tail _ _ (Nat.mod_lt _ (by norm_num)), mapBytes_append]
  have htotal := h.total
  congr 1
  omega

theorem Bulk.Done.finish (h : s.Done zo f z₀ total) {word : ℕ → ℕ → Mem → Mem}
    {one : ℕ → Mem → Mem} (hword : ∀ w, Bulk.Changes zo f w (word w))
    (hone : Bulk.Changes zo f 1 one) :
    (s.chunks 8 (word 8)).rest (fun _ z => z) (word 4) one = mapBytes z₀ zo total f := by
  have hlt : (s.chunks 8 (word 8)).bytes < 8 := Nat.mod_lt _ (by norm_num)
  exact (h.chunks (hword 8)).rest (hlt.trans (by norm_num))
    (fun h8 => absurd hlt (Nat.not_lt.2 h8)) (hword 4) hone

end

/-! ### Bodies -/

section

variable {zo : ℕ} {f : ℕ → UInt8 → UInt8}

theorem Bulk.changes_store128 {v : ℕ → Mem → Mem}
    (h : ∀ p z, ∀ j < 16, v p z j = f (p + j) (z (zo + p + j))) :
    Bulk.Changes zo f 16 fun p z => store128 z (zo + p) (v p z) := by
  intro p z
  refine blit_eq_mapBytes fun j hj => ?_
  rw [Nat.zero_add]
  exact h p z j hj

theorem Bulk.changes_putLe {w : ℕ} {v : ℕ → Mem → ℕ}
    (h : ∀ p z, ∀ j < w, UInt8.ofNat (v p z / 256 ^ j) = f (p + j) (z (zo + p + j))) :
    Bulk.Changes zo f w fun p z => putLe z (zo + p) w (v p z) :=
  fun p z => putLe_eq_mapBytes fun j hj => h p z j hj

theorem Bulk.changes_update {v : ℕ → Mem → UInt8} (h : ∀ p z, v p z = f p (z (zo + p))) :
    Bulk.Changes zo f 1 fun p z => Function.update z (zo + p) (v p z) := by
  intro p z
  dsimp only
  rw [mapBytes_one, h p z, Nat.add_zero]

end

theorem toNat_load64 (m : Mem) (o : ℕ) : (load64 m o).toNat = le m o 8 :=
  UInt64.toNat_ofNat_of_lt' (le_lt m o 8)

theorem toNat_load32 (m : Mem) (o : ℕ) : (load32 m o).toNat = le m o 4 :=
  UInt32.toNat_ofNat_of_lt' (le_lt m o 4)

theorem ofNat_load64 {m : Mem} {o j : ℕ} (hj : j < 8) :
    UInt8.ofNat ((load64 m o).toNat / 256 ^ j) = m (o + j) := by
  rw [toNat_load64, ofNat_le_div hj]

theorem ofNat_load32 {m : Mem} {o j : ℕ} (hj : j < 4) :
    UInt8.ofNat ((load32 m o).toNat / 256 ^ j) = m (o + j) := by
  rw [toNat_load32, ofNat_le_div hj]

theorem ofNat_xor64 (a b : UInt64) (j : ℕ) : UInt8.ofNat ((a ^^^ b).toNat / 256 ^ j) =
    UInt8.ofNat (a.toNat / 256 ^ j) ^^^ UInt8.ofNat (b.toNat / 256 ^ j) := by
  rw [UInt64.toNat_xor, ofNat_xor_div]

theorem ofNat_xor32 (a b : UInt32) (j : ℕ) : UInt8.ofNat ((a ^^^ b).toNat / 256 ^ j) =
    UInt8.ofNat (a.toNat / 256 ^ j) ^^^ UInt8.ofNat (b.toNat / 256 ^ j) := by
  rw [UInt32.toNat_xor, ofNat_xor_div]

theorem tableWord_eq (table : UInt8 → UInt8) (x : Mem) (o n : ℕ) :
    tableWord table x o n = le (fun i => table (x i)) o n := by
  induction n with
  | zero => rfl
  | succ n ih =>
    have hpow : (256 : ℕ) ^ n = 2 ^ (8 * n) := by
      rw [pow_mul]
      norm_num
    have hlt : le (fun i => table (x i)) o n < 2 ^ (8 * n) := by
      rw [← hpow]
      exact le_lt _ _ _
    rw [tableWord, ih, le_succ_last, Nat.or_comm, ← Nat.shiftLeft_add_eq_or_of_lt hlt,
      Nat.shiftLeft_eq, hpow, Nat.add_comm]

theorem ofNat_tableWord {table : UInt8 → UInt8} {x : Mem} {o n j : ℕ} (hj : j < n) :
    UInt8.ofNat (tableWord table x o n / 256 ^ j) = table (x (o + j)) := by
  rw [tableWord_eq, ofNat_le_div hj]

/-! ### Sums -/

/-- **`gf_add_mem` adds.** -/
theorem gfAddMem_eq (vx : Mem) (xo : ℕ) (vy : Mem) (yo bytes : ℕ) :
    gfAddMem vx xo vy yo bytes = mapBytes vx xo bytes fun j b => b ^^^ vy (yo + j) := by
  have h16 : Bulk.Changes xo (fun j b => b ^^^ vy (yo + j)) 16 fun p x =>
      store128 x (xo + p) (vectorXor (load128 x (xo + p)) (load128 vy (yo + p))) :=
    Bulk.changes_store128 fun p z j _ => by
      simp only [vectorXor, load128, Nat.add_assoc]
  unfold gfAddMem
  refine (((Bulk.done_start xo bytes _ vx).chunks h16.four).chunks h16).rest ?_ (fun _ => ?_) ?_ ?_
  · exact Nat.mod_lt _ (by norm_num)
  · exact Bulk.changes_putLe fun p z j hj => by
      rw [ofNat_xor64, ofNat_load64 hj, ofNat_load64 hj, Nat.add_assoc yo]
  · exact Bulk.changes_putLe fun p z j hj => by
      rw [ofNat_xor32, ofNat_load32 hj, ofNat_load32 hj, Nat.add_assoc yo]
  · exact Bulk.changes_update fun p z => rfl

/-- **`gf_addset_mem` is the sum of its inputs.** -/
theorem gfAddsetMem_eq (vz : Mem) (zo : ℕ) (vx : Mem) (xo : ℕ) (vy : Mem) (yo bytes : ℕ) :
    gfAddsetMem vz zo vx xo vy yo bytes =
      mapBytes vz zo bytes fun j _ => vx (xo + j) ^^^ vy (yo + j) := by
  have h16 : Bulk.Changes zo (fun j _ => vx (xo + j) ^^^ vy (yo + j)) 16 fun p z =>
      store128 z (zo + p) (vectorXor (load128 vx (xo + p)) (load128 vy (yo + p))) :=
    Bulk.changes_store128 fun p z j _ => by
      simp only [vectorXor, load128, Nat.add_assoc]
  unfold gfAddsetMem
  refine (((Bulk.done_start zo bytes _ vz).chunks h16.four).chunks h16).rest ?_ (fun _ => ?_) ?_ ?_
  · exact Nat.mod_lt _ (by norm_num)
  · exact Bulk.changes_putLe fun p z j hj => by
      rw [ofNat_xor64, ofNat_load64 hj, ofNat_load64 hj, Nat.add_assoc xo, Nat.add_assoc yo]
  · exact Bulk.changes_putLe fun p z j hj => by
      rw [ofNat_xor32, ofNat_load32 hj, ofNat_load32 hj, Nat.add_assoc xo, Nat.add_assoc yo]
  · exact Bulk.changes_update fun p z => rfl

/-! ### Products -/

theorem ofNat_le_shift_and {x : Mem} {o j : ℕ} (hj : j < 8) :
    UInt8.ofNat ((load64 x o >>> UInt64.ofNat 4).toNat / 256 ^ j) &&& (0x0f : UInt8) =
      x (o + j) >>> 4 := by
  have hbyte := le_div_mod (m := x) (o := o) hj
  have hdiv : le x o 8 / 2 ^ 4 / 256 ^ j = le x o 8 / 256 ^ j / 16 := by
    rw [Nat.div_div_eq_div_mul, Nat.div_div_eq_div_mul, Nat.mul_comm]
    rfl
  rw [← UInt8.toNat_inj, UInt8.toNat_and, UInt8.toNat_ofNat', UInt64.toNat_shiftRight,
    toNat_load64, UInt8.toNat_shiftRight, Nat.shiftRight_eq_div_pow, Nat.shiftRight_eq_div_pow]
  have h4 : (UInt64.ofNat 4).toNat % 64 = 4 := by decide
  have h4' : (4 : UInt8).toNat % 8 = 4 := by decide
  have h15 : (0x0f : UInt8).toNat = 2 ^ 4 - 1 := by decide
  rw [h4, h4', h15, Nat.and_two_pow_sub_one_eq_mod, hdiv, ← hbyte]
  omega

theorem vectorSrliEpi64_and {x : Mem} {j : ℕ} (hj : j < 16) :
    vectorSrliEpi64 x 4 j &&& (0x0f : UInt8) = x j >>> 4 := by
  unfold vectorSrliEpi64
  by_cases h8 : j < 8
  · have hlow : store64 (store64 x 0 (load64 x 0 >>> UInt64.ofNat 4)) 8
        (load64 x 8 >>> UInt64.ofNat 4) j =
        UInt8.ofNat ((load64 x 0 >>> UInt64.ofNat 4).toNat / 256 ^ j) := by
      rw [store64, putLe_out (.inl h8), store64]
      have := putLe_in (m := x) (o := 0) (v := (load64 x 0 >>> UInt64.ofNat 4).toNat) h8
      rwa [Nat.zero_add] at this
    rw [hlow, ofNat_le_shift_and h8, Nat.zero_add]
  · obtain ⟨i, rfl⟩ : ∃ i, j = 8 + i := ⟨j - 8, by omega⟩
    rw [store64, putLe_in (by omega), ofNat_le_shift_and (by omega)]

theorem vectorShuffleEpi8_low {x y : Mem} {i : ℕ} (h : y i &&& (0x0f : UInt8) = y i) :
    vectorShuffleEpi8 x y i = x (y i).toNat := by
  have hbit : y i &&& (0x80 : UInt8) = 0 := by
    rw [← h, UInt8.and_assoc]
    exact UInt8.and_zero
  rw [vectorShuffleEpi8, if_pos hbit, h]

theorem byte_halves : ∀ b : UInt8,
    UInt8.ofNat (b &&& 0x0f).toNat ^^^ UInt8.ofNat ((b >>> 4).toNat <<< 4) = b :=
  forall_byte (by decide +kernel)

section

variable {t : FieldTables} {g : GfCtx}

theorem GfCtx.Valid.gfMul_xor (hg : g.Valid t) (x x' y : UInt8) :
    gfMul g x y ^^^ gfMul g x' y = gfMul g (x ^^^ x') y := by
  apply ByteField.ofByte_injective (t := t)
  rw [ByteField.ofByte_xor, hg.mul, hg.mul, hg.mul, ByteField.ofByte_xor, add_mul]

theorem GfCtx.Valid.gfMul_zero (hg : g.Valid t) (x : UInt8) : gfMul g x 0 = 0 := by
  apply ByteField.ofByte_injective (t := t)
  rw [hg.mul, ByteField.ofByte_zero, mul_zero]

theorem GfCtx.Valid.gfMul_one (hg : g.Valid t) (x : UInt8) : gfMul g x 1 = x := by
  apply ByteField.ofByte_injective (t := t)
  rw [hg.mul, ByteField.ofByte_one, mul_one]

theorem GfCtx.Valid.vectorMul_eq (hg : g.Valid t) (y : UInt8) (x : Mem) {j : ℕ} (hj : j < 16) :
    vectorMul g y x j = gfMul g (x j) y := by
  have hlow : vectorAnd x (vectorSet 0x0f) j = x j &&& 0x0f := rfl
  have hhigh : vectorAnd (vectorSrliEpi64 x 4) (vectorSet 0x0f) j = x j >>> 4 :=
    vectorSrliEpi64_and hj
  have hmask : (x j >>> 4) &&& (0x0f : UInt8) = x j >>> 4 := by
    rw [← vectorSrliEpi64_and hj, UInt8.and_assoc]
    rfl
  have hlt : ∀ b : UInt8, (b &&& 0x0f).toNat < 16 := by
    intro b
    rw [UInt8.toNat_and]
    exact Nat.lt_of_le_of_lt Nat.and_le_right (by decide)
  have hlt' : (x j >>> 4).toNat < 16 := by
    rw [← hmask]
    exact hlt _
  show vectorShuffleEpi8 _ _ j ^^^ vectorShuffleEpi8 _ _ j = _
  rw [vectorShuffleEpi8_low (by rw [hlow, UInt8.and_assoc]; rfl),
    vectorShuffleEpi8_low (by rw [hhigh, hmask]), hlow, hhigh, hg.lo y _ (hlt _),
    hg.hi y _ hlt', hg.gfMul_xor, byte_halves]

/-- **`gf_mul_mem` multiplies.** -/
theorem GfCtx.Valid.gfMulMem_eq (hg : g.Valid t) (vz : Mem) (zo : ℕ) (vx : Mem) (xo : ℕ)
    (y : UInt8) (bytes : ℕ) :
    gfMulMem g vz zo vx xo y bytes = mapBytes vz zo bytes fun j _ => gfMul g (vx (xo + j)) y := by
  have h16 : Bulk.Changes zo (fun j _ => gfMul g (vx (xo + j)) y) 16 fun p z =>
      store128 z (zo + p) (vectorMul g y (load128 vx (xo + p))) :=
    Bulk.changes_store128 fun p z j hj => by
      rw [hg.vectorMul_eq y _ hj, load128, Nat.add_assoc]
  have hword : ∀ w, Bulk.Changes zo (fun j _ => gfMul g (vx (xo + j)) y) w fun p z =>
      putLe z (zo + p) w (tableWord (gfMulRow g y) vx (xo + p) w) :=
    fun w => Bulk.changes_putLe fun p z j hj => by
      rw [ofNat_tableWord hj, Nat.add_assoc, gfMulRow, gfMul]
  have hone : Bulk.Changes zo (fun j _ => gfMul g (vx (xo + j)) y) 1 fun p z =>
      Function.update z (zo + p) (gfMulRow g y (vx (xo + p))) :=
    Bulk.changes_update fun p z => rfl
  unfold gfMulMem
  split_ifs with h0 h1
  · subst h0
    funext i
    simp only [fill, mapBytes, hg.gfMul_zero]
  · subst h1
    exact blit_eq_mapBytes fun j _ => (hg.gfMul_one _).symm
  · exact ((Bulk.done_start zo bytes _ vz).chunks h16).finish hword hone
  · exact (Bulk.done_start zo bytes _ vz).finish hword hone

/-- **`gf_muladd_mem` adds a multiple.** -/
theorem GfCtx.Valid.gfMuladdMem_eq (hg : g.Valid t) (vz : Mem) (zo : ℕ) (y : UInt8) (vx : Mem)
    (xo bytes : ℕ) :
    gfMuladdMem g vz zo y vx xo bytes =
      mapBytes vz zo bytes fun j b => b ^^^ gfMul g (vx (xo + j)) y := by
  have h16 : Bulk.Changes zo (fun j b => b ^^^ gfMul g (vx (xo + j)) y) 16 fun p z =>
      store128 z (zo + p)
        (vectorXor (vectorMul g y (load128 vx (xo + p))) (load128 z (zo + p))) :=
    Bulk.changes_store128 fun p z j hj => by
      rw [vectorXor, hg.vectorMul_eq y _ hj, load128, load128, Nat.add_assoc xo, UInt8.xor_comm]
  have hword : ∀ w, Bulk.Changes zo (fun j b => b ^^^ gfMul g (vx (xo + j)) y) w fun p z =>
      putLe z (zo + p) w (le z (zo + p) w ^^^ tableWord (gfMulRow g y) vx (xo + p) w) :=
    fun w => Bulk.changes_putLe fun p z j hj => by
      rw [ofNat_xor_div, ofNat_le_div hj, ofNat_tableWord hj, Nat.add_assoc xo, gfMulRow, gfMul]
  have hone : Bulk.Changes zo (fun j b => b ^^^ gfMul g (vx (xo + j)) y) 1 fun p z =>
      Function.update z (zo + p) (z (zo + p) ^^^ gfMulRow g y (vx (xo + p))) :=
    Bulk.changes_update fun p z => rfl
  unfold gfMuladdMem
  split_ifs with h0 h1
  · subst h0
    funext i
    simp only [mapBytes, hg.gfMul_zero, UInt8.xor_zero, ite_self]
  · subst h1
    rw [gfAddMem_eq]
    exact mapBytes_congr fun j _ b => by rw [hg.gfMul_one]
  · exact (((Bulk.done_start zo bytes _ vz).chunks (h16.comp_rev h16)).chunks h16).finish hword hone
  · exact (Bulk.done_start zo bytes _ vz).finish hword hone

/-- **`gf_div_mem` divides.** -/
theorem GfCtx.Valid.gfDivMem_eq (hg : g.Valid t) (vz : Mem) (zo : ℕ) (vx : Mem) (xo : ℕ)
    (y : UInt8) (bytes : ℕ) :
    gfDivMem g vz zo vx xo y bytes = mapBytes vz zo bytes fun j _ => gfDiv g (vx (xo + j)) y := by
  have hdiv : ∀ x, gfMul g x (if y = 1 then 1 else g.gfInvTable y.toNat) = gfDiv g x y := by
    intro x
    apply ByteField.ofByte_injective (t := t)
    rw [hg.mul, hg.div]
    split_ifs with h1
    · rw [h1, ByteField.ofByte_one, mul_one, div_one]
    · rw [hg.inv, div_eq_mul_inv]
  rw [gfDivMem, hg.gfMulMem_eq]
  exact mapBytes_congr fun j _ _ => hdiv _

end

end Artifice
