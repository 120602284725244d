import Mathlib.Tactic

/-!
Byte memories as functions of the address, with the operations a C program makes on them:
`memcpy` and `memset` of a range, and little-endian loads and stores of a few bytes.

A range of one memory *agrees* with a range of another when they hold the same bytes; every
fact below about a copy, a load or a store is stated with `Agree` or with the byte at one
address, so that a proof about a buffer never unfolds the operations themselves.
-/

namespace Artifice.Lib

/-- A byte memory. It is total in the address: the size of a buffer is kept beside it. -/
abbrev Mem := ℕ → UInt8

/-- `memcpy(dst + d, src + s, n)`. -/
def blit (dst : Mem) (d : ℕ) (src : Mem) (s n : ℕ) : Mem := fun i =>
  if d ≤ i ∧ i < d + n then src (s + (i - d)) else dst i

/-- `memset(dst + d, x, n)`. -/
def fill (dst : Mem) (d n : ℕ) (x : UInt8) : Mem := fun i =>
  if d ≤ i ∧ i < d + n then x else dst i

/-- The `k` bytes at `o`, read as a little-endian number. -/
def le (m : Mem) (o : ℕ) : ℕ → ℕ
  | 0 => 0
  | k + 1 => (m o).toNat + 256 * le m (o + 1) k

/-- The store of the low `k` bytes of `v` at `o`, least significant first. -/
def putLe (m : Mem) (o k v : ℕ) : Mem := fun i =>
  if o ≤ i ∧ i < o + k then UInt8.ofNat (v / 256 ^ (i - o)) else m i

/-- The `n` bytes of `m` at `o` are the `n` bytes of `m'` at `o'`. -/
def Agree (m : Mem) (o : ℕ) (m' : Mem) (o' n : ℕ) : Prop := ∀ i < n, m (o + i) = m' (o' + i)

instance (m : Mem) (o : ℕ) (m' : Mem) (o' n : ℕ) : Decidable (Agree m o m' o' n) :=
  inferInstanceAs (Decidable (∀ i < n, m (o + i) = m' (o' + i)))

variable {m m' m'' src dst : Mem} {d s n o o' o'' k i j v : ℕ} {x : UInt8}

/-! ### Copies and fills -/

theorem blit_in (h : i < n) : blit dst d src s n (d + i) = src (s + i) := by
  unfold blit
  rw [if_pos ⟨by omega, by omega⟩, Nat.add_sub_cancel_left]

theorem blit_zero_in (h : i < n) : blit dst 0 src 0 n i = src i := by
  unfold blit
  rw [if_pos ⟨by omega, by omega⟩, Nat.zero_add, Nat.sub_zero]

theorem blit_out (h : i < d ∨ d + n ≤ i) : blit dst d src s n i = dst i := by
  unfold blit
  rw [if_neg (by omega)]

theorem fill_in (h : d ≤ i) (h' : i < d + n) : fill dst d n x i = x := by
  unfold fill
  rw [if_pos ⟨h, h'⟩]

theorem fill_out (h : i < d ∨ d + n ≤ i) : fill dst d n x i = dst i := by
  unfold fill
  rw [if_neg (by omega)]

/-! ### Agreement -/

theorem Agree.refl (m : Mem) (o n : ℕ) : Agree m o m o n := fun _ _ => rfl

theorem Agree.symm (h : Agree m o m' o' n) : Agree m' o' m o n := fun i hi => (h i hi).symm

theorem Agree.trans (h : Agree m o m' o' n) (h' : Agree m' o' m'' o'' n) :
    Agree m o m'' o'' n := fun i hi => (h i hi).trans (h' i hi)

theorem Agree.sub (h : Agree m o m' o' n) (hj : j + k ≤ n) :
    Agree m (o + j) m' (o' + j) k := by
  intro i hi
  have := h (j + i) (by omega)
  rwa [← Nat.add_assoc, ← Nat.add_assoc] at this

theorem agree_records_iff : Agree m 0 m' 0 (n * k) ↔ ∀ e < n, Agree m (e * k) m' (e * k) k := by
  constructor
  · intro h e he
    have hle : e * k + k ≤ n * k := by
      rw [← Nat.succ_mul]
      exact Nat.mul_le_mul_right k he
    have := h.sub hle
    rwa [Nat.zero_add] at this
  · intro h i hi
    have hk : 0 < k := Nat.pos_of_ne_zero fun h0 => by simp [h0] at hi
    have := h (i / k) (Nat.div_lt_of_lt_mul (by rwa [Nat.mul_comm])) (i % k) (Nat.mod_lt i hk)
    rw [Nat.div_add_mod' i k] at this
    simpa using this

theorem agree_blit (dst : Mem) (d : ℕ) (src : Mem) (s n : ℕ) :
    Agree (blit dst d src s n) d src s n := fun _ hi => blit_in hi

theorem agree_blit_out (h : o + k ≤ d ∨ d + n ≤ o) :
    Agree (blit dst d src s n) o dst o k := fun _ _ => blit_out (by omega)

theorem blit_congr (h : Agree src s m' o' n) : blit dst d src s n = blit dst d m' o' n := by
  funext i
  unfold blit
  split_ifs with hi
  · exact h (i - d) (by omega)
  · rfl

/-! ### Little-endian numbers -/

theorem le_lt (m : Mem) (o k : ℕ) : le m o k < 256 ^ k := by
  induction k generalizing o with
  | zero => simp [le]
  | succ k ih =>
    have h1 := ih (o + 1)
    have h2 := (m o).toNat_lt
    rw [le, pow_succ]
    omega

theorem le_congr (h : Agree m o m' o' k) : le m o k = le m' o' k := by
  induction k generalizing o o' with
  | zero => rfl
  | succ k ih =>
    have h0 := h 0 (by omega)
    have h1 := ih (h.sub (j := 1) (k := k) (by omega))
    rw [le, le, h1, show m o = m' o' by simpa using h0]

theorem agree_of_le_eq (h : le m o k = le m' o' k) : Agree m o m' o' k := by
  induction k generalizing o o' with
  | zero => intro i hi; omega
  | succ k ih =>
    rw [le, le] at h
    have h2 := (m o).toNat_lt
    have h3 := (m' o').toNat_lt
    have hb : (m o).toNat = (m' o').toNat := by omega
    have ht : Agree m (o + 1) m' (o' + 1) k := ih (by omega)
    intro i hi
    cases i with
    | zero => exact UInt8.toNat_inj.mp hb
    | succ i =>
      have := ht i (by omega)
      rwa [show o + (i + 1) = o + 1 + i by omega, show o' + (i + 1) = o' + 1 + i by omega]

theorem putLe_in (h : i < k) : putLe m o k v (o + i) = UInt8.ofNat (v / 256 ^ i) := by
  unfold putLe
  rw [if_pos ⟨by omega, by omega⟩, Nat.add_sub_cancel_left]

theorem putLe_out (h : i < o ∨ o + k ≤ i) : putLe m o k v i = m i := by
  unfold putLe
  rw [if_neg (by omega)]

theorem agree_putLe_out (h : o' + n ≤ o ∨ o + k ≤ o') : Agree (putLe m o k v) o' m o' n :=
  fun _ _ => putLe_out (by omega)

theorem le_putLe_out (h : o' + n ≤ o ∨ o + k ≤ o') : le (putLe m o k v) o' n = le m o' n :=
  le_congr (agree_putLe_out h)

theorem le_of_bytes (h : ∀ i < k, m (o + i) = UInt8.ofNat (v / 256 ^ i)) :
    le m o k = v % 256 ^ k := by
  induction k generalizing o v with
  | zero => simp [le, Nat.mod_one]
  | succ k ih =>
    have h0 : m o = UInt8.ofNat v := by simpa using h 0 (by omega)
    have ht : le m (o + 1) k = v / 256 % 256 ^ k := by
      refine ih fun i hi => ?_
      have := h (i + 1) (by omega)
      rw [show o + 1 + i = o + (i + 1) by omega, this, Nat.div_div_eq_div_mul, pow_succ']
    rw [le, h0, ht, UInt8.toNat_ofNat', show (2 : ℕ) ^ 8 = 256 from rfl]
    rw [pow_succ' 256 k, Nat.mod_mul]

theorem le_putLe (m : Mem) (o k v : ℕ) : le (putLe m o k v) o k = v % 256 ^ k :=
  le_of_bytes fun _ hi => putLe_in hi

theorem le_putLe_of_lt (h : v < 256 ^ k) : le (putLe m o k v) o k = v := by
  rw [le_putLe, Nat.mod_eq_of_lt h]

theorem le_div_mod (h : i < k) : le m o k / 256 ^ i % 256 = (m (o + i)).toNat := by
  induction i generalizing o k with
  | zero =>
    obtain ⟨k, rfl⟩ : ∃ j, k = j + 1 := ⟨k - 1, by omega⟩
    have := (m o).toNat_lt
    rw [le, pow_zero, Nat.div_one]
    simp only [Nat.add_zero]
    omega
  | succ i ih =>
    obtain ⟨k, rfl⟩ : ∃ j, k = j + 1 := ⟨k - 1, by omega⟩
    have hd : ((m o).toNat + 256 * le m (o + 1) k) / 256 = le m (o + 1) k := by
      have := (m o).toNat_lt
      omega
    rw [le, pow_succ', ← Nat.div_div_eq_div_mul, hd, ih (o := o + 1) (k := k) (by omega),
      show o + 1 + i = o + (i + 1) by omega]

theorem ofNat_le_div (h : i < k) : UInt8.ofNat (le m o k / 256 ^ i) = m (o + i) := by
  rw [← UInt8.toNat_inj, UInt8.toNat_ofNat', show (2 : ℕ) ^ 8 = 256 from rfl, le_div_mod h]

theorem putLe_le (m : Mem) (o k : ℕ) : putLe m o k (le m o k) = m := by
  funext i
  unfold putLe
  split_ifs with h
  · rw [ofNat_le_div (by omega), Nat.add_sub_cancel' h.1]
  · rfl

/-! ### Bytewise changes -/

/-- The `n` bytes at `o`, each changed by a function of its place and of itself. -/
def mapBytes (m : Mem) (o n : ℕ) (f : ℕ → UInt8 → UInt8) : Mem := fun i =>
  if o ≤ i ∧ i < o + n then f (i - o) (m i) else m i

section

variable {f f' : ℕ → UInt8 → UInt8} {p w : ℕ}

theorem mapBytes_in (h : i < n) : mapBytes m o n f (o + i) = f i (m (o + i)) := by
  unfold mapBytes
  rw [if_pos ⟨by omega, by omega⟩, Nat.add_sub_cancel_left]

theorem mapBytes_zero_in (h : i < n) : mapBytes m 0 n f i = f i (m i) := by
  have := mapBytes_in (m := m) (o := 0) (f := f) h
  rwa [Nat.zero_add] at this

theorem mapBytes_out (h : i < o ∨ o + n ≤ i) : mapBytes m o n f i = m i := by
  unfold mapBytes
  rw [if_neg (by omega)]

theorem mapBytes_zero (m : Mem) (o : ℕ) (f : ℕ → UInt8 → UInt8) : mapBytes m o 0 f = m :=
  funext fun _ => mapBytes_out (by omega)

theorem mapBytes_one (m : Mem) (o : ℕ) (f : ℕ → UInt8 → UInt8) :
    mapBytes m o 1 f = Function.update m o (f 0 (m o)) := by
  funext i
  by_cases hi : i = o
  · subst hi
    rw [Function.update_self]
    exact mapBytes_in (i := 0) Nat.one_pos
  · rw [Function.update_of_ne hi]
    exact mapBytes_out (by omega)

theorem mapBytes_eq (h : ∀ i < n, f i (m (o + i)) = f' i (m (o + i))) :
    mapBytes m o n f = mapBytes m o n f' := by
  funext i
  unfold mapBytes
  split_ifs with hi
  · have := h (i - o) (by omega)
    rwa [show o + (i - o) = i by omega] at this
  · rfl

theorem mapBytes_congr (h : ∀ i < n, ∀ b, f i b = f' i b) :
    mapBytes m o n f = mapBytes m o n f' :=
  mapBytes_eq fun i hi => h i hi _

theorem mapBytes_append (m : Mem) (o p w : ℕ) (f : ℕ → UInt8 → UInt8) :
    mapBytes (mapBytes m o p f) (o + p) w (fun j => f (p + j)) = mapBytes m o (p + w) f := by
  funext i
  by_cases hlow : i < o ∨ o + (p + w) ≤ i
  · rw [mapBytes_out (by omega), mapBytes_out (by omega), mapBytes_out hlow]
  · obtain ⟨j, rfl⟩ : ∃ j, i = o + j := ⟨i - o, by omega⟩
    have hwhole : mapBytes m o (p + w) f (o + j) = f j (m (o + j)) := mapBytes_in (by omega)
    rw [hwhole]
    by_cases hj : j < p
    · rw [mapBytes_out (by omega), mapBytes_in hj]
    · obtain ⟨l, rfl⟩ : ∃ l, j = p + l := ⟨j - p, by omega⟩
      rw [← Nat.add_assoc, mapBytes_in (by omega), mapBytes_out (by omega)]

theorem mapBytes_prepend (m : Mem) (o p w : ℕ) (f : ℕ → UInt8 → UInt8) :
    mapBytes (mapBytes m (o + p) w (fun j => f (p + j))) o p f = mapBytes m o (p + w) f := by
  funext i
  by_cases hlow : i < o ∨ o + (p + w) ≤ i
  · rw [mapBytes_out (by omega), mapBytes_out (by omega), mapBytes_out hlow]
  · obtain ⟨j, rfl⟩ : ∃ j, i = o + j := ⟨i - o, by omega⟩
    have hwhole : mapBytes m o (p + w) f (o + j) = f j (m (o + j)) := mapBytes_in (by omega)
    rw [hwhole]
    by_cases hj : j < p
    · rw [mapBytes_in hj, mapBytes_out (by omega)]
    · obtain ⟨l, rfl⟩ : ∃ l, j = p + l := ⟨j - p, by omega⟩
      rw [mapBytes_out (by omega), ← Nat.add_assoc, mapBytes_in (by omega)]

theorem blit_eq_mapBytes (h : ∀ i < n, src (s + i) = f i (dst (d + i))) :
    blit dst d src s n = mapBytes dst d n f := by
  funext i
  unfold blit mapBytes
  split_ifs with hi
  · have := h (i - d) (by omega)
    rwa [show d + (i - d) = i by omega] at this
  · rfl

theorem putLe_eq_mapBytes (h : ∀ i < k, UInt8.ofNat (v / 256 ^ i) = f i (m (o + i))) :
    putLe m o k v = mapBytes m o k f := by
  funext i
  unfold putLe mapBytes
  split_ifs with hi
  · have := h (i - o) (by omega)
    rwa [show o + (i - o) = i by omega] at this
  · rfl

end

theorem ofNat_xor_div (a b i : ℕ) :
    UInt8.ofNat ((a ^^^ b) / 256 ^ i) = UInt8.ofNat (a / 256 ^ i) ^^^ UInt8.ofNat (b / 256 ^ i) := by
  have hpow : (256 : ℕ) ^ i = 2 ^ (8 * i) := by
    rw [pow_mul]
    norm_num
  rw [hpow, ← Nat.shiftRight_eq_div_pow, ← Nat.shiftRight_eq_div_pow, ← Nat.shiftRight_eq_div_pow,
    Nat.shiftRight_xor_distrib, UInt8.ofNat_xor]

theorem le_succ_last (m : Mem) (o k : ℕ) :
    le m o (k + 1) = le m o k + (m (o + k)).toNat * 256 ^ k := by
  induction k generalizing o with
  | zero => simp [le]
  | succ k ih =>
    rw [le, ih (o + 1), le, pow_succ', show o + 1 + k = o + (k + 1) by omega]
    ring

theorem le_mod_pow (h : n ≤ k) : le m o k % 256 ^ n = le m o n := by
  induction k, h using Nat.le_induction with
  | base => exact Nat.mod_eq_of_lt (le_lt m o n)
  | succ k hk ih =>
    obtain ⟨d, rfl⟩ : ∃ d, k = n + d := ⟨k - n, by omega⟩
    rw [le_succ_last, pow_add, ← ih, ← Nat.mul_assoc, Nat.mul_comm _ (256 ^ n), Nat.mul_assoc,
      Nat.add_mul_mod_self_left]

/-! ### Words -/

/-- The `uint32_t` at `o`. -/
def load32 (m : Mem) (o : ℕ) : UInt32 := UInt32.ofNat (le m o 4)

/-- The `uint64_t` at `o`. -/
def load64 (m : Mem) (o : ℕ) : UInt64 := UInt64.ofNat (le m o 8)

/-- The store of a `uint32_t` at `o`. -/
def store32 (m : Mem) (o : ℕ) (x : UInt32) : Mem := putLe m o 4 x.toNat

/-- The store of a `uint64_t` at `o`. -/
def store64 (m : Mem) (o : ℕ) (x : UInt64) : Mem := putLe m o 8 x.toNat

theorem load32_congr (h : Agree m o m' o' 4) : load32 m o = load32 m' o' := by
  rw [load32, load32, le_congr h]

theorem load64_congr (h : Agree m o m' o' 8) : load64 m o = load64 m' o' := by
  rw [load64, load64, le_congr h]

theorem load64_store64 (m : Mem) (o : ℕ) (x : UInt64) : load64 (store64 m o x) o = x := by
  rw [load64, store64, le_putLe_of_lt x.toNat_lt, UInt64.ofNat_toNat]

theorem load64_store64_out {x : UInt64} (h : o' + 8 ≤ o ∨ o + 8 ≤ o') :
    load64 (store64 m o x) o' = load64 m o' :=
  load64_congr (agree_putLe_out h)

theorem agree_of_load64_eq (h : load64 m o = load64 m' o') : Agree m o m' o' 8 := by
  refine agree_of_le_eq ?_
  have h1 := le_lt m o 8
  have h2 := le_lt m' o' 8
  rw [load64, load64, ← UInt64.toNat_inj, UInt64.toNat_ofNat_of_lt' h1,
    UInt64.toNat_ofNat_of_lt' h2] at h
  exact h

theorem agree_of_words (h : ∀ i < n, load64 m (o + 8 * i) = load64 m' (o' + 8 * i)) :
    Agree m o m' o' (8 * n) := by
  intro j hj
  have := agree_of_load64_eq (h (j / 8) (by omega)) (j % 8) (Nat.mod_lt j (by norm_num))
  rwa [Nat.add_assoc, Nat.add_assoc, Nat.div_add_mod] at this

end Artifice.Lib
