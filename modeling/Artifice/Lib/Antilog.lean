import Mathlib.Tactic

/-!
Multiplication in a field of characteristic two with tables of powers and of logarithms.

The elements are bytes and their sum is the exclusive or. A generator is given by the map `T` that
multiplies with it. If `exp` lists the powers of the generator and `log` the exponents, then the
table look-up `exp (l + log b)` is `T` applied `l` times to `b`: it is additive in `b`, it can be
undone, and the exponents of nested look-ups add up.
-/

namespace Artifice.Lib

theorem forall_byte {P : UInt8 → Prop} (h : ∀ n < 256, P (UInt8.ofNat n)) (b : UInt8) : P b := by
  have := h b.toNat b.toNat_lt
  rwa [UInt8.ofNat_toNat] at this

/-- `exp` and `log` are tables for the generator that `T` multiplies with. -/
structure Antilog (T : UInt8 → UInt8) (exp : ℕ → UInt8) (log : UInt8 → ℕ) (size : ℕ) : Prop where
  /-- `T` is additive. -/
  map_xor : ∀ a b, T (a ^^^ b) = T a ^^^ T b
  /-- Only zero is taken to zero. -/
  eq_zero : ∀ a, T a = 0 → a = 0
  /-- The table of powers starts at one. -/
  exp_zero : exp 0 = 1
  /-- Each entry of the table is `T` of the one before. -/
  exp_succ : ∀ i, i + 1 < size → exp (i + 1) = T (exp i)
  /-- The logarithms are exponents. -/
  exp_log : ∀ b, b ≠ 0 → exp (log b) = b

/-- The product of `b` and the power with exponent `l`, by look-up. -/
def times (exp : ℕ → UInt8) (log : UInt8 → ℕ) (l : ℕ) (b : UInt8) : UInt8 :=
  if b = 0 then 0 else exp (l + log b)

variable {T : UInt8 → UInt8} {exp : ℕ → UInt8} {log : UInt8 → ℕ} {size l i j : ℕ} {a b : UInt8}

theorem Antilog.map_zero (h : Antilog T exp log size) : T 0 = 0 := by
  have := h.map_xor 0 0
  rwa [UInt8.xor_self, UInt8.xor_self] at this

theorem Antilog.iterate_zero (h : Antilog T exp log size) (l : ℕ) : T^[l] 0 = 0 := by
  induction l with
  | zero => rfl
  | succ l ih => rw [Function.iterate_succ_apply', ih, h.map_zero]

theorem Antilog.iterate_xor (h : Antilog T exp log size) (l : ℕ) (a b : UInt8) :
    T^[l] (a ^^^ b) = T^[l] a ^^^ T^[l] b := by
  induction l with
  | zero => rfl
  | succ l ih => rw [Function.iterate_succ_apply', Function.iterate_succ_apply',
      Function.iterate_succ_apply', ih, h.map_xor]

theorem Antilog.injective (h : Antilog T exp log size) : Function.Injective T := by
  intro a b hab
  have hzero : T (a ^^^ b) = 0 := by rw [h.map_xor, hab, UInt8.xor_self]
  exact UInt8.xor_eq_zero_iff.1 (h.eq_zero _ hzero)

theorem Antilog.exp_add (h : Antilog T exp log size) (hij : i + j < size) :
    exp (i + j) = T^[i] (exp j) := by
  induction i with
  | zero => rw [Nat.zero_add]; rfl
  | succ i ih =>
    rw [Nat.succ_add, h.exp_succ _ (by omega), ih (by omega), Function.iterate_succ_apply']

/-- **A look-up multiplies.** -/
theorem Antilog.times_eq (h : Antilog T exp log size) (hl : l + log b < size) :
    times exp log l b = T^[l] b := by
  unfold times
  split_ifs with hb
  · rw [hb, h.iterate_zero]
  · rw [h.exp_add hl, h.exp_log b hb]

theorem Antilog.iterate_comm (h : Antilog T exp log size) (ha : a ≠ 0) (hb : b ≠ 0)
    (hab : log a + log b < size) : T^[log a] b = T^[log b] a := by
  have h1 := h.exp_add hab
  have h2 : exp (log b + log a) = T^[log b] (exp (log a)) := h.exp_add (by omega)
  rw [Nat.add_comm, h2, h.exp_log a ha, h.exp_log b hb] at h1
  exact h1.symm

theorem Antilog.iterate_log_xor (h : Antilog T exp log size) (hlog : ∀ x, 2 * log x < size)
    (ha : a ≠ 0) (hb : b ≠ 0) (hab : a ^^^ b = 1) (x : UInt8) :
    T^[log a] x ^^^ T^[log b] x = x := by
  by_cases hx : x = 0
  · rw [hx, h.iterate_zero, h.iterate_zero, UInt8.xor_self]
  · have hla := hlog a
    have hlb := hlog b
    have hlx := hlog x
    have hexp : exp (log x + 0) = T^[log x] (exp 0) := h.exp_add (by omega)
    rw [h.iterate_comm ha hx (by omega), h.iterate_comm hb hx (by omega), ← h.iterate_xor, hab,
      ← h.exp_zero, ← hexp, Nat.add_zero, h.exp_log x hx]

end Artifice.Lib
