import Mathlib.Algebra.Field.MinimalAxioms
import Artifice.Lib.Antilog

/-!
The field of bytes that a table of powers and a table of logarithms stand for.

If the powers of the generator come back to one after 255 steps and every byte other than zero has
a logarithm below 255, then the bytes with the exclusive or as sum are a field, and the map `T` is
the product with the generator. The look-ups of `Antilog` become products, and sums of logarithms
become products of elements.
-/

namespace Artifice.Lib

/-- Tables for all 255 powers of a generator. -/
structure FieldTables where
  T : UInt8 → UInt8
  exp : ℕ → UInt8
  log : UInt8 → ℕ
  size : ℕ
  antilog : Antilog T exp log size
  size_gt : 255 < size
  exp_period : exp 255 = 1
  log_lt : ∀ b, b ≠ 0 → log b < 255

/-- The bytes as elements of the field that the tables stand for. -/
@[ext]
structure ByteField (t : FieldTables) where
  toByte : UInt8
  deriving DecidableEq

namespace ByteField

variable {t : FieldTables}

/-- A byte as an element. -/
def ofByte (t : FieldTables) (b : UInt8) : ByteField t := ⟨b⟩

theorem ofByte_injective : Function.Injective (ofByte t) := fun _ _ h => congrArg toByte h

instance : Zero (ByteField t) := ⟨ofByte t 0⟩
instance : One (ByteField t) := ⟨ofByte t 1⟩
instance : Add (ByteField t) := ⟨fun a b => ofByte t (a.toByte ^^^ b.toByte)⟩
instance : Neg (ByteField t) := ⟨fun a => a⟩

instance : Mul (ByteField t) :=
  ⟨fun a b => if a = 0 then 0 else ofByte t (t.T^[t.log a.toByte] b.toByte)⟩

instance : Inv (ByteField t) :=
  ⟨fun a => if a = 0 then 0 else ofByte t (t.T^[255 - t.log a.toByte] 1)⟩

theorem ofByte_zero : ofByte t 0 = 0 := rfl

theorem ofByte_one : ofByte t 1 = 1 := rfl

theorem ofByte_xor (a b : UInt8) : ofByte t (a ^^^ b) = ofByte t a + ofByte t b := rfl

theorem ofByte_eq_zero {b : UInt8} : ofByte t b = 0 ↔ b = 0 :=
  ⟨fun h => ofByte_injective h, fun h => congrArg (ofByte t) h⟩

/-! ### The powers of the generator -/

theorem pow_log {b : UInt8} (hb : b ≠ 0) : t.T^[t.log b] 1 = b := by
  have hlt := t.log_lt b hb
  have hgt := t.size_gt
  have h := t.antilog.exp_add (i := t.log b) (j := 0) (by omega)
  rw [Nat.add_zero, t.antilog.exp_log b hb, t.antilog.exp_zero] at h
  exact h.symm

theorem pow_period : t.T^[255] 1 = 1 := by
  have h := t.antilog.exp_add (i := 255) (j := 0) (by have := t.size_gt; omega)
  rw [Nat.add_zero, t.exp_period, t.antilog.exp_zero] at h
  exact h.symm

theorem pow_ne_zero_byte (l : ℕ) {b : UInt8} (hb : b ≠ 0) : t.T^[l] b ≠ 0 := by
  intro h
  rw [← t.antilog.iterate_zero l] at h
  exact hb (t.antilog.injective.iterate l h)

theorem pow_congr {m n : ℕ} (h : t.T^[m] 1 = t.T^[n] 1) (b : UInt8) : t.T^[m] b = t.T^[n] b := by
  by_cases hb : b = 0
  · rw [hb, t.antilog.iterate_zero, t.antilog.iterate_zero]
  · rw [← pow_log (t := t) hb, ← Function.iterate_add_apply, Nat.add_comm,
      Function.iterate_add_apply, h, ← Function.iterate_add_apply, Nat.add_comm,
      Function.iterate_add_apply]

/-! ### The field -/

theorem zero_mul_aux (b : ByteField t) : (0 : ByteField t) * b = 0 := if_pos rfl

theorem ofByte_mul {a : UInt8} (ha : a ≠ 0) (b : UInt8) :
    ofByte t a * ofByte t b = ofByte t (t.T^[t.log a] b) :=
  if_neg fun h => ha (ofByte_eq_zero.1 h)

theorem mul_zero_aux (a : ByteField t) : a * (0 : ByteField t) = 0 := by
  obtain ⟨a⟩ := a
  by_cases ha : a = 0
  · rw [ha]
    exact zero_mul_aux 0
  · have h := ofByte_mul (t := t) ha 0
    rw [t.antilog.iterate_zero] at h
    exact h

theorem ofByte_mul_pow {a b : UInt8} (ha : a ≠ 0) (hb : b ≠ 0) :
    ofByte t a * ofByte t b = ofByte t (t.T^[t.log a + t.log b] 1) := by
  rw [ofByte_mul ha, Function.iterate_add_apply, pow_log hb]

theorem mul_comm_aux (a b : ByteField t) : a * b = b * a := by
  by_cases ha : a = 0
  · rw [ha, zero_mul_aux, mul_zero_aux]
  by_cases hb : b = 0
  · rw [hb, zero_mul_aux, mul_zero_aux]
  obtain ⟨a⟩ := a
  obtain ⟨b⟩ := b
  have ha : a ≠ 0 := fun h => ha (ofByte_eq_zero.2 h)
  have hb : b ≠ 0 := fun h => hb (ofByte_eq_zero.2 h)
  calc ofByte t a * ofByte t b = ofByte t (t.T^[t.log a + t.log b] 1) := ofByte_mul_pow ha hb
    _ = ofByte t (t.T^[t.log b + t.log a] 1) := by rw [Nat.add_comm]
    _ = ofByte t b * ofByte t a := (ofByte_mul_pow hb ha).symm

theorem mul_assoc_aux (a b c : ByteField t) : a * b * c = a * (b * c) := by
  by_cases ha : a = 0
  · rw [ha, zero_mul_aux, zero_mul_aux, zero_mul_aux]
  by_cases hb : b = 0
  · rw [hb, mul_zero_aux, zero_mul_aux, mul_zero_aux]
  obtain ⟨a⟩ := a
  obtain ⟨b⟩ := b
  obtain ⟨c⟩ := c
  have ha : a ≠ 0 := fun h => ha (ofByte_eq_zero.2 h)
  have hb : b ≠ 0 := fun h => hb (ofByte_eq_zero.2 h)
  -- the product of the first two is some power of the generator, and so is its look-up
  have hab : t.T^[t.log a] b ≠ 0 := pow_ne_zero_byte _ hb
  have hpow : t.T^[t.log (t.T^[t.log a] b)] 1 = t.T^[t.log a + t.log b] 1 := by
    rw [pow_log hab, Function.iterate_add_apply, pow_log hb]
  calc ofByte t a * ofByte t b * ofByte t c
      = ofByte t (t.T^[t.log (t.T^[t.log a] b)] c) := by rw [ofByte_mul ha, ofByte_mul hab]
    _ = ofByte t (t.T^[t.log a] (t.T^[t.log b] c)) := by
        rw [pow_congr hpow, Function.iterate_add_apply]
    _ = ofByte t a * (ofByte t b * ofByte t c) := by rw [ofByte_mul hb, ofByte_mul ha]

theorem one_ne_zero_byte : (1 : UInt8) ≠ 0 := by decide

theorem one_mul_aux (a : ByteField t) : 1 * a = a := by
  obtain ⟨a⟩ := a
  have hpow : t.T^[t.log 1] 1 = t.T^[0] 1 := pow_log one_ne_zero_byte
  exact (ofByte_mul one_ne_zero_byte a).trans (congrArg (ofByte t) (pow_congr hpow a))

theorem mul_inv_aux (a : ByteField t) (ha : a ≠ 0) : a * a⁻¹ = 1 := by
  have hinv : a⁻¹ = ofByte t (t.T^[255 - t.log a.toByte] 1) := if_neg ha
  obtain ⟨a⟩ := a
  have ha : a ≠ 0 := fun h => ha (ofByte_eq_zero.2 h)
  have hlt := t.log_lt a ha
  have hsum : t.log a + (255 - t.log a) = 255 := by omega
  calc ofByte t a * (ofByte t a)⁻¹
      = ofByte t (t.T^[t.log a] (t.T^[255 - t.log a] 1)) := by
        rw [← ofByte_mul ha]
        exact congrArg _ hinv
    _ = ofByte t (t.T^[255] 1) := by rw [← Function.iterate_add_apply, hsum]
    _ = 1 := congrArg (ofByte t) pow_period

theorem mul_add_aux (a b c : ByteField t) : a * (b + c) = a * b + a * c := by
  by_cases ha : a = 0
  · rw [ha, zero_mul_aux, zero_mul_aux, zero_mul_aux]
    exact congrArg (ofByte t) UInt8.zero_xor.symm
  obtain ⟨a⟩ := a
  obtain ⟨b⟩ := b
  obtain ⟨c⟩ := c
  have ha : a ≠ 0 := fun h => ha (ofByte_eq_zero.2 h)
  calc ofByte t a * (ofByte t b + ofByte t c)
      = ofByte t (t.T^[t.log a] b ^^^ t.T^[t.log a] c) := by
        rw [← ofByte_xor, ofByte_mul ha, t.antilog.iterate_xor]
    _ = ofByte t a * ofByte t b + ofByte t a * ofByte t c := by
        rw [ofByte_xor, ofByte_mul ha, ofByte_mul ha]

/-- **The bytes are a field.** -/
instance : Field (ByteField t) :=
  Field.ofMinimalAxioms (ByteField t)
    (fun a b c => congrArg (ofByte t) (UInt8.xor_assoc a.toByte b.toByte c.toByte))
    (fun _ => congrArg (ofByte t) UInt8.zero_xor)
    (fun _ => congrArg (ofByte t) UInt8.xor_self) mul_assoc_aux mul_comm_aux one_mul_aux
    mul_inv_aux (if_pos rfl) mul_add_aux
    ⟨1, 0, fun h => one_ne_zero_byte (ofByte_injective h)⟩

/-! ### Look-ups are products -/

theorem add_self (a : ByteField t) : a + a = 0 := congrArg (ofByte t) UInt8.xor_self

theorem sub_eq (a b : ByteField t) : a - b = a + b := sub_eq_add_neg a b

theorem add_eq_zero_iff {a b : ByteField t} : a + b = 0 ↔ a = b := by rw [← sub_eq, sub_eq_zero]

/-- The generator. -/
def gen (t : FieldTables) : ByteField t := ofByte t (t.T 1)

theorem gen_mul (b : UInt8) : gen t * ofByte t b = ofByte t (t.T b) := by
  have hg : t.T 1 ≠ 0 := pow_ne_zero_byte 1 one_ne_zero_byte
  have hpow : t.T^[t.log (t.T 1)] 1 = t.T^[1] 1 := pow_log hg
  exact (ofByte_mul hg b).trans (congrArg (ofByte t) (pow_congr hpow b))

/-- **A look-up is a product with a power of the generator.** -/
theorem ofByte_iterate (l : ℕ) (b : UInt8) : ofByte t (t.T^[l] b) = gen t ^ l * ofByte t b := by
  induction l with
  | zero => rw [pow_zero, one_mul, Function.iterate_zero, id]
  | succ l ih => rw [Function.iterate_succ_apply', ← gen_mul, ih, pow_succ', mul_assoc]

theorem gen_pow_log {b : UInt8} (hb : b ≠ 0) : gen t ^ t.log b = ofByte t b := by
  have h := ofByte_iterate (t := t) (t.log b) 1
  rw [pow_log hb, ofByte_one, mul_one] at h
  exact h.symm

theorem gen_pow_period : gen t ^ 255 = 1 := by
  have h := ofByte_iterate (t := t) 255 1
  rw [pow_period, ofByte_one, mul_one] at h
  exact h.symm

theorem gen_pow_mod (n : ℕ) : gen t ^ (n % 255) = gen t ^ n :=
  (pow_eq_pow_mod n gen_pow_period).symm

theorem gen_pow_sub {n : ℕ} (hn : n ≤ 255) : gen t ^ (255 - n) = (gen t ^ n)⁻¹ := by
  refine eq_inv_of_mul_eq_one_left ?_
  rw [← pow_add, Nat.sub_add_cancel hn, gen_pow_period]

end ByteField

end Artifice.Lib
