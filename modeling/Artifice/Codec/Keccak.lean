import Artifice.Lib.Bits
import Artifice.Lib.Keccak
import Artifice.Codec.Sha3

/-!
`keccak_f` against the permutation on bits: the words of the state are the lanes of a state array,
and each step on the words is the step mapping on their bits.
-/

namespace Artifice

open Lib

/-- The state array that the words of a state hold. -/
def lanes (s : ℕ → UInt64) : Keccak.StateArray := fun x y z => (s (5 * y + x)).toBitVec.getLsbD z

section

variable {s : ℕ → UInt64} {x y : Fin 5} {z : Fin 64} {w v : UInt64} {k r : ℕ}

theorem getLsbD_rotl (h0 : 0 < r) (h : r < 64) (z : Fin 64) :
    (sha3Rotl64 w r).toBitVec.getLsbD z = w.toBitVec.getLsbD (z - Fin.ofNat 64 r : Fin 64) := by
  have hz := z.isLt
  have hplace : (z - Fin.ofNat 64 r : Fin 64).val = (64 - r + z) % 64 := by
    rw [Fin.val_sub, Fin.val_ofNat, Nat.mod_eq_of_lt h]
  rw [sha3Rotl64, toBitVec_rotl h0 h, BitVec.getLsbD_rotateLeft_of_le h, hplace]
  rcases Nat.lt_or_ge z.val r with hlt | hge
  · rw [decide_eq_true hlt, cond_true, Nat.mod_eq_of_lt (by omega)]
  · rw [decide_eq_false (by omega), cond_false, decide_eq_true hz, Bool.true_and,
      show 64 - r + z.val = z - r + 64 by omega, Nat.add_mod_right, Nat.mod_eq_of_lt (by omega)]

/-! ### The steps -/

/-- The parity of a column. -/
def parity (s : ℕ → UInt64) (x : Fin 5) : UInt64 :=
  s (5 * (0 : Fin 5) + x) ^^^ s (5 * (1 : Fin 5) + x) ^^^ s (5 * (2 : Fin 5) + x) ^^^
    s (5 * (3 : Fin 5) + x) ^^^ s (5 * (4 : Fin 5) + x)

theorem theta_lane (x y : Fin 5) : theta s (5 * y + x) =
    s (5 * y + x) ^^^ (parity s (x - 1) ^^^ sha3Rotl64 (parity s (x + 1)) 1) := by
  fin_cases x <;> fin_cases y <;> rfl

theorem lanes_theta : lanes (theta s) = Keccak.theta (lanes s) := by
  funext x y z
  rw [lanes, theta_lane, getLsbD_xor, getLsbD_xor, getLsbD_rotl (by norm_num) (by norm_num)]
  simp only [parity, getLsbD_xor]
  rfl

/-- The number of places that the lane behind rho and pi has gone on. -/
def rotOf (x y : Fin 5) : ℕ := keccakfRotc.getD (keccakfPiln.idxOf (5 * y.val + x.val)) 0

theorem rotOf_range : ∀ x y : Fin 5, (x, y) ≠ (0, 0) → 0 < rotOf x y ∧ rotOf x y < 64 := by decide

theorem rhoPi_lane (h : (x, y) ≠ (0, 0)) : rhoPi s (5 * y + x) =
    sha3Rotl64 (s (5 * x + (x + 3 * y : Fin 5))) (rotOf x y) := by
  revert h
  fin_cases x <;> fin_cases y <;> first
    | exact fun h => absurd rfl h
    | exact fun _ => rfl

theorem rho_lane (A : Keccak.StateArray) (h : (x, y) ≠ (0, 0)) (z : Fin 64) :
    Keccak.rho A (x + 3 * y) x z = A (x + 3 * y) x (z - Fin.ofNat 64 (rotOf x y)) := by
  revert h
  fin_cases x <;> fin_cases y <;> first
    | exact fun h => absurd rfl h
    | exact fun _ => rfl

theorem lanes_rhoPi : lanes (rhoPi s) = Keccak.pi (Keccak.rho (lanes s)) := by
  funext x y z
  by_cases h : (x, y) = (0, 0)
  · obtain ⟨rfl, rfl⟩ := Prod.mk.inj h
    rfl
  · obtain ⟨h0, h64⟩ := rotOf_range x y h
    rw [lanes, rhoPi_lane h, getLsbD_rotl h0 h64, Keccak.pi, rho_lane _ h]
    rfl

theorem chi_lane (x y : Fin 5) : chi s (5 * y + x) =
    s (5 * y + x) ^^^ (~~~ s (5 * y + (x + 1 : Fin 5)) &&& s (5 * y + (x + 2 : Fin 5))) := by
  fin_cases x <;> fin_cases y <;> rfl

theorem lanes_chi : lanes (chi s) = Keccak.chi (lanes s) := by
  funext x y z
  rw [lanes, chi_lane, getLsbD_xor, getLsbD_and, getLsbD_not z.isLt]
  rfl

theorem keccakfRndc_eq : ∀ ir < 24, ∀ z : Fin 64,
    (keccakfRndc.getD ir 0).toBitVec.getLsbD z = Keccak.roundConstant ir z := by
  decide +kernel

theorem lanes_iota (h : k < 24) : lanes (Function.update s 0 (s 0 ^^^ keccakfRndc.getD k 0)) =
    Keccak.iota (lanes s) k := by
  funext x y z
  rw [lanes, Keccak.iota]
  split_ifs with h0
  · obtain ⟨rfl, rfl⟩ := h0
    rw [← keccakfRndc_eq k h]
    exact getLsbD_xor
  · rw [Function.update_of_ne (by omega)]
    rfl

/-- **A round on the words** is the round on their bits. -/
theorem lanes_rounds (n : ℕ) (hn : n ≤ 24) :
    lanes ((List.range n).foldl (fun s round =>
      let s := chi (rhoPi (theta s))
      Function.update s 0 (s 0 ^^^ keccakfRndc.getD round 0)) s) =
      (List.range n).foldl Keccak.round (lanes s) := by
  induction n with
  | zero => rfl
  | succ n ih =>
    rw [List.range_succ, List.foldl_concat, List.foldl_concat, ← ih (by omega), Keccak.round,
      ← lanes_theta, ← lanes_rhoPi, ← lanes_chi]
    exact lanes_iota hn

theorem lanes_keccakF : lanes (keccakF s) = (List.range 24).foldl Keccak.round (lanes s) :=
  lanes_rounds 24 (le_refl 24)

end

end Artifice
