import Mathlib.Tactic

/-!
Elimination without pivoting, and the factors of a Cauchy matrix.

A matrix that can be eliminated without pivoting is the product of a lower triangular matrix `L`
with ones on its diagonal, a diagonal matrix `D`, and an upper triangular matrix `U` with ones on
its diagonal. A linear system is then solved in three passes over the right-hand side, which undo
`L` from the first column on, `D`, and `U` from the last column on.

The rows that elimination leaves of a Cauchy matrix `1 / (x i + y j)` are again those of a Cauchy
matrix, with the rows scaled by `g` and the columns by `b`. So the factors follow from the scales.
-/

namespace Artifice.Lib

variable {F : Type*} [Field F]

/-! ### Three passes -/

/-- `L`, `D` and `U` are the factors of the matrix `M 0`, and `M k` is what is left of it after `k`
columns. -/
structure Elimination (N : ℕ) (M : ℕ → ℕ → ℕ → F) (L : ℕ → ℕ → F) (D : ℕ → F) (U : ℕ → ℕ → F) :
    Prop where
  pivot : ∀ k < N, M k k k = D k
  pivot_ne : ∀ k < N, D k ≠ 0
  lower : ∀ k i, k < i → i < N → M k i k = L i k * D k
  upper : ∀ k j, k < j → j < N → M k k j = D k * U k j
  step : ∀ k i j, k < i → i < N → k < j → j < N → M (k + 1) i j = M k i j - L i k * M k k j

/-- Column `j` of `L` is eliminated. -/
def lowerStep (N : ℕ) (L : ℕ → ℕ → F) (j : ℕ) (v : ℕ → F) : ℕ → F := fun i =>
  if j < i ∧ i < N then v i - L i j * v j else v i

/-- The first columns of `L` are eliminated. -/
def lowerSteps (N : ℕ) (L : ℕ → ℕ → F) (v : ℕ → F) : ℕ → ℕ → F
  | 0 => v
  | j + 1 => lowerStep N L j (lowerSteps N L v j)

/-- Column `j` of `U` is eliminated. -/
def upperStep (U : ℕ → ℕ → F) (j : ℕ) (v : ℕ → F) : ℕ → F := fun i =>
  if i < j then v i - U i j * v j else v i

/-- The last columns of `U` are eliminated. -/
def upperSteps (N : ℕ) (U : ℕ → ℕ → F) (v : ℕ → F) : ℕ → ℕ → F
  | 0 => v
  | n + 1 => upperStep U (N - 1 - n) (upperSteps N U v n)

section

variable {N : ℕ} {M : ℕ → ℕ → ℕ → F} {L U : ℕ → ℕ → F} {D d v : ℕ → F}

theorem Elimination.lowerSteps_eq (h : Elimination N M L D U)
    (hv : ∀ i < N, v i = ∑ j ∈ Finset.Ico 0 N, M 0 i j * d j) {k i : ℕ} (hk : k + 1 ≤ N)
    (hi : i < N) :
    lowerSteps N L v k i = ∑ j ∈ Finset.Ico (min i k) N, M (min i k) i j * d j := by
  induction k generalizing i with
  | zero => rw [lowerSteps, hv i hi, Nat.min_zero]
  | succ k ih =>
    rw [lowerSteps, lowerStep]
    split_ifs with hki
    · -- the column is eliminated from the rows behind it
      rw [ih (by omega) hi, ih (i := k) (by omega) (by omega), Nat.min_eq_right (by omega),
        Nat.min_self, Nat.min_eq_right (by omega), Finset.sum_eq_sum_Ico_succ_bot (by omega),
        Finset.sum_eq_sum_Ico_succ_bot (a := k) (by omega), h.lower k i hki.1 hi,
        h.pivot k (by omega), mul_add, Finset.mul_sum, add_sub_add_comm, ← Finset.sum_sub_distrib]
      have hzero : L i k * D k * d k - L i k * (D k * d k) = 0 := by ring
      rw [hzero, zero_add]
      refine Finset.sum_congr rfl fun j hj => ?_
      obtain ⟨hkj, hj⟩ := Finset.mem_Ico.1 hj
      rw [h.step k i j hki.1 hi (by omega) hj]
      ring
    · rw [ih (by omega) hi, Nat.min_eq_left (by omega), Nat.min_eq_left (by omega)]

theorem upperSteps_eq (hv : ∀ i < N, v i = d i + ∑ j ∈ Finset.Ico (i + 1) N, U i j * d j)
    {n i : ℕ} (hn : n + 1 ≤ N) (hi : i < N) :
    upperSteps N U v n i = d i + ∑ j ∈ Finset.Ico (i + 1) (N - n), U i j * d j := by
  induction n generalizing i with
  | zero => rw [upperSteps, hv i hi, Nat.sub_zero]
  | succ n ih =>
    rw [upperSteps, upperStep]
    split_ifs with hij
    · have hlast : upperSteps N U v n (N - 1 - n) = d (N - 1 - n) := by
        rw [ih (by omega) (by omega), Finset.Ico_eq_empty (by omega), Finset.sum_empty, add_zero]
      rw [ih (by omega) hi, hlast, show N - n = N - 1 - n + 1 by omega,
        Finset.sum_Ico_succ_top (by omega), show N - (n + 1) = N - 1 - n by omega]
      ring
    · rw [ih (by omega) hi, Finset.Ico_eq_empty (by omega), Finset.Ico_eq_empty (by omega)]

/-- **The three passes solve the system.** -/
theorem Elimination.solve (h : Elimination N M L D U)
    (hv : ∀ i < N, v i = ∑ j ∈ Finset.Ico 0 N, M 0 i j * d j) {i : ℕ} (hi : i < N) :
    upperSteps N U (fun i => lowerSteps N L v (N - 1) i / D i) (N - 1) i = d i := by
  have hdiag : ∀ i < N, lowerSteps N L v (N - 1) i / D i =
      d i + ∑ j ∈ Finset.Ico (i + 1) N, U i j * d j := by
    intro i hi
    have hne := h.pivot_ne i hi
    rw [h.lowerSteps_eq hv (by omega) hi, Nat.min_eq_left (by omega), div_eq_iff hne,
      Finset.sum_eq_sum_Ico_succ_bot hi, h.pivot i hi, add_mul, Finset.sum_mul, mul_comm (D i)]
    congr 1
    refine Finset.sum_congr rfl fun j hj => ?_
    obtain ⟨hij, hj⟩ := Finset.mem_Ico.1 hj
    rw [h.upper i j (by omega) hj]
    ring
  rw [upperSteps_eq hdiag (by omega) hi, Finset.Ico_eq_empty (by omega), Finset.sum_empty, add_zero]

end

/-! ### Cauchy matrices -/

section

variable (x y s : ℕ → F)

/-- The scale of a row after `k` columns. -/
def cauchyG : ℕ → ℕ → F
  | 0, _ => 1
  | k + 1, i => cauchyG k i * ((x i - x k) / (x i + y k))

/-- The scale of a column after `k` columns. -/
def cauchyB : ℕ → ℕ → F
  | 0, _ => 1
  | k + 1, j => cauchyB k j * ((y j - y k) / (y j + x k))

/-- What is left of the matrix `s j / (x i + y j)` after `k` columns. -/
def cauchyM (k i j : ℕ) : F := cauchyG x y k i * cauchyB x y k j * s j / (x i + y j)

/-- The factor `L`. -/
def cauchyL (i k : ℕ) : F :=
  cauchyG x y k i / (x i + y k) / (cauchyG x y k k / (x k + y k))

/-- The factor `D`. -/
def cauchyD (k : ℕ) : F := cauchyM x y s k k k

/-- The factor `U`, but for the scale of the column. -/
def cauchyV (k j : ℕ) : F :=
  cauchyB x y k j / (x k + y j) / (cauchyB x y k k / (x k + y k) * s k)

/-- The factor `U`. -/
def cauchyU (k j : ℕ) : F := cauchyV x y s k j * s j

variable {x y s} {N : ℕ}

/-- The nodes of a Cauchy matrix: different ones for the rows, for the columns, and no sum zero. -/
structure CauchyNodes (N : ℕ) (x y s : ℕ → F) : Prop where
  row : ∀ i < N, ∀ j < N, x i = x j → i = j
  column : ∀ i < N, ∀ j < N, y i = y j → i = j
  sum : ∀ i < N, ∀ j < N, x i + y j ≠ 0
  scale : ∀ j < N, s j ≠ 0

theorem CauchyNodes.cauchyG_ne (h : CauchyNodes N x y s) {k i : ℕ} (hki : k ≤ i) (hi : i < N) :
    cauchyG x y k i ≠ 0 := by
  induction k with
  | zero => exact one_ne_zero
  | succ k ih =>
    have hx : x i - x k ≠ 0 := sub_ne_zero.2 fun heq => by
      have := h.row i hi k (by omega) heq
      omega
    exact mul_ne_zero (ih (by omega)) (div_ne_zero hx (h.sum i hi k (by omega)))

theorem CauchyNodes.cauchyB_ne (h : CauchyNodes N x y s) {k j : ℕ} (hkj : k ≤ j) (hj : j < N) :
    cauchyB x y k j ≠ 0 := by
  induction k with
  | zero => exact one_ne_zero
  | succ k ih =>
    have hy : y j - y k ≠ 0 := sub_ne_zero.2 fun heq => by
      have := h.column j hj k (by omega) heq
      omega
    have hsum : y j + x k ≠ 0 := by
      rw [add_comm]
      exact h.sum k (by omega) j hj
    exact mul_ne_zero (ih (by omega)) (div_ne_zero hy hsum)

/-- **A Cauchy matrix can be eliminated without pivoting.** -/
theorem CauchyNodes.elimination (h : CauchyNodes N x y s) :
    Elimination N (cauchyM x y s) (cauchyL x y) (cauchyD x y s) (cauchyU x y s) where
  pivot _ _ := rfl
  pivot_ne k hk := div_ne_zero (mul_ne_zero (mul_ne_zero (h.cauchyG_ne le_rfl hk)
    (h.cauchyB_ne le_rfl hk)) (h.scale k hk)) (h.sum k hk k hk)
  lower k i hki hi := by
    have hk : k < N := by omega
    have hg := h.cauchyG_ne le_rfl hk
    have hkk := h.sum k hk k hk
    have hik := h.sum i hi k hk
    simp only [cauchyM, cauchyL, cauchyD]
    field_simp
  upper k j hkj hj := by
    have hk : k < N := by omega
    have hb := h.cauchyB_ne le_rfl hk
    have hs := h.scale k hk
    have hkk := h.sum k hk k hk
    have hkj := h.sum k hk j hj
    simp only [cauchyM, cauchyU, cauchyV, cauchyD]
    field_simp
  step k i j hki hi hkj hj := by
    have hk : k < N := by omega
    have hg := h.cauchyG_ne le_rfl hk
    have hkk := h.sum k hk k hk
    have hik := h.sum i hi k hk
    have hij := h.sum i hi j hj
    have hkj := h.sum k hk j hj
    have hjk : y j + x k ≠ 0 := by rwa [add_comm]
    simp only [cauchyM, cauchyL, cauchyG, cauchyB]
    field_simp
    ring

end

end Artifice.Lib
