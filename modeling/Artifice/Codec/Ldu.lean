import Artifice.Lib.Elimination
import Artifice.Codec.CauchyRs
import Artifice.Codec.GfKernels

/-!
`GenerateLDUDecomposition` computes the factors of a Cauchy matrix.

The three factors share one array: the upper one, whose columns are stored from the last to the
first and from the diagonal up, then the diagonal, then the lower one, whose columns are stored
from the first on. `upperPlace` and `lowerPlace` say where an entry is. A row of the upper factor
is spread over the columns, at places that no other row has.
-/

namespace Artifice

open Lib ByteField

/-! ### Places in the matrix -/

/-- The number of entries of a triangle. -/
def tri : ℕ → ℕ
  | 0 => 0
  | n + 1 => tri n + n

theorem tri_eq (n : ℕ) : (n - 1) * n / 2 = tri n := by
  have h : 2 * tri n = (n - 1) * n := by
    induction n with
    | zero => rfl
    | succ n ih =>
      rw [tri, Nat.mul_add, ih, Nat.add_sub_cancel]
      cases n with
      | zero => rfl
      | succ n => rw [Nat.add_sub_cancel]; ring
  omega

theorem tri_eq_int {n : ℕ} (hn : 1 ≤ n) : ((n : ℤ) - 1) * n / 2 = tri n := by
  obtain ⟨m, rfl⟩ : ∃ m, n = m + 1 := ⟨n - 1, by omega⟩
  rw [← tri_eq, Nat.add_sub_cancel]
  push_cast
  rw [add_sub_cancel_right]

theorem tri_mono {m n : ℕ} (h : m ≤ n) : tri m ≤ tri n := by
  induction n with
  | zero => rw [Nat.le_zero.1 h]
  | succ n ih =>
    rcases Nat.le_succ_iff_eq_or_le.1 h with rfl | h
    · exact le_refl _
    · rw [tri]
      exact (ih h).trans (Nat.le_add_right _ _)

theorem tri_add_lt {k j n : ℕ} (hk : k < j) (hj : j < n) : tri j + k < tri n := by
  have h : tri (j + 1) ≤ tri n := tri_mono hj
  rw [tri] at h
  omega

/-- The place of `U k j`. -/
def upperPlace (N k j : ℕ) : ℕ := tri N - 1 - tri j - k

/-- The number of entries of the first columns of the lower factor. -/
def lowerOffset (N : ℕ) : ℕ → ℕ
  | 0 => 0
  | k + 1 => lowerOffset N k + (N - (k + 1))

/-- The place of `L j k`. -/
def lowerPlace (N j k : ℕ) : ℕ := tri N + N + lowerOffset N k + (j - (k + 1))

section

variable {N k j k' j' : ℕ}

theorem upperPlace_lt (hk : k < j) (hj : j < N) : upperPlace N k j < tri N := by
  have := tri_add_lt hk hj
  unfold upperPlace
  omega

theorem upperPlace_inj (hk : k < j) (hj : j < N) (hk' : k' < j') (hj' : j' < N)
    (h : upperPlace N k j = upperPlace N k' j') : k = k' ∧ j = j' := by
  have h1 := tri_add_lt hk hj
  have h2 := tri_add_lt hk' hj'
  unfold upperPlace at h
  have hsum : tri j + k = tri j' + k' := by omega
  rcases Nat.lt_trichotomy j j' with hlt | heq | hgt
  · have := tri_add_lt hk hlt
    omega
  · subst heq
    exact ⟨by omega, rfl⟩
  · have := tri_add_lt hk' hgt
    omega

theorem lowerOffset_add_le (h : k < k') : lowerOffset N k + (N - (k + 1)) ≤ lowerOffset N k' := by
  induction k' with
  | zero => omega
  | succ n ih =>
    rw [lowerOffset]
    rcases Nat.lt_succ_iff_lt_or_eq.1 h with h | rfl
    · exact (ih h).trans (Nat.le_add_right _ _)
    · exact le_refl _

theorem lowerPlace_lt (hk : k < j) (hj : j < N) (hkk : k < k') :
    lowerPlace N j k < tri N + N + lowerOffset N k' := by
  have := lowerOffset_add_le (N := N) hkk
  unfold lowerPlace
  omega

end

/-! ### A row of the factors -/

section

variable {gf : GfCtx} {x y : ℕ → UInt8} {k : ℕ} {s : LduState} {row : Mem} {n : ℕ}

/-- What the loop over the columns behind the diagonal does: it appends a column to L, makes a row
of U, and scales the generators. -/
theorem lduRow_spec (gf : GfCtx) (x y : ℕ → UInt8) (k : ℕ) (s : LduState) (row : Mem) (n : ℕ) :
    let r := lduRow gf x y k s row n
    r.1.matrixL = s.matrixL + n ∧ r.1.firstOffsetU = s.firstOffsetU ∧
    (∀ i < n, r.1.matrix (s.matrixL + i) =
      gfDiv gf (s.g (k + 1 + i)) (gfAdd (x (k + 1 + i)) (y k))) ∧
    (∀ p, p < s.matrixL ∨ s.matrixL + n ≤ p → r.1.matrix p = s.matrix p) ∧
    (∀ i < n, r.2 i = gfDiv gf (s.b (k + 1 + i)) (gfAdd (x k) (y (k + 1 + i)))) ∧
    (∀ j, r.1.g j = if k + 1 ≤ j ∧ j < k + 1 + n then
      gfMul gf (s.g j) (gfDiv gf (gfAdd (x j) (x k)) (gfAdd (x j) (y k))) else s.g j) ∧
    ∀ j, r.1.b j = if k + 1 ≤ j ∧ j < k + 1 + n then
      gfMul gf (s.b j) (gfDiv gf (gfAdd (y j) (y k)) (gfAdd (y j) (x k))) else s.b j := by
  induction n with
  | zero =>
    refine ⟨rfl, rfl, fun i hi => by omega, fun _ _ => rfl, fun i hi => by omega, ?_, ?_⟩
    · exact fun j => (if_neg (by omega)).symm
    · exact fun j => (if_neg (by omega)).symm
  | succ n ih =>
    obtain ⟨hL, hU, hin, hout, hrow, hg, hb⟩ := ih
    have hgn : (lduRow gf x y k s row n).1.g (k + 1 + n) = s.g (k + 1 + n) := by
      rw [hg, if_neg (by omega)]
    have hbn : (lduRow gf x y k s row n).1.b (k + 1 + n) = s.b (k + 1 + n) := by
      rw [hb, if_neg (by omega)]
    simp only [lduRow, hL, hgn, hbn]
    refine ⟨by omega, hU, ?_, ?_, ?_, ?_, ?_⟩
    · intro i hi
      rcases Nat.lt_succ_iff_lt_or_eq.1 hi with hi | rfl
      · rw [Function.update_of_ne (by omega), hin i hi]
      · rw [Function.update_self]
    · intro p hp
      rw [Function.update_of_ne (by omega), hout p (by omega)]
    · intro i hi
      rcases Nat.lt_succ_iff_lt_or_eq.1 hi with hi | rfl
      · rw [Function.update_of_ne (by omega), hrow i hi]
      · rw [Function.update_self]
    · intro j
      by_cases hj : j = k + 1 + n
      · subst hj
        rw [Function.update_self, if_pos ⟨by omega, by omega⟩]
      · rw [Function.update_of_ne hj, hg]
        exact if_congr (by omega) rfl rfl
    · intro j
      by_cases hj : j = k + 1 + n
      · subst hj
        rw [Function.update_self, if_pos ⟨by omega, by omega⟩]
      · rw [Function.update_of_ne hj, hb]
        exact if_congr (by omega) rfl rfl

theorem lduCopy_spec {N : ℕ} (row : Mem) (k : ℕ) (matrix : Mem) {start : ℤ}
    (hstart : start = tri N - 1 - k - tri (k + 1)) {n : ℕ} (hn : k + 1 + n ≤ N) :
    (lduCopy row k matrix start n).2 = tri N - 1 - k - tri (k + 1 + n) ∧
    (∀ i < n, (lduCopy row k matrix start n).1 (upperPlace N k (k + 1 + i)) = row i) ∧
    ∀ p, (∀ i < n, p ≠ upperPlace N k (k + 1 + i)) →
      (lduCopy row k matrix start n).1 p = matrix p := by
  induction n with
  | zero => exact ⟨hstart, fun i hi => by omega, fun _ _ => rfl⟩
  | succ n ih =>
    obtain ⟨hpos, hin, hout⟩ := ih (by omega)
    have hlt := tri_add_lt (k := k) (j := k + 1 + n) (n := N) (by omega) (by omega)
    have hplace : (tri N - 1 - k - tri (k + 1 + n) : ℤ).toNat = upperPlace N k (k + 1 + n) := by
      unfold upperPlace
      omega
    simp only [lduCopy, hpos, hplace]
    refine ⟨?_, ?_, ?_⟩
    · have htri : tri (k + 1 + (n + 1)) = tri (k + 1 + n) + (k + 1 + n) := rfl
      rw [htri]
      push_cast
      ring
    · intro i hi
      rcases Nat.lt_succ_iff_lt_or_eq.1 hi with hi | rfl
      · have hne : upperPlace N k (k + 1 + i) ≠ upperPlace N k (k + 1 + n) := fun h => by
          have := upperPlace_inj (by omega) (by omega) (by omega) (by omega) h
          omega
        rw [Function.update_of_ne hne, hin i hi]
      · rw [Function.update_self]
    · intro p hp
      rw [Function.update_of_ne (hp n (by omega))]
      exact hout p fun i hi => hp i (by omega)

end

/-! ### The loop over the rows -/

/-- The state with an entry of the diagonal. -/
def LduState.putDiagonal (s : LduState) (p : ℕ) (d : UInt8) : LduState :=
  { s with matrix := Function.update s.matrix p d }

/-- One round of the loop of `GenerateLDUDecomposition`. -/
def lduStep (gf : GfCtx) (N : ℕ) (x0 : UInt8) (x y : ℕ → UInt8) (rotatedRowU : Mem) (k : ℕ)
    (s : LduState) : LduState :=
  let Dkk := gfAdd (x k) (y k)
  let Lkk := gfDiv gf (s.g k) Dkk
  let Ukk := gfMul gf (gfDiv gf (s.b k) Dkk) (gfAdd x0 (y k))
  let count := N - (k + 1)
  let r := lduRow gf x y k (s.putDiagonal ((N - 1) * N / 2 + k) (gfMul gf Dkk (gfMul gf Lkk Ukk)))
    rotatedRowU count
  let matrix := gfDivMem gf r.1.matrix s.matrixL r.1.matrix s.matrixL Lkk count
  let rowU := gfDivMem gf r.2 0 r.2 0 Ukk count
  { r.1 with
    matrix := (lduCopy rowU k matrix (((N : ℤ) - 1) * N / 2 - 1 + r.1.firstOffsetU) count).1
    firstOffsetU := r.1.firstOffsetU - (k + 2) }

theorem lduLoop_succ (gf : GfCtx) (N : ℕ) (x0 : UInt8) (x y : ℕ → UInt8) (s : LduState)
    (rotatedRowU : Mem) (k : ℕ) :
    lduLoop gf N x0 x y s rotatedRowU (k + 1) =
      lduStep gf N x0 x y rotatedRowU k (lduLoop gf N x0 x y s rotatedRowU k) := rfl

section

variable {t : FieldTables} {gf : GfCtx} {N : ℕ} {x0 : UInt8} {x y : ℕ → UInt8} {row : Mem} {k : ℕ}
  {s : LduState}

theorem lduStep_spec (hgf : gf.Valid t) (hk : k + 1 < N)
    (hL : s.matrixL = tri N + N + lowerOffset N k)
    (hU : s.firstOffsetU = -((tri (k + 1) + k : ℕ) : ℤ)) :
    let Lkk := gfDiv gf (s.g k) (gfAdd (x k) (y k))
    let Ukk := gfMul gf (gfDiv gf (s.b k) (gfAdd (x k) (y k))) (gfAdd x0 (y k))
    let r := lduStep gf N x0 x y row k s
    (∀ p, p ≠ tri N + k → (p < s.matrixL ∨ s.matrixL + (N - (k + 1)) ≤ p) →
      (∀ j, k < j → j < N → p ≠ upperPlace N k j) → r.matrix p = s.matrix p) ∧
    r.matrix (tri N + k) = gfMul gf (gfAdd (x k) (y k)) (gfMul gf Lkk Ukk) ∧
    (∀ j, k < j → j < N → r.matrix (lowerPlace N j k) =
      gfDiv gf (gfDiv gf (s.g j) (gfAdd (x j) (y k))) Lkk) ∧
    ∀ j, k < j → j < N → r.matrix (upperPlace N k j) =
      gfDiv gf (gfDiv gf (s.b j) (gfAdd (x k) (y j))) Ukk := by
  intro Lkk Ukk r
  obtain ⟨-, hoff, hin, hout, hrow, -, -⟩ := lduRow_spec gf x y k
    (s.putDiagonal ((N - 1) * N / 2 + k) (gfMul gf (gfAdd (x k) (y k)) (gfMul gf Lkk Ukk))) row
    (N - (k + 1))
  set w := lduRow gf x y k
    (s.putDiagonal ((N - 1) * N / 2 + k) (gfMul gf (gfAdd (x k) (y k)) (gfMul gf Lkk Ukk))) row
    (N - (k + 1))
  dsimp only [LduState.putDiagonal] at hoff hin hout hrow
  set rowU := gfDivMem gf w.2 0 w.2 0 Ukk (N - (k + 1)) with hrowU
  set matrix := gfDivMem gf w.1.matrix s.matrixL w.1.matrix s.matrixL Lkk (N - (k + 1)) with hmatrix
  rw [hgf.gfDivMem_eq] at hrowU hmatrix
  have hstart : ((N : ℤ) - 1) * N / 2 - 1 + w.1.firstOffsetU = tri N - 1 - k - tri (k + 1) := by
    rw [hoff, hU, tri_eq_int (by omega)]
    push_cast
    ring
  obtain ⟨-, hcopy, hcopyout⟩ := lduCopy_spec rowU k matrix hstart (n := N - (k + 1)) (by omega)
  have hr : r.matrix = (lduCopy rowU k matrix
      (((N : ℤ) - 1) * N / 2 - 1 + w.1.firstOffsetU) (N - (k + 1))).1 := rfl
  rw [hr]
  have hframe : ∀ p, (∀ j, k < j → j < N → p ≠ upperPlace N k j) →
      (lduCopy rowU k matrix (((N : ℤ) - 1) * N / 2 - 1 + w.1.firstOffsetU) (N - (k + 1))).1 p =
        matrix p :=
    fun p hp => hcopyout p fun i hi => hp _ (by omega) (by omega)
  have hhigh : ∀ p, tri N ≤ p → ∀ j, k < j → j < N → p ≠ upperPlace N k j := by
    intro p hp j hkj hj heq
    have := upperPlace_lt hkj hj
    omega
  refine ⟨?_, ?_, ?_, ?_⟩
  · intro p hD hlow hup
    rw [hframe p hup, hmatrix, mapBytes_out hlow, hout p hlow, tri_eq,
      Function.update_of_ne hD]
  · rw [hframe _ (hhigh _ (by omega)), hmatrix, mapBytes_out (by omega), hout _ (by omega), tri_eq,
      Function.update_self]
  · intro j hkj hj
    have hplace : lowerPlace N j k = s.matrixL + (j - (k + 1)) := by rw [hL, lowerPlace]
    have hj' : k + 1 + (j - (k + 1)) = j := by omega
    rw [hframe _ (hhigh _ (by rw [lowerPlace]; omega)), hplace, hmatrix, mapBytes_in (by omega),
      hin _ (by omega), hj']
  · intro j hkj hj
    have hj' : k + 1 + (j - (k + 1)) = j := by omega
    have hentry := hcopy (j - (k + 1)) (by omega)
    rw [hj'] at hentry
    rw [hentry, hrowU, mapBytes_zero_in (by omega), Nat.zero_add, hrow _ (by omega), hj']

theorem lduStep_next (hk : k + 1 < N) :
    let r := lduStep gf N x0 x y row k s
    r.matrixL = s.matrixL + (N - (k + 1)) ∧ r.firstOffsetU = s.firstOffsetU - (k + 2) ∧
    ∀ j, k < j → j < N →
      r.g j = gfMul gf (s.g j) (gfDiv gf (gfAdd (x j) (x k)) (gfAdd (x j) (y k))) ∧
      r.b j = gfMul gf (s.b j) (gfDiv gf (gfAdd (y j) (y k)) (gfAdd (y j) (x k))) := by
  obtain ⟨hL, hU, -, -, -, hg, hb⟩ := lduRow_spec gf x y k
    (s.putDiagonal ((N - 1) * N / 2 + k) (gfMul gf (gfAdd (x k) (y k)) (gfMul gf
      (gfDiv gf (s.g k) (gfAdd (x k) (y k)))
      (gfMul gf (gfDiv gf (s.b k) (gfAdd (x k) (y k))) (gfAdd x0 (y k)))))) row (N - (k + 1))
  refine ⟨hL, congrArg (· - ((k : ℤ) + 2)) hU, fun j hkj hj => ⟨?_, ?_⟩⟩
  · exact (hg j).trans (if_pos ⟨by omega, by omega⟩)
  · exact (hb j).trans (if_pos ⟨by omega, by omega⟩)

end

/-! ### The factors -/

/-- Bytes as elements of the field. -/
def elems (t : FieldTables) (x : ℕ → UInt8) : ℕ → ByteField t := fun i => ofByte t (x i)

/-- The scale of a column of the matrix. -/
def columnScale (t : FieldTables) (x0 : UInt8) (y : ℕ → UInt8) : ℕ → ByteField t := fun j =>
  ofByte t x0 + ofByte t (y j)

/-- After `k` rows: their entries are in place, and the generators are the scales of what is left. -/
structure LduDone (t : FieldTables) (N : ℕ) (x0 : UInt8) (x y : ℕ → UInt8) (k : ℕ)
    (s : LduState) : Prop where
  matrixL : s.matrixL = tri N + N + lowerOffset N k
  offset : s.firstOffsetU = -((tri (k + 1) + k : ℕ) : ℤ)
  g : ∀ j, k ≤ j → j < N → ofByte t (s.g j) = cauchyG (elems t x) (elems t y) k j
  b : ∀ j, k ≤ j → j < N → ofByte t (s.b j) = cauchyB (elems t x) (elems t y) k j
  lower : ∀ c < k, ∀ j, c < j → j < N →
    ofByte t (s.matrix (lowerPlace N j c)) = cauchyL (elems t x) (elems t y) j c
  diagonal : ∀ c < k, ofByte t (s.matrix (tri N + c)) =
    cauchyD (elems t x) (elems t y) (columnScale t x0 y) c
  upper : ∀ c < k, ∀ j, c < j → j < N → ofByte t (s.matrix (upperPlace N c j)) =
    cauchyV (elems t x) (elems t y) (columnScale t x0 y) c j

section

variable {t : FieldTables} {gf : GfCtx} {N : ℕ} {x0 : UInt8} {x y : ℕ → UInt8} {row : Mem} {k : ℕ}
  {s : LduState}

theorem ofByte_gfAdd (a b : UInt8) : ofByte t (gfAdd a b) = ofByte t a + ofByte t b := ofByte_xor a b

theorem LduDone.step (hgf : gf.Valid t) (h : LduDone t N x0 x y k s) (hk : k + 1 < N)
    (hne : ofByte t (x k) + ofByte t (y k) ≠ 0) :
    LduDone t N x0 x y (k + 1) (lduStep gf N x0 x y row k s) := by
  obtain ⟨hframe, hD, hL, hU⟩ :=
    @lduStep_spec t gf N x0 x y row k s hgf hk h.matrixL h.offset
  obtain ⟨hnext, hoff, hgb⟩ := @lduStep_next gf N x0 x y row k s hk
  have hg := h.g k le_rfl (by omega)
  have hb := h.b k le_rfl (by omega)
  have hlowout : ∀ c < k, ∀ j, c < j → j < N → lowerPlace N j c < s.matrixL := by
    intro c hc j hcj hj
    rw [h.matrixL]
    exact lowerPlace_lt hcj hj hc
  refine ⟨?_, ?_, ?_, ?_, ?_, ?_, ?_⟩
  · rw [hnext, h.matrixL, lowerOffset, Nat.add_assoc _ (lowerOffset N k)]
  · rw [hoff, h.offset]
    have htri : tri (k + 1 + 1) = tri (k + 1) + (k + 1) := rfl
    rw [htri]
    push_cast
    ring
  · intro j hj hjN
    rw [(hgb j hj hjN).1, hgf.mul, hgf.div, ofByte_gfAdd, ofByte_gfAdd, h.g j (by omega) hjN,
      cauchyG, ByteField.sub_eq]
    rfl
  · intro j hj hjN
    rw [(hgb j hj hjN).2, hgf.mul, hgf.div, ofByte_gfAdd, ofByte_gfAdd, h.b j (by omega) hjN,
      cauchyB, ByteField.sub_eq]
    rfl
  · intro c hc j hcj hj
    rcases Nat.lt_succ_iff_lt_or_eq.1 hc with hc | rfl
    · rw [hframe _ (by rw [lowerPlace]; omega) (.inl (hlowout c hc j hcj hj)), h.lower c hc j hcj hj]
      intro j' hkj' hj' heq
      have := upperPlace_lt hkj' hj'
      rw [lowerPlace] at heq
      omega
    · rw [hL j hcj hj, hgf.div, hgf.div, hgf.div, ofByte_gfAdd, ofByte_gfAdd, hg,
        h.g j (by omega) hj]
      rfl
  · intro c hc
    rcases Nat.lt_succ_iff_lt_or_eq.1 hc with hc | rfl
    · rw [hframe _ (by omega) (.inl (by rw [h.matrixL]; omega)), h.diagonal c hc]
      intro j hkj hj heq
      have := upperPlace_lt hkj hj
      omega
    · rw [hD, hgf.mul, hgf.mul, hgf.mul, hgf.div, hgf.div, ofByte_gfAdd, ofByte_gfAdd, hg, hb]
      unfold cauchyD cauchyM columnScale elems
      field_simp
  · intro c hc j hcj hj
    rcases Nat.lt_succ_iff_lt_or_eq.1 hc with hc | rfl
    · have hlt := upperPlace_lt hcj hj
      rw [hframe _ (by omega) (.inl (by rw [h.matrixL]; omega)), h.upper c hc j hcj hj]
      intro j' hkj' hj' heq
      have := upperPlace_inj hcj hj hkj' hj' heq
      omega
    · rw [hU j hcj hj, hgf.div, hgf.div, hgf.mul, hgf.div, ofByte_gfAdd, ofByte_gfAdd,
        ofByte_gfAdd, hb, h.b j (by omega) hj]
      rfl

theorem lduLoop_done (hgf : gf.Valid t) (x0 : UInt8) (uninit : Mem) {n : ℕ} (hn : n + 1 ≤ N)
    (hne : ∀ k < n, ofByte t (x k) + ofByte t (y k) ≠ 0) :
    LduDone t N x0 x y n (lduLoop gf N x0 x y
      ⟨uninit, (N - 1) * N / 2 + N, 0, fun _ => 1, fun _ => 1⟩ uninit n) := by
  induction n with
  | zero =>
    refine ⟨?_, rfl, fun _ _ _ => rfl, fun _ _ _ => rfl, fun _ h => absurd h (Nat.not_lt_zero _),
      fun _ h => absurd h (Nat.not_lt_zero _), fun _ h => absurd h (Nat.not_lt_zero _)⟩
    rw [lduLoop, tri_eq]
    rfl
  | succ n ih =>
    rw [lduLoop_succ]
    exact (ih (by omega) fun k hk => hne k (by omega)).step hgf (by omega) (hne n (by omega))

theorem lduScaleU_spec (hgf : gf.Valid t) (x0 : UInt8) (y : ℕ → UInt8) {n : ℕ} (hn : n < N)
    (matrix : Mem) :
    let r := lduScaleU gf x0 y n (tri N - tri (n + 1)) matrix
    (∀ c j, c < j → j ≤ n → r (upperPlace N c j) =
      gfMul gf (matrix (upperPlace N c j)) (gfAdd x0 (y j))) ∧
    ∀ p, tri N ≤ p ∨ p < tri N - tri (n + 1) → r p = matrix p := by
  induction n generalizing matrix with
  | zero => exact ⟨fun c j hcj hj => by omega, fun _ _ => rfl⟩
  | succ n ih =>
    have hle : tri (n + 1 + 1) ≤ tri N := tri_mono hn
    have htri : tri (n + 1 + 1) = tri (n + 1) + (n + 1) := rfl
    have hrow : tri N - tri (n + 1 + 1) + (n + 1) = tri N - tri (n + 1) := by omega
    simp only [lduScaleU, hrow]
    rw [hgf.gfMulMem_eq]
    obtain ⟨hin, hout⟩ := ih (by omega) (mapBytes matrix (tri N - tri (n + 1 + 1)) (n + 1)
      fun j _ => gfMul gf (matrix (tri N - tri (n + 1 + 1) + j)) (gfAdd x0 (y (n + 1))))
    refine ⟨?_, ?_⟩
    · intro c j hcj hj
      rcases Nat.le_succ_iff_eq_or_le.1 hj with rfl | hj
      · -- the column that is scaled in this round
        obtain ⟨i, hi, hplace⟩ : ∃ i < n + 1,
            upperPlace N c (n + 1) = tri N - tri (n + 1 + 1) + i :=
          ⟨n - c, by omega, by rw [upperPlace]; omega⟩
        rw [hplace, hout _ (.inr (by omega)), mapBytes_in hi]
      · have hcol : tri (j + 1) ≤ tri (n + 1) := tri_mono (by omega)
        have htri' : tri (j + 1) = tri j + j := rfl
        rw [hin c j hcj hj, mapBytes_out (.inr (by rw [hrow, upperPlace]; omega))]
    · intro p hp
      rw [hout p (by omega), mapBytes_out (by omega)]

/-- **`GenerateLDUDecomposition` computes the factors of the Cauchy matrix.** -/
theorem generateLDUDecomposition_spec (hgf : gf.Valid t) (hN : 1 ≤ N) (uninit : Mem)
    (hnodes : CauchyNodes N (elems t x) (elems t y) (columnScale t x0 y)) :
    let m := generateLDUDecomposition gf N x0 x y uninit
    (∀ k j, k < j → j < N → ofByte t (m (upperPlace N k j)) =
      cauchyU (elems t x) (elems t y) (columnScale t x0 y) k j) ∧
    (∀ k < N, ofByte t (m (tri N + k)) =
      cauchyD (elems t x) (elems t y) (columnScale t x0 y) k) ∧
    ∀ k j, k < j → j < N → ofByte t (m (lowerPlace N j k)) =
      cauchyL (elems t x) (elems t y) j k := by
  have hdone := lduLoop_done hgf x0 uninit (N := N) (n := N - 1) (x := x) (y := y) (by omega)
    fun k hk => hnodes.sum k (by omega) k (by omega)
  obtain ⟨hscale, hkeep⟩ := lduScaleU_spec hgf x0 y (N := N) (n := N - 1) (by omega)
    (lduLoop gf N x0 x y ⟨uninit, (N - 1) * N / 2 + N, 0, fun _ => 1, fun _ => 1⟩ uninit
      (N - 1)).matrix
  rw [Nat.sub_add_cancel hN, Nat.sub_self] at hscale hkeep
  simp only [generateLDUDecomposition, tri_eq] at hscale hkeep hdone ⊢
  refine ⟨?_, ?_, ?_⟩
  · intro k j hkj hj
    have hlt := upperPlace_lt hkj hj
    rw [Function.update_of_ne (by omega), hscale k j hkj (by omega), hgf.mul,
      hdone.upper k (by omega) j hkj hj, ofByte_gfAdd]
    rfl
  · intro k hk
    by_cases hlast : k = N - 1
    · rw [hlast, Function.update_self, hgf.div, hgf.mul, hgf.mul, ofByte_gfAdd, ofByte_gfAdd,
        hdone.g _ le_rfl (by omega), hdone.b _ le_rfl (by omega), ← mul_assoc]
      rfl
    · rw [Function.update_of_ne (by omega), hkeep _ (.inl (by omega)), hdone.diagonal k (by omega)]
  · intro k j hkj hj
    have hge : tri N + N ≤ lowerPlace N j k := by rw [lowerPlace]; omega
    rw [Function.update_of_ne (by omega), hkeep _ (.inl (by omega)),
      hdone.lower k (by omega) j hkj hj]

end

end Artifice
