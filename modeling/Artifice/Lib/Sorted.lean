import Mathlib.Tactic

/-!
Strictly increasing lists of natural numbers, by position: an entry is at least its position, and
it is its position exactly when everything below it is listed as well.
-/

namespace Artifice.Lib

variable {l : List ℕ} {i j v : ℕ}

theorem getElem_lt (h : l.Pairwise (· < ·)) (hi : i < j) (hj : j < l.length) : l[i] < l[j] :=
  List.pairwise_iff_getElem.1 h i j (by omega) hj hi

theorem getElem_inj (h : l.Pairwise (· < ·)) (hi : i < l.length) (hj : j < l.length)
    (he : l[i] = l[j]) : i = j := by
  rcases Nat.lt_trichotomy i j with hlt | rfl | hlt
  · have := getElem_lt h hlt hj
    omega
  · rfl
  · have := getElem_lt h hlt hi
    omega

theorem le_getElem (h : l.Pairwise (· < ·)) (hi : i < l.length) : i ≤ l[i] := by
  induction i with
  | zero => omega
  | succ i ih =>
    have h1 := ih (by omega)
    have h2 := getElem_lt h (show i < i + 1 by omega) hi
    omega

theorem getElem_eq_of_getElem_eq (h : l.Pairwise (· < ·)) (hv : v < l.length) (he : l[v] = v)
    (hi : i ≤ v) : l[i] = i := by
  obtain ⟨d, rfl⟩ : ∃ d, v = i + d := ⟨v - i, by omega⟩
  induction d with
  | zero => exact he
  | succ d ih =>
    have h1 := getElem_lt h (show i + d < i + d + 1 by omega) hv
    have h2 := le_getElem h (show i + d < l.length by omega)
    have h3 : l[i + d + 1] = i + d + 1 := he
    exact ih (by omega) (by omega) (by omega)

/-- **The entry at position `v` is `v` exactly when every number up to `v` is listed.** -/
theorem getElem?_eq_self_iff (h : l.Pairwise (· < ·)) :
    l[v]? = some v ↔ ∀ b ≤ v, b ∈ l := by
  constructor
  · intro hv b hb
    obtain ⟨hlt, he⟩ := List.getElem?_eq_some_iff.1 hv
    have hb' : b < l.length := by omega
    have := getElem_eq_of_getElem_eq h hlt he hb
    exact this ▸ List.getElem_mem hb'
  · induction v using Nat.strong_induction_on with
    | _ v ih =>
      intro hall
      obtain ⟨i, hi, he⟩ := List.getElem_of_mem (hall v (le_refl v))
      have hle := le_getElem h hi
      rcases Nat.lt_or_ge i v with hlt | hge
      · -- an earlier position already holds a smaller number
        have := ih i hlt fun b hb => hall b (by omega)
        obtain ⟨_, he'⟩ := List.getElem?_eq_some_iff.1 this
        omega
      · obtain rfl : i = v := by omega
        exact List.getElem?_eq_some_iff.2 ⟨hi, he⟩

end Artifice.Lib
