import Artifice.Metadata.SuperBlock

/-!
Where `binary_search` decides membership. Its ends and its middle are `int`s, so beyond `2 ^ 30` entries
the sum of the ends can overflow, and beyond `2 ^ 31` the last position itself is negative.

A turn to the left ends below half of the largest `int`, so only a search that has gone right all the
way can overflow. After `i` turns to the right it looks at the last `length / 2 ^ i` positions.
-/

namespace Artifice

open Lib

/-- The search gives the position of a listed value and -1 for every other one. -/
def DecidesMember (array : List ℕ) (value : ℕ) : Prop :=
  ∃ index, binarySearch array value array.length = some index ∧
    (∀ i : ℕ, array[i]? = some value → index = i) ∧ (value ∉ array → index = -1)

/-- The number of positions that are left after `i` turns to the right. -/
def rightPart (length i : ℕ) : ℕ := length / 2 ^ i

@[simp] theorem rightPart_zero (length : ℕ) : rightPart length 0 = length := by
  simp [rightPart]

theorem rightPart_succ (length i : ℕ) : rightPart length (i + 1) = rightPart length i / 2 := by
  rw [rightPart, rightPart, pow_succ, Nat.div_div_eq_div_mul]

theorem rightPart_le (length i : ℕ) : rightPart length i ≤ length := Nat.div_le_self _ _

/-- The turns to the right end before the ends add up to `2 ^ 31`: where they would, `value` is at most
the entry before them. -/
def TurnsInside (array : List ℕ) (value : ℕ) : Prop :=
  ∀ i, rightPart array.length i ≠ 0 → 2 * array.length - rightPart array.length i ≤ 2 ^ 31 ∨
    ∀ x, array[array.length - rightPart array.length i - 1]? = some x → value ≤ x

section Rounds

variable {array : List ℕ} {value rounds i x : ℕ} {first last : ℤ}

theorem rightPart_middle (hi : rightPart array.length i ≠ 0) :
    (((array.length : ℤ) - rightPart array.length i + ((array.length : ℤ) - 1)) / 2) =
      (array.length - rightPart array.length (i + 1) - 1 : ℕ) := by
  have hle := rightPart_le array.length i
  rw [rightPart_succ]
  omega

theorem binarySearchLoop_right (hi : rightPart array.length i ≠ 0)
    (hs : 2 * array.length - rightPart array.length i ≤ 2 ^ 31)
    (hx : array[array.length - rightPart array.length (i + 1) - 1]? = some x) :
    binarySearchLoop array value (rounds + 1) ((array.length : ℤ) - rightPart array.length i)
        ((array.length : ℤ) - 1) =
      if x < value then binarySearchLoop array value rounds
        ((array.length : ℤ) - rightPart array.length (i + 1)) ((array.length : ℤ) - 1)
      else if x = value then some (array.length - rightPart array.length (i + 1) - 1 : ℕ)
      else binarySearchLoop array value rounds ((array.length : ℤ) - rightPart array.length i)
        ((array.length - rightPart array.length (i + 1) - 1 : ℕ) - 1) := by
  have hle := rightPart_le array.length i
  have hle' := rightPart_le array.length (i + 1)
  have hm := rightPart_middle hi
  have hsucc := rightPart_succ array.length i
  have hx' : array[(((array.length - rightPart array.length (i + 1) - 1 : ℕ) : ℤ)).toNat]? =
      some x := hx
  rw [binarySearchLoop_round (by omega) (by omega) (by omega), hm, hx', Option.bind_some]
  congr 2
  omega

/-- **A search that stays right** comes to the last `length / 2 ^ i` positions. -/
theorem binarySearchLoop_rights
    (hi : ∀ j < i, rightPart array.length j ≠ 0 ∧
      2 * array.length - rightPart array.length j ≤ 2 ^ 31)
    (hx : ∀ j < i, ∃ x, array[array.length - rightPart array.length (j + 1) - 1]? = some x ∧
      x < value) :
    binarySearchLoop array value (rounds + i) 0 ((array.length : ℤ) - 1) =
      binarySearchLoop array value rounds ((array.length : ℤ) - rightPart array.length i)
        ((array.length : ℤ) - 1) := by
  induction i generalizing rounds with
  | zero => simp
  | succ i ih =>
    have hrest : binarySearchLoop array value (rounds + 1 + i) 0 ((array.length : ℤ) - 1) = _ :=
      ih (fun j hj => hi j (by omega)) fun j hj => hx j (by omega)
    obtain ⟨hne, hs⟩ := hi i (Nat.lt_succ_self i)
    obtain ⟨x, hget, hlt⟩ := hx i (Nat.lt_succ_self i)
    rw [show rounds + (i + 1) = rounds + 1 + i by omega, hrest, binarySearchLoop_right hne hs hget,
      if_pos hlt]

theorem binarySearchLoop_right_returns (hlen : array.length ≤ 2 ^ 31)
    (hin : TurnsInside array value) (hr : rightPart array.length i < 2 ^ rounds)
    (hbefore : i ≠ 0 → ∃ x, array[array.length - rightPart array.length i - 1]? = some x ∧
      x < value) :
    ∃ index, binarySearchLoop array value (rounds + 1)
      ((array.length : ℤ) - rightPart array.length i) ((array.length : ℤ) - 1) = some index := by
  induction rounds generalizing i with
  | zero =>
    unfold binarySearchLoop
    rw [if_neg (by simp at hr; omega)]
    exact ⟨-1, rfl⟩
  | succ n ih =>
    have hsucc := rightPart_succ array.length i
    have hle := rightPart_le array.length i
    by_cases hi : rightPart array.length i = 0
    · unfold binarySearchLoop
      rw [if_neg (by omega)]
      exact ⟨-1, rfl⟩
    · have hs : 2 * array.length - rightPart array.length i ≤ 2 ^ 31 := by
        rcases Nat.eq_zero_or_pos i with rfl | hpos
        · rw [rightPart_zero]
          omega
        · obtain ⟨x, hget, hlt⟩ := hbefore (by omega)
          rcases hin i hi with hs | hle
          · exact hs
          · exact absurd (hle x hget) (by omega)
      have hget : array[array.length - rightPart array.length (i + 1) - 1]? = some _ :=
        List.getElem?_eq_getElem (by omega)
      rw [binarySearchLoop_right hi hs hget]
      rw [pow_succ] at hr
      split_ifs with hlt
      · exact ih (by omega) fun _ => ⟨_, hget, hlt⟩
      · exact ⟨_, rfl⟩
      · -- what is left of the middle is below `2 ^ 30`
        have hr' : (rightPart array.length (i + 1) : ℤ) < 2 ^ n := by
          exact_mod_cast (show rightPart array.length (i + 1) < 2 ^ n by omega)
        have hlt' : ((array.length - rightPart array.length (i + 1) - 1 : ℕ) : ℤ) - 1 <
            (array.length - rightPart array.length (i + 1) - 1 : ℕ) := by omega
        exact binarySearchLoop_returns (by omega) (by omega) (by omega) hlt' (by omega)

end Rounds

section Search

variable {array : List ℕ} {value : ℕ}

theorem binarySearch_unfold (hlen : array.length ≤ 2 ^ 31) :
    binarySearch array value array.length =
      binarySearchLoop array value 33 0 ((array.length : ℤ) - 1) := by
  rw [binarySearch, toInt32_of_mem (by omega) (by omega)]

theorem binarySearch_returns (hlen : array.length ≤ 2 ^ 31) (hin : TurnsInside array value) :
    ∃ index, binarySearch array value array.length = some index := by
  rw [binarySearch_unfold hlen]
  have h32 : rightPart array.length 0 < 2 ^ 32 := by
    rw [rightPart_zero]
    omega
  have h := binarySearchLoop_right_returns hlen hin h32 fun h0 => absurd rfl h0
  simpa using h

theorem lt_of_rightPart (hinc : array.Pairwise (· < ·)) {i j x : ℕ} (hj : j < i)
    (hx : array[array.length - rightPart array.length i - 1]? = some x) (hlt : x < value) :
    ∃ y, array[array.length - rightPart array.length (j + 1) - 1]? = some y ∧ y < value := by
  obtain ⟨hb, rfl⟩ := List.getElem?_eq_some_iff.1 hx
  have hmono : rightPart array.length i ≤ rightPart array.length (j + 1) :=
    Nat.div_le_div_left (Nat.pow_le_pow_right (by norm_num) hj) (by positivity)
  have hb' : array.length - rightPart array.length (j + 1) - 1 < array.length := by omega
  refine ⟨_, List.getElem?_eq_getElem hb', ?_⟩
  rcases Nat.lt_or_ge (array.length - rightPart array.length (j + 1) - 1)
    (array.length - rightPart array.length i - 1) with h | h
  · exact (getElem_lt hinc h hb).trans hlt
  · have heq : array.length - rightPart array.length (j + 1) - 1 =
        array.length - rightPart array.length i - 1 := by omega
    simpa only [heq] using hlt

theorem binarySearch_none (hinc : array.Pairwise (· < ·)) (hlen : array.length ≤ 2 ^ 31)
    (hin : ¬ TurnsInside array value) : binarySearch array value array.length = none := by
  simp only [TurnsInside, not_forall, not_or, not_le] at hin
  obtain ⟨i, hi, hs, x, hx, hlt⟩ := hin
  -- the first round whose ends do not add up
  have hex : ∃ j, 2 ^ 31 < 2 * array.length - rightPart array.length j := ⟨i, hs⟩
  have hji : Nat.find hex ≤ i := Nat.find_min' hex hs
  have hspec := Nat.find_spec hex
  have hmin : ∀ j < Nat.find hex, 2 * array.length - rightPart array.length j ≤ 2 ^ 31 :=
    fun j hj => by simpa using Nat.find_min hex hj
  set j := Nat.find hex
  have hpos : ∀ j' ≤ i, rightPart array.length j' ≠ 0 := by
    intro j' hj' h0
    have hmono : rightPart array.length i ≤ rightPart array.length j' :=
      Nat.div_le_div_left (Nat.pow_le_pow_right (by norm_num) hj') (by positivity)
    omega
  have hround : i ≤ 31 := by
    by_contra hgt
    have h32 : array.length < 2 ^ i :=
      lt_of_lt_of_le (by omega) (Nat.pow_le_pow_right (by norm_num) (show 32 ≤ i by omega))
    exact hi (Nat.div_eq_of_lt h32)
  have hle := rightPart_le array.length j
  have hne := hpos j hji
  rw [binarySearch_unfold hlen, show 33 = (33 - j) + j by omega,
    binarySearchLoop_rights (fun j' hj' => ⟨hpos j' (by omega), hmin j' hj'⟩)
      (fun j' hj' => lt_of_rightPart hinc (by omega) hx hlt)]
  exact binarySearchLoop_overflow (by omega) (by omega) (by omega) (by omega)

theorem index_of_binarySearch (hinc : array.Pairwise (· < ·)) (hlen : array.length ≤ 2 ^ 31)
    {index : ℤ} (h : binarySearch array value array.length = some index) :
    (∀ i : ℕ, array[i]? = some value → index = i) ∧ (value ∉ array → index = -1) := by
  have hcomplete : index = -1 → ∀ i < array.length, array[i]? ≠ some value := by
    intro he
    subst he
    exact binarySearch_complete (increasing_of_pairwise (by rwa [List.take_length])) hlen h
  have hsound : index = -1 ∨ 0 ≤ index ∧ index ≤ (array.length : ℤ) - 1 ∧
      array[index.toNat]? = some value := by
    rw [binarySearch_unfold hlen] at h
    exact binarySearchLoop_sound (le_refl 0) (by omega) h
  constructor
  · intro i hi
    obtain ⟨hlt, hv⟩ := List.getElem?_eq_some_iff.1 hi
    rcases hsound with he | ⟨h0, hle, hget⟩
    · exact absurd hi (hcomplete he i hlt)
    · obtain ⟨hlt', hv'⟩ := List.getElem?_eq_some_iff.1 hget
      have := getElem_inj hinc hlt' hlt (hv'.trans hv.symm)
      omega
  · intro hv
    rcases hsound with he | ⟨-, -, hget⟩
    · exact he
    · exact absurd (List.mem_of_getElem? hget) hv

theorem decidesMember_of_long (hlen : 2 ^ 31 < array.length) (hlen' : array.length < 2 ^ 32) :
    DecidesMember array value ↔ value ∉ array := by
  have hb : binarySearch array value array.length = some (-1) := binarySearch_of_long hlen hlen'
  constructor
  · rintro ⟨index, hidx, hmem, -⟩ hv
    obtain ⟨i, hi⟩ := List.getElem?_of_mem hv
    have he := hmem i hi
    rw [hb, Option.some.injEq] at hidx
    omega
  · intro hv
    exact ⟨-1, hb, fun i hi => absurd (List.mem_of_getElem? hi) hv, fun _ => rfl⟩

/-- **When `binary_search` decides membership**: up to `2 ^ 31` entries, for the values whose turns to
the right stay inside; beyond, for the values that are not listed. -/
theorem decidesMember_iff (hinc : array.Pairwise (· < ·)) (hlen : array.length < 2 ^ 32) :
    DecidesMember array value ↔
      if array.length ≤ 2 ^ 31 then TurnsInside array value else value ∉ array := by
  split_ifs with h31
  · constructor
    · rintro ⟨index, hidx, -⟩
      by_contra hin
      rw [binarySearch_none hinc h31 hin] at hidx
      cases hidx
    · intro hin
      obtain ⟨index, hidx⟩ := binarySearch_returns h31 hin
      exact ⟨index, hidx, index_of_binarySearch hinc h31 hidx⟩
  · exact decidesMember_of_long (by omega) hlen

theorem decidesMember_iff_three :
    DecidesMember [2, 5, 9] 9 ↔
      if [2, 5, 9].length ≤ 2 ^ 31 then TurnsInside [2, 5, 9] 9 else 9 ∉ [2, 5, 9] :=
  decidesMember_iff (by decide) (by decide)

/-- The last of `2 ^ 30 + 1` entries: the ends are `2 ^ 30` both and their sum is negative. -/
theorem not_decidesMember :
    ¬ ∀ (array : List ℕ) (value : ℕ), array.Pairwise (· < ·) → array.length < 2 ^ 32 →
      (∀ x ∈ array, x < 2 ^ 32) → value < 2 ^ 32 → DecidesMember array value := by
  intro h
  have hl : (List.range (2 ^ 30 + 1)).length = 2 ^ 30 + 1 := List.length_range
  have hpart : rightPart (2 ^ 30 + 1) 30 = 1 := by norm_num [rightPart]
  obtain ⟨index, hidx, -⟩ := h (List.range (2 ^ 30 + 1)) (2 ^ 30) List.pairwise_lt_range
    (by rw [hl]; norm_num) (fun x hx => by rw [List.mem_range] at hx; omega) (by norm_num)
  have hin : ¬ TurnsInside (List.range (2 ^ 30 + 1)) (2 ^ 30) := by
    intro hin
    have h30 := hin 30
    rw [hl, hpart] at h30
    rcases h30 (by norm_num) with hs | hle
    · omega
    · exact absurd (hle (2 ^ 30 - 1) (List.getElem?_range (by norm_num))) (by norm_num)
  rw [binarySearch_none List.pairwise_lt_range (by rw [hl]; norm_num) hin] at hidx
  cases hidx

end Search

end Artifice
