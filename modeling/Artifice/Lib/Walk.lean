import Mathlib.Data.Finset.Card
import Mathlib.Data.Finset.Range
import Mathlib.Logic.Function.Iterate

/-!
The walk of a partial function, from a start to where the function has no value. Inside of a finite
set it ends exactly when it comes to no place twice.
-/

namespace Artifice.Lib

variable {α : Type} {next : α → Option α} {start : Option α} {i j n m : ℕ}

/-- Where the walk is after `n` steps, and `none` when it has ended before. -/
def walk (next : α → Option α) (start : Option α) (n : ℕ) : Option α :=
  (fun a => Option.bind a next)^[n] start

theorem walk_succ : walk next start (n + 1) = (walk next start n).bind next :=
  Function.iterate_succ_apply' _ n start

theorem walk_add : walk next start (i + n) = walk next (walk next start i) n := by
  rw [walk, Nat.add_comm, Function.iterate_add_apply]
  rfl

theorem walk_none : walk next none n = none := by
  induction n with
  | zero => rfl
  | succ n ih => rw [walk_succ, ih, Option.bind_none]

theorem walk_ended (h : walk next start n = none) (hle : n ≤ m) : walk next start m = none := by
  obtain ⟨d, rfl⟩ := Nat.exists_eq_add_of_le hle
  rw [walk_add, h, walk_none]

/-- A walk that comes to a place twice goes round for ever. -/
theorem walk_round (hij : i < j) (heq : walk next start i = walk next start j)
    (hj : walk next start j ≠ none) : walk next start n ≠ none := by
  obtain ⟨d, rfl⟩ := Nat.exists_eq_add_of_lt hij
  have hround : ∀ k, walk next start (i + k * (d + 1)) = walk next start i := by
    intro k
    induction k with
    | zero => rw [Nat.zero_mul, Nat.add_zero]
    | succ k ih =>
      rw [Nat.succ_mul, ← Nat.add_assoc, walk_add, ih, ← walk_add, ← Nat.add_assoc, heq]
  intro hend
  have hlater : walk next start (i + n * (d + 1)) = none :=
    walk_ended hend ((Nat.le_mul_of_pos_right n d.succ_pos).trans (Nat.le_add_left _ i))
  rw [hround, heq] at hlater
  exact hj hlater

/-- **When a walk ends**: inside of a finite set, exactly when it comes to no place twice. -/
theorem walk_ends_iff (places : Finset α) (hin : ∀ n a, walk next start n = some a → a ∈ places) :
    (∃ n, walk next start n = none) ↔
      ∀ i j, i < j → walk next start j ≠ none → walk next start i ≠ walk next start j := by
  constructor
  · rintro ⟨n, hn⟩ i j hij hj heq
    exact walk_round hij heq hj hn
  · intro hdistinct
    by_contra hgoes
    have hsome : ∀ n, walk next start n ≠ none := not_exists.1 hgoes
    -- more steps than there are places
    obtain ⟨i, -, j, -, hne, heq⟩ := Finset.exists_ne_map_eq_of_card_lt_of_maps_to
      (s := Finset.range (places.card + 1)) (t := places.map Function.Embedding.some)
      (f := walk next start) (by simp) (by
        intro n _
        obtain ⟨a, ha⟩ := Option.ne_none_iff_exists'.1 (hsome n)
        rw [ha]
        simpa using hin n a ha)
    rcases Nat.lt_or_gt_of_ne hne with hij | hji
    · exact hdistinct i j hij (hsome j) heq
    · exact hdistinct j i hji (hsome i) heq.symm

end Artifice.Lib
