import Mathlib.Tactic

/-!
Binary search trees over elements with a key, as they are by their shape and by their sequence in order,
and the search.
-/

namespace Artifice.Lib

/-- A binary tree of elements. -/
inductive SearchTree (α : Type)
  | leaf
  | node (left : SearchTree α) (x : α) (right : SearchTree α)

namespace SearchTree

variable {α κ : Type}

/-- The elements in order. -/
def toList : SearchTree α → List α
  | leaf => []
  | node left x right => left.toList ++ x :: right.toList

section

variable [LinearOrder κ] (key : α → κ)

/-- The keys are below that of a node in its left part, and above it in its right part. -/
def Ordered : SearchTree α → Prop
  | leaf => True
  | node left x right => ((∀ y ∈ left.toList, key y < key x) ∧ ∀ y ∈ right.toList, key x < key y) ∧
      Ordered left ∧ Ordered right

/-- The element with key `k`, by the search. -/
def find (k : κ) : SearchTree α → Option α
  | leaf => none
  | node left x right =>
    if k < key x then find k left else if key x < k then find k right else some x

variable {key} {t : SearchTree α} {k : κ} {x : α}

theorem ordered_iff : t.Ordered key ↔ t.toList.Pairwise fun x y => key x < key y := by
  induction t with
  | leaf => exact ⟨fun _ => List.Pairwise.nil, fun _ => trivial⟩
  | node left x right ihl ihr =>
    rw [Ordered, ihl, ihr, toList, List.pairwise_append, List.pairwise_cons]
    constructor
    · rintro ⟨⟨hleft, hright⟩, hl, hr⟩
      refine ⟨hl, ⟨hright, hr⟩, fun y hy z hz => ?_⟩
      rcases List.mem_cons.1 hz with rfl | hz
      · exact hleft y hy
      · exact (hleft y hy).trans (hright z hz)
    · rintro ⟨hl, ⟨hright, hr⟩, hcross⟩
      exact ⟨⟨fun y hy => hcross y hy x List.mem_cons_self, hright⟩, hl, hr⟩

theorem Ordered.mem_left {left right : SearchTree α} {y : α} (h : (node left x right).Ordered key)
    (hy : y ∈ (node left x right).toList) (hlt : key y < key x) : y ∈ left.toList := by
  rcases List.mem_append.1 hy with hy | hy
  · exact hy
  · rcases List.mem_cons.1 hy with rfl | hy
    · exact absurd hlt (lt_irrefl _)
    · exact absurd (h.1.2 y hy) (lt_asymm hlt)

theorem Ordered.mem_right {left right : SearchTree α} {y : α} (h : (node left x right).Ordered key)
    (hy : y ∈ (node left x right).toList) (hlt : key x < key y) : y ∈ right.toList := by
  rcases List.mem_append.1 hy with hy | hy
  · exact absurd (h.1.1 y hy) (lt_asymm hlt)
  · rcases List.mem_cons.1 hy with rfl | hy
    · exact absurd hlt (lt_irrefl _)
    · exact hy

theorem Ordered.eq_root {left right : SearchTree α} {y : α} (h : (node left x right).Ordered key)
    (hy : y ∈ (node left x right).toList) (heq : key y = key x) : y = x := by
  rcases List.mem_append.1 hy with hy | hy
  · exact absurd heq (h.1.1 y hy).ne
  · rcases List.mem_cons.1 hy with rfl | hy
    · rfl
    · exact absurd heq (h.1.2 y hy).ne'

/-- **The search** finds the element with a key. -/
theorem Ordered.find_eq_some_iff (h : t.Ordered key) :
    t.find key k = some x ↔ x ∈ t.toList ∧ key x = k := by
  induction t with
  | leaf => exact ⟨nofun, fun hx => absurd hx.1 List.not_mem_nil⟩
  | node left y right ihl ihr =>
    rw [find]
    split_ifs with hlt hgt
    · rw [ihl h.2.1]
      refine and_congr_left fun hk => ⟨fun hx => List.mem_append_left _ hx, fun hx => ?_⟩
      exact h.mem_left hx (by rwa [hk])
    · rw [ihr h.2.2]
      refine and_congr_left fun hk =>
        ⟨fun hx => List.mem_append_right _ (List.mem_cons_of_mem _ hx), fun hx => ?_⟩
      exact h.mem_right hx (by rwa [hk])
    · have hk : k = key y := le_antisymm (not_lt.1 hgt) (not_lt.1 hlt)
      rw [Option.some.injEq]
      constructor
      · rintro rfl
        exact ⟨List.mem_append_right _ List.mem_cons_self, hk.symm⟩
      · rintro ⟨hx, heq⟩
        exact (h.eq_root hx (heq.trans hk)).symm

end

end SearchTree

end Artifice.Lib
