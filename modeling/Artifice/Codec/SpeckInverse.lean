import Mathlib.GroupTheory.Perm.Basic
import Artifice.Codec.SpeckMode

/-!
`speck_decrypt` against `speck_encrypt`.

A round of the one undoes a round of the other under the same key. As both take the round keys in the
same order, `speck_decrypt` undoes the cipher with its round keys reversed.
-/

namespace Artifice

open Lib

section

variable {key : Fin 4 → UInt64} {x : UInt64 × UInt64} {k : UInt64} {n : ℕ}

/-! ### A round -/

theorem rotate_rotate_three (x : UInt64) : rotate (rotate x (-3)) 3 = x := by
  apply UInt64.eq_of_toBitVec_eq
  rw [rotate_three, rotate_neg_three, rotateLeft_rotateRight (by norm_num)]

theorem rotate_rotate_eight (x : UInt64) : rotate (rotate x 8) (-8) = x := by
  apply UInt64.eq_of_toBitVec_eq
  rw [rotate_neg_eight, rotate_eight, rotateRight_rotateLeft (by norm_num)]

theorem encRound_decRound : encRound (decRound x k) k = x := by
  obtain ⟨right, left⟩ := x
  rw [decRound, encRound]
  dsimp only
  rw [rotate_rotate_eight, rotate_rotate_three, UInt64.sub_add_cancel, UInt64.xor_assoc (left ^^^ right),
    UInt64.xor_assoc left k, UInt64.xor_self, UInt64.xor_zero, UInt64.xor_comm left right,
    UInt64.xor_assoc right, UInt64.xor_self, UInt64.xor_zero]

/-- A round, with the round that undoes it. -/
def roundPerm (k : UInt64) : Equiv.Perm (UInt64 × UInt64) where
  toFun x := encRound x k
  invFun x := decRound x k
  left_inv x := decRound_encRound x k
  right_inv _ := encRound_decRound

/-! ### The rounds -/

theorem foldl_perm {α : Type} (l : List (Equiv.Perm α)) (x : α) :
    l.foldl (fun x p => p x) x = l.reverse.prod x := by
  induction l generalizing x with
  | nil => rfl
  | cons p l ih => rw [List.foldl_cons, ih, List.reverse_cons, List.prod_append, List.prod_singleton,
      Equiv.Perm.mul_apply]

/-- The rounds of a key. -/
def keyRounds (key : Fin 4 → UInt64) : List (Equiv.Perm (UInt64 × UInt64)) :=
  (List.range 34).map fun i => roundPerm (keySchedule key i)

theorem speckEncrypt_eq : speckEncrypt x key = (keyRounds key).reverse.prod x := by
  rw [← foldl_perm, keyRounds, List.foldl_map]
  rfl

theorem speckDecrypt_eq : speckDecrypt x key = (keyRounds key).prod⁻¹ x := by
  rw [List.prod_inv_reverse, ← foldl_perm, keyRounds, List.map_map, List.foldl_map]
  rfl

theorem speckWords_reversed :
    speckWords ((keyRounds key).prod x) = Speck.encryptReversed (speckKey key) (speckWords x) := by
  have hrev : (List.range 34).reverse = (List.range 34).map (33 - ·) := by decide
  rw [← List.reverse_reverse (keyRounds key), ← foldl_perm, keyRounds, ← List.map_reverse, hrev,
    List.map_map, List.foldl_map]
  exact speckWords_rounds (fun i => 33 - i) fun i _ => by omega

theorem speckWords_injective : Function.Injective speckWords := by
  intro x y h
  obtain ⟨h2, h1⟩ := Prod.mk.inj h
  exact Prod.ext (UInt64.eq_of_toBitVec_eq h1) (UInt64.eq_of_toBitVec_eq h2)

theorem speckWords_surjective (b : Speck.Word × Speck.Word) : ∃ x, speckWords x = b :=
  ⟨(UInt64.ofBitVec b.2, UInt64.ofBitVec b.1), rfl⟩

/-- **When `speck_decrypt` inverts `speck_encrypt`**: under the keys with which the cipher does not
depend on the direction in which it takes the round keys. -/
theorem speckDecrypt_inverts_iff : (∀ x, speckDecrypt (speckEncrypt x key) key = x ∧
      speckEncrypt (speckDecrypt x key) key = x) ↔
    ∀ b, Speck.encryptReversed (speckKey key) b = Speck.encryptWords (speckKey key) b := by
  have hsame : (∀ b, Speck.encryptReversed (speckKey key) b = Speck.encryptWords (speckKey key) b) ↔
      ∀ x, (keyRounds key).prod x = (keyRounds key).reverse.prod x := by
    constructor
    · intro h x
      apply speckWords_injective
      rw [speckWords_reversed, h, ← speckWords_speckEncrypt, speckEncrypt_eq]
    · intro h b
      obtain ⟨x, rfl⟩ := speckWords_surjective b
      rw [← speckWords_reversed, h, ← speckEncrypt_eq, speckWords_speckEncrypt]
  rw [hsame]
  simp only [speckDecrypt_eq, speckEncrypt_eq]
  constructor
  · intro h x
    exact (Equiv.Perm.inv_eq_iff_eq.1 (h x).1).symm
  · intro h x
    have heq : (keyRounds key).reverse.prod = (keyRounds key).prod := Equiv.ext fun x => (h x).symm
    rw [heq]
    generalize (keyRounds key).prod = p
    exact ⟨p.symm_apply_apply x, p.apply_symm_apply x⟩

end

/-- Under the key 0 the block 0 is not given back. -/
theorem not_speckDecrypt_inverts :
    ¬∀ (key : Fin 4 → UInt64) (x : UInt64 × UInt64), speckDecrypt (speckEncrypt x key) key = x ∧
      speckEncrypt (speckDecrypt x key) key = x := by
  intro h
  have hzero : speckDecrypt (speckEncrypt (0, 0) fun _ => 0) (fun _ => 0) ≠ (0, 0) := by decide +kernel
  exact hzero (h (fun _ => 0) (0, 0)).1

end Artifice
