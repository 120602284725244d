import Mathlib.Tactic

/-!
SPECK128/256 on blocks: the round on two words of 64 bits, the key expansion by two recurrences without
a bound, and 34 rounds. A block is a number of 128 bits, of which the words are the halves.
-/

namespace Artifice.Lib.Speck

/-- A word of the cipher. -/
abbrev Word := BitVec 64

/-- A key has four words: what its literals ask for. -/
instance neZero_four : NeZero 4 := ⟨by decide⟩

/-- The round under key `k`, on the left and the right word. -/
def roundWith (k : Word) (b : Word × Word) : Word × Word :=
  (b.1.rotateRight 8 + b.2 ^^^ k, b.2.rotateLeft 3 ^^^ (b.1.rotateRight 8 + b.2 ^^^ k))

mutual

/-- The words `l` of the key expansion. -/
def keyL (key : Fin 4 → Word) : ℕ → Word
  | 0 => key 1
  | 1 => key 2
  | 2 => key 3
  | i + 3 => keyK key i + (keyL key i).rotateRight 8 ^^^ BitVec.ofNat 64 i

/-- The round keys. -/
def keyK (key : Fin 4 → Word) : ℕ → Word
  | 0 => key 0
  | i + 1 => (keyK key i).rotateLeft 3 ^^^
      (keyK key i + (keyL key i).rotateRight 8 ^^^ BitVec.ofNat 64 i)

end

/-- The 34 rounds. -/
def encryptWords (key : Fin 4 → Word) (b : Word × Word) : Word × Word :=
  (List.range 34).foldl (fun b i => roundWith (keyK key i) b) b

/-- The 34 rounds with the round keys from the last one to the first. -/
def encryptReversed (key : Fin 4 → Word) (b : Word × Word) : Word × Word :=
  (List.range 34).foldl (fun b i => roundWith (keyK key (33 - i)) b) b

/-- A block of two words. -/
def block (b : Word × Word) : BitVec 128 := b.1 ++ b.2

/-- The cipher on a block. -/
def encrypt (key : Fin 4 → Word) (b : BitVec 128) : BitVec 128 :=
  block (encryptWords key (b.extractLsb' 64 64, b.extractLsb' 0 64))

theorem extract_block (b : Word × Word) :
    ((block b).extractLsb' 64 64, (block b).extractLsb' 0 64) = b := by
  refine Prod.ext ?_ ?_
  · apply BitVec.eq_of_getLsbD_eq
    intro i hi
    simp only [block, BitVec.getLsbD_extractLsb', BitVec.getLsbD_append, hi, decide_true, Bool.true_and]
    rw [if_neg (by omega), Nat.add_sub_cancel_left]
  · apply BitVec.eq_of_getLsbD_eq
    intro i hi
    simp only [block, BitVec.getLsbD_extractLsb', BitVec.getLsbD_append, hi, decide_true, Bool.true_and,
      Nat.zero_add]
    rw [if_pos trivial]

theorem encrypt_block (key : Fin 4 → Word) (b : Word × Word) :
    encrypt key (block b) = block (encryptWords key b) := by rw [encrypt, extract_block]

theorem toNat_block (b : Word × Word) : (block b).toNat = b.1.toNat * 2 ^ 64 + b.2.toNat := by
  rw [block, BitVec.toNat_append, ← Nat.shiftLeft_add_eq_or_of_lt b.2.isLt, Nat.shiftLeft_eq]

theorem block_xor (b c : Word × Word) : block b ^^^ block c = block (b.1 ^^^ c.1, b.2 ^^^ c.2) :=
  BitVec.xor_append

end Artifice.Lib.Speck
