import Mathlib.Tactic

/-!
SHA3-256 on bits: the five step mappings on a state of five by five lanes of 64 bits, the permutation
of 24 rounds, the padding, the sponge, and the digest of 256 bits.
-/

namespace Artifice.Lib.Keccak

/-- A state array: bit `z` of the lane in column `x` and row `y`. -/
abbrev StateArray := Fin 5 → Fin 5 → Fin 64 → Bool

/-- A plane has five rows and columns: what the literals of `Fin 5` ask for. -/
instance neZero_five : NeZero 5 := ⟨by decide⟩

/-- The state array of a string of 1600 bits. -/
def toArray (S : List Bool) : StateArray := fun x y z => S.getD (64 * (5 * y + x) + z) false

/-- The string of a state array. -/
def toString (A : StateArray) : List Bool :=
  (List.range 1600).map fun i =>
    A (Fin.ofNat 5 (i / 64 % 5)) (Fin.ofNat 5 (i / 64 / 5)) (Fin.ofNat 64 (i % 64))

/-- Each bit takes the parities of two columns. -/
def theta (A : StateArray) : StateArray :=
  let C : Fin 5 → Fin 64 → Bool := fun x z => A x 0 z ^^ A x 1 z ^^ A x 2 z ^^ A x 3 z ^^ A x 4 z
  let D : Fin 5 → Fin 64 → Bool := fun x z => C (x - 1) z ^^ C (x + 1) (z - 1)
  fun x y z => A x y z ^^ D x z

/-- The lanes that rho comes to, one after the other. -/
def rhoLane : ℕ → Fin 5 × Fin 5
  | 0 => (1, 0)
  | t + 1 => ((rhoLane t).2, 2 * (rhoLane t).1 + 3 * (rhoLane t).2)

/-- In step `t` the bits of a lane go `(t + 1) * (t + 2) / 2` places on. -/
def rho (A : StateArray) : StateArray :=
  (List.range 24).foldl (fun A' t x y z =>
    if (x, y) = rhoLane t then A x y (z - Fin.ofNat 64 ((t + 1) * (t + 2) / 2)) else A' x y z) A

/-- The lanes change their places. -/
def pi (A : StateArray) : StateArray := fun x y z => A (x + 3 * y) x z

/-- Each bit takes the product of the two bits behind it in its row, the first of them inverted. -/
def chi (A : StateArray) : StateArray := fun x y z => A x y z ^^ (!A (x + 1) y z && A (x + 2) y z)

/-- The register of the bits of the round constants after `t` steps. -/
def rcRegister : ℕ → List Bool
  | 0 => [true, false, false, false, false, false, false, false]
  | t + 1 =>
    let R := false :: rcRegister t
    let flip := fun (R : List Bool) (i : ℕ) => R.set i (R.getD i false ^^ R.getD 8 false)
    (flip (flip (flip (flip R 0) 4) 5) 6).take 8

/-- The bits of the round constants repeat after 255 steps. -/
def rc (t : ℕ) : Bool := if t % 255 = 0 then true else (rcRegister (t % 255)).getD 0 false

/-- The round constant. -/
def roundConstant (ir : ℕ) : Fin 64 → Bool :=
  (List.range 7).foldl (fun RC j => Function.update RC (Fin.ofNat 64 (2 ^ j - 1)) (rc (j + 7 * ir)))
    fun _ => false

/-- The first lane takes the round constant. -/
def iota (A : StateArray) (ir : ℕ) : StateArray := fun x y z =>
  if x = 0 ∧ y = 0 then A x y z ^^ roundConstant ir z else A x y z

/-- A round. -/
def round (A : StateArray) (ir : ℕ) : StateArray := iota (chi (pi (rho (theta A)))) ir

/-- The permutation: 24 rounds. -/
def keccakF (S : List Bool) : List Bool := toString ((List.range 24).foldl round (toArray S))

/-- The padding of a string of `m` bits to a multiple of `x`: a one, zeros, a one. -/
def pad101 (x m : ℕ) : List Bool :=
  [true] ++ List.replicate ((-(m : ℤ) - 2) % x).toNat false ++ [true]

/-- The state of a sponge after `n` blocks of `r` bits. -/
def absorb (f : List Bool → List Bool) (b r : ℕ) (P : List Bool) : ℕ → List Bool
  | 0 => List.replicate b false
  | n + 1 =>
    let block := (P.drop (r * n)).take r ++ List.replicate (b - r) false
    f (List.zipWith (· ^^ ·) (absorb f b r P n) block)

/-- What a sponge gives of a state: the first `r` bits of it and of the states behind it, as many as
`d` bits take. -/
def squeeze (f : List Bool → List Bool) (r d : ℕ) (S : List Bool) : List Bool :=
  ((List.range ((d + r - 1) / r)).flatMap fun n => (f^[n] S).take r).take d

/-- The sponge, of width `b` and rate `r`. -/
def sponge (f : List Bool → List Bool) (pad : ℕ → ℕ → List Bool) (b r : ℕ) (N : List Bool) (d : ℕ) :
    List Bool :=
  let P := N ++ pad r N.length
  squeeze f r d (absorb f b r P (P.length / r))

/-- The digest: the message with 01 behind it, in a sponge of rate 1088. -/
def sha3_256 (M : List Bool) : List Bool := sponge keccakF pad101 1600 1088 (M ++ [false, true]) 256

end Artifice.Lib.Keccak
