import Artifice.Lib.Mem

/-!
What the code takes from the kernel it runs in.
-/

namespace Artifice

open Lib

/-- What the code takes from the kernel: the digests of its crypto API, whether an allocation of
a size succeeds, and what fresh memory holds. -/
structure Kernel where
  sha1 : List UInt8 → Mem
  sha256 : List UInt8 → Mem
  sha512 : List UInt8 → Mem
  kmalloc : ℕ → Bool
  vmalloc : ℕ → Bool
  vmalloc_zero : vmalloc 0 = false
  uninit : Mem

/-- Every allocation succeeds, but a `vmalloc` of nothing. -/
structure Kernel.HasMemory (k : Kernel) : Prop where
  kmalloc : ∀ n, k.kmalloc n = true
  vmalloc : ∀ n, 0 < n → k.vmalloc n = true

/-- The bytes that the pages of a `vmalloc` buffer of `size` bytes have. -/
def pageRound (size : ℕ) : ℕ := (size + 4095) / 4096 * 4096

theorem le_pageRound (n : ℕ) : n ≤ pageRound n := by
  unfold pageRound
  omega

/-- A kernel that can allocate everything, and whose hash chain stays at block `b`. -/
def constKernel (b : ℕ) : Kernel where
  sha1 _ := putLe (fun _ => 0) 0 4 b
  sha256 _ := fun _ => 0
  sha512 _ := fun _ => 0
  kmalloc _ := true
  vmalloc n := n != 0
  vmalloc_zero := rfl
  uninit _ := 0

theorem constKernel_hasMemory (b : ℕ) : (constKernel b).HasMemory where
  kmalloc _ := rfl
  vmalloc n hn := by
    show (n != 0) = true
    simp
    omega

end Artifice
