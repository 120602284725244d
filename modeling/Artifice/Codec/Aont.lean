import Artifice.Kernel
import Artifice.Codec.Speck
import Artifice.Codec.Sha3
import Artifice.Codec.CauchyRs

/-!
`lib/aont.c`: the all-or-nothing package of a data block, spread over shares.

The payload of a package is the data, encrypted under a fresh key, followed by the difference of
the key and the digest of the ciphertext. The first shares are the parts of the payload, the
others their parity. Share `i` is page `i`.

Whoever has the payload can open it: `openPayload` is the function that `decode_aont_package`
applies to the parts it is given.
-/

namespace Artifice

open Lib

/-- The loop of `encode_aont_package` that fills the data shares, the first `n` of them. -/
def splitPayload (pages : ℕ → Mem) (payload : Mem) (rsBlockSize : ℕ) : ℕ → ℕ → Mem
  | 0 => pages
  | i + 1 =>
    let pages := splitPayload pages payload rsBlockSize i
    Function.update pages i (blit (pages i) 0 payload (rsBlockSize * i) rsBlockSize)

/-- The loop of `decode_aont_package` that collects the data shares, the first `n` of them. -/
def joinPayload (pages : ℕ → Mem) (buffer : Mem) (rsBlockSize : ℕ) : ℕ → Mem
  | 0 => buffer
  | i + 1 => blit (joinPayload pages buffer rsBlockSize i) (rsBlockSize * i) (pages i) 0 rsBlockSize

/-- `((uint64_t *)difference)[i] = key[i] ^ hash[i]`, for the four words. -/
def storeDifference (difference : Mem) (key : Fin 4 → UInt64) (hash : Mem) : Mem :=
  (List.range 4).foldl (fun m i =>
    store64 m (8 * i) (key (Fin.ofNat 4 i) ^^^ load64 hash (8 * i))) difference

/-- `encode_aont_package`: the return code, `difference` and the shares. `key` is what
`get_random_bytes` returns. -/
def encodeAontPackage (k : Kernel) (g : GfCtx) (key : Fin 4 → UInt64) (difference data : Mem)
    (dataLength : ℕ) (shares : ℕ → Mem) (dataBlocks : ℕ) (parityBlocks : ℤ)
    (nonce : ℕ → UInt64) : ℤ × Mem × (ℕ → Mem) :=
  let cipherSize := dataLength
  let encryptedPayloadSize := cipherSize + 32
  let rsBlockSize := encryptedPayloadSize / dataBlocks
  if k.kmalloc encryptedPayloadSize then
    let plaintextBuffer := blit k.uninit 0 data 0 dataLength
    let ciphertextBuffer := speckCtr plaintextBuffer k.uninit cipherSize key nonce
    let hash := sha3_256 ciphertextBuffer cipherSize k.uninit
    let difference := storeDifference difference key hash
    let ciphertextBuffer := blit ciphertextBuffer cipherSize difference 0 32
    let shares := splitPayload shares ciphertextBuffer rsBlockSize dataBlocks
    (0, difference, (cauchyRsEncode g ⟨dataBlocks, parityBlocks, rsBlockSize⟩ shares
      (fun i => i) (fun i => dataBlocks + i)).2)
  else (-1, difference, shares)

/-- The key and the digest of the ciphertext that a payload holds, xor-ed: the key of the
package. -/
def payloadKey (k : Kernel) (payload : Mem) (cipherSize : ℕ) : Fin 4 → UInt64 := fun i =>
  load64 payload (cipherSize + 8 * i) ^^^ load64 (sha3_256 payload cipherSize k.uninit) (8 * i)

/-- The data that a payload holds. -/
def openPayload (k : Kernel) (payload : Mem) (cipherSize : ℕ) (nonce : ℕ → UInt64) : Mem :=
  speckCtr payload k.uninit cipherSize (payloadKey k payload cipherSize) nonce

/-- `decode_aont_package`: the return code, `difference`, `data` and the shares. -/
def decodeAontPackage (k : Kernel) (g : GfCtx) (difference data : Mem) (dataLength : ℕ)
    (shares : ℕ → Mem) (dataBlocks : ℕ) (parityBlocks : ℤ) (nonce : ℕ → UInt64) (erasures : Mem)
    (numErasures : ℕ) : Option (ℤ × Mem × Mem × (ℕ → Mem)) :=
  let cipherSize := dataLength
  let encryptedPayloadSize := cipherSize + 32
  let rsBlockSize := encryptedPayloadSize / dataBlocks
  if k.kmalloc encryptedPayloadSize then do
    let (ret, shares) ← cauchyRsDecode g k.uninit ⟨dataBlocks, parityBlocks, rsBlockSize⟩ shares
      (fun i => i) (fun i => dataBlocks + i) erasures numErasures
    let ciphertextBuffer := joinPayload shares k.uninit rsBlockSize dataBlocks
    let hash := sha3_256 ciphertextBuffer cipherSize k.uninit
    let difference := blit difference 0 ciphertextBuffer cipherSize 32
    let key : Fin 4 → UInt64 := fun i => load64 difference (8 * i) ^^^ load64 hash (8 * i)
    let plaintextBuffer := speckCtr ciphertextBuffer k.uninit cipherSize key nonce
    some (ret, difference, blit data 0 plaintextBuffer 0 dataLength, shares)
  else some (-1, difference, data, shares)

/-! ### The payload -/

section

variable {k : Kernel} {g : GfCtx} {key : Fin 4 → UInt64} {nonce : ℕ → UInt64}
  {difference data payload payload' : Mem} {shares : ℕ → Mem} {n i : ℕ}

/-- The payload that `encode_aont_package` makes from the data. -/
def sealPayload (k : Kernel) (key : Fin 4 → UInt64) (difference data : Mem) (cipherSize : ℕ)
    (nonce : ℕ → UInt64) : Mem :=
  let ciphertext := speckCtr (blit k.uninit 0 data 0 cipherSize) k.uninit cipherSize key nonce
  blit ciphertext cipherSize
    (storeDifference difference key (sha3_256 ciphertext cipherSize k.uninit)) 0 32

theorem load64_storeDifference {hash : Mem} (i : Fin 4) :
    load64 (storeDifference difference key hash) (8 * i) = key i ^^^ load64 hash (8 * i) := by
  have h (m : Mem) (a b : ℕ) (x : UInt64) (hab : a ≠ b) :
      load64 (store64 m (8 * a) x) (8 * b) = load64 m (8 * b) := load64_store64_out (by omega)
  simp only [storeDifference, List.range, List.range.loop, List.foldl]
  fin_cases i <;> simp only [Fin.zero_eta, Fin.mk_one, Fin.reduceFinMk]
  · rw [h _ 3 0 _ (by omega), h _ 2 0 _ (by omega), h _ 1 0 _ (by omega), load64_store64]
    rfl
  · rw [h _ 3 1 _ (by omega), h _ 2 1 _ (by omega), load64_store64]
    rfl
  · rw [h _ 3 2 _ (by omega), load64_store64]
    rfl
  · exact load64_store64 _ _ _

theorem agree_openPayload (h : Agree payload 0 payload' 0 (8 * n + 32)) :
    Agree (openPayload k payload (8 * n) nonce) 0 (openPayload k payload' (8 * n) nonce) 0
      (8 * n) := by
  have hkey : payloadKey k payload (8 * n) = payloadKey k payload' (8 * n) := by
    funext i
    have hword : Agree payload (8 * n + 8 * i) payload' (8 * n + 8 * i) 8 := by
      have hle : 8 * n + 8 * i + 8 ≤ 8 * n + 32 := by omega
      have := h.sub hle
      rwa [Nat.zero_add] at this
    have htext : Agree payload 0 payload' 0 (8 * n) := fun j hj => h j (by omega)
    rw [payloadKey, payloadKey, load64_congr hword, sha3_256_congr htext]
  rw [openPayload, openPayload, hkey]
  refine agree_speckCtr fun i hi => load64_congr ?_
  have hle : 8 * i + 8 ≤ 8 * n + 32 := by omega
  have := h.sub hle
  rwa [Nat.zero_add] at this

theorem payloadKey_sealPayload :
    payloadKey k (sealPayload k key difference data n nonce) n = key := by
  funext i
  have hle : 8 * (i : ℕ) + 8 ≤ 32 := by omega
  have hword := (agree_blit (speckCtr (blit k.uninit 0 data 0 n) k.uninit n key nonce) n
    (storeDifference difference key (sha3_256 (speckCtr (blit k.uninit 0 data 0 n) k.uninit n key
      nonce) n k.uninit)) 0 32).sub hle
  rw [Nat.zero_add] at hword
  have hcipher : Agree (sealPayload k key difference data n nonce) 0
      (speckCtr (blit k.uninit 0 data 0 n) k.uninit n key nonce) 0 n :=
    agree_blit_out (by omega)
  rw [payloadKey, sha3_256_congr hcipher]
  rw [sealPayload, load64_congr hword, load64_storeDifference, UInt64.xor_assoc, UInt64.xor_self,
    UInt64.xor_zero]

/-- **A sealed payload opens to the data.** -/
theorem agree_openPayload_sealPayload :
    Agree (openPayload k (sealPayload k key difference data (8 * n) nonce) (8 * n) nonce) 0 data 0
      (8 * n) := by
  have hcipher : ∀ i < n, load64 (sealPayload k key difference data (8 * n) nonce) (8 * i) =
      load64 (speckCtr (blit k.uninit 0 data 0 (8 * n)) k.uninit (8 * n) key nonce) (8 * i) :=
    fun i hi => load64_congr (agree_blit_out (by omega))
  rw [openPayload, payloadKey_sealPayload]
  exact (speckCtr_speckCtr hcipher).trans (agree_blit _ _ _ _ _)

/-- **No payload shows its data**: one that has two blocks of the data as they are does not open to
the data. -/
theorem not_agree_openPayload {t : ℕ} (h : Agree payload (16 * t) data (16 * t) 32)
    (ht : 2 * t + 4 ≤ n) : ¬ Agree (openPayload k payload (8 * n) nonce) 0 data 0 (8 * n) := by
  intro hopen
  refine padWord_ne_zero (payloadKey k payload (8 * n)) nonce t fun i hi => ?_
  have hword : Agree payload (8 * (2 * t + i)) data (8 * (2 * t + i)) 8 := by
    have := h.sub (j := 8 * i) (k := 8) (by omega)
    rwa [show 16 * t + 8 * i = 8 * (2 * t + i) by omega] at this
  have hplain : load64 (openPayload k payload (8 * n) nonce) (8 * (2 * t + i)) =
      load64 data (8 * (2 * t + i)) := by
    have := hopen.sub (j := 8 * (2 * t + i)) (k := 8) (by omega)
    rw [Nat.zero_add] at this
    exact load64_congr this
  rw [openPayload, load64_speckCtr (by omega), load64_congr hword] at hplain
  exact (UInt64.xor_right_inj (load64 data (8 * (2 * t + i)))).1
    (hplain.trans (UInt64.xor_zero).symm)

/-! ### The shares -/

theorem agree_splitPayload {rs : ℕ} (hi : i < n) :
    Agree (splitPayload shares payload rs n i) 0 payload (rs * i) rs := by
  induction n with
  | zero => omega
  | succ n ih =>
    rw [splitPayload]
    by_cases h : i = n
    · subst h
      rw [Function.update_self]
      exact agree_blit _ _ _ _ _
    · rw [Function.update_of_ne h]
      exact ih (by omega)

theorem agree_joinPayload {rs : ℕ} {buffer : Mem} (hi : i < n) :
    Agree (joinPayload shares buffer rs n) (rs * i) (shares i) 0 rs := by
  induction n with
  | zero => omega
  | succ n ih =>
    rw [joinPayload]
    by_cases h : i = n
    · subst h
      exact agree_blit _ _ _ _ _
    · have hle : rs * i + rs ≤ rs * n := by
        rw [← Nat.mul_succ]
        exact Nat.mul_le_mul_left rs (by omega)
      exact (agree_blit_out (Or.inl hle)).trans (ih (by omega))

theorem agree_joinPayload_of_shares {rs : ℕ} {buffer : Mem}
    (h : ∀ i < n, Agree (shares i) 0 payload (rs * i) rs) :
    Agree (joinPayload shares buffer rs n) 0 payload 0 (n * rs) := by
  refine agree_records_iff.2 fun i hi => ?_
  rw [Nat.mul_comm i rs]
  exact (agree_joinPayload hi).trans (h i hi)

theorem agree_encodeAontPackage {parityBlocks : ℤ} {L : ℕ} (hk : k.kmalloc (L + 32) = true)
    (hi : i < n) :
    Agree ((encodeAontPackage k g key difference data L shares n parityBlocks nonce).2.2 i) 0
      (sealPayload k key difference data L nonce) ((L + 32) / n * i) ((L + 32) / n) := by
  simp only [encodeAontPackage, hk, if_true]
  rw [cauchyRsEncode_out fun b _ => by omega]
  exact agree_splitPayload hi

theorem agree_encodeAontPackage_difference {parityBlocks : ℤ} {L : ℕ}
    (hk : k.kmalloc (L + 32) = true) :
    Agree (encodeAontPackage k g key difference data L shares n parityBlocks nonce).2.1 0
      (sealPayload k key difference data L nonce) L 32 := by
  simp only [encodeAontPackage, hk, if_true]
  exact (agree_blit _ _ _ _ _).symm

theorem decodeAontPackage_eq {parityBlocks ret : ℤ} {L numErasures : ℕ} {erasures : Mem}
    {out : ℕ → Mem} (hk : k.kmalloc (L + 32) = true)
    (hdec : cauchyRsDecode g k.uninit ⟨n, parityBlocks, ((L + 32) / n : ℕ)⟩ shares (fun i => i)
      (fun i => n + i) erasures numErasures = some (ret, out)) :
    decodeAontPackage k g difference data L shares n parityBlocks nonce erasures numErasures =
      some (ret, blit difference 0 (joinPayload out k.uninit ((L + 32) / n) n) L 32,
        blit data 0 (openPayload k (joinPayload out k.uninit ((L + 32) / n) n) L nonce) 0 L,
        out) := by
  simp only [decodeAontPackage, hk, if_true]
  rw [hdec]
  simp only [Option.bind_eq_bind, Option.bind_some]
  -- the key is read from the copy of the difference that has just been made
  have hkey : (fun i : Fin 4 =>
      load64 (blit difference 0 (joinPayload out k.uninit ((L + 32) / n) n) L 32) (8 * i) ^^^
        load64 (sha3_256 (joinPayload out k.uninit ((L + 32) / n) n) L k.uninit) (8 * i)) =
      payloadKey k (joinPayload out k.uninit ((L + 32) / n) n) L := by
    funext i
    have hle : 8 * (i : ℕ) + 8 ≤ 32 := by omega
    have hword := (agree_blit difference 0 (joinPayload out k.uninit ((L + 32) / n) n) L 32).sub
      hle
    rw [Nat.zero_add] at hword
    rw [payloadKey, load64_congr hword]
  rw [hkey, openPayload]

/-- **Without erasures `decode_aont_package` opens the payload that the data shares hold.** -/
theorem decodeAontPackage_zero {parityBlocks : ℤ} {L : ℕ} {erasures : Mem}
    (hk : k.kmalloc (L + 32) = true) (hn : 0 < n) (hm : 0 < parityBlocks) (hrs : 0 < (L + 32) / n)
    (h256 : n + parityBlocks ≤ 256) :
    decodeAontPackage k g difference data L shares n parityBlocks nonce erasures 0 =
      some (0, blit difference 0 (joinPayload shares k.uninit ((L + 32) / n) n) L 32,
        blit data 0 (openPayload k (joinPayload shares k.uninit ((L + 32) / n) n) L nonce) 0 L,
        shares) :=
  decodeAontPackage_eq hk
    (cauchyRsDecode_zero (Int.natCast_pos.2 hn) hm (Int.natCast_pos.2 hrs) h256)

end

end Artifice
