import Artifice.Codec.Erasures
import Artifice.Codec.Ldu

/-!
`Decode` solves the linear system of the erased blocks.

At each byte the recovery blocks are a vector over the field. The stages of `Decode` change that
vector: the original blocks are added with the coefficients of the matrix, which cancels them, and
the three passes of the elimination follow. `Rows` says which vector the pages hold.
-/

namespace Artifice

open Lib ByteField

/-- The blocks of the rows hold the vectors `v`, one for each byte. -/
def Rows (t : FieldTables) (bytes N : ℕ) (block : ℕ → ℕ) (pages : ℕ → Mem)
    (v : ℕ → ℕ → ByteField t) : Prop :=
  ∀ q < bytes, ∀ i < N, ofByte t (pages (block i) q) = v q i

section

variable {t : FieldTables} {gf : GfCtx} {bytes N : ℕ} {block : ℕ → ℕ} {pages : ℕ → Mem}
  {v v' : ℕ → ℕ → ByteField t}

theorem Rows.congr (h : Rows t bytes N block pages v) (hv : ∀ q < bytes, ∀ i < N, v q i = v' q i) :
    Rows t bytes N block pages v' := fun q hq i hi => (h q hq i hi).trans (hv q hq i hi)

/-! ### Multiples of one page -/

/-- Multiples of a page are added to some rows, one after the other. -/
def addRows (gf : GfCtx) (bytes : ℕ) (block : ℕ → ℕ) (e : ℕ → ℕ) (c : ℕ → UInt8) (p n : ℕ)
    (pages : ℕ → Mem) : ℕ → Mem :=
  (List.range n).foldl (fun pages a => muladdRow gf bytes block pages (e a) (c a) p) pages

theorem addRows_succ {e : ℕ → ℕ} {c : ℕ → UInt8} {p n : ℕ} :
    addRows gf bytes block e c p (n + 1) pages =
      muladdRow gf bytes block (addRows gf bytes block e c p n pages) (e n) (c n) p := by
  simp only [addRows, List.range_succ, List.foldl_append, List.foldl_cons, List.foldl_nil]

theorem foldl_muladdRow (matrix : Mem) (e : ℕ → ℕ) (p n c : ℕ) :
    (List.range n).foldl (fun (s : (ℕ → Mem) × ℕ) a =>
      (muladdRow gf bytes block s.1 (e a) (matrix s.2) p, s.2 + 1)) (pages, c) =
      (addRows gf bytes block e (fun a => matrix (c + a)) p n pages, c + n) := by
  induction n with
  | zero => rfl
  | succ n ih =>
    rw [List.range_succ, List.foldl_append, ih, addRows_succ]
    rfl

section

variable {e : ℕ → ℕ} {c : ℕ → UInt8} {p n : ℕ} {C : ℕ → ByteField t} {w : ℕ → ByteField t}

theorem addRows_out {P : ℕ} (hP : ∀ a < n, block (e a) ≠ P) :
    addRows gf bytes block e c p n pages P = pages P := by
  induction n with
  | zero => rfl
  | succ n ih =>
    rw [addRows_succ, muladdRow, Function.update_of_ne (hP n (by omega)).symm]
    exact ih fun a ha => hP a (by omega)

theorem Rows.addRows (hgf : gf.Valid t) (h : Rows t bytes N block pages v)
    (hblock : ∀ i < N, ∀ j < N, block i = block j → i = j) (he : ∀ a < n, e a < N)
    (hinj : ∀ a < n, ∀ b < n, e a = e b → a = b) (hp : ∀ a < n, block (e a) ≠ p)
    (hw : ∀ q < bytes, ofByte t (pages p q) = w q) (hC : ∀ a < n, ofByte t (c a) = C (e a)) :
    Rows t bytes N block (addRows gf bytes block e c p n pages)
      fun q i => if ∃ a < n, e a = i then v q i + C i * w q else v q i := by
  induction n with
  | zero =>
    exact h.congr fun q _ i _ =>
      (if_neg fun ⟨a, ha, _⟩ => absurd ha (Nat.not_lt_zero a)).symm
  | succ n ih =>
    have ih := ih (fun a ha => he a (by omega)) (fun a ha b hb => hinj a (by omega) b (by omega))
      (fun a ha => hp a (by omega)) fun a ha => hC a (by omega)
    have hpage : Artifice.addRows gf bytes block e c p n pages p = pages p :=
      addRows_out fun a ha => hp a (by omega)
    intro q hq i hi
    dsimp only
    rw [addRows_succ, muladdRow]
    by_cases hin : i = e n
    · subst hin
      have hno : ¬∃ a < n, e a = e n := fun ⟨a, ha, heq⟩ => by
        have := hinj a (by omega) n (by omega) heq
        omega
      have hrow := (ih q hq (e n) hi).trans (if_neg hno)
      rw [Function.update_self, hgf.gfMuladdMem_eq, mapBytes_zero_in hq, hpage, ofByte_xor, hrow,
        hgf.mul, Nat.zero_add, hw q hq, hC n (by omega), if_pos ⟨n, by omega, rfl⟩, mul_comm]
    · have hne : block i ≠ block (e n) := fun heq => hin (hblock i hi _ (he n (by omega)) heq)
      rw [Function.update_of_ne hne, ih q hq i hi]
      refine if_congr ⟨?_, ?_⟩ rfl rfl
      · rintro ⟨a, ha, heq⟩
        exact ⟨a, by omega, heq⟩
      · rintro ⟨a, ha, heq⟩
        rcases Nat.lt_succ_iff_lt_or_eq.1 ha with ha | rfl
        · exact ⟨a, ha, heq⟩
        · exact absurd heq.symm hin

end

/-! ### The pages that decoding writes -/

theorem muladdRow_out {i p P : ℕ} {c : UInt8} (hP : block i ≠ P) :
    muladdRow gf bytes block pages i c p P = pages P := by
  rw [muladdRow, Function.update_of_ne hP.symm]

section

variable {P : ℕ} (hP : ∀ i < N, block i ≠ P)

include hP

theorem eliminateOriginals_out {c : ℕ → ℕ → UInt8} {page : ℕ → ℕ} {originals : List ℕ} :
    eliminateOriginals gf bytes N block c page originals pages P = pages P := by
  refine List.foldlRecOn originals _ (motive := fun f : ℕ → Mem => f P = pages P) rfl
    fun f hf o _ => ?_
  refine List.foldlRecOn (List.range N) _ (motive := fun f : ℕ → Mem => f P = pages P) hf
    fun f hf i hi => ?_
  rw [muladdRow_out (hP i (List.mem_range.1 hi)), hf]

theorem eliminateLower_out {matrix : Mem} :
    eliminateLower gf bytes N block matrix pages P = pages P := by
  refine List.foldlRecOn (List.range (N - 1)) _
    (motive := fun s : (ℕ → Mem) × ℕ => s.1 P = pages P) rfl fun s hs j _ => ?_
  refine List.foldlRecOn (List.range' (j + 1) (N - (j + 1))) _
    (motive := fun s : (ℕ → Mem) × ℕ => s.1 P = pages P) hs fun s hs i hi => ?_
  have hi := List.mem_range'_1.1 hi
  exact (muladdRow_out (hP i (by omega))).trans hs

theorem eliminateDiagonal_out {matrix : Mem} :
    eliminateDiagonal gf bytes N block matrix pages P = pages P := by
  refine List.foldlRecOn (List.range N) _ (motive := fun f : ℕ → Mem => f P = pages P) rfl
    fun f hf i hi => ?_
  rw [Function.update_of_ne (hP i (List.mem_range.1 hi)).symm, hf]

theorem eliminateUpper_out {matrix : Mem} :
    eliminateUpper gf bytes N block matrix pages P = pages P := by
  refine List.foldlRecOn (List.range (N - 1)) _
    (motive := fun s : (ℕ → Mem) × ℕ => s.1 P = pages P) rfl fun s hs j hj => ?_
  have hj := List.mem_range.1 hj
  refine List.foldlRecOn (List.range (N - 1 - j)) _
    (motive := fun s : (ℕ → Mem) × ℕ => s.1 P = pages P) hs fun s hs i hi => ?_
  have hi := List.mem_range.1 hi
  exact (muladdRow_out (hP _ (by omega))).trans hs

end

theorem decode_out {params : CauchyEncoderParams} {decoder : CauchyDecoder}
    {blocks : ℕ → CauchyBlock} {uninit : Mem} {P : ℕ}
    (hP : ∀ i < decoder.recovery.length, (blocks (decoder.recovery.getD i 0)).block ≠ P) :
    decode gf params decoder blocks pages uninit P = pages P := by
  rw [decode_eq]
  dsimp only
  rw [eliminateUpper_out hP, eliminateDiagonal_out hP, eliminateLower_out hP,
    eliminateOriginals_out hP]

/-! ### The stages -/

variable (hgf : gf.Valid t) (hblock : ∀ i < N, ∀ j < N, block i = block j → i = j)

include hgf hblock

theorem Rows.eliminateOriginals (h : Rows t bytes N block pages v) {c : ℕ → ℕ → UInt8}
    {page : ℕ → ℕ} {originals : List ℕ} {w : ℕ → ℕ → ByteField t}
    (hpage : ∀ o ∈ originals, ∀ i < N, block i ≠ page o)
    (hw : ∀ o ∈ originals, ∀ q < bytes, ofByte t (pages (page o) q) = w o q) :
    Rows t bytes N block (eliminateOriginals gf bytes N block c page originals pages)
      fun q i => v q i + (originals.map fun o => ofByte t (c i o) * w o q).sum := by
  unfold Artifice.eliminateOriginals
  induction originals generalizing pages v with
  | nil => exact h.congr fun q _ i _ => (add_zero _).symm
  | cons o l ih =>
    have ho := hpage o List.mem_cons_self
    have hrow := h.addRows (n := N) (e := id) (p := page o) (c := fun i => c i o)
      (C := fun i => ofByte t (c i o)) (w := w o) hgf hblock (fun a ha => ha) (fun a _ b _ h => h)
      ho (hw o List.mem_cons_self) fun _ _ => rfl
    rw [List.foldl_cons]
    refine (ih hrow (fun o' ho' => hpage o' (List.mem_cons_of_mem _ ho')) ?_).congr ?_
    · intro o' ho' q hq
      rw [addRows_out (e := id) (hpage o' (List.mem_cons_of_mem _ ho'))]
      exact hw o' (List.mem_cons_of_mem _ ho') q hq
    · intro q _ i hi
      rw [if_pos ⟨i, hi, rfl⟩, List.map_cons, List.sum_cons, add_assoc]

theorem Rows.eliminateLower (h : Rows t bytes N block pages v) {matrix : Mem}
    {L : ℕ → ℕ → ByteField t}
    (hL : ∀ k j, k < j → j < N → ofByte t (matrix (lowerPlace N j k)) = L j k) :
    Rows t bytes N block (eliminateLower gf bytes N block matrix pages)
      fun q => lowerSteps N L (v q) (N - 1) := by
  have hloop : ∀ n ≤ N - 1, ∃ pages', (List.range n).foldl (fun (s : (ℕ → Mem) × ℕ) j =>
      (List.range' (j + 1) (N - (j + 1))).foldl (fun s i =>
        (muladdRow gf bytes block s.1 i (matrix s.2) (block j), s.2 + 1)) s)
      (pages, (N - 1) * N / 2 + N) = (pages', tri N + N + lowerOffset N n) ∧
      Rows t bytes N block pages' fun q => lowerSteps N L (v q) n := by
    intro n hn
    induction n with
    | zero => exact ⟨pages, by rw [tri_eq]; rfl, h⟩
    | succ n ih =>
      obtain ⟨pages', heq, hrows⟩ := ih (by omega)
      rw [List.range_succ, List.foldl_append, heq, List.foldl_cons, List.foldl_nil,
        List.range'_eq_map_range, List.foldl_map, foldl_muladdRow]
      refine ⟨_, Prod.ext rfl (by simp only [lowerOffset]; omega), ?_⟩
      -- the column is added to the rows behind it
      refine (hrows.addRows (C := fun i => L i n) (w := fun q => lowerSteps N L (v q) n n) hgf
        hblock (fun a ha => by omega) (fun a _ b _ hab => by omega) ?_ ?_ ?_).congr ?_
      · intro a ha heq
        have := hblock _ (by omega) _ (by omega) heq
        omega
      · exact fun q hq => hrows q hq n (by omega)
      · intro a ha
        have hplace : lowerPlace N (n + 1 + a) n = tri N + N + lowerOffset N n + a := by
          rw [lowerPlace, Nat.add_sub_cancel_left]
        rw [← hplace, hL n _ (by omega) (by omega)]
      · intro q _ i _
        rw [lowerSteps, lowerStep, ByteField.sub_eq]
        refine if_congr ⟨?_, ?_⟩ rfl rfl
        · rintro ⟨a, ha, rfl⟩
          omega
        · rintro ⟨hni, hi⟩
          exact ⟨i - (n + 1), by omega, by omega⟩
  obtain ⟨pages', heq, hrows⟩ := hloop (N - 1) le_rfl
  unfold Artifice.eliminateLower
  rw [heq]
  exact hrows

theorem Rows.eliminateDiagonal (h : Rows t bytes N block pages v) {matrix : Mem}
    {D : ℕ → ByteField t} (hD : ∀ k < N, ofByte t (matrix (tri N + k)) = D k) :
    Rows t bytes N block (eliminateDiagonal gf bytes N block matrix pages)
      fun q i => v q i / D i := by
  have hloop : ∀ n ≤ N, Rows t bytes N block ((List.range n).foldl (fun pages i =>
      Function.update pages (block i) (gfDivMem gf (pages (block i)) 0 (pages (block i)) 0
        (matrix ((N - 1) * N / 2 + i)) bytes)) pages)
      fun q i => if i < n then v q i / D i else v q i := by
    intro n hn
    induction n with
    | zero => exact h.congr fun q _ i _ => (if_neg (Nat.not_lt_zero i)).symm
    | succ n ih =>
      have ih := ih (by omega)
      intro q hq i hi
      dsimp only
      rw [List.range_succ, List.foldl_append, List.foldl_cons, List.foldl_nil]
      by_cases hin : i = n
      · subst hin
        have hrow := (ih q hq i hi).trans (if_neg (Nat.lt_irrefl i))
        rw [Function.update_self, hgf.gfDivMem_eq, mapBytes_zero_in hq, Nat.zero_add, hgf.div,
          hrow, tri_eq, hD i hi, if_pos (by omega)]
      · have hne : block i ≠ block n := fun heq => hin (hblock i hi n (by omega) heq)
        rw [Function.update_of_ne hne, ih q hq i hi]
        exact if_congr (by omega) rfl rfl
  exact (hloop N le_rfl).congr fun q _ i hi => if_pos hi

theorem Rows.eliminateUpper (h : Rows t bytes N block pages v) {matrix : Mem}
    {U : ℕ → ℕ → ByteField t}
    (hU : ∀ k j, k < j → j < N → ofByte t (matrix (upperPlace N k j)) = U k j) :
    Rows t bytes N block (eliminateUpper gf bytes N block matrix pages)
      fun q => upperSteps N U (v q) (N - 1) := by
  have hloop : ∀ n ≤ N - 1, ∃ pages', (List.range n).foldl (fun (s : (ℕ → Mem) × ℕ) j' =>
      (List.range (N - 1 - j')).foldl (fun s i' =>
        (muladdRow gf bytes block s.1 (N - 1 - j' - 1 - i') (matrix s.2) (block (N - 1 - j')),
          s.2 + 1)) s) (pages, 0) = (pages', tri N - tri (N - n)) ∧
      Rows t bytes N block pages' fun q => upperSteps N U (v q) n := by
    intro n hn
    induction n with
    | zero => exact ⟨pages, by rw [Nat.sub_zero, Nat.sub_self]; rfl, h⟩
    | succ n ih =>
      obtain ⟨pages', heq, hrows⟩ := ih (by omega)
      have htri : tri (N - n) = tri (N - 1 - n) + (N - 1 - n) := by
        rw [show N - n = N - 1 - n + 1 by omega]
        rfl
      have hle : tri (N - n) ≤ tri N := tri_mono (by omega)
      rw [List.range_succ, List.foldl_append, heq, List.foldl_cons, List.foldl_nil,
        foldl_muladdRow]
      refine ⟨_, Prod.ext rfl (by
        rw [show N - (n + 1) = N - 1 - n by omega]
        dsimp only
        omega), ?_⟩
      -- the column is added to the rows before it
      refine (hrows.addRows (C := fun i => U i (N - 1 - n))
        (w := fun q => upperSteps N U (v q) n (N - 1 - n)) hgf hblock (fun a ha => by omega)
        (fun a _ b _ hab => by omega) ?_ ?_ ?_).congr ?_
      · intro a ha heq
        have := hblock _ (by omega) _ (by omega) heq
        omega
      · exact fun q hq => hrows q hq _ (by omega)
      · intro a ha
        have hplace : upperPlace N (N - 1 - n - 1 - a) (N - 1 - n) = tri N - tri (N - n) + a := by
          rw [upperPlace]
          omega
        rw [← hplace, hU _ _ (by omega) (by omega)]
      · intro q _ i _
        rw [upperSteps, upperStep, ByteField.sub_eq]
        refine if_congr ⟨?_, ?_⟩ rfl rfl
        · rintro ⟨a, ha, rfl⟩
          omega
        · intro hi
          exact ⟨N - 1 - n - 1 - i, by omega, by omega⟩
  obtain ⟨pages', heq, hrows⟩ := hloop (N - 1) le_rfl
  unfold Artifice.eliminateUpper
  rw [heq]
  exact hrows

end

section

variable {t : FieldTables} {gf : GfCtx} {params : CauchyEncoderParams} {decoder : CauchyDecoder}
  {blocks : ℕ → CauchyBlock} {pages : ℕ → Mem} {uninit : Mem} {p d : ℕ → ℕ → ByteField t}
  {w : ℕ → ℕ → ByteField t}

/-- **`Decode` solves the system**: if the recovery blocks, with the original ones cancelled, are
the combinations of the blocks `d` with the matrix of the erased columns, it leaves `d` in them. -/
theorem decode_solves (hgf : gf.Valid t) (hN : 1 ≤ decoder.recovery.length)
    (hblock : ∀ i < decoder.recovery.length, ∀ j < decoder.recovery.length,
      (blocks (decoder.recovery.getD i 0)).block = (blocks (decoder.recovery.getD j 0)).block →
        i = j)
    (hpage : ∀ o ∈ decoder.original, ∀ i < decoder.recovery.length,
      (blocks (decoder.recovery.getD i 0)).block ≠ (blocks o).block)
    (hnodes : CauchyNodes decoder.recovery.length
      (elems t fun i => (blocks (decoder.recovery.getD i 0)).index)
      (elems t decoder.erasuresIndices)
      (columnScale t (UInt8.ofNat params.originalCount.toNat) decoder.erasuresIndices))
    (hrows : Rows t params.blockBytes.toNat decoder.recovery.length
      (fun i => (blocks (decoder.recovery.getD i 0)).block) pages p)
    (hw : ∀ o ∈ decoder.original, ∀ q < params.blockBytes.toNat,
      ofByte t (pages (blocks o).block q) = w o q)
    (hsystem : ∀ q < params.blockBytes.toNat, ∀ i < decoder.recovery.length,
      p q i + (decoder.original.map fun o => ofByte t (getMatrixElement gf
        (blocks (decoder.recovery.getD i 0)).index (UInt8.ofNat params.originalCount.toNat)
        (blocks o).index) * w o q).sum =
      ∑ j ∈ Finset.Ico 0 decoder.recovery.length,
        columnScale t (UInt8.ofNat params.originalCount.toNat) decoder.erasuresIndices j /
          (ofByte t (blocks (decoder.recovery.getD i 0)).index +
            ofByte t (decoder.erasuresIndices j)) * d q j) :
    Rows t params.blockBytes.toNat decoder.recovery.length
      (fun i => (blocks (decoder.recovery.getD i 0)).block)
      (decode gf params decoder blocks pages uninit) d := by
  obtain ⟨hU, hD, hL⟩ := generateLDUDecomposition_spec hgf hN uninit hnodes
  rw [decode_eq]
  have hcancelled := hrows.eliminateOriginals (c := fun i o => getMatrixElement gf
    (blocks (decoder.recovery.getD i 0)).index (UInt8.ofNat params.originalCount.toNat)
    (blocks o).index) hgf hblock hpage hw
  have hfinal := ((hcancelled.eliminateLower hgf hblock hL).eliminateDiagonal hgf hblock
    hD).eliminateUpper hgf hblock hU
  refine hfinal.congr fun q hq i hi => hnodes.elimination.solve ?_ hi
  intro i hi
  refine (hsystem q hq i hi).trans (Finset.sum_congr rfl fun j _ => ?_)
  simp only [cauchyM, cauchyG, cauchyB, one_mul]
  rfl

end

end Artifice
