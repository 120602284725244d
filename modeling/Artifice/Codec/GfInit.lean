import Mathlib.Dynamics.PeriodicPts.Defs
import Artifice.Lib.ByteField
import Artifice.Codec.GfMem

/-!
`gf_init` of `lib/cauchy_rs.c`, and the field that its tables stand for.

The tables of powers and logarithms are filled in one loop, from which the products, the quotients
and the tables for the vectors are looked up. Everything that the codec relies on is in
`GfCtx.Valid`: the entries are products, quotients and inverses in a field of bytes.
-/

namespace Artifice

open Lib

/-! ### The tables -/

/-- `GF_GEN_POLY`. -/
def gfGenPoly : List ℕ :=
  [0x8e, 0x95, 0x96, 0xa6, 0xaf, 0xb1, 0xb2, 0xb4, 0xb8, 0xc3, 0xc6, 0xd4, 0xe1, 0xe7, 0xf3, 0xfa]

/-- `kDefaultPolynomialIndex`. -/
def kDefaultPolynomialIndex : ℤ := 3

/-- `gf_poly_init`: the polynomial. -/
def gfPolyInit (polynomialIndex : ℤ) : ℕ :=
  let polynomialIndex := if polynomialIndex < 0 ∨ polynomialIndex ≥ 16 then kDefaultPolynomialIndex
    else polynomialIndex
  (gfGenPoly.getD polynomialIndex.toNat 0) <<< 1 ||| 1

/-- The next power, in the loop of `gf_explog_init`. -/
def gfNext (poly : ℕ) (b : UInt8) : UInt8 :=
  let next := b.toNat * 2
  UInt8.ofNat (if next ≥ 256 then next ^^^ poly else next)

/-- The loop of `gf_explog_init` over the first powers: `exptab` and `logtab`, which are zero
before. -/
def gfExplogLoop (poly : ℕ) : ℕ → (ℕ → UInt8) × (ℕ → ℕ)
  | 0 => (Function.update (fun _ => 0) 0 1, Function.update (fun _ => 0) 0 512)
  | n + 1 =>
    let (exptab, logtab) := gfExplogLoop poly n
    let jj := n + 1
    let exptab := Function.update exptab jj (gfNext poly (exptab (jj - 1)))
    (exptab, Function.update logtab (exptab jj).toNat jj)

/-- The rest of `gf_explog_init`, after its first loop. -/
def gfExplogRest (exptab : ℕ → UInt8) (logtab : ℕ → ℕ) : (ℕ → UInt8) × (ℕ → ℕ) :=
  let exptab := Function.update exptab 255 (exptab 0)
  let logtab := Function.update logtab (exptab 255).toNat 255
  (fun jj => if jj < 256 then exptab jj else if jj < 2 * 255 then exptab (jj % 255)
    else if jj = 2 * 255 then 1 else 0, logtab)

/-- `gf_explog_init`. -/
def gfExplogInit (poly : ℕ) : (ℕ → UInt8) × (ℕ → ℕ) :=
  gfExplogRest (gfExplogLoop poly 254).1 (gfExplogLoop poly 254).2

/-- The entry of `GF_MUL_TABLE` for `x * y`, by `gf_muldiv_init`. -/
def gfMulEntry (exptab : ℕ → UInt8) (logtab : ℕ → ℕ) (y x : ℕ) : UInt8 :=
  let logY := logtab y % 256
  if y = 0 ∨ x = 0 then 0 else exptab (logtab x + logY)

/-- The entry of `GF_DIV_TABLE` for `x / y`, by `gf_muldiv_init`. -/
def gfDivEntry (exptab : ℕ → UInt8) (logtab : ℕ → ℕ) (y x : ℕ) : UInt8 :=
  let logY := logtab y % 256
  let logYn := 255 - logY
  if y = 0 ∨ x = 0 then 0 else exptab (logtab x + logYn)

/-- `gf_muldiv_init`. The subtables follow each other. -/
def gfMuldivInit (g : GfCtx) (exptab : ℕ → UInt8) (logtab : ℕ → ℕ) : GfCtx :=
  { g with
    gfMulTable := fun i => gfMulEntry exptab logtab (i / 256) (i % 256)
    gfDivTable := fun i => gfDivEntry exptab logtab (i / 256) (i % 256) }

/-- `gf_inv_init`. -/
def gfInvInit (g : GfCtx) : GfCtx := { g with gfInvTable := fun x => gfDiv g 1 (UInt8.ofNat x) }

/-- `gf_mul_mem_init`. -/
def gfMulMemInit (g : GfCtx) : GfCtx :=
  { g with
    tableLoY := fun y x => gfMul g (UInt8.ofNat x) (UInt8.ofNat y)
    tableHiY := fun y x => gfMul g (UInt8.ofNat (x <<< 4)) (UInt8.ofNat y) }

/-- The variables of `lib/cauchy_rs.c`: `Initialized` and `GFContext`. -/
structure GfStatics where
  initialized : Bool
  gfContext : GfCtx

/-- The variables when the module is loaded. -/
def gfStaticsZero : GfStatics := ⟨false, gfContextZero⟩

/-- `IsLittleEndian`. -/
def isLittleEndian : Bool :=
  le (fun i => ([4, 3, 2, 1] : List UInt8).getD i 0) 0 4 = 0x01020304

/-- `gf_init`. `cpuHasSsse3` is what `gf_architecture_init` finds. The squares of `gf_sqr_init` are
not read by the codec. -/
def gfInit (cpuHasSsse3 : Bool) (s : GfStatics) : ℤ × GfStatics :=
  if s.initialized then (0, s)
  else if !isLittleEndian then (-2, { s with initialized := true })
  else
    let g := { s.gfContext with cpuHasSsse3 }
    let (exptab, logtab) := gfExplogInit (gfPolyInit kDefaultPolynomialIndex)
    (0, ⟨true, gfMulMemInit (gfInvInit (gfMuldivInit g exptab logtab))⟩)

/-! ### The powers of two -/

/-- The product with the generator, modulo the default polynomial. -/
abbrev gfTwice : UInt8 → UInt8 := gfNext (gfPolyInit kDefaultPolynomialIndex)

theorem gfTwice_eq : ∀ b : UInt8, gfTwice b =
    (b <<< 1) ^^^ (b >>> 7) ^^^ ((b >>> 7) <<< 2) ^^^ ((b >>> 7) <<< 3) ^^^ ((b >>> 7) <<< 6) :=
  forall_byte (by decide +kernel)

theorem gfTwice_xor (a b : UInt8) : gfTwice (a ^^^ b) = gfTwice a ^^^ gfTwice b := by
  simp only [gfTwice_eq, UInt8.shiftLeft_xor, UInt8.shiftRight_xor]
  ac_rfl

theorem gfTwice_eq_zero : ∀ b : UInt8, gfTwice b = 0 → b = 0 := forall_byte (by decide +kernel)

theorem minimalPeriod_gfTwice : Function.minimalPeriod gfTwice 1 = 255 := by
  have hper : Function.IsPeriodicPt gfTwice 255 1 := by
    unfold Function.IsPeriodicPt Function.IsFixedPt
    decide +kernel
  have h85 : ¬ Function.IsPeriodicPt gfTwice 85 1 := by
    unfold Function.IsPeriodicPt Function.IsFixedPt
    decide +kernel
  have h51 : ¬ Function.IsPeriodicPt gfTwice 51 1 := by
    unfold Function.IsPeriodicPt Function.IsFixedPt
    decide +kernel
  have h15 : ¬ Function.IsPeriodicPt gfTwice 15 1 := by
    unfold Function.IsPeriodicPt Function.IsFixedPt
    decide +kernel
  rw [Function.isPeriodicPt_iff_minimalPeriod_dvd] at hper h85 h51 h15
  have hmem : Function.minimalPeriod gfTwice 1 ∈ Nat.divisors 255 :=
    Nat.mem_divisors.2 ⟨hper, by norm_num⟩
  rw [show Nat.divisors 255 = {1, 3, 5, 15, 17, 51, 85, 255} by decide +kernel] at hmem
  simp only [Finset.mem_insert, Finset.mem_singleton] at hmem
  rcases hmem with h | h | h | h | h | h | h | h
  · exact absurd (h ▸ one_dvd _) h15
  · exact absurd (by rw [h]; norm_num) h15
  · exact absurd (by rw [h]; norm_num) h15
  · exact absurd (by rw [h]) h15
  · exact absurd (by rw [h]; norm_num) h51
  · exact absurd (by rw [h]) h51
  · exact absurd (by rw [h]) h85
  · exact h

theorem gfTwice_injective : Function.Injective gfTwice := by
  intro a b hab
  have hzero : gfTwice (a ^^^ b) = 0 := by rw [gfTwice_xor, hab, UInt8.xor_self]
  exact UInt8.xor_eq_zero_iff.1 (gfTwice_eq_zero _ hzero)

theorem gfTwice_iterate_ne_zero (n : ℕ) : gfTwice^[n] 1 ≠ 0 := by
  intro h
  have hzero : gfTwice^[n] 0 = 0 := by
    induction n with
    | zero => rfl
    | succ n ih =>
      rw [Function.iterate_succ_apply'] at h ⊢
      rw [ih (gfTwice_eq_zero _ h)]
      decide +kernel
  exact absurd (gfTwice_injective.iterate n (h.trans hzero.symm)) (by decide)

theorem gfTwice_iterate_period (n : ℕ) : gfTwice^[n % 255] 1 = gfTwice^[n] 1 := by
  have h := Function.iterate_mod_minimalPeriod_eq (f := gfTwice) (x := 1) (n := n)
  rwa [minimalPeriod_gfTwice] at h

theorem gfTwice_iterate_inj {m n : ℕ} (hm : m < 255) (hn : n < 255)
    (h : gfTwice^[m] 1 = gfTwice^[n] 1) : m = n := by
  refine Function.iterate_injOn_Iio_minimalPeriod (f := gfTwice) (x := 1) ?_ ?_ h
  · rw [minimalPeriod_gfTwice]
    exact hm
  · rw [minimalPeriod_gfTwice]
    exact hn

theorem exists_gfTwice_iterate {b : UInt8} (hb : b ≠ 0) : ∃ n < 255, gfTwice^[n] 1 = b := by
  by_contra hno
  have hmaps : ∀ n ∈ Finset.range 255,
      (gfTwice^[n] 1).toNat ∈ (Finset.Ico 1 256).erase b.toNat := by
    intro n hn
    have hlt := (gfTwice^[n] 1).toNat_lt
    have hpos : (gfTwice^[n] 1).toNat ≠ 0 := fun h =>
      gfTwice_iterate_ne_zero n (UInt8.toNat_inj.1 h)
    refine Finset.mem_erase.2 ⟨fun h => hno ⟨n, Finset.mem_range.1 hn, UInt8.toNat_inj.1 h⟩, ?_⟩
    exact Finset.mem_Ico.2 ⟨Nat.pos_of_ne_zero hpos, hlt⟩
  have hb' : b.toNat ≠ 0 := fun h => hb (UInt8.toNat_inj.1 h)
  have hmem : b.toNat ∈ Finset.Ico 1 256 :=
    Finset.mem_Ico.2 ⟨Nat.pos_of_ne_zero hb', b.toNat_lt⟩
  have hcard := Finset.card_le_card_of_injOn (s := Finset.range 255)
    (fun n => (gfTwice^[n] 1).toNat) hmaps ?_
  · rw [Finset.card_erase_of_mem hmem, Finset.card_range, Nat.card_Ico] at hcard
    omega
  · intro m hm n hn h
    exact gfTwice_iterate_inj (Finset.mem_range.1 hm) (Finset.mem_range.1 hn)
      (UInt8.toNat_inj.1 h)

/-! ### The tables of powers and logarithms -/

theorem gfExplogLoop_spec {n : ℕ} (hn : n < 255) :
    let s := gfExplogLoop (gfPolyInit kDefaultPolynomialIndex) n
    (∀ i ≤ n, s.1 i = gfTwice^[i] 1) ∧
      ∀ i, 1 ≤ i → i ≤ n → s.2 (gfTwice^[i] 1).toNat = i := by
  induction n with
  | zero =>
    refine ⟨fun i hi => ?_, fun i h1 hi => by omega⟩
    rw [Nat.le_zero.1 hi]
    rfl
  | succ n ih =>
    obtain ⟨hexp, hlog⟩ := ih (by omega)
    have hnew : gfNext (gfPolyInit kDefaultPolynomialIndex)
        ((gfExplogLoop (gfPolyInit kDefaultPolynomialIndex) n).1 n) = gfTwice^[n + 1] 1 := by
      rw [hexp n (le_refl n), Function.iterate_succ_apply']
    simp only [gfExplogLoop, Nat.add_sub_cancel, hnew, Function.update_self]
    refine ⟨?_, ?_⟩
    · intro i hi
      by_cases hin : i = n + 1
      · rw [hin, Function.update_self]
      · rw [Function.update_of_ne hin, hexp i (by omega)]
    · intro i h1 hi
      by_cases hin : i = n + 1
      · rw [hin, Function.update_self]
      · have hne : (gfTwice^[i] 1).toNat ≠ (gfTwice^[n + 1] 1).toNat := fun h =>
          hin (gfTwice_iterate_inj (by omega) (by omega) (UInt8.toNat_inj.1 h))
        rw [Function.update_of_ne hne, hlog i h1 (by omega)]

/-- `GF_EXP_TABLE`. -/
def gfExpTable : ℕ → UInt8 := (gfExplogInit (gfPolyInit kDefaultPolynomialIndex)).1

/-- `GF_LOG_TABLE`. -/
def gfLogTable : ℕ → ℕ := (gfExplogInit (gfPolyInit kDefaultPolynomialIndex)).2

theorem gfExpTable_eq {i : ℕ} (hi : i ≤ 510) : gfExpTable i = gfTwice^[i] 1 := by
  obtain ⟨hexp, -⟩ := gfExplogLoop_spec (n := 254) (by norm_num)
  have hmod := gfTwice_iterate_period i
  unfold gfExpTable gfExplogInit
  generalize (gfExplogLoop (gfPolyInit kDefaultPolynomialIndex) 254).1 = exptab at hexp
  simp only [gfExplogRest]
  split_ifs with h256 h510 heq
  · by_cases h255 : i = 255
    · subst h255
      rw [Function.update_self, hexp 0 (by norm_num), ← hmod]
    · rw [Function.update_of_ne h255, hexp i (by omega)]
  · have hlt : i % 255 < 255 := Nat.mod_lt i (by norm_num)
    rw [Function.update_of_ne (by omega), hexp _ (by omega), hmod]
  · rw [← hmod, heq]
    rfl
  · omega

theorem gfLogTable_eq {i : ℕ} (h1 : 1 ≤ i) (hi : i ≤ 255) :
    gfLogTable (gfTwice^[i] 1).toNat = i := by
  obtain ⟨hexp, hlog⟩ := gfExplogLoop_spec (n := 254) (by norm_num)
  unfold gfLogTable gfExplogInit
  generalize (gfExplogLoop (gfPolyInit kDefaultPolynomialIndex) 254).1 = exptab at hexp
  generalize (gfExplogLoop (gfPolyInit kDefaultPolynomialIndex) 254).2 = logtab at hlog
  simp only [gfExplogRest, Function.update_self]
  rw [hexp 0 (by norm_num)]
  by_cases h255 : i = 255
  · have hmod := gfTwice_iterate_period i
    subst h255
    rw [← hmod]
    exact Function.update_self ..
  · have hne : (gfTwice^[i] 1).toNat ≠ (gfTwice^[0] 1).toNat := fun h => by
      have := gfTwice_iterate_inj (by omega) (by omega) (UInt8.toNat_inj.1 h)
      omega
    rw [Function.update_of_ne hne, hlog i h1 (by omega)]

theorem gfLogTable_spec {b : UInt8} (hb : b ≠ 0) :
    1 ≤ gfLogTable b.toNat ∧ gfLogTable b.toNat ≤ 255 ∧ gfTwice^[gfLogTable b.toNat] 1 = b := by
  obtain ⟨n, hn, hpow⟩ := exists_gfTwice_iterate hb
  by_cases h0 : n = 0
  · have hpow255 : gfTwice^[255] 1 = b := by rw [← hpow, h0, ← gfTwice_iterate_period 255]
    have hlog := gfLogTable_eq (i := 255) (by norm_num) (by norm_num)
    rw [hpow255] at hlog
    rw [hlog]
    exact ⟨by norm_num, by norm_num, hpow255⟩
  · have hlog := gfLogTable_eq (i := n) (by omega) (by omega)
    rw [hpow] at hlog
    rw [hlog]
    exact ⟨by omega, by omega, hpow⟩

/-- The field of the tables. -/
def cauchyTables : FieldTables where
  T := gfTwice
  exp := gfExpTable
  log b := gfLogTable b.toNat % 255
  size := 511
  antilog :=
    { map_xor := gfTwice_xor
      eq_zero := gfTwice_eq_zero
      exp_zero := gfExpTable_eq (by norm_num)
      exp_succ := fun i hi => by
        rw [gfExpTable_eq (by omega), gfExpTable_eq (by omega), Function.iterate_succ_apply']
      exp_log := fun b hb => by
        have hlt : gfLogTable b.toNat % 255 < 255 := Nat.mod_lt _ (by norm_num)
        rw [gfExpTable_eq (by omega), gfTwice_iterate_period, (gfLogTable_spec hb).2.2] }
  size_gt := by norm_num
  exp_period := by
    rw [gfExpTable_eq (by norm_num), ← gfTwice_iterate_period]
    rfl
  log_lt _ _ := Nat.mod_lt _ (by norm_num)

/-! ### What the codec relies on -/

/-- The entries of the tables are products, quotients and inverses in a field of bytes; the tables
for the vectors have the products with the low and the high halves. -/
structure GfCtx.Valid (t : FieldTables) (g : GfCtx) : Prop where
  mul : ∀ x y, ByteField.ofByte t (gfMul g x y) = ByteField.ofByte t x * ByteField.ofByte t y
  div : ∀ x y, ByteField.ofByte t (gfDiv g x y) = ByteField.ofByte t x / ByteField.ofByte t y
  inv : ∀ y : UInt8, ByteField.ofByte t (g.gfInvTable y.toNat) = (ByteField.ofByte t y)⁻¹
  lo : ∀ y : UInt8, ∀ x < 16, g.tableLoY y.toNat x = gfMul g (UInt8.ofNat x) y
  hi : ∀ y : UInt8, ∀ x < 16, g.tableHiY y.toNat x = gfMul g (UInt8.ofNat (x <<< 4)) y

theorem gen_pow_gfLogTable {b : UInt8} (hb : b ≠ 0) :
    ByteField.gen cauchyTables ^ gfLogTable b.toNat = ByteField.ofByte cauchyTables b := by
  rw [← ByteField.gen_pow_mod]
  exact ByteField.gen_pow_log hb

theorem ofByte_gfExpTable {i : ℕ} (hi : i ≤ 510) :
    ByteField.ofByte cauchyTables (gfExpTable i) = ByteField.gen cauchyTables ^ i := by
  have h := ByteField.ofByte_iterate (t := cauchyTables) i 1
  rw [ByteField.ofByte_one, mul_one] at h
  rw [gfExpTable_eq hi]
  exact h

section

variable (g : GfCtx)

theorem ofByte_gfMul (x y : UInt8) :
    ByteField.ofByte cauchyTables (gfMul (gfMuldivInit g gfExpTable gfLogTable) x y) =
      ByteField.ofByte cauchyTables x * ByteField.ofByte cauchyTables y := by
  have hx := x.toNat_lt
  have hrow : (y.toNat * 256 + x.toNat) / 256 = y.toNat := by omega
  have hcol : (y.toNat * 256 + x.toNat) % 256 = x.toNat := by omega
  simp only [gfMul, gfMuldivInit, hrow, hcol, gfMulEntry]
  split_ifs with h
  · rcases h with h | h
    · rw [show y = 0 from UInt8.toNat_inj.1 h, ByteField.ofByte_zero, mul_zero]
    · rw [show x = 0 from UInt8.toNat_inj.1 h, ByteField.ofByte_zero, zero_mul]
  · obtain ⟨hy0, hx0⟩ := not_or.1 h
    have hy0 : y ≠ 0 := fun h => hy0 (UInt8.toNat_inj.2 h)
    have hx0 : x ≠ 0 := fun h => hx0 (UInt8.toNat_inj.2 h)
    obtain ⟨-, hlx, -⟩ := gfLogTable_spec hx0
    obtain ⟨-, hly, -⟩ := gfLogTable_spec hy0
    rw [Nat.mod_eq_of_lt (by omega), ofByte_gfExpTable (by omega), pow_add,
      gen_pow_gfLogTable hx0, gen_pow_gfLogTable hy0]

theorem ofByte_gfDiv (x y : UInt8) :
    ByteField.ofByte cauchyTables (gfDiv (gfMuldivInit g gfExpTable gfLogTable) x y) =
      ByteField.ofByte cauchyTables x / ByteField.ofByte cauchyTables y := by
  have hx := x.toNat_lt
  have hrow : (y.toNat * 256 + x.toNat) / 256 = y.toNat := by omega
  have hcol : (y.toNat * 256 + x.toNat) % 256 = x.toNat := by omega
  simp only [gfDiv, gfMuldivInit, hrow, hcol, gfDivEntry]
  split_ifs with h
  · rcases h with h | h
    · rw [show y = 0 from UInt8.toNat_inj.1 h, ByteField.ofByte_zero, div_zero]
    · rw [show x = 0 from UInt8.toNat_inj.1 h, ByteField.ofByte_zero, zero_div]
  · obtain ⟨hy0, hx0⟩ := not_or.1 h
    have hy0 : y ≠ 0 := fun h => hy0 (UInt8.toNat_inj.2 h)
    have hx0 : x ≠ 0 := fun h => hx0 (UInt8.toNat_inj.2 h)
    obtain ⟨-, hlx, -⟩ := gfLogTable_spec hx0
    obtain ⟨-, hly, -⟩ := gfLogTable_spec hy0
    rw [Nat.mod_eq_of_lt (by omega), ofByte_gfExpTable (by omega), pow_add,
      ByteField.gen_pow_sub hly, gen_pow_gfLogTable hx0, gen_pow_gfLogTable hy0, div_eq_mul_inv]

theorem gfMulMemInit_valid :
    (gfMulMemInit (gfInvInit (gfMuldivInit g gfExpTable gfLogTable))).Valid cauchyTables := by
  refine ⟨ofByte_gfMul g, ofByte_gfDiv g, ?_, ?_, ?_⟩
  · intro y
    have h := ofByte_gfDiv g 1 y
    rw [ByteField.ofByte_one, one_div] at h
    rw [← h]
    simp only [gfMulMemInit, gfInvInit, UInt8.ofNat_toNat]
  · intro y x _
    simp only [gfMulMemInit, UInt8.ofNat_toNat]
    rfl
  · intro y x _
    simp only [gfMulMemInit, UInt8.ofNat_toNat]
    rfl

end

/-- **`gf_init` fills the tables of a field.** -/
theorem gfInit_valid (cpuHasSsse3 : Bool) :
    (gfInit cpuHasSsse3 gfStaticsZero).2.gfContext.Valid cauchyTables := by
  have hend : isLittleEndian = true := by decide
  rw [gfInit, hend]
  exact gfMulMemInit_valid { gfContextZero with cpuHasSsse3 }

end Artifice
