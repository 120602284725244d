import Artifice.Lib.Mem

/-!
`CityHash32` of `lib/city.c`, and the 16-bit checksum of a carrier block that is made from it.
-/

namespace Artifice

open Lib

/-- `c1`. -/
def cityC1 : UInt32 := 0xcc9e2d51

/-- `c2`. -/
def cityC2 : UInt32 := 0x1b873593

/-- `fmix`. -/
def fmix (h : UInt32) : UInt32 :=
  let h := h ^^^ (h >>> 16)
  let h := h * 0x85ebca6b
  let h := h ^^^ (h >>> 13)
  let h := h * 0xc2b2ae35
  h ^^^ (h >>> 16)

/-- `Rotate32`. -/
def rotate32 (val : UInt32) (shift : ℕ) : UInt32 :=
  if shift = 0 then val else (val >>> UInt32.ofNat shift) ||| (val <<< UInt32.ofNat (32 - shift))

/-- `bswap_32`. -/
def bswap32 (x : UInt32) : UInt32 :=
  ((x >>> 24) ||| ((x >>> 8) &&& (0xff00 : UInt32))) |||
    (((x <<< 8) &&& (0xff0000 : UInt32)) ||| (x <<< 24))

/-- `Mur`. -/
def mur (a h : UInt32) : UInt32 :=
  let a := rotate32 (a * cityC1) 17 * cityC2
  rotate32 (h ^^^ a) 19 * 5 + 0xe6546b64

/-- `Hash32Len13to24`. -/
def hash32Len13to24 (s : Mem) (len : ℕ) : UInt32 :=
  let a := load32 s (len / 2 - 4)
  let b := load32 s 4
  let c := load32 s (len - 8)
  let d := load32 s (len / 2)
  let e := load32 s 0
  let f := load32 s (len - 4)
  fmix (mur f (mur e (mur d (mur c (mur b (mur a (UInt32.ofNat len)))))))

/-- `Hash32Len0to4`; a byte is added as a `signed char`. -/
def hash32Len0to4 (s : Mem) (len : ℕ) : UInt32 :=
  let (b, c) := (List.range len).foldl (fun (r : UInt32 × UInt32) i =>
    let v : UInt32 := if (s i).toNat < 128 then (s i).toUInt32 else (s i).toUInt32 + 0xffffff00
    let b := r.1 * cityC1 + v
    (b, r.2 ^^^ b)) (0, 9)
  fmix (mur b (mur (UInt32.ofNat len) c))

/-- `Hash32Len5to12`. -/
def hash32Len5to12 (s : Mem) (len : ℕ) : UInt32 :=
  let a := UInt32.ofNat len + load32 s 0
  let b := UInt32.ofNat (len * 5) + load32 s (len - 4)
  let c := 9 + load32 s (len / 2 &&& 4)
  let d := UInt32.ofNat (len * 5)
  fmix (mur c (mur b (mur a d)))

/-- The three words that the loop of `CityHash32` turns over. -/
structure CityState where
  h : UInt32
  g : UInt32
  f : UInt32

/-- What `CityHash32` sets up from the last 20 bytes. -/
def cityInit (s : Mem) (len : ℕ) : CityState :=
  let h := UInt32.ofNat len
  let g := cityC1 * UInt32.ofNat len
  let f := g
  let a0 := rotate32 (load32 s (len - 4) * cityC1) 17 * cityC2
  let a1 := rotate32 (load32 s (len - 8) * cityC1) 17 * cityC2
  let a2 := rotate32 (load32 s (len - 16) * cityC1) 17 * cityC2
  let a3 := rotate32 (load32 s (len - 12) * cityC1) 17 * cityC2
  let a4 := rotate32 (load32 s (len - 20) * cityC1) 17 * cityC2
  let h := rotate32 (h ^^^ a0) 19 * 5 + 0xe6546b64
  let h := rotate32 (h ^^^ a2) 19 * 5 + 0xe6546b64
  let g := rotate32 (g ^^^ a1) 19 * 5 + 0xe6546b64
  let g := rotate32 (g ^^^ a3) 19 * 5 + 0xe6546b64
  let f := rotate32 (f + a4) 19 * 5 + 0xe6546b64
  ⟨h, g, f⟩

/-- One round of the loop of `CityHash32` over the 20 bytes at `o`; it ends with
`PERMUTE3(f, h, g)`. -/
def cityRound (s : Mem) (o : ℕ) (r : CityState) : CityState :=
  let a0 := rotate32 (load32 s o * cityC1) 17 * cityC2
  let a1 := load32 s (o + 4)
  let a2 := rotate32 (load32 s (o + 8) * cityC1) 17 * cityC2
  let a3 := rotate32 (load32 s (o + 12) * cityC1) 17 * cityC2
  let a4 := load32 s (o + 16)
  let h := rotate32 (r.h ^^^ a0) 18 * 5 + 0xe6546b64
  let f := rotate32 (r.f + a1) 19 * cityC1
  let g := rotate32 (r.g + a2) 18 * 5 + 0xe6546b64
  let h := rotate32 (h ^^^ (a3 + a1)) 19 * 5 + 0xe6546b64
  let g := bswap32 (g ^^^ a4) * 5
  let h := bswap32 (h + a4 * 5)
  let f := f + a0
  ⟨f, h, g⟩

/-- The state of `CityHash32` after `n` rounds. -/
def cityLoop (s : Mem) (len : ℕ) : ℕ → CityState
  | 0 => cityInit s len
  | i + 1 => cityRound s (20 * i) (cityLoop s len i)

/-- What `CityHash32` returns after its loop. -/
def cityFinal (r : CityState) : UInt32 :=
  let g := rotate32 (rotate32 r.g 11 * cityC1) 17 * cityC1
  let f := rotate32 (rotate32 r.f 11 * cityC1) 17 * cityC1
  let h := rotate32 (r.h + g) 19 * 5 + 0xe6546b64
  let h := rotate32 h 17 * cityC1
  let h := rotate32 (h + f) 19 * 5 + 0xe6546b64
  rotate32 h 17 * cityC1

/-- `CityHash32`. -/
def cityHash32 (s : Mem) (len : ℕ) : UInt32 :=
  if len ≤ 24 then
    if len ≤ 12 then if len ≤ 4 then hash32Len0to4 s len else hash32Len5to12 s len
    else hash32Len13to24 s len
  else cityFinal (cityLoop s len ((len - 1) / 20))

/-- `cityhash32_to_16`. -/
def cityhash32To16 (s : Mem) (len : ℕ) : UInt16 :=
  let data := cityHash32 s len
  ((data &&& (0xffff : UInt32)) ^^^ ((data >>> 16) &&& (0xffff : UInt32))).toUInt16

/-! ### What the hash depends on -/

section

variable {s s' : Mem} {len o n : ℕ}

theorem load32_of_agree (h : Agree s 0 s' 0 len) (ho : o + 4 ≤ len) : load32 s o = load32 s' o := by
  have := h.sub ho
  rw [Nat.zero_add] at this
  exact load32_congr this

theorem cityInit_congr (h : Agree s (len - 20) s' (len - 20) 20) (hlen : 20 ≤ len) :
    cityInit s len = cityInit s' len := by
  have hw : ∀ j, j + 4 ≤ 20 → load32 s (len - 20 + j) = load32 s' (len - 20 + j) :=
    fun j hj => load32_congr (h.sub hj)
  have e0 := hw 0 (by omega)
  have e4 := hw 4 (by omega)
  have e8 := hw 8 (by omega)
  have e12 := hw 12 (by omega)
  have e16 := hw 16 (by omega)
  rw [show len - 20 + 0 = len - 20 by omega] at e0
  rw [show len - 20 + 4 = len - 16 by omega] at e4
  rw [show len - 20 + 8 = len - 12 by omega] at e8
  rw [show len - 20 + 12 = len - 8 by omega] at e12
  rw [show len - 20 + 16 = len - 4 by omega] at e16
  simp only [cityInit, e0, e4, e8, e12, e16]

theorem cityRound_congr (h : Agree s o s' o 20) (r : CityState) :
    cityRound s o r = cityRound s' o r := by
  have hw : ∀ j, j + 4 ≤ 20 → load32 s (o + j) = load32 s' (o + j) :=
    fun j hj => load32_congr (h.sub hj)
  have e0 := hw 0 (by omega)
  rw [Nat.add_zero] at e0
  simp only [cityRound, e0, hw 4 (by omega), hw 8 (by omega), hw 12 (by omega), hw 16 (by omega)]

theorem cityLoop_congr (h : Agree s 0 s' 0 (20 * n))
    (ht : Agree s (len - 20) s' (len - 20) 20) (hlen : 20 ≤ len) :
    cityLoop s len n = cityLoop s' len n := by
  induction n with
  | zero => exact cityInit_congr ht hlen
  | succ n ih =>
    have h20 : Agree s (20 * n) s' (20 * n) 20 := by
      have hs : 20 * n + 20 ≤ 20 * (n + 1) := by omega
      have := h.sub hs
      rwa [Nat.zero_add] at this
    have h0 : Agree s 0 s' 0 (20 * n) := fun i hi => h i (by omega)
    rw [cityLoop, cityLoop, ih h0, cityRound_congr h20]

theorem cityHash32_congr (h : Agree s 0 s' 0 len) : cityHash32 s len = cityHash32 s' len := by
  have hw : ∀ {o}, o + 4 ≤ len → load32 s o = load32 s' o := load32_of_agree h
  unfold cityHash32
  split_ifs with h24 h12 h4
  · have hb : ∀ i ∈ List.range len, s i = s' i := by
      intro i hi
      simpa using h i (List.mem_range.1 hi)
    rw [hash32Len0to4, hash32Len0to4]
    rw [List.foldl_ext _ _ _ fun r i hi => by rw [hb i hi]]
  · have hand : (len / 2 &&& 4) + 4 ≤ len := by
      have h5 : 5 ≤ len := by omega
      interval_cases len <;> decide
    simp only [hash32Len5to12]
    rw [hw (o := 0) (by omega), hw (o := len - 4) (by omega), hw hand]
  · simp only [hash32Len13to24]
    rw [hw (o := len / 2 - 4) (by omega), hw (o := 4) (by omega), hw (o := len - 8) (by omega),
      hw (o := len / 2) (by omega), hw (o := 0) (by omega), hw (o := len - 4) (by omega)]
  · have hs : len - 20 + 20 ≤ len := by omega
    have ht := h.sub hs
    rw [Nat.zero_add] at ht
    rw [cityLoop_congr (fun i hi => h i (by omega)) ht (by omega)]

theorem cityhash32To16_congr (h : Agree s 0 s' 0 len) :
    cityhash32To16 s len = cityhash32To16 s' len := by
  rw [cityhash32To16, cityhash32To16, cityHash32_congr h]

/-! ### Every checksum is taken

The third word of the last round goes into one of the three words of the state only, through
steps that can each be undone. So a page can be given any checksum by a change of four bytes. -/

theorem surjective_mul {c d : UInt32} (h : d * c = 1) : Function.Surjective fun x => x * c := by
  intro y
  refine ⟨y * d, ?_⟩
  show y * d * c = y
  rw [UInt32.mul_assoc, h, UInt32.mul_one]

theorem surjective_add_left (c : UInt32) : Function.Surjective fun x => c + x := by
  intro y
  refine ⟨y - c, ?_⟩
  show c + (y - c) = y
  rw [UInt32.add_comm, UInt32.sub_add_cancel]

theorem surjective_add_right (c : UInt32) : Function.Surjective fun x => x + c :=
  fun y => ⟨y - c, UInt32.sub_add_cancel y c⟩

theorem surjective_xor (c : UInt32) : Function.Surjective fun x => x ^^^ c := by
  intro y
  refine ⟨y ^^^ c, ?_⟩
  show y ^^^ c ^^^ c = y
  rw [UInt32.xor_assoc, UInt32.xor_self, UInt32.xor_zero]

theorem bswap32_bswap32 (x : UInt32) : bswap32 (bswap32 x) = x := by
  apply UInt32.eq_of_toBitVec_eq
  simp only [bswap32, UInt32.toBitVec_or, UInt32.toBitVec_and, UInt32.toBitVec_shiftLeft,
    UInt32.toBitVec_shiftRight]
  generalize x.toBitVec = b
  apply BitVec.eq_of_getLsbD_eq
  intro i hi
  interval_cases i <;> simp

theorem surjective_bswap32 : Function.Surjective bswap32 :=
  fun y => ⟨bswap32 y, bswap32_bswap32 y⟩

theorem surjective_rotate32 {k : ℕ} (hk : k ∈ [11, 17, 18, 19]) :
    Function.Surjective fun x => rotate32 x k := by
  intro y
  refine ⟨rotate32 y (32 - k), ?_⟩
  simp only [List.mem_cons, List.not_mem_nil, or_false] at hk
  apply UInt32.eq_of_toBitVec_eq
  rcases hk with rfl | rfl | rfl | rfl
  all_goals
    simp [rotate32]
    generalize y.toBitVec = b
    apply BitVec.eq_of_getLsbD_eq
    intro i hi
    interval_cases i <;> simp

/-- What `CityHash32` returns, as a function of the third word `w` of the last round: `rest` is
made from the other two words of the state. -/
def cityTail (rest g a4 w : UInt32) : UInt32 :=
  let f := bswap32 ((rotate32 (g + rotate32 (w * cityC1) 17 * cityC2) 18 * 5 + 0xe6546b64) ^^^ a4) * 5
  rotate32 (rotate32 (rest + rotate32 (rotate32 f 11 * cityC1) 17 * cityC1) 19 * 5 + 0xe6546b64) 17
    * cityC1

/-- The part of `cityFinal` that does not use `f`. -/
def cityRest (r : CityState) : UInt32 :=
  rotate32 (rotate32 (r.h + rotate32 (rotate32 r.g 11 * cityC1) 17 * cityC1) 19 * 5 + 0xe6546b64) 17
    * cityC1

theorem cityFinal_cityRound (s : Mem) (o : ℕ) (r : CityState) :
    cityFinal (cityRound s o r) =
      cityTail (cityRest (cityRound s o r)) r.g (load32 s (o + 16)) (load32 s (o + 8)) :=
  rfl

theorem surjective_cityTail (rest g a4 : UInt32) : Function.Surjective (cityTail rest g a4) := by
  have m1 : Function.Surjective fun x : UInt32 => x * cityC1 :=
    surjective_mul (d := 0xdee13bb1) (by decide)
  have m2 : Function.Surjective fun x : UInt32 => x * cityC2 :=
    surjective_mul (d := 0x56ed309b) (by decide)
  have m5 : Function.Surjective fun x : UInt32 => x * 5 :=
    surjective_mul (d := 0xcccccccd) (by decide)
  have r11 := surjective_rotate32 (k := 11) (by decide)
  have r17 := surjective_rotate32 (k := 17) (by decide)
  have r18 := surjective_rotate32 (k := 18) (by decide)
  have r19 := surjective_rotate32 (k := 19) (by decide)
  have ac := surjective_add_right 0xe6546b64
  -- the steps, from the word on
  have f1 := ((surjective_add_left g).comp m2).comp (r17.comp m1)
  have f2 := (surjective_xor a4).comp (ac.comp (m5.comp (r18.comp f1)))
  have f3 := m1.comp (r11.comp (m5.comp (surjective_bswap32.comp f2)))
  have f4 := (surjective_add_left rest).comp (m1.comp (r17.comp f3))
  exact m1.comp (r17.comp (ac.comp (m5.comp (r19.comp f4))))

/-- **A page takes every hash**, by a change of the four bytes at 4068. -/
theorem exists_cityHash32 (page : Mem) (y : UInt32) :
    ∃ page' : Mem, (∀ i, i < 4068 ∨ 4072 ≤ i → page' i = page i) ∧ cityHash32 page' 4096 = y := by
  let r := cityLoop page 4096 203
  obtain ⟨w, hw⟩ := surjective_cityTail (cityRest (cityRound page 4060 r)) r.g
    (load32 page (4060 + 16)) y
  refine ⟨putLe page 4068 4 w.toNat, fun i hi => putLe_out (by omega), ?_⟩
  have hloop : cityLoop (putLe page 4068 4 w.toNat) 4096 203 = r :=
    cityLoop_congr (agree_putLe_out (by omega)) (agree_putLe_out (by omega)) (by omega)
  have hword : ∀ o, o + 4 ≤ 4068 ∨ 4072 ≤ o →
      load32 (putLe page 4068 4 w.toNat) o = load32 page o :=
    fun o ho => load32_congr (agree_putLe_out (by omega))
  have hthird : load32 (putLe page 4068 4 w.toNat) (4060 + 8) = w := by
    rw [load32, le_putLe_of_lt w.toNat_lt, UInt32.ofNat_toNat]
  have hrest : cityRest (cityRound (putLe page 4068 4 w.toNat) 4060 r) =
      cityRest (cityRound page 4060 r) := by
    simp only [cityRest, cityRound]
    rw [hword 4060 (by omega), hword (4060 + 4) (by omega), hword (4060 + 12) (by omega),
      hword (4060 + 16) (by omega)]
  have hhash : cityHash32 (putLe page 4068 4 w.toNat) 4096 =
      cityFinal (cityRound (putLe page 4068 4 w.toNat) 4060
        (cityLoop (putLe page 4068 4 w.toNat) 4096 203)) := rfl
  rw [hhash, hloop, cityFinal_cityRound, hrest, hthird, hword (4060 + 16) (by omega)]
  exact hw

/-- **A page takes every checksum**, by a change of the four bytes at 4068. -/
theorem exists_cityhash32To16 (page : Mem) (c : UInt16) :
    ∃ page' : Mem, (∀ i, i < 4068 ∨ 4072 ≤ i → page' i = page i) ∧
      cityhash32To16 page' 4096 = c := by
  obtain ⟨page', hout, hash⟩ := exists_cityHash32 page c.toUInt32
  refine ⟨page', hout, ?_⟩
  rw [cityhash32To16, hash]
  apply UInt16.eq_of_toBitVec_eq
  simp
  generalize c.toBitVec = b
  apply BitVec.eq_of_getLsbD_eq
  intro i hi
  interval_cases i <;> simp

end

end Artifice
