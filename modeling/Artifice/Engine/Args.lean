import Artifice.Engine.Create

/-!
The arguments of a target (`parse_afs_args` in `dm_afs.c`).

A line is the type of the instance, a passphrase, a device, and options with a value each. The
fields are filled by `strncpy` over cleared memory, with a byte less than there is room for, so that
what is kept of a longer string is its start. The parser accepts the lines of this form that make
sense for their type, and the arguments that it returns are exactly the well-formed ones.
-/

namespace Artifice

open Lib

/-- A string of C: its bytes, without the zero that ends it. -/
@[ext]
structure CString where
  bytes : List UInt8
  nonzero : 0 ∉ bytes
  deriving DecidableEq

/-- The memory that a string points at. -/
def CString.mem (s : CString) : Mem := fun i => s.bytes.getD i 0

/-- The bytes of a literal. -/
def literal (s : String) : List UInt8 := s.toList.map fun c => UInt8.ofNat c.toNat

/-- A decimal digit. -/
def isDecimal (b : UInt8) : Bool := 48 ≤ b && b ≤ 57

/-- `kstrtou8` in base 10: a plus sign or none, digits, and a new line or none; `none` is an
error. -/
def kstrtou8 (s : List UInt8) : Option ℕ :=
  let s := if s.head? = some 43 then s.tail else s
  let digits := s.takeWhile isDecimal
  let rest := s.dropWhile isDecimal
  let value := digits.foldl (fun v d => 10 * v + (d.toNat - 48)) 0
  if digits ≠ [] ∧ value ≤ 255 ∧ (rest = [] ∨ rest = [10]) then some value else none

/-- `struct afs_args`. -/
@[ext]
structure ParsedArgs where
  passphrase : Mem
  shadowPassphrase : Mem
  passiveDev : Mem
  entropyDir : Mem
  instanceType : ℕ

/-- What the constructor uses of them. -/
def ParsedArgs.afsArgs (args : ParsedArgs) : AfsArgs where
  passphrase := args.passphrase
  entropyDir := args.entropyDir
  instanceType :=
    match args.instanceType with
    | 0 => .create
    | 1 => .mount
    | _ => .shadow

/-- The loop of `parse_afs_args` over the options. -/
def parseOptions : List CString → ParsedArgs → Except String ParsedArgs
  | [], args => .ok args
  | opt :: rest, args =>
    if opt.bytes = literal "--entropy" then
      match rest with
      | [] => .error "missing value [entropy source]"
      | value :: rest =>
        parseOptions rest { args with entropyDir := strncpy args.entropyDir 0 value.mem 63 }
    else if opt.bytes = literal "--shadow_passphrase" then
      match rest with
      | [] => .error "missing value [shadow passphrase]"
      | value :: rest =>
        parseOptions rest
          { args with shadowPassphrase := strncpy args.shadowPassphrase 0 value.mem 63 }
    else .error "unknown argument"

/-- The last part of `parse_afs_args`: that the arguments make sense for their type. -/
def checkArgs (args : ParsedArgs) : Except String ParsedArgs :=
  match args.instanceType with
  | 0 =>
    if args.entropyDir 0 = 0 then .error "entropy source not provided"
    else if args.shadowPassphrase 0 ≠ 0 then .error "shadow passphrase provided"
    else .ok args
  | 1 =>
    if args.entropyDir 0 ≠ 0 then .error "entropy source provided"
    else if args.shadowPassphrase 0 ≠ 0 then .error "shadow passphrase provided"
    else .ok args
  | 2 =>
    if args.entropyDir 0 = 0 then .error "entropy source not provided"
    else if args.shadowPassphrase 0 = 0 then .error "shadow passphrase not provided"
    else .ok args
  | _ => .error "unknown type of instance chosen"

/-- `parse_afs_args`: the arguments, or the text of the error; the return code is then `-EINVAL`. -/
def parseAfsArgs (argv : List CString) : Except String ParsedArgs :=
  match argv with
  | type :: passphrase :: disk :: options =>
    match kstrtou8 type.bytes with
    | none => .error "instance type not integer"
    | some instanceType => do
      let args ← parseOptions options {
        passphrase := strncpy (fun _ => 0) 0 passphrase.mem 63
        shadowPassphrase := fun _ => 0
        passiveDev := strncpy (fun _ => 0) 0 disk.mem 31
        entropyDir := fun _ => 0
        instanceType }
      checkArgs args
  | _ => .error "not enough arguments"

/-! ### Lines -/

/-- The options. -/
inductive ArgOption
  | entropy
  | shadowPassphrase
  deriving DecidableEq

/-- The string of an option. -/
def ArgOption.flag : ArgOption → CString
  | .entropy => ⟨literal "--entropy", by decide⟩
  | .shadowPassphrase => ⟨literal "--shadow_passphrase", by decide⟩

/-- The strings of some options with their values. -/
def optionStrings (options : List (ArgOption × CString)) : List CString :=
  options.flatMap fun o => [o.1.flag, o.2]

/-- A line of arguments. -/
structure ArgLine where
  type : CString
  passphrase : CString
  disk : CString
  options : List (ArgOption × CString)

/-- The strings of a line. -/
def ArgLine.argv (line : ArgLine) : List CString :=
  line.type :: line.passphrase :: line.disk :: optionStrings line.options

/-- What a field with room for `n` bytes and a zero keeps of a string. -/
def fieldOf (n : ℕ) (s : CString) : Mem := fun i => (s.bytes.take n).getD i 0

/-- The last value of an option, as its field keeps it; an option that is missing leaves the field
as it was. -/
def lastValue (o : ArgOption) (options : List (ArgOption × CString)) (m : Mem) : Mem :=
  ((options.filter fun p => p.1 = o).getLast?).elim m fun p => fieldOf 63 p.2

/-- The options that the type of the instance asks for are there, and no others. -/
def ParsedArgs.Sensible (args : ParsedArgs) : Prop :=
  args.instanceType = 0 ∧ args.entropyDir 0 ≠ 0 ∧ args.shadowPassphrase 0 = 0 ∨
  args.instanceType = 1 ∧ args.entropyDir 0 = 0 ∧ args.shadowPassphrase 0 = 0 ∨
  args.instanceType = 2 ∧ args.entropyDir 0 ≠ 0 ∧ args.shadowPassphrase 0 ≠ 0

/-- The arguments that a line stands for. -/
structure ArgLine.Denotes (line : ArgLine) (args : ParsedArgs) : Prop where
  type : kstrtou8 line.type.bytes = some args.instanceType
  passphrase : args.passphrase = fieldOf 63 line.passphrase
  passiveDev : args.passiveDev = fieldOf 31 line.disk
  entropyDir : args.entropyDir = lastValue .entropy line.options fun _ => 0
  shadowPassphrase : args.shadowPassphrase =
    lastValue .shadowPassphrase line.options fun _ => 0
  sensible : args.Sensible

/-- The field is a string of at most `n` bytes, and cleared behind it. -/
def HoldsString (n : ℕ) (m : Mem) : Prop := ∃ s : CString, s.bytes.length ≤ n ∧ m = s.mem

/-- Every field holds a string that ends in it, and the options are those that the type asks for. -/
structure ParsedArgs.WellFormed (args : ParsedArgs) : Prop where
  passphrase : HoldsString 63 args.passphrase
  shadowPassphrase : HoldsString 63 args.shadowPassphrase
  passiveDev : HoldsString 31 args.passiveDev
  entropyDir : HoldsString 63 args.entropyDir
  sensible : args.Sensible

section

variable {args args' : ParsedArgs} {n : ℕ} {m : Mem} {s value : CString} {argv : List CString}
  {options : List (ArgOption × CString)} {o : ArgOption} {line : ArgLine}

/-! ### Fields -/

/-- The start of a string is a string. -/
def CString.take (s : CString) (n : ℕ) : CString :=
  ⟨s.bytes.take n, fun h => s.nonzero (List.mem_of_mem_take h)⟩

theorem fieldOf_eq (n : ℕ) (s : CString) : fieldOf n s = (s.take n).mem := rfl

theorem CString.mem_eq_zero_iff (s : CString) (i : ℕ) : s.mem i = 0 ↔ s.bytes.length ≤ i := by
  rw [CString.mem, List.getD_eq_getElem?_getD]
  constructor
  · intro h
    by_contra hlt
    rw [List.getElem?_eq_getElem (Nat.lt_of_not_le hlt), Option.getD_some] at h
    exact s.nonzero (h ▸ List.getElem_mem _)
  · intro h
    rw [List.getElem?_eq_none h, Option.getD_none]

/-- **The copy of a string** over a field that is cleared behind its room. -/
theorem strncpy_field (hm : ∀ i ≥ n, m i = 0) : strncpy m 0 s.mem n = fieldOf n s := by
  funext i
  have htake : fieldOf n s i = if i < n then s.mem i else 0 := by
    rw [fieldOf, CString.mem, List.getD_eq_getElem?_getD, List.getElem?_take,
      List.getD_eq_getElem?_getD]
    split_ifs <;> rfl
  rw [strncpy, htake, Nat.zero_add, Nat.sub_zero]
  by_cases hi : i < n
  · rw [if_pos ⟨Nat.zero_le i, hi⟩, if_pos hi]
    split_ifs with hall
    · rfl
    · -- a zero before `i` ends the string
      simp only [List.all_eq_true, List.mem_range, bne_iff_ne, ne_eq, not_forall,
        not_not] at hall
      obtain ⟨j, hj, h0⟩ := hall
      exact ((s.mem_eq_zero_iff i).2 (((s.mem_eq_zero_iff j).1 h0).trans hj.le)).symm
  · rw [if_neg (fun h => hi h.2), if_neg hi]
    exact hm i (Nat.le_of_not_lt hi)

theorem fieldOf_out (s : CString) {i : ℕ} (hi : n ≤ i) : fieldOf n s i = 0 := by
  rw [fieldOf_eq, CString.mem_eq_zero_iff]
  exact (List.length_take_le n s.bytes).trans hi

theorem holdsString_fieldOf (n : ℕ) (s : CString) : HoldsString n (fieldOf n s) :=
  ⟨s.take n, List.length_take_le n s.bytes, rfl⟩

theorem fieldOf_of_le (h : s.bytes.length ≤ n) : fieldOf n s = s.mem := by
  funext i
  rw [fieldOf, List.take_of_length_le h, CString.mem]

/-! ### Options -/

theorem lastValue_cons_self (o : ArgOption) (value : CString)
    (options : List (ArgOption × CString)) (m : Mem) :
    lastValue o ((o, value) :: options) m = lastValue o options (fieldOf 63 value) := by
  rw [lastValue, lastValue, List.filter_cons_of_pos (by simp), List.getLast?_cons]
  cases (options.filter fun p => p.1 = o).getLast? <;> rfl

theorem lastValue_cons_of_ne {o' : ArgOption} (h : o' ≠ o) (value : CString)
    (options : List (ArgOption × CString)) (m : Mem) :
    lastValue o ((o', value) :: options) m = lastValue o options m := by
  rw [lastValue, lastValue, List.filter_cons_of_neg (by simpa using h)]

theorem lastValue_eq (o : ArgOption) (options : List (ArgOption × CString)) (m : Mem) :
    lastValue o options m = m ∨ ∃ value, lastValue o options m = fieldOf 63 value := by
  rw [lastValue]
  cases (options.filter fun p => p.1 = o).getLast? with
  | none => exact Or.inl rfl
  | some p => exact Or.inr ⟨p.2, rfl⟩

/-- **The loop on the strings of some options.** -/
theorem parseOptions_optionStrings (he : ∀ i ≥ 63, args.entropyDir i = 0)
    (hs : ∀ i ≥ 63, args.shadowPassphrase i = 0) :
    parseOptions (optionStrings options) args = .ok { args with
      entropyDir := lastValue .entropy options args.entropyDir
      shadowPassphrase := lastValue .shadowPassphrase options args.shadowPassphrase } := by
  induction options generalizing args with
  | nil => rfl
  | cons p options ih =>
    obtain ⟨o, value⟩ := p
    rw [show optionStrings ((o, value) :: options) = o.flag :: value :: optionStrings options
      from rfl, parseOptions]
    cases o with
    | entropy =>
      have hrest := @ih { args with entropyDir := fieldOf 63 value }
        (fun i hi => fieldOf_out value hi) hs
      rw [if_pos (by rfl), strncpy_field he, hrest, lastValue_cons_self,
        lastValue_cons_of_ne (by decide)]
    | shadowPassphrase =>
      have hrest := @ih { args with shadowPassphrase := fieldOf 63 value } he
        fun i hi => fieldOf_out value hi
      rw [if_neg (by decide), if_pos (by rfl), strncpy_field hs, hrest, lastValue_cons_self,
        lastValue_cons_of_ne (by decide)]

theorem exists_optionStrings (h : parseOptions argv args = .ok args') :
    ∃ options, optionStrings options = argv := by
  fun_induction parseOptions argv args with
  | case1 args => exact ⟨[], rfl⟩
  | case2 => cases h
  | case3 opt args hopt value rest ih =>
    obtain ⟨options, rfl⟩ := ih h
    have hflag : opt = ArgOption.entropy.flag := CString.ext hopt
    exact ⟨(.entropy, value) :: options, hflag ▸ rfl⟩
  | case4 => cases h
  | case5 opt args _ hopt value rest ih =>
    obtain ⟨options, rfl⟩ := ih h
    have hflag : opt = ArgOption.shadowPassphrase.flag := CString.ext hopt
    exact ⟨(.shadowPassphrase, value) :: options, hflag ▸ rfl⟩
  | case6 => cases h

theorem checkArgs_iff : checkArgs args = .ok args' ↔ args' = args ∧ args.Sensible := by
  obtain ⟨p, s, d, e, type⟩ := args
  by_cases he : e 0 = 0 <;> by_cases hs : s 0 = 0 <;> rcases type with _ | _ | _ | n <;>
    simp [checkArgs, ParsedArgs.Sensible, he, hs, eq_comm]

/-! ### Lines -/

/-- **A line is parsed into what it stands for.** -/
theorem ArgLine.Denotes.parseAfsArgs (h : line.Denotes args) :
    parseAfsArgs line.argv = .ok args := by
  have hfield : ∀ (n : ℕ) (s : CString), strncpy (fun _ => 0) 0 s.mem n = fieldOf n s :=
    fun n s => strncpy_field fun _ _ => rfl
  have hargs : args = ⟨fieldOf 63 line.passphrase,
      lastValue .shadowPassphrase line.options fun _ => 0, fieldOf 31 line.disk,
      lastValue .entropy line.options fun _ => 0, args.instanceType⟩ :=
    ParsedArgs.ext h.passphrase h.shadowPassphrase h.passiveDev h.entropyDir rfl
  simp only [ArgLine.argv, Artifice.parseAfsArgs, h.type, hfield]
  rw [parseOptions_optionStrings (fun _ _ => rfl) fun _ _ => rfl]
  exact checkArgs_iff.2 ⟨hargs, hargs ▸ h.sensible⟩

theorem exists_denotes (h : parseAfsArgs argv = .ok args) :
    ∃ line : ArgLine, line.argv = argv ∧ line.Denotes args := by
  rcases argv with _ | ⟨type, _ | ⟨passphrase, _ | ⟨disk, strings⟩⟩⟩
  · cases h
  · cases h
  · cases h
  rw [parseAfsArgs] at h
  cases htype : kstrtou8 type.bytes with
  | none =>
    rw [htype] at h
    cases h
  | some instanceType =>
    rw [htype] at h
    obtain ⟨args₁, hoptions, hcheck⟩ : ∃ args₁, parseOptions strings
        ⟨strncpy (fun _ => 0) 0 passphrase.mem 63, fun _ => 0,
          strncpy (fun _ => 0) 0 disk.mem 31, fun _ => 0, instanceType⟩ = .ok args₁ ∧
        checkArgs args₁ = .ok args := by
      cases hoptions : parseOptions strings
        ⟨strncpy (fun _ => 0) 0 passphrase.mem 63, fun _ => 0,
          strncpy (fun _ => 0) 0 disk.mem 31, fun _ => 0, instanceType⟩ with
      | error e =>
        simp only [hoptions] at h
        cases h
      | ok args₁ =>
        simp only [hoptions] at h
        exact ⟨args₁, rfl, h⟩
    obtain ⟨options, rfl⟩ := exists_optionStrings hoptions
    rw [parseOptions_optionStrings (fun _ _ => rfl) fun _ _ => rfl] at hoptions
    cases hoptions
    obtain ⟨rfl, hsensible⟩ := checkArgs_iff.1 hcheck
    exact ⟨⟨type, passphrase, disk, options⟩, rfl, htype, strncpy_field fun _ _ => rfl,
      strncpy_field fun _ _ => rfl, rfl, rfl, hsensible⟩

/-- The digit of a type. -/
def typeString (instanceType : Fin 3) : CString :=
  ⟨[48 + UInt8.ofNat instanceType], by revert instanceType; decide⟩

theorem kstrtou8_typeString (instanceType : Fin 3) :
    kstrtou8 (typeString instanceType).bytes = some instanceType.1 := by
  revert instanceType
  decide

theorem ParsedArgs.Sensible.instanceType_lt (h : args.Sensible) : args.instanceType < 3 := by
  rcases h with ⟨h, -⟩ | ⟨h, -⟩ | ⟨h, -⟩ <;> omega

theorem holdsString_lastValue (o : ArgOption) (options : List (ArgOption × CString)) :
    HoldsString 63 (lastValue o options fun _ => 0) := by
  obtain h | ⟨value, h⟩ := lastValue_eq o options fun _ => 0
  · rw [h]
    exact ⟨⟨[], List.not_mem_nil⟩, Nat.zero_le _, rfl⟩
  · rw [h]
    exact holdsString_fieldOf 63 value

theorem ArgLine.Denotes.wellFormed (h : line.Denotes args) : args.WellFormed where
  passphrase := by
    rw [h.passphrase]
    exact holdsString_fieldOf _ _
  shadowPassphrase := by
    rw [h.shadowPassphrase]
    exact holdsString_lastValue _ _
  passiveDev := by
    rw [h.passiveDev]
    exact holdsString_fieldOf _ _
  entropyDir := by
    rw [h.entropyDir]
    exact holdsString_lastValue _ _
  sensible := h.sensible

/-- **Some line stands for any well-formed arguments.** -/
theorem ParsedArgs.WellFormed.exists_line (h : args.WellFormed) :
    ∃ line : ArgLine, line.Denotes args := by
  obtain ⟨⟨p, hplen, hp⟩, ⟨s, hslen, hs⟩, ⟨d, hdlen, hd⟩, ⟨e, helen, he⟩, hsensible⟩ := h
  refine ⟨⟨typeString ⟨args.instanceType, hsensible.instanceType_lt⟩, p, d,
    [(.entropy, e), (.shadowPassphrase, s)]⟩, kstrtou8_typeString _, ?_, ?_, ?_, ?_, hsensible⟩
  · rw [fieldOf_of_le hplen, hp]
  · rw [fieldOf_of_le hdlen, hd]
  · rw [lastValue_cons_self, lastValue_cons_of_ne (by decide), fieldOf_of_le helen, he]
    rfl
  · rw [lastValue_cons_of_ne (by decide), lastValue_cons_self, fieldOf_of_le hslen, hs]
    rfl

end

/-- **What `parse_afs_args` accepts, and what it returns.** It accepts exactly the strings of a line,
which are a type, a passphrase, a device and options with a value each, where the options are those
that the type asks for; a field is then the start of its string, and that of an option the start of
its last value. What it returns are exactly the records whose fields hold strings that end in them,
with the options of their type. -/
theorem parseAfsArgs_iff :
    (∀ argv args, parseAfsArgs argv = .ok args ↔
      ∃ line : ArgLine, line.argv = argv ∧ line.Denotes args) ∧
    ∀ args, (∃ argv, parseAfsArgs argv = .ok args) ↔ args.WellFormed := by
  refine ⟨fun argv args => ⟨exists_denotes, ?_⟩, fun args => ⟨?_, fun h => ?_⟩⟩
  · rintro ⟨line, rfl, h⟩
    exact h.parseAfsArgs
  · rintro ⟨argv, h⟩
    obtain ⟨line, -, hline⟩ := exists_denotes h
    exact hline.wellFormed
  · obtain ⟨line, hline⟩ := h.exists_line
    exact ⟨line.argv, hline.parseAfsArgs⟩

end Artifice
