import Mathlib.Data.BitVec
import Mathlib.Data.List.TakeWhile

/-!
# Numbers from strings (`io.c`)

A C string is the list of its characters, and `none` is the null pointer. `long` has
64 bits, and the locale is "C".
-/

namespace AwsFpga.Utils

abbrev CString : Type := List Char

def INT64_MIN : Int := -2 ^ 63
def INT64_MAX : Int := 2 ^ 63 - 1
def UINT64_MAX : Int := 2 ^ 64 - 1
def INT_MIN : Int := -2 ^ 31
def INT_MAX : Int := 2 ^ 31 - 1
def UINT_MAX : Int := 2 ^ 32 - 1

/-! ## The C library -/

def isspace (c : Char) : Bool := c = ' ' || ('\t' ≤ c && c ≤ '\r')

/-- The value of a digit. It is 36 for what is not a digit in any base. -/
def digit_value (c : Char) : Nat :=
  if '0' ≤ c ∧ c ≤ '9' then c.toNat - '0'.toNat
  else if 'a' ≤ c ∧ c ≤ 'z' then c.toNat - 'a'.toNat + 10
  else if 'A' ≤ c ∧ c ≤ 'Z' then c.toNat - 'A'.toNat + 10
  else 36

def is_digit (base : Nat) (c : Char) : Bool := digit_value c < base

def digits_value (base : Nat) (digits : List Char) : Nat :=
  digits.foldl (fun value c => base * value + digit_value c) 0

def is_x (c : Char) : Bool := c = 'x' || c = 'X'

def read_sign : CString → Bool × CString
  | '-' :: str => (true, str)
  | '+' :: str => (false, str)
  | str => (false, str)

/-- The prefix of base 0. A `0x` without a digit behind it is the octal 0. -/
def read_base : CString → Nat × CString
  | '0' :: x :: c :: str => if is_x x && is_digit 16 c then (16, c :: str) else (8, '0' :: x :: c :: str)
  | '0' :: str => (8, '0' :: str)
  | str => (10, str)

structure Conversion where
  negative : Bool
  magnitude : Nat
  end_ptr : CString
  deriving DecidableEq

/-- What `strtoll` and `strtoull` read in base 0. Without a digit there is no conversion. -/
def strto (str : CString) : Option Conversion :=
  let (negative, str) := read_sign (str.dropWhile isspace)
  let (base, str) := read_base str
  if str.takeWhile (is_digit base) = [] then none
  else
    some ⟨negative, digits_value base (str.takeWhile (is_digit base)), str.dropWhile (is_digit base)⟩

/-- The value, the rest of the string, and whether `errno` was set. -/
abbrev Converted : Type := Int × CString × Bool

def Conversion.value (c : Conversion) : Int := if c.negative then -c.magnitude else c.magnitude

def strtoll (str : CString) : Converted :=
  match strto str with
  | none => (0, str, false)
  | some c =>
    if INT64_MAX < c.value then (INT64_MAX, c.end_ptr, true)
    else if c.value < INT64_MIN then (INT64_MIN, c.end_ptr, true)
    else (c.value, c.end_ptr, false)

def strtol (str : CString) : Converted := strtoll str

/-- A minus sign negates the value in the type that is returned. -/
def strtoull (str : CString) : Converted :=
  match strto str with
  | none => (0, str, false)
  | some c =>
    if UINT64_MAX < c.magnitude then (UINT64_MAX, c.end_ptr, true)
    else (c.value % 2 ^ 64, c.end_ptr, false)

/-! ## The functions

They answer what they return and what `*num` is then. -/

/-- The body of the four functions: `conv` reads the string, and a value that is not `ok` is
refused. -/
def string_to (conv : CString → Converted) (ok : Int → Bool) (str : Option CString) (num : Int) :
    Int × Int :=
  match str with
  | none => (-1, num)
  | some [] => (-1, num)
  | some str =>
    let (val, end_ptr, errno) := conv str
    if end_ptr ≠ [] then (-1, num)
    else if errno then (-1, num)
    else if !ok val then (-1, num)
    else (0, val)

def string_to_int64 : Option CString → Int → Int × Int := string_to strtoll fun _ => true

def string_to_uint64 : Option CString → Int → Int × Int := string_to strtoull fun _ => true

def string_to_int : Option CString → Int → Int × Int :=
  string_to strtol fun val => !(INT_MAX < val || val < INT_MIN)

def string_to_uint : Option CString → Int → Int × Int :=
  string_to strtol fun val => !(UINT_MAX < val || val < 0)

/-! ## Numerals -/

/-- A numeral without its sign. -/
inductive Magnitude : CString → Nat → Prop
  | decimal (c : Char) (digits : List Char) (first : c ≠ '0')
      (all : ∀ d ∈ c :: digits, is_digit 10 d) : Magnitude (c :: digits) (digits_value 10 (c :: digits))
  | octal (digits : List Char) (all : ∀ d ∈ digits, is_digit 8 d) :
      Magnitude ('0' :: digits) (digits_value 8 digits)
  | hex (x c : Char) (digits : List Char) (mark : is_x x) (all : ∀ d ∈ c :: digits, is_digit 16 d) :
      Magnitude ('0' :: x :: c :: digits) (digits_value 16 (c :: digits))

inductive Signed : CString → Int → Prop
  | none (str : CString) (m : Nat) (h : Magnitude str m) : Signed str m
  | plus (str : CString) (m : Nat) (h : Magnitude str m) : Signed ('+' :: str) m
  | minus (str : CString) (m : Nat) (h : Magnitude str m) : Signed ('-' :: str) (-m)

/-- The string is a numeral for `v`, with white space before it at most. -/
def Numeral (str : CString) (v : Int) : Prop :=
  ∃ spaces number, str = spaces ++ number ∧ (∀ c ∈ spaces, isspace c) ∧ Signed number v

theorem magnitude_head {str : CString} {m : Nat} (h : Magnitude str m) :
    ∃ c rest, str = c :: rest ∧ is_digit 10 c := by
  cases h with
  | decimal c digits first all => exact ⟨c, digits, rfl, all c (by simp)⟩
  | octal digits all => exact ⟨'0', digits, rfl, by decide⟩
  | hex x c digits mark all => exact ⟨'0', x :: c :: digits, rfl, by decide⟩

theorem digits_value_zero (base : Nat) (digits : List Char) :
    digits_value base ('0' :: digits) = digits_value base digits := rfl

theorem read_base_eq {str : CString} {m : Nat} (h : Magnitude str m) :
    ∃ base digits, read_base str = (base, digits) ∧ digits ≠ [] ∧
      (∀ d ∈ digits, is_digit base d) ∧ digits_value base digits = m := by
  cases h with
  | decimal c digits first all =>
    refine ⟨10, c :: digits, ?_, by simp, all, rfl⟩
    unfold read_base
    split
    · rename_i heq
      exact absurd (List.cons.inj heq).1 first
    · rename_i heq
      exact absurd (List.cons.inj heq).1 first
    · rfl
  | octal digits all =>
    refine ⟨8, '0' :: digits, ?_, by simp, ?_, digits_value_zero 8 digits⟩
    · match digits, all with
      | [], _ => rfl
      | [x], _ => rfl
      | x :: c :: digits, all =>
        have hx := all x (by simp)
        have hnot : is_x x = false := by
          by_contra hmark
          rw [Bool.not_eq_false, is_x, Bool.or_eq_true, decide_eq_true_eq, decide_eq_true_eq] at hmark
          rcases hmark with rfl | rfl
          · exact absurd hx (by decide)
          · exact absurd hx (by decide)
        simp [read_base, hnot]
    · intro d hd
      rcases List.mem_cons.mp hd with rfl | hd
      · decide
      · exact all d hd
  | hex x c digits mark all =>
    refine ⟨16, c :: digits, ?_, by simp, all, rfl⟩
    have hc := all c (by simp)
    simp [read_base, mark, hc]

theorem read_sign_digit {c : Char} {str : CString} (h : is_digit 10 c) :
    read_sign (c :: str) = (false, c :: str) := by
  have hminus : c ≠ '-' := by
    rintro rfl
    exact absurd h (by decide)
  have hplus : c ≠ '+' := by
    rintro rfl
    exact absurd h (by decide)
  unfold read_sign
  split
  · rename_i heq
    exact absurd (List.cons.inj heq).1 hminus
  · rename_i heq
    exact absurd (List.cons.inj heq).1 hplus
  · rfl

theorem not_space_of_digit {c : Char} (h : is_digit 10 c) : isspace c = false := by
  by_contra hspace
  rw [Bool.not_eq_false, isspace, Bool.or_eq_true, decide_eq_true_eq, Bool.and_eq_true,
    decide_eq_true_eq, decide_eq_true_eq] at hspace
  rw [is_digit, decide_eq_true_eq, digit_value] at h
  rcases hspace with rfl | ⟨-, hle⟩
  · exact absurd h (by decide)
  · have h9 : c.toNat ≤ 13 := hle
    have h0 : ¬('0' ≤ c) := fun hge => by
      have h48 : 48 ≤ c.toNat := hge
      omega
    have ha : ¬('a' ≤ c) := fun hge => by
      have h97 : 97 ≤ c.toNat := hge
      omega
    have hA : ¬('A' ≤ c) := fun hge => by
      have h65 : 65 ≤ c.toNat := hge
      omega
    rw [if_neg (fun hc => h0 hc.1), if_neg (fun hc => ha hc.1), if_neg (fun hc => hA hc.1)] at h
    omega

theorem signed_head {str : CString} {v : Int} (h : Signed str v) :
    ∃ c rest, str = c :: rest ∧ isspace c = false := by
  cases h with
  | none str m h =>
    obtain ⟨c, rest, rfl, hc⟩ := magnitude_head h
    exact ⟨c, rest, rfl, not_space_of_digit hc⟩
  | plus str m h => exact ⟨'+', str, rfl, by decide⟩
  | minus str m h => exact ⟨'-', str, rfl, by decide⟩

theorem read_sign_eq {str : CString} {v : Int} (h : Signed str v) :
    ∃ negative body m, read_sign str = (negative, body) ∧ Magnitude body m ∧
      v = if negative then -(m : Int) else m := by
  cases h with
  | none str m h =>
    obtain ⟨c, rest, rfl, hc⟩ := magnitude_head h
    exact ⟨false, c :: rest, m, read_sign_digit hc, h, rfl⟩
  | plus str m h => exact ⟨false, str, m, rfl, h, rfl⟩
  | minus str m h => exact ⟨true, str, m, rfl, h, rfl⟩

theorem strto_of_numeral {str : CString} {v : Int} (h : Numeral str v) :
    ∃ c, strto str = some c ∧ c.end_ptr = [] ∧ c.value = v := by
  obtain ⟨spaces, number, rfl, hspaces, hsigned⟩ := h
  obtain ⟨c, rest, hnumber, hc⟩ := signed_head hsigned
  have hdrop : (spaces ++ number).dropWhile isspace = number := by
    rw [List.dropWhile_append_of_pos hspaces, hnumber, List.dropWhile_cons_of_neg (by simp [hc])]
  obtain ⟨negative, body, m, hsign, hbody, hv⟩ := read_sign_eq hsigned
  obtain ⟨base, digits, hbase, hne, hall, hm⟩ := read_base_eq hbody
  have htake : digits.takeWhile (is_digit base) = digits := List.takeWhile_eq_self_iff.mpr hall
  have hrest : digits.dropWhile (is_digit base) = [] := List.dropWhile_eq_nil_iff.mpr hall
  refine ⟨⟨negative, m, []⟩, ?_, rfl, hv.symm⟩
  unfold strto
  rw [hdrop]
  simp only [hsign, hbase]
  rw [htake, hrest, if_neg hne, hm]

theorem magnitude_of_read_base {body digits : CString} {base : Nat}
    (hbase : read_base body = (base, digits)) (hne : digits ≠ [])
    (hall : ∀ d ∈ digits, is_digit base d) : Magnitude body (digits_value base digits) := by
  unfold read_base at hbase
  split at hbase
  · rename_i x c str
    split at hbase
    case isTrue hmark =>
      rw [Bool.and_eq_true] at hmark
      cases hbase
      exact .hex x c str hmark.1 hall
    case isFalse =>
      cases hbase
      rw [digits_value_zero]
      exact .octal (x :: c :: str) fun d hd => hall d (List.mem_cons_of_mem _ hd)
  · rename_i str _
    cases hbase
    rw [digits_value_zero]
    exact .octal str fun d hd => hall d (List.mem_cons_of_mem _ hd)
  · rename_i hnot
    cases hbase
    cases body with
    | nil => exact absurd rfl hne
    | cons c str =>
      refine .decimal c str ?_ hall
      rintro rfl
      exact hnot str rfl

theorem numeral_of_strto {str : CString} {c : Conversion} (h : strto str = some c)
    (hend : c.end_ptr = []) : Numeral str c.value := by
  unfold strto at h
  rcases hsign : read_sign (str.dropWhile isspace) with ⟨negative, body⟩
  rcases hbase : read_base body with ⟨base, digits⟩
  simp only [hsign, hbase] at h
  split at h
  · cases h
  · rename_i hne
    cases h
    dsimp only at hend
    have hall := List.dropWhile_eq_nil_iff.mp hend
    have htake : digits.takeWhile (is_digit base) = digits := List.takeWhile_eq_self_iff.mpr hall
    rw [htake] at hne
    have hbody := magnitude_of_read_base hbase hne hall
    refine ⟨str.takeWhile isspace, str.dropWhile isspace, List.takeWhile_append_dropWhile.symm,
      fun c hc => List.mem_takeWhile_imp hc, ?_⟩
    unfold Conversion.value
    dsimp only
    rw [htake]
    unfold read_sign at hsign
    split at hsign
    · rename_i hstr
      cases hsign
      rw [hstr]
      exact .minus _ _ hbody
    · rename_i hstr
      cases hsign
      rw [hstr]
      exact .plus _ _ hbody
    · cases hsign
      exact .none _ _ hbody

/-! ## What the functions accept -/

/-- What a function promises that reads a number from `lo` to `hi`. -/
def Parses (lo hi : Int) (str : Option CString) (parse : Option CString → Int → Int × Int) : Prop :=
  ∀ num, (∃ s v, str = some s ∧ Numeral s v ∧ lo ≤ v ∧ v ≤ hi ∧ parse str num = (0, v)) ∨
    ((∀ s v, str = some s → Numeral s v → ¬(lo ≤ v ∧ v ≤ hi)) ∧ parse str num = (-1, num))

theorem strto_nil : strto [] = none := rfl

theorem not_numeral {s : CString} (h : strto s = none) (v : Int) : ¬Numeral s v := by
  intro hnum
  obtain ⟨c, hc, -⟩ := strto_of_numeral hnum
  rw [h] at hc
  cases hc

theorem value_unique {s : CString} {c : Conversion} (h : strto s = some c) {v : Int}
    (hv : Numeral s v) : c.end_ptr = [] ∧ c.value = v := by
  obtain ⟨c', hc', hend, hval⟩ := strto_of_numeral hv
  rw [h, Option.some.injEq] at hc'
  rw [hc']
  exact ⟨hend, hval⟩

/-- How `conv` reports what `strto` reads: of a value between `lo` and `hi`, and of no other, `errno`
and `ok` tell nothing, and it is returned. -/
structure Reports (conv : CString → Converted) (ok : Int → Bool) (lo hi : Int) (c : Conversion)
    (s : CString) : Prop where
  refused : (conv s).2.2 = true ∨ ok (conv s).1 = false ↔ ¬(lo ≤ c.value ∧ c.value ≤ hi)
  exact : (conv s).2.2 = false → ok (conv s).1 = true → (conv s).1 = c.value

theorem parses_of_reports {conv : CString → Converted} {ok : Int → Bool} {lo hi : Int}
    {str : Option CString} (hnone : ∀ s, strto s = none → conv s = (0, s, false))
    (hsome : ∀ s c, str = some s → strto s = some c → c.end_ptr = [] → Reports conv ok lo hi c s)
    (hend : ∀ s c, strto s = some c → (conv s).2.1 = c.end_ptr) :
    Parses lo hi str (string_to conv ok) := by
  intro num
  match str with
  | none => exact .inr ⟨nofun, rfl⟩
  | some [] =>
    refine .inr ⟨fun s v hs hv => ?_, rfl⟩
    cases hs
    exact absurd hv (not_numeral strto_nil v)
  | some (a :: s) =>
    have hstring : string_to conv ok (some (a :: s)) num =
        if (conv (a :: s)).2.1 ≠ [] then (-1, num)
        else if (conv (a :: s)).2.2 then (-1, num)
        else if !ok (conv (a :: s)).1 then (-1, num)
        else (0, (conv (a :: s)).1) := rfl
    rw [hstring]
    cases hstrto : strto (a :: s) with
    | none =>
      refine .inr ⟨fun s' v hs hv => ?_, ?_⟩
      · cases hs
        exact absurd hv (not_numeral hstrto v)
      · rw [hnone _ hstrto, if_pos (by simp)]
    | some c =>
      rw [hend _ c hstrto]
      by_cases hnil : c.end_ptr = []
      · have hreport := hsome _ c rfl hstrto hnil
        have hnum := numeral_of_strto hstrto hnil
        rw [if_neg (not_not.mpr hnil)]
        by_cases hrange : lo ≤ c.value ∧ c.value ≤ hi
        · have hnot := mt hreport.refused.mp (not_not.mpr hrange)
          rw [not_or, Bool.not_eq_true, Bool.not_eq_false] at hnot
          refine .inl ⟨a :: s, c.value, rfl, hnum, hrange.1, hrange.2, ?_⟩
          rw [hnot.1, hnot.2, hreport.exact hnot.1 hnot.2]
          rfl
        · refine .inr ⟨fun s' v hs hv => ?_, ?_⟩
          · cases hs
            rw [← (value_unique hstrto hv).2]
            exact hrange
          · rcases hreport.refused.mpr hrange with herrno | hok
            · rw [herrno]
              rfl
            · rw [hok]
              simp
      · refine .inr ⟨fun s' v hs hv => ?_, if_pos hnil⟩
        cases hs
        exact absurd (value_unique hstrto hv).1 hnil

theorem strtoll_none {s : CString} (h : strto s = none) : strtoll s = (0, s, false) := by
  rw [strtoll, h]

theorem strtoull_none {s : CString} (h : strto s = none) : strtoull s = (0, s, false) := by
  rw [strtoull, h]

theorem strtoll_some {s : CString} {c : Conversion} (h : strto s = some c) :
    strtoll s = if INT64_MAX < c.value then (INT64_MAX, c.end_ptr, true)
      else if c.value < INT64_MIN then (INT64_MIN, c.end_ptr, true)
      else (c.value, c.end_ptr, false) := by
  rw [strtoll, h]

theorem strtoull_some {s : CString} {c : Conversion} (h : strto s = some c) :
    strtoull s = if UINT64_MAX < c.magnitude then (UINT64_MAX, c.end_ptr, true)
      else (c.value % 2 ^ 64, c.end_ptr, false) := by
  rw [strtoull, h]

theorem strtoll_end {s : CString} {c : Conversion} (h : strto s = some c) :
    (strtoll s).2.1 = c.end_ptr := by
  rw [strtoll_some h]
  split
  · rfl
  · split <;> rfl

theorem strtoull_end {s : CString} {c : Conversion} (h : strto s = some c) :
    (strtoull s).2.1 = c.end_ptr := by
  rw [strtoull_some h]
  split <;> rfl

theorem reports_strtoll {s : CString} {c : Conversion} {ok : Int → Bool} {lo hi : Int}
    (h : strto s = some c) (hlo : INT64_MIN ≤ lo) (hhi : hi ≤ INT64_MAX)
    (hok : ∀ v, INT64_MIN ≤ v → v ≤ INT64_MAX → (ok v = true ↔ lo ≤ v ∧ v ≤ hi)) :
    Reports strtoll ok lo hi c s := by
  refine ⟨?_, ?_⟩
  · rw [strtoll_some h]
    split
    · simp only [true_or, true_iff]
      omega
    · split
      · simp only [true_or, true_iff]
        omega
      · rename_i hmax hmin
        have hiff := hok c.value (by omega) (by omega)
        rw [← Bool.not_eq_true, hiff]
        simp
  · rw [strtoll_some h]
    split
    · simp
    · split
      · simp
      · simp

theorem string_to_int64_parses (str : Option CString) :
    Parses INT64_MIN INT64_MAX str string_to_int64 := by
  refine parses_of_reports (fun s => strtoll_none) (fun s c _ hc _ => ?_) fun s c => strtoll_end
  refine reports_strtoll hc (Int.le_refl _) (Int.le_refl _) fun v hmin hmax => ?_
  simp [hmin, hmax]

theorem string_to_int_parses (str : Option CString) :
    Parses INT_MIN INT_MAX str string_to_int := by
  refine parses_of_reports (fun s => strtoll_none) (fun s c _ hc _ => ?_) fun s c => strtoll_end
  refine reports_strtoll hc (by decide) (by decide) fun v _ _ => ?_
  rw [Bool.not_eq_true', Bool.or_eq_false_iff, decide_eq_false_iff_not, decide_eq_false_iff_not]
  omega

theorem string_to_uint_parses (str : Option CString) :
    Parses 0 UINT_MAX str string_to_uint := by
  refine parses_of_reports (fun s => strtoll_none) (fun s c _ hc _ => ?_) fun s c => strtoll_end
  refine reports_strtoll hc (by decide) (by decide) fun v _ _ => ?_
  rw [Bool.not_eq_true', Bool.or_eq_false_iff, decide_eq_false_iff_not, decide_eq_false_iff_not]
  omega

/-- A numeral below 0 whose magnitude fits into 64 bits. -/
def NegativeNumeral (str : Option CString) : Prop :=
  ∃ s v, str = some s ∧ Numeral s v ∧ -UINT64_MAX ≤ v ∧ v < 0

theorem value_cases (c : Conversion) :
    c.negative = true ∧ c.value = -c.magnitude ∨ c.negative = false ∧ c.value = c.magnitude := by
  unfold Conversion.value
  cases c.negative with
  | true => exact .inl ⟨rfl, rfl⟩
  | false => exact .inr ⟨rfl, rfl⟩

theorem string_to_uint64_parses {str : Option CString} (h : ¬NegativeNumeral str) :
    Parses 0 UINT64_MAX str string_to_uint64 := by
  refine parses_of_reports (fun s => strtoull_none) (fun s c hs hc hend => ?_) fun s c => strtoull_end
  have hnot : ¬(-UINT64_MAX ≤ c.value ∧ c.value < 0) := fun hneg =>
    h ⟨s, c.value, hs, numeral_of_strto hc hend, hneg.1, hneg.2⟩
  have hmax : UINT64_MAX = 2 ^ 64 - 1 := rfl
  have hval := value_cases c
  refine ⟨?_, ?_⟩
  · rw [strtoull_some hc]
    split
    · simp only [true_or, true_iff]
      omega
    · simp only [Bool.false_eq_true, Bool.true_eq_false, or_self, false_iff, not_not]
      omega
  · rw [strtoull_some hc]
    split
    · simp
    · intro _ _
      dsimp only
      omega

theorem string_to_uint64_negative {str : Option CString} (h : NegativeNumeral str) :
    ¬Parses 0 UINT64_MAX str string_to_uint64 := by
  obtain ⟨s, v, rfl, hnum, hmin, hneg⟩ := h
  obtain ⟨c, hc, hend, hval⟩ := strto_of_numeral hnum
  intro hparses
  have hmax : UINT64_MAX = 2 ^ 64 - 1 := rfl
  have hcases := value_cases c
  have hconv : strtoull s = (v % 2 ^ 64, [], false) := by
    rw [strtoull_some hc, if_neg (by omega), hend, hval]
  have hret : (string_to_uint64 (some s) 0).1 = 0 := by
    cases s with
    | nil =>
      rw [strto_nil] at hc
      cases hc
    | cons a s =>
      simp [string_to_uint64, string_to, hconv]
  rcases hparses 0 with ⟨s', v', hs, hnum', hlo, -, -⟩ | ⟨-, hfail⟩
  · cases hs
    rw [← (value_unique hc hnum').2, hval] at hlo
    omega
  · rw [hfail] at hret
    cases hret

/-- The four functions take the numerals of their type, apart from what `string_to_uint64` makes of
a minus sign. -/
theorem string_to_sound_iff (str : Option CString) :
    (Parses INT64_MIN INT64_MAX str string_to_int64 ∧ Parses 0 UINT64_MAX str string_to_uint64 ∧
        Parses INT_MIN INT_MAX str string_to_int ∧ Parses 0 UINT_MAX str string_to_uint) ↔
      ¬NegativeNumeral str := by
  constructor
  · rintro ⟨-, huint64, -, -⟩ hneg
    exact string_to_uint64_negative hneg huint64
  · intro h
    exact ⟨string_to_int64_parses str, string_to_uint64_parses h, string_to_int_parses str,
      string_to_uint_parses str⟩

example : string_to_int (some "0x1f".toList) 7 = (0, 31) := by decide

theorem minus_one_parses : ¬∀ str : Option CString, Parses 0 UINT64_MAX str string_to_uint64 := by
  intro h
  refine string_to_uint64_negative ⟨['-', '1'], -1, rfl, ?_, by decide, by decide⟩ (h _)
  have hdigits : ∀ d ∈ ['1'], is_digit 10 d := List.forall_mem_singleton.mpr (by decide)
  exact ⟨[], ['-', '1'], rfl, nofun, .minus ['1'] 1 (.decimal '1' [] (by decide) hdigits)⟩

end AwsFpga.Utils
