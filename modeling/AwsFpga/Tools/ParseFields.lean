import AwsFpga.Tools.Parse

/-!
# Options and fields (`fpga_local_cmd_parse.c`)

A parser that returns 0 is expected to have put the number of the last argument of each
option into its field, and to have seen no argument that is no number for its field.
-/

namespace AwsFpga.Tools

open Utils

/-! ## Numbers -/

/-- An argument that `string_to_uint` converts. -/
def Converts (arg : CString) : Prop := ∃ v, Numeral arg v ∧ 0 ≤ v ∧ v ≤ UINT_MAX

/-- What is converted of it lies between `lo` and `hi`. -/
def InRange (lo hi : Int) (arg : CString) : Prop :=
  ∀ v, Numeral arg v → 0 ≤ v → v ≤ UINT_MAX → lo ≤ v ∧ v ≤ hi

theorem numeral_unique {arg : CString} {v v' : Int} (h : Numeral arg v) (h' : Numeral arg v') :
    v = v' := by
  obtain ⟨c, hc, -, hval⟩ := strto_of_numeral h
  rw [← hval]
  exact (value_unique hc h').2

theorem converted_of_numeral {arg : CString} {v : Int} (h : Numeral arg v) (hlo : 0 ≤ v)
    (hhi : v ≤ UINT_MAX) (num : Int) : converted arg num = v := by
  unfold converted
  rcases string_to_uint_parses (some arg) num with ⟨s, v', hs, hnum, -, -, hret⟩ | ⟨hnot, -⟩
  · cases hs
    rw [hret]
    exact numeral_unique hnum h
  · exact absurd ⟨hlo, hhi⟩ (hnot arg v rfl h)

theorem converted_of_not {arg : CString} (h : ¬Converts arg) (num : Int) : converted arg num = num := by
  unfold converted
  rcases string_to_uint_parses (some arg) num with ⟨s, v, hs, hnum, hlo, hhi, -⟩ | ⟨-, hret⟩
  · cases hs
    exact absurd ⟨v, hnum, hlo, hhi⟩ h
  · rw [hret]

/-! ## Options and their fields -/

/-- The arguments given to an option. -/
def args (o : Char) (opts : List Opt) : List CString :=
  (opts.filter fun opt => opt.opt = o).map Opt.optarg

/-- What is expected of a field `x` that option `o` fills: each argument is a numeral between `lo` and
`hi`, and the field has the value of the last one. -/
structure Field (opts : List Opt) (o : Char) (lo hi : Int) (value : Int → Int) (dflt x : Int) : Prop where
  numerals : ∀ arg ∈ args o opts, ∃ v, Numeral arg v ∧ lo ≤ v ∧ v ≤ hi
  last : match (args o opts).getLast? with
    | none => x = dflt
    | some arg => ∃ v, Numeral arg v ∧ x = value v

section Options

variable {o : Char} {opts : List Opt}

theorem args_cons_eq {opt : Opt} (h : opt.opt = o) :
    args o (opt :: opts) = opt.optarg :: args o opts := by
  simp [args, h]

theorem args_cons_ne {opt : Opt} (h : opt.opt ≠ o) : args o (opt :: opts) = args o opts := by
  simp [args, h]

theorem mem_args {arg : CString} : arg ∈ args o opts ↔ ∃ opt ∈ opts, opt.opt = o ∧ opt.optarg = arg := by
  simp [args, and_assoc]

theorem converts_of_field {lo hi : Int} {value : Int → Int} {dflt x : Int}
    (h : Field opts o lo hi value dflt x) (hlo : 0 ≤ lo) (hhi : hi ≤ UINT_MAX) {arg : CString}
    (harg : arg ∈ args o opts) : Converts arg := by
  obtain ⟨v, hnum, hmin, hmax⟩ := h.numerals arg harg
  exact ⟨v, hnum, by omega, by omega⟩

variable {σ α : Type} {switch : Nat → Opt → σ → σ × Bool}

theorem parse_loop_each (P : Opt → Prop) (hstep : ∀ k opt s, (switch k opt s).2 → P opt) {k : Nat}
    {s : σ} (hdone : (parse_loop switch k opts s).2) : ∀ opt ∈ opts, P opt := by
  induction opts generalizing k s with
  | nil => exact nofun
  | cons opt opts ih =>
    rw [parse_loop_cons] at hdone
    split at hdone
    case isTrue htaken => exact List.forall_mem_cons.mpr ⟨hstep k opt s htaken, ih hdone⟩
    case isFalse => cases hdone

/-- A field that one option sets has what the last one sets it to. -/
theorem parse_loop_last (o : Char) (get : σ → α) (R : CString → α → Prop)
    (hkeep : ∀ k opt s, (switch k opt s).2 → opt.opt ≠ o → get (switch k opt s).1 = get s)
    (hset : ∀ k opt s, (switch k opt s).2 → opt.opt = o → R opt.optarg (get (switch k opt s).1))
    {k : Nat} {s : σ} (hdone : (parse_loop switch k opts s).2) :
    match (args o opts).getLast? with
    | none => get (parse_loop switch k opts s).1 = get s
    | some arg => R arg (get (parse_loop switch k opts s).1) := by
  induction opts generalizing k s with
  | nil => rfl
  | cons opt opts ih =>
    rw [parse_loop_cons] at hdone ⊢
    split at hdone
    case isFalse => cases hdone
    case isTrue htaken =>
      rw [if_pos htaken]
      have hrest := ih hdone
      by_cases hopt : opt.opt = o
      · rw [args_cons_eq hopt, List.getLast?_cons]
        cases hlast : (args o opts).getLast? with
        | none =>
          rw [hlast] at hrest
          dsimp only [Option.getD_none] at hrest ⊢
          rw [hrest]
          exact hset k opt s htaken hopt
        | some arg =>
          rw [hlast] at hrest
          exact hrest
      · rw [args_cons_ne hopt]
        cases hlast : (args o opts).getLast? with
        | none =>
          rw [hlast] at hrest
          dsimp only at hrest ⊢
          rw [hrest, hkeep k opt s htaken hopt]
        | some arg =>
          rw [hlast] at hrest
          exact hrest

theorem parse_loop_field (o : Char) (get : σ → Int) (lo hi : Int) (value : Int → Int)
    (hkeep : ∀ k opt s, (switch k opt s).2 → opt.opt ≠ o → get (switch k opt s).1 = get s)
    (hrange : ∀ k opt s, (switch k opt s).2 → opt.opt = o → InRange lo hi opt.optarg)
    (hset : ∀ k opt s, (switch k opt s).2 → opt.opt = o → ∀ v, Numeral opt.optarg v → 0 ≤ v →
      v ≤ UINT_MAX → get (switch k opt s).1 = value v)
    {k : Nat} {s : σ} (hdone : (parse_loop switch k opts s).2)
    (hconv : ∀ arg ∈ args o opts, Converts arg) :
    Field opts o lo hi value (get s) (get (parse_loop switch k opts s).1) := by
  constructor
  · intro arg harg
    obtain ⟨v, hnum, hmin, hmax⟩ := hconv arg harg
    obtain ⟨opt, hopt, ho, rfl⟩ := mem_args.mp harg
    have hall := parse_loop_each (fun opt => opt.opt = o → InRange lo hi opt.optarg) hrange hdone
    exact ⟨v, hnum, hall opt hopt ho v hnum hmin hmax⟩
  · have hlast := parse_loop_last o get
      (fun arg x => ∀ v, Numeral arg v → 0 ≤ v → v ≤ UINT_MAX → x = value v) hkeep hset hdone
    cases harg : (args o opts).getLast? with
    | none =>
      rw [harg] at hlast
      exact hlast
    | some arg =>
      rw [harg] at hlast
      obtain ⟨v, hnum, hmin, hmax⟩ := hconv arg (List.mem_of_getLast? harg)
      exact ⟨v, hnum, hlast v hnum hmin hmax⟩

/-- While no slot is known, the first `-S` has to be converted. -/
theorem parse_loop_first (get : σ → Int)
    (hkeep : ∀ k opt s, (switch k opt s).2 → opt.opt ≠ 'S' → get (switch k opt s).1 = get s)
    (hset : ∀ k opt s, (switch k opt s).2 → opt.opt = 'S' →
      converted opt.optarg (get s) < FPGA_SLOT_MAX)
    {k : Nat} {s : σ} (hdone : (parse_loop switch k opts s).2) (hslot : FPGA_SLOT_MAX ≤ get s) :
    ∀ arg, (args 'S' opts).head? = some arg → Converts arg := by
  induction opts generalizing k s with
  | nil => exact nofun
  | cons opt opts ih =>
    rw [parse_loop_cons] at hdone
    split at hdone
    case isFalse => cases hdone
    case isTrue htaken =>
      by_cases hopt : opt.opt = 'S'
      · rw [args_cons_eq hopt]
        intro arg harg
        cases harg
        by_contra hnot
        have hlt := hset k opt s htaken hopt
        rw [converted_of_not hnot] at hlt
        omega
      · rw [args_cons_ne hopt]
        exact ih hdone (by rw [hkeep k opt s htaken hopt]; exact hslot)

end Options

/-- The slot: a number that is known to be one, or the first `-S` gives it. -/
def SlotKnown (opts : List Opt) (slot : Int) : Prop :=
  slot < FPGA_SLOT_MAX ∨ ∃ arg, (args 'S' opts).head? = some arg ∧ Converts arg

theorem slot_known_nil {slot : Int} (h : SlotKnown [] slot) : slot < FPGA_SLOT_MAX := by
  rcases h with h | ⟨arg, harg, -⟩
  · exact h
  · cases harg

theorem slot_known_keep {opt : Opt} {opts : List Opt} {slot : Int} (hopt : opt.opt ≠ 'S')
    (h : SlotKnown (opt :: opts) slot) : SlotKnown opts slot := by
  unfold SlotKnown at h
  rwa [args_cons_ne hopt] at h

theorem slot_known_set {opt : Opt} {opts : List Opt} {slot : Int} (hopt : opt.opt = 'S')
    (hrange : InRange 0 (FPGA_SLOT_MAX - 1) opt.optarg) (h : SlotKnown (opt :: opts) slot) :
    converted opt.optarg slot < FPGA_SLOT_MAX := by
  by_cases hconv : Converts opt.optarg
  · obtain ⟨v, hnum, hmin, hmax⟩ := hconv
    rw [converted_of_numeral hnum hmin hmax]
    have hle := (hrange v hnum hmin hmax).2
    omega
  · rw [converted_of_not hconv]
    rcases h with h | ⟨arg, harg, harg'⟩
    · exact h
    · rw [args_cons_eq hopt, List.head?_cons, Option.some.injEq] at harg
      rw [harg] at hconv
      exact absurd harg' hconv

theorem slot_range {arg : CString} {slot : Int} (h : converted arg slot < FPGA_SLOT_MAX) :
    InRange 0 (FPGA_SLOT_MAX - 1) arg := by
  intro v hnum hmin hmax
  rw [converted_of_numeral hnum hmin hmax] at h
  omega

end AwsFpga.Tools
