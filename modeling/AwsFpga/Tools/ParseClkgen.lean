import AwsFpga.Tools.ParseFields

/-!
# Loading the clock generator (`fpga_local_cmd_parse.c`)

The two parsers are one, for recipes and for frequencies. An argument that is not
converted leaves its field as it is.
-/

namespace AwsFpga.Tools

open Utils

/-- A field that can be read back, and is apart from what the parser looks at. -/
structure ClockField.Lawful (field : ClockField) : Prop where
  get_set : ∀ clocks fpga, field.get (field.set clocks fpga) = clocks
  slot_set : ∀ clocks fpga, (field.set clocks fpga).afi_slot = fpga.afi_slot
  get_slot : ∀ slot fpga, field.get { fpga with afi_slot := slot } = field.get fpga

theorem recipes_lawful : recipes.Lawful := ⟨fun _ _ => rfl, fun _ _ => rfl, fun _ _ => rfl⟩

theorem freqs_lawful : freqs.Lawful := ⟨fun _ _ => rfl, fun _ _ => rfl, fun _ _ => rfl⟩

/-- What is expected of `fpga` when a parser for the clock generator returns 0. -/
structure ClkgenSound (field : ClockField) (opts : List Opt) (fpga : Ec2FpgaCmd) : Prop where
  slot : Field opts 'S' 0 (FPGA_SLOT_MAX - 1) id cli_init_fpga.afi_slot fpga.afi_slot
  a : Field opts 'a' 0 UINT_MAX id (field.get cli_init_fpga).a (field.get fpga).a
  b : Field opts 'b' 0 UINT_MAX id (field.get cli_init_fpga).b (field.get fpga).b
  c : Field opts 'c' 0 UINT_MAX id (field.get cli_init_fpga).c (field.get fpga).c
  hbm : Field opts 'm' 0 UINT_MAX id (field.get cli_init_fpga).hbm (field.get fpga).hbm

structure ClkgenTakes (o : Opt) : Prop where
  known : o.opt ∈ ['S', 'a', 'b', 'c', 'm']
  slot : o.opt = 'S' → InRange 0 (FPGA_SLOT_MAX - 1) o.optarg

structure ClkgenPasses (opts : List Opt) : Prop where
  takes : ∀ o ∈ opts, ClkgenTakes o
  slot : ∃ arg, (args 'S' opts).head? = some arg ∧ Converts arg

section Clkgen

variable {field : ClockField} {o : Opt} {fpga : Ec2FpgaCmd}

theorem clkgen_takes (h : (load_clkgen_case field o fpga).2) : ClkgenTakes o := by
  unfold load_clkgen_case at h
  split at h
  case isTrue hopt => exact ⟨by simp [hopt], fun _ => slot_range (of_decide_eq_true h)⟩
  case isFalse hS =>
    refine ⟨?_, fun hopt => absurd hopt hS⟩
    split at h
    case isTrue hopt => simp [hopt]
    case isFalse =>
      split at h
      case isTrue hopt => simp [hopt]
      case isFalse =>
        split at h
        case isTrue hopt => simp [hopt]
        case isFalse =>
          split at h
          case isTrue hopt => simp [hopt]
          case isFalse => cases h

theorem clkgen_slot (hfield : field.Lawful) (h : (load_clkgen_case field o fpga).2)
    (hopt : o.opt ≠ 'S') : (load_clkgen_case field o fpga).1.afi_slot = fpga.afi_slot := by
  have hknown := (clkgen_takes h).known
  simp only [List.mem_cons, List.not_mem_nil, or_false] at hknown
  rcases hknown with hknown | hknown | hknown | hknown | hknown
  · exact absurd hknown hopt
  all_goals simp [load_clkgen_case, hknown, hfield.slot_set]

theorem clkgen_slot_set (h : (load_clkgen_case field o fpga).2) (hopt : o.opt = 'S') :
    converted o.optarg fpga.afi_slot < FPGA_SLOT_MAX ∧
      (load_clkgen_case field o fpga).1.afi_slot = converted o.optarg fpga.afi_slot := by
  unfold load_clkgen_case at h ⊢
  rw [if_pos hopt] at h ⊢
  exact ⟨of_decide_eq_true h, rfl⟩

theorem clkgen_clocks (hfield : field.Lawful) (h : (load_clkgen_case field o fpga).2) :
    field.get (load_clkgen_case field o fpga).1 =
      { a := if o.opt = 'a' then converted o.optarg (field.get fpga).a else (field.get fpga).a
        b := if o.opt = 'b' then converted o.optarg (field.get fpga).b else (field.get fpga).b
        c := if o.opt = 'c' then converted o.optarg (field.get fpga).c else (field.get fpga).c
        hbm := if o.opt = 'm' then converted o.optarg (field.get fpga).hbm
          else (field.get fpga).hbm } := by
  have hknown := (clkgen_takes h).known
  simp only [List.mem_cons, List.not_mem_nil, or_false] at hknown
  rcases hknown with hknown | hknown | hknown | hknown | hknown
  · simp [load_clkgen_case, hknown, slot_case, hfield.get_slot]
  all_goals simp [load_clkgen_case, hknown, hfield.get_set]

theorem clkgen_done (htakes : ClkgenTakes o) {opts : List Opt} (hfield : field.Lawful)
    (hslot : SlotKnown (o :: opts) fpga.afi_slot) :
    (load_clkgen_case field o fpga).2 ∧ SlotKnown opts (load_clkgen_case field o fpga).1.afi_slot := by
  have hknown := htakes.known
  simp only [List.mem_cons, List.not_mem_nil, or_false] at hknown
  rcases hknown with opt | opt | opt | opt | opt
  · have hlt := slot_known_set opt (htakes.slot opt) hslot
    unfold load_clkgen_case
    rw [if_pos opt]
    exact ⟨decide_eq_true hlt, .inl hlt⟩
  all_goals
    have hkeep := slot_known_keep (by simp [opt]) hslot
    simp [load_clkgen_case, opt, hfield.slot_set, hkeep]

end Clkgen

section ClkgenRuns

variable {long_options : List LongOption} {field : ClockField} {argv : List CString}

/-- What the parser comes to in its loop. -/
def clkgen_loop (long_options : List LongOption) (field : ClockField) (argv : List CString) :
    Ec2FpgaCmd × Bool :=
  parse_loop (fun _ => load_clkgen_case field) 0 (load_clkgen_opts long_options argv) cli_init_fpga

theorem parse_clkgen_eq (long_options : List LongOption) (field : ClockField) (argv : List CString) :
    parse_args_load_clkgen long_options field argv cli_init_fpga =
      if (clkgen_loop long_options field argv).2 &&
          (clkgen_loop long_options field argv).1.afi_slot ≠ no_slot then
        (0, (clkgen_loop long_options field argv).1)
      else (-EINVAL, (clkgen_loop long_options field argv).1) := rfl

theorem parse_clkgen_ok (h : (parse_args_load_clkgen long_options field argv cli_init_fpga).1 = 0) :
    (clkgen_loop long_options field argv).2 ∧
      (clkgen_loop long_options field argv).1.afi_slot ≠ no_slot ∧
      (parse_args_load_clkgen long_options field argv cli_init_fpga).2 =
        (clkgen_loop long_options field argv).1 := by
  rw [parse_clkgen_eq] at h ⊢
  split at h
  case isTrue hdone =>
    rw [if_pos hdone]
    rw [Bool.and_eq_true, decide_eq_true_eq] at hdone
    exact ⟨hdone.1, hdone.2, rfl⟩
  case isFalse => cases h

theorem clkgen_field (hdone : (clkgen_loop long_options field argv).2)
    {o : Char} {clock : Clocks → Int}
    (hclock : ∀ opt fpga, (load_clkgen_case field opt fpga).2 →
      clock (field.get (load_clkgen_case field opt fpga).1) =
        if opt.opt = o then converted opt.optarg (clock (field.get fpga)) else clock (field.get fpga))
    (hconv : ∀ arg ∈ args o (load_clkgen_opts long_options argv), Converts arg) :
    Field (load_clkgen_opts long_options argv) o 0 UINT_MAX id (clock (field.get cli_init_fpga))
      (clock (field.get (clkgen_loop long_options field argv).1)) := by
  refine parse_loop_field o (fun fpga => clock (field.get fpga)) 0 UINT_MAX id
    (fun k opt s h hopt => ?_) (fun k opt s h hopt v _ hmin hmax => ⟨hmin, hmax⟩)
    (fun k opt s h hopt v hnum hmin hmax => ?_) hdone hconv
  · rw [hclock opt s h, if_neg hopt]
  · rw [hclock opt s h, if_pos hopt, converted_of_numeral hnum hmin hmax, id]

theorem clkgen_loop_sound (hfield : field.Lawful) (hdone : (clkgen_loop long_options field argv).2)
    (hconv : ∀ o ∈ load_clkgen_opts long_options argv, Converts o.optarg) :
    ClkgenSound field (load_clkgen_opts long_options argv) (clkgen_loop long_options field argv).1 := by
  have hall : ∀ o, ∀ arg ∈ args o (load_clkgen_opts long_options argv), Converts arg := by
    intro o arg harg
    obtain ⟨opt, hmem, -, rfl⟩ := mem_args.mp harg
    exact hconv opt hmem
  refine ⟨?_, ?_, ?_, ?_, ?_⟩
  · exact parse_loop_field 'S' Ec2FpgaCmd.afi_slot 0 (FPGA_SLOT_MAX - 1) id
      (fun k o s h hopt => clkgen_slot hfield h hopt)
      (fun k o s h hopt => (clkgen_takes h).slot hopt)
      (fun k o s h hopt v hnum hmin hmax => by
        rw [(clkgen_slot_set h hopt).2, converted_of_numeral hnum hmin hmax, id])
      hdone (hall 'S')
  · exact clkgen_field hdone
      (fun opt fpga h => congrArg Clocks.a (clkgen_clocks hfield h)) (hall 'a')
  · exact clkgen_field hdone
      (fun opt fpga h => congrArg Clocks.b (clkgen_clocks hfield h)) (hall 'b')
  · exact clkgen_field hdone
      (fun opt fpga h => congrArg Clocks.c (clkgen_clocks hfield h)) (hall 'c')
  · exact clkgen_field hdone
      (fun opt fpga h => congrArg Clocks.hbm (clkgen_clocks hfield h)) (hall 'm')

theorem clkgen_passes (hfield : field.Lawful)
    (h : (parse_args_load_clkgen long_options field argv cli_init_fpga).1 = 0) :
    ClkgenPasses (load_clkgen_opts long_options argv) := by
  obtain ⟨hdone, hslot, -⟩ := parse_clkgen_ok h
  refine ⟨parse_loop_each ClkgenTakes (fun _ _ _ => clkgen_takes) hdone, ?_⟩
  have hlast := parse_loop_last 'S' Ec2FpgaCmd.afi_slot (fun _ _ => True)
    (fun k o s h hopt => clkgen_slot hfield h hopt) (fun _ _ _ _ _ => trivial) hdone
  have hfirst := parse_loop_first Ec2FpgaCmd.afi_slot
    (fun k o s h hopt => clkgen_slot hfield h hopt) (fun k o s h hopt => (clkgen_slot_set h hopt).1)
    hdone (by decide)
  cases hargs : args 'S' (load_clkgen_opts long_options argv) with
  | nil =>
    rw [hargs] at hlast
    exact absurd hlast hslot
  | cons arg rest => exact ⟨arg, rfl, hfirst arg (by rw [hargs]; rfl)⟩

theorem clkgen_ok (hfield : field.Lawful) (h : ClkgenPasses (load_clkgen_opts long_options argv)) :
    (parse_args_load_clkgen long_options field argv cli_init_fpga).1 = 0 := by
  have hend : (clkgen_loop long_options field argv).2 ∧ (∀ o ∈ ([] : List Opt), ClkgenTakes o) ∧
      SlotKnown [] (clkgen_loop long_options field argv).1.afi_slot := by
    refine parse_loop_done
      (fun opts (s : Ec2FpgaCmd) => (∀ o ∈ opts, ClkgenTakes o) ∧ SlotKnown opts s.afi_slot)
      (fun k o opts s hinv => ?_) ⟨h.takes, .inr h.slot⟩
    obtain ⟨ho, hopts⟩ := List.forall_mem_cons.mp hinv.1
    obtain ⟨hdone, hnext⟩ := clkgen_done ho hfield hinv.2
    exact ⟨hdone, hopts, hnext⟩
  obtain ⟨hdone, -, hslot⟩ := hend
  have hne : (clkgen_loop long_options field argv).1.afi_slot ≠ no_slot := by
    intro heq
    have hlt := slot_known_nil hslot
    rw [heq] at hlt
    exact absurd hlt (by decide)
  rw [parse_clkgen_eq, hdone, decide_eq_true hne]
  rfl

end ClkgenRuns

/-- What is expected of the two parsers. -/
def ClkgenParses (long_options : List LongOption) (field : ClockField) (argv : List CString) : Prop :=
  (parse_args_load_clkgen long_options field argv cli_init_fpga).1 = 0 →
    ClkgenSound field (load_clkgen_opts long_options argv)
      (parse_args_load_clkgen long_options field argv cli_init_fpga).2

theorem clkgen_parses_iff {field : ClockField} (hfield : field.Lawful)
    (long_options : List LongOption) (argv : List CString) :
    ClkgenParses long_options field argv ↔
      (ClkgenPasses (load_clkgen_opts long_options argv) →
        ∀ o ∈ load_clkgen_opts long_options argv, Converts o.optarg) := by
  constructor
  · intro h hpasses o ho
    have hsound := h (clkgen_ok hfield hpasses)
    have hmem : ∀ c, o.opt = c → o.optarg ∈ args c (load_clkgen_opts long_options argv) :=
      fun c hc => mem_args.mpr ⟨o, ho, hc, rfl⟩
    have hknown := (hpasses.takes o ho).known
    simp only [List.mem_cons, List.not_mem_nil, or_false] at hknown
    rcases hknown with hopt | hopt | hopt | hopt | hopt
    · exact converts_of_field hsound.slot (by decide) (by decide) (hmem _ hopt)
    · exact converts_of_field hsound.a (by decide) (by decide) (hmem _ hopt)
    · exact converts_of_field hsound.b (by decide) (by decide) (hmem _ hopt)
    · exact converts_of_field hsound.c (by decide) (by decide) (hmem _ hopt)
    · exact converts_of_field hsound.hbm (by decide) (by decide) (hmem _ hopt)
  · intro h hret
    obtain ⟨hdone, -, hfpga⟩ := parse_clkgen_ok hret
    rw [hfpga]
    exact clkgen_loop_sound hfield hdone (h (clkgen_passes hfield hret))

end AwsFpga.Tools
