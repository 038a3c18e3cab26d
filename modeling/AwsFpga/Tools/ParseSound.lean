import AwsFpga.Tools.ParseClkgen
import AwsFpga.Tools.ParseDip
import AwsFpga.Tools.ParseLoad

/-!
# What the parsers accept (`fpga_local_cmd_parse.c`)

The expectations of the parsers, and just when they are met.
-/

namespace AwsFpga.Tools

open Utils

/-- What is expected of the parsers for one argument vector. -/
structure Parsers (argv : List CString) : Prop where
  load_afi : LoadParses argv
  set_virtual_dip : DipParses argv
  load_clkgen_recipe : ClkgenParses clkgen_recipe_options recipes argv
  load_clkgen_dynamic : ClkgenParses clkgen_dynamic_options freqs argv

/-- Vectors that the parsers refuse for another reason, or without an argument that is not converted
and without a digit that is carried over. -/
structure Parsable (argv : List CString) : Prop where
  load_afi : LoadPasses (load_afi_opts argv) →
    ∀ o ∈ load_afi_opts argv, o.opt ∈ ['S', 'r', 's'] → Converts o.optarg
  set_virtual_dip : DipPasses (virtual_dip_opts argv) →
    (∀ arg ∈ args 'S' (virtual_dip_opts argv), Converts arg) ∧ NoCarry (virtual_dip_opts argv)
  load_clkgen_recipe : ClkgenPasses (load_clkgen_opts clkgen_recipe_options argv) →
    ∀ o ∈ load_clkgen_opts clkgen_recipe_options argv, Converts o.optarg
  load_clkgen_dynamic : ClkgenPasses (load_clkgen_opts clkgen_dynamic_options argv) →
    ∀ o ∈ load_clkgen_opts clkgen_dynamic_options argv, Converts o.optarg

theorem parsers_iff (argv : List CString) : Parsers argv ↔ Parsable argv := by
  constructor
  · intro h
    exact ⟨(load_parses_iff argv).mp h.load_afi, (dip_parses_iff argv).mp h.set_virtual_dip,
      (clkgen_parses_iff recipes_lawful _ argv).mp h.load_clkgen_recipe,
      (clkgen_parses_iff freqs_lawful _ argv).mp h.load_clkgen_dynamic⟩
  · intro h
    exact ⟨(load_parses_iff argv).mpr h.load_afi, (dip_parses_iff argv).mpr h.set_virtual_dip,
      (clkgen_parses_iff recipes_lawful _ argv).mpr h.load_clkgen_recipe,
      (clkgen_parses_iff freqs_lawful _ argv).mpr h.load_clkgen_dynamic⟩

/-- Two settings of the switches: the second is all zeros. -/
def two_dips : List CString :=
  ["SetVirtualDIP".toList, "-S".toList, "0".toList, "-D".toList, "0000000000000001".toList,
    "-D".toList, "0000000000000000".toList]

/-- A timeout that is no number. -/
def word_timeout : List CString :=
  ["LoadFpgaImage".toList, "-S".toList, "0".toList, "-I".toList, "agfi-0".toList, "-r".toList,
    "soon".toList]

theorem two_dips_carry :
    (parse_args_set_virtual_dip two_dips cli_init_fpga).1 = 0 ∧
      (parse_args_set_virtual_dip two_dips cli_init_fpga).2.v_dip_switch = 0x8000 ∧
      (parse_args_load_afi minute word_timeout cli_init_fpga).1 = 0 ∧
      (parse_args_load_afi minute word_timeout cli_init_fpga).2.request_timeout = 1000 ∧
      ¬Parsers two_dips ∧ ¬Parsers word_timeout := by
  refine ⟨by decide, by decide, by decide, by decide, fun h => ?_, fun h => ?_⟩
  · have hlast : (args 'D' (virtual_dip_opts two_dips)).getLast? =
      some "0000000000000000".toList := by decide
    have hsound := (h.set_virtual_dip (by decide)).v_dip_switch
    rw [hlast] at hsound
    exact absurd hsound (by decide)
  · have hsound := (h.load_afi minute (by decide)).request_timeout
    obtain ⟨v, hnum, -⟩ := hsound.numerals "soon".toList (by decide)
    exact absurd hnum (not_numeral (by decide) v)

end AwsFpga.Tools
