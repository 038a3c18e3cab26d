import Mathlib.Logic.Function.Basic
import AwsFpga.Pci.Api

/-!
# The clock groups (`fpga_clkgen_mmcm.c`)

Each group keeps its registers and its availability in one process-wide record.
The record outlives a device: an `mmcm_init` of another device writes over it.
-/

open Lib AwsFpga.Pci

namespace AwsFpga.Clkgen

/-! ## Registers -/

def MAX_CLKGEN_LOOP_RETRIES : Nat := 100
def AWS_CLKGEN_LOOP_DELAY_MS : BitVec 32 := 50

def AWS_CLKGEN_BASE_B : BitVec 64 := 0x50000
def AWS_CLKGEN_BASE_C : BitVec 64 := 0x51000
def AWS_CLKGEN_BASE_A : BitVec 64 := 0x52000
def AWS_CLKGEN_BASE_HBM : BitVec 64 := 0x54000
def AWS_CLKGEN_BASE_REG : BitVec 64 := 0x58000
def AWS_CLKGEN_CLKS_AVAIL : BitVec 64 := AWS_CLKGEN_BASE_REG + 0xC

def MMCM_STATUS_LOCKED : BitVec 32 := 1
def MMCM_STATUS_REG : BitVec 64 := 0x04
def MMCM_MAIN_CFG_REG : BitVec 64 := 0x200
def MMCM_CLK0_CFG_REG : BitVec 64 := 0x208
def MMCM_CLK1_CFG_REG : BitVec 64 := 0x214
def MMCM_CLK2_CFG_REG : BitVec 64 := 0x220
def MMCM_LOAD_CFG_REG : BitVec 64 := 0x25C

/-! ## The record of a group -/

inductive ClkgenGroup where
  | clkgen_group_a
  | clkgen_group_b
  | clkgen_group_c
  | clkgen_group_hbm
  deriving DecidableEq

open ClkgenGroup

abbrev MAX_CLKS_IN_MMCM : Nat := 3

structure FpgaClkgenMmcm where
  mmcm_base_offset : BitVec 64
  clk_cfg_regs : Vector (BitVec 64) MAX_CLKS_IN_MMCM
  handle : Int
  lock_bit : Nat
  avail_bit_start : Nat
  num_clocks : Nat
  clk_avails : Vector (BitVec 32) MAX_CLKS_IN_MMCM
  any_clocks_available : BitVec 32
  clk_div_has_frac : Vector Bool MAX_CLKS_IN_MMCM

/-- `static struct fpga_clkgen_mmcm_private private`. -/
abbrev Private : Type := ClkgenGroup → FpgaClkgenMmcm

/-- Static storage starts as zero bytes. -/
def Private.zero : Private := fun _ =>
  { mmcm_base_offset := 0, clk_cfg_regs := .replicate _ 0, handle := 0, lock_bit := 0,
    avail_bit_start := 0, num_clocks := 0, clk_avails := .replicate _ 0,
    any_clocks_available := 0, clk_div_has_frac := .replicate _ false }

/-- The `switch` of `mmcm_init`. -/
def mmcm_init_group (group : ClkgenGroup) (mmcm : FpgaClkgenMmcm) : FpgaClkgenMmcm :=
  match group with
  | clkgen_group_a =>
    { mmcm with
      mmcm_base_offset := AWS_CLKGEN_BASE_A, avail_bit_start := 1, num_clocks := 3, lock_bit := 0 }
  | clkgen_group_b =>
    { mmcm with
      mmcm_base_offset := AWS_CLKGEN_BASE_B, avail_bit_start := 4, num_clocks := 2, lock_bit := 4 }
  | clkgen_group_c =>
    { mmcm with
      mmcm_base_offset := AWS_CLKGEN_BASE_C, avail_bit_start := 6, num_clocks := 2, lock_bit := 6 }
  | clkgen_group_hbm =>
    { mmcm with
      mmcm_base_offset := AWS_CLKGEN_BASE_HBM, avail_bit_start := 8, num_clocks := 1,
      lock_bit := 8 }

def clk_cfg_regs : Vector (BitVec 64) MAX_CLKS_IN_MMCM :=
  #v[MMCM_CLK0_CFG_REG, MMCM_CLK1_CFG_REG, MMCM_CLK2_CFG_REG]

def clk_div_has_frac : Vector Bool MAX_CLKS_IN_MMCM := #v[true, false, false]

/-- The loop body of `mmcm_init`, for clock `i`. -/
def mmcm_init_clock (clks_avail_shifted : BitVec 32) (mmcm : FpgaClkgenMmcm) (i : Nat) :
    FpgaClkgenMmcm :=
  let clk_avail := clks_avail_shifted &&& (1#32 <<< i)
  { mmcm with
    clk_avails := mmcm.clk_avails.setIfInBounds i clk_avail
    clk_cfg_regs := mmcm.clk_cfg_regs.setIfInBounds i (clk_cfg_regs.getD i 0)
    clk_div_has_frac := mmcm.clk_div_has_frac.setIfInBounds i (clk_div_has_frac.getD i false)
    -- Set, and never cleared.
    any_clocks_available := if clk_avail ≠ 0 then 1 else mmcm.any_clocks_available }

def mmcm_init_clocks (clks_avail_shifted : BitVec 32) (mmcm : FpgaClkgenMmcm) : FpgaClkgenMmcm :=
  (List.range mmcm.num_clocks).foldl (mmcm_init_clock clks_avail_shifted) mmcm

def mmcm_init (group : ClkgenGroup) (handle : Int) (priv : Private) :
    Prog PciApi (Int × Private) := do
  let mmcm := mmcm_init_group group { priv group with handle := handle }
  let (rc, clks_avail_value) ← fpga_pci_peek handle AWS_CLKGEN_CLKS_AVAIL
  if rc ≠ 0 then
    return (rc, Function.update priv group mmcm)
  else
    let clks_avail_shifted := clks_avail_value >>> mmcm.avail_bit_start
    return (0, Function.update priv group (mmcm_init_clocks clks_avail_shifted mmcm))

/-! ## What the record is read for -/

def mmcm_clk_avail_any (group : ClkgenGroup) (priv : Private) : Int × Bool :=
  (0, (priv group).any_clocks_available ≠ 0)

def mmcm_clk_avail (group : ClkgenGroup) (clk_index : Nat) (priv : Private) : Int × Bool :=
  if clk_index ≥ (priv group).num_clocks then
    (0, false)
  else
    (0, (priv group).clk_avails.getD clk_index 0 ≠ 0)

def groups : List ClkgenGroup := [clkgen_group_a, clkgen_group_b, clkgen_group_c, clkgen_group_hbm]

def mmcm_get_expected_lock_mask (priv : Private) : Int × BitVec 32 :=
  (0, groups.foldl (fun lock_mask group =>
    lock_mask ||| if (priv group).any_clocks_available ≠ 0 then 1#32 <<< (priv group).lock_bit else 0)
    0)

/-! ## Clock operations -/

def mmcm_is_locked (group : ClkgenGroup) (priv : Private) : Prog PciApi (Int × Bool) := do
  let (rc, status_reg_value) ←
    fpga_pci_peek (priv group).handle ((priv group).mmcm_base_offset + MMCM_STATUS_REG)
  if rc ≠ 0 then
    return (rc, false)
  else
    return (0, (status_reg_value &&& MMCM_STATUS_LOCKED) ≠ 0)

/-- The loop of `mmcm_wait_for_locked`, with `retries` rounds left. -/
def mmcm_wait_for_locked_loop (mmcm : FpgaClkgenMmcm) : (retries : Nat) → Prog PciApi Int
  | 0 => return FPGA_ERR_HARDWARE_BUSY
  | retries + 1 => do
    let (rc, status_reg_value) ←
      fpga_pci_peek mmcm.handle (mmcm.mmcm_base_offset + MMCM_STATUS_REG)
    if rc ≠ 0 then
      return rc
    else if status_reg_value = MMCM_STATUS_LOCKED then
      return 0
    else
      msleep AWS_CLKGEN_LOOP_DELAY_MS
      mmcm_wait_for_locked_loop mmcm retries

def mmcm_wait_for_locked (group : ClkgenGroup) (priv : Private) : Prog PciApi Int :=
  mmcm_wait_for_locked_loop (priv group) MAX_CLKGEN_LOOP_RETRIES

def mmcm_set_shared_clock (group : ClkgenGroup) (mult mult_frac div : BitVec 32) (priv : Private) :
    Prog PciApi Int :=
  let tmp_mult := if mult = 0 then 1 else mult
  let tmp_div := if div = 0 then 1 else div
  let main_cfg_reg_value :=
    (tmp_div &&& 0xFF) ||| ((tmp_mult <<< 8) &&& 0xFF00) ||| ((mult_frac <<< 16) &&& 0x0FFF0000)
  fpga_pci_poke (priv group).handle ((priv group).mmcm_base_offset + MMCM_MAIN_CFG_REG)
    main_cfg_reg_value

/-- Answers the return code, then `*mult`, `*mult_frac` and `*div`. -/
def mmcm_get_shared_clock (group : ClkgenGroup) (priv : Private) :
    Prog PciApi (Int × Option (BitVec 32 × BitVec 32 × BitVec 32)) := do
  let (rc, value) ←
    fpga_pci_peek (priv group).handle ((priv group).mmcm_base_offset + MMCM_MAIN_CFG_REG)
  if rc ≠ 0 then
    return (rc, none)
  else
    return (0, some ((value >>> 8) &&& 0xFF, (value >>> 16) &&& 0x3FF, value &&& 0xFF))

def mmcm_set_clk_div (group : ClkgenGroup) (clk_index : Nat) (div div_frac : BitVec 32)
    (priv : Private) : Prog PciApi Int :=
  let mmcm := priv group
  if clk_index ≥ mmcm.num_clocks then
    return FPGA_ERR_SOFTWARE_PROBLEM
  else
    let tmp_div := if div = 0 then 1 else div
    let clk_cfg_reg_value :=
      if mmcm.clk_div_has_frac.getD clk_index false then
        (tmp_div &&& 0xFF) ||| ((div_frac <<< 8) &&& 0x000FFF00)
      else
        tmp_div &&& 0xFF
    fpga_pci_poke mmcm.handle (mmcm.mmcm_base_offset + mmcm.clk_cfg_regs.getD clk_index 0)
      clk_cfg_reg_value

/-- Answers the return code, then `*div` and `*div_frac`. -/
def mmcm_get_clk_div (group : ClkgenGroup) (clk_index : Nat) (priv : Private) :
    Prog PciApi (Int × Option (BitVec 32 × BitVec 32)) := do
  let mmcm := priv group
  if clk_index ≥ mmcm.num_clocks then
    return (FPGA_ERR_SOFTWARE_PROBLEM, none)
  else
    let (rc, value) ←
      fpga_pci_peek mmcm.handle (mmcm.mmcm_base_offset + mmcm.clk_cfg_regs.getD clk_index 0)
    if rc ≠ 0 then
      return (rc, none)
    else
      let div_frac :=
        if mmcm.clk_div_has_frac.getD clk_index false then (value >>> 8) &&& 0x3FF else 0
      return (0, some (value &&& 0xFF, div_frac))

def mmcm_load_cfg (group : ClkgenGroup) (reset : Bool) (priv : Private) : Prog PciApi Int :=
  fpga_pci_poke (priv group).handle ((priv group).mmcm_base_offset + MMCM_LOAD_CFG_REG)
    (if reset then 1 else 3)

/-- `aws_clkgen_mmcm_init` of `fpga_clkgen_utils.c`: all four groups on one handle. -/
def aws_clkgen_mmcm_init (pci_bar_handle : Int) (priv : Private) : Prog PciApi (Int × Private) :=
  .failOn (mmcm_init clkgen_group_a pci_bar_handle priv) fun priv =>
  .failOn (mmcm_init clkgen_group_b pci_bar_handle priv) fun priv =>
  .failOn (mmcm_init clkgen_group_c pci_bar_handle priv) fun priv =>
  mmcm_init clkgen_group_hbm pci_bar_handle priv

end AwsFpga.Clkgen
