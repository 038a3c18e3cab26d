import AwsFpga.Clkgen.Mmcm

/-!
# Setting the clocks (`fpga_clkgen_utils.c`)

The five operations of a slot attach to the clock generator, look for its ID, and then
reset and program it.
-/

open Lib AwsFpga.Pci

namespace AwsFpga.Clkgen

open ClkgenGroup

/-! ## Registers -/

def AWS_CLKGEN_PF : Int := 1
def AWS_CLKGEN_BAR : Int := 4

def AWS_CLKGEN_ID_REG : BitVec 64 := AWS_CLKGEN_BASE_REG + 0x0
def AWS_CLKGEN_VER_REG : BitVec 64 := AWS_CLKGEN_BASE_REG + 0x4
def AWS_CLKGEN_BLD_REG : BitVec 64 := AWS_CLKGEN_BASE_REG + 0x8
def AWS_CLKGEN_GRST_REG : BitVec 64 := AWS_CLKGEN_BASE_REG + 0x10
def AWS_CLKGEN_SYSRST_REG : BitVec 64 := AWS_CLKGEN_BASE_REG + 0x14
def AWS_CLKGEN_LOCK_REG : BitVec 64 := AWS_CLKGEN_BASE_REG + 0x20

def AWS_CLKGEN_ID : BitVec 32 := 0x90481D0F
def AWS_CLKGEN_VER : BitVec 32 := 0x02010000
def AWS_CLKGEN_BLD : BitVec 32 := 0x09232223

def CLKGEN_A_1_MAX : BitVec 32 := 125
def CLKGEN_B_0_MAX : BitVec 32 := 450
def CLKGEN_C_0_MAX : BitVec 32 := 300
def CLKGEN_HBM_MAX : BitVec 32 := 450

/-! ## The tables -/

/-- A row of `FREQ_TABLE`, its columns in their order. -/
structure FreqRow where
  freq : BitVec 32
  sharedMult : BitVec 32
  sharedDiv : BitVec 32
  sharedMultFrac : BitVec 32
  div0 : BitVec 32
  div0Frac : BitVec 32
  deriving DecidableEq

abbrev AWS_CLKGEN_TABLE_ROWS : Nat := 42

def FREQ_TABLE : Vector FreqRow AWS_CLKGEN_TABLE_ROWS :=
  #v[⟨87, 8, 1, 750, 10, 0⟩, ⟨97, 9, 1, 750, 10, 0⟩, ⟨100, 12, 1, 0, 12, 0⟩,
    ⟨109, 10, 1, 875, 10, 0⟩, ⟨125, 11, 1, 875, 9, 500⟩, ⟨136, 13, 1, 625, 10, 0⟩,
    ⟨150, 12, 1, 0, 8, 0⟩, ⟨156, 15, 1, 625, 10, 0⟩, ⟨166, 16, 1, 625, 10, 0⟩,
    ⟨171, 17, 1, 125, 10, 0⟩, ⟨177, 17, 1, 750, 10, 0⟩, ⟨182, 18, 1, 250, 10, 0⟩,
    ⟨187, 18, 1, 750, 10, 0⟩, ⟨196, 19, 1, 625, 10, 0⟩, ⟨200, 12, 1, 0, 6, 0⟩,
    ⟨218, 21, 1, 750, 10, 0⟩, ⟨227, 22, 1, 750, 10, 0⟩, ⟨250, 11, 1, 875, 4, 750⟩,
    ⟨265, 26, 2, 500, 5, 0⟩, ⟨266, 8, 1, 0, 3, 0⟩, ⟨273, 27, 2, 250, 5, 0⟩,
    ⟨291, 29, 2, 0, 5, 0⟩, ⟨300, 12, 1, 0, 4, 0⟩, ⟨318, 31, 2, 750, 5, 0⟩,
    ⟨333, 10, 1, 0, 3, 0⟩, ⟨343, 34, 4, 250, 2, 500⟩, ⟨364, 36, 4, 750, 2, 500⟩,
    ⟨375, 37, 4, 500, 2, 500⟩, ⟨400, 12, 1, 0, 3, 0⟩, ⟨405, 20, 1, 250, 5, 0⟩,
    ⟨410, 20, 1, 500, 5, 0⟩, ⟨415, 20, 1, 750, 5, 0⟩, ⟨420, 21, 1, 0, 5, 0⟩,
    ⟨425, 21, 1, 250, 5, 0⟩, ⟨430, 21, 1, 500, 5, 0⟩, ⟨435, 21, 1, 750, 5, 0⟩,
    ⟨437, 43, 4, 625, 2, 500⟩, ⟨440, 22, 1, 0, 5, 0⟩, ⟨445, 22, 1, 250, 5, 0⟩,
    ⟨450, 11, 1, 250, 2, 500⟩, ⟨458, 45, 4, 750, 2, 500⟩, ⟨500, 15, 1, 0, 3, 0⟩]

/-- The row at an index of the table. -/
def tableRow (i : Nat) : FreqRow := FREQ_TABLE.getD i ⟨0, 0, 0, 0, 0, 0⟩

/-- `struct clkgen_recipe`, its fields in the order of the tables. -/
structure ClkgenRecipe where
  mult : BitVec 32
  mult_frac : BitVec 32
  div : BitVec 32
  div0 : BitVec 32
  div0_frac : BitVec 32
  div1 : BitVec 32
  div2 : BitVec 32
  deriving DecidableEq

/-- What `memset` leaves. -/
def ClkgenRecipe.zero : ClkgenRecipe := ⟨0, 0, 0, 0, 0, 0, 0⟩

def clkgen_a_recipes : Vector ClkgenRecipe 3 :=
  #v[⟨15, 0, 1, 24, 0, 8, 6⟩, ⟨15, 0, 1, 12, 0, 4, 3⟩, ⟨12, 500, 1, 80, 0, 10, 20⟩]

def clkgen_b_recipes : Vector ClkgenRecipe 6 :=
  #v[⟨12, 500, 1, 5, 0, 10, 1⟩, ⟨11, 875, 1, 9, 500, 19, 1⟩, ⟨11, 250, 1, 2, 500, 5, 1⟩,
    ⟨11, 875, 1, 4, 750, 19, 1⟩, ⟨12, 0, 1, 4, 0, 16, 1⟩, ⟨12, 0, 1, 3, 0, 12, 1⟩]

def clkgen_c_recipes : Vector ClkgenRecipe 4 :=
  #v[⟨12, 0, 1, 4, 0, 3, 1⟩, ⟨12, 0, 1, 8, 0, 6, 1⟩, ⟨12, 0, 1, 16, 0, 12, 1⟩,
    ⟨8, 0, 1, 4, 0, 3, 1⟩]

def clkgen_hbm_recipes : Vector ClkgenRecipe 5 :=
  #v[⟨12, 500, 1, 5, 0, 1, 1⟩, ⟨11, 875, 1, 9, 500, 1, 1⟩, ⟨11, 250, 1, 2, 500, 1, 1⟩,
    ⟨12, 0, 1, 4, 0, 1, 1⟩, ⟨12, 0, 1, 3, 0, 1, 1⟩]

/-! ## One group -/

/-- The loop over the clocks of a group, from clock `i` on. -/
def aws_clkgen_set_clk_divs (group : ClkgenGroup) (priv : Private) :
    (i : Nat) → (divs : List (BitVec 32 × BitVec 32)) → Prog PciApi Int
  | _, [] => return 0
  | i, (div, div_frac) :: rest =>
    let (rc, clock_available) := mmcm_clk_avail group i priv
    if rc ≠ 0 then
      return rc
    else if clock_available then
      .andThen (mmcm_set_clk_div group i div div_frac priv)
        (aws_clkgen_set_clk_divs group priv (i + 1) rest)
    else
      aws_clkgen_set_clk_divs group priv (i + 1) rest

/-- The block `if (!reset)` of `aws_clkgen_set_mmcm`. -/
def aws_clkgen_write_recipe (group : ClkgenGroup) (recipe : ClkgenRecipe) (priv : Private) :
    Prog PciApi Int :=
  .andThen (mmcm_set_shared_clock group recipe.mult recipe.mult_frac recipe.div priv)
    (aws_clkgen_set_clk_divs group priv 0
      [(recipe.div0, recipe.div0_frac), (recipe.div1, 0), (recipe.div2, 0)])

def aws_clkgen_set_mmcm (group : ClkgenGroup) (recipe : ClkgenRecipe) (reset : BitVec 32)
    (priv : Private) : Prog PciApi Int :=
  let (rc, any_clocks_available) := mmcm_clk_avail_any group priv
  if rc ≠ 0 then
    return rc
  else if any_clocks_available = false then
    return 0
  else
    .andThen (if reset = 0 then aws_clkgen_write_recipe group recipe priv else return 0) <|
    .andThen (mmcm_wait_for_locked group priv) <|
    .andThen (mmcm_load_cfg group (reset ≠ 0) priv) <|
    mmcm_wait_for_locked group priv

/-- The search through `FREQ_TABLE`, among its first `n` rows, from the last of them on. -/
def aws_clkgen_idx_choice (req_freq : BitVec 32) : (n : Nat) → Nat
  | 0 => 0
  | i + 1 =>
    if (tableRow i).freq ≤ req_freq then
      i
    else
      aws_clkgen_idx_choice req_freq i

/-- What `aws_clkgen_set_freq` puts into its recipe. -/
def FreqRow.recipe (row : FreqRow) : ClkgenRecipe where
  mult := row.sharedMult
  div := row.sharedDiv
  mult_frac := row.sharedMultFrac
  div0 := row.div0
  div0_frac := row.div0Frac
  div1 := 0xF
  div2 := 0xF

def aws_clkgen_set_freq (group : ClkgenGroup) (req_freq reset : BitVec 32) (priv : Private) :
    Prog PciApi Int :=
  if reset = 0 ∧ req_freq < FREQ_TABLE[0].freq then
    return FPGA_ERR_INVALID_CLKGEN_INPUTS
  else
    let idx_choice := aws_clkgen_idx_choice req_freq AWS_CLKGEN_TABLE_ROWS
    let recipe :=
      if reset = 0 then (tableRow idx_choice).recipe else ClkgenRecipe.zero
    aws_clkgen_set_mmcm group recipe reset priv

/-! ## The resets -/

/-- The wait for the lock, with `retries` rounds left: the return code so far, and whether the lock
was seen. Without it the source goes to `out`, also when it was a read that failed. -/
def aws_clkgen_wait_lock (pci_bar_handle : Int) (lock_mask : BitVec 32) :
    (retries : Nat) → (rc : Int) → Prog PciApi (Int × Bool)
  | 0, rc => return (rc, false)
  | retries + 1, _ => do
    let (rc, lock_reg_value) ← fpga_pci_peek pci_bar_handle AWS_CLKGEN_LOCK_REG
    if rc ≠ 0 then
      return (rc, false)
    else if lock_reg_value &&& lock_mask = lock_mask then
      return (rc, true)
    else
      msleep AWS_CLKGEN_LOOP_DELAY_MS
      aws_clkgen_wait_lock pci_bar_handle lock_mask retries rc

def aws_clkgen_reset (pci_bar_handle : Int) (reset : BitVec 32) (priv : Private) :
    Prog PciApi Int := do
  let rc ← fpga_pci_poke pci_bar_handle AWS_CLKGEN_GRST_REG 0
  if rc ≠ 0 then
    return rc
  else if reset = 0 then
    let (rc, lock_mask) := mmcm_get_expected_lock_mask priv
    let (rc, locked) ← aws_clkgen_wait_lock pci_bar_handle lock_mask MAX_CLKGEN_LOOP_RETRIES rc
    if locked then
      fpga_pci_poke pci_bar_handle AWS_CLKGEN_SYSRST_REG 0
    else
      return rc
  else
    fpga_pci_poke pci_bar_handle AWS_CLKGEN_SYSRST_REG 0xFFFFFFFF

/-! ## The operations of a slot -/

/-- One comparison of `aws_clkgen_check_id`. -/
def aws_clkgen_check_reg (pci_bar_handle : Int) (reg_offset : BitVec 64) (expected : BitVec 32) :
    Prog PciApi Int := do
  let (rc, reg_value) ← fpga_pci_peek pci_bar_handle reg_offset
  if rc ≠ 0 then
    return rc
  else
    return if reg_value ≠ expected then 1 else 0

def aws_clkgen_check_id (pci_bar_handle : Int) : Prog PciApi Int :=
  .andThen (aws_clkgen_check_reg pci_bar_handle AWS_CLKGEN_ID_REG AWS_CLKGEN_ID) <|
  .andThen (aws_clkgen_check_reg pci_bar_handle AWS_CLKGEN_VER_REG AWS_CLKGEN_VER) <|
  aws_clkgen_check_reg pci_bar_handle AWS_CLKGEN_BLD_REG AWS_CLKGEN_BLD

/-- The label `out`. -/
def aws_clkgen_out (pci_bar_handle : Int) (rc : Int) (priv : Private) :
    Prog PciApi (Int × Private) := do
  if pci_bar_handle ≠ PCI_BAR_HANDLE_INIT then
    let _ret ← fpga_pci_detach pci_bar_handle
    return (rc, priv)
  else
    return (rc, priv)

/-- What the operations share: `body` stands between the check of the ID and `out`. -/
def aws_clkgen_attached (slot_id : Int) (body : Int → Private → Prog PciApi Int) (priv : Private) :
    Prog PciApi (Int × Private) := do
  let (rc, pci_bar_handle) ← fpga_pci_attach slot_id AWS_CLKGEN_PF AWS_CLKGEN_BAR 0
  if rc ≠ 0 then
    aws_clkgen_out pci_bar_handle rc priv
  else
    let (rc, priv) ← aws_clkgen_mmcm_init pci_bar_handle priv
    if rc ≠ 0 then
      aws_clkgen_out pci_bar_handle rc priv
    else
      let rc ← aws_clkgen_check_id pci_bar_handle
      if rc ≠ 0 then
        aws_clkgen_out pci_bar_handle FPGA_ERR_CLKGEN_NOT_FOUND priv
      else
        let rc ← body pci_bar_handle priv
        aws_clkgen_out pci_bar_handle rc priv

/-- All resets on, the four groups set, all resets off. -/
def aws_clkgen_set_groups (set : ClkgenGroup → Private → Prog PciApi Int) (pci_bar_handle : Int)
    (priv : Private) : Prog PciApi Int :=
  .andThen (aws_clkgen_reset pci_bar_handle 1 priv) <|
  .andThen (set clkgen_group_a priv) <|
  .andThen (set clkgen_group_b priv) <|
  .andThen (set clkgen_group_c priv) <|
  .andThen (set clkgen_group_hbm priv) <|
  aws_clkgen_reset pci_bar_handle 0 priv

/-- The recipes the four indices stand for, if all are in their tables. -/
def recipes (recipe_a recipe_b recipe_c recipe_hbm : BitVec 32) :
    Option (ClkgenGroup → ClkgenRecipe) := do
  let a ← clkgen_a_recipes[recipe_a.toNat]?
  let b ← clkgen_b_recipes[recipe_b.toNat]?
  let c ← clkgen_c_recipes[recipe_c.toNat]?
  let hbm ← clkgen_hbm_recipes[recipe_hbm.toNat]?
  return fun
    | clkgen_group_a => a
    | clkgen_group_b => b
    | clkgen_group_c => c
    | clkgen_group_hbm => hbm

def aws_clkgen_set_recipe (slot_id : Int) (recipe_a recipe_b recipe_c recipe_hbm reset : BitVec 32)
    (priv : Private) : Prog PciApi (Int × Private) :=
  let selected :=
    if reset = 0 then recipes recipe_a recipe_b recipe_c recipe_hbm else recipes 0 0 0 0
  match selected with
  | none => return (FPGA_ERR_INVALID_CLKGEN_INPUTS, priv)
  | some recipe =>
    aws_clkgen_attached slot_id
      (aws_clkgen_set_groups fun group => aws_clkgen_set_mmcm group (recipe group) reset) priv

/-- The frequency each group is asked for. -/
def frequencies (clk_a_freq clk_b_freq clk_c_freq clk_hbm_freq : BitVec 32) :
    ClkgenGroup → BitVec 32
  | clkgen_group_a => clk_a_freq
  | clkgen_group_b => clk_b_freq
  | clkgen_group_c => clk_c_freq
  | clkgen_group_hbm => clk_hbm_freq

/-- The largest frequency a group may be asked for. -/
def maxFrequency : ClkgenGroup → BitVec 32 :=
  frequencies CLKGEN_A_1_MAX CLKGEN_B_0_MAX CLKGEN_C_0_MAX CLKGEN_HBM_MAX

def aws_clkgen_set_dynamic (slot_id : Int)
    (clk_a_freq clk_b_freq clk_c_freq clk_hbm_freq reset : BitVec 32) (priv : Private) :
    Prog PciApi (Int × Private) :=
  let freq := frequencies clk_a_freq clk_b_freq clk_c_freq clk_hbm_freq
  if reset = 0 ∧ groups.any fun group => decide (maxFrequency group < freq group) then
    return (FPGA_ERR_INVALID_CLKGEN_INPUTS, priv)
  else
    let freq := if reset = 0 then freq else fun _ => 0
    aws_clkgen_attached slot_id
      (aws_clkgen_set_groups fun group => aws_clkgen_set_freq group (freq group) reset) priv

def aws_clkgen_deassert_resets (slot_id : Int) (priv : Private) : Prog PciApi (Int × Private) :=
  aws_clkgen_attached slot_id (fun handle priv => aws_clkgen_reset handle 0 priv) priv

def aws_clkgen_reset_toggle (slot_id : Int) (priv : Private) : Prog PciApi (Int × Private) :=
  aws_clkgen_attached slot_id (fun handle priv =>
    .andThen (aws_clkgen_reset handle 1 priv) (aws_clkgen_reset handle 0 priv)) priv

end AwsFpga.Clkgen
