import Mathlib.Data.Int.Bitwise
import AwsFpga.Pci.Api

/-!
# The hardware registers of the streaming data engine (`sde_hw_ctrl.c`, `sde_hw_regs.h`)

The engine is configured through BAR 0 and BAR 4 of the application function.
Both base offsets, `GLOBAL_ATG_OFFSET` and `GLOBAL_SDE_OFFSET`, are 0.
-/

open Lib AwsFpga.Pci

namespace AwsFpga.Sde

inductive SdeSubsystem where
  | c2h
  | h2c
  deriving DecidableEq

def SDE_UNEXPECTED_REGISTER_VALUE : Int := 0x1000
def SDE_ALLOCATION_FAILURE : Int := 0x1001
def SDE_STATUS_COUNTER_ERROR : Int := 0x1002
def SDE_DESC_LIMIT_TIMEOUT : Int := 0x1003
def SDE_METADATA_VALID_TIMEOUT : Int := 0x1004

/-- `struct sde_hw_ctrl`. -/
structure SdeHwCtrl where
  slot_id : Int
  bar0_handle : Int
  bar4_handle : Int
  bar4_wc_handle : Int
  initialized : Bool
  deriving DecidableEq

def APP_PF_BAR0 : Int := 0
def APP_PF_BAR4 : Int := 4

/-! ## Opening and closing -/

/-- Answers the code and the struct. Every attach is made, and the codes are combined with `|=`. -/
def sde_hw_init (slot_id : Int) : Prog PciApi (Int × SdeHwCtrl) := do
  let (ret₀, bar0_handle) ← fpga_pci_attach slot_id FPGA_APP_PF APP_PF_BAR0 0
  let (ret₁, bar4_handle) ← fpga_pci_attach slot_id FPGA_APP_PF APP_PF_BAR4 0
  let (ret₂, bar4_wc_handle) ← fpga_pci_attach slot_id FPGA_APP_PF APP_PF_BAR4 BURST_CAPABLE
  let ret := Int.lor (Int.lor ret₀ ret₁) ret₂
  return (ret, ⟨slot_id, bar0_handle, bar4_handle, bar4_wc_handle, ret = 0⟩)

def sde_hw_close (ctrl : SdeHwCtrl) : Prog PciApi (Int × SdeHwCtrl) := do
  if ctrl.initialized then
    let ret₀ ← fpga_pci_detach ctrl.bar0_handle
    let ret₁ ← fpga_pci_detach ctrl.bar4_handle
    let ret₂ ← fpga_pci_detach ctrl.bar4_wc_handle
    return (Int.lor (Int.lor ret₀ ret₁) ret₂, { ctrl with initialized := false })
  else
    return (0, ctrl)

/-! ## Registers -/

def SDE_ATG_TX_CTRL_REG : BitVec 64 := 0x0
def SDE_ATG0_DATA_REG : BitVec 64 := 0x4
def SDE_ATG0_SIZE_REG : BitVec 64 := 0x8
def SDE_ATG1_DATA_REG : BitVec 64 := 0xC
def SDE_ATG1_SIZE_REG : BitVec 64 := 0x10
def SDE_RX_CONTROL_REG : BitVec 64 := 0x180
def SDE_GENERAL_PURPOSE_CFG_REG : BitVec 64 := 0x2000

def RCR_LOOPBACK_EN_MASK : BitVec 32 := 0x1
def RCR_BACKPRESSURE_EN_MASK : BitVec 32 := 0x10
def GPCR_SDE_RESET_MASK : BitVec 32 := 0x1

def SDE_C2H_DESC_RAM_MAP_OFFSET : BitVec 64 := 0x0
def SDE_H2C_DESC_RAM_MAP_OFFSET : BitVec 64 := 0x1000
def SDE_CONFIG_REG_MAP_OFFSET : BitVec 64 := 0x3000

def SDE_C2H_CSRS_REGS_OFFSET : BitVec 64 := 0x400 + SDE_CONFIG_REG_MAP_OFFSET
def SDE_H2C_CSRS_REGS_OFFSET : BitVec 64 := 0xA00 + SDE_CONFIG_REG_MAP_OFFSET

/-! The two directions have the same registers, from `SDE_C2H_CSRS_REGS_OFFSET` and
`SDE_H2C_CSRS_REGS_OFFSET` on. Only C2H has those of the metadata ring. -/

def CSRS_REGS_OFFSET : SdeSubsystem → BitVec 64
  | .c2h => SDE_C2H_CSRS_REGS_OFFSET
  | .h2c => SDE_H2C_CSRS_REGS_OFFSET

def DESCRIPTOR_CREDIT_CONSUMED_COUNTER_REG (s : SdeSubsystem) : BitVec 64 := 0x100 + CSRS_REGS_OFFSET s
def DESCRIPTOR_CREDIT_LIMIT_COUNTER_REG (s : SdeSubsystem) : BitVec 64 := 0x104 + CSRS_REGS_OFFSET s
def COMPLETED_DESCRIPTOR_COUNTER_REG (s : SdeSubsystem) : BitVec 64 := 0x108 + CSRS_REGS_OFFSET s
def WRITEBACK_CFG_REG (s : SdeSubsystem) : BitVec 64 := 0x300 + CSRS_REGS_OFFSET s
def STATUS_CNTRS_BADDR_LO_REG (s : SdeSubsystem) : BitVec 64 := 0x304 + CSRS_REGS_OFFSET s
def STATUS_CNTRS_BADDR_HI_REG (s : SdeSubsystem) : BitVec 64 := 0x308 + CSRS_REGS_OFFSET s
def WRITEBACK_COAL_TMO_CNT_REG (s : SdeSubsystem) : BitVec 64 := 0x30C + CSRS_REGS_OFFSET s
def PACKET_COUNT_REG (s : SdeSubsystem) : BitVec 64 := 0x500 + CSRS_REGS_OFFSET s

def SDE_C2H_MD_RING_BADDR_LO_REG : BitVec 64 := 0x318 + SDE_C2H_CSRS_REGS_OFFSET
def SDE_C2H_MD_RING_BADDR_HI_REG : BitVec 64 := 0x31C + SDE_C2H_CSRS_REGS_OFFSET
def SDE_C2H_MD_RING_SZ_REG : BitVec 64 := 0x320 + SDE_C2H_CSRS_REGS_OFFSET
def SDE_C2H_MD_RING_RD_PTR_REG : BitVec 64 := 0x324 + SDE_C2H_CSRS_REGS_OFFSET
def SDE_C2H_MD_RING_WR_PTR_REG : BitVec 64 := 0x328 + SDE_C2H_CSRS_REGS_OFFSET

def WBCR_DESC_CDT_WB_EN_MASK : BitVec 32 := 0x4
def WBCR_DESC_CDT_WC_EN_MASK : BitVec 32 := 0x10
def WBCR_DESC_CNT_WC_EN_MASK : BitVec 32 := 0x20
def WBCR_PKT_CNT_WC_EN_MASK : BitVec 32 := 0x40
def C2H_WBCR_MD_WR_PTR_WC_EN_MASK : BitVec 32 := 0x80
def WBCR_WC_CNT_MINUS1_MASK : BitVec 32 := 0x3F00

/-- `SDE_SET_BITFIELD`: the new content of the word. -/
def SDE_SET_BITFIELD (mask : BitVec 32) (shift : Nat) (value word : BitVec 32) : BitVec 32 :=
  (word &&& ~~~mask) ||| ((value <<< shift) &&& mask)

theorem set_bitfield_and (mask : BitVec 32) (shift : Nat) (value word : BitVec 32) :
    SDE_SET_BITFIELD mask shift value word &&& mask = (value <<< shift) &&& mask := by
  unfold SDE_SET_BITFIELD
  ext i hi
  simp only [BitVec.getElem_and, BitVec.getElem_or, BitVec.getElem_not]
  cases mask[i] <;> simp

def SDE_GET_BITFIELD (mask : BitVec 32) (shift : Nat) (value : BitVec 32) : BitVec 32 :=
  (value &&& mask) >>> shift

/-! ## Writing a register and reading it back -/

def poke_and_verify (handle : Int) (offset : BitVec 64) (value expected_value mask : BitVec 32) :
    Prog PciApi Int := do
  let ret ← fpga_pci_poke handle offset value
  if ret ≠ 0 then
    return ret
  else
    let (ret, data) ← fpga_pci_peek handle offset
    if ret ≠ 0 then
      return ret
    else if data &&& mask ≠ expected_value &&& mask then
      return SDE_UNEXPECTED_REGISTER_VALUE
    else
      return 0

/-- The arguments of a `poke_and_verify`. -/
structure RegWrite where
  offset : BitVec 64
  value : BitVec 32
  expected_value : BitVec 32
  mask : BitVec 32

/-- One `poke_and_verify` after another, until one fails. -/
def poke_all (handle : Int) : List RegWrite → Prog PciApi Int
  | [] => return 0
  | w :: ws => do
    let ret ← poke_and_verify handle w.offset w.value w.expected_value w.mask
    if ret ≠ 0 then return ret else poke_all handle ws

def RegWrite.full (offset : BitVec 64) (value : BitVec 32) : RegWrite :=
  ⟨offset, value, value, 0xffffffff⟩

/-! A `ctrl` that is NULL is `none`. -/

def sde_hw_reset (ctrl : Option SdeHwCtrl) : Prog PciApi Int := do
  match ctrl with
  | none => return FPGA_ERR_SOFTWARE_PROBLEM
  | some ctrl =>
    if ctrl.initialized = false then
      return FPGA_ERR_SOFTWARE_PROBLEM
    else
      let (ret, gpcr_data) ← fpga_pci_peek ctrl.bar0_handle SDE_GENERAL_PURPOSE_CFG_REG
      if ret ≠ 0 then
        return ret
      else
        poke_all ctrl.bar0_handle
          [⟨SDE_GENERAL_PURPOSE_CFG_REG, SDE_SET_BITFIELD GPCR_SDE_RESET_MASK 0 1 gpcr_data,
            GPCR_SDE_RESET_MASK, GPCR_SDE_RESET_MASK⟩,
          ⟨SDE_GENERAL_PURPOSE_CFG_REG, SDE_SET_BITFIELD GPCR_SDE_RESET_MASK 0 0
            (SDE_SET_BITFIELD GPCR_SDE_RESET_MASK 0 1 gpcr_data), 0, GPCR_SDE_RESET_MASK⟩]

/-- The writes of a function to one BAR, unless the control is not open. -/
def cfg_writes (ctrl : Option SdeHwCtrl) (bar : SdeHwCtrl → Int) (writes : List RegWrite) :
    Prog PciApi Int :=
  match ctrl with
  | none => return FPGA_ERR_SOFTWARE_PROBLEM
  | some ctrl =>
    if ctrl.initialized = false then return FPGA_ERR_SOFTWARE_PROBLEM else poke_all (bar ctrl) writes

/-- A `bool` as a register value. -/
def of_bool (enable : Bool) : BitVec 32 := if enable then 1 else 0

def sde_hw_cfg_loopback_mode (ctrl : Option SdeHwCtrl) (enable : Bool) : Prog PciApi Int :=
  let rx_control_value := SDE_SET_BITFIELD RCR_BACKPRESSURE_EN_MASK 4 (of_bool enable)
    (SDE_SET_BITFIELD RCR_LOOPBACK_EN_MASK 0 (of_bool enable) 0)
  cfg_writes ctrl SdeHwCtrl.bar0_handle
    [⟨SDE_RX_CONTROL_REG, rx_control_value, rx_control_value, RCR_LOOPBACK_EN_MASK⟩]

def sde_hw_cfg_atg_mode (ctrl : Option SdeHwCtrl) (enable : Bool) (data pkt_size : BitVec 32) :
    Prog PciApi Int :=
  let atg_cfg_pkt_size := pkt_size >>> 6
  cfg_writes ctrl SdeHwCtrl.bar0_handle
    [.full SDE_ATG0_DATA_REG data, .full SDE_ATG1_DATA_REG data,
    .full SDE_ATG0_SIZE_REG atg_cfg_pkt_size, .full SDE_ATG1_SIZE_REG atg_cfg_pkt_size,
    ⟨SDE_ATG_TX_CTRL_REG, of_bool enable, of_bool enable, 0x7fffffff⟩]

/-- The writes that both directions have. The counters are cleared by writing 0, and the limit then
reads as the depth of the descriptor RAM. -/
def cfg_common (s : SdeSubsystem) (wb_cfg_value : BitVec 32) (status_pa : BitVec 64) : List RegWrite :=
  let tick_to_wc_count : BitVec 32 := 0xf
  let wc_to_tick_count : BitVec 32 := 0x40000
  let coal_tmo_cnt_value := SDE_SET_BITFIELD 0xFFFFF 0 wc_to_tick_count
    (SDE_SET_BITFIELD 0xF00000 20 tick_to_wc_count 0)
  [.full (WRITEBACK_CFG_REG s) wb_cfg_value,
  .full (STATUS_CNTRS_BADDR_LO_REG s) (status_pa.setWidth 32),
  .full (STATUS_CNTRS_BADDR_HI_REG s) ((status_pa >>> 32).setWidth 32),
  .full (WRITEBACK_COAL_TMO_CNT_REG s) coal_tmo_cnt_value,
  .full (DESCRIPTOR_CREDIT_CONSUMED_COUNTER_REG s) 0,
  ⟨DESCRIPTOR_CREDIT_LIMIT_COUNTER_REG s, 0, 0x40, 0xffffffff⟩,
  .full (COMPLETED_DESCRIPTOR_COUNTER_REG s) 0,
  .full (PACKET_COUNT_REG s) 0]

def writes_to_coalesc : BitVec 32 := 8

def sde_hw_cfg_c2h (ctrl : Option SdeHwCtrl) (c2h_status_pa c2h_md_ring_pa : BitVec 64)
    (c2h_md_ring_size : BitVec 32) : Prog PciApi Int :=
  let wb_cfg_value := SDE_SET_BITFIELD WBCR_WC_CNT_MINUS1_MASK 8 (writes_to_coalesc - 1)
    (WBCR_DESC_CDT_WB_EN_MASK ||| WBCR_DESC_CDT_WC_EN_MASK ||| WBCR_DESC_CNT_WC_EN_MASK |||
      WBCR_PKT_CNT_WC_EN_MASK ||| C2H_WBCR_MD_WR_PTR_WC_EN_MASK)
  cfg_writes ctrl SdeHwCtrl.bar4_handle (cfg_common .c2h wb_cfg_value c2h_status_pa ++
    [.full SDE_C2H_MD_RING_BADDR_LO_REG (c2h_md_ring_pa.setWidth 32),
    .full SDE_C2H_MD_RING_BADDR_HI_REG ((c2h_md_ring_pa >>> 32).setWidth 32),
    .full SDE_C2H_MD_RING_SZ_REG c2h_md_ring_size,
    .full SDE_C2H_MD_RING_RD_PTR_REG 0,
    .full SDE_C2H_MD_RING_WR_PTR_REG 0])

def sde_hw_cfg_h2c (ctrl : Option SdeHwCtrl) (h2c_status_pa : BitVec 64) : Prog PciApi Int :=
  let h2c_wb_cfg_csr_value := SDE_SET_BITFIELD WBCR_WC_CNT_MINUS1_MASK 8 (writes_to_coalesc - 1)
    (WBCR_DESC_CDT_WB_EN_MASK ||| WBCR_DESC_CDT_WC_EN_MASK ||| WBCR_DESC_CNT_WC_EN_MASK |||
      WBCR_PKT_CNT_WC_EN_MASK)
  cfg_writes ctrl SdeHwCtrl.bar4_handle (cfg_common .h2c h2c_wb_cfg_csr_value h2c_status_pa)

/-! ## Posting descriptors -/

/-- The bytes of a `struct c2h_desc` or `struct h2c_desc`, both packed. -/
def desc_element_size : SdeSubsystem → Nat
  | .c2h => 16
  | .h2c => 32

def DESC_RAM_MAP_OFFSET : SdeSubsystem → BitVec 64
  | .c2h => SDE_C2H_DESC_RAM_MAP_OFFSET
  | .h2c => SDE_H2C_DESC_RAM_MAP_OFFSET

/-- Both loops of `sde_hw_post_descriptor`: `left` more dwords, from `descriptor index` on. -/
def post_dwords (handle : Int) (offset : BitVec 64) (descriptor : Nat → BitVec 32) :
    (left index : Nat) → Prog PciApi Int
  | 0, _ => return 0
  | left + 1, index => do
    let ret ← fpga_pci_poke handle offset (descriptor index)
    if ret ≠ 0 then return ret else post_dwords handle offset descriptor left (index + 1)

/-- `descriptor i` is the dword at `descriptor_va + 4 * i`. -/
def sde_hw_post_descriptor (ctrl : Option SdeHwCtrl) (descriptor : Nat → BitVec 32) (num_desc : Nat)
    (subsystem : SdeSubsystem) : Prog PciApi Int :=
  match ctrl with
  | none => return FPGA_ERR_SOFTWARE_PROBLEM
  | some ctrl =>
    if ctrl.initialized = false then
      return FPGA_ERR_SOFTWARE_PROBLEM
    else
      post_dwords ctrl.bar4_handle (DESC_RAM_MAP_OFFSET subsystem) descriptor
        (num_desc * (desc_element_size subsystem / 4)) 0

end AwsFpga.Sde
