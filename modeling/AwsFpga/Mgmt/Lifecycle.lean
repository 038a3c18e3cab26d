import AwsFpga.Mgmt.Cmd

/-!
# Opening and closing the library, and the virtual LEDs and DIPs (`fpga_mgmt.c`)
-/

open Lib AwsFpga.Pci AwsFpga.Mbox

namespace AwsFpga.Mgmt

def fpga_mgmt_init : MgmtM Int := do
  modify fun s => { s with slots := fun _ => PCI_BAR_HANDLE_INIT, initialized := true }
  Hal.pci_init

/-- The loop of `fpga_mgmt_close`. The test of the handle is the one `fpga_mgmt_mbox_detach`
makes. -/
def close_slots : List (Fin FPGA_SLOT_MAX) → MgmtM Unit
  | [] => return ()
  | slot :: rest => do
    let _ret ← fpga_mgmt_mbox_detach slot
    close_slots rest

def fpga_mgmt_close : MgmtM Int := do
  let s ← get
  if ¬ s.initialized then
    return 0
  else
    modify fun s => { s with initialized := false }
    close_slots (List.finRange FPGA_SLOT_MAX)
    return 0

def MGMT_PF_BAR0 : Int := 0
def FPGA_VIRTUAL_LED_REG_OFFSET : BitVec 64 := 0xD0
def FPGA_VIRTUAL_DIP_REG_OFFSET : BitVec 64 := 0xD4

/-- One access to a BAR attached for it. `value` is what the out argument held before. A failed
access returns with the BAR attached. -/
def virtual_access {α : Type} (slot_id : Int) (value : α) (access : Int → MgmtM (Int × α)) :
    MgmtM (Int × α) := do
  let (ret, pci_bar) ← Hal.pci_attach slot_id FPGA_MGMT_PF MGMT_PF_BAR0 0
  if ret ≠ 0 then
    return (ret, value)
  else
    let (ret, value) ← access pci_bar
    if ret ≠ 0 then
      return (ret, value)
    else
      let ret ← Hal.pci_detach pci_bar
      return (ret, value)

/-- A 16-bit register: the low half of the dword. -/
def peek_low (offset : BitVec 64) (value : BitVec 16) (pci_bar : Int) :
    MgmtM (Int × BitVec 16) := do
  let (ret, read_data) ← Hal.pci_peek pci_bar offset
  if ret ≠ 0 then return (ret, value) else return (0, (read_data &&& 0xFFFF).setWidth 16)

def fpga_mgmt_get_vLED_status (slot_id : Int) (status : BitVec 16) : MgmtM (Int × BitVec 16) :=
  virtual_access slot_id status (peek_low FPGA_VIRTUAL_LED_REG_OFFSET status)

def fpga_mgmt_get_vDIP_status (slot_id : Int) (value : BitVec 16) : MgmtM (Int × BitVec 16) :=
  virtual_access slot_id value (peek_low FPGA_VIRTUAL_DIP_REG_OFFSET value)

def fpga_mgmt_set_vDIP (slot_id : Int) (value : BitVec 16) : MgmtM (Int × Unit) :=
  virtual_access slot_id () fun pci_bar => do
    let ret ← Hal.pci_poke pci_bar FPGA_VIRTUAL_DIP_REG_OFFSET (value.setWidth 32)
    return (ret, ())

end AwsFpga.Mgmt
