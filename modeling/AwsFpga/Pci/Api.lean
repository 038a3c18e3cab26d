import AwsFpga.Lib.Prog
import AwsFpga.Common

/-!
# What `fpga_pci.h` offers to the libraries above it

An attach answers its return code and what it left in `*handle`, a peek its
return code and what it left in `*value`.
-/

open Lib

namespace AwsFpga.Pci

abbrev FPGA_SLOT_MAX : Nat := 8
def FPGA_APP_PF : Int := 0
def FPGA_MGMT_PF : Int := 1

def PCI_BAR_HANDLE_INIT : Int := -1

def BURST_CAPABLE : BitVec 32 := 1

/-- `struct fpga_pci_resource_map`: the IDs of a physical function. -/
structure FpgaPciResourceMap where
  vendor_id : BitVec 16
  device_id : BitVec 16
  subsystem_device_id : BitVec 16
  subsystem_vendor_id : BitVec 16
  deriving DecidableEq

/-- `struct fpga_slot_spec`. -/
structure FpgaSlotSpec where
  app : FpgaPciResourceMap
  mgmt : FpgaPciResourceMap
  deriving DecidableEq

inductive PciOp where
  | init
  | attach (slot_id pf_id bar_id : Int) (flags : BitVec 32)
  | detach (handle : Int)
  | peek (handle : Int) (offset : BitVec 64)
  | poke (handle : Int) (offset : BitVec 64) (value : BitVec 32)
  | get_slot_spec (slot_id : Int)
  | get_resource_map (slot_id pf_id : Int)
  | rescan_slot_app_pfs (slot_id : Int)
  -- From the C library: `msleep` of `lcd.h`, and `rand`.
  | msleep (ms : BitVec 32)
  | rand
  deriving DecidableEq

def PciOp.Ans : PciOp → Type
  | .init => Int
  | .attach .. => Int × Int
  | .detach _ => Int
  | .peek .. => Int × BitVec 32
  | .poke .. => Int
  | .get_slot_spec _ => Int × FpgaSlotSpec
  | .get_resource_map .. => Int × FpgaPciResourceMap
  | .rescan_slot_app_pfs _ => Int
  | .msleep _ => Unit
  | .rand => BitVec 32

abbrev PciApi : Iface := ⟨PciOp, PciOp.Ans⟩

/-- A bus on which every call succeeds and reads zeros. -/
def PciOp.quiet : (o : PciOp) → o.Ans
  | .attach .. => (0, 0)
  | .peek .. => (0, 0)
  | .init | .detach _ | .poke .. | .rescan_slot_app_pfs _ => (0 : Int)
  | .get_slot_spec _ => (0, ⟨⟨0, 0, 0, 0⟩, ⟨0, 0, 0, 0⟩⟩)
  | .get_resource_map .. => (0, ⟨0, 0, 0, 0⟩)
  | .msleep _ => ()
  | .rand => 0#32

/-- The return code in an answer. A call that cannot fail has the code 0. -/
def pciCode : (o : PciOp) → o.Ans → Int
  | .init, ret => (ret : Int)
  | .attach .., r => (r : Int × Int).1
  | .detach _, ret => (ret : Int)
  | .peek .., r => (r : Int × BitVec 32).1
  | .poke .., ret => (ret : Int)
  | .get_slot_spec _, r => (r : Int × FpgaSlotSpec).1
  | .get_resource_map .., r => (r : Int × FpgaPciResourceMap).1
  | .rescan_slot_app_pfs _, ret => (ret : Int)
  | .msleep _, _ => 0
  | .rand, _ => 0

def fpga_pci_attach (slot_id pf_id bar_id : Int) (flags : BitVec 32) : Prog PciApi (Int × Int) :=
  Prog.op (I := PciApi) (.attach slot_id pf_id bar_id flags)

def fpga_pci_detach (handle : Int) : Prog PciApi Int :=
  Prog.op (I := PciApi) (.detach handle)

def fpga_pci_peek (handle : Int) (offset : BitVec 64) : Prog PciApi (Int × BitVec 32) :=
  Prog.op (I := PciApi) (.peek handle offset)

def fpga_pci_poke (handle : Int) (offset : BitVec 64) (value : BitVec 32) : Prog PciApi Int :=
  Prog.op (I := PciApi) (.poke handle offset value)

def msleep (ms : BitVec 32) : Prog PciApi Unit :=
  Prog.op (I := PciApi) (.msleep ms)

/-! ## Runs of a program that starts with one of these calls -/

variable {α : Type}

@[simp] theorem runs_attach (slot_id pf_id bar_id : Int) (flags : BitVec 32)
    (f : Int × Int → Prog PciApi α) (t : List PciApi.Event) (b : α) :
    (fpga_pci_attach slot_id pf_id bar_id flags >>= f).Runs t b ↔
      ∃ ret handle t', t = ⟨.attach slot_id pf_id bar_id flags, (ret, handle)⟩ :: t' ∧
        (f (ret, handle)).Runs t' b :=
  ⟨fun ⟨(ret, handle), t', h⟩ => ⟨ret, handle, t', h⟩,
    fun ⟨ret, handle, t', h⟩ => ⟨(ret, handle), t', h⟩⟩

@[simp] theorem runs_detach (handle : Int) (f : Int → Prog PciApi α) (t : List PciApi.Event)
    (b : α) :
    (fpga_pci_detach handle >>= f).Runs t b ↔
      ∃ ret t', t = ⟨.detach handle, ret⟩ :: t' ∧ (f ret).Runs t' b := Iff.rfl

@[simp] theorem runs_peek (handle : Int) (offset : BitVec 64)
    (f : Int × BitVec 32 → Prog PciApi α) (t : List PciApi.Event) (b : α) :
    (fpga_pci_peek handle offset >>= f).Runs t b ↔
      ∃ ret value t', t = ⟨.peek handle offset, (ret, value)⟩ :: t' ∧
        (f (ret, value)).Runs t' b :=
  ⟨fun ⟨(ret, value), t', h⟩ => ⟨ret, value, t', h⟩,
    fun ⟨ret, value, t', h⟩ => ⟨(ret, value), t', h⟩⟩

@[simp] theorem runs_poke (handle : Int) (offset : BitVec 64) (value : BitVec 32)
    (f : Int → Prog PciApi α) (t : List PciApi.Event) (b : α) :
    (fpga_pci_poke handle offset value >>= f).Runs t b ↔
      ∃ ret t', t = ⟨.poke handle offset value, ret⟩ :: t' ∧ (f ret).Runs t' b := Iff.rfl

@[simp] theorem runs_msleep (ms : BitVec 32) (f : Unit → Prog PciApi α) (t : List PciApi.Event) (b : α) :
    (msleep ms >>= f).Runs t b ↔ ∃ t', t = ⟨.msleep ms, ()⟩ :: t' ∧ (f ()).Runs t' b :=
  ⟨fun ⟨(), t', h⟩ => ⟨t', h⟩, fun ⟨t', h⟩ => ⟨(), t', h⟩⟩

end AwsFpga.Pci
