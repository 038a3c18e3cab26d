import Mathlib.Data.List.OfFn
import Mathlib.Logic.Function.Basic
import AwsFpga.Lib.Exec
import AwsFpga.Mbox.Hal

/-!
# What the management library is built on

Its functions call the mailbox driver and `fpga_pci.h`, and keep their state in
`fpga_mgmt_state`. A command or response is one buffer of 4096 bytes.
-/

open Lib AwsFpga.Pci AwsFpga.Mbox

namespace AwsFpga.Mgmt

/-! ## Commands (`afi_cmd_api.h`) -/

def AFI_CMD_DATA_LEN : Nat := 4096

/-- `union afi_cmd`, as its dwords. The first four are the header, the rest is the body. -/
abbrev AfiCmd : Type := Fin 1024 → BitVec 32

instance afiCmd_neZero : NeZero 1024 := ⟨by decide⟩

def AfiCmd.zero : AfiCmd := fun _ => 0

namespace AfiCmd

def version (cmd : AfiCmd) : BitVec 32 := cmd 0
def op (cmd : AfiCmd) : BitVec 32 := cmd 1
def len_flags (cmd : AfiCmd) : BitVec 32 := cmd 2
def id (cmd : AfiCmd) : BitVec 32 := cmd 3

theorem body_first : 0 < 1020 := by decide

def body (cmd : AfiCmd) (i : Nat) (h : i < 1020 := by decide) : BitVec 32 := cmd ⟨4 + i, by omega⟩

/-- Byte `i` of the body. The host is little endian. -/
def body_byte (cmd : AfiCmd) (i : Nat) (h : i < 4080 := by decide) : BitVec 8 :=
  (cmd.body (i / 4) (by omega) >>> (8 * (i % 4))).setWidth 8

/-- The buffer after a message was read into it. What the message does not reach stays. -/
def store (cmd : AfiCmd) (words : List (BitVec 32)) : AfiCmd := fun i => words.getD i (cmd i)

def dwords (cmd : AfiCmd) : List (BitVec 32) := List.ofFn cmd

end AfiCmd

def AFI_CMD_API_VERSION : BitVec 32 := 0x10002
def MAJOR_VERSION (x : BitVec 32) : BitVec 32 := x &&& 0xFFFF

def AFI_CMD_HDR_FLAGS_SHIFT : Nat := 24
def AFI_CMD_HDR_LEN_MASK : BitVec 32 := 0xFFFFFF
def AFI_CMD_HDR_IS_RSP : BitVec 32 := 1
def AFI_CMD_HDR_ALL_FLAGS : BitVec 32 := AFI_CMD_HDR_IS_RSP

def AFI_CMD_ERROR : BitVec 32 := 0
def AFI_CMD_LOAD : BitVec 32 := 1
def AFI_CMD_METRICS : BitVec 32 := 2
def AFI_CMD_CLEAR : BitVec 32 := 3

/-! ## Flags and statuses (`hal/fpga_common.h`) -/

def FPGA_CMD_GET_HW_METRICS : BitVec 32 := 2
def FPGA_CMD_CLEAR_HW_METRICS : BitVec 32 := 4
def FPGA_CMD_FORCE_SHELL_RELOAD : BitVec 32 := 8
def FPGA_CMD_DRAM_DATA_RETENTION : BitVec 32 := 16
def FPGA_CMD_EXTENDED_METRICS_SIZE : BitVec 32 := 64
def FPGA_CMD_PREFETCH : BitVec 32 := 128
def FPGA_CMD_CLEAR_AFI_CACHE : BitVec 32 := 256

def FPGA_CMD_ALL_FLAGS : BitVec 32 :=
  FPGA_CMD_GET_HW_METRICS ||| FPGA_CMD_CLEAR_HW_METRICS ||| FPGA_CMD_FORCE_SHELL_RELOAD |||
    FPGA_CMD_DRAM_DATA_RETENTION ||| FPGA_CMD_EXTENDED_METRICS_SIZE ||| FPGA_CMD_PREFETCH |||
    FPGA_CMD_CLEAR_AFI_CACHE

def FPGA_CMD_UNSUPPORTED_FLAGS : BitVec 32 :=
  FPGA_CMD_FORCE_SHELL_RELOAD ||| FPGA_CMD_DRAM_DATA_RETENTION ||| FPGA_CMD_EXTENDED_METRICS_SIZE

def FPGA_STATUS_LOADED : Int := 0
def FPGA_STATUS_CLEARED : Int := 1
def FPGA_STATUS_BUSY : Int := 2
def FPGA_STATUS_LOADING_RL : Int := 5
def FPGA_STATUS_END : Int := 8

def FPGA_MBOX_RESOURCE_NUM : Int := 0

/-! ## Slots -/

/-- The check `fail_slot_id`: the index into the slot table, if there is one. -/
def slotIndex (slot_id : Int) : Option (Fin FPGA_SLOT_MAX) :=
  if h : 0 ≤ slot_id ∧ slot_id < 8 then
    some ⟨slot_id.toNat, by change slot_id.toNat < 8; omega⟩
  else
    none

/-! ## The layer below -/

inductive HalOp where
  | pci (o : PciOp)
  | mbox_init (mbox : FpgaHalMbox)
  | mbox_attach (handle : Int) (clear_state : Bool)
  | mbox_detach (handle : Int) (clear_state : Bool)
  | mbox_get_versions (handle : Int)
  | mbox_write (handle : Int) (msg : List (BitVec 32)) (len : Nat)
  | mbox_read (handle : Int)

/-- A read answers its code and the dwords it stored. On success their number sets `*len`. -/
def HalOp.Ans : HalOp → Type
  | .pci o => o.Ans
  | .mbox_init _ => Int
  | .mbox_attach .. => Int
  | .mbox_detach .. => Int
  | .mbox_get_versions _ => Int × BitVec 32
  | .mbox_write .. => Int
  | .mbox_read _ => Int × List (BitVec 32)

abbrev HalApi : Iface := ⟨HalOp, HalOp.Ans⟩

/-- The driver under these calls, with `priv.mbox` as its state. -/
def halImpl : (o : HalOp) → SProg PciApi FpgaHalMbox (o.Ans)
  | .pci o => liftProg (Prog.op (I := PciApi) o)
  | .mbox_init mbox => do
    set mbox
    return (0 : Int)
  | .mbox_attach handle clear_state => liftProg (fpga_hal_mbox_attach handle clear_state)
  | .mbox_detach handle clear_state => liftProg (fpga_hal_mbox_detach handle clear_state)
  | .mbox_get_versions handle => liftProg (fpga_hal_mbox_get_versions handle)
  | .mbox_write handle msg len => do
    liftProg (fpga_hal_mbox_write (← get) handle msg len)
  | .mbox_read handle => do
    liftProg (fpga_hal_mbox_read (← get) handle)

/-! ## The state of the library -/

structure FpgaMgmtState where
  slots : Fin FPGA_SLOT_MAX → Int
  timeout : BitVec 32
  delay_msec : BitVec 32
  initialized : Bool
  /-- The static `id` of `afi_get_next_id`. -/
  next_id : BitVec 32

def FPGA_MGMT_TIMEOUT_DFLT : BitVec 32 := 2500
def FPGA_MGMT_DELAY_MSEC_DFLT : BitVec 32 := 2

/-- The handles are static storage: 0 until `fpga_mgmt_init` writes `PCI_BAR_HANDLE_INIT`. -/
def FpgaMgmtState.start : FpgaMgmtState where
  slots := fun _ => 0
  timeout := FPGA_MGMT_TIMEOUT_DFLT
  delay_msec := FPGA_MGMT_DELAY_MSEC_DFLT
  initialized := false
  next_id := 0

abbrev MgmtM : Type → Type := SProg HalApi FpgaMgmtState

def hal (o : HalOp) : MgmtM o.Ans := liftProg (Prog.op (I := HalApi) o)

def pci (o : PciOp) : MgmtM o.Ans := hal (.pci o)

def set_handle (slot : Fin FPGA_SLOT_MAX) (handle : Int) : MgmtM Unit :=
  modify fun s => { s with slots := Function.update s.slots slot handle }

/-! ## The calls -/

namespace Hal

def pci_init : MgmtM Int := pci .init
def pci_attach (slot_id pf_id bar_id : Int) (flags : BitVec 32) : MgmtM (Int × Int) :=
  pci (.attach slot_id pf_id bar_id flags)
def pci_detach (handle : Int) : MgmtM Int := pci (.detach handle)
def pci_peek (handle : Int) (offset : BitVec 64) : MgmtM (Int × BitVec 32) :=
  pci (.peek handle offset)
def pci_poke (handle : Int) (offset : BitVec 64) (value : BitVec 32) : MgmtM Int :=
  pci (.poke handle offset value)
def get_slot_spec (slot_id : Int) : MgmtM (Int × FpgaSlotSpec) := pci (.get_slot_spec slot_id)
def get_resource_map (slot_id pf_id : Int) : MgmtM (Int × FpgaPciResourceMap) :=
  pci (.get_resource_map slot_id pf_id)
def rescan_slot_app_pfs (slot_id : Int) : MgmtM Int := pci (.rescan_slot_app_pfs slot_id)
def msleep (ms : BitVec 32) : MgmtM Unit := pci (.msleep ms)
def rand : MgmtM (BitVec 32) := pci .rand

def mbox_init (mbox : FpgaHalMbox) : MgmtM Int := hal (.mbox_init mbox)
def mbox_attach (handle : Int) (clear_state : Bool) : MgmtM Int :=
  hal (.mbox_attach handle clear_state)
def mbox_detach (handle : Int) (clear_state : Bool) : MgmtM Int :=
  hal (.mbox_detach handle clear_state)
def mbox_get_versions (handle : Int) : MgmtM (Int × BitVec 32) := hal (.mbox_get_versions handle)
def mbox_write (handle : Int) (msg : List (BitVec 32)) (len : Nat) : MgmtM Int :=
  hal (.mbox_write handle msg len)
def mbox_read (handle : Int) : MgmtM (Int × List (BitVec 32)) := hal (.mbox_read handle)

end Hal

/-- A mailbox that delivers these messages, on a quiet bus. -/
def mailbox : Prog.Handler HalApi (List (List (BitVec 32))) := fun o pending =>
  match o, pending with
  | .mbox_read _, [] => ((-ETIMEDOUT, []), [])
  | .mbox_read _, words :: pending => ((0, words), pending)
  | .mbox_get_versions _, pending => ((0, 0), pending)
  | .mbox_init _, pending => ((0 : Int), pending)
  | .mbox_attach .., pending => ((0 : Int), pending)
  | .mbox_detach .., pending => ((0 : Int), pending)
  | .mbox_write .., pending => ((0 : Int), pending)
  | .pci o, pending => (o.quiet, pending)

/-! ## Runs of a function that starts with one of these calls -/

section Runs

variable {β : Type} {s s' : FpgaMgmtState} {t : List HalApi.Event} {b : β}

theorem exec_hal (o : HalOp) (r : o.Ans) :
    Exec (hal o) s t r s' ↔ t = [⟨o, r⟩] ∧ s' = s :=
  exec_op (I := HalApi) o r s s' t

theorem exec_hal_bind (o : HalOp) (f : o.Ans → MgmtM β) :
    Exec (hal o >>= f) s t b s' ↔ ∃ r t', t = ⟨o, r⟩ :: t' ∧ Exec (f r) s t' b s' :=
  exec_op_bind (I := HalApi) o f s s' t b

theorem exec_mbox_read (handle : Int) (f : Int × List (BitVec 32) → MgmtM β) :
    Exec (Hal.mbox_read handle >>= f) s t b s' ↔
      ∃ (ret : Int) (words : List (BitVec 32)) (t' : List HalApi.Event),
        t = ⟨.mbox_read handle, (ret, words)⟩ :: t' ∧
        Exec (f (ret, words)) s t' b s' :=
  (exec_hal_bind (.mbox_read handle) f).trans
    ⟨fun ⟨(ret, words), t', h⟩ => ⟨ret, words, t', h⟩,
      fun ⟨ret, words, t', h⟩ => ⟨(ret, words), t', h⟩⟩

theorem exec_mbox_write (handle : Int) (msg : List (BitVec 32)) (len : Nat) (f : Int → MgmtM β) :
    Exec (Hal.mbox_write handle msg len >>= f) s t b s' ↔
      ∃ (ret : Int) (t' : List HalApi.Event),
        t = ⟨.mbox_write handle msg len, ret⟩ :: t' ∧ Exec (f ret) s t' b s' :=
  exec_hal_bind (.mbox_write handle msg len) f

theorem exec_pci_poke (handle : Int) (offset : BitVec 64) (value : BitVec 32) (f : Int → MgmtM β) :
    Exec (Hal.pci_poke handle offset value >>= f) s t b s' ↔
      ∃ (ret : Int) (t' : List HalApi.Event),
        t = ⟨.pci (.poke handle offset value), ret⟩ :: t' ∧ Exec (f ret) s t' b s' :=
  exec_hal_bind (.pci (.poke handle offset value)) f

theorem exec_get_resource_map (slot_id pf_id : Int) (f : Int × FpgaPciResourceMap → MgmtM β) :
    Exec (Hal.get_resource_map slot_id pf_id >>= f) s t b s' ↔
      ∃ (ret : Int) (map : FpgaPciResourceMap) (t' : List HalApi.Event),
        t = ⟨.pci (.get_resource_map slot_id pf_id), (ret, map)⟩ :: t' ∧
        Exec (f (ret, map)) s t' b s' :=
  (exec_hal_bind (.pci (.get_resource_map slot_id pf_id)) f).trans
    ⟨fun ⟨(ret, map), t', h⟩ => ⟨ret, map, t', h⟩,
      fun ⟨ret, map, t', h⟩ => ⟨(ret, map), t', h⟩⟩

end Runs

end AwsFpga.Mgmt
