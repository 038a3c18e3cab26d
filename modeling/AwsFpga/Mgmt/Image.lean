import AwsFpga.Mgmt.Cmd

/-!
# Describe, load and clear (`fpga_mgmt.c`)
-/

open Lib AwsFpga.Pci AwsFpga.Mbox

namespace AwsFpga.Mgmt

/-! ## Image information -/

structure AfiDeviceIds where
  vendor_id : BitVec 16
  device_id : BitVec 16
  svid : BitVec 16
  ssid : BitVec 16
  deriving DecidableEq

structure FpgaMetaIds where
  afi_id : Vector (BitVec 8) AFI_ID_STR_MAX
  afi_device_ids : AfiDeviceIds

structure FpgaMgmtImageInfo where
  status : Int
  status_q : Int
  slot_id : Int
  ids : FpgaMetaIds
  spec : FpgaSlotSpec
  sh_version : BitVec 32

def FpgaMgmtImageInfo.zero : FpgaMgmtImageInfo where
  status := 0
  status_q := 0
  slot_id := 0
  ids := ⟨.replicate _ 0, ⟨0, 0, 0, 0⟩⟩
  spec := ⟨⟨0, 0, 0, 0⟩, ⟨0, 0, 0, 0⟩⟩
  sh_version := 0

/-- The string in a field of `AFI_ID_STR_MAX` bytes: up to the first zero, or all of them. -/
def FpgaMetaIds.afi_id_str (ids : FpgaMetaIds) : List (BitVec 8) :=
  ids.afi_id.toList.takeWhile (· ≠ 0)

/-- `strncpy` into the field: the string, then zeros. -/
def afi_id_field (str : List (BitVec 8)) : Vector (BitVec 8) AFI_ID_STR_MAX :=
  Vector.ofFn fun i => str.getD i 0

/-- `struct afi_cmd_metrics_rsp`: 64 bytes of id, four PCI ids, then the two status words. -/
structure AfiCmdMetricsRsp where
  ids : FpgaMetaIds
  status : Int
  status_q : Int

def AfiCmd.metrics (rsp : AfiCmd) : AfiCmdMetricsRsp where
  ids :=
    { afi_id := Vector.ofFn fun i => rsp.body_byte i (by have := i.isLt; unfold AFI_ID_STR_MAX at this; omega)
      afi_device_ids :=
        { vendor_id := (rsp.body 16).setWidth 16, device_id := (rsp.body 16 >>> 16).setWidth 16
          svid := (rsp.body 17).setWidth 16, ssid := (rsp.body 17 >>> 16).setWidth 16 } }
  status := (rsp.body 18).toInt
  status_q := (rsp.body 19).toInt

/-- The string "none". -/
def none_str : List (BitVec 8) := [0x6e, 0x6f, 0x6e, 0x65]

/-- The fields that a metrics response fills in. An image without an id is named "none". -/
def FpgaMgmtImageInfo.set_metrics (info : FpgaMgmtImageInfo) (metrics : AfiCmdMetricsRsp)
    (slot_id : Int) : FpgaMgmtImageInfo :=
  let str := metrics.ids.afi_id_str
  { info with
    status := metrics.status, status_q := metrics.status_q, slot_id := slot_id
    ids := { metrics.ids with afi_id := afi_id_field (if str = [] then none_str else str) } }

/-! ## Describe -/

def FPGA_MGMT_RL_RELOAD_DELAY : BitVec 32 := 1000
def FPGA_MGMT_RL_RELOAD_RETRIES : Nat := 30

def fpga_mgmt_get_sh_version (slot_id : Int) : MgmtM (Int × BitVec 32) := do
  match slotIndex slot_id with
  | none => return (-EINVAL, 0)
  | some slot =>
    let ret ← fpga_mgmt_mbox_attach slot
    if ret ≠ 0 then
      return (ret, 0)
    else
      let s ← get
      Hal.mbox_get_versions (s.slots slot)

/-- The retries of `fpga_mgmt_describe_cmd`, with `retries` of them left. `*rsp` and `*len` go
from one attempt into the next. -/
def fpga_mgmt_describe_cmd_retry (slot_id : Int) (cmd : AfiCmd) :
    (retries : Nat) → CmdOut → MgmtM CmdOut
  | 0, out => return out
  | retries + 1, out => do
    if out.ret = FPGA_ERR_AFI_CMD_MALFORMED ∨ out.ret = -ETIMEDOUT then
      Hal.msleep FPGA_MGMT_RL_RELOAD_DELAY
      let out ← fpga_mgmt_process_cmd slot_id cmd out.rsp out.len
      fpga_mgmt_describe_cmd_retry slot_id cmd retries out
    else
      return out

/-- The last step of a describe, when the image waits for a reload. Its errors are lost: the
source keeps them in an inner `ret`. -/
def fpga_mgmt_rl_reload (slot : Fin FPGA_SLOT_MAX) (info : FpgaMgmtImageInfo) :
    MgmtM (Int × FpgaMgmtImageInfo) := do
  let ret ← fpga_mgmt_mbox_attach slot
  if ret ≠ 0 then
    return (0, info)
  else
    let s ← get
    let ret ← Hal.pci_poke (s.slots slot) FMB_REG_RL_RELOAD 1
    if ret ≠ 0 then return (0, info) else return (0, { info with status := FPGA_STATUS_BUSY })

/-- Answers the return code and `*info`. -/
def fpga_mgmt_describe_cmd (slot_id : Int) (info : FpgaMgmtImageInfo) (flags : BitVec 32) :
    MgmtM (Int × FpgaMgmtImageInfo) := do
  match slotIndex slot_id with
  | none => return (-EINVAL, info)
  | some slot =>
    let (cmd, len) ← fpga_mgmt_cmd_init_metrics flags
    let out ← fpga_mgmt_process_cmd slot_id cmd .zero len
    let out ← fpga_mgmt_describe_cmd_retry slot_id cmd (FPGA_MGMT_RL_RELOAD_RETRIES + 1) out
    if out.ret ≠ 0 then
      return (out.ret, info)
    else if fpga_mgmt_cmd_handle_metrics out.len ≠ 0 then
      return (fpga_mgmt_cmd_handle_metrics out.len, info)
    else
      let metrics := out.rsp.metrics
      let info := info.set_metrics metrics slot_id
      let (ret, sh_version) ← fpga_mgmt_get_sh_version slot_id
      if ret ≠ 0 then
        return (ret, info)
      else
        let info := { info with sh_version := sh_version }
        let (ret, _mbox_map) ← Hal.get_resource_map slot_id FPGA_MGMT_PF
        if ret ≠ 0 then
          return (ret, info)
        else if metrics.status = FPGA_STATUS_LOADING_RL then
          fpga_mgmt_rl_reload slot info
        else
          return (0, info)

def fpga_mgmt_describe_local_image (slot_id : Int) (info : FpgaMgmtImageInfo) (flags : BitVec 32) :
    MgmtM (Int × FpgaMgmtImageInfo) := do
  let s ← get
  if ¬ s.initialized then
    return (FPGA_ERR_SOFTWARE_PROBLEM, info)
  else if flags &&& FPGA_CMD_UNSUPPORTED_FLAGS ≠ 0 then
    return (FPGA_ERR_SOFTWARE_PROBLEM, info)
  else
    let (ret, info) ← fpga_mgmt_describe_cmd slot_id info flags
    if ret ≠ 0 then
      return (ret, info)
    else
      let (ret, spec) ← Hal.get_slot_spec slot_id
      return (ret, { info with spec := spec })

/-! ## Load and clear -/

def fpga_mgmt_load_local_image_with_options (opt : LoadLocalImageOptions) : MgmtM Int := do
  let s ← get
  if ¬ s.initialized then
    return FPGA_ERR_SOFTWARE_PROBLEM
  else if opt.flags &&& FPGA_CMD_UNSUPPORTED_FLAGS ≠ 0 then
    return FPGA_ERR_SOFTWARE_PROBLEM
  else
    match slotIndex opt.slot_id with
    | none => return -EINVAL
    | some _ =>
      let (cmd, len) ← fpga_mgmt_cmd_init_load { opt with flags := opt.flags &&& FPGA_CMD_ALL_FLAGS }
      let out ← fpga_mgmt_process_cmd opt.slot_id cmd .zero len
      return out.ret

def fpga_mgmt_clear_local_image (slot_id : Int) : MgmtM Int := do
  let s ← get
  if ¬ s.initialized then
    return FPGA_ERR_SOFTWARE_PROBLEM
  else
    match slotIndex slot_id with
    | none => return -EINVAL
    | some _ =>
      let (cmd, len) ← fpga_mgmt_cmd_init_clear
      let out ← fpga_mgmt_process_cmd slot_id cmd .zero len
      return out.ret

end AwsFpga.Mgmt
