import AwsFpga.Mgmt.Image

/-!
# Waiting for a load or a clear (`fpga_mgmt.c`)

Both functions start the operation and poll until the image has the wanted
status. They are written over the calls whose results decide them, and
`syncImpl` puts them on the library.
-/

open Lib AwsFpga.Pci

namespace AwsFpga.Mgmt

/-! ## The layer below -/

inductive SyncOp where
  | get_sh_version (slot_id : Int)
  | get_resource_map (slot_id pf_id : Int)
  | load (opt : LoadLocalImageOptions)
  | clear (slot_id : Int)
  | describe (slot_id : Int) (info : FpgaMgmtImageInfo) (flags : BitVec 32)
  | rescan_slot_app_pfs (slot_id : Int)
  | get_slot_spec (slot_id : Int)
  | msleep (ms : BitVec 32)

/-- A describe answers its code and what is then in `*info`, also when it fails. -/
def SyncOp.Ans : SyncOp → Type
  | .get_sh_version _ => Int × BitVec 32
  | .get_resource_map .. => Int × FpgaPciResourceMap
  | .load _ => Int
  | .clear _ => Int
  | .describe .. => Int × FpgaMgmtImageInfo
  | .rescan_slot_app_pfs _ => Int
  | .get_slot_spec _ => Int × FpgaSlotSpec
  | .msleep _ => Unit

abbrev SyncApi : Iface := ⟨SyncOp, SyncOp.Ans⟩

def syncImpl : (o : SyncOp) → MgmtM o.Ans
  | .get_sh_version slot_id => fpga_mgmt_get_sh_version slot_id
  | .get_resource_map slot_id pf_id => Hal.get_resource_map slot_id pf_id
  | .load opt => fpga_mgmt_load_local_image_with_options opt
  | .clear slot_id => fpga_mgmt_clear_local_image slot_id
  | .describe slot_id info flags => fpga_mgmt_describe_cmd slot_id info flags
  | .rescan_slot_app_pfs slot_id => Hal.rescan_slot_app_pfs slot_id
  | .get_slot_spec slot_id => Hal.get_slot_spec slot_id
  | .msleep ms => Hal.msleep ms

namespace Sync

def get_sh_version (slot_id : Int) : Prog SyncApi (Int × BitVec 32) :=
  Prog.op (I := SyncApi) (.get_sh_version slot_id)
def get_resource_map (slot_id pf_id : Int) : Prog SyncApi (Int × FpgaPciResourceMap) :=
  Prog.op (I := SyncApi) (.get_resource_map slot_id pf_id)
def load (opt : LoadLocalImageOptions) : Prog SyncApi Int := Prog.op (I := SyncApi) (.load opt)
def clear (slot_id : Int) : Prog SyncApi Int := Prog.op (I := SyncApi) (.clear slot_id)
def describe (slot_id : Int) (info : FpgaMgmtImageInfo) (flags : BitVec 32) :
    Prog SyncApi (Int × FpgaMgmtImageInfo) :=
  Prog.op (I := SyncApi) (.describe slot_id info flags)
def rescan_slot_app_pfs (slot_id : Int) : Prog SyncApi Int :=
  Prog.op (I := SyncApi) (.rescan_slot_app_pfs slot_id)
def get_slot_spec (slot_id : Int) : Prog SyncApi (Int × FpgaSlotSpec) :=
  Prog.op (I := SyncApi) (.get_slot_spec slot_id)
def msleep (ms : BitVec 32) : Prog SyncApi Unit := Prog.op (I := SyncApi) (.msleep ms)

end Sync

/-! ## The shared body -/

def FPGA_MGMT_SYNC_TIMEOUT : BitVec 32 := 90000
def FPGA_MGMT_SYNC_DELAY_MSEC : BitVec 32 := 2

/-- The polling loop, with `retries` retries left: how the function is to return, or the
information of the image that has the `wanted` status and passed `check`. -/
def wait_for_image (slot_id wanted : Int) (check : FpgaMgmtImageInfo → Int)
    (delay_msec : BitVec 32) :
    (retries : Nat) → FpgaMgmtImageInfo → Prog SyncApi (Except Int FpgaMgmtImageInfo)
  | retries, tmp_info => do
    let (ret, tmp_info) ← Sync.describe slot_id tmp_info 0
    let status := if ret = 0 then tmp_info.status else FPGA_STATUS_END
    if status = wanted then
      if check tmp_info ≠ 0 then return .error (check tmp_info) else return .ok tmp_info
    else if status = FPGA_STATUS_BUSY then
      match retries with
      | 0 => return .error (-ETIMEDOUT)
      | retries + 1 =>
        Sync.msleep delay_msec
        wait_for_image slot_id wanted check delay_msec retries tmp_info
    else
      -- Here the source returns the cause of the error status.
      return .error tmp_info.status_q

/-- After the wait: rescan if the shell or the IDs changed, then fill in the slot spec. -/
def finish_image (slot_id : Int) (prev_sh_version : BitVec 32) (app_map : FpgaPciResourceMap)
    (tmp_info : FpgaMgmtImageInfo) : Prog SyncApi (Int × Option FpgaMgmtImageInfo) := do
  let ids := tmp_info.ids.afi_device_ids
  let (ret, sh_version) ← Sync.get_sh_version slot_id
  if ret ≠ 0 then
    return (ret, none)
  else
    let same := sh_version = prev_sh_version ∧ ids.vendor_id = app_map.vendor_id ∧
      ids.device_id = app_map.device_id ∧ ids.svid = app_map.subsystem_vendor_id ∧
      ids.ssid = app_map.subsystem_device_id
    let ret ← (if same then pure 0 else Sync.rescan_slot_app_pfs slot_id)
    if ret ≠ 0 then
      return (ret, none)
    else
      let (ret, spec) ← Sync.get_slot_spec slot_id
      if ret ≠ 0 then return (ret, none) else return (0, some { tmp_info with spec := spec })

/-- The body of both functions, around the call that starts the operation. It answers the return
code and what is stored to `*info`. -/
def image_sync (slot_id wanted : Int) (check : FpgaMgmtImageInfo → Int) (start : Prog SyncApi Int)
    (timeout delay_msec : BitVec 32) : Prog SyncApi (Int × Option FpgaMgmtImageInfo) := do
  let timeout_tmp := if timeout > FPGA_MGMT_SYNC_TIMEOUT then timeout else FPGA_MGMT_SYNC_TIMEOUT
  let delay_msec_tmp :=
    if delay_msec > FPGA_MGMT_SYNC_DELAY_MSEC then delay_msec else FPGA_MGMT_SYNC_DELAY_MSEC
  if slot_id ≥ FPGA_SLOT_MAX then
    return (-EINVAL, none)
  else
    let (ret, prev_sh_version) ← Sync.get_sh_version slot_id
    if ret ≠ 0 then
      return (ret, none)
    else
      let (ret, app_map) ← Sync.get_resource_map slot_id FPGA_APP_PF
      if ret ≠ 0 then
        return (ret, none)
      else
        let ret ← start
        if ret ≠ 0 then
          return (ret, none)
        else
          match ← wait_for_image slot_id wanted check delay_msec_tmp timeout_tmp.toNat .zero with
          | .error ret => return (ret, none)
          | .ok tmp_info => finish_image slot_id prev_sh_version app_map tmp_info

/-! ## The two functions -/

/-- `strncmp` of C strings, each with zeros after its end. -/
def strncmp (a b : List (BitVec 8)) : Nat → Int
  | 0 => 0
  | n + 1 =>
    if a.headD 0 ≠ b.headD 0 then ((a.headD 0).toNat : Int) - (b.headD 0).toNat
    else if a.headD 0 = 0 then 0
    else strncmp a.tail b.tail n

/-- The check of the loaded id. With `FPGA_CMD_PREFETCH` there is none. -/
def check_afi_id (opt : LoadLocalImageOptions) (tmp_info : FpgaMgmtImageInfo) : Int :=
  if FPGA_CMD_PREFETCH &&& opt.flags ≠ FPGA_CMD_PREFETCH then
    if strncmp opt.afi_id.bytes tmp_info.ids.afi_id.toList AFI_ID_STR_MAX ≠ 0 then FPGA_ERR_FAIL
    else 0
  else
    0

def fpga_mgmt_load_local_image_sync_with_options (initialized : Bool)
    (opt : LoadLocalImageOptions) (timeout delay_msec : BitVec 32) :
    Prog SyncApi (Int × Option FpgaMgmtImageInfo) :=
  if ¬ initialized then
    return (FPGA_ERR_SOFTWARE_PROBLEM, none)
  else if opt.flags &&& FPGA_CMD_UNSUPPORTED_FLAGS ≠ 0 then
    return (FPGA_ERR_SOFTWARE_PROBLEM, none)
  else
    -- The load masks the flags in `*opt`, and the check sees them masked.
    let masked := { opt with flags := opt.flags &&& FPGA_CMD_ALL_FLAGS }
    image_sync opt.slot_id FPGA_STATUS_LOADED (check_afi_id masked) (Sync.load opt) timeout
      delay_msec

def fpga_mgmt_clear_local_image_sync (initialized : Bool) (slot_id : Int)
    (timeout delay_msec : BitVec 32) : Prog SyncApi (Int × Option FpgaMgmtImageInfo) :=
  if ¬ initialized then
    return (FPGA_ERR_SOFTWARE_PROBLEM, none)
  else
    image_sync slot_id FPGA_STATUS_CLEARED (fun _ => 0) (Sync.clear slot_id) timeout delay_msec

end AwsFpga.Mgmt
