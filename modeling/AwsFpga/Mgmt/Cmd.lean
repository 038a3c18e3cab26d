import AwsFpga.Mgmt.Api

/-!
# Commands over the mailbox (`fpga_mgmt_cmd.c`)
-/

open Lib AwsFpga.Pci AwsFpga.Mbox

namespace AwsFpga.Mgmt

/-! ## The header -/

def sizeof_afi_cmd_hdr : Nat := 16

def afi_cmd_hdr_get_len (cmd : AfiCmd) : BitVec 32 := cmd.len_flags &&& AFI_CMD_HDR_LEN_MASK

def afi_cmd_hdr_get_flags (cmd : AfiCmd) : BitVec 32 := cmd.len_flags >>> AFI_CMD_HDR_FLAGS_SHIFT

/-- The command after the setter. A length that does not fit is refused. -/
def afi_cmd_hdr_set_len (cmd : AfiCmd) (len : BitVec 32) : AfiCmd :=
  if len &&& ~~~AFI_CMD_HDR_LEN_MASK ≠ 0 then cmd
  else Function.update cmd 2 ((cmd.len_flags &&& ~~~AFI_CMD_HDR_LEN_MASK) ||| len)

def afi_cmd_hdr_set_flags (cmd : AfiCmd) (flags : BitVec 32) : AfiCmd :=
  if flags &&& ~~~AFI_CMD_HDR_ALL_FLAGS ≠ 0 then cmd
  else Function.update cmd 2
    ((cmd.len_flags &&& AFI_CMD_HDR_LEN_MASK) ||| (flags <<< AFI_CMD_HDR_FLAGS_SHIFT))

def afi_get_next_id : MgmtM (BitVec 32) := do
  let s ← get
  let id ← (if s.next_id = 0 then Hal.rand else pure s.next_id)
  modify fun s => { s with next_id := id + 1 }
  return id

/-! ## The requests -/

/-- The header of a request: the part that the three builders share. -/
def afi_cmd_hdr (cmd : AfiCmd) (op id payload_len : BitVec 32) : AfiCmd :=
  let cmd := Function.update cmd 0 AFI_CMD_API_VERSION
  let cmd := Function.update cmd 1 op
  let cmd := Function.update cmd 3 id
  afi_cmd_hdr_set_flags (afi_cmd_hdr_set_len cmd payload_len) 0

def AFI_ID_STR_MAX : Nat := 64
abbrev FPGA_MMCM_GROUP_MAX : Nat := 3

/-- A C string: the bytes before its terminator. -/
structure CStr where
  bytes : List (BitVec 8)
  no_nul : ∀ b ∈ bytes, b ≠ 0

/-- `union fpga_mgmt_load_local_image_options`. -/
structure LoadLocalImageOptions where
  slot_id : Int
  afi_id : CStr
  flags : BitVec 32
  clock_mains : Fin FPGA_MMCM_GROUP_MAX → BitVec 32

/-- Four bytes of a string as a dword, zeros after its end. -/
def str_dword (bytes : List (BitVec 8)) (i : Nat) : BitVec 32 :=
  ((bytes.getD (4 * i + 3) 0 ++ bytes.getD (4 * i + 2) 0) ++
    (bytes.getD (4 * i + 1) 0 ++ bytes.getD (4 * i) 0)).setWidth 32

def sizeof_afi_cmd_load_req : BitVec 32 := 248

/-- The body of a load: ids (72 bytes), flags, config, then 7 frequencies for each group. -/
def load_req_body (opt : LoadLocalImageOptions) (i : Nat) : BitVec 32 :=
  if i < 16 then str_dword (opt.afi_id.bytes.take (AFI_ID_STR_MAX - 1)) i
  else if i = 18 then opt.flags
  else if i = 20 then 1000000 * opt.clock_mains 0
  else if i = 34 then 1000000 * opt.clock_mains 1
  else if i = 48 then 1000000 * opt.clock_mains 2
  else 0

def fpga_mgmt_cmd_init_load (opt : LoadLocalImageOptions) : MgmtM (AfiCmd × Nat) := do
  let id ← afi_get_next_id
  let cmd := afi_cmd_hdr .zero AFI_CMD_LOAD id sizeof_afi_cmd_load_req
  let cmd : AfiCmd := fun i => if i.val < 4 then cmd i else load_req_body opt (i.val - 4)
  return (cmd, sizeof_afi_cmd_hdr + sizeof_afi_cmd_load_req.toNat)

def fpga_mgmt_cmd_init_metrics (flags : BitVec 32) : MgmtM (AfiCmd × Nat) := do
  let id ← afi_get_next_id
  let cmd := afi_cmd_hdr .zero AFI_CMD_METRICS id 4
  let cmd := Function.update cmd 4 (flags &&&
    (FPGA_CMD_GET_HW_METRICS ||| FPGA_CMD_CLEAR_HW_METRICS ||| FPGA_CMD_CLEAR_AFI_CACHE))
  return (cmd, sizeof_afi_cmd_hdr + 4)

def fpga_mgmt_cmd_init_clear : MgmtM (AfiCmd × Nat) := do
  let id ← afi_get_next_id
  let cmd := afi_cmd_hdr .zero AFI_CMD_CLEAR id 4
  let cmd := Function.update cmd 4 0
  return (cmd, sizeof_afi_cmd_hdr + 4)

/-! ## The mailbox of a slot -/

def fpga_mgmt_mbox_attach (slot : Fin FPGA_SLOT_MAX) : MgmtM Int := do
  let s ← get
  if s.slots slot = PCI_BAR_HANDLE_INIT then
    let (ret, handle) ← Hal.pci_attach slot FPGA_MGMT_PF FPGA_MBOX_RESOURCE_NUM 0
    if ret ≠ 0 then
      return ret
    else
      set_handle slot handle
      let ret ← Hal.mbox_init { timeout := s.timeout, delay_msec := s.delay_msec }
      if ret ≠ 0 then return ret else Hal.mbox_attach handle true
  else
    Hal.mbox_attach (s.slots slot) true

def fpga_mgmt_mbox_detach (slot : Fin FPGA_SLOT_MAX) : MgmtM Int := do
  let s ← get
  if s.slots slot ≠ PCI_BAR_HANDLE_INIT then
    -- Both failures are logged and passed over.
    let _ret ← Hal.mbox_detach (s.slots slot) true
    let _ret ← Hal.pci_detach (s.slots slot)
    set_handle slot PCI_BAR_HANDLE_INIT
    return 0
  else
    return 0

/-! ## Judging a response -/

def fpga_mgmt_handle_afi_cmd_error_rsp (rsp : AfiCmd) (len : Nat) : Int :=
  if len < sizeof_afi_cmd_hdr + 4 then
    FPGA_ERR_AFI_CMD_MALFORMED
  else if (rsp.body 0).toInt = FPGA_ERR_AFI_CMD_API_VERSION_INVALID ∧
      len < sizeof_afi_cmd_hdr + 4 + 4 then
    FPGA_ERR_AFI_CMD_MALFORMED
  else
    (rsp.body 0).toInt

def fpga_mgmt_afi_validate_header (cmd rsp : AfiCmd) (len : Nat) : Int :=
  let is_response := afi_cmd_hdr_get_flags rsp &&& AFI_CMD_HDR_IS_RSP
  let payload_len := afi_cmd_hdr_get_len rsp
  if MAJOR_VERSION cmd.version ≠ MAJOR_VERSION rsp.version then
    FPGA_ERR_AFI_CMD_MALFORMED
  else if cmd.op ≠ rsp.op then
    -- An error response is believed before its id is looked at.
    if rsp.op = AFI_CMD_ERROR then fpga_mgmt_handle_afi_cmd_error_rsp rsp len else -EAGAIN
  else if cmd.id ≠ rsp.id then
    -EAGAIN
  else if len < sizeof_afi_cmd_hdr then
    FPGA_ERR_AFI_CMD_MALFORMED
  else if payload_len.toNat + sizeof_afi_cmd_hdr > AFI_CMD_DATA_LEN then
    FPGA_ERR_AFI_CMD_MALFORMED
  else if is_response = 0 then
    FPGA_ERR_AFI_CMD_MALFORMED
  else
    0

/-! ## Sending a command -/

def AFI_MAX_RETRIES : Nat := 1

/-- What a command leaves in `*rsp` and `*len`. -/
structure CmdOut where
  ret : Int
  rsp : AfiCmd
  len : Nat

/-- The loop of `fpga_mgmt_send_cmd`, with `retries` stale responses still to be drained. -/
def fpga_mgmt_send_cmd_loop (handle : Int) (cmd : AfiCmd) :
    (retries : Nat) → (rsp : AfiCmd) → (len : Nat) → MgmtM CmdOut
  | retries, rsp, len => do
    let (ret, words) ← Hal.mbox_read handle
    let rsp := rsp.store words
    if ret ≠ 0 then
      return ⟨ret, rsp, len⟩
    else
      let len := 4 * words.length
      let ret := fpga_mgmt_afi_validate_header cmd rsp len
      if ret = 0 then
        return ⟨0, rsp, len⟩
      else if ret ≠ -EAGAIN then
        return ⟨ret, rsp, len⟩
      else
        match retries with
        | 0 => return ⟨-ETIMEDOUT, rsp, len⟩
        | retries + 1 => fpga_mgmt_send_cmd_loop handle cmd retries rsp len

def fpga_mgmt_send_cmd (slot : Fin FPGA_SLOT_MAX) (cmd rsp : AfiCmd) (len : Nat) :
    MgmtM CmdOut := do
  let s ← get
  let ret ← Hal.mbox_write (s.slots slot) cmd.dwords len
  if ret ≠ 0 then
    return ⟨ret, rsp, len⟩
  else
    fpga_mgmt_send_cmd_loop (s.slots slot) cmd AFI_MAX_RETRIES rsp len

def fpga_mgmt_process_cmd (slot_id : Int) (cmd rsp : AfiCmd) (len : Nat) : MgmtM CmdOut := do
  match slotIndex slot_id with
  | none => return ⟨-EINVAL, rsp, len⟩
  | some slot =>
    let ret ← fpga_mgmt_mbox_attach slot
    if ret ≠ 0 then return ⟨ret, rsp, len⟩ else fpga_mgmt_send_cmd slot cmd rsp len

/-! ## The metrics response -/

def sizeof_afi_cmd_metrics_rsp : Nat := 584

def fpga_mgmt_cmd_handle_metrics (len : Nat) : Int :=
  if len < sizeof_afi_cmd_hdr + sizeof_afi_cmd_metrics_rsp then FPGA_ERR_AFI_CMD_MALFORMED else 0

end AwsFpga.Mgmt
