import AwsFpga.Sde.DmaBuffer

/-!
# The driver of the streaming data engine (`sde_mgmt.c`)

Every function works on one element of `priv_sde_mgmt`, the one of its slot: it
takes the element and answers it with the code. A pointer argument is not NULL.
-/

open Lib AwsFpga.Pci

namespace AwsFpga.Sde

def DESC_WAIT_MAX_ITERS : Nat := 1000000

def SDE_SLOT_MAX : Int := 8

/-- `struct sde_mgmt`. A status struct and the metadata ring are given by their addresses. -/
structure SdeMgmt where
  mem : SdeMem
  hw_ctrl : SdeHwCtrl
  c2h_buffer : SdeDmaBuffer
  h2c_buffer : SdeDmaBuffer
  direction : SdeExampleDir
  c2h_desc_consumed : BitVec 32
  h2c_desc_consumed : BitVec 32
  data_pattern : BitVec 32
  c2h_status : BitVec 64
  h2c_status : BitVec 64
  md_read_index : Nat
  metadata : BitVec 64
  initialized : Bool

namespace SdeMgmt

/-- After `memset`, and at the start of the process. -/
def zero : SdeMgmt :=
  ⟨.zero, ⟨0, 0, 0, 0, false⟩, .zero, .zero, .c2h, 0, 0, 0, 0, 0, 0, 0, false⟩

def buffer (m : SdeMgmt) : SdeSubsystem → SdeDmaBuffer
  | .c2h => m.c2h_buffer
  | .h2c => m.h2c_buffer

def set_buffer (m : SdeMgmt) (s : SdeSubsystem) (b : SdeDmaBuffer) : SdeMgmt :=
  match s with
  | .c2h => { m with c2h_buffer := b }
  | .h2c => { m with h2c_buffer := b }

def desc_consumed (m : SdeMgmt) : SdeSubsystem → BitVec 32
  | .c2h => m.c2h_desc_consumed
  | .h2c => m.h2c_desc_consumed

def set_desc_consumed (m : SdeMgmt) (s : SdeSubsystem) (desc_consumed : BitVec 32) : SdeMgmt :=
  match s with
  | .c2h => { m with c2h_desc_consumed := desc_consumed }
  | .h2c => { m with h2c_desc_consumed := desc_consumed }

def status (m : SdeMgmt) : SdeSubsystem → BitVec 64
  | .c2h => m.c2h_status
  | .h2c => m.h2c_status

section Fields

variable (m : SdeMgmt) (s s' : SdeSubsystem) (b : SdeDmaBuffer) (desc_consumed : BitVec 32)

@[simp] theorem set_buffer_buffer :
    (m.set_buffer s b).buffer s' = if s' = s then b else m.buffer s' := by
  cases s <;> cases s' <;> rfl

@[simp] theorem set_buffer_initialized : (m.set_buffer s b).initialized = m.initialized := by
  cases s <;> rfl

@[simp] theorem set_buffer_desc_consumed : (m.set_buffer s b).desc_consumed s' = m.desc_consumed s' := by
  cases s <;> cases s' <;> rfl

@[simp] theorem set_buffer_status : (m.set_buffer s b).status s' = m.status s' := by
  cases s <;> cases s' <;> rfl

@[simp] theorem set_buffer_hw_ctrl : (m.set_buffer s b).hw_ctrl = m.hw_ctrl := by
  cases s <;> rfl

@[simp] theorem set_desc_consumed_hw_ctrl :
    (m.set_desc_consumed s desc_consumed).hw_ctrl = m.hw_ctrl := by
  cases s <;> rfl

@[simp] theorem set_desc_consumed_buffer :
    (m.set_desc_consumed s desc_consumed).buffer s' = m.buffer s' := by
  cases s <;> rfl

@[simp] theorem set_desc_consumed_desc_consumed :
    (m.set_desc_consumed s desc_consumed).desc_consumed s' =
      if s' = s then desc_consumed else m.desc_consumed s' := by
  cases s <;> cases s' <;> rfl

@[simp] theorem set_desc_consumed_status :
    (m.set_desc_consumed s desc_consumed).status s' = m.status s' := by
  cases s <;> cases s' <;> rfl

@[simp] theorem set_desc_consumed_initialized :
    (m.set_desc_consumed s desc_consumed).initialized = m.initialized := by
  cases s <;> rfl

end Fields

end SdeMgmt

/-- The checks that all but `sde_mgmt_init` begin with. -/
def checked {α : Type} (slot_id : Int) (m : SdeMgmt) (fail : Int → Prog SdeApi α)
    (k : Prog SdeApi α) : Prog SdeApi α :=
  if SDE_SLOT_MAX ≤ slot_id then fail FPGA_ERR_SOFTWARE_PROBLEM
  else if m.initialized = false then fail FPGA_ERR_SOFTWARE_PROBLEM
  else k

/-! ## Opening, closing and configuration -/

def sde_mgmt_init (slot_id : Int) (direction : SdeExampleDir) (packet_size : BitVec 64)
    (layout : SdeBufferLayout) (m : SdeMgmt) : Prog SdeApi (Int × SdeMgmt) :=
  if SDE_SLOT_MAX ≤ slot_id then
    return (FPGA_ERR_SOFTWARE_PROBLEM, m)
  else
    Prog.failOn (do
      let (ret, mem) ← sde_mem_init layout layout direction packet_size SdeMem.zero
      return (ret, { SdeMgmt.zero with direction, mem })) fun m =>
    Prog.failOn (do
      let (ret, hw_ctrl) ← ofPci (sde_hw_init slot_id)
      return (ret, { m with hw_ctrl })) fun m =>
    return (0, { m with
      c2h_status := (sde_mem_get_status m.mem .c2h).1
      c2h_buffer := sde_dma_buffer_init layout .c2h packet_size m.mem
      h2c_status := (sde_mem_get_status m.mem .h2c).1
      h2c_buffer := sde_dma_buffer_init layout .h2c packet_size m.mem
      metadata := (sde_mem_get_metadata m.mem).1
      data_pattern := START_DOUBLE_WORD
      initialized := true })

def sde_mgmt_close (slot_id : Int) (m : SdeMgmt) : Prog SdeApi (Int × SdeMgmt) :=
  checked slot_id m (fun ret => return (ret, m)) do
    let (ret₀, hw_ctrl) ← ofPci (sde_hw_close m.hw_ctrl)
    let (ret₁, mem) ← sde_mem_close m.mem
    return (Int.lor ret₀ ret₁, { m with
      c2h_buffer := sde_dma_buffer_close, h2c_buffer := sde_dma_buffer_close, hw_ctrl, mem })

def status_load (m : SdeMgmt) (s : SdeSubsystem) (field : StatusField) : Prog SdeApi (BitVec 32) :=
  Prog.op (I := SdeApi) (.status_load s (m.status s) field)

def status_store (m : SdeMgmt) (s : SdeSubsystem) (field : StatusField) (value : BitVec 32) :
    Prog SdeApi Unit :=
  Prog.op (I := SdeApi) (.status_store s (m.status s) field value)

def sde_mgmt_reset (slot_id : Int) (m : SdeMgmt) : Prog SdeApi (Int × SdeMgmt) :=
  checked slot_id m (fun ret => return (ret, m)) do
    let ret ← ofPci (sde_hw_reset (some m.hw_ctrl))
    if ret ≠ 0 then
      return (ret, m)
    else
      status_store m .c2h .status 0
      status_store m .c2h .desc_limit (BitVec.ofNat 32 SDE_NUM_DESC)
      status_store m .c2h .desc_completed 0
      status_store m .c2h .pkt_completed 0
      status_store m .c2h .meta_write 0
      status_store m .h2c .status 0
      status_store m .h2c .desc_limit (BitVec.ofNat 32 SDE_NUM_DESC)
      status_store m .h2c .desc_completed 0
      status_store m .h2c .pkt_completed 0
      return (0, { m with md_read_index := 0 })

def STATUS_DESC_ERR_MASK : BitVec 32 := 0x1
def STATUS_DM_ERR_MASK : BitVec 32 := 0x2
def STATUS_WB_ERR_MASK : BitVec 32 := 0x4

def sde_mgmt_check_status (slot_id : Int) (subsystem : SdeSubsystem) (m : SdeMgmt) : Prog SdeApi Int :=
  checked slot_id m (fun ret => return ret) do
    let status ← status_load m subsystem .status
    if SDE_GET_BITFIELD STATUS_DESC_ERR_MASK 0 status ≠ 0 ∨
        SDE_GET_BITFIELD STATUS_DM_ERR_MASK 1 status ≠ 0 ∨
        SDE_GET_BITFIELD STATUS_WB_ERR_MASK 2 status ≠ 0 then
      return SDE_STATUS_COUNTER_ERROR
    else
      return 0

def sde_mgmt_set_dma_buffers (slot_id : Int) (subsystem : SdeSubsystem) (sde_buffers : List SdeBuffer)
    (num_buffers : Nat) (m : SdeMgmt) : Prog SdeApi (Int × SdeMgmt) :=
  checked slot_id m (fun ret => return (ret, m)) (
    if SDE_NUM_DESC < num_buffers then
      return (FPGA_ERR_SOFTWARE_PROBLEM, m)
    else if num_buffers = 0 then
      return (FPGA_ERR_SOFTWARE_PROBLEM, m)
    else
      let (ret, b) := sde_dma_buffer_set_dma_buffers sde_buffers num_buffers (m.buffer subsystem)
      return (ret, m.set_buffer subsystem b))

def sde_mgmt_cfg_c2h (m : SdeMgmt) : Prog SdeApi (Int × SdeMgmt) := do
  let c2h_metadata_ring_size := sde_aligned_size
    (c2h_metadata_size * BitVec.ofNat 64 C2H_NUM_MD_IN_RING) SDE_ALIGN
  let ret ← ofPci (sde_hw_cfg_c2h (some m.hw_ctrl) (sde_mem_get_status m.mem .c2h).2
    (sde_mem_get_metadata m.mem).2 (c2h_metadata_ring_size.setWidth 32))
  return (ret, m)

def sde_mgmt_cfg_h2c (m : SdeMgmt) : Prog SdeApi (Int × SdeMgmt) := do
  let ret ← ofPci (sde_hw_cfg_h2c (some m.hw_ctrl) (sde_mem_get_status m.mem .h2c).2)
  return (ret, m)

def sde_mgmt_cfg_c2h_atg (m : SdeMgmt) : Prog SdeApi (Int × SdeMgmt) := do
  let loopback : Bool := m.direction = .loopback
  let ret ← ofPci (sde_hw_cfg_loopback_mode (some m.hw_ctrl) loopback)
  if ret ≠ 0 then
    return (ret, m)
  else if loopback = false then
    let ret ← ofPci (sde_hw_cfg_atg_mode (some m.hw_ctrl) true m.data_pattern
      (m.c2h_buffer.pkt_size.setWidth 32))
    return (ret, m)
  else
    return (0, m)

/-- The descriptors of one direction, unless the example does not use it. -/
def cfg_packets_of (s : SdeSubsystem) (unused : SdeExampleDir) (m : SdeMgmt) :
    Prog SdeApi (Int × SdeMgmt) :=
  if m.direction ≠ unused then
    let (ret, b) := sde_dma_init_desc_buffer (m.buffer s)
    return (ret, m.set_buffer s b)
  else
    return (0, m)

def sde_mgmt_cfg_packets (m : SdeMgmt) : Prog SdeApi (Int × SdeMgmt) :=
  Prog.failOn (cfg_packets_of .c2h .h2c m) (cfg_packets_of .h2c .c2h)

def sde_mgmt_cfg (slot_id : Int) (m : SdeMgmt) : Prog SdeApi (Int × SdeMgmt) :=
  checked slot_id m (fun ret => return (ret, m)) (
    Prog.failOn (sde_mgmt_cfg_c2h m) fun m =>
    Prog.failOn (sde_mgmt_cfg_h2c m) fun m =>
    Prog.failOn (sde_mgmt_cfg_c2h_atg m) sde_mgmt_cfg_packets)

def sde_mgmt_init_and_cfg (slot_id : Int) (direction : SdeExampleDir) (packet_size : BitVec 64)
    (m : SdeMgmt) : Prog SdeApi (Int × SdeMgmt) :=
  Prog.failOn (sde_mgmt_init slot_id direction packet_size .multi m) fun m =>
  Prog.failOn (sde_mgmt_reset slot_id m) (sde_mgmt_cfg slot_id)

/-! ## Credits and descriptors -/

/-- The loop of `sde_mgmt_wait_desc_credit`: the credits it saw last. The difference is a
`uint32_t`. -/
def wait_loop (m : SdeMgmt) (s : SdeSubsystem) (num_desc : Nat) :
    (rounds credits_available : Nat) → Prog SdeApi Nat
  | 0, credits_available => return credits_available
  | rounds + 1, _ => do
    let desc_limit ← status_load m s .desc_limit
    let credits_available := (desc_limit - m.desc_consumed s).toNat
    if credits_available < num_desc then wait_loop m s num_desc rounds credits_available
    else return credits_available

def sde_mgmt_wait_desc_credit (slot_id : Int) (subsystem : SdeSubsystem) (num_desc : Nat)
    (m : SdeMgmt) : Prog SdeApi Int :=
  checked slot_id m (fun ret => return ret) (
    if SDE_NUM_DESC < num_desc then
      return FPGA_ERR_SOFTWARE_PROBLEM
    else do
      let credits_available ← wait_loop m subsystem num_desc DESC_WAIT_MAX_ITERS 0
      if credits_available < num_desc then return SDE_DESC_LIMIT_TIMEOUT else return 0)

/-- Answers the code, `*num_desc` and the element. The counter moves whether or not the call failed. -/
def sde_mgmt_post_desc (slot_id : Int) (subsystem : SdeSubsystem) (num_desc : Nat) (m : SdeMgmt) :
    Prog SdeApi (Int × Nat × SdeMgmt) :=
  checked slot_id m (fun ret => return (ret, num_desc, m)) (
    if SDE_NUM_DESC < num_desc then
      return (FPGA_ERR_SOFTWARE_PROBLEM, num_desc, m)
    else do
      let posted ← sde_dma_post_desc m.hw_ctrl num_desc (m.buffer subsystem)
      let m := m.set_buffer subsystem posted.dma_buffer
      return (posted.ret, posted.num_desc, m.set_desc_consumed subsystem
        (m.desc_consumed subsystem + BitVec.ofNat 32 posted.num_desc)))

/-- The descriptors that `size` bytes take, rounded up in 64 bits. -/
def desc_for_size (size pkt_size : BitVec 64) : Nat := ((size + pkt_size - 1) / pkt_size).toNat

/-- What `sde_mgmt_start_read` and `sde_mgmt_write` share: credits, then descriptors. -/
def transfer (slot_id : Int) (s : SdeSubsystem) (size : BitVec 64) (m : SdeMgmt) :
    Prog SdeApi (Int × SdeMgmt) :=
  if (m.buffer s).pkt_size = 0 then
    fault .divide_by_zero
  else do
    let num_desc := desc_for_size size (m.buffer s).pkt_size
    let ret ← sde_mgmt_wait_desc_credit slot_id s num_desc m
    if ret ≠ 0 then
      return (ret, m)
    else
      let (ret, _, m) ← sde_mgmt_post_desc slot_id s num_desc m
      return (ret, m)

def sde_mgmt_start_read (slot_id : Int) (size : BitVec 64) (m : SdeMgmt) : Prog SdeApi (Int × SdeMgmt) :=
  checked slot_id m (fun ret => return (ret, m)) (
    if 0 < size.toNat then transfer slot_id .c2h size m else return (0, m))

def sde_mgmt_write (slot_id : Int) (size : BitVec 64) (m : SdeMgmt) : Prog SdeApi (Int × SdeMgmt) :=
  checked slot_id m (fun ret => return (ret, m)) (
    if size = 0 then return (FPGA_ERR_SOFTWARE_PROBLEM, m) else transfer slot_id .h2c size m)

/-! ## Reading -/

def METADATA_STATUS_VALID_MASK : BitVec 32 := 0x1
def METADATA_STATUS_EOP_MASK : BitVec 32 := 0x2

/-- `struct sde_md`. -/
structure SdeMd where
  length : BitVec 32
  valid : Bool
  eop : Bool
  user_bits : BitVec 32 × BitVec 32
  deriving DecidableEq

/-! The fields of the metadata entry at `md_read_index`. -/

def md_status (m : SdeMgmt) : Prog SdeApi (BitVec 32) :=
  Prog.op (I := SdeApi) (.md_status m.metadata m.md_read_index)

def md_length (m : SdeMgmt) : Prog SdeApi (BitVec 32) :=
  Prog.op (I := SdeApi) (.md_length m.metadata m.md_read_index)

def md_user (m : SdeMgmt) : Prog SdeApi (BitVec 64) :=
  Prog.op (I := SdeApi) (.md_user m.metadata m.md_read_index)

def md_store_status (m : SdeMgmt) (status : BitVec 32) : Prog SdeApi Unit :=
  Prog.op (I := SdeApi) (.md_store_status m.metadata m.md_read_index status)

def md_valid (status : BitVec 32) : Bool :=
  SDE_GET_BITFIELD METADATA_STATUS_VALID_MASK 0 status ≠ 0

def md_eop (status : BitVec 32) : Bool := SDE_GET_BITFIELD METADATA_STATUS_EOP_MASK 1 status ≠ 0

/-- The loop of `sde_mgmt_read_md`. -/
def wait_md (m : SdeMgmt) : (rounds : Nat) → Prog SdeApi Bool
  | 0 => return false
  | rounds + 1 => do
    let status ← md_status m
    if md_valid status then return true else wait_md m rounds

def no_md : SdeMd := ⟨0, false, false, (0, 0)⟩

def sde_mgmt_read_md (slot_id : Int) (m : SdeMgmt) : Prog SdeApi (Int × SdeMd × SdeMgmt) :=
  checked slot_id m (fun ret => return (ret, no_md, m)) do
    let done ← wait_md m DESC_WAIT_MAX_ITERS
    if done = false then
      return (SDE_METADATA_VALID_TIMEOUT, no_md, m)
    else
      let status ← md_status m
      let length ← md_length m
      md_store_status m 0
      let user₀ ← md_user m
      let user₁ ← md_user m
      return (0, ⟨length, md_valid status, md_eop status,
        (user₀.setWidth 32, (user₁ >>> 32).setWidth 32)⟩,
        { m with md_read_index := (m.md_read_index + 1) &&& (SDE_NUM_DESC - 1) })

/-- The loop of `sde_mgmt_read_data`, with the bytes read so far. A round takes a metadata entry, and
only an empty packet lets it make no progress: `rounds` bounds how often. -/
def read_data_loop (slot_id : Int) (size : Nat) :
    (rounds : Nat) → (data : List (BitVec 8)) → SdeMgmt → Prog SdeApi (Int × List (BitVec 8) × SdeMgmt)
  | 0, data, m => if data.length < size then fault .diverge else return (0, data, m)
  | rounds + 1, data, m =>
    if data.length < size then do
      let (ret, md, m) ← sde_mgmt_read_md slot_id m
      if ret ≠ 0 then
        return (ret, data, m)
      else
        let data_to_read :=
          if md.length.toNat < size - data.length then md.length.toNat else size - data.length
        let (bytes, b) ← sde_dma_read_data data_to_read m.c2h_buffer
        read_data_loop slot_id size rounds (data ++ bytes) { m with c2h_buffer := b }
    else
      return (0, data, m)

/-- Answers the code, what was copied to `data` and the element. -/
def sde_mgmt_read_data (slot_id : Int) (size rounds : Nat) (m : SdeMgmt) :
    Prog SdeApi (Int × List (BitVec 8) × SdeMgmt) :=
  checked slot_id m (fun ret => return (ret, [], m)) (
    if size = 0 then return (FPGA_ERR_SOFTWARE_PROBLEM, [], m)
    else read_data_loop slot_id size rounds [] m)

/-! ## Preparing a write -/

/-- The loop of `sde_mgmt_prepare_write`. It makes no progress when `pkt_size` is 0. -/
def prepare_write_loop : (rounds : Nat) → (data : List (BitVec 8)) → SdeMgmt → Prog SdeApi SdeMgmt
  | 0, data, m => if 0 < data.length then fault .diverge else return m
  | rounds + 1, data, m =>
    if 0 < data.length then do
      let data_to_write := min m.h2c_buffer.pkt_size.toNat data.length
      let b ← sde_dma_write_data (data.take data_to_write) m.h2c_buffer
      prepare_write_loop rounds (data.drop data_to_write) { m with h2c_buffer := b }
    else
      return m

def sde_mgmt_prepare_write (slot_id : Int) (data : List (BitVec 8)) (m : SdeMgmt) :
    Prog SdeApi (Int × SdeMgmt) :=
  checked slot_id m (fun ret => return (ret, m)) (
    if data.length = 0 then
      return (FPGA_ERR_SOFTWARE_PROBLEM, m)
    else do
      let m ← prepare_write_loop data.length data m
      return (0, m))

end AwsFpga.Sde
