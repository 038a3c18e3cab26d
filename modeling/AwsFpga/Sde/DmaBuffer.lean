import AwsFpga.Sde.Mem

/-!
# Descriptors and packet buffers of one direction (`sde_dma_buffer.c`)

The descriptor ring at `desc_va` is written by the driver alone, so its dwords
are a part of the state here.
-/

open Lib AwsFpga.Pci

namespace AwsFpga.Sde

/-- `struct sde_dma_buffer`. `ctrl` says whether the pointer to the control of the slot is set. -/
structure SdeDmaBuffer where
  layout : SdeBufferLayout
  subsystem : SdeSubsystem
  ctrl : Bool
  desc_va : BitVec 64
  /-- The dword at `desc_va + 4 * i`. -/
  desc : Nat → BitVec 32
  num_desc : Nat
  desc_element_size : Nat
  buffers : Option (List SdeBuffer)
  num_buffers : Nat
  pkt_size : BitVec 64
  current_buffer_index : Nat
  curr_desc_index_to_post : Nat

/-- After `memset`. The first layout and the first subsystem are 0. -/
def SdeDmaBuffer.zero : SdeDmaBuffer :=
  ⟨.single, .c2h, false, 0, fun _ => 0, 0, 0, none, 0, 0, 0, 0⟩

def sde_dma_buffer_init (layout : SdeBufferLayout) (subsystem : SdeSubsystem) (pkt_size : BitVec 64)
    (mem : SdeMem) : SdeDmaBuffer :=
  let dma_buffer := { SdeDmaBuffer.zero with
    layout, subsystem, pkt_size
    desc_element_size := desc_element_size subsystem
    ctrl := true
    desc_va := (mem.writeback subsystem).desc_va }
  if layout ≠ .user_managed then
    { dma_buffer with
      num_desc := SDE_NUM_DESC
      buffers := (sde_mem_get_buffers mem subsystem).1
      num_buffers := (sde_mem_get_buffers mem subsystem).2 }
  else
    dma_buffer

def sde_dma_buffer_close : SdeDmaBuffer := SdeDmaBuffer.zero

def sde_dma_buffer_set_dma_buffers (sde_buffers : List SdeBuffer) (num_buffers : Nat)
    (dma_buffer : SdeDmaBuffer) : Int × SdeDmaBuffer :=
  if num_buffers = 0 then
    (FPGA_ERR_SOFTWARE_PROBLEM, dma_buffer)
  else if dma_buffer.layout ≠ .user_managed then
    (FPGA_ERR_SOFTWARE_PROBLEM, dma_buffer)
  else
    (0, { dma_buffer with buffers := some sde_buffers, num_buffers, num_desc := num_buffers })

/-! ## The descriptors -/

def START_DOUBLE_WORD : BitVec 32 := 0x11110000

def get_next_start_dw (curr_start_dw : BitVec 32) : BitVec 32 :=
  let curr_start_dw_byte : BitVec 32 := (((curr_start_dw >>> 16) &&& 0xf) + 1) &&& 0xf
  (curr_start_dw_byte <<< 16) ||| (curr_start_dw_byte <<< 20) ||| (curr_start_dw_byte <<< 24) |||
    (curr_start_dw_byte <<< 28)

/-- `current_dw` in the round `i` of the loop. `next_dw` is that of the next round. -/
def current_dw : (i : Nat) → BitVec 32
  | 0 => START_DOUBLE_WORD
  | i + 1 => get_next_start_dw (current_dw i)

def c2h_desc (buffer : SdeBuffer) : List (BitVec 32) :=
  [buffer.length, buffer.data_pa.setWidth 32, (buffer.data_pa >>> 32).setWidth 32, 0]

/-- `cfg_bits` is what the descriptor held before: of it, only EOP and SPB are written. -/
def h2c_desc (buffer : SdeBuffer) (cfg_bits : BitVec 32) (i : Nat) : List (BitVec 32) :=
  [buffer.length, buffer.data_pa.setWidth 32, (buffer.data_pa >>> 32).setWidth 32,
    SDE_SET_BITFIELD 2 1 0 (SDE_SET_BITFIELD 1 0 1 cfg_bits), 0, 0, current_dw i, current_dw (i + 1)]

def no_buffer : SdeBuffer := ⟨0, 0, 0, 0⟩

/-- The ring after the loop: `num_desc` descriptors, the buffers one after another and again. -/
def init_desc (buffers : List SdeBuffer) (dma_buffer : SdeDmaBuffer) : Nat → BitVec 32 :=
  let dwords := desc_element_size dma_buffer.subsystem / 4
  fun k =>
    let i := k / dwords
    let buffer := buffers.getD (i % dma_buffer.num_buffers) no_buffer
    if i < dma_buffer.num_desc then
      match dma_buffer.subsystem with
      | .c2h => (c2h_desc buffer).getD (k % dwords) 0
      | .h2c => (h2c_desc buffer (dma_buffer.desc (i * dwords + 3)) i).getD (k % dwords) 0
    else
      dma_buffer.desc k

def sde_dma_init_desc_buffer (dma_buffer : SdeDmaBuffer) : Int × SdeDmaBuffer :=
  if dma_buffer.num_buffers = 0 then
    (FPGA_ERR_SOFTWARE_PROBLEM, dma_buffer)
  else
    match dma_buffer.buffers with
    | none => (FPGA_ERR_SOFTWARE_PROBLEM, dma_buffer)
    | some buffers => (0, { dma_buffer with
        desc := init_desc buffers dma_buffer
        curr_desc_index_to_post := 0
        current_buffer_index := 0 })

/-! ## Posting -/

/-- What a call leaves: its code, `*num_desc` and the struct. -/
structure Posted where
  ret : Int
  num_desc : Nat
  dma_buffer : SdeDmaBuffer

/-- The loop of `sde_dma_post_desc`. A round posts something unless the index stands at the end of
the ring, so `num_desc + 1` rounds are enough. `*num_desc` is written only at the end. -/
def post_loop (ctrl : Option SdeHwCtrl) (num_desc : Nat) :
    (fuel posted_desc : Nat) → SdeDmaBuffer → Prog SdeApi Posted
  | 0, posted_desc, b => if posted_desc < num_desc then fault .diverge else return ⟨0, posted_desc, b⟩
  | fuel + 1, posted_desc, b =>
    if posted_desc < num_desc then do
      -- A `size_t`.
      let available_desc := (b.num_desc + 2 ^ 64 - b.curr_desc_index_to_post) % 2 ^ 64
      let remaining_desc_to_post := num_desc - posted_desc
      let num_desc_to_post :=
        if available_desc < remaining_desc_to_post then available_desc else remaining_desc_to_post
      let first := b.curr_desc_index_to_post * (b.desc_element_size / 4)
      let ret ← ofPci (sde_hw_post_descriptor ctrl (fun k => b.desc (first + k)) num_desc_to_post
        b.subsystem)
      if ret ≠ 0 then
        return ⟨ret, num_desc, b⟩
      else if b.num_desc = 0 then
        fault .divide_by_zero
      else
        post_loop ctrl num_desc fuel (posted_desc + num_desc_to_post) { b with
          curr_desc_index_to_post := (b.curr_desc_index_to_post + num_desc_to_post) % b.num_desc }
    else
      return ⟨0, posted_desc, b⟩

def sde_dma_post_desc (hw_ctrl : SdeHwCtrl) (num_desc : Nat) (dma_buffer : SdeDmaBuffer) :
    Prog SdeApi Posted :=
  post_loop (if dma_buffer.ctrl then some hw_ctrl else none) num_desc (num_desc + 1) 0 dma_buffer

/-! ## Packet data -/

/-- The rounds that a copy of `size` bytes can take when some buffer is not empty. -/
def copy_rounds (size num_buffers : Nat) : Nat := (size + 1) * (num_buffers + 1)

/-- The loop of `sde_dma_read_data`, which copies to `data_ptr`: it answers those bytes. -/
def read_loop : (fuel size : Nat) → SdeDmaBuffer → Prog SdeApi (List (BitVec 8) × SdeDmaBuffer)
  | 0, _, _ => fault .diverge
  | fuel + 1, size, b =>
    match b.buffers with
    | none => fault .null
    | some buffers => do
      let buffer := buffers.getD b.current_buffer_index no_buffer
      let iteration_copy_size := if size < buffer.length.toNat then size else buffer.length.toNat
      let bytes ← Prog.op (I := SdeApi) (.copy_from buffer.data_va iteration_copy_size)
      if b.num_buffers = 0 then
        fault .divide_by_zero
      else
        let b := { b with current_buffer_index := (b.current_buffer_index + 1) % b.num_buffers }
        if 0 < size - iteration_copy_size then
          let (rest, b) ← read_loop fuel (size - iteration_copy_size) b
          return (bytes.1 ++ rest, b)
        else
          return (bytes.1, b)

def sde_dma_read_data (size : Nat) (dma_buffer : SdeDmaBuffer) :
    Prog SdeApi (List (BitVec 8) × SdeDmaBuffer) :=
  read_loop (copy_rounds size dma_buffer.num_buffers) size dma_buffer

/-- The loop of `sde_dma_write_data`. -/
def write_loop : (fuel : Nat) → (data : List (BitVec 8)) → SdeDmaBuffer → Prog SdeApi SdeDmaBuffer
  | 0, _, _ => fault .diverge
  | fuel + 1, data, b =>
    match b.buffers with
    | none => fault .null
    | some buffers => do
      let buffer := buffers.getD b.current_buffer_index no_buffer
      let iteration_copy := if data.length < buffer.length.toNat then data.length else buffer.length.toNat
      Prog.op (I := SdeApi) (.copy_to buffer.data_va (data.take iteration_copy))
      if b.num_buffers = 0 then
        fault .divide_by_zero
      else
        let b := { b with current_buffer_index := (b.current_buffer_index + 1) % b.num_buffers }
        if 0 < data.length - iteration_copy then write_loop fuel (data.drop iteration_copy) b else return b

def sde_dma_write_data (data : List (BitVec 8)) (dma_buffer : SdeDmaBuffer) : Prog SdeApi SdeDmaBuffer :=
  write_loop (copy_rounds data.length dma_buffer.num_buffers) data dma_buffer

end AwsFpga.Sde
