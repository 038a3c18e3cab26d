import AwsFpga.Sde.HwCtrl

/-!
# The memory of the streaming data engine (`sde_mem.c`)

Addresses are 64-bit numbers. What the driver shares with the device (status
counters, metadata, packet data) is read and written by calls of its own, since
the device may change it between any two of them.
-/

open Lib AwsFpga.Pci

namespace AwsFpga.Sde

def SDE_NUM_DESC : Nat := 64
def C2H_NUM_MD_IN_RING : Nat := 64
def SDE_ALIGN : BitVec 64 := 64

/-! ## What the driver calls -/

inductive Fault where
  /-- A division or remainder by 0. -/
  | divide_by_zero
  /-- A loop that goes on for ever. -/
  | diverge
  /-- An access through NULL. -/
  | null
  deriving DecidableEq

/-- What a mapping is for. The call itself does not say. -/
inductive MapFor where
  | writeback (s : SdeSubsystem)
  | buffer (s : SdeSubsystem)
  deriving DecidableEq

/-- The fields of `struct c2h_status` and `struct h2c_status`. Only the first has `meta_write`. -/
inductive StatusField where
  | status
  | desc_limit
  | desc_completed
  | pkt_completed
  | meta_write
  deriving DecidableEq

inductive SdeOp where
  | pci (o : PciOp)
  -- From `fpga_dma_mem.h`.
  | map_anon (purpose : MapFor) (size_bytes : BitVec 64)
  | map_huge (purpose : MapFor)
  | unmap (virtual_address size_bytes : BitVec 64)
  | malloc (size : Nat)
  | free
  -- `volatile` accesses, to the struct at `va`.
  | status_load (s : SdeSubsystem) (va : BitVec 64) (field : StatusField)
  | status_store (s : SdeSubsystem) (va : BitVec 64) (field : StatusField) (value : BitVec 32)
  | md_length (va : BitVec 64) (index : Nat)
  | md_status (va : BitVec 64) (index : Nat)
  | md_user (va : BitVec 64) (index : Nat)
  | md_store_status (va : BitVec 64) (index : Nat) (status : BitVec 32)
  -- `memcpy` from and to a packet buffer.
  | copy_from (va : BitVec 64) (size : Nat)
  | copy_to (va : BitVec 64) (bytes : List (BitVec 8))
  | fault (f : Fault)

/-- A map answers its return code and what it leaves in the two addresses, `malloc` whether it is
not NULL. Nothing follows a fault. -/
def SdeOp.Ans : SdeOp → Type
  | .pci o => o.Ans
  | .map_anon .. | .map_huge _ => Int × BitVec 64 × BitVec 64
  | .unmap .. => Int
  | .malloc _ => Bool
  | .free => Unit
  | .status_load .. => BitVec 32
  | .status_store .. => Unit
  | .md_length .. | .md_status .. => BitVec 32
  | .md_user .. => BitVec 64
  | .md_store_status .. => Unit
  | .copy_from _ size => {bytes : List (BitVec 8) // bytes.length = size}
  | .copy_to .. => Unit
  | .fault _ => Empty

abbrev SdeApi : Iface := ⟨SdeOp, SdeOp.Ans⟩

/-- A program of the register layer, as a part of the driver. -/
def ofPci {α : Type} : Prog PciApi α → Prog SdeApi α
  | .pure a => .pure a
  | .call o k => .call (.pci o) fun r => ofPci (k r)

theorem ofPci_bind {α β : Type} (p : Prog PciApi α) (f : α → Prog PciApi β) :
    ofPci (p >>= f) = ofPci p >>= fun a => ofPci (f a) := by
  induction p with
  | pure a => rfl
  | call o k ih => exact congrArg (Prog.call (I := SdeApi) (.pci o)) (funext ih)

theorem ofPci_allCalls {α : Type} {P : SdeOp → Prop} {p : Prog PciApi α}
    (hp : p.AllCalls fun o => P (.pci o)) : (ofPci p).AllCalls P := by
  induction p with
  | pure a => trivial
  | call o k ih => exact ⟨hp.1, fun r => ih r (hp.2 r)⟩

/-- A call of the register layer, as one of the driver. -/
def liftEvent (e : PciApi.Event) : SdeApi.Event := ⟨.pci e.1, e.2⟩

theorem runs_ofPci {α : Type} {p : Prog PciApi α} {t : List SdeApi.Event} {a : α}
    (h : (ofPci p).Runs t a) : ∃ t', p.Runs t' a ∧ t = t'.map liftEvent := by
  induction p generalizing t with
  | pure b =>
    obtain ⟨rfl, rfl⟩ := h
    exact ⟨[], ⟨rfl, rfl⟩, rfl⟩
  | call o k ih =>
    obtain ⟨r, t', rfl, hrest⟩ := h
    obtain ⟨t'', hrun, rfl⟩ := ih r hrest
    exact ⟨⟨o, r⟩ :: t'', ⟨r, t'', rfl, hrun⟩, rfl⟩

def fpga_dma_mem_map_anon (purpose : MapFor) (size_bytes : BitVec 64) :
    Prog SdeApi (Int × BitVec 64 × BitVec 64) :=
  Prog.op (I := SdeApi) (.map_anon purpose size_bytes)

def fpga_dma_mem_map_huge (purpose : MapFor) : Prog SdeApi (Int × BitVec 64 × BitVec 64) :=
  Prog.op (I := SdeApi) (.map_huge purpose)

def fpga_dma_mem_unmap (virtual_address size_bytes : BitVec 64) : Prog SdeApi Int :=
  Prog.op (I := SdeApi) (.unmap virtual_address size_bytes)

def malloc (size : Nat) : Prog SdeApi Bool := Prog.op (I := SdeApi) (.malloc size)

def free : Prog SdeApi Unit := Prog.op (I := SdeApi) .free

def fault {α : Type} (f : Fault) : Prog SdeApi α :=
  Prog.call (I := SdeApi) (.fault f) fun e : Empty => nomatch e

/-! ## Structures -/

inductive SdeExampleDir where
  | c2h
  | h2c
  | loopback
  deriving DecidableEq

inductive SdeBufferLayout where
  | single
  | multi
  | user_managed
  deriving DecidableEq

/-- `struct sde_buffer`. -/
structure SdeBuffer where
  data_va : BitVec 64
  data_pa : BitVec 64
  length : BitVec 32
  alloc_length : BitVec 32
  deriving DecidableEq

/-- `struct sde_writeback_mem`. -/
structure SdeWritebackMem where
  memory_va : BitVec 64
  memory_pa : BitVec 64
  memory_size : BitVec 64
  metadata_offset : BitVec 64
  desc_offset : BitVec 64
  status_offset : BitVec 64
  deriving DecidableEq

/-- `struct sde_mem`. A pointer to an array of buffers is `none` when it is NULL. -/
structure SdeMem where
  c2h_writeback : SdeWritebackMem
  h2c_writeback : SdeWritebackMem
  c2h_layout : SdeBufferLayout
  c2h_buffers : Option (List SdeBuffer)
  c2h_num_buffers : Nat
  h2c_layout : SdeBufferLayout
  h2c_buffers : Option (List SdeBuffer)
  h2c_num_buffers : Nat
  deriving DecidableEq

def SdeWritebackMem.zero : SdeWritebackMem := ⟨0, 0, 0, 0, 0, 0⟩

/-- After `memset`. `SDE_BUFFER_LAYOUT_SINGLE` is 0. -/
def SdeMem.zero : SdeMem := ⟨.zero, .zero, .single, none, 0, .single, none, 0⟩

def SdeMem.writeback (mem : SdeMem) : SdeSubsystem → SdeWritebackMem
  | .c2h => mem.c2h_writeback
  | .h2c => mem.h2c_writeback

/-! ## Initialisation -/

/-- `sizeof(struct c2h_wb_metadata)` and `sizeof(struct c2h_status)`. -/
def c2h_metadata_size : BitVec 64 := 16

def c2h_status_size : BitVec 64 := 20

def sde_aligned_size (size bit_alignment : BitVec 64) : BitVec 64 :=
  (size + (bit_alignment - 1)) &&& ~~~(bit_alignment - 1)

/-- Which of the parts come first: only C2H has metadata. -/
def writeback_layout (subsystem : SdeSubsystem) : SdeWritebackMem :=
  let metadata_ring_size : BitVec 64 := match subsystem with
    | .c2h => sde_aligned_size (c2h_metadata_size * BitVec.ofNat 64 C2H_NUM_MD_IN_RING) SDE_ALIGN
    | .h2c => 0
  let desc_ring_size := sde_aligned_size
    (BitVec.ofNat 64 (desc_element_size subsystem * SDE_NUM_DESC)) SDE_ALIGN
  let status_size := sde_aligned_size c2h_status_size SDE_ALIGN
  { SdeWritebackMem.zero with
    desc_offset := metadata_ring_size
    status_offset := metadata_ring_size + desc_ring_size
    memory_size := desc_ring_size + metadata_ring_size + status_size }

def writeback_init (subsystem : SdeSubsystem) : Prog SdeApi (Int × SdeWritebackMem) := do
  let layout := writeback_layout subsystem
  let (ret, va, pa) ← fpga_dma_mem_map_anon (.writeback subsystem) layout.memory_size
  return (ret, { layout with memory_va := va, memory_pa := pa })

/-- The loop of `dma_buffer_init`, with the buffers mapped so far. More than 4k need a hugepage. -/
def map_buffers (subsystem : SdeSubsystem) (pkt_size : BitVec 64) :
    (left : Nat) → List SdeBuffer → Prog SdeApi (Int × List SdeBuffer)
  | 0, buffers => return (0, buffers)
  | left + 1, buffers => do
    let length : BitVec 32 := pkt_size.setWidth 32
    let (ret, va, pa) ← (if 0x1000 < pkt_size.toNat then fpga_dma_mem_map_huge (.buffer subsystem)
      else fpga_dma_mem_map_anon (.buffer subsystem) (length.setWidth 64))
    let alloc_length := if 0x1000 < pkt_size.toNat then 2 * 1024 * 1024 else length
    let buffers := buffers ++ [⟨va, pa, length, alloc_length⟩]
    if ret ≠ 0 then return (ret, buffers) else map_buffers subsystem pkt_size left buffers

def sizeof_sde_buffer : Nat := 24

/-- `num_buffers` is what the caller passed, and stays when the layout is neither of the first two. -/
def dma_buffer_init (subsystem : SdeSubsystem) (layout : SdeBufferLayout) (pkt_size : BitVec 64)
    (num_buffers : Nat) : Prog SdeApi (Int × Option (List SdeBuffer) × Nat) := do
  let num_buffers := match layout with
    | .single => 1
    | .multi => SDE_NUM_DESC
    | .user_managed => num_buffers
  let allocated ← malloc (num_buffers * sizeof_sde_buffer)
  if allocated = false then
    return (SDE_ALLOCATION_FAILURE, none, num_buffers)
  else
    let (ret, buffers) ← map_buffers subsystem pkt_size num_buffers []
    return (ret, some buffers, num_buffers)

def sde_mem_init (c2h_layout h2c_layout : SdeBufferLayout) (direction : SdeExampleDir)
    (pkt_size : BitVec 64) (mem : SdeMem) : Prog SdeApi (Int × SdeMem) :=
  if 0x200000 < pkt_size.toNat then
    return (FPGA_ERR_SOFTWARE_PROBLEM, mem)
  else
    Prog.failOn (do
      let (ret, writeback) ← writeback_init .c2h
      return (ret, { SdeMem.zero with c2h_writeback := writeback })) fun mem =>
    Prog.failOn (do
      let (ret, writeback) ← writeback_init .h2c
      return (ret, { mem with h2c_writeback := writeback })) fun mem =>
    Prog.failOn (
      let mem := { mem with c2h_layout := c2h_layout, c2h_num_buffers := 0 }
      if direction ≠ .h2c ∧ c2h_layout ≠ .user_managed then do
        let (ret, buffers, num_buffers) ← dma_buffer_init .c2h c2h_layout pkt_size 0
        return (ret, { mem with c2h_buffers := buffers, c2h_num_buffers := num_buffers })
      else return (0, mem)) fun mem =>
    Prog.failOn (
      let mem := { mem with h2c_layout := h2c_layout, h2c_num_buffers := 0 }
      if direction ≠ .c2h ∧ h2c_layout ≠ .user_managed then do
        let (ret, buffers, num_buffers) ← dma_buffer_init .h2c h2c_layout pkt_size 0
        return (ret, { mem with h2c_buffers := buffers, h2c_num_buffers := num_buffers })
      else return (0, mem)) fun mem =>
    return (0, mem)

/-! ## Closing -/

/-- `ret |= fpga_dma_mem_unmap(..)` for each buffer. -/
def unmap_buffers : List SdeBuffer → (ret : Int) → Prog SdeApi Int
  | [], ret => return ret
  | b :: bs, ret => do
    let r ← fpga_dma_mem_unmap b.data_va (b.alloc_length.setWidth 64)
    unmap_buffers bs (Int.lor ret r)

/-- `fpga_dma_mem_unmap` clears the address that it unmapped. -/
def SdeWritebackMem.unmapped (w : SdeWritebackMem) (ret : Int) : SdeWritebackMem :=
  if ret = 0 then { w with memory_va := 0 } else w

def sde_mem_close (mem : SdeMem) : Prog SdeApi (Int × SdeMem) := do
  let ret₀ ← fpga_dma_mem_unmap mem.c2h_writeback.memory_va mem.c2h_writeback.memory_size
  let ret₁ ← fpga_dma_mem_unmap mem.h2c_writeback.memory_va mem.h2c_writeback.memory_size
  let ret ← unmap_buffers ((mem.c2h_buffers.getD []).take mem.c2h_num_buffers) (Int.lor ret₀ ret₁)
  let ret ← unmap_buffers ((mem.h2c_buffers.getD []).take mem.h2c_num_buffers) ret
  free
  free
  return (ret, { mem with
    c2h_writeback := mem.c2h_writeback.unmapped ret₀
    h2c_writeback := mem.h2c_writeback.unmapped ret₁ })

/-! ## Addresses -/

def SdeWritebackMem.desc_va (w : SdeWritebackMem) : BitVec 64 := w.desc_offset + w.memory_va

def SdeWritebackMem.status_va (w : SdeWritebackMem) : BitVec 64 := w.status_offset + w.memory_va

def SdeWritebackMem.status_pa (w : SdeWritebackMem) : BitVec 64 := w.status_offset + w.memory_pa

def SdeWritebackMem.metadata_va (w : SdeWritebackMem) : BitVec 64 := w.metadata_offset + w.memory_va

def SdeWritebackMem.metadata_pa (w : SdeWritebackMem) : BitVec 64 := w.metadata_offset + w.memory_pa

def sde_mem_get_status (mem : SdeMem) (subsystem : SdeSubsystem) : BitVec 64 × BitVec 64 :=
  ((mem.writeback subsystem).status_va, (mem.writeback subsystem).status_pa)

/-- Only for C2H, the other subsystem is refused. -/
def sde_mem_get_metadata (mem : SdeMem) : BitVec 64 × BitVec 64 :=
  (mem.c2h_writeback.metadata_va, mem.c2h_writeback.metadata_pa)

def sde_mem_get_buffers (mem : SdeMem) : SdeSubsystem → Option (List SdeBuffer) × Nat
  | .c2h => (mem.c2h_buffers, mem.c2h_num_buffers)
  | .h2c => (mem.h2c_buffers, mem.h2c_num_buffers)

end AwsFpga.Sde
