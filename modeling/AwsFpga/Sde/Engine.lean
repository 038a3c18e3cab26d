import AwsFpga.Lib.Env
import AwsFpga.Sde.Mgmt

/-!
# The descriptor engine under the driver (`design/sde_desc.sv`, `sde_ps_acc.sv`, `sde_c2h_cfg.sv`)

Of the device: the descriptor RAM of each direction, the dwords of a descriptor
that is not complete, the credit limit, and where it is written back to. Of the
host: the field `desc_limit` of the status struct mapped last.
-/

open Lib AwsFpga.Pci

namespace AwsFpga.Sde

/-- The dwords of a descriptor, `ACC_WIDTH` in `sde_ps_acc.sv`. -/
def dwords (s : SdeSubsystem) : Nat := desc_element_size s / 4

structure Engine where
  /-- Descriptors written to the RAM and not yet popped. -/
  fifo : Nat
  /-- Dwords received of the next one. -/
  acc : Nat
  cdt_limit : BitVec 32
  wb_ctl : BitVec 32
  status_addr_lo : BitVec 32
  status_addr_hi : BitVec 32
  /-- The memory that `writeback_init` mapped last for this direction. -/
  memory_va : BitVec 64
  memory_pa : BitVec 64
  desc_limit : BitVec 32

namespace Engine

def DESC_RAM_DEPTH : Nat := 64

/-- `status_offset` is the same in both directions. -/
def status_offset : BitVec 64 := 2048

def status_va (d : Engine) : BitVec 64 := status_offset + d.memory_va

def status_pa (d : Engine) : BitVec 64 := status_offset + d.memory_pa

/-- `cfg_wb_status_addr`, 48 bits. -/
def status_addr (d : Engine) : BitVec 64 :=
  (d.status_addr_hi.setWidth 16 ++ d.status_addr_lo).setWidth 64

/-- Some counter is written back, and the struct with it to `pa`. -/
def WritesTo (d : Engine) (pa : BitVec 64) : Prop := d.wb_ctl &&& 0xF ≠ 0 ∧ d.status_addr = pa

def Armed (d : Engine) : Prop := d.WritesTo d.status_pa

/-- All that the RAM and the accumulator hold, in dwords. -/
def level (d : Engine) (s : SdeSubsystem) : Nat := d.fifo * dwords s + d.acc

def pop (d : Engine) : Engine := { d with fifo := d.fifo - 1, cdt_limit := d.cdt_limit + 1 }

def write_back (d : Engine) : Engine := { d with desc_limit := d.cdt_limit }

def reset (d : Engine) : Engine :=
  { d with
    fifo := 0, acc := 0, cdt_limit := BitVec.ofNat 32 DESC_RAM_DEPTH
    wb_ctl := 0, status_addr_lo := 0, status_addr_hi := 0 }

/-- A dword comes in. -/
def push (d : Engine) (s : SdeSubsystem) : Engine :=
  if d.acc + 1 = dwords s then { d with fifo := d.fifo + 1, acc := 0 } else { d with acc := d.acc + 1 }

/-- A write to BAR 4. The driver writes descriptors to the first dword of their window only. -/
def poke (d : Engine) (s : SdeSubsystem) (offset : BitVec 64) (value : BitVec 32) : Engine :=
  if offset = DESC_RAM_MAP_OFFSET s then d.push s
  else if offset = DESCRIPTOR_CREDIT_LIMIT_COUNTER_REG s ∧ value = 0 then
    { d with cdt_limit := BitVec.ofNat 32 DESC_RAM_DEPTH }
  else if offset = WRITEBACK_CFG_REG s then { d with wb_ctl := value }
  else if offset = STATUS_CNTRS_BADDR_LO_REG s then { d with status_addr_lo := value }
  else if offset = STATUS_CNTRS_BADDR_HI_REG s then { d with status_addr_hi := value }
  else d

end Engine

structure Device where
  /-- The BAR behind a handle. -/
  bar : Int → Option Int
  dir : SdeSubsystem → Engine

namespace Device

def set (dev : Device) (s : SdeSubsystem) (d : Engine) : Device :=
  { dev with dir := Function.update dev.dir s d }

def poke (dev : Device) (handle : Int) (offset : BitVec 64) (value : BitVec 32) : Device :=
  if dev.bar handle = some APP_PF_BAR0 then
    if offset = SDE_GENERAL_PURPOSE_CFG_REG ∧ value &&& GPCR_SDE_RESET_MASK ≠ 0 then
      { dev with dir := fun s => (dev.dir s).reset }
    else dev
  else if dev.bar handle = some APP_PF_BAR4 then
    { dev with dir := fun s => (dev.dir s).poke s offset value }
  else dev

/-- How a call of the driver is answered. A poke that fails writes nothing. A handle that an attach
answers is not in use, and a new mapping is not what the device still writes to. -/
def Answers : (o : SdeOp) → Device → o.Ans → Device → Prop
  | .pci (.poke handle offset value), dev, (ret : Int), dev' =>
    dev' = if ret = 0 then dev.poke handle offset value else dev
  | .pci (.attach _ _ bar_id _), dev, (r : Int × Int), dev' =>
    if r.1 = 0 then
      dev.bar r.2 = none ∧ dev' = { dev with bar := Function.update dev.bar r.2 (some bar_id) }
    else dev' = dev
  | .pci (.detach handle), dev, (ret : Int), dev' =>
    dev' = if ret = 0 then { dev with bar := Function.update dev.bar handle none } else dev
  | .map_anon (.writeback s) _, dev, (r : Int × BitVec 64 × BitVec 64), dev' =>
    if r.1 = 0 then
      ¬ (dev.dir s).WritesTo (Engine.status_offset + r.2.2) ∧
        dev' = dev.set s { dev.dir s with memory_va := r.2.1, memory_pa := r.2.2, desc_limit := 0 }
    else dev' = dev
  | .status_load s va .desc_limit, dev, (value : BitVec 32), dev' =>
    dev' = dev ∧ (va = (dev.dir s).status_va → value = (dev.dir s).desc_limit)
  | .status_store s va .desc_limit value, dev, _, dev' =>
    dev' = if va = (dev.dir s).status_va then dev.set s { dev.dir s with desc_limit := value } else dev
  | _, dev, _, dev' => dev' = dev

/-- What the hardware does by itself: it pops a descriptor, which moves its limit, and it writes the
limit back. -/
inductive Moves : Device → Device → Prop where
  | pop {dev} (s) (h : 0 < (dev.dir s).fifo) : Moves dev (dev.set s (dev.dir s).pop)
  | write_back {dev} (s) (h : (dev.dir s).Armed) : Moves dev (dev.set s (dev.dir s).write_back)

def env : Env SdeApi Device := ⟨Answers, Moves⟩

end Device

end AwsFpga.Sde
