import Mathlib.Data.List.FinRange
import Mathlib.Logic.Function.Basic
import AwsFpga.Lib.Exec
import AwsFpga.Pci.Api

/-!
# The BAR table (`fpga_pci.c`)

Its functions make system calls and read the slot specs of `fpga_pci_sysfs.c`,
and keep the table of attached BARs.
-/

open Lib AwsFpga.Pci

namespace AwsFpga.Bars

/-! ## Slot specs (`hal/fpga_common.h`) -/

abbrev FPGA_PF_MAX : Nat := 2
abbrev FPGA_BAR_PER_PF_MAX : Nat := 5
abbrev FPGA_PCI_BARS_MAX : Nat := FPGA_SLOT_MAX * FPGA_PF_MAX * FPGA_BAR_PER_PF_MAX

instance pf_neZero : NeZero FPGA_PF_MAX := ⟨by decide⟩

instance bar_neZero : NeZero FPGA_BAR_PER_PF_MAX := ⟨by decide⟩

instance bars_neZero : NeZero FPGA_PCI_BARS_MAX := ⟨by decide⟩

/-- The address of a physical function, by which sysfs names its directory. -/
structure Dbdf where
  domain : BitVec 16
  bus : BitVec 8
  dev : BitVec 8
  func : BitVec 8

/-- What the attach reads of `struct fpga_pci_resource_map`. -/
structure ResourceMap where
  ids : FpgaPciResourceMap
  addr : Dbdf
  resource_burstable : Fin FPGA_BAR_PER_PF_MAX → Bool
  resource_size : Fin FPGA_BAR_PER_PF_MAX → BitVec 64

abbrev SlotSpec : Type := Fin FPGA_PF_MAX → ResourceMap

/-! ## System calls -/

/-- The files under `/sys/bus/pci/devices/<addr>/`. -/
inductive SysfsFile where
  | vendor
  | device
  | resource (bar : Fin FPGA_BAR_PER_PF_MAX) (wc : Bool)

/-- How `fopen` and `fscanf("%x")` went. -/
inductive ScanId where
  | open_failed (errno : Int)
  | parse_failed
  | scanned (tmp_id : BitVec 32)

inductive OsOp where
  | get_slot_spec (slot_id : Int)
  | scan_id (addr : Dbdf) (file : SysfsFile)
  | open (addr : Dbdf) (file : SysfsFile)
  | mmap (length : BitVec 64) (fd : Int)
  | close (fd : Int)
  | munmap (mem_base : BitVec 64) (length : BitVec 64)
  | load (reg_ptr : BitVec 64)
  | store (reg_ptr : BitVec 64) (value : BitVec 32)
  | load8 (reg_ptr : BitVec 64)
  | store8 (reg_ptr : BitVec 64) (value : BitVec 8)
  | load64 (reg_ptr : BitVec 64)
  | store64 (reg_ptr : BitVec 64) (value : BitVec 64)
  -- The calls of `fpga_pci.h` that this file does not serve.
  | sysfs (o : PciOp)

def OsOp.Ans : OsOp → Type
  | .get_slot_spec _ => Int × SlotSpec
  | .scan_id .. => ScanId
  | .open .. => Int
  | .mmap .. => BitVec 64
  | .close _ => Int
  | .munmap .. => Int
  | .load _ => BitVec 32
  | .store .. => Unit
  | .load8 _ => BitVec 8
  | .store8 .. => Unit
  | .load64 _ => BitVec 64
  | .store64 .. => Unit
  | .sysfs o => o.Ans

abbrev OsApi : Iface := ⟨OsOp, OsOp.Ans⟩

def MAP_FAILED : BitVec 64 := -1

/-! ## The table -/

structure FpgaPciBar where
  allocated : Bool
  mem_base : BitVec 64
  mem_size : BitVec 64
  deriving DecidableEq

/-- A cleared entry, as `memset` and static storage leave it. -/
def FpgaPciBar.zero : FpgaPciBar := ⟨false, 0, 0⟩

abbrev BarTable : Type := Fin FPGA_PCI_BARS_MAX → FpgaPciBar

def BarTable.start : BarTable := fun _ => .zero

abbrev BarsM : Type → Type := SProg OsApi BarTable

def os (o : OsOp) : BarsM o.Ans := liftProg (Prog.op (I := OsApi) o)

namespace Os

def get_slot_spec (slot_id : Int) : BarsM (Int × SlotSpec) := os (.get_slot_spec slot_id)
def scan_id (addr : Dbdf) (file : SysfsFile) : BarsM ScanId := os (.scan_id addr file)
def open_file (addr : Dbdf) (file : SysfsFile) : BarsM Int := os (.open addr file)
def mmap (length : BitVec 64) (fd : Int) : BarsM (BitVec 64) := os (.mmap length fd)
def close (fd : Int) : BarsM Int := os (.close fd)
def munmap (mem_base length : BitVec 64) : BarsM Int := os (.munmap mem_base length)
def load (reg_ptr : BitVec 64) : BarsM (BitVec 32) := os (.load reg_ptr)
def store (reg_ptr : BitVec 64) (value : BitVec 32) : BarsM Unit := os (.store reg_ptr value)
def load8 (reg_ptr : BitVec 64) : BarsM (BitVec 8) := os (.load8 reg_ptr)
def store8 (reg_ptr : BitVec 64) (value : BitVec 8) : BarsM Unit := os (.store8 reg_ptr value)
def load64 (reg_ptr : BitVec 64) : BarsM (BitVec 64) := os (.load64 reg_ptr)
def store64 (reg_ptr : BitVec 64) (value : BitVec 64) : BarsM Unit := os (.store64 reg_ptr value)

end Os

def set_bar (i : Fin FPGA_PCI_BARS_MAX) (bar : FpgaPciBar) : BarsM Unit :=
  modify fun bars => Function.update bars i bar

/-- The range check of a C index. -/
def toIndex (n : Nat) (x : Int) : Option (Fin n) :=
  if h : 0 ≤ x ∧ x < n then some ⟨x.toNat, by omega⟩ else none

theorem toIndex_eq_some_iff {n : Nat} {x : Int} {i : Fin n} : toIndex n x = some i ↔ x = i.val := by
  unfold toIndex
  split
  case isTrue h =>
    rw [Option.some.injEq, Fin.ext_iff]
    change x.toNat = i.val ↔ x = i.val
    omega
  case isFalse h =>
    have hi := i.isLt
    simp only [reduceCtorEq, false_iff]
    omega

@[simp] theorem toIndex_val {n : Nat} (i : Fin n) : toIndex n (i.val : Int) = some i :=
  toIndex_eq_some_iff.mpr rfl

/-- The entry a handle names, if it names one. -/
def fpga_pci_bar_get (handle : Int) : Option (Fin FPGA_PCI_BARS_MAX) :=
  toIndex FPGA_PCI_BARS_MAX handle

def fpga_pci_bar_set_mem_base_size (i : Fin FPGA_PCI_BARS_MAX) (mem_base mem_size : BitVec 64) :
    BarsM Int := do
  if mem_base = 0 then
    return -EINVAL
  else if mem_size = 0 then
    return -EINVAL
  else
    let bars ← get
    set_bar i { bars i with mem_base, mem_size }
    return 0

/-- A pointer as `fail_on` tests it. -/
def notNull (ptr : BitVec 64) : Option (BitVec 64) := if ptr = 0 then none else some ptr

/-- The address of a register, or `none` for NULL. The bound is checked in 64 bits. -/
def fpga_pci_bar_get_mem_at_offset (bars : BarTable) (handle : Int)
    (offset xaction_size : BitVec 64) : Option (BitVec 64) :=
  match fpga_pci_bar_get handle with
  | none => none
  | some i =>
    if !(bars i).allocated then none
    else if (bars i).mem_base = 0 then none
    else if offset + xaction_size > (bars i).mem_size then none
    else notNull ((bars i).mem_base + offset)

/-- The first entry that is not allocated. -/
def first_free (bars : BarTable) : Option (Fin FPGA_PCI_BARS_MAX) :=
  (List.finRange FPGA_PCI_BARS_MAX).find? fun i => !(bars i).allocated

/-- `fpga_pci_bar_alloc`: `none` stands for `-ENOMEM`. -/
def fpga_pci_bar_alloc : BarsM (Option (Fin FPGA_PCI_BARS_MAX)) := do
  let bars ← get
  match first_free bars with
  | none => return none
  | some i =>
    set_bar i { bars i with allocated := true }
    return some i

def fpga_pci_bar_free (handle : Int) : BarsM Int := do
  match fpga_pci_bar_get handle with
  | none => return -EINVAL
  | some i =>
    set_bar i .zero
    return 0

/-! ## Attach -/

def fpga_pci_check_file_id (addr : Dbdf) (file : SysfsFile) (id : BitVec 16) : BarsM Int := do
  match ← Os.scan_id addr file with
  | .open_failed errno => return -errno
  | .parse_failed => return -EINVAL
  | .scanned tmp_id => return if tmp_id ≠ id.setWidth 32 then -EINVAL else 0

/-- The label `err_unmap`. The code of `munmap` takes the place of the code of the failure. -/
def err_unmap (mem_base length : BitVec 64) (ret : Int) : BarsM (Int × Int) := do
  if mem_base ≠ 0 then
    let ret ← Os.munmap mem_base length
    return (ret, PCI_BAR_HANDLE_INIT)
  else
    return (ret, PCI_BAR_HANDLE_INIT)

/-- The second half of `fpga_pci_bar_attach`: an entry for the new mapping. -/
def bar_attach_mapped (mem_base length : BitVec 64) : BarsM (Int × Int) := do
  match ← fpga_pci_bar_alloc with
  | none => err_unmap mem_base length (-ENOMEM)
  | some i =>
    let ret ← fpga_pci_bar_set_mem_base_size i mem_base length
    if ret ≠ 0 then
      err_unmap mem_base length ret
    else
      return (0, i)

/-- The answer is the code and `*handle`, which is -1 from the first check on. -/
def fpga_pci_bar_attach (map : ResourceMap) (bar : Fin FPGA_BAR_PER_PF_MAX)
    (write_combining : Bool) : BarsM (Int × Int) := do
  let ret ← fpga_pci_check_file_id map.addr .vendor map.ids.vendor_id
  if ret ≠ 0 then
    return (FPGA_ERR_PCI_MISSING, PCI_BAR_HANDLE_INIT)
  else
    let ret ← fpga_pci_check_file_id map.addr .device map.ids.device_id
    if ret ≠ 0 then
      return (FPGA_ERR_PCI_MISSING, PCI_BAR_HANDLE_INIT)
    else
      let wc := map.resource_burstable bar && write_combining
      let fd ← Os.open_file map.addr (.resource bar wc)
      if fd = -1 then
        return (FPGA_ERR_UNRESPONSIVE, PCI_BAR_HANDLE_INIT)
      else
        let mem_base ← Os.mmap (map.resource_size bar) fd
        let _ ← Os.close fd
        if mem_base = MAP_FAILED then
          return (FPGA_ERR_UNRESPONSIVE, PCI_BAR_HANDLE_INIT)
        else
          bar_attach_mapped mem_base (map.resource_size bar)

/-- `handle` is what `*handle` held before the call. A request refused early leaves it there. -/
def fpga_pci_attach (slot_id pf_id bar_id : Int) (flags : BitVec 32) (handle : Int) :
    BarsM (Int × Int) := do
  match toIndex FPGA_PF_MAX pf_id, toIndex FPGA_BAR_PER_PF_MAX bar_id with
  | some pf, some bar =>
    let (ret, spec) ← Os.get_slot_spec slot_id
    if ret ≠ 0 then
      return (ret, handle)
    else if flags &&& BURST_CAPABLE ≠ 0 then
      if (spec pf).resource_burstable bar then
        fpga_pci_bar_attach (spec pf) bar true
      else
        return (-EINVAL, handle)
    else
      fpga_pci_bar_attach (spec pf) bar false
  | _, _ => return (-EINVAL, handle)

/-! ## Detach, peek and poke -/

/-- An entry is given back only when `munmap` took the mapping. -/
def fpga_pci_detach (handle : Int) : BarsM Int := do
  match fpga_pci_bar_get handle with
  | none => return -EINVAL
  | some i =>
    let bars ← get
    let ret ← Os.munmap (bars i).mem_base (bars i).mem_size
    if ret ≠ 0 then
      return -EINVAL
    else
      let ret ← fpga_pci_bar_free handle
      if ret ≠ 0 then return -EINVAL else return 0

/-- `value` is what `*value` held before the call. -/
def fpga_pci_peek (handle : Int) (offset : BitVec 64) (value : BitVec 32) :
    BarsM (Int × BitVec 32) := do
  match fpga_pci_bar_get_mem_at_offset (← get) handle offset 4 with
  | none => return (-EINVAL, value)
  | some reg_ptr =>
    let value ← Os.load reg_ptr
    return (0, value)

def fpga_pci_poke (handle : Int) (offset : BitVec 64) (value : BitVec 32) : BarsM Int := do
  match fpga_pci_bar_get_mem_at_offset (← get) handle offset 4 with
  | none => return -EINVAL
  | some reg_ptr =>
    Os.store reg_ptr value
    return 0

/-! ## The layer -/

/-- `fpga_pci.h` on top of these functions, for callers whose out arguments hold `old`. -/
def barsImpl (old : Int) : (o : PciOp) → BarsM o.Ans
  | .init => return (0 : Int)
  | .attach slot_id pf_id bar_id flags => fpga_pci_attach slot_id pf_id bar_id flags old
  | .detach handle => fpga_pci_detach handle
  | .peek handle offset => fpga_pci_peek handle offset (BitVec.ofInt 32 old)
  | .poke handle offset value => fpga_pci_poke handle offset value
  | .get_slot_spec slot_id => do
    let (ret, spec) ← Os.get_slot_spec slot_id
    return (ret, ⟨(spec 0).ids, (spec 1).ids⟩)
  | o => os (.sysfs o)

end AwsFpga.Bars
