import AwsFpga.Pci.Bars

/-!
# Slots from sysfs (`fpga_pci_sysfs.c`)

The functions look at `/sys/bus/pci/devices`, which stays as it is while they
run. So a retry finds what the first look found, and a rescan brings nothing.
-/

open AwsFpga.Pci AwsFpga.Bars

namespace AwsFpga.Sysfs

abbrev FPGA_MGMT_PF : Fin FPGA_PF_MAX := 1
abbrev FPGA_APP_PF : Fin FPGA_PF_MAX := 0

def FPGA_MBOX_VENDOR_ID : BitVec 16 := 0x1d0f
def F1_MBOX_DEVICE_ID : BitVec 16 := 0x1041
def F2_MBOX_DEVICE_ID : BitVec 16 := 0x9248

/-! ## The directory -/

/-- `%04x:%02x:%02x.%d`, the name that the kernel gives to the directory of a function. -/
structure DirName where
  domain : BitVec 32
  bus : BitVec 8
  dev : BitVec 8
  func : BitVec 8
  deriving DecidableEq

inductive IdFile where
  | vendor
  | device
  | subsystem_vendor
  | subsystem_device

/-- The directory of a function: how reading its ID files goes, and the sizes of the files
`resource<n>` and `resource<n>_wc` that it has. -/
structure DevDir where
  name : DirName
  id : IdFile → ScanId
  resource : Fin FPGA_BAR_PER_PF_MAX → (wc : Bool) → Option (BitVec 64)

/-- The entries in the order in which `readdir` delivers them. -/
structure SysfsDir where
  entries : List DevDir
  names : (entries.map DevDir.name).Nodup

def SysfsDir.lookup (dir : SysfsDir) (name : DirName) : Option DevDir :=
  dir.entries.find? fun entry => entry.name = name

/-! ## One device -/

def fpga_pci_get_id (entry : DevDir) (file : IdFile) : Except Int (BitVec 16) :=
  match entry.id file with
  | .open_failed errno => .error (-errno)
  | .parse_failed => .error FPGA_ERR_UNRESPONSIVE
  | .scanned tmp_id => .ok (tmp_id.setWidth 16)

/-- `sscanf` takes four digits for the domain at most, and then wants the colon. -/
def fpga_pci_get_dbdf (dir_name : DirName) : Except Int Dbdf :=
  if dir_name.domain.toNat < 2 ^ 16 then
    .ok ⟨dir_name.domain.setWidth 16, dir_name.bus, dir_name.dev, dir_name.func⟩
  else
    .error FPGA_ERR_SOFTWARE_PROBLEM

/-- The map starts out cleared. -/
def fpga_pci_get_resource_map_ids (entry : DevDir) : Except Int ResourceMap := do
  let vendor_id ← fpga_pci_get_id entry .vendor
  let device_id ← fpga_pci_get_id entry .device
  let subsystem_vendor_id ← fpga_pci_get_id entry .subsystem_vendor
  let subsystem_device_id ← fpga_pci_get_id entry .subsystem_device
  let addr ← fpga_pci_get_dbdf entry.name
  return { ids := ⟨vendor_id, device_id, subsystem_device_id, subsystem_vendor_id⟩, addr
           resource_burstable := fun _ => false, resource_size := fun _ => 0 }

def resource_nums : List (Fin FPGA_BAR_PER_PF_MAX) := [0, 1, 2, 4]

/-- `fpga_pci_get_pci_resource_info`, and what its caller does with the answer. -/
def read_resource (entry : DevDir) (r : ResourceMap × Bool) (num : Fin FPGA_BAR_PER_PF_MAX) :
    ResourceMap × Bool :=
  match entry.resource num false with
  | none => r
  | some size =>
    ({ r.1 with
      resource_size := Function.update r.1.resource_size num size
      resource_burstable :=
        Function.update r.1.resource_burstable num (entry.resource num true).isSome }, true)

def fpga_pci_get_resources (entry : DevDir) (map : ResourceMap) : Except Int ResourceMap :=
  let (map, found_one_device) := resource_nums.foldl (read_resource entry) (map, false)
  if found_one_device then .ok map else .error FPGA_ERR_PCI_MISSING

def IS_F1 (mbox_map : ResourceMap) : Bool := mbox_map.ids.device_id = F1_MBOX_DEVICE_ID
def IS_F2 (mbox_map : ResourceMap) : Bool := mbox_map.ids.device_id = F2_MBOX_DEVICE_ID

/-! ## The scan -/

/-- A cleared `struct fpga_slot_spec`. -/
def emptySpec : SlotSpec := fun _ => ⟨⟨0, 0, 0, 0⟩, ⟨0, 0, 0, 0⟩, fun _ => false, fun _ => 0⟩

def fpga_slot_spec_is_initialized (spec : SlotSpec) : Bool :=
  let map := spec FPGA_MGMT_PF
  !(map.addr.domain = 0 && map.addr.bus = 0 && map.addr.dev = 0 && map.addr.func = 0)

/-- The second half of the comparison. Its differences are `int`, the operands shorter than that. -/
def compare_addr (a b : Dbdf) : Int :=
  if (a.domain.toNat : Int) - b.domain.toNat ≠ 0 then a.domain.toNat - b.domain.toNat
  else if (a.bus.toNat : Int) - b.bus.toNat ≠ 0 then a.bus.toNat - b.bus.toNat
  else if (a.dev.toNat : Int) - b.dev.toNat ≠ 0 then a.dev.toNat - b.dev.toNat
  else a.func.toNat - b.func.toNat

def fpga_pci_slot_spec_compare (spec_a spec_b : SlotSpec) : Int :=
  let a_initialized := fpga_slot_spec_is_initialized spec_a
  let b_initialized := fpga_slot_spec_is_initialized spec_b
  if a_initialized ≠ b_initialized then
    if a_initialized then -1 else 1
  else
    compare_addr (spec_a FPGA_MGMT_PF).addr (spec_b FPGA_MGMT_PF).addr

/-- A `qsort` of the C library, for the comparison above. Entries that compare equal may end up in
any order. -/
structure Qsort where
  sort : List SlotSpec → List SlotSpec
  perm : ∀ l, (sort l).Perm l
  sorted : ∀ l, (sort l).Pairwise fun a b => fpga_pci_slot_spec_compare a b ≤ 0

/-- The loop over the directory. `found` are the entries of `spec_array` set so far. -/
def mbox_loop : List DevDir → (found : List ResourceMap) → Except Int (List ResourceMap)
  | [], found => .ok found
  | entry :: rest, found =>
    match fpga_pci_get_resource_map_ids entry with
    | .error _ => mbox_loop rest found
    | .ok search_map =>
      if search_map.ids.vendor_id = FPGA_MBOX_VENDOR_ID ∧ (IS_F1 search_map || IS_F2 search_map) then
        match fpga_pci_get_resources entry search_map with
        | .error ret => .error ret
        | .ok search_map =>
          let found := found ++ [search_map]
          if found.length ≥ FPGA_SLOT_MAX then .ok found else mbox_loop rest found
      else
        mbox_loop rest found

def mgmtSpec (map : ResourceMap) : SlotSpec := Function.update emptySpec FPGA_MGMT_PF map

/-- `spec_array_out` as the call leaves it: at most `size` entries of it are written. -/
def fpga_pci_mbox_scan (q : Qsort) (dir : SysfsDir) (spec_array_out : List SlotSpec) (size : Nat) :
    Except Int (List SlotSpec) := do
  let found ← mbox_loop dir.entries []
  if found.isEmpty then
    .error FPGA_ERR_PCI_MISSING
  else
    let spec_array :=
      q.sort (found.map mgmtSpec ++ List.replicate (FPGA_SLOT_MAX - found.length) emptySpec)
    return spec_array.take size ++ spec_array_out.drop (min size FPGA_SLOT_MAX)

/-! ## The application function -/

/-- The name that `fpga_pci_mbox2app` makes. A device number below 0 makes the name of nothing. -/
def app_dir_name (mbox_map : ResourceMap) : Option DirName :=
  let dev : Int := mbox_map.addr.dev.toNat - (if IS_F1 mbox_map then 1 else 0)
  if dev < 0 then none
  else some ⟨mbox_map.addr.domain.setWidth 32, mbox_map.addr.bus, BitVec.ofInt 8 dev,
    if IS_F1 mbox_map then mbox_map.addr.func else 0⟩

/-- The application map, and its directory. Both retry loops end with the same code. -/
def fpga_pci_mbox2app (dir : SysfsDir) (mbox_map : ResourceMap) :
    Except Int (DevDir × ResourceMap) :=
  match (app_dir_name mbox_map).bind dir.lookup with
  | none => .error FPGA_ERR_UNRESPONSIVE
  | some entry =>
    match fpga_pci_get_resource_map_ids entry with
    | .error _ => .error FPGA_ERR_UNRESPONSIVE
    | .ok app_map => .ok (entry, app_map)

def fpga_pci_complete_slot_spec (dir : SysfsDir) (spec : SlotSpec) : Except Int SlotSpec := do
  let (entry, app_map) ← fpga_pci_mbox2app dir (spec FPGA_MGMT_PF)
  let app_map ← fpga_pci_get_resources entry app_map
  return Function.update spec FPGA_APP_PF app_map

/-- The loop of `fpga_pci_get_all_slot_specs`, up to the first empty slot. -/
def complete_loop (dir : SysfsDir) : List SlotSpec → Except Int (List SlotSpec)
  | [] => .ok []
  | spec :: rest =>
    if !fpga_slot_spec_is_initialized spec then
      .ok (spec :: rest)
    else do
      let spec ← fpga_pci_complete_slot_spec dir spec
      let rest ← complete_loop dir rest
      return spec :: rest

def fpga_pci_get_all_slot_specs (q : Qsort) (dir : SysfsDir) (spec_array : List SlotSpec) :
    Except Int (List SlotSpec) := do
  let spec_array ← fpga_pci_mbox_scan q dir spec_array spec_array.length
  complete_loop dir spec_array

def fpga_pci_get_slot_spec (q : Qsort) (dir : SysfsDir) (slot_id : Int) : Except Int SlotSpec := do
  if slot_id < 0 ∨ slot_id ≥ FPGA_SLOT_MAX then
    .error (-EINVAL)
  else
    let size := min FPGA_SLOT_MAX (slot_id.toNat + 1)
    let spec_array ← fpga_pci_mbox_scan q dir (List.replicate FPGA_SLOT_MAX emptySpec) size
    let spec ← fpga_pci_complete_slot_spec dir (spec_array.getD slot_id.toNat emptySpec)
    if !fpga_slot_spec_is_initialized spec then .error (-ENOENT) else return spec

end AwsFpga.Sysfs
