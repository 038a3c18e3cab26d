import Mathlib.Data.List.Sort
import AwsFpga.Pci.Sysfs

/-!
# The numbers of the slots

The comparison orders the entries by one number each. A scan that sees all
management functions sorts the same set, whatever the order of the directory; one
that stops early does not see all of them.
-/

open AwsFpga.Pci AwsFpga.Bars

namespace AwsFpga.Sysfs

/-! ## The order -/

/-- The address read as one number, the domain on top. -/
def number (addr : Dbdf) : Nat :=
  ((addr.domain.toNat * 256 + addr.bus.toNat) * 256 + addr.dev.toNat) * 256 + addr.func.toNat

theorem number_lt (addr : Dbdf) : number addr < 2 ^ 40 := by
  have := addr.domain.isLt
  have := addr.bus.isLt
  have := addr.dev.isLt
  have := addr.func.isLt
  unfold number
  omega

/-- The order of (domain, bus, dev, func). -/
def Before (a b : Dbdf) : Prop :=
  a.domain < b.domain ∨ a.domain = b.domain ∧ (a.bus < b.bus ∨ a.bus = b.bus ∧
    (a.dev < b.dev ∨ a.dev = b.dev ∧ a.func < b.func))

theorem before_iff (a b : Dbdf) : Before a b ↔ number a < number b := by
  have := a.bus.isLt
  have := b.bus.isLt
  have := a.dev.isLt
  have := b.dev.isLt
  have := a.func.isLt
  have := b.func.isLt
  unfold Before number
  simp only [BitVec.lt_def, ← BitVec.toNat_inj]
  omega

theorem number_inj {a b : Dbdf} (h : number a = number b) : a = b := by
  obtain ⟨domain, bus, dev, func⟩ := a
  obtain ⟨domain', bus', dev', func'⟩ := b
  have := bus.isLt
  have := bus'.isLt
  have := dev.isLt
  have := dev'.isLt
  have := func.isLt
  have := func'.isLt
  unfold number at h
  simp only [Dbdf.mk.injEq, ← BitVec.toNat_inj]
  dsimp only at h
  omega

theorem initialized_iff (spec : SlotSpec) :
    fpga_slot_spec_is_initialized spec = true ↔ number (spec FPGA_MGMT_PF).addr ≠ 0 := by
  have hzero : ∀ {w : Nat} (x : BitVec w), x = 0 ↔ x.toNat = 0 := by
    intro w x
    rw [← BitVec.toNat_inj]
    simp
  unfold fpga_slot_spec_is_initialized number
  simp only [Bool.not_eq_true', Bool.and_eq_false_iff, decide_eq_false_iff_not, hzero]
  omega

/-- What the entries are sorted by. -/
def sortKey (spec : SlotSpec) : Nat :=
  if fpga_slot_spec_is_initialized spec then number (spec FPGA_MGMT_PF).addr else 2 ^ 40

theorem compare_addr_le_iff (a b : Dbdf) : compare_addr a b ≤ 0 ↔ number a ≤ number b := by
  have := a.bus.isLt
  have := b.bus.isLt
  have := a.dev.isLt
  have := b.dev.isLt
  have := a.func.isLt
  have := b.func.isLt
  unfold compare_addr number
  omega

theorem compare_le_iff (a b : SlotSpec) :
    fpga_pci_slot_spec_compare a b ≤ 0 ↔ sortKey a ≤ sortKey b := by
  have ha := number_lt (a FPGA_MGMT_PF).addr
  have hb := number_lt (b FPGA_MGMT_PF).addr
  unfold fpga_pci_slot_spec_compare sortKey
  cases hinit : fpga_slot_spec_is_initialized a <;>
    cases hinit' : fpga_slot_spec_is_initialized b
  · -- Both addresses are zero.
    have hzero := (initialized_iff a).not.mp (by rw [hinit]; decide)
    have hzero' := (initialized_iff b).not.mp (by rw [hinit']; decide)
    simp only [ne_eq, not_true_eq_false, if_false, Bool.false_eq_true, le_refl, iff_true,
      compare_addr_le_iff]
    omega
  · simp
    omega
  · simp
    omega
  · simp [compare_addr_le_iff]

/-! ## What the scan finds -/

/-- What the loop makes of an entry: nothing, or the map of a management function. -/
def mbox_map (entry : DevDir) : Option (Except Int ResourceMap) :=
  match fpga_pci_get_resource_map_ids entry with
  | .error _ => none
  | .ok map =>
    if map.ids.vendor_id = FPGA_MBOX_VENDOR_ID ∧ (IS_F1 map || IS_F2 map) then
      some (fpga_pci_get_resources entry map)
    else
      none

/-- The management functions of a directory. -/
def mboxes (entries : List DevDir) : List (Except Int ResourceMap) := entries.filterMap mbox_map

/-- Those whose resources can be read. -/
def managements (entries : List DevDir) : List ResourceMap :=
  (mboxes entries).filterMap Except.toOption

/-- All of the maps, or the first failure. -/
def collect : List (Except Int ResourceMap) → Except Int (List ResourceMap)
  | [] => .ok []
  | .error ret :: _ => .error ret
  | .ok map :: rest => (collect rest).map (map :: ·)

theorem mbox_loop_cons (entry : DevDir) (rest : List DevDir) (found : List ResourceMap) :
    mbox_loop (entry :: rest) found = match mbox_map entry with
      | none => mbox_loop rest found
      | some (.error ret) => .error ret
      | some (.ok map) =>
        if FPGA_SLOT_MAX ≤ found.length + 1 then .ok (found ++ [map])
        else mbox_loop rest (found ++ [map]) := by
  rw [mbox_loop, mbox_map]
  cases fpga_pci_get_resource_map_ids entry with
  | error ret => rfl
  | ok map =>
    dsimp only
    split
    · cases fpga_pci_get_resources entry map with
      | error ret => rfl
      | ok map => simp
    · rfl

theorem mboxes_cons (entry : DevDir) (rest : List DevDir) :
    mboxes (entry :: rest) = (mbox_map entry).toList ++ mboxes rest := by
  unfold mboxes
  rw [List.filterMap_cons]
  cases mbox_map entry with
  | none => rfl
  | some r => rfl

theorem get_resources_error {entry : DevDir} {map : ResourceMap} {ret : Int}
    (h : fpga_pci_get_resources entry map = .error ret) : ret = FPGA_ERR_PCI_MISSING := by
  unfold fpga_pci_get_resources at h
  dsimp only at h
  split at h
  · cases h
  · cases h
    rfl

theorem mbox_map_error {entry : DevDir} {ret : Int} (h : mbox_map entry = some (.error ret)) :
    ret = FPGA_ERR_PCI_MISSING := by
  unfold mbox_map at h
  split at h
  · cases h
  · split at h
    · exact get_resources_error (Option.some.inj h)
    · cases h

theorem mbox_loop_spec {entries : List DevDir} {found : List ResourceMap}
    (hroom : found.length + (mboxes entries).length ≤ FPGA_SLOT_MAX) :
    mbox_loop entries found = (collect (mboxes entries)).map (found ++ ·) := by
  induction entries generalizing found with
  | nil => simp [mbox_loop, mboxes, collect, Except.map]
  | cons entry rest ih =>
    rw [mboxes_cons, List.length_append] at hroom
    rw [mbox_loop_cons, mboxes_cons]
    cases hentry : mbox_map entry with
    | none =>
      rw [hentry] at hroom
      exact ih (by simpa using hroom)
    | some r =>
      rw [hentry] at hroom
      change found.length + (1 + (mboxes rest).length) ≤ FPGA_SLOT_MAX at hroom
      cases r with
      | error ret => rfl
      | ok map =>
        have hmap : (collect (mboxes rest)).map ((found ++ [map]) ++ ·) =
            ((collect (mboxes rest)).map (map :: ·)).map (found ++ ·) := by
          cases collect (mboxes rest) with
          | error ret => rfl
          | ok maps => simp [Except.map]
        change (if FPGA_SLOT_MAX ≤ found.length + 1 then .ok (found ++ [map])
          else mbox_loop rest (found ++ [map])) =
            ((collect (mboxes rest)).map (map :: ·)).map (found ++ ·)
        rw [← hmap]
        split
        · -- The array is full, and no management function is left.
          have hnone : mboxes rest = [] := List.length_eq_zero_iff.mp (by omega)
          rw [hnone]
          simp [collect, Except.map]
        · refine ih ?_
          rw [List.length_append, List.length_singleton]
          omega

theorem mboxes_error {entries : List DevDir} {ret : Int} (h : .error ret ∈ mboxes entries) :
    ret = FPGA_ERR_PCI_MISSING := by
  obtain ⟨entry, -, hentry⟩ := List.mem_filterMap.mp h
  exact mbox_map_error hentry

theorem collect_error {l : List (Except Int ResourceMap)}
    (hcode : ∀ ret, .error ret ∈ l → ret = FPGA_ERR_PCI_MISSING) (h : ∃ ret, .error ret ∈ l) :
    collect l = .error FPGA_ERR_PCI_MISSING := by
  induction l with
  | nil =>
    obtain ⟨ret, hret⟩ := h
    cases hret
  | cons r rest ih =>
    cases r with
    | error ret =>
      rw [collect, hcode ret List.mem_cons_self]
    | ok map =>
      obtain ⟨ret, hret⟩ := h
      have hrest : .error ret ∈ rest := by simpa using hret
      rw [collect, ih (fun ret hret => hcode ret (List.mem_cons_of_mem _ hret)) ⟨ret, hrest⟩]
      rfl

theorem collect_ok {l : List (Except Int ResourceMap)} (h : ∀ ret, .error ret ∉ l) :
    collect l = .ok (l.filterMap Except.toOption) := by
  induction l with
  | nil => rfl
  | cons r rest ih =>
    cases r with
    | error ret => exact absurd List.mem_cons_self (h ret)
    | ok map =>
      rw [collect, ih fun ret hret => h ret (List.mem_cons_of_mem _ hret)]
      rfl

/-- The same directory in another order: the same failure, or the same maps in another order. -/
theorem collect_perm {entries entries' : List DevDir} (h : entries.Perm entries') :
    collect (mboxes entries) = .error FPGA_ERR_PCI_MISSING ∧
        collect (mboxes entries') = .error FPGA_ERR_PCI_MISSING ∨
      collect (mboxes entries) = .ok (managements entries) ∧
        collect (mboxes entries') = .ok (managements entries') := by
  have hperm : (mboxes entries).Perm (mboxes entries') := h.filterMap mbox_map
  by_cases herr : ∃ ret, .error ret ∈ mboxes entries
  · left
    obtain ⟨ret, hret⟩ := herr
    exact ⟨collect_error (fun _ => mboxes_error) ⟨ret, hret⟩,
      collect_error (fun _ => mboxes_error) ⟨ret, hperm.subset hret⟩⟩
  · right
    have hnone : ∀ ret, .error ret ∉ mboxes entries := fun ret hret => herr ⟨ret, hret⟩
    exact ⟨collect_ok hnone, collect_ok fun ret hret => hnone ret (hperm.symm.subset hret)⟩

theorem managements_perm {entries entries' : List DevDir} (h : entries.Perm entries') :
    (managements entries).Perm (managements entries') :=
  (h.filterMap mbox_map).filterMap Except.toOption

/-! ## Addresses -/

theorem read_resource_addr (entry : DevDir) (r : ResourceMap × Bool)
    (num : Fin FPGA_BAR_PER_PF_MAX) : (read_resource entry r num).1.addr = r.1.addr := by
  unfold read_resource
  split <;> rfl

theorem get_resources_addr {entry : DevDir} {map map' : ResourceMap}
    (h : fpga_pci_get_resources entry map = .ok map') : map'.addr = map.addr := by
  have hfold : ∀ (nums : List (Fin FPGA_BAR_PER_PF_MAX)) (r : ResourceMap × Bool),
      (nums.foldl (read_resource entry) r).1.addr = r.1.addr := by
    intro nums
    induction nums with
    | nil => intro r; rfl
    | cons num nums ih =>
      intro r
      rw [List.foldl_cons, ih, read_resource_addr]
  unfold fpga_pci_get_resources at h
  dsimp only at h
  split at h
  · cases h
    exact hfold resource_nums (map, false)
  · cases h

theorem except_bind_ok {ε α β : Type} {x : Except ε α} {f : α → Except ε β} {b : β}
    (h : (x >>= f) = .ok b) : ∃ a, x = .ok a ∧ f a = .ok b := by
  cases x with
  | error e => exact nomatch h
  | ok a => exact ⟨a, rfl, h⟩

theorem get_resource_map_ids_addr {entry : DevDir} {map : ResourceMap}
    (h : fpga_pci_get_resource_map_ids entry = .ok map) :
    fpga_pci_get_dbdf entry.name = .ok map.addr := by
  unfold fpga_pci_get_resource_map_ids at h
  obtain ⟨vendor_id, -, h⟩ := except_bind_ok h
  obtain ⟨device_id, -, h⟩ := except_bind_ok h
  obtain ⟨subsystem_vendor_id, -, h⟩ := except_bind_ok h
  obtain ⟨subsystem_device_id, -, h⟩ := except_bind_ok h
  obtain ⟨addr, haddr, h⟩ := except_bind_ok h
  obtain rfl := Except.ok.inj h
  exact haddr

theorem mbox_map_addr {entry : DevDir} {map : ResourceMap}
    (h : mbox_map entry = some (.ok map)) : fpga_pci_get_dbdf entry.name = .ok map.addr := by
  unfold mbox_map at h
  cases hids : fpga_pci_get_resource_map_ids entry with
  | error ret =>
    rw [hids] at h
    cases h
  | ok ids =>
    rw [hids] at h
    dsimp only at h
    split at h
    · rw [get_resources_addr (Option.some.inj h)]
      exact get_resource_map_ids_addr hids
    · cases h

theorem get_dbdf_inj {name name' : DirName} {addr : Dbdf} (h : fpga_pci_get_dbdf name = .ok addr)
    (h' : fpga_pci_get_dbdf name' = .ok addr) : name = name' := by
  unfold fpga_pci_get_dbdf at h h'
  split at h
  case isFalse => cases h
  case isTrue hlt =>
    split at h'
    case isFalse => cases h'
    case isTrue hlt' =>
      obtain rfl := Except.ok.inj h
      have heq := Except.ok.inj h'
      obtain ⟨domain, bus, dev, func⟩ := name
      obtain ⟨domain', bus', dev', func'⟩ := name'
      simp only [Dbdf.mk.injEq, ← BitVec.toNat_inj, BitVec.toNat_setWidth] at heq
      simp only [DirName.mk.injEq, ← BitVec.toNat_inj]
      dsimp only at hlt hlt' heq
      omega

theorem toOption_eq_some {r : Except Int ResourceMap} {map : ResourceMap}
    (h : r.toOption = some map) : r = .ok map := by
  cases r with
  | error ret => cases h
  | ok map' =>
    cases h
    rfl

theorem managements_distinct (dir : SysfsDir) :
    (managements dir.entries).Pairwise fun a b => a.addr ≠ b.addr := by
  have hnames : dir.entries.Pairwise fun a b => a.name ≠ b.name := List.pairwise_map.mp dir.names
  unfold managements mboxes
  rw [List.filterMap_filterMap, List.pairwise_filterMap]
  refine hnames.imp ?_
  intro entry entry' hne map hmap map' hmap' haddr
  obtain ⟨r, hr, hok⟩ := Option.bind_eq_some_iff.mp hmap
  obtain ⟨r', hr', hok'⟩ := Option.bind_eq_some_iff.mp hmap'
  rw [toOption_eq_some hok] at hr
  rw [toOption_eq_some hok'] at hr'
  have hdbdf := mbox_map_addr hr'
  rw [← haddr] at hdbdf
  exact hne (get_dbdf_inj (mbox_map_addr hr) hdbdf)

/-! ## The array -/

theorem mgmtSpec_mgmt (map : ResourceMap) : mgmtSpec map FPGA_MGMT_PF = map :=
  Function.update_self _ _ _

theorem sortKey_empty : sortKey emptySpec = 2 ^ 40 := if_neg (by decide)

/-- The array as the sort leaves it, for the maps that the scan found. -/
def sorted_array (q : Qsort) (maps : List ResourceMap) : List SlotSpec :=
  q.sort (maps.map mgmtSpec ++ List.replicate (FPGA_SLOT_MAX - maps.length) emptySpec)

section Array

variable {maps maps' : List ResourceMap}

/-- Maps of different functions, none of them at 0000:00:00.0. -/
structure Distinct (maps : List ResourceMap) : Prop where
  pairwise : maps.Pairwise fun a b => a.addr ≠ b.addr
  nonzero : ∀ map ∈ maps, number map.addr ≠ 0

theorem Distinct.perm (h : Distinct maps) (hperm : maps.Perm maps') : Distinct maps' :=
  ⟨hperm.pairwise h.pairwise fun hne => hne.symm,
    fun map hmap => h.nonzero map (hperm.symm.subset hmap)⟩

theorem Distinct.eq_of_addr (h : Distinct maps) {a b : ResourceMap} (ha : a ∈ maps) (hb : b ∈ maps)
    (haddr : a.addr = b.addr) : a = b :=
  List.inj_on_of_nodup_map (List.pairwise_map.mpr h.pairwise) ha hb haddr

theorem sortKey_mgmt {map : ResourceMap} (h : number map.addr ≠ 0) :
    sortKey (mgmtSpec map) = number map.addr := by
  have hinit : fpga_slot_spec_is_initialized (mgmtSpec map) = true := by
    rw [initialized_iff, mgmtSpec_mgmt]
    exact h
  rw [sortKey, if_pos hinit, mgmtSpec_mgmt]

theorem sorted_keys (q : Qsort) (l : List SlotSpec) :
    (q.sort l).Pairwise fun a b => sortKey a ≤ sortKey b :=
  (q.sorted l).imp fun h => (compare_le_iff _ _).mp h

/-- The functions come first, in an order that does not depend on how they were found, nor on the
sort, and then the empty entries. -/
theorem sorted_array_eq (h : Distinct maps) (hperm : maps.Perm maps') (q q' : Qsort) :
    sorted_array q maps = q'.sort (maps'.map mgmtSpec) ++
      List.replicate (FPGA_SLOT_MAX - maps'.length) emptySpec := by
  have hmgmt : ∀ spec ∈ q'.sort (maps'.map mgmtSpec), ∃ map ∈ maps, mgmtSpec map = spec := by
    intro spec hspec
    obtain ⟨map, hmap, heq⟩ := List.mem_map.mp ((q'.perm _).subset hspec)
    exact ⟨map, hperm.symm.subset hmap, heq⟩
  have hcases : ∀ spec ∈ maps.map mgmtSpec ++
      List.replicate (FPGA_SLOT_MAX - maps.length) emptySpec,
      (∃ map ∈ maps, mgmtSpec map = spec) ∨ spec = emptySpec := by
    intro spec hspec
    rcases List.mem_append.mp hspec with hspec | hspec
    · exact .inl (List.mem_map.mp hspec)
    · exact .inr (List.eq_of_mem_replicate hspec)
  have hperm' : (q'.sort (maps'.map mgmtSpec) ++
      List.replicate (FPGA_SLOT_MAX - maps'.length) emptySpec).Perm (maps.map mgmtSpec ++
        List.replicate (FPGA_SLOT_MAX - maps.length) emptySpec) := by
    rw [hperm.length_eq]
    exact ((q'.perm _).trans (hperm.symm.map mgmtSpec)).append_right _
  refine List.Perm.eq_of_pairwise ?_ (sorted_keys q _) ?_ ((q.perm _).trans hperm'.symm)
  · intro a b ha hb hab hba
    have hkey : sortKey a = sortKey b := Nat.le_antisymm hab hba
    rcases hcases a ((q.perm _).subset ha) with ⟨map, hmap, rfl⟩ | rfl <;>
      rcases hcases b (hperm'.subset hb) with ⟨map', hmap', rfl⟩ | rfl
    · rw [sortKey_mgmt (h.nonzero _ hmap), sortKey_mgmt (h.nonzero _ hmap')] at hkey
      rw [h.eq_of_addr hmap hmap' (number_inj hkey)]
    · rw [sortKey_mgmt (h.nonzero _ hmap), sortKey_empty] at hkey
      exact absurd hkey (number_lt _).ne
    · rw [sortKey_mgmt (h.nonzero _ hmap'), sortKey_empty] at hkey
      exact absurd hkey (number_lt _).ne'
    · rfl
  · refine List.pairwise_append.mpr ⟨sorted_keys q' _, ?_, ?_⟩
    · exact List.pairwise_replicate.mpr (.inr (le_refl _))
    · intro a ha b hb
      obtain ⟨map, hmap, rfl⟩ := hmgmt a ha
      rw [List.eq_of_mem_replicate hb, sortKey_mgmt (h.nonzero _ hmap), sortKey_empty]
      exact (number_lt _).le

theorem sorted_before (h : Distinct maps) (q : Qsort) :
    (q.sort (maps.map mgmtSpec)).Pairwise fun a b =>
      Before (a FPGA_MGMT_PF).addr (b FPGA_MGMT_PF).addr := by
  have hdistinct : (q.sort (maps.map mgmtSpec)).Pairwise fun a b =>
      (a FPGA_MGMT_PF).addr ≠ (b FPGA_MGMT_PF).addr := by
    refine (q.perm _).symm.pairwise ?_ fun hne => hne.symm
    rw [List.pairwise_map]
    simpa only [mgmtSpec_mgmt] using h.pairwise
  refine ((sorted_keys q _).and hdistinct).imp_of_mem ?_
  rintro a b ha hb ⟨hle, hne⟩
  obtain ⟨map, hmap, rfl⟩ := List.mem_map.mp ((q.perm _).subset ha)
  obtain ⟨map', hmap', rfl⟩ := List.mem_map.mp ((q.perm _).subset hb)
  rw [sortKey_mgmt (h.nonzero _ hmap), sortKey_mgmt (h.nonzero _ hmap')] at hle
  rw [mgmtSpec_mgmt, mgmtSpec_mgmt] at hne ⊢
  rw [before_iff]
  exact lt_of_le_of_ne hle fun heq => hne (number_inj heq)

end Array

/-! ## The same directory in two orders -/

section Orders

variable {q q' : Qsort} {dir dir' : SysfsDir} {out arr : List SlotSpec} {size : Nat}
  {spec spec' : SlotSpec}

theorem mbox_scan_eq (hmax : (mboxes dir.entries).length ≤ FPGA_SLOT_MAX) :
    fpga_pci_mbox_scan q dir out size = (collect (mboxes dir.entries)).bind fun found =>
      if found.isEmpty then .error FPGA_ERR_PCI_MISSING
      else .ok ((sorted_array q found).take size ++ out.drop (min size FPGA_SLOT_MAX)) := by
  have hloop : mbox_loop dir.entries [] = collect (mboxes dir.entries) := by
    rw [mbox_loop_spec (by simpa using hmax)]
    cases collect (mboxes dir.entries) <;> rfl
  unfold fpga_pci_mbox_scan
  rw [hloop]
  rfl

theorem mbox_scan_perm (hsame : dir.entries.Perm dir'.entries)
    (hmax : (mboxes dir.entries).length ≤ FPGA_SLOT_MAX)
    (hdist : Distinct (managements dir.entries)) :
    fpga_pci_mbox_scan q dir out size = fpga_pci_mbox_scan q' dir' out size := by
  have hperm := managements_perm hsame
  have hlen : (mboxes dir.entries).length = (mboxes dir'.entries).length :=
    (hsame.filterMap mbox_map).length_eq
  rw [mbox_scan_eq hmax, mbox_scan_eq (hlen ▸ hmax)]
  rcases collect_perm hsame with ⟨h, h'⟩ | ⟨h, h'⟩
  · rw [h, h']
    rfl
  · rw [h, h']
    have hempty : (managements dir.entries).isEmpty = (managements dir'.entries).isEmpty := by
      rw [Bool.eq_iff_iff, List.isEmpty_iff_length_eq_zero, List.isEmpty_iff_length_eq_zero,
        hperm.length_eq]
    have harray : sorted_array q (managements dir.entries) =
        sorted_array q' (managements dir'.entries) := by
      rw [sorted_array_eq hdist hperm q q', sorted_array_eq (hdist.perm hperm) (.refl _) q' q']
    simp only [Except.bind, hempty, harray]

theorem lookup_eq_some_iff {name : DirName} {entry : DevDir} :
    dir.lookup name = some entry ↔ entry ∈ dir.entries ∧ entry.name = name := by
  unfold SysfsDir.lookup
  constructor
  · intro h
    exact ⟨List.mem_of_find?_eq_some h, by simpa using List.find?_some h⟩
  · rintro ⟨hmem, rfl⟩
    cases hfind : dir.entries.find? fun e => e.name = entry.name with
    | none =>
      have hnone := List.find?_eq_none.mp hfind entry hmem
      simp at hnone
    | some found =>
      have hname : found.name = entry.name := by simpa using List.find?_some hfind
      rw [List.inj_on_of_nodup_map dir.names (List.mem_of_find?_eq_some hfind) hmem hname]

theorem lookup_perm (hsame : dir.entries.Perm dir'.entries) : dir.lookup = dir'.lookup := by
  funext name
  apply Option.ext
  intro entry
  rw [lookup_eq_some_iff, lookup_eq_some_iff, hsame.mem_iff]

theorem complete_perm (hsame : dir.entries.Perm dir'.entries) :
    fpga_pci_complete_slot_spec dir spec = fpga_pci_complete_slot_spec dir' spec := by
  unfold fpga_pci_complete_slot_spec fpga_pci_mbox2app
  rw [lookup_perm hsame]

theorem complete_mgmt (h : fpga_pci_complete_slot_spec dir spec = .ok spec') :
    spec' FPGA_MGMT_PF = spec FPGA_MGMT_PF := by
  unfold fpga_pci_complete_slot_spec at h
  obtain ⟨⟨entry, app_map⟩, -, h⟩ := except_bind_ok h
  obtain ⟨app_map', -, h⟩ := except_bind_ok h
  obtain rfl := Except.ok.inj h
  exact Function.update_of_ne (by decide) _ _

theorem initialized_congr (h : spec' FPGA_MGMT_PF = spec FPGA_MGMT_PF) :
    fpga_slot_spec_is_initialized spec' = fpga_slot_spec_is_initialized spec := by
  unfold fpga_slot_spec_is_initialized
  rw [h]

/-- An entry is completed if all before it are in use, and an unused one is left alone. -/
theorem complete_loop_spec {l : List SlotSpec} (h : complete_loop dir l = .ok arr) {i : Nat}
    (hi : i < l.length) :
    (fpga_slot_spec_is_initialized (l.getD i emptySpec) = true →
      (∀ j < i, fpga_slot_spec_is_initialized (l.getD j emptySpec) = true) →
        fpga_pci_complete_slot_spec dir (l.getD i emptySpec) = .ok (arr.getD i emptySpec)) ∧
    (fpga_slot_spec_is_initialized (l.getD i emptySpec) = false →
      arr.getD i emptySpec = l.getD i emptySpec) := by
  induction l generalizing arr i with
  | nil => cases hi
  | cons spec rest ih =>
    rw [complete_loop] at h
    cases hinit : fpga_slot_spec_is_initialized spec with
    | false =>
      rw [hinit] at h
      obtain rfl := Except.ok.inj h
      refine ⟨fun hused hall => ?_, fun _ => rfl⟩
      cases i with
      | zero =>
        rw [List.getD_cons_zero, hinit] at hused
        cases hused
      | succ i =>
        have hfirst := hall 0 (Nat.succ_pos i)
        rw [List.getD_cons_zero, hinit] at hfirst
        cases hfirst
    | true =>
      rw [hinit] at h
      obtain ⟨spec', hspec, h⟩ := except_bind_ok h
      obtain ⟨rest', hrest, h⟩ := except_bind_ok h
      obtain rfl := Except.ok.inj h
      cases i with
      | zero =>
        refine ⟨fun _ _ => hspec, fun hunused => ?_⟩
        rw [List.getD_cons_zero, hinit] at hunused
        cases hunused
      | succ i =>
        obtain ⟨hused, hunused⟩ := ih hrest (Nat.lt_of_succ_lt_succ hi)
        refine ⟨fun h₁ hall => hused h₁ fun j hj => ?_, hunused⟩
        exact hall (j + 1) (Nat.succ_lt_succ hj)

/-- The slots of a directory: the management functions in the order of their addresses, and then
the empty entries. -/
structure InSlotOrder (dir : SysfsDir) (arr slots : List SlotSpec) : Prop where
  array : arr = slots ++ List.replicate (FPGA_SLOT_MAX - slots.length) emptySpec
  perm : slots.Perm ((managements dir.entries).map mgmtSpec)
  before : slots.Pairwise fun a b => Before (a FPGA_MGMT_PF).addr (b FPGA_MGMT_PF).addr

theorem managements_length_le : (managements dir.entries).length ≤ (mboxes dir.entries).length :=
  List.length_filterMap_le _ _

theorem mbox_scan_ok (hmax : (mboxes dir.entries).length ≤ FPGA_SLOT_MAX)
    (hdist : Distinct (managements dir.entries))
    (h : fpga_pci_mbox_scan q dir out size = .ok arr) :
    ∃ array slots, InSlotOrder dir array slots ∧ slots.length ≤ FPGA_SLOT_MAX ∧
      ∀ out size, fpga_pci_mbox_scan q dir out size =
        .ok (array.take size ++ out.drop (min size FPGA_SLOT_MAX)) := by
  rw [mbox_scan_eq hmax] at h
  rcases collect_perm (List.Perm.refl dir.entries) with ⟨hfail, -⟩ | ⟨hok, -⟩
  · rw [hfail] at h
    cases h
  · rw [hok] at h
    change (if (managements dir.entries).isEmpty then Except.error FPGA_ERR_PCI_MISSING
      else _) = _ at h
    split at h
    · cases h
    case isFalse hsome =>
      have hsorted := (q.perm ((managements dir.entries).map mgmtSpec)).length_eq
      rw [List.length_map] at hsorted
      refine ⟨sorted_array q (managements dir.entries),
        q.sort ((managements dir.entries).map mgmtSpec), ⟨?_, q.perm _, sorted_before hdist q⟩,
        ?_, fun out size => ?_⟩
      · rw [sorted_array_eq hdist (.refl _) q q, hsorted]
      · rw [hsorted]
        exact managements_length_le.trans hmax
      · rw [mbox_scan_eq hmax, hok]
        exact if_neg hsome

theorem InSlotOrder.initialized_iff {slots : List SlotSpec} (h : InSlotOrder dir arr slots)
    (hdist : Distinct (managements dir.entries)) (i : Nat) :
    fpga_slot_spec_is_initialized (arr.getD i emptySpec) = true ↔ i < slots.length := by
  rw [h.array, List.getD_eq_getElem?_getD, List.getElem?_append]
  split
  case isTrue hlt =>
    refine iff_of_true ?_ hlt
    rw [List.getElem?_eq_getElem hlt, Option.getD_some, Sysfs.initialized_iff]
    obtain ⟨map, hmap, heq⟩ := List.mem_map.mp (h.perm.subset (List.getElem_mem hlt))
    rw [← heq, mgmtSpec_mgmt]
    exact hdist.nonzero map hmap
  case isFalse hge =>
    refine iff_of_false ?_ hge
    rw [List.getElem?_replicate]
    split <;> decide

theorem getD_scan {array : List SlotSpec} {i : Nat} (hlen : array.length = FPGA_SLOT_MAX)
    (hi : i < FPGA_SLOT_MAX) (hsize : i < size) :
    (array.take size ++ out.drop (min size FPGA_SLOT_MAX)).getD i emptySpec =
      array.getD i emptySpec := by
  have hlt : i < (array.take size).length := by
    rw [List.length_take]
    omega
  rw [List.getD_eq_getElem?_getD, List.getD_eq_getElem?_getD, List.getElem?_append_left hlt,
    List.getElem?_take_of_lt hsize]

theorem get_slot_spec_eq {array : List SlotSpec} (hlen : array.length = FPGA_SLOT_MAX)
    (hscan : ∀ out size, fpga_pci_mbox_scan q dir out size =
      .ok (array.take size ++ out.drop (min size FPGA_SLOT_MAX)))
    (hsame : dir.entries.Perm dir'.entries) (hmax : (mboxes dir.entries).length ≤ FPGA_SLOT_MAX)
    (hdist : Distinct (managements dir.entries)) {i : Nat} (hi : i < FPGA_SLOT_MAX) :
    fpga_pci_get_slot_spec q' dir' i =
      (fpga_pci_complete_slot_spec dir (array.getD i emptySpec)).bind fun spec =>
        if !fpga_slot_spec_is_initialized spec then .error (-ENOENT) else .ok spec := by
  unfold fpga_pci_get_slot_spec
  have hrange : ¬ ((i : Int) < 0 ∨ (i : Int) ≥ FPGA_SLOT_MAX) := by
    unfold FPGA_SLOT_MAX at hi ⊢
    omega
  have hscan' : ∀ out size, fpga_pci_mbox_scan q' dir' out size =
      .ok (array.take size ++ out.drop (min size FPGA_SLOT_MAX)) :=
    fun out size => (mbox_scan_perm hsame hmax hdist).symm.trans (hscan out size)
  dsimp only
  rw [if_neg hrange, hscan', Int.toNat_natCast]
  change (fpga_pci_complete_slot_spec dir' _).bind _ = _
  rw [getD_scan hlen hi (by omega), ← complete_perm hsame]
  rfl

theorem get_slot_spec_agrees (hsame : dir.entries.Perm dir'.entries)
    (hmax : (mboxes dir.entries).length ≤ FPGA_SLOT_MAX)
    (hdist : Distinct (managements dir.entries))
    (h : fpga_pci_get_all_slot_specs q dir out = .ok arr) {i : Nat} (hi : i < FPGA_SLOT_MAX)
    (hout : i < out.length) :
    if fpga_slot_spec_is_initialized (arr.getD i emptySpec) then
      fpga_pci_get_slot_spec q' dir' i = .ok (arr.getD i emptySpec)
    else
      ∃ code, fpga_pci_get_slot_spec q' dir' i = .error code := by
  unfold fpga_pci_get_all_slot_specs at h
  obtain ⟨first, hfirst, h⟩ := except_bind_ok h
  obtain ⟨array, slots, horder, hslots, hscan⟩ := mbox_scan_ok hmax hdist hfirst
  have hlen : array.length = FPGA_SLOT_MAX := by
    rw [horder.array, List.length_append, List.length_replicate]
    omega
  rw [hscan] at hfirst
  obtain rfl := Except.ok.inj hfirst
  have hbefore : ∀ j ≤ i, (array.take out.length ++ out.drop (min out.length FPGA_SLOT_MAX)).getD
      j emptySpec = array.getD j emptySpec :=
    fun j hj => getD_scan hlen (by omega) (by omega)
  have hi' : i < (array.take out.length ++ out.drop (min out.length FPGA_SLOT_MAX)).length := by
    rw [List.length_append, List.length_take]
    omega
  obtain ⟨hused, hunused⟩ := complete_loop_spec h hi'
  rw [hbefore i (le_refl i)] at hused hunused
  rw [get_slot_spec_eq hlen hscan hsame hmax hdist hi]
  cases hinit : fpga_slot_spec_is_initialized (array.getD i emptySpec) with
  | true =>
    have hcomplete := hused hinit fun j hj => by
      rw [hbefore j hj.le, horder.initialized_iff hdist]
      exact hj.trans ((horder.initialized_iff hdist i).mp hinit)
    have harr : fpga_slot_spec_is_initialized (arr.getD i emptySpec) = true := by
      rw [initialized_congr (complete_mgmt hcomplete), hinit]
    rw [if_pos harr, hcomplete]
    change (if !fpga_slot_spec_is_initialized (arr.getD i emptySpec) then _ else _) = _
    rw [harr]
    rfl
  | false =>
    rw [if_neg (by rw [hunused hinit, hinit]; decide)]
    cases hcomplete : fpga_pci_complete_slot_spec dir (array.getD i emptySpec) with
    | error code => exact ⟨code, rfl⟩
    | ok spec =>
      refine ⟨-ENOENT, ?_⟩
      change (if !fpga_slot_spec_is_initialized spec then _ else _) = _
      rw [initialized_congr (complete_mgmt hcomplete), hinit]
      rfl

end Orders

/-- With at most `FPGA_SLOT_MAX` management functions, none of them at 0000:00:00.0, the slots do
not depend on the order of the directory, and neither on the sort. -/
theorem slots_order_free (dir dir' : SysfsDir) (hsame : dir.entries.Perm dir'.entries)
    (hmax : (mboxes dir.entries).length ≤ FPGA_SLOT_MAX)
    (hzero : ∀ map ∈ managements dir.entries, map.addr ≠ ⟨0, 0, 0, 0⟩) (q q' : Qsort) :
    (∀ out size, fpga_pci_mbox_scan q dir out size = fpga_pci_mbox_scan q' dir' out size) ∧
    (∀ arr, fpga_pci_mbox_scan q dir (List.replicate FPGA_SLOT_MAX emptySpec) FPGA_SLOT_MAX =
      .ok arr → ∃ slots, InSlotOrder dir arr slots) ∧
    (∀ out arr, fpga_pci_get_all_slot_specs q dir out = .ok arr →
      ∀ i < FPGA_SLOT_MAX, i < out.length →
        if fpga_slot_spec_is_initialized (arr.getD i emptySpec) then
          fpga_pci_get_slot_spec q' dir' i = .ok (arr.getD i emptySpec)
        else ∃ code, fpga_pci_get_slot_spec q' dir' i = .error code) := by
  have hdist : Distinct (managements dir.entries) := by
    refine ⟨managements_distinct dir, fun map hmap h0 => ?_⟩
    exact hzero map hmap (number_inj (b := ⟨0, 0, 0, 0⟩) h0)
  refine ⟨fun out size => mbox_scan_perm hsame hmax hdist, ?_, ?_⟩
  · intro arr h
    obtain ⟨array, slots, horder, hslots, hscan⟩ := mbox_scan_ok hmax hdist h
    have hlen : array.length = FPGA_SLOT_MAX := by
      rw [horder.array, List.length_append, List.length_replicate]
      omega
    rw [hscan, ← hlen, List.take_length] at h
    obtain rfl := Except.ok.inj h
    refine ⟨slots, ?_⟩
    simpa [hlen] using horder
  · intro out arr h i hi hout
    exact get_slot_spec_agrees hsame hmax hdist h hi hout

/-! ## Directories of F2 cards -/

/-- A sort that meets the contract. -/
def insertionQsort : Qsort where
  sort := List.insertionSort fun a b => fpga_pci_slot_spec_compare a b ≤ 0
  perm := List.perm_insertionSort _
  sorted := by
    have htotal : Std.Total fun a b : SlotSpec => fpga_pci_slot_spec_compare a b ≤ 0 := by
      constructor
      intro a b
      rw [compare_le_iff, compare_le_iff]
      exact le_total _ _
    have htrans : IsTrans SlotSpec fun a b => fpga_pci_slot_spec_compare a b ≤ 0 := by
      constructor
      intro a b c hab hbc
      rw [compare_le_iff] at *
      exact hab.trans hbc
    exact List.pairwise_insertionSort _

/-- A function with one BAR. -/
def device (bus func : BitVec 8) (device_id : BitVec 32) : DevDir where
  name := ⟨0, bus, 0, func⟩
  id
    | .vendor => .scanned 0x1d0f
    | .device => .scanned device_id
    | _ => .scanned 0
  resource num wc := if num = 0 ∧ wc = false then some 0x4000 else none

/-- Two cards, each with its application function and its management function. -/
def two_cards : SysfsDir where
  entries := [device 1 0 0xf010, device 1 1 0x9248, device 2 0 0xf010, device 2 1 0x9248]
  names := by decide

def two_cards_back : SysfsDir where
  entries := two_cards.entries.reverse
  names := by decide

example : ((fpga_pci_get_slot_spec insertionQsort two_cards_back 1).map fun spec =>
    ((spec FPGA_MGMT_PF).addr.bus, (spec FPGA_APP_PF).ids.device_id)) = .ok (2, 0xf010) := rfl

theorem two_cards_order_free :
    (∀ out size, fpga_pci_mbox_scan insertionQsort two_cards out size =
      fpga_pci_mbox_scan insertionQsort two_cards_back out size) ∧
    (∀ arr, fpga_pci_mbox_scan insertionQsort two_cards (List.replicate FPGA_SLOT_MAX emptySpec)
      FPGA_SLOT_MAX = .ok arr → ∃ slots, InSlotOrder two_cards arr slots) ∧
    (∀ out arr, fpga_pci_get_all_slot_specs insertionQsort two_cards out = .ok arr →
      ∀ i < FPGA_SLOT_MAX, i < out.length →
        if fpga_slot_spec_is_initialized (arr.getD i emptySpec) then
          fpga_pci_get_slot_spec insertionQsort two_cards_back i = .ok (arr.getD i emptySpec)
        else ∃ code, fpga_pci_get_slot_spec insertionQsort two_cards_back i = .error code) := by
  refine slots_order_free two_cards two_cards_back (List.reverse_perm _).symm (by decide) ?_
    insertionQsort insertionQsort
  have hbus : ((managements two_cards.entries).all fun map => map.addr.bus ≠ 0) = true := by decide
  intro map hmap h0
  have hmap := List.all_eq_true.mp hbus map hmap
  rw [h0] at hmap
  simp at hmap

/-- Nine cards, one more than there are slots. -/
def nine_cards : SysfsDir where
  entries := (List.range 9).map fun k => device (BitVec.ofNat 8 (k + 1)) 1 0x9248
  names := by decide

def nine_cards_back : SysfsDir where
  entries := nine_cards.entries.reverse
  names := by decide

/-- Slot 0 is the card with the lowest address, or the one after it. -/
theorem slots_order_dependent :
    ¬ ∀ (dir dir' : SysfsDir), dir.entries.Perm dir'.entries → ∀ (q q' : Qsort) out size,
      fpga_pci_mbox_scan q dir out size = fpga_pci_mbox_scan q' dir' out size := by
  intro h
  have heq := h nine_cards nine_cards_back (List.reverse_perm _).symm insertionQsort
    insertionQsort [] FPGA_SLOT_MAX
  have hfirst := congrArg (Except.map fun arr => ((arr.getD 0 emptySpec) FPGA_MGMT_PF).addr.bus) heq
  have hforward : Except.map (fun arr => ((arr.getD 0 emptySpec) FPGA_MGMT_PF).addr.bus)
      (fpga_pci_mbox_scan insertionQsort nine_cards [] FPGA_SLOT_MAX) = .ok 1 := rfl
  have hback : Except.map (fun arr => ((arr.getD 0 emptySpec) FPGA_MGMT_PF).addr.bus)
      (fpga_pci_mbox_scan insertionQsort nine_cards_back [] FPGA_SLOT_MAX) = .ok 2 := rfl
  rw [hforward, hback] at hfirst
  exact absurd (Except.ok.inj hfirst) (by decide)

end AwsFpga.Sysfs
