import AwsFpga.Pci.Attach

/-!
# Accesses to an attached BAR (`fpga_pci.c`)

Every access asks `fpga_pci_bar_get_mem_at_offset` for a pointer to as many bytes
as it is about to touch, and gives up with `-EINVAL` when there is none. The
bound is checked in 64 bits, on a sum, and for the bursts on a product as well.
-/

open Lib AwsFpga.Pci

namespace AwsFpga.Bars

/-! ## The functions -/

def fpga_pci_poke8 (handle : Int) (offset : BitVec 64) (value : BitVec 8) : BarsM Int := do
  match fpga_pci_bar_get_mem_at_offset (← get) handle offset 1 with
  | none => return -EINVAL
  | some reg_ptr =>
    Os.store8 reg_ptr value
    return 0

def fpga_pci_poke64 (handle : Int) (offset value : BitVec 64) : BarsM Int := do
  match fpga_pci_bar_get_mem_at_offset (← get) handle offset 8 with
  | none => return -EINVAL
  | some reg_ptr =>
    Os.store64 reg_ptr value
    return 0

def fpga_pci_peek8 (handle : Int) (offset : BitVec 64) (value : BitVec 8) :
    BarsM (Int × BitVec 8) := do
  match fpga_pci_bar_get_mem_at_offset (← get) handle offset 1 with
  | none => return (-EINVAL, value)
  | some reg_ptr =>
    let value ← Os.load8 reg_ptr
    return (0, value)

def fpga_pci_peek64 (handle : Int) (offset value : BitVec 64) : BarsM (Int × BitVec 64) := do
  match fpga_pci_bar_get_mem_at_offset (← get) handle offset 8 with
  | none => return (-EINVAL, value)
  | some reg_ptr =>
    let value ← Os.load64 reg_ptr
    return (0, value)

/-- The loop of the bursts, with `left` dwords to go. -/
def store_dwords (reg_ptr : BitVec 64) (datap : Nat → BitVec 32) : (left i : Nat) → BarsM Unit
  | 0, _ => return ()
  | left + 1, i => do
    Os.store (reg_ptr + 4 * BitVec.ofNat 64 i) (datap i)
    store_dwords reg_ptr datap left (i + 1)

def fpga_pci_write_burst (handle : Int) (offset : BitVec 64) (datap : Nat → BitVec 32)
    (dword_len : BitVec 64) : BarsM Int := do
  match fpga_pci_bar_get_mem_at_offset (← get) handle offset (4 * dword_len) with
  | none => return -EINVAL
  | some reg_ptr =>
    store_dwords reg_ptr datap dword_len.toNat 0
    return 0

def fpga_pci_memset (handle : Int) (offset : BitVec 64) (value : BitVec 32)
    (dword_len : BitVec 64) : BarsM Int := do
  match fpga_pci_bar_get_mem_at_offset (← get) handle offset (4 * dword_len) with
  | none => return -EINVAL
  | some reg_ptr =>
    store_dwords reg_ptr (fun _ => value) dword_len.toNat 0
    return 0

/-- The answer is the code and `*ptr`. `len` counts bytes. -/
def fpga_pci_get_address (handle : Int) (offset len : BitVec 64) :
    BarsM (Int × Option (BitVec 64)) := do
  match fpga_pci_bar_get_mem_at_offset (← get) handle offset len with
  | none => return (-EINVAL, none)
  | some ptr => return (0, some ptr)

/-! ## The calls, and the bytes they are about -/

inductive Access where
  | poke (value : BitVec 32)
  | poke8 (value : BitVec 8)
  | poke64 (value : BitVec 64)
  | peek (value : BitVec 32)
  | peek8 (value : BitVec 8)
  | peek64 (value : BitVec 64)
  | write_burst (datap : Nat → BitVec 32) (dword_len : BitVec 64)
  | memset (value : BitVec 32) (dword_len : BitVec 64)
  | get_address (len : BitVec 64)

namespace Access

/-- How many bytes the call is asked for. -/
def size : Access → Nat
  | .poke8 _ | .peek8 _ => 1
  | .poke _ | .peek _ => 4
  | .poke64 _ | .peek64 _ => 8
  | .write_burst _ dword_len | .memset _ dword_len => 4 * dword_len.toNat
  | .get_address len => len.toNat

/-- The call: its code, and the pointer it hands out. -/
def call (handle : Int) (offset : BitVec 64) : Access → BarsM (Int × Option (BitVec 64))
  | .poke value => do return (← fpga_pci_poke handle offset value, none)
  | .poke8 value => do return (← fpga_pci_poke8 handle offset value, none)
  | .poke64 value => do return (← fpga_pci_poke64 handle offset value, none)
  | .peek value => do return ((← fpga_pci_peek handle offset value).1, none)
  | .peek8 value => do return ((← fpga_pci_peek8 handle offset value).1, none)
  | .peek64 value => do return ((← fpga_pci_peek64 handle offset value).1, none)
  | .write_burst datap dword_len => do
    return (← fpga_pci_write_burst handle offset datap dword_len, none)
  | .memset value dword_len => do return (← fpga_pci_memset handle offset value dword_len, none)
  | .get_address len => fpga_pci_get_address handle offset len

end Access

/-! ## Bytes -/

/-- The addresses of `n` bytes from `ptr` on. -/
def byte_addrs (ptr : BitVec 64) (n : Nat) : List (BitVec 64) :=
  (List.range n).map fun k => ptr + BitVec.ofNat 64 k

@[simp] theorem byte_addrs_zero (ptr : BitVec 64) : byte_addrs ptr 0 = [] := rfl

theorem byte_addrs_add (ptr : BitVec 64) (m n : Nat) :
    byte_addrs ptr (m + n) = byte_addrs ptr m ++ byte_addrs (ptr + BitVec.ofNat 64 m) n := by
  unfold byte_addrs
  rw [List.range_add, List.map_append, List.map_map]
  congr 1
  apply List.map_congr_left
  intro k _
  change ptr + BitVec.ofNat 64 (m + k) = _
  rw [BitVec.ofNat_add, BitVec.add_assoc]

/-- The bytes that a load or a store is about. -/
def bytesOf : OsApi.Event → List (BitVec 64)
  | ⟨.load reg_ptr, _⟩ | ⟨.store reg_ptr _, _⟩ => byte_addrs reg_ptr 4
  | ⟨.load8 reg_ptr, _⟩ | ⟨.store8 reg_ptr _, _⟩ => byte_addrs reg_ptr 1
  | ⟨.load64 reg_ptr, _⟩ | ⟨.store64 reg_ptr _, _⟩ => byte_addrs reg_ptr 8
  | _ => []

/-- The bytes that a call touched, and those it handed out. -/
def Access.touched (c : Access) (t : List OsApi.Event) (ptr : Option (BitVec 64)) :
    List (BitVec 64) :=
  t.flatMap bytesOf ++ ptr.elim [] fun ptr => byte_addrs ptr c.size

variable {bars bars' : BarTable} {t : List OsApi.Event} {handle ret : Int} {offset : BitVec 64}
  {ptr : Option (BitVec 64)}

theorem store_dwords_spec (reg_ptr : BitVec 64) (datap : Nat → BitVec 32) (left i : Nat)
    (u : Unit) (h : Exec (store_dwords reg_ptr datap left i) bars t u bars') :
    bars' = bars ∧ t.flatMap bytesOf = byte_addrs (reg_ptr + 4 * BitVec.ofNat 64 i) (4 * left) := by
  induction left generalizing i t with
  | zero =>
    obtain ⟨rfl, -, rfl⟩ := (exec_pure _ _ _ _ _).mp h
    exact ⟨rfl, rfl⟩
  | succ left ih =>
    obtain ⟨r, t', rfl, hk⟩ := (exec_op_bind (I := OsApi) _ _ _ _ _ _).mp h
    obtain ⟨rfl, ht⟩ := ih (i + 1) hk
    refine ⟨rfl, ?_⟩
    have hnext : reg_ptr + 4 * BitVec.ofNat 64 (i + 1) =
        reg_ptr + 4 * BitVec.ofNat 64 i + BitVec.ofNat 64 4 := by
      rw [BitVec.ofNat_add, BitVec.mul_add, BitVec.add_assoc]
      rfl
    rw [List.flatMap_cons, ht, hnext, Nat.mul_succ, Nat.add_comm, byte_addrs_add]
    rfl

/-! ## What a call does -/

/-- The shape of every access: a pointer to `n` bytes, or `fail`. -/
def withPtr {α : Type} (handle : Int) (offset n : BitVec 64) (fail : α) (m : BitVec 64 → BarsM α) :
    BarsM α := do
  match fpga_pci_bar_get_mem_at_offset (← get) handle offset n with
  | none => return fail
  | some reg_ptr => m reg_ptr

theorem exec_withPtr {α : Type} {n : BitVec 64} {fail a : α} {m : BitVec 64 → BarsM α}
    (h : Exec (withPtr handle offset n fail m) bars t a bars') :
    match fpga_pci_bar_get_mem_at_offset bars handle offset n with
    | none => t = [] ∧ a = fail ∧ bars' = bars
    | some reg_ptr => Exec (m reg_ptr) bars t a bars' := by
  unfold withPtr at h
  rw [exec_get_bind] at h
  cases hp : fpga_pci_bar_get_mem_at_offset bars handle offset n with
  | none =>
    rw [hp] at h
    exact (exec_pure _ _ _ _ _).mp h
  | some reg_ptr =>
    rw [hp] at h
    exact h

/-- It gives up, or it touches just the bytes at the pointer it got. -/
def Accesses (bars : BarTable) (handle : Int) (offset : BitVec 64) (c : Access)
    (t : List OsApi.Event) (ret : Int) (ptr : Option (BitVec 64)) : Prop :=
  match fpga_pci_bar_get_mem_at_offset bars handle offset (BitVec.ofNat 64 c.size) with
  | none => ret = -EINVAL ∧ t = [] ∧ ptr = none
  | some reg_ptr => ret = 0 ∧ c.touched t ptr = byte_addrs reg_ptr c.size

theorem accesses_of_withPtr {α : Type} {c : Access} {n : BitVec 64} {fail : α}
    {m : BitVec 64 → BarsM α} (f : α → Int) (hn : BitVec.ofNat 64 c.size = n)
    (hfail : f fail = -EINVAL)
    (hm : ∀ reg_ptr t a bars', Exec (m reg_ptr) bars t a bars' →
      f a = 0 ∧ t.flatMap bytesOf = byte_addrs reg_ptr c.size ∧ bars' = bars)
    (h : Exec (do let a ← withPtr handle offset n fail m; return (f a, none)) bars t (ret, ptr)
      bars') :
    Accesses bars handle offset c t ret ptr ∧ bars' = bars := by
  obtain ⟨t₁, a, bars₁, t₂, rfl, hcall, hk⟩ := (exec_bind _ _ _ _ _ _).mp h
  obtain ⟨rfl, hr, rfl⟩ := (exec_pure _ _ _ _ _).mp hk
  obtain ⟨rfl, rfl⟩ := Prod.mk.inj hr
  have hcall := exec_withPtr hcall
  unfold Accesses
  rw [hn, List.append_nil]
  split at hcall
  · obtain ⟨rfl, rfl, rfl⟩ := hcall
    exact ⟨⟨hfail, rfl, rfl⟩, rfl⟩
  · obtain ⟨hret, ht, hbars⟩ := hm _ _ _ _ hcall
    refine ⟨⟨hret, ?_⟩, hbars⟩
    rw [Access.touched, Option.elim_none, List.append_nil, ht]

theorem exec_one {α : Type} {o : OsOp} {bytes : List (BitVec 64)} {f : α → Int} {g : o.Ans → α}
    {a : α} (hbytes : ∀ r : o.Ans, bytesOf ⟨o, r⟩ = bytes) (hg : ∀ r, f (g r) = 0)
    (h : Exec (do let r ← os o; return g r) bars t a bars') :
    f a = 0 ∧ t.flatMap bytesOf = bytes ∧ bars' = bars := by
  obtain ⟨r, t', rfl, hk⟩ := (exec_op_bind (I := OsApi) _ _ _ _ _ _).mp h
  obtain ⟨rfl, rfl, hbars⟩ := (exec_pure _ _ _ _ _).mp hk
  refine ⟨hg r, ?_, hbars⟩
  rw [List.flatMap_cons, hbytes, List.flatMap_nil, List.append_nil]

theorem burst_size (dword_len : BitVec 64) :
    BitVec.ofNat 64 (4 * dword_len.toNat) = 4 * dword_len := by
  rw [BitVec.ofNat_mul, BitVec.ofNat_toNat, BitVec.setWidth_eq]
  rfl

theorem exec_burst {reg_ptr : BitVec 64} {datap : Nat → BitVec 32} {n : Nat}
    (h : Exec (do store_dwords reg_ptr datap n 0; return (0 : Int)) bars t ret bars') :
    ret = 0 ∧ t.flatMap bytesOf = byte_addrs reg_ptr (4 * n) ∧ bars' = bars := by
  obtain ⟨t₁, u, bars₁, t₂, rfl, hloop, hk⟩ := (exec_bind _ _ _ _ _ _).mp h
  obtain ⟨rfl, hret, rfl⟩ := (exec_pure _ _ _ _ _).mp hk
  obtain ⟨rfl, ht⟩ := store_dwords_spec _ _ _ _ _ hloop
  rw [List.append_nil, ht]
  refine ⟨hret, ?_, rfl⟩
  congr 1
  exact BitVec.add_zero _

/-- Every access takes as many bytes as it checked, and nothing when the check fails. -/
theorem call_spec (c : Access) (h : Exec (c.call handle offset) bars t (ret, ptr) bars') :
    Accesses bars handle offset c t ret ptr ∧ bars' = bars := by
  cases c with
  | poke | poke8 | poke64 =>
    exact accesses_of_withPtr id rfl rfl (fun _ _ _ _ => exec_one (fun _ => rfl) fun _ => rfl) h
  | peek | peek8 | peek64 =>
    exact accesses_of_withPtr Prod.fst rfl rfl
      (fun _ _ _ _ => exec_one (fun _ => rfl) fun _ => rfl) h
  | write_burst datap dword_len =>
    exact accesses_of_withPtr id (burst_size dword_len) rfl (fun _ _ _ _ => exec_burst) h
  | memset value dword_len =>
    exact accesses_of_withPtr id (burst_size dword_len) rfl (fun _ _ _ _ => exec_burst) h
  | get_address len =>
    have hlen : BitVec.ofNat 64 len.toNat = len := BitVec.ofNat_toNat 64 len
    have h : Exec (withPtr handle offset len (-EINVAL, none) fun ptr => return (0, some ptr))
        bars t (ret, ptr) bars' := h
    have hcall := exec_withPtr h
    unfold Accesses Access.size
    rw [hlen]
    split at hcall
    · obtain ⟨rfl, hr, rfl⟩ := hcall
      obtain ⟨rfl, rfl⟩ := Prod.mk.inj hr
      exact ⟨⟨rfl, rfl, rfl⟩, rfl⟩
    · obtain ⟨rfl, hr, rfl⟩ := (exec_pure _ _ _ _ _).mp hcall
      obtain ⟨rfl, rfl⟩ := Prod.mk.inj hr
      exact ⟨⟨rfl, rfl⟩, rfl⟩

/-- A system on which every call works and reads zeros. -/
def OsOp.quiet : (o : OsOp) → o.Ans
  | .get_slot_spec _ => (0, fun _ => ⟨⟨0, 0, 0, 0⟩, ⟨0, 0, 0, 0⟩, fun _ => false, fun _ => 0⟩)
  | .scan_id .. => .scanned 0
  | .open .. | .close _ | .munmap .. => (0 : Int)
  | .mmap .. => 0#64
  | .load _ => 0#32
  | .load8 _ => 0#8
  | .load64 _ => 0#64
  | .store .. | .store8 .. | .store64 .. => ()
  | .sysfs o => o.quiet

def quietOs : Prog.Handler OsApi Unit := fun o s => (o.quiet, s)

theorem exists_exec {α : Type} (m : BarsM α) (bars : BarTable) :
    ∃ t a bars', Exec m bars t a bars' :=
  ⟨_, _, _, Prog.exec_runs quietOs (m.run bars) ()⟩

/-! ## The bound -/

/-- What the check finds out about the entry `i`: the sum is taken in 64 bits. -/
structure Granted (bars : BarTable) (i : Fin FPGA_PCI_BARS_MAX) (offset : BitVec 64) (size : Nat) :
    Prop where
  allocated : (bars i).allocated = true
  base : (bars i).mem_base ≠ 0
  sum : (offset.toNat + size) % 2 ^ 64 ≤ (bars i).mem_size.toNat
  ptr : (bars i).mem_base + offset ≠ 0

theorem sum_gt_iff (offset mem_size : BitVec 64) (size : Nat) :
    offset + BitVec.ofNat 64 size > mem_size ↔
      mem_size.toNat < (offset.toNat + size) % 2 ^ 64 := by
  rw [gt_iff_lt, BitVec.lt_def, BitVec.toNat_add, BitVec.toNat_ofNat, Nat.add_mod_mod]

theorem mem_at_offset_eq_some_iff {size : Nat} {reg_ptr : BitVec 64} :
    fpga_pci_bar_get_mem_at_offset bars handle offset (BitVec.ofNat 64 size) = some reg_ptr ↔
      ∃ i, fpga_pci_bar_get handle = some i ∧ Granted bars i offset size ∧
        reg_ptr = (bars i).mem_base + offset := by
  unfold fpga_pci_bar_get_mem_at_offset
  cases hget : fpga_pci_bar_get handle with
  | none => simp
  | some i =>
    simp only [Option.some.injEq, exists_eq_left', sum_gt_iff, notNull]
    constructor
    · intro h
      split at h
      · cases h
      split at h
      · cases h
      split at h
      · cases h
      split at h
      · cases h
      rename_i halloc hbase hsum hptr
      exact ⟨⟨by simpa using halloc, hbase, Nat.le_of_not_lt hsum, hptr⟩, (Option.some.inj h).symm⟩
    · rintro ⟨⟨halloc, hbase, hsum, hptr⟩, rfl⟩
      rw [halloc, if_neg (by decide), if_neg hbase, if_neg (Nat.not_lt.mpr hsum), if_neg hptr]

/-- The sum is past 64 bits, and what is left of it fits the BAR. -/
def Wraps (bars : BarTable) (handle : Int) (offset : BitVec 64) (size : Nat) : Prop :=
  ∃ i, fpga_pci_bar_get handle = some i ∧ Granted bars i offset size ∧
    2 ^ 64 ≤ offset.toNat + size

/-- `bytes` are bytes of the BAR behind the entry `i`, which is attached. -/
structure Inside (bars : BarTable) (i : Fin FPGA_PCI_BARS_MAX) (offset : BitVec 64) (size : Nat)
    (bytes : List (BitVec 64)) : Prop where
  allocated : (bars i).allocated = true
  bound : offset.toNat + size ≤ (bars i).mem_size.toNat
  bytes : ∀ b ∈ bytes, ∃ k < (bars i).mem_size.toNat, b = (bars i).mem_base + BitVec.ofNat 64 k

/-- The code is 0 only for bytes of the BAR, and otherwise nothing is touched or handed out. -/
def Contained (bars : BarTable) (handle : Int) (offset : BitVec 64) (c : Access) : Prop :=
  ∀ t ret ptr bars', Exec (c.call handle offset) bars t (ret, ptr) bars' →
    (ret = 0 → ∃ i, fpga_pci_bar_get handle = some i ∧
      Inside bars i offset c.size (c.touched t ptr)) ∧
    (ret ≠ 0 → ret = -EINVAL ∧ t = [] ∧ ptr = none)

theorem byte_addrs_inside {i : Fin FPGA_PCI_BARS_MAX} {size : Nat}
    (hgranted : Granted bars i offset size) (hlt : offset.toNat + size < 2 ^ 64) :
    Inside bars i offset size (byte_addrs ((bars i).mem_base + offset) size) := by
  have hbound : offset.toNat + size ≤ (bars i).mem_size.toNat := by
    have hsum := hgranted.sum
    rwa [Nat.mod_eq_of_lt hlt] at hsum
  refine ⟨hgranted.allocated, hbound, ?_⟩
  intro b hb
  obtain ⟨k, hk, rfl⟩ := List.mem_map.mp hb
  have hk : k < size := List.mem_range.mp hk
  refine ⟨offset.toNat + k, by omega, ?_⟩
  rw [BitVec.ofNat_add, BitVec.ofNat_toNat, BitVec.setWidth_eq, BitVec.add_assoc]

theorem contained_of_not_wraps {c : Access} (h : ¬ Wraps bars handle offset c.size) :
    Contained bars handle offset c := by
  intro t ret ptr bars' hrun
  obtain ⟨hcall, -⟩ := call_spec c hrun
  unfold Accesses at hcall
  split at hcall
  case h_1 =>
    obtain ⟨rfl, rfl, rfl⟩ := hcall
    exact ⟨fun h0 => absurd h0 (by decide), fun _ => ⟨rfl, rfl, rfl⟩⟩
  case h_2 reg_ptr hptr =>
    obtain ⟨rfl, htouched⟩ := hcall
    obtain ⟨i, hget, hgranted, rfl⟩ := mem_at_offset_eq_some_iff.mp hptr
    refine ⟨fun _ => ⟨i, hget, ?_⟩, fun h0 => absurd rfl h0⟩
    rw [htouched]
    refine byte_addrs_inside hgranted ?_
    by_contra hge
    exact h ⟨i, hget, hgranted, Nat.le_of_not_lt hge⟩

theorem not_contained_of_wraps {c : Access} (h : Wraps bars handle offset c.size) :
    ¬ Contained bars handle offset c := by
  intro hc
  obtain ⟨i, hget, hgranted, hge⟩ := h
  obtain ⟨t, ⟨ret, ptr⟩, bars', hrun⟩ := exists_exec (c.call handle offset) bars
  obtain ⟨hcall, -⟩ := call_spec c hrun
  unfold Accesses at hcall
  rw [mem_at_offset_eq_some_iff.mpr ⟨i, hget, hgranted, rfl⟩] at hcall
  obtain ⟨j, hj, hinside⟩ := (hc t ret ptr bars' hrun).1 hcall.1
  have hbound := hinside.bound
  have hlt := (bars j).mem_size.isLt
  omega

/-- An access keeps to the BAR exactly unless its end wraps around to a small number. -/
theorem contained_iff_not_wraps (bars : BarTable) (handle : Int) (offset : BitVec 64)
    (c : Access) : Contained bars handle offset c ↔ ¬ Wraps bars handle offset c.size := by
  constructor
  · intro hc hwraps
    exact not_contained_of_wraps hwraps hc
  · exact contained_of_not_wraps

/-- A table whose first entry is a BAR of one page. -/
def onePage : BarTable := Function.update BarTable.start 0 ⟨true, 0x7F0000000000, 0x1000⟩

/-- The last dword before 2 ^ 64 is read below the BAR, and the code is 0. -/
theorem contained_fails :
    ¬ ∀ (bars : BarTable) (handle : Int) (offset : BitVec 64) (c : Access),
      Contained bars handle offset c := by
  intro h
  refine not_contained_of_wraps ?_ (h onePage 0 0xFFFFFFFFFFFFFFFC (.peek 0))
  exact ⟨0, rfl, ⟨rfl, by decide, by decide, by decide⟩, by decide⟩

end AwsFpga.Bars
