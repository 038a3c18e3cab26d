import AwsFpga.Lib.Axi
import Mathlib.Data.BitVec

/-!
# The AXI-Lite registers (`cl_axil_reg_access.sv`)

The register slice in front of it is another master to this block. Every response is an OKAY.
-/

open Lib Lib.Axi

namespace AwsFpga.Rtl

inductive RegAccessState where
  | IDLE
  | WRITE_WAIT
  | WRITE
  | WRITE_RESP
  | READ
  deriving DecidableEq

structure AxilIn where
  awvalid : Bool
  awaddr : BitVec 32
  wvalid : Bool
  wdata : BitVec 32
  bready : Bool
  arvalid : Bool
  araddr : BitVec 32
  rready : Bool

structure AxilRegs where
  awready : Bool
  wready : Bool
  bvalid : Bool
  arready : Bool
  rvalid : Bool
  rdata : BitVec 32
  current_state : RegAccessState
  start_pulse : Bool
  ready_flag : Bool
  sum_read_flag : Bool
  carry_read_flag : Bool
  reg_operand_a : BitVec 32
  reg_operand_b : BitVec 32
  reg_sum : BitVec 32
  reg_carry : BitVec 32
  reg_control_status : BitVec 32
  write_addr : BitVec 32
  read_addr : BitVec 32

namespace AxilRegs

def ADDR_OPERAND_A : BitVec 32 := 0x00
def ADDR_OPERAND_B : BitVec 32 := 0x04
def ADDR_SUM : BitVec 32 := 0x08
def ADDR_CARRY : BitVec 32 := 0x0C
def ADDR_CONTROL_STATUS : BitVec 32 := 0x10
def INVALID_ADDR_RESP : BitVec 32 := 0xDEADBEEF

variable (i : AxilIn) (s : AxilRegs)

def addr_wr_handshake : Bool := i.awvalid && s.awready
def data_wr_handshake : Bool := i.wvalid && s.wready
def bresp_handshake : Bool := s.bvalid && i.bready
def addr_rd_handshake : Bool := i.arvalid && s.arready
def data_rd_handshake : Bool := s.rvalid && i.rready

def next_state : RegAccessState :=
  match s.current_state with
  | .IDLE =>
    if addr_wr_handshake i s && data_wr_handshake i s then .WRITE
    else if addr_wr_handshake i s || data_wr_handshake i s then .WRITE_WAIT
    else if addr_rd_handshake i s then .READ
    else .IDLE
  | .WRITE_WAIT =>
    if addr_wr_handshake i s || data_wr_handshake i s then .WRITE else .WRITE_WAIT
  | .WRITE => .WRITE_RESP
  | .WRITE_RESP => if bresp_handshake i s then .IDLE else .WRITE_RESP
  | .READ => if data_rd_handshake i s then .IDLE else .READ

/-- The value at an address. -/
def read_value (addr : BitVec 32) : BitVec 32 :=
  if addr = ADDR_OPERAND_A then s.reg_operand_a
  else if addr = ADDR_OPERAND_B then s.reg_operand_b
  else if addr = ADDR_SUM then s.reg_sum
  else if addr = ADDR_CARRY then s.reg_carry
  else if addr = ADDR_CONTROL_STATUS then s.reg_control_status
  else INVALID_ADDR_RESP

/-- The operand at `addr` after this cycle. -/
def reg_write (addr reg : BitVec 32) : BitVec 32 :=
  if next_state i s = .WRITE && s.write_addr = addr then i.wdata else reg

def start_nxt : Bool :=
  s.current_state = .WRITE && s.write_addr = ADDR_CONTROL_STATUS && i.wdata.getLsbD 0

/-- `reg_operand_a + reg_operand_b` with its carry. -/
def sum : BitVec 33 := s.reg_operand_a.setWidth 33 + s.reg_operand_b.setWidth 33

def step : AxilRegs where
  awready := next_state i s = .IDLE || next_state i s = .WRITE_WAIT
  wready := next_state i s = .IDLE || next_state i s = .WRITE_WAIT
  bvalid := next_state i s = .WRITE_RESP
  arready := next_state i s = .IDLE
  rvalid := next_state i s = .READ
  rdata := if addr_rd_handshake i s then read_value s i.araddr else s.rdata
  current_state := next_state i s
  start_pulse := start_nxt i s
  ready_flag :=
    if s.start_pulse then true
    else if s.sum_read_flag && s.carry_read_flag then false
    else s.ready_flag
  sum_read_flag :=
    if s.start_pulse then false
    else if addr_rd_handshake i s && i.araddr = ADDR_SUM then true
    else s.sum_read_flag
  carry_read_flag :=
    if s.start_pulse then false
    else if addr_rd_handshake i s && i.araddr = ADDR_CARRY then true
    else s.carry_read_flag
  reg_operand_a := reg_write i s ADDR_OPERAND_A s.reg_operand_a
  reg_operand_b := reg_write i s ADDR_OPERAND_B s.reg_operand_b
  reg_sum := if s.start_pulse then (sum s).setWidth 32 else s.reg_sum
  reg_carry :=
    if s.start_pulse then s.reg_carry.extractLsb' 1 31 ++ (sum s).extractLsb' 32 1 else s.reg_carry
  reg_control_status := (0 : BitVec 30) ++ BitVec.ofBool s.ready_flag ++ BitVec.ofBool s.start_pulse
  write_addr := if addr_wr_handshake i s then i.awaddr else s.write_addr
  read_addr := if addr_rd_handshake i s then i.araddr else s.read_addr

def reset : AxilRegs where
  awready := true
  wready := true
  bvalid := false
  arready := true
  rvalid := false
  rdata := 0
  current_state := .IDLE
  start_pulse := false
  ready_flag := false
  sum_read_flag := false
  carry_read_flag := false
  reg_operand_a := 0
  reg_operand_b := 0
  reg_sum := 0
  reg_carry := 0
  reg_control_status := 0
  write_addr := 0
  read_addr := 0

def circuit : Circuit AxilIn AxilRegs := ⟨reset, step⟩

theorem circuit_step : circuit.step = step := rfl

/-! ## What the master sees -/

def aw_taken : List (BitVec 32) := fire i.awvalid s.awready i.awaddr
def w_taken : List (BitVec 32) := fire i.wvalid s.wready i.wdata
def b_sent : List Unit := fire s.bvalid i.bready ()

/-- Of a read, the value at its address when it is accepted. -/
def ar_taken : List (BitVec 32) := fire i.arvalid s.arready (read_value s i.araddr)
def r_sent : List (BitVec 32) := fire s.rvalid i.rready s.rdata

/-- The write that the registers see. -/
def performed : List (BitVec 32 × BitVec 32) :=
  if next_state i s = .WRITE then [(s.write_addr, i.wdata)] else []

/-- Of a write, one cycle later, whether it gives a start pulse. -/
def pulsed : List Bool := if s.current_state = .WRITE then [start_nxt i s] else []

/-- What is stored at `addr` after some writes. -/
def stored (addr : BitVec 32) (writes : List (BitVec 32 × BitVec 32)) : BitVec 32 :=
  writes.foldl (fun value w => if w.1 = addr then w.2 else value) 0

def starts (w : BitVec 32 × BitVec 32) : Bool := w.1 = ADDR_CONTROL_STATUS && w.2.getLsbD 0

variable (ins : Nat → AxilIn)

/-- The writes so far: the addresses in their order, each with the data in its order. -/
def writes (n : Nat) : List (BitVec 32 × BitVec 32) :=
  (circuit.passed ins aw_taken n).zip (circuit.passed ins w_taken n)

structure Serves : Prop where
  /-- A write takes effect when its address and its data are there. -/
  performed : ∀ n, circuit.passed ins performed n = writes ins n
  operand_a : ∀ n, (circuit.state ins n).reg_operand_a = stored ADDR_OPERAND_A (writes ins n)
  operand_b : ∀ n, (circuit.state ins n).reg_operand_b = stored ADDR_OPERAND_B (writes ins n)
  starts : ∀ n, circuit.passed ins pulsed (n + 1) = (writes ins n).map starts
  /-- One cycle later each write has its B or shows it. -/
  b : ∀ n, (writes ins n).length = (circuit.passed ins b_sent (n + 1)).length +
    (shown (circuit.state ins (n + 1)).bvalid ()).length
  b_held : Held (fun n => (circuit.state ins n).bvalid) (fun n => (ins n).bready) fun _ => ()
  /-- Each read has its R, or it is the one that is answered. -/
  r : ∀ n, circuit.passed ins ar_taken n =
    circuit.passed ins r_sent n ++ shown ((circuit.state ins n).rvalid) (circuit.state ins n).rdata
  r_held : Held (fun n => (circuit.state ins n).rvalid) (fun n => (ins n).rready)
    fun n => (circuit.state ins n).rdata

/-- What the bus asks of a master. -/
structure Legal : Prop where
  aw : Held (fun n => (ins n).awvalid) (fun n => (circuit.state ins n).awready)
    fun n => (ins n).awaddr
  w : Held (fun n => (ins n).wvalid) (fun n => (circuit.state ins n).wready) fun n => (ins n).wdata
  ar : Held (fun n => (ins n).arvalid) (fun n => (circuit.state ins n).arready)
    fun n => (ins n).araddr

/-- Data comes after its address, or together with one that is the address of the write before.
Until then no address comes. No read comes together with a write address. -/
structure MayStep : Prop where
  w : s.current_state = .IDLE → i.wvalid → i.awvalid ∧ s.write_addr = i.awaddr
  aw : s.current_state = .WRITE_WAIT → i.awvalid = false
  ar : s.current_state = .IDLE → i.awvalid → i.arvalid = false

/-- And of a control write the bus keeps bit 0 for one cycle more. -/
structure May (n : Nat) : Prop where
  step : MayStep (ins n) (circuit.state ins n)
  bit : (circuit.state ins (n + 1)).current_state = .WRITE →
    (circuit.state ins (n + 1)).write_addr = ADDR_CONTROL_STATUS →
    (ins (n + 1)).wdata.getLsbD 0 = (ins n).wdata.getLsbD 0

/-! ## One cycle -/

/-- The outputs tell the state. -/
structure Inv : Prop where
  awready : s.awready = decide (s.current_state = .IDLE ∨ s.current_state = .WRITE_WAIT)
  wready : s.wready = decide (s.current_state = .IDLE ∨ s.current_state = .WRITE_WAIT)
  bvalid : s.bvalid = decide (s.current_state = .WRITE_RESP)
  arready : s.arready = decide (s.current_state = .IDLE)
  rvalid : s.rvalid = decide (s.current_state = .READ)

/-- An address that waits for its data. -/
def waiting : List (BitVec 32) := if s.current_state = .WRITE_WAIT then [s.write_addr] else []

/-- The writes that have no B yet. -/
def owed : Nat := if s.current_state = .WRITE ∨ s.current_state = .WRITE_RESP then 1 else 0

variable {i s}

theorem Inv.reset : Inv reset := ⟨rfl, rfl, rfl, rfl, rfl⟩

theorem Inv.step : Inv (step i s) := by
  constructor <;> simp [AxilRegs.step]

theorem inv_state (n : Nat) : Inv (circuit.state ins n) := by
  cases n with
  | zero => exact .reset
  | succ n => exact .step

theorem step_write_addr : (AxilRegs.step i s).write_addr = (aw_taken i s).getLastD s.write_addr := by
  change (if addr_wr_handshake i s then i.awaddr else s.write_addr) = _
  unfold addr_wr_handshake aw_taken fire
  split <;> rfl

theorem idle_cases (hinv : Inv s) (hmay : MayStep i s) (hidle : s.current_state = .IDLE) :
    (next_state i s = .WRITE ∧ aw_taken i s = [s.write_addr] ∧ w_taken i s = [i.wdata] ∧
      ar_taken i s = []) ∨
    (next_state i s = .WRITE_WAIT ∧ aw_taken i s = [i.awaddr] ∧ w_taken i s = [] ∧
      ar_taken i s = []) ∨
    (next_state i s = .READ ∧ aw_taken i s = [] ∧ w_taken i s = [] ∧
      ar_taken i s = [read_value s i.araddr]) ∨
    (next_state i s = .IDLE ∧ aw_taken i s = [] ∧ w_taken i s = [] ∧ ar_taken i s = []) := by
  have haw : s.awready = true := by simp [hinv.awready, hidle]
  have hw : s.wready = true := by simp [hinv.wready, hidle]
  have har : s.arready = true := by simp [hinv.arready, hidle]
  have hwmay := hmay.w hidle
  have harmay := hmay.ar hidle
  simp only [next_state, hidle, addr_wr_handshake, data_wr_handshake, addr_rd_handshake, aw_taken,
    w_taken, ar_taken, haw, hw, har, Bool.and_true]
  cases hav : i.awvalid
  · have hno : i.wvalid = false := by
      cases hwv : i.wvalid
      · rfl
      · simp [hav] at hwmay
        simp [hwv] at hwmay
    cases i.arvalid <;> simp [hno]
  · rw [harmay hav]
    cases hwv : i.wvalid
    · simp
    · simp [(hwmay hwv).2]

theorem wait_cases (hinv : Inv s) (hmay : MayStep i s) (hwait : s.current_state = .WRITE_WAIT) :
    aw_taken i s = [] ∧ ar_taken i s = [] ∧
      ((next_state i s = .WRITE ∧ w_taken i s = [i.wdata]) ∨
        (next_state i s = .WRITE_WAIT ∧ w_taken i s = [])) := by
  have hw : s.wready = true := by simp [hinv.wready, hwait]
  have har : s.arready = false := by simp [hinv.arready, hwait]
  have haw := hmay.aw hwait
  simp only [next_state, hwait, addr_wr_handshake, data_wr_handshake, aw_taken, w_taken, ar_taken,
    haw, hw, har, Bool.and_true]
  cases i.wvalid <;> simp

/-- In the other states nothing is taken and no write begins. -/
theorem busy_cases (hinv : Inv s) (hidle : s.current_state ≠ .IDLE)
    (hwait : s.current_state ≠ .WRITE_WAIT) :
    (aw_taken i s = [] ∧ w_taken i s = [] ∧ ar_taken i s = []) ∧
      next_state i s ≠ .WRITE ∧ next_state i s ≠ .WRITE_WAIT := by
  have haw : s.awready = false := by simp [hinv.awready, hidle, hwait]
  have hw : s.wready = false := by simp [hinv.wready, hidle, hwait]
  have har : s.arready = false := by simp [hinv.arready, hidle]
  refine ⟨by simp [aw_taken, w_taken, ar_taken, haw, hw, har], ?_⟩
  unfold next_state
  split <;> simp_all <;> split <;> simp

theorem aw_step (hinv : Inv s) (hmay : MayStep i s) :
    waiting s ++ aw_taken i s = (performed i s).map Prod.fst ++ waiting (AxilRegs.step i s) := by
  have hnext : (AxilRegs.step i s).current_state = next_state i s := rfl
  unfold waiting performed
  rw [hnext, step_write_addr]
  by_cases hidle : s.current_state = .IDLE
  · obtain ⟨hst, haw, -⟩ | ⟨hst, haw, -⟩ | ⟨hst, haw, -⟩ | ⟨hst, haw, -⟩ :=
      idle_cases hinv hmay hidle <;> simp [hst, haw, hidle]
  by_cases hwait : s.current_state = .WRITE_WAIT
  · obtain ⟨haw, -, ⟨hst, -⟩ | ⟨hst, -⟩⟩ := wait_cases hinv hmay hwait <;> simp [hst, haw, hwait]
  · obtain ⟨⟨haw, -⟩, hwrite, hwt⟩ := busy_cases (i := i) hinv hidle hwait
    simp [haw, hwrite, hwt, hwait]

theorem w_step (hinv : Inv s) (hmay : MayStep i s) :
    w_taken i s = (performed i s).map Prod.snd := by
  unfold performed
  by_cases hidle : s.current_state = .IDLE
  · obtain ⟨hst, -, hw, -⟩ | ⟨hst, -, hw, -⟩ | ⟨hst, -, hw, -⟩ | ⟨hst, -, hw, -⟩ :=
      idle_cases hinv hmay hidle <;> simp [hst, hw]
  by_cases hwait : s.current_state = .WRITE_WAIT
  · obtain ⟨-, -, ⟨hst, hw⟩ | ⟨hst, hw⟩⟩ := wait_cases hinv hmay hwait <;> simp [hst, hw]
  · obtain ⟨⟨-, hw, -⟩, hwrite, -⟩ := busy_cases (i := i) hinv hidle hwait
    simp [hw, hwrite]

theorem write_addr_kept (hinv : Inv s) (hmay : MayStep i s) (hwrite : next_state i s = .WRITE) :
    (AxilRegs.step i s).write_addr = s.write_addr := by
  rw [step_write_addr]
  by_cases hidle : s.current_state = .IDLE
  · obtain ⟨-, haw, -⟩ | ⟨hst, -⟩ | ⟨-, haw, -⟩ | ⟨-, haw, -⟩ := idle_cases hinv hmay hidle
    · rw [haw]
      rfl
    · rw [hst] at hwrite
      cases hwrite
    · rw [haw]
      rfl
    · rw [haw]
      rfl
  by_cases hwait : s.current_state = .WRITE_WAIT
  · rw [(wait_cases hinv hmay hwait).1]
    rfl
  · exact absurd hwrite (busy_cases hinv hidle hwait).2.1

theorem r_step (hinv : Inv s) (hmay : MayStep i s) :
    shown s.rvalid s.rdata ++ ar_taken i s =
      r_sent i s ++ shown (AxilRegs.step i s).rvalid (AxilRegs.step i s).rdata := by
  have hrvalid : (AxilRegs.step i s).rvalid = decide (next_state i s = .READ) := rfl
  have hrdata : (AxilRegs.step i s).rdata = (ar_taken i s).getLastD s.rdata := by
    change (if addr_rd_handshake i s then read_value s i.araddr else s.rdata) = _
    unfold addr_rd_handshake ar_taken fire
    split <;> rfl
  rw [hrvalid, hrdata, r_sent, hinv.rvalid]
  by_cases hidle : s.current_state = .IDLE
  · obtain ⟨hst, -, -, har⟩ | ⟨hst, -, -, har⟩ | ⟨hst, -, -, har⟩ | ⟨hst, -, -, har⟩ :=
      idle_cases hinv hmay hidle <;> simp [hst, har, hidle]
  by_cases hwait : s.current_state = .WRITE_WAIT
  · obtain ⟨-, har, ⟨hst, -⟩ | ⟨hst, -⟩⟩ := wait_cases hinv hmay hwait <;> simp [hst, har, hwait]
  rw [(busy_cases hinv hidle hwait).1.2.2]
  by_cases hread : s.current_state = .READ
  · have hr : s.rvalid = true := by simp [hinv.rvalid, hread]
    cases hready : i.rready <;> simp [hread, next_state, data_rd_handshake, hr, hready]
  · have hst : next_state i s ≠ .READ := by
      unfold next_state
      split <;> simp_all
      split <;> simp
    simp [hread, hst]

theorem next_state_resp : next_state i s = .WRITE_RESP ↔
    s.current_state = .WRITE ∨ s.current_state = .WRITE_RESP ∧ bresp_handshake i s = false := by
  unfold next_state
  cases hstate : s.current_state with
  | IDLE => simp only [reduceCtorEq, false_and, or_self, iff_false]; grind
  | WRITE_WAIT => simp only [reduceCtorEq, false_and, or_self, iff_false]; grind
  | WRITE => simp
  | WRITE_RESP => cases bresp_handshake i s <;> simp
  | READ => simp only [reduceCtorEq, false_and, or_self, iff_false]; grind

theorem b_step (hinv : Inv s) :
    owed s = (b_sent i s).length + (shown (AxilRegs.step i s).bvalid ()).length := by
  have hbvalid : (AxilRegs.step i s).bvalid = decide (next_state i s = .WRITE_RESP) := rfl
  rw [hbvalid, b_sent, hinv.bvalid]
  simp only [next_state_resp, owed, bresp_handshake, hinv.bvalid]
  by_cases hwrite : s.current_state = .WRITE
  · simp [hwrite]
  by_cases hresp : s.current_state = .WRITE_RESP
  · cases i.bready <;> simp [hresp]
  · simp [hwrite, hresp]

theorem owed_step (hinv : Inv s) :
    owed s + (performed i s).length = (b_sent i s).length + owed (AxilRegs.step i s) := by
  have hnext : (AxilRegs.step i s).current_state = next_state i s := rfl
  have hbvalid : (AxilRegs.step i s).bvalid = decide (next_state i s = .WRITE_RESP) := rfl
  rw [b_step (i := i) hinv, hbvalid]
  unfold owed performed
  rw [hnext]
  cases next_state i s <;> simp

/-! ## Runs -/

theorem stored_append (addr : BitVec 32) (l more : List (BitVec 32 × BitVec 32)) :
    stored addr (l ++ more) =
      more.foldl (fun value w => if w.1 = addr then w.2 else value) (stored addr l) :=
  List.foldl_append

variable {ins} (h : ∀ n, May ins n)

include h

theorem performed_eq (n : Nat) : circuit.passed ins performed n = writes ins n := by
  have hmay := fun n => (h n).step
  have haw := Circuit.passed_eq waiting (inv_state ins) hmay rfl
    (fun _ _ hm hi => aw_step hi hm) n
  have hw : circuit.passed ins w_taken n =
      circuit.passed ins (fun i s => (performed i s).map Prod.snd) n ++ [] :=
    Circuit.passed_eq (fun _ => []) (inv_state ins) hmay rfl
      (fun _ _ hm hi => by rw [w_step hi hm, List.append_nil, List.nil_append]) n
  rw [writes, haw, hw, List.append_nil, ← Circuit.passed_map, ← Circuit.passed_map, zip_fst_snd]

theorem operand_eq (addr : BitVec 32) (reg : AxilRegs → BitVec 32) (hreset : reg reset = 0)
    (hstep : ∀ i s, reg (AxilRegs.step i s) = reg_write i s addr (reg s)) (n : Nat) :
    reg (circuit.state ins n) = stored addr (writes ins n) := by
  rw [← performed_eq h]
  induction n with
  | zero => exact hreset
  | succ n ih =>
    rw [Circuit.passed_succ, Circuit.state_succ, circuit_step, hstep, ih, stored_append, reg_write,
      performed]
    split <;> rename_i hst
    · rw [Bool.and_eq_true_iff, decide_eq_true_iff, decide_eq_true_iff] at hst
      simp [hst]
    · by_cases hwrite : next_state (ins n) (circuit.state ins n) = .WRITE
      · have haddr : (circuit.state ins n).write_addr ≠ addr := by simpa [hwrite] using hst
        simp [hwrite, haddr]
      · simp [hwrite]

theorem starts_eq (n : Nat) : circuit.passed ins pulsed (n + 1) = (writes ins n).map starts := by
  rw [← performed_eq h]
  induction n with
  | zero => rfl
  | succ n ih =>
    rw [Circuit.passed_succ, ih, Circuit.passed_succ, List.map_append]
    have hinv := inv_state ins n
    have hnext : (circuit.state ins (n + 1)).current_state =
      next_state (ins n) (circuit.state ins n) := rfl
    unfold pulsed performed
    rw [hnext]
    split
    case isFalse => rfl
    case isTrue hwrite =>
      have hkept : (circuit.state ins (n + 1)).write_addr = (circuit.state ins n).write_addr :=
        write_addr_kept hinv (h n).step hwrite
      have hbit := (h n).bit (hnext.trans hwrite)
      rw [hkept] at hbit
      unfold start_nxt starts
      rw [hkept, hnext, hwrite]
      by_cases haddr : (circuit.state ins n).write_addr = ADDR_CONTROL_STATUS
      · rw [hbit haddr]
        simp [haddr]
      · simp [haddr]

/-- The block serves a master that gives each address before its data. -/
theorem serves : Serves ins where
  performed := performed_eq h
  operand_a := operand_eq h _ _ rfl fun _ _ => rfl
  operand_b := operand_eq h _ _ rfl fun _ _ => rfl
  starts := starts_eq h
  b := by
    intro n
    have howed := Circuit.passed_length_eq owed (inv_state ins) (fun n => (h n).step) rfl
      (fun _ _ _ hi => owed_step hi) n
    have hb := b_step (i := ins n) (inv_state ins n)
    rw [← performed_eq h, howed, Circuit.passed_succ, List.length_append, hb, Nat.add_assoc]
    rfl
  b_held := by
    intro n hv hready
    have hinv := inv_state ins n
    have hresp : (circuit.state ins n).current_state = .WRITE_RESP := by
      simpa [hinv.bvalid] using hv
    have hnext : next_state (ins n) (circuit.state ins n) = .WRITE_RESP :=
      next_state_resp.mpr (.inr ⟨hresp, by simp [bresp_handshake, hready]⟩)
    exact ⟨decide_eq_true hnext, rfl⟩
  r := Circuit.passed_eq (fun s => shown s.rvalid s.rdata) (inv_state ins) (fun n => (h n).step) rfl
    fun _ _ hm hi => r_step hi hm
  r_held := by
    intro n hv hready
    have hinv := inv_state ins n
    have hread : (circuit.state ins n).current_state = .READ := by simpa [hinv.rvalid] using hv
    have hnext : next_state (ins n) (circuit.state ins n) = .READ := by
      simp [next_state, hread, data_rd_handshake, hready]
    have hno : addr_rd_handshake (ins n) (circuit.state ins n) = false := by
      simp [addr_rd_handshake, hinv.arready, hread]
    refine ⟨decide_eq_true hnext, ?_⟩
    change (if addr_rd_handshake (ins n) (circuit.state ins n) then _ else _) = _
    rw [hno]
    rfl

omit h

/-- Operand B is written, its address one cycle before its data, and read. -/
def write_then_read (n : Nat) : AxilIn where
  awvalid := n = 0
  awaddr := ADDR_OPERAND_B
  wvalid := n = 1
  wdata := 7
  bready := true
  arvalid := n = 4
  araddr := ADDR_OPERAND_B
  rready := true

theorem write_then_read_serves : (∀ n, May write_then_read n) ∧ Serves write_then_read ∧
    circuit.passed write_then_read r_sent 6 = [7] := by
  have hmay : ∀ n, May write_then_read n := by
    intro n
    refine ⟨⟨?_, ?_, ?_⟩, fun _ _ => rfl⟩
    · intro hidle hw
      have hn : n = 1 := by simpa [write_then_read] using hw
      subst hn
      cases hidle
    · intro hwait
      rcases n with _ | n
      · cases hwait
      · rfl
    · intro _ haw
      have hn : n = 0 := by simpa [write_then_read] using haw
      subst hn
      rfl
  exact ⟨hmay, serves hmay, by decide⟩

/-- Operand B is written, its address together with its data. -/
def write_together (n : Nat) : AxilIn where
  awvalid := n = 0
  awaddr := ADDR_OPERAND_B
  wvalid := n = 0
  wdata := 7
  bready := true
  arvalid := false
  araddr := 0
  rready := true

/-- The write takes effect at the address of the write before it. -/
theorem not_serves : ¬ ∀ ins, Legal ins → Serves ins := by
  intro hall
  have hlegal : Legal write_together := by
    constructor
    · intro n hv hready
      have hn : n = 0 := by simpa [write_together] using hv
      subst hn
      cases hready
    · intro n hv hready
      have hn : n = 0 := by simpa [write_together] using hv
      subst hn
      cases hready
    · intro n hv
      cases hv
  have hone := (hall _ hlegal).performed 1
  revert hone
  decide

end AxilRegs

end AwsFpga.Rtl
