import Mathlib.Tactic.IntervalCases
import AwsFpga.Lib.Axi

/-!
# The OCL registers (`cl_cva6_linux.sv`)

The host reaches the control registers and the UART over AXI-Lite. One state
machine serves writes and reads. It latches the address of a write that waits for
its data, but not the data of a write that waits for its address.
-/

open Lib Lib.Axi

namespace AwsFpga.Rtl

inductive AxilState where
  | IDLE
  | WRITE_WAIT
  | WRITE
  | WRITE_RESP
  | READ
  deriving DecidableEq

structure OclIn where
  awvalid : Bool
  awaddr : BitVec 32
  wvalid : Bool
  wdata : BitVec 32
  bready : Bool
  arvalid : Bool
  araddr : BitVec 32
  rready : Bool
  cpu_hbm_grant : Bool
  hbm_ready : Bool
  /-- The read side of `i_uart_fifo`. -/
  uart_fifo_empty : Bool
  uart_rx_data : BitVec 8
  uart_rd_count : BitVec 10

/-- The registers that a write can change. -/
structure HostRegs where
  cpu_run : Bool
  mem_addr : BitVec 32
  mem_wdata : BitVec 32
  host_we_level : Bool
  deriving DecidableEq

structure OclRegs where
  current_state : AxilState
  write_addr : BitVec 32
  host : HostRegs
  host_req_pulse : Bool
  uart_rx_pop : Bool
  bvalid : Bool
  rvalid : Bool
  rdata : BitVec 32
  deriving DecidableEq

namespace OclRegs

def REG_CTRL : BitVec 8 := 0x00
def REG_STATUS : BitVec 8 := 0x04
def REG_UART_RX : BitVec 8 := 0x08
def REG_MAGIC : BitVec 8 := 0x0C
def REG_MEM_ADDR : BitVec 8 := 0x10
def REG_MEM_WDATA : BitVec 8 := 0x14
def REG_MEM_RDATA : BitVec 8 := 0x18
def REG_MEM_CMD : BitVec 8 := 0x1C

def MAGIC_VALUE : BitVec 32 := 0xC6A66401
def INVALID_ADDR_RESP : BitVec 32 := 0xDEADBEEF

/-- The register of an address: its low byte. -/
def reg (addr : BitVec 32) : BitVec 8 := addr.setWidth 8

variable (i : OclIn) (s : OclRegs)

/-! ## The wires -/

def awready : Bool := s.current_state = .IDLE || s.current_state = .WRITE_WAIT
def wready : Bool := s.current_state = .IDLE || s.current_state = .WRITE_WAIT
def arready : Bool := s.current_state = .IDLE

def addr_wr_hs : Bool := i.awvalid && s.awready
def data_wr_hs : Bool := i.wvalid && s.wready
def bresp_hs : Bool := s.bvalid && i.bready
def addr_rd_hs : Bool := i.arvalid && s.arready
def data_rd_hs : Bool := s.rvalid && i.rready

def next_state : AxilState :=
  match s.current_state with
  | .IDLE =>
    if addr_wr_hs i s && data_wr_hs i s then .WRITE
    else if addr_wr_hs i s || data_wr_hs i s then .WRITE_WAIT
    else if addr_rd_hs i s then .READ
    else .IDLE
  | .WRITE_WAIT => if addr_wr_hs i s || data_wr_hs i s then .WRITE else .WRITE_WAIT
  | .WRITE => .WRITE_RESP
  | .WRITE_RESP => if bresp_hs i s then .IDLE else .WRITE_RESP
  | .READ => if data_rd_hs i s then .IDLE else .READ

def uart_rx_valid : Bool := !i.uart_fifo_empty
def uart_count : BitVec 8 := i.uart_rd_count.setWidth 8

/-! ## The registers -/

/-- The address and the data that a write uses. -/
def used_addr : BitVec 32 := if addr_wr_hs i s then i.awaddr else s.write_addr

def write_reg (host : HostRegs) (addr wdata : BitVec 32) : HostRegs :=
  if reg addr = REG_CTRL then { host with cpu_run := wdata.getLsbD 0 }
  else if reg addr = REG_MEM_ADDR then { host with mem_addr := wdata }
  else if reg addr = REG_MEM_WDATA then { host with mem_wdata := wdata }
  else if reg addr = REG_MEM_CMD then { host with host_we_level := wdata.getLsbD 0 }
  else host

def status : BitVec 32 :=
  (0 : BitVec 14) ++ BitVec.ofBool i.cpu_hbm_grant ++ BitVec.ofBool i.hbm_ready ++ uart_count i ++
    (0 : BitVec 7) ++ BitVec.ofBool (uart_rx_valid i)

def read_reg (addr : BitVec 32) : BitVec 32 :=
  if reg addr = REG_CTRL then (0 : BitVec 31) ++ BitVec.ofBool s.host.cpu_run
  else if reg addr = REG_STATUS then status i
  else if reg addr = REG_UART_RX then (0 : BitVec 24) ++ i.uart_rx_data
  else if reg addr = REG_MAGIC then MAGIC_VALUE
  else if reg addr = REG_MEM_ADDR then s.host.mem_addr
  else if reg addr = REG_MEM_WDATA then s.host.mem_wdata
  else if reg addr = REG_MEM_RDATA then 0
  else INVALID_ADDR_RESP

def step : OclRegs where
  current_state := next_state i s
  write_addr := if addr_wr_hs i s then i.awaddr else s.write_addr
  host := if next_state i s = .WRITE then write_reg s.host (used_addr i s) i.wdata else s.host
  host_req_pulse := next_state i s = .WRITE && reg (used_addr i s) = REG_MEM_CMD
  uart_rx_pop := addr_rd_hs i s && reg i.araddr = REG_UART_RX && uart_rx_valid i
  bvalid := next_state i s = .WRITE_RESP
  rvalid := if addr_rd_hs i s then true else if data_rd_hs i s then false else s.rvalid
  rdata := if addr_rd_hs i s then read_reg i s i.araddr else s.rdata

def reset : OclRegs where
  current_state := .IDLE
  write_addr := 0
  host := ⟨false, 0, 0, false⟩
  host_req_pulse := false
  uart_rx_pop := false
  bvalid := false
  rvalid := false
  rdata := 0

def circuit : Circuit OclIn OclRegs := ⟨reset, step⟩

/-! ## The channels -/

def aw_accepted : List (BitVec 32) := fire i.awvalid s.awready i.awaddr

def w_accepted : List (BitVec 32) := fire i.wvalid s.wready i.wdata

/-- The writes that change the registers, each with its address and its data. -/
def applied : List (BitVec 32 × BitVec 32) :=
  if next_state i s = .WRITE then [(used_addr i s, i.wdata)] else []

def b_delivered : List Unit := fire s.bvalid i.bready ()

/-- A read, and the byte that it takes from the UART. -/
structure Read where
  addr : BitVec 32
  value : BitVec 32
  byte : Option (BitVec 8)
  deriving DecidableEq

def ar_accepted : List Read :=
  fire i.arvalid s.arready
    ⟨i.araddr, read_reg i s i.araddr,
      if reg i.araddr = REG_UART_RX && uart_rx_valid i then some i.uart_rx_data else none⟩

def r_delivered : List (BitVec 32) := fire s.rvalid i.rready s.rdata

/-- The bytes that leave the FIFO: its `rd_en` is `uart_rx_pop`. -/
def uart_left : List (BitVec 8) := fire (uart_rx_valid i) s.uart_rx_pop i.uart_rx_data

/-! ## A write that waits for its other half -/

inductive Waiting where
  | no
  | for_data (addr : BitVec 32)
  | for_addr (data : BitVec 32)
  deriving DecidableEq

namespace Waiting

def addrs : Waiting → List (BitVec 32)
  | for_data addr => [addr]
  | _ => []

def data : Waiting → List (BitVec 32)
  | for_addr data => [data]
  | _ => []

def next (g : Waiting) : Waiting :=
  if next_state i s = .WRITE_WAIT then
    (if addr_wr_hs i s then .for_data i.awaddr
    else if data_wr_hs i s then .for_addr i.wdata
    else g)
  else .no

end Waiting

variable (ins : Nat → OclIn)

def waiting : Nat → Waiting
  | 0 => .no
  | n + 1 => (waiting n).next (ins n) (circuit.state ins n)

/-- What the host owes. -/
structure Compliant : Prop where
  aw : Held (fun n => (ins n).awvalid) (fun n => (circuit.state ins n).awready)
    fun n => (ins n).awaddr
  w : Held (fun n => (ins n).wvalid) (fun n => (circuit.state ins n).wready) fun n => (ins n).wdata
  ar : Held (fun n => (ins n).arvalid) (fun n => (circuit.state ins n).arready)
    fun n => (ins n).araddr

/-- A first-word-fall-through FIFO shows its first byte until it is read. -/
def UartFifo : Prop :=
  Held (fun n => uart_rx_valid (ins n)) (fun n => (circuit.state ins n).uart_rx_pop)
    fun n => (ins n).uart_rx_data

/-- What the registers owe to the host. -/
structure Served : Prop where
  /-- The writes pair the addresses with the data, and one half at most waits for the other. -/
  aw : ∀ n, circuit.passed ins aw_accepted n =
    (circuit.passed ins applied n).map Prod.fst ++ (waiting ins n).addrs
  w : ∀ n, circuit.passed ins w_accepted n =
    (circuit.passed ins applied n).map Prod.snd ++ (waiting ins n).data
  host : ∀ n, (circuit.state ins n).host =
    (circuit.passed ins applied n).foldl (fun host a => write_reg host a.1 a.2) reset.host
  /-- One response a write. The last one may be on its way. -/
  b : ∀ n, (circuit.passed ins applied n).length = (circuit.passed ins b_delivered n).length +
    if (circuit.state ins n).current_state = .WRITE ∨ (circuit.state ins n).bvalid then 1 else 0
  b_held : Held (fun n => (circuit.state ins n).bvalid) (fun n => (ins n).bready) fun _ => ()
  r : ∀ n, (circuit.passed ins ar_accepted n).map Read.value = circuit.passed ins r_delivered n ++
    shown (circuit.state ins n).rvalid (circuit.state ins n).rdata
  r_held : Held (fun n => (circuit.state ins n).rvalid) (fun n => (ins n).rready)
    fun n => (circuit.state ins n).rdata
  /-- The bytes that leave the FIFO are those of the reads, in order. -/
  uart : ∀ n, (circuit.passed ins ar_accepted n).filterMap Read.byte =
    circuit.passed ins uart_left n ++ shown (circuit.state ins n).uart_rx_pop (ins n).uart_rx_data

/-! ## What one cycle keeps -/

/-- Where the machine would mix two writes up, or lose a read. -/
structure May (g : Waiting) : Prop where
  /-- No second address comes while a write waits for its data. -/
  for_data : ∀ addr, g = .for_data addr → addr_wr_hs i s = false
  /-- No second data comes while a write waits for its address, and the data stays on the wires. -/
  for_addr : ∀ data, g = .for_addr data → data_wr_hs i s = false ∧ (addr_wr_hs i s → i.wdata = data)
  /-- A read that finds the last one still there comes when that one is taken. -/
  read : addr_rd_hs i s → s.rvalid → i.rready

structure Inv (g : Waiting) : Prop where
  waiting : s.current_state = .WRITE_WAIT ↔ g ≠ .no
  write_addr : ∀ addr, g = .for_data addr → s.write_addr = addr
  bvalid : s.bvalid = decide (s.current_state = .WRITE_RESP)
  pop : s.uart_rx_pop → s.current_state ≠ .IDLE

variable {i s} {g : Waiting}

theorem inv_reset : Inv circuit.reset .no :=
  ⟨by decide, by simp, by decide, by decide⟩

theorem aw_accepted_eq : aw_accepted i s = if addr_wr_hs i s then [i.awaddr] else [] := rfl

theorem w_accepted_eq : w_accepted i s = if data_wr_hs i s then [i.wdata] else [] := rfl

theorem closed (hidle : s.current_state ≠ .IDLE) (hwait : s.current_state ≠ .WRITE_WAIT) :
    addr_wr_hs i s = false ∧ data_wr_hs i s = false ∧ next_state i s ≠ .WRITE ∧
      next_state i s ≠ .WRITE_WAIT := by
  unfold addr_wr_hs data_wr_hs awready wready next_state
  cases hstate : s.current_state <;> simp_all
  all_goals split <;> simp

theorem idle_write_step (hidle : s.current_state = .IDLE) :
    aw_accepted i s = (applied i s).map Prod.fst ++ (Waiting.no.next i s).addrs ∧
      w_accepted i s = (applied i s).map Prod.snd ++ (Waiting.no.next i s).data := by
  rw [aw_accepted_eq, w_accepted_eq]
  unfold applied Waiting.next next_state used_addr
  rw [hidle]
  cases addr_wr_hs i s <;> cases data_wr_hs i s <;> cases addr_rd_hs i s <;>
    simp [Waiting.addrs, Waiting.data]

theorem wait_write_step (h : Inv s g) (hmay : May i s g) (hwait : s.current_state = .WRITE_WAIT) :
    g.addrs ++ aw_accepted i s = (applied i s).map Prod.fst ++ (g.next i s).addrs ∧
      g.data ++ w_accepted i s = (applied i s).map Prod.snd ++ (g.next i s).data := by
  have hg := h.waiting.mp hwait
  rw [aw_accepted_eq, w_accepted_eq]
  unfold applied Waiting.next next_state used_addr
  rw [hwait]
  cases g with
  | no => exact absurd rfl hg
  | for_data addr =>
    rw [hmay.for_data addr rfl, h.write_addr addr rfl]
    cases data_wr_hs i s <;> simp [Waiting.addrs, Waiting.data]
  | for_addr data =>
    obtain ⟨hdata, hsame⟩ := hmay.for_addr data rfl
    rw [hdata]
    cases haddr : addr_wr_hs i s with
    | false => simp [Waiting.addrs, Waiting.data]
    | true => simp [Waiting.addrs, Waiting.data, hsame haddr]

theorem write_step (h : Inv s g) (hmay : May i s g) :
    g.addrs ++ aw_accepted i s = (applied i s).map Prod.fst ++ (g.next i s).addrs ∧
      g.data ++ w_accepted i s = (applied i s).map Prod.snd ++ (g.next i s).data := by
  by_cases hwait : s.current_state = .WRITE_WAIT
  · exact wait_write_step h hmay hwait
  · have hg : g = .no := by
      by_contra hne
      exact hwait (h.waiting.mpr hne)
    rw [hg]
    by_cases hidle : s.current_state = .IDLE
    · exact idle_write_step hidle
    · obtain ⟨haddr, hdata, hwrite, hnext⟩ := closed (i := i) hidle hwait
      rw [aw_accepted_eq, w_accepted_eq, haddr, hdata]
      simp [applied, Waiting.next, hwrite, hnext, Waiting.addrs, Waiting.data]

theorem wait_of_next (hnext : next_state i s = .WRITE_WAIT) (haddr : addr_wr_hs i s = false)
    (hdata : data_wr_hs i s = false) : s.current_state = .WRITE_WAIT := by
  unfold next_state at hnext
  rw [haddr, hdata] at hnext
  cases hstate : s.current_state with
  | WRITE_WAIT => rfl
  | WRITE =>
    rw [hstate] at hnext
    cases hnext
  | IDLE | WRITE_RESP | READ =>
    rw [hstate] at hnext
    simp only [Bool.and_self, Bool.or_self, Bool.false_eq_true, if_false] at hnext
    split at hnext <;> cases hnext

theorem idle_of_read (hread : addr_rd_hs i s) : s.current_state = .IDLE := by
  simp only [addr_rd_hs, arready, Bool.and_eq_true, decide_eq_true_eq] at hread
  exact hread.2

theorem not_idle_of_read (hread : addr_rd_hs i s) : next_state i s ≠ .IDLE := by
  unfold next_state
  rw [idle_of_read hread]
  dsimp only
  rw [if_pos hread]
  split
  · simp
  · split <;> simp

theorem inv_step (h : Inv s g) : Inv (step i s) (g.next i s) where
  waiting := by
    change next_state i s = .WRITE_WAIT ↔ _
    unfold Waiting.next
    by_cases hnext : next_state i s = .WRITE_WAIT
    · rw [if_pos hnext]
      refine ⟨fun _ => ?_, fun _ => hnext⟩
      split
      · simp
      · split
        · simp
        next haddr hdata =>
          exact h.waiting.mp
            (wait_of_next hnext (Bool.eq_false_of_not_eq_true haddr) (Bool.eq_false_of_not_eq_true hdata))
    · rw [if_neg hnext]
      simp [hnext]
  write_addr addr hg := by
    change (if addr_wr_hs i s then i.awaddr else s.write_addr) = addr
    unfold Waiting.next at hg
    split at hg
    · split at hg
      next haddr =>
        rw [if_pos haddr]
        exact Waiting.for_data.inj hg
      next haddr =>
        rw [if_neg haddr]
        split at hg
        · cases hg
        · exact h.write_addr addr hg
    · cases hg
  bvalid := rfl
  pop hpop := by
    simp only [step, Bool.and_eq_true] at hpop
    exact not_idle_of_read hpop.1.1

theorem b_step (h : Inv s g) :
    (applied i s).length + (if s.current_state = .WRITE ∨ s.bvalid then 1 else 0) =
      (b_delivered i s).length +
        if (step i s).current_state = .WRITE ∨ (step i s).bvalid then 1 else 0 := by
  have hb : b_delivered i s = if bresp_hs i s then [()] else [] := rfl
  have hnext : (step i s).current_state = next_state i s := rfl
  have hbvalid : (step i s).bvalid = decide (next_state i s = .WRITE_RESP) := rfl
  have hresp : bresp_hs i s = (decide (s.current_state = .WRITE_RESP) && i.bready) := by
    rw [bresp_hs, h.bvalid]
  rw [hb, hnext, hbvalid, h.bvalid]
  unfold applied next_state
  cases hstate : s.current_state with
  | IDLE =>
    cases addr_wr_hs i s <;> cases data_wr_hs i s <;> cases addr_rd_hs i s <;> simp [hresp, hstate]
  | WRITE_WAIT => cases addr_wr_hs i s <;> cases data_wr_hs i s <;> simp [hresp, hstate]
  | WRITE => simp [hresp, hstate]
  | WRITE_RESP => cases hready : i.bready <;> simp [hresp, hstate, hready]
  | READ => cases data_rd_hs i s <;> simp [hresp, hstate]

theorem r_step (hmay : addr_rd_hs i s → s.rvalid → i.rready) :
    shown s.rvalid s.rdata ++ (ar_accepted i s).map Read.value =
      r_delivered i s ++ shown (step i s).rvalid (step i s).rdata := by
  have har : (ar_accepted i s).map Read.value =
      if addr_rd_hs i s then [read_reg i s i.araddr] else [] := by
    unfold ar_accepted fire
    change (if addr_rd_hs i s then _ else _ : List Read).map Read.value = _
    split <;> rfl
  have hvalid : (step i s).rvalid =
      if addr_rd_hs i s then true else if data_rd_hs i s then false else s.rvalid := rfl
  have hdata : (step i s).rdata = if addr_rd_hs i s then read_reg i s i.araddr else s.rdata := rfl
  have hr : r_delivered i s = if data_rd_hs i s then [s.rdata] else [] := rfl
  rw [har, hvalid, hdata, hr]
  unfold data_rd_hs
  cases hread : addr_rd_hs i s <;> cases hrvalid : s.rvalid <;> cases hrready : i.rready <;>
    simp_all

theorem uart_step (h : Inv s g) (hpop : s.uart_rx_pop → uart_rx_valid i) {data : BitVec 8}
    (hheld : uart_rx_valid i → s.uart_rx_pop = false → data = i.uart_rx_data) :
    shown s.uart_rx_pop i.uart_rx_data ++ (ar_accepted i s).filterMap Read.byte =
      uart_left i s ++ shown (step i s).uart_rx_pop data := by
  have hnext : (step i s).uart_rx_pop =
      (addr_rd_hs i s && reg i.araddr = REG_UART_RX && uart_rx_valid i) := rfl
  have har : (ar_accepted i s).filterMap Read.byte =
      if addr_rd_hs i s && reg i.araddr = REG_UART_RX && uart_rx_valid i then [i.uart_rx_data]
      else [] := by
    unfold ar_accepted fire
    change (if addr_rd_hs i s then _ else _ : List Read).filterMap Read.byte = _
    cases addr_rd_hs i s with
    | false => simp
    | true => cases hbyte : decide (reg i.araddr = REG_UART_RX) && uart_rx_valid i <;> simp [hbyte]
  rw [har, hnext]
  unfold uart_left
  cases hnow : s.uart_rx_pop with
  | true =>
    have hread : addr_rd_hs i s = false := by
      simp [addr_rd_hs, arready, h.pop hnow]
    simp [hpop hnow, hread]
  | false =>
    cases hvalid : uart_rx_valid i with
    | false => simp
    | true =>
      rw [hheld hvalid hnow]
      simp [shown]

/-! ## Whole runs -/

variable {ins : Nat → OclIn}

variable (ins) in
theorem inv_state (n : Nat) : Inv (circuit.state ins n) (waiting ins n) := by
  induction n with
  | zero => exact inv_reset
  | succ n ih => exact inv_step ih

theorem write_state (hmay : ∀ n, May (ins n) (circuit.state ins n) (waiting ins n)) (n : Nat) :
    circuit.passed ins aw_accepted n =
        (circuit.passed ins applied n).map Prod.fst ++ (waiting ins n).addrs ∧
      circuit.passed ins w_accepted n =
        (circuit.passed ins applied n).map Prod.snd ++ (waiting ins n).data := by
  induction n with
  | zero => exact ⟨rfl, rfl⟩
  | succ n ih =>
    obtain ⟨haddr, hdata⟩ := write_step (inv_state ins n) (hmay n)
    constructor
    · rw [Circuit.passed_succ, Circuit.passed_succ, ih.1, List.append_assoc, haddr, List.map_append,
        List.append_assoc]
      rfl
    · rw [Circuit.passed_succ, Circuit.passed_succ, ih.2, List.append_assoc, hdata, List.map_append,
        List.append_assoc]
      rfl

theorem host_state (n : Nat) : (circuit.state ins n).host =
    (circuit.passed ins applied n).foldl (fun host a => write_reg host a.1 a.2) reset.host := by
  induction n with
  | zero => rfl
  | succ n ih =>
    rw [Circuit.passed_succ, List.foldl_append, ← ih]
    change (if next_state (ins n) _ = .WRITE then _ else _) = _
    unfold applied
    split <;> rfl

theorem b_state (n : Nat) : (circuit.passed ins applied n).length =
    (circuit.passed ins b_delivered n).length +
      if (circuit.state ins n).current_state = .WRITE ∨ (circuit.state ins n).bvalid then 1 else 0 := by
  induction n with
  | zero => rfl
  | succ n ih =>
    have hstep := b_step (i := ins n) (inv_state ins n)
    rw [Circuit.passed_succ, Circuit.passed_succ, List.length_append, List.length_append, ih,
      Circuit.state_succ]
    change _ = _ + if (step _ _).current_state = .WRITE ∨ (step _ _).bvalid then 1 else 0
    omega

theorem pop_valid (huart : UartFifo ins) (n : Nat) (hpop : (circuit.state ins n).uart_rx_pop) :
    uart_rx_valid (ins n) := by
  cases n with
  | zero => cases hpop
  | succ n =>
    change (step (ins n) (circuit.state ins n)).uart_rx_pop = true at hpop
    simp only [step, Bool.and_eq_true] at hpop
    have hidle := idle_of_read hpop.1.1
    have hnot : (circuit.state ins n).uart_rx_pop = false := by
      by_contra hne
      exact (inv_state ins n).pop (Bool.not_eq_false _ ▸ hne) hidle
    exact (huart n hpop.2 hnot).1

theorem uart_state (huart : UartFifo ins) (n : Nat) :
    (circuit.passed ins ar_accepted n).filterMap Read.byte =
      circuit.passed ins uart_left n ++
        shown (circuit.state ins n).uart_rx_pop (ins n).uart_rx_data := by
  induction n with
  | zero => rfl
  | succ n ih =>
    have hstep := uart_step (inv_state ins n) (pop_valid huart n)
      fun hvalid hnot => (huart n hvalid hnot).2
    rw [Circuit.passed_succ, Circuit.passed_succ, List.filterMap_append, ih, List.append_assoc, hstep,
      List.append_assoc]
    rfl

/-- As long as one half of a write waits alone, and a read waits for the last one to be taken. -/
theorem served_of_may (ins : Nat → OclIn) (huart : UartFifo ins)
    (hmay : ∀ n, May (ins n) (circuit.state ins n) (waiting ins n)) : Served ins where
  aw n := (write_state hmay n).1
  w n := (write_state hmay n).2
  host := host_state
  b := b_state
  b_held n hvalid hready := by
    have hresp := (inv_state ins n).bvalid
    dsimp only at hvalid hready ⊢
    rw [hvalid, eq_comm, decide_eq_true_eq] at hresp
    have hnot : bresp_hs (ins n) (circuit.state ins n) = false := by
      simp [bresp_hs, hready]
    refine ⟨?_, rfl⟩
    change decide (next_state (ins n) (circuit.state ins n) = .WRITE_RESP) = true
    simp [next_state, hresp, hnot]
  r n := by
    rw [Circuit.passed_map]
    exact Circuit.passed_eq (P := fun _ => True) (m := fun i s => addr_rd_hs i s → s.rvalid → i.rready)
      (fun s => shown s.rvalid s.rdata) (fun _ => trivial) (fun n => (hmay n).read) rfl
      (fun _ _ hread _ => r_step hread) n
  r_held n hvalid hready := by
    have hread : addr_rd_hs (ins n) (circuit.state ins n) = false := by
      by_contra hne
      exact absurd ((hmay n).read (Bool.not_eq_false _ ▸ hne) hvalid) (by simp [hready])
    have hnot : data_rd_hs (ins n) (circuit.state ins n) = false := by
      simp only at hready
      simp [data_rd_hs, hready]
    have hstay : (step (ins n) (circuit.state ins n)).rvalid = (circuit.state ins n).rvalid ∧
        (step (ins n) (circuit.state ins n)).rdata = (circuit.state ins n).rdata := by
      simp [step, hread, hnot]
    exact ⟨hstay.1.trans hvalid, hstay.2⟩
  uart := uart_state huart

/-- The host sets `mem_addr`, the data two cycles after the address, and then reads the UART. -/
def write_then_uart (n : Nat) : OclIn where
  awvalid := n = 0
  awaddr := 0x10
  wvalid := n = 2
  wdata := 0x1234
  bready := true
  arvalid := n = 6
  araddr := 0x08
  rready := true
  cpu_hbm_grant := false
  hbm_ready := true
  uart_fifo_empty := 8 ≤ n
  uart_rx_data := 0x41
  uart_rd_count := 1

theorem write_then_uart_fifo : UartFifo write_then_uart := by
  intro n hvalid hnot
  have hlt : n < 8 := by simpa [uart_rx_valid, write_then_uart] using hvalid
  have hne : n ≠ 7 := by
    rintro rfl
    exact absurd hnot (by decide)
  refine ⟨?_, rfl⟩
  simp [uart_rx_valid, write_then_uart]
  omega

theorem write_then_uart_may (n : Nat) :
    May (write_then_uart n) (circuit.state write_then_uart n) (waiting write_then_uart n) where
  for_data addr hg := by
    have hne : n ≠ 0 := by
      rintro rfl
      cases hg
    simp [addr_wr_hs, write_then_uart, hne]
  for_addr data hg := by
    have hne : n ≠ 0 := by
      rintro rfl
      cases hg
    have hne' : n ≠ 2 := by
      rintro rfl
      have hwait : waiting write_then_uart 2 = .for_data 0x10 := by decide
      rw [hwait] at hg
      cases hg
    simp [addr_wr_hs, data_wr_hs, write_then_uart, hne, hne']
  read _ _ := rfl

theorem served_write_then_uart : Served write_then_uart ∧
    circuit.passed write_then_uart applied 8 = [(0x10, 0x1234)] ∧
    circuit.passed write_then_uart r_delivered 8 = [0x41] :=
  ⟨served_of_may write_then_uart write_then_uart_fifo write_then_uart_may, by decide,
    by decide⟩

/-- The data comes before its address, and does not stay on the wires. -/
def data_first (n : Nat) : OclIn where
  awvalid := n = 1
  awaddr := 0x10
  wvalid := n = 0
  wdata := if n = 0 then 0x1234 else 0
  bready := true
  arvalid := false
  araddr := 0
  rready := true
  cpu_hbm_grant := false
  hbm_ready := true
  uart_fifo_empty := true
  uart_rx_data := 0
  uart_rd_count := 0

theorem data_first_compliant : Compliant data_first where
  aw n hvalid hready := by
    obtain rfl : n = 1 := by simpa [data_first] using hvalid
    exact absurd hready (by decide)
  w n hvalid hready := by
    obtain rfl : n = 0 := by simpa [data_first] using hvalid
    exact absurd hready (by decide)
  ar n hvalid hready := by simp [data_first] at hvalid

theorem not_served : ¬ ∀ ins, Compliant ins → UartFifo ins → Served ins := by
  intro h
  have huart : UartFifo data_first := by
    intro n hvalid
    simp [uart_rx_valid, data_first] at hvalid
  have hdata := (h data_first data_first_compliant huart).w 2
  exact absurd hdata (by decide)

end OclRegs

end AwsFpga.Rtl
