import Mathlib.Tactic.IntervalCases
import AwsFpga.Lib.Axi

/-!
# The UART of the CPU (`host_uart.sv`, and its FIFO in `cl_cva6_linux.sv`)

A byte written to `THR` is held in one register until the FIFO takes it. `IIR` tells
the driver that there is a FIFO behind `THR`.
-/

open Lib Lib.Axi

namespace AwsFpga.Rtl

/-- The APB port, and the write side of `i_uart_fifo`. -/
structure UartIn where
  psel : Bool
  penable : Bool
  pwrite : Bool
  paddr : BitVec 32
  pwdata : BitVec 32
  uart_fifo_full : Bool
  uart_wr_rst_busy : Bool

structure HostUart where
  lcr : BitVec 8
  dlm : BitVec 8
  dll : BitVec 8
  mcr : BitVec 8
  lsr : BitVec 8
  ier : BitVec 8
  msr : BitVec 8
  scr : BitVec 8
  fifo_enabled : Bool
  tx_valid : Bool
  tx_data : BitVec 8
  deriving DecidableEq

namespace HostUart

def THR : BitVec 32 := 0
def IER : BitVec 32 := 1
def IIR : BitVec 32 := 2
def FCR : BitVec 32 := 2
def LCR : BitVec 32 := 3
def MCR : BitVec 32 := 4
def LSR : BitVec 32 := 5
def MSR : BitVec 32 := 6
def SCR : BitVec 32 := 7

def THRE : Nat := 5
def TEMT : Nat := 6

variable (i : UartIn) (s : HostUart)

/-! ## The wires -/

/-- The register of an address. -/
def reg : BitVec 32 := (i.paddr >>> 2) &&& 7

def tx_ready : Bool := !i.uart_fifo_full && !i.uart_wr_rst_busy

/-- `PREADY` is always set, so each access takes one cycle. -/
def wr : Bool := i.psel && i.penable && i.pwrite

def rd : Bool := i.psel && i.penable && !i.pwrite

def lsr_rdata : BitVec 8 :=
  if tx_ready i && !s.tx_valid then s.lsr ||| BitVec.twoPow 8 THRE ||| BitVec.twoPow 8 TEMT
  else s.lsr

def irq : Bool := s.ier.getLsbD 1 && (lsr_rdata i s).getLsbD THRE

def prdata : BitVec 32 :=
  if rd i then
    (if reg i = THR then (if s.lcr.getLsbD 7 then s.dll.setWidth 32 else 0)
    else if reg i = IER then (if s.lcr.getLsbD 7 then s.dlm.setWidth 32 else s.ier.setWidth 32)
    else if reg i = IIR then
      (if irq i s then (if s.fifo_enabled then 0xC2 else 2)
      else (if s.fifo_enabled then 0xC1 else 1))
    else if reg i = LCR then s.lcr.setWidth 32
    else if reg i = MCR then s.mcr.setWidth 32
    else if reg i = LSR then (lsr_rdata i s).setWidth 32
    else if reg i = MSR then s.msr.setWidth 32
    else s.scr.setWidth 32)
  else 0

/-- A byte is written to `THR`. With `DLAB` set it would be the divisor. -/
def thr_wr : Bool := wr i && reg i = THR && !s.lcr.getLsbD 7

def pwdata_byte : BitVec 8 := i.pwdata.setWidth 8

/-! ## The registers -/

def step : HostUart where
  lcr := if wr i && reg i = LCR then pwdata_byte i else s.lcr
  dlm := if wr i && reg i = IER && s.lcr.getLsbD 7 then pwdata_byte i else s.dlm
  dll := if wr i && reg i = THR && s.lcr.getLsbD 7 then pwdata_byte i else s.dll
  mcr := if wr i && reg i = MCR then pwdata_byte i &&& 0x1F else s.mcr
  lsr := if wr i && reg i = LSR then pwdata_byte i else s.lsr
  ier := if wr i && reg i = IER && !s.lcr.getLsbD 7 then pwdata_byte i &&& 0x0F else s.ier
  msr := if wr i && reg i = MSR then pwdata_byte i else s.msr
  scr := if wr i && reg i = SCR then pwdata_byte i else s.scr
  fifo_enabled := if wr i && reg i = FCR then i.pwdata.getLsbD 0 else s.fifo_enabled
  -- A write comes after the handshake in the source, so it wins.
  tx_valid := if thr_wr i s then true else if s.tx_valid && tx_ready i then false else s.tx_valid
  tx_data := if thr_wr i s then pwdata_byte i else s.tx_data

def reset : HostUart where
  lcr := 0
  dlm := 0
  dll := 0
  mcr := 0
  lsr := 0
  ier := 0
  msr := 0
  scr := 0
  fifo_enabled := false
  tx_valid := false
  tx_data := 0

def circuit : Circuit UartIn HostUart := ⟨reset, step⟩

/-! ## The channels -/

/-- The bytes that software writes. -/
def written : List (BitVec 8) := if thr_wr i s then [pwdata_byte i] else []

/-- The bytes that leave on the tx interface. -/
def delivered : List (BitVec 8) := fire s.tx_valid (tx_ready i) s.tx_data

/-- What the FIFO takes: it ignores `wr_en` while it is full or in reset. -/
def captured : List (BitVec 8) :=
  if s.tx_valid && !i.uart_fifo_full && !i.uart_wr_rst_busy then [s.tx_data] else []

/-! ## What software may write -/

variable (ins : Nat → UartIn)

/-- The bytes that software may write after what it reads in this cycle: `depth` when it finds the
transmitter empty and a FIFO, 1 when it finds it empty and none. -/
def grant (depth : Nat) : Option Nat :=
  if rd i && reg i = LSR && (prdata i s).getLsbD THRE then some (if s.fifo_enabled then depth else 1)
  else if rd i && reg i = IIR && prdata i s = 0xC2 then some depth
  else if rd i && reg i = IIR && prdata i s = 2 then some 1
  else none

/-- The bytes that software may still write before it looks again. -/
def credit (depth : Nat) : Nat → Nat
  | 0 => 0
  | n + 1 =>
    match grant (ins n) (circuit.state ins n) depth with
    | some granted => granted
    | none => if thr_wr (ins n) (circuit.state ins n) then credit depth n - 1 else credit depth n

/-- Software for a transmitter of `depth` bytes: 16 in a 16550. -/
structure Follows (depth : Nat) : Prop where
  /-- The access phase of a transfer comes after its setup phase. -/
  apb : ∀ n, (ins n).psel → (ins n).penable → ∃ k, n = k + 1 ∧ (ins k).psel ∧ (ins k).penable = false
  /-- `LSR` is for reading. -/
  lsr : ∀ n, wr (ins n) → reg (ins n) ≠ LSR
  thr : ∀ n, thr_wr (ins n) (circuit.state ins n) → 0 < credit ins depth n

/-- Each byte leaves once, in order, and goes into the FIFO. -/
structure Delivers : Prop where
  /-- What was written has left, or is held. -/
  kept : ∀ n, circuit.passed ins written n = circuit.passed ins delivered n ++
    shown (circuit.state ins n).tx_valid (circuit.state ins n).tx_data
  /-- Once the FIFO is ready, what was written before has left. -/
  leaves : ∀ n, tx_ready (ins n) →
    circuit.passed ins delivered (n + 1) = circuit.passed ins written n
  captured : ∀ n, circuit.passed ins captured n = circuit.passed ins delivered n

/-! ## When a byte is lost -/

/-- A byte is not written over one that the FIFO has not taken. -/
def May : Prop := thr_wr i s → s.tx_valid → tx_ready i

theorem captured_eq : captured i s = delivered i s := by
  unfold captured delivered fire tx_ready
  rw [Bool.and_assoc]

theorem kept_step (hmay : May i s) :
    shown s.tx_valid s.tx_data ++ written i s =
      delivered i s ++ shown (step i s).tx_valid (step i s).tx_data := by
  unfold May at hmay
  unfold written delivered step
  dsimp only
  cases hwr : thr_wr i s <;> cases hvalid : s.tx_valid <;> cases hready : tx_ready i
  all_goals simp_all [fire, shown]

theorem lost_step (hwr : thr_wr i s) (hready : tx_ready i = false) :
    written i s = [pwdata_byte i] ∧ delivered i s = [] ∧
      shown (step i s).tx_valid (step i s).tx_data = [pwdata_byte i] := by
  unfold written delivered step
  simp [hwr, hready]

theorem uart_kept_of_may (hmay : ∀ n, May (ins n) (circuit.state ins n)) (n : Nat) :
    circuit.passed ins written n = circuit.passed ins delivered n ++
      shown (circuit.state ins n).tx_valid (circuit.state ins n).tx_data :=
  Circuit.passed_eq (P := fun _ => True) (fun s => shown s.tx_valid s.tx_data) (fun _ => trivial)
    hmay rfl (fun i s h _ => kept_step i s h) n

theorem leaves_of_kept (n : Nat) (hready : tx_ready (ins n))
    (hkept : circuit.passed ins written n = circuit.passed ins delivered n ++
      shown (circuit.state ins n).tx_valid (circuit.state ins n).tx_data) :
    circuit.passed ins delivered (n + 1) = circuit.passed ins written n := by
  rw [Circuit.passed_succ, hkept]
  simp [delivered, fire, shown, hready]

theorem captured_state (n : Nat) :
    circuit.passed ins captured n = circuit.passed ins delivered n := by
  have heq : captured = delivered := funext fun i => funext fun s => captured_eq i s
  rw [heq]

/-- Every byte is delivered once and in order, exactly when none is written while the one before
it still waits for the FIFO. -/
theorem bytes_delivered_iff : Delivers ins ↔ ∀ n, May (ins n) (circuit.state ins n) := by
  constructor
  · intro hdelivers n hwr hvalid
    by_contra hready
    obtain ⟨hwritten, hdelivered, hshown⟩ :=
      lost_step _ _ hwr (Bool.eq_false_of_not_eq_true hready)
    have hnow := congrArg List.length (hdelivers.kept n)
    have hnext := congrArg List.length (hdelivers.kept (n + 1))
    have hstep : circuit.step = step := rfl
    rw [Circuit.passed_succ, Circuit.passed_succ, Circuit.state_succ, hwritten, hdelivered, hstep,
      hshown] at hnext
    simp only [shown, hvalid, if_true, List.length_append, List.length_cons, List.length_nil]
      at hnow hnext
    omega
  · intro hmay
    exact ⟨uart_kept_of_may ins hmay, fun n hready => leaves_of_kept ins n hready (uart_kept_of_may ins hmay n),
      captured_state ins⟩

/-! ## Software that looks before each byte -/

structure Polled (s : HostUart) (credit : Nat) : Prop where
  lsr : s.lsr = 0
  credit_le : credit ≤ 1
  empty : 0 < credit → s.tx_valid = false

theorem empty_of_thre (hlsr : s.lsr = 0) (hthre : (lsr_rdata i s).getLsbD THRE) :
    s.tx_valid = false := by
  unfold lsr_rdata at hthre
  split at hthre
  · simp_all
  · simp [hlsr] at hthre

theorem prdata_lsr (hrd : rd i) (hreg : reg i = LSR) :
    prdata i s = (lsr_rdata i s).setWidth 32 := by
  unfold prdata
  simp [hrd, hreg, THR, IER, IIR, LCR, MCR, LSR]

theorem prdata_iir (hrd : rd i) (hreg : reg i = IIR) (hirq : irq i s = false) :
    prdata i s = if s.fifo_enabled then 0xC1 else 1 := by
  unfold prdata
  simp [hrd, hreg, hirq, THR, IER, IIR]

theorem irq_of_iir (hrd : rd i) (hreg : reg i = IIR)
    (hvalue : prdata i s = 0xC2 ∨ prdata i s = 2) : irq i s := by
  by_contra hirq
  rw [prdata_iir i s hrd hreg (Bool.eq_false_of_not_eq_true hirq)] at hvalue
  cases hfifo : s.fifo_enabled <;> simp [hfifo] at hvalue

theorem empty_of_grant (hlsr : s.lsr = 0) {granted : Nat} (h : grant i s 1 = some granted) :
    rd i ∧ granted = 1 ∧ s.tx_valid = false := by
  unfold grant at h
  split at h
  case isTrue hcond =>
    simp only [Bool.and_eq_true, decide_eq_true_eq] at hcond
    obtain ⟨⟨hrd, hreg⟩, hbit⟩ := hcond
    rw [prdata_lsr i s hrd hreg] at hbit
    have hthre : (lsr_rdata i s).getLsbD THRE := by simpa [THRE] using hbit
    exact ⟨hrd, by simpa using h.symm, empty_of_thre i s hlsr hthre⟩
  split at h
  case isTrue hcond =>
    simp only [Bool.and_eq_true, decide_eq_true_eq] at hcond
    obtain ⟨⟨hrd, hreg⟩, hvalue⟩ := hcond
    have hirq := irq_of_iir i s hrd hreg (Or.inl hvalue)
    unfold irq at hirq
    rw [Bool.and_eq_true] at hirq
    exact ⟨hrd, (Option.some.inj h).symm, empty_of_thre i s hlsr hirq.2⟩
  split at h
  case isTrue hcond =>
    simp only [Bool.and_eq_true, decide_eq_true_eq] at hcond
    obtain ⟨⟨hrd, hreg⟩, hvalue⟩ := hcond
    have hirq := irq_of_iir i s hrd hreg (Or.inr hvalue)
    unfold irq at hirq
    rw [Bool.and_eq_true] at hirq
    exact ⟨hrd, (Option.some.inj h).symm, empty_of_thre i s hlsr hirq.2⟩
  case isFalse => contradiction

theorem not_wr_of_rd (hrd : rd i) : thr_wr i s = false := by
  unfold rd at hrd
  unfold thr_wr wr
  simp_all

theorem empty_step (hempty : s.tx_valid = false) (hwr : thr_wr i s = false) :
    (step i s).tx_valid = false := by
  unfold step
  simp [hwr, hempty]

theorem polled_state (h : Follows ins 1) (n : Nat) :
    Polled (circuit.state ins n) (credit ins 1 n) := by
  induction n with
  | zero => exact ⟨rfl, Nat.zero_le _, fun h => absurd h (Nat.lt_irrefl _)⟩
  | succ n ih =>
    have hlsr : (step (ins n) (circuit.state ins n)).lsr = 0 := by
      unfold step
      cases hwr : wr (ins n)
      · simp [ih.lsr]
      · simp [ih.lsr, h.lsr n hwr]
    rw [Circuit.state_succ]
    unfold credit
    split
    case h_1 granted hgrant =>
      obtain ⟨hrd, rfl, hempty⟩ := empty_of_grant _ _ ih.lsr hgrant
      exact ⟨hlsr, le_refl 1, fun _ => empty_step _ _ hempty (not_wr_of_rd _ _ hrd)⟩
    case h_2 =>
      have hle := ih.credit_le
      split
      case isTrue hwr => exact ⟨hlsr, by omega, fun hpos => absurd hpos (by omega)⟩
      case isFalse hwr =>
        refine ⟨hlsr, hle, fun hpos => empty_step _ _ (ih.empty hpos) ?_⟩
        exact Bool.eq_false_of_not_eq_true hwr

/-- A driver that writes one byte each time it finds the transmitter empty loses none. -/
theorem delivers_of_polled (h : Follows ins 1) : Delivers ins := by
  refine (bytes_delivered_iff ins).mpr fun n hwr hvalid => ?_
  have hempty := (polled_state ins h n).empty (h.thr n hwr)
  rw [hempty] at hvalid
  contradiction

/-! ## Two bytes after one look -/

/-- Software enables the FIFO and the interrupt, reads `IIR`, and writes two bytes. The FIFO is full
by then. -/
def two_bytes (n : Nat) : UartIn where
  psel := n < 10
  penable := n % 2 = 1
  pwrite := n / 2 ≠ 2
  paddr := if n / 2 = 0 ∨ n / 2 = 2 then 8 else if n / 2 = 1 then 4 else 0
  pwdata := if n / 2 = 0 then 1 else if n / 2 = 1 then 2 else if n / 2 = 3 then 0x41 else 0x42
  uart_fifo_full := 6 ≤ n
  uart_wr_rst_busy := false

theorem two_bytes_follows : Follows two_bytes 16 where
  apb n hsel henable := by
    have hlt : n < 10 := by simpa [two_bytes] using hsel
    have hodd : n % 2 = 1 := by simpa [two_bytes] using henable
    refine ⟨n - 1, by omega, ?_, ?_⟩
    · simp [two_bytes]
      omega
    · simp [two_bytes]
      omega
  lsr n hwr := by
    have hlt : n < 10 := by
      simp only [wr, two_bytes, Bool.and_eq_true, decide_eq_true_eq] at hwr
      exact hwr.1.1
    interval_cases n <;> decide
  thr n hwr := by
    have hlt : n < 10 := by
      simp only [thr_wr, wr, two_bytes, Bool.and_eq_true, decide_eq_true_eq] at hwr
      exact hwr.1.1.1.1
    have hcycle : n = 7 ∨ n = 9 := by
      interval_cases n <;> revert hwr <;> decide
    rcases hcycle with rfl | rfl <;> decide

/-- The second byte is written over the first. -/
theorem bytes_not_delivered : ¬ ∀ ins, Follows ins 16 → Delivers ins := by
  intro h
  have hkept := (h two_bytes two_bytes_follows).kept 10
  exact absurd hkept (by decide)

end HostUart

end AwsFpga.Rtl
