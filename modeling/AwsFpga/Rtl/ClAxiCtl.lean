import AwsFpga.Lib.Axi
import AwsFpga.Lib.Bursts
import Mathlib.Data.Nat.Log
import Mathlib.Data.BitVec

/-!
# The requests of the HBM kernel (`cl_axi_ctl.sv`)

A pulse is one request. Requests wait in a counter until their address is accepted, and the
addresses go round a window. The registers start as reset leaves them after power up.
-/

open Lib Lib.Axi

namespace AwsFpga.Rtl

inductive AxiCtlWrState where
  | WR_IDLE
  | WR_ADDR
  | WR_DAT
  deriving DecidableEq

structure AxiCtlParams where
  DATA_WIDTH : Nat
  NUM_OT : Nat
  AXI_START_ADDR : BitVec 64
  AXI_END_ADDR_MASK : BitVec 64
  AXLEN_WIDTH : Nat

/-- The inputs, without `i_cfg_axlen`, which is static. -/
structure AxiCtlIn where
  wr_pulse : Bool
  rd_pulse : Bool
  wdata_pattern : BitVec 32
  awready : Bool
  wready : Bool
  bresp : BitVec 2
  bvalid : Bool
  arready : Bool
  rresp : BitVec 2
  rlast : Bool
  rvalid : Bool

/-- The registers. `wdata` is by dword. -/
structure AxiCtl (P : AxiCtlParams) where
  wr_done_pulse : Bool
  rd_done_pulse : Bool
  bresp_err_pulse : Bool
  rresp_err_pulse : Bool
  wr_req_pend : BitVec 16
  rd_req_pend : BitVec 16
  awaddr : BitVec 64
  awlen : BitVec P.AXLEN_WIDTH
  awvalid : Bool
  wdata : Fin (P.DATA_WIDTH / 32) → BitVec 32
  wvalid : Bool
  araddr : BitVec 64
  arlen : BitVec P.AXLEN_WIDTH
  arvalid : Bool
  rready : Bool
  wr_state : AxiCtlWrState
  wr_req_pend_q : BitVec (Nat.clog 2 P.NUM_OT + 1)
  rd_req_pend_q : BitVec (Nat.clog 2 P.NUM_OT + 1)
  wr_running_length : BitVec P.AXLEN_WIDTH
  aw_offset_q : BitVec 32
  ar_offset_q : BitVec 32
  wr_rd_pend_q : BitVec 8

namespace AxiCtl

variable (P : AxiCtlParams) (cfg_axlen : BitVec P.AXLEN_WIDTH)

def BUS_WIDTH_SHIFT : Nat := Nat.clog 2 (P.DATA_WIDTH / 8)

def axlen_abs_val : BitVec (P.AXLEN_WIDTH + 1) := cfg_axlen.setWidth (P.AXLEN_WIDTH + 1) + 1

def total_bytes_xfrd : BitVec 12 :=
  (axlen_abs_val P cfg_axlen ++ (0 : BitVec (BUS_WIDTH_SHIFT P))).setWidth 12

/-- `(offset + bytes) & AXI_END_ADDR_MASK`, of 64 bits, in a register of 32. -/
def next_offset (offset : BitVec 32) (bytes : BitVec 12) : BitVec 32 :=
  ((offset.setWidth 64 + bytes.setWidth 64) &&& P.AXI_END_ADDR_MASK).setWidth 32

/-- A counter with its increment and its decrement. -/
def pend_nxt {w : Nat} (pend : BitVec w) (inc dec : Bool) : BitVec w :=
  pend + (BitVec.ofBool inc).setWidth w - (BitVec.ofBool dec).setWidth w

variable {P} (i : AxiCtlIn) (s : AxiCtl P)

def total_bytes_xfr_wr : BitVec 12 :=
  if s.wr_state = .WR_IDLE then 0 else total_bytes_xfrd P cfg_axlen

def inc_wr_req : Bool := i.wr_pulse && s.wr_req_pend_q.toNat ≠ P.NUM_OT
def dec_wr_req : Bool := s.awvalid && i.awready
def inc_rd_req : Bool := i.rd_pulse && s.rd_req_pend_q.toNat ≠ P.NUM_OT
def dec_rd_req : Bool := s.arvalid && i.arready

def wlast : Bool := s.wr_running_length = 0

def wr_state_nxt : AxiCtlWrState :=
  match s.wr_state with
  | .WR_IDLE => if s.wr_req_pend_q ≠ 0 then .WR_ADDR else .WR_IDLE
  | .WR_ADDR => if i.awready then .WR_DAT else .WR_ADDR
  | .WR_DAT =>
    if s.wlast && i.wready && s.wr_req_pend_q ≠ 0 then .WR_ADDR
    else if s.wlast && i.wready then .WR_IDLE
    else .WR_DAT

/-- `bready` is always set. -/
def inc_wr_rd_pend : Bool := s.wr_rd_pend_q ≠ BitVec.allOnes 8 && i.bvalid
def dec_wr_rd_pend : Bool := s.wr_rd_pend_q ≠ 0 && (s.arvalid && i.arready)

/-- Reads wait until a write was answered. -/
def rd_hold_off : Bool := s.wr_state ≠ .WR_IDLE && s.wr_rd_pend_q = 0

def step : AxiCtl P where
  wr_done_pulse := i.bvalid
  rd_done_pulse := i.rvalid && s.rready && i.rlast
  bresp_err_pulse := i.bvalid && i.bresp ≠ 0
  rresp_err_pulse := i.rvalid && s.rready && i.rlast && i.rresp ≠ 0
  wr_req_pend := s.wr_req_pend_q.setWidth 16
  rd_req_pend := s.rd_req_pend_q.setWidth 16
  awaddr := P.AXI_START_ADDR + s.aw_offset_q.setWidth 64
  awlen := cfg_axlen
  awvalid := wr_state_nxt i s = .WR_ADDR
  wdata := fun dw =>
    if s.wr_state = .WR_ADDR then i.wdata_pattern + BitVec.ofNat 32 dw
    else if s.wvalid && i.wready then s.wdata dw + 1
    else s.wdata dw
  wvalid := wr_state_nxt i s = .WR_DAT
  araddr := P.AXI_START_ADDR + s.ar_offset_q.setWidth 64
  arlen := cfg_axlen
  arvalid :=
    if s.arvalid && i.arready then false
    else (s.rd_req_pend_q ≠ 0 && !rd_hold_off s) || s.arvalid
  rready := true
  wr_state := wr_state_nxt i s
  wr_req_pend_q := pend_nxt s.wr_req_pend_q (inc_wr_req i s) (dec_wr_req i s)
  rd_req_pend_q := pend_nxt s.rd_req_pend_q (inc_rd_req i s) (dec_rd_req i s)
  wr_running_length :=
    if s.wr_state = .WR_ADDR then cfg_axlen
    else if s.wvalid && i.wready then s.wr_running_length - 1
    else s.wr_running_length
  aw_offset_q :=
    if s.awvalid && i.awready then next_offset P s.aw_offset_q (total_bytes_xfr_wr cfg_axlen s)
    else s.aw_offset_q
  ar_offset_q :=
    if s.arvalid && i.arready then next_offset P s.ar_offset_q (total_bytes_xfrd P cfg_axlen)
    else s.ar_offset_q
  wr_rd_pend_q := pend_nxt s.wr_rd_pend_q (inc_wr_rd_pend i s) (dec_wr_rd_pend i s)

def reset : AxiCtl P where
  wr_done_pulse := false
  rd_done_pulse := false
  bresp_err_pulse := false
  rresp_err_pulse := false
  wr_req_pend := 0
  rd_req_pend := 0
  awaddr := P.AXI_START_ADDR
  awlen := 0
  awvalid := false
  wdata := fun _ => 0
  wvalid := false
  araddr := P.AXI_START_ADDR
  arlen := 0
  arvalid := false
  rready := true
  wr_state := .WR_IDLE
  wr_req_pend_q := 0
  rd_req_pend_q := 0
  wr_running_length := 0
  aw_offset_q := 0
  ar_offset_q := 0
  wr_rd_pend_q := 0

def circuit : Circuit AxiCtlIn (AxiCtl P) := ⟨reset, step cfg_axlen⟩

theorem circuit_step : (circuit cfg_axlen).step = step cfg_axlen := rfl

/-! ## The channels -/

/-- A request that is counted. -/
def wr_accepted : List Unit := if inc_wr_req i s then [()] else []
def rd_accepted : List Unit := if inc_rd_req i s then [()] else []

/-- The address and the length of a burst. -/
def aw_sent : List (BitVec 64 × BitVec P.AXLEN_WIDTH) :=
  fire s.awvalid i.awready (s.awaddr, s.awlen)

def ar_sent : List (BitVec 64 × BitVec P.AXLEN_WIDTH) :=
  fire s.arvalid i.arready (s.araddr, s.arlen)

/-- Of a W beat, whether it is the last. -/
def w_sent : List Bool := fire s.wvalid i.wready s.wlast

/-- The beats that are still to come. -/
def w_left : List Bool :=
  if s.wr_state = .WR_DAT then beats s.wr_running_length.toNat else []

/-! ## The counters -/

section Counter

variable {w max : Nat} {pend : BitVec w} {inc dec : Bool}

theorem ofBool_toNat (hmax : max < 2 ^ w) (b : Bool) (h : b → 0 < max) :
    ((BitVec.ofBool b).setWidth w).toNat = b.toNat := by
  cases b
  · simp
  · have hpos : 0 < max := h rfl
    rw [BitVec.toNat_setWidth]
    exact Nat.mod_eq_of_lt (Nat.lt_of_le_of_lt hpos hmax)

theorem pend_nxt_toNat (hmax : max < 2 ^ w) (hle : pend.toNat ≤ max)
    (hinc : inc → pend.toNat ≠ max) (hdec : dec → pend ≠ 0) :
    (pend_nxt pend inc dec).toNat + dec.toNat = pend.toNat + inc.toNat := by
  have hpos : dec → 0 < pend.toNat := fun h =>
    Nat.pos_of_ne_zero fun hzero => hdec h (BitVec.eq_of_toNat_eq hzero)
  have hup := ofBool_toNat hmax inc fun h => by have := hinc h; omega
  have hdown := ofBool_toNat hmax dec fun h => by have := hpos h; omega
  have hsum : pend.toNat + inc.toNat ≤ max := by
    cases inc
    · exact hle
    · have hne := hinc rfl
      simp only [Bool.toNat_true]
      omega
  have hadd : (pend + (BitVec.ofBool inc).setWidth w).toNat = pend.toNat + inc.toNat := by
    rw [BitVec.toNat_add_of_lt (by rw [hup]; omega), hup]
  have hback : dec.toNat ≤ pend.toNat := by
    cases dec
    · exact Nat.zero_le _
    · exact hpos rfl
  unfold pend_nxt
  rw [BitVec.toNat_sub_of_le (by rw [BitVec.le_def, hadd, hdown]; omega), hadd, hdown]
  omega

end Counter

theorem NUM_OT_lt (NUM_OT : Nat) : NUM_OT < 2 ^ (Nat.clog 2 NUM_OT + 1) := by
  have hle : NUM_OT ≤ 2 ^ Nat.clog 2 NUM_OT := Nat.le_pow_clog (by omega) NUM_OT
  have hpos : 0 < 2 ^ Nat.clog 2 NUM_OT := Nat.two_pow_pos _
  rw [Nat.pow_succ]
  omega

/-! ## What always holds -/

/-- An address shown has a request that waits, and it is the address of the offset. -/
structure Inv : Prop where
  awvalid : s.awvalid = decide (s.wr_state = .WR_ADDR)
  wvalid : s.wvalid = decide (s.wr_state = .WR_DAT)
  wr_pend : s.awvalid → s.wr_req_pend_q ≠ 0
  rd_pend : s.arvalid → s.rd_req_pend_q ≠ 0
  wr_le : s.wr_req_pend_q.toNat ≤ P.NUM_OT
  rd_le : s.rd_req_pend_q.toNat ≤ P.NUM_OT
  aw : s.awvalid → s.awaddr = P.AXI_START_ADDR + s.aw_offset_q.setWidth 64 ∧ s.awlen = cfg_axlen
  ar : s.arvalid → s.araddr = P.AXI_START_ADDR + s.ar_offset_q.setWidth 64 ∧ s.arlen = cfg_axlen

variable {i s cfg_axlen}

theorem wr_req_step (h : Inv cfg_axlen s) :
    (step cfg_axlen i s).wr_req_pend_q.toNat + (dec_wr_req i s).toNat =
      s.wr_req_pend_q.toNat + (inc_wr_req i s).toNat := by
  refine pend_nxt_toNat (NUM_OT_lt P.NUM_OT) h.wr_le ?_ ?_
  · intro hinc
    simpa [inc_wr_req] using (Bool.and_eq_true_iff.mp hinc).2
  · intro hdec
    exact h.wr_pend (Bool.and_eq_true_iff.mp hdec).1

theorem rd_req_step (h : Inv cfg_axlen s) :
    (step cfg_axlen i s).rd_req_pend_q.toNat + (dec_rd_req i s).toNat =
      s.rd_req_pend_q.toNat + (inc_rd_req i s).toNat := by
  refine pend_nxt_toNat (NUM_OT_lt P.NUM_OT) h.rd_le ?_ ?_
  · intro hinc
    simpa [inc_rd_req] using (Bool.and_eq_true_iff.mp hinc).2
  · intro hdec
    exact h.rd_pend (Bool.and_eq_true_iff.mp hdec).1

theorem ne_zero_iff {w : Nat} (pend : BitVec w) : pend ≠ 0 ↔ 0 < pend.toNat := by
  rw [Nat.pos_iff_ne_zero, ne_eq, ne_eq, ← BitVec.toNat_inj]
  rfl

theorem sub_one_toNat {w : Nat} {x : BitVec w} (h : 0 < x.toNat) : (x - 1).toNat + 1 = x.toNat := by
  have hone : (1 : BitVec w).toNat = 1 := Nat.mod_eq_of_lt (Nat.lt_of_le_of_lt h x.isLt)
  rw [BitVec.toNat_sub_of_le (by rw [BitVec.le_def, hone]; exact h), hone]
  omega

theorem inc_le {pulse : Bool} {pend max : Nat} (hle : pend ≤ max) :
    pend + (pulse && decide (pend ≠ max)).toNat ≤ max := by
  by_cases h : pend = max
  · simp [h]
  · have hone := Bool.toNat_le (pulse && decide (pend ≠ max))
    omega

theorem no_dec_of_addr (h : Inv cfg_axlen s) (hnext : wr_state_nxt i s = .WR_ADDR) :
    dec_wr_req i s = false ∧ s.wr_req_pend_q ≠ 0 := by
  have hvalid := h.awvalid
  cases hstate : s.wr_state with
  | WR_IDLE =>
    simp only [wr_state_nxt, hstate] at hnext hvalid
    refine ⟨by simp [dec_wr_req, hvalid], ?_⟩
    by_contra hzero
    simp [hzero] at hnext
  | WR_ADDR =>
    simp only [wr_state_nxt, hstate] at hnext hvalid
    refine ⟨?_, h.wr_pend (by simp [hvalid])⟩
    cases hready : i.awready
    · simp [dec_wr_req, hready]
    · simp [hready] at hnext
  | WR_DAT =>
    simp only [wr_state_nxt, hstate] at hnext hvalid
    refine ⟨by simp [dec_wr_req, hvalid], ?_⟩
    by_contra hzero
    simp only [hzero, ne_eq, not_true_eq_false, decide_false, Bool.and_false] at hnext
    split at hnext
    · contradiction
    · split at hnext <;> contradiction

theorem no_dec_of_arvalid (h : Inv cfg_axlen s) (hnext : (step cfg_axlen i s).arvalid) :
    dec_rd_req i s = false ∧ s.rd_req_pend_q ≠ 0 := by
  unfold dec_rd_req
  change (if s.arvalid && i.arready then false
    else (s.rd_req_pend_q ≠ 0 && !rd_hold_off s) || s.arvalid) = true at hnext
  split at hnext
  case isTrue => exact Bool.noConfusion hnext
  case isFalse hno =>
    refine ⟨eq_false_of_ne_true hno, ?_⟩
    rcases Bool.or_eq_true_iff.mp hnext with hpend | hvalid
    · simpa using (Bool.and_eq_true_iff.mp hpend).1
    · exact h.rd_pend hvalid

theorem Inv.step (h : Inv cfg_axlen s) : Inv cfg_axlen (step cfg_axlen i s) := by
  have hwr := wr_req_step (i := i) h
  have hrd := rd_req_step (i := i) h
  have hwrle : s.wr_req_pend_q.toNat + (inc_wr_req i s).toNat ≤ P.NUM_OT := inc_le h.wr_le
  have hrdle : s.rd_req_pend_q.toNat + (inc_rd_req i s).toNat ≤ P.NUM_OT := inc_le h.rd_le
  refine ⟨rfl, rfl, ?_, ?_, by omega, by omega, ?_, ?_⟩
  · intro hvalid
    obtain ⟨hdec, hpend⟩ := no_dec_of_addr h (of_decide_eq_true hvalid)
    rw [ne_zero_iff] at hpend ⊢
    rw [hdec, Bool.toNat_false] at hwr
    omega
  · intro hvalid
    obtain ⟨hdec, hpend⟩ := no_dec_of_arvalid h hvalid
    rw [ne_zero_iff] at hpend ⊢
    rw [hdec, Bool.toNat_false] at hrd
    omega
  · intro hvalid
    have hdec := (no_dec_of_addr h (of_decide_eq_true hvalid)).1
    have hkeep : (AxiCtl.step cfg_axlen i s).aw_offset_q = s.aw_offset_q := by
      change (if dec_wr_req i s then _ else _) = _
      simp [hdec]
    rw [hkeep]
    exact ⟨rfl, rfl⟩
  · intro hvalid
    have hdec := (no_dec_of_arvalid h hvalid).1
    have hkeep : (AxiCtl.step cfg_axlen i s).ar_offset_q = s.ar_offset_q := by
      change (if dec_rd_req i s then _ else _) = _
      simp [hdec]
    rw [hkeep]
    exact ⟨rfl, rfl⟩

theorem Inv.reset : Inv cfg_axlen (reset : AxiCtl P) := by
  constructor <;> simp [AxiCtl.reset]

theorem inv_state (ins : Nat → AxiCtlIn) (n : Nat) :
    Inv cfg_axlen ((circuit cfg_axlen).state ins n) :=
  Circuit.inv_state (m := fun _ _ => True) Inv.reset (fun _ _ _ => Inv.step) (fun _ => trivial) n

/-! ## The data -/

theorem w_left_of_ne (h : s.wr_state ≠ .WR_DAT) : w_left s = [] := if_neg h

theorem w_sent_of_ne (hinv : Inv cfg_axlen s) (h : s.wr_state ≠ .WR_DAT) : w_sent i s = [] := by
  simp [w_sent, hinv.wvalid, h]

theorem aw_sent_of_ne (hinv : Inv cfg_axlen s) (h : s.wr_state ≠ .WR_ADDR) : aw_sent i s = [] := by
  simp [aw_sent, hinv.awvalid, h]

theorem w_step (hinv : Inv cfg_axlen s) (h : s.wr_state = .WR_DAT) :
    w_left s = w_sent i s ++ w_left (step cfg_axlen i s) := by
  have hvalid : s.wvalid = true := by simp [hinv.wvalid, h]
  have hrest : (step cfg_axlen i s).wr_running_length =
      if i.wready then s.wr_running_length - 1 else s.wr_running_length := by
    simp [step, h, hvalid]
  have hstate : (step cfg_axlen i s).wr_state = wr_state_nxt i s := rfl
  unfold w_left w_sent
  rw [hrest, hstate, hvalid, if_pos h]
  cases hready : i.wready
  · have hnext : wr_state_nxt i s = .WR_DAT := by simp [wr_state_nxt, h, hready]
    simp [hnext]
  · cases hlast : s.wlast
    · have hnext : wr_state_nxt i s = .WR_DAT := by simp [wr_state_nxt, h, hlast]
      have hpos : 0 < s.wr_running_length.toNat := by
        rw [← ne_zero_iff]
        simpa [wlast] using hlast
      rw [if_pos hnext, ← sub_one_toNat hpos, beats_succ]
      rfl
    · have hnext : wr_state_nxt i s ≠ .WR_DAT := by
        simp only [wr_state_nxt, h, hlast, hready, Bool.and_self, if_true]
        split <;> simp
      have hzero : s.wr_running_length = 0 := by simpa [wlast] using hlast
      rw [if_neg hnext, hzero]
      rfl

theorem aw_step (hinv : Inv cfg_axlen s) (h : s.wr_state = .WR_ADDR) :
    (aw_sent i s).flatMap (fun b => beats b.2.toNat) = w_left (step cfg_axlen i s) := by
  have hvalid : s.awvalid = true := by simp [hinv.awvalid, h]
  have hlen := (hinv.aw hvalid).2
  unfold aw_sent
  rw [hvalid]
  cases hready : i.awready
  · simp [w_left, step, wr_state_nxt, h, hready]
  · simp [w_left, step, wr_state_nxt, h, hready, hlen]

theorem data_step (hinv : Inv cfg_axlen s) :
    w_left s ++ (aw_sent i s).flatMap (fun b => beats b.2.toNat) =
      w_sent i s ++ w_left (step cfg_axlen i s) := by
  cases h : s.wr_state with
  | WR_IDLE =>
    have hnext : (step cfg_axlen i s).wr_state ≠ .WR_DAT := by
      change wr_state_nxt i s ≠ .WR_DAT
      simp only [wr_state_nxt, h]
      split <;> simp
    rw [w_left_of_ne hnext, w_left_of_ne (by simp [h]), aw_sent_of_ne hinv (by simp [h]),
      w_sent_of_ne hinv (by simp [h])]
    rfl
  | WR_ADDR =>
    rw [aw_step hinv h, w_left_of_ne (by simp [h]), w_sent_of_ne hinv (by simp [h])]
  | WR_DAT =>
    rw [aw_sent_of_ne hinv (by simp [h]), ← w_step hinv h]
    simp

variable (cfg_axlen) (ins : Nat → AxiCtlIn)

theorem w_state (n : Nat) :
    ((circuit cfg_axlen).passed ins aw_sent n).flatMap (fun b => beats b.2.toNat) =
      (circuit cfg_axlen).passed ins w_sent n ++ w_left ((circuit cfg_axlen).state ins n) := by
  rw [Circuit.passed_flatMap]
  exact Circuit.passed_eq w_left (P := Inv cfg_axlen) (m := fun _ _ => True) (inv_state ins)
    (fun _ => trivial) rfl (fun _ _ _ => data_step) n

/-! ## The requests -/

theorem length_if (b : Bool) : (if b then [()] else []).length = b.toNat := by
  cases b <;> rfl

theorem fire_length {α : Type} (valid ready : Bool) (a : α) :
    (fire valid ready a).length = (valid && ready).toNat := by
  cases valid <;> cases ready <;> rfl

theorem wr_count (n : Nat) : ((circuit cfg_axlen).passed ins wr_accepted n).length =
    ((circuit cfg_axlen).passed ins aw_sent n).length +
      ((circuit cfg_axlen).state ins n).wr_req_pend_q.toNat := by
  refine Circuit.passed_length_eq (fun s => s.wr_req_pend_q.toNat) (P := Inv cfg_axlen)
    (m := fun _ _ => True) (inv_state ins) (fun _ => trivial) rfl ?_ n
  intro i s _ hinv
  have hstep := wr_req_step (i := i) hinv
  unfold wr_accepted aw_sent
  rw [length_if, fire_length, Nat.add_comm _ (AxiCtl.wr_req_pend_q _).toNat]
  exact hstep.symm

theorem rd_count (n : Nat) : ((circuit cfg_axlen).passed ins rd_accepted n).length =
    ((circuit cfg_axlen).passed ins ar_sent n).length +
      ((circuit cfg_axlen).state ins n).rd_req_pend_q.toNat := by
  refine Circuit.passed_length_eq (fun s => s.rd_req_pend_q.toNat) (P := Inv cfg_axlen)
    (m := fun _ _ => True) (inv_state ins) (fun _ => trivial) rfl ?_ n
  intro i s _ hinv
  have hstep := rd_req_step (i := i) hinv
  unfold rd_accepted ar_sent
  rw [length_if, fire_length, Nat.add_comm _ (AxiCtl.rd_req_pend_q _).toNat]
  exact hstep.symm

theorem aw_keeps (hinv : Inv cfg_axlen s) (hvalid : s.awvalid) (hready : i.awready = false) :
    (step cfg_axlen i s).awvalid ∧ (step cfg_axlen i s).aw_offset_q = s.aw_offset_q := by
  have haddr : s.wr_state = .WR_ADDR := of_decide_eq_true (hinv.awvalid ▸ hvalid)
  constructor
  · simp [step, wr_state_nxt, haddr, hready]
  · simp [step, hready]

theorem ar_keeps (hvalid : s.arvalid) (hready : i.arready = false) :
    (step cfg_axlen i s).arvalid ∧ (step cfg_axlen i s).ar_offset_q = s.ar_offset_q := by
  constructor
  · simp [step, hready, hvalid]
  · simp [step, hready]

theorem aw_held : Held (fun n => ((circuit cfg_axlen).state ins n).awvalid)
    (fun n => (ins n).awready) fun n =>
      (((circuit cfg_axlen).state ins n).awaddr, ((circuit cfg_axlen).state ins n).awlen) := by
  intro n hvalid hready
  have hinv : Inv cfg_axlen _ := inv_state ins n
  have hinv' : Inv cfg_axlen _ := inv_state ins (n + 1)
  obtain ⟨hvalid', hoffset⟩ := aw_keeps cfg_axlen hinv hvalid hready
  obtain ⟨haddr, hlen⟩ := hinv.aw hvalid
  obtain ⟨haddr', hlen'⟩ := hinv'.aw hvalid'
  refine ⟨hvalid', ?_⟩
  dsimp only
  rw [haddr, hlen, haddr', hlen', Circuit.state_succ, circuit_step, hoffset]

theorem ar_held : Held (fun n => ((circuit cfg_axlen).state ins n).arvalid)
    (fun n => (ins n).arready) fun n =>
      (((circuit cfg_axlen).state ins n).araddr, ((circuit cfg_axlen).state ins n).arlen) := by
  intro n hvalid hready
  have hinv : Inv cfg_axlen _ := inv_state ins n
  have hinv' : Inv cfg_axlen _ := inv_state ins (n + 1)
  obtain ⟨hvalid', hoffset⟩ := ar_keeps cfg_axlen hvalid hready
  obtain ⟨haddr, hlen⟩ := hinv.ar hvalid
  obtain ⟨haddr', hlen'⟩ := hinv'.ar hvalid'
  refine ⟨hvalid', ?_⟩
  dsimp only
  rw [haddr, hlen, haddr', hlen', Circuit.state_succ, circuit_step, hoffset]

/-- What the block owes to its host and to the memory. -/
structure Orderly : Prop where
  /-- Each request that is counted has its address accepted or is pending. -/
  writes : ∀ n, ((circuit cfg_axlen).passed ins wr_accepted n).length =
    ((circuit cfg_axlen).passed ins aw_sent n).length +
      ((circuit cfg_axlen).state ins n).wr_req_pend_q.toNat
  reads : ∀ n, ((circuit cfg_axlen).passed ins rd_accepted n).length =
    ((circuit cfg_axlen).passed ins ar_sent n).length +
      ((circuit cfg_axlen).state ins n).rd_req_pend_q.toNat
  pending : ∀ n, ((circuit cfg_axlen).state ins n).wr_req_pend_q.toNat ≤ P.NUM_OT ∧
    ((circuit cfg_axlen).state ins n).rd_req_pend_q.toNat ≤ P.NUM_OT
  /-- A pulse is counted, or `NUM_OT` requests are pending. -/
  wr_pulse : ∀ n, (ins n).wr_pulse →
    wr_accepted (ins n) ((circuit cfg_axlen).state ins n) = [()] ∨
      ((circuit cfg_axlen).state ins n).wr_req_pend_q.toNat = P.NUM_OT
  rd_pulse : ∀ n, (ins n).rd_pulse →
    rd_accepted (ins n) ((circuit cfg_axlen).state ins n) = [()] ∨
      ((circuit cfg_axlen).state ins n).rd_req_pend_q.toNat = P.NUM_OT
  aw_held : Held (fun n => ((circuit cfg_axlen).state ins n).awvalid) (fun n => (ins n).awready)
    fun n => (((circuit cfg_axlen).state ins n).awaddr, ((circuit cfg_axlen).state ins n).awlen)
  ar_held : Held (fun n => ((circuit cfg_axlen).state ins n).arvalid) (fun n => (ins n).arready)
    fun n => (((circuit cfg_axlen).state ins n).araddr, ((circuit cfg_axlen).state ins n).arlen)
  aw_len : ∀ n, ∀ b ∈ (circuit cfg_axlen).passed ins aw_sent n, b.2 = cfg_axlen
  /-- The beats of the accepted addresses, in order, the last one of each burst marked. -/
  w : ∀ n, ((circuit cfg_axlen).passed ins aw_sent n).flatMap (fun b => beats b.2.toNat) =
    (circuit cfg_axlen).passed ins w_sent n ++ w_left ((circuit cfg_axlen).state ins n)
  /-- While some of them are left, one is offered. -/
  w_offered : ∀ n, w_left ((circuit cfg_axlen).state ins n) ≠ [] →
    ((circuit cfg_axlen).state ins n).wvalid
  /-- Before the next address all of them were sent. -/
  next_aw : ∀ n, ((circuit cfg_axlen).state ins n).awvalid →
    ((circuit cfg_axlen).passed ins aw_sent n).flatMap (fun b => beats b.2.toNat) =
      (circuit cfg_axlen).passed ins w_sent n

theorem orderly : Orderly cfg_axlen ins where
  writes := wr_count cfg_axlen ins
  reads := rd_count cfg_axlen ins
  pending := fun n => ⟨(inv_state ins n).wr_le, (inv_state ins n).rd_le⟩
  wr_pulse := by
    intro n hpulse
    by_cases h : ((circuit cfg_axlen).state ins n).wr_req_pend_q.toNat = P.NUM_OT
    · exact .inr h
    · exact .inl (by simp [wr_accepted, inc_wr_req, hpulse, h])
  rd_pulse := by
    intro n hpulse
    by_cases h : ((circuit cfg_axlen).state ins n).rd_req_pend_q.toNat = P.NUM_OT
    · exact .inr h
    · exact .inl (by simp [rd_accepted, inc_rd_req, hpulse, h])
  aw_held := aw_held cfg_axlen ins
  ar_held := ar_held cfg_axlen ins
  aw_len := by
    refine Circuit.passed_forall (inv_state ins) ?_
    intro i s hinv b hb
    obtain ⟨hfire, rfl⟩ := mem_fire.mp hb
    exact (hinv.aw hfire.1).2
  w := w_state cfg_axlen ins
  w_offered := by
    intro n hleft
    have hinv : Inv cfg_axlen ((circuit cfg_axlen).state ins n) := inv_state ins n
    rw [hinv.wvalid, decide_eq_true_eq]
    by_contra hstate
    exact hleft (w_left_of_ne hstate)
  next_aw := by
    intro n hvalid
    have haddr : ((circuit cfg_axlen).state ins n).wr_state = .WR_ADDR :=
      of_decide_eq_true ((inv_state ins n).awvalid ▸ hvalid)
    rw [w_state, w_left_of_ne (by simp [haddr]), List.append_nil]

end AxiCtl

end AwsFpga.Rtl
