import AwsFpga.Lib.Axi
import AwsFpga.Rtl.ClAxilRegAccess
import Mathlib.Data.BitVec

/-!
# The registers of the clock generator (`axil_to_cfg_cnv.sv`, `aws_clk_regs.sv`)

The converter makes of each access of the bus a request to the registers, which acknowledge it. It
serves one access at a time. `wstrb` is not looked at, and every response is an OKAY.
-/

open Lib Lib.Axi

namespace AwsFpga.Rtl.AwsClkRegs

inductive AxlFsm where
  | AXL_FSM_IDLE
  | AXL_FSM_ADDR
  | AXL_FSM_WDATA
  | AXL_FSM_RESP
  deriving DecidableEq

/-! ## The converter -/

structure CnvRegs where
  axl_fsm_state_q : AxlFsm
  o_fsm_busy : Bool
  awvalid_q : Bool
  arvalid_q : Bool
  cfg_addr_q : BitVec 32
  awready : Bool
  arready : Bool
  cfg_wr_q : Bool
  cfg_rd_q : Bool
  wready : Bool
  bvalid : Bool
  rvalid : Bool
  axil_bus_rdata_q : BitVec 32

namespace CnvRegs

variable (rst_n ack : Bool) (rdata : BitVec 32) (i : AxilIn) (s : CnvRegs)

def axl_fsm_next : AxlFsm :=
  match s.axl_fsm_state_q with
  | .AXL_FSM_IDLE => if i.awvalid || i.arvalid then .AXL_FSM_ADDR else .AXL_FSM_IDLE
  | .AXL_FSM_ADDR => if s.awvalid_q then .AXL_FSM_WDATA else .AXL_FSM_RESP
  | .AXL_FSM_WDATA => if s.cfg_wr_q && ack then .AXL_FSM_RESP else .AXL_FSM_WDATA
  | .AXL_FSM_RESP =>
    if (s.bvalid && i.bready) || (s.rvalid && i.rready) then .AXL_FSM_IDLE else .AXL_FSM_RESP

/-- A write address is taken. -/
def aw_start : Bool := s.axl_fsm_state_q = .AXL_FSM_IDLE && i.awvalid

/-- A read address is taken, if no write address is. -/
def ar_start : Bool := s.axl_fsm_state_q = .AXL_FSM_IDLE && i.arvalid

def step : CnvRegs where
  axl_fsm_state_q := if !rst_n then .AXL_FSM_IDLE else axl_fsm_next ack i s
  o_fsm_busy := axl_fsm_next ack i s ≠ .AXL_FSM_IDLE
  awvalid_q :=
    if !rst_n then false
    else if aw_start i s then true
    else if ar_start i s then false
    else s.awvalid_q
  arvalid_q :=
    if !rst_n then false
    else if aw_start i s then false
    else if ar_start i s then true
    else s.arvalid_q
  cfg_addr_q :=
    if !rst_n then s.cfg_addr_q
    else if aw_start i s then i.awaddr
    else if ar_start i s then i.araddr
    else s.cfg_addr_q
  awready := if !rst_n then false else aw_start i s
  arready := if !rst_n then false else ar_start i s && !i.awvalid
  cfg_wr_q :=
    if !rst_n then false
    else if axl_fsm_next ack i s = .AXL_FSM_WDATA && i.wvalid then true
    else if s.cfg_wr_q && ack then false
    else s.cfg_wr_q
  cfg_rd_q :=
    if !rst_n then false
    else if s.axl_fsm_state_q = .AXL_FSM_ADDR && s.arvalid_q then true
    else if s.cfg_rd_q && ack then false
    else s.cfg_rd_q
  wready := if !rst_n then false else s.cfg_wr_q && ack
  bvalid :=
    if !rst_n || (s.bvalid && i.bready) then false
    else if s.wready && i.wvalid then true
    else s.bvalid
  rvalid :=
    if !rst_n || (s.rvalid && i.rready) then false
    else if s.cfg_rd_q && ack then true
    else s.rvalid
  axil_bus_rdata_q :=
    if !rst_n || (s.rvalid && i.rready) then s.axil_bus_rdata_q
    else if s.cfg_rd_q && ack then rdata
    else s.axil_bus_rdata_q

/-- At power-on; the signals of the bus are so after the reset. -/
def initial : CnvRegs where
  axl_fsm_state_q := .AXL_FSM_IDLE
  o_fsm_busy := false
  awvalid_q := false
  arvalid_q := false
  cfg_addr_q := 0
  awready := false
  arready := false
  cfg_wr_q := false
  cfg_rd_q := false
  wready := false
  bvalid := false
  rvalid := false
  axil_bus_rdata_q := 0

end CnvRegs

/-! ## The registers -/

structure Params where
  CLK_GRP_A_EN : Int
  CLK_GRP_B_EN : Int
  CLK_GRP_C_EN : Int
  CLK_HBM_EN : Int

def ID_REG : BitVec 8 := 0x00
def VER_REG : BitVec 8 := 0x04
def BUILD_REG : BitVec 8 := 0x08
def CLKS_AVAIL_REG : BitVec 8 := 0x0C
def G_RST_REG : BitVec 8 := 0x10
def SYS_RST_REG : BitVec 8 := 0x14
def DIS_RST_MAIN_REG : BitVec 8 := 0x18
def MMCM_LOCK_REG : BitVec 8 := 0x20
def MMCM_LOCK_ERR_REG : BitVec 8 := 0x24

def id_reg : BitVec 32 := 0x90481D0F
def ver_reg : BitVec 32 := 0x02010000
def build_reg : BitVec 32 := 0x09232223

def clks_avail_reg (p : Params) : BitVec 32 :=
  0#23 ++ BitVec.ofInt 1 p.CLK_HBM_EN ++ BitVec.ofInt 1 p.CLK_GRP_C_EN ++
    BitVec.ofInt 1 p.CLK_GRP_C_EN ++ BitVec.ofInt 1 p.CLK_GRP_B_EN ++
    BitVec.ofInt 1 p.CLK_GRP_B_EN ++ BitVec.ofInt 1 p.CLK_GRP_A_EN ++
    BitVec.ofInt 1 p.CLK_GRP_A_EN ++ BitVec.ofInt 1 p.CLK_GRP_A_EN ++ 1#1

/-- The clocks A, B, C and HBM are locked, from bit 0 on. -/
def mmcm_lock_reg (mmcm_lock_syncd : BitVec 4) : BitVec 32 :=
  0#23 ++ mmcm_lock_syncd.extractLsb' 3 1 ++ 0#1 ++ mmcm_lock_syncd.extractLsb' 2 1 ++ 0#1 ++
    mmcm_lock_syncd.extractLsb' 1 1 ++ 0#3 ++ mmcm_lock_syncd.extractLsb' 0 1

/-- The registers that can be written. -/
structure Csrs where
  g_rst_reg : BitVec 32
  sys_rst_reg : BitVec 32
  dis_rst_main_reg : Bool
  mmcm_lock_err_reg : BitVec 32

structure ClkRegs where
  cnv : CnvRegs
  cfg_addr_q : BitVec 8
  cfg_wr_q : Bool
  cfg_rd_q : Bool
  cfg_wr_pulse_q : Bool
  cfg_rd_pulse_q : Bool
  cfg_rdata_q : BitVec 32
  cfg_wdata_q : BitVec 32
  ack : Bool
  csrs : Csrs

/-- The locks come through a synchronizer. -/
structure In extends AxilIn where
  i_rst_n : Bool
  mmcm_lock_syncd : BitVec 4

/-- The value at an address. -/
def reg_value (p : Params) (mmcm_lock_syncd : BitVec 4) (c : Csrs) (addr : BitVec 8) : BitVec 32 :=
  if addr = ID_REG then id_reg
  else if addr = VER_REG then ver_reg
  else if addr = BUILD_REG then build_reg
  else if addr = CLKS_AVAIL_REG then clks_avail_reg p
  else if addr = G_RST_REG then c.g_rst_reg
  else if addr = SYS_RST_REG then c.sys_rst_reg
  else if addr = DIS_RST_MAIN_REG then (BitVec.ofBool c.dis_rst_main_reg).setWidth 32
  else if addr = MMCM_LOCK_REG then mmcm_lock_reg mmcm_lock_syncd
  else if addr = MMCM_LOCK_ERR_REG then c.mmcm_lock_err_reg
  else 0xBAADDEC0

/-- Of an address of the bus the low bits count. -/
def offset (addr : BitVec 32) : BitVec 8 := addr.extractLsb' 0 8

section

variable (p : Params) (i : In) (s : ClkRegs)

def csrs_step : Csrs where
  g_rst_reg :=
    if s.cfg_addr_q = G_RST_REG && s.cfg_wr_pulse_q then s.cfg_wdata_q else s.csrs.g_rst_reg
  sys_rst_reg :=
    if s.cfg_addr_q = SYS_RST_REG && s.cfg_wr_pulse_q then s.cfg_wdata_q else s.csrs.sys_rst_reg
  dis_rst_main_reg :=
    if s.cfg_addr_q = DIS_RST_MAIN_REG && s.cfg_wr_pulse_q then s.cfg_wdata_q.getLsbD 0
    else s.csrs.dis_rst_main_reg
  mmcm_lock_err_reg :=
    if s.cfg_addr_q = MMCM_LOCK_ERR_REG && s.cfg_wr_pulse_q then
      s.csrs.mmcm_lock_err_reg &&& ~~~s.cfg_wdata_q
    else s.csrs.mmcm_lock_err_reg

def step : ClkRegs where
  cnv := s.cnv.step i.i_rst_n s.ack s.cfg_rdata_q i.toAxilIn
  cfg_addr_q := if !i.i_rst_n then s.cfg_addr_q else offset s.cnv.cfg_addr_q
  cfg_wr_q := if !i.i_rst_n then false else s.cnv.cfg_wr_q
  cfg_rd_q := if !i.i_rst_n then false else s.cnv.cfg_rd_q
  cfg_wr_pulse_q := if !i.i_rst_n then s.cfg_wr_pulse_q else !s.cfg_wr_q && s.cnv.cfg_wr_q
  cfg_rd_pulse_q := if !i.i_rst_n then s.cfg_rd_pulse_q else !s.cfg_rd_q && s.cnv.cfg_rd_q
  cfg_rdata_q := reg_value p i.mmcm_lock_syncd s.csrs s.cfg_addr_q
  cfg_wdata_q := if !i.i_rst_n then s.cfg_wdata_q else i.wdata
  ack := if !i.i_rst_n then false else s.cfg_wr_pulse_q || s.cfg_rd_pulse_q
  csrs := csrs_step s

end

def Csrs.initial : Csrs := ⟨0, 0xFFFFFFFE, false, 0⟩

def circuit (p : Params) : Circuit In ClkRegs where
  reset := ⟨.initial, 0, false, false, false, false, 0, 0, false, .initial⟩
  step := step p

/-! ## What the master sees -/

section

variable (i : In) (s : ClkRegs)

def aw_taken : List (BitVec 32) := fire i.awvalid s.cnv.awready i.awaddr
def w_taken : List (BitVec 32) := fire i.wvalid s.cnv.wready i.wdata
def b_sent : List Unit := fire s.cnv.bvalid i.bready ()
def ar_taken : List (BitVec 32) := fire i.arvalid s.cnv.arready i.araddr
def r_sent : List (BitVec 32) := fire s.cnv.rvalid i.rready s.cnv.axil_bus_rdata_q

/-- The write that the registers see. -/
def applied : List (BitVec 8 × BitVec 32) :=
  if s.cfg_wr_pulse_q then [(s.cfg_addr_q, s.cfg_wdata_q)] else []

end

/-- What a write does to the register at its address. -/
def Csrs.apply (c : Csrs) (w : BitVec 8 × BitVec 32) : Csrs :=
  if w.1 = G_RST_REG then { c with g_rst_reg := w.2 }
  else if w.1 = SYS_RST_REG then { c with sys_rst_reg := w.2 }
  else if w.1 = DIS_RST_MAIN_REG then { c with dis_rst_main_reg := w.2.getLsbD 0 }
  else if w.1 = MMCM_LOCK_ERR_REG then { c with mmcm_lock_err_reg := c.mmcm_lock_err_reg &&& ~~~w.2 }
  else c

theorem csrs_step_eq (s : ClkRegs) : csrs_step s = (applied s).foldl Csrs.apply s.csrs := by
  unfold csrs_step applied Csrs.apply
  cases s.cfg_wr_pulse_q with
  | false => simp
  | true =>
    simp only [Bool.and_true, decide_eq_true_eq, ↓reduceIte, List.foldl_cons, List.foldl_nil]
    split_ifs <;> simp_all [G_RST_REG, SYS_RST_REG, DIS_RST_MAIN_REG, MMCM_LOCK_ERR_REG]

/-! ## The course of an access -/

/-- How far the access has come that is served. -/
inductive Phase where
  | idle
  | waddr
  | wdata
  | wreq
  | wpulse
  | wack
  | wready
  | bresp
  | raddr
  | rreq
  | rpulse
  | rack
  | rresp
  deriving DecidableEq

namespace Phase

def next (i : In) : Phase → Phase
  | idle =>
    if !i.i_rst_n then idle else if i.awvalid then waddr else if i.arvalid then raddr else idle
  | waddr => if i.wvalid then wreq else wdata
  | wdata => if i.wvalid then wreq else wdata
  | wreq => wpulse
  | wpulse => wack
  | wack => wready
  | wready => bresp
  | bresp => if i.bready then idle else bresp
  | raddr => rreq
  | rreq => rpulse
  | rpulse => rack
  | rack => rresp
  | rresp => if i.rready then idle else rresp

/-- A write is served. -/
def writing : Phase → Bool
  | waddr | wdata | wreq | wpulse | wack | wready | bresp => true
  | _ => false

def state : Phase → AxlFsm
  | idle => .AXL_FSM_IDLE
  | waddr | raddr => .AXL_FSM_ADDR
  | wdata | wreq | wpulse | wack => .AXL_FSM_WDATA
  | wready | bresp | rreq | rpulse | rack | rresp => .AXL_FSM_RESP

variable {i : In} {ph : Phase}

theorem state_idle : ph.state = .AXL_FSM_IDLE ↔ ph = idle := by
  cases ph <;> simp [state]

theorem state_addr : ph.state = .AXL_FSM_ADDR ↔ ph = waddr ∨ ph = raddr := by
  cases ph <;> simp [state]

theorem state_wdata :
    ph.state = .AXL_FSM_WDATA ↔ ph = wdata ∨ ph = wreq ∨ ph = wpulse ∨ ph = wack := by
  cases ph <;> simp [state]

@[simp] theorem next_waddr : ph.next i = waddr ↔ ph = idle ∧ i.i_rst_n ∧ i.awvalid := by
  unfold next
  split <;> grind

@[simp] theorem next_raddr :
    ph.next i = raddr ↔ ph = idle ∧ i.i_rst_n ∧ i.awvalid = false ∧ i.arvalid := by
  unfold next
  split <;> grind

@[simp] theorem next_wreq : ph.next i = wreq ↔ (ph = waddr ∨ ph = wdata) ∧ i.wvalid := by
  unfold next
  split <;> grind

@[simp] theorem next_wdata :
    ph.next i = wdata ↔ (ph = waddr ∨ ph = wdata) ∧ i.wvalid = false := by
  unfold next
  split <;> grind

@[simp] theorem next_wpulse : ph.next i = wpulse ↔ ph = wreq := by
  unfold next
  split <;> grind

@[simp] theorem next_wack : ph.next i = wack ↔ ph = wpulse := by
  unfold next
  split <;> grind

@[simp] theorem next_wready : ph.next i = wready ↔ ph = wack := by
  unfold next
  split <;> grind

@[simp] theorem next_bresp : ph.next i = bresp ↔ ph = wready ∨ (ph = bresp ∧ i.bready = false) := by
  unfold next
  split <;> grind

@[simp] theorem next_rreq : ph.next i = rreq ↔ ph = raddr := by
  unfold next
  split <;> grind

@[simp] theorem next_rpulse : ph.next i = rpulse ↔ ph = rreq := by
  unfold next
  split <;> grind

@[simp] theorem next_rack : ph.next i = rack ↔ ph = rpulse := by
  unfold next
  split <;> grind

@[simp] theorem next_rresp : ph.next i = rresp ↔ ph = rack ∨ (ph = rresp ∧ i.rready = false) := by
  unfold next
  split <;> grind

theorem writing_next (hph : ph.writing) (hb : ph = bresp → i.bready = false) :
    (ph.next i).writing := by
  cases ph <;> simp [writing, next] at * <;> grind

end Phase

/-- What the registers hold in a phase. -/
structure Shows (ph : Phase) (s : ClkRegs) : Prop where
  state : s.cnv.axl_fsm_state_q = ph.state
  aw : ph = .waddr → s.cnv.awvalid_q = true ∧ s.cnv.arvalid_q = false
  ar : ph = .raddr → s.cnv.awvalid_q = false ∧ s.cnv.arvalid_q = true
  awready : s.cnv.awready = decide (ph = .waddr)
  arready : s.cnv.arready = decide (ph = .raddr)
  cfg_wr : s.cnv.cfg_wr_q = decide (ph = .wreq ∨ ph = .wpulse ∨ ph = .wack)
  cfg_rd : s.cnv.cfg_rd_q = decide (ph = .rreq ∨ ph = .rpulse ∨ ph = .rack)
  wready : s.cnv.wready = decide (ph = .wready)
  bvalid : s.cnv.bvalid = decide (ph = .bresp)
  rvalid : s.cnv.rvalid = decide (ph = .rresp)
  wr_q : s.cfg_wr_q = decide (ph = .wpulse ∨ ph = .wack ∨ ph = .wready)
  /-- After its acknowledge the level of a read may be seen for one cycle more. -/
  rd_q : ph ≠ .rresp → ph ≠ .idle → s.cfg_rd_q = decide (ph = .rpulse ∨ ph = .rack)
  wr_pulse : s.cfg_wr_pulse_q = decide (ph = .wpulse)
  rd_pulse : s.cfg_rd_pulse_q = decide (ph = .rpulse)
  ack : s.ack = decide (ph = .wack ∨ ph = .rack)
  addr : ph ≠ .idle → ph ≠ .waddr → ph ≠ .raddr → s.cfg_addr_q = offset s.cnv.cfg_addr_q

variable {p : Params} {i : In} {s : ClkRegs} {ph : Phase}

theorem Shows.initial : Shows .idle (circuit p).reset := by
  constructor <;> simp [circuit, CnvRegs.initial, Phase.state]

theorem Shows.reset (hrst : i.i_rst_n = false) (h : Shows .idle s) : Shows .idle (step p i s) := by
  constructor <;> simp [step, CnvRegs.step, hrst, Phase.state, h.wr_pulse, h.rd_pulse]

section

variable (hrst : i.i_rst_n = true) (h : Shows ph s)

include hrst h

theorem Shows.fsm_next : s.cnv.axl_fsm_next s.ack i.toAxilIn = (ph.next i).state := by
  unfold CnvRegs.axl_fsm_next
  rw [h.state, h.cfg_wr, h.ack, h.bvalid, h.rvalid]
  have haw := h.aw
  have har := h.ar
  cases ph <;> simp [Phase.state, Phase.next] <;> grind [Phase.state]

theorem Shows.aw_start : s.cnv.aw_start i.toAxilIn = decide (ph.next i = .waddr) := by
  unfold CnvRegs.aw_start
  simp [h.state, Phase.state_idle, hrst]

theorem Shows.ar_start :
    (s.cnv.ar_start i.toAxilIn && !i.awvalid) = decide (ph.next i = .raddr) := by
  unfold CnvRegs.ar_start
  rw [h.state]
  cases haw : i.awvalid <;> cases har : i.arvalid <;> simp [Phase.state_idle, hrst, haw, har]

omit hrst in
theorem Shows.addr_kept (hbusy : ph ≠ .idle) :
    (step p i s).cnv.cfg_addr_q = s.cnv.cfg_addr_q := by
  simp [step, CnvRegs.step, CnvRegs.aw_start, CnvRegs.ar_start, h.state, Phase.state_idle, hbusy]

theorem Shows.next (hw : ph = .wready → i.wvalid) : Shows (ph.next i) (step p i s) where
  state := by
    simp only [step, CnvRegs.step, h.fsm_next hrst]
    simp [hrst]
  aw := by
    intro hph
    have haw := h.aw_start hrst
    simp [step, CnvRegs.step, hrst, haw, hph]
  ar := by
    intro hph
    have haw := h.aw_start hrst
    have har := h.ar_start hrst
    simp [hph] at har haw
    simp [step, CnvRegs.step, hrst, har, haw]
  awready := by
    simp only [step, CnvRegs.step, h.aw_start hrst]
    simp [hrst]
  arready := by
    have har := h.ar_start hrst
    simp [step, CnvRegs.step, hrst, har]
  cfg_wr := by
    simp only [step, CnvRegs.step, hrst, h.fsm_next hrst, Phase.state_wdata]
    rw [h.cfg_wr, h.ack]
    cases ph <;> simp
  cfg_rd := by
    simp only [step, CnvRegs.step, hrst, h.state, Phase.state_addr]
    rw [h.cfg_rd, h.ack]
    have haw := h.aw
    have har := h.ar
    cases ph <;> simp <;> grind
  wready := by
    simp only [step, CnvRegs.step, hrst, h.cfg_wr, h.ack]
    cases ph <;> simp
  bvalid := by
    simp only [step, CnvRegs.step, hrst, h.bvalid, h.wready]
    cases ph <;> simp
    exact hw rfl
  rvalid := by
    simp only [step, CnvRegs.step, hrst, h.rvalid, h.cfg_rd, h.ack]
    cases ph <;> simp
  wr_q := by
    simp [step, hrst, h.cfg_wr]
  rd_q := by
    simp only [step, hrst, h.cfg_rd]
    cases ph <;> simp
  wr_pulse := by
    simp only [step, hrst, h.cfg_wr, h.wr_q]
    cases ph <;> simp
  rd_pulse := by
    have hrd := h.rd_q
    simp only [step, hrst, h.cfg_rd]
    cases ph <;> simp <;> grind
  ack := by
    simp [step, hrst, h.wr_pulse, h.rd_pulse]
  addr := by
    intro hidle hwaddr hraddr
    have hbusy : ph ≠ .idle := by
      rintro rfl
      unfold Phase.next at hidle hwaddr hraddr
      grind
    rw [h.addr_kept hbusy]
    simp [step, hrst]

end

/-- The phase that the registers are in. -/
def phase (s : ClkRegs) : Phase :=
  match s.cnv.axl_fsm_state_q with
  | .AXL_FSM_IDLE => .idle
  | .AXL_FSM_ADDR => if s.cnv.awvalid_q then .waddr else .raddr
  | .AXL_FSM_WDATA =>
    if !s.cnv.cfg_wr_q then .wdata
    else if s.cfg_wr_pulse_q then .wpulse
    else if s.ack then .wack
    else .wreq
  | .AXL_FSM_RESP =>
    if s.cnv.wready then .wready
    else if s.cnv.bvalid then .bresp
    else if s.cnv.rvalid then .rresp
    else if s.cfg_rd_pulse_q then .rpulse
    else if s.ack then .rack
    else .rreq

theorem Shows.phase_eq (h : Shows ph s) : phase s = ph := by
  unfold phase
  rw [h.state, h.cfg_wr, h.wr_pulse, h.ack, h.wready, h.bvalid, h.rvalid, h.rd_pulse]
  have haw := h.aw
  have har := h.ar
  cases ph <;> simp [Phase.state] <;> grind

/-- What reaches this cycle of what the bus asks of its master. -/
structure May (i : In) (s : ClkRegs) : Prop where
  /-- The reset comes before all accesses. -/
  rst_n : i.i_rst_n = true ∨ phase s = .idle
  aw : s.cnv.awready → i.awvalid ∧ i.awaddr = s.cnv.cfg_addr_q
  ar : s.cnv.arready → i.arvalid ∧ i.araddr = s.cnv.cfg_addr_q
  w : s.cnv.cfg_wr_q → i.wvalid
  wdata : s.cfg_wr_q → i.wvalid ∧ i.wdata = s.cfg_wdata_q

theorem May.released (hmay : May i s) (hbusy : phase s ≠ .idle) : i.i_rst_n = true := by
  rcases hmay.rst_n with hhigh | hidle
  · exact hhigh
  · exact absurd hidle hbusy

def Inv (s : ClkRegs) : Prop := Shows (phase s) s

theorem Inv.step (hinv : Inv s) (hmay : May i s) :
    Inv (AwsClkRegs.step p i s) ∧ phase (AwsClkRegs.step p i s) = (phase s).next i := by
  have hshows : Shows ((phase s).next i) (AwsClkRegs.step p i s) := by
    by_cases hrst : i.i_rst_n = true
    · apply Shows.next hrst hinv
      intro hph
      apply (hmay.wdata _).1
      rw [hinv.wr_q]
      simp [hph]
    · have hlow : i.i_rst_n = false := by simpa using hrst
      have hidle : phase s = .idle := by
        by_contra hbusy
        exact hrst (hmay.released hbusy)
      have hstay : Phase.idle.next i = .idle := by simp [Phase.next, hlow]
      unfold Inv at hinv
      rw [hidle] at hinv ⊢
      rw [hstay]
      exact hinv.reset hlow
  unfold Inv
  rw [hshows.phase_eq]
  exact ⟨hshows, rfl⟩

/-! ## One cycle -/

/-- The address of a write that is not applied yet. -/
def addressed (s : ClkRegs) : List (BitVec 8) :=
  if phase s = .wdata ∨ phase s = .wreq ∨ phase s = .wpulse then [offset s.cnv.cfg_addr_q] else []

/-- The data of a write that is applied, until the bus has taken it. -/
def written (s : ClkRegs) : List (BitVec 32) :=
  if phase s = .wack ∨ phase s = .wready then [s.cfg_wdata_q] else []

/-- The reads that have no response yet. -/
def reading (s : ClkRegs) : Nat :=
  if phase s = .rreq ∨ phase s = .rpulse ∨ phase s = .rack ∨ phase s = .rresp then 1 else 0

/-- The value that the registers return with their acknowledge. -/
def returned (s : ClkRegs) : List (BitVec 32) := if phase s = .rack then [s.cfg_rdata_q] else []

section

variable (hinv : Inv s) (hmay : May i s)

include hinv hmay

theorem aw_taken_eq :
    aw_taken i s = if phase s = .waddr then [s.cnv.cfg_addr_q] else [] := by
  unfold aw_taken fire
  by_cases hph : phase s = .waddr
  · have hready : s.cnv.awready = true := by simp [hinv.awready, hph]
    obtain ⟨hvalid, haddr⟩ := hmay.aw hready
    simp [hph, hready, hvalid, haddr]
  · simp [hph, hinv.awready]

theorem ar_taken_eq :
    ar_taken i s = if phase s = .raddr then [s.cnv.cfg_addr_q] else [] := by
  unfold ar_taken fire
  by_cases hph : phase s = .raddr
  · have hready : s.cnv.arready = true := by simp [hinv.arready, hph]
    obtain ⟨hvalid, haddr⟩ := hmay.ar hready
    simp [hph, hready, hvalid, haddr]
  · simp [hph, hinv.arready]

theorem w_taken_eq : w_taken i s = if phase s = .wready then [s.cfg_wdata_q] else [] := by
  unfold w_taken fire
  by_cases hph : phase s = .wready
  · have hready : s.cnv.wready = true := by simp [hinv.wready, hph]
    have hq : s.cfg_wr_q = true := by simp [hinv.wr_q, hph]
    obtain ⟨hvalid, hdata⟩ := hmay.wdata hq
    simp [hph, hready, hvalid, hdata]
  · simp [hph, hinv.wready]

theorem wdata_kept (hph : phase s = .wpulse ∨ phase s = .wack) :
    (AwsClkRegs.step p i s).cfg_wdata_q = s.cfg_wdata_q := by
  have hq : s.cfg_wr_q = true := by
    rw [hinv.wr_q]
    rcases hph with hph | hph <;> simp [hph]
  have hrst : i.i_rst_n = true := by
    apply hmay.released
    rcases hph with hph | hph <;> simp [hph]
  simp [AwsClkRegs.step, hrst, (hmay.wdata hq).2]

theorem aw_step : addressed s ++ (aw_taken i s).map offset =
    (applied s).map Prod.fst ++ addressed (AwsClkRegs.step p i s) := by
  obtain ⟨-, hnext⟩ := hinv.step (p := p) hmay
  rw [aw_taken_eq hinv hmay]
  unfold addressed applied
  rw [hnext, hinv.wr_pulse]
  by_cases hidle : phase s = .idle
  · simp [hidle]
  · rw [Shows.addr_kept hinv hidle]
    have haddr := hinv.addr
    cases hph : phase s <;> simp [hph] at haddr ⊢
    all_goals cases i.wvalid <;> simp [haddr]

theorem w_step : written s ++ (applied s).map Prod.snd =
    w_taken i s ++ written (AwsClkRegs.step p i s) := by
  obtain ⟨-, hnext⟩ := hinv.step (p := p) hmay
  rw [w_taken_eq hinv hmay]
  unfold written applied
  rw [hnext, hinv.wr_pulse]
  have hkept := wdata_kept (p := p) hinv hmay
  cases hph : phase s <;> simp [hph] at hkept ⊢
  all_goals exact hkept.symm

/-- A write whose data was taken shows its response until it is sent. -/
theorem b_step : shown s.cnv.bvalid () ++ (w_taken i s).map (fun _ => ()) =
    b_sent i s ++ shown (AwsClkRegs.step p i s).cnv.bvalid () := by
  obtain ⟨hinv', hnext⟩ := hinv.step (p := p) hmay
  rw [w_taken_eq hinv hmay]
  unfold b_sent
  rw [hinv'.bvalid, hinv.bvalid, hnext]
  cases hph : phase s <;> simp
  cases i.bready <;> simp

theorem rdata_step : (AwsClkRegs.step p i s).cnv.axil_bus_rdata_q =
    if phase s = .rack then s.cfg_rdata_q else s.cnv.axil_bus_rdata_q := by
  have hrst : phase s = .rack → i.i_rst_n = true := by
    intro hph
    apply hmay.released
    simp [hph]
  simp only [AwsClkRegs.step, CnvRegs.step]
  rw [hinv.rvalid, hinv.cfg_rd, hinv.ack]
  cases hph : phase s <;> simp
  simp [hrst hph]

theorem r_step : shown s.cnv.rvalid s.cnv.axil_bus_rdata_q ++ returned s =
    r_sent i s ++ shown (AwsClkRegs.step p i s).cnv.rvalid
      (AwsClkRegs.step p i s).cnv.axil_bus_rdata_q := by
  obtain ⟨hinv', hnext⟩ := hinv.step (p := p) hmay
  rw [rdata_step hinv hmay]
  unfold r_sent returned
  rw [hinv'.rvalid, hinv.rvalid, hnext]
  cases hph : phase s <;> simp
  cases i.rready <;> simp

theorem ar_step : reading s + (ar_taken i s).length =
    (r_sent i s).length + reading (AwsClkRegs.step p i s) := by
  obtain ⟨-, hnext⟩ := hinv.step (p := p) hmay
  rw [ar_taken_eq hinv hmay]
  unfold r_sent reading
  rw [hinv.rvalid, hnext]
  cases hph : phase s <;> simp
  cases i.rready <;> simp

theorem wvalid_of_served {i' : In} (hw : i.wvalid → s.cnv.wready = false →
      i'.wvalid ∧ i'.wdata = i.wdata)
    (hph : (phase s).next i = .wreq ∨ phase s = .wreq ∨ phase s = .wpulse ∨ phase s = .wack) :
    i'.wvalid ∧ i'.wdata = i.wdata := by
  have hmayw := hmay.w
  have hready := hinv.wready
  rw [hinv.cfg_wr] at hmayw
  rcases hph with hnext | hph | hph | hph
  · obtain ⟨hph | hph, hvalid⟩ := Phase.next_wreq.mp hnext
    · exact hw hvalid (by simp [hready, hph])
    · exact hw hvalid (by simp [hready, hph])
  all_goals
    apply hw
    · apply hmayw
      simp [hph]
    · simp [hready, hph]

/-- What the bus asks of its master reaches the next cycle. -/
theorem May.next {i' : In} (hrst : i.i_rst_n → i'.i_rst_n)
    (haw : i.awvalid → s.cnv.awready = false → i'.awvalid ∧ i'.awaddr = i.awaddr)
    (hw : i.wvalid → s.cnv.wready = false → i'.wvalid ∧ i'.wdata = i.wdata)
    (har : i.arvalid → s.cnv.arready = false → i'.arvalid ∧ i'.araddr = i.araddr) :
    May i' (AwsClkRegs.step p i s) := by
  obtain ⟨hinv', hnext⟩ := hinv.step (p := p) hmay
  constructor
  · rw [hnext]
    by_cases hhigh : i.i_rst_n = true
    · exact .inl (hrst hhigh)
    · have hidle : phase s = .idle := by
        by_contra hbusy
        exact hhigh (hmay.released hbusy)
      simp [hidle, Phase.next, hhigh]
  · intro hready
    rw [hinv'.awready, hnext] at hready
    obtain ⟨hidle, hhigh, hvalid⟩ := Phase.next_waddr.mp (of_decide_eq_true hready)
    obtain ⟨hvalid', haddr⟩ := haw hvalid (by simp [hinv.awready, hidle])
    refine ⟨hvalid', haddr.trans ?_⟩
    simp [AwsClkRegs.step, CnvRegs.step, CnvRegs.aw_start, hinv.state, hidle, Phase.state, hhigh,
      hvalid]
  · intro hready
    rw [hinv'.arready, hnext] at hready
    obtain ⟨hidle, hhigh, hno, hvalid⟩ := Phase.next_raddr.mp (of_decide_eq_true hready)
    obtain ⟨hvalid', haddr⟩ := har hvalid (by simp [hinv.arready, hidle])
    refine ⟨hvalid', haddr.trans ?_⟩
    simp [AwsClkRegs.step, CnvRegs.step, CnvRegs.aw_start, CnvRegs.ar_start, hinv.state, hidle,
      Phase.state, hhigh, hvalid, hno]
  · intro hwr
    rw [hinv'.cfg_wr, hnext] at hwr
    simp only [Phase.next_wpulse, Phase.next_wack, decide_eq_true_eq] at hwr
    apply (wvalid_of_served hinv hmay hw _).1
    rcases hwr with hph | hph | hph <;> simp [hph]
  · intro hwr
    rw [hinv'.wr_q, hnext] at hwr
    simp only [Phase.next_wpulse, Phase.next_wack, Phase.next_wready, decide_eq_true_eq] at hwr
    obtain ⟨hvalid', hdata⟩ := wvalid_of_served hinv hmay hw (.inr hwr)
    refine ⟨hvalid', hdata.trans ?_⟩
    have hhigh : i.i_rst_n = true := by
      apply hmay.released
      rcases hwr with hph | hph | hph <;> simp [hph]
    simp [AwsClkRegs.step, hhigh]

end

end AwsFpga.Rtl.AwsClkRegs
