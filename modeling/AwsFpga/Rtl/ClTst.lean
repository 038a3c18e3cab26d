import AwsFpga.Lib.Axi

/-!
# The write side of the traffic generator (`cl_tst.sv`)

The machine leaves `WR_ADDR` in a cycle with `awready`. The address is in registers that
show it one cycle later.
-/

open Lib Lib.Axi

namespace AwsFpga.Rtl

inductive TstWrState where
  | WR_IDLE
  | WR_ADDR
  | WR_DAT
  deriving DecidableEq

/-- The configuration port, the AW and W readies, and what comes from the read side. -/
structure TstIn where
  cfg_addr : BitVec 32
  cfg_wdata : BitVec 32
  cfg_wr : Bool
  cfg_rd : Bool
  awready : Bool
  wready : Bool
  rd_cfg_read_ram_ack : Bool
  cfg_rd_cmp_error : Bool

/-- The configuration. `WRITE_INST_RAM` holds the instructions. -/
structure TstCfg where
  wr_stretch : Bool
  rd_stretch : Bool
  addr_q : BitVec 8
  wdata_q : BitVec 32
  ack : Bool
  cont_mode : Bool
  iter_mode : Bool
  loop_addr_mode : Bool
  user_mode : Bool
  inc_awid : Bool
  wr_loop_addr_shift : BitVec 6
  wr_num_inst : BitVec 16
  write_address : BitVec 64
  write_data : BitVec 32
  wr_loop_iter : BitVec 64
  wr_inst_index : BitVec 8
  write_inst_ram : BitVec 8 → BitVec 128

structure Tst where
  cfg : TstCfg
  /-- The output of `WRITE_INST_RAM`. -/
  inst_wr_rdata : BitVec 128
  wr_state : TstWrState
  wr_inst_addr : BitVec 8
  wr_loop_count : BitVec 64
  wr_stop_pend : Bool
  awid : BitVec 9
  awaddr : BitVec 64
  awlen : BitVec 8
  awuser : BitVec 11
  awvalid : Bool
  wr_running_length : BitVec 8

namespace Tst

/-! ## The configuration -/

section Cfg

variable (i : TstIn) (c : TstCfg)

def cfg_ram_access : Bool :=
  c.addr_q = 0x64 || c.addr_q = 0x68 || c.addr_q = 0x6c || c.addr_q = 0x70

def cfg_write_inst_ram_wr : Bool := c.wr_stretch && c.addr_q = 0x2c

/-- `{user, last_length, length}` is the dword just written. -/
def cfg_inst : BitVec 128 := (c.wdata_q ++ c.write_data ++ c.write_address).setWidth 128

/-- The dword that is written to the register at `addr`. -/
def cfg_set (addr : BitVec 8) : Bool := c.wr_stretch && c.addr_q = addr

def cfg_step : TstCfg where
  wr_stretch := i.cfg_wr || (c.wr_stretch && !c.ack)
  rd_stretch := i.cfg_rd || (c.rd_stretch && !c.ack)
  addr_q := if i.cfg_wr || i.cfg_rd then i.cfg_addr.setWidth 8 else c.addr_q
  wdata_q := if i.cfg_wr || i.cfg_rd then i.cfg_wdata else c.wdata_q
  ack := ((c.wr_stretch || c.rd_stretch) && !cfg_ram_access c && !c.ack) ||
    ((c.wr_stretch || c.rd_stretch) && cfg_ram_access c && i.rd_cfg_read_ram_ack && !c.ack)
  cont_mode := if cfg_set c 0x00 then c.wdata_q.getLsbD 0 else c.cont_mode
  iter_mode := if cfg_set c 0x00 then c.wdata_q.getLsbD 5 else c.iter_mode
  loop_addr_mode := if cfg_set c 0x00 then c.wdata_q.getLsbD 6 else c.loop_addr_mode
  user_mode := if cfg_set c 0x00 then c.wdata_q.getLsbD 7 else c.user_mode
  inc_awid := if cfg_set c 0x00 then c.wdata_q.getLsbD 26 else c.inc_awid
  wr_loop_addr_shift :=
    if cfg_set c 0x00 then c.wdata_q.extractLsb' 8 6 else c.wr_loop_addr_shift
  wr_num_inst := if cfg_set c 0x10 then c.wdata_q.setWidth 16 else c.wr_num_inst
  write_address :=
    if cfg_set c 0x20 then c.write_address.extractLsb' 32 32 ++ c.wdata_q
    else if cfg_set c 0x24 then c.wdata_q ++ c.write_address.setWidth 32
    else c.write_address
  write_data := if cfg_set c 0x28 then c.wdata_q else c.write_data
  wr_loop_iter :=
    if cfg_set c 0xc0 then c.wr_loop_iter.extractLsb' 32 32 ++ c.wdata_q
    else if cfg_set c 0xc4 then c.wdata_q ++ c.wr_loop_iter.setWidth 32
    else c.wr_loop_iter
  wr_inst_index :=
    if cfg_set c 0x1c then c.wdata_q.setWidth 8
    else if cfg_write_inst_ram_wr c && c.ack then c.wr_inst_index + 1
    else c.wr_inst_index
  write_inst_ram :=
    if cfg_write_inst_ram_wr c then Function.update c.write_inst_ram c.wr_inst_index (cfg_inst c)
    else c.write_inst_ram

/-- A write of the go register. -/
def cfg_go_wr : Bool := c.wr_stretch && c.ack && c.addr_q = 0x08

end Cfg

/-! ## An instruction -/

section Inst

variable (DATA_WIDTH : Nat) (inst : BitVec 128)

def inst_address : BitVec 64 := inst.setWidth 64
def inst_length : BitVec 8 := inst.extractLsb' 96 8
def inst_user : BitVec 16 := inst.extractLsb' 112 16

def ADJ_DW_WIDTH : Nat :=
  if DATA_WIDTH = 512 then 4 else if DATA_WIDTH = 256 then 3 else if DATA_WIDTH = 128 then 2 else 1

def wr_first_adj : BitVec 11 := (inst.extractLsb' 2 (ADJ_DW_WIDTH DATA_WIDTH)).setWidth 11

def inst_last_adj : BitVec 11 := (inst.extractLsb' 104 (ADJ_DW_WIDTH DATA_WIDTH)).setWidth 11

def user_length_mult : BitVec 11 := BitVec.ofNat 11 (DATA_WIDTH / 32)

end Inst

/-! ## The wires -/

variable (DATA_WIDTH : Nat) (i : TstIn) (s : Tst)

def wr_inp : Bool := s.wr_state ≠ .WR_IDLE

def cfg_wr_go : Bool := cfg_go_wr s.cfg && s.cfg.wdata_q.getLsbD 0 && !s.wr_inp

def cfg_wr_stop : Bool := cfg_go_wr s.cfg && !s.cfg.wdata_q.getLsbD 0

def wr_dat_end : Bool := s.wr_running_length = 0

/-- The instructions are done when the index wrapped around to 0. -/
def wr_inst_done : Bool :=
  if s.cfg.iter_mode then s.wr_inst_addr = 0 && s.wr_loop_count = s.cfg.wr_loop_iter
  else if !s.cfg.cont_mode then s.wr_inst_addr = 0
  else false

def wr_state_nxt : TstWrState :=
  match s.wr_state with
  | .WR_IDLE => if s.cfg_wr_go then .WR_ADDR else .WR_IDLE
  | .WR_ADDR => if i.awready then .WR_DAT else .WR_ADDR
  | .WR_DAT =>
    if s.wr_dat_end && i.wready then
      if s.wr_inst_done || s.wr_stop_pend then .WR_IDLE else .WR_ADDR
    else
      .WR_DAT

/-- The machine leaves `WR_ADDR`. -/
def wr_addr_done : Bool := s.wr_state = .WR_ADDR && wr_state_nxt i s ≠ .WR_ADDR

def wr_last_inst : Bool := s.wr_inst_addr.setWidth 16 = s.cfg.wr_num_inst

def wr_loop_addr_adj : BitVec 64 :=
  if s.cfg.loop_addr_mode then s.wr_loop_count <<< s.cfg.wr_loop_addr_shift.toNat else 0

/-- The address that the instruction at the RAM's output writes to. -/
def addr : BitVec 64 := inst_address s.inst_wr_rdata ||| wr_loop_addr_adj s

def len : BitVec 8 := inst_length s.inst_wr_rdata

def user : BitVec 11 :=
  if s.cfg.user_mode then (inst_user s.inst_wr_rdata).setWidth 11
  else ((s.len.setWidth 11 + 1) * user_length_mult DATA_WIDTH) -
    wr_first_adj DATA_WIDTH s.inst_wr_rdata - inst_last_adj DATA_WIDTH s.inst_wr_rdata

def wvalid : Bool := s.wr_state = .WR_DAT

def wlast : Bool := s.wr_dat_end

/-! ## The registers -/

def step : Tst where
  cfg := cfg_step i s.cfg
  inst_wr_rdata := s.cfg.write_inst_ram s.wr_inst_addr
  wr_state := wr_state_nxt i s
  wr_inst_addr :=
    if s.wr_state = .WR_IDLE then 0
    else if wr_addr_done i s then (if s.wr_last_inst then 0 else s.wr_inst_addr + 1)
    else s.wr_inst_addr
  wr_loop_count :=
    if s.cfg_wr_go then 0
    else if wr_addr_done i s && s.wr_last_inst then s.wr_loop_count + 1
    else s.wr_loop_count
  wr_stop_pend := (s.cfg_wr_stop || i.cfg_rd_cmp_error) ||
    (s.wr_stop_pend && wr_state_nxt i s ≠ .WR_IDLE)
  awid := if s.wr_state = .WR_ADDR then (if s.cfg.inc_awid then (s.awid + 1) &&& 0x1F else 0)
    else s.awid
  awaddr := if s.wr_state = .WR_ADDR then s.addr else 0
  awlen := if s.wr_state = .WR_ADDR then s.len else 0
  awuser := if s.wr_state = .WR_ADDR then s.user DATA_WIDTH else 0
  awvalid := s.wr_state = .WR_ADDR
  wr_running_length :=
    if s.wr_state = .WR_ADDR then s.len
    else if s.wvalid && i.wready then s.wr_running_length - 1
    else s.wr_running_length

/-- The configuration registers and the RAM have no reset. -/
def reset (cfg : TstCfg) : Tst where
  cfg := { cfg with wr_stretch := false, rd_stretch := false, ack := false }
  inst_wr_rdata := 0
  wr_state := .WR_IDLE
  wr_inst_addr := 0
  wr_loop_count := 0
  wr_stop_pend := false
  awid := 0
  awaddr := 0
  awlen := 0
  awuser := 0
  awvalid := false
  wr_running_length := 0

def circuit (cfg : TstCfg) : Circuit TstIn Tst := ⟨reset cfg, step DATA_WIDTH⟩

/-! ## The channels -/

/-- The write instructions, each in the cycle that ends its `WR_ADDR`. -/
def executed : List (BitVec 64 × BitVec 8) := if wr_addr_done i s then [(s.addr, s.len)] else []

def aw_accepted : List (BitVec 64 × BitVec 8) := fire s.awvalid i.awready (s.awaddr, s.awlen)

/-- Of a W beat, whether it is the last. -/
def w_accepted : List Bool := fire s.wvalid i.wready s.wlast

/-- The beats of a burst. -/
def beats (len : BitVec 8) : List Bool := List.replicate len.toNat false ++ [true]

/-- The beats that are still to come. -/
def w_left : List Bool := if s.wr_state = .WR_DAT then beats s.wr_running_length else []

variable (cfg : TstCfg) (ins : Nat → TstIn)

/-- What the generator owes to the memory. -/
structure Issues : Prop where
  /-- One address for each instruction: it was accepted, or it is shown. -/
  aw : ∀ n, (circuit DATA_WIDTH cfg).passed ins executed n =
    (circuit DATA_WIDTH cfg).passed ins aw_accepted n ++
      shown ((circuit DATA_WIDTH cfg).state ins n).awvalid
        (((circuit DATA_WIDTH cfg).state ins n).awaddr, ((circuit DATA_WIDTH cfg).state ins n).awlen)
  aw_held : Held (fun n => ((circuit DATA_WIDTH cfg).state ins n).awvalid) (fun n => (ins n).awready)
    fun n =>
      let s := (circuit DATA_WIDTH cfg).state ins n
      (s.awid, s.awaddr, s.awlen, s.awuser)
  /-- A burst for each instruction: one beat more than its length, the last one marked. -/
  w : ∀ n, ((circuit DATA_WIDTH cfg).passed ins executed n).flatMap (fun a => beats a.2) =
    (circuit DATA_WIDTH cfg).passed ins w_accepted n ++
      w_left ((circuit DATA_WIDTH cfg).state ins n)
  w_held : Held (fun n => ((circuit DATA_WIDTH cfg).state ins n).wvalid) (fun n => (ins n).wready)
    fun n => ((circuit DATA_WIDTH cfg).state ins n).wlast

theorem circuit_step : (circuit DATA_WIDTH cfg).step = step DATA_WIDTH := rfl

/-! ## The data -/

theorem beats_pos (len : BitVec 8) (h : len ≠ 0) : beats len = false :: beats (len - 1) := by
  have hne : len.toNat ≠ 0 := fun hzero => h (BitVec.eq_of_toNat_eq hzero)
  have hpred : len.toNat = (len - 1).toNat + 1 := by
    rw [BitVec.toNat_sub_of_le (Nat.pos_of_ne_zero hne)]
    change len.toNat = len.toNat - 1 + 1
    omega
  unfold beats
  rw [hpred, List.replicate_succ, List.cons_append]

theorem w_left_of_ne (h : s.wr_state ≠ .WR_DAT) : w_left s = [] := if_neg h

theorem step_wr_state : (step DATA_WIDTH i s).wr_state = wr_state_nxt i s := rfl

theorem w_step (h : s.wr_state = .WR_DAT) :
    w_left s = w_accepted i s ++ w_left (step DATA_WIDTH i s) := by
  have hw : w_accepted i s = if i.wready then [s.wr_dat_end] else [] := by
    simp [w_accepted, wvalid, wlast, h, fire]
  rw [hw]
  unfold w_left
  rw [step_wr_state, if_pos h]
  cases hready : i.wready
  · have hnext : wr_state_nxt i s = .WR_DAT := by simp [wr_state_nxt, h, hready]
    rw [if_pos hnext]
    simp [step, h, hready]
  · cases hend : s.wr_dat_end
    · have hnext : wr_state_nxt i s = .WR_DAT := by simp [wr_state_nxt, h, hend]
      have hrest : (step DATA_WIDTH i s).wr_running_length = s.wr_running_length - 1 := by
        simp [step, h, wvalid, hready]
      have hne : s.wr_running_length ≠ 0 := by simpa [wr_dat_end] using hend
      rw [if_pos hnext, hrest, beats_pos _ hne]
      rfl
    · have hnext : wr_state_nxt i s ≠ .WR_DAT := by
        simp only [wr_state_nxt, h, hend, hready, Bool.and_self, if_true]
        split <;> simp
      have hzero : s.wr_running_length = 0 := by simpa [wr_dat_end] using hend
      rw [if_neg hnext, hzero]
      rfl

theorem executed_step (h : s.wr_state = .WR_ADDR) :
    (executed i s).flatMap (fun a => beats a.2) = w_left (step DATA_WIDTH i s) := by
  cases hready : i.awready
  · simp [executed, wr_addr_done, wr_state_nxt, h, hready, w_left, step]
  · simp [executed, wr_addr_done, wr_state_nxt, h, hready, w_left, step]

theorem executed_of_ne (h : s.wr_state ≠ .WR_ADDR) : executed i s = [] := by
  unfold executed wr_addr_done
  simp [h]

theorem w_accepted_of_ne (h : s.wr_state ≠ .WR_DAT) : w_accepted i s = [] := by
  unfold w_accepted wvalid
  simp [h]

theorem data_step :
    w_left s ++ (executed i s).flatMap (fun a => beats a.2) =
      w_accepted i s ++ w_left (step DATA_WIDTH i s) := by
  cases h : s.wr_state with
  | WR_IDLE =>
    have hnext : (step DATA_WIDTH i s).wr_state ≠ .WR_DAT := by
      simp only [step, wr_state_nxt, h]
      split <;> simp
    rw [w_left_of_ne _ hnext, w_left_of_ne s (by simp [h]), executed_of_ne i s (by simp [h]),
      w_accepted_of_ne i s (by simp [h])]
    rfl
  | WR_ADDR =>
    rw [executed_step DATA_WIDTH i s h, w_left_of_ne s (by simp [h]),
      w_accepted_of_ne i s (by simp [h])]
  | WR_DAT =>
    rw [executed_of_ne i s (by simp [h]), ← w_step DATA_WIDTH i s h]
    simp

theorem w_state (n : Nat) :
    ((circuit DATA_WIDTH cfg).passed ins executed n).flatMap (fun a => beats a.2) =
      (circuit DATA_WIDTH cfg).passed ins w_accepted n ++
        w_left ((circuit DATA_WIDTH cfg).state ins n) := by
  induction n with
  | zero => rfl
  | succ n ih =>
    have hstep := data_step DATA_WIDTH (ins n) ((circuit DATA_WIDTH cfg).state ins n)
    rw [Circuit.passed_succ, Circuit.passed_succ, Circuit.state_succ, List.flatMap_append, ih,
      List.append_assoc, hstep, List.append_assoc]
    rfl

theorem w_held : Held (fun n => ((circuit DATA_WIDTH cfg).state ins n).wvalid)
    (fun n => (ins n).wready) fun n => ((circuit DATA_WIDTH cfg).state ins n).wlast := by
  intro n hvalid hready
  have hdat : ((circuit DATA_WIDTH cfg).state ins n).wr_state = .WR_DAT := by
    simpa [wvalid] using hvalid
  dsimp only at hready ⊢
  rw [Circuit.state_succ, circuit_step]
  constructor
  · simp [step, wvalid, wr_state_nxt, hdat, hready]
  · simp [step, wlast, wr_dat_end, hdat, hready]

/-! ## The address -/

/-- In `WR_ADDR` the RAM shows the instruction of the index. After a stop the index is cleared
one cycle late, so the start must not come in the first idle cycle. -/
theorem fetched (n : Nat)
    (haddr : ((circuit DATA_WIDTH cfg).state ins (n + 1)).wr_state = .WR_ADDR)
    (hidle : ((circuit DATA_WIDTH cfg).state ins n).wr_state = .WR_IDLE →
      ((circuit DATA_WIDTH cfg).state ins n).wr_inst_addr = 0) :
    ((circuit DATA_WIDTH cfg).state ins (n + 1)).inst_wr_rdata =
      ((circuit DATA_WIDTH cfg).state ins n).cfg.write_inst_ram
        ((circuit DATA_WIDTH cfg).state ins (n + 1)).wr_inst_addr := by
  rw [Circuit.state_succ, circuit_step] at haddr ⊢
  generalize (circuit DATA_WIDTH cfg).state ins n = s at haddr hidle
  rw [step_wr_state] at haddr
  have hdone : wr_addr_done (ins n) s = false := by simp [wr_addr_done, haddr]
  by_cases h : s.wr_state = .WR_IDLE
  · simp [step, h, hidle h]
  · simp [step, h, hdone]

/-- The first `WR_ADDR` without `awready` shows an address before its instruction is executed. -/
theorem aw_early (h : s.wr_state = .WR_ADDR) (hready : i.awready = false) :
    executed i s = [] ∧ aw_accepted i s = [] ∧ (step DATA_WIDTH i s).awvalid := by
  simp [executed, wr_addr_done, wr_state_nxt, h, hready, aw_accepted, step]

theorem awvalid_succ (n : Nat) : ((circuit DATA_WIDTH cfg).state ins (n + 1)).awvalid =
    decide (((circuit DATA_WIDTH cfg).state ins n).wr_state = .WR_ADDR) := rfl

/-- `awready` is set in each cycle of `WR_ADDR` and in the next one. -/
def May (n : Nat) : Prop :=
  ((circuit DATA_WIDTH cfg).state ins n).wr_state = .WR_ADDR →
    (ins n).awready ∧ (ins (n + 1)).awready

/-- With `awready` set, an address shown is accepted at once, and the instruction of this cycle is
shown next. -/
theorem aw_step (hready : s.wr_state = .WR_ADDR ∨ s.awvalid → i.awready) :
    shown s.awvalid (s.awaddr, s.awlen) ++ executed i s =
      aw_accepted i s ++ shown (step DATA_WIDTH i s).awvalid
        ((step DATA_WIDTH i s).awaddr, (step DATA_WIDTH i s).awlen) := by
  have haw : aw_accepted i s = shown s.awvalid (s.awaddr, s.awlen) := by
    unfold aw_accepted fire shown
    cases hvalid : s.awvalid
    · rfl
    · rw [hready (Or.inr hvalid)]
      rfl
  rw [haw]
  congr 1
  by_cases h : s.wr_state = .WR_ADDR
  · simp [executed, wr_addr_done, wr_state_nxt, h, hready (Or.inl h), step]
  · rw [executed_of_ne i s h]
    simp [step, h]

theorem awready_of_may (hmay : ∀ n, May DATA_WIDTH cfg ins n) (n : Nat)
    (h : ((circuit DATA_WIDTH cfg).state ins n).wr_state = .WR_ADDR ∨
      ((circuit DATA_WIDTH cfg).state ins n).awvalid) : (ins n).awready := by
  rcases h with haddr | hvalid
  · exact (hmay n haddr).1
  · cases n with
    | zero => simp [circuit, reset] at hvalid
    | succ n =>
      rw [awvalid_succ, decide_eq_true_eq] at hvalid
      exact (hmay n hvalid).2

theorem aw_state (hmay : ∀ n, May DATA_WIDTH cfg ins n) (n : Nat) :
    (circuit DATA_WIDTH cfg).passed ins executed n =
      (circuit DATA_WIDTH cfg).passed ins aw_accepted n ++
        shown ((circuit DATA_WIDTH cfg).state ins n).awvalid
          (((circuit DATA_WIDTH cfg).state ins n).awaddr,
            ((circuit DATA_WIDTH cfg).state ins n).awlen) := by
  induction n with
  | zero => rfl
  | succ n ih =>
    have hstep := aw_step DATA_WIDTH (ins n) ((circuit DATA_WIDTH cfg).state ins n)
      (awready_of_may DATA_WIDTH cfg ins hmay n)
    rw [Circuit.passed_succ, Circuit.passed_succ, Circuit.state_succ, ih, List.append_assoc, hstep,
      List.append_assoc]
    rfl

theorem awready_of_issues (h : Issues DATA_WIDTH cfg ins) (n : Nat)
    (haddr : ((circuit DATA_WIDTH cfg).state ins n).wr_state = .WR_ADDR) : (ins n).awready := by
  induction n using Nat.strongRecOn with
  | _ n ih =>
  by_contra hnot
  have hready : (ins n).awready = false := eq_false_of_ne_true hnot
  have hvalid : ((circuit DATA_WIDTH cfg).state ins n).awvalid = false := by
    cases n with
    | zero => rfl
    | succ m =>
      rw [awvalid_succ, decide_eq_false_iff_not]
      intro hbefore
      -- The machine would have left `WR_ADDR` in the cycle before.
      have hset := ih m (Nat.lt_succ_self m) hbefore
      rw [Circuit.state_succ, circuit_step, step_wr_state] at haddr
      simp [wr_state_nxt, hbefore, hset] at haddr
  obtain ⟨hexec, hnone, hshown⟩ := aw_early DATA_WIDTH (ins n) _ haddr hready
  have hnow := congrArg List.length (h.aw n)
  have hnext := congrArg List.length (h.aw (n + 1))
  rw [Circuit.passed_succ, Circuit.passed_succ, Circuit.state_succ, circuit_step, hexec, hnone,
    hshown] at hnext
  rw [hvalid] at hnow
  simp only [shown, List.length_append, List.length_cons, List.length_nil, if_true,
    Bool.false_eq_true, if_false] at hnow hnext
  omega

/-- Each instruction is issued once, with its address held, exactly when `awready` is set in
each cycle of `WR_ADDR` and in the next one. -/
theorem issues_iff : Issues DATA_WIDTH cfg ins ↔ ∀ n, May DATA_WIDTH cfg ins n := by
  constructor
  · intro h n haddr
    have hready := awready_of_issues DATA_WIDTH cfg ins h n haddr
    refine ⟨hready, ?_⟩
    by_contra hnot
    have hvalid : ((circuit DATA_WIDTH cfg).state ins (n + 1)).awvalid := by
      rw [awvalid_succ, haddr]
      rfl
    -- The machine is in `WR_DAT` by now, so the address is taken back.
    have hdat : ((circuit DATA_WIDTH cfg).state ins (n + 1)).wr_state = .WR_DAT := by
      rw [Circuit.state_succ, circuit_step]
      simp [step, wr_state_nxt, haddr, hready]
    have hheld := (h.aw_held (n + 1) hvalid (eq_false_of_ne_true hnot)).1
    dsimp only at hheld
    rw [awvalid_succ, hdat] at hheld
    exact absurd hheld (by decide)
  · intro hmay
    refine ⟨aw_state DATA_WIDTH cfg ins hmay, ?_, w_state DATA_WIDTH cfg ins, w_held DATA_WIDTH cfg ins⟩
    intro n hvalid hready
    have hset := awready_of_may DATA_WIDTH cfg ins hmay n (Or.inr hvalid)
    dsimp only at hready
    rw [hset] at hready
    contradiction

/-! ## An address that is not ready at once -/

/-- The host writes the go register. The memory is not ready in the first cycle of `WR_ADDR`. -/
def go_then_wait (n : Nat) : TstIn where
  cfg_addr := 0x08
  cfg_wdata := 1
  cfg_wr := n = 0
  cfg_rd := false
  awready := n ≠ 3
  wready := true
  rd_cfg_read_ram_ack := false
  cfg_rd_cmp_error := false

/-- One instruction: address 0x1000, one beat. -/
def one_inst : TstCfg where
  wr_stretch := false
  rd_stretch := false
  addr_q := 0
  wdata_q := 0
  ack := false
  cont_mode := false
  iter_mode := false
  loop_addr_mode := false
  user_mode := false
  inc_awid := false
  wr_loop_addr_shift := 0
  wr_num_inst := 0
  write_address := 0
  write_data := 0
  wr_loop_iter := 0
  wr_inst_index := 0
  write_inst_ram := fun _ => 0x1000

/-- The address of the one instruction is accepted twice. -/
theorem not_issues : ¬ ∀ DATA_WIDTH cfg ins, Issues DATA_WIDTH cfg ins := by
  intro h
  have haw := (h 512 one_inst go_then_wait).aw 6
  exact absurd haw (by decide +kernel)

end Tst

end AwsFpga.Rtl
