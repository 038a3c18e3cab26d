import AwsFpga.Lib.Lanes
import AwsFpga.Rtl.ClKernelChannel
import Mathlib.Algebra.BigOperators.Intervals

/-!
# The registers of the kernel (`cl_kernel_regs.sv`)

The host starts the channels here, and here it reads how many bursts were done. What there is
for writes there is for reads as well. The registers start after the reset.
-/

open Lib Lib.Axi

namespace AwsFpga.Rtl

/-- The registers of a direction. -/
structure KernelDirRegs where
  o_start : BitVec 32
  ctl_reg : BitVec 32
  resp_err_q : BitVec 32
  PIPE_ACC_I : List (BitVec 8)
  PIPE_INP_I : List (BitVec 32)
  cyc_cnt_q : BitVec 64
  timer_q : BitVec 64
  req_q : Bool
  first_actv_q : Bool
  latency_reg : BitVec 32
  resp_err_reg : BitVec 32
  pend_txns_q : Nat → BitVec 32
  ot_reg : BitVec 32

structure KernelRegs where
  cfg_addr_q : BitVec 8
  cfg_wr_q : Bool
  cfg_rd_q : Bool
  cfg_wr_pulse_q : Bool
  cfg_rd_pulse_q : Bool
  cfg_rdata_q : BitVec 32
  cfg_wdata_q : BitVec 32
  o_cfg_ack : Bool
  kern_cfg_reg : BitVec 32
  chnl_sel_reg : BitVec 32
  axlen_reg : BitVec 32
  wdata_pattern_reg : BitVec 32
  dir : KernelDir → KernelDirRegs

structure KernelCfg where
  i_cfg_addr : BitVec 32
  i_cfg_wdata : BitVec 32
  i_cfg_wr : Bool
  i_cfg_rd : Bool

/-- What the channels give for a direction, one bit each. -/
structure KernelDirIn where
  i_done : BitVec 32
  i_resp_err : BitVec 32
  i_pend_txns : Nat → BitVec 32

namespace KernelRegs

def KERN_CFG_REG : BitVec 8 := 0x00
def CHANNEL_AVAIL_REG : BitVec 8 := 0x04
def NUM_OT_REG : BitVec 8 := 0x08
def CHNL_SEL_REG : BitVec 8 := 0x0C
def AXLEN_REG : BitVec 8 := 0x10
def WDATA_PATTERN_REG : BitVec 8 := 0x14

def CTL_REG : KernelDir → BitVec 8
  | .wr => 0x18
  | .rd => 0x1C

def CYC_CNT_LO_REG : KernelDir → BitVec 8
  | .wr => 0x30
  | .rd => 0x50

def CYC_CNT_HI_REG : KernelDir → BitVec 8
  | .wr => 0x34
  | .rd => 0x54

def TIMER_LO_REG : KernelDir → BitVec 8
  | .wr => 0x38
  | .rd => 0x58

def TIMER_HI_REG : KernelDir → BitVec 8
  | .wr => 0x3C
  | .rd => 0x5C

def LATENCY_REG : KernelDir → BitVec 8
  | .wr => 0x40
  | .rd => 0x60

def OT_REG : KernelDir → BitVec 8
  | .wr => 0x44
  | .rd => 0x64

def RESP_ERR_REG : KernelDir → BitVec 8
  | .wr => 0x48
  | .rd => 0x68

variable (NUM_CHANNELS : Nat) (i_num_ot : BitVec 32) (cfg : KernelCfg) (i : KernelDir → KernelDirIn)
  (s : KernelRegs)

def chnl_sel : Nat := (s.chnl_sel_reg.extractLsb' 0 5).toNat

def o_kernel_enable : Bool := s.kern_cfg_reg.getLsbD 0

/-- A write to the register at `addr`. -/
def wr_en (addr : BitVec 8) : Bool := s.cfg_addr_q = addr && s.cfg_wr_pulse_q

/-- A write of zero, which clears a counter. -/
def clears (addr : BitVec 8) : Bool := wr_en s addr && s.cfg_wdata_q = 0

def written (addr : BitVec 8) (reg : BitVec 32) : BitVec 32 :=
  if wr_en s addr then s.cfg_wdata_q else reg

/-- The registers of a direction, as `cfg_rdata_q` takes them. -/
def dir_rdata (d : KernelDir) : List (BitVec 8 × BitVec 32) :=
  [(CTL_REG d, (s.dir d).ctl_reg),
    (CYC_CNT_LO_REG d, (s.dir d).cyc_cnt_q.extractLsb' 0 32),
    (CYC_CNT_HI_REG d, (s.dir d).cyc_cnt_q.extractLsb' 32 32),
    (TIMER_LO_REG d, (s.dir d).timer_q.extractLsb' 0 32),
    (TIMER_HI_REG d, (s.dir d).timer_q.extractLsb' 32 32),
    (LATENCY_REG d, (s.dir d).latency_reg), (OT_REG d, (s.dir d).ot_reg),
    (RESP_ERR_REG d, (s.dir d).resp_err_reg)]

def cfg_rdata : BitVec 32 :=
  (([(KERN_CFG_REG, s.kern_cfg_reg), (CHANNEL_AVAIL_REG, BitVec.ofNat 32 NUM_CHANNELS),
    (NUM_OT_REG, i_num_ot), (CHNL_SEL_REG, s.chnl_sel_reg), (AXLEN_REG, s.axlen_reg),
    (WDATA_PATTERN_REG, s.wdata_pattern_reg)] ++ dir_rdata s .wr ++ dir_rdata s .rd).lookup
      s.cfg_addr_q).getD 0xBAADDEC0

/-- How many channels are done in this cycle. -/
def done_acc (i_done : BitVec 32) : BitVec 8 :=
  (List.range NUM_CHANNELS).foldl
    (fun acc ii => if i_done ≠ 0 then acc + (BitVec.ofBool (i_done.getLsbD ii)).setWidth 8 else 0) 0

/-- Bit `ii` of a vector over the channels. -/
def bits (f : Nat → Bool) : BitVec 32 := of_lanes 32 fun ii => BitVec.ofBool (f ii)

def chnl_inp (i_pend_txns : Nat → BitVec 32) : BitVec 32 :=
  bits fun ii => decide (ii < NUM_CHANNELS) && i_pend_txns ii ≠ 0

def dir_step (d : KernelDir) : KernelDirRegs :=
  let r := s.dir d
  let done_acc_q := out_bus r.PIPE_ACC_I 0
  let chnl_inp_q := out_bus r.PIPE_INP_I 0
  let req := r.o_start.getLsbD (chnl_sel s)
  { o_start := r.ctl_reg &&& if o_kernel_enable s then BitVec.allOnes 32 else 0
    ctl_reg := written s (CTL_REG d) r.ctl_reg
    resp_err_q := (i d).i_resp_err
    PIPE_ACC_I := lib_pipe (done_acc NUM_CHANNELS (i d).i_done) r.PIPE_ACC_I
    PIPE_INP_I := lib_pipe (chnl_inp NUM_CHANNELS (i d).i_pend_txns) r.PIPE_INP_I
    cyc_cnt_q :=
      if clears s (CYC_CNT_LO_REG d) then 0 else r.cyc_cnt_q + done_acc_q.setWidth 64
    timer_q :=
      if clears s (TIMER_LO_REG d) then 0
      else if r.o_start ≠ 0 || chnl_inp_q ≠ 0 then r.timer_q + 1
      else r.timer_q
    req_q := req
    first_actv_q :=
      if (i d).i_done.getLsbD (chnl_sel s) then false
      else if req && !r.req_q then true
      else r.first_actv_q
    latency_reg :=
      if clears s (LATENCY_REG d) then 0
      else if r.first_actv_q then r.latency_reg + 1
      else r.latency_reg
    resp_err_reg :=
      if clears s (RESP_ERR_REG d) then 0
      else if r.resp_err_q ≠ 0 then r.resp_err_reg ||| r.resp_err_q
      else r.resp_err_reg
    pend_txns_q := (i d).i_pend_txns
    ot_reg := r.pend_txns_q (chnl_sel s) }

def step : KernelRegs where
  cfg_addr_q := cfg.i_cfg_addr.extractLsb' 0 8
  cfg_wr_q := cfg.i_cfg_wr
  cfg_rd_q := cfg.i_cfg_rd
  cfg_wr_pulse_q := !s.cfg_wr_q && cfg.i_cfg_wr
  cfg_rd_pulse_q := !s.cfg_rd_q && cfg.i_cfg_rd
  cfg_rdata_q := cfg_rdata NUM_CHANNELS i_num_ot s
  cfg_wdata_q := cfg.i_cfg_wdata
  o_cfg_ack := s.cfg_wr_pulse_q || s.cfg_rd_pulse_q
  kern_cfg_reg := written s KERN_CFG_REG s.kern_cfg_reg
  chnl_sel_reg := written s CHNL_SEL_REG s.chnl_sel_reg
  axlen_reg := written s AXLEN_REG s.axlen_reg
  wdata_pattern_reg := written s WDATA_PATTERN_REG s.wdata_pattern_reg
  dir := dir_step NUM_CHANNELS i s

def ACC_STAGES : Nat := 3

def reset : KernelRegs where
  cfg_addr_q := 0
  cfg_wr_q := false
  cfg_rd_q := false
  cfg_wr_pulse_q := false
  cfg_rd_pulse_q := false
  cfg_rdata_q := 0
  cfg_wdata_q := 0
  o_cfg_ack := false
  kern_cfg_reg := 0
  chnl_sel_reg := 0
  axlen_reg := 0
  wdata_pattern_reg := 0
  dir _ :=
    { o_start := 0
      ctl_reg := 0
      resp_err_q := 0
      PIPE_ACC_I := List.replicate ACC_STAGES 0
      PIPE_INP_I := List.replicate ACC_STAGES 0
      cyc_cnt_q := 0
      timer_q := 0
      req_q := false
      first_actv_q := false
      latency_reg := 0
      resp_err_reg := 0
      pend_txns_q := fun _ => 0
      ot_reg := 0 }

/-! ## The counter of the bursts -/

theorem getLsbD_bits (f : Nat → Bool) {ii : Nat} (hii : ii < 32) :
    (bits f).getLsbD ii = f ii := by
  have hlane := getLsbD_lanes_fold 32 32 (fun ii => BitVec.ofBool (f ii)) Nat.zero_lt_one hii
  simp only [Nat.one_mul, Nat.add_zero, decide_eq_true hii, Bool.true_and] at hlane
  exact hlane.trans (by cases f ii <;> rfl)

/-- How many of the channels have their bit set. -/
def num_set (v : BitVec 32) : Nat := ∑ ii ∈ Finset.range NUM_CHANNELS, (v.getLsbD ii).toNat

theorem num_set_le (v : BitVec 32) : num_set NUM_CHANNELS v ≤ NUM_CHANNELS := by
  unfold num_set
  induction NUM_CHANNELS with
  | zero => exact Nat.le_refl 0
  | succ n ih =>
    rw [Finset.sum_range_succ]
    exact Nat.add_le_add ih (Bool.toNat_le _)

theorem done_fold (v : BitVec 32) (hv : v ≠ 0) (n : Nat) : (List.range n).foldl
      (fun acc ii => if v ≠ 0 then acc + (BitVec.ofBool (v.getLsbD ii)).setWidth 8 else 0) 0 =
    BitVec.ofNat 8 (num_set n v) := by
  induction n with
  | zero => rfl
  | succ n ih =>
    have hbit : (BitVec.ofBool (v.getLsbD n)).setWidth 8 = BitVec.ofNat 8 (v.getLsbD n).toNat := by
      cases v.getLsbD n <;> rfl
    rw [List.range_succ, List.foldl_append, ih]
    simp only [List.foldl_cons, List.foldl_nil, if_pos hv]
    rw [hbit, ← BitVec.ofNat_add]
    unfold num_set
    rw [Finset.sum_range_succ]

/-- Eight bits are enough for 32 channels. -/
theorem done_acc_eq (hfew : NUM_CHANNELS ≤ 32) (v : BitVec 32) :
    (done_acc NUM_CHANNELS v).toNat = num_set NUM_CHANNELS v := by
  have hle := num_set_le NUM_CHANNELS v
  by_cases hv : v = 0
  · have hzero : num_set NUM_CHANNELS v = 0 := by
      unfold num_set
      simp [hv]
    have hfold : ∀ l : List Nat, l.foldl (fun acc ii =>
        if v ≠ 0 then acc + (BitVec.ofBool (v.getLsbD ii)).setWidth 8 else 0) (0 : BitVec 8) =
          0 := by
      intro l
      induction l with
      | nil => rfl
      | cons a l ih =>
        rw [List.foldl_cons, if_neg (not_not.mpr hv)]
        exact ih
    rw [hzero]
    unfold done_acc
    rw [hfold]
    rfl
  · unfold done_acc
    rw [done_fold v hv, BitVec.toNat_ofNat]
    exact Nat.mod_eq_of_lt (by omega)

/-- The bursts that are done and come down the pipe to the counter. -/
def piped_acc (r : KernelDirRegs) : Nat := (r.PIPE_ACC_I.map BitVec.toNat).sum

variable {NUM_CHANNELS i_num_ot cfg i s} {d : KernelDir}

theorem acc_pipe_length (h : (s.dir d).PIPE_ACC_I.length = ACC_STAGES) :
    ((step NUM_CHANNELS i_num_ot cfg i s).dir d).PIPE_ACC_I.length = ACC_STAGES :=
  (lib_pipe_length (List.ne_nil_of_length_pos (by rw [h]; decide))).trans h

theorem cyc_cnt_step (hfew : NUM_CHANNELS ≤ 32) (h : (s.dir d).PIPE_ACC_I.length = ACC_STAGES)
    (hclear : clears s (CYC_CNT_LO_REG d) = false) :
    ((step NUM_CHANNELS i_num_ot cfg i s).dir d).cyc_cnt_q +
        BitVec.ofNat 64 (piped_acc ((step NUM_CHANNELS i_num_ot cfg i s).dir d)) =
      (s.dir d).cyc_cnt_q +
        BitVec.ofNat 64 (piped_acc (s.dir d) + num_set NUM_CHANNELS (i d).i_done) := by
  obtain ⟨acc, rest, hpipe⟩ := List.exists_cons_of_length_pos (by rw [h]; decide)
  have hcyc : ((step NUM_CHANNELS i_num_ot cfg i s).dir d).cyc_cnt_q =
      (s.dir d).cyc_cnt_q + BitVec.ofNat 64 acc.toNat := by
    change (if clears s (CYC_CNT_LO_REG d) then (0 : BitVec 64) else _) = _
    rw [hclear, hpipe]
    exact congrArg _ (BitVec.eq_of_toNat_eq (by simp [out_bus]))
  have hacc : piped_acc ((step NUM_CHANNELS i_num_ot cfg i s).dir d) + acc.toNat =
      piped_acc (s.dir d) + num_set NUM_CHANNELS (i d).i_done := by
    unfold piped_acc
    change ((lib_pipe _ _).map BitVec.toNat).sum + _ = _
    simp only [lib_pipe, hpipe, List.tail_cons, List.map_append, List.map_cons, List.map_nil,
      List.sum_append, List.sum_cons, List.sum_nil, done_acc_eq NUM_CHANNELS hfew]
    omega
  rw [hcyc, ← hacc, add_assoc, ← BitVec.ofNat_add, Nat.add_comm acc.toNat]

/-! ## The errors -/

theorem resp_err_step (hclear : clears s (RESP_ERR_REG d) = false) :
    ((step NUM_CHANNELS i_num_ot cfg i s).dir d).resp_err_reg |||
        ((step NUM_CHANNELS i_num_ot cfg i s).dir d).resp_err_q =
      (s.dir d).resp_err_reg ||| (s.dir d).resp_err_q ||| (i d).i_resp_err := by
  have hreg : ((step NUM_CHANNELS i_num_ot cfg i s).dir d).resp_err_reg =
      (s.dir d).resp_err_reg ||| (s.dir d).resp_err_q := by
    change (if clears s (RESP_ERR_REG d) then (0 : BitVec 32)
      else if (s.dir d).resp_err_q ≠ 0 then _ else _) = _
    rw [hclear, if_neg Bool.false_ne_true]
    split
    case isTrue => rfl
    case isFalse h =>
      rw [not_not.mp h]
      exact BitVec.or_zero.symm
  rw [hreg]
  rfl

end KernelRegs

end AwsFpga.Rtl
