import AwsFpga.Rtl.ClKernelRegs

/-!
# What the kernel measures (`cl_hbm_perf_kernel.sv`)

All channels with their registers. What the host reads as the number of the bursts are the
responses of the memory, over all channels, whatever the order in which the clocks tick.
-/

open Lib Lib.Axi

namespace AwsFpga.Rtl

structure KernelParams where
  NUM_OT : Nat
  AXLEN_WIDTH : Nat
  NUM_CHANNELS : Nat
  few : NUM_CHANNELS ≤ 32

/-- `CL_AXI_CTL_I` of channel `jj`. -/
def KernelParams.channel (K : KernelParams) (jj : Nat) : AxiCtlParams where
  DATA_WIDTH := 256
  NUM_OT := K.NUM_OT
  AXI_START_ADDR := BitVec.ofNat 64 (jj * 0x20000000)
  AXI_END_ADDR_MASK := 0x1FFFFFFF
  AXLEN_WIDTH := K.AXLEN_WIDTH

/-- The flags of a channel and a direction at an edge of `clk_main_a0`. -/
structure MainFlags where
  req_fifo_full : Bool
  resp_fifo_empty : Bool

inductive HbmPerfEdge where
  | clk_main_a0 (cfg : KernelCfg) (flags : Nat → KernelDir → MainFlags)
  | clk_hbm (i : Nat → KernelHbm)

structure HbmPerf (F : KernelFifos) (K : KernelParams) where
  chan : (jj : Nat) → KernelChannel F (K.channel jj)
  regs : KernelRegs

namespace HbmPerf

variable {F : KernelFifos} {K : KernelParams} (cfg_axlen : BitVec K.AXLEN_WIDTH)

def chan_edge (jj : Nat) (e : HbmPerfEdge) (s : HbmPerf F K) : KernelEdge :=
  match e with
  | .clk_main_a0 _ flags => .clk_main_a0 fun d =>
    ⟨(s.regs.dir d).o_start.getLsbD jj, (flags jj d).req_fifo_full, (flags jj d).resp_fifo_empty⟩
  | .clk_hbm i => .clk_hbm (i jj)

def over_channels (K : KernelParams) (f : Nat → Bool) : BitVec 32 :=
  KernelRegs.bits fun jj => decide (jj < K.NUM_CHANNELS) && f jj

def regs_in (s : HbmPerf F K) (d : KernelDir) : KernelDirIn where
  i_done := over_channels K fun jj => ((s.chan jj).req d).o_main_req_done
  i_resp_err := over_channels K fun jj => ((s.chan jj).req d).o_main_resp_err
  i_pend_txns := fun jj => ((s.chan jj).req d).o_main_pend_txns

def step (e : HbmPerfEdge) (s : HbmPerf F K) : HbmPerf F K where
  chan jj := KernelChannel.step cfg_axlen (chan_edge jj e s) (s.chan jj)
  regs :=
    match e with
    | .clk_main_a0 cfg _ =>
      KernelRegs.step K.NUM_CHANNELS (BitVec.ofNat 32 K.NUM_OT) cfg (regs_in s) s.regs
    | .clk_hbm _ => s.regs

variable (F) in
def circuit : Circuit HbmPerfEdge (HbmPerf F K) :=
  ⟨⟨fun jj => (KernelChannel.circuit F (P := K.channel jj) cfg_axlen).reset, KernelRegs.reset⟩,
    step cfg_axlen⟩

/-! ## The channels -/

section Channel

variable (F) (ins : Nat → HbmPerfEdge) (jj : Nat)

/-- The run of a channel. -/
def chan_run (n : Nat) : KernelEdge := chan_edge jj (ins n) ((circuit F cfg_axlen).state ins n)

theorem chan_state (n : Nat) :
    (KernelChannel.circuit F (P := K.channel jj) cfg_axlen).state (chan_run F cfg_axlen ins jj) n =
      ((circuit F cfg_axlen).state ins n).chan jj :=
  Circuit.state_part (c := circuit F cfg_axlen) (fun s => s.chan jj) (chan_edge jj) rfl
    (fun _ _ => rfl) n

/-- What passed a channel of channel `jj`. -/
def chan_passed {α : Type} (fire : KernelEdge → KernelChannel F (K.channel jj) → List α) (n : Nat) :
    List α :=
  (KernelChannel.circuit F (P := K.channel jj) cfg_axlen).passed (chan_run F cfg_axlen ins jj) fire n

theorem chan_passed_succ {α : Type} (fire : KernelEdge → KernelChannel F (K.channel jj) → List α)
    (n : Nat) : chan_passed F cfg_axlen ins jj fire (n + 1) = chan_passed F cfg_axlen ins jj fire n ++
      fire (chan_run F cfg_axlen ins jj n) (((circuit F cfg_axlen).state ins n).chan jj) := by
  unfold chan_passed
  rw [Circuit.passed_succ, chan_state]

end Channel

/-- The sum over the channels. -/
def total (K : KernelParams) (f : Nat → Nat) : Nat := ∑ jj ∈ Finset.range K.NUM_CHANNELS, f jj

theorem total_add (f g : Nat → Nat) : total K (fun jj => f jj + g jj) = total K f + total K g :=
  Finset.sum_add_distrib

theorem total_congr {f g : Nat → Nat} (h : ∀ jj < K.NUM_CHANNELS, f jj = g jj) :
    total K f = total K g :=
  Finset.sum_congr rfl fun jj hjj => h jj (Finset.mem_range.mp hjj)

theorem getLsbD_over_channels (f : Nat → Bool) {jj : Nat} (hjj : jj < K.NUM_CHANNELS) :
    (over_channels K f).getLsbD jj = f jj := by
  unfold over_channels
  rw [KernelRegs.getLsbD_bits _ (Nat.lt_of_lt_of_le hjj K.few), decide_eq_true hjj, Bool.true_and]

theorem num_set_over_channels (f : Nat → Bool) :
    KernelRegs.num_set K.NUM_CHANNELS (over_channels K f) = total K fun jj => (f jj).toNat :=
  total_congr fun _ hjj => congrArg Bool.toNat (getLsbD_over_channels f hjj)

section Runs

variable (ins : Nat → HbmPerfEdge) (d : KernelDir)

variable (F) in
/-- The responses of the memory, and which of them the FIFOs lost. -/
def responses (n : Nat) : Nat :=
  total K fun jj => (chan_passed F cfg_axlen ins jj (KernelChannel.answered d) n).length

variable (F) in
def losses (n : Nat) : Nat :=
  total K fun jj => (chan_passed F cfg_axlen ins jj (KernelChannel.lost d) n).length

variable (F) in
/-- The completions that the registers were told. -/
def reports (n : Nat) : Nat :=
  total K fun jj => (chan_passed F cfg_axlen ins jj (KernelChannel.reported d) n).length

/-- The responses on their way to the counter. -/
def due (d : KernelDir) (s : HbmPerf F K) : Nat :=
  (total K fun jj => (KernelChannel.completing d (s.chan jj)).length) +
    KernelRegs.piped_acc (s.regs.dir d)

/-- An edge at which the host clears the register at `addr`. -/
def clears (addr : BitVec 8) (e : HbmPerfEdge) (s : HbmPerf F K) : Bool :=
  match e with
  | .clk_main_a0 _ _ => KernelRegs.clears s.regs addr
  | .clk_hbm _ => false

variable (F) in
/-- From `m` on before `n` it is not cleared. -/
def Kept (addr : BitVec 8) (m n : Nat) : Prop :=
  ∀ k, m ≤ k → k < n → clears addr (ins k) ((circuit F cfg_axlen).state ins k) = false

variable (F) in
/-- Between two steps the counter goes up by what the memory has answered meanwhile, less what
is on its way or lost. An error bit is set when an error was reported. -/
structure Measured (m n : Nat) : Prop where
  bursts : Kept F cfg_axlen ins (KernelRegs.CYC_CNT_LO_REG d) m n →
    (((circuit F cfg_axlen).state ins n).regs.dir d).cyc_cnt_q + BitVec.ofNat 64
        (due d ((circuit F cfg_axlen).state ins n) + losses F cfg_axlen ins d n +
          responses F cfg_axlen ins d m) =
      (((circuit F cfg_axlen).state ins m).regs.dir d).cyc_cnt_q + BitVec.ofNat 64
        (due d ((circuit F cfg_axlen).state ins m) + losses F cfg_axlen ins d m +
          responses F cfg_axlen ins d n)
  errors : Kept F cfg_axlen ins (KernelRegs.RESP_ERR_REG d) m n → ∀ jj < K.NUM_CHANNELS,
    ((((circuit F cfg_axlen).state ins n).regs.dir d).resp_err_reg |||
        (((circuit F cfg_axlen).state ins n).regs.dir d).resp_err_q).getLsbD jj =
      (((((circuit F cfg_axlen).state ins m).regs.dir d).resp_err_reg |||
          (((circuit F cfg_axlen).state ins m).regs.dir d).resp_err_q).getLsbD jj ||
        ((chan_passed F cfg_axlen ins jj (KernelChannel.reported d) n).drop
          (chan_passed F cfg_axlen ins jj (KernelChannel.reported d) m).length).contains true)

variable {cfg_axlen ins d}

theorem chan_piped (jj n : Nat) (d : KernelDir) :
    ((((circuit F cfg_axlen).state ins n).chan jj).req d).Piped := by
  rw [← chan_state]
  exact (KernelChannel.inv_state n).piped d

theorem acc_pipe (d : KernelDir) (n : Nat) :
    (((circuit F cfg_axlen).state ins n).regs.dir d).PIPE_ACC_I.length = KernelRegs.ACC_STAGES := by
  induction n with
  | zero => rfl
  | succ n ih =>
    rw [Circuit.state_succ]
    cases ins n with
    | clk_hbm i => exact ih
    | clk_main_a0 cfg flags => exact KernelRegs.acc_pipe_length ih

/-! ## The bursts -/

/-- What the channels report at an edge. -/
def reporting (d : KernelDir) (e : HbmPerfEdge) (s : HbmPerf F K) : Nat :=
  total K fun jj => (KernelChannel.reported d (chan_edge jj e s) (s.chan jj)).length

theorem reports_succ (n : Nat) : reports F cfg_axlen ins d (n + 1) =
    reports F cfg_axlen ins d n + reporting d (ins n) ((circuit F cfg_axlen).state ins n) := by
  unfold reports reporting
  rw [← total_add]
  apply total_congr
  intro jj _
  rw [chan_passed_succ, List.length_append]
  rfl

theorem reporting_main (cfg : KernelCfg) (flags : Nat → KernelDir → MainFlags) (s : HbmPerf F K) :
    KernelRegs.num_set K.NUM_CHANNELS (regs_in s d).i_done =
      reporting d (.clk_main_a0 cfg flags) s := by
  unfold regs_in reporting
  rw [num_set_over_channels]
  apply total_congr
  intro jj _
  unfold KernelChannel.reported chan_edge KernelReq.reported
  cases ((s.chan jj).req d).o_main_req_done <;> rfl

theorem reporting_hbm (i : Nat → KernelHbm) (s : HbmPerf F K) : reporting d (.clk_hbm i) s = 0 := by
  unfold reporting total
  exact Finset.sum_eq_zero fun _ _ => rfl

variable (cfg_axlen) in
theorem cyc_cnt_edge {e : HbmPerfEdge} {s : HbmPerf F K}
    (hpipe : (s.regs.dir d).PIPE_ACC_I.length = KernelRegs.ACC_STAGES)
    (hclear : clears (KernelRegs.CYC_CNT_LO_REG d) e s = false) :
    ((step cfg_axlen e s).regs.dir d).cyc_cnt_q +
        BitVec.ofNat 64 (KernelRegs.piped_acc ((step cfg_axlen e s).regs.dir d)) =
      (s.regs.dir d).cyc_cnt_q +
        BitVec.ofNat 64 (KernelRegs.piped_acc (s.regs.dir d) + reporting d e s) := by
  cases e with
  | clk_hbm i => rw [reporting_hbm]; rfl
  | clk_main_a0 cfg flags =>
    rw [← reporting_main cfg flags s]
    exact KernelRegs.cyc_cnt_step K.few hpipe hclear

theorem cyc_cnt_eq {m n : Nat} (hn : m ≤ n)
    (hkept : Kept F cfg_axlen ins (KernelRegs.CYC_CNT_LO_REG d) m n) :
    (((circuit F cfg_axlen).state ins n).regs.dir d).cyc_cnt_q + BitVec.ofNat 64
        (KernelRegs.piped_acc (((circuit F cfg_axlen).state ins n).regs.dir d) +
          reports F cfg_axlen ins d m) =
      (((circuit F cfg_axlen).state ins m).regs.dir d).cyc_cnt_q + BitVec.ofNat 64
        (KernelRegs.piped_acc (((circuit F cfg_axlen).state ins m).regs.dir d) +
          reports F cfg_axlen ins d n) := by
  induction n, hn using Nat.le_induction with
  | base => rfl
  | succ n hn ih =>
    have hprev := ih fun k hk hlt => hkept k hk (Nat.lt_succ_of_lt hlt)
    have hedge := cyc_cnt_edge cfg_axlen (acc_pipe d n)
      (hkept n hn (Nat.lt_succ_self n))
    rw [reports_succ, Circuit.state_succ, ← Nat.add_assoc, BitVec.ofNat_add _ (reporting ..),
      ← add_assoc, ← hprev]
    change ((step cfg_axlen _ _).regs.dir d).cyc_cnt_q + BitVec.ofNat 64
      (KernelRegs.piped_acc ((step cfg_axlen _ _).regs.dir d) + _) = _
    rw [BitVec.ofNat_add, ← add_assoc, hedge, BitVec.ofNat_add, BitVec.ofNat_add, ← add_assoc,
      ← add_assoc, add_right_comm]

/-- The FIFOs of all channels keep their promise. -/
def MayShow (F : KernelFifos) (cfg_axlen : BitVec K.AXLEN_WIDTH) (ins : Nat → HbmPerfEdge) : Prop :=
  ∀ jj < K.NUM_CHANNELS, ∃ req_depth resp_depth, ∀ n, KernelChannel.MayShow req_depth resp_depth
    (chan_run F cfg_axlen ins jj n)
    ((KernelChannel.circuit F (P := K.channel jj) cfg_axlen).state (chan_run F cfg_axlen ins jj) n)

theorem responses_eq (hF : F.InOrder) (hmay : MayShow F cfg_axlen ins) (n : Nat) :
    responses F cfg_axlen ins d n = reports F cfg_axlen ins d n + losses F cfg_axlen ins d n +
      total K fun jj =>
        (KernelChannel.completing d (((circuit F cfg_axlen).state ins n).chan jj)).length := by
  unfold responses reports losses
  rw [← total_add, ← total_add]
  apply total_congr
  intro jj hjj
  obtain ⟨req_depth, resp_depth, hjj⟩ := hmay jj hjj
  have hlost := KernelChannel.answers_lost hF hjj (d := d) n
  rw [chan_state] at hlost
  exact hlost

/-! ## The errors -/

variable (cfg_axlen) in
theorem resp_err_edge {e : HbmPerfEdge} {s : HbmPerf F K} {jj : Nat} (hjj : jj < K.NUM_CHANNELS)
    (hpiped : ((s.chan jj).req d).Piped)
    (hclear : clears (KernelRegs.RESP_ERR_REG d) e s = false) :
    (((step cfg_axlen e s).regs.dir d).resp_err_reg |||
        ((step cfg_axlen e s).regs.dir d).resp_err_q).getLsbD jj =
      (((s.regs.dir d).resp_err_reg ||| (s.regs.dir d).resp_err_q).getLsbD jj ||
        (KernelChannel.reported d (chan_edge jj e s) (s.chan jj)).contains true) := by
  cases e with
  | clk_hbm i => exact (Bool.or_false _).symm
  | clk_main_a0 cfg flags =>
    change (((KernelRegs.step _ _ _ _ s.regs).dir d).resp_err_reg |||
      ((KernelRegs.step _ _ _ _ s.regs).dir d).resp_err_q).getLsbD jj = _
    have hbit : (regs_in s d).i_resp_err.getLsbD jj = ((s.chan jj).req d).o_main_resp_err :=
      getLsbD_over_channels (fun jj => ((s.chan jj).req d).o_main_resp_err) hjj
    have hreported : KernelChannel.reported d (chan_edge jj (.clk_main_a0 cfg flags) s)
        (s.chan jj) = ((s.chan jj).req d).reported := rfl
    rw [KernelRegs.resp_err_step hclear, BitVec.getLsbD_or, hbit, hreported,
      KernelReq.reported_err hpiped]

theorem resp_err_eq {m n : Nat} (hn : m ≤ n)
    (hkept : Kept F cfg_axlen ins (KernelRegs.RESP_ERR_REG d) m n) {jj : Nat}
    (hjj : jj < K.NUM_CHANNELS) :
    ((((circuit F cfg_axlen).state ins n).regs.dir d).resp_err_reg |||
        (((circuit F cfg_axlen).state ins n).regs.dir d).resp_err_q).getLsbD jj =
      (((((circuit F cfg_axlen).state ins m).regs.dir d).resp_err_reg |||
          (((circuit F cfg_axlen).state ins m).regs.dir d).resp_err_q).getLsbD jj ||
        ((chan_passed F cfg_axlen ins jj (KernelChannel.reported d) n).drop
          (chan_passed F cfg_axlen ins jj (KernelChannel.reported d) m).length).contains true) := by
  induction n, hn using Nat.le_induction with
  | base => rw [List.drop_length]; exact (Bool.or_false _).symm
  | succ n hn ih =>
    have hprev := ih fun k hk hlt => hkept k hk (Nat.lt_succ_of_lt hlt)
    have hedge := resp_err_edge cfg_axlen hjj (chan_piped jj n d)
      (hkept n hn (Nat.lt_succ_self n))
    have hle : (chan_passed F cfg_axlen ins jj (KernelChannel.reported d) m).length ≤
        (chan_passed F cfg_axlen ins jj (KernelChannel.reported d) n).length :=
      (Circuit.passed_prefix hn).length_le
    rw [chan_passed_succ, List.drop_append_of_le_length hle, List.contains_append,
      ← Bool.or_assoc, ← hprev]
    exact hedge

theorem add_both {a b : BitVec 64} {p q : Nat}
    (h : a + BitVec.ofNat 64 p = b + BitVec.ofNat 64 q) (y : Nat) :
    a + BitVec.ofNat 64 (p + y) = b + BitVec.ofNat 64 (q + y) := by
  rw [BitVec.ofNat_add, BitVec.ofNat_add, ← add_assoc, h, add_assoc]

theorem bursts_measured (hF : F.InOrder) (hmay : MayShow F cfg_axlen ins) (d : KernelDir) {m n : Nat}
    (hn : m ≤ n) : Measured F cfg_axlen ins d m n where
  bursts hkept := by
    have hm := responses_eq hF hmay (d := d) m
    have hn' := responses_eq hF hmay (d := d) n
    have hcount := add_both (cyc_cnt_eq hn hkept) (losses F cfg_axlen ins d m +
      losses F cfg_axlen ins d n + (total K fun jj =>
        (KernelChannel.completing d (((circuit F cfg_axlen).state ins m).chan jj)).length) +
      total K fun jj =>
        (KernelChannel.completing d (((circuit F cfg_axlen).state ins n).chan jj)).length)
    unfold due
    convert hcount using 3 <;> omega
  errors hkept _ hjj := resp_err_eq hn hkept hjj

end Runs

/-! ## One write of one channel -/

def one_channel : KernelParams := ⟨64, 4, 1, Nat.le_add_left 1 31⟩

def idle_cfg : KernelCfg := ⟨0, 0, false, false⟩

def closed (full empty : Bool) : Nat → KernelDir → MainFlags :=
  fun _ d => ⟨full || d = .rd, empty || d = .rd⟩

def quiet : HbmPerfEdge := .clk_main_a0 idle_cfg (closed true true)

/-- The host writes a register. -/
def host_write (addr data : BitVec 32) : List HbmPerfEdge :=
  [.clk_main_a0 ⟨addr, data, true, false⟩ (closed true true), quiet]

def hbm_edge (empty awready wready bvalid : Bool) : HbmPerfEdge :=
  .clk_hbm fun _ => ⟨fun d => empty || d = .rd, fun _ => false, 0, awready, wready, 2, bvalid,
    false, 0, false, false⟩

/-- The kernel is enabled and started, and one request gets into the FIFO. -/
def one_burst : List HbmPerfEdge :=
  host_write 0 1 ++ host_write 0x18 1 ++ [quiet, quiet, quiet, quiet, quiet] ++
  [.clk_main_a0 idle_cfg (closed false true), hbm_edge false false false false,
    hbm_edge true false false false, hbm_edge true false false false,
    hbm_edge true false false false, hbm_edge true true false false,
    hbm_edge true false true false, hbm_edge true false false true,
    hbm_edge true false false false, hbm_edge true false false false,
    .clk_main_a0 idle_cfg (closed true false)]

def one_burst_run (n : Nat) : HbmPerfEdge := one_burst.getD n quiet

theorem one_burst_rest {n : Nat} (hn : 20 ≤ n) : one_burst_run n = quiet := by
  unfold one_burst_run
  rw [List.getD_eq_getElem?_getD, List.getElem?_eq_none hn]
  rfl

theorem one_burst_may_show : MayShow KernelChannel.queues (K := one_channel) (0 : BitVec 4) one_burst_run := by
  intro jj hjj
  obtain rfl : jj = 0 := Nat.lt_one_iff.mp hjj
  refine ⟨64, 16, fun n => ?_⟩
  by_cases hn : n < 20
  · exact (by decide +kernel : ∀ n < 20, KernelChannel.MayShow 64 16
      (chan_run KernelChannel.queues (K := one_channel) (0 : BitVec 4) one_burst_run 0 n)
      ((KernelChannel.circuit KernelChannel.queues (P := one_channel.channel 0) (0 : BitVec 4)).state
        (chan_run KernelChannel.queues (K := one_channel) (0 : BitVec 4) one_burst_run 0) n)) n hn
  · unfold chan_run
    rw [one_burst_rest (by omega)]
    exact fun _ => ⟨fun _ => rfl, fun _ => rfl⟩

/-- The burst is counted, and its error is kept. -/
theorem one_burst_measured :
    Measured KernelChannel.queues (K := one_channel) (0 : BitVec 4) one_burst_run .wr 0 32 ∧
      (((circuit KernelChannel.queues (K := one_channel) (0 : BitVec 4)).state one_burst_run 32).regs.dir .wr).cyc_cnt_q
        = 1 ∧
      (((circuit KernelChannel.queues (K := one_channel) (0 : BitVec 4)).state one_burst_run 32).regs.dir
        .wr).resp_err_reg = 1 :=
  ⟨bursts_measured KernelChannel.queues_in_order one_burst_may_show .wr (Nat.zero_le 32), by decide +kernel, by decide +kernel⟩

end HbmPerf

end AwsFpga.Rtl
