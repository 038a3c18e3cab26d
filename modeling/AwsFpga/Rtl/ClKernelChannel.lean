import AwsFpga.Lib.Lossy
import AwsFpga.Rtl.ClAxiWindow
import AwsFpga.Rtl.ClKernelReq

/-!
# A channel of the kernel (`cl_kernel_ctl.sv`, `cl_hbm_perf_kernel.sv`)

The write and the read requests of a channel with the block that turns them into bursts. The
edges of the two clocks come in any order, and the FIFOs and their flags are any that keep to what is
documented of them.
-/

open Lib Lib.Axi

namespace AwsFpga.Rtl

inductive KernelDir where
  | wr
  | rd
  deriving DecidableEq

/-- The inputs of a channel at an edge of `clk_hbm`: the flags, and those of `cl_axi_ctl`. -/
structure KernelHbm where
  req_fifo_empty : KernelDir → Bool
  resp_fifo_full : KernelDir → Bool
  wdata_pattern : BitVec 32
  awready : Bool
  wready : Bool
  bresp : BitVec 2
  bvalid : Bool
  arready : Bool
  rresp : BitVec 2
  rlast : Bool
  rvalid : Bool

inductive KernelEdge where
  | clk_main_a0 (i : KernelDir → KernelReqMain)
  | clk_hbm (i : KernelHbm)

/-- `CL_WR_REQ_Q_I` and `CL_RD_REQ_Q_I`, and `CL_AXI_CTL_I`. -/
structure KernelChannel (F : KernelFifos) (P : AxiCtlParams) where
  req : KernelDir → KernelReq F P.NUM_OT
  ctl : AxiCtl P

namespace KernelChannel

variable {F : KernelFifos} {P : AxiCtlParams} (cfg_axlen : BitVec P.AXLEN_WIDTH)

/-- `wr_done_pulse` and `rd_done_pulse`. -/
def done_pulse (ctl : AxiCtl P) : KernelDir → Bool
  | .wr => ctl.wr_done_pulse
  | .rd => ctl.rd_done_pulse

def err_pulse (ctl : AxiCtl P) : KernelDir → Bool
  | .wr => ctl.bresp_err_pulse
  | .rd => ctl.rresp_err_pulse

def req_hbm (i : KernelHbm) (s : KernelChannel F P) (d : KernelDir) : KernelReqHbm where
  i_hbm_done_pulse := done_pulse s.ctl d
  i_hbm_resp_err := err_pulse s.ctl d
  req_fifo_empty := i.req_fifo_empty d
  resp_fifo_full := i.resp_fifo_full d

def axi_in (i : KernelHbm) (s : KernelChannel F P) : AxiCtlIn where
  wr_pulse := (s.req .wr).o_hbm_req_pulse
  rd_pulse := (s.req .rd).o_hbm_req_pulse
  wdata_pattern := i.wdata_pattern
  awready := i.awready
  wready := i.wready
  bresp := i.bresp
  bvalid := i.bvalid
  arready := i.arready
  rresp := i.rresp
  rlast := i.rlast
  rvalid := i.rvalid

def step (e : KernelEdge) (s : KernelChannel F P) : KernelChannel F P :=
  match e with
  | .clk_main_a0 i => { s with req := fun d => (s.req d).clk_main_a0 (i d) }
  | .clk_hbm i =>
    { req := fun d => (s.req d).clk_hbm (req_hbm i s d)
      ctl := AxiCtl.step cfg_axlen (axi_in i s) s.ctl }

variable (F) in
def circuit : Circuit KernelEdge (KernelChannel F P) :=
  ⟨⟨fun _ => KernelReq.reset F P.NUM_OT, AxiCtl.reset⟩, step cfg_axlen⟩

/-- The flags that the FIFOs may show. -/
def MayShow (req_depth resp_depth : Nat) (e : KernelEdge) (s : KernelChannel F P) : Prop :=
  match e with
  | .clk_main_a0 i => ∀ d, KernelReq.MainOk (i d) (s.req d) req_depth
  | .clk_hbm i => ∀ d, KernelReq.HbmOk (req_hbm i s d) (s.req d) resp_depth

/-! ## What passes -/

variable (d : KernelDir) (e : KernelEdge) (s : KernelChannel F P)

def requested : List Unit :=
  match e with
  | .clk_main_a0 i => KernelReq.requested (i d) (s.req d)
  | .clk_hbm _ => []

/-- A completion that `cl_kernel_regs` is told. -/
def reported : List Bool :=
  match e with
  | .clk_main_a0 _ => (s.req d).reported
  | .clk_hbm _ => []

def pulsed : List Unit :=
  match e with
  | .clk_main_a0 _ => []
  | .clk_hbm _ => (s.req d).pulsed

/-- A pulse that `cl_axi_ctl` counts. -/
def counted : List Unit :=
  match e, d with
  | .clk_main_a0 _, _ => []
  | .clk_hbm i, .wr => AxiCtl.wr_accepted (axi_in i s) s.ctl
  | .clk_hbm i, .rd => AxiCtl.rd_accepted (axi_in i s) s.ctl

/-- A burst whose address is accepted. -/
def bursts : List (BitVec 64 × BitVec P.AXLEN_WIDTH) :=
  match e, d with
  | .clk_main_a0 _, _ => []
  | .clk_hbm i, .wr => AxiCtl.aw_sent (axi_in i s) s.ctl
  | .clk_hbm i, .rd => AxiCtl.ar_sent (axi_in i s) s.ctl

/-- The response to a burst, whether it is an error. -/
def answered : List Bool :=
  match e, d with
  | .clk_main_a0 _, _ => []
  | .clk_hbm i, .wr => shown i.bvalid (i.bresp ≠ 0)
  | .clk_hbm i, .rd => shown (i.rvalid && s.ctl.rready && i.rlast) (i.rresp ≠ 0)

def lost : List Bool :=
  match e with
  | .clk_main_a0 _ => []
  | .clk_hbm i => KernelReq.lost (req_hbm i s d) (s.req d)

variable (s : KernelChannel F P)

/-- The requests that `cl_axi_ctl` has counted and not sent. -/
def req_pend : Nat :=
  match d with
  | .wr => s.ctl.wr_req_pend_q.toNat
  | .rd => s.ctl.rd_req_pend_q.toNat

/-- The requests that are counted and have no burst. -/
def waiting : Nat := (s.req d).asking.length + s.req_pend d

/-- The responses on their way to `cl_kernel_regs`, the oldest first. -/
def completing : List Bool :=
  (s.req d).completing ++ shown (done_pulse s.ctl d) (err_pulse s.ctl d)

/-! ## Each edge -/

structure Inv : Prop where
  piped : ∀ d, (s.req d).Piped
  ctl : AxiCtl.Inv cfg_axlen s.ctl

variable {cfg_axlen d e s} {req_depth resp_depth : Nat}

theorem Inv.reset : Inv cfg_axlen (circuit F cfg_axlen).reset where
  piped _ := KernelReq.Piped.reset
  ctl := AxiCtl.Inv.reset

theorem completing_reset (hF : F.InOrder) : completing d (circuit F cfg_axlen).reset = [] := by
  unfold completing
  change KernelReq.completing (KernelReq.reset F P.NUM_OT) ++ _ = _
  rw [KernelReq.completing_reset hF]
  cases d <;> rfl

theorem Inv.step (h : Inv cfg_axlen s) : Inv cfg_axlen (step cfg_axlen e s) := by
  cases e with
  | clk_main_a0 i => exact ⟨fun d => (h.piped d).clk_main_a0, h.ctl⟩
  | clk_hbm i => exact ⟨fun d => (h.piped d).clk_hbm, h.ctl.step⟩

theorem asking_step (hF : F.InOrder) (hmay : MayShow req_depth resp_depth e s) :
    (s.req d).asking ++ requested d e s =
      pulsed d e s ++ ((step cfg_axlen e s).req d).asking := by
  cases e with
  | clk_main_a0 i => exact KernelReq.main_requests hF
  | clk_hbm i =>
    change (s.req d).asking ++ [] = _
    rw [List.append_nil]
    exact KernelReq.hbm_requests hF (hmay d)

theorem req_pend_step (h : Inv cfg_axlen s) :
    s.req_pend d + (counted d e s).length =
      (bursts d e s).length + (step cfg_axlen e s).req_pend d := by
  cases e with
  | clk_main_a0 i => exact Nat.add_comm ..
  | clk_hbm i =>
    cases d with
    | wr =>
      have hstep := AxiCtl.wr_req_step (i := axi_in i s) h.ctl
      unfold counted bursts AxiCtl.wr_accepted AxiCtl.aw_sent
      rw [AxiCtl.length_if, AxiCtl.fire_length, Nat.add_comm (Bool.toNat _)]
      exact hstep.symm
    | rd =>
      have hstep := AxiCtl.rd_req_step (i := axi_in i s) h.ctl
      unfold counted bursts AxiCtl.rd_accepted AxiCtl.ar_sent
      rw [AxiCtl.length_if, AxiCtl.fire_length, Nat.add_comm (Bool.toNat _)]
      exact hstep.symm

theorem shown_and (valid err : Bool) : shown valid (valid && err) = shown valid err := by
  cases valid <;> rfl

theorem answered_next (i : KernelHbm) :
    shown (done_pulse (step cfg_axlen (.clk_hbm i) s).ctl d)
        (err_pulse (step cfg_axlen (.clk_hbm i) s).ctl d) = answered d (.clk_hbm i) s := by
  cases d
  · exact shown_and ..
  · exact shown_and ..

theorem main_completing (hF : F.InOrder) (h : Inv cfg_axlen s) {i : KernelDir → KernelReqMain}
    (hmay : MayShow req_depth resp_depth (.clk_main_a0 i) s) :
    reported d (.clk_main_a0 i) s ++ completing d (step cfg_axlen (.clk_main_a0 i) s) =
      completing d s := by
  unfold completing
  rw [KernelReq.main_completions hF (hmay d) (h.piped d), List.append_assoc]
  rfl

theorem completing_step (hF : F.InOrder) (h : Inv cfg_axlen s)
    (hmay : MayShow req_depth resp_depth e s) :
    (reported d e s ++ completing d (step cfg_axlen e s)).Sublist
      (completing d s ++ answered d e s) := by
  cases e with
  | clk_main_a0 i =>
    rw [main_completing hF h hmay]
    exact List.sublist_append_left _ _
  | clk_hbm i =>
    unfold completing
    rw [answered_next]
    exact (KernelReq.hbm_completing hF).append (List.Sublist.refl _)

theorem completing_length (hF : F.InOrder) (h : Inv cfg_axlen s)
    (hmay : MayShow req_depth resp_depth e s) :
    (completing d s).length + (answered d e s).length = (reported d e s).length +
      (lost d e s).length + (completing d (step cfg_axlen e s)).length := by
  cases e with
  | clk_main_a0 i =>
    rw [← main_completing (d := d) hF h hmay, List.length_append]
    simp only [answered, lost, List.length_nil]
    omega
  | clk_hbm i =>
    have hreq := KernelReq.hbm_completing_length hF (j := req_hbm i s d) (s := s.req d)
    unfold completing
    rw [answered_next, List.length_append, List.length_append]
    simp only [reported, List.length_nil]
    change _ + (shown (done_pulse s.ctl d) (err_pulse s.ctl d)).length =
      (lost d (.clk_hbm i) s).length + _ at hreq
    change _ = 0 + _ + ((KernelReq.clk_hbm (req_hbm i s d) (s.req d)).completing.length + _)
    omega

theorem counted_sublist (e : KernelEdge) (s : KernelChannel F P) :
    (counted d e s).Sublist (pulsed d e s) := by
  have hinc : ∀ pulse room : Bool,
      (if pulse && room then [()] else []).Sublist (shown pulse ()) := by decide
  cases e with
  | clk_main_a0 i => exact List.Sublist.refl _
  | clk_hbm i =>
    cases d with
    | wr => exact hinc (s.req .wr).o_hbm_req_pulse _
    | rd => exact hinc (s.req .rd).o_hbm_req_pulse _

theorem counted_eq {i : KernelHbm} (hroom : (s.req d).o_hbm_req_pulse → s.req_pend d < P.NUM_OT) :
    counted d (.clk_hbm i) s = pulsed d (.clk_hbm i) s := by
  have hinc : ∀ {pulse : Bool} {pend : Nat}, (pulse → pend < P.NUM_OT) →
      (if pulse && decide (pend ≠ P.NUM_OT) then [()] else []) = shown pulse () := by
    intro pulse pend h
    cases pulse with
    | false => rfl
    | true => rw [Bool.true_and, decide_eq_true (Nat.ne_of_lt (h rfl))]; rfl
  cases d with
  | wr => exact hinc hroom
  | rd => exact hinc hroom

theorem reported_length_le (hF : F.InOrder) (h : Inv cfg_axlen s)
    (hmay : MayShow req_depth resp_depth e s) :
    (reported d e s).length ≤ (completing d s).length := by
  cases e with
  | clk_main_a0 i =>
    rw [← main_completing (d := d) hF h hmay, List.length_append]
    exact Nat.le_add_right ..
  | clk_hbm i => exact Nat.zero_le _

variable (cfg_axlen) in
theorem pend_step (hle : (s.req d).main_pend_txns_q.toNat ≤ P.NUM_OT)
    (hdec : (reported d e s).length ≤ (s.req d).main_pend_txns_q.toNat) :
    ((step cfg_axlen e s).req d).main_pend_txns_q.toNat + (reported d e s).length =
        (s.req d).main_pend_txns_q.toNat + (requested d e s).length ∧
      ((step cfg_axlen e s).req d).main_pend_txns_q.toNat ≤ P.NUM_OT := by
  cases e with
  | clk_hbm i => exact ⟨rfl, hle⟩
  | clk_main_a0 i =>
    have hreported : (reported d (.clk_main_a0 i) s).length = (s.req d).dec_pend_txn.toNat := by
      unfold reported KernelReq.reported KernelReq.dec_pend_txn
      cases (s.req d).o_main_req_done <;> rfl
    have hrequested : (requested d (.clk_main_a0 i) s).length =
        (KernelReq.inc_pend_txn (i d) (s.req d)).toNat := AxiCtl.length_if _
    have hinc : KernelReq.inc_pend_txn (i d) (s.req d) →
        (s.req d).main_pend_txns_q.toNat < P.NUM_OT := by
      intro h
      simpa using (Bool.and_eq_true_iff.mp h).2
    have hpos : (s.req d).dec_pend_txn → (s.req d).main_pend_txns_q ≠ 0 := by
      intro h
      rw [hreported, h, Bool.toNat_true] at hdec
      exact (AxiCtl.ne_zero_iff _).mpr hdec
    have hnext := AxiCtl.pend_nxt_toNat (AxiCtl.NUM_OT_lt P.NUM_OT) hle
      (fun h => Nat.ne_of_lt (hinc h)) hpos
    rw [hreported, hrequested]
    refine ⟨hnext, ?_⟩
    change (AxiCtl.pend_nxt _ _ _).toNat ≤ _
    cases hi : KernelReq.inc_pend_txn (i d) (s.req d) with
    | false =>
      rw [hi, Bool.toNat_false] at hnext
      omega
    | true =>
      have hlt := hinc hi
      rw [hi, Bool.toNat_true] at hnext
      omega

theorem pend_pipe_step (hle : (s.req d).main_pend_txns_q.toNat ≤ P.NUM_OT)
    (hpipe : ∀ p ∈ (s.req d).PIPE_PEND_MAIN, p.toNat ≤ P.NUM_OT) :
    ∀ p ∈ ((step cfg_axlen e s).req d).PIPE_PEND_MAIN, p.toNat ≤ P.NUM_OT := by
  cases e with
  | clk_hbm i => exact hpipe
  | clk_main_a0 i =>
    intro p hp
    change p ∈ lib_pipe _ _ at hp
    rcases List.mem_append.mp hp with hold | hnew
    · exact hpipe p (List.mem_of_mem_tail hold)
    · rw [List.mem_singleton.mp hnew, BitVec.toNat_setWidth]
      exact (Nat.mod_le _ _).trans hle

/-! ## Runs -/

variable (ins : Nat → KernelEdge)

/-- A burst is answered once, and not before its address is accepted. -/
def Answering (F : KernelFifos) (cfg_axlen : BitVec P.AXLEN_WIDTH) (ins : Nat → KernelEdge) : Prop :=
  ∀ d n, ((circuit F cfg_axlen).passed ins (answered d) n).length ≤
    ((circuit F cfg_axlen).passed ins (bursts d) n).length

/-- What the block owes to the host, in a direction before step `n`. -/
structure Tracked (F : KernelFifos) (cfg_axlen : BitVec P.AXLEN_WIDTH) (ins : Nat → KernelEdge)
    (d : KernelDir) (n : Nat) : Prop where
  /-- The count of a direction are the requests that are not reported, `NUM_OT` at most. -/
  pending : ((circuit F cfg_axlen).passed ins (requested d) n).length =
    ((circuit F cfg_axlen).passed ins (reported d) n).length +
      (((circuit F cfg_axlen).state ins n).req d).main_pend_txns_q.toNat
  within : (((circuit F cfg_axlen).state ins n).req d).main_pend_txns_q.toNat ≤ P.NUM_OT
  shown : (((circuit F cfg_axlen).state ins n).req d).o_main_pend_txns.toNat ≤ P.NUM_OT
  /-- Each request has its burst or waits. -/
  requests : ((circuit F cfg_axlen).passed ins (requested d) n).length =
    ((circuit F cfg_axlen).passed ins (bursts d) n).length +
      waiting d ((circuit F cfg_axlen).state ins n)
  /-- The responses are reported in order, each with its own error flag. -/
  answers : ((circuit F cfg_axlen).passed ins (reported d) n ++
      completing d ((circuit F cfg_axlen).state ins n)).Sublist
    ((circuit F cfg_axlen).passed ins (answered d) n)
  losses : ((circuit F cfg_axlen).passed ins (answered d) n).length =
    ((circuit F cfg_axlen).passed ins (reported d) n).length +
      ((circuit F cfg_axlen).passed ins (lost d) n).length +
      (completing d ((circuit F cfg_axlen).state ins n)).length

section Runs

variable {ins} (hF : F.InOrder)
  (hmay : ∀ n, MayShow req_depth resp_depth (ins n) ((circuit F cfg_axlen).state ins n))

theorem inv_state (n : Nat) : Inv cfg_axlen ((circuit F cfg_axlen).state ins n) :=
  Circuit.inv_state (m := fun _ _ => True) Inv.reset (fun _ _ _ => Inv.step) (fun _ => trivial) n

include hF hmay

theorem asking_eq (n : Nat) : (circuit F cfg_axlen).passed ins (requested d) n =
    (circuit F cfg_axlen).passed ins (pulsed d) n ++
      (((circuit F cfg_axlen).state ins n).req d).asking :=
  Circuit.passed_eq (fun s => (s.req d).asking) inv_state hmay
    (KernelReq.asking_reset hF) (fun _ _ hmay _ => asking_step hF hmay) n

theorem answers_sublist (n : Nat) : ((circuit F cfg_axlen).passed ins (reported d) n ++
      completing d ((circuit F cfg_axlen).state ins n)).Sublist
    ((circuit F cfg_axlen).passed ins (answered d) n) :=
  Circuit.passed_sublist (completing d) inv_state hmay (completing_reset hF)
    (fun _ _ hmay hinv => completing_step hF hinv hmay) n

theorem answers_lost (n : Nat) : ((circuit F cfg_axlen).passed ins (answered d) n).length =
    ((circuit F cfg_axlen).passed ins (reported d) n).length +
      ((circuit F cfg_axlen).passed ins (lost d) n).length +
      (completing d ((circuit F cfg_axlen).state ins n)).length :=
  Circuit.passed_lost_length (completing d) inv_state hmay (completing_reset hF)
    (fun _ _ hmay hinv => completing_length hF hinv hmay) n

omit hF hmay in
variable (F cfg_axlen ins d) in
theorem req_pend_eq (n : Nat) : ((circuit F cfg_axlen).passed ins (counted d) n).length =
    ((circuit F cfg_axlen).passed ins (bursts d) n).length +
      ((circuit F cfg_axlen).state ins n).req_pend d :=
  Circuit.passed_length_eq (fun s => s.req_pend d) (m := fun _ _ => True) inv_state
    (fun _ => trivial) (by cases d <;> rfl) (fun _ _ _ hinv => req_pend_step hinv) n

omit hF hmay in
variable (F cfg_axlen ins d) in
theorem counted_le (n : Nat) : ((circuit F cfg_axlen).passed ins (counted d) n).length ≤
    ((circuit F cfg_axlen).passed ins (pulsed d) n).length := by
  refine List.Sublist.length_le ?_
  have hstep : ∀ (e : KernelEdge) (s : KernelChannel F P), True → True →
      (counted d e s ++ []).Sublist ([] ++ pulsed d e s) := by
    intro e s _ _
    rw [List.append_nil]
    exact counted_sublist e s
  have h : ((circuit F cfg_axlen).passed ins (counted d) n ++ []).Sublist _ :=
    Circuit.passed_sublist (fun _ => []) (fun _ => trivial) (fun _ => trivial) rfl hstep n
  rwa [List.append_nil] at h

variable (hans : Answering F cfg_axlen ins)
include hans

/-- Requests are asked for, counted, sent and answered, in this order. -/
theorem answered_le (n : Nat) : ((circuit F cfg_axlen).passed ins (answered d) n).length +
      ((circuit F cfg_axlen).state ins n).waiting d ≤
    ((circuit F cfg_axlen).passed ins (requested d) n).length := by
  have hbursts := hans d n
  have hcount := req_pend_eq F cfg_axlen d ins n
  have hpulse := counted_le F cfg_axlen d ins n
  unfold waiting
  rw [asking_eq hF hmay, List.length_append]
  omega

theorem pend_eq (n : Nat) :
    ((circuit F cfg_axlen).passed ins (requested d) n).length =
        ((circuit F cfg_axlen).passed ins (reported d) n).length +
          (((circuit F cfg_axlen).state ins n).req d).main_pend_txns_q.toNat ∧
      (((circuit F cfg_axlen).state ins n).req d).main_pend_txns_q.toNat ≤ P.NUM_OT := by
  induction n with
  | zero => exact ⟨rfl, Nat.zero_le _⟩
  | succ n ih =>
    have hle := answered_le hF hmay hans (d := d) n
    have hlost := answers_lost hF hmay (d := d) n
    have hreported := reported_length_le (d := d) hF (inv_state n) (hmay n)
    have hnext := pend_step cfg_axlen (e := ins n) ih.2 (by omega)
    rw [Circuit.passed_succ, Circuit.passed_succ, List.length_append, List.length_append,
      Circuit.state_succ]
    refine ⟨?_, hnext.2⟩
    have hcount := hnext.1
    change (_ : Nat) + _ = _ + ((step cfg_axlen _ _).req d).main_pend_txns_q.toNat
    omega

theorem pend_pipe (n : Nat) :
    ∀ p ∈ (((circuit F cfg_axlen).state ins n).req d).PIPE_PEND_MAIN, p.toNat ≤ P.NUM_OT := by
  induction n with
  | zero =>
    intro p hp
    rw [List.eq_of_mem_replicate hp]
    exact Nat.zero_le _
  | succ n ih => exact pend_pipe_step (pend_eq hF hmay hans n).2 ih

theorem counted_all (n : Nat) : ((circuit F cfg_axlen).passed ins (counted d) n) =
    (circuit F cfg_axlen).passed ins (pulsed d) n := by
  induction n with
  | zero => rfl
  | succ n ih =>
    rw [Circuit.passed_succ, Circuit.passed_succ, ih]
    congr 1
    cases he : ins n with
    | clk_main_a0 i => rfl
    | clk_hbm i =>
      apply counted_eq
      intro hpulse
      have hle := answered_le hF hmay hans (d := d) n
      have hpend := pend_eq hF hmay hans (d := d) n
      have hlost := answers_lost hF hmay (d := d) n
      have hasking : 0 < (((circuit F cfg_axlen).state ins n).req d).asking.length := by
        unfold KernelReq.asking
        rw [hpulse]
        exact Nat.succ_pos _
      unfold waiting at hle
      omega

theorem requests_tracked (d : KernelDir) (n : Nat) : Tracked F cfg_axlen ins d n where
  pending := (pend_eq hF hmay hans n).1
  within := (pend_eq hF hmay hans n).2
  shown := by
    unfold KernelReq.o_main_pend_txns out_bus
    cases hpipe : (((circuit F cfg_axlen).state ins n).req d).PIPE_PEND_MAIN with
    | nil => exact Nat.zero_le _
    | cons p rest => exact pend_pipe hF hmay hans n p (by rw [hpipe]; exact List.mem_cons_self)
  requests := by
    rw [asking_eq hF hmay, List.length_append, ← counted_all hF hmay hans, req_pend_eq]
    unfold waiting
    omega
  answers := answers_sublist hF hmay n
  losses := answers_lost hF hmay n

end Runs

/-! ## One write -/

/-- A FIFO that keeps its words in a list. -/
def queue {α : Type} (zero : α) : XpmFifoAsync α where
  Regs := List α × Bool × α
  reset := ([], false, zero)
  wr_clk wr_en din r := (r.1 ++ if wr_en then [din] else [], r.2)
  rd_clk rd_en r := if rd_en then (r.1.tail, true, r.1.headD zero) else (r.1, false, r.2.2)
  data_valid r := r.2.1
  dout r := r.2.2
  stored r := r.1

theorem queue_in_order {α : Type} (zero : α) : (queue zero).InOrder where
  reset := ⟨rfl, rfl⟩
  wr_stored _ _ _ := rfl
  wr_out _ _ _ := ⟨rfl, rfl⟩
  rd_none _ := ⟨rfl, rfl⟩
  rd_stored r hne := by
    obtain ⟨a, rest, hstored⟩ := List.exists_cons_of_ne_nil hne
    change r.1 = a :: rest at hstored
    simp [queue, hstored]

def queues : KernelFifos := ⟨queue (), queue false⟩

theorem queues_in_order : queues.InOrder := ⟨queue_in_order (), queue_in_order false⟩

theorem forall_dir {p : KernelDir → Prop} : (p .wr ∧ p .rd) ↔ ∀ d, p d :=
  ⟨fun h d => by cases d; exacts [h.1, h.2], fun h => ⟨h .wr, h .rd⟩⟩

instance {p : KernelDir → Prop} [DecidablePred p] : Decidable (∀ d, p d) :=
  decidable_of_iff (p .wr ∧ p .rd) forall_dir

instance (e : KernelEdge) (s : KernelChannel F P) : Decidable (MayShow req_depth resp_depth e s) :=
  match e with
  | .clk_main_a0 i => inferInstanceAs (Decidable (∀ d, KernelReq.MainOk (i d) (s.req d) req_depth))
  | .clk_hbm i =>
    inferInstanceAs (Decidable (∀ d, KernelReq.HbmOk (req_hbm i s d) (s.req d) resp_depth))

/-- Nothing is started, and the flags let nothing pass. -/
def quiet : KernelEdge := .clk_main_a0 fun _ => ⟨false, true, true⟩

def main_edge (start full empty : Bool) : KernelEdge :=
  .clk_main_a0 fun d => ⟨start && d = .wr, full || d = .rd, empty || d = .rd⟩

def hbm_edge (empty awready wready bvalid : Bool) : KernelEdge :=
  .clk_hbm ⟨fun d => empty || d = .rd, fun _ => false, 0, awready, wready, 2, bvalid, false, 0,
    false, false⟩

/-- A burst of one beat, to which the answer is an error. -/
def one_write : List KernelEdge :=
  [main_edge true true true, quiet, quiet, quiet, main_edge false false true,
    hbm_edge false false false false, hbm_edge true false false false,
    hbm_edge true false false false, hbm_edge true false false false,
    hbm_edge true true false false, hbm_edge true false true false, hbm_edge true false false true,
    hbm_edge true false false false, hbm_edge true false false false, main_edge false true false,
    quiet, quiet, quiet, quiet, quiet]

def one_write_run (n : Nat) : KernelEdge := one_write.getD n quiet

abbrev channel_zero : AxiCtlParams := (AxiCtl.hbm_channel 0).toAxiCtlParams

theorem one_write_rest {n : Nat} (hn : 20 ≤ n) : one_write_run n = quiet := by
  unfold one_write_run
  rw [List.getD_eq_getElem?_getD, List.getElem?_eq_none hn]
  rfl

theorem quiet_may_show (s : KernelChannel F P) : MayShow req_depth resp_depth quiet s :=
  fun _ => ⟨fun _ => rfl, fun _ => rfl⟩

theorem one_write_may_show (n : Nat) : MayShow 64 16 (one_write_run n)
    ((circuit queues (P := channel_zero) (0 : BitVec 4)).state one_write_run n) := by
  by_cases hn : n < 20
  · exact (by decide : ∀ n < 20, MayShow 64 16 (one_write_run n)
      ((circuit queues (P := channel_zero) (0 : BitVec 4)).state one_write_run n)) n hn
  · rw [one_write_rest (by omega)]
    exact quiet_may_show _

theorem one_write_answering : Answering queues (P := channel_zero) (0 : BitVec 4) one_write_run := by
  intro d n
  have hstart : ∀ d, ∀ n ≤ 20,
      ((circuit queues (P := channel_zero) (0 : BitVec 4)).passed one_write_run (answered d) n).length ≤
        ((circuit queues (P := channel_zero) (0 : BitVec 4)).passed one_write_run (bursts d) n).length :=
    by decide
  by_cases hn : n ≤ 20
  · exact hstart d n hn
  · have hle : 20 ≤ n := by omega
    rw [Circuit.passed_eq_of_nil (k := 20) (fun k hk => by rw [one_write_rest hk]; rfl) n hle]
    exact (hstart d 20 (Nat.le_refl _)).trans
      (Circuit.passed_prefix hle).length_le

/-- In the end the write is reported, with its error. -/
theorem one_write_tracked : Tracked queues (P := channel_zero) (0 : BitVec 4) one_write_run .wr 20 ∧
    (circuit queues (P := channel_zero) (0 : BitVec 4)).passed one_write_run (reported .wr) 20 = [true] :=
  ⟨requests_tracked queues_in_order one_write_may_show one_write_answering .wr 20, by decide⟩

end KernelChannel

end AwsFpga.Rtl
