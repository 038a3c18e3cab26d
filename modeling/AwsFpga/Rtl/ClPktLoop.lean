import AwsFpga.Rtl.ClPktRx

/-!
# The loop back of the packet generator

The checker takes what the generator shows in each cycle in which it is valid, whether it is
accepted or not.
-/

open Lib Lib.Axi

namespace AwsFpga.Rtl.PktTst

open PktTx PktChk

variable {DATA_DW : Nat} {start : PktTst DATA_DW} {ins : Nat → PktIn DATA_DW}

/-- What the checker takes from the generator. -/
def sampled (_ : PktIn DATA_DW) (s : PktTst DATA_DW) : List (PktBeat DATA_DW) :=
  shown s.tx.axis_tx_tvalid s.tx.axis_tx

/-- The checker takes each beat once, in order. What it counts comes one cycle later. -/
structure LoopsBack (start : PktTst DATA_DW) (ins : Nat → PktIn DATA_DW) : Prop where
  once : ∀ n, (resume start).passed ins sampled n = (resume start).passed ins axis_tx_sent n
  raw_data : ∀ n, ((resume start).state ins (n + 1)).chk.rx_raw_data_cnt =
    ((resume start).state ins 1).chk.rx_raw_data_cnt +
      BitVec.ofNat 64 ((resume start).passed ins axis_tx_sent n).length
  raw_pkt : ∀ n, ((resume start).state ins (n + 1)).chk.rx_raw_pkt_cnt =
    ((resume start).state ins 1).chk.rx_raw_pkt_cnt +
      BitVec.ofNat 64 (pkts ((resume start).passed ins axis_tx_sent n))
  /-- From the second beat on none is wrong. -/
  no_mismatch : ∀ n, pkts ((resume start).passed ins axis_tx_sent (n + 1)) < 2 ^ 32 →
    1 ≤ ((resume start).passed ins sampled n).length →
    ((resume start).state ins (n + 1)).chk.mismatch start.cfg
      ((resume start).state ins (n + 1)).rx_tvalid ((resume start).state ins (n + 1)).rx_t = false

/-! ## The samples -/

theorem loop_flops (h : Quiet start ins) (hloop : start.cfg.rx_loopback) (n : Nat) :
    ((resume start).state ins (n + 1)).rx_tvalid =
        ((resume start).state ins n).tx.axis_tx_tvalid ∧
      ((resume start).state ins (n + 1)).rx_t = ((resume start).state ins n).tx.axis_tx := by
  change (if ((resume start).state ins n).cfg.rx_loopback then _ else _) = _ ∧
    (if ((resume start).state ins n).cfg.rx_loopback then _ else _) = _
  rw [quiet_cfg h, hloop]
  exact ⟨rfl, rfl⟩

theorem checked_of_loop (h : Quiet start ins) (hloop : start.cfg.rx_loopback) (n : Nat) :
    (resume ((resume start).state ins 1)).passed (fun k => ins (1 + k)) rx_checked n =
      (resume start).passed ins sampled n := by
  induction n with
  | zero => rfl
  | succ n ih =>
    have hstate : (resume ((resume start).state ins 1)).state (fun k => ins (1 + k)) n =
        (resume start).state ins (n + 1) := by
      rw [Nat.add_comm n]
      exact Circuit.state_shift 1 n
    obtain ⟨hvalid, hbeat⟩ := loop_flops h hloop n
    rw [Circuit.passed_succ, Circuit.passed_succ, ih, hstate]
    unfold rx_checked sampled
    rw [hvalid, hbeat]

theorem Quiet.succ (h : Quiet start ins) : Quiet ((resume start).state ins 1) fun k => ins (1 + k) :=
  ⟨quiet_port h 1, fun n => h.wr (1 + n)⟩

theorem loop_mismatch (h : Quiet start ins) (hloop : start.cfg.rx_loopback)
    (hmodes : SameModes start.cfg start.cfg) {n : Nat}
    (hfollow : Follows start.cfg ((resume start).passed ins sampled (n + 1)))
    (hpos : 1 ≤ ((resume start).passed ins sampled n).length) :
    ((resume start).state ins (n + 1)).chk.mismatch start.cfg
      ((resume start).state ins (n + 1)).rx_tvalid ((resume start).state ins (n + 1)).rx_t =
        false := by
  have hcfg : ((resume start).state ins 1).cfg = start.cfg := quiet_cfg h 1
  have hstate : (resume ((resume start).state ins 1)).state (fun k => ins (1 + k)) n =
      (resume start).state ins (n + 1) := by
    rw [Nat.add_comm n]
    exact Circuit.state_shift 1 n
  rw [← checked_of_loop h hloop] at hfollow hpos
  have hmis := mismatch_state h.succ (hcfg.symm ▸ hmodes) hfollow hpos
  rwa [hstate, hcfg] at hmis

/-! ## The counts -/

theorem raw_data_succ (h : Quiet start ins) (hloop : start.cfg.rx_loopback) (n : Nat) :
    ((resume start).state ins (n + 1)).chk.rx_raw_data_cnt =
      ((resume start).state ins 1).chk.rx_raw_data_cnt +
        BitVec.ofNat 64 ((resume start).passed ins sampled n).length := by
  induction n with
  | zero => simp
  | succ n ih =>
    rw [chk_succ h, Circuit.passed_succ, List.length_append, BitVec.ofNat_add, ← BitVec.add_assoc,
      ← ih]
    obtain ⟨hvalid, -⟩ := loop_flops h hloop n
    simp only [PktChk.step, PktChk.count, sampled, hvalid]
    cases ((resume start).state ins n).tx.axis_tx_tvalid <;> simp

theorem pkts_shown (valid : Bool) (b : PktBeat DATA_DW) :
    pkts (shown valid b) = (valid && b.tlast).toNat := by
  cases valid with
  | false => rfl
  | true =>
    unfold pkts
    rw [shown_true, List.map_singleton, List.count_singleton]
    cases b.tlast <;> rfl

theorem raw_pkt_succ (h : Quiet start ins) (hloop : start.cfg.rx_loopback) (n : Nat) :
    ((resume start).state ins (n + 1)).chk.rx_raw_pkt_cnt =
      ((resume start).state ins 1).chk.rx_raw_pkt_cnt +
        BitVec.ofNat 64 (pkts ((resume start).passed ins sampled n)) := by
  induction n with
  | zero => simp [pkts]
  | succ n ih =>
    rw [chk_succ h, Circuit.passed_succ, pkts_append, BitVec.ofNat_add, ← BitVec.add_assoc, ← ih]
    obtain ⟨hvalid, hbeat⟩ := loop_flops h hloop n
    rw [sampled, pkts_shown]
    simp only [PktChk.step, PktChk.count, hvalid, hbeat]
    cases ((resume start).state ins n).tx.axis_tx_tvalid &&
      ((resume start).state ins n).tx.axis_tx.tlast <;> simp

/-- The checker takes each beat once exactly when each beat that is shown is accepted at once. -/
theorem loops_back_iff (h : Quiet start ins) (hready : TxReady start)
    (hloop : start.cfg.rx_loopback) (hmodes : SameModes start.cfg start.cfg) :
    LoopsBack start ins ↔ ∀ n, ((resume start).state ins n).tx.axis_tx_tvalid →
      (ins n).axis_tx_tready := by
  constructor
  · intro hloops n hvalid
    have hnow := hloops.once n
    have hnext := congrArg List.length (hloops.once (n + 1))
    rw [Circuit.passed_succ, Circuit.passed_succ, hnow, List.length_append, List.length_append,
      sampled, axis_tx_sent, hvalid] at hnext
    by_contra hnot
    rw [eq_false_of_ne_true hnot] at hnext
    simp at hnext
  · intro haccept
    have honce : ∀ n, (resume start).passed ins sampled n =
        (resume start).passed ins axis_tx_sent n := by
      intro n
      induction n with
      | zero => rfl
      | succ n ih =>
        rw [Circuit.passed_succ, Circuit.passed_succ, ih, sampled, axis_tx_sent]
        cases hvalid : ((resume start).state ins n).tx.axis_tx_tvalid
        · rfl
        · rw [haccept n hvalid]
          rfl
    refine ⟨honce, ?_, ?_, ?_⟩
    · intro n
      rw [raw_data_succ h hloop, honce]
    · intro n
      rw [raw_pkt_succ h hloop, honce]
    · intro n hfew hpos
      refine loop_mismatch h hloop hmodes ?_ hpos
      rw [honce]
      exact tx_follows h hready hfew

/-! ## A receiver that waits -/

/-- One packet to send, in a loop. -/
def one_loop : PktTst 16 := { one_packet with cfg := { one_packet.cfg with rx_loopback := true } }

def never_ready (_ : Nat) : PktIn 16 where
  cfg_addr := 0
  cfg_wdata := 0
  cfg_wr := false
  cfg_rd := false
  axis_tx_tready := false
  axis_rx_tvalid := false
  axis_rx := ⟨0, false, 0⟩

theorem one_loop_quiet : Quiet one_loop never_ready := ⟨rfl, fun _ => rfl⟩

theorem one_loop_ready : TxReady one_loop := ⟨rfl, rfl, rfl, rfl⟩

theorem one_loop_modes : SameModes one_loop.cfg one_loop.cfg := ⟨rfl, rfl, rfl⟩

theorem one_loop_waits : LoopsBack one_loop never_ready ↔
    ∀ n, ((resume one_loop).state never_ready n).tx.axis_tx_tvalid →
      (never_ready n).axis_tx_tready :=
  loops_back_iff one_loop_quiet one_loop_ready rfl one_loop_modes

/-- A beat that waits is taken again in each cycle. -/
theorem not_loops_back : ¬ ∀ (start : PktTst 16) (ins : Nat → PktIn 16), Quiet start ins →
    TxReady start → start.cfg.rx_loopback → SameModes start.cfg start.cfg → LoopsBack start ins := by
  intro h
  have hloops := h one_loop never_ready one_loop_quiet one_loop_ready rfl one_loop_modes
  have honce := congrArg List.length (hloops.once 20)
  exact absurd honce (by decide +kernel)

end AwsFpga.Rtl.PktTst
