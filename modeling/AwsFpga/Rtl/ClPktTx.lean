import AwsFpga.Lib.LeadsTo
import AwsFpga.Rtl.ClPktTst

/-!
# What the packet generator sends

The machine stops in `PKT_END` when enough packets were counted, and the packet that ends there
is counted after that.
-/

open Lib Lib.Axi

namespace AwsFpga.Rtl.PktTx

/-! ## Packets and data -/

section Spec

variable (c : PktCfg)

/-- The length of packet `k`. -/
def pktlen : Nat → BitVec 32
  | 0 => c.tx_pktlen_min
  | k + 1 => next_tx_pktlen c (pktlen k)

/-- The marks of a packet. A length of 0 is one of 2^32. -/
def packet (len : BitVec 32) : List Bool := beats (len - 1).toNat

def packets (k : Nat) : List Bool := (List.range k).flatMap fun j => packet (pktlen c j)

/-- The words that beat `j` is made of. -/
def word_0 : Nat → BitVec 32
  | 0 => c.tx_seed_0
  | j + 1 => next_tx_data_0 c (word_0 j)

def word_1 : Nat → BitVec 32
  | 0 => c.tx_seed_1
  | j + 1 => next_tx_data_1 c (word_1 j)

def beat_at (DATA_DW j : Nat) : BitVec (32 * DATA_DW) :=
  pkt_tdata DATA_DW c.tx_no_scramble (word_0 c j) (word_1 c j)

theorem packets_succ (k : Nat) : packets c (k + 1) = packets c k ++ packet (pktlen c k) := by
  simp [packets, List.range_succ]

theorem packets_grow {j k : Nat} (h : j ≤ k) : packets c j <+: packets c k := by
  induction h with
  | refl => exact List.prefix_rfl
  | step _ ih =>
    rw [packets_succ]
    exact ih.trans (List.prefix_append _ _)

theorem packet_count (len : BitVec 32) : (packet len).count true = 1 := by
  simp [packet, beats, List.count_replicate]

theorem packets_count (k : Nat) : (packets c k).count true = k := by
  induction k with
  | zero => rfl
  | succ k ih => rw [packets_succ, List.count_append, ih, packet_count]

end Spec

variable {DATA_DW : Nat} (c : PktCfg)

/-- `done` packets and `part` beats of the next one are sent. Until the counter of packets comes
round, no word is missing. -/
structure Sent (log : List (PktBeat DATA_DW)) (done part : Nat) : Prop where
  last : log.map (·.tlast) = packets c done ++ List.replicate part false
  data : done < 2 ^ 64 → log.map (fun b => (b.tdata, b.tkeep)) =
    (List.range log.length).map fun j => (beat_at c DATA_DW j, BitVec.allOnes _)

theorem Sent.among {log : List (PktBeat DATA_DW)} {done part k : Nat} (h : Sent c log done part)
    (hpart : part ≤ (pktlen c done - 1).toNat) (hk : done < k) :
    log.map (·.tlast) <+: packets c k := by
  have hpacket : List.replicate part false <+: packet (pktlen c done) := by
    obtain ⟨d, hd⟩ := Nat.exists_eq_add_of_le hpart
    rw [packet, beats, hd, List.replicate_add, List.append_assoc]
    exact List.prefix_append _ _
  refine List.IsPrefix.trans ?_ (packets_grow c hk)
  rw [h.last, packets_succ]
  exact (List.prefix_append_right_inj _).mpr hpacket

/-- Packet `done` is the one in turn. -/
structure Turn (log : List (PktBeat DATA_DW)) (t : PktTx DATA_DW) (done : Nat) : Prop where
  cnt : t.tx_pkt_cnt = BitVec.ofNat 64 done
  len : t.tx_pktlen = pktlen c done
  few : c.tx_num_pkts_en → done ≤ c.tx_num_pkts.toNat

/-- The data registers have the words of the next beat. -/
def Loaded (log : List (PktBeat DATA_DW)) (t : PktTx DATA_DW) (done : Nat) : Prop :=
  done < 2 ^ 64 → t.tx_data_0 = word_0 c log.length ∧ t.tx_data_1 = word_1 c log.length

/-- Where the generator is, from its first cycle on. -/
inductive Phase (log : List (PktBeat DATA_DW)) (t : PktTx DATA_DW) : Prop
  | wait (state : t.tx_pkt_state = .WAIT) (cnt : t.tx_pkt_cnt = 0) (none : log = [])
  | start (done : Nat) (state : t.tx_pkt_state = .PKT_START) (turn : Turn c log t done)
      (sent : Sent c log done 0) (loaded : 0 < done → Loaded c log t done)
  | data (done : Nat) (state : t.tx_pkt_state = .PKT_DATA) (turn : Turn c log t done)
      (sent : Sent c log done t.tx_slice_idx.toNat) (loaded : Loaded c log t done)
      (idx : t.tx_slice_idx.toNat ≤ (t.tx_pktlen - 1).toNat)
  | last (done : Nat) (state : t.tx_pkt_state = .PKT_END) (turn : Turn c log t done)
      (sent : Sent c log (done + 1) 0) (loaded : Loaded c log t done)
  | finished (state : t.tx_pkt_state = .IDLE) (some : c.tx_num_pkts_en)
      (cnt : t.tx_pkt_cnt = BitVec.ofNat 64 (c.tx_num_pkts.toNat + 1))
      (sent : Sent c log (c.tx_num_pkts.toNat + 1) 0)

variable {c} {log : List (PktBeat DATA_DW)} {t : PktTx DATA_DW} {r : Bool}

theorem tx_push_of_ne (h : t.tx_pkt_state ≠ .PKT_DATA) (h' : t.tx_pkt_state ≠ .PREAMBLE) :
    t.tx_push c = none := by
  simp [tx_push, tx_ff_tvalid, h, h']

theorem step_state (hen : c.tx_en) :
    (step c false r t).tx_pkt_state = next_tx_pkt_state c t := if_pos hen

theorem Sent.nil : Sent c ([] : List (PktBeat DATA_DW)) 0 0 := ⟨rfl, fun _ => rfl⟩

theorem Phase.of_idle (hen : c.tx_en) (state : t.tx_pkt_state = .IDLE) (cnt : t.tx_pkt_cnt = 0) :
    Phase c ([] : List (PktBeat DATA_DW)) (step c false r t) := by
  refine .wait ?_ ?_ rfl
  · simp [step_state hen, next_tx_pkt_state, state, cnt, hen]
  · simp [step, state, cnt]

theorem Phase.of_wait (hen : c.tx_en) (state : t.tx_pkt_state = .WAIT) (cnt : t.tx_pkt_cnt = 0) :
    Phase c ([] : List (PktBeat DATA_DW)) (step c false r t) := by
  have hcnt : (step c false r t).tx_pkt_cnt = 0 := by simp [step, state, cnt]
  cases hdone : t.wait_done
  · exact .wait (by simp [step_state hen, next_tx_pkt_state, state, hdone]) hcnt rfl
  · refine .start 0 (by simp [step_state hen, next_tx_pkt_state, state, hdone]) ⟨hcnt, ?_, ?_⟩ .nil ?_
    · simp [step, state, hdone, pktlen]
    · exact fun _ => Nat.zero_le _
    · exact fun hpos => absurd hpos (Nat.lt_irrefl 0)

theorem ofNat_eq_zero {done : Nat} (h : done < 2 ^ 64) : BitVec.ofNat 64 done = 0#64 ↔ done = 0 := by
  rw [← BitVec.toNat_inj, BitVec.toNat_ofNat, Nat.mod_eq_of_lt h]
  rfl

theorem Phase.of_start (hen : c.tx_en) {done : Nat} (state : t.tx_pkt_state = .PKT_START)
    (turn : Turn c log t done) (sent : Sent c log done 0) (loaded : 0 < done → Loaded c log t done) :
    Phase c log (step c false r t) := by
  refine .data done ?_ ⟨?_, ?_, turn.few⟩ ?_ ?_ ?_
  · simp [step_state hen, next_tx_pkt_state, state]
  · simp [step, state, turn.cnt]
  · simp [step, state, turn.len]
  · have hidx : (step c false r t).tx_slice_idx = 0 := by simp [step, state]
    rw [hidx]
    exact sent
  · intro hlt
    by_cases hzero : done = 0
    · subst hzero
      have hnil : log = [] := List.map_eq_nil_iff.mp sent.last
      simp [step, seeds, state, turn.cnt, hnil, word_0, word_1]
    · have hcnt : ¬ BitVec.ofNat 64 done = 0#64 := fun h => hzero ((ofNat_eq_zero hlt).mp h)
      have hseeds : t.seeds = false := by simp [seeds, turn.cnt, hcnt]
      have hkeep := loaded (Nat.pos_of_ne_zero hzero) hlt
      simpa [step, hseeds, slice_sent, state] using hkeep
  · have hidx : (step c false r t).tx_slice_idx = 0 := by simp [step, state]
    rw [hidx]
    exact Nat.zero_le _

theorem tx_push_data (state : t.tx_pkt_state = .PKT_DATA) (hready : t.tx_ff_tready) :
    t.tx_push c = some (t.tx_ff c) := by
  simp [tx_push, tx_ff_tvalid, state, hready]

theorem tx_ff_tlast (state : t.tx_pkt_state = .PKT_DATA) :
    (t.tx_ff c).tlast = decide (t.tx_slice_idx = t.tx_pktlen - 1#32) := by
  simp [tx_ff, state]

theorem tx_ff_data (state : t.tx_pkt_state = .PKT_DATA) :
    ((t.tx_ff c).tdata, (t.tx_ff c).tkeep) =
      (pkt_tdata DATA_DW c.tx_no_scramble t.tx_data_0 t.tx_data_1, BitVec.allOnes _) := by
  simp [tx_ff, state]

theorem Sent.beat {done part : Nat} (h : Sent c log done part)
    (state : t.tx_pkt_state = .PKT_DATA) (hload : Loaded c log t done) (hlt : done < 2 ^ 64) :
    (log ++ [t.tx_ff c]).map (fun b => (b.tdata, b.tkeep)) =
      (List.range (log ++ [t.tx_ff c]).length).map fun j =>
        (beat_at c DATA_DW j, BitVec.allOnes _) := by
  obtain ⟨h0, h1⟩ := hload hlt
  rw [List.length_append, List.length_singleton, List.map_append, h.data hlt, List.range_succ,
    List.map_append, List.map_singleton, tx_ff_data state, h0, h1]
  rfl

theorem Loaded.next {done : Nat} (h : Loaded c log t done) (state : t.tx_pkt_state = .PKT_DATA)
    (hready : t.tx_ff_tready) (b : PktBeat DATA_DW) :
    Loaded c (log ++ [b]) (step c false r t) done := by
  intro hlt
  obtain ⟨h0, h1⟩ := h hlt
  rw [List.length_append, List.length_singleton]
  simp [step, seeds, slice_sent, state, hready, h0, h1, word_0, word_1]

theorem idx_succ {idx len : BitVec 32} (h : idx.toNat < len.toNat) :
    (idx + 1).toNat = idx.toNat + 1 := by
  have hone : (1 : BitVec 32).toNat = 1 := rfl
  rw [BitVec.toNat_add_of_lt (by rw [hone]; omega), hone]

theorem Phase.of_data (hen : c.tx_en) {done : Nat} (state : t.tx_pkt_state = .PKT_DATA)
    (turn : Turn c log t done) (sent : Sent c log done t.tx_slice_idx.toNat)
    (loaded : Loaded c log t done) (idx : t.tx_slice_idx.toNat ≤ (t.tx_pktlen - 1).toNat) :
    Phase c (log ++ (t.tx_push c).toList) (step c false r t) := by
  have hcnt : (step c false r t).tx_pkt_cnt = t.tx_pkt_cnt := by simp [step, state]
  have hlen : (step c false r t).tx_pktlen = t.tx_pktlen := by simp [step, state]
  have hturn : Turn c (log ++ (t.tx_push c).toList) (step c false r t) done :=
    ⟨hcnt.trans turn.cnt, hlen.trans turn.len, turn.few⟩
  cases hready : t.tx_ff_tready
  · have hnone : t.tx_push c = none := by simp [tx_push, hready]
    have hidx : (step c false r t).tx_slice_idx = t.tx_slice_idx := by
      simp [step, slice_sent, state, hready]
    have hkeep : Loaded c log (step c false r t) done := by
      simpa [Loaded, step, seeds, slice_sent, state, hready] using loaded
    refine .data done ?_ hturn ?_ ?_ ?_
    · simp [step_state hen, next_tx_pkt_state, state, hready]
    · simpa [hnone, hidx] using sent
    · simpa [hnone] using hkeep
    · rw [hidx, hlen]
      exact idx
  · rw [tx_push_data state hready] at hturn ⊢
    have hload := loaded.next (r := r) state hready
    by_cases hlast : t.tx_slice_idx = t.tx_pktlen - 1#32
    · refine .last done ?_ hturn ⟨?_, ?_⟩ (hload _)
      · simp [step_state hen, next_tx_pkt_state, state, hready, hlast]
      · rw [Option.toList_some, List.map_append, sent.last, packets_succ, ← turn.len,
          List.map_singleton, tx_ff_tlast state, decide_eq_true hlast, hlast]
        simp [packet, beats]
      · exact fun hlt => sent.beat state loaded (Nat.lt_of_succ_lt hlt)
    · have hlt : t.tx_slice_idx.toNat < (t.tx_pktlen - 1).toNat :=
        Nat.lt_of_le_of_ne idx fun h => hlast (BitVec.eq_of_toNat_eq h)
      have hidx : (step c false r t).tx_slice_idx.toNat = t.tx_slice_idx.toNat + 1 := by
        rw [← idx_succ hlt]
        simp [step, slice_sent, state, hready]
      refine .data done ?_ hturn ⟨?_, ?_⟩ (hload _) ?_
      · simp [step_state hen, next_tx_pkt_state, state, hlast]
      · rw [Option.toList_some, List.map_append, sent.last, hidx, List.replicate_succ',
          List.map_singleton, tx_ff_tlast state, decide_eq_false hlast, List.append_assoc]
      · exact fun hbound => sent.beat state loaded hbound
      · rw [hidx, hlen]
        exact hlt

theorem Phase.of_last (hen : c.tx_en) {done : Nat} (state : t.tx_pkt_state = .PKT_END)
    (turn : Turn c log t done) (sent : Sent c log (done + 1) 0) (loaded : Loaded c log t done) :
    Phase c log (step c false r t) := by
  have hcnt : (step c false r t).tx_pkt_cnt = BitVec.ofNat 64 (done + 1) := by
    simp [step, state, turn.cnt, BitVec.ofNat_add]
  have hnum : (c.tx_num_pkts.setWidth 64).toNat = c.tx_num_pkts.toNat := by
    rw [BitVec.toNat_setWidth]
    exact Nat.mod_eq_of_lt (by omega)
  by_cases hstop : c.tx_num_pkts_en ∧ c.tx_num_pkts.setWidth 64 ≤ t.tx_pkt_cnt
  · obtain ⟨hnum_en, hle⟩ := hstop
    have hfew := turn.few hnum_en
    have hdone : done = c.tx_num_pkts.toNat := by
      rw [BitVec.le_def, hnum, turn.cnt, BitVec.toNat_ofNat] at hle
      omega
    subst hdone
    refine .finished ?_ hnum_en hcnt sent
    simp [step_state hen, next_tx_pkt_state, state, hnum_en, hle]
  · refine .start (done + 1) ?_ ⟨hcnt, ?_, ?_⟩ sent ?_
    · rw [step_state hen]
      simpa [next_tx_pkt_state, state] using hstop
    · simp [step, state, turn.len, pktlen]
    · intro hnum_en
      have hfew := turn.few hnum_en
      have hlt : ¬ c.tx_num_pkts.setWidth 64 ≤ t.tx_pkt_cnt := fun h => hstop ⟨hnum_en, h⟩
      rw [BitVec.le_def, hnum, turn.cnt, BitVec.toNat_ofNat] at hlt
      omega
    · intro _ hlt
      have hkeep := loaded (by omega)
      simpa [step, seeds, slice_sent, state] using hkeep

theorem idle_of_finished (hen : c.tx_en) (state : t.tx_pkt_state = .IDLE) (some : c.tx_num_pkts_en)
    (cnt : t.tx_pkt_cnt = BitVec.ofNat 64 (c.tx_num_pkts.toNat + 1)) :
    (step c false r t).tx_pkt_state = .IDLE := by
  have hne : ¬ BitVec.ofNat 64 (c.tx_num_pkts.toNat + 1) = 0#64 := fun h =>
    Nat.succ_ne_zero _ ((ofNat_eq_zero (by omega)).mp h)
  rw [step_state hen]
  simp only [next_tx_pkt_state, state, some, cnt]
  simpa using fun _ => hne

theorem Phase.of_finished (hen : c.tx_en) (state : t.tx_pkt_state = .IDLE)
    (some : c.tx_num_pkts_en) (cnt : t.tx_pkt_cnt = BitVec.ofNat 64 (c.tx_num_pkts.toNat + 1))
    (sent : Sent c log (c.tx_num_pkts.toNat + 1) 0) : Phase c log (step c false r t) :=
  .finished (idle_of_finished hen state some cnt) some (by simp [step, state, cnt]) sent

theorem Phase.step (hen : c.tx_en) (h : Phase c log t) :
    Phase c (log ++ (t.tx_push c).toList) (step c false r t) := by
  have hnone : t.tx_pkt_state ≠ .PKT_DATA → t.tx_pkt_state ≠ .PREAMBLE →
      log ++ (t.tx_push c).toList = log := by
    intro hdata hpre
    rw [tx_push_of_ne hdata hpre, Option.toList_none, List.append_nil]
  cases h with
  | wait state cnt none =>
    rw [hnone (by simp [state]) (by simp [state]), none]
    exact .of_wait hen state cnt
  | start done state turn sent loaded =>
    rw [hnone (by simp [state]) (by simp [state])]
    exact .of_start hen state turn sent loaded
  | data done state turn sent loaded idx => exact .of_data hen state turn sent loaded idx
  | last done state turn sent loaded =>
    rw [hnone (by simp [state]) (by simp [state])]
    exact .of_last hen state turn sent loaded
  | finished state some cnt sent =>
    rw [hnone (by simp [state]) (by simp [state])]
    exact .of_finished hen state some cnt sent

/-! ## The FIFO -/

theorem fifo_step (hle : t.tx_fifo.length ≤ 3) :
    t.tx_fifo ++ (t.tx_push c).toList =
      fire t.axis_tx_tvalid r t.axis_tx ++ (step c false r t).tx_fifo := by
  have hpush : t.tx_fifo.length < 3 ∨ t.tx_push c = none := by
    by_cases h : t.tx_fifo.length < 3
    · exact .inl h
    · refine .inr ?_
      have hfull : t.tx_ff_tready = false := by
        simp only [tx_ff_tready, watermark, Bool.not_eq_false', decide_eq_true_eq]
        omega
      simp [tx_push, hfull]
  have hpop : t.axis_tx_tvalid && r → t.tx_fifo ≠ [] := by
    intro h
    simpa [axis_tx_tvalid] using (Bool.and_eq_true_iff.mp h).1
  have hfifo : (step c false r t).tx_fifo =
      (if t.axis_tx_tvalid && r then t.tx_fifo.tail else t.tx_fifo) ++ (t.tx_push c).toList :=
    flop_fifo_eq hpush hpop
  rw [hfifo, ← List.append_assoc]
  congr 1
  unfold fire
  split
  case isTrue h =>
    obtain ⟨b, bs, hbs⟩ := List.exists_cons_of_ne_nil (hpop h)
    simp [axis_tx, hbs]
  case isFalse => rfl

theorem fifo_of_none (hnone : t.tx_push c = none) : (step c false r t).tx_fifo =
    if r then t.tx_fifo.tail else t.tx_fifo := by
  change flop_fifo 3 (t.tx_push c) (t.axis_tx_tvalid && r) t.tx_fifo = _
  unfold flop_fifo axis_tx_tvalid
  rw [hnone]
  cases t.tx_fifo <;> cases r <;> simp

theorem fifo_le (hle : t.tx_fifo.length ≤ 3) : (step c false r t).tx_fifo.length ≤ 3 := by
  change (flop_fifo 3 _ _ _).length ≤ 3
  unfold flop_fifo
  have hone : (t.tx_push c).toList.length ≤ 1 := by cases t.tx_push c <;> simp
  dsimp only
  split <;> split <;> simp <;> omega

/-! ## How much is left -/

variable (c t) in
/-- A bound on the beats and the steps that are left. A packet has at most 2^32 beats. -/
def left : Nat :=
  match t.tx_pkt_state with
  | .WAIT => (c.tx_num_pkts.toNat + 1) * (2 ^ 32 + 4) + (16 - t.tx_wait_cnt.toNat)
  | .PKT_START => (c.tx_num_pkts.toNat - t.tx_pkt_cnt.toNat) * (2 ^ 32 + 4) + (2 ^ 32 + 3)
  | .PKT_DATA => (c.tx_num_pkts.toNat - t.tx_pkt_cnt.toNat) * (2 ^ 32 + 4) +
      ((t.tx_pktlen - 1).toNat - t.tx_slice_idx.toNat) + 2
  | .PKT_END => (c.tx_num_pkts.toNat - t.tx_pkt_cnt.toNat) * (2 ^ 32 + 4) + 1
  | _ => 0

theorem left_wait (hen : c.tx_en) (state : t.tx_pkt_state = .WAIT) (cnt : t.tx_pkt_cnt = 0) :
    left c (step c false r t) < left c t := by
  have hstate := step_state (t := t) (r := r) hen
  have hcnt : (step c false r t).tx_pkt_cnt = 0 := by simp [step, state, cnt]
  cases hdone : t.wait_done
  · rw [show next_tx_pkt_state c t = .WAIT by simp [next_tx_pkt_state, state, hdone]] at hstate
    have hwait : (step c false r t).tx_wait_cnt = t.tx_wait_cnt + 1 := by simp [step, state]
    have hlt : t.tx_wait_cnt.toNat < 15 := by
      have hnot : ¬ TX_WAIT_CNT ≤ t.tx_wait_cnt := by simpa [wait_done, state] using hdone
      rw [BitVec.le_def, Nat.not_le] at hnot
      exact hnot
    have hsucc : (t.tx_wait_cnt + 1).toNat = t.tx_wait_cnt.toNat + 1 := by
      rw [BitVec.toNat_add]
      change (t.tx_wait_cnt.toNat + 1) % 2 ^ 32 = _
      omega
    simp only [left, state, hstate, hwait, hsucc]
    omega
  · rw [show next_tx_pkt_state c t = .PKT_START by simp [next_tx_pkt_state, state, hdone]] at hstate
    simp only [left, state, hstate]
    omega

theorem left_start (hen : c.tx_en) (state : t.tx_pkt_state = .PKT_START) :
    left c (step c false r t) < left c t := by
  have hstate : (step c false r t).tx_pkt_state = .PKT_DATA := by
    simp [step_state hen, next_tx_pkt_state, state]
  have hcnt : (step c false r t).tx_pkt_cnt = t.tx_pkt_cnt := by simp [step, state]
  have hlt := ((step c false r t).tx_pktlen - 1).isLt
  simp only [left, state, hstate, hcnt]
  omega

theorem left_data (hen : c.tx_en) (state : t.tx_pkt_state = .PKT_DATA) (hready : t.tx_ff_tready)
    (idx : t.tx_slice_idx.toNat ≤ (t.tx_pktlen - 1).toNat) :
    left c (step c false r t) < left c t := by
  have hstate := step_state (t := t) (r := r) hen
  have hcnt : (step c false r t).tx_pkt_cnt = t.tx_pkt_cnt := by simp [step, state]
  have hlen : (step c false r t).tx_pktlen = t.tx_pktlen := by simp [step, state]
  by_cases hlast : t.tx_slice_idx = t.tx_pktlen - 1#32
  · rw [show next_tx_pkt_state c t = .PKT_END by
      simp [next_tx_pkt_state, state, hready, hlast]] at hstate
    simp only [left, state, hstate, hcnt]
    omega
  · rw [show next_tx_pkt_state c t = .PKT_DATA by
      simp [next_tx_pkt_state, state, hlast]] at hstate
    have hlt : t.tx_slice_idx.toNat < (t.tx_pktlen - 1).toNat :=
      Nat.lt_of_le_of_ne idx fun h => hlast (BitVec.eq_of_toNat_eq h)
    have hidx : (step c false r t).tx_slice_idx.toNat = t.tx_slice_idx.toNat + 1 := by
      rw [← idx_succ hlt]
      simp [step, slice_sent, state, hready]
    simp only [left, state, hstate, hcnt, hlen, hidx]
    omega

theorem left_last (hen : c.tx_en) {done : Nat} (state : t.tx_pkt_state = .PKT_END)
    (cnt : t.tx_pkt_cnt = BitVec.ofNat 64 done) (hle : done ≤ c.tx_num_pkts.toNat)
    (hnum : c.tx_num_pkts_en) :
    (step c false r t).tx_pkt_state = .IDLE ∨ left c (step c false r t) < left c t := by
  have hdone : t.tx_pkt_cnt.toNat = done := by
    rw [cnt, BitVec.toNat_ofNat]
    omega
  have hwide : (c.tx_num_pkts.setWidth 64).toNat = c.tx_num_pkts.toNat := by
    rw [BitVec.toNat_setWidth]
    omega
  by_cases hstop : c.tx_num_pkts.setWidth 64 ≤ t.tx_pkt_cnt
  · exact .inl (by simp [step_state hen, next_tx_pkt_state, state, hnum, hstop])
  · refine .inr ?_
    have hstate : (step c false r t).tx_pkt_state = .PKT_START := by
      rw [step_state hen]
      simpa [next_tx_pkt_state, state, hnum] using hstop
    have hcnt : (step c false r t).tx_pkt_cnt.toNat = done + 1 := by
      have hsucc : (step c false r t).tx_pkt_cnt = BitVec.ofNat 64 (done + 1) := by
        simp [step, state, cnt, BitVec.ofNat_add]
      rw [hsucc, BitVec.toNat_ofNat]
      omega
    rw [BitVec.le_def, hwide, hdone] at hstop
    simp only [left, state, hstate, hcnt, hdone]
    omega

theorem left_step (hen : c.tx_en) (hnum : c.tx_num_pkts_en) (h : Phase c log t)
    (hbusy : t.tx_pkt_state ≠ .IDLE) (hroom : t.tx_pkt_state = .PKT_DATA → t.tx_ff_tready) :
    (step c false r t).tx_pkt_state = .IDLE ∨ left c (step c false r t) < left c t := by
  cases h with
  | wait state cnt => exact .inr (left_wait hen state cnt)
  | start _ state => exact .inr (left_start hen state)
  | data _ state _ _ _ idx => exact .inr (left_data hen state (hroom state) idx)
  | last _ state turn => exact left_last hen state turn.cnt (turn.few hnum) hnum
  | finished state => exact absurd state hbusy

theorem step_of_full (hen : c.tx_en) (state : t.tx_pkt_state = .PKT_DATA)
    (hfull : t.tx_ff_tready = false) (hle : t.tx_fifo.length ≤ 3) :
    (step c false r t).tx_pkt_state = .PKT_DATA ∧ left c (step c false r t) = left c t ∧
      (step c false r t).tx_ff_tready = r := by
  have hlen : t.tx_fifo.length = 3 := by
    simp only [tx_ff_tready, watermark, Bool.not_eq_false', decide_eq_true_eq] at hfull
    omega
  have hstate : (step c false r t).tx_pkt_state = .PKT_DATA := by
    simp [step_state hen, next_tx_pkt_state, state, hfull]
  have hnone : t.tx_push c = none := by simp [tx_push, hfull]
  refine ⟨hstate, ?_, ?_⟩
  · simp only [left, state, hstate]
    simp [step, slice_sent, state, hfull]
  · unfold tx_ff_tready watermark
    rw [fifo_of_none hnone]
    cases r <;> simp [hlen]

end AwsFpga.Rtl.PktTx

namespace AwsFpga.Rtl.PktTst

open PktTx

variable {DATA_DW : Nat} {start : PktTst DATA_DW} {ins : Nat → PktIn DATA_DW}

/-! ## Runs -/

/-- The generator is enabled, has counted no packet and has nothing left to send. -/
structure TxReady (start : PktTst DATA_DW) : Prop where
  en : start.cfg.tx_en
  state : start.tx.tx_pkt_state = .IDLE
  cnt : start.tx.tx_pkt_cnt = 0
  fifo : start.tx.tx_fifo = []

/-- The beats that come into the FIFO. -/
def tx_pushed (_ : PktIn DATA_DW) (s : PktTst DATA_DW) : List (PktBeat DATA_DW) :=
  (s.tx.tx_push s.cfg).toList

theorem tx_succ (h : Quiet start ins) (n : Nat) : ((resume start).state ins (n + 1)).tx =
    ((resume start).state ins n).tx.step start.cfg false (ins n).axis_tx_tready := by
  change PktTx.step _ _ _ _ = _
  rw [quiet_cfg h, clr_quiet (quiet_port h n)]

theorem tx_phase (h : Quiet start ins) (hready : TxReady start) (n : Nat) :
    Phase start.cfg ((resume start).passed ins tx_pushed (n + 1))
      ((resume start).state ins (n + 1)).tx := by
  induction n with
  | zero =>
    have hnone : (resume start).passed ins tx_pushed 1 = [] := by
      change (start.tx.tx_push start.cfg).toList = []
      rw [tx_push_of_ne (by simp [hready.state]) (by simp [hready.state]), Option.toList_none]
    rw [tx_succ h, hnone]
    exact .of_idle hready.en hready.state hready.cnt
  | succ n ih =>
    rw [tx_succ h, Circuit.passed_succ]
    unfold tx_pushed
    rw [quiet_cfg h]
    exact ih.step hready.en

theorem tx_fifo_le (h : Quiet start ins) (hready : TxReady start) (n : Nat) :
    ((resume start).state ins n).tx.tx_fifo.length ≤ 3 := by
  induction n with
  | zero => simp [resume, hready.fifo]
  | succ n ih =>
    rw [tx_succ h]
    exact fifo_le ih

theorem tx_pushed_eq (h : Quiet start ins) (hready : TxReady start) (n : Nat) :
    (resume start).passed ins tx_pushed n =
      (resume start).passed ins axis_tx_sent n ++ ((resume start).state ins n).tx.tx_fifo := by
  induction n with
  | zero => exact hready.fifo.symm
  | succ n ih =>
    have hstep := fifo_step (c := start.cfg) (r := (ins n).axis_tx_tready)
      (tx_fifo_le h hready n)
    rw [Circuit.passed_succ, Circuit.passed_succ, ih, tx_succ h, List.append_assoc,
      List.append_assoc]
    congr 1
    unfold tx_pushed
    rw [quiet_cfg h]
    exact hstep

/-! ## The number of packets -/

/-- Whenever the generator has stopped, it has counted one packet more than it was told, and these
packets are sent or in the FIFO. -/
theorem tx_stopped (h : Quiet start ins) (hready : TxReady start) {n : Nat}
    (hidle : ((resume start).state ins (n + 1)).tx.tx_pkt_state = .IDLE) :
    ((resume start).state ins (n + 1)).tx.tx_pkt_cnt =
        BitVec.ofNat 64 (start.cfg.tx_num_pkts.toNat + 1) ∧
      ((resume start).passed ins axis_tx_sent (n + 1) ++
          ((resume start).state ins (n + 1)).tx.tx_fifo).map (·.tlast) =
        packets start.cfg (start.cfg.tx_num_pkts.toNat + 1) := by
  have hphase := tx_phase h hready n
  rw [tx_pushed_eq h hready] at hphase
  cases hphase with
  | finished state some cnt sent => exact ⟨cnt, by simpa using sent.last⟩
  | wait state | start _ state | data _ state | last _ state =>
    rw [hidle] at state
    contradiction

/-- In the end the generator is idle for ever, with `k` packets counted, and sent with their beats
and with the last beat of each marked. -/
def Sends (start : PktTst DATA_DW) (ins : Nat → PktIn DATA_DW) (k : Nat) : Prop :=
  ∃ m, ∀ n, m ≤ n → ((resume start).state ins n).tx.tx_pkt_state = .IDLE ∧
    ((resume start).state ins n).tx.tx_pkt_cnt = BitVec.ofNat 64 k ∧
    ((resume start).passed ins axis_tx_sent n).map (·.tlast) = packets start.cfg k

theorem not_sends (h : Quiet start ins) (hready : TxReady start) :
    ¬ Sends start ins start.cfg.tx_num_pkts.toNat := by
  rintro ⟨m, hm⟩
  obtain ⟨hidle, hcnt, -⟩ := hm (m + 1) (Nat.le_succ m)
  rw [(tx_stopped h hready hidle).1, ← BitVec.toNat_inj, BitVec.toNat_ofNat, BitVec.toNat_ofNat]
    at hcnt
  omega

/-- The receiver is ready again and again. -/
def Fair (ins : Nat → PktIn DATA_DW) : Prop := ∀ n, ∃ m, n ≤ m ∧ (ins m).axis_tx_tready

theorem Fair.leads (hfair : Fair ins) (P : Nat → Prop) :
    LeadsTo P fun n => (ins (n + 1)).axis_tx_tready = true := by
  intro n _
  obtain ⟨m, hm, hset⟩ := hfair (n + 1)
  obtain ⟨d, rfl⟩ := Nat.exists_eq_add_of_le hm
  rw [Nat.add_right_comm] at hset
  exact ⟨n + d, Nat.le_add_right n d, hset⟩

theorem tx_idle_succ (h : Quiet start ins) (hready : TxReady start) {n : Nat}
    (hidle : ((resume start).state ins (n + 1)).tx.tx_pkt_state = .IDLE) :
    ((resume start).state ins (n + 2)).tx.tx_pkt_state = .IDLE := by
  have hphase := tx_phase h hready n
  rw [tx_succ h]
  cases hphase with
  | finished state some cnt => exact idle_of_finished hready.en state some cnt
  | wait state | start _ state | data _ state | last _ state =>
    rw [hidle] at state
    contradiction

theorem tx_idle_of_le (h : Quiet start ins) (hready : TxReady start) {m n : Nat}
    (hidle : ((resume start).state ins (m + 1)).tx.tx_pkt_state = .IDLE) (hle : m ≤ n) :
    ((resume start).state ins (n + 1)).tx.tx_pkt_state = .IDLE := by
  induction hle with
  | refl => exact hidle
  | step _ ih => exact tx_idle_succ h hready ih

theorem left_leads (h : Quiet start ins) (hready : TxReady start) (hnum : start.cfg.tx_num_pkts_en)
    (hfair : Fair ins) (k : Nat) :
    LeadsTo (fun n => ((resume start).state ins (n + 1)).tx.tx_pkt_state ≠ .IDLE ∧
        left start.cfg ((resume start).state ins (n + 1)).tx = k)
      (fun n => ((resume start).state ins (n + 1)).tx.tx_pkt_state = .IDLE ∨
        ((resume start).state ins (n + 1)).tx.tx_pkt_state ≠ .IDLE ∧
          left start.cfg ((resume start).state ins (n + 1)).tx < k) := by
  have hgo : ∀ n, ((resume start).state ins (n + 1)).tx.tx_pkt_state ≠ .IDLE →
      left start.cfg ((resume start).state ins (n + 1)).tx = k →
      (((resume start).state ins (n + 1)).tx.tx_pkt_state = .PKT_DATA →
        ((resume start).state ins (n + 1)).tx.tx_ff_tready) →
      ((resume start).state ins (n + 2)).tx.tx_pkt_state = .IDLE ∨
        ((resume start).state ins (n + 2)).tx.tx_pkt_state ≠ .IDLE ∧
          left start.cfg ((resume start).state ins (n + 2)).tx < k := by
    intro n hbusy hk hroom
    have hless := left_step (r := (ins (n + 1)).axis_tx_tready) hready.en hnum
      (tx_phase h hready n) hbusy hroom
    rw [← tx_succ h, hk] at hless
    by_cases hidle : ((resume start).state ins (n + 2)).tx.tx_pkt_state = .IDLE
    · exact .inl hidle
    · exact .inr ⟨hidle, hless.resolve_left hidle⟩
  have hfull := fun n (hstate : ((resume start).state ins (n + 1)).tx.tx_pkt_state = .PKT_DATA)
      (hno : ((resume start).state ins (n + 1)).tx.tx_ff_tready = false) =>
    step_of_full (r := (ins (n + 1)).axis_tx_tready) hready.en hstate hno
      (tx_fifo_le h hready (n + 1))
  -- Where the FIFO is full, the beat waits for the receiver.
  have hwait := LeadsTo.wait
    (P := fun n => ((resume start).state ins (n + 1)).tx.tx_pkt_state = .PKT_DATA ∧
      ((resume start).state ins (n + 1)).tx.tx_ff_tready = false ∧
      left start.cfg ((resume start).state ins (n + 1)).tx = k)
    (G := fun n => (ins (n + 1)).axis_tx_tready = true)
    (by
      rintro n ⟨hstate, hno, hk⟩ hnot
      obtain ⟨hstate', hleft', hready'⟩ := hfull n hstate hno
      rw [← tx_succ h] at hstate' hleft' hready'
      exact ⟨hstate', hready'.trans (eq_false_of_ne_true hnot), hleft'.trans hk⟩)
    (hfair.leads _)
  rintro n ⟨hbusy, hk⟩
  by_cases hroom : ((resume start).state ins (n + 1)).tx.tx_pkt_state = .PKT_DATA →
      ((resume start).state ins (n + 1)).tx.tx_ff_tready
  · exact ⟨n + 1, Nat.le_succ n, hgo n hbusy hk hroom⟩
  · push Not at hroom
    obtain ⟨hstate, hno⟩ := hroom
    obtain ⟨m, hm, ⟨hstate', hno', hk'⟩, hset⟩ := hwait n ⟨hstate, eq_false_of_ne_true hno, hk⟩
    obtain ⟨hstate'', hleft'', hready''⟩ := hfull m hstate' hno'
    rw [← tx_succ h] at hstate'' hleft'' hready''
    refine ⟨m + 2, by omega, hgo (m + 1) (by simp [hstate'']) (hleft''.trans hk') ?_⟩
    intro _
    rw [hready'', hset]

theorem tx_stops (h : Quiet start ins) (hready : TxReady start) (hnum : start.cfg.tx_num_pkts_en)
    (hfair : Fair ins) : ∃ n, ((resume start).state ins (n + 1)).tx.tx_pkt_state = .IDLE := by
  by_contra hnot
  push Not at hnot
  obtain ⟨n, -, hidle⟩ := LeadsTo.rank (P := fun n =>
      ((resume start).state ins (n + 1)).tx.tx_pkt_state ≠ .IDLE) _
    (left_leads h hready hnum hfair) 0 (hnot 0)
  exact hnot n hidle

theorem tx_fifo_idle (h : Quiet start ins) {n : Nat}
    (hidle : ((resume start).state ins (n + 1)).tx.tx_pkt_state = .IDLE) :
    ((resume start).state ins (n + 2)).tx.tx_fifo =
      if (ins (n + 1)).axis_tx_tready then ((resume start).state ins (n + 1)).tx.tx_fifo.tail
      else ((resume start).state ins (n + 1)).tx.tx_fifo := by
  rw [tx_succ h]
  exact fifo_of_none (tx_push_of_ne (by simp [hidle]) (by simp [hidle]))

theorem tx_drains (h : Quiet start ins) (hready : TxReady start) (hfair : Fair ins) {n : Nat}
    (hidle : ((resume start).state ins (n + 1)).tx.tx_pkt_state = .IDLE) :
    ∃ m, n ≤ m ∧ ((resume start).state ins (m + 1)).tx.tx_fifo = [] := by
  refine LeadsTo.rank (P := fun n => ((resume start).state ins (n + 1)).tx.tx_pkt_state = .IDLE)
    (fun n => ((resume start).state ins (n + 1)).tx.tx_fifo.length) ?_ n hidle
  rintro k n ⟨hidle, hk⟩
  by_cases hnil : ((resume start).state ins (n + 1)).tx.tx_fifo = []
  · exact ⟨n, Nat.le_refl n, .inl hnil⟩
  · obtain ⟨m, hm, ⟨hidle', hk', hpos⟩, hset⟩ := LeadsTo.wait
      (P := fun n => ((resume start).state ins (n + 1)).tx.tx_pkt_state = .IDLE ∧
        ((resume start).state ins (n + 1)).tx.tx_fifo.length = k ∧ 0 < k)
      (by
        rintro n ⟨hidle, hk, hpos⟩ hnot
        refine ⟨tx_idle_succ h hready hidle, ?_, hpos⟩
        rw [tx_fifo_idle h hidle, if_neg hnot]
        exact hk)
      (hfair.leads _) n ⟨hidle, hk, hk ▸ List.length_pos_of_ne_nil hnil⟩
    refine ⟨m + 1, by omega, .inr ⟨tx_idle_succ h hready hidle', ?_⟩⟩
    rw [tx_fifo_idle h hidle', if_pos hset, List.length_tail, hk']
    omega

theorem tx_empty_of_le (h : Quiet start ins) (hready : TxReady start) {m n : Nat}
    (hidle : ((resume start).state ins (m + 1)).tx.tx_pkt_state = .IDLE)
    (hnil : ((resume start).state ins (m + 1)).tx.tx_fifo = []) (hle : m ≤ n) :
    ((resume start).state ins (n + 1)).tx.tx_fifo = [] := by
  induction hle with
  | refl => exact hnil
  | step hle ih =>
    rw [tx_fifo_idle h (tx_idle_of_le h hready hidle hle), ih]
    simp

theorem sends_succ (h : Quiet start ins) (hready : TxReady start)
    (hnum : start.cfg.tx_num_pkts_en) (hfair : Fair ins) :
    Sends start ins (start.cfg.tx_num_pkts.toNat + 1) := by
  obtain ⟨n, hidle⟩ := tx_stops h hready hnum hfair
  obtain ⟨m, hm, hnil⟩ := tx_drains h hready hfair hidle
  have hidle' := tx_idle_of_le h hready hidle hm
  refine ⟨m + 1, fun l hl => ?_⟩
  obtain ⟨d, rfl⟩ := Nat.exists_eq_add_of_le' hl
  have hlast := tx_idle_of_le h hready hidle' (Nat.le_add_left m d)
  obtain ⟨hcnt, hsent⟩ := tx_stopped h hready hlast
  rw [tx_empty_of_le h hready hidle' hnil (Nat.le_add_left m d), List.append_nil] at hsent
  exact ⟨hlast, hcnt, hsent⟩

/-- Whatever the receiver does, what was pushed is the first of the packets. -/
theorem tx_among (h : Quiet start ins) (hready : TxReady start) (hnum : start.cfg.tx_num_pkts_en)
    (n : Nat) : ((resume start).passed ins tx_pushed (n + 1)).map (·.tlast) <+:
      packets start.cfg (start.cfg.tx_num_pkts.toNat + 1) := by
  cases tx_phase h hready n with
  | wait _ _ none =>
    rw [none]
    exact List.nil_prefix
  | start done _ turn sent => exact sent.among _ (Nat.zero_le _) (Nat.lt_succ_of_le (turn.few hnum))
  | data done _ turn sent _ idx =>
    rw [turn.len] at idx
    exact sent.among _ idx (Nat.lt_succ_of_le (turn.few hnum))
  | last done _ turn sent =>
    rw [sent.last, List.replicate_zero, List.append_nil]
    exact packets_grow _ (Nat.succ_le_succ (turn.few hnum))
  | finished _ _ _ sent =>
    rw [sent.last, List.replicate_zero, List.append_nil]

/-- The register holds the number of packets less one: the generator sends one more than it says. No
pattern of `tready` makes it send others, and where the receiver is ready again and again, it sends
all of them and stops. -/
theorem one_more_packet (h : Quiet start ins) (hready : TxReady start)
    (hnum : start.cfg.tx_num_pkts_en) :
    (∀ n, ((resume start).passed ins axis_tx_sent n).map (·.tlast) <+:
      packets start.cfg (start.cfg.tx_num_pkts.toNat + 1)) ∧
    (Fair ins → Sends start ins (start.cfg.tx_num_pkts.toNat + 1)) := by
  refine ⟨fun n => ?_, sends_succ h hready hnum⟩
  cases n with
  | zero => exact List.nil_prefix
  | succ n =>
    refine List.IsPrefix.trans ?_ (tx_among h hready hnum n)
    rw [tx_pushed_eq h hready, List.map_append]
    exact List.prefix_append _ _

/-! ## Four packets -/

/-- The packets have one, two, three and one beat. -/
def four_packets : PktTst 16 where
  port := ⟨false, false, 0, 0, false⟩
  cfg := { (reset : PktTst 16).cfg with
    tx_en := true
    tx_num_pkts_en := true
    tx_pktlen_mode := true
    tx_pktlen_min := 1
    tx_pktlen_max := 3
    tx_num_pkts := 3 }
  tx := PktTx.reset
  rx_fifo := []
  rx_tvalid := false
  rx_t := ⟨0, false, 0⟩
  chk := PktChk.reset

/-- The receiver is ready in one cycle of three. -/
def slow_receiver (n : Nat) : PktIn 16 where
  cfg_addr := 0
  cfg_wdata := 0
  cfg_wr := false
  cfg_rd := false
  axis_tx_tready := n % 3 = 0
  axis_rx_tvalid := false
  axis_rx := ⟨0, false, 0⟩

theorem four_packets_quiet : Quiet four_packets slow_receiver := ⟨rfl, fun _ => rfl⟩

theorem four_packets_ready : TxReady four_packets := ⟨rfl, rfl, rfl, rfl⟩

theorem slow_receiver_fair : Fair slow_receiver := fun n =>
  ⟨3 * n, by omega, by simp [slow_receiver]⟩

theorem four_packets_marks :
    packets four_packets.cfg 4 = [true, false, true, false, false, true, true] := by decide

theorem four_packets_sent : Sends four_packets slow_receiver 4 :=
  (one_more_packet four_packets_quiet four_packets_ready rfl).2 slow_receiver_fair

/-! ## One packet -/

/-- One packet of one beat. -/
def one_packet : PktTst 16 where
  port := ⟨false, false, 0, 0, false⟩
  cfg := { (reset : PktTst 16).cfg with
    tx_en := true
    tx_num_pkts_en := true
    tx_pktlen_min := 1
    tx_pktlen_max := 1
    tx_num_pkts := 1 }
  tx := PktTx.reset
  rx_fifo := []
  rx_tvalid := false
  rx_t := ⟨0, false, 0⟩
  chk := PktChk.reset

def always_ready (_ : Nat) : PktIn 16 where
  cfg_addr := 0
  cfg_wdata := 0
  cfg_wr := false
  cfg_rd := false
  axis_tx_tready := true
  axis_rx_tvalid := false
  axis_rx := ⟨0, false, 0⟩

theorem one_packet_quiet : Quiet one_packet always_ready := ⟨rfl, fun _ => rfl⟩

theorem one_packet_ready : TxReady one_packet := ⟨rfl, rfl, rfl, rfl⟩

theorem not_sends_all : ¬ ∀ (start : PktTst 16) (ins : Nat → PktIn 16), Quiet start ins →
    TxReady start → start.cfg.tx_num_pkts_en → 1 ≤ start.cfg.tx_num_pkts.toNat →
    Sends start ins start.cfg.tx_num_pkts.toNat := by
  intro h
  exact not_sends one_packet_quiet one_packet_ready
    (h one_packet always_ready one_packet_quiet one_packet_ready rfl (by decide))

end AwsFpga.Rtl.PktTst
