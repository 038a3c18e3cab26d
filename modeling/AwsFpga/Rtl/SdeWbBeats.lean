import AwsFpga.Lib.Bursts
import AwsFpga.Rtl.SdeWb

/-!
# The beats of a write-back (`sde_wb.sv`)

A record may begin anywhere in a word of the bus. What its beats are to carry is said byte
by byte, by the address each byte goes to.
-/

open Lib Lib.Axi

namespace AwsFpga.Rtl

/-- What is written where. -/
structure WbWrite where
  requester : WbRequester
  addr : BitVec 64
  record : BitVec 160

/-- What a beat writes, lane by lane, and whether it is the last one. -/
def WBeat.written (b : WBeat) : List (Option (BitVec 8)) × Bool :=
  ((List.range 64).map fun l => if b.strb.getLsbD l then some (lane 8 b.data l) else none, b.last)

namespace WbWrite

variable (w : WbWrite)

def size : Nat :=
  match w.requester with
  | .WB_STATUS => 20
  | .WB_METADATA => 16

def num_beats : Nat := (touched 64 w.addr.toNat w.size).card

/-- The byte of the record that goes to an address. -/
def byte_at (a : Nat) : Option (BitVec 8) :=
  if w.addr.toNat ≤ a ∧ a < w.addr.toNat + w.size then some (lane 8 w.record (a - w.addr.toNat))
  else none

/-- Beat `j` is for the `j`-th word from the one that holds the address. -/
def beat (j : Nat) : List (Option (BitVec 8)) × Bool :=
  ((List.range 64).map fun l => w.byte_at (64 * (w.addr.toNat / 64 + j) + l), j + 1 = w.num_beats)

def beats : List (List (Option (BitVec 8)) × Bool) := (List.range w.num_beats).map w.beat

end WbWrite

namespace Wb

variable {p : WbParams} {i : WbIn} {s : Wb} {ins : Nat → WbIn}

/-- The write that the data is made from. -/
def under_way (i : WbIn) (s : Wb) : WbWrite :=
  ⟨s.req_winner, addr_pipe_write_addr i s, wb_wr_data_to_send i s⟩

theorem size_eq : addr_pipe_num_bytes s = (under_way i s).size := rfl

theorem size_bounds (w : WbWrite) : 16 ≤ w.size ∧ w.size ≤ 20 := by
  unfold WbWrite.size
  cases w.requester <;> simp

theorem beats_minus1_eq : addr_pipe_num_beats_minus1 i s + 1 = (under_way i s).num_beats := by
  have hsize := size_bounds (under_way i s)
  have hmod : (addr_pipe_write_addr i s).toNat % 64 < 64 := Nat.mod_lt _ (by omega)
  have haddr : (under_way i s).addr = addr_pipe_write_addr i s := rfl
  have hadj : addr_pipe_num_bytes_adj i s =
      (under_way i s).size + (addr_pipe_write_addr i s).toNat % 64 :=
    Nat.mod_eq_of_lt (by rw [size_eq (i := i)]; unfold PCIM_DATA_WIDTH_BYTES; omega)
  unfold WbWrite.num_beats addr_pipe_num_beats_minus1
  rw [card_touched (by omega) _ (by omega), hadj, haddr]
  unfold PCIM_DATA_WIDTH_BYTES
  split <;> omega

theorem num_beats_le (w : WbWrite) : w.num_beats ≤ 2 := by
  have hsize := size_bounds w
  unfold WbWrite.num_beats
  rw [card_touched (by omega) _ (by omega)]
  omega

theorem strb_to_send_eq (k : Nat) :
    (wb_wr_strb_to_send s).getLsbD k = decide (k < (under_way i s).size) := by
  unfold wb_wr_strb_to_send WbWrite.size under_way
  cases s.req_winner with
  | WB_STATUS => simp only [BitVec.getLsbD_allOnes]
  | WB_METADATA =>
    simp only [BitVec.getLsbD_setWidth, BitVec.getLsbD_allOnes]
    by_cases hk : k < 16
    · simp [hk]
      omega
    · simp [hk]

/-- Byte `k` of the record goes to a lane when the strobe of the record is shifted with it. -/
theorem byte_at_eq {w : WbWrite} {a k : Nat} (ha : a = w.addr.toNat + k) :
    w.byte_at a = if k < w.size then some (lane 8 w.record k) else none := by
  subst ha
  unfold WbWrite.byte_at
  simp

theorem byte_at_below {w : WbWrite} {a : Nat} (ha : a < w.addr.toNat) : w.byte_at a = none := by
  unfold WbWrite.byte_at
  rw [if_neg (by omega)]

theorem written_first (last : Bool) :
    (WBeat.mk ((wb_wr_data_to_send i s).setWidth 512 <<< (8 * wr_pipe_lwr_addr i s))
      ((wb_wr_strb_to_send s).setWidth 64 <<< wr_pipe_lwr_addr i s) last).written =
      (((under_way i s).beat 0).1, last) := by
  unfold WBeat.written WbWrite.beat
  dsimp only
  congr 1
  apply List.map_congr_left
  intro l hl
  rw [List.mem_range] at hl
  have hsplit := Nat.mod_add_div (addr_pipe_write_addr i s).toNat 64
  have hoff : wr_pipe_lwr_addr i s = (addr_pipe_write_addr i s).toNat % 64 := rfl
  have haddr : (under_way i s).addr = addr_pipe_write_addr i s := rfl
  have hrecord : (under_way i s).record = wb_wr_data_to_send i s := rfl
  rw [lane_shift_left _ _ (by omega), BitVec.getLsbD_shiftLeft, decide_eq_true hl, Bool.true_and]
  by_cases hle : wr_pipe_lwr_addr i s ≤ l
  · have hin : l - wr_pipe_lwr_addr i s < 64 := by omega
    have hbyte : 64 * ((under_way i s).addr.toNat / 64 + 0) + l =
        (under_way i s).addr.toNat + (l - wr_pipe_lwr_addr i s) := by
      rw [haddr]
      omega
    rw [byte_at_eq hbyte, if_pos hle, decide_eq_false (by omega), Bool.not_false, Bool.true_and,
      BitVec.getLsbD_setWidth, decide_eq_true hin, Bool.true_and, strb_to_send_eq (i := i),
      lane_widen _ (by omega), hrecord]
    simp
  · have hbelow : 64 * ((under_way i s).addr.toNat / 64 + 0) + l < (under_way i s).addr.toNat := by
      rw [haddr]
      omega
    rw [byte_at_below hbelow, decide_eq_true (by omega), Bool.not_true, Bool.false_and]
    simp

theorem written_next (last : Bool) {j sent : Nat}
    (hsent : sent + wr_pipe_lwr_addr i s = 64 * j) :
    (WBeat.mk ((wb_wr_data_to_send i s).setWidth 512 >>> (8 * sent))
      ((wb_wr_strb_to_send s).setWidth 64 >>> sent) last).written =
      (((under_way i s).beat j).1, last) := by
  unfold WBeat.written WbWrite.beat
  dsimp only
  congr 1
  apply List.map_congr_left
  intro l hl
  have hsize := size_bounds (under_way i s)
  have hsplit := Nat.mod_add_div (addr_pipe_write_addr i s).toNat 64
  have hoff : wr_pipe_lwr_addr i s = (addr_pipe_write_addr i s).toNat % 64 := rfl
  have haddr : (under_way i s).addr = addr_pipe_write_addr i s := rfl
  have hrecord : (under_way i s).record = wb_wr_data_to_send i s := rfl
  have hbyte : 64 * ((under_way i s).addr.toNat / 64 + j) + l =
      (under_way i s).addr.toNat + (sent + l) := by
    rw [haddr]
    omega
  rw [byte_at_eq hbyte, lane_shift_right, lane_widen _ (by omega), BitVec.getLsbD_ushiftRight,
    BitVec.getLsbD_setWidth, strb_to_send_eq (i := i), hrecord]
  by_cases hin : sent + l < (under_way i s).size
  · have hlt : sent + l < 64 := by omega
    simp [hin, hlt]
  · simp [hin]

/-! ## What a cycle does to the data -/

/-- Where the data of a write is: it is latched, loaded a cycle later, and shown until its last beat
is taken. -/
structure Phases (i : WbIn) (s : Wb) : Prop where
  load : s.wr_active_re_q → s.wr_active ∧ s.wr_active_q ∧ s.wb_pm_wvalid = false
  data : s.wb_pm_wvalid → s.wr_active ∧ s.wr_active_q
  go : s.wr_active → s.wr_active_q → s.wr_active_re_q ∨ s.wb_pm_wvalid
  idle : s.wb_pm_wvalid = false → s.wb_wr_num_bytes_sent = 0
  idx : s.wb_pm_wvalid → s.wb_wr_idx < (under_way i s).num_beats
  last : s.wb_pm_wvalid → (s.wb_pm_w.last ↔ s.wb_wr_idx + 1 = (under_way i s).num_beats)
  sent : s.wb_pm_wvalid → s.wb_wr_num_bytes_sent =
    min (under_way i s).size (64 * (s.wb_wr_idx + 1) - wr_pipe_lwr_addr i s)

/-- The registers of the data after a cycle. -/
inductive DataStep (p : WbParams) (i : WbIn) (s : Wb) : Prop where
  | quiet (hload : s.wr_active_re_q = false) (hvalid : s.wb_pm_wvalid = false)
      (hvalid' : (step p i s).wb_pm_wvalid = false)
      (hsent' : (step p i s).wb_wr_num_bytes_sent = 0)
  | load (hload : s.wr_active_re_q) (hvalid : s.wb_pm_wvalid = false)
      (hvalid' : (step p i s).wb_pm_wvalid) (hidx' : (step p i s).wb_wr_idx = 0)
      (hsent' : (step p i s).wb_wr_num_bytes_sent =
        min (under_way i s).size (64 - wr_pipe_lwr_addr i s))
      (hw' : (step p i s).wb_pm_w.written = (under_way i s).beat 0)
  | hold (hload : s.wr_active_re_q = false) (hvalid : s.wb_pm_wvalid)
      (hready : i.pm_wb_wready = false) (hvalid' : (step p i s).wb_pm_wvalid)
      (hidx' : (step p i s).wb_wr_idx = s.wb_wr_idx)
      (hsent' : (step p i s).wb_wr_num_bytes_sent = s.wb_wr_num_bytes_sent)
      (hw' : (step p i s).wb_pm_w = s.wb_pm_w)
  | next (hload : s.wr_active_re_q = false) (hvalid : s.wb_pm_wvalid) (hready : i.pm_wb_wready)
      (hidx : s.wb_wr_idx + 1 < (under_way i s).num_beats)
      (hvalid' : (step p i s).wb_pm_wvalid) (hidx' : (step p i s).wb_wr_idx = s.wb_wr_idx + 1)
      (hsent' : (step p i s).wb_wr_num_bytes_sent =
        min (under_way i s).size (64 * (s.wb_wr_idx + 1 + 1) - wr_pipe_lwr_addr i s))
      (hw' : (step p i s).wb_pm_w.written = (under_way i s).beat (s.wb_wr_idx + 1))
  | last (hload : s.wr_active_re_q = false) (hvalid : s.wb_pm_wvalid) (hready : i.pm_wb_wready)
      (hidx : s.wb_wr_idx + 1 = (under_way i s).num_beats)
      (hvalid' : (step p i s).wb_pm_wvalid = false)
      (hsent' : (step p i s).wb_wr_num_bytes_sent = 0)

theorem wvalid_step : (step p i s).wb_pm_wvalid =
    if w_taken i s && addr_pipe_num_beats_minus1 i s ≤ s.wb_wr_idx then false
    else if s.wr_active_re_q then true else s.wb_pm_wvalid :=
  rfl

theorem idx_step : (step p i s).wb_wr_idx =
    if s.wr_active_re_q then 0 else if w_taken i s then (s.wb_wr_idx + 1) % 2 ^ 8
    else s.wb_wr_idx :=
  rfl

theorem sent_step : (step p i s).wb_wr_num_bytes_sent =
    if s.wr_active_re_q then wb_wr_num_bytes_to_send i s % 2 ^ 8
    else if w_taken i s && s.wb_pm_w.last then 0
    else if w_taken i s then (s.wb_wr_num_bytes_sent + wb_wr_num_bytes_to_send i s) % 2 ^ 8
    else s.wb_wr_num_bytes_sent :=
  rfl

theorem w_step : (step p i s).wb_pm_w = next_w i s := rfl

theorem to_send_eq {k : Nat} (hsent : s.wb_wr_num_bytes_sent + k = (under_way i s).size) :
    wb_wr_num_bytes_to_send i s = min k (wb_wr_max_bytes i s) := by
  have hsize := size_bounds (under_way i s)
  have hremain : wb_wr_num_bytes_remain s = k := by
    unfold wb_wr_num_bytes_remain
    rw [size_eq (i := i), ← hsent, Nat.add_right_comm, Nat.add_assoc, Nat.add_sub_cancel_left]
    omega
  unfold wb_wr_num_bytes_to_send
  rw [hremain]
  split <;> omega

theorem lwr_lt : wr_pipe_lwr_addr i s < 64 := Nat.mod_lt _ (by decide)

/-- The record begins at byte `wr_pipe_lwr_addr` of the first beat and ends in the last one. -/
theorem num_beats_eq :
    (under_way i s).num_beats = (wr_pipe_lwr_addr i s + (under_way i s).size + 63) / 64 := by
  have hsize := size_bounds (under_way i s)
  unfold WbWrite.num_beats
  rw [card_touched (by omega) _ (by omega)]
  rfl

theorem data_step (h : Phases i s) : DataStep p i s := by
  have hbeats : _ = _ := @beats_minus1_eq i s
  have hnum : _ = _ := @num_beats_eq i s
  have hle := num_beats_le (under_way i s)
  have hsize := size_bounds (under_way i s)
  have hlwr := @lwr_lt i s
  cases hload : s.wr_active_re_q with
  | true =>
    have hvalid := (h.load hload).2.2
    have htaken : w_taken i s = false := by simp [w_taken, hvalid]
    refine .load hload hvalid ?_ ?_ ?_ ?_
    · rw [wvalid_step, htaken, hload]
      rfl
    · rw [idx_step, hload]
      rfl
    · have hsend := to_send_eq (i := i) (k := (under_way i s).size)
        (by rw [h.idle hvalid, Nat.zero_add])
      rw [sent_step, if_pos hload, hsend, wb_wr_max_bytes, if_pos hload]
      unfold PCIM_DATA_WIDTH_BYTES
      omega
    · have hend : decide (addr_pipe_num_beats_minus1 i s = 0) =
          decide (0 + 1 = (under_way i s).num_beats) := by
        rw [decide_eq_decide]
        omega
      rw [w_step, next_w, hend]
      simp only [hload, if_true]
      rw [written_first]
      rfl
  | false =>
    cases hvalid : s.wb_pm_wvalid with
    | false =>
      have htaken : w_taken i s = false := by simp [w_taken, hvalid]
      refine .quiet hload hvalid ?_ ?_
      · rw [wvalid_step, htaken, hload, hvalid]
        rfl
      · rw [sent_step, htaken, hload, h.idle hvalid]
        rfl
    | true =>
      cases hready : i.pm_wb_wready with
      | false =>
        have htaken : w_taken i s = false := by simp [w_taken, hready]
        refine .hold hload hvalid hready ?_ ?_ ?_ ?_
        · rw [wvalid_step, htaken, hload, hvalid]
          rfl
        · rw [idx_step, htaken, hload]
          rfl
        · rw [sent_step, htaken, hload]
          rfl
        · rw [w_step, next_w]
          simp [hload, htaken]
      | true =>
        have htaken : w_taken i s = true := by simp [w_taken, hvalid, hready]
        have hidx := h.idx hvalid
        have hlast := h.last hvalid
        have hsent := h.sent hvalid
        rcases Nat.lt_or_ge (s.wb_wr_idx + 1) (under_way i s).num_beats with hlt | hge
        · -- All of the first beat was used, and one beat is left.
          have hnot : s.wb_pm_w.last = false := by
            rw [← Bool.not_eq_true, hlast]
            omega
          have hmore : ¬ addr_pipe_num_beats_minus1 i s ≤ s.wb_wr_idx := by omega
          have hoff : s.wb_wr_num_bytes_sent + wr_pipe_lwr_addr i s = 64 * (s.wb_wr_idx + 1) := by
            omega
          refine .next hload hvalid hready hlt ?_ ?_ ?_ ?_
          · rw [wvalid_step, htaken, decide_eq_false hmore, hload, hvalid]
            rfl
          · rw [idx_step, hload, htaken]
            simp only [Bool.false_eq_true, if_false, if_true]
            omega
          · have hsend := @to_send_eq i s ((under_way i s).size - s.wb_wr_num_bytes_sent) (by omega)
            rw [sent_step, hload, htaken, hnot, hsend, wb_wr_max_bytes, hload]
            unfold PCIM_DATA_WIDTH_BYTES
            simp only [Bool.false_eq_true, if_false, if_true, Bool.and_false]
            omega
          · have hend : decide ((addr_pipe_num_beats_minus1 i s + (2 ^ 32 - 1)) % 2 ^ 32 ≤
                s.wb_wr_idx) = decide (s.wb_wr_idx + 1 + 1 = (under_way i s).num_beats) := by
              rw [decide_eq_decide]
              omega
            rw [w_step, next_w, hend]
            simp only [hload, htaken, Bool.false_eq_true, if_false, if_true]
            rw [written_next _ hoff]
            rfl
        · have heq : s.wb_wr_idx + 1 = (under_way i s).num_beats := by omega
          refine .last hload hvalid hready heq ?_ ?_
          · have hend : addr_pipe_num_beats_minus1 i s ≤ s.wb_wr_idx := by omega
            rw [wvalid_step, htaken, decide_eq_true hend]
            rfl
          · rw [sent_step, hload, htaken, hlast.mpr heq]
            rfl

theorem Phases.done_iff (h : Phases i s) : wr_done i s ↔
    s.wb_pm_wvalid ∧ i.pm_wb_wready ∧ s.wb_wr_idx + 1 = (under_way i s).num_beats := by
  unfold wr_done
  simp only [Bool.and_eq_true]
  constructor
  · rintro ⟨-, ⟨hvalid, hlast⟩, hready⟩
    exact ⟨hvalid, hready, (h.last hvalid).mp hlast⟩
  · rintro ⟨hvalid, hready, hidx⟩
    exact ⟨(h.data hvalid).1, ⟨hvalid, (h.last hvalid).mpr hidx⟩, hready⟩

theorem num_beats_congr {i' : WbIn} {s' : Wb} (hwinner : s'.req_winner = s.req_winner)
    (haddr : addr_pipe_write_addr i' s' = addr_pipe_write_addr i s) :
    (under_way i' s').size = (under_way i s).size ∧
      (under_way i' s').num_beats = (under_way i s).num_beats ∧
      wr_pipe_lwr_addr i' s' = wr_pipe_lwr_addr i s := by
  have hsize : (under_way i' s').size = (under_way i s).size := by
    rw [← size_eq, ← size_eq, addr_pipe_num_bytes, addr_pipe_num_bytes, hwinner]
  refine ⟨hsize, ?_, ?_⟩
  · rw [← beats_minus1_eq, ← beats_minus1_eq, beats_congr hwinner haddr]
  · unfold wr_pipe_lwr_addr
    rw [haddr]

theorem active_of_not_done (hactive : s.wr_active) (hdone : wr_done i s = false) :
    (step p i s).wr_active := by
  rw [wr_active_step, hdone, Bool.and_false, hactive]
  simp

theorem not_done_of_active (hctl : Ctl s) (hactive : s.wr_active)
    (hactive' : (step p i s).wr_active) : wr_done i s = false := by
  have hstart := hctl.no_start hactive
  rw [wr_active_step, hactive, hstart] at hactive'
  cases hdone : wr_done i s with
  | false => rfl
  | true =>
    rw [hdone] at hactive'
    cases hactive'

theorem active_q_step : (step p i s).wr_active_q = s.wr_active := rfl

theorem re_q_step : (step p i s).wr_active_re_q = (s.wr_active && !s.wr_active_q) := rfl

theorem Phases.valid_step (h : Phases i s) :
    (step p i s).wb_pm_wvalid ↔
      s.wr_active_re_q ∨ (s.wb_pm_wvalid ∧ wr_done i s = false) := by
  have hdone := h.done_iff
  cases @data_step p i s h with
  | quiet hload hvalid hvalid' => simp [hload, hvalid, hvalid']
  | load hload _ hvalid' => simp [hload, hvalid']
  | hold hload hvalid hready hvalid' =>
    have hnot : wr_done i s = false := by
      rw [← Bool.not_eq_true, hdone, hready]
      simp
    simp [hload, hvalid, hvalid', hnot]
  | next hload hvalid _ hidx hvalid' =>
    have hnot : wr_done i s = false := by
      rw [← Bool.not_eq_true, hdone]
      omega
    simp [hload, hvalid, hvalid', hnot]
  | last hload hvalid hready hidx hvalid' =>
    have hyes := hdone.mpr ⟨hvalid, hready, hidx⟩
    simp [hload, hvalid', hyes]

theorem Phases.not_done_of_load (h : Phases i s) (hload : s.wr_active_re_q) :
    wr_done i s = false := by
  simp [wr_done, (h.load hload).2.2]

theorem phases_step {i' : WbIn} (h : Phases i s) (hctl : Ctl s)
    (hsame : busy s → busy (step p i s) →
      addr_pipe_write_addr i' (step p i s) = addr_pipe_write_addr i s) :
    Phases i' (step p i s) := by
  have hdone := h.done_iff
  have hvalid' := @Phases.valid_step p i s h
  -- Where a beat is shown next, the write was under way and still is.
  have hgoes : (step p i s).wb_pm_wvalid → s.wr_active ∧ (step p i s).wr_active := by
    rw [hvalid']
    rintro (hload | ⟨hvalid, hnot⟩)
    · exact ⟨(h.load hload).1, active_of_not_done (h.load hload).1 (h.not_done_of_load hload)⟩
    · exact ⟨(h.data hvalid).1, active_of_not_done (h.data hvalid).1 hnot⟩
  have hkeep : (step p i s).wb_pm_wvalid →
      (under_way i' (step p i s)).size = (under_way i s).size ∧
        (under_way i' (step p i s)).num_beats = (under_way i s).num_beats ∧
        wr_pipe_lwr_addr i' (step p i s) = wr_pipe_lwr_addr i s := by
    intro hshown
    obtain ⟨hactive, hactive'⟩ := hgoes hshown
    have hbusy : busy s := by simp [busy, hactive]
    have hbusy' : busy (step p i s) := by simp [busy, hactive']
    exact num_beats_congr (hctl.req_winner_step hbusy) (hsame hbusy hbusy')
  constructor
  case load =>
    intro hload
    rw [re_q_step, Bool.and_eq_true, Bool.not_eq_true'] at hload
    have hvalid : s.wb_pm_wvalid = false := by
      by_contra hvalid
      rw [(h.data (by simpa using hvalid)).2] at hload
      cases hload.2
    have hnot : wr_done i s = false := by simp [wr_done, hvalid]
    refine ⟨active_of_not_done hload.1 hnot, ?_, ?_⟩
    · rw [active_q_step]
      exact hload.1
    · rw [← Bool.not_eq_true, hvalid', hvalid]
      rintro (hre | ⟨hno, -⟩)
      · rw [(h.load hre).2.1] at hload
        cases hload.2
      · cases hno
  case data =>
    intro hshown
    rw [active_q_step]
    exact ⟨(hgoes hshown).2, (hgoes hshown).1⟩
  case go =>
    intro hactive' hactive
    rw [active_q_step] at hactive
    have hnot := not_done_of_active hctl hactive hactive'
    cases hq : s.wr_active_q with
    | false =>
      left
      rw [re_q_step, hactive, hq]
      rfl
    | true =>
      right
      rw [hvalid']
      exact (h.go hactive hq).imp_right fun hvalid => ⟨hvalid, hnot⟩
  case idle =>
    intro hidle
    cases @data_step p i s h with
    | quiet _ _ _ hsent' => exact hsent'
    | load _ _ hshown => rw [hidle] at hshown; cases hshown
    | hold _ _ _ hshown => rw [hidle] at hshown; cases hshown
    | next _ _ _ _ hshown => rw [hidle] at hshown; cases hshown
    | last _ _ _ _ _ hsent' => exact hsent'
  case idx =>
    intro hshown
    rw [(hkeep hshown).2.1]
    cases @data_step p i s h with
    | quiet _ _ hno => rw [hno] at hshown; cases hshown
    | load _ _ _ hidx' =>
      have hpos := @beats_minus1_eq i s
      omega
    | hold _ hvalid _ _ hidx' =>
      rw [hidx']
      exact h.idx hvalid
    | next _ _ _ hidx _ hidx' =>
      rw [hidx']
      exact hidx
    | last _ _ _ _ hno => rw [hno] at hshown; cases hshown
  case last =>
    intro hshown
    rw [(hkeep hshown).2.1]
    cases @data_step p i s h with
    | quiet _ _ hno => rw [hno] at hshown; cases hshown
    | load _ _ _ hidx' _ hw' =>
      have hlast : (step p i s).wb_pm_w.last = decide (0 + 1 = (under_way i s).num_beats) :=
        congrArg Prod.snd hw'
      rw [hidx', hlast, decide_eq_true_iff]
    | hold _ hvalid _ _ hidx' _ hw' =>
      rw [hidx', hw']
      exact h.last hvalid
    | next _ _ _ hidx _ hidx' _ hw' =>
      have hlast : (step p i s).wb_pm_w.last =
          decide (s.wb_wr_idx + 1 + 1 = (under_way i s).num_beats) := congrArg Prod.snd hw'
      rw [hidx', hlast, decide_eq_true_iff]
    | last _ _ _ _ hno => rw [hno] at hshown; cases hshown
  case sent =>
    intro hshown
    rw [(hkeep hshown).1, (hkeep hshown).2.2]
    cases @data_step p i s h with
    | quiet _ _ hno => rw [hno] at hshown; cases hshown
    | load _ _ _ hidx' hsent' => rw [hidx', hsent']
    | hold _ hvalid _ _ hidx' hsent' =>
      rw [hidx', hsent']
      exact h.sent hvalid
    | next _ _ _ _ _ hidx' hsent' => rw [hidx', hsent']
    | last _ _ _ _ hno => rw [hno] at hshown; cases hshown

/-! ## What passes in a cycle -/

def beats_taken (i : WbIn) (s : Wb) : List WBeat := fire s.wb_pm_wvalid i.pm_wb_wready s.wb_pm_w

def aws_taken (i : WbIn) (s : Wb) : List AwReq := fire s.wb_pm_awvalid i.pm_wb_awready s.wb_pm_aw

/-- The counters and the errors, or the metadata, when a write latches them. -/
def latched_record (i : WbIn) (s : Wb) : BitVec 160 :=
  match s.req_winner with
  | .WB_STATUS => status_record s.md_wr_ptr i.axis_wb_pkt_cnt i.desc_wb_cnt i.desc_wb_limit
      (status_dw i)
  | .WB_METADATA => i.dm_wb_md.setWidth 160

def latched_write (i : WbIn) (s : Wb) : WbWrite :=
  ⟨s.req_winner, addr_pipe_write_addr i s, latched_record i s⟩

def latched (i : WbIn) (s : Wb) : List WbWrite :=
  if wr_active_re s then [latched_write i s] else []

/-! ## Whole runs -/

variable (p ins)

/-- No counter is cleared while the status is written. -/
def NoClears : Prop :=
  ∀ n, ((circuit p).state ins n).wr_active →
    ((circuit p).state ins n).req_winner = .WB_STATUS →
    (ins n).cfg_desc_clr_cdt_limit = false ∧ (ins n).cfg_desc_clr_desc_cnt = false ∧
      (ins n).cfg_axis_clr_pkt_cnt = false ∧ (ins n).cfg_wb_clr_wr_ptr = false

/-- The data mover holds its request, and the metadata with it, until the grant. -/
def MdHeld : Prop :=
  Held (fun n => (ins n).dm_wb_md_req)
    (fun n => wb_dm_md_grant (ins n) ((circuit p).state ins n)) fun n => (ins n).dm_wb_md

/-- Every write sends its own bytes. What has been sent is a prefix of what the writes are to send,
and all of it where nothing is under way. -/
structure Written : Prop where
  beats : ∀ n, ((circuit p).passed ins beats_taken n).map WBeat.written <+:
    ((circuit p).passed ins latched n).flatMap WbWrite.beats
  beats_all : ∀ n, ((circuit p).state ins n).wr_active = false →
    ((circuit p).passed ins beats_taken n).map WBeat.written =
      ((circuit p).passed ins latched n).flatMap WbWrite.beats
  aws : ∀ n, ((circuit p).passed ins aws_taken n).map (fun aw => (aw.addr, aw.len.toNat + 1)) <+:
    ((circuit p).passed ins latched n).map fun w => (w.addr, w.num_beats)
  aws_all : ∀ n, ((circuit p).state ins n).addr_active = false →
    ((circuit p).passed ins aws_taken n).map (fun aw => (aw.addr, aw.len.toNat + 1)) =
      ((circuit p).passed ins latched n).map fun w => (w.addr, w.num_beats)

variable {p ins}

theorem pend_step_cases (h : (step p i s).dm_wb_md_req_pend) :
    wb_dm_md_grant i s = false ∧ (i.dm_wb_md_req ∨ s.dm_wb_md_req_pend) := by
  have hnext : (if wb_dm_md_grant i s then false
    else if i.dm_wb_md_req && !(md_ring_full i s && i.cfg.cfg_wb_md_ptr_en) then true
    else s.dm_wb_md_req_pend) = true := h
  cases hgrant : wb_dm_md_grant i s with
  | true =>
    rw [hgrant] at hnext
    cases hnext
  | false =>
    rw [hgrant] at hnext
    simp only [Bool.false_eq_true, if_false] at hnext
    split at hnext
    case isTrue hreq =>
      rw [Bool.and_eq_true] at hreq
      exact ⟨rfl, .inl hreq.1⟩
    case isFalse => exact ⟨rfl, .inr hnext⟩

theorem req_of_pend (h : MdHeld p ins) (n : Nat)
    (hpend : ((circuit p).state ins n).dm_wb_md_req_pend) : (ins n).dm_wb_md_req := by
  induction n with
  | zero => cases hpend
  | succ n ih =>
    rw [state_succ] at hpend
    obtain ⟨hgrant, hreq | hpend'⟩ := pend_step_cases hpend
    · exact (h n hreq hgrant).1
    · exact (h n (ih hpend') hgrant).1

theorem data_to_send_step (hactive : s.wr_active) (hwinner : s.req_winner = .WB_STATUS)
    (hctl : Ctl s) (hclears : i.cfg_desc_clr_cdt_limit = false ∧ i.cfg_desc_clr_desc_cnt = false ∧
      i.cfg_axis_clr_pkt_cnt = false ∧ i.cfg_wb_clr_wr_ptr = false) (i' : WbIn) :
    wb_wr_data_to_send i' (step p i s) =
      if s.wr_active_q then wb_wr_data_to_send i s else latched_record i s := by
  have hsame : (step p i s).req_winner = .WB_STATUS := by
    rw [hctl.req_winner_step (by simp [busy, hactive]), hwinner]
  obtain ⟨hlimit, hcnt, hpkt, hptr⟩ := hclears
  simp only [wb_wr_data_to_send, latched_record, hwinner, hsame]
  cases hq : s.wr_active_q with
  | false => simp [step, status_latch, wr_active_re, hwinner, hactive, hq, hlimit, hcnt, hpkt, hptr]
  | true => simp [step, status_latch, wr_active_re, hq, hlimit, hcnt, hpkt, hptr]

theorem under_way_step (hsteady : AddrSteady p ins) (hclears : NoClears p ins) (hheld : MdHeld p ins)
    (n : Nat) (hactive : ((circuit p).state ins n).wr_active)
    (hactive' : ((circuit p).state ins (n + 1)).wr_active) :
    under_way (ins (n + 1)) ((circuit p).state ins (n + 1)) =
      if ((circuit p).state ins n).wr_active_q then under_way (ins n) ((circuit p).state ins n)
      else latched_write (ins n) ((circuit p).state ins n) := by
  have hctl : Ctl ((circuit p).state ins n) := ctl_state n
  have hbusy : busy ((circuit p).state ins n) := by simp [busy, hactive]
  have haddr := hsteady n hbusy (by simp [busy, hactive'])
  have hwinner : ((circuit p).state ins (n + 1)).req_winner =
      ((circuit p).state ins n).req_winner := hctl.req_winner_step hbusy
  have hrecord : wb_wr_data_to_send (ins (n + 1)) ((circuit p).state ins (n + 1)) =
      if ((circuit p).state ins n).wr_active_q then
        wb_wr_data_to_send (ins n) ((circuit p).state ins n)
      else latched_record (ins n) ((circuit p).state ins n) := by
    cases hcase : ((circuit p).state ins n).req_winner with
    | WB_STATUS => exact data_to_send_step hactive hcase hctl (hclears n hactive hcase) _
    | WB_METADATA =>
      -- The data mover holds the metadata.
      have hnot := not_done_of_active hctl hactive hactive'
      have hgrant : wb_dm_md_grant (ins n) ((circuit p).state ins n) = false := by
        simp [wb_dm_md_grant, hnot]
      have hpend := hctl.owner hactive
      rw [owner_pend, hcase] at hpend
      have hmd := (hheld n (req_of_pend hheld n hpend) hgrant).2
      rw [hcase] at hwinner
      simp only [wb_wr_data_to_send, latched_record, hwinner, hcase, hmd, ite_self]
  unfold under_way latched_write
  rw [hwinner, haddr, hrecord]
  split <;> rfl

/-- Among the two, the address is not taken last. -/
def AddrFirst (p : WbParams) (ins : Nat → WbIn) : Prop :=
  ∀ n, wr_done (ins n) ((circuit p).state ins n) → ((circuit p).state ins n).addr_active →
    (ins n).pm_wb_awready

theorem Phases.shows_addr (h : Phases i s) (hctl : Ctl s) (hdone : wr_done i s)
    (haddr : s.addr_active) : s.wb_pm_awvalid := by
  by_contra hvalid
  have hq := (hctl.fresh haddr (by simpa using hvalid)).2
  rw [(h.data (h.done_iff.mp hdone).1).2] at hq
  cases hq

theorem addr_steady_step {i' : WbIn} (h : Phases i s) (hctl : Ctl s) (hcfg : i'.cfg = i.cfg)
    (hclr : i.cfg_wb_clr_wr_ptr = false)
    (hfirst : wr_done i s → s.addr_active → i.pm_wb_awready) (hbusy : busy s)
    (hbusy' : busy (step p i s)) :
    addr_pipe_write_addr i' (step p i s) = addr_pipe_write_addr i s := by
  have hwinner : (step p i s).req_winner = s.req_winner := hctl.req_winner_step hbusy
  unfold addr_pipe_write_addr
  rw [hwinner, hcfg]
  cases hcase : s.req_winner with
  | WB_STATUS => rfl
  | WB_METADATA =>
    have hgrant : wb_dm_md_grant i s = false := by
      rw [← Bool.not_eq_true]
      intro hgrant
      have hdone := (done_of_grant hgrant).1
      have hactive := active_of_done hdone
      have hstart := hctl.no_start hactive
      unfold busy at hbusy'
      rw [wr_active_step, addr_active_step, hactive, hdone, hstart] at hbusy'
      cases haddr : s.addr_active with
      | false =>
        rw [haddr] at hbusy'
        cases hbusy'
      | true =>
        have haddr_done : addr_done i s := by
          simp [addr_done, haddr, h.shows_addr hctl hdone haddr, hfirst hdone haddr]
        rw [haddr, haddr_done] at hbusy'
        cases hbusy'
    have hptr : (step p i s).md_wr_ptr = s.md_wr_ptr := by simp [step, hclr, hgrant]
    simp only [md_wr_addr, hptr, hcfg]

/-- Nobody moves the address: the configuration stays, and the pointer moves when a write is done. -/
theorem addr_steady {c : WbCfg} (hcfg : ∀ n, (ins n).cfg = c)
    (hclr : ∀ n, (ins n).cfg_wb_clr_wr_ptr = false) (hfirst : AddrFirst p ins) :
    AddrSteady p ins := by
  have hsteady : ∀ n, Phases (ins n) ((circuit p).state ins n) →
      busy ((circuit p).state ins n) → busy ((circuit p).state ins (n + 1)) →
        addr_pipe_write_addr (ins (n + 1)) ((circuit p).state ins (n + 1)) =
          addr_pipe_write_addr (ins n) ((circuit p).state ins n) :=
    fun n h => addr_steady_step h (ctl_state n) ((hcfg (n + 1)).trans (hcfg n).symm) (hclr n)
      (hfirst n)
  have hphases : ∀ n, Phases (ins n) ((circuit p).state ins n) := by
    intro n
    induction n with
    | zero => exact ⟨nofun, nofun, nofun, fun _ => rfl, nofun, nofun, nofun⟩
    | succ n ih => exact phases_step ih (ctl_state n) (hsteady n ih)
  exact fun n => hsteady n (hphases n)

theorem phases_state (hsteady : AddrSteady p ins) (n : Nat) :
    Phases (ins n) ((circuit p).state ins n) := by
  induction n with
  | zero => exact ⟨nofun, nofun, nofun, fun _ => rfl, nofun, nofun, nofun⟩
  | succ n ih => exact phases_step ih (ctl_state n) (hsteady n)

theorem shown_state (hsteady : AddrSteady p ins) (hclears : NoClears p ins)
    (hheld : MdHeld p ins) (n : Nat) (hvalid : ((circuit p).state ins n).wb_pm_wvalid) :
    ((circuit p).state ins n).wb_pm_w.written =
      (under_way (ins n) ((circuit p).state ins n)).beat ((circuit p).state ins n).wb_wr_idx := by
  induction n with
  | zero => cases hvalid
  | succ n ih =>
    have hphases := phases_state hsteady n
    have hphases' := phases_state hsteady (n + 1)
    have hactive' := (hphases'.data hvalid).1
    have hq : ((circuit p).state ins n).wr_active := (hphases'.data hvalid).2
    have hstep := under_way_step hsteady hclears hheld n hq hactive'
    rw [state_succ] at hvalid
    have hloaded : ((circuit p).state ins n).wr_active_q := by
      rcases hphases.valid_step.mp hvalid with hload | ⟨hshown, -⟩
      · exact (hphases.load hload).2.1
      · exact (hphases.data hshown).2
    rw [hstep, if_pos hloaded, state_succ]
    cases @data_step p _ _ hphases with
    | quiet _ _ hno => rw [hno] at hvalid; cases hvalid
    | load _ _ _ hidx' _ hw' => rw [hw', hidx']
    | hold _ hshown _ _ hidx' _ hw' => rw [hw', hidx', ih hshown]
    | next _ _ _ _ _ hidx' _ hw' => rw [hw', hidx']
    | last _ _ _ _ hno => rw [hno] at hvalid; cases hvalid

/-- The beats of the write under way that are not taken yet. -/
def to_come (i : WbIn) (s : Wb) : List (List (Option (BitVec 8)) × Bool) :=
  if s.wr_active && s.wr_active_q then
    (under_way i s).beats.drop (if s.wb_pm_wvalid then s.wb_wr_idx else 0)
  else []

theorem drop_beats {w : WbWrite} {j : Nat} (hj : j < w.num_beats) :
    w.beats.drop j = w.beat j :: w.beats.drop (j + 1) := by
  have hlen : j < w.beats.length := by simpa [WbWrite.beats] using hj
  rw [List.drop_eq_getElem_cons hlen]
  simp [WbWrite.beats]

theorem to_come_step (hsteady : AddrSteady p ins) (hclears : NoClears p ins)
    (hheld : MdHeld p ins) (n : Nat) :
    to_come (ins n) ((circuit p).state ins n) ++
        (latched (ins n) ((circuit p).state ins n)).flatMap WbWrite.beats =
      (beats_taken (ins n) ((circuit p).state ins n)).map WBeat.written ++
        to_come (ins (n + 1)) ((circuit p).state ins (n + 1)) := by
  have hctl : Ctl ((circuit p).state ins n) := ctl_state n
  have hphases := phases_state hsteady n
  have hunder := under_way_step hsteady hclears hheld n
  have hshown := shown_state hsteady hclears hheld n
  have hdone := hphases.done_iff
  have hstate : (circuit p).state ins (n + 1) = step p (ins n) ((circuit p).state ins n) := rfl
  have hq' : ((circuit p).state ins (n + 1)).wr_active_q = ((circuit p).state ins n).wr_active :=
    rfl
  generalize (circuit p).state ins n = s at *
  generalize (circuit p).state ins (n + 1) = s' at *
  cases hactive : s.wr_active with
  | false =>
    have hvalid : s.wb_pm_wvalid = false := by
      by_contra hvalid
      rw [(hphases.data (by simpa using hvalid)).1] at hactive
      cases hactive
    simp [to_come, latched, wr_active_re, beats_taken, hactive, hvalid, hq']
  | true =>
    rw [hactive] at hq'
    cases hq : s.wr_active_q with
    | false =>
      -- The write is latched, and shows nothing before it is loaded.
      have hvalid : s.wb_pm_wvalid = false := by
        by_contra hvalid
        rw [(hphases.data (by simpa using hvalid)).2] at hq
        cases hq
      have hload : s.wr_active_re_q = false := by
        by_contra hload
        rw [(hphases.load (by simpa using hload)).2.1] at hq
        cases hq
      have hactive' : s'.wr_active := by
        rw [hstate]
        exact active_of_not_done hactive (by simp [wr_done, hvalid])
      have hvalid' : s'.wb_pm_wvalid = false := by
        rw [hstate, ← Bool.not_eq_true, hphases.valid_step, hload, hvalid]
        simp
      have hwrite := hunder hactive hactive'
      rw [hq] at hwrite
      simp [to_come, latched, wr_active_re, beats_taken, hactive, hvalid, hq, hq', hactive',
        hvalid', hwrite]
    | true =>
      have hnone : latched (ins n) s = [] := by simp [latched, wr_active_re, hq]
      have hgoes : wr_done (ins n) s = false →
          s'.wr_active ∧ under_way (ins (n + 1)) s' = under_way (ins n) s := by
        intro hnot
        have hactive' : s'.wr_active := by
          rw [hstate]
          exact active_of_not_done hactive hnot
        have hsame := hunder hactive hactive'
        rw [hq] at hsame
        exact ⟨hactive', hsame⟩
      rw [hnone, List.flatMap_nil, List.append_nil]
      cases @data_step p _ _ hphases with
      | quiet hload hvalid =>
        have hgo := hphases.go hactive hq
        rw [hload, hvalid] at hgo
        simp at hgo
      | load hload hvalid hvalid' hidx' =>
        obtain ⟨hactive', hsame⟩ := hgoes (hphases.not_done_of_load hload)
        rw [← hstate] at hvalid' hidx'
        simp [to_come, beats_taken, hactive, hq, hvalid, hactive', hq', hvalid', hidx', hsame]
      | hold hload hvalid hready hvalid' hidx' =>
        have hnot : wr_done (ins n) s = false := by
          rw [← Bool.not_eq_true, hdone, hready]
          simp
        obtain ⟨hactive', hsame⟩ := hgoes hnot
        rw [← hstate] at hvalid' hidx'
        simp [to_come, beats_taken, hactive, hq, hvalid, hready, hactive', hq', hvalid', hidx',
          hsame]
      | next hload hvalid hready hidx hvalid' hidx' =>
        have hnot : wr_done (ins n) s = false := by
          rw [← Bool.not_eq_true, hdone]
          omega
        obtain ⟨hactive', hsame⟩ := hgoes hnot
        rw [← hstate] at hvalid' hidx'
        have hdrop := drop_beats (hphases.idx hvalid)
        simp [to_come, beats_taken, hactive, hq, hvalid, hready, hactive', hq', hvalid', hidx',
          hsame, hdrop, hshown hvalid]
      | last hload hvalid hready hidx =>
        have hyes := hdone.mpr ⟨hvalid, hready, hidx⟩
        have hstart := hctl.no_start hactive
        have hactive' : s'.wr_active = false := by
          rw [hstate, wr_active_step, hactive, hyes]
          rfl
        have hdrop := drop_beats (hphases.idx hvalid)
        have hend : (under_way (ins n) s).beats.drop (s.wb_wr_idx + 1) = [] := by
          rw [hidx]
          simp [WbWrite.beats]
        rw [hend] at hdrop
        simp [to_come, beats_taken, hactive, hq, hvalid, hready, hactive', hdrop, hshown hvalid]

theorem beats_eq (hsteady : AddrSteady p ins) (hclears : NoClears p ins) (hheld : MdHeld p ins)
    (n : Nat) : ((circuit p).passed ins latched n).flatMap WbWrite.beats =
      ((circuit p).passed ins beats_taken n).map WBeat.written ++
        to_come (ins n) ((circuit p).state ins n) := by
  induction n with
  | zero => rfl
  | succ n ih =>
    rw [Circuit.passed_succ, Circuit.passed_succ, List.flatMap_append, List.map_append, ih,
      List.append_assoc, List.append_assoc, to_come_step hsteady hclears hheld]

theorem aw_latched (n : Nat) (hsteady : AddrSteady p ins)
    (hvalid : ((circuit p).state ins n).wb_pm_awvalid) :
    ((((circuit p).state ins n).wb_pm_aw.addr,
      ((circuit p).state ins n).wb_pm_aw.len.toNat + 1) : BitVec 64 × Nat) =
      (addr_pipe_write_addr (ins n) ((circuit p).state ins n),
        (under_way (ins n) ((circuit p).state ins n)).num_beats) := by
  have hle := num_beats_le (under_way (ins n) ((circuit p).state ins n))
  have hbeats : _ = _ := @beats_minus1_eq (ins n) ((circuit p).state ins n)
  rw [aw_shown hsteady n hvalid]
  refine Prod.ext rfl ?_
  dsimp only
  rw [BitVec.toNat_ofNat]
  omega

theorem latched_addr : (latched_write i s).addr = addr_pipe_write_addr i s := rfl

theorem latched_num_beats : (latched_write i s).num_beats = (under_way i s).num_beats := by
  unfold WbWrite.num_beats WbWrite.size latched_write under_way
  dsimp only

theorem aws_step (hsteady : AddrSteady p ins) (n : Nat) :
    shown ((circuit p).state ins n).wb_pm_awvalid
        (addr_pipe_write_addr (ins n) ((circuit p).state ins n),
          (under_way (ins n) ((circuit p).state ins n)).num_beats) ++
        (latched (ins n) ((circuit p).state ins n)).map (fun w => (w.addr, w.num_beats)) =
      (aws_taken (ins n) ((circuit p).state ins n)).map (fun aw => (aw.addr, aw.len.toNat + 1)) ++
        shown ((circuit p).state ins (n + 1)).wb_pm_awvalid
          (addr_pipe_write_addr (ins (n + 1)) ((circuit p).state ins (n + 1)),
            (under_way (ins (n + 1)) ((circuit p).state ins (n + 1))).num_beats) := by
  have hctl : Ctl ((circuit p).state ins n) := ctl_state n
  have haw := aw_latched n hsteady
  have hsame := hsteady n
  have hstate : (circuit p).state ins (n + 1) = step p (ins n) ((circuit p).state ins n) := rfl
  generalize (circuit p).state ins n = s at *
  generalize (circuit p).state ins (n + 1) = s' at *
  have hkeeps : s.addr_active → addr_done (ins n) s = false →
      addr_pipe_write_addr (ins (n + 1)) s' = addr_pipe_write_addr (ins n) s ∧
        (under_way (ins (n + 1)) s').num_beats = (under_way (ins n) s).num_beats := by
    intro haddr hnot
    have haddr' : s'.addr_active := by
      rw [hstate, addr_active_step, hnot, Bool.and_false, haddr]
      simp
    have hbusy : busy s := by simp [busy, haddr]
    have hwrite := hsame hbusy (by simp [busy, haddr'])
    have hwinner : s'.req_winner = s.req_winner := by
      rw [hstate]
      exact hctl.req_winner_step hbusy
    exact ⟨hwrite, (num_beats_congr hwinner hwrite).2.1⟩
  have hvalid' : s'.wb_pm_awvalid = if s.wb_pm_awvalid && (ins n).pm_wb_awready then false
      else if s.addr_active then true else s.wb_pm_awvalid := by
    rw [hstate]
    rfl
  cases hvalid : s.wb_pm_awvalid with
  | true =>
    have haddr := hctl.aw hvalid
    have hnone : latched (ins n) s = [] := by
      unfold latched wr_active_re
      cases hactive : s.wr_active with
      | false => rfl
      | true =>
        cases hq : s.wr_active_q with
        | true => rfl
        | false =>
          rw [(hctl.new hactive hq).2] at hvalid
          cases hvalid
    cases hready : (ins n).pm_wb_awready with
    | true => simp [hnone, aws_taken, hvalid', hvalid, hready, haw hvalid]
    | false =>
      obtain ⟨hwrite, hbeats⟩ := hkeeps haddr (by simp [addr_done, hready])
      simp [hnone, aws_taken, hvalid', hvalid, hready, haddr, hwrite, hbeats]
  | false =>
    cases haddr : s.addr_active with
    | true =>
      obtain ⟨hactive, hq⟩ := hctl.fresh haddr hvalid
      obtain ⟨hwrite, hbeats⟩ := hkeeps haddr (by simp [addr_done, hvalid])
      have hone : latched (ins n) s = [latched_write (ins n) s] := by
        simp [latched, wr_active_re, hactive, hq]
      simp [hone, latched_addr, latched_num_beats, aws_taken, hvalid', hvalid, haddr, hwrite, hbeats]
    | false =>
      have hnone : latched (ins n) s = [] := by
        unfold latched wr_active_re
        cases hactive : s.wr_active with
        | false => rfl
        | true =>
          cases hq : s.wr_active_q with
          | true => rfl
          | false =>
            rw [(hctl.new hactive hq).1] at haddr
            cases haddr
      simp [hnone, aws_taken, hvalid', hvalid, haddr]

theorem aws_eq (hsteady : AddrSteady p ins) (n : Nat) :
    ((circuit p).passed ins latched n).map (fun w => (w.addr, w.num_beats)) =
      ((circuit p).passed ins aws_taken n).map (fun aw => (aw.addr, aw.len.toNat + 1)) ++
        shown ((circuit p).state ins n).wb_pm_awvalid
          (addr_pipe_write_addr (ins n) ((circuit p).state ins n),
            (under_way (ins n) ((circuit p).state ins n)).num_beats) := by
  induction n with
  | zero => rfl
  | succ n ih =>
    rw [Circuit.passed_succ, Circuit.passed_succ, List.map_append, List.map_append, ih,
      List.append_assoc, List.append_assoc, aws_step hsteady]

/-- With a steady address and a record that is not cleared, each write sends its own bytes. -/
theorem writes_own_bytes (p : WbParams) (ins : Nat → WbIn) (hsteady : AddrSteady p ins)
    (hclears : NoClears p ins) (hheld : MdHeld p ins) : Written p ins where
  beats n := ⟨_, (beats_eq hsteady hclears hheld n).symm⟩
  beats_all n hidle := by
    have hnone : to_come (ins n) ((circuit p).state ins n) = [] := by simp [to_come, hidle]
    rw [beats_eq hsteady hclears hheld n, hnone, List.append_nil]
  aws n := ⟨_, (aws_eq hsteady n).symm⟩
  aws_all n hidle := by
    rw [aws_eq hsteady n, (ctl_state n).awvalid_eq_false hidle, shown_false, List.append_nil]

/-- A status that goes to bytes 52 and on of a word. -/
def split_status (_ : Nat) : WbIn :=
  { quiet_in with
    cfg := { default_cfg with cfg_wb_status_addr := 0x1034 }
    cfg_wb_desc_error := true
    axis_wb_pkt_cnt := 5 }

theorem split_status_written :
    Written default_params split_status ∧
      ((circuit default_params).passed split_status aws_taken 8).map
        (fun aw => (aw.addr, aw.len)) = [(0x1034, 1)] := by
  have hsteady : AddrSteady default_params split_status :=
    addr_steady (fun _ => rfl) (fun _ => rfl) (fun _ _ _ => rfl)
  exact ⟨writes_own_bytes default_params split_status hsteady
    (fun _ _ _ => ⟨rfl, rfl, rfl, rfl⟩) nofun, by decide⟩

/-- The packets are counted from 0 again after the first beat. -/
def cleared_status (n : Nat) : WbIn := { split_status n with cfg_axis_clr_pkt_cnt := n = 4 }

theorem late_address_held : MdHeld default_params late_address := by
  intro n hreq hgrant
  have hn : n < 6 := by simpa [late_address] using hreq
  refine ⟨?_, rfl⟩
  interval_cases n
  all_goals first | rfl | exact absurd hgrant (by decide)

/-- The last field of the status is torn, or the address of the metadata has moved on. -/
theorem not_written :
    (¬ ∀ p c ins, (∀ n : Nat, (ins n).cfg = c) → MdHeld p ins → AddrSteady p ins →
      Written p ins) ∧
    (¬ ∀ p c ins, (∀ n : Nat, (ins n).cfg = c) → MdHeld p ins → NoClears p ins →
      Written p ins) := by
  constructor
  · intro h
    have hsteady : AddrSteady default_params cleared_status :=
      addr_steady (fun _ => rfl) (fun _ => rfl) (fun _ _ _ => rfl)
    have hbeats := (h default_params _ cleared_status (fun _ => rfl) nofun hsteady).beats 8
    revert hbeats
    decide +kernel
  · intro h
    have haws := (h default_params _ late_address (fun _ => rfl) late_address_held
      (fun _ _ _ => ⟨rfl, rfl, rfl, rfl⟩)).aws 12
    revert haws
    decide

end Wb

end AwsFpga.Rtl
