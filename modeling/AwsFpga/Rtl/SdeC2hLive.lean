import AwsFpga.Lib.LeadsTo
import AwsFpga.Rtl.SdeC2hPackets

/-!
# Why the C2H data mover gets done (`sde_c2h_data.sv`)

When what is around it goes on, each descriptor that is popped is written, gets its responses, and is
reported.
-/

open Lib Lib.Axi

namespace AwsFpga.Rtl

namespace C2h

open C2hBuf (BUF_SIZE_BYTES bytes Packed)
open C2hData (PCIM_MAX_WR_SIZE_BYTES Flow Serves Empty)

/-- What is around goes on: the channels and the write-back block come to be ready, a burst that has all
its beats out has its response, and where bytes are missing there is another beat of a packet. -/
structure Fair (p : C2hDataParams) (ins : Nat → C2hIn) : Prop where
  awready : ∀ n, ∃ m, n ≤ m ∧ (ins m).pm_dm_awready
  wready : ∀ n, ∃ m, n ≤ m ∧ (ins m).pm_dm_wready
  responds : ∀ n, (b_in p ins n).length < lasts_out p ins n → ∃ m, n ≤ m ∧ (ins m).pm_dm_bvalid
  grant : ∀ n, ∃ m, n ≤ m ∧ (ins m).wb_dm_md_grant
  packets : ∀ n, ((circuit p).state ins n).SDE_C2H_DATA.req_state = .REQ_WAIT_DATA →
    C2hData.curr_txn_data_avail ((circuit p).state ins n).SDE_C2H_DATA = false →
    ∃ m, n ≤ m ∧ (ins m).axis_buf_valid

variable {p : C2hDataParams} {ins : Nat → C2hIn} {n m : Nat}

/-! ## The output FIFO gets empty -/

theorem w_out_mono (h : n ≤ m) : (w_out p ins n).length ≤ (w_out p ins m).length :=
  (Circuit.passed_prefix h : w_out p ins n <+: w_out p ins m).length_le

theorem w_in_mono (h : n ≤ m) : (w_in p ins n).length ≤ (w_in p ins m).length :=
  (Circuit.passed_prefix h : w_in p ins n <+: w_in p ins m).length_le

theorem w_taken_of_ready (hready : (ins n).pm_dm_wready)
    (hmore : (w_out p ins n).length < (w_in p ins n).length) :
    (w_out p ins n).length < (w_out p ins (n + 1)).length := by
  have hsome : w_waiting p ins n ≠ [] := by
    intro hnone
    rw [w_in_eq, hnone, List.append_nil] at hmore
    exact Nat.lt_irrefl _ hmore
  have hvalid : C2hData.dm_pm_wvalid ((circuit p).state ins n).SDE_C2H_DATA = true := by
    cases hfifo : ((circuit p).state ins n).SDE_C2H_DATA.DP_DATA_OUTPUT_FIFO with
    | nil => exact absurd hfifo hsome
    | cons w rest => simp [C2hData.dm_pm_wvalid, hfifo]
  change _ < (w_out p ins n ++ fire (C2hData.dm_pm_wvalid _) (ins n).pm_dm_wready _).length
  rw [hvalid, hready, fire, Bool.and_self, if_pos rfl, List.length_append, List.length_singleton]
  exact Nat.lt_succ_self _

theorem Fair.drains (h : Fair p ins) (n : Nat) :
    ∃ m, n ≤ m ∧ (w_in p ins n).length ≤ (w_out p ins m).length := by
  refine LeadsTo.grows fun j hj hless => ?_
  obtain ⟨m, hm, hready⟩ := h.wready j
  by_cases hmore : (w_out p ins j).length < (w_out p ins m).length
  · exact ⟨m, hm, hmore⟩
  · have hin := @w_in_mono p ins _ _ (hj.trans hm)
    have hout := @w_out_mono p ins _ _ hm
    have htaken := w_taken_of_ready (p := p) hready (by omega)
    exact ⟨m + 1, Nat.le_succ_of_le hm, by omega⟩

theorem Fair.lasts (h : Fair p ins) (n : Nat) :
    ∃ m, n ≤ m ∧ finished p ins n ≤ lasts_out p ins m := by
  obtain ⟨m, hm, hlen⟩ := h.drains n
  refine ⟨m, hm, ?_⟩
  have hin : w_in p ins n <+: w_in p ins m := Circuit.passed_prefix hm
  have hout : w_out p ins m <+: w_in p ins m := by
    rw [w_in_eq]
    exact List.prefix_append _ _
  exact (List.prefix_of_prefix_length_le hin hout hlen).sublist.countP_le

theorem Fair.runs (h : Fair p ins) (n : Nat) :
    ∃ m, n ≤ m ∧ C2hData.dp_stall ((circuit p).state ins m).SDE_C2H_DATA = false := by
  by_contra hnever
  have hstall : ∀ m, n ≤ m → C2hData.dp_stall ((circuit p).state ins m).SDE_C2H_DATA = true := by
    intro m hm
    by_contra hno
    rw [Bool.not_eq_true] at hno
    exact hnever ⟨m, hm, hno⟩
  -- Nothing goes into the FIFO any more, so it gets empty, and then there is room.
  have hin : ∀ m, n ≤ m → w_in p ins m = w_in p ins n := by
    intro m hm
    induction m, hm using Nat.le_induction with
    | base => rfl
    | succ m hm ih =>
      have hnone : C2hData.w_pushed ((circuit p).state ins m).SDE_C2H_DATA = [] := by
        simp [C2hData.w_pushed, C2hData.dp_data_out_ff_push, hstall m hm]
      change w_in p ins m ++ C2hData.w_pushed _ = _
      rw [hnone, List.append_nil, ih]
  obtain ⟨m, hm, hout⟩ := h.drains n
  have hlen := congrArg List.length (@w_in_eq p ins m)
  rw [hin m hm, List.length_append] at hlen
  have hempty : ((circuit p).state ins m).SDE_C2H_DATA.DP_DATA_OUTPUT_FIFO = [] :=
    List.eq_nil_of_length_eq_zero (by change (w_waiting p ins m).length = 0; omega)
  have hfull := hstall m hm
  simp [C2hData.dp_stall, hempty, watermark] at hfull

/-! ## Room for responses is set aside -/

theorem prealloc_dec_eq {i : C2hDataIn} {dm : C2hData} :
    C2hData.bresp_prealloc_avail_cnt_dec i dm = C2hData.aw_req_done i dm := by
  unfold C2hData.bresp_prealloc_avail_cnt_dec
  cases hstate : dm.req_state with
  | REQ_ADDR =>
    simp only [C2hData.req_state_next, hstate]
    cases C2hData.aw_req_done i dm <;> rfl
  | REQ_IDLE => simp [C2hData.aw_req_done, C2hData.dm_pm_awvalid, hstate]
  | REQ_GET_DESC => simp [C2hData.aw_req_done, C2hData.dm_pm_awvalid, hstate]
  | REQ_WAIT_DATA => simp [C2hData.aw_req_done, C2hData.dm_pm_awvalid, hstate]
  | REQ_DATA => simp [C2hData.aw_req_done, C2hData.dm_pm_awvalid, hstate]
  | REQ_WAIT_CALC => simp [C2hData.aw_req_done, C2hData.dm_pm_awvalid, hstate]

/-- The counter goes up with each response that is counted, and down with each address. -/
theorem prealloc_step {i : C2hDataIn} {dm : C2hData}
    (hle : dm.bresp_prealloc_avail_cnt ≤ C2hData.DP_DATA_BRESP_FIFO_DEPTH)
    (hsome : dm.req_state = .REQ_ADDR → 0 < dm.bresp_prealloc_avail_cnt) :
    (C2hData.step p i dm).bresp_prealloc_avail_cnt + (C2hData.aw_req_done i dm).toNat =
        dm.bresp_prealloc_avail_cnt + (C2hData.dp_bresp_ff_pop i dm).toNat ∧
      ((C2hData.step p i dm).req_state = .REQ_ADDR →
        0 < (C2hData.step p i dm).bresp_prealloc_avail_cnt) := by
  have hdepth : C2hData.DP_DATA_BRESP_FIFO_DEPTH = 32 := rfl
  have hnew : (C2hData.step p i dm).bresp_prealloc_avail_cnt + (C2hData.aw_req_done i dm).toNat =
      dm.bresp_prealloc_avail_cnt + (C2hData.dp_bresp_ff_pop i dm).toNat := by
    change (if C2hData.dp_bresp_ff_pop i dm && !C2hData.bresp_prealloc_avail_cnt_dec i dm then _
      else if !C2hData.dp_bresp_ff_pop i dm && C2hData.bresp_prealloc_avail_cnt_dec i dm then _
      else _) + _ = _
    rw [prealloc_dec_eq]
    cases hdec : C2hData.aw_req_done i dm with
    | false =>
      cases C2hData.dp_bresp_ff_pop i dm with
      | false => simp
      | true =>
        simp
        omega
    | true =>
      have haddr : dm.req_state = .REQ_ADDR := by
        rw [C2hData.aw_req_done, C2hData.dm_pm_awvalid, Bool.and_eq_true, decide_eq_true_iff] at hdec
        exact hdec.1
      have hpos := hsome haddr
      cases C2hData.dp_bresp_ff_pop i dm with
      | false =>
        simp
        omega
      | true => simp
  refine ⟨hnew, fun hnext => ?_⟩
  change C2hData.req_state_next i dm = _ at hnext
  cases hstate : dm.req_state with
  | REQ_WAIT_DATA =>
    have hno : C2hData.aw_req_done i dm = false := by
      simp [C2hData.aw_req_done, C2hData.dm_pm_awvalid, hstate]
    rw [C2hData.req_state_next, hstate] at hnext
    dsimp only at hnext
    split at hnext
    case isTrue hgo =>
      rw [Bool.and_eq_true, C2hData.bresp_prealloc_avail, decide_eq_true_iff] at hgo
      rw [hno, Bool.toNat_false] at hnew
      omega
    case isFalse => cases hnext
  | REQ_ADDR =>
    have hpos := hsome hstate
    cases hdec : C2hData.aw_req_done i dm with
    | true =>
      rw [C2hData.req_state_next, hstate] at hnext
      simp [hdec] at hnext
    | false =>
      rw [hdec, Bool.toNat_false] at hnew
      omega
  | REQ_IDLE =>
    rw [C2hData.req_state_next, hstate] at hnext
    dsimp only at hnext
    split at hnext <;> cases hnext
  | REQ_GET_DESC =>
    rw [C2hData.req_state_next, hstate] at hnext
    cases hnext
  | REQ_DATA =>
    rw [C2hData.req_state_next, hstate] at hnext
    dsimp only at hnext
    split at hnext
    · cases hnext
    · split at hnext <;> cases hnext
  | REQ_WAIT_CALC =>
    rw [C2hData.req_state_next, hstate] at hnext
    cases hnext

/-! ## Responses are counted -/

section Counting

variable (hpacked : ∀ n, (ins n).axis_buf_valid → Packed (ins n).axis_buf)
  (hafter : RespondsAfter p ins)

theorem b_out_mono (h : n ≤ m) : (b_out p ins n).length ≤ (b_out p ins m).length :=
  (Circuit.passed_prefix h : b_out p ins n <+: b_out p ins m).length_le

theorem b_in_mono (h : n ≤ m) : (b_in p ins n).length ≤ (b_in p ins m).length :=
  (Circuit.passed_prefix h : b_in p ins n <+: b_in p ins m).length_le

theorem lasts_out_mono (h : n ≤ m) : lasts_out p ins n ≤ lasts_out p ins m :=
  (Circuit.passed_prefix h : w_out p ins n <+: w_out p ins m).sublist.countP_le

/-- A request stays until it is granted, and takes the last response with it. -/
theorem asked_step (h : Answered p ins n)
    (hreq : ((circuit p).state ins n).SDE_C2H_DATA.dm_wb_md_req = true) :
    if (ins n).wb_dm_md_grant then (b_out p ins n).length < (b_out p ins (n + 1)).length
    else ((circuit p).state ins (n + 1)).SDE_C2H_DATA.dm_wb_md_req = true := by
  obtain ⟨hsend, hsend_q, -⟩ := h.asked hreq
  split
  case isTrue hgrant =>
    have hpop : C2hData.dp_bresp_ff_pop (data_in p (ins n) ((circuit p).state ins n))
        ((circuit p).state ins n).SDE_C2H_DATA = true := by
      simp [C2hData.dp_bresp_ff_pop, C2hData.curr_desc_wb_complete, hsend, hsend_q, hreq, data_in,
        hgrant]
    rw [b_out_next, hpop]
    exact Nat.lt_succ_self _
  case isFalse hgrant =>
    rw [Bool.not_eq_true] at hgrant
    change (if (_ && (ins n).wb_dm_md_grant) = true then _ else if _ then _ else _) = _
    rw [hgrant, Bool.and_false, if_neg Bool.false_ne_true, hsend, if_pos rfl]

include hpacked hafter

theorem Fair.counts_next (h : Fair p ins)
    (hsome : ((circuit p).state ins n).SDE_C2H_DATA.DP_DATA_BRESP_FIFO ≠ []) :
    ∃ m, n ≤ m ∧ (b_out p ins n).length < (b_out p ins m).length := by
  by_cases hnow : (b_out p ins n).length < (b_out p ins (n + 1)).length
  · exact ⟨n + 1, Nat.le_succ n, hnow⟩
  have hanswered := answered_state (p := p) hpacked hafter
  have hnopop : C2hData.dp_bresp_ff_pop (data_in p (ins n) ((circuit p).state ins n))
      ((circuit p).state ins n).SDE_C2H_DATA = false := by
    by_contra hpop
    rw [Bool.not_eq_false] at hpop
    rw [b_out_next, hpop] at hnow
    exact hnow (Nat.lt_succ_self _)
  -- It waits for the grant of its descriptor.
  have hsend : C2hData.curr_desc_send_to_wb ((circuit p).state ins n).SDE_C2H_DATA = true := by
    by_contra hno
    rw [Bool.not_eq_true] at hno
    rw [C2hData.dp_bresp_ff_pop, hno, if_neg Bool.false_ne_true, C2hData.dp_bresp_ff_valid,
      Bool.not_eq_false', List.isEmpty_iff] at hnopop
    exact hsome hnopop
  have hasked : ((circuit p).state ins (n + 1)).SDE_C2H_DATA.dm_wb_md_req = true := by
    cases hreq : ((circuit p).state ins n).SDE_C2H_DATA.dm_wb_md_req with
    | true =>
      have hstep := asked_step (hanswered n) hreq
      split at hstep
      case isTrue => exact absurd hstep hnow
      case isFalse => exact hstep
    | false =>
      change (if (_ && _) = true then _ else if _ then _ else _) = _
      rw [hreq, Bool.false_and, if_neg Bool.false_ne_true, hsend, if_pos rfl]
  have hwait : LeadsTo (fun m => ((circuit p).state ins m).SDE_C2H_DATA.dm_wb_md_req = true)
      (fun m => ((circuit p).state ins m).SDE_C2H_DATA.dm_wb_md_req = true ∧
        (ins m).wb_dm_md_grant = true) := by
    refine LeadsTo.wait (fun m hreq hno => ?_) fun m _ => h.grant m
    have hstep := asked_step (hanswered m) hreq
    rwa [if_neg hno] at hstep
  obtain ⟨m, hm, hreq, hgrant⟩ := hwait (n + 1) hasked
  have hstep := asked_step (hanswered m) hreq
  rw [if_pos hgrant] at hstep
  have hmono := @b_out_mono p ins n m (by omega)
  exact ⟨m + 1, by omega, by omega⟩

theorem Fair.counts (h : Fair p ins) (n : Nat) :
    ∃ m, n ≤ m ∧ finished p ins n ≤ (b_out p ins m).length := by
  refine LeadsTo.grows fun j hj hless => ?_
  -- It is counted, or it is in the FIFO, or it comes.
  by_contra hnever
  have hsame : ∀ m, j ≤ m → (b_out p ins m).length = (b_out p ins j).length := by
    intro m hm
    have hmono := @b_out_mono p ins _ _ hm
    by_contra hne
    exact hnever ⟨m, hm, by omega⟩
  have hempty : ∀ m, j ≤ m → ((circuit p).state ins m).SDE_C2H_DATA.DP_DATA_BRESP_FIFO = [] := by
    intro m hm
    by_contra hsome
    obtain ⟨k, hk, hmore⟩ := h.counts_next hpacked hafter hsome
    have hsame_m := hsame m hm
    exact hnever ⟨k, hm.trans hk, by omega⟩
  have hall : ∀ m, j ≤ m → (b_in p ins m).length = (b_out p ins j).length := by
    intro m hm
    rw [b_eq, hempty m hm, List.append_nil, hsame m hm]
  obtain ⟨k, hk, hlasts⟩ := h.lasts j
  have hfinished := @finished_mono p ins _ _ hj
  obtain ⟨m, hm, hvalid⟩ := h.responds k (by rw [hall k hk]; omega)
  have hready : C2hData.dm_pm_bready ((circuit p).state ins m).SDE_C2H_DATA = true := by
    simp [C2hData.dm_pm_bready, C2hData.dp_bresp_ff_full, watermark, hempty m (hk.trans hm)]
  have htaken : (b_in p ins (m + 1)).length = (b_in p ins m).length + 1 := by
    change (b_in p ins m ++ fire (ins m).pm_dm_bvalid (C2hData.dm_pm_bready _) _).length = _
    rw [hvalid, hready, fire, Bool.and_self, if_pos rfl, List.length_append, List.length_singleton]
  rw [hall m (hk.trans hm), hall (m + 1) (by omega)] at htaken
  omega

/-! ## Records leave the FIFO -/

theorem Fair.records (h : Fair p ins) (n : Nat) :
    ∃ m, n ≤ m ∧ (recs_in p ins n).length ≤ (recs_out p ins m).length := by
  obtain ⟨m, hm, hcounted⟩ := h.counts hpacked hafter n
  refine ⟨m, hm, ?_⟩
  by_contra hless
  have hanswered := answered_state (p := p) hpacked hafter m
  have hfinished := finished_eq (p := p) hpacked n
  have hrecs := @recs_eq p ins m
  have hin : recs_in p ins n <+: recs_in p ins m := Circuit.passed_prefix hm
  -- The oldest record that is left waits for more responses than were counted.
  cases hheld : ((circuit p).state ins m).SDE_C2H_DATA.DP_WB_FIFO.held C2hData.DP_WB_FIFO_DEPTH with
  | nil =>
    rw [hheld, List.append_nil] at hrecs
    have hlen := hin.length_le
    rw [hrecs] at hlen
    exact hless hlen
  | cons r rest =>
    have hwithin := hanswered.within r rest hheld
    have hcount := hanswered.count
    rw [hheld] at hrecs
    have hout : recs_out p ins m ++ [r] <+: recs_in p ins n := by
      refine List.prefix_of_prefix_length_le ⟨rest, ?_⟩ hin ?_
      · rw [hrecs, List.append_assoc]
        rfl
      · rw [List.length_append, List.length_singleton]
        omega
    obtain ⟨more, hmore⟩ := hout
    rw [← hmore, waited_append, waited_append, waited_single] at hfinished
    omega

/-- For each burst that is asked for, room for its response is set aside. -/
theorem prealloc (n : Nat) :
    ((circuit p).state ins n).SDE_C2H_DATA.bresp_prealloc_avail_cnt + (writes_out p ins n).length =
        C2hData.DP_DATA_BRESP_FIFO_DEPTH + (b_out p ins n).length ∧
      (((circuit p).state ins n).SDE_C2H_DATA.req_state = .REQ_ADDR →
        0 < ((circuit p).state ins n).SDE_C2H_DATA.bresp_prealloc_avail_cnt) := by
  induction n with
  | zero => exact ⟨rfl, nofun⟩
  | succ n ih =>
    obtain ⟨hcnt, hsome⟩ := ih
    have hdepth : C2hData.DP_DATA_BRESP_FIFO_DEPTH = 32 := rfl
    have hwrites := writes_length (p := p) hpacked n
    have hin := b_in_le (p := p) hafter n
    have hmono := @finished_mono p ins _ _ (Nat.sub_le n 2)
    have hb := congrArg List.length (@b_eq p ins n)
    have hnext := @b_out_next p ins n
    rw [List.length_append] at hb
    have hout : (writes_out p ins (n + 1)).length = (writes_out p ins n).length +
        (C2hData.aw_req_done (data_in p (ins n) ((circuit p).state ins n))
          ((circuit p).state ins n).SDE_C2H_DATA).toNat := by
      rw [writes_out_succ, List.length_append, C2hData.issued]
      cases C2hData.aw_req_done _ _ <;> rfl
    have hstep := @prealloc_step p (data_in p (ins n) ((circuit p).state ins n))
      ((circuit p).state ins n).SDE_C2H_DATA (by omega) hsome
    change ((circuit p).state ins (n + 1)).SDE_C2H_DATA.bresp_prealloc_avail_cnt + _ = _ ∧
      (((circuit p).state ins (n + 1)).SDE_C2H_DATA.req_state = _ → 0 <
        ((circuit p).state ins (n + 1)).SDE_C2H_DATA.bresp_prealloc_avail_cnt) at hstep
    exact ⟨by omega, hstep.2⟩

end Counting

end C2h

end AwsFpga.Rtl
