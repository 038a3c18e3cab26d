import AwsFpga.Rtl.SdeC2hLive

/-!
# Each C2H descriptor is served (`sde_c2h_data.sv`)

The states of the requests go round: a burst is chosen when its bytes are there, its address is taken,
its beats go out, and with each burst less of the descriptor is left.
-/

open Lib Lib.Axi

namespace AwsFpga.Rtl

namespace C2h

open C2hBuf (BUF_SIZE_BYTES bytes Packed)
open C2hData (PCIM_MAX_WR_SIZE_BYTES Flow Serves Runs Empty)

variable {p : C2hDataParams} {ins : Nat → C2hIn} {n m len : Nat} {state : C2hReqState}

variable (p ins) in
/-- In cycle `n` the requests are in a state, and `len` bytes of the descriptor have no burst yet that is
done. -/
def Serving (state : C2hReqState) (len n : Nat) : Prop :=
  ((circuit p).state ins n).SDE_C2H_DATA.req_state = state ∧
    ((circuit p).state ins n).SDE_C2H_DATA.curr_desc_len = len

/-! ## How long a burst takes -/

/-- A bound on the cycles without a stall until the last beat of the burst goes out. The beats that are
left are counted when the last stage has one (no burst has more than 256), the stages that are passed
before that. -/
def to_go (dm : C2hData) : Nat :=
  if dm.aw_req_done_q then 300
  else if dm.pl5_dp.valid then min (dm.pl5_dp.num_beats + 1) 256
  else 280 - (dm.pl1_dp.valid.toNat + dm.pl2_dp.valid.toNat + dm.pl3_dp.valid.toNat +
    dm.pl4_dp.valid.toNat)

section Flows

variable {dm dm' : C2hData} {q : C2hJob} {base c : Nat}

theorem to_go_of_flow (hf : Flow p base q c dm) (hstarted : dm.aw_req_done_q = false) :
    to_go dm = if 4 + q.lead ≤ c then min (dm.pl5_dp.num_beats + 1) 256 else 280 - c := by
  rw [to_go, hstarted, if_neg Bool.false_ne_true, hf.pl5]
  by_cases hc : 4 + q.lead ≤ c
  · rw [decide_eq_true hc, if_pos rfl, if_pos hc]
  · have hlead : q.lead ≤ 1 := by
      unfold C2hJob.lead
      split <;> omega
    have hsum : dm.pl1_dp.valid.toNat + dm.pl2_dp.valid.toNat + dm.pl3_dp.valid.toNat +
        dm.pl4_dp.valid.toNat = c := by
      rw [hf.pl1, hf.pl2, hf.pl3, hf.pl4]
      rcases Nat.lt_or_ge c 4 with hlt | hge
      · interval_cases c <;> rfl
      · -- Only where a beat needs the slice behind it, the stages are full without one.
        have hlast : c = 4 ∧ q.lead = 1 := by omega
        have hne : q.dest ≠ q.rd := by
          rintro heq
          rw [C2hJob.lead, heq, if_neg (Nat.lt_irrefl _)] at hlast
          cases hlast.2
        rw [hlast.1, decide_eq_true hne]
        rfl
    rw [decide_eq_false hc, if_neg Bool.false_ne_true, if_neg hc, hsum]

theorem to_go_run (hf : Flow p base q c dm) (hs : Serves p base q dm)
    (hstarted : dm.aw_req_done_q = false) (hf' : Flow p base q (c + 1) dm')
    (hstarted' : dm'.aw_req_done_q = false) : to_go dm' < to_go dm := by
  have hlead : q.lead ≤ 1 := by
    unfold C2hJob.lead
    split <;> omega
  rw [to_go_of_flow hf hstarted, to_go_of_flow hf' hstarted']
  split
  case isFalse hbefore =>
    rw [if_neg (by omega)]
    omega
  case isTrue hnext =>
    by_cases hc : 4 + q.lead ≤ c
    · -- A burst without a byte has one beat only.
      have hsome : 0 < q.bytes := by
        by_contra hnull
        have hmore := hf'.more hnext
        rw [C2hJob.beats_null hs.held (Nat.eq_zero_of_not_pos hnull)] at hmore
        omega
      have hnow := hf.num_beats hsome hc
      have hthen := hf'.num_beats hsome hnext
      have hshort := hs.short
      rw [if_pos hc]
      omega
    · rw [if_neg hc]
      omega

end Flows

section Served

variable (hpacked : ∀ n, (ins n).axis_buf_valid → Packed (ins n).axis_buf)
include hpacked

theorem no_push_of_state
    (hstate : ((circuit p).state ins n).SDE_C2H_DATA.req_state ≠ .REQ_DATA) :
    C2hData.dp_data_out_ff_push ((circuit p).state ins n).SDE_C2H_DATA = false := by
  obtain ⟨bqq, rp, r, hlinked, hphase⟩ := holds_state (p := p) hpacked n
  by_contra hpush
  rw [Bool.not_eq_false] at hpush
  obtain ⟨-, -, hdata, -⟩ := hphase.of_push hpush
  exact hstate hdata

theorem no_done_of_state
    (hstate : ((circuit p).state ins n).SDE_C2H_DATA.req_state ≠ .REQ_DATA) :
    C2hData.data_tx_done ((circuit p).state ins n).SDE_C2H_DATA = false :=
  no_done_of_no_push (no_push_of_state hpacked hstate)

theorem Serving.step (h : Serving p ins state len n) (hbusy : state ≠ .REQ_IDLE)
    (hdata : state ≠ .REQ_DATA) :
    Serving p ins (C2hData.req_state_next (data_in p (ins n) ((circuit p).state ins n))
      ((circuit p).state ins n).SDE_C2H_DATA) len (n + 1) := by
  obtain ⟨rfl, rfl⟩ := h
  exact ⟨rfl, (@desc_kept p _ _ (no_done_of_state hpacked hdata) hbusy).2⟩

theorem Serving.wait_step (h : Serving p ins .REQ_WAIT_DATA len n) :
    Serving p ins
      (if C2hData.curr_txn_data_avail ((circuit p).state ins n).SDE_C2H_DATA &&
          !C2hData.dp_wb_ff_full ((circuit p).state ins n).SDE_C2H_DATA &&
          C2hData.bresp_prealloc_avail ((circuit p).state ins n).SDE_C2H_DATA then .REQ_ADDR
        else .REQ_WAIT_DATA) len (n + 1) := by
  have hstep := h.step hpacked (by decide) (by decide)
  rwa [C2hData.req_state_next, h.1] at hstep

theorem Serving.addr_step (h : Serving p ins .REQ_ADDR len n) :
    Serving p ins (if (ins n).pm_dm_awready then .REQ_DATA else .REQ_ADDR) len (n + 1) := by
  have hstep := h.step hpacked (by decide) (by decide)
  have hdone : C2hData.aw_req_done (data_in p (ins n) ((circuit p).state ins n))
      ((circuit p).state ins n).SDE_C2H_DATA = (ins n).pm_dm_awready := by
    rw [C2hData.aw_req_done, C2hData.dm_pm_awvalid, h.1]
    rfl
  rwa [C2hData.req_state_next, h.1, hdone] at hstep

theorem Serving.calc_step (h : Serving p ins .REQ_WAIT_CALC len n) :
    Serving p ins .REQ_WAIT_DATA len (n + 1) := by
  have hstep := h.step hpacked (by decide) (by decide)
  rwa [C2hData.req_state_next, h.1] at hstep

/-! ## The data come -/

/-- The buffer reports what came in two cycles before. -/
theorem rows_of_linked {bqq : List AxisBeat} {rp r base : Nat}
    (h : Linked p ((circuit p).state ins (n + 2)) (beats_in p ins (n + 2)) (beats_in p ins (n + 1)) bqq
      rp r base) : bqq = beats_in p ins n := by
  obtain ⟨_, _, _, hnow, -⟩ := holds_state (p := p) hpacked n
  have hptr : bqq.length % p.BUF_DEPTH = (beats_in p ins n).length % p.BUF_DEPTH :=
    h.track.buf_wr_ptr_qq.symm.trans hnow.track.buf_wr_ptr
  have hlarge := p.large
  have hrows := C2hBuf.read_rows h.track
  have hone (m : Nat) : (beats_in p ins m).length ≤ (beats_in p ins (m + 1)).length ∧
      (beats_in p ins (m + 1)).length ≤ (beats_in p ins m).length + 1 := by
    have hlen : (beats_in p ins (m + 1)).length = (beats_in p ins m).length + _ :=
      List.length_append
    rw [accepted, C2hBuf.accepted_length] at hlen
    have hle := Bool.toNat_le
      (C2hBuf.buf_write_en (buf_in (ins m) ((circuit p).state ins m)) ((circuit p).state ins m).SDE_C2H_BUF)
    omega
  have hfirst := hone n
  have hsecond : (beats_in p ins (n + 1)).length ≤ (beats_in p ins (n + 2)).length ∧
      (beats_in p ins (n + 2)).length ≤ (beats_in p ins (n + 1)).length + 1 := hone (n + 1)
  have hlow : (beats_in p ins (n + 2)).length - 2 ≤ bqq.length := by omega
  have hlow' : (beats_in p ins (n + 2)).length - 2 ≤ (beats_in p ins n).length := by omega
  have hlen : bqq.length = (beats_in p ins n).length :=
    row_inj hlow (by omega) hlow' (by omega) hptr
  have hbefore : beats_in p ins n <+: beats_in p ins (n + 2) := Circuit.passed_prefix (by omega)
  have hread := h.track.recent_q.1.trans h.track.recent.1
  exact (List.prefix_of_prefix_length_le hread hbefore (Nat.le_of_eq hlen)).eq_of_length hlen

theorem linked_of_wait
    (hstate : ((circuit p).state ins n).SDE_C2H_DATA.req_state = .REQ_WAIT_DATA) :
    ∃ bqq, Linked p ((circuit p).state ins n) (beats_in p ins n) (beats_in p ins (n - 1)) bqq
      (place p ins n) (place p ins n) (place p ins n) := by
  obtain ⟨bqq, rp, r, hlinked, hphase⟩ := holds_state (p := p) hpacked n
  cases hphase with
  | wait state empty started here before =>
    rw [here, before] at hlinked
    exact ⟨bqq, hlinked⟩
  | idle state => rw [hstate] at state; cases state
  | next state => rw [hstate] at state; cases state
  | addr q state => rw [hstate] at state; cases state
  | load q state => rw [hstate] at state; cases state
  | data q c state => rw [hstate] at state; cases state

variable (p ins n) in
/-- From cycle `n` on, the requests wait for data that do not come. -/
structure Starves : Prop where
  wait : ∀ m, n ≤ m → ((circuit p).state ins m).SDE_C2H_DATA.req_state = .REQ_WAIT_DATA
  starved : ∀ m, n ≤ m → C2hData.curr_txn_data_avail ((circuit p).state ins m).SDE_C2H_DATA = false

section Starves

variable (h : Starves p ins n)

include h

theorem Starves.place (hm : n ≤ m) : C2h.place p ins m = C2h.place p ins n := by
  induction m, hm using Nat.le_induction with
  | base => rfl
  | succ m hm ih =>
    rw [← ih]
    exact place_kept (no_done_of_state hpacked (by rw [h.wait m hm]; decide)) _

omit hpacked in
theorem Starves.aux_valid (hm : n ≤ m) :
    C2hBuf.buf_dm_aux_valid ((circuit p).state ins m).SDE_C2H_BUF = false := by
  have hno := h.starved (m + 1) (Nat.le_succ_of_le hm)
  rw [C2hData.curr_txn_data_avail, Bool.or_eq_false_iff] at hno
  exact hno.1

/-- No packet ends in what came in behind the place, and it is less than the largest burst. -/
theorem Starves.rows (hm : n ≤ m) :
    PCIM_DATA_WIDTH_BYTES * (beats_in p ins m).length < C2h.place p ins n + PCIM_MAX_WR_SIZE_BYTES p ∧
      ∀ b ∈ (beats_in p ins m).drop (C2h.place p ins n / PCIM_DATA_WIDTH_BYTES), b.last = false := by
  have hm' : n ≤ m + 2 := by omega
  obtain ⟨bqq, hlinked⟩ := linked_of_wait hpacked (h.wait (m + 2) hm')
  obtain rfl := rows_of_linked hpacked hlinked
  rw [h.place hpacked hm'] at hlinked
  have hnone := h.aux_valid hm'
  have hnum := C2hBuf.num_bytes_of_starved
    (i := buf_in (ins (m + 2)) ((circuit p).state ins (m + 2))) hlinked.track hlinked.addr hnone
  constructor
  · have hno := h.starved (m + 3) (by omega)
    rw [C2hData.curr_txn_data_avail, Bool.or_eq_false_iff, decide_eq_false_iff_not] at hno
    obtain ⟨bqq', hnext⟩ := linked_of_wait hpacked (h.wait (m + 3) (by omega))
    have hmax := hnext.max (by rw [h.wait (m + 3) (by omega)]; decide)
    have hle := max_le p
    rw [required_eq (by omega)] at hno
    have hq : ((circuit p).state ins (m + 3)).SDE_C2H_DATA.buf_dm_num_bytes_q =
        C2hBuf.buf_dm_num_bytes p.toC2hBufParams (buf_in (ins (m + 2)) ((circuit p).state ins (m + 2)))
          ((circuit p).state ins (m + 2)).SDE_C2H_BUF := rfl
    omega
  · refine C2hBuf.no_end_of_starved hlinked.track hlinked.delay ?_
    simpa [C2hBuf.buf_dm_aux_valid, FtFifo.ft_valid] using hnone

theorem Starves.ready (hlarge : PCIM_MAX_WR_SIZE_BYTES p < BUF_SIZE_BYTES p.toC2hBufParams)
    (hm : n ≤ m) : C2hBuf.buf_axis_ready ((circuit p).state ins m).SDE_C2H_BUF = true := by
  obtain ⟨bqq, hlinked⟩ := linked_of_wait hpacked (h.wait m hm)
  rw [h.place hpacked hm] at hlinked
  obtain ⟨hrows, hopen⟩ := h.rows hpacked hm
  have htrack := hlinked.track
  have hfull : ((circuit p).state ins m).SDE_C2H_BUF.buf_full = false := by
    obtain ⟨k, hk⟩ := max_dvd p
    rw [htrack.full, decide_eq_false_iff_not]
    unfold BUF_SIZE_BYTES at hlarge
    rw [width_val] at *
    omega
  have haux : ((circuit p).state ins m).SDE_C2H_BUF.aux_ptrs.full = false := by
    have hpos := p.aux_pos
    have hheld := C2hBuf.held_length htrack
    have hsplit := congrArg (List.countP AxisBeat.last) (List.take_append_drop
      (C2h.place p ins n / PCIM_DATA_WIDTH_BYTES) (beats_in p ins m))
    have hnone : ((beats_in p ins m).drop
        (C2h.place p ins n / PCIM_DATA_WIDTH_BYTES)).countP AxisBeat.last = 0 := by
      rw [List.countP_eq_zero]
      intro b hb
      rw [hopen b hb]
      exact Bool.false_ne_true
    rw [List.countP_append, hnone] at hsplit
    rw [htrack.aux_ptrs.full, decide_eq_false_iff_not]
    omega
  rw [C2hBuf.buf_axis_ready, hfull, haux]
  rfl

end Starves

/-- Where packets keep coming and the buffer has room for more than a burst, the data come. -/
theorem Fair.not_starves (hfair : Fair p ins)
    (hlarge : PCIM_MAX_WR_SIZE_BYTES p < BUF_SIZE_BYTES p.toC2hBufParams) : ¬Starves p ins n := by
  intro h
  have hreach := LeadsTo.grows (f := fun m => (beats_in p ins m).length) (s := n)
    (k := C2h.place p ins n + PCIM_MAX_WR_SIZE_BYTES p) fun j hj _ => ?_
  · obtain ⟨m, hm, hle⟩ := hreach
    have hrows := (h.rows hpacked hm).1
    rw [width_val] at hrows
    omega
  · obtain ⟨m, hm, hvalid⟩ := hfair.packets j (h.wait j hj) (h.starved j hj)
    refine ⟨m + 1, Nat.le_succ_of_le hm, ?_⟩
    have hmono : beats_in p ins j <+: beats_in p ins m := Circuit.passed_prefix hm
    have hready := h.ready hpacked hlarge (hj.trans hm)
    change _ < (beats_in p ins m ++ fire (ins m).axis_buf_valid (C2hBuf.buf_axis_ready _) _).length
    rw [hvalid, hready, fire, Bool.and_self, if_pos rfl, List.length_append, List.length_singleton]
    exact Nat.lt_succ_of_le hmono.length_le

/-! ## A burst is chosen -/

section Waits

variable (hstay : ∀ m, n ≤ m → Serving p ins .REQ_WAIT_DATA len m)

include hstay

theorem recs_kept (hm : n ≤ m) : recs_in p ins m = recs_in p ins n := by
  induction m, hm using Nat.le_induction with
  | base => rfl
  | succ m hm ih =>
    have hdone := no_done_of_state (p := p) hpacked (n := m) (by rw [(hstay m hm).1]; decide)
    rw [recs_in_succ, C2hData.recorded, no_record hdone, if_neg Bool.false_ne_true, List.append_nil, ih]

omit hpacked in
theorem writes_kept (hm : n ≤ m) : writes_out p ins m = writes_out p ins n := by
  induction m, hm using Nat.le_induction with
  | base => rfl
  | succ m hm ih =>
    have hissued : C2hData.issued (data_in p (ins m) ((circuit p).state ins m))
        ((circuit p).state ins m).SDE_C2H_DATA = [] := by
      simp [C2hData.issued, C2hData.aw_req_done, C2hData.dm_pm_awvalid, (hstay m hm).1]
    rw [writes_out_succ, hissued, List.append_nil, ih]

theorem wb_room_of_waiting {k : Nat} (hk : n ≤ k)
    (hout : (recs_in p ins n).length ≤ (recs_out p ins k).length) (hm : k ≤ m) :
    C2hData.dp_wb_ff_full ((circuit p).state ins m).SDE_C2H_DATA = false := by
  have hmore : recs_out p ins k <+: recs_out p ins m := Circuit.passed_prefix hm
  have hle := hmore.length_le
  have hall := congrArg List.length (@recs_eq p ins m)
  rw [recs_kept hpacked hstay (hk.trans hm), List.length_append, RamFifoFt.held_length] at hall
  rw [C2hData.dp_wb_ff_full, RamFifoFt.wmark, decide_eq_false_iff_not]
  omega

theorem prealloc_of_waiting (hafter : RespondsAfter p ins) {j : Nat} (hj : n ≤ j)
    (hcount : finished p ins n ≤ (b_out p ins j).length) (hm : j ≤ m) :
    C2hData.bresp_prealloc_avail ((circuit p).state ins m).SDE_C2H_DATA = true := by
  have hdepth : C2hData.DP_DATA_BRESP_FIFO_DEPTH = 32 := rfl
  have hmono := @b_out_mono p ins _ _ hm
  have hcnt := (prealloc (p := p) hpacked hafter m).1
  have hlen := writes_length (p := p) hpacked n
  rw [writes_kept hstay (hj.trans hm), hlen, (hstay n (Nat.le_refl n)).1, if_neg (by decide)] at hcnt
  rw [C2hData.bresp_prealloc_avail, decide_eq_true_iff]
  omega

end Waits

section Goes

variable (hafter : RespondsAfter p ins) (hfair : Fair p ins)
  (hlarge : PCIM_MAX_WR_SIZE_BYTES p < BUF_SIZE_BYTES p.toC2hBufParams)

include hafter hfair

include hlarge in
theorem Fair.chooses (len : Nat) :
    LeadsTo (Serving p ins .REQ_WAIT_DATA len) (Serving p ins .REQ_ADDR len) := by
  intro n h
  by_contra hnever
  have hstay : ∀ m, n ≤ m → Serving p ins .REQ_WAIT_DATA len m := by
    intro m hm
    induction m, hm using Nat.le_induction with
    | base => exact h
    | succ m hm ih =>
      have hstep := ih.wait_step hpacked
      split at hstep
      case isTrue => exact absurd ⟨m + 1, Nat.le_succ_of_le hm, hstep⟩ hnever
      case isFalse => exact hstep
  obtain ⟨k, hk, hout⟩ := hfair.records hpacked hafter n
  obtain ⟨j, hj, hcount⟩ := hfair.counts hpacked hafter n
  -- When there is room for the record and the response, only the data can be missing.
  refine hfair.not_starves (n := max j k) hpacked hlarge
    ⟨fun m hm => (hstay m (by omega)).1, fun m hm => ?_⟩
  by_contra havail
  rw [Bool.not_eq_false] at havail
  have hstep := (hstay m (by omega)).wait_step hpacked
  rw [havail, wb_room_of_waiting hpacked hstay hk hout (by omega),
    prealloc_of_waiting hpacked hstay hafter hj hcount (by omega)] at hstep
  exact hnever ⟨m + 1, by omega, hstep⟩

omit hafter in
theorem Fair.addresses (len : Nat) :
    LeadsTo (Serving p ins .REQ_ADDR len) (Serving p ins .REQ_DATA len) := by
  have hwait : LeadsTo (Serving p ins .REQ_ADDR len)
      (fun n => Serving p ins .REQ_ADDR len n ∧ (ins n).pm_dm_awready = true) := by
    refine LeadsTo.wait (fun n h hno => ?_) fun n _ => hfair.awready n
    have hstep := h.addr_step hpacked
    rwa [if_neg hno] at hstep
  refine hwait.trans (LeadsTo.next fun n hn => ?_)
  have hstep := hn.1.addr_step hpacked
  rwa [hn.2, if_pos rfl] at hstep

end Goes

/-! ## A burst is sent -/

/-- A cycle of `REQ_DATA`: in a stall all stays, and else the last beat goes out or is nearer. -/
theorem Serving.data_step (h : Serving p ins .REQ_DATA len n) :
    if C2hData.dp_stall ((circuit p).state ins n).SDE_C2H_DATA then
      Serving p ins .REQ_DATA len (n + 1) ∧
        to_go ((circuit p).state ins (n + 1)).SDE_C2H_DATA = to_go ((circuit p).state ins n).SDE_C2H_DATA
    else
      Serving p ins .REQ_DATA len (n + 1) ∧
        to_go ((circuit p).state ins (n + 1)).SDE_C2H_DATA < to_go ((circuit p).state ins n).SDE_C2H_DATA ∨
      ((circuit p).state ins (n + 1)).SDE_C2H_DATA.req_state = .REQ_IDLE ∨
      ∃ len' < len, Serving p ins .REQ_WAIT_CALC len' (n + 1) := by
  obtain ⟨hstate, rfl⟩ := h
  obtain ⟨bqq, rp, r, hlinked, hphase⟩ := holds_state (p := p) hpacked n
  have hbusy : ((circuit p).state ins n).SDE_C2H_DATA.req_state ≠ .REQ_IDLE := by
    rw [hstate]
    decide
  have hnot : ((circuit p).state ins n).SDE_C2H_DATA.req_state ≠ .REQ_WAIT_DATA := by
    rw [hstate]
    decide
  have hkept (hdone : C2hData.data_tx_done ((circuit p).state ins n).SDE_C2H_DATA = false) :
      Serving p ins .REQ_DATA ((circuit p).state ins n).SDE_C2H_DATA.curr_desc_len (n + 1) :=
    ⟨data_kept hdone hstate, (@desc_kept p _ _ hdone hbusy).2⟩
  cases hphase with
  | idle state => rw [hstate] at state; cases state
  | next state => rw [hstate] at state; cases state
  | wait state => rw [hstate] at state; cases state
  | addr q state => rw [hstate] at state; cases state
  | load q state empty started here before serves chosen =>
    have hdone := empty.no_tx_done
    split
    case isTrue hstall =>
      have hstarted : ((circuit p).state ins (n + 1)).SDE_C2H_DATA.aw_req_done_q = true := by
        change (if _ then _ else if _ then _ else _) = _
        simp [started, hstall]
      refine ⟨hkept hdone, ?_⟩
      rw [to_go, to_go, started, hstarted, if_pos rfl, if_pos rfl]
    case isFalse hrun =>
      rw [Bool.not_eq_true] at hrun
      have hload : C2hData.curr_txn_addr_complete (data_in p (ins n) ((circuit p).state ins n))
          ((circuit p).state ins n).SDE_C2H_DATA := by
        rw [C2hData.curr_txn_addr_complete, started, Bool.or_true]
      have hstarted : ((circuit p).state ins (n + 1)).SDE_C2H_DATA.aw_req_done_q = false := by
        change (if _ then _ else if _ then _ else _) = _
        simp [started, hrun]
      have hflow : Flow p _ q 0 ((circuit p).state ins (n + 1)).SDE_C2H_DATA :=
        empty.step_load serves hload hrun (.inr hstate)
      refine .inl ⟨hkept hdone, ?_⟩
      have hlater : ¬4 + q.lead ≤ 0 := by omega
      rw [to_go_of_flow hflow hstarted, if_neg hlater, to_go, started, if_pos rfl]
      decide
  | data q c state flow started here before serves chosen rdata =>
    have hstarted : ((circuit p).state ins (n + 1)).SDE_C2H_DATA.aw_req_done_q = false :=
      started_kept started hstate
    split
    case isTrue hstall =>
      have hdone := C2hData.stall_not_done hstall
      have hflow : Flow p _ q c ((circuit p).state ins (n + 1)).SDE_C2H_DATA :=
        flow.step_stall hstall hnot rdata
      have hpl5 : ((circuit p).state ins (n + 1)).SDE_C2H_DATA.pl5_dp =
          ((circuit p).state ins n).SDE_C2H_DATA.pl5_dp := C2hData.stall_pl5 hstall
      refine ⟨hkept hdone, ?_⟩
      rw [to_go_of_flow hflow hstarted, to_go_of_flow flow started, hpl5]
    case isFalse hrun =>
      rw [Bool.not_eq_true] at hrun
      cases hdone : C2hData.data_tx_done ((circuit p).state ins n).SDE_C2H_DATA with
      | false =>
        have hflow : Flow p _ q (c + 1) ((circuit p).state ins (n + 1)).SDE_C2H_DATA :=
          flow.step_run serves ⟨state, started, hrun, hdone⟩
            (fun hc => hears_of_linked hlinked flow serves chosen here before hc) rdata
        exact .inl ⟨hkept hdone, to_go_run flow serves started hflow hstarted⟩
      | true =>
        have hnext : ((circuit p).state ins (n + 1)).SDE_C2H_DATA.req_state =
            if C2hData.data_desc_done ((circuit p).state ins n).SDE_C2H_DATA then .REQ_IDLE
            else .REQ_WAIT_CALC := state_done hdone hstate
        have hlen : ((circuit p).state ins (n + 1)).SDE_C2H_DATA.curr_desc_len = _ :=
          len_done hdone hstate
        split at hnext
        case isTrue => exact .inr (.inl hnext)
        case isFalse hmore =>
          -- Bytes of the descriptor are left, so the burst had one.
          have hleft : q.bytes < ((circuit p).state ins n).SDE_C2H_DATA.curr_desc_len := by
            by_contra hno
            refine hmore ((desc_done_iff hdone (last_beat flow serves hdone).2.2.2.2.1).mpr (.inl ?_))
            rw [serves.held.num_bytes]
            omega
          have hsome := chosen.some (by omega)
          rw [serves.held.num_bytes] at hlen
          exact .inr (.inr ⟨_, by omega, hnext, hlen⟩)

section Ends

variable (hfair : Fair p ins)

include hfair

theorem Fair.sends (len : Nat) : LeadsTo (Serving p ins .REQ_DATA len) (fun n =>
    ((circuit p).state ins n).SDE_C2H_DATA.req_state = .REQ_IDLE ∨
      ∃ len' < len, Serving p ins .REQ_WAIT_CALC len' n) := by
  refine LeadsTo.rank (fun n => to_go ((circuit p).state ins n).SDE_C2H_DATA) fun k => ?_
  have hwait : LeadsTo (fun n => Serving p ins .REQ_DATA len n ∧
        to_go ((circuit p).state ins n).SDE_C2H_DATA = k)
      (fun n => (Serving p ins .REQ_DATA len n ∧ to_go ((circuit p).state ins n).SDE_C2H_DATA = k) ∧
        C2hData.dp_stall ((circuit p).state ins n).SDE_C2H_DATA = false) := by
    refine LeadsTo.wait (fun n hn hstall => ?_) fun n _ => hfair.runs n
    have hstep := hn.1.data_step hpacked
    rw [Bool.not_eq_false] at hstall
    rw [hstall, if_pos rfl] at hstep
    exact ⟨hstep.1, hstep.2.trans hn.2⟩
  refine hwait.trans (LeadsTo.next fun n hn => ?_)
  have hstep := hn.1.1.data_step hpacked
  rw [hn.2, if_neg Bool.false_ne_true, hn.1.2] at hstep
  exact hstep.symm

variable (hafter : RespondsAfter p ins)
  (hlarge : PCIM_MAX_WR_SIZE_BYTES p < BUF_SIZE_BYTES p.toC2hBufParams)

include hafter hlarge

/-- With each burst less of the descriptor is left. -/
theorem Fair.gets_served : LeadsTo
    (fun n => ((circuit p).state ins n).SDE_C2H_DATA.req_state = .REQ_WAIT_DATA)
    (fun n => ((circuit p).state ins n).SDE_C2H_DATA.req_state = .REQ_IDLE) := by
  refine LeadsTo.rank (fun n => ((circuit p).state ins n).SDE_C2H_DATA.curr_desc_len) fun len => ?_
  have hburst := ((hfair.chooses hpacked hafter hlarge len).trans
    (hfair.addresses hpacked len)).trans (hfair.sends hpacked len)
  refine hburst.trans (LeadsTo.or (LeadsTo.of_imp fun n hidle => .inl hidle) (LeadsTo.next ?_))
  rintro n ⟨len', hless, hcalc⟩
  have hstep := hcalc.calc_step hpacked
  exact .inr ⟨hstep.1, hstep.2.symm ▸ hless⟩

theorem Fair.idles (n : Nat) :
    ∃ m, n ≤ m ∧ ((circuit p).state ins m).SDE_C2H_DATA.req_state = .REQ_IDLE := by
  have hserves := hfair.gets_served hpacked hafter hlarge
  have hcalc (len : Nat) : LeadsTo (Serving p ins .REQ_WAIT_CALC len)
      (fun n => ((circuit p).state ins n).SDE_C2H_DATA.req_state = .REQ_IDLE) :=
    (LeadsTo.next fun n hn => (hn.calc_step hpacked).1).trans hserves
  have hdata (len : Nat) : LeadsTo (Serving p ins .REQ_DATA len)
      (fun n => ((circuit p).state ins n).SDE_C2H_DATA.req_state = .REQ_IDLE) := by
    refine (hfair.sends hpacked len).trans (LeadsTo.or (LeadsTo.of_imp fun _ hn => hn) ?_)
    rintro n ⟨len', -, hn⟩
    exact hcalc len' n hn
  obtain ⟨bqq, rp, r, -, hphase⟩ := holds_state (p := p) hpacked n
  cases hphase with
  | idle state => exact ⟨n, Nat.le_refl n, state⟩
  | next state => exact hcalc _ n ⟨state, rfl⟩
  | wait state => exact hserves n state
  | addr q state => exact ((hfair.addresses hpacked _).trans (hdata _)) n ⟨state, rfl⟩
  | load q state => exact hdata _ n ⟨state, rfl⟩
  | data q c state => exact hdata _ n ⟨state, rfl⟩

theorem Fair.reports (n : Nat) : ∃ m, n ≤ m ∧ (descs_in p ins n).length ≤ descs_counted p ins m ∧
    (descs_in p ins n).length ≤ (md_out p ins m).length := by
  obtain ⟨k, hk, hidle⟩ := hfair.idles hpacked hafter hlarge n
  obtain ⟨m, hm, hout⟩ := hfair.records hpacked hafter k
  have hkept := kept_state (p := p) hpacked k
  have hdescs : descs_in p ins n <+: descs_in p ins k := Circuit.passed_prefix hk
  have hrecs : recs_in p ins k <+: recs_in p ins m := Circuit.passed_prefix hm
  have hmade : (recs_in p ins k).length = (descs_in p ins k).length := by
    have hlen := hkept.mds.length_eq
    rwa [List.length_map, descs_written, if_pos hidle] at hlen
  have hle := hdescs.length_le
  have hle' := hrecs.length_le
  refine ⟨m, hk.trans hm, ?_, ?_⟩
  · rw [descs_counted_eq hpacked]
    omega
  · rw [(answered_state (p := p) hpacked hafter m).out, List.length_map]
    omega

end Ends

end Served

/-! ## In every run -/

section Reported

variable (p : C2hDataParams) (ins : Nat → C2hIn) (pkts : Nat → C2hPacket)

/-- What is expected of the descriptors before cycle `n`. -/
structure PacketsReported (n : Nat) : Prop where
  /-- Each descriptor that is done is counted once. -/
  counted : descs_counted p ins n = (descs_written p ins n).length
  /-- The metadata that is asked for is what the packets ask for, of one descriptor after another. -/
  reported : (md_out p ins n ++ md_shown p ins n).map C2hMd.report <+:
    reports pkts ⟨0, 0⟩ (descs_written p ins n)
  /-- The bursts are those of each descriptor that is done, from its address on, and of the next one. -/
  bursts : writes_out p ins n = (bursts_done p ins n).flatten ++ bursts_started p ins n
  from_dest : List.Forall₂ (fun d bs => ∃ sent ≤ d.len.toNat, Burst.Tiles d.dest_addr sent bs)
    (descs_written p ins n) (bursts_done p ins n)
  /-- When metadata is asked for, all bursts of its descriptor have their responses. -/
  answered : ((bursts_done p ins n).take (md_out p ins n ++ md_shown p ins n).length).flatten.length ≤
    (b_in p ins n).length

end Reported

/-- In every run in which packets come in and a response comes behind the last beat of its burst: each
descriptor that is done, of whatever length, is counted once, and the metadata is that of the descriptors
in order, each when its bursts have their responses. Where all around goes on, each descriptor that is
popped comes to be counted and its metadata to be taken. -/
theorem packets_reported (p : C2hDataParams) (ins : Nat → C2hIn) (pkts : Nat → C2hPacket)
    (hreceives : Receives p ins pkts) (hafter : RespondsAfter p ins) :
    (∀ n, PacketsReported p ins pkts n) ∧
    (Fair p ins → PCIM_MAX_WR_SIZE_BYTES p < BUF_SIZE_BYTES p.toC2hBufParams →
      ∀ n, ∃ m, n ≤ m ∧ (descs_in p ins n).length ≤ descs_counted p ins m ∧
        (descs_in p ins n).length ≤ (md_out p ins m).length) := by
  have hpacked := hreceives.packed
  refine ⟨fun n => ?_, fun hfair hlarge => hfair.reports hpacked hafter hlarge⟩
  obtain ⟨sent, hall, hmore⟩ := hreceives.more
  obtain ⟨mds, hmds, hshown⟩ := metadata_state (p := p) hpacked hafter n
  have hrun := progress_here (p := p) hpacked n
  obtain ⟨new, hnew, hnew_packed⟩ := hmore n
  have hchain := hrun.chain.append hnew_packed
  have hmds' := hrun.chain.mds_append hmds hnew_packed
  rw [hnew] at hchain hmds'
  refine ⟨counted_state hpacked n, ?_, writes_split n, hrun.chain.from_dest,
    responses_state hpacked hafter n⟩
  rw [← chain_reports hall hchain hmds']
  exact hshown.map _

/-- A descriptor without a byte and those of `three_descs`, with packets of three bytes behind the first.
The responses of the five bursts come late, and the write-back block takes an entry every fourth cycle. -/
def reporting (n : Nat) : C2hIn :=
  { two_packets n with
    axis_buf_valid := n < 20
    axis_buf := ((List.range 20).flatMap sent_beats).getD n ⟨0, 0, 0, false⟩
    desc_dm_desc_valid := n < 40
    desc_dm_desc := if n < 8 then ⟨0, false, false, 0, 0, 0x3000, false, false⟩ else three_descs (n - 3)
    pm_dm_bvalid := n = 20 || n = 35 || n = 55 || n = 74 || n = 78
    wb_dm_md_grant := n % 4 = 0 }

theorem reporting_received : Receives default_params reporting long_and_short := by
  refine ⟨sent_beats, sent_beats_carry, fun n hvalid => ?_⟩
  have hn : n < 20 := of_decide_eq_true hvalid
  have hall : ∀ n < 20, beats_in default_params reporting n ++ [(reporting n).axis_buf] <+:
      (List.range (n + 1)).flatMap sent_beats := by decide +kernel
  exact hall n hn

theorem reporting_after : RespondsAfter default_params reporting := by
  intro n hvalid
  have hn : n = 20 ∨ n = 35 ∨ n = 55 ∨ n = 74 ∨ n = 78 := by simpa [reporting, or_assoc] using hvalid
  rcases hn with rfl | rfl | rfl | rfl | rfl <;> decide +kernel

/-- From cycle 45 on there is no descriptor any more. -/
theorem reporting_idle (hn : 45 ≤ n) :
    ((circuit default_params).state reporting n).SDE_C2H_DATA.req_state = .REQ_IDLE := by
  induction n, hn using Nat.le_induction with
  | base => decide +kernel
  | succ n hn ih =>
    have hnone : (reporting n).desc_dm_desc_valid = false := decide_eq_false (by omega)
    apply idle_of_no_pop ih
    rw [C2hData.dm_desc_pop, ih]
    exact hnone

theorem reporting_lasts (n : Nat) : lasts_out default_params reporting n ≤ 5 := by
  have hlate (m : Nat) (hm : 45 ≤ m) : finished default_params reporting m = 5 := by
    induction m, hm using Nat.le_induction with
    | base => decide +kernel
    | succ m hm ih =>
      have hpush : C2hData.dp_data_out_ff_push
          ((circuit default_params).state reporting m).SDE_C2H_DATA = false :=
        no_push_of_state reporting_received.packed (by rw [reporting_idle hm]; decide)
      change (w_in default_params reporting m ++ C2hData.w_pushed _).countP _ = _
      rw [C2hData.w_pushed, hpush, if_neg Bool.false_ne_true, List.append_nil]
      exact ih
  have hmono := @lasts_out_mono default_params reporting n (max n 45 + 1) (by omega)
  have hle := @lasts_out_le default_params reporting (max n 45)
  rw [hlate _ (by omega)] at hle
  omega

theorem reporting_fair : Fair default_params reporting where
  awready n := ⟨2 * n, by omega, by simp [reporting, two_packets]⟩
  wready n := ⟨3 * n, by omega, by simp [reporting, two_packets]⟩
  grant n := ⟨4 * n, by omega, by simp [reporting]⟩
  responds n hless := by
    rcases Nat.lt_or_ge 78 n with hlate | hearly
    · have hall := reporting_lasts n
      have hcame : (b_in default_params reporting 79).length = 5 := by decide +kernel
      have hmono := @b_in_mono default_params reporting 79 n hlate
      omega
    · exact ⟨78, hearly, rfl⟩
  packets n hwait hnone := by
    rcases Nat.lt_or_ge n 45 with hearly | hlate
    · have hall : ∀ n < 45, ((circuit default_params).state reporting n).SDE_C2H_DATA.req_state =
          .REQ_WAIT_DATA → C2hData.curr_txn_data_avail
            ((circuit default_params).state reporting n).SDE_C2H_DATA = false → n ≤ 19 := by
        decide +kernel
      exact ⟨19, hall n hearly hwait hnone, rfl⟩
    · rw [reporting_idle hlate] at hwait
      cases hwait

theorem three_packets_reported :
    (∀ n, PacketsReported default_params reporting long_and_short n) ∧
    (∀ n, ∃ m, n ≤ m ∧ (descs_in default_params reporting n).length ≤
        descs_counted default_params reporting m ∧
      (descs_in default_params reporting n).length ≤ (md_out default_params reporting m).length) ∧
    (md_out default_params reporting 90).map C2hMd.report =
      [⟨0, false, none⟩, ⟨5, false, none⟩, ⟨62, true, some 5⟩, ⟨3, true, some 6⟩] := by
  obtain ⟨hsafe, hlive⟩ := packets_reported default_params reporting long_and_short reporting_received
    reporting_after
  exact ⟨hsafe, hlive reporting_fair (by decide), by decide +kernel⟩

end C2h

end AwsFpga.Rtl
