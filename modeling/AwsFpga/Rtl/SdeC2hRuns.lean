import AwsFpga.Rtl.SdeC2h

/-!
# C2H: what holds in every cycle

The read address of the buffer and that of the next burst are places in the stream. A burst is
chosen from what the buffer reported, and it stays within one packet.
-/

open Lib Lib.Axi

namespace AwsFpga.Rtl

namespace C2h

open C2hBuf (BUF_SIZE_BYTES bytes Packed Track Delay Moved row_up)
open C2hData (Empty Flow Serves Runs PCIM_MAX_WR_SIZE_BYTES dm_buf_aux_pop)

/-- The two blocks, when `beats` came in before this cycle, `bq` and `bqq` one and two cycles before,
the read address is at `r`, was at `rp` in the cycle before, and the next burst starts at `base`. -/
structure Linked (p : C2hDataParams) (s : C2h) (beats bq bqq : List AxisBeat) (rp r base : Nat) : Prop where
  track : Track p.toC2hBufParams s.SDE_C2H_BUF beats bq bqq (rp / PCIM_DATA_WIDTH_BYTES) r
  delay : Delay s.SDE_C2H_BUF beats bq bqq r
  addr : s.SDE_C2H_DATA.dm_buf_rd_byte_addr = r % BUF_SIZE_BYTES p.toC2hBufParams
  heard : Reported p.toC2hBufParams beats bqq.length rp s.SDE_C2H_DATA.buf_dm_num_bytes_q
    s.SDE_C2H_DATA.buf_dm_aux_valid_q s.SDE_C2H_DATA.buf_dm_aux_data_q.eop_byte_addr
  base : s.SDE_C2H_DATA.curr_buf_byte_rd_addr = base % BUF_SIZE_BYTES p.toC2hBufParams
  aux_kept : s.SDE_C2H_DATA.req_state ≠ .REQ_IDLE → s.SDE_C2H_DATA.buf_dm_aux_valid_q →
    C2hBuf.buf_dm_aux_valid s.SDE_C2H_BUF
  max : s.SDE_C2H_DATA.req_state ≠ .REQ_IDLE → s.SDE_C2H_DATA.curr_desc_max_minus_dest_addr =
    PCIM_MAX_WR_SIZE_BYTES p - s.SDE_C2H_DATA.curr_desc_dest_addr.toNat % PCIM_MAX_WR_SIZE_BYTES p

/-- Burst `q` was chosen for the bytes from `base` on, of which `rows` rows are there. -/
structure Chosen (p : C2hDataParams) (beats : List AxisBeat) (rows base : Nat) (q : C2hJob)
    (dm : C2hData) : Prop where
  fits : base + q.bytes ≤ PCIM_DATA_WIDTH_BYTES * rows
  size : q.bytes ≤ BUF_SIZE_BYTES p.toC2hBufParams
  unbroken : Unbroken beats base (base + q.bytes)
  ends : q.ends ↔ 0 < q.bytes ∧ EndsAt beats (base + q.bytes)
  known : q.ends → dm.buf_dm_aux_valid_q
  rd : q.rd = base % PCIM_DATA_WIDTH_BYTES
  byte : ∀ k < q.bytes, q.byte k = byte_at beats (base + k)
  len : q.bytes ≤ dm.curr_desc_len
  some : 0 < dm.curr_desc_len → 0 < q.bytes
  max : q.bytes ≤ dm.curr_desc_max_minus_dest_addr
  dest : dm.curr_txn.dest_addr = dm.curr_desc_dest_addr

/-- Where the states of the requests stand. -/
inductive Phase (p : C2hDataParams) (s : C2h) (beats : List AxisBeat) (rows rp r base : Nat) : Prop
  | idle (state : s.SDE_C2H_DATA.req_state = .REQ_IDLE) (empty : Empty s.SDE_C2H_DATA)
      (started : s.SDE_C2H_DATA.aw_req_done_q = false) (here : r = base)
  | next (state : s.SDE_C2H_DATA.req_state = .REQ_WAIT_CALC) (empty : Empty s.SDE_C2H_DATA)
      (started : s.SDE_C2H_DATA.aw_req_done_q = false) (here : r = base)
  | wait (state : s.SDE_C2H_DATA.req_state = .REQ_WAIT_DATA) (empty : Empty s.SDE_C2H_DATA)
      (started : s.SDE_C2H_DATA.aw_req_done_q = false) (here : r = base) (before : rp = base)
  | addr (q : C2hJob) (state : s.SDE_C2H_DATA.req_state = .REQ_ADDR) (empty : Empty s.SDE_C2H_DATA)
      (started : s.SDE_C2H_DATA.aw_req_done_q = false) (here : r = base) (before : rp = base)
      (serves : Serves p base q s.SDE_C2H_DATA) (chosen : Chosen p beats rows base q s.SDE_C2H_DATA)
  /-- The address is sent, but the stages could not start yet. -/
  | load (q : C2hJob) (state : s.SDE_C2H_DATA.req_state = .REQ_DATA) (empty : Empty s.SDE_C2H_DATA)
      (started : s.SDE_C2H_DATA.aw_req_done_q = true) (here : r = base) (before : rp = base)
      (serves : Serves p base q s.SDE_C2H_DATA) (chosen : Chosen p beats rows base q s.SDE_C2H_DATA)
  /-- The stages run. The read address is behind the beats that have gone to the output FIFO. -/
  | data (q : C2hJob) (c : Nat) (state : s.SDE_C2H_DATA.req_state = .REQ_DATA)
      (flow : Flow p base q c s.SDE_C2H_DATA) (started : s.SDE_C2H_DATA.aw_req_done_q = false)
      (here : r = base + q.bytes_out (c - 4 - q.lead)) (before : base ≤ rp ∧ rp ≤ r)
      (serves : Serves p base q s.SDE_C2H_DATA) (chosen : Chosen p beats rows base q s.SDE_C2H_DATA)
      (rdata : s.SDE_C2H_DATA.pl1_dp.rd → q.RowData (c - 1) s.SDE_C2H_BUF.buf_ram_rdata)

variable {p : C2hDataParams} {i : C2hIn} {s : C2h} {beats bq bqq : List AxisBeat} {rp r base : Nat}

theorem Phase.sends {rows : Nat} (h : Phase p s beats rows rp r base)
    (hstate : s.SDE_C2H_DATA.req_state = .REQ_DATA) :
    ∃ q, Serves p base q s.SDE_C2H_DATA ∧ Chosen p beats rows base q s.SDE_C2H_DATA := by
  cases h with
  | idle state => rw [hstate] at state; cases state
  | next state => rw [hstate] at state; cases state
  | wait state => rw [hstate] at state; cases state
  | addr q state => rw [hstate] at state; cases state
  | load q state empty started here before serves chosen => exact ⟨q, serves, chosen⟩
  | data q c state flow started here before serves chosen => exact ⟨q, serves, chosen⟩

/-! ## Cycles that do not end a burst -/

section Kept

variable {di : C2hDataIn} {dm : C2hData} {q : C2hJob}

theorem no_txn_done (hdone : C2hData.data_tx_done dm = false) : C2hData.data_txn_done dm = false := by
  simp [C2hData.data_txn_done, hdone]

theorem no_pop (hdone : C2hData.data_tx_done dm = false) : dm_buf_aux_pop dm = false := by
  simp [dm_buf_aux_pop, C2hData.data_desc_done_w_eop, hdone]

theorem base_kept (hdone : C2hData.data_tx_done dm = false) :
    (C2hData.step p di dm).curr_buf_byte_rd_addr = dm.curr_buf_byte_rd_addr := by
  simp [C2hData.step, C2hData.data_desc_done_w_eop, C2hData.data_txn_done, hdone]

theorem desc_kept (hdone : C2hData.data_tx_done dm = false) (hbusy : dm.req_state ≠ .REQ_IDLE) :
    (C2hData.step p di dm).curr_desc_dest_addr = dm.curr_desc_dest_addr ∧
      (C2hData.step p di dm).curr_desc_len = dm.curr_desc_len := by
  simp [C2hData.step, C2hData.curr_desc_dest_addr_d, C2hData.dm_desc_pop, C2hData.data_txn_done, hdone,
    hbusy]

theorem data_kept (hdone : C2hData.data_tx_done dm = false) (hstate : dm.req_state = .REQ_DATA) :
    (C2hData.step p di dm).req_state = .REQ_DATA := by
  simp [C2hData.step, C2hData.req_state_next, hstate, hdone]

theorem state_done (hdone : C2hData.data_tx_done dm) (hstate : dm.req_state = .REQ_DATA) :
    (C2hData.step p di dm).req_state =
      if C2hData.data_desc_done dm then .REQ_IDLE else .REQ_WAIT_CALC := by
  change C2hData.req_state_next _ _ = _
  rw [C2hData.req_state_next, hstate]
  simp only [hdone, Bool.true_and, if_true]

theorem txn_done (hdone : C2hData.data_tx_done dm) (hstate : dm.req_state = .REQ_DATA) :
    C2hData.data_txn_done dm = true := by
  simp [C2hData.data_txn_done, hstate, hdone]

theorem len_done (hdone : C2hData.data_tx_done dm) (hstate : dm.req_state = .REQ_DATA) :
    (C2hData.step p di dm).curr_desc_len = dm.curr_desc_len - dm.curr_txn.num_bytes := by
  simp [C2hData.step, C2hData.dm_desc_pop, txn_done hdone hstate, hstate]

theorem dest_done (hdone : C2hData.data_tx_done dm) (hstate : dm.req_state = .REQ_DATA) :
    (C2hData.step p di dm).curr_desc_dest_addr =
      dm.curr_desc_dest_addr + BitVec.ofNat 64 dm.curr_txn.num_bytes := by
  simp [C2hData.step, C2hData.curr_desc_dest_addr_d, C2hData.dm_desc_pop, txn_done hdone hstate, hstate]

theorem desc_done_iff (hdone : C2hData.data_tx_done dm) (heop : dm.pl5_dp.eop = q.ends) :
    C2hData.data_desc_done dm ↔ dm.curr_desc_len ≤ dm.curr_txn.num_bytes ∨ q.ends := by
  rw [C2hData.data_desc_done, hdone, Bool.true_and, Bool.or_eq_true, decide_eq_true_iff, heop]

theorem not_ends_of_more (hdone : C2hData.data_tx_done dm) (heop : dm.pl5_dp.eop = q.ends)
    (hdesc : C2hData.data_desc_done dm = false) : q.ends = false := by
  by_contra hends
  rw [Bool.not_eq_false] at hends
  rw [(desc_done_iff hdone heop).mpr (.inr hends)] at hdesc
  cases hdesc

theorem started_kept (hstarted : dm.aw_req_done_q = false) (hstate : dm.req_state = .REQ_DATA) :
    (C2hData.step p di dm).aw_req_done_q = false := by
  simp [C2hData.step, C2hData.aw_req_done, C2hData.dm_pm_awvalid, hstate, hstarted]

theorem rd_addr_kept (hdone : C2hData.data_tx_done dm = false)
    (hno : C2hData.data_rd_addr_update dm = false) :
    (C2hData.step p di dm).dm_buf_rd_byte_addr = dm.dm_buf_rd_byte_addr := by
  simp [C2hData.step, C2hData.data_desc_done_w_eop, C2hData.data_txn_done, hdone, hno]

theorem serves_kept (h : Serves p base q dm) (hdone : C2hData.data_tx_done dm = false)
    (hstate : dm.req_state ≠ .REQ_WAIT_DATA) : Serves p base q (C2hData.step p di dm) := by
  have htxn : (C2hData.step p di dm).curr_txn = dm.curr_txn := by simp [C2hData.step, hstate]
  have hbase : (C2hData.step p di dm).curr_buf_byte_rd_addr = dm.curr_buf_byte_rd_addr :=
    base_kept hdone
  refine ⟨htxn ▸ h.held, htxn ▸ h.awlen, h.short, hbase.trans h.base, ?_⟩
  rw [C2hData.rd_idx, hbase]
  exact h.rd

end Kept

theorem chosen_kept {q : C2hJob} {txn : C2hTxn} (h : Linked p s beats bq bqq rp r base)
    (hc : Chosen p beats bqq.length base q { s.SDE_C2H_DATA with curr_txn := txn })
    (hpacked : i.axis_buf_valid → Packed i.axis_buf)
    (hdone : C2hData.data_tx_done s.SDE_C2H_DATA = false)
    (hbusy : s.SDE_C2H_DATA.req_state ≠ .REQ_IDLE)
    (htxn : ((circuit p).step i s).SDE_C2H_DATA.curr_txn = txn) :
    Chosen p (beats ++ accepted i s) bq.length base q ((circuit p).step i s).SDE_C2H_DATA := by
  have hrows := C2hBuf.read_rows h.track
  have hnew := C2hBuf.packed_step (i := buf_in i s) h.track hpacked
  have hnew' : ∀ b ∈ accepted i s, Packed b := fun b hb => hnew b (List.mem_append_right _ hb)
  have hfits := hc.fits
  have hle := h.track.recent.1.length_le
  have hle' := h.track.recent_q.1.length_le
  have hin : base + q.bytes ≤ PCIM_DATA_WIDTH_BYTES * beats.length :=
    hfits.trans (Nat.mul_le_mul_left _ (by omega))
  obtain ⟨hdest, hlen⟩ := @desc_kept p (data_in p i s) s.SDE_C2H_DATA hdone hbusy
  have hmax := h.max hbusy
  exact
    { fits := hfits.trans (Nat.mul_le_mul_left _ hle')
      size := hc.size
      unbroken := hc.unbroken.append hin
      ends := by rw [hc.ends, endsAt_append_iff hnew' hin]
      known := fun hends => h.aux_kept hbusy (hc.known hends)
      rd := hc.rd
      byte := fun k hk => by rw [hc.byte k hk, byte_at_append (by omega)]
      len := hlen.symm ▸ hc.len
      some := hlen.symm ▸ hc.some
      max := by
        have hle : q.bytes ≤ s.SDE_C2H_DATA.curr_desc_max_minus_dest_addr := hc.max
        rw [hmax, ← hdest] at hle
        exact hle
      dest := by
        have haddr : txn.dest_addr = s.SDE_C2H_DATA.curr_desc_dest_addr := hc.dest
        rw [htxn, haddr]
        exact hdest.symm }

/-! ## The link is kept -/

theorem linked_step (h : Linked p s beats bq bqq rp r base)
    (hpacked : i.axis_buf_valid → Packed i.axis_buf) {r' base' : Nat}
    (hmoved : Moved p.toC2hBufParams (buf_in i s) beats bqq r r')
    (hpop : dm_buf_aux_pop s.SDE_C2H_DATA → C2hBuf.buf_dm_aux_valid s.SDE_C2H_BUF)
    (haddr : ((circuit p).step i s).SDE_C2H_DATA.dm_buf_rd_byte_addr =
      r' % BUF_SIZE_BYTES p.toC2hBufParams)
    (hbase : ((circuit p).step i s).SDE_C2H_DATA.curr_buf_byte_rd_addr =
      base' % BUF_SIZE_BYTES p.toC2hBufParams)
    (hidle : ((circuit p).step i s).SDE_C2H_DATA.req_state ≠ .REQ_IDLE →
      dm_buf_aux_pop s.SDE_C2H_DATA = false) :
    Linked p ((circuit p).step i s) (beats ++ accepted i s) beats bq r r' base' := by
  have hrows := C2hBuf.read_rows h.track
  have hnew := C2hBuf.packed_step (i := buf_in i s) h.track hpacked
  have hnow : Reported p.toC2hBufParams beats bqq.length r _ _ _ :=
    reported (i := buf_in i s) h.track h.delay h.addr
  exact
    { track := C2hBuf.track_step h.track h.addr hpacked hpop hmoved
      delay := C2hBuf.delay_step h.track h.delay hpop hmoved
      addr := haddr
      heard := hnow.append (by omega) (by omega) fun b hb => hnew b (List.mem_append_right _ hb)
      base := hbase
      aux_kept := fun hstate hvalid => aux_valid_step hvalid (hidle hstate)
      max := fun _ => rfl }

theorem moved_same (h : Linked p s beats bq bqq rp r base)
    (hpop : dm_buf_aux_pop s.SDE_C2H_DATA = false) :
    Moved p.toC2hBufParams (buf_in i s) beats bqq r r :=
  C2hBuf.moved_ahead (d := 0) h.track h.delay h.addr (Nat.zero_le _) (Nat.zero_le _)
    (fun hvalid => by
      rw [C2hBuf.buf_dm_num_bytes, if_pos hvalid]
      exact Nat.succ_pos _) hpop

theorem linked_kept (h : Linked p s beats bq bqq rp r base)
    (hpacked : i.axis_buf_valid → Packed i.axis_buf)
    (hno : C2hData.data_rd_addr_update s.SDE_C2H_DATA = false) :
    Linked p ((circuit p).step i s) (beats ++ accepted i s) beats bq r r base := by
  have hdone : C2hData.data_tx_done s.SDE_C2H_DATA = false := by
    unfold C2hData.data_rd_addr_update at hno
    rw [C2hData.data_tx_done, hno, Bool.false_and]
  have hpop := no_pop hdone
  refine linked_step h hpacked (moved_same h hpop) ?_ ?_ ?_ fun _ => hpop
  · rw [hpop]
    exact fun hc => Bool.noConfusion hc
  · exact (rd_addr_kept hdone hno).trans h.addr
  · exact (base_kept hdone).trans h.base

/-- What holds in a cycle, when the next burst starts at `base`. -/
def Holds (p : C2hDataParams) (s : C2h) (beats bq : List AxisBeat) (base : Nat) : Prop :=
  ∃ bqq rp r, Linked p s beats bq bqq rp r base ∧ Phase p s beats bqq.length rp r base

theorem Linked.of_empty (h : Linked p s beats bq bqq rp r base)
    (hpacked : i.axis_buf_valid → Packed i.axis_buf) (hempty : Empty s.SDE_C2H_DATA) :
    Linked p ((circuit p).step i s) (beats ++ accepted i s) beats bq r r base := by
  refine linked_kept h hpacked ?_
  simp [C2hData.data_rd_addr_update, hempty.pl5]

theorem stays_empty {d : C2hDataIn} {dm : C2hData} (hempty : Empty dm)
    (hstate : dm.req_state ≠ .REQ_ADDR) (hstarted : dm.aw_req_done_q = false) :
    Empty (C2hData.step p d dm) ∧ (C2hData.step p d dm).aw_req_done_q = false := by
  have hno : C2hData.aw_req_done d dm = false := by
    simp [C2hData.aw_req_done, C2hData.dm_pm_awvalid, hstate]
  refine ⟨hempty.step_wait ?_, by simp [C2hData.step, hno, hstarted]⟩
  rw [C2hData.curr_txn_addr_complete, hno, hstarted]
  exact fun hc => Bool.noConfusion hc

theorem idle_step (h : Linked p s beats bq bqq rp r base)
    (hpacked : i.axis_buf_valid → Packed i.axis_buf)
    (hstate : s.SDE_C2H_DATA.req_state = .REQ_IDLE) (hempty : Empty s.SDE_C2H_DATA)
    (hstarted : s.SDE_C2H_DATA.aw_req_done_q = false) (hhere : r = base) :
    Holds p ((circuit p).step i s) (beats ++ accepted i s) beats base := by
  obtain ⟨hempty', hstarted'⟩ :=
    stays_empty (p := p) (d := data_in p i s) hempty (by rw [hstate]; decide) hstarted
  have hnext : ((circuit p).step i s).SDE_C2H_DATA.req_state =
      if i.desc_dm_desc_valid then .REQ_WAIT_DATA else .REQ_IDLE := by
    change C2hData.req_state_next _ _ = _
    rw [C2hData.req_state_next, hstate]
    rfl
  refine ⟨bq, r, r, h.of_empty hpacked hempty, ?_⟩
  cases hvalid : i.desc_dm_desc_valid with
  | true =>
    rw [hvalid, if_pos rfl] at hnext
    exact .wait hnext hempty' hstarted' hhere hhere
  | false =>
    rw [hvalid, if_neg Bool.false_ne_true] at hnext
    exact .idle hnext hempty' hstarted' hhere

theorem calc_step (h : Linked p s beats bq bqq rp r base)
    (hpacked : i.axis_buf_valid → Packed i.axis_buf)
    (hstate : s.SDE_C2H_DATA.req_state = .REQ_WAIT_CALC) (hempty : Empty s.SDE_C2H_DATA)
    (hstarted : s.SDE_C2H_DATA.aw_req_done_q = false) (hhere : r = base) :
    Holds p ((circuit p).step i s) (beats ++ accepted i s) beats base := by
  obtain ⟨hempty', hstarted'⟩ :=
    stays_empty (p := p) (d := data_in p i s) hempty (by rw [hstate]; decide) hstarted
  have hnext : ((circuit p).step i s).SDE_C2H_DATA.req_state = .REQ_WAIT_DATA := by
    simp [circuit, C2hData.step, C2hData.req_state_next, hstate]
  refine ⟨bq, r, r, h.of_empty hpacked hempty, ?_⟩
  exact .wait hnext hempty' hstarted' hhere hhere

/-! ## A burst is chosen -/

section Choice

variable {dm : C2hData}

theorem max_pos (p : C2hDataParams) : 0 < PCIM_MAX_WR_SIZE_BYTES p := by
  unfold PCIM_MAX_WR_SIZE_BYTES
  split <;> decide

theorem max_le (p : C2hDataParams) : PCIM_MAX_WR_SIZE_BYTES p ≤ 4096 := by
  unfold PCIM_MAX_WR_SIZE_BYTES
  split <;> decide

/-- The comparison by bits is one of whole numbers. -/
theorem required_eq (hmax : dm.curr_desc_max_minus_dest_addr ≤ 4096) :
    C2hData.curr_txn_num_bytes_required dm =
      min dm.curr_desc_len dm.curr_desc_max_minus_dest_addr := by
  unfold C2hData.curr_txn_num_bytes_required C2hData.curr_txn_max_bytes
  split
  · omega
  · split <;> omega

theorem min_num_bytes_eq (hmax : dm.curr_desc_max_minus_dest_addr ≤ 4096) :
    C2hData.curr_txn_min_num_bytes dm =
      min dm.buf_dm_num_bytes_q (min dm.curr_desc_len dm.curr_desc_max_minus_dest_addr) := by
  unfold C2hData.curr_txn_min_num_bytes
  rw [required_eq hmax]
  split <;> omega

/-- The two tests for a beat more take the place of a sum. -/
theorem awlen_eq (hpos : 0 < C2hData.curr_txn_min_num_bytes dm)
    (hle : C2hData.curr_txn_min_num_bytes dm ≤ 4096) :
    C2hData.curr_txn_awlen_d dm + 1 = (C2hData.dest_idx dm + C2hData.curr_txn_min_num_bytes dm +
      PCIM_DATA_WIDTH_BYTES - 1) / PCIM_DATA_WIDTH_BYTES := by
  have hdest : C2hData.dest_idx dm < PCIM_DATA_WIDTH_BYTES := Nat.mod_lt _ (by decide)
  unfold C2hData.curr_txn_awlen_d C2hData.curr_txn_awlen_2_extra_beats
    C2hData.curr_txn_awlen_1_extra_beat
  rw [C2hData.byte_idx, width_val] at *
  simp only [decide_eq_true_eq, Bool.or_eq_true, ne_eq]
  split
  · omega
  · split <;> omega

theorem rd_idx_eq (h : dm.curr_buf_byte_rd_addr = base % BUF_SIZE_BYTES p.toC2hBufParams) :
    C2hData.rd_idx dm = base % PCIM_DATA_WIDTH_BYTES := by
  rw [C2hData.rd_idx, C2hData.byte_idx, h]
  exact Nat.mod_mod_of_dvd base (Nat.dvd_mul_left _ _)

theorem held_of_choice {q : C2hJob} (hrd : C2hData.rd_idx dm = q.rd) (hdest : C2hData.dest_idx dm = q.dest)
    (hbytes : C2hData.curr_txn_min_num_bytes dm = q.bytes) (hsome : q.ends → 0 < q.bytes) :
    q.Held (C2hData.curr_txn_d dm) := by
  have hcase : C2hData.curr_txn_case1_a_gt_r_d dm = decide (q.rd < q.dest) := by
    rw [C2hData.curr_txn_case1_a_gt_r_d, hrd, hdest]
  refine ⟨hdest ▸ Nat.mod_lt _ (by decide), hrd ▸ Nat.mod_lt _ (by decide), hsome, hdest, hbytes, ?_, ?_, ?_,
    hcase, ?_, ?_⟩
  · rw [C2hData.curr_txn_d, hdest]
  · simp only [C2hData.curr_txn_d, hcase, hrd, hdest, decide_eq_true_eq]
  · simp only [C2hData.curr_txn_d, hcase, hrd, hdest, decide_eq_true_eq]
  · simp only [C2hData.curr_txn_d, hrd, hdest]
  · simp only [C2hData.curr_txn_d, hrd, hdest]

end Choice

theorem choice (h : Linked p s beats bq bqq base r base)
    (hbusy : s.SDE_C2H_DATA.req_state ≠ .REQ_IDLE)
    (havail : C2hData.curr_txn_data_avail s.SDE_C2H_DATA) :
    (0 < s.SDE_C2H_DATA.curr_desc_len → 0 < C2hData.curr_txn_min_num_bytes s.SDE_C2H_DATA) ∧
      C2hData.curr_txn_min_num_bytes s.SDE_C2H_DATA ≤ s.SDE_C2H_DATA.curr_desc_len ∧
      C2hData.curr_txn_min_num_bytes s.SDE_C2H_DATA ≤
        s.SDE_C2H_DATA.curr_desc_max_minus_dest_addr ∧
      C2hData.curr_txn_min_num_bytes s.SDE_C2H_DATA ≤ s.SDE_C2H_DATA.buf_dm_num_bytes_q ∧
      (0 < C2hData.curr_txn_min_num_bytes s.SDE_C2H_DATA →
        EndsAt beats (base + C2hData.curr_txn_min_num_bytes s.SDE_C2H_DATA) →
          s.SDE_C2H_DATA.buf_dm_aux_valid_q) := by
  have hmax := h.max hbusy
  have hle := max_le p
  have hlt := Nat.mod_lt s.SDE_C2H_DATA.curr_desc_dest_addr.toNat (max_pos p)
  have hsmall : s.SDE_C2H_DATA.curr_desc_max_minus_dest_addr ≤ 4096 := by omega
  have hmin := min_num_bytes_eq hsmall
  have hreq := required_eq hsmall
  have hsome : 0 < s.SDE_C2H_DATA.curr_desc_len →
      0 < C2hData.curr_txn_min_num_bytes s.SDE_C2H_DATA := by
    intro hlen
    cases hvalid : s.SDE_C2H_DATA.buf_dm_aux_valid_q with
    | true =>
      have hnum := (h.heard.ended hvalid).1
      omega
    | false =>
      have hnum : C2hData.curr_txn_num_bytes_required s.SDE_C2H_DATA ≤
          s.SDE_C2H_DATA.buf_dm_num_bytes_q := by
        simpa [C2hData.curr_txn_data_avail, hvalid] using havail
      omega
  refine ⟨hsome, by omega, by omega, by omega, fun hpos hend => ?_⟩
  by_contra hvalid
  have hnone := h.heard.no_end (eq_false_of_ne_true hvalid)
  have hfirst := h.heard.unbroken _ hend (by omega)
  have hall : C2hData.curr_txn_min_num_bytes s.SDE_C2H_DATA =
      s.SDE_C2H_DATA.buf_dm_num_bytes_q := by omega
  rw [hall] at hend hpos
  exact absurd (hnone hend) (by omega)

theorem choose (h : Linked p s beats bq bqq base r base)
    (hstate : s.SDE_C2H_DATA.req_state = .REQ_WAIT_DATA)
    (havail : C2hData.curr_txn_data_avail s.SDE_C2H_DATA) :
    ∃ q : C2hJob, q.Held (C2hData.curr_txn_d s.SDE_C2H_DATA) ∧
      (0 < q.bytes → C2hData.curr_txn_awlen_d s.SDE_C2H_DATA + 1 = q.beats) ∧ q.beats ≤ 256 ∧
      C2hData.rd_idx s.SDE_C2H_DATA = q.rd ∧
      Chosen p beats bqq.length base q
        { s.SDE_C2H_DATA with curr_txn := C2hData.curr_txn_d s.SDE_C2H_DATA } := by
  classical
  have hbusy : s.SDE_C2H_DATA.req_state ≠ .REQ_IDLE := by
    rw [hstate]
    decide
  obtain ⟨hsome, hlen, hmax, hnum, hknown⟩ := choice h hbusy havail
  have hle := max_le p
  have hroom := h.max hbusy
  have hrd := rd_idx_eq h.base
  let q : C2hJob :=
    { dest := C2hData.dest_idx s.SDE_C2H_DATA
      rd := base % PCIM_DATA_WIDTH_BYTES
      bytes := C2hData.curr_txn_min_num_bytes s.SDE_C2H_DATA
      byte := fun k => byte_at beats (base + k)
      ends := decide (0 < C2hData.curr_txn_min_num_bytes s.SDE_C2H_DATA ∧
        EndsAt beats (base + C2hData.curr_txn_min_num_bytes s.SDE_C2H_DATA)) }
  have hbeats : q.beats ≤ 256 := by
    have hdest : C2hData.dest_idx s.SDE_C2H_DATA < PCIM_DATA_WIDTH_BYTES := Nat.mod_lt _ (by decide)
    change max 1 ((C2hData.dest_idx s.SDE_C2H_DATA + C2hData.curr_txn_min_num_bytes s.SDE_C2H_DATA +
      PCIM_DATA_WIDTH_BYTES - 1) / PCIM_DATA_WIDTH_BYTES) ≤ 256
    rw [width_val] at *
    omega
  have hawlen : 0 < q.bytes → C2hData.curr_txn_awlen_d s.SDE_C2H_DATA + 1 = q.beats := by
    intro hpos
    have heq := awlen_eq hpos (by omega)
    rw [C2hJob.beats_some rfl hpos]
    exact heq
  have hfits := h.heard.fits
  refine ⟨q, held_of_choice hrd rfl rfl fun hends => (of_decide_eq_true hends).1, hawlen, hbeats, hrd, ?_⟩
  exact
    { fits := by
        change base + C2hData.curr_txn_min_num_bytes s.SDE_C2H_DATA ≤ _
        omega
      size := by
        have hrows := C2hBuf.read_rows h.track
        have hspace := h.track.space
        change C2hData.curr_txn_min_num_bytes s.SDE_C2H_DATA ≤ p.BUF_DEPTH * PCIM_DATA_WIDTH_BYTES
        rw [width_val] at *
        omega
      unbroken := fun x hend hx => (Nat.add_le_add_left hnum base).trans (h.heard.unbroken x hend hx)
      ends := decide_eq_true_iff
      known := fun hends => hknown (of_decide_eq_true hends).1 (of_decide_eq_true hends).2
      rd := rfl
      byte := fun _ _ => rfl
      len := hlen
      some := hsome
      max := hmax
      dest := rfl }

theorem wait_step (h : Linked p s beats bq bqq rp r base)
    (hpacked : i.axis_buf_valid → Packed i.axis_buf)
    (hstate : s.SDE_C2H_DATA.req_state = .REQ_WAIT_DATA) (hempty : Empty s.SDE_C2H_DATA)
    (hstarted : s.SDE_C2H_DATA.aw_req_done_q = false) (hhere : r = base) (hbefore : rp = base) :
    Holds p ((circuit p).step i s) (beats ++ accepted i s) beats base := by
  have hbusy : s.SDE_C2H_DATA.req_state ≠ .REQ_IDLE := by
    rw [hstate]
    decide
  obtain ⟨hempty', hstarted'⟩ :=
    stays_empty (p := p) (d := data_in p i s) hempty (by rw [hstate]; decide) hstarted
  have hnext : ((circuit p).step i s).SDE_C2H_DATA.req_state =
      if C2hData.curr_txn_data_avail s.SDE_C2H_DATA && !C2hData.dp_wb_ff_full s.SDE_C2H_DATA &&
        C2hData.bresp_prealloc_avail s.SDE_C2H_DATA then .REQ_ADDR else .REQ_WAIT_DATA := by
    change C2hData.req_state_next _ _ = _
    rw [C2hData.req_state_next, hstate]
  refine ⟨bq, r, r, h.of_empty hpacked hempty, ?_⟩
  split at hnext
  case isFalse => exact .wait hnext hempty' hstarted' hhere hhere
  case isTrue hgo =>
    simp only [Bool.and_eq_true] at hgo
    rw [hbefore, hhere] at h
    obtain ⟨q, hheld, hawlen, hbeats, hrd, hchosen⟩ := choose h hstate hgo.1.1
    have htxn : ((circuit p).step i s).SDE_C2H_DATA.curr_txn =
        C2hData.curr_txn_d s.SDE_C2H_DATA := if_pos hstate
    have hbase := @base_kept p (data_in p i s) _ hempty.no_tx_done
    have hserves : Serves p base q ((circuit p).step i s).SDE_C2H_DATA := by
      refine ⟨htxn ▸ hheld, htxn ▸ hawlen, hbeats, hbase.trans h.base, ?_⟩
      change C2hData.byte_idx (C2hData.step p (data_in p i s) s.SDE_C2H_DATA).curr_buf_byte_rd_addr = _
      rw [hbase]
      exact hrd
    exact .addr q hnext hempty' hstarted' hhere hhere hserves
      (chosen_kept h hchosen hpacked hempty.no_tx_done hbusy htxn)

/-! ## A burst is sent -/

theorem start_step {q : C2hJob} (h : Linked p s beats bq bqq rp r base)
    (hpacked : i.axis_buf_valid → Packed i.axis_buf)
    (hstate : s.SDE_C2H_DATA.req_state = .REQ_ADDR ∨ s.SDE_C2H_DATA.req_state = .REQ_DATA)
    (hnext : ((circuit p).step i s).SDE_C2H_DATA.req_state = .REQ_DATA)
    (hempty : Empty s.SDE_C2H_DATA)
    (hload : C2hData.curr_txn_addr_complete (data_in p i s) s.SDE_C2H_DATA) (hhere : r = base)
    (hserves : Serves p base q s.SDE_C2H_DATA)
    (hchosen : Chosen p beats bqq.length base q s.SDE_C2H_DATA) :
    Holds p ((circuit p).step i s) (beats ++ accepted i s) beats base := by
  have hbusy : s.SDE_C2H_DATA.req_state ≠ .REQ_IDLE := by
    rcases hstate with hstate | hstate <;> rw [hstate] <;> decide
  have hnot : s.SDE_C2H_DATA.req_state ≠ .REQ_WAIT_DATA := by
    rcases hstate with hstate | hstate <;> rw [hstate] <;> decide
  have htxn : ((circuit p).step i s).SDE_C2H_DATA.curr_txn = s.SDE_C2H_DATA.curr_txn := if_neg hnot
  have hserves' : Serves p base q ((circuit p).step i s).SDE_C2H_DATA :=
    serves_kept hserves hempty.no_tx_done hnot
  have hchosen' := chosen_kept h hchosen hpacked hempty.no_tx_done hbusy htxn
  refine ⟨bq, r, r, h.of_empty hpacked hempty, ?_⟩
  cases hstall : C2hData.dp_stall s.SDE_C2H_DATA with
  | true =>
    have hempty' : Empty ((circuit p).step i s).SDE_C2H_DATA := hempty.step_wait fun _ => hstall
    have hstarted' : ((circuit p).step i s).SDE_C2H_DATA.aw_req_done_q = true := by
      simp only [C2hData.curr_txn_addr_complete, Bool.or_eq_true] at hload
      change (if _ then _ else if _ then _ else _) = _
      rcases hload with hnow | hnow <;> simp [hnow, hstall]
    exact .load q hnext hempty' hstarted' hhere hhere hserves' hchosen'
  | false =>
    have hflow : Flow p base q 0 ((circuit p).step i s).SDE_C2H_DATA :=
      hempty.step_load hserves hload hstall hstate
    have hstarted' : ((circuit p).step i s).SDE_C2H_DATA.aw_req_done_q = false := by
      change (if _ then _ else if _ then _ else _) = _
      cases hq : s.SDE_C2H_DATA.aw_req_done_q <;> simp [hstall]
    have hzero : 0 - 4 - q.lead = 0 := by omega
    have hnone : q.bytes_out (0 - 4 - q.lead) = 0 := by
      unfold C2hJob.bytes_out
      rw [hzero]
      omega
    refine .data q 0 hnext hflow hstarted' (by rw [hnone, hhere, Nat.add_zero]) (by omega) hserves'
      hchosen' fun hrd => ?_
    rw [hflow.rd] at hrd
    cases hrd

theorem addr_step {q : C2hJob} (h : Linked p s beats bq bqq rp r base)
    (hpacked : i.axis_buf_valid → Packed i.axis_buf)
    (hstate : s.SDE_C2H_DATA.req_state = .REQ_ADDR) (hempty : Empty s.SDE_C2H_DATA)
    (hstarted : s.SDE_C2H_DATA.aw_req_done_q = false) (hhere : r = base)
    (hserves : Serves p base q s.SDE_C2H_DATA)
    (hchosen : Chosen p beats bqq.length base q s.SDE_C2H_DATA) :
    Holds p ((circuit p).step i s) (beats ++ accepted i s) beats base := by
  have hbusy : s.SDE_C2H_DATA.req_state ≠ .REQ_IDLE := by
    rw [hstate]
    decide
  have hnot : s.SDE_C2H_DATA.req_state ≠ .REQ_WAIT_DATA := by
    rw [hstate]
    decide
  have hnext : ((circuit p).step i s).SDE_C2H_DATA.req_state =
      if C2hData.aw_req_done (data_in p i s) s.SDE_C2H_DATA then .REQ_DATA else .REQ_ADDR := by
    change C2hData.req_state_next _ _ = _
    rw [C2hData.req_state_next, hstate]
  cases hgo : C2hData.aw_req_done (data_in p i s) s.SDE_C2H_DATA with
  | true =>
    rw [hgo, if_pos rfl] at hnext
    have hload : C2hData.curr_txn_addr_complete (data_in p i s) s.SDE_C2H_DATA := by
      rw [C2hData.curr_txn_addr_complete, hgo, Bool.true_or]
    exact start_step h hpacked (.inl hstate) hnext hempty hload hhere hserves hchosen
  | false =>
    rw [hgo, if_neg Bool.false_ne_true] at hnext
    have hno : C2hData.curr_txn_addr_complete (data_in p i s) s.SDE_C2H_DATA = false := by
      rw [C2hData.curr_txn_addr_complete, hgo, hstarted, Bool.false_or]
    have hempty' : Empty ((circuit p).step i s).SDE_C2H_DATA :=
      hempty.step_wait fun hload => Bool.noConfusion (hno.symm.trans hload)
    have hstarted' : ((circuit p).step i s).SDE_C2H_DATA.aw_req_done_q = false := by
      change (if _ then _ else if _ then _ else _) = _
      simp [hgo, hstarted]
    refine ⟨bq, r, r, h.of_empty hpacked hempty, ?_⟩
    exact .addr q hnext hempty' hstarted' hhere hhere (serves_kept hserves hempty.no_tx_done hnot)
      (chosen_kept h hchosen hpacked hempty.no_tx_done hbusy (if_neg hnot))

theorem load_step {q : C2hJob} (h : Linked p s beats bq bqq rp r base)
    (hpacked : i.axis_buf_valid → Packed i.axis_buf)
    (hstate : s.SDE_C2H_DATA.req_state = .REQ_DATA) (hempty : Empty s.SDE_C2H_DATA)
    (hstarted : s.SDE_C2H_DATA.aw_req_done_q = true) (hhere : r = base)
    (hserves : Serves p base q s.SDE_C2H_DATA)
    (hchosen : Chosen p beats bqq.length base q s.SDE_C2H_DATA) :
    Holds p ((circuit p).step i s) (beats ++ accepted i s) beats base := by
  have hnext : ((circuit p).step i s).SDE_C2H_DATA.req_state = .REQ_DATA :=
    data_kept hempty.no_tx_done hstate
  have hload : C2hData.curr_txn_addr_complete (data_in p i s) s.SDE_C2H_DATA := by
    rw [C2hData.curr_txn_addr_complete, hstarted, Bool.or_true]
  exact start_step h hpacked (.inr hstate) hnext hempty hload hhere hserves hchosen

section Running

variable {q : C2hJob} {c : Nat}

theorem Flow.read_before (hf : Flow p base q c s.SDE_C2H_DATA)
    (hserves : Serves p base q s.SDE_C2H_DATA) (hsome : 0 < q.bytes) :
    q.bytes_out (c - 4 - q.lead) < q.bytes := by
  refine (q.bytes_out_lt hserves.held hsome _).mpr ?_
  by_cases hc : 4 + q.lead ≤ c
  · exact hf.more hc
  · have hzero : c - 4 - q.lead = 0 := by omega
    rw [hzero]
    exact q.beats_pos

/-- It is not behind the row that stage 2 has. -/
theorem read_behind (q : C2hJob) (c : Nat) :
    q.bytes_out (c - 4 - q.lead) ≤ PCIM_DATA_WIDTH_BYTES * (c - 4) := by
  unfold C2hJob.bytes_out
  rw [width_val]
  omega

theorem row_of_addr (x : Nat) : x % BUF_SIZE_BYTES p.toC2hBufParams / PCIM_DATA_WIDTH_BYTES =
    x / PCIM_DATA_WIDTH_BYTES % p.BUF_DEPTH := by
  rw [BUF_SIZE_BYTES, Nat.mul_comm, Nat.mod_mul_right_div_self]

theorem lane_of_addr (x : Nat) : C2hData.byte_idx (x % BUF_SIZE_BYTES p.toC2hBufParams) =
    x % PCIM_DATA_WIDTH_BYTES :=
  Nat.mod_mod_of_dvd x (Nat.dvd_mul_left _ _)

theorem row_inj {depth a b low : Nat} (ha : low ≤ a) (ha' : a < low + depth) (hb : low ≤ b)
    (hb' : b < low + depth) (h : a % depth = b % depth) : a = b := by
  rcases Nat.le_total a b with hle | hle
  · obtain ⟨d, rfl⟩ := Nat.le.dest hle
    rcases (C2hBuf.same_cell (by omega) (by omega)).mp h.symm with hd | hd <;> omega
  · obtain ⟨d, rfl⟩ := Nat.le.dest hle
    rcases (C2hBuf.same_cell (by omega) (by omega)).mp h with hd | hd <;> omega

/-- The end that was reported is the first one behind the bytes that were read, so it ends the burst or
comes behind it. -/
theorem reported_end_of_burst (h : Linked p s beats bq bqq rp r base)
    (hchosen : Chosen p beats bqq.length base q s.SDE_C2H_DATA) (hbefore : base ≤ rp)
    (hmore : rp < base + q.bytes) (hvalid : s.SDE_C2H_DATA.buf_dm_aux_valid_q) :
    base + q.bytes ≤ rp + s.SDE_C2H_DATA.buf_dm_num_bytes_q ∧
      (q.ends ↔ base + q.bytes = rp + s.SDE_C2H_DATA.buf_dm_num_bytes_q) := by
  obtain ⟨hpos, hend, -⟩ := h.heard.ended hvalid
  have hle := hchosen.unbroken _ hend (by omega)
  refine ⟨hle, ?_, ?_⟩
  · intro hends
    have hfirst := h.heard.unbroken _ (hchosen.ends.mp hends).2 hmore
    omega
  · intro heq
    rw [hchosen.ends, heq]
    exact ⟨by omega, hend⟩

/-- How many bytes the row has that the reported end is in. -/
theorem eop_num_bytes_eq (h : Linked p s beats bq bqq rp r base)
    (hvalid : s.SDE_C2H_DATA.buf_dm_aux_valid_q) :
    C2hData.buf_dm_aux_eop_num_bytes s.SDE_C2H_DATA =
      (rp + s.SDE_C2H_DATA.buf_dm_num_bytes_q - 1) % PCIM_DATA_WIDTH_BYTES + 1 := by
  rw [C2hData.buf_dm_aux_eop_num_bytes, C2hData.buf_dm_aux_eop_byte_addr, (h.heard.ended hvalid).2.2,
    lane_of_addr]

/-- Stage 2 has that row when their numbers agree, as no row further away has that address. -/
theorem eop_slice_iff (h : Linked p s beats bq bqq rp r base) (hf : Flow p base q c s.SDE_C2H_DATA)
    (hvalid : s.SDE_C2H_DATA.buf_dm_aux_valid_q) (hc : 2 ≤ c)
    (hlow : rp / PCIM_DATA_WIDTH_BYTES ≤ base / PCIM_DATA_WIDTH_BYTES + (c - 2))
    (hhigh : base / PCIM_DATA_WIDTH_BYTES + (c - 2) < rp / PCIM_DATA_WIDTH_BYTES + p.BUF_DEPTH) :
    C2hData.stg3_dp_eop_slice_in s.SDE_C2H_DATA = true ↔ base / PCIM_DATA_WIDTH_BYTES + (c - 2) =
      (rp + s.SDE_C2H_DATA.buf_dm_num_bytes_q - 1) / PCIM_DATA_WIDTH_BYTES := by
  have hrows := C2hBuf.read_rows h.track
  have hspace := h.track.space
  have hheard := h.heard.fits
  have hpos := (h.heard.ended hvalid).1
  have haddr : s.SDE_C2H_DATA.pl2_dp.byte_rd_addr / PCIM_DATA_WIDTH_BYTES =
      (base / PCIM_DATA_WIDTH_BYTES + (c - 2)) % p.BUF_DEPTH := by
    rw [(hf.pl2_row hc).2, row_of_addr, Nat.add_mul_div_left _ _ (by decide)]
  have hpl2 : s.SDE_C2H_DATA.pl2_dp.valid = true := hf.pl2.trans (decide_eq_true hc)
  have heop_row : C2hData.buf_dm_aux_eop_byte_addr s.SDE_C2H_DATA / PCIM_DATA_WIDTH_BYTES =
      (rp + s.SDE_C2H_DATA.buf_dm_num_bytes_q - 1) / PCIM_DATA_WIDTH_BYTES % p.BUF_DEPTH := by
    rw [C2hData.buf_dm_aux_eop_byte_addr, (h.heard.ended hvalid).2.2, row_of_addr]
  have hend_low : rp / PCIM_DATA_WIDTH_BYTES ≤
      (rp + s.SDE_C2H_DATA.buf_dm_num_bytes_q - 1) / PCIM_DATA_WIDTH_BYTES :=
    Nat.div_le_div_right (by omega)
  have hend_high : (rp + s.SDE_C2H_DATA.buf_dm_num_bytes_q - 1) / PCIM_DATA_WIDTH_BYTES <
      rp / PCIM_DATA_WIDTH_BYTES + p.BUF_DEPTH := by
    rw [width_val] at *
    omega
  rw [C2hData.stg3_dp_eop_slice_in, hpl2, hvalid, haddr, heop_row, Bool.true_and, Bool.and_true,
    decide_eq_true_iff]
  exact ⟨row_inj hlow hhigh hend_low hend_high, fun heq => by rw [heq]⟩

theorem knows_of_linked (h : Linked p s beats bq bqq rp r base)
    (hf : Flow p base q c s.SDE_C2H_DATA) (hserves : Serves p base q s.SDE_C2H_DATA)
    (hchosen : Chosen p beats bqq.length base q s.SDE_C2H_DATA)
    (hhere : r = base + q.bytes_out (c - 4 - q.lead)) (hbefore : base ≤ rp ∧ rp ≤ r) (hc : 2 ≤ c)
    (hsome : q.bytes_in (c - 2) < q.bytes) : q.Knows (c - 2) s.SDE_C2H_DATA := by
  have hmore := Flow.read_before hf hserves (by omega)
  have hread := read_behind q c
  have hrows := C2hBuf.read_rows h.track
  have hspace := h.track.space
  have hfits := hchosen.fits
  have hrow_rd : base = PCIM_DATA_WIDTH_BYTES * (base / PCIM_DATA_WIDTH_BYTES) + q.rd := by
    rw [hchosen.rd]
    exact (Nat.div_add_mod _ _).symm
  -- The row that stage 2 has, and where it is.
  have hrow : PCIM_DATA_WIDTH_BYTES * (base / PCIM_DATA_WIDTH_BYTES + (c - 2)) < base + q.bytes := by
    unfold C2hJob.bytes_in at hsome
    rw [width_val] at *
    omega
  have hlow : rp / PCIM_DATA_WIDTH_BYTES ≤ base / PCIM_DATA_WIDTH_BYTES + (c - 2) := by
    rw [width_val] at *
    omega
  have hhigh : base / PCIM_DATA_WIDTH_BYTES + (c - 2) <
      rp / PCIM_DATA_WIDTH_BYTES + p.BUF_DEPTH := by
    rw [width_val] at *
    omega
  cases hvalid : s.SDE_C2H_DATA.buf_dm_aux_valid_q with
  | false =>
    have hno : C2hData.stg3_dp_eop_slice_in s.SDE_C2H_DATA = false := by
      simp [C2hData.stg3_dp_eop_slice_in, hvalid]
    refine ⟨fun hhit => Bool.noConfusion (hno.symm.trans hhit), fun _ hends => ?_⟩
    rw [hchosen.known hends] at hvalid
    cases hvalid
  | true =>
    obtain ⟨hle, hends⟩ := reported_end_of_burst h hchosen hbefore.1 (by omega) hvalid
    have hpos := (h.heard.ended hvalid).1
    have heop_num := eop_num_bytes_eq h hvalid
    have hslice := eop_slice_iff h hf hvalid hc hlow hhigh
    refine ⟨fun hhit => ?_, fun hmiss hend => ?_⟩
    · have hsame := hslice.mp hhit
      rw [heop_num]
      constructor
      · rw [width_val] at *
        omega
      · rw [hends]
        rw [width_val] at *
        omega
    · have hall := hends.mp hend
      have hne : base / PCIM_DATA_WIDTH_BYTES + (c - 2) ≠
          (rp + s.SDE_C2H_DATA.buf_dm_num_bytes_q - 1) / PCIM_DATA_WIDTH_BYTES := fun heq =>
        Bool.noConfusion (hmiss.symm.trans (hslice.mpr heq))
      rw [width_val] at *
      omega

theorem hears_of_linked (h : Linked p s beats bq bqq rp r base)
    (hf : Flow p base q c s.SDE_C2H_DATA) (hserves : Serves p base q s.SDE_C2H_DATA)
    (hchosen : Chosen p beats bqq.length base q s.SDE_C2H_DATA)
    (hhere : r = base + q.bytes_out (c - 4 - q.lead)) (hbefore : base ≤ rp ∧ rp ≤ r) (hc : 2 ≤ c) :
    q.Hears (c - 2) s.SDE_C2H_DATA where
  fit hfirst hhit := by
    have hlarge := p.large
    have hvalid : s.SDE_C2H_DATA.buf_dm_aux_valid_q = true := by
      simp only [C2hData.stg3_dp_eop_slice_in, Bool.and_eq_true] at hhit
      exact hhit.2
    -- No beat has gone out, so all is read from the start of the burst on.
    have hnone : q.bytes_out (c - 4 - q.lead) = 0 := by
      have hread := read_behind q c
      have hzero : c - 4 = 0 := by omega
      rw [hzero] at hread ⊢
      omega
    have hpos := (h.heard.ended hvalid).1
    have hsame := (eop_slice_iff h hf hvalid hc (Nat.div_le_div_right (by omega) |>.trans (Nat.le_add_right _ _))
      (by rw [width_val] at *; omega)).mp hhit
    rw [eop_num_bytes_eq h hvalid, hchosen.rd]
    rw [width_val] at *
    omega
  knows := knows_of_linked h hf hserves hchosen hhere hbefore hc

theorem row_of_rdata (h : Linked p s beats bq bqq rp r base) (hf : Flow p base q c s.SDE_C2H_DATA)
    (hchosen : Chosen p beats bqq.length base q s.SDE_C2H_DATA)
    (hhere : r = base + q.bytes_out (c - 4 - q.lead))
    (hrun : C2hData.dp_stall s.SDE_C2H_DATA = false) :
    q.RowData c ((circuit p).step i s).SDE_C2H_BUF.buf_ram_rdata := by
  have hread := read_behind q c
  have hrows := C2hBuf.read_rows h.track
  have hfits := hchosen.fits
  have hrow_rd : base = PCIM_DATA_WIDTH_BYTES * (base / PCIM_DATA_WIDTH_BYTES) + q.rd := by
    rw [hchosen.rd]
    exact (Nat.div_add_mod _ _).symm
  have hrd : (buf_in i s).dm_buf_rd = true := by
    change (s.SDE_C2H_DATA.pl0_dp.valid && !C2hData.dp_stall s.SDE_C2H_DATA) = true
    rw [hf.pl0, hrun]
    rfl
  have haddr : (buf_in i s).dm_buf_addr = (base / PCIM_DATA_WIDTH_BYTES + c) % p.BUF_DEPTH := by
    change s.SDE_C2H_DATA.pl0_dp.byte_rd_addr / PCIM_DATA_WIDTH_BYTES = _
    rw [hf.pl0_addr, row_of_addr, Nat.add_mul_div_left _ _ (by decide)]
  intro k hk hlow hhigh
  have hlt : base / PCIM_DATA_WIDTH_BYTES + c < beats.length := by
    rw [width_val] at *
    omega
  have hget : beats[base / PCIM_DATA_WIDTH_BYTES + c]? =
      some (beats[base / PCIM_DATA_WIDTH_BYTES + c]) := List.getElem?_eq_getElem hlt
  have hreach : r / PCIM_DATA_WIDTH_BYTES ≤ base / PCIM_DATA_WIDTH_BYTES + c := by
    rw [width_val] at *
    omega
  have hpos : base + (PCIM_DATA_WIDTH_BYTES * c + k - q.rd) =
      PCIM_DATA_WIDTH_BYTES * (base / PCIM_DATA_WIDTH_BYTES + c) + k := by
    rw [Nat.mul_add]
    omega
  have hdiv : (PCIM_DATA_WIDTH_BYTES * (base / PCIM_DATA_WIDTH_BYTES + c) + k) /
      PCIM_DATA_WIDTH_BYTES = base / PCIM_DATA_WIDTH_BYTES + c := by
    rw [Nat.mul_add_div (by decide), Nat.div_eq_of_lt hk, Nat.add_zero]
  have hmod : (PCIM_DATA_WIDTH_BYTES * (base / PCIM_DATA_WIDTH_BYTES + c) + k) %
      PCIM_DATA_WIDTH_BYTES = k := by
    rw [Nat.mul_add_mod, Nat.mod_eq_of_lt hk]
  have hrdata : ((circuit p).step i s).SDE_C2H_BUF.buf_ram_rdata =
      (beats[base / PCIM_DATA_WIDTH_BYTES + c]).data :=
    rdata_step h.track hrd haddr hreach hget
  rw [hrdata, hchosen.byte _ (by omega), hpos, byte_at, hdiv, hget, hmod]

theorem stall_step (h : Linked p s beats bq bqq rp r base)
    (hpacked : i.axis_buf_valid → Packed i.axis_buf)
    (hstate : s.SDE_C2H_DATA.req_state = .REQ_DATA) (hf : Flow p base q c s.SDE_C2H_DATA)
    (hstarted : s.SDE_C2H_DATA.aw_req_done_q = false)
    (hhere : r = base + q.bytes_out (c - 4 - q.lead)) (hbefore : base ≤ rp ∧ rp ≤ r)
    (hserves : Serves p base q s.SDE_C2H_DATA)
    (hchosen : Chosen p beats bqq.length base q s.SDE_C2H_DATA)
    (hrdata : s.SDE_C2H_DATA.pl1_dp.rd → q.RowData (c - 1) s.SDE_C2H_BUF.buf_ram_rdata)
    (hstall : C2hData.dp_stall s.SDE_C2H_DATA = true) :
    Holds p ((circuit p).step i s) (beats ++ accepted i s) beats base := by
  have hbusy : s.SDE_C2H_DATA.req_state ≠ .REQ_IDLE := by
    rw [hstate]
    decide
  have hnot : s.SDE_C2H_DATA.req_state ≠ .REQ_WAIT_DATA := by
    rw [hstate]
    decide
  have hdone := C2hData.stall_not_done hstall
  have hno : C2hData.data_rd_addr_update s.SDE_C2H_DATA = false := by
    simp [C2hData.data_rd_addr_update, hstall]
  have hnext : ((circuit p).step i s).SDE_C2H_DATA.req_state = .REQ_DATA := data_kept hdone hstate
  have hstarted' : ((circuit p).step i s).SDE_C2H_DATA.aw_req_done_q = false :=
    started_kept hstarted hstate
  have hrd : ((circuit p).step i s).SDE_C2H_DATA.pl1_dp.rd = false := by
    simp [circuit, C2hData.step, C2hData.dm_buf_rd, hstall]
  refine ⟨bq, r, r, linked_kept h hpacked hno, ?_⟩
  refine .data q c hnext (hf.step_stall hstall hnot hrdata) hstarted' hhere
    ⟨hbefore.1.trans hbefore.2, Nat.le_refl r⟩ (serves_kept hserves hdone hnot)
    (chosen_kept h hchosen hpacked hdone hbusy (if_neg hnot)) fun hc => ?_
  rw [hrd] at hc
  cases hc

theorem reported_covers (h : Linked p s beats bq bqq rp r base)
    (hchosen : Chosen p beats bqq.length base q s.SDE_C2H_DATA) (hle : base ≤ r) :
    base + q.bytes ≤
      r + C2hBuf.buf_dm_num_bytes p.toC2hBufParams (buf_in i s) s.SDE_C2H_BUF := by
  have hfits := hchosen.fits
  cases hvalid : C2hBuf.buf_dm_aux_valid s.SDE_C2H_BUF with
  | true =>
    have hnow : Reported p.toC2hBufParams beats bqq.length r _ _ _ :=
      reported (i := buf_in i s) h.track h.delay h.addr
    obtain ⟨hpos, hend, -⟩ := hnow.ended hvalid
    exact hchosen.unbroken _ hend (by omega)
  | false =>
    have hnum := C2hBuf.num_bytes_of_starved (i := buf_in i s) h.track h.addr hvalid
    omega

theorem beat_within (hserves : Serves p base q s.SDE_C2H_DATA) (m : Nat) :
    q.bytes_out m ≤ q.bytes_out (m + 1) ∧
      q.bytes_out (m + 1) ≤ q.bytes_out m + PCIM_DATA_WIDTH_BYTES := by
  have hdest := hserves.held.dest_lt
  refine ⟨C2hJob.bytes_out_mono m, ?_⟩
  unfold C2hJob.bytes_out
  rw [width_val] at *
  omega

theorem rd_addr_step (hf : Flow p base q c s.SDE_C2H_DATA)
    (hstate : s.SDE_C2H_DATA.req_state = .REQ_DATA) (hc : 4 + q.lead ≤ c)
    (hrun : C2hData.dp_stall s.SDE_C2H_DATA = false)
    (hdone : C2hData.data_tx_done s.SDE_C2H_DATA = false) :
    ((circuit p).step i s).SDE_C2H_DATA.dm_buf_rd_byte_addr =
      (base + q.bytes_out (c - 4 - q.lead + 1)) % BUF_SIZE_BYTES p.toC2hBufParams := by
  have hvalid : s.SDE_C2H_DATA.pl5_dp.valid = true := hf.pl5.trans (decide_eq_true hc)
  have hm : c - 3 - q.lead = c - 4 - q.lead + 1 := by omega
  have haddr : ((circuit p).step i s).SDE_C2H_DATA.dm_buf_rd_byte_addr =
      s.SDE_C2H_DATA.pl5_dp.byte_rd_addr := by
    simp [circuit, C2hData.step, C2hData.data_desc_done_w_eop, C2hData.data_txn_done,
      C2hData.data_rd_addr_update, hstate, hvalid, hrun, hdone]
  rw [haddr, hf.pl5_addr, hm]

/-- A cycle with room in the output FIFO, in which the last beat does not go there. -/
theorem run_step (h : Linked p s beats bq bqq rp r base)
    (hpacked : i.axis_buf_valid → Packed i.axis_buf)
    (hstate : s.SDE_C2H_DATA.req_state = .REQ_DATA) (hf : Flow p base q c s.SDE_C2H_DATA)
    (hstarted : s.SDE_C2H_DATA.aw_req_done_q = false)
    (hhere : r = base + q.bytes_out (c - 4 - q.lead)) (hbefore : base ≤ rp ∧ rp ≤ r)
    (hserves : Serves p base q s.SDE_C2H_DATA)
    (hchosen : Chosen p beats bqq.length base q s.SDE_C2H_DATA)
    (hrdata : s.SDE_C2H_DATA.pl1_dp.rd → q.RowData (c - 1) s.SDE_C2H_BUF.buf_ram_rdata)
    (hrun : C2hData.dp_stall s.SDE_C2H_DATA = false)
    (hdone : C2hData.data_tx_done s.SDE_C2H_DATA = false) :
    Holds p ((circuit p).step i s) (beats ++ accepted i s) beats base := by
  have hbusy : s.SDE_C2H_DATA.req_state ≠ .REQ_IDLE := by
    rw [hstate]
    decide
  have hnot : s.SDE_C2H_DATA.req_state ≠ .REQ_WAIT_DATA := by
    rw [hstate]
    decide
  have hr : Runs s.SDE_C2H_DATA := ⟨hstate, hstarted, hrun, hdone⟩
  have hnext : ((circuit p).step i s).SDE_C2H_DATA.req_state = .REQ_DATA := data_kept hdone hstate
  have hstarted' : ((circuit p).step i s).SDE_C2H_DATA.aw_req_done_q = false :=
    started_kept hstarted hstate
  have hflow : Flow p base q (c + 1) ((circuit p).step i s).SDE_C2H_DATA :=
    hf.step_run hserves hr (fun hc => hears_of_linked h hf hserves hchosen hhere hbefore hc) hrdata
  have hserves' : Serves p base q ((circuit p).step i s).SDE_C2H_DATA := serves_kept hserves hdone hnot
  have hchosen' := chosen_kept h hchosen hpacked hdone hbusy (if_neg hnot)
  have hrow := row_of_rdata (i := i) h hf hchosen hhere hrun
  have hone : c + 1 - 1 = c := Nat.add_sub_cancel c 1
  by_cases hc : 4 + q.lead ≤ c
  · -- A beat goes to the output FIFO, and the read address goes over it.
    have hm : c + 1 - 4 - q.lead = c - 4 - q.lead + 1 := by omega
    obtain ⟨hmono, hbeat⟩ := @beat_within p s base q hserves (c - 4 - q.lead)
    have hsome : 0 < q.bytes := by
      have hnext := hflow.more (by omega)
      rcases Nat.eq_zero_or_pos q.bytes with hnull | hsome
      · rw [C2hJob.beats_null hserves.held hnull] at hnext
        omega
      · exact hsome
    have hmore := Flow.read_before hflow hserves' hsome
    rw [hm] at hmore
    have hcovers := reported_covers (i := i) h hchosen (by omega)
    have hpos : r + (q.bytes_out (c - 4 - q.lead + 1) - q.bytes_out (c - 4 - q.lead)) =
        base + q.bytes_out (c - 4 - q.lead + 1) := by omega
    have hmoved := C2hBuf.moved_ahead (i := buf_in i s)
      (d := q.bytes_out (c - 4 - q.lead + 1) - q.bytes_out (c - 4 - q.lead)) h.track h.delay h.addr
      (by omega) (by omega) (fun _ => by omega) (no_pop hdone)
    rw [hpos] at hmoved
    have hlinked := linked_step h hpacked hmoved
      (fun hpop => Bool.noConfusion ((no_pop hdone).symm.trans hpop))
      (rd_addr_step hf hstate hc hrun hdone) ((base_kept hdone).trans h.base)
      (fun _ => no_pop hdone)
    refine ⟨bq, r, _, hlinked, ?_⟩
    exact .data q (c + 1) hnext hflow hstarted' (by rw [hm]) (by omega) hserves' hchosen'
      (fun _ => hone.symm ▸ hrow)
  · have hno : C2hData.data_rd_addr_update s.SDE_C2H_DATA = false := by
      have hvalid : s.SDE_C2H_DATA.pl5_dp.valid = false := hf.pl5.trans (decide_eq_false hc)
      simp [C2hData.data_rd_addr_update, hvalid]
    have hm : c + 1 - 4 - q.lead = c - 4 - q.lead := by omega
    refine ⟨bq, r, r, linked_kept h hpacked hno, ?_⟩
    exact .data q (c + 1) hnext hflow hstarted' (by rw [hm, hhere]) (by omega) hserves' hchosen'
      (fun _ => hone.symm ▸ hrow)

/-- The last beat: the bytes end with it, and it knows whether the packet does. -/
theorem last_beat (hf : Flow p base q c s.SDE_C2H_DATA) (hserves : Serves p base q s.SDE_C2H_DATA)
    (hdone : C2hData.data_tx_done s.SDE_C2H_DATA) :
    4 + q.lead ≤ c ∧ C2hData.dp_stall s.SDE_C2H_DATA = false ∧
      c - 4 - q.lead + 1 = q.beats ∧ q.bytes_out (c - 4 - q.lead + 1) = q.bytes ∧
      s.SDE_C2H_DATA.pl5_dp.eop = q.ends ∧ (0 < q.bytes → s.SDE_C2H_DATA.pl5_dp.num_beats = 0) := by
  unfold C2hData.data_tx_done at hdone
  simp only [Bool.and_eq_true, Bool.not_eq_true'] at hdone
  obtain ⟨⟨hvalid, hrun⟩, hlast⟩ := hdone
  rw [hf.pl5, decide_eq_true_iff] at hvalid
  have hout := hf.out hvalid
  have hmore := hf.more hvalid
  have hend := hout.last_eq hserves.held
  rw [show s.SDE_C2H_DATA.pl5_dp.beat.last = true from hlast] at hend
  have hle := of_decide_eq_true hend.symm
  have hm : c - 4 - q.lead + 1 = q.beats := by omega
  have hall : q.bytes_out (c - 4 - q.lead + 1) = q.bytes := by
    rw [hm]
    exact q.bytes_out_all hserves.held
  refine ⟨hvalid, hrun, hm, hall, ?_, fun hsome => ?_⟩
  · have heop : s.SDE_C2H_DATA.pl5_dp.eop = _ := hout.eop
    rw [heop, decide_eq_true hall, Bool.and_true]
  · have hbeats := hf.num_beats hsome hvalid
    omega

theorem wrap_base (hserves : Serves p base q s.SDE_C2H_DATA)
    (hchosen : Chosen p beats bqq.length base q s.SDE_C2H_DATA) :
    C2hData.curr_buf_byte_rd_addr_next p s.SDE_C2H_DATA =
      (base + q.bytes) % BUF_SIZE_BYTES p.toC2hBufParams := by
  rw [C2hData.curr_buf_byte_rd_addr_next, hserves.base, hserves.held.num_bytes,
    C2hData.wrap_eq _ hchosen.size]

theorem ram_rd_addr_next_eq {dm : C2hData} {x : Nat}
    (h : C2hData.curr_buf_byte_rd_addr_next p dm = x % BUF_SIZE_BYTES p.toC2hBufParams) :
    C2hData.curr_buf_ram_rd_addr_next p dm * PCIM_DATA_WIDTH_BYTES =
      row_up x % BUF_SIZE_BYTES p.toC2hBufParams := by
  have hlarge := p.large
  have hup : row_up x % BUF_SIZE_BYTES p.toC2hBufParams =
      (x + PCIM_DATA_WIDTH_BYTES - 1) / PCIM_DATA_WIDTH_BYTES % p.BUF_DEPTH * PCIM_DATA_WIDTH_BYTES := by
    rw [row_up, BUF_SIZE_BYTES, Nat.mul_comm p.BUF_DEPTH, Nat.mul_mod_mul_left, Nat.mul_comm]
  have hlt := Nat.mod_lt (x / PCIM_DATA_WIDTH_BYTES) (by omega : 0 < p.BUF_DEPTH)
  rw [hup, C2hData.curr_buf_ram_rd_addr_next, h, lane_of_addr, row_of_addr]
  congr 1
  by_cases hrow : x % PCIM_DATA_WIDTH_BYTES = 0
  · have hsame : (x + PCIM_DATA_WIDTH_BYTES - 1) / PCIM_DATA_WIDTH_BYTES =
        x / PCIM_DATA_WIDTH_BYTES := by
      rw [width_val] at *
      omega
    rw [if_pos hrow, hsame]
  · have hnext : (x + PCIM_DATA_WIDTH_BYTES - 1) / PCIM_DATA_WIDTH_BYTES =
        x / PCIM_DATA_WIDTH_BYTES + 1 := by
      rw [width_val] at *
      omega
    rw [if_neg hrow, hnext]
    rcases C2hBuf.add_mod_cases (x / PCIM_DATA_WIDTH_BYTES) (by omega : 1 < p.BUF_DEPTH) with
      ⟨hno, heq⟩ | ⟨hwrap, heq⟩
    · rw [heq, if_neg (by omega)]
    · rw [if_pos (by omega)]
      omega

/-- Where the next burst starts when this one ends a packet, and when it does not. -/
def base_next (base : Nat) (q : C2hJob) : Nat :=
  if q.ends then row_up (base + q.bytes) else base + q.bytes

theorem moved_done (h : Linked p s beats bq bqq rp r base)
    (hstate : s.SDE_C2H_DATA.req_state = .REQ_DATA) (hf : Flow p base q c s.SDE_C2H_DATA)
    (hhere : r = base + q.bytes_out (c - 4 - q.lead))
    (hserves : Serves p base q s.SDE_C2H_DATA)
    (hchosen : Chosen p beats bqq.length base q s.SDE_C2H_DATA)
    (hdone : C2hData.data_tx_done s.SDE_C2H_DATA) :
    Moved p.toC2hBufParams (buf_in i s) beats bqq r (base_next base q) ∧
      (dm_buf_aux_pop s.SDE_C2H_DATA → C2hBuf.buf_dm_aux_valid s.SDE_C2H_BUF) := by
  have hbusy : s.SDE_C2H_DATA.req_state ≠ .REQ_IDLE := by
    rw [hstate]
    decide
  obtain ⟨hc, hrun, hm, hall, heop, -⟩ := last_beat hf hserves hdone
  obtain ⟨hmono, hbeat⟩ := @beat_within p s base q hserves (c - 4 - q.lead)
  rw [hall] at hmono hbeat
  have hcovers := reported_covers (i := i) h hchosen (by omega)
  have hnow : Reported p.toC2hBufParams beats bqq.length r _ _ _ :=
    reported (i := buf_in i s) h.track h.delay h.addr
  have hpop : dm_buf_aux_pop s.SDE_C2H_DATA = q.ends := by
    rw [dm_buf_aux_pop, C2hData.data_desc_done_w_eop, hdone, heop, Bool.true_and]
  unfold base_next
  cases hends : q.ends with
  | true =>
    have hvalid := h.aux_kept hbusy (hchosen.known hends)
    obtain ⟨hsome, hend⟩ := hchosen.ends.mp hends
    have hmore := Flow.read_before hf hserves hsome
    have hfirst := hnow.unbroken _ hend (by omega)
    have hnum : r + C2hBuf.buf_dm_num_bytes p.toC2hBufParams (buf_in i s) s.SDE_C2H_BUF =
        base + q.bytes := by omega
    have hmoved := (C2hBuf.moved_over (i := buf_in i s) h.track h.delay h.addr hvalid (by omega)
      (hpop.trans hends)).2
    rw [hnum] at hmoved
    exact ⟨hmoved, fun _ => hvalid⟩
  | false =>
    have hno : dm_buf_aux_pop s.SDE_C2H_DATA = false := hpop.trans hends
    have hpos : r + (base + q.bytes - r) = base + q.bytes := by omega
    have hinside : C2hBuf.buf_dm_aux_valid s.SDE_C2H_BUF → base + q.bytes - r <
        C2hBuf.buf_dm_num_bytes p.toC2hBufParams (buf_in i s) s.SDE_C2H_BUF := by
      intro hvalid
      obtain ⟨hpos, hend, -⟩ := hnow.ended hvalid
      have hne : 0 < q.bytes → base + q.bytes ≠
          r + C2hBuf.buf_dm_num_bytes p.toC2hBufParams (buf_in i s) s.SDE_C2H_BUF := by
        intro hsome heq
        rw [← heq] at hend
        rw [hchosen.ends.mpr ⟨hsome, hend⟩] at hends
        cases hends
      omega
    have hmoved := C2hBuf.moved_ahead (i := buf_in i s) (d := base + q.bytes - r) h.track h.delay
      h.addr (by omega) (by omega) hinside hno
    rw [hpos] at hmoved
    exact ⟨hmoved, fun hc => Bool.noConfusion (hno.symm.trans hc)⟩

theorem done_step (h : Linked p s beats bq bqq rp r base)
    (hpacked : i.axis_buf_valid → Packed i.axis_buf)
    (hstate : s.SDE_C2H_DATA.req_state = .REQ_DATA) (hf : Flow p base q c s.SDE_C2H_DATA)
    (hstarted : s.SDE_C2H_DATA.aw_req_done_q = false)
    (hhere : r = base + q.bytes_out (c - 4 - q.lead))
    (hserves : Serves p base q s.SDE_C2H_DATA)
    (hchosen : Chosen p beats bqq.length base q s.SDE_C2H_DATA)
    (hdone : C2hData.data_tx_done s.SDE_C2H_DATA) :
    Holds p ((circuit p).step i s) (beats ++ accepted i s) beats (base_next base q) := by
  obtain ⟨hc, hrun, hm, hall, heop, -⟩ := last_beat hf hserves hdone
  obtain ⟨hmoved, hpop⟩ := moved_done (i := i) h hstate hf hhere hserves hchosen hdone
  have hnt := txn_done hdone hstate
  have hweop : C2hData.data_desc_done_w_eop s.SDE_C2H_DATA = q.ends := by
    rw [C2hData.data_desc_done_w_eop, hdone, heop, Bool.true_and]
  have hnext : ((circuit p).step i s).SDE_C2H_DATA.req_state =
      if C2hData.data_desc_done s.SDE_C2H_DATA then .REQ_IDLE else .REQ_WAIT_CALC :=
    state_done hdone hstate
  have haddr : (if s.SDE_C2H_DATA.req_state = .REQ_DATA &&
        C2hData.data_desc_done_w_eop s.SDE_C2H_DATA then
      C2hData.curr_buf_ram_rd_addr_next p s.SDE_C2H_DATA * PCIM_DATA_WIDTH_BYTES
      else C2hData.curr_buf_byte_rd_addr_next p s.SDE_C2H_DATA) =
        base_next base q % BUF_SIZE_BYTES p.toC2hBufParams := by
    have hwrap := wrap_base hserves hchosen
    rw [hstate, hweop, decide_eq_true rfl, Bool.true_and, base_next]
    cases q.ends with
    | true => exact ram_rd_addr_next_eq hwrap
    | false => exact hwrap
  have hrd : ((circuit p).step i s).SDE_C2H_DATA.dm_buf_rd_byte_addr =
      base_next base q % BUF_SIZE_BYTES p.toC2hBufParams := by
    rw [← haddr]
    simp only [circuit, C2hData.step, hnt, if_true]
  have hbase : ((circuit p).step i s).SDE_C2H_DATA.curr_buf_byte_rd_addr =
      base_next base q % BUF_SIZE_BYTES p.toC2hBufParams := by
    rw [← haddr]
    simp only [circuit, C2hData.step, hnt, if_true]
  have hidle : ((circuit p).step i s).SDE_C2H_DATA.req_state ≠ .REQ_IDLE →
      dm_buf_aux_pop s.SDE_C2H_DATA = false := by
    intro hbusy
    cases hends : q.ends with
    | false => exact hweop.trans hends
    | true =>
      rw [hnext, if_pos ((desc_done_iff hdone heop).mpr (.inr hends))] at hbusy
      exact absurd rfl hbusy
  have hempty : Empty ((circuit p).step i s).SDE_C2H_DATA :=
    C2hData.empty_of_done hstate hstarted hdone
  have hstarted' : ((circuit p).step i s).SDE_C2H_DATA.aw_req_done_q = false :=
    started_kept hstarted hstate
  refine ⟨bq, r, base_next base q,
    linked_step h hpacked hmoved hpop hrd hbase hidle, ?_⟩
  split at hnext
  case isTrue => exact .idle hnext hempty hstarted' rfl
  case isFalse => exact .next hnext hempty hstarted' rfl

end Running

/-! ## Whole runs -/

/-- Where the burst after that of this cycle starts. -/
def place_next (dm : C2hData) (base : Nat) : Nat :=
  if C2hData.data_txn_done dm then
    if dm.pl5_dp.eop then row_up (base + dm.curr_txn.num_bytes) else base + dm.curr_txn.num_bytes
  else base

theorem place_kept {dm : C2hData} (hdone : C2hData.data_tx_done dm = false) (base : Nat) :
    place_next dm base = base := by
  rw [place_next, no_txn_done hdone, if_neg Bool.false_ne_true]

theorem place_done {dm : C2hData} {q : C2hJob} (hdone : C2hData.data_tx_done dm)
    (hstate : dm.req_state = .REQ_DATA) (hnum : dm.curr_txn.num_bytes = q.bytes)
    (heop : dm.pl5_dp.eop = q.ends) (base : Nat) : place_next dm base = base_next base q := by
  rw [place_next, txn_done hdone hstate, if_pos rfl, heop, hnum]
  rfl

theorem holds_step (h : Holds p s beats bq base) (hpacked : i.axis_buf_valid → Packed i.axis_buf) :
    Holds p ((circuit p).step i s) (beats ++ accepted i s) beats
      (place_next s.SDE_C2H_DATA base) := by
  obtain ⟨bqq, rp, r, hlinked, hphase⟩ := h
  cases hphase with
  | idle state empty started here =>
    rw [place_kept empty.no_tx_done]
    exact idle_step hlinked hpacked state empty started here
  | next state empty started here =>
    rw [place_kept empty.no_tx_done]
    exact calc_step hlinked hpacked state empty started here
  | wait state empty started here before =>
    rw [place_kept empty.no_tx_done]
    exact wait_step hlinked hpacked state empty started here before
  | addr q state empty started here before serves chosen =>
    rw [place_kept empty.no_tx_done]
    exact addr_step hlinked hpacked state empty started here serves chosen
  | load q state empty started here before serves chosen =>
    rw [place_kept empty.no_tx_done]
    exact load_step hlinked hpacked state empty started here serves chosen
  | data q c state flow started here before serves chosen rdata =>
    cases hdone : C2hData.data_tx_done s.SDE_C2H_DATA with
    | true =>
      have heop := (last_beat flow serves hdone).2.2.2.2.1
      rw [place_done hdone state serves.held.num_bytes heop]
      exact done_step hlinked hpacked state flow started here serves chosen hdone
    | false =>
      rw [place_kept hdone]
      cases hstall : C2hData.dp_stall s.SDE_C2H_DATA with
      | true =>
        exact stall_step hlinked hpacked state flow started here before serves chosen rdata hstall
      | false =>
        exact run_step hlinked hpacked state flow started here before serves chosen rdata hstall hdone

theorem no_beats_err (h : Holds p s beats bq base)
    (hlen : s.SDE_C2H_DATA.req_state ≠ .REQ_IDLE → 0 < s.SDE_C2H_DATA.curr_desc_len) :
    ((circuit p).step i s).SDE_C2H_DATA.dm_num_beats_err = false := by
  obtain ⟨bqq, rp, r, hlinked, hphase⟩ := h
  change (C2hData.data_tx_done s.SDE_C2H_DATA &&
    decide (s.SDE_C2H_DATA.pl5_dp.num_beats ≠ 0)) = false
  cases hdone : C2hData.data_tx_done s.SDE_C2H_DATA with
  | false => rfl
  | true =>
    cases hphase with
    | data q c state flow started here before serves chosen rdata =>
      have hsome := chosen.some (hlen (by rw [state]; decide))
      rw [(last_beat flow serves hdone).2.2.2.2.2 hsome]
      rfl
    | idle state empty => rw [empty.no_tx_done] at hdone; cases hdone
    | next state empty => rw [empty.no_tx_done] at hdone; cases hdone
    | wait state empty => rw [empty.no_tx_done] at hdone; cases hdone
    | addr q state empty => rw [empty.no_tx_done] at hdone; cases hdone
    | load q state empty => rw [empty.no_tx_done] at hdone; cases hdone

theorem holds_reset : Holds p (circuit p).reset [] [] 0 := by
  refine ⟨[], 0, 0, ?_, ?_⟩
  · exact
      { track := C2hBuf.track_reset
        delay := C2hBuf.delay_reset (p := p.toC2hBufParams)
        addr := rfl
        heard := ⟨Nat.le_refl _, fun x _ _ => Nat.zero_le x, nofun, fun _ _ => rfl⟩
        base := rfl
        aux_kept := fun hbusy => absurd rfl hbusy
        max := fun hbusy => absurd rfl hbusy }
  · exact .idle rfl ⟨rfl, rfl, rfl, rfl, rfl, rfl, rfl, rfl⟩ rfl rfl

section Runs

variable (p : C2hDataParams) (ins : Nat → C2hIn)

/-- The beats that came in before cycle `n`. -/
def beats_in (n : Nat) : List AxisBeat := (circuit p).passed ins accepted n

/-- Where the next burst starts in cycle `n`. -/
def place : Nat → Nat
  | 0 => 0
  | n + 1 => place_next ((circuit p).state ins n).SDE_C2H_DATA (place n)

variable {p ins}

theorem holds_state (hpacked : ∀ n, (ins n).axis_buf_valid → Packed (ins n).axis_buf) (n : Nat) :
    Holds p ((circuit p).state ins n) (beats_in p ins n) (beats_in p ins (n - 1)) (place p ins n) := by
  induction n with
  | zero => exact holds_reset
  | succ n ih => exact holds_step ih (hpacked n)

/-- What is wanted of the descriptors: each has a byte. -/
def HasByte (i : C2hIn) : Prop := i.desc_dm_desc_valid → i.desc_dm_desc.len ≠ 0

/-- What becomes of the descriptor registers in a cycle behind which a descriptor is written: a descriptor
was popped, or nothing changed, or a burst is done and bytes are missing. -/
theorem desc_cases {i : C2hDataIn} {dm : C2hData} (hbusy : (C2hData.step p i dm).req_state ≠ .REQ_IDLE) :
    (i.desc_dm_desc_valid ∧
        (C2hData.step p i dm).curr_desc_len = (C2hData.desc_dm_desc_in i).len.toNat ∧
        (C2hData.step p i dm).curr_desc_num_txns = 0) ∨
      (dm.req_state ≠ .REQ_IDLE ∧ (C2hData.step p i dm).curr_desc_len = dm.curr_desc_len ∧
        (C2hData.step p i dm).curr_desc_num_txns = dm.curr_desc_num_txns) ∨
      (dm.req_state = .REQ_DATA ∧ dm.curr_txn.num_bytes < dm.curr_desc_len ∧
        (C2hData.step p i dm).curr_desc_len = dm.curr_desc_len - dm.curr_txn.num_bytes ∧
        (C2hData.step p i dm).curr_desc_num_txns = dm.curr_desc_num_txns + 1) := by
  change C2hData.req_state_next i dm ≠ _ at hbusy
  by_cases hidle : dm.req_state = .REQ_IDLE
  · have hvalid : i.desc_dm_desc_valid = true := by
      by_contra hvalid
      rw [C2hData.req_state_next, hidle] at hbusy
      simp [hvalid] at hbusy
    have hpop : C2hData.dm_desc_pop i dm = true := by simp [C2hData.dm_desc_pop, hidle, hvalid]
    exact .inl ⟨hvalid, if_pos hpop, if_pos hpop⟩
  · have hpop : C2hData.dm_desc_pop i dm = false := by simp [C2hData.dm_desc_pop, hidle]
    cases hdone : C2hData.data_txn_done dm with
    | false => exact .inr (.inl ⟨hidle, by simp [C2hData.step, hpop, hdone], by simp [C2hData.step, hpop, hdone]⟩)
    | true =>
      have hstate := hdone
      rw [C2hData.data_txn_done, Bool.and_eq_true, decide_eq_true_iff] at hstate
      rw [C2hData.req_state_next, hstate.1] at hbusy
      have hmore : dm.curr_txn.num_bytes < dm.curr_desc_len := by
        by_contra hle
        exact hbusy (by simp [C2hData.data_desc_done, hstate.2, Nat.le_of_not_lt hle])
      exact .inr (.inr ⟨hstate.1, hmore, by simp [C2hData.step, hpop, hdone],
        by simp [C2hData.step, hpop, hdone]⟩)

theorem len_pos (hbyte : ∀ n, HasByte (ins n)) (n : Nat)
    (hbusy : ((circuit p).state ins n).SDE_C2H_DATA.req_state ≠ .REQ_IDLE) :
    0 < ((circuit p).state ins n).SDE_C2H_DATA.curr_desc_len := by
  induction n with
  | zero => exact absurd rfl hbusy
  | succ n ih =>
    change 0 < (C2hData.step p _ _).curr_desc_len
    rcases desc_cases hbusy with ⟨hvalid, hlen, -⟩ | ⟨hidle, hlen, -⟩ | ⟨-, hmore, hlen, -⟩
    · rw [hlen]
      exact Nat.pos_of_ne_zero fun hzero => hbyte n hvalid (BitVec.eq_of_toNat_eq hzero)
    · rw [hlen]
      exact ih hidle
    · omega

/-- A descriptor has as many bursts as bytes at most, or one. -/
theorem txns_left (hpacked : ∀ n, (ins n).axis_buf_valid → Packed (ins n).axis_buf) (n : Nat)
    (hbusy : ((circuit p).state ins n).SDE_C2H_DATA.req_state ≠ .REQ_IDLE) :
    ((circuit p).state ins n).SDE_C2H_DATA.curr_desc_num_txns +
      max 1 ((circuit p).state ins n).SDE_C2H_DATA.curr_desc_len < 2 ^ 32 := by
  induction n with
  | zero => exact absurd rfl hbusy
  | succ n ih =>
    change (C2hData.step p _ _).curr_desc_num_txns + max 1 (C2hData.step p _ _).curr_desc_len < 2 ^ 32
    rcases desc_cases hbusy with ⟨-, hlen, htxns⟩ | ⟨hidle, hlen, htxns⟩ | ⟨hstate, hmore, hlen, htxns⟩
    · have hlt := (C2hData.desc_dm_desc_in (data_in p (ins n) ((circuit p).state ins n))).len.isLt
      rw [hlen, htxns]
      omega
    · rw [hlen, htxns]
      exact ih hidle
    · obtain ⟨bqq, rp, r, -, hphase⟩ := holds_state (p := p) hpacked n
      obtain ⟨q, hserves, hchosen⟩ := hphase.sends hstate
      have hsome := hchosen.some (by omega)
      have hbytes := hserves.held.num_bytes
      have hleft := ih (by rw [hstate]; decide)
      omega

end Runs

end C2h

end AwsFpga.Rtl
