import AwsFpga.Rtl.SdeH2cData

/-!
# Runs of the H2C data mover

The requests of the descriptors are granted in order, and their beats come back in
order. So the stream of the beats that have come is the stream of the bytes of the
descriptors, and what is written are its rows.
-/

open Lib Lib.Axi

namespace AwsFpga.Rtl

namespace H2cData

variable (p : H2cDataParams) (i : H2cDataIn) (s : H2cData)

/-! ## What goes in and out -/

def popped : List H2cIfDesc := s.req.popped i

def issued : List PcimRd := s.req.issued i

def accepted : List PcimBeat :=
  fire i.pm_dm_rvalid (dm_pm_rready s) ⟨i.pm_dm_rdata, i.pm_dm_rlast⟩

/-- A row is written as soon as it is in the output FIFO. -/
def written (_ : H2cDataIn) (s : H2cData) : List (BufRow 64) := s.DP_DATA_OUTPUT_FIFO.take 1

/-- The descriptors that are reported as done. -/
def counted (_ : H2cDataIn) (s : H2cData) : List Unit := if dm_desc_cnt_inc s then [()] else []

/-- What leaves stage 3. -/
def sliced (_ : H2cDataIn) (s : H2cData) : List (BitVec 8 × Option (Option (BitVec 64))) :=
  pl3_items s.pl3_dp

/-- The bytes of a beat. -/
def beat_bytes (b : PcimBeat) : List (BitVec 8) := lanes 8 b.data PCIM_BYTES

/-- A row as the buffer gets it: its bytes, and the user bits if a packet ends with it. -/
def seen (r : BufRow 64) : List (BitVec 8 × Option (BitVec 64)) :=
  piece r.data (r.num_bytes_minus1 + 1) (eop_mark r.eop r.user)

/-! ## The requests whose beats have not come -/

def held : List RdTxnTrk := s.RD_TXN_TRK_FIFO.held (RD_TXN_TRK_FIFO_NUM_LOC p)

/-- Of the first of them a part may have come. -/
def outstanding (num_bytes_remain : Nat) : List RdTxnTrk → List (Span (Option (BitVec 64)))
  | [] => []
  | trk :: trks => curr_span trk num_bytes_remain :: trks.map RdTxnTrk.span

def spans (rds : List PcimRd) : List (Span (Option (BitVec 64))) :=
  rds.map fun rd => rd.rd_txn_trk.span

variable {p i s}

@[simp] theorem beat_bytes_length (b : PcimBeat) : (beat_bytes b).length = PCIM_BYTES := by
  simp [beat_bytes]

theorem outstanding_zero (trks : List RdTxnTrk) : outstanding 0 trks = trks.map RdTxnTrk.span := by
  cases trks <;> rfl

theorem outstanding_append {num_bytes_remain : Nat} {trks : List RdTxnTrk}
    (h : num_bytes_remain ≠ 0 → trks ≠ []) (trks' : List RdTxnTrk) :
    outstanding num_bytes_remain (trks ++ trks') =
      outstanding num_bytes_remain trks ++ trks'.map RdTxnTrk.span := by
  cases trks with
  | nil =>
    have hzero : num_bytes_remain = 0 := by
      by_contra hne
      exact h hne rfl
    rw [hzero, List.nil_append, outstanding_zero]
    rfl
  | cons trk trks => simp [outstanding]

/-- The registers of the front end, when `issued` was granted before this cycle, `iq` and `iqq` one
and two cycles before, `beats` have come, and `bq` have left stage 2. -/
structure Front (p : H2cDataParams) (s : H2cData) (issued iq iqq : List PcimRd)
    (beats bq : List PcimBeat) (gone : List RdTxnTrk) : Prop where
  req : s.req.Ok p
  ok : ∀ rd ∈ issued, rd.Ok
  recent : iq <+: issued
  recent_q : iqq <+: iq
  trk : s.RD_TXN_TRK_FIFO.Ok (RD_TXN_TRK_FIFO_NUM_LOC p)
  room : s.req.req_state = .REQ_ADDR → rd_txn_trk_ff_full p s = false
  pl2 : beats = bq ++ shown s.pl2_dp.valid ⟨s.pl2_dp.data, s.pl2_dp.rlast⟩
  /-- Who answers has seen the request. -/
  arrived : beats.map PcimBeat.rlast <+: H2cReq.rlasts iqq
  held : issued.map PcimRd.rd_txn_trk = gone ++ held p s
  delay : s.RD_TXN_TRK_FIFO.FT_FIFO.Delay gone.length iq.length iqq.length
  remain : s.pl3_dp.num_bytes_remain ≠ 0 → ∃ trk, s.RD_TXN_TRK_FIFO.FT_FIFO.ft0 = some trk ∧
    PCIM_BYTES - trk.txn_src_addr + s.pl3_dp.num_bytes_remain ≤ trk.txn_num_bytes
  lasts : H2cReq.rlasts issued = bq.map PcimBeat.rlast ++
    lasts PCIM_BYTES (outstanding s.pl3_dp.num_bytes_remain (H2cData.held p s))

variable {iss iq iqq : List PcimRd} {beats bq : List PcimBeat} {gone : List RdTxnTrk}

theorem spans_eq (rds : List PcimRd) :
    spans rds = (rds.map PcimRd.rd_txn_trk).map RdTxnTrk.span := by
  simp [spans]

theorem rlasts_spans (h : ∀ rd ∈ iss, rd.Ok) :
    H2cReq.rlasts iss = lasts PCIM_BYTES (spans iss) := H2cReq.rlasts_eq h

theorem head_of_valid (h : Front p s iss iq iqq beats bq gone) (hvalid : s.pl2_dp.valid) :
    ∃ trk rest, s.RD_TXN_TRK_FIFO.FT_FIFO.ft0 = some trk ∧ held p s = trk :: rest := by
  cases hft0 : s.RD_TXN_TRK_FIFO.FT_FIFO.ft0 with
  | some trk =>
    obtain ⟨rest, hrest⟩ := RamFifoFt.held_head hft0
    exact ⟨trk, rest, rfl, hrest⟩
  | none =>
    exfalso
    have hstarved := h.delay.starved hft0
    have hremain : s.pl3_dp.num_bytes_remain = 0 := by
      by_contra hne
      obtain ⟨trk, htrk, -⟩ := h.remain hne
      rw [hft0] at htrk
      cases htrk
    have hlasts := h.lasts
    rw [rlasts_spans h.ok, spans_eq, h.held, List.map_append, lasts_append, hremain,
      outstanding_zero] at hlasts
    have hgone := congrArg List.length (List.append_cancel_right hlasts)
    have hold : ∀ rd ∈ iqq, rd.Ok := fun rd hrd =>
      h.ok rd ((h.recent_q.trans h.recent).subset hrd)
    have hpre : iqq.map PcimRd.rd_txn_trk <+: gone := by
      refine List.prefix_of_prefix_length_le ?_ (List.prefix_append gone (held p s)) ?_
      · rw [← h.held]
        exact (h.recent_q.trans h.recent).map _
      · rwa [List.length_map]
    have hanswered : (H2cReq.rlasts iqq).length ≤ (lasts PCIM_BYTES (gone.map RdTxnTrk.span)).length := by
      obtain ⟨more, hmore⟩ := hpre
      rw [rlasts_spans hold, spans_eq, ← hmore, List.map_append, lasts_append, List.length_append]
      omega
    have hcome := h.arrived.length_le
    rw [List.length_map] at hcome hgone
    have hbeats := congrArg List.length h.pl2
    rw [List.length_append, hvalid, shown_true, List.length_singleton] at hbeats
    omega

theorem trk_ok (h : Front p s iss iq iqq beats bq gone) {trk : RdTxnTrk} (htrk : trk ∈ held p s) :
    trk.span.Ok PCIM_BYTES ∧ trk.desc_spb = false ∧ (trk.txn_eop → trk.desc_last_txn) := by
  have hmem : trk ∈ iss.map PcimRd.rd_txn_trk := by
    rw [h.held]
    exact List.mem_append_right _ htrk
  obtain ⟨rd, hrd, rfl⟩ := List.mem_map.mp hmem
  have hok := h.ok rd hrd
  exact ⟨hok.span, hok.spb, hok.eop⟩

theorem curr_span_ok {trk : RdTxnTrk} (hok : trk.span.Ok PCIM_BYTES) (num_bytes_remain : Nat) :
    (curr_span trk num_bytes_remain).Ok PCIM_BYTES := by
  unfold curr_span
  split
  case isTrue => exact hok
  case isFalse hne => exact ⟨Nat.zero_lt_succ 63, Nat.pos_of_ne_zero hne⟩

/-- What stage 3 does with a beat. -/
structure Fed (p : H2cDataParams) (s : H2cData) (trk : RdTxnTrk) (rest : List RdTxnTrk) : Prop where
  ft0 : s.RD_TXN_TRK_FIFO.FT_FIFO.ft0 = some trk
  held : held p s = trk :: rest
  data : rd_txn_trk_ff_pop_data s = trk
  ok : (curr_span trk s.pl3_dp.num_bytes_remain).Ok PCIM_BYTES
  sliced : Sliced trk s.pl2_dp s.pl3_dp (curr_span trk s.pl3_dp.num_bytes_remain)
  last : s.pl2_dp.rlast = (stg3 trk s.pl2_dp s.pl3_dp).last

theorem fed_of_valid (h : Front p s iss iq iqq beats bq gone) (hvalid : s.pl2_dp.valid) :
    ∃ trk rest, Fed p s trk rest := by
  obtain ⟨trk, rest, hft0, hheld⟩ := head_of_valid h hvalid
  obtain ⟨hok, hspb, heop⟩ := trk_ok h (show trk ∈ held p s by rw [hheld]; exact List.mem_cons_self)
  have hremain : s.pl3_dp.num_bytes_remain ≠ 0 →
      PCIM_BYTES - trk.txn_src_addr + s.pl3_dp.num_bytes_remain ≤ trk.txn_num_bytes := by
    intro hne
    obtain ⟨trk', htrk', hle⟩ := h.remain hne
    rw [hft0, Option.some.injEq] at htrk'
    rw [htrk']
    exact hle
  have hcurr := curr_span_ok hok s.pl3_dp.num_bytes_remain
  have hsliced := stg3_sliced hok hspb heop hremain hvalid
  refine ⟨trk, rest, hft0, hheld, by rw [rd_txn_trk_ff_pop_data, RamFifoFt.pop_data, hft0]; rfl, hcurr,
    hsliced, ?_⟩
  -- The beat is the next of the pattern.
  have hlasts := h.lasts
  have harrived := h.arrived
  rw [hheld, outstanding, lasts_cons hcurr] at hlasts
  rw [h.pl2, hvalid, shown_true, List.map_append, List.map_singleton] at harrived
  have hall : bq.map PcimBeat.rlast ++ [s.pl2_dp.rlast] <+: H2cReq.rlasts iss :=
    harrived.trans (H2cReq.rlasts_grows (h.recent_q.trans h.recent))
  rw [hlasts, List.prefix_append_right_inj] at hall
  obtain ⟨more, hmore⟩ := hall
  rw [List.singleton_append, List.cons.injEq] at hmore
  rw [hmore.1, hsliced.last]

theorem issued_trk : (issued i s).map PcimRd.rd_txn_trk =
    if s.req.desc_req_done i then [s.req.rd_txn_trk_ff_push_data] else [] := by
  unfold issued H2cReq.issued fire H2cReq.desc_req_done
  split <;> rfl

theorem not_full_of_push (h : Front p s iss iq iqq beats bq gone) (hpush : s.req.desc_req_done i) :
    s.RD_TXN_TRK_FIFO.fifo_full (RD_TXN_TRK_FIFO_NUM_LOC p) = false := by
  have hroom := h.room (H2cReq.req_done_state hpush).1
  have hot := p.ot_pos
  have hle := Nat.le_pow_clog (by decide : 1 < 2) p.PCIM_NUM_OT_RD
  unfold rd_txn_trk_ff_full RamFifoFt.wmark at hroom
  unfold RamFifoFt.fifo_full
  rw [decide_eq_false_iff_not] at hroom ⊢
  unfold RD_TXN_TRK_FIFO_NUM_LOC at hroom ⊢
  omega

theorem pop_of_fed {trk : RdTxnTrk} {rest : List RdTxnTrk} (hfed : Fed p s trk rest)
    (hstall : dp_stall s = false) (hvalid : s.pl2_dp.valid) :
    rd_txn_done s = (stg3 trk s.pl2_dp s.pl3_dp).last := by
  simp [rd_txn_done, hstall, hvalid, hfed.last]

theorem valid_of_done (h : Front p s iss iq iqq beats bq gone) (hdone : rd_txn_done s) :
    s.RD_TXN_TRK_FIFO.valid := by
  unfold rd_txn_done at hdone
  simp only [Bool.and_eq_true] at hdone
  obtain ⟨trk, rest, hfed⟩ := fed_of_valid h hdone.1.1
  rw [RamFifoFt.valid, FtFifo.ft_valid, hfed.ft0]
  rfl

theorem held_step (h : Front p s iss iq iqq beats bq gone) :
    held p s ++ (issued i s).map PcimRd.rd_txn_trk =
      (if rd_txn_done s then s.RD_TXN_TRK_FIFO.FT_FIFO.ft0.toList else []) ++
        held p (step p i s) := by
  rw [issued_trk]
  exact RamFifoFt.held_step h.trk (not_full_of_push h) (valid_of_done h)

/-- What is outstanding after one cycle. -/
def outstanding_next (p : H2cDataParams) (s : H2cData) : List (Span (Option (BitVec 64))) :=
  match outstanding s.pl3_dp.num_bytes_remain (held p s) with
  | [] => []
  | t :: ts => if s.pl2_dp.valid then after_beat PCIM_BYTES t ts else t :: ts

theorem next_of_idle (hvalid : s.pl2_dp.valid = false) :
    outstanding_next p s = outstanding s.pl3_dp.num_bytes_remain (held p s) := by
  unfold outstanding_next
  rw [hvalid]
  split
  case h_1 heq => rw [heq]
  case h_2 heq => rw [heq, if_neg Bool.false_ne_true]

theorem next_of_fed {trk : RdTxnTrk} {rest : List RdTxnTrk} (hfed : Fed p s trk rest)
    (hvalid : s.pl2_dp.valid) : outstanding_next p s =
      after_beat PCIM_BYTES (curr_span trk s.pl3_dp.num_bytes_remain) (rest.map RdTxnTrk.span) := by
  unfold outstanding_next
  rw [hfed.held, outstanding]
  exact if_pos hvalid

theorem remain_held (h : Front p s iss iq iqq beats bq gone) (hne : s.pl3_dp.num_bytes_remain ≠ 0) :
    held p s ≠ [] := by
  obtain ⟨trk, hft0, -⟩ := h.remain hne
  obtain ⟨rest, hrest⟩ : ∃ rest, held p s = trk :: rest := RamFifoFt.held_head hft0
  rw [hrest]
  exact List.cons_ne_nil _ _

theorem outstanding_step (h : Front p s iss iq iqq beats bq gone) (hstall : dp_stall s = false) :
    outstanding (step p i s).pl3_dp.num_bytes_remain (held p (step p i s)) =
      outstanding_next p s ++ spans (issued i s) := by
  have hheld := held_step (i := i) h
  have hpl3 : (step p i s).pl3_dp = stg3 (rd_txn_trk_ff_pop_data s) s.pl2_dp s.pl3_dp := by
    simp [step, hstall]
  cases hvalid : s.pl2_dp.valid with
  | false =>
    have hdone : rd_txn_done s = false := by simp [rd_txn_done, hvalid]
    have hremain : (step p i s).pl3_dp.num_bytes_remain = s.pl3_dp.num_bytes_remain := by
      rw [hpl3]
      simp [stg3, hvalid]
    rw [hdone, if_neg Bool.false_ne_true, List.nil_append] at hheld
    rw [hremain, ← hheld, outstanding_append (remain_held h), ← spans_eq, next_of_idle hvalid]
  | true =>
    obtain ⟨trk, rest, hfed⟩ := fed_of_valid h hvalid
    have hsliced := hfed.sliced
    have hremain : (step p i s).pl3_dp.num_bytes_remain =
        (stg3 trk s.pl2_dp s.pl3_dp).num_bytes_remain := by
      rw [hpl3, hfed.data]
    rw [pop_of_fed hfed hstall hvalid, hsliced.last, hfed.ft0, hfed.held] at hheld
    rw [hremain, hsliced.remain, next_of_fed hfed hvalid, after_beat]
    by_cases hle : (curr_span trk s.pl3_dp.num_bytes_remain).offset +
        (curr_span trk s.pl3_dp.num_bytes_remain).length ≤ PCIM_BYTES
    · rw [decide_eq_true hle, if_pos rfl] at hheld
      have hrest : rest ++ (issued i s).map PcimRd.rd_txn_trk = held p (step p i s) :=
        (List.cons.injEq _ _ _ _ ▸ hheld).2
      rw [if_pos hle, Nat.sub_eq_zero_of_le hle, outstanding_zero, ← hrest, List.map_append, spans_eq]
    · rw [decide_eq_false hle, if_neg Bool.false_ne_true, List.nil_append, List.cons_append] at hheld
      have hne : (curr_span trk s.pl3_dp.num_bytes_remain).offset +
          (curr_span trk s.pl3_dp.num_bytes_remain).length - PCIM_BYTES ≠ 0 := by omega
      have hmark : (curr_span trk s.pl3_dp.num_bytes_remain).mark = trk.span.mark := by
        unfold curr_span
        split <;> rfl
      rw [if_neg hle, ← hheld, outstanding, curr_span, if_neg hne, Span.rest, hmark, List.map_append,
        spans_eq, List.cons_append]

theorem next_lasts (h : Front p s iss iq iqq beats bq gone) :
    lasts PCIM_BYTES (outstanding s.pl3_dp.num_bytes_remain (held p s)) =
      (shown s.pl2_dp.valid (⟨s.pl2_dp.data, s.pl2_dp.rlast⟩ : PcimBeat)).map PcimBeat.rlast ++
        lasts PCIM_BYTES (outstanding_next p s) := by
  cases hvalid : s.pl2_dp.valid with
  | false => rw [next_of_idle hvalid, shown_false, List.map_nil, List.nil_append]
  | true =>
    obtain ⟨trk, rest, hfed⟩ := fed_of_valid h hvalid
    rw [next_of_fed hfed hvalid, hfed.held, outstanding, lasts_cons hfed.ok, shown_true,
      List.map_singleton, hfed.last, hfed.sliced.last, List.singleton_append]

theorem issued_ok (h : Front p s iss iq iqq beats bq gone) : ∀ rd ∈ issued i s, rd.Ok := by
  intro rd hrd
  unfold issued H2cReq.issued fire at hrd
  split at hrd
  case isFalse => cases hrd
  case isTrue hdone =>
    have hstate := (H2cReq.req_done_state hdone).1
    have hbusy := h.req.busy (by rw [hstate]; decide)
    rw [List.mem_singleton] at hrd
    rw [hrd, (h.req.addr hstate).1]
    exact H2cReq.burst_ok h.req.spb _ hbusy.1

theorem accepted_eq (hstall : dp_stall s = false) :
    accepted i s = shown i.pm_dm_rvalid ⟨i.pm_dm_rdata, i.pm_dm_rlast⟩ := by
  unfold accepted fire shown dm_pm_rready
  rw [hstall, Bool.not_false, Bool.and_true]

theorem room_step (h : Front p s iss iq iqq beats bq gone)
    (hstate : (step p i s).req.req_state = .REQ_ADDR) :
    rd_txn_trk_ff_full p (step p i s) = false := by
  have hle := RamFifoFt.ptr_diff_step s.req.rd_txn_trk_ff_push_data (rd_txn_done s) h.trk
    (not_full_of_push (i := i) h)
  change H2cReq.req_state_next i (rd_txn_trk_ff_full p s) s.req = _ at hstate
  have hsame : rd_txn_trk_ff_full p s = false ∧ s.req.desc_req_done i = false := by
    unfold H2cReq.req_state_next at hstate
    cases hreq : s.req.req_state with
    | REQ_GET_DESC => exact absurd hreq h.req.known
    | REQ_IDLE =>
      simp only [hreq] at hstate
      split at hstate <;> cases hstate
    | REQ_WAIT_DATA =>
      simp only [hreq] at hstate
      split at hstate
      case isTrue havail =>
        rw [Bool.and_eq_true, Bool.not_eq_true'] at havail
        exact ⟨havail.2, H2cReq.no_req_done (by rw [hreq]; decide)⟩
      case isFalse => cases hstate
    | REQ_ADDR =>
      refine ⟨h.room hreq, ?_⟩
      simp only [hreq] at hstate
      cases hdone : s.req.desc_req_done i with
      | false => rfl
      | true =>
        rw [hdone] at hstate
        split at hstate
        · cases hstate
        · simp at hstate
  obtain ⟨hfull, hdone⟩ := hsame
  rw [hdone, Bool.toNat_false, Nat.add_zero] at hle
  unfold rd_txn_trk_ff_full RamFifoFt.wmark at hfull ⊢
  rw [decide_eq_false_iff_not] at hfull ⊢
  change ¬_ < RamFifoFt.ptr_diff _ (RamFifoFt.step _ _ _ _ _)
  rw [hdone] at *
  omega

theorem remain_step (h : Front p s iss iq iqq beats bq gone) (hstall : dp_stall s = false)
    (hne : (step p i s).pl3_dp.num_bytes_remain ≠ 0) :
    ∃ trk, (step p i s).RD_TXN_TRK_FIFO.FT_FIFO.ft0 = some trk ∧
      PCIM_BYTES - trk.txn_src_addr + (step p i s).pl3_dp.num_bytes_remain ≤ trk.txn_num_bytes := by
  have hpl3 : (step p i s).pl3_dp = stg3 (rd_txn_trk_ff_pop_data s) s.pl2_dp s.pl3_dp := by
    simp [step, hstall]
  -- The record stays where it is until its last beat.
  have hstay : ∀ trk, s.RD_TXN_TRK_FIFO.FT_FIFO.ft0 = some trk → rd_txn_done s = false →
      (step p i s).RD_TXN_TRK_FIFO.FT_FIFO.ft0 = some trk := by
    intro trk hft0 hdone
    change (FtFifo.step _ _ (rd_txn_done s) _).ft0 = some trk
    rw [hdone]
    simp [FtFifo.step, FtFifo.nxt_ft0, hft0]
  cases hvalid : s.pl2_dp.valid with
  | false =>
    have hremain : (step p i s).pl3_dp.num_bytes_remain = s.pl3_dp.num_bytes_remain := by
      rw [hpl3]
      simp [stg3, hvalid]
    rw [hremain] at hne ⊢
    obtain ⟨trk, hft0, hle⟩ := h.remain hne
    exact ⟨trk, hstay trk hft0 (by simp [rd_txn_done, hvalid]), hle⟩
  | true =>
    obtain ⟨trk, rest, hfed⟩ := fed_of_valid h hvalid
    have hremain : (step p i s).pl3_dp.num_bytes_remain =
        (stg3 trk s.pl2_dp s.pl3_dp).num_bytes_remain := by
      rw [hpl3, hfed.data]
    rw [hremain, hfed.sliced.remain] at hne ⊢
    have hdone : rd_txn_done s = false := by
      rw [pop_of_fed hfed hstall hvalid, hfed.sliced.last, decide_eq_false_iff_not]
      omega
    refine ⟨trk, hstay trk hfed.ft0 hdone, ?_⟩
    have hoffset : trk.txn_src_addr < PCIM_BYTES :=
      (trk_ok h (show trk ∈ held p s by rw [hfed.held]; exact List.mem_cons_self)).1.offset
    by_cases hzero : s.pl3_dp.num_bytes_remain = 0
    · have hcurr : curr_span trk s.pl3_dp.num_bytes_remain = trk.span := if_pos hzero
      rw [hcurr] at hne ⊢
      change trk.txn_src_addr + trk.txn_num_bytes - PCIM_BYTES ≠ 0 at hne
      change PCIM_BYTES - trk.txn_src_addr + (trk.txn_src_addr + trk.txn_num_bytes - PCIM_BYTES) ≤ _
      omega
    · have hcurr : curr_span trk s.pl3_dp.num_bytes_remain =
          ⟨0, s.pl3_dp.num_bytes_remain, trk.span.mark⟩ := if_neg hzero
      obtain ⟨trk', htrk', hle⟩ := h.remain hzero
      rw [hfed.ft0, Option.some.injEq] at htrk'
      rw [← htrk'] at hle
      rw [hcurr]
      dsimp only
      omega

theorem front_step (h : Front p s iss iq iqq beats bq gone) (hstall : dp_stall s = false)
    (hmay : H2cReq.May i)
    (harrived : (beats ++ accepted i s).map PcimBeat.rlast <+: H2cReq.rlasts iq) :
    Front p (step p i s) (iss ++ issued i s) iss iq (beats ++ accepted i s) beats
      (gone ++ if rd_txn_done s then s.RD_TXN_TRK_FIFO.FT_FIFO.ft0.toList else []) where
  req := H2cReq.ok_step h.req hmay
  ok rd hrd := by
    rcases List.mem_append.mp hrd with hrd | hrd
    · exact h.ok rd hrd
    · exact issued_ok h rd hrd
  recent := List.prefix_append _ _
  recent_q := h.recent
  trk := RamFifoFt.ok_step h.trk (not_full_of_push h) (valid_of_done h)
  room := room_step h
  pl2 := by
    rw [accepted_eq hstall]
    simp [step, hstall]
  arrived := harrived
  held := by
    rw [List.map_append, h.held, List.append_assoc, held_step h, List.append_assoc]
  delay := by
    have hlen := congrArg List.length h.held
    rw [List.length_map, List.length_append] at hlen
    have hpop : (if rd_txn_done s then s.RD_TXN_TRK_FIFO.FT_FIFO.ft0.toList else []).length =
        (rd_txn_done s).toNat := FtFifo.ft0_of_pop (valid_of_done h)
    rw [List.length_append, hpop]
    exact RamFifoFt.delay_step h.trk (valid_of_done h) h.delay hlen.symm
  remain := remain_step h hstall
  lasts := by
    have hok : ∀ rd ∈ issued i s, rd.Ok := issued_ok h
    have happend : H2cReq.rlasts (iss ++ issued i s) =
        H2cReq.rlasts iss ++ H2cReq.rlasts (issued i s) := List.flatMap_append
    rw [happend, h.lasts, rlasts_spans hok, next_lasts h, outstanding_step h hstall, lasts_append]
    conv => rhs; rw [h.pl2]
    simp only [List.map_append, List.append_assoc]

theorem stream_step (h : Front p s iss iq iqq beats bq gone) (hstall : dp_stall s = false)
    (ts : List (Span (Option (BitVec 64)))) (more : List PcimBeat) :
    stream PCIM_BYTES (outstanding s.pl3_dp.num_bytes_remain (held p s) ++ spans (issued i s) ++ ts)
        ((shown s.pl2_dp.valid (⟨s.pl2_dp.data, s.pl2_dp.rlast⟩ : PcimBeat) ++ more).map beat_bytes) =
      pl3_items (step p i s).pl3_dp ++
        stream PCIM_BYTES (outstanding (step p i s).pl3_dp.num_bytes_remain (held p (step p i s)) ++ ts)
          (more.map beat_bytes) := by
  have hpl3 : (step p i s).pl3_dp = stg3 (rd_txn_trk_ff_pop_data s) s.pl2_dp s.pl3_dp := by
    simp [step, hstall]
  rw [outstanding_step h hstall]
  cases hvalid : s.pl2_dp.valid with
  | false =>
    have hitems : pl3_items (step p i s).pl3_dp = [] := by
      rw [hpl3]
      simp [pl3_items, stg3, hvalid]
    rw [hitems, next_of_idle hvalid, shown_false, List.nil_append, List.nil_append]
  | true =>
    obtain ⟨trk, rest, hfed⟩ := fed_of_valid h hvalid
    rw [hpl3, hfed.data, hfed.sliced.items, next_of_fed hfed hvalid, hfed.held, outstanding, shown_true,
      List.singleton_append, List.map_cons, List.cons_append, List.cons_append,
      stream_cons hfed.ok (beat_bytes_length _)]
    congr 1
    unfold after_beat
    split <;> simp

/-! ## The stages behind -/

/-- The bytes without the marks of descriptors. -/
def joined (items : List (BitVec 8 × Option (Option (BitVec 64)))) :
    List (BitVec 8 × Option (BitVec 64)) :=
  items.map fun x => (x.1, x.2.join)

theorem joined_append (items items' : List (BitVec 8 × Option (Option (BitVec 64)))) :
    joined (items ++ items') = joined items ++ joined items' := List.map_append

structure Back (s : H2cData) : Prop where
  pl3 : Pl3Ok s.pl3_dp
  pl4 : Pl4Ok s.pl4_dp
  pl5 : s.pl5_dp.valid → 0 < s.pl5_dp.num_bytes ∧ s.pl5_dp.num_bytes ≤ PCIM_BYTES ∧
    s.pl5_dp.num_bytes_minus1 = s.pl5_dp.num_bytes - 1
  /-- Every cycle takes out what there is. -/
  fifo : s.DP_DATA_OUTPUT_FIFO.length ≤ 1

theorem no_stall (h : Back s) : dp_stall s = false := by
  have hle := h.fifo
  unfold dp_stall watermark DP_DATA_OUTPUT_FIFO_DEPTH
  rw [decide_eq_false_iff_not]
  omega

theorem fifo_step (h : Back s) :
    (step p i s).DP_DATA_OUTPUT_FIFO = shown s.pl5_dp.valid (dp_data_out_ff_push_data s) := by
  have hle := h.fifo
  have hroom : s.DP_DATA_OUTPUT_FIFO.length < DP_DATA_OUTPUT_FIFO_DEPTH ∨
      (if dp_data_out_ff_push s then some (dp_data_out_ff_push_data s) else none) = none := by
    left
    unfold DP_DATA_OUTPUT_FIFO_DEPTH
    omega
  have hpop : dp_data_out_ff_pop s → s.DP_DATA_OUTPUT_FIFO ≠ [] := by
    intro hpop hnil
    simp [dp_data_out_ff_pop, dm_buf_wr, hnil] at hpop
  have hpush : dp_data_out_ff_push s = s.pl5_dp.valid := by
    simp [dp_data_out_ff_push, no_stall h]
  change flop_fifo _ _ _ _ = _
  rw [flop_fifo_eq hroom hpop, hpush]
  have hnil : (if dp_data_out_ff_pop s then s.DP_DATA_OUTPUT_FIFO.tail else s.DP_DATA_OUTPUT_FIFO) =
      [] := by
    unfold dp_data_out_ff_pop dm_buf_wr
    generalize s.DP_DATA_OUTPUT_FIFO = fifo at hle ⊢
    cases fifo with
    | nil => rfl
    | cons row fifo =>
      rw [List.length_cons] at hle
      rw [List.length_eq_zero_iff.mp (by omega : fifo.length = 0)]
      rfl
  rw [hnil]
  cases s.pl5_dp.valid <;> rfl

theorem pl3_step (hf : Front p s iss iq iqq beats bq gone) (hstall : dp_stall s = false) :
    Pl3Ok (step p i s).pl3_dp := by
  have hpl3 : (step p i s).pl3_dp = stg3 (rd_txn_trk_ff_pop_data s) s.pl2_dp s.pl3_dp := by
    simp [step, hstall]
  rw [hpl3]
  cases hvalid : s.pl2_dp.valid with
  | false => exact ⟨by simp [stg3, hvalid], by simp [stg3, hvalid], by simp [stg3, hvalid]⟩
  | true =>
    obtain ⟨trk, rest, hfed⟩ := fed_of_valid hf hvalid
    rw [hfed.data]
    exact ⟨fun _ => hfed.sliced.bytes, by simp [stg3, hvalid], fun _ => hfed.sliced.eop⟩

theorem back_step (h : Back s) (hf : Front p s iss iq iqq beats bq gone) : Back (step p i s) := by
  have hstall := no_stall h
  have hpacked : Packed s.pl3_dp s.pl4_dp (stg4 s.pl3_dp s.pl4_dp) (stg5 s.pl3_dp s.pl4_dp s.pl5_dp) :=
    packed_step h.pl3 h.pl4
  have hpl4 : (step p i s).pl4_dp = stg4 s.pl3_dp s.pl4_dp := by simp [step, hstall]
  have hpl5 : (step p i s).pl5_dp = stg5 s.pl3_dp s.pl4_dp s.pl5_dp := by simp [step, hstall]
  refine ⟨pl3_step hf hstall, hpl4 ▸ hpacked.pl4_ok, ?_, ?_⟩
  · rw [hpl5]
    intro hvalid
    obtain ⟨hpos, hle⟩ := hpacked.bytes hvalid
    refine ⟨hpos, hle, ?_⟩
    have hminus : (stg5 s.pl3_dp s.pl4_dp s.pl5_dp).num_bytes_minus1 =
        ((stg5 s.pl3_dp s.pl4_dp s.pl5_dp).num_bytes + (2 * PCIM_BYTES - 1)) % (2 * PCIM_BYTES) := rfl
    rw [hminus]
    rw [bytes_val] at *
    omega
  · rw [fifo_step h]
    cases s.pl5_dp.valid <;> simp

/-- The rows that are on their way to the buffer. -/
def pending (s : H2cData) : List (List (BitVec 8 × Option (BitVec 64))) :=
  s.DP_DATA_OUTPUT_FIFO.map seen ++ pl5_rows s.pl5_dp

theorem pending_step (h : Back s) :
    pending s ++ pl5_rows (step p i s).pl5_dp = (written i s).map seen ++ pending (step p i s) := by
  have hwritten : written i s = s.DP_DATA_OUTPUT_FIFO := List.take_of_length_le h.fifo
  have hrow : (step p i s).DP_DATA_OUTPUT_FIFO.map seen = pl5_rows s.pl5_dp := by
    rw [fifo_step h, pl5_rows]
    cases hvalid : s.pl5_dp.valid with
    | false => rfl
    | true =>
      obtain ⟨hpos, hle, hminus⟩ := h.pl5 hvalid
      have hbytes : s.pl5_dp.num_bytes_minus1 % PCIM_BYTES + 1 = s.pl5_dp.num_bytes := by
        rw [hminus]
        rw [bytes_val] at *
        omega
      rw [shown_true, List.map_singleton, seen, dp_data_out_ff_push_data]
      dsimp only
      rw [hbytes, if_pos rfl]
  rw [pending, pending, hwritten, hrow, List.append_assoc]

theorem cut_step (h : Back s) (more : List (BitVec 8 × Option (BitVec 64))) :
    cut PCIM_BYTES packet_ends [] (pl4_items s.pl4_dp ++ (joined (pl3_items s.pl3_dp) ++ more)) =
      pl5_rows (step p i s).pl5_dp ++
        cut PCIM_BYTES packet_ends [] (pl4_items (step p i s).pl4_dp ++ more) := by
  have hstall := no_stall h
  have hpacked : Packed s.pl3_dp s.pl4_dp (stg4 s.pl3_dp s.pl4_dp) (stg5 s.pl3_dp s.pl4_dp s.pl5_dp) :=
    packed_step h.pl3 h.pl4
  have hpl4 : (step p i s).pl4_dp = stg4 s.pl3_dp s.pl4_dp := by simp [step, hstall]
  have hpl5 : (step p i s).pl5_dp = stg5 s.pl3_dp s.pl4_dp s.pl5_dp := by simp [step, hstall]
  rw [← List.append_assoc, hpl4, hpl5, joined, hpacked.items, pl5_rows]
  cases hvalid : (stg5 s.pl3_dp s.pl4_dp s.pl5_dp).valid with
  | false => rfl
  | true =>
    obtain ⟨hpos, hle⟩ := hpacked.bytes hvalid
    have hend : (eop_mark (stg5 s.pl3_dp s.pl4_dp s.pl5_dp).eop
        (stg5 s.pl3_dp s.pl4_dp s.pl5_dp).user).isSome ∨
          (stg5 s.pl3_dp s.pl4_dp s.pl5_dp).num_bytes = PCIM_BYTES :=
      (hpacked.full hvalid).imp (fun heop => by rw [eop_mark, if_pos heop]; rfl) id
    obtain ⟨init, a, hpiece, hrow⟩ := piece_isRow hpos hle hend
    rw [if_pos rfl, List.flatten_singleton, List.append_assoc, hpiece, cut_row hrow]
    rfl

/-! ## Whole runs -/

section Runs

variable (p : H2cDataParams) (ins : Nat → H2cDataIn)

/-- The descriptors popped before cycle `n`. -/
def descs_in (n : Nat) : List H2cIfDesc := (circuit p).passed ins popped n

/-- The requests granted before cycle `n`. -/
def reads_out (n : Nat) : List PcimRd := (circuit p).passed ins issued n

/-- The beats accepted before cycle `n`. -/
def beats_in (n : Nat) : List PcimBeat := (circuit p).passed ins accepted n

/-- The rows written before cycle `n`. -/
def rows_out (n : Nat) : List (BufRow 64) := (circuit p).passed ins written n

/-- How often a descriptor was reported before cycle `n`. -/
def descs_done (n : Nat) : Nat := ((circuit p).passed ins counted n).length

/-- What left stage 3 before cycle `n`. -/
def slices_out (n : Nat) : List (BitVec 8 × Option (Option (BitVec 64))) :=
  (circuit p).passed ins sliced n

/-- What the descriptors and the PCIM side keep to. Every request is answered by its beats, in the
order of the requests, and since `sde_pm` has a register in both directions, not before the second
cycle after the request. -/
structure Legal : Prop where
  desc : ∀ n, H2cReq.May (ins n)
  answer : ∀ n, (beats_in p ins (n + 1)).map PcimBeat.rlast <+: H2cReq.rlasts (reads_out p ins (n - 1))

/-- All that is true of the registers in a run. -/
structure Track (n : Nat) (iqq : List PcimRd) (gone : List RdTxnTrk) : Prop where
  front : Front p ((circuit p).state ins n) (reads_out p ins n) (reads_out p ins (n - 1)) iqq
    (beats_in p ins n) (beats_in p ins (n - 1)) gone
  back : Back ((circuit p).state ins n)
  requests : reads_out p ins n ++ ((circuit p).state ins n).req.left p =
    (descs_in p ins n).flatMap (H2cReq.reads p)
  content : ∀ ts (more : List PcimBeat),
    stream PCIM_BYTES (spans (reads_out p ins n) ++ ts)
        ((beats_in p ins (n - 1) ++ more).map beat_bytes) =
      slices_out p ins n ++ pl3_items ((circuit p).state ins n).pl3_dp ++
        stream PCIM_BYTES (outstanding ((circuit p).state ins n).pl3_dp.num_bytes_remain
          (held p ((circuit p).state ins n)) ++ ts) (more.map beat_bytes)
  rows : ∀ more, cut PCIM_BYTES packet_ends [] (joined (slices_out p ins n) ++ more) =
    (rows_out p ins n).map seen ++ pending ((circuit p).state ins n) ++
      cut PCIM_BYTES packet_ends [] (pl4_items ((circuit p).state ins n).pl4_dp ++ more)
  done : descs_done p ins n = (slices_out p ins n).countP fun x => x.2.isSome

variable {p ins}

theorem track_zero : Track p ins 0 [] [] where
  front :=
    { req := H2cReq.ok_start
      ok := by simp [reads_out]
      recent := List.prefix_rfl
      recent_q := List.prefix_rfl
      trk := RamFifoFt.ok_start (Nat.pow_pos (by decide))
      room := by
        intro hstate
        cases hstate
      pl2 := by simp [beats_in, circuit]
      arrived := by simp [beats_in]
      held := by simp [reads_out, held, circuit, RamFifoFt.held_start]
      delay := FtFifo.delay_start
      remain := fun hne => absurd rfl hne
      lasts := by
        simp [reads_out, beats_in, held, circuit, RamFifoFt.held_start, H2cReq.rlasts, lasts,
          outstanding] }
  back :=
    { pl3 := ⟨by simp [circuit], by simp [circuit], by simp [circuit]⟩
      pl4 := ⟨by simp [circuit], by simp [circuit], by simp [circuit]⟩
      pl5 := by simp [circuit]
      fifo := by simp [circuit] }
  requests := by simp [reads_out, descs_in, circuit, H2cReq.left, H2cReq.start]
  content ts more := by
    simp [reads_out, beats_in, slices_out, spans, circuit, pl3_items, held, RamFifoFt.held_start,
      outstanding]
  rows more := by simp [slices_out, rows_out, joined, pending, pl5_rows, pl4_items, circuit]
  done := by simp [descs_done, slices_out]

theorem done_step (h : Back s) :
    (counted i s).length = (pl3_items s.pl3_dp).countP fun x => x.2.isSome := by
  have hdone : dm_desc_cnt_inc s = (s.pl3_dp.valid && (s.pl3_dp.last && s.pl3_dp.desc_last_txn)) := by
    simp [dm_desc_cnt_inc, data_rx_desc_done, no_stall h, Bool.and_assoc]
  rw [counted, hdone, pl3_items]
  cases hvalid : s.pl3_dp.valid with
  | false => rfl
  | true =>
    have hpos := (h.pl3.bytes hvalid).1
    cases s.pl3_dp.last && s.pl3_dp.desc_last_txn with
    | false => simp [piece, marked_of_short, List.countP_map, Function.comp_def]
    | true =>
      simp only [Bool.true_and, if_true]
      rw [piece, marked_count rfl hpos, lanes_length, if_pos (Nat.le_refl _)]
      rfl

theorem track_step (hlegal : Legal p ins) {n : Nat} {iqq : List PcimRd} {gone : List RdTxnTrk}
    (h : Track p ins n iqq gone) : ∃ gone', Track p ins (n + 1) (reads_out p ins (n - 1)) gone' := by
  have hstall := no_stall h.back
  have hfront := front_step h.front hstall (hlegal.desc n) (hlegal.answer n)
  have hpl2 := h.front.pl2
  have hslices : slices_out p ins (n + 1) =
    slices_out p ins n ++ pl3_items ((circuit p).state ins n).pl3_dp := rfl
  have hreads : reads_out p ins (n + 1) =
    reads_out p ins n ++ issued (ins n) ((circuit p).state ins n) := rfl
  refine ⟨_, ⟨hfront, back_step h.back h.front, ?_, ?_, ?_, ?_⟩⟩
  · have hleft := @H2cReq.left_step p (ins n) (rd_txn_trk_ff_full p ((circuit p).state ins n))
      ((circuit p).state ins n).req h.front.req (hlegal.desc n)
    have hdescs : descs_in p ins (n + 1) =
      descs_in p ins n ++ popped (ins n) ((circuit p).state ins n) := rfl
    rw [hreads, hdescs, List.flatMap_append, ← h.requests, List.append_assoc, List.append_assoc]
    exact congrArg _ hleft.symm
  · intro ts more
    have hstream := stream_step (i := ins n) h.front hstall ts more
    have hcontent := h.content (spans (issued (ins n) ((circuit p).state ins n)) ++ ts)
      (shown ((circuit p).state ins n).pl2_dp.valid
        ⟨((circuit p).state ins n).pl2_dp.data, ((circuit p).state ins n).pl2_dp.rlast⟩ ++ more)
    rw [← List.append_assoc (beats_in p ins (n - 1)), ← hpl2, ← List.append_assoc (outstanding _ _),
      hstream] at hcontent
    rw [hslices, hreads, Nat.add_sub_cancel, spans, List.map_append, List.append_assoc (List.map _ _)]
    rw [spans, spans] at hcontent
    rw [hcontent, ← List.append_assoc]
    rfl
  · intro more
    have hrows : rows_out p ins (n + 1) =
      rows_out p ins n ++ written (ins n) ((circuit p).state ins n) := rfl
    have hcut := cut_step (p := p) (i := ins n) h.back more
    have hpending := pending_step (p := p) (i := ins n) h.back
    have hold := h.rows (joined (pl3_items ((circuit p).state ins n).pl3_dp) ++ more)
    rw [hcut, List.append_assoc, ← List.append_assoc (pending _), hpending] at hold
    rw [hslices, joined_append, List.append_assoc, hold, hrows, List.map_append]
    simp only [List.append_assoc]
    rfl
  · have hcount : descs_done p ins (n + 1) =
        descs_done p ins n + (counted (ins n) ((circuit p).state ins n)).length := List.length_append
    rw [hcount, hslices, List.countP_append, h.done, done_step h.back]

theorem track_state (hlegal : Legal p ins) (n : Nat) : ∃ iqq gone, Track p ins n iqq gone := by
  induction n with
  | zero => exact ⟨[], [], track_zero⟩
  | succ n ih =>
    obtain ⟨iqq, gone, h⟩ := ih
    obtain ⟨gone', h'⟩ := track_step hlegal h
    exact ⟨_, gone', h'⟩

/-! ### What is written in the end -/

/-- The bytes of a descriptor, with the user bits at the end of a packet. -/
def packet_span (d : H2cIfDesc) : Span (BitVec 64) where
  offset := d.src_addr.toNat % PCIM_BYTES
  length := d.len.toNat
  mark := eop_mark d.eop d.user

/-- The rows of the packets: the bytes of the descriptors, one after the other, in rows of 64. A row is
shorter only where a packet ends. -/
def packet_rows (ds : List H2cIfDesc) (beats : List PcimBeat) :
    List (List (BitVec 8 × Option (BitVec 64))) :=
  cut PCIM_BYTES packet_ends [] (stream PCIM_BYTES (ds.map packet_span) (beats.map beat_bytes))

/-- What is promised of cycle `n`. -/
structure Delivered (p : H2cDataParams) (ins : Nat → H2cDataIn) (n : Nat) : Prop where
  /-- What is read are the bytes of the descriptors. -/
  reads : reads_out p ins n <+: (descs_in p ins n).flatMap (H2cReq.reads p)
  rows : (rows_out p ins n).map seen <+: packet_rows (descs_in p ins n) (beats_in p ins n)
  /-- No row takes more than five cycles. -/
  no_loss : packet_rows (descs_in p ins n) (beats_in p ins n) <+: (rows_out p ins (n + 5)).map seen
  done : descs_done p ins n ≤
    ended PCIM_BYTES ((descs_in p ins n).map H2cReq.span) (beats_in p ins n).length
  all_done : ended PCIM_BYTES ((descs_in p ins n).map H2cReq.span) (beats_in p ins n).length ≤
    descs_done p ins (n + 2)

theorem joined_stream (ds : List H2cIfDesc) (beats : List (List (BitVec 8))) :
    joined (stream PCIM_BYTES (ds.map H2cReq.span) beats) =
      stream PCIM_BYTES (ds.map packet_span) beats := by
  rw [joined, stream_map Option.join rfl, List.map_map]
  rfl

theorem descs_len (hlegal : Legal p ins) (n : Nat) : ∀ d ∈ descs_in p ins n, d.len ≠ 0 := by
  induction n with
  | zero => simp [descs_in]
  | succ n ih =>
    intro d hd
    rcases List.mem_append.mp hd with hd | hd
    · exact ih d hd
    · unfold popped H2cReq.popped at hd
      split at hd
      case isTrue hpop =>
        rw [List.mem_singleton] at hd
        rw [hd]
        exact (hlegal.desc n (H2cReq.pop_state hpop).2).1
      case isFalse => cases hd

theorem stream_requests (hlegal : Legal p ins) {n : Nat} {iqq : List PcimRd} {gone : List RdTxnTrk}
    (h : Track p ins n iqq gone) (beats : List PcimBeat) :
    stream PCIM_BYTES (spans (reads_out p ins n) ++ spans (((circuit p).state ins n).req.left p))
        (beats.map beat_bytes) =
      stream PCIM_BYTES ((descs_in p ins n).map H2cReq.span) (beats.map beat_bytes) := by
  have hbeats : ∀ b ∈ beats.map beat_bytes, b.length = H2cReq.PCIM_BYTES := by
    intro b hb
    obtain ⟨beat, -, rfl⟩ := List.mem_map.mp hb
    exact beat_bytes_length beat
  rw [spans, spans, ← List.map_append, h.requests]
  exact H2cReq.stream_reads (descs_len hlegal n) hbeats

theorem slices_sound (hlegal : Legal p ins) (n : Nat) : slices_out p ins n <+:
    stream PCIM_BYTES ((descs_in p ins n).map H2cReq.span) ((beats_in p ins n).map beat_bytes) := by
  obtain ⟨iqq, gone, h⟩ := track_state hlegal n
  have hcontent := h.content (spans (((circuit p).state ins n).req.left p))
    (shown ((circuit p).state ins n).pl2_dp.valid
      ⟨((circuit p).state ins n).pl2_dp.data, ((circuit p).state ins n).pl2_dp.rlast⟩)
  rw [← h.front.pl2, stream_requests hlegal h, List.append_assoc] at hcontent
  rw [hcontent]
  exact List.prefix_append _ _

theorem slices_all (hlegal : Legal p ins) (n : Nat) :
    stream PCIM_BYTES ((descs_in p ins n).map H2cReq.span) ((beats_in p ins n).map beat_bytes) <+:
      slices_out p ins (n + 2) := by
  obtain ⟨iqq, gone, h⟩ := track_state hlegal (n + 1)
  have hcontent := h.content (spans (((circuit p).state ins (n + 1)).req.left p)) []
  rw [Nat.add_sub_cancel, List.append_nil, stream_requests hlegal h, List.map_nil, stream_no_beats,
    List.append_nil] at hcontent
  have hslices : slices_out p ins (n + 2) =
    slices_out p ins (n + 1) ++ pl3_items ((circuit p).state ins (n + 1)).pl3_dp := rfl
  have hdescs : descs_in p ins (n + 1) =
    descs_in p ins n ++ popped (ins n) ((circuit p).state ins n) := rfl
  rw [hslices, ← hcontent, hdescs, List.map_append]
  exact stream_grows _ _ _

theorem collected_sent (h : Back s) :
    (cut PCIM_BYTES packet_ends [] (pl4_items s.pl4_dp)).length ≤
      (pl5_rows (step p i s).pl5_dp).length := by
  have hpacked : Packed s.pl3_dp s.pl4_dp (stg4 s.pl3_dp s.pl4_dp) (stg5 s.pl3_dp s.pl4_dp s.pl5_dp) :=
    packed_step h.pl3 h.pl4
  have hpl5 : (step p i s).pl5_dp = stg5 s.pl3_dp s.pl4_dp s.pl5_dp := by simp [step, no_stall h]
  rw [pl4_items]
  cases hvalid : s.pl4_dp.valid with
  | false => exact Nat.zero_le _
  | true =>
    obtain ⟨hpos, hle⟩ := h.pl4.bytes hvalid
    rw [if_pos rfl]
    by_cases hfull : s.pl4_dp.eop ∨ s.pl4_dp.num_bytes = PCIM_BYTES
    · have hend : (eop_mark s.pl4_dp.eop s.pl4_dp.user).isSome ∨ s.pl4_dp.num_bytes = PCIM_BYTES :=
        hfull.imp (fun heop => by rw [eop_mark, if_pos heop]; rfl) id
      obtain ⟨init, a, hpiece, hrow⟩ := @piece_isRow s.pl4_dp.data _ _ hpos hle hend
      have hcut := cut_row hrow []
      rw [List.append_nil] at hcut
      rw [hpiece, hcut, hpl5, pl5_rows, if_pos (hpacked.sent hvalid hfull)]
      exact Nat.le_refl _
    · have heop : s.pl4_dp.eop = false := eq_false_of_ne_true fun he => hfull (.inl he)
      have hlt : s.pl4_dp.num_bytes ≠ PCIM_BYTES := fun heq => hfull (.inr heq)
      have hopen : ∀ x ∈ piece s.pl4_dp.data s.pl4_dp.num_bytes (eop_mark s.pl4_dp.eop s.pl4_dp.user),
          packet_ends x = false := by
        intro x hx
        have hnone : eop_mark false s.pl4_dp.user = none := rfl
        rw [heop, hnone, piece, marked_of_short (.inr rfl)] at hx
        obtain ⟨a, -, rfl⟩ := List.mem_map.mp hx
        rfl
      rw [cut_open hopen (by rw [piece_length]; omega)]
      exact Nat.zero_le _

theorem rows_all (hlegal : Legal p ins) (n : Nat) :
    cut PCIM_BYTES packet_ends [] (joined (slices_out p ins n)) <+: (rows_out p ins (n + 3)).map seen := by
  have hrows : ∀ k, cut PCIM_BYTES packet_ends [] (joined (slices_out p ins k)) =
      (rows_out p ins k).map seen ++ pending ((circuit p).state ins k) ++
        cut PCIM_BYTES packet_ends [] (pl4_items ((circuit p).state ins k).pl4_dp) := by
    intro k
    obtain ⟨iqq, gone, h⟩ := track_state hlegal k
    have hmore := h.rows []
    rwa [List.append_nil, List.append_nil] at hmore
  have hback : ∀ k, Back ((circuit p).state ins k) := fun k => by
    obtain ⟨iqq, gone, h⟩ := track_state hlegal k
    exact h.back
  have hwrite : ∀ k, (rows_out p ins (k + 1)).length =
      (rows_out p ins k).length + ((circuit p).state ins k).DP_DATA_OUTPUT_FIFO.length := by
    intro k
    have happend : (rows_out p ins (k + 1)).length = (rows_out p ins k).length +
        (written (ins k) ((circuit p).state ins k)).length := List.length_append
    rw [happend, written, List.take_of_length_le (hback k).fifo]
  have hpush : ∀ k, ((circuit p).state ins (k + 1)).DP_DATA_OUTPUT_FIFO.length =
      (pl5_rows ((circuit p).state ins k).pl5_dp).length := by
    intro k
    rw [Circuit.state_succ, circuit_step, fifo_step (hback k), pl5_rows]
    cases ((circuit p).state ins k).pl5_dp.valid <;> rfl
  have hlater : slices_out p ins n <+: slices_out p ins (n + 3) :=
    Circuit.passed_prefix (by omega)
  have hcut : cut PCIM_BYTES packet_ends [] (joined (slices_out p ins n)) <+:
      cut PCIM_BYTES packet_ends [] (joined (slices_out p ins (n + 3))) := by
    obtain ⟨more, hmore⟩ := hlater
    rw [← hmore, joined_append]
    exact cut_grows _ _ _
  have hout : (rows_out p ins (n + 3)).map seen <+:
      cut PCIM_BYTES packet_ends [] (joined (slices_out p ins (n + 3))) := by
    rw [hrows (n + 3), List.append_assoc]
    exact List.prefix_append _ _
  refine List.prefix_of_prefix_length_le hcut hout ?_
  have hsent := collected_sent (p := p) (i := ins n) (hback n)
  have hnext : (circuit p).state ins (n + 1) = step p (ins n) ((circuit p).state ins n) := rfl
  rw [hrows n, List.length_append, List.length_append, List.length_map, List.length_map, pending,
    List.length_append, List.length_map]
  rw [← hnext] at hsent
  have hw := hwrite n
  have hw1 : (rows_out p ins (n + 2)).length = _ := hwrite (n + 1)
  have hw2 : (rows_out p ins (n + 3)).length = _ := hwrite (n + 2)
  have hp := hpush n
  have hp1 : ((circuit p).state ins (n + 2)).DP_DATA_OUTPUT_FIFO.length = _ := hpush (n + 1)
  omega

theorem rows_delivered (hlegal : Legal p ins) (n : Nat) : Delivered p ins n := by
  obtain ⟨iqq, gone, h⟩ := track_state hlegal n
  have hpre := slices_sound hlegal n
  have hall := slices_all hlegal n
  have hdone : ∀ k, descs_done p ins k = (slices_out p ins k).countP fun x => x.2.isSome := fun k => by
    obtain ⟨iqq, gone, h⟩ := track_state hlegal k
    exact h.done
  have hended : (stream PCIM_BYTES ((descs_in p ins n).map H2cReq.span)
      ((beats_in p ins n).map beat_bytes)).countP (fun x => x.2.isSome) =
        ended PCIM_BYTES ((descs_in p ins n).map H2cReq.span) (beats_in p ins n).length := by
    rw [stream_ended, List.length_map]
    · intro b hb
      obtain ⟨beat, -, rfl⟩ := List.mem_map.mp hb
      exact beat_bytes_length beat
    · intro t ht
      obtain ⟨d, hd, rfl⟩ := List.mem_map.mp ht
      refine ⟨Nat.mod_lt _ (by decide), Nat.pos_of_ne_zero fun hzero => ?_⟩
      exact descs_len hlegal n d hd (BitVec.eq_of_toNat_eq (by rw [show d.len.toNat = 0 from hzero]; rfl))
    · intro t ht
      obtain ⟨d, -, rfl⟩ := List.mem_map.mp ht
      rfl
  refine ⟨?_, ?_, ?_, ?_, ?_⟩
  · rw [← h.requests]
    exact List.prefix_append _ _
  · have hrows := h.rows []
    rw [List.append_nil, List.append_assoc] at hrows
    obtain ⟨more, hmore⟩ := hpre
    rw [packet_rows, ← joined_stream, ← hmore, joined_append]
    refine List.IsPrefix.trans ?_ (cut_grows _ _ _)
    rw [hrows]
    exact List.prefix_append _ _
  · obtain ⟨more, hmore⟩ := hall
    refine List.IsPrefix.trans ?_ (rows_all hlegal (n + 2))
    rw [packet_rows, ← joined_stream, ← hmore, joined_append]
    exact cut_grows _ _ _
  · rw [hdone, ← hended]
    exact hpre.sublist.countP_le
  · rw [hdone, ← hended]
    exact hall.sublist.countP_le

/-- Who has stopped answering has only to be looked at before. -/
theorem answer_of_stop {m : Nat} (hstop : ∀ k, m < k → (ins k).pm_dm_rvalid = false)
    (hrun : ∀ n < m + 1,
      (beats_in p ins (n + 1)).map PcimBeat.rlast <+: H2cReq.rlasts (reads_out p ins (n - 1))) (n : Nat) :
    (beats_in p ins (n + 1)).map PcimBeat.rlast <+: H2cReq.rlasts (reads_out p ins (n - 1)) := by
  rcases Nat.lt_or_ge n (m + 1) with hlt | hge
  · exact hrun n hlt
  · have hbeats : beats_in p ins (n + 1) = beats_in p ins (m + 1) := by
      refine Circuit.passed_eq_of_nil (fun k hk => ?_) (n + 1) (by omega)
      rw [accepted, hstop k (by omega), fire_not_valid]
    have hreads : reads_out p ins (m - 1) <+: reads_out p ins (n - 1) := Circuit.passed_prefix (by omega)
    rw [hbeats]
    exact (hrun m (by omega)).trans (H2cReq.rlasts_grows hreads)

/-- The sizes of the example design. -/
def default_params : H2cDataParams := ⟨3, 64, 512, 64, by decide⟩

def packet_descs (n : Nat) : CommDesc :=
  if n < 1 then ⟨7, false, false, 200, 0x1FD0, 0, false, true⟩
  else if n < 9 then ⟨9, false, true, 40, 0x3005, 0, false, true⟩
  else ⟨11, false, true, 3, 0x1005, 0, false, true⟩

/-- A packet of two descriptors, the first of them in two bursts, and a packet of three bytes. Requests
wait for `arready` and for room, there is a gap in the longer burst, and the last burst is answered as
soon as it can be. All bytes of a beat are the number of its cycle. -/
def two_packets (n : Nat) : H2cDataIn where
  desc_dm_desc_valid := n < 13
  desc_dm_desc := packet_descs n
  pm_dm_arready := n % 3 = 2
  pm_dm_rvalid := n ∈ [5, 10, 11, 13, 15, 16]
  pm_dm_rdata := of_lanes 64 fun _ => BitVec.ofNat 8 n
  pm_dm_rresp := 0
  pm_dm_rlast := n ∈ [5, 13, 15, 16]
  buf_dm_num_bytes := if n = 4 then 0 else 32768
  buf_dm_aux_full := n < 9

theorem two_packets_legal : Legal default_params two_packets where
  desc n _ := by
    change (packet_descs n).len ≠ 0 ∧ (packet_descs n).spb = false
    unfold packet_descs
    split
    · decide
    · split <;> decide
  answer := by
    refine answer_of_stop (m := 16) (fun k hk => ?_) (by decide +kernel)
    change decide (k ∈ [5, 10, 11, 13, 15, 16]) = false
    rw [decide_eq_false_iff_not]
    simp
    omega

/-- `num` bytes, the last of them with a mark. -/
def bytes_of (num : Nat) (byte : BitVec 8) (mark : Option (BitVec 64)) :
    List (BitVec 8 × Option (BitVec 64)) :=
  marked mark num (List.replicate num byte)

theorem rows_two_packets : (∀ n, Delivered default_params two_packets n) ∧
    (rows_out default_params two_packets 21).map seen =
      [bytes_of 48 5 none ++ bytes_of 16 10 none, bytes_of 48 10 none ++ bytes_of 16 11 none,
        bytes_of 48 11 none ++ bytes_of 16 13 none, bytes_of 8 13 none ++ bytes_of 40 15 (some 9),
        bytes_of 3 16 (some 11)] ∧
    descs_done default_params two_packets 19 = 3 :=
  ⟨fun n => rows_delivered two_packets_legal n, by decide +kernel, by decide +kernel⟩

end Runs

end H2cData

end AwsFpga.Rtl
