import AwsFpga.Rtl.SdeC2hBeats

/-!
# The flow of a burst (`sde_c2h_data.sv`, stages 0 to 5)

Once the address of a burst is sent, a row is read in every cycle in which the output FIFO has
room. What the stages hold is told by the number of those cycles alone.
-/

open Lib Lib.Axi

namespace AwsFpga.Rtl

namespace C2hPl5

/-- What the stage got from the three cases. -/
def beat (pl5 : C2hPl5) : C2hData.Beat where
  valid := pl5.valid
  num_bytes := pl5.num_bytes
  first := pl5.first
  last := pl5.last
  eop := pl5.eop
  data := pl5.data

end C2hPl5

namespace C2hJob

/-- A row has the bytes of slice `j`. -/
def RowData (q : C2hJob) (j : Nat) (data : BitVec 512) : Prop :=
  ∀ k < PCIM_DATA_WIDTH_BYTES, q.rd ≤ PCIM_DATA_WIDTH_BYTES * j + k →
    PCIM_DATA_WIDTH_BYTES * j + k < q.rd + q.bytes →
      lane 8 data k = q.byte (PCIM_DATA_WIDTH_BYTES * j + k - q.rd)

/-- Stage 3 knows whether the packet ends in the row of slice `j`. Bytes are counted from the start of
the first row. -/
structure Knows (q : C2hJob) (j : Nat) (s : C2hData) : Prop where
  hit : C2hData.stg3_dp_eop_slice_in s →
    q.rd + q.bytes ≤ PCIM_DATA_WIDTH_BYTES * j + C2hData.buf_dm_aux_eop_num_bytes s ∧
      (q.ends ↔ q.rd + q.bytes = PCIM_DATA_WIDTH_BYTES * j + C2hData.buf_dm_aux_eop_num_bytes s)
  miss : C2hData.stg3_dp_eop_slice_in s = false → q.ends →
    PCIM_DATA_WIDTH_BYTES * (j + 1) < q.rd + q.bytes

variable {p : C2hDataParams} {i : C2hDataIn} {s : C2hData} {q : C2hJob} {j : Nat}

/-! ## Stage 3 -/

theorem eop_num_bytes_pos (s : C2hData) :
    0 < C2hData.buf_dm_aux_eop_num_bytes s ∧
      C2hData.buf_dm_aux_eop_num_bytes s ≤ PCIM_DATA_WIDTH_BYTES := by
  have hlt : C2hData.byte_idx (C2hData.buf_dm_aux_eop_byte_addr s) < PCIM_DATA_WIDTH_BYTES :=
    Nat.mod_lt _ (by decide)
  unfold C2hData.buf_dm_aux_eop_num_bytes
  omega

theorem num_bytes_in_eq (hrd : C2hData.rd_idx s = q.rd) (hlt : q.rd < PCIM_DATA_WIDTH_BYTES)
    (hfirst : C2hData.stg3_dp_first_slice_in s = decide (j = 0))
    (hfit : C2hData.stg3_dp_eop_slice_in s → q.rd ≤ PCIM_DATA_WIDTH_BYTES * j +
      C2hData.buf_dm_aux_eop_num_bytes s) :
    C2hData.stg3_dp_num_bytes_in s =
      (if C2hData.stg3_dp_eop_slice_in s then C2hData.buf_dm_aux_eop_num_bytes s
        else PCIM_DATA_WIDTH_BYTES) - (if j = 0 then q.rd else 0) := by
  obtain ⟨-, hle⟩ := eop_num_bytes_pos s
  unfold C2hData.stg3_dp_num_bytes_in
  rw [hfirst, hrd]
  by_cases hj : j = 0
  · rw [decide_eq_true hj, if_pos hj]
    cases heop : C2hData.stg3_dp_eop_slice_in s with
    | true =>
      have hfit' := hfit heop
      rw [hj] at hfit'
      simp only [Bool.and_self, if_true]
      exact sub_bytes_eq (by omega) (by omega)
    | false => simp
  · rw [decide_eq_false hj, if_neg hj]
    cases C2hData.stg3_dp_eop_slice_in s <;> simp

/-- What stage 3 hears of the end of the packet, when slice `j` comes. The end is behind the first byte
of the burst, and behind all of them where there are bytes to come. -/
structure Hears (q : C2hJob) (j : Nat) (s : C2hData) : Prop where
  fit : j = 0 → C2hData.stg3_dp_eop_slice_in s → q.rd < C2hData.buf_dm_aux_eop_num_bytes s
  knows : q.bytes_in j < q.bytes → q.Knows j s

/-- What stage 3 gets and what it knows, when slice `j` comes. -/
structure Comes (q : C2hJob) (j : Nat) (s : C2hData) : Prop extends q.Hears j s where
  rd : C2hData.rd_idx s = q.rd
  first : C2hData.stg3_dp_first_slice_in s = decide (j = 0)
  remain : s.pl3_dp.num_bytes_remain = q.bytes - q.bytes_in j
  row : q.RowData j s.pl2_dp.data

section Stage3

variable {txn : C2hTxn}

theorem Comes.num_bytes_in (h : q.Comes j s) (held : q.Held txn) :
    C2hData.stg3_dp_num_bytes_in s =
      (if C2hData.stg3_dp_eop_slice_in s then C2hData.buf_dm_aux_eop_num_bytes s
        else PCIM_DATA_WIDTH_BYTES) - (if j = 0 then q.rd else 0) := by
  have hlt := held.rd_lt
  apply num_bytes_in_eq h.rd hlt h.first
  intro heop
  by_cases hj : j = 0
  · have hfit := h.fit hj heop
    omega
  · rw [width_val] at *
    omega

/-- As long as there are bytes to come, they end in this row just when those up to the end suffice. -/
theorem Comes.enough (h : q.Comes j s) (held : q.Held txn) :
    q.bytes - q.bytes_in j ≤ C2hData.stg3_dp_num_bytes_in s ↔ q.bytes_in (j + 1) = q.bytes := by
  have hnum := h.num_bytes_in held
  have hlt := held.rd_lt
  obtain ⟨heop_pos, heop_le⟩ := eop_num_bytes_pos s
  by_cases hsome : q.bytes_in j < q.bytes
  · have hknows := h.knows hsome
    rw [hnum]
    cases heop : C2hData.stg3_dp_eop_slice_in s with
    | true =>
      have hhit := (hknows.hit heop).1
      rw [if_pos rfl]
      unfold bytes_in at *
      rw [width_val] at *
      split <;> omega
    | false =>
      rw [if_neg Bool.false_ne_true]
      unfold bytes_in at *
      rw [width_val] at *
      split <;> omega
  · have hle := @bytes_in_le q j
    have hmono := @bytes_in_mono q j
    have hle' := @bytes_in_le q (j + 1)
    omega

theorem Comes.num_bytes (h : q.Comes j s) (held : q.Held txn) :
    C2hData.stg3_dp_num_bytes s = q.bytes_in (j + 1) - q.bytes_in j := by
  have henough := h.enough held
  have hnum := h.num_bytes_in held
  have hle' := @bytes_in_le q (j + 1)
  unfold C2hData.stg3_dp_num_bytes
  rw [min_bytes_2_eq, h.remain]
  by_cases hall : q.bytes_in (j + 1) = q.bytes
  · have hfit := henough.mpr hall
    omega
  · have hshort := mt henough.mp hall
    have hsome : q.bytes_in j < q.bytes := by
      have hmono := @bytes_in_mono q j
      omega
    -- A row without the end is read to its end.
    cases heop : C2hData.stg3_dp_eop_slice_in s with
    | true =>
      have hhit := ((h.knows hsome).hit heop).1
      have heop_le := (eop_num_bytes_pos s).2
      unfold bytes_in at *
      rw [width_val] at *
      omega
    | false =>
      have hlt := held.rd_lt
      rw [heop, if_neg Bool.false_ne_true] at hnum
      unfold bytes_in at *
      rw [width_val] at *
      split at hnum <;> omega

theorem Comes.eop (h : q.Comes j s) (held : q.Held txn) :
    (C2hData.stg3_dp_eop_slice_in s && decide (s.pl3_dp.num_bytes_remain =
      C2hData.stg3_dp_num_bytes_in s)) =
        (q.ends && decide (q.bytes_in (j + 1) = q.bytes ∧ q.bytes_in j < q.bytes)) := by
  have hnum := h.num_bytes_in held
  have hlt := held.rd_lt
  obtain ⟨heop_pos, heop_le⟩ := eop_num_bytes_pos s
  have hle := @bytes_in_le q j
  rw [h.remain]
  by_cases hsome : q.bytes_in j < q.bytes
  · have hknows := h.knows hsome
    cases heop : C2hData.stg3_dp_eop_slice_in s with
    | true =>
      obtain ⟨hfit, hends⟩ := hknows.hit heop
      rw [heop, if_pos rfl] at hnum
      rw [Bool.true_and, Bool.eq_iff_iff, Bool.and_eq_true, decide_eq_true_iff, decide_eq_true_iff,
        hends, hnum]
      unfold bytes_in at *
      rw [width_val] at *
      split <;> omega
    | false =>
      have hmiss := hknows.miss heop
      rw [Bool.false_and]
      cases hends : q.ends with
      | false => rfl
      | true =>
        have hmore := hmiss hends
        have hno : ¬(q.bytes_in (j + 1) = q.bytes ∧ q.bytes_in j < q.bytes) := by
          unfold bytes_in
          rw [width_val] at *
          omega
        rw [decide_eq_false hno, Bool.and_false]
  · -- No byte is left, and a row has at least one.
    have hno : ¬q.bytes - q.bytes_in j = C2hData.stg3_dp_num_bytes_in s := by
      have hfit := h.fit
      rw [hnum]
      cases heop : C2hData.stg3_dp_eop_slice_in s with
      | true =>
        rw [if_pos rfl]
        split
        case isTrue hj =>
          have hrd := hfit hj heop
          omega
        case isFalse => omega
      | false =>
        rw [if_neg Bool.false_ne_true]
        split <;> omega
    have hno' : ¬(q.bytes_in (j + 1) = q.bytes ∧ q.bytes_in j < q.bytes) := fun hc => hsome hc.2
    rw [decide_eq_false hno, decide_eq_false hno', Bool.and_false, Bool.and_false]

theorem Comes.slice (h : q.Comes j s) (held : q.Held txn)
    (hfirst : (C2hData.stg3 i s).first = decide (j = 0)) : q.Slice j (C2hData.stg3 i s) := by
  have hnum : (C2hData.stg3 i s).num_bytes = q.bytes_in (j + 1) - q.bytes_in j := h.num_bytes held
  refine ⟨hnum, hfirst, ?_, h.eop held, ?_⟩
  · change decide (s.pl3_dp.num_bytes_remain ≤ C2hData.stg3_dp_num_bytes_in s) = _
    rw [h.remain, decide_eq_decide]
    exact h.enough held
  · intro k hk
    rw [hnum] at hk
    have hlt := held.rd_lt
    change lane 8 (if C2hData.stg3_dp_first_slice_in s then
      s.pl2_dp.data >>> (8 * C2hData.rd_idx s) else s.pl2_dp.data) k = _
    rw [h.first, h.rd]
    by_cases hj : j = 0
    · have hin : q.bytes_in j = 0 := by
        unfold bytes_in
        rw [hj]
        omega
      have hpos : PCIM_DATA_WIDTH_BYTES * j + (q.rd + k) - q.rd = q.bytes_in j + k := by
        rw [hin, hj]
        omega
      rw [decide_eq_true hj, if_pos rfl, lane_shift_right, h.row (q.rd + k), hpos]
      all_goals
        unfold bytes_in at *
        rw [width_val] at *
        omega
    · have hpos : PCIM_DATA_WIDTH_BYTES * j + k - q.rd = q.bytes_in j + k := by
        unfold bytes_in at *
        rw [width_val] at *
        omega
      rw [decide_eq_false hj, if_neg Bool.false_ne_true, h.row k, hpos]
      all_goals
        unfold bytes_in at *
        rw [width_val] at *
        omega

end Stage3

end C2hJob

namespace C2hData

open C2hBuf (BUF_SIZE_BYTES)

/-! ## The stages, cycle by cycle -/

/-- Nothing is in the stages. -/
structure Empty (s : C2hData) : Prop where
  pl0 : s.pl0_dp.valid = false
  pl1 : s.pl1_dp.valid = false
  rd : s.pl1_dp.rd = false
  pl2 : s.pl2_dp.valid = false
  ovf : s.pl2_dp.ovf = false
  pl3 : s.pl3_dp.valid = false
  pl4 : s.pl4_dp.valid = false
  pl5 : s.pl5_dp.valid = false

/-- The stages have run for `c` cycles on burst `q`, which starts with the byte at `start` of the
stream. -/
structure Flow (p : C2hDataParams) (start : Nat) (q : C2hJob) (c : Nat) (s : C2hData) : Prop where
  pl0 : s.pl0_dp.valid = true
  pl0_addr : s.pl0_dp.byte_rd_addr =
    (start + PCIM_DATA_WIDTH_BYTES * c) % BUF_SIZE_BYTES p.toC2hBufParams
  pl1 : s.pl1_dp.valid = decide (1 ≤ c)
  /-- The row before is on its way, or was put aside in a stall. -/
  rd : s.pl1_dp.rd = (decide (1 ≤ c) && !s.pl2_dp.ovf)
  rd_addr : s.pl1_dp.rd → s.pl1_dp.byte_rd_addr =
    (start + PCIM_DATA_WIDTH_BYTES * (c - 1)) % BUF_SIZE_BYTES p.toC2hBufParams
  ovf : s.pl2_dp.ovf → 1 ≤ c ∧ q.RowData (c - 1) s.pl2_dp.ovf_data ∧ s.pl2_dp.ovf_byte_rd_addr =
    (start + PCIM_DATA_WIDTH_BYTES * (c - 1)) % BUF_SIZE_BYTES p.toC2hBufParams
  pl2 : s.pl2_dp.valid = decide (2 ≤ c)
  pl2_row : 2 ≤ c → q.RowData (c - 2) s.pl2_dp.data ∧ s.pl2_dp.byte_rd_addr =
    (start + PCIM_DATA_WIDTH_BYTES * (c - 2)) % BUF_SIZE_BYTES p.toC2hBufParams
  pl3 : s.pl3_dp.valid = decide (3 ≤ c)
  first : s.pl3_dp.first = decide (c ≤ 3)
  remain : s.pl3_dp.num_bytes_remain = q.bytes - q.bytes_in (c - 2)
  slice : 3 ≤ c → q.Slice (c - 3) s.pl3_dp
  pl4 : s.pl4_dp.valid = (decide (4 ≤ c) && decide (q.dest ≠ q.rd))
  saved : 4 ≤ c → q.rd ≠ q.dest → q.Wanted (c - 4) → q.Saved (c - 4) s.pl4_dp
  pl5 : s.pl5_dp.valid = decide (4 + q.lead ≤ c)
  out : 4 + q.lead ≤ c → q.Out (c - 4 - q.lead) s.pl5_dp.beat
  strb : 4 + q.lead ≤ c → s.pl5_dp.strb = stg5_dp_strb s.curr_txn s.pl5_dp.beat
  more : 4 + q.lead ≤ c → c - 4 - q.lead < q.beats
  num_beats : 0 < q.bytes → 4 + q.lead ≤ c → s.pl5_dp.num_beats + (c - 4 - q.lead) + 1 = q.beats
  pl5_addr : s.pl5_dp.byte_rd_addr =
    (start + q.bytes_out (c - 3 - q.lead)) % BUF_SIZE_BYTES p.toC2hBufParams

variable {p : C2hDataParams} {i : C2hDataIn} {s : C2hData} {q : C2hJob} {start c : Nat}

theorem wrap_eq (addr : Nat) {d : Nat} (hd : d ≤ BUF_SIZE_BYTES p.toC2hBufParams) :
    wrap p (addr % BUF_SIZE_BYTES p.toC2hBufParams + d) =
      (addr + d) % BUF_SIZE_BYTES p.toC2hBufParams := by
  unfold wrap
  rcases Nat.eq_or_lt_of_le hd with rfl | hlt
  · rw [if_pos (Nat.le_add_left _ _), Nat.add_sub_cancel, Nat.add_mod_right]
  · rcases C2hBuf.add_mod_cases addr hlt with ⟨hlt', heq⟩ | ⟨hge, heq⟩
    · rw [if_neg (by omega), heq]
    · rw [if_pos hge]
      omega

theorem width_le_size : PCIM_DATA_WIDTH_BYTES ≤ BUF_SIZE_BYTES p.toC2hBufParams := by
  have hlarge := p.large
  unfold BUF_SIZE_BYTES
  rw [width_val]
  omega

/-! ### With room in the output FIFO -/

section Run

variable (hrun : dp_stall s = false)

include hrun

theorem run_pl0 : (step p i s).pl0_dp = stg0 p i s := by simp [step, hrun]

theorem run_pl1 : (step p i s).pl1_dp.valid = stg1_dp_valid s := by simp [step, hrun]

theorem run_pl2 : (step p i s).pl2_dp.valid = stg2_dp_valid s := by simp [step, hrun]

theorem run_pl3 : (step p i s).pl3_dp = stg3 i s := by simp [step, hrun]

theorem run_pl4 : (step p i s).pl4_dp = stg4 s := by simp [step, hrun]

theorem run_pl5 : (step p i s).pl5_dp = stg5 p i s := by simp [step, hrun]

theorem run_ovf : (step p i s).pl2_dp.ovf = false := by simp [step, stg2_dp_ovf, hrun]

end Run

/-- What the registers of a burst are while it is sent. -/
structure Serves (p : C2hDataParams) (start : Nat) (q : C2hJob) (s : C2hData) : Prop where
  held : q.Held s.curr_txn
  awlen : 0 < q.bytes → s.curr_txn.awlen + 1 = q.beats
  short : q.beats ≤ 256
  base : s.curr_buf_byte_rd_addr = start % BUF_SIZE_BYTES p.toC2hBufParams
  rd : rd_idx s = q.rd

/-- A cycle of `REQ_DATA` behind the one that started the stages, without a stall, and not the last. -/
structure Runs (s : C2hData) : Prop where
  state : s.req_state = .REQ_DATA
  started : s.aw_req_done_q = false
  run : dp_stall s = false
  not_done : data_tx_done s = false

namespace Runs

variable (h : Runs s)

include h

theorem not_txn_done : data_txn_done s = false := by simp [data_txn_done, h.not_done]

theorem not_addr_complete : curr_txn_addr_complete i s = false := by
  simp [curr_txn_addr_complete, aw_req_done, dm_pm_awvalid, h.state, h.started]

theorem dp_run_eq (valid : Bool) : dp_run s valid = valid := by
  simp [dp_run, h.not_txn_done, h.state]

end Runs

namespace Flow

variable (h : Flow p start q c s)

include h

theorem comes (hs : Serves p start q s) (hc : 2 ≤ c) (hears : q.Hears (c - 2) s) : q.Comes (c - 2) s where
  rd := hs.rd
  first := by
    unfold stg3_dp_first_slice_in
    rw [h.pl3, h.first, h.pl2, decide_eq_true hc, Bool.and_true, ← decide_not, ← Bool.decide_and,
      decide_eq_decide]
    omega
  remain := h.remain
  row := (h.pl2_row hc).1
  toHears := hears

theorem next_beat (hs : Serves p start q s) (hr : Runs s) : c + 1 - 4 - q.lead < q.beats := by
  have hbeats := q.beats_pos
  by_cases hc : 4 + q.lead ≤ c
  · have hdone := hr.not_done
    have hvalid : s.pl5_dp.valid = true := h.pl5.trans (decide_eq_true hc)
    have hlast : s.pl5_dp.last = false := by simpa [data_tx_done, hvalid, hr.run] using hdone
    have hbeat := (h.out hc).last_eq hs.held
    rw [show s.pl5_dp.beat.last = false from hlast] at hbeat
    have hno := of_decide_eq_false hbeat.symm
    omega
  · omega

theorem next_out (hs : Serves p start q s) (hr : Runs s) (hc : 4 + q.lead ≤ c + 1) :
    q.Out (c + 1 - 4 - q.lead) (stg5_beat s.curr_txn s.pl3_dp s.pl4_dp) := by
  have hnext := h.next_beat hs hr
  have hslice := h.slice (by omega)
  have hj : c - 3 = c + 1 - 4 - q.lead + q.lead := by omega
  rw [hj] at hslice
  rcases Nat.eq_zero_or_pos q.bytes with hnull | hsome
  · -- The one beat of a burst without a byte.
    rw [C2hJob.beats_null hs.held hnull] at hnext
    have hm : c + 1 - 4 - q.lead = 0 := by omega
    rw [hm, Nat.zero_add] at hslice
    rw [hm]
    refine C2hJob.null_out hs.held hnull hslice fun hcase => ?_
    have hlead : q.lead = 1 := if_pos hcase
    have hsaved := h.saved (by omega) (by omega)
    have hj' : c - 4 = 0 := by omega
    rw [hj'] at hsaved
    exact hsaved (.inr ⟨hnull, rfl, hcase⟩)
  · have hmore := (q.bytes_out_lt hs.held hsome (c + 1 - 4 - q.lead)).mpr hnext
    refine C2hJob.out_of_slice hs.held hslice (fun hne hpos => ?_) hmore
    have hj' : c - 4 = c + 1 - 4 - q.lead + q.lead - 1 := by omega
    have hsaved := h.saved (by omega) hne
    rw [hj', C2hJob.Wanted, C2hJob.gone_eq hne hpos] at hsaved
    exact hsaved (.inl hmore)

theorem next_valid (hs : Serves p start q s) :
    (stg5_beat s.curr_txn s.pl3_dp s.pl4_dp).valid = decide (4 + q.lead ≤ c + 1) := by
  have hpl3 := h.pl3
  have hpl4 := h.pl4
  unfold stg5_beat C2hJob.lead
  rw [hs.held.case1, hs.held.case2]
  rcases Nat.lt_trichotomy q.rd q.dest with hcase | hcase | hcase
  · have hnot : ¬q.dest < q.rd := by omega
    rw [decide_eq_true hcase, if_pos rfl, if_neg hnot]
    change s.pl3_dp.valid = _
    rw [hpl3, decide_eq_decide]
    omega
  · have hnot : ¬q.rd < q.dest := by omega
    have hnot' : ¬q.dest < q.rd := by omega
    rw [decide_eq_false hnot, decide_eq_false hnot', if_neg Bool.false_ne_true,
      if_neg Bool.false_ne_true, if_neg hnot']
    change s.pl3_dp.valid = _
    rw [hpl3, decide_eq_decide]
    omega
  · have hnot : ¬q.rd < q.dest := by omega
    have hne : q.dest ≠ q.rd := by omega
    rw [decide_eq_false hnot, decide_eq_true hcase, if_neg Bool.false_ne_true, if_pos rfl, if_pos hcase]
    change s.pl4_dp.valid = _
    rw [hpl4, decide_eq_true hne, Bool.and_true, decide_eq_decide]
    omega

/-- The row that stage 2 takes: the one that was put aside, or the one that the RAM shows. -/
theorem next_row (hram : s.pl1_dp.rd → q.RowData (c - 1) i.buf_dm_data) (hc : 1 ≤ c) :
    q.RowData (c - 1) (if s.pl2_dp.ovf then s.pl2_dp.ovf_data else i.buf_dm_data) ∧
      (if s.pl2_dp.ovf then s.pl2_dp.ovf_byte_rd_addr else s.pl1_dp.byte_rd_addr) =
        (start + PCIM_DATA_WIDTH_BYTES * (c - 1)) % BUF_SIZE_BYTES p.toC2hBufParams := by
  cases hovf : s.pl2_dp.ovf with
  | true => exact (h.ovf hovf).2
  | false =>
    have hrd : s.pl1_dp.rd = true := by
      rw [h.rd, hovf, decide_eq_true hc]
      rfl
    exact ⟨hram hrd, h.rd_addr hrd⟩

theorem next_remain (hs : Serves p start q s) (hears : 2 ≤ c → q.Hears (c - 2) s) :
    (if s.pl2_dp.valid then s.pl3_dp.num_bytes_remain - stg3_dp_num_bytes s
      else s.pl3_dp.num_bytes_remain) = q.bytes - q.bytes_in (c + 1 - 2) := by
  rw [h.pl2, h.remain]
  by_cases hc : 2 ≤ c
  · have hnum := (h.comes hs hc (hears hc)).num_bytes hs.held
    have hmono := @C2hJob.bytes_in_mono q (c - 2)
    have hle := @C2hJob.bytes_in_le q (c - 2 + 1)
    have hj : c + 1 - 2 = c - 2 + 1 := by omega
    rw [decide_eq_true hc, if_pos rfl, hnum, hj]
    omega
  · have hj : c + 1 - 2 = c - 2 := by omega
    rw [decide_eq_false hc, if_neg Bool.false_ne_true, hj]

theorem next_first : (if s.pl3_dp.valid && s.pl3_dp.first then false else s.pl3_dp.first) =
    decide (c + 1 ≤ 3) := by
  rw [h.pl3, h.first, ← Bool.decide_and]
  by_cases hc : c ≤ 2
  · have hno : ¬(3 ≤ c ∧ c ≤ 3) := by omega
    have hle : c ≤ 3 := by omega
    rw [decide_eq_false hno, if_neg Bool.false_ne_true, decide_eq_true hle]
    symm
    rw [decide_eq_true_iff]
    omega
  · have hno : ¬c + 1 ≤ 3 := by omega
    rw [decide_eq_false hno]
    split
    · rfl
    · rename_i hc'
      rw [decide_eq_true_iff] at hc'
      rw [decide_eq_false_iff_not]
      omega

theorem next_num_beats (hs : Serves p start q s) (hr : Runs s) (hsome : 0 < q.bytes)
    (hc : 4 + q.lead ≤ c + 1) :
    (if (stg5_beat s.curr_txn s.pl3_dp s.pl4_dp).first then s.curr_txn.awlen
      else (s.pl5_dp.num_beats + 255) % 256) + (c + 1 - 4 - q.lead) + 1 = q.beats := by
  have hnext := h.next_beat hs hr
  have hlen := hs.awlen hsome
  have hshort := hs.short
  rw [(h.next_out hs hr hc).first]
  by_cases hm : c + 1 - 4 - q.lead = 0
  · rw [decide_eq_true hm, if_pos rfl]
    omega
  · have hbefore := h.num_beats hsome (by omega)
    rw [decide_eq_false hm, if_neg Bool.false_ne_true]
    omega

theorem next_pl5_addr (hs : Serves p start q s) (hr : Runs s) :
    (if decide (4 + q.lead ≤ c + 1) then
        wrap p (s.pl5_dp.byte_rd_addr + (stg5_beat s.curr_txn s.pl3_dp s.pl4_dp).num_bytes)
      else s.pl5_dp.byte_rd_addr) =
        (start + q.bytes_out (c + 1 - 3 - q.lead)) % BUF_SIZE_BYTES p.toC2hBufParams := by
  rw [h.pl5_addr]
  by_cases hc : 4 + q.lead ≤ c + 1
  · have hnum := (h.next_out hs hr hc).num_bytes
    have hm : c - 3 - q.lead = c + 1 - 4 - q.lead := by omega
    have hm' : c + 1 - 3 - q.lead = c + 1 - 4 - q.lead + 1 := by omega
    have hmono := @C2hJob.bytes_out_mono q (c + 1 - 4 - q.lead)
    have hbeat : (stg5_beat s.curr_txn s.pl3_dp s.pl4_dp).num_bytes ≤
        BUF_SIZE_BYTES p.toC2hBufParams := by
      have hlarge := p.large
      have hdest := hs.held.dest_lt
      rw [hnum]
      unfold C2hJob.bytes_out BUF_SIZE_BYTES
      rw [width_val] at *
      omega
    rw [decide_eq_true hc, if_pos rfl, wrap_eq _ hbeat, hnum, hm, hm', Nat.add_assoc,
      Nat.add_sub_cancel' hmono]
  · have hm : c + 1 - 3 - q.lead = c - 3 - q.lead := by omega
    rw [decide_eq_false hc, if_neg Bool.false_ne_true, hm]

/-! What each stage holds one cycle later. -/

theorem next_pl0 (hr : Runs s) : (step p i s).pl0_dp.valid = true ∧ (step p i s).pl0_dp.byte_rd_addr =
    (start + PCIM_DATA_WIDTH_BYTES * (c + 1)) % BUF_SIZE_BYTES p.toC2hBufParams := by
  have hna := @Runs.not_addr_complete i s hr
  rw [run_pl0 hr.run]
  constructor
  · simp [stg0, hna, hr.not_txn_done, h.pl0]
  · change (if _ then _ else if _ then _ else _) = _
    rw [hr.state, hna, h.pl0_addr, if_neg (by decide), if_neg Bool.false_ne_true,
      wrap_eq _ width_le_size]
    rfl

theorem next_pl1 (hr : Runs s) : (step p i s).pl1_dp.valid = decide (1 ≤ c + 1) ∧
    (step p i s).pl1_dp.rd = (decide (1 ≤ c + 1) && !(step p i s).pl2_dp.ovf) := by
  constructor
  · rw [run_pl1 hr.run, stg1_dp_valid, hr.not_txn_done, if_neg Bool.false_ne_true, h.pl0]
    simp
  · change (dm_buf_rd s && !data_tx_done s) = (_ && !(step p i s).pl2_dp.ovf)
    rw [run_ovf hr.run, hr.not_done, dm_buf_rd, h.pl0, hr.run]
    simp

theorem next_pl2 (hr : Runs s) : (step p i s).pl2_dp.valid = decide (2 ≤ c + 1) := by
  have hovf : s.pl2_dp.ovf → 1 ≤ c := fun hc => (h.ovf hc).1
  rw [run_pl2 hr.run, stg2_dp_valid, hr.not_txn_done, if_neg Bool.false_ne_true, h.pl1,
    Bool.eq_iff_iff, Bool.or_eq_true, decide_eq_true_iff, decide_eq_true_iff]
  constructor
  · rintro (hc | hc)
    · omega
    · exact Nat.succ_le_succ (hovf hc)
  · intro hc
    exact .inl (by omega)

theorem next_pl2_row (hr : Runs s) (hram : s.pl1_dp.rd → q.RowData (c - 1) i.buf_dm_data)
    (hc : 2 ≤ c + 1) : q.RowData (c + 1 - 2) (step p i s).pl2_dp.data ∧
      (step p i s).pl2_dp.byte_rd_addr =
        (start + PCIM_DATA_WIDTH_BYTES * (c + 1 - 2)) % BUF_SIZE_BYTES p.toC2hBufParams := by
  have hrow := h.next_row (i := i) hram (by omega)
  have hdata : (step p i s).pl2_dp.data =
      if s.pl2_dp.ovf then s.pl2_dp.ovf_data else i.buf_dm_data := by simp [step, hr.run]
  have haddr : (step p i s).pl2_dp.byte_rd_addr =
      if s.pl2_dp.ovf then s.pl2_dp.ovf_byte_rd_addr else s.pl1_dp.byte_rd_addr := by
    simp [step, hr.run]
  rw [hdata, haddr]
  exact hrow

theorem next_pl3 (hs : Serves p start q s) (hr : Runs s) (hears : 2 ≤ c → q.Hears (c - 2) s) :
    (stg3 i s).valid = decide (3 ≤ c + 1) ∧ (stg3 i s).first = decide (c + 1 ≤ 3) ∧
      (stg3 i s).num_bytes_remain = q.bytes - q.bytes_in (c + 1 - 2) := by
  have hna := @Runs.not_addr_complete i s hr
  refine ⟨?_, ?_, ?_⟩
  · change dp_run s s.pl2_dp.valid = _
    rw [hr.dp_run_eq, h.pl2, decide_eq_decide]
    omega
  · change (if _ then _ else _) = _
    rw [hna, if_neg Bool.false_ne_true, h.next_first]
  · change (if _ then _ else _) = _
    rw [hna, if_neg Bool.false_ne_true, h.next_remain hs hears]

theorem next_slice (hs : Serves p start q s) (hr : Runs s) (hears : 2 ≤ c → q.Hears (c - 2) s)
    (hc : 3 ≤ c + 1) :
    q.Slice (c + 1 - 3) (stg3 i s) := by
  have hc' : 2 ≤ c := by omega
  have hj : c + 1 - 3 = c - 2 := by omega
  have hzero : decide (c + 1 ≤ 3) = decide (c - 2 = 0) := by
    rw [decide_eq_decide]
    omega
  have hfirst := (h.next_pl3 (i := i) hs hr hears).2.1
  rw [hj]
  exact (h.comes hs hc' (hears hc')).slice hs.held (by rw [hfirst, hzero])

theorem next_pl4 (hs : Serves p start q s) (hr : Runs s) :
    (stg4 s).valid = (decide (4 ≤ c + 1) && decide (q.dest ≠ q.rd)) := by
  change dp_run s (s.pl3_dp.valid && !s.curr_txn.case3_a_eq_r) = _
  rw [hr.dp_run_eq, h.pl3, hs.held.case3, decide_not]
  simp

theorem next_saved (hs : Serves p start q s) (hc : 4 ≤ c + 1) (hne : q.rd ≠ q.dest)
    (hwanted : q.Wanted (c + 1 - 4)) : q.Saved (c + 1 - 4) (stg4 s) := by
  have hj : c + 1 - 4 = c - 3 := by omega
  rw [hj] at hwanted ⊢
  have hsaved := C2hJob.saved_of_wanted hs.held hne (h.slice (by omega)) hwanted
  exact ⟨hsaved.num_bytes, hsaved.first, hsaved.last, hsaved.eop, hsaved.data⟩

theorem next_pl5 (hs : Serves p start q s) (hr : Runs s) :
    (stg5 p i s).valid = decide (4 + q.lead ≤ c + 1) := by
  change dp_run s (stg5_beat s.curr_txn s.pl3_dp s.pl4_dp).valid = _
  rw [hr.dp_run_eq, h.next_valid hs]

theorem step_run (hs : Serves p start q s) (hr : Runs s) (hears : 2 ≤ c → q.Hears (c - 2) s)
    (hram : s.pl1_dp.rd → q.RowData (c - 1) i.buf_dm_data) : Flow p start q (c + 1) (step p i s) := by
  have hpl3 : (step p i s).pl3_dp = stg3 i s := run_pl3 hr.run
  have hpl4 : (step p i s).pl4_dp = stg4 s := run_pl4 hr.run
  have hpl5 : (step p i s).pl5_dp = stg5 p i s := run_pl5 hr.run
  have htxn : (step p i s).curr_txn = s.curr_txn := by simp [step, hr.state]
  have hstg3 := h.next_pl3 (i := i) hs hr hears
  have hvalid := h.next_pl5 (p := p) (i := i) hs hr
  exact
    { pl0 := (h.next_pl0 hr).1
      pl0_addr := (h.next_pl0 hr).2
      pl1 := (h.next_pl1 hr).1
      rd := (h.next_pl1 hr).2
      rd_addr := fun _ => h.pl0_addr
      ovf := by simp [run_ovf hr.run]
      pl2 := h.next_pl2 hr
      pl2_row := h.next_pl2_row hr hram
      pl3 := by rw [hpl3, hstg3.1]
      first := by rw [hpl3, hstg3.2.1]
      remain := by rw [hpl3, hstg3.2.2]
      slice := fun hc => by
        rw [hpl3]
        exact h.next_slice hs hr hears hc
      pl4 := by rw [hpl4, h.next_pl4 hs hr]
      saved := fun hc hne hwanted => by
        rw [hpl4]
        exact h.next_saved hs hc hne hwanted
      pl5 := by rw [hpl5, hvalid]
      out := fun hc => by
        have hout := h.next_out hs hr hc
        rw [hpl5]
        exact ⟨hout.num_bytes, hout.first, hout.last, hout.eop, hout.data⟩
      strb := fun _ => by
        rw [hpl5, htxn]
        rfl
      more := fun _ => h.next_beat hs hr
      num_beats := fun hsome hc => by
        have hbeats := h.next_num_beats hs hr hsome hc
        rw [hpl5]
        change (if (stg5 p i s).valid && _ then _ else if (stg5 p i s).valid then _ else _) + _ + 1 = _
        rw [hvalid, decide_eq_true hc, Bool.true_and, if_pos (c := true = true) rfl]
        exact hbeats
      pl5_addr := by
        rw [hpl5]
        change (if _ then _ else if (stg5 p i s).valid then _ else _) = _
        rw [@Runs.not_addr_complete i s hr, if_neg Bool.false_ne_true, hvalid]
        exact h.next_pl5_addr hs hr }

end Flow

/-! ### Without -/

section Stall

variable (hstall : dp_stall s = true)

include hstall

theorem stall_pl0 : (step p i s).pl0_dp = s.pl0_dp := by simp [step, hstall]

theorem stall_pl3 : (step p i s).pl3_dp = s.pl3_dp := by simp [step, hstall]

theorem stall_pl4 : (step p i s).pl4_dp = s.pl4_dp := by simp [step, hstall]

theorem stall_pl5 : (step p i s).pl5_dp = s.pl5_dp := by simp [step, hstall]

theorem stall_not_done : data_tx_done s = false := by simp [data_tx_done, hstall]

end Stall

/-- In a stall all stays as it is, but a row that comes from the RAM is put aside. -/
theorem Flow.step_stall (h : Flow p start q c s) (hstall : dp_stall s = true)
    (htxn : s.req_state ≠ .REQ_WAIT_DATA)
    (hram : s.pl1_dp.rd → q.RowData (c - 1) i.buf_dm_data) : Flow p start q c (step p i s) := by
  have hdone := stall_not_done hstall
  have hnt : data_txn_done s = false := by simp [data_txn_done, hdone]
  have hpl0 : (step p i s).pl0_dp = s.pl0_dp := stall_pl0 hstall
  have hpl3 : (step p i s).pl3_dp = s.pl3_dp := stall_pl3 hstall
  have hpl4 : (step p i s).pl4_dp = s.pl4_dp := stall_pl4 hstall
  have hpl5 : (step p i s).pl5_dp = s.pl5_dp := stall_pl5 hstall
  have hovf : (step p i s).pl2_dp.ovf = (s.pl1_dp.rd || s.pl2_dp.ovf) := by
    cases hrd : s.pl1_dp.rd <;> simp [step, stg2_dp_ovf, hnt, hstall, hrd]
  have hrd : (step p i s).pl1_dp.rd = false := by simp [step, dm_buf_rd, hstall]
  have hold := h.rd
  exact
    { pl0 := by rw [hpl0, h.pl0]
      pl0_addr := by rw [hpl0, h.pl0_addr]
      pl1 := by
        rw [← h.pl1]
        simp [step, hstall]
      rd := by
        rw [hrd, hovf]
        cases hput : s.pl2_dp.ovf with
        | true => simp
        | false =>
          rw [hput] at hold
          rw [hold]
          cases decide (1 ≤ c) <;> rfl
      rd_addr := by simp [hrd]
      ovf := by
        intro hput
        rw [hovf] at hput
        cases hnow : s.pl1_dp.rd with
        | true =>
          rw [hnow] at hold
          have hc : 1 ≤ c := by
            rw [Eq.comm, Bool.and_eq_true, decide_eq_true_iff] at hold
            exact hold.1
          have hdata : (step p i s).pl2_dp.ovf_data = i.buf_dm_data := by simp [step, hnow, hstall]
          have haddr : (step p i s).pl2_dp.ovf_byte_rd_addr = s.pl1_dp.byte_rd_addr := by
            simp [step, hnow, hstall]
          rw [hdata, haddr]
          exact ⟨hc, hram hnow, h.rd_addr hnow⟩
        | false =>
          rw [hnow, Bool.false_or] at hput
          have hdata : (step p i s).pl2_dp.ovf_data = s.pl2_dp.ovf_data := by simp [step, hnow]
          have haddr : (step p i s).pl2_dp.ovf_byte_rd_addr = s.pl2_dp.ovf_byte_rd_addr := by
            simp [step, hnow]
          rw [hdata, haddr]
          exact h.ovf hput
      pl2 := by
        rw [← h.pl2]
        simp [step, hstall]
      pl2_row := by
        intro hc
        have hdata : (step p i s).pl2_dp.data = s.pl2_dp.data := by simp [step, hstall]
        have haddr : (step p i s).pl2_dp.byte_rd_addr = s.pl2_dp.byte_rd_addr := by
          simp [step, hstall]
        rw [hdata, haddr]
        exact h.pl2_row hc
      pl3 := by rw [hpl3, h.pl3]
      first := by rw [hpl3, h.first]
      remain := by rw [hpl3, h.remain]
      slice := by
        rw [hpl3]
        exact h.slice
      pl4 := by rw [hpl4, h.pl4]
      saved := by
        rw [hpl4]
        exact h.saved
      pl5 := by rw [hpl5, h.pl5]
      out := by
        rw [hpl5]
        exact h.out
      strb := by
        have hkeep : (step p i s).curr_txn = s.curr_txn := by simp [step, htxn]
        rw [hpl5, hkeep]
        exact h.strb
      more := h.more
      num_beats := by
        rw [hpl5]
        exact h.num_beats
      pl5_addr := by rw [hpl5, h.pl5_addr] }

/-! ### Where the stages start and end -/

theorem Empty.no_tx_done (h : Empty s) : data_tx_done s = false := by simp [data_tx_done, h.pl5]

theorem dp_run_false (s : C2hData) : dp_run s false = false := by simp [dp_run]

theorem Empty.no_beat (h : Empty s) (txn : C2hTxn) :
    (stg5_beat txn s.pl3_dp s.pl4_dp).valid = false := by
  unfold stg5_beat
  split
  · exact h.pl3
  · split
    · exact h.pl4
    · exact h.pl3

/-- Nothing but the first row's address enters stages that are empty. -/
theorem Empty.stages (h : Empty s) :
    (step p i s).pl1_dp.valid = false ∧ (step p i s).pl1_dp.rd = false ∧
      (step p i s).pl2_dp.valid = false ∧ (step p i s).pl2_dp.ovf = false ∧
      (step p i s).pl3_dp.valid = false ∧ (step p i s).pl4_dp.valid = false ∧
      (step p i s).pl5_dp.valid = false := by
  have hrd : (step p i s).pl1_dp.rd = false := by simp [step, dm_buf_rd, h.pl0]
  have hovf : (step p i s).pl2_dp.ovf = false := by simp [step, stg2_dp_ovf, h.rd, h.ovf]
  cases hstall : dp_stall s with
  | true =>
    rw [stall_pl3 hstall, stall_pl4 hstall, stall_pl5 hstall]
    refine ⟨?_, hrd, ?_, hovf, h.pl3, h.pl4, h.pl5⟩
    · simp [step, hstall, h.pl1]
    · simp [step, hstall, h.pl2]
  | false =>
    rw [run_pl1 hstall, run_pl2 hstall, run_pl3 hstall, run_pl4 hstall, run_pl5 hstall]
    refine ⟨?_, hrd, ?_, hovf, ?_, ?_, ?_⟩
    · simp [stg1_dp_valid, h.pl0]
    · simp [stg2_dp_valid, h.pl1, h.ovf]
    · change dp_run s s.pl2_dp.valid = _
      rw [h.pl2, dp_run_false]
    · change dp_run s (s.pl3_dp.valid && !s.curr_txn.case3_a_eq_r) = _
      rw [h.pl3, Bool.false_and, dp_run_false]
    · change dp_run s (stg5_beat s.curr_txn s.pl3_dp s.pl4_dp).valid = _
      rw [h.no_beat, dp_run_false]

theorem Empty.step_load (h : Empty s) (hs : Serves p start q s)
    (hload : curr_txn_addr_complete i s) (hrun : dp_stall s = false)
    (hstate : s.req_state = .REQ_ADDR ∨ s.req_state = .REQ_DATA) :
    Flow p start q 0 (step p i s) := by
  obtain ⟨hpl1, hrd, hpl2, hovf, hpl3, hpl4, hpl5⟩ := h.stages (p := p) (i := i)
  have hnone : q.bytes_in 0 = 0 ∧ q.bytes_out 0 = 0 := by
    unfold C2hJob.bytes_in C2hJob.bytes_out
    omega
  have hfirst : (stg3 i s).first = true := by simp [stg3, hload]
  have hlag : ¬4 + q.lead ≤ 0 := by omega
  exact
    { pl0 := by
        rw [run_pl0 hrun]
        simp [stg0, hload]
      pl0_addr := by
        rw [run_pl0 hrun, Nat.mul_zero, Nat.add_zero, ← hs.base]
        rcases hstate with hstate | hstate <;> simp [stg0, hload, hstate]
      pl1 := hpl1
      rd := hrd
      rd_addr := by simp [hrd]
      ovf := by simp [hovf]
      pl2 := hpl2
      pl2_row := fun hc => absurd hc (by omega)
      pl3 := hpl3
      first := by
        rw [run_pl3 hrun, hfirst]
        rfl
      remain := by
        rw [run_pl3 hrun, hnone.1, ← hs.held.num_bytes]
        simp [stg3, hload]
      slice := fun hc => absurd hc (by omega)
      pl4 := hpl4
      saved := fun hc => absurd hc (by omega)
      pl5 := by rw [hpl5, decide_eq_false hlag]
      out := fun hc => absurd hc hlag
      strb := fun hc => absurd hc hlag
      more := fun hc => absurd hc hlag
      num_beats := fun _ hc => absurd hc hlag
      pl5_addr := by
        rw [run_pl5 hrun, Nat.zero_sub, hnone.2, Nat.add_zero, ← hs.base]
        simp [stg5, hload] }

theorem Empty.step_wait (h : Empty s) (hload : curr_txn_addr_complete i s → dp_stall s) :
    Empty (step p i s) := by
  obtain ⟨hpl1, hrd, hpl2, hovf, hpl3, hpl4, hpl5⟩ := h.stages (p := p) (i := i)
  refine ⟨?_, hpl1, hrd, hpl2, hovf, hpl3, hpl4, hpl5⟩
  cases hstall : dp_stall s with
  | true => rw [stall_pl0 hstall, h.pl0]
  | false =>
    rw [hstall] at hload
    have hno : curr_txn_addr_complete i s = false := eq_false_of_ne_true fun hc => nomatch hload hc
    rw [run_pl0 hstall]
    simp [stg0, hno, h.pl0]

theorem empty_of_done (hstate : s.req_state = .REQ_DATA) (hstarted : s.aw_req_done_q = false)
    (hdone : data_tx_done s) : Empty (step p i s) := by
  have hrun : dp_stall s = false := by
    unfold data_tx_done at hdone
    simp only [Bool.and_eq_true, Bool.not_eq_true'] at hdone
    exact hdone.1.2
  have hnt : data_txn_done s = true := by simp [data_txn_done, hstate, hdone]
  have hna : curr_txn_addr_complete i s = false := by
    simp [curr_txn_addr_complete, aw_req_done, dm_pm_awvalid, hstate, hstarted]
  have hflush : ∀ valid, dp_run s valid = false := by
    intro valid
    simp [dp_run, hnt]
  refine ⟨?_, ?_, ?_, ?_, run_ovf hrun, ?_, ?_, ?_⟩
  · rw [run_pl0 hrun]
    simp [stg0, hna, hnt]
  · rw [run_pl1 hrun]
    simp [stg1_dp_valid, hnt]
  · simp [step, hdone]
  · rw [run_pl2 hrun]
    simp [stg2_dp_valid, hnt]
  · rw [run_pl3 hrun]
    exact hflush _
  · rw [run_pl4 hrun]
    exact hflush _
  · rw [run_pl5 hrun]
    exact hflush _

end C2hData

end AwsFpga.Rtl
