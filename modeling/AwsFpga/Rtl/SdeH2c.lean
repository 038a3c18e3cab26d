import AwsFpga.Rtl.SdeH2cBuf
import AwsFpga.Rtl.SdeH2cDataRuns

/-!
# The H2C data mover with its buffer (`sde_h2c.sv`)

The data mover keeps the place in the buffer behind all that it has requested, in
bytes. The buffer counts rows, when they arrive, and reports how many bytes are
free behind that place.
-/

open Lib Lib.Axi

namespace AwsFpga.Rtl

/-- The sizes of the data mover and of its buffer. -/
structure H2cParams extends H2cDataParams where
  buf_pos : 0 < BUF_DEPTH
  aux_pos : 0 < BUF_AUX_DEPTH

def H2cParams.SDE_H2C_BUF (p : H2cParams) : H2cBufParams :=
  ⟨p.BUF_DEPTH, p.BUF_AUX_DEPTH, p.buf_pos, p.aux_pos⟩

structure H2cIn where
  desc_dm_desc_valid : Bool
  desc_dm_desc : CommDesc
  pm_dm_arready : Bool
  pm_dm_rvalid : Bool
  pm_dm_rdata : BitVec 512
  pm_dm_rresp : BitVec 2
  pm_dm_rlast : Bool
  axis_buf_ready : Bool

structure H2c where
  SDE_H2C_DATA : H2cData
  SDE_H2C_BUF : H2cBuf 64

namespace H2c

open H2cReq (PCIM_BYTES)

variable (p : H2cParams) (i : H2cIn) (s : H2c)

/-! ## The wires between them -/

def dm_in : H2cDataIn where
  desc_dm_desc_valid := i.desc_dm_desc_valid
  desc_dm_desc := i.desc_dm_desc
  pm_dm_arready := i.pm_dm_arready
  pm_dm_rvalid := i.pm_dm_rvalid
  pm_dm_rdata := i.pm_dm_rdata
  pm_dm_rresp := i.pm_dm_rresp
  pm_dm_rlast := i.pm_dm_rlast
  buf_dm_num_bytes := H2cBuf.buf_dm_num_bytes p.SDE_H2C_BUF s.SDE_H2C_BUF
    s.SDE_H2C_DATA.req.curr_buf_byte_wr_addr s.SDE_H2C_DATA.req.curr_buf_wr_ptr_msb
  buf_dm_aux_full := H2cBuf.buf_dm_aux_full s.SDE_H2C_BUF
    s.SDE_H2C_DATA.req.curr_buf_aux_wr_ptr s.SDE_H2C_DATA.req.curr_buf_aux_wr_ptr_msb

/-- The row matters only together with `dm_buf_wr`. -/
def buf_in : H2cBufIn 64 where
  dm_buf_wr := H2cData.dm_buf_wr s.SDE_H2C_DATA
  row := s.SDE_H2C_DATA.DP_DATA_OUTPUT_FIFO.headD ⟨0, false, 0, 0⟩
  axis_buf_ready := i.axis_buf_ready

def circuit : Circuit H2cIn H2c where
  reset := ⟨(H2cData.circuit p.toH2cDataParams).reset, (H2cBuf.circuit p.SDE_H2C_BUF).reset⟩
  step i s := ⟨H2cData.step p.toH2cDataParams (dm_in p i s) s.SDE_H2C_DATA,
    H2cBuf.step p.SDE_H2C_BUF (buf_in i s) s.SDE_H2C_BUF⟩

/-! ## Places in the buffer -/

/-- What the data of a request takes, and whether a packet ends with it. -/
def row_span (rd : PcimRd) : Span (BitVec 64) where
  offset := rd.rd_txn_trk.txn_src_addr
  length := rd.rd_txn_trk.txn_num_bytes
  mark := rd.rd_txn_trk.span.mark.join

/-- The place behind the data of some requests, counted in bytes from the first one on. -/
def place (rds : List PcimRd) : Nat := (rds.map row_span).foldl (Span.fill PCIM_BYTES) 0

/-- The rows that the data will take, the last one perhaps in part. -/
def rows_reserved (rds : List PcimRd) : Nat := (place rds + PCIM_BYTES - 1) / PCIM_BYTES

/-- The records of packet ends. -/
def recs_reserved (rds : List PcimRd) : Nat := (rds.map row_span).countP fun t => t.mark.isSome

variable {p i s}

@[simp] theorem place_nil : place [] = 0 := rfl

theorem place_append (rds rds' : List PcimRd) :
    place (rds ++ rds') = (rds'.map row_span).foldl (Span.fill PCIM_BYTES) (place rds) := by
  rw [place, List.map_append, List.foldl_append]
  rfl

theorem recs_append (rds rds' : List PcimRd) :
    recs_reserved (rds ++ rds') = recs_reserved rds + recs_reserved rds' := by
  rw [recs_reserved, List.map_append, List.countP_append]
  rfl

/-! ## The registers of the data mover

They are the place and the number of records, as pointers. -/

structure Predicted (p : H2cParams) (r : H2cReq) (bytes recs : Nat) : Prop where
  byte : (⟨r.curr_buf_byte_wr_addr, r.curr_buf_wr_ptr_msb⟩ : Ptr) =
    .after (H2cReq.BUF_SIZE_BYTES p.toH2cDataParams) bytes
  aux : (⟨r.curr_buf_aux_wr_ptr, r.curr_buf_aux_wr_ptr_msb⟩ : Ptr) = .after p.BUF_AUX_DEPTH recs

variable {r : H2cReq} {bytes recs : Nat}

theorem size_eq : H2cReq.BUF_SIZE_BYTES p.toH2cDataParams = p.BUF_DEPTH * PCIM_BYTES := rfl

theorem size_pos : 0 < H2cReq.BUF_SIZE_BYTES p.toH2cDataParams :=
  Nat.mul_pos p.buf_pos (by decide)

theorem byte_next (h : Predicted p r bytes recs)
    (hroom : r.curr_txn_num_bytes ≤ H2cReq.BUF_SIZE_BYTES p.toH2cDataParams) :
    (⟨H2cReq.curr_buf_byte_wr_addr_next p.toH2cDataParams r,
        H2cReq.curr_buf_byte_wr_addr_msb_next p.toH2cDataParams r⟩ : Ptr) =
      .after (H2cReq.BUF_SIZE_BYTES p.toH2cDataParams) (bytes + r.curr_txn_num_bytes) := by
  have hbyte := h.byte
  have hidx : r.curr_buf_byte_wr_addr = bytes % H2cReq.BUF_SIZE_BYTES p.toH2cDataParams :=
    congrArg Ptr.idx hbyte
  have hmsb : r.curr_buf_wr_ptr_msb =
    (Ptr.after (H2cReq.BUF_SIZE_BYTES p.toH2cDataParams) bytes).msb := congrArg Ptr.msb hbyte
  rw [Ptr.after_add size_pos hroom]
  unfold H2cReq.curr_buf_byte_wr_addr_next H2cReq.curr_buf_byte_wr_addr_msb_next
    H2cReq.curr_buf_byte_wr_addr_plus_txn_num_bytes
  rw [hidx, hmsb]
  split <;> rfl

theorem row_gap {n addr : Nat} (hmod : addr % PCIM_BYTES = n % PCIM_BYTES)
    (halign : addr % PCIM_BYTES ≠ 0) :
    ∃ d ≤ PCIM_BYTES, next_row PCIM_BYTES n = n + d ∧
      addr + d = (addr / PCIM_BYTES + 1) * PCIM_BYTES := by
  refine ⟨PCIM_BYTES - n % PCIM_BYTES, by omega, ?_⟩
  unfold next_row
  rw [show PCIM_BYTES = 64 from rfl] at *
  omega

/-- A burst that ends in the last row did not end a lap, because not more than the buffer is
reserved. -/
theorem no_lap (h : Predicted p r bytes recs) {read : Nat} (hread : read * PCIM_BYTES ≤ bytes)
    (hroom : bytes + r.curr_txn_num_bytes ≤
      read * PCIM_BYTES + H2cReq.BUF_SIZE_BYTES p.toH2cDataParams)
    (halign : H2cReq.curr_buf_byte_wr_addr_next p.toH2cDataParams r % PCIM_BYTES ≠ 0)
    (hlast : H2cReq.curr_buf_byte_wr_addr_next p.toH2cDataParams r / PCIM_BYTES = p.BUF_DEPTH - 1) :
    ¬H2cReq.BUF_SIZE_BYTES p.toH2cDataParams ≤ H2cReq.curr_buf_byte_wr_addr_plus_txn_num_bytes r := by
  intro hle
  have hpos := p.buf_pos
  have hidx : r.curr_buf_byte_wr_addr = bytes % H2cReq.BUF_SIZE_BYTES p.toH2cDataParams :=
    congrArg Ptr.idx h.byte
  have hdiv := Nat.div_add_mod bytes (H2cReq.BUF_SIZE_BYTES p.toH2cDataParams)
  have hmod := Nat.mod_lt bytes (@size_pos p)
  have haddr : H2cReq.curr_buf_byte_wr_addr_next p.toH2cDataParams r =
    H2cReq.curr_buf_byte_wr_addr_plus_txn_num_bytes r -
      H2cReq.BUF_SIZE_BYTES p.toH2cDataParams := if_pos hle
  unfold H2cReq.curr_buf_byte_wr_addr_plus_txn_num_bytes at hle haddr
  rw [hidx] at hle haddr
  generalize bytes / H2cReq.BUF_SIZE_BYTES p.toH2cDataParams = q at hdiv
  rw [size_eq, show p.BUF_DEPTH * PCIM_BYTES * q = p.BUF_DEPTH * q * PCIM_BYTES by
    rw [Nat.mul_right_comm]] at hdiv
  rw [size_eq] at *
  rw [show PCIM_BYTES = 64 from rfl] at *
  omega

/-- A packet ends: the next row begins. The lap may only end once, in the burst or in its last
row. -/
theorem row_next (h : Predicted p r bytes recs) {read : Nat}
    (hread : read * PCIM_BYTES ≤ bytes)
    (hroom : bytes + r.curr_txn_num_bytes ≤
      read * PCIM_BYTES + H2cReq.BUF_SIZE_BYTES p.toH2cDataParams) :
    (⟨H2cReq.curr_buf_ram_wr_addr_next p.toH2cDataParams r * PCIM_BYTES,
        H2cReq.curr_buf_ram_wr_addr_msb_next p.toH2cDataParams r⟩ : Ptr) =
      .after (H2cReq.BUF_SIZE_BYTES p.toH2cDataParams)
        (next_row PCIM_BYTES (bytes + r.curr_txn_num_bytes)) := by
  have hpos := p.buf_pos
  have hnext := byte_next h (by omega)
  have haddr : H2cReq.curr_buf_byte_wr_addr_next p.toH2cDataParams r =
      (bytes + r.curr_txn_num_bytes) % H2cReq.BUF_SIZE_BYTES p.toH2cDataParams := congrArg Ptr.idx hnext
  have hmsb : H2cReq.curr_buf_byte_wr_addr_msb_next p.toH2cDataParams r =
      (Ptr.after (H2cReq.BUF_SIZE_BYTES p.toH2cDataParams) (bytes + r.curr_txn_num_bytes)).msb :=
    congrArg Ptr.msb hnext
  have hlt := Nat.mod_lt (bytes + r.curr_txn_num_bytes) (@size_pos p)
  have hrow : (bytes + r.curr_txn_num_bytes) % H2cReq.BUF_SIZE_BYTES p.toH2cDataParams % PCIM_BYTES =
      (bytes + r.curr_txn_num_bytes) % PCIM_BYTES := by
    rw [size_eq, Nat.mod_mul_left_mod]
  unfold H2cReq.curr_buf_byte_wr_addr_msb_next at hmsb
  unfold H2cReq.curr_buf_ram_wr_addr_next H2cReq.curr_buf_ram_wr_addr_msb_next
  rw [← haddr] at hlt hrow
  by_cases halign : H2cReq.curr_buf_byte_wr_addr_next p.toH2cDataParams r % PCIM_BYTES = 0
  · have hsame : next_row PCIM_BYTES (bytes + r.curr_txn_num_bytes) =
        bytes + r.curr_txn_num_bytes := by
      rw [halign] at hrow
      unfold next_row
      rw [show PCIM_BYTES = 64 from rfl] at *
      omega
    rw [if_pos halign, hsame, ← hnext, Nat.div_mul_cancel (Nat.dvd_of_mod_eq_zero halign)]
    unfold H2cReq.curr_buf_byte_wr_addr_msb_next
    simp [halign]
  · obtain ⟨d, hd, hgap, hsum⟩ := row_gap hrow halign
    have hone : PCIM_BYTES ≤ H2cReq.BUF_SIZE_BYTES p.toH2cDataParams :=
      Nat.le_mul_of_pos_left _ p.buf_pos
    rw [hgap, Ptr.after_add size_pos (by omega), ← haddr, ← hmsb, hsum, if_neg halign]
    by_cases hlast : H2cReq.curr_buf_byte_wr_addr_next p.toH2cDataParams r / PCIM_BYTES =
        p.BUF_DEPTH - 1
    · have hlap := no_lap h hread hroom halign hlast
      have hend : (H2cReq.curr_buf_byte_wr_addr_next p.toH2cDataParams r / PCIM_BYTES + 1) * PCIM_BYTES =
          H2cReq.BUF_SIZE_BYTES p.toH2cDataParams := by
        rw [hlast, size_eq, Nat.sub_add_cancel hpos]
      rw [if_pos hlast, if_pos (Nat.le_of_eq hend.symm), if_neg hlap, if_neg hlap, hend, Nat.sub_self,
        Nat.zero_mul]
      simp [hlast, halign]
    · have hnot : ¬H2cReq.BUF_SIZE_BYTES p.toH2cDataParams ≤
          (H2cReq.curr_buf_byte_wr_addr_next p.toH2cDataParams r / PCIM_BYTES + 1) * PCIM_BYTES := by
        rw [size_eq] at *
        rw [show PCIM_BYTES = 64 from rfl] at *
        omega
      rw [if_neg hlast, if_neg hnot]
      simp [hlast]

variable {di : H2cDataIn} {rd_txn_trk_ff_full : Bool}

theorem issued_spans (hok : r.Ok p.toH2cDataParams) :
    (r.issued di).map row_span = if r.desc_req_done di then
      [⟨r.curr_txn_src_addr.toNat % PCIM_BYTES, r.curr_txn_num_bytes,
        if r.desc_done_w_eop di then some r.curr_desc.user else none⟩] else [] := by
  unfold H2cReq.issued fire
  cases hdone : r.desc_req_done di with
  | false =>
    unfold H2cReq.desc_req_done at hdone
    rw [hdone]
    rfl
  | true =>
    have hle := (H2cReq.burst_bytes_le (p := p.toH2cDataParams) r.curr_desc_src_addr r.curr_desc_len).2
    have hnum := (hok.addr (H2cReq.req_done_state hdone).1).2
    have hmark : r.desc_done_w_eop di =
        (decide (r.curr_desc_len ≤ r.curr_txn_num_bytes) && r.curr_desc.eop) := by
      rw [H2cReq.desc_done_w_eop, H2cReq.desc_done, hdone, Bool.true_and]
    have hmod : r.curr_txn_num_bytes % 2 ^ 13 = r.curr_txn_num_bytes := Nat.mod_eq_of_lt (by omega)
    unfold H2cReq.desc_req_done at hdone
    rw [hdone, if_pos rfl, if_pos rfl, hmark, List.map_singleton, row_span, RdTxnTrk.span,
      H2cReq.rd_txn_trk_ff_push_data]
    dsimp only
    rw [hmod]
    cases decide (r.curr_desc_len ≤ r.curr_txn_num_bytes) <;> cases r.curr_desc.eop <;> rfl

theorem eop_none (hdone : r.desc_req_done di = false) : r.desc_done_w_eop di = false := by
  rw [H2cReq.desc_done_w_eop, H2cReq.desc_done, hdone, Bool.false_and, Bool.false_and]

theorem eop_last (heop : r.desc_done_w_eop di) : r.desc_req_done di ∧
    r.curr_desc_len ≤ r.curr_txn_num_bytes ∧ r.curr_desc.eop := by
  rw [H2cReq.desc_done_w_eop, H2cReq.desc_done, Bool.and_eq_true, Bool.and_eq_true,
    decide_eq_true_eq] at heop
  exact ⟨heop.1.1, heop.1.2, heop.2⟩

theorem place_step (hok : r.Ok p.toH2cDataParams) :
    ((r.issued di).map row_span).foldl (Span.fill PCIM_BYTES) bytes =
      if r.desc_done_w_eop di then next_row PCIM_BYTES (bytes + r.curr_txn_num_bytes)
      else if r.desc_req_done di then bytes + r.curr_txn_num_bytes
      else bytes := by
  rw [issued_spans hok]
  cases hdone : r.desc_req_done di with
  | false =>
    rw [eop_none hdone]
    rfl
  | true => cases r.desc_done_w_eop di <;> rfl

theorem recs_step (hok : r.Ok p.toH2cDataParams) :
    ((r.issued di).map row_span).countP (fun t => t.mark.isSome) = (r.desc_done_w_eop di).toNat := by
  rw [issued_spans hok]
  cases hdone : r.desc_req_done di with
  | false =>
    rw [eop_none hdone]
    rfl
  | true => cases r.desc_done_w_eop di <;> rfl

theorem aux_next (haux : ∃ k, p.BUF_AUX_DEPTH = 2 ^ k) (h : Predicted p r bytes recs) :
    (⟨H2cReq.curr_buf_aux_wr_ptr_next p.toH2cDataParams r,
        H2cReq.curr_buf_aux_wr_ptr_msb_next p.toH2cDataParams r⟩ : Ptr) =
      .after p.BUF_AUX_DEPTH (recs + 1) := by
  obtain ⟨k, hk⟩ := haux
  have hones : H2cReq.aux_wr_ptr_ones p.toH2cDataParams = p.BUF_AUX_DEPTH - 1 := by
    unfold H2cReq.aux_wr_ptr_ones H2cReq.BUF_AUX_RAM_ADDR_WIDTH
    rw [hk, Nat.clog_pow 2 k (by decide)]
  rw [← Ptr.next_after p.aux_pos, ← h.aux, Ptr.next]
  unfold H2cReq.curr_buf_aux_wr_ptr_next H2cReq.curr_buf_aux_wr_ptr_msb_next
  rw [hones]
  split <;> rfl

theorem predicted_step (haux : ∃ k, p.BUF_AUX_DEPTH = 2 ^ k) (hok : r.Ok p.toH2cDataParams)
    (h : Predicted p r bytes recs) {read : Nat} (hread : read * PCIM_BYTES ≤ bytes)
    (hroom : r.req_state = .REQ_ADDR → bytes + r.curr_txn_num_bytes ≤
      read * PCIM_BYTES + H2cReq.BUF_SIZE_BYTES p.toH2cDataParams) :
    Predicted p (r.step p.toH2cDataParams di rd_txn_trk_ff_full)
      (((r.issued di).map row_span).foldl (Span.fill PCIM_BYTES) bytes)
      (recs + ((r.issued di).map row_span).countP fun t => t.mark.isSome) := by
  rw [place_step hok, recs_step hok]
  cases hdone : r.desc_req_done di with
  | false =>
    have heop := eop_none hdone
    rw [heop]
    simp only [Bool.false_eq_true, if_false, Bool.toNat_false, Nat.add_zero]
    constructor
    · simpa [H2cReq.step, hdone, heop] using h.byte
    · simpa [H2cReq.step, heop] using h.aux
  | true =>
    have hfits := hroom (H2cReq.req_done_state hdone).1
    cases heop : r.desc_done_w_eop di with
    | false =>
      simp only [Bool.false_eq_true, if_false, if_true, Bool.toNat_false, Nat.add_zero]
      constructor
      · simpa [H2cReq.step, hdone, heop] using byte_next h (by omega)
      · simpa [H2cReq.step, heop] using h.aux
    | true =>
      simp only [if_true, Bool.toNat_true]
      constructor
      · simpa [H2cReq.step, heop] using row_next h hread hfits
      · simpa [H2cReq.step, heop] using aux_next haux h

/-! ## What the buffer reports -/

variable {buf : H2cBuf 64} {rows read popped recs_in : Nat}

/-- The buffer, after some rows and records were written and read. -/
structure Stored (p : H2cParams) (buf : H2cBuf 64) (rows read recs_in popped : Nat) : Prop where
  inv : H2cBuf.Inv p.SDE_H2C_BUF buf
  buf_ptrs : RamPtrs.At p.BUF_DEPTH buf.buf_ptrs rows read
  aux_ptrs : RamPtrs.At p.BUF_AUX_DEPTH buf.aux_ptrs recs_in popped

theorem num_bytes_eq (hs : Stored p buf rows read recs_in popped) (h : Predicted p r bytes recs)
    (hread : read * PCIM_BYTES ≤ bytes)
    (hroom : bytes ≤ read * PCIM_BYTES + H2cReq.BUF_SIZE_BYTES p.toH2cDataParams) :
    H2cBuf.buf_dm_num_bytes p.SDE_H2C_BUF buf r.curr_buf_byte_wr_addr r.curr_buf_wr_ptr_msb + bytes =
      read * PCIM_BYTES + H2cReq.BUF_SIZE_BYTES p.toH2cDataParams := by
  have hbytes : read * PCIM_BYTES + (bytes - read * PCIM_BYTES) = bytes := by omega
  obtain ⟨hring, hcount⟩ := @Ring.after_ok (H2cReq.BUF_SIZE_BYTES p.toH2cDataParams)
    (bytes - read * PCIM_BYTES) (read * PCIM_BYTES) size_pos (by omega)
  rw [hbytes, ← h.byte, size_eq, Ptr.after_mul (by decide), ← hs.buf_ptrs.rd_ptr] at hring hcount
  have hfree := Ring.count_free hring
  rw [hcount] at hfree
  have hdiff : (buf.buf_ptrs.rd_ptr.idx + p.BUF_DEPTH) * PCIM_BYTES =
      buf.buf_ptrs.rd_ptr.idx * PCIM_BYTES + p.BUF_DEPTH * PCIM_BYTES := Nat.add_mul _ _ _
  have hreport : H2cBuf.buf_dm_num_bytes p.SDE_H2C_BUF buf r.curr_buf_byte_wr_addr
      r.curr_buf_wr_ptr_msb + (bytes - read * PCIM_BYTES) = p.BUF_DEPTH * PCIM_BYTES := by
    rw [← hdiff] at hfree
    exact hfree
  rw [size_eq]
  omega

theorem aux_full_eq (hs : Stored p buf rows read recs_in popped) (h : Predicted p r bytes recs)
    (hpop : popped ≤ recs) (hroom : recs ≤ popped + p.BUF_AUX_DEPTH) :
    H2cBuf.buf_dm_aux_full buf r.curr_buf_aux_wr_ptr r.curr_buf_aux_wr_ptr_msb =
      decide (recs = popped + p.BUF_AUX_DEPTH) := by
  obtain ⟨hring, hcount⟩ := @Ring.after_ok p.BUF_AUX_DEPTH (recs - popped) popped p.aux_pos (by omega)
  rw [Nat.add_sub_cancel' hpop, ← h.aux, ← hs.aux_ptrs.rd_ptr] at hring hcount
  have hfull := Ring.count_eq_depth hring
  rw [hcount] at hfull
  have hiff : recs = popped + p.BUF_AUX_DEPTH ↔ recs - popped = p.BUF_AUX_DEPTH := by omega
  unfold H2cBuf.buf_dm_aux_full
  rw [decide_eq_decide.mpr (hiff.trans hfull), Bool.decide_and, Bool.and_comm]

/-! ## What is reserved -/

structure Room (p : H2cParams) (s : H2c) (bytes recs rows read recs_in popped : Nat) : Prop where
  predicted : Predicted p s.SDE_H2C_DATA.req bytes recs
  stored : Stored p s.SDE_H2C_BUF rows read recs_in popped
  bytes_le : bytes ≤ read * PCIM_BYTES + H2cReq.BUF_SIZE_BYTES p.toH2cDataParams
  recs_le : recs ≤ popped + p.BUF_AUX_DEPTH
  /-- A burst that waits for its grant has its place. -/
  addr_bytes : s.SDE_H2C_DATA.req.req_state = .REQ_ADDR →
    bytes + s.SDE_H2C_DATA.req.curr_txn_num_bytes ≤
      read * PCIM_BYTES + H2cReq.BUF_SIZE_BYTES p.toH2cDataParams
  addr_recs : s.SDE_H2C_DATA.req.req_state = .REQ_ADDR → s.SDE_H2C_DATA.req.curr_desc.eop →
    s.SDE_H2C_DATA.req.curr_desc_len ≤ s.SDE_H2C_DATA.req.curr_txn_num_bytes →
      recs + 1 ≤ popped + p.BUF_AUX_DEPTH

/-- The rows that were written, and the one that is written now, are of what is reserved. -/
structure Behind (i : H2cIn) (s : H2c) (bytes recs rows recs_in : Nat) : Prop where
  rows_le : (rows + (buf_in i s).dm_buf_wr.toNat) * PCIM_BYTES ≤ bytes
  recs_le : recs_in + (H2cBuf.aux_ram_wr (buf_in i s)).toNat ≤ recs

theorem may_of_room (h : Room p s bytes recs rows read recs_in popped)
    (hb : Behind i s bytes recs rows recs_in) : H2cBuf.May (buf_in i s) s.SDE_H2C_BUF := by
  have hbytes := h.bytes_le
  have hrecs := h.recs_le
  have hrows := hb.rows_le
  have hrecs_in := hb.recs_le
  have hbuf := RamPtrs.count_at p.buf_pos h.stored.buf_ptrs
  have haux := RamPtrs.count_at p.aux_pos h.stored.aux_ptrs
  constructor
  · intro hwr
    have hfull : s.SDE_H2C_BUF.buf_ptrs.full =
        decide (s.SDE_H2C_BUF.buf_ptrs.count p.BUF_DEPTH = p.BUF_DEPTH) := h.stored.inv.buf_ptrs.full
    have hpos := p.buf_pos
    rw [hwr, Bool.toNat_true] at hrows
    rw [hfull, hbuf, decide_eq_false_iff_not]
    rw [size_eq] at hbytes
    rw [show PCIM_BYTES = 64 from rfl] at *
    omega
  · intro hwr
    have hfull : s.SDE_H2C_BUF.aux_ptrs.full =
        decide (s.SDE_H2C_BUF.aux_ptrs.count p.BUF_AUX_DEPTH = p.BUF_AUX_DEPTH) :=
      h.stored.inv.aux_ptrs.full
    have hpos := p.aux_pos
    rw [hwr, Bool.toNat_true] at hrecs_in
    rw [hfull, haux, decide_eq_false_iff_not]
    omega

theorem stored_step (h : Room p s bytes recs rows read recs_in popped)
    (hb : Behind i s bytes recs rows recs_in) :
    Stored p (H2cBuf.step p.SDE_H2C_BUF (buf_in i s) s.SDE_H2C_BUF)
      (rows + (buf_in i s).dm_buf_wr.toNat) (read + (H2cBuf.buf_rd_en s.SDE_H2C_BUF).toNat)
      (recs_in + (H2cBuf.aux_ram_wr (buf_in i s)).toNat)
      (popped + (H2cBuf.aux_ram_pop s.SDE_H2C_BUF).toNat) := by
  have hmay := may_of_room h hb
  have hinv := h.stored.inv
  exact ⟨H2cBuf.inv_step hinv hmay,
    RamPtrs.at_step hinv.buf_ptrs h.stored.buf_ptrs p.buf_pos hmay.buf H2cBuf.not_empty_of_rd,
    RamPtrs.at_step hinv.aux_ptrs h.stored.aux_ptrs p.aux_pos hmay.aux
      (RamFifo.not_empty_of_pop (f := s.SDE_H2C_BUF.AUX_FT_FIFO))⟩

theorem addr_of_wait (hok : s.SDE_H2C_DATA.req.Ok p.toH2cDataParams)
    (h : Room p s bytes recs rows read recs_in popped) (hb : Behind i s bytes recs rows recs_in)
    (hstate : s.SDE_H2C_DATA.req.req_state = .REQ_WAIT_DATA)
    (havail : H2cReq.curr_txn_space_avail (dm_in p i s) s.SDE_H2C_DATA.req) :
    bytes + H2cReq.curr_txn_min_num_bytes s.SDE_H2C_DATA.req ≤
        read * PCIM_BYTES + H2cReq.BUF_SIZE_BYTES p.toH2cDataParams ∧
      (s.SDE_H2C_DATA.req.curr_desc.eop →
        s.SDE_H2C_DATA.req.curr_desc_len ≤ H2cReq.curr_txn_min_num_bytes s.SDE_H2C_DATA.req →
          recs + 1 ≤ popped + p.BUF_AUX_DEPTH) := by
  have hread := h.stored.buf_ptrs.read_le
  have hpop := h.stored.aux_ptrs.read_le
  have hrows := hb.rows_le
  have hrecs_in := hb.recs_le
  have hbelow : read * PCIM_BYTES ≤ bytes :=
    (Nat.mul_le_mul_right _ (by omega)).trans hrows
  have hnum := num_bytes_eq h.stored h.predicted hbelow h.bytes_le
  have hfull := aux_full_eq h.stored h.predicted (by omega) h.recs_le
  rw [H2cReq.curr_txn_space_avail, Bool.and_eq_true] at havail
  obtain ⟨haux, hbuf⟩ := havail
  constructor
  · unfold H2cReq.curr_txn_buf_space_avail dm_in at hbuf
    rw [decide_eq_true_eq] at hbuf
    dsimp only at hbuf
    omega
  · intro heop hlast
    have hbusy : s.SDE_H2C_DATA.req.req_state ≠ .REQ_IDLE := by rw [hstate]; decide
    obtain ⟨hpos, hlt, hmax⟩ := hok.busy hbusy
    have hle := H2cReq.max_le p.toH2cDataParams
    have hbytes := H2cReq.min_num_bytes_eq hok.steady hbusy
    have htxn : H2cReq.curr_txn_last s.SDE_H2C_DATA.req = true := by
      rw [hbytes, H2cReq.burst_bytes] at hlast
      rw [H2cReq.curr_txn_last, H2cReq.curr_txn_max_bytes, hmax, Bool.and_eq_true, decide_eq_true_eq,
        decide_eq_true_eq]
      omega
    unfold H2cReq.curr_txn_aux_space_avail at haux
    rw [heop, htxn, Bool.and_self, if_pos rfl, Bool.not_eq_true'] at haux
    have hnot : ¬recs = popped + p.BUF_AUX_DEPTH := by
      rw [← decide_eq_false_iff_not, ← hfull]
      exact haux
    have hroom := h.recs_le
    omega

theorem addr_hold (hstate : s.SDE_H2C_DATA.req.req_state = .REQ_ADDR)
    (hdone : s.SDE_H2C_DATA.req.desc_req_done di = false) :
    (s.SDE_H2C_DATA.req.step p.toH2cDataParams di rd_txn_trk_ff_full).curr_txn_num_bytes =
        s.SDE_H2C_DATA.req.curr_txn_num_bytes ∧
      (s.SDE_H2C_DATA.req.step p.toH2cDataParams di rd_txn_trk_ff_full).curr_desc =
        s.SDE_H2C_DATA.req.curr_desc ∧
      (s.SDE_H2C_DATA.req.step p.toH2cDataParams di rd_txn_trk_ff_full).curr_desc_len =
        s.SDE_H2C_DATA.req.curr_desc_len := by
  have hpop : s.SDE_H2C_DATA.req.dm_desc_pop di = false :=
    H2cReq.no_pop (by rw [hstate]; decide)
  obtain ⟨hdesc, -, hlen, -⟩ := @H2cReq.step_hold p.toH2cDataParams di rd_txn_trk_ff_full _ hpop hdone
  exact ⟨by simp [H2cReq.step, H2cReq.txn_load, hstate], hdesc, hlen⟩

theorem addr_step (hok : s.SDE_H2C_DATA.req.Ok p.toH2cDataParams)
    (h : Room p s bytes recs rows read recs_in popped) (hb : Behind i s bytes recs rows recs_in)
    (hnext : ((circuit p).step i s).SDE_H2C_DATA.req.req_state = .REQ_ADDR) :
    s.SDE_H2C_DATA.req.desc_req_done (dm_in p i s) = false ∧
      bytes + ((circuit p).step i s).SDE_H2C_DATA.req.curr_txn_num_bytes ≤
        read * PCIM_BYTES + H2cReq.BUF_SIZE_BYTES p.toH2cDataParams ∧
      (((circuit p).step i s).SDE_H2C_DATA.req.curr_desc.eop →
        ((circuit p).step i s).SDE_H2C_DATA.req.curr_desc_len ≤
          ((circuit p).step i s).SDE_H2C_DATA.req.curr_txn_num_bytes →
            recs + 1 ≤ popped + p.BUF_AUX_DEPTH) := by
  have hstep : ((circuit p).step i s).SDE_H2C_DATA.req = s.SDE_H2C_DATA.req.step p.toH2cDataParams
    (dm_in p i s) (H2cData.rd_txn_trk_ff_full p.toH2cDataParams s.SDE_H2C_DATA) := rfl
  rw [hstep] at hnext ⊢
  have hreq : H2cReq.req_state_next (dm_in p i s)
    (H2cData.rd_txn_trk_ff_full p.toH2cDataParams s.SDE_H2C_DATA) s.SDE_H2C_DATA.req = .REQ_ADDR := hnext
  unfold H2cReq.req_state_next at hreq
  cases hstate : s.SDE_H2C_DATA.req.req_state with
  | REQ_GET_DESC => exact absurd hstate hok.known
  | REQ_IDLE =>
    simp only [hstate] at hreq
    split at hreq <;> cases hreq
  | REQ_WAIT_DATA =>
    simp only [hstate] at hreq
    split at hreq
    case isFalse => cases hreq
    case isTrue havail =>
      rw [Bool.and_eq_true, Bool.not_eq_true'] at havail
      have hdone : s.SDE_H2C_DATA.req.desc_req_done (dm_in p i s) = false :=
        H2cReq.no_req_done (by rw [hstate]; decide)
      obtain ⟨hdesc, -, hlen, -⟩ := @H2cReq.step_hold p.toH2cDataParams (dm_in p i s)
        (H2cData.rd_txn_trk_ff_full p.toH2cDataParams s.SDE_H2C_DATA) _
        (H2cReq.no_pop (by rw [hstate]; decide)) hdone
      have hload : (s.SDE_H2C_DATA.req.step p.toH2cDataParams (dm_in p i s)
          (H2cData.rd_txn_trk_ff_full p.toH2cDataParams s.SDE_H2C_DATA)).curr_txn_num_bytes =
            H2cReq.curr_txn_min_num_bytes s.SDE_H2C_DATA.req := by
        simp [H2cReq.step, H2cReq.txn_load, hstate, havail.2]
      rw [hdesc, hlen, hload]
      exact ⟨hdone, addr_of_wait hok h hb hstate havail.1⟩
  | REQ_ADDR =>
    have hdone : s.SDE_H2C_DATA.req.desc_req_done (dm_in p i s) = false := by
      apply eq_false_of_ne_true
      intro hdone
      simp only [hstate, hdone, if_true, Bool.true_and] at hreq
      split at hreq <;> cases hreq
    obtain ⟨hnum, hdesc, hlen⟩ := @addr_hold p s (dm_in p i s)
      (H2cData.rd_txn_trk_ff_full p.toH2cDataParams s.SDE_H2C_DATA) hstate hdone
    rw [hnum, hdesc, hlen]
    exact ⟨hdone, h.addr_bytes hstate, h.addr_recs hstate⟩

theorem room_step (haux : ∃ k, p.BUF_AUX_DEPTH = 2 ^ k)
    (hok : s.SDE_H2C_DATA.req.Ok p.toH2cDataParams)
    (h : Room p s bytes recs rows read recs_in popped) (hb : Behind i s bytes recs rows recs_in) :
    Room p ((circuit p).step i s)
      (((s.SDE_H2C_DATA.req.issued (dm_in p i s)).map row_span).foldl (Span.fill PCIM_BYTES) bytes)
      (recs + ((s.SDE_H2C_DATA.req.issued (dm_in p i s)).map row_span).countP fun t => t.mark.isSome)
      (rows + (buf_in i s).dm_buf_wr.toNat) (read + (H2cBuf.buf_rd_en s.SDE_H2C_BUF).toNat)
      (recs_in + (H2cBuf.aux_ram_wr (buf_in i s)).toNat)
      (popped + (H2cBuf.aux_ram_pop s.SDE_H2C_BUF).toNat) := by
  have hread := h.stored.buf_ptrs.read_le
  have hrows := hb.rows_le
  have hbelow : read * PCIM_BYTES ≤ bytes := (Nat.mul_le_mul_right _ (by omega)).trans hrows
  have hgrow : read * PCIM_BYTES ≤ (read + (H2cBuf.buf_rd_en s.SDE_H2C_BUF).toNat) * PCIM_BYTES :=
    Nat.mul_le_mul_right _ (Nat.le_add_right _ _)
  have hbytes := h.bytes_le
  have hrecs := h.recs_le
  refine ⟨predicted_step haux hok h.predicted hbelow h.addr_bytes, stored_step h hb, ?_, ?_, ?_, ?_⟩
  · rw [place_step hok]
    split
    case isTrue heop =>
      have hroom := h.addr_bytes (H2cReq.req_done_state (eop_last heop).1).1
      unfold next_row
      rw [size_eq] at *
      rw [show PCIM_BYTES = 64 from rfl] at *
      omega
    case isFalse =>
      split
      case isTrue hdone =>
        have hroom := h.addr_bytes (H2cReq.req_done_state hdone).1
        omega
      case isFalse => omega
  · rw [recs_step hok]
    cases heop : s.SDE_H2C_DATA.req.desc_done_w_eop (dm_in p i s) with
    | false =>
      rw [Bool.toNat_false]
      omega
    | true =>
      obtain ⟨hdone, hlast, heop⟩ := eop_last heop
      have hroom := h.addr_recs (H2cReq.req_done_state hdone).1 heop hlast
      rw [Bool.toNat_true]
      omega
  · intro hnext
    obtain ⟨hdone, hroom, -⟩ := addr_step hok h hb hnext
    rw [place_step hok, eop_none hdone, hdone]
    exact hroom.trans (Nat.add_le_add_right hgrow _)
  · intro hnext heop hlast
    obtain ⟨hdone, -, hroom⟩ := addr_step hok h hb hnext
    have hnew := hroom heop hlast
    rw [recs_step hok, eop_none hdone, Bool.toNat_false]
    omega

/-! ## The rows of some requests -/

open H2cData (beat_bytes seen packet_ends joined spans)

/-- The rows that the data of some requests makes. -/
def rows_of (rds : List PcimRd) (beats : List PcimBeat) : List (List (BitVec 8 × Option (BitVec 64))) :=
  cut PCIM_BYTES packet_ends [] (stream PCIM_BYTES (rds.map row_span) (beats.map beat_bytes))

variable {rds : List PcimRd} {beats : List PcimBeat}

theorem joined_spans (beats : List PcimBeat) :
    joined (stream PCIM_BYTES (spans rds) (beats.map beat_bytes)) =
      stream PCIM_BYTES (rds.map row_span) (beats.map beat_bytes) := by
  rw [joined, stream_map Option.join rfl, spans, List.map_map]
  rfl

theorem beat_bytes_width : ∀ b ∈ beats.map beat_bytes, b.length = PCIM_BYTES := by
  intro b hb
  obtain ⟨beat, -, rfl⟩ := List.mem_map.mp hb
  exact H2cData.beat_bytes_length beat

theorem row_span_ok (hok : ∀ rd ∈ rds, rd.Ok) : ∀ t ∈ rds.map row_span, Span.Ok PCIM_BYTES t := by
  intro t ht
  obtain ⟨rd, hrd, rfl⟩ := List.mem_map.mp ht
  exact ⟨(hok rd hrd).span.offset, (hok rd hrd).span.length⟩

theorem rlasts_row_span (hok : ∀ rd ∈ rds, rd.Ok) :
    (lasts PCIM_BYTES (rds.map row_span)).length = (H2cReq.rlasts rds).length := by
  rw [H2cReq.rlasts_eq hok, lasts, lasts, List.flatMap_map, List.flatMap_map]
  rfl

theorem rows_of_length (hok : ∀ rd ∈ rds, rd.Ok) (hall : (H2cReq.rlasts rds).length ≤ beats.length) :
    (rows_of rds beats).length = place rds / PCIM_BYTES ∧
      (rows_of rds beats).flatten.countP packet_ends = recs_reserved rds := by
  have hcome : (lasts PCIM_BYTES (rds.map row_span)).length ≤ (beats.map beat_bytes).length := by
    rw [rlasts_row_span hok, List.length_map]
    exact hall
  obtain ⟨hfill, hcount⟩ := stream_fill beat_bytes_width (row_span_ok hok) hcome 0
  constructor
  · rw [rows_of, cut_length (by decide) (by decide)]
    exact congrArg (· / PCIM_BYTES) hfill
  · rw [rows_of, cut_countP]
    exact hcount

theorem seen_eops (rows : List (BufRow 64)) :
    (rows.map seen).flatten.countP packet_ends = rows.countP BufRow.eop := by
  induction rows with
  | nil => rfl
  | cons row rows ih =>
    have hone : (seen row).countP packet_ends = row.eop.toNat := by
      unfold seen H2cData.piece H2cData.eop_mark
      cases row.eop with
      | true =>
        rw [if_pos rfl]
        exact (marked_count rfl (Nat.succ_pos _) _).trans (by rw [lanes_length, if_pos (Nat.le_refl _)]; rfl)
      | false =>
        rw [if_neg Bool.false_ne_true, marked_of_short (.inr rfl), List.countP_map]
        simp [packet_ends, Function.comp_def]
    rw [List.map_cons, List.flatten_cons, List.countP_append, hone, ih, List.countP_cons]
    cases row.eop <;> simp [Nat.add_comm]

/-! ## Whole runs -/

section Runs

variable (p : H2cParams) (ins : Nat → H2cIn)

def state (n : Nat) : H2c := (circuit p).state ins n

/-- What the data mover gets. -/
def dm_ins (n : Nat) : H2cDataIn := dm_in p (ins n) (state p ins n)

def reads_out (n : Nat) : List PcimRd := H2cData.reads_out p.toH2cDataParams (dm_ins p ins) n

def beats_in (n : Nat) : List PcimBeat := H2cData.beats_in p.toH2cDataParams (dm_ins p ins) n

def rows_out (n : Nat) : List (BufRow 64) := H2cData.rows_out p.toH2cDataParams (dm_ins p ins) n

/-- How many rows were read from the buffer before cycle `n`. -/
def rows_read (n : Nat) : Nat :=
  ((circuit p).passed ins (fun _ s => if H2cBuf.buf_rd_en s.SDE_H2C_BUF then [()] else []) n).length

def recs_read (n : Nat) : Nat :=
  ((circuit p).passed ins (fun _ s => if H2cBuf.aux_ram_pop s.SDE_H2C_BUF then [()] else []) n).length

/-- What the descriptors and the PCIM side keep to. -/
def Legal : Prop := H2cData.Legal p.toH2cDataParams (dm_ins p ins)

variable {p ins}

theorem dm_state (n : Nat) :
    (H2cData.circuit p.toH2cDataParams).state (dm_ins p ins) n = (state p ins n).SDE_H2C_DATA :=
  Circuit.state_part H2c.SDE_H2C_DATA (dm_in p) rfl (fun _ _ => rfl) n

theorem rows_behind (hlegal : Legal p ins) (n : Nat) :
    (rows_out p ins (n + 1)).length * PCIM_BYTES ≤ place (reads_out p ins n) ∧
      (rows_out p ins (n + 1)).countP BufRow.eop ≤ recs_reserved (reads_out p ins n) := by
  obtain ⟨iqq, gone, h⟩ := H2cData.track_state hlegal n
  have hok : ∀ rd ∈ reads_out p ins n, rd.Ok := h.front.ok
  -- As many beats more as will be needed at most.
  have hcontent := h.content [] (List.replicate (H2cReq.rlasts (reads_out p ins n)).length ⟨0, false⟩)
  generalize hbeats : H2cData.beats_in p.toH2cDataParams (dm_ins p ins) (n - 1) ++
    List.replicate (H2cReq.rlasts (reads_out p ins n)).length ⟨0, false⟩ = beats at hcontent
  have hall : (H2cReq.rlasts (reads_out p ins n)).length ≤ beats.length := by
    rw [← hbeats, List.length_append, List.length_replicate]
    omega
  obtain ⟨hlen, hcount⟩ := rows_of_length hok hall
  have hpre : (rows_out p ins (n + 1)).map seen <+: rows_of (reads_out p ins n) beats := by
    have hrows : cut PCIM_BYTES packet_ends []
        (joined (H2cData.slices_out p.toH2cDataParams (dm_ins p ins) n) ++ []) = _ := h.rows []
    rw [List.append_nil] at hrows
    rw [List.append_nil, List.append_assoc] at hcontent
    have hstream := (@joined_spans (reads_out p ins n) beats).symm.trans
      ((congrArg joined hcontent).trans (H2cData.joined_append _ _))
    have hwritten : H2cData.written (dm_ins p ins n)
        ((H2cData.circuit p.toH2cDataParams).state (dm_ins p ins) n) <+:
          ((H2cData.circuit p.toH2cDataParams).state (dm_ins p ins) n).DP_DATA_OUTPUT_FIFO :=
      List.take_prefix _ _
    have hnext : rows_out p ins (n + 1) = rows_out p ins n ++ H2cData.written (dm_ins p ins n)
      ((H2cData.circuit p.toH2cDataParams).state (dm_ins p ins) n) := rfl
    have hsliced : (rows_out p ins (n + 1)).map seen <+:
        cut PCIM_BYTES packet_ends [] (joined (H2cData.slices_out p.toH2cDataParams (dm_ins p ins) n)) := by
      rw [hrows, hnext, List.map_append, H2cData.pending, List.append_assoc, List.append_assoc]
      exact (List.prefix_append_right_inj _).mpr ((hwritten.map seen).trans (List.prefix_append _ _))
    refine hsliced.trans ?_
    rw [rows_of, hstream]
    exact cut_grows _ _ _
  constructor
  · have hle := hpre.length_le
    rw [List.length_map, hlen] at hle
    exact (Nat.mul_le_mul_right _ hle).trans (Nat.div_mul_le_self _ _)
  · obtain ⟨more, hmore⟩ := hpre
    have hsum := congrArg (fun l => l.flatten.countP packet_ends) hmore
    simp only [List.flatten_append, List.countP_append, seen_eops, hcount] at hsum
    omega

theorem written_eq (s : H2c) :
    (H2cData.written di s.SDE_H2C_DATA).length = (buf_in i s).dm_buf_wr.toNat ∧
      (H2cData.written di s.SDE_H2C_DATA).countP BufRow.eop =
        (H2cBuf.aux_ram_wr (buf_in i s)).toNat := by
  unfold H2cData.written H2cBuf.aux_ram_wr buf_in H2cData.dm_buf_wr
  cases s.SDE_H2C_DATA.DP_DATA_OUTPUT_FIFO with
  | nil => exact ⟨rfl, rfl⟩
  | cons row rows => cases heop : row.eop <;> simp [heop]

theorem rows_out_succ (n : Nat) : rows_out p ins (n + 1) =
    rows_out p ins n ++ H2cData.written (dm_ins p ins n) (state p ins n).SDE_H2C_DATA := by
  rw [← dm_state]
  rfl

theorem reads_out_succ (n : Nat) : reads_out p ins (n + 1) =
    reads_out p ins n ++ (state p ins n).SDE_H2C_DATA.req.issued (dm_ins p ins n) := by
  rw [← dm_state]
  rfl

theorem behind_state (hlegal : Legal p ins) (n : Nat) :
    Behind (ins n) (state p ins n) (place (reads_out p ins n)) (recs_reserved (reads_out p ins n))
      (rows_out p ins n).length ((rows_out p ins n).countP BufRow.eop) := by
  obtain ⟨hrows, hrecs⟩ := rows_behind hlegal n
  obtain ⟨hlen, hcount⟩ := @written_eq (ins n) (dm_ins p ins n) (state p ins n)
  rw [rows_out_succ, List.length_append, hlen] at hrows
  rw [rows_out_succ, List.countP_append, hcount] at hrecs
  exact ⟨hrows, hrecs⟩

theorem req_ok (hlegal : Legal p ins) (n : Nat) :
    (state p ins n).SDE_H2C_DATA.req.Ok p.toH2cDataParams := by
  obtain ⟨iqq, gone, h⟩ := H2cData.track_state hlegal n
  rw [← dm_state]
  exact h.front.req

theorem room_state (haux : ∃ k, p.BUF_AUX_DEPTH = 2 ^ k) (hlegal : Legal p ins) (n : Nat) :
    Room p (state p ins n) (place (reads_out p ins n)) (recs_reserved (reads_out p ins n))
      (rows_out p ins n).length (rows_read p ins n) ((rows_out p ins n).countP BufRow.eop)
      (recs_read p ins n) := by
  induction n with
  | zero =>
    have hpos := @size_pos p
    refine ⟨⟨?_, ?_⟩, ⟨H2cBuf.inv_reset, RamPtrs.at_start, RamPtrs.at_start⟩, ?_, ?_, nofun, nofun⟩
    · change (⟨0, false⟩ : Ptr) = .after _ 0
      simp [Ptr.after]
    · change (⟨0, false⟩ : Ptr) = .after _ 0
      simp [Ptr.after]
    · exact Nat.zero_le _
    · exact Nat.zero_le _
  | succ n ih =>
    obtain ⟨hlen, hcount⟩ := @written_eq (ins n) (dm_ins p ins n) (state p ins n)
    have hstep := room_step haux (req_ok hlegal n) ih (behind_state hlegal n)
    have hread : rows_read p ins (n + 1) =
        rows_read p ins n + (H2cBuf.buf_rd_en (state p ins n).SDE_H2C_BUF).toNat := by
      rw [rows_read, Circuit.passed_succ, List.length_append, rows_read, state]
      cases H2cBuf.buf_rd_en ((circuit p).state ins n).SDE_H2C_BUF <;> rfl
    have hpop : recs_read p ins (n + 1) =
        recs_read p ins n + (H2cBuf.aux_ram_pop (state p ins n).SDE_H2C_BUF).toNat := by
      rw [recs_read, Circuit.passed_succ, List.length_append, recs_read, state]
      cases H2cBuf.aux_ram_pop ((circuit p).state ins n).SDE_H2C_BUF <;> rfl
    rw [reads_out_succ, place_append, recs_append, rows_out_succ, List.length_append, List.countP_append,
      hlen, hcount, hread, hpop]
    exact hstep

/-! ### The place that is reached -/

/-- The pointers with which the buffer writes in cycle `m` are those that the data mover had in
cycle `k`. -/
structure Reached (p : H2cParams) (ins : Nat → H2cIn) (k m : Nat) : Prop where
  buf_wr_ptr : (state p ins m).SDE_H2C_BUF.buf_ptrs.wr_ptr =
    ⟨(state p ins k).SDE_H2C_DATA.req.curr_buf_byte_wr_addr / PCIM_BYTES,
      (state p ins k).SDE_H2C_DATA.req.curr_buf_wr_ptr_msb⟩
  aux_wr_ptr : (state p ins m).SDE_H2C_BUF.aux_ptrs.wr_ptr =
    ⟨(state p ins k).SDE_H2C_DATA.req.curr_buf_aux_wr_ptr,
      (state p ins k).SDE_H2C_DATA.req.curr_buf_aux_wr_ptr_msb⟩

theorem reads_ok (hlegal : Legal p ins) (n : Nat) : ∀ rd ∈ reads_out p ins n, rd.Ok := by
  obtain ⟨iqq, gone, h⟩ := H2cData.track_state hlegal n
  exact h.front.ok

theorem reached_of_rows (haux : ∃ k, p.BUF_AUX_DEPTH = 2 ^ k) (hlegal : Legal p ins) {k m : Nat}
    {beats : List PcimBeat} (hall : (H2cReq.rlasts (reads_out p ins k)).length ≤ beats.length)
    (hrows : (rows_out p ins m).map seen = rows_of (reads_out p ins k) beats) : Reached p ins k m := by
  obtain ⟨hlen, hcount⟩ := rows_of_length (reads_ok hlegal k) hall
  rw [← hrows, List.length_map] at hlen
  rw [← hrows, seen_eops] at hcount
  have hpredicted := (room_state haux hlegal k).predicted
  have hstored := (room_state haux hlegal m).stored
  have haddr := congrArg Ptr.idx hpredicted.byte
  have hmsb := congrArg Ptr.msb hpredicted.byte
  constructor
  · rw [hstored.buf_ptrs.wr_ptr, hlen, Ptr.after_div PCIM_BYTES]
    dsimp only at haddr hmsb
    rw [haddr, hmsb]
    rfl
  · rw [hstored.aux_ptrs.wr_ptr, hcount, hpredicted.aux]

theorem rows_one_by_one (n : Nat) {l : Nat} (hl : l ≤ (rows_out p ins n).length) :
    ∃ m ≤ n, (rows_out p ins m).length = l := by
  induction n with
  | zero => exact ⟨0, Nat.le_refl 0, (Nat.le_zero.mp hl).symm⟩
  | succ n ih =>
    rcases Nat.lt_or_ge (rows_out p ins n).length l with hlt | hge
    · obtain ⟨hlen, -⟩ := @written_eq (ins n) (dm_ins p ins n) (state p ins n)
      have hone := Bool.toNat_le (buf_in (ins n) (state p ins n)).dm_buf_wr
      have hsum : (rows_out p ins (n + 1)).length =
          (rows_out p ins n).length + (buf_in (ins n) (state p ins n)).dm_buf_wr.toNat := by
        rw [rows_out_succ, List.length_append, hlen]
      exact ⟨n + 1, Nat.le_refl _, by omega⟩
    · obtain ⟨m, hm, hlen⟩ := ih hge
      exact ⟨m, by omega, hlen⟩

theorem rows_of_reads (hlegal : Legal p ins) {k n : Nat} (hk : k ≤ n) :
    ∃ m ≤ n + 5, (rows_out p ins m).map seen = rows_of (reads_out p ins k) (beats_in p ins n) := by
  obtain ⟨iqq, gone, h⟩ := H2cData.track_state hlegal n
  have hall : rows_of (reads_out p ins k) (beats_in p ins n) <+: (rows_out p ins (n + 5)).map seen := by
    refine List.IsPrefix.trans ?_ (H2cData.rows_delivered hlegal n).no_loss
    have hreads : reads_out p ins k <+: reads_out p ins n := Circuit.passed_prefix hk
    obtain ⟨later, hlater⟩ := hreads
    have hstream := H2cData.stream_requests hlegal h (beats_in p ins n)
    have hspans : spans (reads_out p ins n) = spans (reads_out p ins k) ++ spans later := by
      rw [← hlater, spans, List.map_append]
      rfl
    change stream _ (spans (reads_out p ins n) ++ _) _ = _ at hstream
    rw [H2cData.packet_rows, ← H2cData.joined_stream, rows_of, ← joined_spans]
    change _ <+: cut PCIM_BYTES packet_ends [] (joined (stream H2cData.PCIM_BYTES
      ((H2cData.descs_in p.toH2cDataParams (dm_ins p ins) n).map H2cReq.span)
        ((beats_in p ins n).map beat_bytes)))
    rw [← hstream, hspans, List.append_assoc]
    obtain ⟨more, hmore⟩ := stream_grows (w := PCIM_BYTES) (spans (reads_out p ins k))
      (spans later ++ spans (((H2cData.circuit p.toH2cDataParams).state (dm_ins p ins) n).req.left
        p.toH2cDataParams)) ((beats_in p ins n).map beat_bytes)
    change _ <+: cut PCIM_BYTES packet_ends [] (joined (stream PCIM_BYTES _ _))
    rw [← hmore, H2cData.joined_append]
    exact cut_grows _ _ _
  have hlen := hall.length_le
  rw [List.length_map] at hlen
  obtain ⟨m, hm, heq⟩ := rows_one_by_one (n + 5) hlen
  have hpre : rows_out p ins m <+: rows_out p ins (n + 5) := Circuit.passed_prefix hm
  have hle : ((rows_out p ins m).map seen).length ≤
      (rows_of (reads_out p ins k) (beats_in p ins n)).length := by
    rw [List.length_map]
    omega
  refine ⟨m, hm, (List.prefix_of_prefix_length_le (hpre.map seen) hall hle).eq_of_length ?_⟩
  rw [List.length_map, heq]

/-! ### What is promised -/

/-- What is promised of cycle `n`. What is `coming` was requested and is not written. -/
structure Fits (p : H2cParams) (ins : Nat → H2cIn) (n : Nat) : Prop where
  buf_oflow : (state p ins n).SDE_H2C_BUF.buf_oflow = false
  aux_ram_oflow : (state p ins n).SDE_H2C_BUF.aux_ram_oflow = false
  rows : ∃ coming, rows_reserved (reads_out p ins n) = (rows_out p ins n).length + coming ∧
    coming + (state p ins n).SDE_H2C_BUF.buf_ptrs.count p.BUF_DEPTH ≤ p.BUF_DEPTH
  recs : ∃ coming, recs_reserved (reads_out p ins n) = (rows_out p ins n).countP BufRow.eop + coming ∧
    coming + (state p ins n).SDE_H2C_BUF.aux_ptrs.count p.BUF_AUX_DEPTH ≤ p.BUF_AUX_DEPTH
  /-- The data of the requests before cycle `k` has come: soon their rows are written, and no others,
  and then the buffer is where the data mover was. -/
  arrives : ∀ k ≤ n, (H2cReq.rlasts (reads_out p ins k)).length ≤ (beats_in p ins n).length →
    (∃ m ≤ n + 5, (rows_out p ins m).map seen = rows_of (reads_out p ins k) (beats_in p ins n)) ∧
      ∀ m, (rows_out p ins m).map seen = rows_of (reads_out p ins k) (beats_in p ins n) →
        Reached p ins k m

theorem no_oflow (haux : ∃ k, p.BUF_AUX_DEPTH = 2 ^ k) (hlegal : Legal p ins) (n : Nat) :
    (state p ins n).SDE_H2C_BUF.buf_oflow = false ∧
      (state p ins n).SDE_H2C_BUF.aux_ram_oflow = false := by
  cases n with
  | zero => exact ⟨rfl, rfl⟩
  | succ n =>
    have hmay := may_of_room (room_state haux hlegal n) (behind_state hlegal n)
    constructor
    · change ((state p ins n).SDE_H2C_BUF.buf_ptrs.full &&
        (buf_in (ins n) (state p ins n)).dm_buf_wr) = false
      cases hwr : (buf_in (ins n) (state p ins n)).dm_buf_wr with
      | false => exact Bool.and_false _
      | true => rw [hmay.buf hwr, Bool.false_and]
    · change ((state p ins n).SDE_H2C_BUF.aux_ptrs.full &&
        H2cBuf.aux_ram_wr (buf_in (ins n) (state p ins n))) = false
      cases hwr : H2cBuf.aux_ram_wr (buf_in (ins n) (state p ins n)) with
      | false => exact Bool.and_false _
      | true => rw [hmay.aux hwr, Bool.false_and]

/-- The index of records is a power of two, as in the example design. -/
theorem space_reserved (haux : ∃ k, p.BUF_AUX_DEPTH = 2 ^ k) (hlegal : Legal p ins) (n : Nat) :
    Fits p ins n := by
  have h := room_state haux hlegal n
  obtain ⟨hbuf, hrecs⟩ := no_oflow haux hlegal n
  refine ⟨hbuf, hrecs, ?_, ?_, fun k hk hall => ⟨rows_of_reads hlegal hk, fun m hm => ?_⟩⟩
  · have hcount : (state p ins n).SDE_H2C_BUF.buf_ptrs.count p.BUF_DEPTH = _ :=
      RamPtrs.count_at p.buf_pos h.stored.buf_ptrs
    have hrows := (behind_state hlegal n).rows_le
    have hread := h.stored.buf_ptrs.read_le
    have hbytes := h.bytes_le
    refine ⟨rows_reserved (reads_out p ins n) - (rows_out p ins n).length, ?_, ?_⟩
    · unfold rows_reserved
      rw [show PCIM_BYTES = 64 from rfl] at *
      omega
    · unfold rows_reserved
      rw [hcount]
      rw [size_eq] at hbytes
      rw [show PCIM_BYTES = 64 from rfl] at *
      omega
  · have hcount : (state p ins n).SDE_H2C_BUF.aux_ptrs.count p.BUF_AUX_DEPTH = _ :=
      RamPtrs.count_at p.aux_pos h.stored.aux_ptrs
    have hrecs_in := (behind_state hlegal n).recs_le
    have hread := h.stored.aux_ptrs.read_le
    have hroom := h.recs_le
    refine ⟨recs_reserved (reads_out p ins n) - (rows_out p ins n).countP BufRow.eop, by omega, ?_⟩
    rw [hcount]
    omega
  · exact reached_of_rows haux hlegal hall hm

theorem reads_pos : 1 < 64 := by decide

/-- Two rows and two records. -/
def tiny_params : H2cParams := ⟨⟨3, 64, 2, 2, reads_pos⟩, Nat.two_pos, Nat.two_pos⟩

def packet_descs (n : Nat) : CommDesc :=
  if n < 1 then ⟨7, false, false, 100, 0x1FD0, 0, false, true⟩
  else if n < 7 then ⟨9, false, true, 40, 0x3005, 0, false, true⟩
  else ⟨11, false, true, 3, 0x1005, 0, false, true⟩

/-- A packet of two descriptors and three rows, and one of three bytes, with a reader that is stalled up
to cycle 30: the second and the third descriptor wait for room. -/
def full_buffer (n : Nat) : H2cIn where
  desc_dm_desc_valid := n < 20
  desc_dm_desc := packet_descs n
  pm_dm_arready := n % 3 = 2
  pm_dm_rvalid := n ∈ [5, 8, 20, 33]
  pm_dm_rdata := of_lanes 64 fun _ => BitVec.ofNat 8 n
  pm_dm_rresp := 0
  pm_dm_rlast := true
  axis_buf_ready := 30 ≤ n

theorem full_buffer_legal : Legal tiny_params full_buffer where
  desc n _ := by
    change (packet_descs n).len ≠ 0 ∧ (packet_descs n).spb = false
    unfold packet_descs
    split
    · decide
    · split <;> decide
  answer := by
    refine H2cData.answer_of_stop (m := 33) (fun k hk => ?_) (by decide +kernel)
    change decide (k ∈ [5, 8, 20, 33]) = false
    rw [decide_eq_false_iff_not]
    simp
    omega

theorem space_full_buffer : (∀ n, Fits tiny_params full_buffer n) ∧
    (reads_out tiny_params full_buffer 17).length = 2 ∧
    (reads_out tiny_params full_buffer 29).length = 3 ∧
    rows_reserved (reads_out tiny_params full_buffer 30) = 4 ∧
    recs_reserved (reads_out tiny_params full_buffer 30) = 2 ∧
    Reached tiny_params full_buffer 30 39 := by
  have hfits := fun n => space_reserved (p := tiny_params) ⟨1, rfl⟩ full_buffer_legal n
  refine ⟨hfits, by decide +kernel, by decide +kernel, by decide +kernel, by decide +kernel, ?_⟩
  exact ((hfits 39).arrives 30 (by decide) (by decide +kernel)).2 39 (by decide +kernel)

/-! ### What is not covered -/

/-- A descriptor may have any other bits, as long as it has a byte. -/
structure AnyDesc (p : H2cParams) (ins : Nat → H2cIn) : Prop where
  desc : ∀ n, (ins n).desc_dm_desc_valid → (ins n).desc_dm_desc.len ≠ 0
  answer : ∀ n, (beats_in p ins (n + 1)).map PcimBeat.rlast <+: H2cReq.rlasts (reads_out p ins (n - 1))

theorem odd_rows_pos : 0 < 32 := by decide

theorem odd_recs_pos : 0 < 3 := by decide

/-- Two rows, and no reader. -/
def spb_params : H2cParams := ⟨⟨3, 64, 2, 64, reads_pos⟩, Nat.two_pos, H2cBuf.recs_pos⟩

/-- From the middle of a row, 64 bytes are read in two beats. With `spb` each of them is written as a
row of its own, while one is reserved. -/
def spb_packets (n : Nat) : H2cIn where
  desc_dm_desc_valid := true
  desc_dm_desc := ⟨7, true, true, 64, 0x20, 0, false, true⟩
  pm_dm_arready := true
  pm_dm_rvalid := n ∈ [5, 6, 8, 9, 15, 16, 18, 19, 21, 22]
  pm_dm_rdata := 0
  pm_dm_rresp := 0
  pm_dm_rlast := n ∈ [6, 9, 16, 19, 22]
  axis_buf_ready := false

theorem spb_packets_any : AnyDesc spb_params spb_packets where
  desc _ _ := by
    change (64 : BitVec 32) ≠ 0
    decide
  answer := by
    refine H2cData.answer_of_stop (m := 22) (fun k hk => ?_) (by decide)
    change decide (k ∈ [5, 6, 8, 9, 15, 16, 18, 19, 21, 22]) = false
    rw [decide_eq_false_iff_not]
    simp
    omega

/-- Three records: the buffer wraps behind the third, the data mover behind a fourth. -/
def odd_params : H2cParams := ⟨⟨3, 64, 32, 3, reads_pos⟩, odd_rows_pos, odd_recs_pos⟩

def byte_packets (n : Nat) : H2cIn where
  desc_dm_desc_valid := true
  desc_dm_desc := ⟨7, false, true, 1, 0, 0, false, true⟩
  pm_dm_arready := true
  pm_dm_rvalid := 5 ≤ n ∧ n ≤ 32 ∧ n % 3 = 2
  pm_dm_rdata := 0
  pm_dm_rresp := 0
  pm_dm_rlast := true
  axis_buf_ready := false

theorem byte_packets_legal : Legal odd_params byte_packets where
  desc _ _ := by
    change (1 : BitVec 32) ≠ 0 ∧ false = false
    decide
  answer := by
    refine H2cData.answer_of_stop (m := 32) (fun k hk => ?_) (by decide)
    change decide (5 ≤ k ∧ k ≤ 32 ∧ k % 3 = 2) = false
    rw [decide_eq_false_iff_not]
    omega

/-- With `spb` rows overflow, and with a number of records that is no power of two, records. -/
theorem not_space_reserved :
    (¬ ∀ p ins, (∃ k, p.BUF_AUX_DEPTH = 2 ^ k) → AnyDesc p ins → ∀ n, Fits p ins n) ∧
      ¬ ∀ p ins, Legal p ins → ∀ n, Fits p ins n := by
  constructor
  · intro h
    have hflag := (h spb_params spb_packets ⟨6, rfl⟩ spb_packets_any 23).buf_oflow
    exact absurd hflag (by decide)
  · intro h
    have hflag := (h odd_params byte_packets byte_packets_legal 34).aux_ram_oflow
    exact absurd hflag (by decide +kernel)

end Runs

end H2c

end AwsFpga.Rtl
