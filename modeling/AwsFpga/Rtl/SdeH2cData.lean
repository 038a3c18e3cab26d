import AwsFpga.Lib.Circuit
import AwsFpga.Lib.Lanes
import AwsFpga.Rtl.RamFifoFt
import AwsFpga.Rtl.SdeH2cBuf
import AwsFpga.Rtl.SdeH2cReq

/-!
# The data path of the H2C data mover (`sde_h2c_data.sv`)

Of every read beat the bytes of its burst are taken, shifted to the start of the
slice (stage 3), and put behind what is collected (stage 4). Rows that are full, and
rows with which a packet ends, go to the buffer (stage 5).
-/

open Lib Lib.Axi

namespace AwsFpga.Rtl

/-- A beat of read data. -/
structure PcimBeat where
  data : BitVec 512
  rlast : Bool
  deriving DecidableEq

/-- The registers `pl2_dp_*`. -/
structure H2cPl2 where
  valid : Bool
  data : BitVec 512
  resp : BitVec 2
  rlast : Bool

/-- The registers `pl3_dp_*`. -/
structure H2cPl3 where
  valid : Bool
  data : BitVec 512
  last : Bool
  eop : Bool
  user : BitVec 64
  num_bytes : Nat
  num_bytes_remain : Nat
  desc_last_txn : Bool

/-- The registers `pl4_dp_*`. -/
structure H2cPl4 where
  valid : Bool
  data : BitVec 512
  eop : Bool
  user : BitVec 64
  num_bytes : Nat
  num_bytes_minus1 : Nat

/-- The registers `pl5_dp_*`. -/
structure H2cPl5 where
  valid : Bool
  data : BitVec 512
  eop : Bool
  user : BitVec 64
  num_bytes : Nat
  num_bytes_minus1 : Nat

structure H2cData where
  req : H2cReq
  RD_TXN_TRK_FIFO : RamFifoFt RdTxnTrk
  pl2_dp : H2cPl2
  pl3_dp : H2cPl3
  pl4_dp : H2cPl4
  pl5_dp : H2cPl5
  DP_DATA_OUTPUT_FIFO : List (BufRow 64)
  dm_cfg_rresp_err : Bool

namespace H2cData

def PCIM_BYTES : Nat := H2cReq.PCIM_BYTES

def DP_DATA_OUTPUT_FIFO_DEPTH : Nat := 3

def min_bytes_2 (inp1 inp2 : Nat) : Nat := if inp2 < inp1 then inp2 else inp1

/-! ## Stage 3 -/

section Stage3

variable (trk : RdTxnTrk) (pl2 : H2cPl2) (pl3 : H2cPl3)

def stg3_dp_num_bytes_first_slice : Nat :=
  if trk.desc_spb then PCIM_BYTES else PCIM_BYTES - trk.txn_src_addr

def stg3_dp_first : Bool := pl3.num_bytes_remain = 0

def stg3_dp_num_bytes_in : Nat :=
  if stg3_dp_first pl3 then min_bytes_2 (stg3_dp_num_bytes_first_slice trk) trk.txn_num_bytes
  else min_bytes_2 pl3.num_bytes_remain PCIM_BYTES

def stg3_dp_last : Bool :=
  trk.txn_num_bytes ≤ stg3_dp_num_bytes_first_slice trk ||
    pl3.num_bytes_remain = stg3_dp_num_bytes_in trk pl3

def stg3 : H2cPl3 where
  valid := pl2.valid
  data := if stg3_dp_first pl3 then pl2.data >>> (8 * trk.txn_src_addr) else pl2.data
  last := stg3_dp_last trk pl3
  eop := stg3_dp_last trk pl3 && trk.txn_eop
  user := trk.desc_user
  num_bytes := if pl2.valid then stg3_dp_num_bytes_in trk pl3 else 0
  num_bytes_remain :=
    if !pl2.valid then pl3.num_bytes_remain
    else if stg3_dp_first pl3 then trk.txn_num_bytes - stg3_dp_num_bytes_in trk pl3
    else pl3.num_bytes_remain - stg3_dp_num_bytes_in trk pl3
  desc_last_txn := trk.desc_last_txn

end Stage3

/-! ## Stages 4 and 5 -/

section Stage4

variable (pl3 : H2cPl3) (pl4 : H2cPl4) (pl5 : H2cPl5)

def stg4_dp_num_bytes_comb : Nat := pl3.num_bytes + pl4.num_bytes

def stg4_dp_num_bytes_gt_64 : Bool := PCIM_BYTES < stg4_dp_num_bytes_comb pl3 pl4

def stg4_dp_num_bytes_lt_64 : Bool := stg4_dp_num_bytes_comb pl3 pl4 < PCIM_BYTES

def stg4_dp_num_bytes_eq_64 : Bool := stg4_dp_num_bytes_comb pl3 pl4 = PCIM_BYTES

def stg4_dp_copy : Bool :=
  (pl4.valid && pl4.eop) ||
    (pl3.valid && !pl3.eop && !pl4.valid && stg4_dp_num_bytes_lt_64 pl3 pl4)

def stg4_dp_clear : Bool :=
  (!pl3.valid && pl4.valid && !pl4.eop && stg4_dp_num_bytes_eq_64 pl3 pl4) ||
    (pl3.valid && !pl3.eop && pl4.valid && !pl4.eop && stg4_dp_num_bytes_eq_64 pl3 pl4) ||
    (pl3.valid && pl3.eop && pl4.valid && !pl4.eop &&
      (stg4_dp_num_bytes_lt_64 pl3 pl4 || stg4_dp_num_bytes_eq_64 pl3 pl4))

def stg4_dp_accm : Bool :=
  pl3.valid && !pl3.eop && pl4.valid && !pl4.eop && stg4_dp_num_bytes_lt_64 pl3 pl4

def stg4_dp_save_ovf : Bool :=
  (pl3.valid && !pl3.eop && pl4.valid && !pl4.eop && stg4_dp_num_bytes_gt_64 pl3 pl4) ||
    (pl3.valid && pl3.eop && pl4.valid && !pl4.eop && stg4_dp_num_bytes_gt_64 pl3 pl4)

/-- The loop over `byte_idx`. -/
def stg4_dp_data_accm_plus_ovf : BitVec (8 * 128) :=
  of_lanes 128 fun byte_idx =>
    if byte_idx ≤ pl4.num_bytes_minus1 then lane 8 pl4.data byte_idx
    else lane 8 pl3.data (byte_idx - pl4.num_bytes)

def stg4_dp_data_accm : BitVec 512 :=
  (stg4_dp_data_accm_plus_ovf pl3 pl4).extractLsb' (8 * 0) (8 * 64)

def stg4_dp_data_ovf : BitVec 512 :=
  (stg4_dp_data_accm_plus_ovf pl3 pl4).extractLsb' (8 * 64) (8 * 64)

def stg4_dp_num_bytes : Nat :=
  if stg4_dp_copy pl3 pl4 then pl3.num_bytes
  else if stg4_dp_clear pl3 pl4 then 0
  else if stg4_dp_accm pl3 pl4 then stg4_dp_num_bytes_comb pl3 pl4
  else if stg4_dp_save_ovf pl3 pl4 then stg4_dp_num_bytes_comb pl3 pl4 - PCIM_BYTES
  else pl4.num_bytes

def stg4 : H2cPl4 where
  valid :=
    if stg4_dp_copy pl3 pl4 then pl3.valid
    else if stg4_dp_clear pl3 pl4 then false
    else if stg4_dp_accm pl3 pl4 || stg4_dp_save_ovf pl3 pl4 then true
    else pl4.valid
  data :=
    if stg4_dp_copy pl3 pl4 then pl3.data
    else if stg4_dp_accm pl3 pl4 then stg4_dp_data_accm pl3 pl4
    else if stg4_dp_save_ovf pl3 pl4 then stg4_dp_data_ovf pl3 pl4
    else pl4.data
  eop :=
    if stg4_dp_copy pl3 pl4 then pl3.eop
    else if stg4_dp_clear pl3 pl4 || stg4_dp_accm pl3 pl4 then false
    else if stg4_dp_save_ovf pl3 pl4 then pl3.eop
    else pl4.eop
  user := if stg4_dp_copy pl3 pl4 || stg4_dp_save_ovf pl3 pl4 then pl3.user else pl4.user
  num_bytes := stg4_dp_num_bytes pl3 pl4
  num_bytes_minus1 := (stg4_dp_num_bytes pl3 pl4 + (PCIM_BYTES - 1)) % PCIM_BYTES

def stg5_dp_send_from_3 : Bool :=
  (pl3.valid && !pl3.eop && !pl4.valid && stg4_dp_num_bytes_eq_64 pl3 pl4) ||
    (pl3.valid && pl3.eop && !pl4.valid &&
      (stg4_dp_num_bytes_lt_64 pl3 pl4 || stg4_dp_num_bytes_eq_64 pl3 pl4))

def stg5_dp_send_from_4 : Bool :=
  (!pl3.valid && pl4.valid && !pl4.eop && stg4_dp_num_bytes_eq_64 pl3 pl4) ||
    (pl4.valid && pl4.eop)

def stg5_dp_send_comb : Bool :=
  (pl3.valid && !pl3.eop && pl4.valid && !pl4.eop &&
      (stg4_dp_num_bytes_gt_64 pl3 pl4 || stg4_dp_num_bytes_eq_64 pl3 pl4)) ||
    (pl3.valid && pl3.eop && pl4.valid && !pl4.eop)

def stg5_dp_bubble : Bool :=
  (!pl3.valid && !pl4.valid) ||
    (!pl3.valid && pl4.valid && !pl4.eop && stg4_dp_num_bytes_lt_64 pl3 pl4) ||
    (pl3.valid && !pl3.eop && !pl4.valid && stg4_dp_num_bytes_lt_64 pl3 pl4) ||
    (pl3.valid && !pl3.eop && pl4.valid && !pl4.eop && stg4_dp_num_bytes_lt_64 pl3 pl4)

def stg5_dp_num_bytes : Nat :=
  if stg5_dp_send_from_3 pl3 pl4 then pl3.num_bytes
  else if stg5_dp_send_from_4 pl3 pl4 then pl4.num_bytes
  else if stg5_dp_send_comb pl3 pl4 then min_bytes_2 (stg4_dp_num_bytes_comb pl3 pl4) PCIM_BYTES
  else if stg5_dp_bubble pl3 pl4 then 0
  else pl5.num_bytes

def stg5 : H2cPl5 where
  valid :=
    if stg5_dp_send_from_3 pl3 pl4 then pl3.valid
    else if stg5_dp_send_from_4 pl3 pl4 then pl4.valid
    else if stg5_dp_send_comb pl3 pl4 then true
    else if stg5_dp_bubble pl3 pl4 then false
    else pl5.valid
  data :=
    if stg5_dp_send_from_3 pl3 pl4 then pl3.data
    else if stg5_dp_send_from_4 pl3 pl4 then pl4.data
    else if stg5_dp_send_comb pl3 pl4 then
      (stg4_dp_data_accm_plus_ovf pl3 pl4).extractLsb' (8 * 0) (8 * 64)
    else pl5.data
  eop :=
    if stg5_dp_send_from_3 pl3 pl4 then pl3.eop
    else if stg5_dp_send_from_4 pl3 pl4 then pl4.eop
    else if stg5_dp_send_comb pl3 pl4 then pl3.eop && !stg4_dp_num_bytes_gt_64 pl3 pl4
    else if stg5_dp_bubble pl3 pl4 then false
    else pl5.eop
  user :=
    if stg5_dp_send_from_3 pl3 pl4 || stg5_dp_send_comb pl3 pl4 then pl3.user
    else if stg5_dp_send_from_4 pl3 pl4 then pl4.user
    else pl5.user
  num_bytes := stg5_dp_num_bytes pl3 pl4 pl5
  num_bytes_minus1 := (stg5_dp_num_bytes pl3 pl4 pl5 + (2 * PCIM_BYTES - 1)) % (2 * PCIM_BYTES)

end Stage4

/-! ## The circuit -/

variable (p : H2cDataParams) (i : H2cDataIn) (s : H2cData)

def RD_TXN_TRK_FIFO_NUM_LOC : Nat := 2 ^ Nat.clog 2 p.PCIM_NUM_OT_RD

def rd_txn_trk_ff_full : Bool :=
  s.RD_TXN_TRK_FIFO.wmark (RD_TXN_TRK_FIFO_NUM_LOC p) (p.PCIM_NUM_OT_RD - 1)

def rd_txn_trk_zero : RdTxnTrk := ⟨0, false, false, false, 0, 0⟩

def rd_txn_trk_ff_pop_data : RdTxnTrk := s.RD_TXN_TRK_FIFO.pop_data rd_txn_trk_zero

def dp_stall : Bool := watermark (DP_DATA_OUTPUT_FIFO_DEPTH - 1) s.DP_DATA_OUTPUT_FIFO

def dm_pm_rready : Bool := !dp_stall s

def rd_txn_done : Bool := s.pl2_dp.valid && !dp_stall s && s.pl2_dp.rlast

def dp_data_out_ff_push : Bool := s.pl5_dp.valid && !dp_stall s

def dp_data_out_ff_push_data : BufRow 64 where
  data := s.pl5_dp.data
  eop := s.pl5_dp.eop
  user := s.pl5_dp.user
  num_bytes_minus1 := s.pl5_dp.num_bytes_minus1 % PCIM_BYTES

def dm_buf_wr : Bool := !s.DP_DATA_OUTPUT_FIFO.isEmpty

def dp_data_out_ff_pop : Bool := dm_buf_wr s

def data_rx_desc_done : Bool :=
  s.pl3_dp.valid && !dp_stall s && s.pl3_dp.last && s.pl3_dp.desc_last_txn

def dm_desc_cnt_inc : Bool := data_rx_desc_done s

def step : H2cData where
  req := s.req.step p i (rd_txn_trk_ff_full p s)
  RD_TXN_TRK_FIFO := s.RD_TXN_TRK_FIFO.step (RD_TXN_TRK_FIFO_NUM_LOC p) (s.req.desc_req_done i)
    s.req.rd_txn_trk_ff_push_data (rd_txn_done s)
  pl2_dp :=
    if !dp_stall s then ⟨i.pm_dm_rvalid, i.pm_dm_rdata, i.pm_dm_rresp, i.pm_dm_rlast⟩ else s.pl2_dp
  pl3_dp := if !dp_stall s then stg3 (rd_txn_trk_ff_pop_data s) s.pl2_dp s.pl3_dp else s.pl3_dp
  pl4_dp := if !dp_stall s then stg4 s.pl3_dp s.pl4_dp else s.pl4_dp
  pl5_dp := if !dp_stall s then stg5 s.pl3_dp s.pl4_dp s.pl5_dp else s.pl5_dp
  DP_DATA_OUTPUT_FIFO := flop_fifo DP_DATA_OUTPUT_FIFO_DEPTH
    (if dp_data_out_ff_push s then some (dp_data_out_ff_push_data s) else none)
    (dp_data_out_ff_pop s) s.DP_DATA_OUTPUT_FIFO
  dm_cfg_rresp_err := s.pl2_dp.valid && s.pl2_dp.resp ≠ 0 && s.pl2_dp.rlast

def circuit : Circuit H2cDataIn H2cData where
  reset :=
    { req := .start, RD_TXN_TRK_FIFO := .start rd_txn_trk_zero
      pl2_dp := ⟨false, 0, 0, false⟩, pl3_dp := ⟨false, 0, false, false, 0, 0, 0, false⟩
      pl4_dp := ⟨false, 0, false, 0, 0, 0⟩, pl5_dp := ⟨false, 0, false, 0, 0, 0⟩
      DP_DATA_OUTPUT_FIFO := [], dm_cfg_rresp_err := false }
  step := step p

theorem circuit_step : (circuit p).step = step p := rfl

/-! ## The bytes in a register -/

/-- The first bytes of a bus, the last of them with a mark. -/
def piece {μ : Type} (data : BitVec 512) (num_bytes : Nat) (mark : Option μ) :
    List (BitVec 8 × Option μ) :=
  marked mark num_bytes (lanes 8 data num_bytes)

/-- The user bits with which a packet ends. -/
def eop_mark (eop : Bool) (user : BitVec 64) : Option (BitVec 64) := if eop then some user else none

/-- With its last slice a descriptor ends, and a packet may end with it. -/
def pl3_items (pl3 : H2cPl3) : List (BitVec 8 × Option (Option (BitVec 64))) :=
  if pl3.valid then
    piece pl3.data pl3.num_bytes
      (if pl3.last && pl3.desc_last_txn then some (eop_mark pl3.eop pl3.user) else none)
  else []

@[simp] theorem piece_length {μ : Type} (data : BitVec 512) (num_bytes : Nat) (mark : Option μ) :
    (piece data num_bytes mark).length = num_bytes := by
  simp [piece]

/-! ### Stage 3 -/

section Stage3

variable {trk : RdTxnTrk} {pl2 : H2cPl2} {pl3 : H2cPl3}

/-- What is left of the burst whose beats come. -/
def curr_span (trk : RdTxnTrk) (remain : Nat) : Span (Option (BitVec 64)) :=
  if remain = 0 then trk.span else ⟨0, remain, trk.span.mark⟩

theorem min_bytes_2_eq (inp1 inp2 : Nat) : min_bytes_2 inp1 inp2 = min inp1 inp2 := by
  unfold min_bytes_2
  split <;> omega

/-- One beat of a burst, by what is left of the burst. -/
structure Sliced (trk : RdTxnTrk) (pl2 : H2cPl2) (pl3 : H2cPl3) (t : Span (Option (BitVec 64))) :
    Prop where
  items : pl3_items (stg3 trk pl2 pl3) =
    marked t.mark t.length (((lanes 8 pl2.data PCIM_BYTES).drop t.offset).take t.length)
  last : (stg3 trk pl2 pl3).last = decide (t.offset + t.length ≤ PCIM_BYTES)
  remain : (stg3 trk pl2 pl3).num_bytes_remain = t.offset + t.length - PCIM_BYTES
  bytes : 0 < (stg3 trk pl2 pl3).num_bytes ∧ (stg3 trk pl2 pl3).num_bytes ≤ PCIM_BYTES
  eop : (stg3 trk pl2 pl3).eop → (stg3 trk pl2 pl3).last && (stg3 trk pl2 pl3).desc_last_txn

theorem bytes_val : PCIM_BYTES = 64 := rfl

theorem stg3_sliced (hok : trk.span.Ok PCIM_BYTES) (hspb : trk.desc_spb = false)
    (heop : trk.txn_eop → trk.desc_last_txn)
    (hremain : pl3.num_bytes_remain ≠ 0 →
      PCIM_BYTES - trk.txn_src_addr + pl3.num_bytes_remain ≤ trk.txn_num_bytes)
    (hvalid : pl2.valid) : Sliced trk pl2 pl3 (curr_span trk pl3.num_bytes_remain) := by
  have hoffset : trk.txn_src_addr < PCIM_BYTES := hok.offset
  have hlength : 0 < trk.txn_num_bytes := hok.length
  have hfirst : stg3_dp_num_bytes_first_slice trk = PCIM_BYTES - trk.txn_src_addr := by
    simp [stg3_dp_num_bytes_first_slice, hspb]
  -- The lanes that are taken, their number, and whether they are the last.
  have hspec : ∃ t, t = curr_span trk pl3.num_bytes_remain ∧ t.mark = trk.span.mark ∧
      (stg3 trk pl2 pl3).data = pl2.data >>> (8 * t.offset) ∧
      (stg3 trk pl2 pl3).num_bytes = min t.length (PCIM_BYTES - t.offset) ∧
      stg3_dp_last trk pl3 = decide (t.offset + t.length ≤ PCIM_BYTES) ∧
      (stg3 trk pl2 pl3).num_bytes_remain = t.offset + t.length - PCIM_BYTES ∧
      t.Ok PCIM_BYTES := by
    refine ⟨_, rfl, ?_⟩
    unfold curr_span stg3 stg3_dp_last stg3_dp_num_bytes_in stg3_dp_first
    rw [hfirst, min_bytes_2_eq, min_bytes_2_eq, hvalid]
    by_cases hzero : pl3.num_bytes_remain = 0
    · rw [hzero]
      simp only [decide_true, if_true, RdTxnTrk.span, Bool.not_true, Bool.false_eq_true, if_false,
        true_and]
      refine ⟨by rw [bytes_val] at *; omega, ?_, by omega, ⟨hoffset, hlength⟩⟩
      rw [Bool.eq_iff_iff]
      simp only [Bool.or_eq_true, decide_eq_true_eq]
      rw [bytes_val] at *
      omega
    · have hle := hremain hzero
      simp only [hzero, decide_false, Bool.false_eq_true, if_false, if_true, Bool.not_true,
        Nat.mul_zero, BitVec.ushiftRight_zero, true_and]
      refine ⟨rfl, ?_, by omega, ⟨Nat.zero_lt_succ 63, ?_⟩⟩
      · rw [Bool.eq_iff_iff]
        simp only [Bool.or_eq_true, decide_eq_true_eq]
        rw [bytes_val] at *
        omega
      · exact Nat.pos_of_ne_zero hzero
  obtain ⟨t, ht, hmark, hdata, hnum, hlast, hrem, htok⟩ := hspec
  have hoff := htok.offset
  have hlen := htok.length
  rw [← ht]
  refine ⟨?_, hlast, hrem, ?_, ?_⟩
  · have hvalid' : (stg3 trk pl2 pl3).valid = true := hvalid
    have htake : (((lanes 8 pl2.data PCIM_BYTES).drop t.offset).take t.length) =
        lanes 8 (stg3 trk pl2 pl3).data (stg3 trk pl2 pl3).num_bytes := by
      rw [lanes_drop, lanes_take, hdata, hnum]
    rw [pl3_items, if_pos hvalid', piece, htake, hmark]
    change marked (if stg3_dp_last trk pl3 && trk.desc_last_txn then
      some (eop_mark (stg3_dp_last trk pl3 && trk.txn_eop) trk.desc_user) else none) _ _ = _
    rw [hlast]
    by_cases hle : t.offset + t.length ≤ PCIM_BYTES
    · have hall : (stg3 trk pl2 pl3).num_bytes = t.length := by omega
      rw [decide_eq_true hle, hall, Bool.true_and, Bool.true_and]
      rfl
    · rw [decide_eq_false hle, Bool.false_and, Bool.false_and, if_neg Bool.false_ne_true,
        marked_of_short (.inr rfl), marked_of_short (.inl (by rw [lanes_length]; omega))]
  · omega
  · intro he
    change (stg3_dp_last trk pl3 && trk.txn_eop) = true at he
    rw [Bool.and_eq_true] at he
    change (stg3_dp_last trk pl3 && trk.desc_last_txn) = true
    rw [he.1, heop he.2]
    rfl

end Stage3

/-! ### Stages 4 and 5 -/

section Stage4

variable {pl3 : H2cPl3} {pl4 : H2cPl4} {pl5 : H2cPl5}

/-- What is collected. -/
def pl4_items (pl4 : H2cPl4) : List (BitVec 8 × Option (BitVec 64)) :=
  if pl4.valid then piece pl4.data pl4.num_bytes (eop_mark pl4.eop pl4.user) else []

/-- The row that is on its way to the output FIFO. -/
def pl5_rows (pl5 : H2cPl5) : List (List (BitVec 8 × Option (BitVec 64))) :=
  if pl5.valid then [piece pl5.data pl5.num_bytes (eop_mark pl5.eop pl5.user)] else []

/-- Where a row ends that is not full. -/
def packet_ends (x : BitVec 8 × Option (BitVec 64)) : Bool := x.2.isSome

structure Pl3Ok (pl3 : H2cPl3) : Prop where
  bytes : pl3.valid → 0 < pl3.num_bytes ∧ pl3.num_bytes ≤ PCIM_BYTES
  none : pl3.valid = false → pl3.num_bytes = 0
  eop : pl3.valid → pl3.eop → pl3.last && pl3.desc_last_txn

structure Pl4Ok (pl4 : H2cPl4) : Prop where
  bytes : pl4.valid → 0 < pl4.num_bytes ∧ pl4.num_bytes ≤ PCIM_BYTES
  none : pl4.valid = false → pl4.num_bytes = 0
  minus1 : pl4.valid → pl4.num_bytes_minus1 = (pl4.num_bytes + (PCIM_BYTES - 1)) % PCIM_BYTES

/-- The slice as stages 4 and 5 see it, which do not care where a descriptor ends. -/
theorem pl3_items_join (h : Pl3Ok pl3) :
    (pl3_items pl3).map (fun x => (x.1, x.2.join)) =
      if pl3.valid then piece pl3.data pl3.num_bytes (eop_mark pl3.eop pl3.user) else [] := by
  unfold pl3_items
  split
  case isFalse => rfl
  case isTrue hvalid =>
    rw [piece, marked_map Option.join rfl, piece]
    congr 1
    split
    case isTrue => rfl
    case isFalse hlast =>
      have heop : pl3.eop = false := eq_false_of_ne_true fun he => hlast (h.eop hvalid he)
      rw [heop]
      rfl

theorem piece_isRow {data : BitVec 512} {num_bytes : Nat} {mark : Option (BitVec 64)}
    (hpos : 0 < num_bytes) (hle : num_bytes ≤ PCIM_BYTES)
    (hend : mark.isSome ∨ num_bytes = PCIM_BYTES) :
    ∃ init a, piece data num_bytes mark = init ++ [a] ∧ IsRow PCIM_BYTES packet_ends init a := by
  obtain ⟨k, rfl⟩ := Nat.exists_eq_add_of_lt hpos
  rw [Nat.zero_add] at hle hend ⊢
  refine ⟨(lanes 8 data k).map fun a => (a, none), (lane 8 data k, mark), ?_, ?_, ?_, ?_⟩
  · rw [piece, lanes, List.range_succ, List.map_append]
    exact marked_all (by simp)
  · intro x hx
    obtain ⟨a, -, rfl⟩ := List.mem_map.mp hx
    rfl
  · rw [List.length_map, lanes_length]
    omega
  · rw [List.length_map, lanes_length]
    exact hend

theorem lane_accm_plus_ovf (h : Pl4Ok pl4) (hvalid : pl4.valid) {k : Nat} (hk : k < 128) :
    lane 8 (stg4_dp_data_accm_plus_ovf pl3 pl4) k =
      if k < pl4.num_bytes then lane 8 pl4.data k else lane 8 pl3.data (k - pl4.num_bytes) := by
  obtain ⟨hpos, hle⟩ := h.bytes hvalid
  have hminus := h.minus1 hvalid
  rw [stg4_dp_data_accm_plus_ovf, lane_of_lanes _ hk]
  have hiff : k ≤ pl4.num_bytes_minus1 ↔ k < pl4.num_bytes := by
    rw [bytes_val] at *
    omega
  simp only [hiff]

theorem lanes_accm_plus_ovf (h : Pl4Ok pl4) (hvalid : pl4.valid) {num_bytes : Nat}
    (hn : num_bytes ≤ PCIM_BYTES) :
    lanes 8 pl4.data pl4.num_bytes ++ lanes 8 pl3.data num_bytes =
      lanes 8 (stg4_dp_data_accm_plus_ovf pl3 pl4) (pl4.num_bytes + num_bytes) := by
  obtain ⟨-, hle⟩ := h.bytes hvalid
  rw [bytes_val] at hle hn
  refine lanes_append ?_ ?_
  · intro k hk
    rw [lane_accm_plus_ovf h hvalid (by omega), if_pos hk]
  · intro k hk
    rw [lane_accm_plus_ovf h hvalid (by omega), if_neg (by omega), Nat.add_sub_cancel_left]

theorem piece_accm (h : Pl4Ok pl4) (hvalid : pl4.valid) {num_bytes : Nat} (hpos : 0 < num_bytes)
    (hroom : pl4.num_bytes + num_bytes ≤ PCIM_BYTES) (mark : Option (BitVec 64)) :
    piece pl4.data pl4.num_bytes none ++ piece pl3.data num_bytes mark =
      piece (stg4_dp_data_accm pl3 pl4) (pl4.num_bytes + num_bytes) mark := by
  have hlanes : lanes 8 (stg4_dp_data_accm pl3 pl4) (pl4.num_bytes + num_bytes) =
      lanes 8 (stg4_dp_data_accm_plus_ovf pl3 pl4) (pl4.num_bytes + num_bytes) := by
    refine lanes_congr fun k hk => ?_
    rw [bytes_val] at hroom
    rw [stg4_dp_data_accm, lane_extract _ _ (by omega), Nat.zero_add]
  rw [piece, piece, piece, hlanes, ← lanes_accm_plus_ovf h hvalid (by omega), marked_none_append hpos,
    lanes_length]

theorem piece_save_ovf (h : Pl4Ok pl4) (hvalid : pl4.valid) {num_bytes : Nat}
    (hn : num_bytes ≤ PCIM_BYTES) (hmore : PCIM_BYTES < pl4.num_bytes + num_bytes)
    (mark : Option (BitVec 64)) :
    piece pl4.data pl4.num_bytes none ++ piece pl3.data num_bytes mark =
      piece (stg4_dp_data_accm pl3 pl4) PCIM_BYTES none ++
        piece (stg4_dp_data_ovf pl3 pl4) (pl4.num_bytes + num_bytes - PCIM_BYTES) mark := by
  obtain ⟨-, hle⟩ := h.bytes hvalid
  have hpos : 0 < num_bytes := by omega
  have hall : lanes 8 (stg4_dp_data_accm pl3 pl4) PCIM_BYTES ++
      lanes 8 (stg4_dp_data_ovf pl3 pl4) (pl4.num_bytes + num_bytes - PCIM_BYTES) =
        lanes 8 pl4.data pl4.num_bytes ++ lanes 8 pl3.data num_bytes := by
    rw [lanes_accm_plus_ovf h hvalid hn,
      show pl4.num_bytes + num_bytes = PCIM_BYTES + (pl4.num_bytes + num_bytes - PCIM_BYTES) by omega]
    rw [show PCIM_BYTES + (pl4.num_bytes + num_bytes - PCIM_BYTES) - PCIM_BYTES =
      pl4.num_bytes + num_bytes - PCIM_BYTES by omega]
    rw [bytes_val] at *
    refine lanes_append ?_ ?_
    · intro k hk
      rw [stg4_dp_data_accm, lane_extract _ _ hk, Nat.zero_add]
    · intro k hk
      rw [stg4_dp_data_ovf, lane_extract _ _ (by omega)]
  rw [piece, piece, piece, piece, marked_none_append hpos, marked_none_append (by omega), hall,
    lanes_length, lanes_length, show PCIM_BYTES + (pl4.num_bytes + num_bytes - PCIM_BYTES) =
      pl4.num_bytes + num_bytes by omega]

/-- One cycle of stages 4 and 5. -/
structure Packed (pl3 : H2cPl3) (pl4 : H2cPl4) (pl4' : H2cPl4) (pl5' : H2cPl5) : Prop where
  items : pl4_items pl4 ++ (pl3_items pl3).map (fun x => (x.1, x.2.join)) =
    (pl5_rows pl5').flatten ++ pl4_items pl4'
  pl4_ok : Pl4Ok pl4'
  bytes : pl5'.valid → 0 < pl5'.num_bytes ∧ pl5'.num_bytes ≤ PCIM_BYTES
  full : pl5'.valid → pl5'.eop ∨ pl5'.num_bytes = PCIM_BYTES
  /-- What is collected and complete leaves. -/
  sent : pl4.valid → pl4.eop ∨ pl4.num_bytes = PCIM_BYTES → pl5'.valid

theorem stg4_minus1 : (stg4 pl3 pl4).valid → (stg4 pl3 pl4).num_bytes_minus1 =
    ((stg4 pl3 pl4).num_bytes + (PCIM_BYTES - 1)) % PCIM_BYTES := fun _ => rfl

section Empty

/-! Nothing is collected. -/

variable (h3 : Pl3Ok pl3) (h4 : Pl4Ok pl4) (hv4 : pl4.valid = false)

include h4 hv4

theorem num_bytes_empty : stg4_dp_num_bytes_comb pl3 pl4 = pl3.num_bytes := by
  rw [stg4_dp_num_bytes_comb, h4.none hv4, Nat.add_zero]

omit h4 in
theorem items_empty (h3 : Pl3Ok pl3) :
    pl4_items pl4 ++ (pl3_items pl3).map (fun x => (x.1, x.2.join)) =
      if pl3.valid then piece pl3.data pl3.num_bytes (eop_mark pl3.eop pl3.user) else [] := by
  rw [pl3_items_join h3, pl4_items, hv4]
  rfl

include h3

theorem packed_idle (hv3 : pl3.valid = false) :
    Packed pl3 pl4 (stg4 pl3 pl4) (stg5 pl3 pl4 pl5) := by
  have hn4 := h4.none hv4
  have hvalid4 : (stg4 pl3 pl4).valid = false := by
    simp [stg4, stg4_dp_copy, stg4_dp_clear, stg4_dp_accm, stg4_dp_save_ovf, hv3, hv4]
  have hnum4 : (stg4 pl3 pl4).num_bytes = 0 := by
    simp [stg4, stg4_dp_num_bytes, stg4_dp_copy, stg4_dp_clear, stg4_dp_accm, stg4_dp_save_ovf, hv3,
      hv4, hn4]
  have hvalid5 : (stg5 pl3 pl4 pl5).valid = false := by
    simp [stg5, stg5_dp_send_from_3, stg5_dp_send_from_4, stg5_dp_send_comb, stg5_dp_bubble, hv3, hv4]
  refine ⟨?_, ⟨by simp [hvalid4], fun _ => hnum4, stg4_minus1⟩, by simp [hvalid5], by simp [hvalid5],
    by simp [hv4]⟩
  rw [items_empty hv4 h3, pl5_rows, pl4_items, hvalid5, hvalid4, hv3]
  rfl

theorem packed_copy (hv3 : pl3.valid) (he3 : pl3.eop = false) (hlt : pl3.num_bytes < PCIM_BYTES) :
    Packed pl3 pl4 (stg4 pl3 pl4) (stg5 pl3 pl4 pl5) := by
  obtain ⟨hpos, hle⟩ := h3.bytes hv3
  have hcomb := @num_bytes_empty pl3 pl4 h4 hv4
  have hcopy : stg4_dp_copy pl3 pl4 = true := by
    simp [stg4_dp_copy, stg4_dp_num_bytes_lt_64, hcomb, hv3, hv4, he3, hlt]
  have hne : ¬pl3.num_bytes = PCIM_BYTES := by omega
  have hvalid5 : (stg5 pl3 pl4 pl5).valid = false := by
    simp [stg5, stg5_dp_send_from_3, stg5_dp_send_from_4, stg5_dp_send_comb, stg5_dp_bubble,
      stg4_dp_num_bytes_lt_64, stg4_dp_num_bytes_eq_64, hcomb, hv3, hv4, he3, hlt, hne]
  have hstg4 : (stg4 pl3 pl4).valid = true ∧ (stg4 pl3 pl4).num_bytes = pl3.num_bytes ∧
      (stg4 pl3 pl4).data = pl3.data ∧ (stg4 pl3 pl4).eop = pl3.eop ∧
      (stg4 pl3 pl4).user = pl3.user := by
    simp [stg4, stg4_dp_num_bytes, hcopy, hv3]
  obtain ⟨hvalid4, hnum4, hdata4, heop4, huser4⟩ := hstg4
  refine ⟨?_, ⟨fun _ => ⟨by omega, by omega⟩, by simp [hvalid4], stg4_minus1⟩, by simp [hvalid5],
    by simp [hvalid5], by simp [hv4]⟩
  rw [items_empty hv4 h3, pl5_rows, pl4_items, hvalid5, hvalid4, hv3, hnum4, hdata4, heop4, huser4]
  rfl

theorem packed_through (hv3 : pl3.valid) (hend : pl3.eop = true ∨ pl3.num_bytes = PCIM_BYTES) :
    Packed pl3 pl4 (stg4 pl3 pl4) (stg5 pl3 pl4 pl5) := by
  obtain ⟨hpos, hle⟩ := h3.bytes hv3
  have hn4 := h4.none hv4
  have hcomb := @num_bytes_empty pl3 pl4 h4 hv4
  have hfrom3 : stg5_dp_send_from_3 pl3 pl4 = true := by
    unfold stg5_dp_send_from_3 stg4_dp_num_bytes_lt_64 stg4_dp_num_bytes_eq_64
    rw [hcomb, hv3, hv4]
    rcases Nat.lt_or_eq_of_le hle with hlt | heq
    · have he3 : pl3.eop = true := hend.resolve_right (by omega)
      simp [he3, hlt]
    · simp [heq]
  have hcopy : stg4_dp_copy pl3 pl4 = false := by
    unfold stg4_dp_copy stg4_dp_num_bytes_lt_64
    rw [hcomb, hv4]
    rcases hend with he3 | heq
    · simp [he3]
    · simp [heq]
  have hstg4 : (stg4 pl3 pl4).valid = false ∧ (stg4 pl3 pl4).num_bytes = 0 := by
    simp [stg4, stg4_dp_num_bytes, stg4_dp_clear, stg4_dp_accm, stg4_dp_save_ovf, hcopy, hv4, hn4]
  obtain ⟨hvalid4, hnum4⟩ := hstg4
  have hstg5 : (stg5 pl3 pl4 pl5).valid = true ∧ (stg5 pl3 pl4 pl5).num_bytes = pl3.num_bytes ∧
      (stg5 pl3 pl4 pl5).data = pl3.data ∧ (stg5 pl3 pl4 pl5).eop = pl3.eop ∧
      (stg5 pl3 pl4 pl5).user = pl3.user := by
    simp [stg5, stg5_dp_num_bytes, hfrom3, hv3]
  obtain ⟨hvalid5, hnum5, hdata5, heop5, huser5⟩ := hstg5
  refine ⟨?_, ⟨by simp [hvalid4], fun _ => hnum4, stg4_minus1⟩, fun _ => ⟨by omega, by omega⟩,
    fun _ => by rwa [heop5, hnum5], by simp [hv4]⟩
  rw [items_empty hv4 h3, pl5_rows, pl4_items, hvalid5, hvalid4, hv3, hnum5, hdata5, heop5, huser5]
  simp

theorem packed_empty : Packed pl3 pl4 (stg4 pl3 pl4) (stg5 pl3 pl4 pl5) := by
  cases hv3 : pl3.valid with
  | false => exact packed_idle h3 h4 hv4 hv3
  | true =>
    have hle := (h3.bytes hv3).2
    by_cases hend : pl3.eop = true ∨ pl3.num_bytes = PCIM_BYTES
    · exact packed_through h3 h4 hv4 hv3 hend
    · push Not at hend
      exact packed_copy h3 h4 hv4 hv3 (Bool.eq_false_iff.mpr hend.1) (by omega)

end Empty

theorem packed_eop (h3 : Pl3Ok pl3) (h4 : Pl4Ok pl4) (hv4 : pl4.valid) (he4 : pl4.eop) :
    Packed pl3 pl4 (stg4 pl3 pl4) (stg5 pl3 pl4 pl5) := by
  obtain ⟨hpos, hle⟩ := h4.bytes hv4
  have hjoin := pl3_items_join h3
  have hcopy : stg4_dp_copy pl3 pl4 = true := by simp [stg4_dp_copy, hv4, he4]
  have hfrom3 : stg5_dp_send_from_3 pl3 pl4 = false := by simp [stg5_dp_send_from_3, hv4]
  have hcomb : stg5_dp_send_comb pl3 pl4 = false := by simp [stg5_dp_send_comb, he4]
  have hfrom4 : stg5_dp_send_from_4 pl3 pl4 = true := by simp [stg5_dp_send_from_4, hv4, he4]
  have hstg4 : (stg4 pl3 pl4).valid = pl3.valid ∧ (stg4 pl3 pl4).num_bytes = pl3.num_bytes ∧
      (stg4 pl3 pl4).data = pl3.data ∧ (stg4 pl3 pl4).eop = pl3.eop ∧
      (stg4 pl3 pl4).user = pl3.user := by
    simp [stg4, stg4_dp_num_bytes, hcopy]
  have hstg5 : (stg5 pl3 pl4 pl5).valid = true ∧ (stg5 pl3 pl4 pl5).num_bytes = pl4.num_bytes ∧
      (stg5 pl3 pl4 pl5).data = pl4.data ∧ (stg5 pl3 pl4 pl5).eop = pl4.eop ∧
      (stg5 pl3 pl4 pl5).user = pl4.user := by
    simp [stg5, stg5_dp_num_bytes, hfrom3, hfrom4, hcomb, hv4]
  obtain ⟨hvalid4, hnum4, hdata4, heop4, huser4⟩ := hstg4
  obtain ⟨hvalid5, hnum5, hdata5, heop5, huser5⟩ := hstg5
  refine ⟨?_, ⟨fun hv => ?_, fun hv => ?_, stg4_minus1⟩, fun _ => ⟨by omega, by omega⟩,
    fun _ => .inl (by rw [heop5, he4]), fun _ _ => hvalid5⟩
  · rw [hjoin, pl5_rows, pl4_items, pl4_items, hvalid5, hvalid4, hnum4, hdata4, heop4, huser4, hnum5,
      hdata5, heop5, huser5, if_pos hv4]
    simp
  · rw [hvalid4] at hv
    rw [hnum4]
    exact h3.bytes hv
  · rw [hvalid4] at hv
    rw [hnum4]
    exact h3.none hv

section Wait

/-! No slice comes. -/

variable (h3 : Pl3Ok pl3) (h4 : Pl4Ok pl4) (hv4 : pl4.valid) (he4 : pl4.eop = false)
variable (hv3 : pl3.valid = false)

include hv3 hv4 he4

theorem wait_wires : stg4_dp_copy pl3 pl4 = false ∧ stg4_dp_accm pl3 pl4 = false ∧
    stg4_dp_save_ovf pl3 pl4 = false ∧ stg5_dp_send_from_3 pl3 pl4 = false ∧
    stg5_dp_send_comb pl3 pl4 = false :=
  ⟨by simp [stg4_dp_copy, hv3, he4], by simp [stg4_dp_accm, hv3], by simp [stg4_dp_save_ovf, hv3],
    by simp [stg5_dp_send_from_3, hv4], by simp [stg5_dp_send_comb, hv3]⟩

omit hv4 he4 in
theorem num_bytes_wait (h3 : Pl3Ok pl3) : stg4_dp_num_bytes_comb pl3 pl4 = pl4.num_bytes := by
  rw [stg4_dp_num_bytes_comb, h3.none hv3, Nat.zero_add]

include h3 h4

theorem packed_hold (hlt : pl4.num_bytes < PCIM_BYTES) :
    Packed pl3 pl4 (stg4 pl3 pl4) (stg5 pl3 pl4 pl5) := by
  obtain ⟨hpos, hle⟩ := h4.bytes hv4
  obtain ⟨hcopy, haccm, hovf, hfrom3, hsendcomb⟩ := wait_wires hv4 he4 hv3
  have hcomb := @num_bytes_wait pl3 pl4 hv3 h3
  have hne : ¬pl4.num_bytes = PCIM_BYTES := by omega
  have hclear : stg4_dp_clear pl3 pl4 = false := by
    simp [stg4_dp_clear, stg4_dp_num_bytes_eq_64, hcomb, hv3, hne]
  have hstg4 : (stg4 pl3 pl4).valid = pl4.valid ∧ (stg4 pl3 pl4).num_bytes = pl4.num_bytes ∧
      (stg4 pl3 pl4).data = pl4.data ∧ (stg4 pl3 pl4).eop = pl4.eop ∧
      (stg4 pl3 pl4).user = pl4.user := by
    simp [stg4, stg4_dp_num_bytes, hcopy, haccm, hovf, hclear]
  obtain ⟨hvalid4, hnum4, hdata4, heop4, huser4⟩ := hstg4
  have hvalid5 : (stg5 pl3 pl4 pl5).valid = false := by
    simp [stg5, hfrom3, hsendcomb, stg5_dp_send_from_4, stg5_dp_bubble, stg4_dp_num_bytes_eq_64,
      stg4_dp_num_bytes_lt_64, hcomb, hv3, hv4, he4, hne, hlt]
  refine ⟨?_, ⟨fun _ => ⟨by omega, by omega⟩, by simp [hvalid4, hv4], stg4_minus1⟩, by simp [hvalid5],
    by simp [hvalid5], fun _ hfull => ?_⟩
  · rw [pl3_items_join h3, pl5_rows, pl4_items, pl4_items, hvalid5, hvalid4, hnum4, hdata4, heop4,
      huser4, hv3]
    simp
  · rw [he4] at hfull
    rcases hfull with hfull | hfull
    · exact absurd hfull Bool.false_ne_true
    · exact absurd hfull hne

theorem packed_leave (heq : pl4.num_bytes = PCIM_BYTES) :
    Packed pl3 pl4 (stg4 pl3 pl4) (stg5 pl3 pl4 pl5) := by
  obtain ⟨hpos, hle⟩ := h4.bytes hv4
  obtain ⟨hcopy, haccm, hovf, hfrom3, hsendcomb⟩ := wait_wires hv4 he4 hv3
  have hcomb := @num_bytes_wait pl3 pl4 hv3 h3
  have hclear : stg4_dp_clear pl3 pl4 = true := by
    simp [stg4_dp_clear, stg4_dp_num_bytes_eq_64, hcomb, hv3, hv4, he4, heq]
  have hfrom4 : stg5_dp_send_from_4 pl3 pl4 = true := by
    simp [stg5_dp_send_from_4, stg4_dp_num_bytes_eq_64, hcomb, hv3, hv4, he4, heq]
  have hstg4 : (stg4 pl3 pl4).valid = false ∧ (stg4 pl3 pl4).num_bytes = 0 := by
    simp [stg4, stg4_dp_num_bytes, hcopy, hclear]
  obtain ⟨hvalid4, hnum4⟩ := hstg4
  have hstg5 : (stg5 pl3 pl4 pl5).valid = true ∧ (stg5 pl3 pl4 pl5).num_bytes = pl4.num_bytes ∧
      (stg5 pl3 pl4 pl5).data = pl4.data ∧ (stg5 pl3 pl4 pl5).eop = pl4.eop ∧
      (stg5 pl3 pl4 pl5).user = pl4.user := by
    simp [stg5, stg5_dp_num_bytes, hfrom3, hfrom4, hsendcomb, hv4]
  obtain ⟨hvalid5, hnum5, hdata5, heop5, huser5⟩ := hstg5
  refine ⟨?_, ⟨by simp [hvalid4], fun _ => hnum4, stg4_minus1⟩, fun _ => ⟨by omega, by omega⟩,
    fun _ => .inr (by omega), fun _ _ => hvalid5⟩
  rw [pl3_items_join h3, pl5_rows, pl4_items, pl4_items, hvalid5, hvalid4, hnum5, hdata5, heop5,
    huser5, hv3, if_pos hv4]
  simp

theorem packed_wait : Packed pl3 pl4 (stg4 pl3 pl4) (stg5 pl3 pl4 pl5) := by
  rcases Nat.lt_or_eq_of_le (h4.bytes hv4).2 with hlt | heq
  · exact packed_hold h3 h4 hv4 he4 hv3 hlt
  · exact packed_leave h3 h4 hv4 he4 hv3 heq

end Wait

section Comb

/-! A slice comes to an open row: together they make a part of a row, a row, or a row and a part. -/

variable (h3 : Pl3Ok pl3) (h4 : Pl4Ok pl4) (hv4 : pl4.valid) (he4 : pl4.eop = false)
variable (hv3 : pl3.valid)

include hv3 hv4 he4

theorem comb_wires : stg4_dp_copy pl3 pl4 = false ∧ stg5_dp_send_from_3 pl3 pl4 = false ∧
    stg5_dp_send_from_4 pl3 pl4 = false ∧ eop_mark pl4.eop pl4.user = none :=
  ⟨by simp [stg4_dp_copy, hv4, he4], by simp [stg5_dp_send_from_3, hv4],
    by simp [stg5_dp_send_from_4, hv3, he4], by simp [eop_mark, he4]⟩

omit hv3 hv4 he4 in
theorem num_bytes_comb : stg4_dp_num_bytes_comb pl3 pl4 = pl4.num_bytes + pl3.num_bytes :=
  Nat.add_comm _ _

include h3 h4

theorem packed_over (hgt : PCIM_BYTES < pl4.num_bytes + pl3.num_bytes) :
    Packed pl3 pl4 (stg4 pl3 pl4) (stg5 pl3 pl4 pl5) := by
  obtain ⟨hpos4, hle4⟩ := h4.bytes hv4
  obtain ⟨hpos3, hle3⟩ := h3.bytes hv3
  obtain ⟨hcopy, hfrom3, hfrom4, hopen⟩ := comb_wires hv4 he4 hv3
  have hcomb := @num_bytes_comb pl3 pl4
  have hjoin := pl3_items_join h3
  rw [if_pos hv3] at hjoin
  have hnlt : ¬pl4.num_bytes + pl3.num_bytes < PCIM_BYTES := by omega
  have hne : ¬pl4.num_bytes + pl3.num_bytes = PCIM_BYTES := by omega
  have hwires : stg4_dp_clear pl3 pl4 = false ∧ stg4_dp_accm pl3 pl4 = false ∧
      stg4_dp_save_ovf pl3 pl4 = true ∧ stg5_dp_send_comb pl3 pl4 = true := by
    unfold stg4_dp_clear stg4_dp_accm stg4_dp_save_ovf stg5_dp_send_comb stg4_dp_num_bytes_gt_64
      stg4_dp_num_bytes_lt_64 stg4_dp_num_bytes_eq_64
    rw [hcomb]
    cases pl3.eop <;> simp [hv3, hv4, he4, hgt, hnlt, hne]
  obtain ⟨hclear, haccm, hovf, hsend⟩ := hwires
  have hstg4 : (stg4 pl3 pl4).valid = true ∧
      (stg4 pl3 pl4).num_bytes = pl4.num_bytes + pl3.num_bytes - PCIM_BYTES ∧
      (stg4 pl3 pl4).data = stg4_dp_data_ovf pl3 pl4 ∧ (stg4 pl3 pl4).eop = pl3.eop ∧
      (stg4 pl3 pl4).user = pl3.user := by
    simp [stg4, stg4_dp_num_bytes, hcopy, haccm, hovf, hclear, hcomb]
  have hstg5 : (stg5 pl3 pl4 pl5).valid = true ∧ (stg5 pl3 pl4 pl5).num_bytes = PCIM_BYTES ∧
      (stg5 pl3 pl4 pl5).data = stg4_dp_data_accm pl3 pl4 ∧ (stg5 pl3 pl4 pl5).eop = false := by
    have hmin : min (pl4.num_bytes + pl3.num_bytes) PCIM_BYTES = PCIM_BYTES := by omega
    simp [stg5, stg5_dp_num_bytes, hfrom3, hfrom4, hsend, stg4_dp_num_bytes_gt_64, hcomb,
      min_bytes_2_eq, hmin, hgt, stg4_dp_data_accm]
  obtain ⟨hvalid4, hnum4, hdata4, heop4, huser4⟩ := hstg4
  obtain ⟨hvalid5, hnum5, hdata5, heop5⟩ := hstg5
  refine ⟨?_, ⟨fun _ => ⟨by omega, by omega⟩, by simp [hvalid4], stg4_minus1⟩,
    fun _ => ⟨by rw [hnum5]; decide, by omega⟩, fun _ => .inr hnum5, fun _ _ => hvalid5⟩
  have hnone : eop_mark false (stg5 pl3 pl4 pl5).user = none := rfl
  rw [hjoin, pl5_rows, pl4_items, pl4_items, hvalid5, hvalid4, hnum4, hdata4, heop4, huser4, hnum5,
    hdata5, heop5, if_pos hv4, hopen, hnone, piece_save_ovf h4 hv4 hle3 hgt]
  simp

theorem packed_part (he3 : pl3.eop = false) (hlt : pl4.num_bytes + pl3.num_bytes < PCIM_BYTES) :
    Packed pl3 pl4 (stg4 pl3 pl4) (stg5 pl3 pl4 pl5) := by
  obtain ⟨hpos4, hle4⟩ := h4.bytes hv4
  obtain ⟨hpos3, hle3⟩ := h3.bytes hv3
  obtain ⟨hcopy, hfrom3, hfrom4, hopen⟩ := comb_wires hv4 he4 hv3
  have hcomb := @num_bytes_comb pl3 pl4
  have hngt : ¬PCIM_BYTES < pl4.num_bytes + pl3.num_bytes := by omega
  have hne : ¬pl4.num_bytes + pl3.num_bytes = PCIM_BYTES := by omega
  have hwires : stg4_dp_clear pl3 pl4 = false ∧ stg4_dp_accm pl3 pl4 = true ∧
      stg4_dp_save_ovf pl3 pl4 = false ∧ stg5_dp_send_comb pl3 pl4 = false ∧
      stg5_dp_bubble pl3 pl4 = true := by
    unfold stg4_dp_clear stg4_dp_accm stg4_dp_save_ovf stg5_dp_send_comb stg5_dp_bubble
      stg4_dp_num_bytes_gt_64 stg4_dp_num_bytes_lt_64 stg4_dp_num_bytes_eq_64
    rw [hcomb]
    simp [hv3, hv4, he3, he4, hlt, hngt, hne]
  obtain ⟨hclear, haccm, hovf, hsend, hbubble⟩ := hwires
  have hstg4 : (stg4 pl3 pl4).valid = true ∧
      (stg4 pl3 pl4).num_bytes = pl4.num_bytes + pl3.num_bytes ∧
      (stg4 pl3 pl4).data = stg4_dp_data_accm pl3 pl4 ∧ (stg4 pl3 pl4).eop = false := by
    simp [stg4, stg4_dp_num_bytes, hcopy, haccm, hovf, hclear, hcomb]
  have hvalid5 : (stg5 pl3 pl4 pl5).valid = false := by
    simp [stg5, hfrom3, hfrom4, hsend, hbubble]
  obtain ⟨hvalid4, hnum4, hdata4, heop4⟩ := hstg4
  refine ⟨?_, ⟨fun _ => ⟨by omega, by omega⟩, by simp [hvalid4], stg4_minus1⟩, by simp [hvalid5],
    by simp [hvalid5], fun _ hfull => ?_⟩
  · have hpiece := @piece_accm pl3 pl4 h4 hv4 pl3.num_bytes hpos3 (by omega) none
    have hnone : eop_mark false (stg4 pl3 pl4).user = none := rfl
    have hnone3 : eop_mark pl3.eop pl3.user = none := by simp [eop_mark, he3]
    have hjoin := pl3_items_join h3
    rw [if_pos hv3, hnone3] at hjoin
    rw [hjoin, pl5_rows, pl4_items, pl4_items, hvalid5, hvalid4, hnum4, hdata4, heop4, if_pos hv4,
      hopen, hnone, hpiece]
    simp
  · rw [he4] at hfull
    rcases hfull with hfull | hfull
    · exact absurd hfull Bool.false_ne_true
    · omega

theorem packed_full (hroom : pl4.num_bytes + pl3.num_bytes ≤ PCIM_BYTES)
    (hend : pl3.eop = true ∨ pl4.num_bytes + pl3.num_bytes = PCIM_BYTES) :
    Packed pl3 pl4 (stg4 pl3 pl4) (stg5 pl3 pl4 pl5) := by
  obtain ⟨hpos4, hle4⟩ := h4.bytes hv4
  obtain ⟨hpos3, hle3⟩ := h3.bytes hv3
  obtain ⟨hcopy, hfrom3, hfrom4, hopen⟩ := comb_wires hv4 he4 hv3
  have hcomb := @num_bytes_comb pl3 pl4
  have hngt : ¬PCIM_BYTES < pl4.num_bytes + pl3.num_bytes := by omega
  have hwires : stg4_dp_clear pl3 pl4 = true ∧ stg5_dp_send_comb pl3 pl4 = true := by
    unfold stg4_dp_clear stg5_dp_send_comb stg4_dp_num_bytes_gt_64 stg4_dp_num_bytes_lt_64
      stg4_dp_num_bytes_eq_64
    rw [hcomb]
    rcases Nat.lt_or_eq_of_le hroom with hlt | heq
    · have he3 : pl3.eop = true := hend.resolve_right (by omega)
      simp [hv3, hv4, he4, he3, hlt]
    · simp [hv3, hv4, he4, heq]
  obtain ⟨hclear, hsend⟩ := hwires
  have hstg4 : (stg4 pl3 pl4).valid = false ∧ (stg4 pl3 pl4).num_bytes = 0 := by
    simp [stg4, stg4_dp_num_bytes, hcopy, hclear]
  have hstg5 : (stg5 pl3 pl4 pl5).valid = true ∧
      (stg5 pl3 pl4 pl5).num_bytes = pl4.num_bytes + pl3.num_bytes ∧
      (stg5 pl3 pl4 pl5).data = stg4_dp_data_accm pl3 pl4 ∧ (stg5 pl3 pl4 pl5).eop = pl3.eop ∧
      (stg5 pl3 pl4 pl5).user = pl3.user := by
    have hmin : min (pl4.num_bytes + pl3.num_bytes) PCIM_BYTES = pl4.num_bytes + pl3.num_bytes := by
      omega
    simp [stg5, stg5_dp_num_bytes, hfrom3, hfrom4, hsend, stg4_dp_num_bytes_gt_64, hcomb,
      min_bytes_2_eq, hmin, hngt, stg4_dp_data_accm]
  obtain ⟨hvalid4, hnum4⟩ := hstg4
  obtain ⟨hvalid5, hnum5, hdata5, heop5, huser5⟩ := hstg5
  refine ⟨?_, ⟨by simp [hvalid4], fun _ => hnum4, stg4_minus1⟩, fun _ => ⟨by omega, by omega⟩,
    fun _ => by rwa [heop5, hnum5], fun _ _ => hvalid5⟩
  have hpiece := @piece_accm pl3 pl4 h4 hv4 pl3.num_bytes hpos3 hroom (eop_mark pl3.eop pl3.user)
  have hjoin := pl3_items_join h3
  rw [if_pos hv3] at hjoin
  rw [hjoin, pl5_rows, pl4_items, pl4_items, hvalid5, hvalid4, hnum5, hdata5, heop5, huser5,
    if_pos hv4, hopen, hpiece]
  simp

theorem packed_comb : Packed pl3 pl4 (stg4 pl3 pl4) (stg5 pl3 pl4 pl5) := by
  rcases Nat.lt_or_ge PCIM_BYTES (pl4.num_bytes + pl3.num_bytes) with hgt | hroom
  · exact packed_over h3 h4 hv4 he4 hv3 hgt
  · by_cases hend : pl3.eop = true ∨ pl4.num_bytes + pl3.num_bytes = PCIM_BYTES
    · exact packed_full h3 h4 hv4 he4 hv3 hroom hend
    · push Not at hend
      exact packed_part h3 h4 hv4 he4 hv3 (Bool.eq_false_iff.mpr hend.1) (by omega)

end Comb

theorem packed_step (h3 : Pl3Ok pl3) (h4 : Pl4Ok pl4) :
    Packed pl3 pl4 (stg4 pl3 pl4) (stg5 pl3 pl4 pl5) := by
  cases hv4 : pl4.valid with
  | false => exact packed_empty h3 h4 hv4
  | true =>
    cases he4 : pl4.eop with
    | true => exact packed_eop h3 h4 hv4 he4
    | false =>
      cases hv3 : pl3.valid with
      | false => exact packed_wait h3 h4 hv4 he4 hv3
      | true => exact packed_comb h3 h4 hv4 he4 hv3

end Stage4

end H2cData

end AwsFpga.Rtl
