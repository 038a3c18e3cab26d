import AwsFpga.Lib.Lanes
import AwsFpga.Rtl.RamFifoFt
import AwsFpga.Rtl.SdeC2hBuf
import AwsFpga.Rtl.SdeDesc
import AwsFpga.Rtl.SdePmWrite

/-!
# The C2H data mover (`sde_c2h_data.sv`)

A descriptor is served in bursts. For a burst the rows of the packet buffer are read
(stages 0 to 2), cut to the bytes of the burst (stage 3), saved for the beat after
(stage 4) and put together to beats (stage 5). Behind the last burst of a descriptor
a record waits until all its responses have come, and goes to the write-back block.

`DESC_TYPE` is 0, and a beat has 64 bytes.
-/

open Lib Lib.Axi

namespace AwsFpga.Rtl

/-- `c2h_if_desc_t`. -/
structure C2hIfDesc where
  dest_addr : BitVec 64
  len : BitVec 32
  desc_type : Bool
  deriving DecidableEq

def c2h_cnv_desc_comm2if (in_desc : CommDesc) : C2hIfDesc where
  dest_addr := in_desc.dest_addr
  len := in_desc.len
  desc_type := in_desc.desc_type

structure C2hDataParams extends C2hBufParams where
  PCIM_MAX_WR_SIZE : Nat

structure C2hDataIn where
  desc_dm_desc_valid : Bool
  desc_dm_desc : CommDesc
  pm_dm_awready : Bool
  pm_dm_wready : Bool
  pm_dm_bvalid : Bool
  pm_dm_bresp : BitVec 2
  wb_dm_md_grant : Bool
  buf_dm_aux_valid : Bool
  buf_dm_aux_data : C2hAux
  buf_dm_num_bytes : Nat
  buf_dm_data : BitVec 512

inductive C2hReqState where
  | REQ_IDLE
  | REQ_GET_DESC
  | REQ_WAIT_DATA
  | REQ_ADDR
  | REQ_DATA
  | REQ_WAIT_CALC
  deriving DecidableEq

/-- The registers `curr_txn_*` that a burst keeps. -/
structure C2hTxn where
  dest_addr : BitVec 64
  num_bytes : Nat
  awlen : Nat
  num_bytes_fo : Nat
  num_bytes_sav : Nat
  num_bytes_dw_minus_sav : Nat
  case1_a_gt_r : Bool
  case2_r_gt_a : Bool
  case3_a_eq_r : Bool
  deriving DecidableEq

/-- The registers `pl0_dp_*`. -/
structure C2hPl0 where
  valid : Bool
  byte_rd_addr : Nat

/-- The registers `pl1_dp_*`. -/
structure C2hPl1 where
  valid : Bool
  rd : Bool
  byte_rd_addr : Nat

/-- The registers `pl2_dp_*`. -/
structure C2hPl2 where
  valid : Bool
  data : BitVec 512
  byte_rd_addr : Nat
  ovf : Bool
  ovf_data : BitVec 512
  ovf_byte_rd_addr : Nat

/-- The registers `pl3_dp_*`. -/
structure C2hPl3 where
  valid : Bool
  num_bytes : Nat
  first : Bool
  last : Bool
  eop : Bool
  data : BitVec 512
  num_bytes_remain : Nat

/-- The registers `pl4_dp_*`. -/
structure C2hPl4 where
  valid : Bool
  num_bytes : Nat
  first : Bool
  last : Bool
  eop : Bool
  data : BitVec 512

/-- The registers `pl5_dp_*`. -/
structure C2hPl5 where
  valid : Bool
  num_bytes : Nat
  first : Bool
  last : Bool
  eop : Bool
  data : BitVec 512
  strb : BitVec 64
  byte_rd_addr : Nat
  num_beats : Nat

/-- What is kept of a descriptor until its responses have come. -/
structure C2hWbRec where
  eop : Bool
  num_bytes : Nat
  num_bresp_minus1 : Nat
  user : BitVec 64
  deriving DecidableEq

/-- `dm_wb_md`, where the other bits are constant. -/
structure C2hMd where
  eop : Bool
  len : Nat
  user : BitVec 64
  deriving DecidableEq

structure C2hData where
  buf_dm_num_bytes_q : Nat
  buf_dm_aux_valid_q : Bool
  buf_dm_aux_data_q : C2hAux
  req_state : C2hReqState
  curr_desc : C2hIfDesc
  curr_desc_dest_addr : BitVec 64
  curr_desc_max_minus_dest_addr : Nat
  curr_desc_len : Nat
  curr_desc_num_txns : Nat
  curr_desc_num_bytes : Nat
  curr_buf_byte_rd_addr : Nat
  curr_txn : C2hTxn
  dm_buf_rd_byte_addr : Nat
  aw_req_done_q : Bool
  pl0_dp : C2hPl0
  pl1_dp : C2hPl1
  pl2_dp : C2hPl2
  pl3_dp : C2hPl3
  pl4_dp : C2hPl4
  pl5_dp : C2hPl5
  DP_DATA_OUTPUT_FIFO : List WBeat
  DP_WB_FIFO : RamFifoFt C2hWbRec
  DP_DATA_BRESP_FIFO : List (BitVec 2)
  curr_desc_bresp_cnt : Nat
  curr_desc_send_to_wb_q : Bool
  dm_wb_md_req : Bool
  dm_wb_md : C2hMd
  bresp_prealloc_avail_cnt : Nat
  dm_cfg_bresp_err : Bool
  dm_cfg_desc_len_err : Bool
  dm_num_beats_err : Bool

namespace C2hData

open C2hBuf (BUF_SIZE_BYTES)

def DP_DATA_OUTPUT_FIFO_DEPTH : Nat := 4

def DP_WB_FIFO_DEPTH : Nat := 32

def DP_DATA_BRESP_FIFO_DEPTH : Nat := 32

/-- A beat of 64 bytes allows for bursts of 4096. -/
def PCIM_MAX_WR_SIZE_BYTES (p : C2hDataParams) : Nat :=
  match p.PCIM_MAX_WR_SIZE with
  | 0 => 512
  | 1 => 1024
  | 2 => 2048
  | _ => 4096

def min_bytes_2 (inp1 inp2 : Nat) : Nat := if inp2 < inp1 then inp2 else inp1

/-- A difference of two numbers of bytes, in the `PCIM_ADDR_BYTE_IDX_WIDTH + 1` bits it has. -/
def sub_bytes (a b : Nat) : Nat := (a + 2 * PCIM_DATA_WIDTH_BYTES - b) % (2 * PCIM_DATA_WIDTH_BYTES)

/-- The byte of a beat that an address goes to. -/
def byte_idx (addr : Nat) : Nat := addr % PCIM_DATA_WIDTH_BYTES

variable (p : C2hDataParams) (i : C2hDataIn) (s : C2hData)

/-! ## The output FIFO and what it tells the others -/

def dp_stall : Bool := watermark (DP_DATA_OUTPUT_FIFO_DEPTH - 1) s.DP_DATA_OUTPUT_FIFO

def dp_data_out_ff_push : Bool := s.pl5_dp.valid && !dp_stall s

def dp_data_out_ff_push_data : WBeat := ⟨s.pl5_dp.data, s.pl5_dp.strb, s.pl5_dp.last⟩

def dm_pm_wvalid : Bool := !s.DP_DATA_OUTPUT_FIFO.isEmpty

def dp_data_out_ff_pop : Bool := dm_pm_wvalid s && i.pm_dm_wready

def data_rd_addr_update : Bool := s.pl5_dp.valid && !dp_stall s

def data_tx_done : Bool := s.pl5_dp.valid && !dp_stall s && s.pl5_dp.last

def data_desc_done : Bool :=
  data_tx_done s && (decide (s.curr_desc_len ≤ s.curr_txn.num_bytes) || s.pl5_dp.eop)

def data_desc_done_w_eop : Bool := data_tx_done s && s.pl5_dp.eop

def dm_buf_aux_pop : Bool := data_desc_done_w_eop s

def dm_desc_cnt_inc : Bool := data_desc_done s

/-! ## Responses and metadata -/

def dp_wb_ff_full : Bool := s.DP_WB_FIFO.wmark DP_WB_FIFO_DEPTH (DP_WB_FIFO_DEPTH - 1)

def dp_wb_ff_push : Bool := data_desc_done s && !dp_wb_ff_full s

def dp_wb_ff_push_data : C2hWbRec where
  eop := s.pl5_dp.eop
  num_bytes := s.curr_desc_num_bytes + s.curr_txn.num_bytes
  num_bresp_minus1 := s.curr_desc_num_txns
  user := s.buf_dm_aux_data_q.user

def dp_wb_ff_valid : Bool := s.DP_WB_FIFO.valid

def dp_wb_zero : C2hWbRec := ⟨false, 0, 0, 0⟩

def dp_wb_ff_pop_data : C2hWbRec := s.DP_WB_FIFO.pop_data dp_wb_zero

def dp_wb_ff_pop : Bool := s.dm_wb_md_req && i.wb_dm_md_grant && dp_wb_ff_valid s

def dp_bresp_ff_full : Bool := watermark (DP_DATA_BRESP_FIFO_DEPTH - 1) s.DP_DATA_BRESP_FIFO

def dp_bresp_ff_push : Bool := i.pm_dm_bvalid && !dp_bresp_ff_full s

def dm_pm_bready : Bool := !dp_bresp_ff_full s

def dp_bresp_ff_valid : Bool := !s.DP_DATA_BRESP_FIFO.isEmpty

def curr_desc_send_to_wb : Bool :=
  dp_bresp_ff_valid s && dp_wb_ff_valid s &&
    decide ((dp_wb_ff_pop_data s).num_bresp_minus1 ≤ s.curr_desc_bresp_cnt)

def curr_desc_wb_complete : Bool :=
  curr_desc_send_to_wb s && s.curr_desc_send_to_wb_q && s.dm_wb_md_req && i.wb_dm_md_grant

def dp_bresp_ff_pop : Bool :=
  if curr_desc_send_to_wb s then curr_desc_wb_complete i s else dp_bresp_ff_valid s

def bresp_prealloc_avail : Bool := 0 < s.bresp_prealloc_avail_cnt

/-! ## Requests -/

def desc_dm_desc_in : C2hIfDesc := c2h_cnv_desc_comm2if i.desc_dm_desc

def dm_desc_pop : Bool := s.req_state = .REQ_IDLE && i.desc_dm_desc_valid

/-- `(req_state == REQ_DATA) && data_tx_done`. -/
def data_txn_done : Bool := s.req_state = .REQ_DATA && data_tx_done s

def dm_pm_awvalid : Bool := s.req_state = .REQ_ADDR

def aw_req_done : Bool := dm_pm_awvalid s && i.pm_dm_awready

def curr_txn_addr_complete : Bool := aw_req_done i s || s.aw_req_done_q

def curr_desc_dest_addr_d : BitVec 64 :=
  if dm_desc_pop i s then (desc_dm_desc_in i).dest_addr
  else if data_txn_done s then s.curr_desc_dest_addr + BitVec.ofNat 64 s.curr_txn.num_bytes
  else s.curr_desc_dest_addr

def curr_txn_max_bytes : Nat := s.curr_desc_max_minus_dest_addr

/-- By the bits 31 to 13 and 12 to 0 of the length. -/
def curr_txn_num_bytes_required : Nat :=
  if s.curr_desc_len / 2 ^ 13 ≠ 0 then curr_txn_max_bytes s
  else if curr_txn_max_bytes s < s.curr_desc_len % 2 ^ 13 then curr_txn_max_bytes s
  else s.curr_desc_len

def curr_txn_data_avail : Bool :=
  s.buf_dm_aux_valid_q || curr_txn_num_bytes_required s ≤ s.buf_dm_num_bytes_q

def curr_txn_min_num_bytes : Nat :=
  if s.buf_dm_num_bytes_q < curr_txn_num_bytes_required s then s.buf_dm_num_bytes_q
  else curr_txn_num_bytes_required s

/-! ### The place in the buffer -/

def wrap (addr : Nat) : Nat :=
  if BUF_SIZE_BYTES p.toC2hBufParams ≤ addr then addr - BUF_SIZE_BYTES p.toC2hBufParams else addr

def curr_buf_byte_rd_addr_next : Nat := wrap p (s.curr_buf_byte_rd_addr + s.curr_txn.num_bytes)

def curr_buf_ram_rd_addr_next : Nat :=
  if byte_idx (curr_buf_byte_rd_addr_next p s) = 0 then
    curr_buf_byte_rd_addr_next p s / PCIM_DATA_WIDTH_BYTES
  else if curr_buf_byte_rd_addr_next p s / PCIM_DATA_WIDTH_BYTES = p.BUF_DEPTH - 1 then 0
  else curr_buf_byte_rd_addr_next p s / PCIM_DATA_WIDTH_BYTES + 1

/-! ### The registers of a burst -/

/-- `curr_desc_dest_addr[0 +: PCIM_ADDR_BYTE_IDX_WIDTH]`. -/
def dest_idx : Nat := byte_idx s.curr_desc_dest_addr.toNat

/-- `curr_buf_byte_rd_addr[0 +: PCIM_ADDR_BYTE_IDX_WIDTH]`. -/
def rd_idx : Nat := byte_idx s.curr_buf_byte_rd_addr

def curr_txn_case1_a_gt_r_d : Bool := rd_idx s < dest_idx s

def curr_txn_awlen_2_extra_beats : Bool :=
  PCIM_DATA_WIDTH_BYTES < byte_idx (curr_txn_min_num_bytes s) + dest_idx s

def curr_txn_awlen_1_extra_beat : Bool := byte_idx (curr_txn_min_num_bytes s) ≠ 0 || dest_idx s ≠ 0

def curr_txn_awlen_d : Nat :=
  if curr_txn_awlen_2_extra_beats s then curr_txn_min_num_bytes s / PCIM_DATA_WIDTH_BYTES + 1
  else if curr_txn_awlen_1_extra_beat s then curr_txn_min_num_bytes s / PCIM_DATA_WIDTH_BYTES
  else (curr_txn_min_num_bytes s / PCIM_DATA_WIDTH_BYTES + 255) % 256

/-- What the registers of a burst follow in `REQ_WAIT_DATA`. -/
def curr_txn_d : C2hTxn where
  dest_addr := s.curr_desc_dest_addr
  num_bytes := curr_txn_min_num_bytes s
  awlen := curr_txn_awlen_d s
  num_bytes_fo := PCIM_DATA_WIDTH_BYTES - dest_idx s
  num_bytes_sav :=
    if curr_txn_case1_a_gt_r_d s then dest_idx s - rd_idx s
    else PCIM_DATA_WIDTH_BYTES - (rd_idx s - dest_idx s)
  num_bytes_dw_minus_sav :=
    if curr_txn_case1_a_gt_r_d s then PCIM_DATA_WIDTH_BYTES - (dest_idx s - rd_idx s)
    else rd_idx s - dest_idx s
  case1_a_gt_r := curr_txn_case1_a_gt_r_d s
  case2_r_gt_a := dest_idx s < rd_idx s
  case3_a_eq_r := dest_idx s = rd_idx s

def req_state_next : C2hReqState :=
  match s.req_state with
  | .REQ_IDLE => if i.desc_dm_desc_valid then .REQ_WAIT_DATA else .REQ_IDLE
  | .REQ_GET_DESC => .REQ_GET_DESC
  | .REQ_WAIT_DATA =>
    if curr_txn_data_avail s && !dp_wb_ff_full s && bresp_prealloc_avail s then .REQ_ADDR
    else .REQ_WAIT_DATA
  | .REQ_ADDR => if aw_req_done i s then .REQ_DATA else .REQ_ADDR
  | .REQ_DATA =>
    if data_tx_done s && data_desc_done s then .REQ_IDLE
    else if data_tx_done s then .REQ_WAIT_CALC
    else .REQ_DATA
  | .REQ_WAIT_CALC => .REQ_WAIT_DATA

def bresp_prealloc_avail_cnt_dec : Bool :=
  s.req_state = .REQ_ADDR && req_state_next i s ≠ .REQ_ADDR

def bresp_prealloc_avail_cnt_inc : Bool := dp_bresp_ff_pop i s

/-! ## Stages 0 to 2: a row is read -/

def dm_buf_rd : Bool := s.pl0_dp.valid && !dp_stall s

def dm_buf_addr : Nat := s.pl0_dp.byte_rd_addr / PCIM_DATA_WIDTH_BYTES

def stg0 : C2hPl0 where
  valid :=
    if curr_txn_addr_complete i s then true
    else if data_txn_done s then false
    else s.pl0_dp.valid
  byte_rd_addr :=
    if s.req_state = .REQ_IDLE || s.req_state = .REQ_GET_DESC || s.req_state = .REQ_WAIT_DATA then
      s.pl0_dp.byte_rd_addr
    else if curr_txn_addr_complete i s then s.curr_buf_byte_rd_addr
    else wrap p (s.pl0_dp.byte_rd_addr + PCIM_DATA_WIDTH_BYTES)

def stg1_dp_valid : Bool := if data_txn_done s then false else s.pl0_dp.valid

def stg2_dp_valid : Bool := if data_txn_done s then false else s.pl1_dp.valid || s.pl2_dp.ovf

def stg2_dp_ovf : Bool :=
  if data_txn_done s then false
  else if s.pl1_dp.rd && dp_stall s then true
  else if !dp_stall s then false
  else s.pl2_dp.ovf

/-! ## Stage 3: the bytes of the burst -/

def buf_dm_aux_eop_byte_addr : Nat := s.buf_dm_aux_data_q.eop_byte_addr

def buf_dm_aux_eop_num_bytes : Nat := byte_idx (buf_dm_aux_eop_byte_addr s) + 1

def stg3_dp_eop_slice_in : Bool :=
  s.pl2_dp.valid && s.pl2_dp.byte_rd_addr / PCIM_DATA_WIDTH_BYTES =
    buf_dm_aux_eop_byte_addr s / PCIM_DATA_WIDTH_BYTES && s.buf_dm_aux_valid_q

def stg3_dp_first_slice_in : Bool := !s.pl3_dp.valid && s.pl3_dp.first && s.pl2_dp.valid

def stg3_dp_num_bytes_in : Nat :=
  if stg3_dp_first_slice_in s && stg3_dp_eop_slice_in s then
    sub_bytes (buf_dm_aux_eop_num_bytes s) (rd_idx s)
  else if stg3_dp_first_slice_in s then PCIM_DATA_WIDTH_BYTES - rd_idx s
  else if stg3_dp_eop_slice_in s then buf_dm_aux_eop_num_bytes s
  else PCIM_DATA_WIDTH_BYTES

def stg3_dp_num_bytes : Nat := min_bytes_2 (stg3_dp_num_bytes_in s) s.pl3_dp.num_bytes_remain

/-- The stages 3 to 5 run in `REQ_DATA`, until its last beat. -/
def dp_run (valid : Bool) : Bool :=
  if data_txn_done s then false else if s.req_state = .REQ_DATA then valid else false

def stg3 : C2hPl3 where
  valid := dp_run s s.pl2_dp.valid
  num_bytes := stg3_dp_num_bytes s
  first :=
    if curr_txn_addr_complete i s then true
    else if s.pl3_dp.valid && s.pl3_dp.first then false
    else s.pl3_dp.first
  last := s.pl3_dp.num_bytes_remain ≤ stg3_dp_num_bytes_in s
  eop := stg3_dp_eop_slice_in s && s.pl3_dp.num_bytes_remain = stg3_dp_num_bytes_in s
  data := if stg3_dp_first_slice_in s then s.pl2_dp.data >>> (8 * rd_idx s) else s.pl2_dp.data
  num_bytes_remain :=
    if curr_txn_addr_complete i s then s.curr_txn.num_bytes
    else if s.pl2_dp.valid then s.pl3_dp.num_bytes_remain - stg3_dp_num_bytes s
    else s.pl3_dp.num_bytes_remain

/-! ## Stage 4: what is saved for the next beat -/

section Stage4

variable (txn : C2hTxn) (pl3 : C2hPl3)

/-- The bytes that come behind those of the beat before. -/
def stg4_dp_shift : Nat := if pl3.first then txn.num_bytes_fo else txn.num_bytes_dw_minus_sav

def stg4_case1 : C2hPl4 where
  valid := pl3.valid
  num_bytes :=
    if pl3.first && pl3.last then sub_bytes pl3.num_bytes txn.num_bytes_fo
    else if pl3.first then min_bytes_2 pl3.num_bytes txn.num_bytes_sav
    else sub_bytes pl3.num_bytes txn.num_bytes_dw_minus_sav
  first := false
  last := pl3.last && stg4_dp_shift txn pl3 < pl3.num_bytes
  eop := pl3.eop && stg4_dp_shift txn pl3 < pl3.num_bytes
  data := pl3.data >>> (8 * stg4_dp_shift txn pl3)

def stg4_case2 : C2hPl4 where
  valid := pl3.valid
  num_bytes :=
    if pl3.first then pl3.num_bytes else sub_bytes pl3.num_bytes txn.num_bytes_dw_minus_sav
  first := pl3.first
  last := if pl3.first then pl3.last else pl3.last && txn.num_bytes_dw_minus_sav < pl3.num_bytes
  eop := if pl3.first then pl3.eop else pl3.eop && txn.num_bytes_dw_minus_sav < pl3.num_bytes
  data := if pl3.first then pl3.data else pl3.data >>> (8 * txn.num_bytes_dw_minus_sav)

end Stage4

def stg4 : C2hPl4 :=
  { if s.curr_txn.case1_a_gt_r then stg4_case1 s.curr_txn s.pl3_dp
    else stg4_case2 s.curr_txn s.pl3_dp with
    valid := dp_run s (s.pl3_dp.valid && !s.curr_txn.case3_a_eq_r) }

/-! ## Stage 5: the beats -/

/-- What stage 5 computes for each of the three cases. -/
structure Beat where
  valid : Bool
  num_bytes : Nat
  first : Bool
  last : Bool
  eop : Bool
  data : BitVec 512

section Stage5

variable (txn : C2hTxn) (pl3 : C2hPl3) (pl4 : C2hPl4)

/-- The loop over `byte_idx`. -/
def stg5_dp_data_comb : BitVec 512 :=
  of_lanes 64 fun byte_idx =>
    if byte_idx < pl4.num_bytes then lane 8 pl4.data byte_idx
    else lane 8 pl3.data (byte_idx - pl4.num_bytes)

def stg5_dp_num_bytes_comb : Nat := (pl3.num_bytes + pl4.num_bytes) % (2 * PCIM_DATA_WIDTH_BYTES)

/-- `curr_txn_dest_addr[0 +: PCIM_ADDR_BYTE_IDX_WIDTH]`. -/
def txn_dest_idx : Nat := byte_idx txn.dest_addr.toNat

def stg5_case1 : Beat where
  valid := pl3.valid
  num_bytes :=
    if pl3.first then min_bytes_2 txn.num_bytes_fo pl3.num_bytes
    else if pl4.last then pl4.num_bytes
    else min_bytes_2 PCIM_DATA_WIDTH_BYTES (stg5_dp_num_bytes_comb pl3 pl4)
  first := pl3.first
  last :=
    if pl3.first then pl3.last && pl3.num_bytes ≤ txn.num_bytes_fo
    else (pl4.last && pl4.num_bytes ≤ txn.num_bytes_sav) ||
      (!pl4.last && pl3.last && pl3.num_bytes ≤ txn.num_bytes_dw_minus_sav)
  eop :=
    if pl3.first then pl3.eop && pl3.num_bytes ≤ txn.num_bytes_fo
    else (pl4.eop && pl4.num_bytes ≤ txn.num_bytes_sav) ||
      (!pl4.eop && pl3.eop && pl3.num_bytes ≤ txn.num_bytes_dw_minus_sav)
  data := if pl3.first then pl3.data <<< (8 * txn_dest_idx txn) else stg5_dp_data_comb pl3 pl4

def stg5_case2 : Beat where
  valid := pl4.valid
  num_bytes :=
    if pl4.first then
      if pl4.last then pl4.num_bytes
      else min_bytes_2 (stg5_dp_num_bytes_comb pl3 pl4) txn.num_bytes_fo
    else if pl4.last then pl4.num_bytes
    else if pl3.last && pl3.num_bytes ≤ txn.num_bytes_dw_minus_sav then stg5_dp_num_bytes_comb pl3 pl4
    else min_bytes_2 (stg5_dp_num_bytes_comb pl3 pl4) PCIM_DATA_WIDTH_BYTES
  first := pl4.first
  last := pl4.last || (!pl4.last && pl3.last && pl3.num_bytes ≤ txn.num_bytes_dw_minus_sav)
  eop := pl4.eop || (!pl4.eop && pl3.eop && pl3.num_bytes ≤ txn.num_bytes_dw_minus_sav)
  data :=
    if pl4.first then stg5_dp_data_comb pl3 pl4 <<< (8 * txn_dest_idx txn)
    else stg5_dp_data_comb pl3 pl4

def stg5_case3 : Beat where
  valid := pl3.valid
  num_bytes := pl3.num_bytes
  first := pl3.first
  last := pl3.last
  eop := pl3.eop
  data := if pl3.first then pl3.data <<< (8 * txn_dest_idx txn) else pl3.data

def stg5_beat : Beat :=
  if txn.case1_a_gt_r then stg5_case1 txn pl3 pl4
  else if txn.case2_r_gt_a then stg5_case2 txn pl3 pl4
  else stg5_case3 txn pl3

/-- The loop over `byte_idx`. -/
def stg5_dp_strb_all (num_bytes : Nat) : BitVec 64 :=
  of_lanes 64 fun byte_idx => BitVec.ofBool (byte_idx < num_bytes)

def stg5_dp_strb (beat : Beat) : BitVec 64 :=
  if beat.first then stg5_dp_strb_all beat.num_bytes <<< txn_dest_idx txn
  else stg5_dp_strb_all beat.num_bytes

end Stage5

def stg5 : C2hPl5 :=
  let beat := stg5_beat s.curr_txn s.pl3_dp s.pl4_dp
  let valid := dp_run s beat.valid
  { valid
    num_bytes := beat.num_bytes
    first := beat.first
    last := beat.last
    eop := beat.eop
    data := beat.data
    strb := stg5_dp_strb s.curr_txn beat
    byte_rd_addr :=
      if curr_txn_addr_complete i s then s.curr_buf_byte_rd_addr
      else if valid then wrap p (s.pl5_dp.byte_rd_addr + beat.num_bytes)
      else s.pl5_dp.byte_rd_addr
    num_beats :=
      if valid && beat.first then s.curr_txn.awlen
      else if valid then (s.pl5_dp.num_beats + 255) % 256
      else s.pl5_dp.num_beats }

/-! ## The registers -/

/-- A length is never less than what is taken from it, and no other sum or difference needs more
bits than its register has. -/
def step : C2hData where
  buf_dm_num_bytes_q := i.buf_dm_num_bytes
  buf_dm_aux_valid_q := i.buf_dm_aux_valid
  buf_dm_aux_data_q := i.buf_dm_aux_data
  req_state := req_state_next i s
  curr_desc := if dm_desc_pop i s then desc_dm_desc_in i else s.curr_desc
  curr_desc_dest_addr := curr_desc_dest_addr_d i s
  curr_desc_max_minus_dest_addr :=
    PCIM_MAX_WR_SIZE_BYTES p - (curr_desc_dest_addr_d i s).toNat % PCIM_MAX_WR_SIZE_BYTES p
  curr_desc_len :=
    if dm_desc_pop i s then (desc_dm_desc_in i).len.toNat
    else if data_txn_done s then s.curr_desc_len - s.curr_txn.num_bytes
    else s.curr_desc_len
  curr_desc_num_txns :=
    if dm_desc_pop i s then 0
    else if data_txn_done s then s.curr_desc_num_txns + 1
    else s.curr_desc_num_txns
  curr_desc_num_bytes :=
    if dm_desc_pop i s then 0
    else if data_txn_done s then s.curr_desc_num_bytes + s.curr_txn.num_bytes
    else s.curr_desc_num_bytes
  curr_buf_byte_rd_addr :=
    if s.req_state = .REQ_DATA && data_desc_done_w_eop s then
      curr_buf_ram_rd_addr_next p s * PCIM_DATA_WIDTH_BYTES
    else if data_txn_done s then curr_buf_byte_rd_addr_next p s
    else s.curr_buf_byte_rd_addr
  curr_txn := if s.req_state = .REQ_WAIT_DATA then curr_txn_d s else s.curr_txn
  dm_buf_rd_byte_addr :=
    if s.req_state = .REQ_DATA && data_desc_done_w_eop s then
      curr_buf_ram_rd_addr_next p s * PCIM_DATA_WIDTH_BYTES
    else if data_txn_done s then curr_buf_byte_rd_addr_next p s
    else if s.req_state = .REQ_DATA && data_rd_addr_update s then s.pl5_dp.byte_rd_addr
    else s.dm_buf_rd_byte_addr
  aw_req_done_q :=
    if aw_req_done i s && dp_stall s then true
    else if s.aw_req_done_q && !dp_stall s then false
    else s.aw_req_done_q
  pl0_dp := if !dp_stall s then stg0 p i s else s.pl0_dp
  pl1_dp :=
    { valid := if !dp_stall s then stg1_dp_valid s else s.pl1_dp.valid
      rd := dm_buf_rd s && !data_tx_done s
      byte_rd_addr := s.pl0_dp.byte_rd_addr }
  pl2_dp :=
    { valid := if !dp_stall s then stg2_dp_valid s else s.pl2_dp.valid
      data :=
        if !dp_stall s then if s.pl2_dp.ovf then s.pl2_dp.ovf_data else i.buf_dm_data
        else s.pl2_dp.data
      byte_rd_addr :=
        if !dp_stall s then
          if s.pl2_dp.ovf then s.pl2_dp.ovf_byte_rd_addr else s.pl1_dp.byte_rd_addr
        else s.pl2_dp.byte_rd_addr
      ovf := stg2_dp_ovf s
      ovf_data := if s.pl1_dp.rd && dp_stall s then i.buf_dm_data else s.pl2_dp.ovf_data
      ovf_byte_rd_addr :=
        if s.pl1_dp.rd && dp_stall s then s.pl1_dp.byte_rd_addr else s.pl2_dp.ovf_byte_rd_addr }
  pl3_dp := if !dp_stall s then stg3 i s else s.pl3_dp
  pl4_dp := if !dp_stall s then stg4 s else s.pl4_dp
  pl5_dp := if !dp_stall s then stg5 p i s else s.pl5_dp
  DP_DATA_OUTPUT_FIFO := flop_fifo DP_DATA_OUTPUT_FIFO_DEPTH
    (if dp_data_out_ff_push s then some (dp_data_out_ff_push_data s) else none)
    (dp_data_out_ff_pop i s) s.DP_DATA_OUTPUT_FIFO
  DP_WB_FIFO := s.DP_WB_FIFO.step DP_WB_FIFO_DEPTH (dp_wb_ff_push s) (dp_wb_ff_push_data s)
    (dp_wb_ff_pop i s)
  DP_DATA_BRESP_FIFO := flop_fifo_in DP_DATA_BRESP_FIFO_DEPTH
    (if dp_bresp_ff_push i s then some i.pm_dm_bresp else none) (dp_bresp_ff_pop i s)
    s.DP_DATA_BRESP_FIFO
  curr_desc_bresp_cnt :=
    if curr_desc_wb_complete i s then 0
    else if dp_bresp_ff_pop i s then (s.curr_desc_bresp_cnt + 1) % 2 ^ 32
    else s.curr_desc_bresp_cnt
  curr_desc_send_to_wb_q := curr_desc_send_to_wb s
  dm_wb_md_req :=
    if s.dm_wb_md_req && i.wb_dm_md_grant then false
    else if curr_desc_send_to_wb s then true
    else s.dm_wb_md_req
  dm_wb_md :=
    ⟨(dp_wb_ff_pop_data s).eop, (dp_wb_ff_pop_data s).num_bytes, (dp_wb_ff_pop_data s).user⟩
  bresp_prealloc_avail_cnt :=
    if bresp_prealloc_avail_cnt_inc i s && !bresp_prealloc_avail_cnt_dec i s then
      (s.bresp_prealloc_avail_cnt + 1) % 256
    else if !bresp_prealloc_avail_cnt_inc i s && bresp_prealloc_avail_cnt_dec i s then
      (s.bresp_prealloc_avail_cnt + 255) % 256
    else s.bresp_prealloc_avail_cnt
  dm_cfg_bresp_err :=
    dp_bresp_ff_valid s && dp_bresp_ff_pop i s && s.DP_DATA_BRESP_FIFO.headD 0 ≠ 0
  dm_cfg_desc_len_err := dm_desc_pop i s && decide ((desc_dm_desc_in i).len = 0)
  dm_num_beats_err := data_tx_done s && s.pl5_dp.num_beats ≠ 0

def start : C2hData where
  buf_dm_num_bytes_q := 0
  buf_dm_aux_valid_q := false
  buf_dm_aux_data_q := ⟨0, 0⟩
  req_state := .REQ_IDLE
  curr_desc := ⟨0, 0, false⟩
  curr_desc_dest_addr := 0
  curr_desc_max_minus_dest_addr := 0
  curr_desc_len := 0
  curr_desc_num_txns := 0
  curr_desc_num_bytes := 0
  curr_buf_byte_rd_addr := 0
  curr_txn := ⟨0, 0, 0, 0, 0, 0, false, false, false⟩
  dm_buf_rd_byte_addr := 0
  aw_req_done_q := false
  pl0_dp := ⟨false, 0⟩
  pl1_dp := ⟨false, false, 0⟩
  pl2_dp := ⟨false, 0, 0, false, 0, 0⟩
  pl3_dp := ⟨false, 0, false, false, false, 0, 0⟩
  pl4_dp := ⟨false, 0, false, false, false, 0⟩
  pl5_dp := ⟨false, 0, false, false, false, 0, 0, 0, 0⟩
  DP_DATA_OUTPUT_FIFO := []
  DP_WB_FIFO := .start dp_wb_zero
  DP_DATA_BRESP_FIFO := []
  curr_desc_bresp_cnt := 0
  curr_desc_send_to_wb_q := false
  dm_wb_md_req := false
  dm_wb_md := ⟨false, 0, 0⟩
  bresp_prealloc_avail_cnt := DP_DATA_BRESP_FIFO_DEPTH
  dm_cfg_bresp_err := false
  dm_cfg_desc_len_err := false
  dm_num_beats_err := false

end C2hData

end AwsFpga.Rtl
