import AwsFpga.Lib.Lanes
import AwsFpga.Rtl.SdePmWrite

/-!
# Write-back (`sde_wb.sv`)

The status of the engine goes to a fixed address of the host, and the metadata of the
packets to a ring. A status is due when one of its counters has moved far or long enough.
An arbiter chooses what is written next. The address and the data of a write go their
own ways, and its response is matched through a FIFO.

`H2C_N_C2H` and `DESC_TYPE` are 0, and a beat has 64 bytes.
-/

open Lib Lib.Axi

namespace AwsFpga.Rtl

/-- `requester_t`. -/
inductive WbRequester where
  | WB_STATUS
  | WB_METADATA
  deriving DecidableEq

/-- The counter of free entries has 8 bits. -/
structure WbParams where
  PCIM_WB_AWID : BitVec 3
  DESC_RAM_DEPTH : BitVec 32
  WB_BRESP_TRK_FIFO_DEPTH : Nat
  depth_pos : 0 < WB_BRESP_TRK_FIFO_DEPTH
  depth_lt : WB_BRESP_TRK_FIFO_DEPTH < 2 ^ 8

structure WbCfg where
  cfg_wb_desc_cdt_en : Bool
  cfg_wb_desc_cnt_en : Bool
  cfg_wb_pkt_cnt_en : Bool
  cfg_wb_md_ptr_en : Bool
  cfg_wb_status_addr : BitVec 48
  cfg_wb_md_ring_addr : BitVec 48
  cfg_wb_md_ring_size : BitVec 32
  cfg_desc_cdt_wc_en : Bool
  cfg_desc_cnt_wc_en : Bool
  cfg_pkt_cnt_wc_en : Bool
  cfg_md_wr_ptr_wc_en : Bool
  cfg_wc_tick_cnt : BitVec 20
  cfg_wc_to_cnt : BitVec 4
  cfg_wc_cnt_minus1 : BitVec 6
  deriving DecidableEq

structure WbIn where
  cfg : WbCfg
  cfg_wb_md_rd_ptr : BitVec 16
  cfg_wb_clr_wr_ptr : Bool
  cfg_wb_desc_error : Bool
  cfg_wb_dm_error : Bool
  cfg_wb_wb_error : Bool
  cfg_desc_clr_cdt_limit : Bool
  cfg_desc_clr_desc_cnt : Bool
  cfg_axis_clr_pkt_cnt : Bool
  desc_wb_limit : BitVec 32
  desc_wb_cnt : BitVec 32
  axis_wb_pkt_cnt : BitVec 32
  dm_wb_md_req : Bool
  dm_wb_md : BitVec 128
  pm_wb_awready : Bool
  pm_wb_wready : Bool
  pm_wb_bvalid : Bool
  pm_wb_bresp : BitVec 2

/-- The counters whose writes are coalesced. -/
inductive WbCounter where
  | desc_cdt
  | desc_cnt
  | pkt_cnt
  | md_wr_ptr
  deriving DecidableEq

/-- The registers `*_req_wc_cnt`, `*_req_wc_to_cnt` and `*_req_pend` of a counter. -/
structure WcRegs where
  req_wc_cnt : Nat
  req_wc_to_cnt : Nat
  req_pend : Bool
  deriving DecidableEq

/-- `wr_state_t`. -/
inductive WbWrState where
  | WR_IDLE
  | WR_GET_DATA
  | WR_REQ
  deriving DecidableEq

/-- The registers. `winner_q` is that of the arbiter. -/
structure Wb where
  num_md_in_ring : Nat
  md_wr_ptr : BitVec 16
  wc_to_tick_cnt : Nat
  desc_cdt : WcRegs
  desc_cnt : WcRegs
  pkt_cnt : WcRegs
  md_ptr : WcRegs
  dm_wb_md_req_pend : Bool
  status_dw_req_pend : Bool
  winner_q : Nat
  start_new_req : Bool
  addr_active : Bool
  req_winner : WbRequester
  wb_pm_awvalid : Bool
  wb_pm_aw : AwReq
  wb_pm_awid : BitVec 3
  wr_active : Bool
  wr_active_q : Bool
  wr_active_re_q : Bool
  wr_state : WbWrState
  status_dw_q : BitVec 32
  desc_wb_limit_q : BitVec 32
  desc_wb_cnt_q : BitVec 32
  axis_wb_pkt_cnt_q : BitVec 32
  md_wr_ptr_q : BitVec 16
  wb_wr_idx : Nat
  wb_wr_num_bytes_sent : Nat
  wb_pm_wvalid : Bool
  wb_pm_w : WBeat
  WB_BRESP_TRK_FIFO : List (WbRequester × BitVec 64)
  bresp_prealloc_avail_cnt : Nat
  wb_cfg_md_bresp_err : Bool
  wb_cfg_sts_bresp_err : Bool
  deriving DecidableEq

namespace Wb

def WB_MD_WIDTH_BYTES : Nat := 16

def WB_STATUS_NUM_BYTES : Nat := 20

def PCIM_DATA_WIDTH_BYTES : Nat := 64

variable (p : WbParams) (i : WbIn) (s : Wb)

/-- Descriptor, data mover and write-back errors, from bit 0 on. -/
def status_dw : BitVec 32 :=
  (BitVec.ofBool i.cfg_wb_wb_error ++ BitVec.ofBool i.cfg_wb_dm_error ++
    BitVec.ofBool i.cfg_wb_desc_error).setWidth 32

/-! ## The ring of metadata -/

def md_wr_ptr_next_inc : Nat := s.md_wr_ptr.toNat + 1

def md_wr_ptr_next : BitVec 16 :=
  .ofNat 16 (if s.num_md_in_ring ≤ md_wr_ptr_next_inc s then md_wr_ptr_next_inc s - s.num_md_in_ring
    else md_wr_ptr_next_inc s)

/-- Bits 3 to 0 are those of the ring, and the pointer is added to the 44 bits above. -/
def md_wr_addr : BitVec 64 :=
  0#16 ++ (s.md_wr_ptr.setWidth 44 + i.cfg.cfg_wb_md_ring_addr.extractLsb' 4 44) ++
    i.cfg.cfg_wb_md_ring_addr.extractLsb' 0 4

/-- It has 17 bits. -/
def md_wr_ptr_plus1_rovr : Nat :=
  if s.num_md_in_ring ≤ md_wr_ptr_next_inc s then 0 else md_wr_ptr_next_inc s

def md_ring_full : Bool := md_wr_ptr_plus1_rovr s = i.cfg_wb_md_rd_ptr.toNat

/-! ## Coalescing -/

def desc_wb_limit_diff : BitVec 32 := i.desc_wb_limit - s.desc_wb_limit_q

def desc_wb_cnt_diff : BitVec 32 := i.desc_wb_cnt - s.desc_wb_cnt_q

def axis_wb_pkt_cnt_diff : BitVec 32 := i.axis_wb_pkt_cnt - s.axis_wb_pkt_cnt_q

def md_wr_ptr_diff : BitVec 16 :=
  if s.md_wr_ptr_q ≤ s.md_wr_ptr then s.md_wr_ptr - s.md_wr_ptr_q else s.md_wr_ptr_q - s.md_wr_ptr

def diff : WbCounter → Nat
  | .desc_cdt => (desc_wb_limit_diff i s).toNat
  | .desc_cnt => (desc_wb_cnt_diff i s).toNat
  | .pkt_cnt => (axis_wb_pkt_cnt_diff i s).toNat
  | .md_wr_ptr => (md_wr_ptr_diff s).toNat

/-- `desc_wb_limit_sent != desc_wb_limit` and its kind: what was sent is in the registers `*_q`. -/
def unsent : WbCounter → Bool
  | .desc_cdt => s.desc_wb_limit_q ≠ i.desc_wb_limit
  | .desc_cnt => s.desc_wb_cnt_q ≠ i.desc_wb_cnt
  | .pkt_cnt => s.axis_wb_pkt_cnt_q ≠ i.axis_wb_pkt_cnt
  | .md_wr_ptr => s.md_wr_ptr_q ≠ s.md_wr_ptr

def regs : WbCounter → WcRegs
  | .desc_cdt => s.desc_cdt
  | .desc_cnt => s.desc_cnt
  | .pkt_cnt => s.pkt_cnt
  | .md_wr_ptr => s.md_ptr

def cfg_wb_en : WbCounter → Bool
  | .desc_cdt => i.cfg.cfg_wb_desc_cdt_en
  | .desc_cnt => i.cfg.cfg_wb_desc_cnt_en
  | .pkt_cnt => i.cfg.cfg_wb_pkt_cnt_en
  | .md_wr_ptr => i.cfg.cfg_wb_md_ptr_en

def cfg_wc_en : WbCounter → Bool
  | .desc_cdt => i.cfg.cfg_desc_cdt_wc_en
  | .desc_cnt => i.cfg.cfg_desc_cnt_wc_en
  | .pkt_cnt => i.cfg.cfg_pkt_cnt_wc_en
  | .md_wr_ptr => i.cfg.cfg_md_wr_ptr_wc_en

def cfg_wc_cnt_m1 (c : WbCounter) : Nat :=
  if cfg_wc_en i c then i.cfg.cfg_wc_cnt_minus1.toNat else 0

/-- The timeout counts whether or not the counter is coalesced: `cfg_*_wc_to_cnt` are not read. -/
def wc_req (c : WbCounter) : Bool :=
  (decide (i.cfg.cfg_wc_to_cnt.toNat ≤ (regs s c).req_wc_to_cnt) ||
    decide (cfg_wc_cnt_m1 i c < (regs s c).req_wc_cnt)) && decide (0 < (regs s c).req_wc_cnt)

/-! ## The end of a write

`req_qual` is 1 and left out. -/

def wr_done : Bool := s.wr_active && (s.wb_pm_wvalid && s.wb_pm_w.last && i.pm_wb_wready)

def wb_dm_md_grant : Bool := wr_done i s && s.req_winner = .WB_METADATA

/-- `wr_done & (req_winner == WB_STATUS)`. -/
def wr_done_status : Bool := wr_done i s && s.req_winner = .WB_STATUS

def wc_step (c : WbCounter) : WcRegs where
  req_wc_cnt := diff i s c % 2 ^ 7
  req_wc_to_cnt :=
    if wc_req i s c then 0
    else if 0 < (regs s c).req_wc_cnt && s.wc_to_tick_cnt = 0 && (regs s c).req_wc_to_cnt < 15 then
      (regs s c).req_wc_to_cnt + 1
    else (regs s c).req_wc_to_cnt
  req_pend :=
    if wr_done_status i s then false
    else if wc_req i s c && cfg_wb_en i c && unsent i s c then true
    else (regs s c).req_pend

/-! ## The choice of a request -/

def status_req_pend : Bool :=
  s.pkt_cnt.req_pend || s.desc_cnt.req_pend || s.desc_cdt.req_pend || s.status_dw_req_pend ||
    s.md_ptr.req_pend

def requester_arb_in (k : Nat) : Bool := if k = 0 then status_req_pend s else s.dm_wb_md_req_pend

def requester_arb_out : Nat := rr_arb 2 (requester_arb_in s) s.winner_q

/-- `requester_t'(requester_arb_out)`. -/
def requester_t (winner : Nat) : WbRequester := if winner = 0 then .WB_STATUS else .WB_METADATA

def bresp_prealloc_avail : Bool := 0 < s.bresp_prealloc_avail_cnt

def accept_new_wb_req : Bool :=
  !s.start_new_req && !s.wr_active && !s.addr_active && bresp_prealloc_avail s

def new_wb_req : Bool := s.dm_wb_md_req_pend || status_req_pend s

def do_arb : Bool := !s.addr_active && s.start_new_req

def addr_done : Bool := s.addr_active && (s.wb_pm_awvalid && i.pm_wb_awready)

/-! ## The address -/

def addr_pipe_write_addr : BitVec 64 :=
  match s.req_winner with
  | .WB_STATUS => i.cfg.cfg_wb_status_addr.setWidth 64
  | .WB_METADATA => md_wr_addr i s

def addr_pipe_num_bytes : Nat :=
  match s.req_winner with
  | .WB_STATUS => WB_STATUS_NUM_BYTES
  | .WB_METADATA => WB_MD_WIDTH_BYTES

def addr_pipe_num_bytes_adj : Nat :=
  (addr_pipe_num_bytes s + (addr_pipe_write_addr i s).toNat % PCIM_DATA_WIDTH_BYTES) % 2 ^ 8

def addr_pipe_num_beats_minus1 : Nat :=
  if addr_pipe_num_bytes_adj i s % PCIM_DATA_WIDTH_BYTES ≠ 0 then
    addr_pipe_num_bytes_adj i s / PCIM_DATA_WIDTH_BYTES
  else (addr_pipe_num_bytes_adj i s / PCIM_DATA_WIDTH_BYTES + (2 ^ 8 - 1)) % 2 ^ 8

/-! ## The data -/

def wr_active_re : Bool := s.wr_active && !s.wr_active_q

/-- When the registers `*_q` of the status take their values. -/
def status_latch : Bool := s.req_winner = .WB_STATUS && wr_active_re s

def wr_state_next : WbWrState :=
  match s.wr_state with
  | .WR_IDLE => if s.wr_active then .WR_REQ else .WR_IDLE
  | .WR_GET_DATA => .WR_REQ
  | .WR_REQ => if s.wb_pm_wvalid && s.wb_pm_w.last && i.pm_wb_wready then .WR_IDLE else .WR_REQ

def wr_pipe_lwr_addr : Nat := (addr_pipe_write_addr i s).toNat % PCIM_DATA_WIDTH_BYTES

def wb_wr_max_bytes : Nat :=
  if s.wr_active_re_q then PCIM_DATA_WIDTH_BYTES - wr_pipe_lwr_addr i s else PCIM_DATA_WIDTH_BYTES

def wb_wr_num_bytes_remain : Nat :=
  (addr_pipe_num_bytes s + 2 ^ 13 - s.wb_wr_num_bytes_sent) % 2 ^ 13

def wb_wr_num_bytes_to_send : Nat :=
  if wb_wr_num_bytes_remain s < wb_wr_max_bytes i s then wb_wr_num_bytes_remain s
  else wb_wr_max_bytes i s

/-- The record that is written for the counters. -/
def status_record (md_wr_ptr : BitVec 16) (pkt_cnt desc_cnt limit dw : BitVec 32) : BitVec 160 :=
  (md_wr_ptr ++ pkt_cnt ++ desc_cnt ++ limit ++ dw).setWidth 160

def wb_wr_data_to_send : BitVec 160 :=
  match s.req_winner with
  | .WB_STATUS => status_record s.md_wr_ptr_q s.axis_wb_pkt_cnt_q s.desc_wb_cnt_q s.desc_wb_limit_q
      s.status_dw_q
  | .WB_METADATA => i.dm_wb_md.setWidth 160

def wb_wr_strb_to_send : BitVec 20 :=
  match s.req_winner with
  | .WB_STATUS => .allOnes 20
  | .WB_METADATA => (BitVec.allOnes 16).setWidth 20

/-- `wb_pm_wvalid & pm_wb_wready`. -/
def w_taken : Bool := s.wb_pm_wvalid && i.pm_wb_wready

/-- The registers of the beat. A difference with 0 beats is taken in 32 bits. -/
def next_w : WBeat where
  data :=
    if s.wr_active_re_q then
      (wb_wr_data_to_send i s).setWidth 512 <<< (8 * wr_pipe_lwr_addr i s)
    else if w_taken i s then
      (wb_wr_data_to_send i s).setWidth 512 >>> (8 * s.wb_wr_num_bytes_sent)
    else s.wb_pm_w.data
  strb :=
    if s.wr_active_re_q then (wb_wr_strb_to_send s).setWidth 64 <<< wr_pipe_lwr_addr i s
    else if w_taken i s then (wb_wr_strb_to_send s).setWidth 64 >>> s.wb_wr_num_bytes_sent
    else s.wb_pm_w.strb
  last :=
    if s.wr_active_re_q then decide (addr_pipe_num_beats_minus1 i s = 0)
    else if w_taken i s then
      decide ((addr_pipe_num_beats_minus1 i s + (2 ^ 32 - 1)) % 2 ^ 32 ≤ s.wb_wr_idx)
    else s.wb_pm_w.last

/-! ## The responses -/

def wb_bresp_trk_ff_full : Bool :=
  watermark (p.WB_BRESP_TRK_FIFO_DEPTH - 1) s.WB_BRESP_TRK_FIFO

def wb_bresp_trk_ff_push : Bool := s.wr_active && wr_done i s && !wb_bresp_trk_ff_full p s

def wb_bresp_trk_ff_push_data : WbRequester × BitVec 64 := (s.req_winner, addr_pipe_write_addr i s)

def wb_bresp_trk_ff_valid : Bool := !s.WB_BRESP_TRK_FIFO.isEmpty

def wb_bresp_trk_ff_pop : Bool := wb_bresp_trk_ff_valid s && i.pm_wb_bvalid

/-- It matters only while the FIFO is valid. -/
def wb_bresp_trk_ff_pop_data : WbRequester × BitVec 64 := s.WB_BRESP_TRK_FIFO.headD (.WB_STATUS, 0)

def bresp_prealloc_avail_cnt_dec : Bool := s.start_new_req

def bresp_prealloc_avail_cnt_inc : Bool := wb_bresp_trk_ff_pop i s

/-! ## The registers -/

def step : Wb where
  num_md_in_ring := i.cfg.cfg_wb_md_ring_size.toNat / WB_MD_WIDTH_BYTES
  md_wr_ptr :=
    if i.cfg_wb_clr_wr_ptr then 0
    else if wb_dm_md_grant i s then md_wr_ptr_next s
    else s.md_wr_ptr
  wc_to_tick_cnt :=
    if s.wc_to_tick_cnt = 0 then i.cfg.cfg_wc_tick_cnt.toNat else s.wc_to_tick_cnt - 1
  desc_cdt := wc_step i s .desc_cdt
  desc_cnt := wc_step i s .desc_cnt
  pkt_cnt := wc_step i s .pkt_cnt
  md_ptr := wc_step i s .md_wr_ptr
  dm_wb_md_req_pend :=
    if wb_dm_md_grant i s then false
    else if i.dm_wb_md_req && !(md_ring_full i s && i.cfg.cfg_wb_md_ptr_en) then true
    else s.dm_wb_md_req_pend
  status_dw_req_pend :=
    if wr_done_status i s then false
    else if s.status_dw_q ≠ status_dw i then true
    else s.status_dw_req_pend
  winner_q := if do_arb s then requester_arb_out s else s.winner_q
  start_new_req := accept_new_wb_req s && new_wb_req s
  addr_active :=
    if s.addr_active && addr_done i s then false
    else if s.start_new_req then true
    else s.addr_active
  req_winner := if s.start_new_req then requester_t (requester_arb_out s) else s.req_winner
  wb_pm_awvalid :=
    if s.wb_pm_awvalid && i.pm_wb_awready then false
    else if s.addr_active then true
    else s.wb_pm_awvalid
  wb_pm_aw :=
    if s.addr_active then
      ⟨addr_pipe_write_addr i s, .ofNat 8 (addr_pipe_num_beats_minus1 i s)⟩
    else s.wb_pm_aw
  wb_pm_awid := p.PCIM_WB_AWID
  wr_active :=
    if s.wr_active && wr_done i s then false
    else if s.start_new_req then true
    else s.wr_active
  wr_active_q := s.wr_active
  wr_active_re_q := wr_active_re s
  wr_state := wr_state_next i s
  status_dw_q := if status_latch s then status_dw i else s.status_dw_q
  desc_wb_limit_q :=
    if i.cfg_desc_clr_cdt_limit then 0
    else if status_latch s then i.desc_wb_limit
    else s.desc_wb_limit_q
  desc_wb_cnt_q :=
    if i.cfg_desc_clr_desc_cnt then 0
    else if status_latch s then i.desc_wb_cnt
    else s.desc_wb_cnt_q
  axis_wb_pkt_cnt_q :=
    if i.cfg_axis_clr_pkt_cnt then 0
    else if status_latch s then i.axis_wb_pkt_cnt
    else s.axis_wb_pkt_cnt_q
  md_wr_ptr_q :=
    if i.cfg_wb_clr_wr_ptr then 0
    else if status_latch s then s.md_wr_ptr
    else s.md_wr_ptr_q
  wb_wr_idx :=
    if s.wr_active_re_q then 0
    else if w_taken i s then (s.wb_wr_idx + 1) % 2 ^ 8
    else s.wb_wr_idx
  wb_wr_num_bytes_sent :=
    if s.wr_active_re_q then wb_wr_num_bytes_to_send i s % 2 ^ 8
    else if w_taken i s && s.wb_pm_w.last then 0
    else if w_taken i s then (s.wb_wr_num_bytes_sent + wb_wr_num_bytes_to_send i s) % 2 ^ 8
    else s.wb_wr_num_bytes_sent
  wb_pm_wvalid :=
    if w_taken i s && addr_pipe_num_beats_minus1 i s ≤ s.wb_wr_idx then false
    else if s.wr_active_re_q then true
    else s.wb_pm_wvalid
  wb_pm_w := next_w i s
  WB_BRESP_TRK_FIFO := flop_fifo_in p.WB_BRESP_TRK_FIFO_DEPTH
    (if wb_bresp_trk_ff_push p i s then some (wb_bresp_trk_ff_push_data i s) else none)
    (wb_bresp_trk_ff_pop i s) s.WB_BRESP_TRK_FIFO
  bresp_prealloc_avail_cnt :=
    if bresp_prealloc_avail_cnt_inc i s && !bresp_prealloc_avail_cnt_dec s then
      (s.bresp_prealloc_avail_cnt + 1) % 256
    else if !bresp_prealloc_avail_cnt_inc i s && bresp_prealloc_avail_cnt_dec s then
      (s.bresp_prealloc_avail_cnt + 255) % 256
    else s.bresp_prealloc_avail_cnt
  wb_cfg_md_bresp_err := wb_bresp_trk_ff_pop i s &&
    (wb_bresp_trk_ff_pop_data s).1 = .WB_METADATA && i.pm_wb_bresp ≠ 0
  wb_cfg_sts_bresp_err := wb_bresp_trk_ff_pop i s &&
    (wb_bresp_trk_ff_pop_data s).1 = .WB_STATUS && i.pm_wb_bresp ≠ 0

def start : Wb where
  num_md_in_ring := 0
  md_wr_ptr := 0
  wc_to_tick_cnt := 0
  desc_cdt := ⟨0, 0, false⟩
  desc_cnt := ⟨0, 0, false⟩
  pkt_cnt := ⟨0, 0, false⟩
  md_ptr := ⟨0, 0, false⟩
  dm_wb_md_req_pend := false
  status_dw_req_pend := false
  winner_q := 0
  start_new_req := false
  addr_active := false
  req_winner := .WB_STATUS
  wb_pm_awvalid := false
  wb_pm_aw := ⟨0, 0⟩
  wb_pm_awid := 0
  wr_active := false
  wr_active_q := false
  wr_active_re_q := false
  wr_state := .WR_IDLE
  status_dw_q := 0
  desc_wb_limit_q := p.DESC_RAM_DEPTH
  desc_wb_cnt_q := 0
  axis_wb_pkt_cnt_q := 0
  md_wr_ptr_q := 0
  wb_wr_idx := 0
  wb_wr_num_bytes_sent := 0
  wb_pm_wvalid := false
  wb_pm_w := ⟨0, 0, false⟩
  WB_BRESP_TRK_FIFO := []
  bresp_prealloc_avail_cnt := p.WB_BRESP_TRK_FIFO_DEPTH
  wb_cfg_md_bresp_err := false
  wb_cfg_sts_bresp_err := false

def circuit : Circuit WbIn Wb := ⟨start p, step p⟩

theorem default_depth_pos : 0 < 32 := by decide

theorem default_depth_lt : 32 < 2 ^ 8 := by decide

/-- The parameters as the module has them by default. -/
def default_params : WbParams := ⟨1, 64, 32, default_depth_pos, default_depth_lt⟩

/-- Nothing is enabled, and the ring has two entries. -/
def default_cfg : WbCfg where
  cfg_wb_desc_cdt_en := false
  cfg_wb_desc_cnt_en := false
  cfg_wb_pkt_cnt_en := false
  cfg_wb_md_ptr_en := false
  cfg_wb_status_addr := 0x1000
  cfg_wb_md_ring_addr := 0x2000
  cfg_wb_md_ring_size := 32
  cfg_desc_cdt_wc_en := false
  cfg_desc_cnt_wc_en := false
  cfg_pkt_cnt_wc_en := false
  cfg_md_wr_ptr_wc_en := false
  cfg_wc_tick_cnt := 0
  cfg_wc_to_cnt := 0
  cfg_wc_cnt_minus1 := 0

/-- Nothing is asked for, and the host is always ready. -/
def quiet_in : WbIn where
  cfg := default_cfg
  cfg_wb_md_rd_ptr := 0
  cfg_wb_clr_wr_ptr := false
  cfg_wb_desc_error := false
  cfg_wb_dm_error := false
  cfg_wb_wb_error := false
  cfg_desc_clr_cdt_limit := false
  cfg_desc_clr_desc_cnt := false
  cfg_axis_clr_pkt_cnt := false
  desc_wb_limit := 64
  desc_wb_cnt := 0
  axis_wb_pkt_cnt := 0
  dm_wb_md_req := false
  dm_wb_md := 0
  pm_wb_awready := true
  pm_wb_wready := true
  pm_wb_bvalid := false
  pm_wb_bresp := 0

/-- The address of a metadata write is taken only after its data. -/
def late_address (n : Nat) : WbIn :=
  { quiet_in with
    dm_wb_md_req := n < 6
    pm_wb_awready := 9 < n
    pm_wb_bvalid := n = 14 }

/-! ## The two parts of a write -/

variable {p i s}

theorem wr_done_eq_false (h : s.wr_active = false) : wr_done i s = false := by
  simp [wr_done, h]

theorem active_of_done (h : wr_done i s) : s.wr_active := by
  unfold wr_done at h
  rw [Bool.and_eq_true] at h
  exact h.1

theorem grant_of_done (hdone : wr_done i s) (hwinner : s.req_winner = .WB_METADATA) :
    wb_dm_md_grant i s := by
  simp [wb_dm_md_grant, hdone, hwinner]

theorem done_of_grant (h : wb_dm_md_grant i s) :
    wr_done i s ∧ s.req_winner = .WB_METADATA := by
  unfold wb_dm_md_grant at h
  rw [Bool.and_eq_true, decide_eq_true_eq] at h
  exact h

theorem wr_active_step : (step p i s).wr_active =
    if s.wr_active && wr_done i s then false else if s.start_new_req then true else s.wr_active :=
  rfl

theorem addr_active_step : (step p i s).addr_active =
    if s.addr_active && addr_done i s then false
    else if s.start_new_req then true else s.addr_active :=
  rfl

theorem start_new_req_step :
    (step p i s).start_new_req = (accept_new_wb_req s && new_wb_req s) := rfl

theorem awvalid_step : (step p i s).wb_pm_awvalid =
    if s.wb_pm_awvalid && i.pm_wb_awready then false
    else if s.addr_active then true else s.wb_pm_awvalid :=
  rfl

theorem req_winner_step : (step p i s).req_winner =
    if s.start_new_req then requester_t (requester_arb_out s) else s.req_winner := rfl

/-- Its address or its data has not been taken yet. -/
def busy (s : Wb) : Bool := s.wr_active || s.addr_active

/-- The request that is written. -/
def owner_pend (s : Wb) : Bool :=
  match s.req_winner with
  | .WB_STATUS => status_req_pend s
  | .WB_METADATA => s.dm_wb_md_req_pend

/-- What holds in every run. A write starts when none is on its way, and its request stays until it
is done. -/
structure Ctl (s : Wb) : Prop where
  start : s.start_new_req → busy s = false ∧ s.wr_active_q = false ∧ new_wb_req s
  aw : s.wb_pm_awvalid → s.addr_active
  fresh : s.addr_active → s.wb_pm_awvalid = false → s.wr_active ∧ s.wr_active_q = false
  new : s.wr_active → s.wr_active_q = false → s.addr_active ∧ s.wb_pm_awvalid = false
  owner : s.wr_active → owner_pend s
  arb : s.winner_q < 2

theorem req_pend_step {c : WbCounter} (h : (regs s c).req_pend) (hdone : wr_done_status i s = false) :
    (wc_step i s c).req_pend := by
  unfold wc_step
  simp [h, hdone]

theorem status_req_pend_step (h : status_req_pend s) (hdone : wr_done_status i s = false) :
    status_req_pend (step p i s) := by
  unfold status_req_pend at h ⊢
  simp only [Bool.or_eq_true] at h ⊢
  rcases h with (((h | h) | h) | h) | h
  · exact .inl (.inl (.inl (.inl (req_pend_step (c := .pkt_cnt) h hdone))))
  · exact .inl (.inl (.inl (.inr (req_pend_step (c := .desc_cnt) h hdone))))
  · exact .inl (.inl (.inr (req_pend_step (c := .desc_cdt) h hdone)))
  · refine .inl (.inr ?_)
    simp [step, h, hdone]
  · exact .inr (req_pend_step (c := .md_wr_ptr) h hdone)

theorem md_pend_step (h : s.dm_wb_md_req_pend) (hgrant : wb_dm_md_grant i s = false) :
    (step p i s).dm_wb_md_req_pend := by
  simp [step, h, hgrant]

theorem new_wb_req_step (h : new_wb_req s) (hdone : wr_done i s = false) :
    new_wb_req (step p i s) := by
  unfold new_wb_req at h ⊢
  rw [Bool.or_eq_true] at h ⊢
  rcases h with h | h
  · exact .inl (md_pend_step h (by simp [wb_dm_md_grant, hdone]))
  · exact .inr (status_req_pend_step h (by simp [wr_done_status, hdone]))

theorem arb_pend (hwinner : s.winner_q < 2) (h : new_wb_req s) :
    requester_arb_out s < 2 ∧ requester_arb_in s (requester_arb_out s) := by
  unfold new_wb_req at h
  rw [Bool.or_eq_true] at h
  rcases h with h | h
  · exact rr_arb_req _ hwinner (k := 1) (by omega) h
  · exact rr_arb_req _ hwinner (k := 0) (by omega) h

theorem ctl_start : Ctl (start p) where
  start h := by cases h
  aw h := by cases h
  fresh h := by cases h
  new h := by cases h
  owner h := by cases h
  arb := by simp [start]

theorem Ctl.not_busy (h : Ctl s) (hstart : s.start_new_req) :
    s.wr_active = false ∧ s.addr_active = false := by
  have hidle := (h.start hstart).1
  unfold busy at hidle
  rw [Bool.or_eq_false_iff] at hidle
  exact hidle

theorem Ctl.no_start (h : Ctl s) (hactive : s.wr_active) : s.start_new_req = false := by
  by_contra hstart
  rw [(h.not_busy (by simpa using hstart)).1] at hactive
  cases hactive

theorem Ctl.awvalid_eq_false (h : Ctl s) (haddr : s.addr_active = false) :
    s.wb_pm_awvalid = false := by
  by_contra hvalid
  rw [h.aw (by simpa using hvalid)] at haddr
  cases haddr

theorem Ctl.req_winner_step (h : Ctl s) (hbusy : busy s) :
    (step p i s).req_winner = s.req_winner := by
  rw [Wb.req_winner_step]
  split
  case isTrue hstart =>
    rw [(h.start hstart).1] at hbusy
    cases hbusy
  case isFalse => rfl

theorem ctl_step (h : Ctl s) : Ctl (step p i s) where
  start hstart := by
    rw [start_new_req_step, Bool.and_eq_true] at hstart
    obtain ⟨haccept, hnew⟩ := hstart
    unfold accept_new_wb_req at haccept
    simp only [Bool.and_eq_true, Bool.not_eq_true'] at haccept
    obtain ⟨⟨⟨hstart, hactive⟩, haddr⟩, -⟩ := haccept
    refine ⟨?_, hactive, new_wb_req_step hnew (wr_done_eq_false hactive)⟩
    unfold busy
    rw [wr_active_step, addr_active_step, hstart, hactive, haddr]
    rfl
  aw haw := by
    rw [awvalid_step] at haw
    rw [addr_active_step]
    cases hactive : s.addr_active with
    | false =>
      rw [h.awvalid_eq_false hactive, hactive] at haw
      cases haw
    | true =>
      have hdone : addr_done i s = false := by
        unfold addr_done
        by_contra hdone
        simp only [Bool.not_eq_false, Bool.and_eq_true] at hdone
        rw [hdone.2.1, hdone.2.2] at haw
        cases haw
      simp [hdone]
  fresh haddr hvalid := by
    rw [addr_active_step] at haddr
    rw [awvalid_step] at hvalid
    cases hstart : s.start_new_req with
    | true =>
      have hidle := (h.not_busy hstart).1
      refine ⟨?_, hidle⟩
      rw [wr_active_step, hidle, hstart]
      rfl
    | false =>
      rw [hstart] at haddr
      simp only [Bool.false_eq_true, if_false] at haddr
      split at haddr
      case isTrue => cases haddr
      case isFalse hdone =>
        rw [haddr, Bool.true_and, addr_done, haddr, Bool.true_and] at hdone
        rw [if_neg hdone, haddr] at hvalid
        cases hvalid
  new hactive hidle := by
    have hno : s.wr_active = false := hidle
    rw [wr_active_step, hno] at hactive
    cases hstart : s.start_new_req with
    | true =>
      have haddr := (h.not_busy hstart).2
      have hvalid := h.awvalid_eq_false haddr
      rw [addr_active_step, awvalid_step, haddr, hvalid, hstart]
      exact ⟨rfl, rfl⟩
    | false =>
      rw [hstart] at hactive
      cases hactive
  owner hactive := by
    rw [wr_active_step] at hactive
    cases hstart : s.start_new_req with
    | true =>
      obtain ⟨-, -, hnew⟩ := h.start hstart
      have hidle := (h.not_busy hstart).1
      have hgrant : wb_dm_md_grant i s = false := by
        simp [wb_dm_md_grant, wr_done_eq_false hidle]
      have hstatus : wr_done_status i s = false := by
        simp [wr_done_status, wr_done_eq_false hidle]
      have hpend := (arb_pend h.arb hnew).2
      unfold owner_pend
      rw [Wb.req_winner_step, hstart, if_pos rfl, requester_t]
      unfold requester_arb_in at hpend
      split at hpend
      case isTrue hzero =>
        rw [if_pos hzero]
        exact status_req_pend_step hpend hstatus
      case isFalse hone =>
        rw [if_neg hone]
        exact md_pend_step hpend hgrant
    | false =>
      rw [hstart] at hactive
      simp only [Bool.false_eq_true, if_false] at hactive
      split at hactive
      case isTrue => cases hactive
      case isFalse hdone =>
        rw [hactive, Bool.true_and, Bool.not_eq_true] at hdone
        have howner := h.owner hactive
        unfold owner_pend at howner ⊢
        rw [h.req_winner_step (by simp [busy, hactive])]
        cases hwinner : s.req_winner with
        | WB_STATUS =>
          rw [hwinner] at howner
          exact status_req_pend_step howner (by simp [wr_done_status, hdone])
        | WB_METADATA =>
          rw [hwinner] at howner
          exact md_pend_step howner (by simp [wb_dm_md_grant, hdone])
  arb := by
    change (if do_arb s then requester_arb_out s else s.winner_q) < 2
    split
    · exact rr_arb_lt h.arb
    · exact h.arb

/-! ## Whole runs -/

variable (p) (ins : Nat → WbIn)

/-- A write under way keeps its address. -/
def AddrSteady : Prop :=
  ∀ n, busy ((circuit p).state ins n) → busy ((circuit p).state ins (n + 1)) →
    addr_pipe_write_addr (ins (n + 1)) ((circuit p).state ins (n + 1)) =
      addr_pipe_write_addr (ins n) ((circuit p).state ins n)

variable {p ins}

theorem ctl_state (n : Nat) : Ctl ((circuit p).state ins n) :=
  @Circuit.inv_state WbIn Wb (circuit p) ins Ctl (fun _ _ => True) ctl_start
    (fun _ _ _ h => ctl_step h) (fun _ => trivial) n

theorem state_succ (n : Nat) :
    (circuit p).state ins (n + 1) = step p (ins n) ((circuit p).state ins n) := rfl

theorem beats_congr {i' : WbIn} {s' : Wb} (hwinner : s'.req_winner = s.req_winner)
    (haddr : addr_pipe_write_addr i' s' = addr_pipe_write_addr i s) :
    addr_pipe_num_beats_minus1 i' s' = addr_pipe_num_beats_minus1 i s := by
  have hbytes : addr_pipe_num_bytes s' = addr_pipe_num_bytes s := by
    unfold addr_pipe_num_bytes
    rw [hwinner]
  unfold addr_pipe_num_beats_minus1 addr_pipe_num_bytes_adj
  rw [haddr, hbytes]

theorem aw_shown (hsteady : AddrSteady p ins) (n : Nat)
    (hvalid : ((circuit p).state ins n).wb_pm_awvalid) :
    ((circuit p).state ins n).wb_pm_aw =
      ⟨addr_pipe_write_addr (ins n) ((circuit p).state ins n),
        .ofNat 8 (addr_pipe_num_beats_minus1 (ins n) ((circuit p).state ins n))⟩ := by
  cases n with
  | zero => cases hvalid
  | succ n =>
    have hctl : Ctl ((circuit p).state ins n) := ctl_state n
    have hbusy' : busy ((circuit p).state ins (n + 1)) := by
      simp [busy, (ctl_state (n + 1)).aw hvalid]
    rw [state_succ, awvalid_step] at hvalid
    have hactive : ((circuit p).state ins n).addr_active := by
      by_contra hnot
      rw [Bool.not_eq_true] at hnot
      rw [hctl.awvalid_eq_false hnot, hnot] at hvalid
      cases hvalid
    have hbusy : busy ((circuit p).state ins n) := by simp [busy, hactive]
    have haddr := hsteady n hbusy hbusy'
    have hwinner : ((circuit p).state ins (n + 1)).req_winner =
        ((circuit p).state ins n).req_winner := hctl.req_winner_step hbusy
    rw [haddr, beats_congr hwinner haddr]
    change (if _ then _ else _) = _
    rw [if_pos hactive]

end Wb

end AwsFpga.Rtl
