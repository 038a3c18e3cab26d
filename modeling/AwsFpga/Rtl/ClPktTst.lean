import AwsFpga.Lib.Axi
import AwsFpga.Lib.Lanes
import AwsFpga.Rtl.Blocks
import Mathlib.Data.BitVec

/-!
# The packet generator and checker (`cl_pkt_tst.sv`)

A bus has `DATA_DW` dwords. The registers start as after power up and reset. The timers, the
debug RAM and the check of packet lengths, which is switched off, have no part in this.
-/

open Lib Lib.Axi

namespace AwsFpga.Rtl

inductive PktState where
  | IDLE
  | PREAMBLE
  | WAIT
  | PKT_START
  | PKT_DATA
  | PKT_END
  deriving DecidableEq

structure PktBeat (DATA_DW : Nat) where
  tdata : BitVec (32 * DATA_DW)
  tlast : Bool
  tkeep : BitVec (4 * DATA_DW)
  deriving DecidableEq

structure PktIn (DATA_DW : Nat) where
  cfg_addr : BitVec 32
  cfg_wdata : BitVec 32
  cfg_wr : Bool
  cfg_rd : Bool
  axis_tx_tready : Bool
  axis_rx_tvalid : Bool
  axis_rx : PktBeat DATA_DW

/-- The configuration port. -/
structure PktPort where
  cfg_wr_stretch : Bool
  cfg_rd_stretch : Bool
  cfg_addr_q : BitVec 8
  cfg_wdata_q : BitVec 32
  tst_cfg_ack : Bool

/-- The configuration registers. -/
structure PktCfg where
  tx_en : Bool
  tx_prbs : Bool
  tx_pktlen_mode : Bool
  tx_no_scramble : Bool
  tx_no_inc : Bool
  tx_num_pkts_en : Bool
  tx_seed_0 : BitVec 32
  tx_seed_1 : BitVec 32
  tx_pktlen_min : BitVec 32
  tx_pktlen_max : BitVec 32
  tx_num_pkts : BitVec 32
  rx_en : Bool
  rx_prbs : Bool
  rx_no_scramble : Bool
  rx_no_inc : Bool
  rx_data_chk : Bool
  rx_loopback : Bool

structure PktTx (DATA_DW : Nat) where
  tx_pkt_state : PktState
  tx_pream_pkt_cnt : BitVec 32
  tx_wait_cnt : BitVec 32
  tx_pkt_cnt : BitVec 64
  tx_pktlen : BitVec 32
  tx_slice_idx : BitVec 32
  tx_data_0 : BitVec 32
  tx_data_1 : BitVec 32
  tx_fifo : List (PktBeat DATA_DW)

/-- The checker, without its inputs. -/
structure PktChk where
  rx_pkt_state : PktState
  rx_lock_cnt : BitVec 32
  rx_lock : Bool
  rx_pkt_cnt : BitVec 64
  rx_errored_pkt : Bool
  rx_err_pkt_cnt : BitVec 64
  rx_err_cnt : BitVec 64
  rx_raw_pkt_cnt : BitVec 64
  rx_raw_data_cnt : BitVec 64
  rx_raw_err_cnt : BitVec 64
  rx_data_0 : BitVec 32
  rx_data_1 : BitVec 32
  data_err : Bool

structure PktTst (DATA_DW : Nat) where
  port : PktPort
  cfg : PktCfg
  tx : PktTx DATA_DW
  rx_fifo : List (PktBeat DATA_DW)
  rx_tvalid : Bool
  rx_t : PktBeat DATA_DW
  chk : PktChk

/-! ## The configuration -/

namespace PktPort

section Step

variable {DATA_DW : Nat} (i : PktIn DATA_DW) (p : PktPort)

def step : PktPort where
  cfg_wr_stretch := i.cfg_wr || (p.cfg_wr_stretch && !p.tst_cfg_ack)
  cfg_rd_stretch := i.cfg_rd || (p.cfg_rd_stretch && !p.tst_cfg_ack)
  cfg_addr_q := if i.cfg_wr || i.cfg_rd then i.cfg_addr.setWidth 8 else p.cfg_addr_q
  cfg_wdata_q := if i.cfg_wr || i.cfg_rd then i.cfg_wdata else p.cfg_wdata_q
  tst_cfg_ack := (p.cfg_wr_stretch || p.cfg_rd_stretch) && !p.tst_cfg_ack

end Step

variable (p : PktPort)

/-- The dword is written to the register at `addr`. -/
def cfg_set (addr : BitVec 8) : Bool := p.cfg_wr_stretch && p.cfg_addr_q = addr

/-- A counter is cleared by a zero. -/
def clr (addr : BitVec 8) : Bool := p.cfg_set addr && p.cfg_wdata_q = 0

end PktPort

def PktCfg.step (p : PktPort) (c : PktCfg) : PktCfg where
  tx_en := if p.cfg_set 0x00 then p.cfg_wdata_q.getLsbD 0 else c.tx_en
  tx_prbs := if p.cfg_set 0x00 then p.cfg_wdata_q.getLsbD 1 else c.tx_prbs
  tx_pktlen_mode := if p.cfg_set 0x00 then p.cfg_wdata_q.getLsbD 2 else c.tx_pktlen_mode
  tx_no_scramble := if p.cfg_set 0x00 then p.cfg_wdata_q.getLsbD 3 else c.tx_no_scramble
  tx_no_inc := if p.cfg_set 0x00 then p.cfg_wdata_q.getLsbD 4 else c.tx_no_inc
  tx_num_pkts_en := if p.cfg_set 0x00 then p.cfg_wdata_q.getLsbD 5 else c.tx_num_pkts_en
  tx_seed_0 := if p.cfg_set 0x04 then p.cfg_wdata_q else c.tx_seed_0
  tx_seed_1 := if p.cfg_set 0x0C then p.cfg_wdata_q else c.tx_seed_1
  tx_pktlen_min := if p.cfg_set 0x08 then p.cfg_wdata_q else c.tx_pktlen_min
  tx_pktlen_max := if p.cfg_set 0x10 then p.cfg_wdata_q else c.tx_pktlen_max
  tx_num_pkts := if p.cfg_set 0x24 then p.cfg_wdata_q else c.tx_num_pkts
  rx_en := if p.cfg_set 0x80 then p.cfg_wdata_q.getLsbD 0 else c.rx_en
  rx_prbs := if p.cfg_set 0x80 then p.cfg_wdata_q.getLsbD 1 else c.rx_prbs
  rx_no_scramble := if p.cfg_set 0x80 then p.cfg_wdata_q.getLsbD 3 else c.rx_no_scramble
  rx_no_inc := if p.cfg_set 0x80 then p.cfg_wdata_q.getLsbD 4 else c.rx_no_inc
  rx_data_chk := if p.cfg_set 0x80 then p.cfg_wdata_q.getLsbD 8 else c.rx_data_chk
  rx_loopback := if p.cfg_set 0x80 then p.cfg_wdata_q.getLsbD 12 else c.rx_loopback

/-! ## The data of a beat -/

/-- Of each bit whether `data_in` is in it, and which bits of `in_crc` are. -/
def crc32_taps : List (Bool × List Nat) :=
  [(true, [5, 8, 9, 11, 15, 23, 24, 25, 27, 28, 29, 30, 31]),
    (true, [0, 5, 6, 8, 10, 11, 12, 15, 16, 23, 26, 27]),
    (true, [0, 1, 5, 6, 7, 8, 12, 13, 15, 16, 17, 23, 25, 29, 30, 31]),
    (false, [0, 1, 2, 6, 7, 8, 9, 13, 14, 16, 17, 18, 24, 26, 30, 31]),
    (true, [1, 2, 3, 5, 7, 10, 11, 14, 17, 18, 19, 23, 24, 28, 29, 30]),
    (true, [0, 2, 3, 4, 5, 6, 9, 12, 18, 19, 20, 23, 27, 28]),
    (false, [0, 1, 3, 4, 5, 6, 7, 10, 13, 19, 20, 21, 24, 28, 29]),
    (true, [1, 2, 4, 6, 7, 9, 14, 15, 20, 21, 22, 23, 24, 27, 28, 31]),
    (true, [0, 2, 3, 7, 9, 10, 11, 16, 21, 22, 27, 30, 31]),
    (false, [0, 1, 3, 4, 8, 10, 11, 12, 17, 22, 23, 28, 31]),
    (true, [1, 2, 4, 8, 12, 13, 15, 18, 25, 27, 28, 30, 31]),
    (true, [0, 2, 3, 8, 11, 13, 14, 15, 16, 19, 23, 24, 25, 26, 27, 30]),
    (true, [0, 1, 3, 4, 5, 8, 11, 12, 14, 16, 17, 20, 23, 26, 29, 30]),
    (false, [0, 1, 2, 4, 5, 6, 9, 12, 13, 15, 17, 18, 21, 24, 27, 30, 31]),
    (false, [1, 2, 3, 5, 6, 7, 10, 13, 14, 16, 18, 19, 22, 25, 28, 31]),
    (false, [2, 3, 4, 6, 7, 8, 11, 14, 15, 17, 19, 20, 23, 26, 29]),
    (true, [3, 4, 7, 11, 12, 16, 18, 20, 21, 23, 25, 28, 29, 31]),
    (false, [0, 4, 5, 8, 12, 13, 17, 19, 21, 22, 24, 26, 29, 30]),
    (false, [1, 5, 6, 9, 13, 14, 18, 20, 22, 23, 25, 27, 30, 31]),
    (false, [2, 6, 7, 10, 14, 15, 19, 21, 23, 24, 26, 28, 31]),
    (false, [3, 7, 8, 11, 15, 16, 20, 22, 24, 25, 27, 29]),
    (false, [4, 8, 9, 12, 16, 17, 21, 23, 25, 26, 28, 30]),
    (true, [8, 10, 11, 13, 15, 17, 18, 22, 23, 25, 26, 28, 30]),
    (true, [0, 5, 8, 12, 14, 15, 16, 18, 19, 25, 26, 28, 30]),
    (false, [0, 1, 6, 9, 13, 15, 16, 17, 19, 20, 26, 27, 29, 31]),
    (false, [1, 2, 7, 10, 14, 16, 17, 18, 20, 21, 27, 28, 30]),
    (true, [2, 3, 5, 9, 17, 18, 19, 21, 22, 23, 24, 25, 27, 30]),
    (false, [0, 3, 4, 6, 10, 18, 19, 20, 22, 23, 24, 25, 26, 28, 31]),
    (false, [1, 4, 5, 7, 11, 19, 20, 21, 23, 24, 25, 26, 27, 29]),
    (false, [2, 5, 6, 8, 12, 20, 21, 22, 24, 25, 26, 27, 28, 30]),
    (false, [3, 6, 7, 9, 13, 21, 22, 23, 25, 26, 27, 28, 29, 31]),
    (false, [4, 7, 8, 10, 14, 22, 23, 24, 26, 27, 28, 29, 30])]

def crc32 (in_crc : BitVec 32) (data_in : Bool) : BitVec 32 :=
  (BitVec.ofBoolListLE (crc32_taps.map fun tap =>
    tap.2.foldl (fun x k => x ^^ in_crc.getLsbD k) (tap.1 && data_in))).setWidth 32

/-- Dword `dw_idx` of a beat. -/
def pkt_dword (no_scramble : Bool) (data_0 data_1 : BitVec 32) (dw_idx : Nat) : BitVec 32 :=
  if no_scramble then data_0
  else if dw_idx % 2 = 0 then ((data_0 ++ data_0) >>> dw_idx).setWidth 32
  else ((data_1 ++ data_1) >>> (dw_idx - 1)).setWidth 32

/-- What the generator sends and what the checker expects are made in the same way. -/
def pkt_tdata (DATA_DW : Nat) (no_scramble : Bool) (data_0 data_1 : BitVec 32) :
    BitVec (32 * DATA_DW) :=
  of_lanes DATA_DW (pkt_dword no_scramble data_0 data_1)

/-! ## The generator -/

namespace PktTx

def TX_WAIT_CNT : BitVec 32 := 0xF

variable {DATA_DW : Nat} (c : PktCfg) (clr_tx_pkt_cnt axis_tx_tready : Bool) (t : PktTx DATA_DW)

/-- The FIFO is full when its entry 2 is valid. -/
def tx_ff_tready : Bool := !watermark 2 t.tx_fifo

def wait_done : Bool := t.tx_pkt_state = .WAIT && TX_WAIT_CNT ≤ t.tx_wait_cnt

def next_tx_pkt_state : PktState :=
  match t.tx_pkt_state with
  | .IDLE => if c.tx_en && (!c.tx_num_pkts_en || t.tx_pkt_cnt = 0) then .WAIT else .IDLE
  | .WAIT => if t.wait_done then .PKT_START else .WAIT
  | .PKT_START => .PKT_DATA
  | .PKT_DATA =>
    if t.tx_slice_idx = t.tx_pktlen - 1 && t.tx_ff_tready then .PKT_END else .PKT_DATA
  | .PKT_END =>
    if c.tx_num_pkts_en && c.tx_num_pkts.setWidth 64 ≤ t.tx_pkt_cnt then .IDLE else .PKT_START
  | .PREAMBLE => .IDLE

def next_tx_pktlen (tx_pktlen : BitVec 32) : BitVec 32 :=
  if c.tx_pktlen_max ≤ tx_pktlen then c.tx_pktlen_min
  else if c.tx_pktlen_mode then tx_pktlen + 1
  else c.tx_pktlen_min

def next_tx_data_0 (tx_data_0 : BitVec 32) : BitVec 32 :=
  if c.tx_prbs then crc32 tx_data_0 true else if c.tx_no_inc then c.tx_seed_0 else tx_data_0 + 1

def next_tx_data_1 (tx_data_1 : BitVec 32) : BitVec 32 :=
  if c.tx_prbs then crc32 tx_data_1 true else tx_data_1 + 1

def tx_ff_tvalid : Bool := t.tx_pkt_state = .PREAMBLE || t.tx_pkt_state = .PKT_DATA

def tx_ff : PktBeat DATA_DW where
  tdata :=
    if t.tx_pkt_state = .PREAMBLE then t.tx_pream_pkt_cnt.setWidth _
    else pkt_tdata DATA_DW c.tx_no_scramble t.tx_data_0 t.tx_data_1
  tlast := t.tx_pkt_state = .PREAMBLE ||
    (t.tx_pkt_state = .PKT_DATA && t.tx_slice_idx = t.tx_pktlen - 1)
  tkeep := if t.tx_pkt_state = .PREAMBLE then BitVec.setWidth _ (0xFF : BitVec 8)
    else BitVec.allOnes _

def tx_push : Option (PktBeat DATA_DW) :=
  if t.tx_ff_tvalid && t.tx_ff_tready then some (t.tx_ff c) else none

def axis_tx_tvalid : Bool := t.tx_fifo ≠ []

/-- What is shown, when it is valid. -/
def axis_tx : PktBeat DATA_DW := t.tx_fifo.headD ⟨0, false, 0⟩

/-- A beat of this packet comes into the FIFO. -/
def slice_sent : Bool := t.tx_pkt_state = .PKT_DATA && t.tx_ff_tready

/-- The first packet starts. -/
def seeds : Bool := t.tx_pkt_state = .PKT_START && t.tx_pkt_cnt = 0

def step : PktTx DATA_DW where
  tx_pkt_state := if c.tx_en then next_tx_pkt_state c t else .IDLE
  tx_pream_pkt_cnt :=
    if t.tx_pkt_state = .IDLE then 0
    else if t.tx_pkt_state = .PREAMBLE && t.tx_ff_tready then t.tx_pream_pkt_cnt + 1
    else t.tx_pream_pkt_cnt
  tx_wait_cnt :=
    if t.tx_pkt_state = .IDLE && next_tx_pkt_state c t = .WAIT then 0
    else if t.tx_pkt_state = .WAIT then t.tx_wait_cnt + 1
    else t.tx_wait_cnt
  tx_pkt_cnt :=
    if clr_tx_pkt_cnt then 0
    else if t.tx_pkt_state = .PKT_END then t.tx_pkt_cnt + 1
    else t.tx_pkt_cnt
  tx_pktlen :=
    if t.tx_pkt_state = .WAIT && t.wait_done then c.tx_pktlen_min
    else if t.tx_pkt_state = .PKT_END then next_tx_pktlen c t.tx_pktlen
    else t.tx_pktlen
  tx_slice_idx :=
    if t.tx_pkt_state = .PKT_START then 0
    else if t.slice_sent then t.tx_slice_idx + 1
    else t.tx_slice_idx
  tx_data_0 :=
    if t.seeds then c.tx_seed_0
    else if t.slice_sent then next_tx_data_0 c t.tx_data_0
    else t.tx_data_0
  tx_data_1 :=
    if t.seeds then c.tx_seed_1
    else if t.slice_sent then next_tx_data_1 c t.tx_data_1
    else t.tx_data_1
  tx_fifo := flop_fifo 3 (t.tx_push c) (t.axis_tx_tvalid && axis_tx_tready) t.tx_fifo

def reset : PktTx DATA_DW where
  tx_pkt_state := .IDLE
  tx_pream_pkt_cnt := 0
  tx_wait_cnt := 0
  tx_pkt_cnt := 0
  tx_pktlen := 0
  tx_slice_idx := 0
  tx_data_0 := 0
  tx_data_1 := 0
  tx_fifo := []

end PktTx

/-! ## The checker -/

/-- The strobes that clear. -/
structure PktClr where
  rx_pkt_cnt : Bool
  rx_err_pkt_cnt : Bool
  rx_err_cnt : Bool
  rx_raw_pkt_cnt : Bool
  rx_raw_data_cnt : Bool
  rx_raw_err_cnt : Bool
  data_err : Bool

def PktPort.clrs (p : PktPort) : PktClr where
  rx_pkt_cnt := p.clr 0x94
  rx_err_pkt_cnt := p.clr 0x9C
  rx_err_cnt := p.clr 0xA4
  rx_raw_pkt_cnt := p.clr 0xB0
  rx_raw_data_cnt := p.clr 0xB8
  rx_raw_err_cnt := p.clr 0xC0
  data_err := p.cfg_wr_stretch && p.cfg_wdata_q.getLsbD 30

namespace PktChk

def RX_LOCK_CNT_MINUS1 : BitVec 32 := 4

section Data

variable {DATA_DW : Nat}

def rx_exp_tdata (DATA_DW : Nat) (c : PktCfg) (k : PktChk) : BitVec (32 * DATA_DW) :=
  pkt_tdata DATA_DW c.rx_no_scramble k.rx_data_0 k.rx_data_1

/-- Of the last beat the bytes that are not kept do not count. -/
def w_mask (b : PktBeat DATA_DW) (tdata : BitVec (32 * DATA_DW)) : BitVec (8 * (4 * DATA_DW)) :=
  of_lanes (4 * DATA_DW) fun byte_idx =>
    if b.tlast && !b.tkeep.getLsbD byte_idx then 0 else lane 8 tdata byte_idx

def rx_data_mismatch (c : PktCfg) (b : PktBeat DATA_DW) (k : PktChk) : Bool :=
  w_mask b (rx_exp_tdata DATA_DW c k) ≠ w_mask b b.tdata

end Data

variable {DATA_DW : Nat} (c : PktCfg) (clr : PktClr) (rx_tvalid : Bool) (b : PktBeat DATA_DW)
  (k : PktChk)

/-- `rx_tvalid && rx_data_mismatch`. -/
def mismatch : Bool := rx_tvalid && rx_data_mismatch c b k

/-- The beat that locks. -/
def locks : Bool :=
  k.rx_pkt_state = .PREAMBLE && RX_LOCK_CNT_MINUS1 ≤ k.rx_lock_cnt && rx_tvalid &&
    !rx_data_mismatch c b k

def next_rx_pkt_state : PktState :=
  match k.rx_pkt_state with
  | .IDLE => .PREAMBLE
  | .PREAMBLE => if k.locks c rx_tvalid b then .PKT_DATA else .PREAMBLE
  | .PKT_DATA => if k.mismatch c rx_tvalid b then .PREAMBLE else .PKT_DATA
  | _ => .IDLE

def next_rx_data_0_in : BitVec 32 :=
  if k.mismatch c rx_tvalid b then b.tdata.extractLsb' 0 32 else k.rx_data_0

def next_rx_data_0 (next_rx_data_0_in : BitVec 32) : BitVec 32 :=
  if c.rx_prbs then crc32 next_rx_data_0_in true
  else if c.rx_no_inc then next_rx_data_0_in
  else next_rx_data_0_in + 1

def next_rx_data_1_in : BitVec 32 :=
  if k.mismatch c rx_tvalid b then b.tdata.extractLsb' 32 32 else k.rx_data_1

def next_rx_data_1 (next_rx_data_1_in : BitVec 32) : BitVec 32 :=
  if c.rx_prbs then crc32 next_rx_data_1_in true else next_rx_data_1_in + 1

/-- A counter of 64 bits. -/
def count (clr event : Bool) (cnt : BitVec 64) : BitVec 64 :=
  if clr then 0 else if event then cnt + 1 else cnt

def rx_data_err : Bool :=
  c.rx_en && c.rx_data_chk && k.rx_pkt_state = .PKT_DATA && k.mismatch c rx_tvalid b

def step : PktChk where
  rx_pkt_state := if c.rx_en then next_rx_pkt_state c rx_tvalid b k else .IDLE
  rx_lock_cnt :=
    if k.rx_pkt_state = .IDLE then 0
    else if rx_tvalid then (if k.mismatch c rx_tvalid b then 0 else k.rx_lock_cnt + 1)
    else k.rx_lock_cnt
  rx_lock :=
    if k.rx_pkt_state = .IDLE then false
    else if k.rx_pkt_state = .PKT_DATA && k.mismatch c rx_tvalid b then false
    else if k.locks c rx_tvalid b then true
    else k.rx_lock
  rx_pkt_cnt := count clr.rx_pkt_cnt (k.rx_pkt_state = .PKT_DATA && rx_tvalid && b.tlast) k.rx_pkt_cnt
  rx_errored_pkt :=
    if (rx_tvalid && b.tlast && k.rx_pkt_state = .PKT_DATA) || k.rx_pkt_state = .IDLE ||
        k.rx_pkt_state = .PREAMBLE then false
    else if k.rx_pkt_state = .PKT_DATA && k.mismatch c rx_tvalid b then true
    else k.rx_errored_pkt
  rx_err_pkt_cnt := count clr.rx_err_pkt_cnt
    (rx_tvalid && b.tlast && k.rx_pkt_state = .PKT_DATA &&
      (k.rx_errored_pkt || rx_data_mismatch c b k)) k.rx_err_pkt_cnt
  rx_err_cnt := count clr.rx_err_cnt (k.rx_pkt_state = .PKT_DATA && k.mismatch c rx_tvalid b)
    k.rx_err_cnt
  rx_raw_pkt_cnt := count clr.rx_raw_pkt_cnt (rx_tvalid && b.tlast) k.rx_raw_pkt_cnt
  rx_raw_data_cnt := count clr.rx_raw_data_cnt rx_tvalid k.rx_raw_data_cnt
  rx_raw_err_cnt := count clr.rx_raw_err_cnt (k.mismatch c rx_tvalid b) k.rx_raw_err_cnt
  rx_data_0 := if rx_tvalid then next_rx_data_0 c (next_rx_data_0_in c rx_tvalid b k) else k.rx_data_0
  rx_data_1 := if rx_tvalid then next_rx_data_1 c (next_rx_data_1_in c rx_tvalid b k) else k.rx_data_1
  data_err :=
    if rx_data_err c rx_tvalid b k then true else if clr.data_err then false else k.data_err

def reset : PktChk where
  rx_pkt_state := .IDLE
  rx_lock_cnt := 0
  rx_lock := false
  rx_pkt_cnt := 0
  rx_errored_pkt := false
  rx_err_pkt_cnt := 0
  rx_err_cnt := 0
  rx_raw_pkt_cnt := 0
  rx_raw_data_cnt := 0
  rx_raw_err_cnt := 0
  rx_data_0 := 0
  rx_data_1 := 0
  data_err := false

end PktChk

/-! ## The block -/

namespace PktTst

variable {DATA_DW : Nat} (i : PktIn DATA_DW) (s : PktTst DATA_DW)

def axis_rx_tready : Bool := !watermark 2 s.rx_fifo

def rx_ff_tvalid : Bool := s.rx_fifo ≠ []

def rx_ff : PktBeat DATA_DW := s.rx_fifo.headD ⟨0, false, 0⟩

def rx_push : Option (PktBeat DATA_DW) :=
  if i.axis_rx_tvalid && s.axis_rx_tready then some i.axis_rx else none

def step : PktTst DATA_DW where
  port := s.port.step i
  cfg := s.cfg.step s.port
  tx := s.tx.step s.cfg (s.port.clr 0x14) i.axis_tx_tready
  rx_fifo := flop_fifo_in 3 (s.rx_push i) (s.rx_ff_tvalid && s.cfg.rx_en) s.rx_fifo
  rx_tvalid := if s.cfg.rx_loopback then s.tx.axis_tx_tvalid else s.rx_ff_tvalid
  rx_t := if s.cfg.rx_loopback then s.tx.axis_tx else s.rx_ff
  chk := s.chk.step s.cfg s.port.clrs s.rx_tvalid s.rx_t

def reset : PktTst DATA_DW where
  port := ⟨false, false, 0, 0, false⟩
  cfg := ⟨false, false, false, false, false, false, 0, 0, 0, 0, 0, false, false, false, false, false,
    false⟩
  tx := PktTx.reset
  rx_fifo := []
  rx_tvalid := false
  rx_t := ⟨0, false, 0⟩
  chk := PktChk.reset

def circuit : Circuit (PktIn DATA_DW) (PktTst DATA_DW) := ⟨reset, step⟩

/-- The block from some state on. -/
def resume (start : PktTst DATA_DW) : Circuit (PktIn DATA_DW) (PktTst DATA_DW) := ⟨start, step⟩

/-- The host has written what it wants to, and writes no more. -/
structure Quiet (start : PktTst DATA_DW) (ins : Nat → PktIn DATA_DW) : Prop where
  stretch : start.port.cfg_wr_stretch = false
  wr : ∀ n, (ins n).cfg_wr = false

/-- The beats that the generator sends. -/
def axis_tx_sent : List (PktBeat DATA_DW) :=
  fire s.tx.axis_tx_tvalid i.axis_tx_tready s.tx.axis_tx

/-- The beats that the checker takes in. -/
def axis_rx_taken : List (PktBeat DATA_DW) :=
  fire i.axis_rx_tvalid s.axis_rx_tready i.axis_rx

theorem quiet_port {start : PktTst DATA_DW} {ins : Nat → PktIn DATA_DW} (h : Quiet start ins)
    (n : Nat) : ((resume start).state ins n).port.cfg_wr_stretch = false := by
  induction n with
  | zero => exact h.stretch
  | succ n ih =>
    change ((ins n).cfg_wr || _ && _) = false
    rw [h.wr n, ih]
    rfl

theorem cfg_set_quiet {p : PktPort} (h : p.cfg_wr_stretch = false) (addr : BitVec 8) :
    p.cfg_set addr = false := by
  simp [PktPort.cfg_set, h]

theorem clr_quiet {p : PktPort} (h : p.cfg_wr_stretch = false) (addr : BitVec 8) :
    p.clr addr = false := by
  simp [PktPort.clr, cfg_set_quiet h]

theorem quiet_cfg {start : PktTst DATA_DW} {ins : Nat → PktIn DATA_DW} (h : Quiet start ins)
    (n : Nat) : ((resume start).state ins n).cfg = start.cfg := by
  induction n with
  | zero => rfl
  | succ n ih =>
    rw [← ih]
    change PktCfg.step _ _ = _
    simp [PktCfg.step, cfg_set_quiet (quiet_port h n)]

end PktTst

end AwsFpga.Rtl
