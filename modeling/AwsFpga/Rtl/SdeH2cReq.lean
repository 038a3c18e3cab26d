import Mathlib.Data.Nat.Log
import AwsFpga.Lib.Axi
import AwsFpga.Lib.Spans
import AwsFpga.Rtl.SdeDesc

/-!
# The requests of the H2C data mover (`sde_h2c_data.sv`)

A descriptor is read in bursts, none of which crosses a multiple of
`PCIM_MAX_RD_SIZE_BYTES`. A burst is requested when the packet buffer has room for
it, and the place that the buffer will have reached behind it is computed ahead.

`DESC_TYPE` is 0, and a beat has 64 bytes.
-/

open Lib Lib.Axi

namespace AwsFpga.Rtl

/-! ## Descriptors as the data mover has them -/

/-- `h2c_if_desc_t`. -/
structure H2cIfDesc where
  user : BitVec 64
  spb : Bool
  eop : Bool
  src_addr : BitVec 64
  len : BitVec 32
  desc_type : Bool
  deriving DecidableEq

def h2c_cnv_desc_comm2if (in_desc : CommDesc) : H2cIfDesc where
  user := in_desc.user
  spb := in_desc.spb
  eop := in_desc.eop
  src_addr := in_desc.src_addr
  len := in_desc.len
  desc_type := in_desc.desc_type

structure H2cDataParams where
  PCIM_MAX_RD_SIZE : Nat
  PCIM_NUM_OT_RD : Nat
  BUF_DEPTH : Nat
  BUF_AUX_DEPTH : Nat
  ot_pos : 1 < PCIM_NUM_OT_RD

structure H2cDataIn where
  desc_dm_desc_valid : Bool
  desc_dm_desc : CommDesc
  pm_dm_arready : Bool
  pm_dm_rvalid : Bool
  pm_dm_rdata : BitVec 512
  pm_dm_rresp : BitVec 2
  pm_dm_rlast : Bool
  buf_dm_num_bytes : Nat
  buf_dm_aux_full : Bool

inductive H2cReqState where
  | REQ_IDLE
  | REQ_GET_DESC
  | REQ_WAIT_DATA
  | REQ_ADDR
  deriving DecidableEq

structure H2cReq where
  req_state : H2cReqState
  curr_desc : H2cIfDesc
  curr_desc_src_addr : BitVec 64
  curr_desc_max_minus_dest_addr : Nat
  curr_desc_len : Nat
  curr_buf_byte_wr_addr : Nat
  curr_buf_wr_ptr_msb : Bool
  curr_buf_aux_wr_ptr : Nat
  curr_buf_aux_wr_ptr_msb : Bool
  curr_txn_src_addr : BitVec 64
  curr_txn_num_bytes : Nat
  curr_txn_arlen : Nat
  dm_cfg_desc_len_err : Bool

/-- `rd_txn_trk_t`. -/
structure RdTxnTrk where
  txn_src_addr : Nat
  desc_spb : Bool
  desc_last_txn : Bool
  txn_eop : Bool
  txn_num_bytes : Nat
  desc_user : BitVec 64
  deriving DecidableEq

/-- A read request: what goes to the AR channel, and what is kept of it. -/
structure PcimRd where
  dm_pm_araddr : BitVec 64
  dm_pm_arlen : Nat
  rd_txn_trk : RdTxnTrk
  deriving DecidableEq

def H2cReq.PCIM_BYTES : Nat := 64

/-- The bytes of a burst: its last one may be the last of the descriptor, and then of a packet. -/
def RdTxnTrk.span (t : RdTxnTrk) : Span (Option (BitVec 64)) where
  offset := t.txn_src_addr
  length := t.txn_num_bytes
  mark := if t.desc_last_txn then some (if t.txn_eop then some t.desc_user else none) else none

/-- What a request is, and how many beats it asks for. -/
structure PcimRd.Ok (rd : PcimRd) : Prop where
  span : rd.rd_txn_trk.span.Ok H2cReq.PCIM_BYTES
  arlen : rd.dm_pm_arlen = rd.rd_txn_trk.span.beats H2cReq.PCIM_BYTES - 1
  spb : rd.rd_txn_trk.desc_spb = false
  eop : rd.rd_txn_trk.txn_eop → rd.rd_txn_trk.desc_last_txn

namespace H2cReq

/-- A beat of 64 bytes allows for bursts of 4096. -/
def PCIM_MAX_RD_SIZE_BYTES (p : H2cDataParams) : Nat :=
  match p.PCIM_MAX_RD_SIZE with
  | 0 => 512
  | 1 => 1024
  | 2 => 2048
  | _ => 4096

def BUF_SIZE_BYTES (p : H2cDataParams) : Nat := p.BUF_DEPTH * PCIM_BYTES

def BUF_AUX_RAM_ADDR_WIDTH (p : H2cDataParams) : Nat := Nat.clog 2 p.BUF_AUX_DEPTH

variable (p : H2cDataParams) (i : H2cDataIn) (rd_txn_trk_ff_full : Bool) (r : H2cReq)

/-! ## The wires -/

def desc_dm_desc_in : H2cIfDesc := h2c_cnv_desc_comm2if i.desc_dm_desc

def dm_desc_pop : Bool := r.req_state = .REQ_IDLE && i.desc_dm_desc_valid

def dm_pm_arvalid : Bool := r.req_state = .REQ_ADDR

def desc_req_done : Bool := dm_pm_arvalid r && i.pm_dm_arready

def desc_done : Bool := desc_req_done i r && decide (r.curr_desc_len ≤ r.curr_txn_num_bytes)

def desc_done_w_eop : Bool := desc_done i r && r.curr_desc.eop

def curr_desc_src_addr_d : BitVec 64 :=
  if dm_desc_pop i r then (desc_dm_desc_in i).src_addr
  else if desc_req_done i r then r.curr_desc_src_addr + BitVec.ofNat 64 r.curr_txn_num_bytes
  else r.curr_desc_src_addr

def curr_txn_max_bytes : Nat := r.curr_desc_max_minus_dest_addr

/-- The last burst of the descriptor, by its bits 31 to 13 and 12 to 0. -/
def curr_txn_last : Bool :=
  r.curr_desc_len / 2 ^ 13 = 0 && decide (r.curr_desc_len % 2 ^ 13 ≤ curr_txn_max_bytes r)

def curr_txn_min_num_bytes : Nat :=
  if r.curr_desc_len / 2 ^ 13 ≠ 0 then curr_txn_max_bytes r
  else if curr_txn_max_bytes r < r.curr_desc_len % 2 ^ 13 then curr_txn_max_bytes r
  else r.curr_desc_len

def curr_txn_aux_space_avail : Bool :=
  if r.curr_desc.eop && curr_txn_last r then !i.buf_dm_aux_full else true

def curr_txn_buf_space_avail : Bool := curr_txn_min_num_bytes r ≤ i.buf_dm_num_bytes

def curr_txn_space_avail : Bool := curr_txn_aux_space_avail i r && curr_txn_buf_space_avail i r

def curr_txn_arlen_2_extra_beats : Bool :=
  PCIM_BYTES < curr_txn_min_num_bytes r % PCIM_BYTES + r.curr_desc_src_addr.toNat % PCIM_BYTES

def curr_txn_arlen_1_extra_beat : Bool :=
  curr_txn_min_num_bytes r % PCIM_BYTES ≠ 0 || r.curr_desc_src_addr.toNat % PCIM_BYTES ≠ 0

def curr_txn_arlen_d : Nat :=
  if curr_txn_arlen_2_extra_beats r then curr_txn_min_num_bytes r / PCIM_BYTES + 1
  else if curr_txn_arlen_1_extra_beat r then curr_txn_min_num_bytes r / PCIM_BYTES
  else (curr_txn_min_num_bytes r / PCIM_BYTES + 255) % 256

/-! ### The place in the buffer -/

def curr_buf_byte_wr_addr_plus_txn_num_bytes : Nat := r.curr_buf_byte_wr_addr + r.curr_txn_num_bytes

def curr_buf_byte_wr_addr_next : Nat :=
  if BUF_SIZE_BYTES p ≤ curr_buf_byte_wr_addr_plus_txn_num_bytes r then
    curr_buf_byte_wr_addr_plus_txn_num_bytes r - BUF_SIZE_BYTES p
  else curr_buf_byte_wr_addr_plus_txn_num_bytes r

def curr_buf_byte_wr_addr_msb_next : Bool :=
  if BUF_SIZE_BYTES p ≤ curr_buf_byte_wr_addr_plus_txn_num_bytes r then !r.curr_buf_wr_ptr_msb
  else r.curr_buf_wr_ptr_msb

def curr_buf_ram_wr_addr_next : Nat :=
  if curr_buf_byte_wr_addr_next p r % PCIM_BYTES = 0 then
    curr_buf_byte_wr_addr_next p r / PCIM_BYTES
  else if curr_buf_byte_wr_addr_next p r / PCIM_BYTES = p.BUF_DEPTH - 1 then 0
  else curr_buf_byte_wr_addr_next p r / PCIM_BYTES + 1

def curr_buf_ram_wr_addr_msb_next : Bool :=
  if BUF_SIZE_BYTES p ≤ curr_buf_byte_wr_addr_plus_txn_num_bytes r then !r.curr_buf_wr_ptr_msb
  else if curr_buf_byte_wr_addr_next p r / PCIM_BYTES = p.BUF_DEPTH - 1 &&
      curr_buf_byte_wr_addr_next p r % PCIM_BYTES ≠ 0 then
    !r.curr_buf_wr_ptr_msb
  else r.curr_buf_wr_ptr_msb

/-- `{BUF_AUX_RAM_ADDR_WIDTH{1'b1}}`. -/
def aux_wr_ptr_ones : Nat := 2 ^ BUF_AUX_RAM_ADDR_WIDTH p - 1

def curr_buf_aux_wr_ptr_next : Nat :=
  if r.curr_buf_aux_wr_ptr = aux_wr_ptr_ones p then 0 else r.curr_buf_aux_wr_ptr + 1

def curr_buf_aux_wr_ptr_msb_next : Bool :=
  if r.curr_buf_aux_wr_ptr = aux_wr_ptr_ones p then !r.curr_buf_aux_wr_ptr_msb
  else r.curr_buf_aux_wr_ptr_msb

/-! ### What is kept of a request -/

def rd_txn_trk_ff_push_data : RdTxnTrk where
  txn_src_addr := r.curr_txn_src_addr.toNat % PCIM_BYTES
  desc_spb := r.curr_desc.spb
  desc_last_txn := r.curr_desc_len ≤ r.curr_txn_num_bytes
  txn_eop := r.curr_desc.eop && decide (r.curr_desc_len ≤ r.curr_txn_num_bytes)
  txn_num_bytes := r.curr_txn_num_bytes % 2 ^ 13
  desc_user := r.curr_desc.user

/-! ## The registers -/

def req_state_next : H2cReqState :=
  match r.req_state with
  | .REQ_IDLE => if i.desc_dm_desc_valid then .REQ_WAIT_DATA else .REQ_IDLE
  | .REQ_GET_DESC => .REQ_GET_DESC
  | .REQ_WAIT_DATA =>
    if curr_txn_space_avail i r && !rd_txn_trk_ff_full then .REQ_ADDR else .REQ_WAIT_DATA
  | .REQ_ADDR =>
    if desc_req_done i r && desc_done i r then .REQ_IDLE
    else if desc_req_done i r then .REQ_WAIT_DATA
    else .REQ_ADDR

/-- The state in which the registers of a burst follow the descriptor. -/
def txn_load : Bool := r.req_state = .REQ_WAIT_DATA && !rd_txn_trk_ff_full

/-- A length is never less than what is taken from it, and no other sum or difference needs more
bits than its register has. -/
def step : H2cReq where
  req_state := req_state_next i rd_txn_trk_ff_full r
  curr_desc := if dm_desc_pop i r then desc_dm_desc_in i else r.curr_desc
  curr_desc_src_addr := curr_desc_src_addr_d i r
  curr_desc_max_minus_dest_addr :=
    PCIM_MAX_RD_SIZE_BYTES p - (curr_desc_src_addr_d i r).toNat % PCIM_MAX_RD_SIZE_BYTES p
  curr_desc_len :=
    if dm_desc_pop i r then (desc_dm_desc_in i).len.toNat
    else if desc_req_done i r then r.curr_desc_len - r.curr_txn_num_bytes
    else r.curr_desc_len
  curr_buf_byte_wr_addr :=
    if desc_done_w_eop i r then curr_buf_ram_wr_addr_next p r * PCIM_BYTES
    else if desc_req_done i r then curr_buf_byte_wr_addr_next p r
    else r.curr_buf_byte_wr_addr
  curr_buf_wr_ptr_msb :=
    if desc_done_w_eop i r then curr_buf_ram_wr_addr_msb_next p r
    else if desc_req_done i r then curr_buf_byte_wr_addr_msb_next p r
    else r.curr_buf_wr_ptr_msb
  curr_buf_aux_wr_ptr :=
    if desc_done_w_eop i r then curr_buf_aux_wr_ptr_next p r else r.curr_buf_aux_wr_ptr
  curr_buf_aux_wr_ptr_msb :=
    if desc_done_w_eop i r then curr_buf_aux_wr_ptr_msb_next p r else r.curr_buf_aux_wr_ptr_msb
  curr_txn_src_addr :=
    if txn_load rd_txn_trk_ff_full r then r.curr_desc_src_addr else r.curr_txn_src_addr
  curr_txn_num_bytes :=
    if txn_load rd_txn_trk_ff_full r then curr_txn_min_num_bytes r else r.curr_txn_num_bytes
  curr_txn_arlen := if txn_load rd_txn_trk_ff_full r then curr_txn_arlen_d r else r.curr_txn_arlen
  dm_cfg_desc_len_err := dm_desc_pop i r && decide ((desc_dm_desc_in i).len = 0)

def start : H2cReq where
  req_state := .REQ_IDLE
  curr_desc := ⟨0, false, false, 0, 0, false⟩
  curr_desc_src_addr := 0
  curr_desc_max_minus_dest_addr := 0
  curr_desc_len := 0
  curr_buf_byte_wr_addr := 0
  curr_buf_wr_ptr_msb := false
  curr_buf_aux_wr_ptr := 0
  curr_buf_aux_wr_ptr_msb := false
  curr_txn_src_addr := 0
  curr_txn_num_bytes := 0
  curr_txn_arlen := 0
  dm_cfg_desc_len_err := false

/-! ## Descriptors and their bursts -/

/-- The descriptor that is popped. -/
def popped : List H2cIfDesc := if dm_desc_pop i r then [desc_dm_desc_in i] else []

/-- The request that is granted. -/
def issued : List PcimRd :=
  fire (dm_pm_arvalid r) i.pm_dm_arready
    ⟨r.curr_txn_src_addr, r.curr_txn_arlen, rd_txn_trk_ff_push_data r⟩

theorem max_pos (p : H2cDataParams) : 0 < PCIM_MAX_RD_SIZE_BYTES p := by
  unfold PCIM_MAX_RD_SIZE_BYTES
  split <;> decide

theorem max_le (p : H2cDataParams) : PCIM_MAX_RD_SIZE_BYTES p ≤ 4096 := by
  unfold PCIM_MAX_RD_SIZE_BYTES
  split <;> decide

theorem max_dvd (p : H2cDataParams) :
    PCIM_BYTES ∣ PCIM_MAX_RD_SIZE_BYTES p ∧ PCIM_MAX_RD_SIZE_BYTES p ∣ 2 ^ 64 := by
  unfold PCIM_MAX_RD_SIZE_BYTES
  split <;> decide

/-- How far a burst goes: up to the end of the descriptor or the next boundary. -/
def burst_bytes (src_addr : BitVec 64) (len : Nat) : Nat :=
  min len (PCIM_MAX_RD_SIZE_BYTES p - src_addr.toNat % PCIM_MAX_RD_SIZE_BYTES p)

theorem burst_bytes_pos (src_addr : BitVec 64) {len : Nat} (hlen : 0 < len) :
    0 < burst_bytes p src_addr len := by
  have hmod := Nat.mod_lt src_addr.toNat (max_pos p)
  unfold burst_bytes
  omega

/-- The request of one burst of a descriptor. -/
def burst (d : H2cIfDesc) (src_addr : BitVec 64) (len : Nat) : PcimRd where
  dm_pm_araddr := src_addr
  dm_pm_arlen :=
    (src_addr.toNat % PCIM_BYTES + burst_bytes p src_addr len + PCIM_BYTES - 1) / PCIM_BYTES - 1
  rd_txn_trk :=
    { txn_src_addr := src_addr.toNat % PCIM_BYTES
      desc_spb := d.spb
      desc_last_txn := len ≤ burst_bytes p src_addr len
      txn_eop := d.eop && decide (len ≤ burst_bytes p src_addr len)
      txn_num_bytes := burst_bytes p src_addr len
      desc_user := d.user }

/-- The requests for `len` bytes of a descriptor. -/
def bursts (d : H2cIfDesc) (src_addr : BitVec 64) (len : Nat) : List PcimRd :=
  if 0 < len then
    burst p d src_addr len :: bursts d (src_addr + BitVec.ofNat 64 (burst_bytes p src_addr len))
      (len - burst_bytes p src_addr len)
  else []
termination_by len
decreasing_by
  have hpos := burst_bytes_pos p src_addr (by assumption)
  omega

/-- The requests of a descriptor. -/
def reads (d : H2cIfDesc) : List PcimRd := bursts p d d.src_addr d.len.toNat

/-- What is still to be requested. -/
def left : List PcimRd :=
  if r.req_state = .REQ_IDLE then [] else bursts p r.curr_desc r.curr_desc_src_addr r.curr_desc_len

/-- The request that the code makes. Without a byte, at the start of a row, the number of beats is
`0 - 1`. -/
def request (d : H2cIfDesc) (src_addr : BitVec 64) (len : Nat) : PcimRd :=
  { burst p d src_addr len with
    dm_pm_arlen :=
      if len = 0 ∧ src_addr.toNat % PCIM_BYTES = 0 then 255 else (burst p d src_addr len).dm_pm_arlen }

/-- The requests that the code makes: without a byte, there is one. -/
def asked (d : H2cIfDesc) (src_addr : BitVec 64) (len : Nat) : List PcimRd :=
  if len = 0 then [request p d src_addr 0] else bursts p d src_addr len

/-- What is still to be requested, when a descriptor may have no byte. -/
def to_ask : List PcimRd :=
  if r.req_state = .REQ_IDLE then [] else asked p r.curr_desc r.curr_desc_src_addr r.curr_desc_len

/-! ## One cycle -/

variable {p i rd_txn_trk_ff_full r}

structure Steady (p : H2cDataParams) (r : H2cReq) : Prop where
  known : r.req_state ≠ .REQ_GET_DESC
  busy : r.req_state ≠ .REQ_IDLE → r.curr_desc_len < 2 ^ 32 ∧
    r.curr_desc_max_minus_dest_addr =
      PCIM_MAX_RD_SIZE_BYTES p - r.curr_desc_src_addr.toNat % PCIM_MAX_RD_SIZE_BYTES p
  addr : r.req_state = .REQ_ADDR →
    (⟨r.curr_txn_src_addr, r.curr_txn_arlen, rd_txn_trk_ff_push_data r⟩ : PcimRd) =
        request p r.curr_desc r.curr_desc_src_addr r.curr_desc_len ∧
      r.curr_txn_num_bytes = burst_bytes p r.curr_desc_src_addr r.curr_desc_len

structure Ok (p : H2cDataParams) (r : H2cReq) : Prop where
  known : r.req_state ≠ .REQ_GET_DESC
  busy : r.req_state ≠ .REQ_IDLE → 0 < r.curr_desc_len ∧ r.curr_desc_len < 2 ^ 32 ∧
    r.curr_desc_max_minus_dest_addr =
      PCIM_MAX_RD_SIZE_BYTES p - r.curr_desc_src_addr.toNat % PCIM_MAX_RD_SIZE_BYTES p
  spb : r.curr_desc.spb = false
  addr : r.req_state = .REQ_ADDR →
    (⟨r.curr_txn_src_addr, r.curr_txn_arlen, rd_txn_trk_ff_push_data r⟩ : PcimRd) =
        burst p r.curr_desc r.curr_desc_src_addr r.curr_desc_len ∧
      r.curr_txn_num_bytes = burst_bytes p r.curr_desc_src_addr r.curr_desc_len

/-- A descriptor has a byte, and none comes from the packet buffer of PCIS. -/
def May (i : H2cDataIn) : Prop :=
  i.desc_dm_desc_valid → (desc_dm_desc_in i).len ≠ 0 ∧ (desc_dm_desc_in i).spb = false

theorem steady_start : Steady p start := ⟨by decide, fun h => absurd rfl h, nofun⟩

theorem ok_start : Ok p start := ⟨by decide, fun h => absurd rfl h, rfl, nofun⟩

theorem burst_bytes_le (src_addr : BitVec 64) (len : Nat) :
    burst_bytes p src_addr len ≤ len ∧ burst_bytes p src_addr len ≤ 4096 := by
  have hle := max_le p
  unfold burst_bytes
  omega

theorem request_eq (d : H2cIfDesc) (src_addr : BitVec 64) {len : Nat} (hlen : 0 < len) :
    request p d src_addr len = burst p d src_addr len := by
  have hne : ¬(len = 0 ∧ src_addr.toNat % PCIM_BYTES = 0) := by omega
  rw [request, if_neg hne]

theorem asked_eq (d : H2cIfDesc) (src_addr : BitVec 64) {len : Nat} (hlen : 0 < len) :
    asked p d src_addr len = bursts p d src_addr len := by
  rw [asked, if_neg (by omega)]

theorem Ok.steady (h : Ok p r) : Steady p r := by
  refine ⟨h.known, fun hbusy => (h.busy hbusy).2, fun hstate => ?_⟩
  have hbusy : r.req_state ≠ .REQ_IDLE := by
    rw [hstate]
    decide
  rw [request_eq _ _ (h.busy hbusy).1]
  exact h.addr hstate

theorem ok_of_steady (h : Steady p r) (hlen : r.req_state ≠ .REQ_IDLE → 0 < r.curr_desc_len)
    (hspb : r.curr_desc.spb = false) : Ok p r := by
  refine ⟨h.known, fun hbusy => ⟨hlen hbusy, h.busy hbusy⟩, hspb, fun hstate => ?_⟩
  have hbusy : r.req_state ≠ .REQ_IDLE := by
    rw [hstate]
    decide
  rw [← request_eq _ _ (hlen hbusy)]
  exact h.addr hstate

theorem min_num_bytes_eq (h : Steady p r) (hbusy : r.req_state ≠ .REQ_IDLE) :
    curr_txn_min_num_bytes r = burst_bytes p r.curr_desc_src_addr r.curr_desc_len := by
  obtain ⟨hlt, hmax⟩ := h.busy hbusy
  have hle := max_le p
  rw [curr_txn_min_num_bytes, curr_txn_max_bytes, hmax, burst_bytes]
  split
  · omega
  · split <;> omega

/-- The number of beats, by which of the two ends lies inside a row. -/
theorem beats_eq (offset bytes : Nat) (hbytes : bytes ≤ 4096) :
    (if 64 < bytes % 64 + offset % 64 then bytes / 64 + 1
      else if bytes % 64 ≠ 0 ∨ offset % 64 ≠ 0 then bytes / 64
      else (bytes / 64 + 255) % 256) =
        if bytes = 0 ∧ offset % 64 = 0 then 255 else (offset % 64 + bytes + 64 - 1) / 64 - 1 := by
  split
  · split <;> omega
  · split
    · split <;> omega
    · split <;> omega

theorem burst_bytes_zero (src_addr : BitVec 64) {len : Nat} :
    burst_bytes p src_addr len = 0 ↔ len = 0 := by
  have hmod := Nat.mod_lt src_addr.toNat (max_pos p)
  unfold burst_bytes
  omega

theorem arlen_eq (h : Steady p r) (hbusy : r.req_state ≠ .REQ_IDLE) :
    curr_txn_arlen_d r =
      (request p r.curr_desc r.curr_desc_src_addr r.curr_desc_len).dm_pm_arlen := by
  have hle := (burst_bytes_le (p := p) r.curr_desc_src_addr r.curr_desc_len).2
  have hzero := @burst_bytes_zero p r.curr_desc_src_addr r.curr_desc_len
  unfold curr_txn_arlen_d curr_txn_arlen_2_extra_beats curr_txn_arlen_1_extra_beat request burst
  dsimp only
  rw [min_num_bytes_eq h hbusy, if_congr (and_congr_left' hzero.symm) rfl rfl]
  simp only [Bool.or_eq_true, decide_eq_true_eq]
  exact beats_eq _ _ hle

theorem addr_load (h : Steady p r) (hstate : r.req_state = .REQ_WAIT_DATA) :
    (⟨r.curr_desc_src_addr, curr_txn_arlen_d r,
        rd_txn_trk_ff_push_data { r with
          curr_txn_src_addr := r.curr_desc_src_addr
          curr_txn_num_bytes := curr_txn_min_num_bytes r }⟩ : PcimRd) =
      request p r.curr_desc r.curr_desc_src_addr r.curr_desc_len := by
  have hbusy : r.req_state ≠ .REQ_IDLE := by
    rw [hstate]
    decide
  have hle := (burst_bytes_le (p := p) r.curr_desc_src_addr r.curr_desc_len).2
  rw [arlen_eq h hbusy]
  unfold rd_txn_trk_ff_push_data request burst
  dsimp only
  rw [min_num_bytes_eq h hbusy, Nat.mod_eq_of_lt (show _ < 2 ^ 13 by omega)]

theorem pop_state (hpop : dm_desc_pop i r) : r.req_state = .REQ_IDLE ∧ i.desc_dm_desc_valid := by
  unfold dm_desc_pop at hpop
  rwa [Bool.and_eq_true, decide_eq_true_eq] at hpop

theorem req_done_state (hdone : desc_req_done i r) :
    r.req_state = .REQ_ADDR ∧ i.pm_dm_arready := by
  unfold desc_req_done dm_pm_arvalid at hdone
  rwa [Bool.and_eq_true, decide_eq_true_eq] at hdone

theorem no_pop (hstate : r.req_state ≠ .REQ_IDLE) : dm_desc_pop i r = false :=
  eq_false_of_ne_true fun hpop => hstate (pop_state hpop).1

theorem no_req_done (hstate : r.req_state ≠ .REQ_ADDR) : desc_req_done i r = false :=
  eq_false_of_ne_true fun hdone => hstate (req_done_state hdone).1

theorem step_hold (hpop : dm_desc_pop i r = false) (hdone : desc_req_done i r = false) :
    (step p i rd_txn_trk_ff_full r).curr_desc = r.curr_desc ∧
      (step p i rd_txn_trk_ff_full r).curr_desc_src_addr = r.curr_desc_src_addr ∧
      (step p i rd_txn_trk_ff_full r).curr_desc_len = r.curr_desc_len ∧
      (step p i rd_txn_trk_ff_full r).curr_desc_max_minus_dest_addr =
        PCIM_MAX_RD_SIZE_BYTES p - r.curr_desc_src_addr.toNat % PCIM_MAX_RD_SIZE_BYTES p := by
  simp [step, curr_desc_src_addr_d, hpop, hdone]

theorem idle_hold (h : Steady p r) (hpop : dm_desc_pop i r = false)
    (hdone : desc_req_done i r = false) :
    (step p i rd_txn_trk_ff_full r).req_state = .REQ_IDLE ↔ r.req_state = .REQ_IDLE := by
  change req_state_next i rd_txn_trk_ff_full r = .REQ_IDLE ↔ _
  cases hstate : r.req_state with
  | REQ_GET_DESC => exact absurd hstate h.known
  | REQ_IDLE =>
    have hvalid : i.desc_dm_desc_valid = false := by simpa [dm_desc_pop, hstate] using hpop
    simp [req_state_next, hstate, hvalid]
  | REQ_WAIT_DATA =>
    simp only [req_state_next, hstate]
    split <;> decide
  | REQ_ADDR => simp [req_state_next, hstate, hdone]

theorem step_pop (hpop : dm_desc_pop i r) :
    (step p i rd_txn_trk_ff_full r).req_state = .REQ_WAIT_DATA ∧
      (step p i rd_txn_trk_ff_full r).curr_desc = desc_dm_desc_in i ∧
      (step p i rd_txn_trk_ff_full r).curr_desc_src_addr = (desc_dm_desc_in i).src_addr ∧
      (step p i rd_txn_trk_ff_full r).curr_desc_len = (desc_dm_desc_in i).len.toNat := by
  obtain ⟨hstate, hvalid⟩ := pop_state hpop
  simp [step, curr_desc_src_addr_d, hpop, req_state_next, hstate, hvalid]

theorem step_grant (h : Steady p r) (hdone : desc_req_done i r) :
    (step p i rd_txn_trk_ff_full r).req_state =
        (if r.curr_desc_len ≤ burst_bytes p r.curr_desc_src_addr r.curr_desc_len then .REQ_IDLE
          else .REQ_WAIT_DATA) ∧
      (step p i rd_txn_trk_ff_full r).curr_desc = r.curr_desc ∧
      (step p i rd_txn_trk_ff_full r).curr_desc_src_addr = r.curr_desc_src_addr +
        BitVec.ofNat 64 (burst_bytes p r.curr_desc_src_addr r.curr_desc_len) ∧
      (step p i rd_txn_trk_ff_full r).curr_desc_len =
        r.curr_desc_len - burst_bytes p r.curr_desc_src_addr r.curr_desc_len := by
  obtain ⟨hstate, -⟩ := req_done_state hdone
  have hpop : dm_desc_pop i r = false := by
    apply no_pop
    rw [hstate]
    decide
  have hnum := (h.addr hstate).2
  refine ⟨?_, ?_, ?_, ?_⟩
  · change req_state_next i rd_txn_trk_ff_full r = _
    unfold req_state_next desc_done
    rw [hstate, ← hnum]
    simp [hdone]
  · simp [step, hpop]
  · simp [step, curr_desc_src_addr_d, hpop, hdone, hnum]
  · simp [step, hpop, hdone, hnum]

theorem max_step : (step p i rd_txn_trk_ff_full r).curr_desc_max_minus_dest_addr =
    PCIM_MAX_RD_SIZE_BYTES p -
      (step p i rd_txn_trk_ff_full r).curr_desc_src_addr.toNat % PCIM_MAX_RD_SIZE_BYTES p := rfl

theorem steady_step_pop (hpop : dm_desc_pop i r) : Steady p (step p i rd_txn_trk_ff_full r) := by
  obtain ⟨hnext, -, -, hlen⟩ := @step_pop p i rd_txn_trk_ff_full r hpop
  refine ⟨by simp [hnext], fun _ => ⟨?_, max_step⟩, by simp [hnext]⟩
  rw [hlen]
  exact (desc_dm_desc_in i).len.isLt

theorem steady_step_grant (h : Steady p r) (hdone : desc_req_done i r) :
    Steady p (step p i rd_txn_trk_ff_full r) := by
  obtain ⟨hnext, -, -, hlen⟩ := @step_grant p i rd_txn_trk_ff_full r h hdone
  have hbusy : r.req_state ≠ .REQ_IDLE := by
    rw [(req_done_state hdone).1]
    decide
  refine ⟨?_, fun _ => ⟨?_, max_step⟩, fun haddr => ?_⟩
  · rw [hnext]
    split <;> decide
  · have hlt := (h.busy hbusy).1
    omega
  · rw [hnext] at haddr
    split at haddr <;> cases haddr

theorem addr_hold (h : Steady p r) (hdone : desc_req_done i r = false)
    (haddr : (step p i rd_txn_trk_ff_full r).req_state = .REQ_ADDR) :
    (⟨(step p i rd_txn_trk_ff_full r).curr_txn_src_addr,
        (step p i rd_txn_trk_ff_full r).curr_txn_arlen,
        rd_txn_trk_ff_push_data (step p i rd_txn_trk_ff_full r)⟩ : PcimRd) =
      request p r.curr_desc r.curr_desc_src_addr r.curr_desc_len ∧
    (step p i rd_txn_trk_ff_full r).curr_txn_num_bytes =
      burst_bytes p r.curr_desc_src_addr r.curr_desc_len := by
  change req_state_next i rd_txn_trk_ff_full r = .REQ_ADDR at haddr
  cases hstate : r.req_state with
  | REQ_GET_DESC => exact absurd hstate h.known
  | REQ_IDLE =>
    simp only [req_state_next, hstate] at haddr
    split at haddr <;> cases haddr
  | REQ_WAIT_DATA =>
    have hpop : dm_desc_pop i r = false := no_pop (by simp [hstate])
    obtain ⟨hdesc, -, hlen, -⟩ := @step_hold p i rd_txn_trk_ff_full r hpop hdone
    have hload : txn_load rd_txn_trk_ff_full r = true := by
      simp only [req_state_next, hstate] at haddr
      split at haddr
      case isTrue havail =>
        rw [Bool.and_eq_true] at havail
        simp [txn_load, hstate, havail.2]
      case isFalse => cases haddr
    have hrd := addr_load h hstate
    have hnum := min_num_bytes_eq h (by simp [hstate])
    unfold rd_txn_trk_ff_push_data at hrd ⊢
    rw [hdesc, hlen]
    simp only [step, hload, if_true] at hrd ⊢
    exact ⟨hrd, hnum⟩
  | REQ_ADDR =>
    have hpop : dm_desc_pop i r = false := no_pop (by simp [hstate])
    obtain ⟨hdesc, -, hlen, -⟩ := @step_hold p i rd_txn_trk_ff_full r hpop hdone
    have hload : txn_load rd_txn_trk_ff_full r = false := by simp [txn_load, hstate]
    have hrd := h.addr hstate
    unfold rd_txn_trk_ff_push_data at hrd ⊢
    rw [hdesc, hlen]
    simpa only [step, hload, Bool.false_eq_true, if_false] using hrd

theorem steady_step_hold (h : Steady p r) (hpop : dm_desc_pop i r = false)
    (hdone : desc_req_done i r = false) : Steady p (step p i rd_txn_trk_ff_full r) := by
  obtain ⟨hdesc, hsrc, hlen, hmax⟩ := @step_hold p i rd_txn_trk_ff_full r hpop hdone
  refine ⟨?_, fun hbusy => ?_, fun haddr => ?_⟩
  · change req_state_next i rd_txn_trk_ff_full r ≠ _
    cases hstate : r.req_state with
    | REQ_GET_DESC => exact absurd hstate h.known
    | REQ_IDLE =>
      simp only [req_state_next, hstate]
      split <;> decide
    | REQ_WAIT_DATA =>
      simp only [req_state_next, hstate]
      split <;> decide
    | REQ_ADDR => simp [req_state_next, hstate, hdone]
  · rw [hlen, hsrc, hmax]
    exact ⟨(h.busy fun hidle => hbusy ((idle_hold h hpop hdone).mpr hidle)).1, rfl⟩
  · rw [hdesc, hsrc, hlen]
    exact addr_hold h hdone haddr

theorem steady_step (h : Steady p r) : Steady p (step p i rd_txn_trk_ff_full r) := by
  cases hpop : dm_desc_pop i r with
  | true => exact steady_step_pop hpop
  | false =>
    cases hdone : desc_req_done i r with
    | true => exact steady_step_grant h hdone
    | false => exact steady_step_hold h hpop hdone

theorem ok_step (h : Ok p r) (hmay : May i) : Ok p (step p i rd_txn_trk_ff_full r) := by
  have hsteady : Steady p (step p i rd_txn_trk_ff_full r) := steady_step h.steady
  cases hpop : dm_desc_pop i r with
  | true =>
    obtain ⟨-, hdesc, -, hlen⟩ := @step_pop p i rd_txn_trk_ff_full r hpop
    obtain ⟨hne, hspb⟩ := hmay (pop_state hpop).2
    refine ok_of_steady hsteady (fun _ => ?_) (by rw [hdesc]; exact hspb)
    rw [hlen]
    exact Nat.pos_of_ne_zero fun hzero => hne (BitVec.eq_of_toNat_eq (by rw [hzero]; rfl))
  | false =>
    cases hdone : desc_req_done i r with
    | true =>
      obtain ⟨hnext, hdesc, -, hlen⟩ := @step_grant p i rd_txn_trk_ff_full r h.steady hdone
      refine ok_of_steady hsteady (fun hbusy => ?_) (by rw [hdesc]; exact h.spb)
      rw [hlen]
      have hmore : ¬r.curr_desc_len ≤ burst_bytes p r.curr_desc_src_addr r.curr_desc_len := by
        intro hle
        rw [hnext, if_pos hle] at hbusy
        exact hbusy rfl
      omega
    | false =>
      obtain ⟨hdesc, -, hlen, -⟩ := @step_hold p i rd_txn_trk_ff_full r hpop hdone
      refine ok_of_steady hsteady (fun hbusy => ?_) (by rw [hdesc]; exact h.spb)
      rw [hlen]
      exact (h.busy fun hidle => hbusy ((idle_hold h.steady hpop hdone).mpr hidle)).1

theorem bursts_cons (d : H2cIfDesc) (src_addr : BitVec 64) {len : Nat} (hlen : 0 < len) :
    bursts p d src_addr len = burst p d src_addr len ::
      bursts p d (src_addr + BitVec.ofNat 64 (burst_bytes p src_addr len))
        (len - burst_bytes p src_addr len) := by
  rw [bursts, if_pos hlen]

@[simp] theorem bursts_zero (d : H2cIfDesc) (src_addr : BitVec 64) :
    bursts p d src_addr 0 = [] := by
  rw [bursts, if_neg (Nat.lt_irrefl 0)]

theorem asked_cons (d : H2cIfDesc) (src_addr : BitVec 64) (len : Nat) :
    asked p d src_addr len = request p d src_addr len ::
      if len ≤ burst_bytes p src_addr len then []
      else asked p d (src_addr + BitVec.ofNat 64 (burst_bytes p src_addr len))
        (len - burst_bytes p src_addr len) := by
  rcases Nat.eq_zero_or_pos len with rfl | hlen
  · rw [if_pos (Nat.zero_le _)]
    rfl
  · rw [asked_eq d src_addr hlen, request_eq d src_addr hlen, bursts_cons d src_addr hlen]
    split
    case isTrue hle => rw [Nat.sub_eq_zero_of_le hle, bursts_zero]
    case isFalse hgt => rw [asked_eq _ _ (by omega)]

theorem issued_grant (h : Steady p r) (hdone : desc_req_done i r) :
    issued i r = [request p r.curr_desc r.curr_desc_src_addr r.curr_desc_len] := by
  have hrd := (h.addr (req_done_state hdone).1).1
  unfold desc_req_done at hdone
  rw [issued, fire, if_pos hdone, hrd]

theorem to_ask_step (h : Steady p r) :
    to_ask p r ++ (popped i r).flatMap (fun d => asked p d d.src_addr d.len.toNat) =
      issued i r ++ to_ask p (step p i rd_txn_trk_ff_full r) := by
  cases hpop : dm_desc_pop i r with
  | true =>
    obtain ⟨hnext, hdesc, hsrc, hlen⟩ := @step_pop p i rd_txn_trk_ff_full r hpop
    obtain ⟨hstate, -⟩ := pop_state hpop
    have hissued : issued i r = [] := by simp [issued, dm_pm_arvalid, hstate]
    have hbusy : (step p i rd_txn_trk_ff_full r).req_state ≠ .REQ_IDLE := by
      rw [hnext]
      decide
    rw [hissued, to_ask, to_ask, if_pos hstate, if_neg hbusy, hdesc, hsrc, hlen, popped, hpop]
    simp
  | false =>
    rw [popped, hpop, if_neg Bool.false_ne_true, List.flatMap_nil, List.append_nil]
    cases hdone : desc_req_done i r with
    | true =>
      obtain ⟨hnext, hdesc, hsrc, hlen⟩ := @step_grant p i rd_txn_trk_ff_full r h hdone
      have hbusy : r.req_state ≠ .REQ_IDLE := by
        rw [(req_done_state hdone).1]
        decide
      rw [issued_grant h hdone, to_ask, to_ask, if_neg hbusy, hnext, hdesc, hsrc, hlen, asked_cons,
        List.singleton_append]
      by_cases hle : r.curr_desc_len ≤ burst_bytes p r.curr_desc_src_addr r.curr_desc_len
      · rw [if_pos hle, if_pos hle, if_pos rfl]
      · rw [if_neg hle, if_neg hle, if_neg (by decide)]
    | false =>
      obtain ⟨hdesc, hsrc, hlen, -⟩ := @step_hold p i rd_txn_trk_ff_full r hpop hdone
      have hissued : issued i r = [] := by
        unfold desc_req_done at hdone
        simp [issued, fire, hdone]
      have hidle := @idle_hold p i rd_txn_trk_ff_full r h hpop hdone
      rw [hissued, List.nil_append, to_ask, to_ask, hdesc, hsrc, hlen]
      by_cases hstate : r.req_state = .REQ_IDLE
      · rw [if_pos hstate, if_pos (hidle.mpr hstate)]
      · rw [if_neg hstate, if_neg fun hnext => hstate (hidle.mp hnext)]

theorem to_ask_eq (h : Ok p r) : to_ask p r = left p r := by
  unfold to_ask left
  split
  case isTrue => rfl
  case isFalse hbusy => exact asked_eq _ _ (h.busy hbusy).1

theorem left_step (h : Ok p r) (hmay : May i) :
    left p r ++ (popped i r).flatMap (reads p) =
      issued i r ++ left p (step p i rd_txn_trk_ff_full r) := by
  have hpopped : (popped i r).flatMap (reads p) =
      (popped i r).flatMap (fun d => asked p d d.src_addr d.len.toNat) := by
    unfold popped
    split
    case isTrue hpop =>
      obtain ⟨hne, -⟩ := hmay (pop_state hpop).2
      have hlen : 0 < (desc_dm_desc_in i).len.toNat :=
        Nat.pos_of_ne_zero fun hzero => hne (BitVec.eq_of_toNat_eq (by rw [hzero]; rfl))
      rw [List.flatMap_singleton, List.flatMap_singleton, asked_eq _ _ hlen, reads]
    case isFalse => rfl
  rw [hpopped, ← to_ask_eq h, ← to_ask_eq (ok_step h hmay)]
  exact to_ask_step h.steady

/-! ## Bursts and the stream of bytes -/

/-- The bytes of a descriptor, as if it were read in one burst. -/
def span (d : H2cIfDesc) : Span (Option (BitVec 64)) where
  offset := d.src_addr.toNat % PCIM_BYTES
  length := d.len.toNat
  mark := some (if d.eop then some d.user else none)

theorem burst_ok {d : H2cIfDesc} (hspb : d.spb = false) (src_addr : BitVec 64) {len : Nat}
    (hlen : 0 < len) : (burst p d src_addr len).Ok where
  span := ⟨Nat.mod_lt _ (by decide), burst_bytes_pos p src_addr hlen⟩
  arlen := rfl
  spb := hspb
  eop heop := by
    unfold burst at heop ⊢
    dsimp only at heop ⊢
    rw [Bool.and_eq_true] at heop
    exact heop.2

theorem next_burst_aligned (src_addr : BitVec 64) {len : Nat}
    (hmore : burst_bytes p src_addr len < len) :
    PCIM_BYTES ∣ src_addr.toNat % PCIM_BYTES + burst_bytes p src_addr len ∧
      (src_addr + BitVec.ofNat 64 (burst_bytes p src_addr len)).toNat % PCIM_BYTES = 0 := by
  obtain ⟨hrow, hwrap⟩ := max_dvd p
  have hbytes : src_addr.toNat % PCIM_MAX_RD_SIZE_BYTES p + burst_bytes p src_addr len =
      PCIM_MAX_RD_SIZE_BYTES p := by
    have hmod := Nat.mod_lt src_addr.toNat (max_pos p)
    unfold burst_bytes at hmore ⊢
    omega
  have hall : PCIM_BYTES ∣ src_addr.toNat + burst_bytes p src_addr len := by
    have hdvd : PCIM_MAX_RD_SIZE_BYTES p ∣ src_addr.toNat + burst_bytes p src_addr len := by
      rw [Nat.dvd_iff_mod_eq_zero, ← Nat.mod_add_mod, hbytes, Nat.mod_self]
    exact hrow.trans hdvd
  have hword : PCIM_BYTES ∣ 2 ^ 64 := hrow.trans hwrap
  constructor
  · rw [Nat.dvd_iff_mod_eq_zero] at hall ⊢
    rw [Nat.mod_add_mod, hall]
  · rw [BitVec.toNat_add, BitVec.toNat_ofNat, Nat.add_mod_mod, Nat.mod_mod_of_dvd _ hword]
    exact Nat.mod_eq_zero_of_dvd hall

/-- Whether a descriptor is read in one burst or in more, the bytes are the same. -/
theorem stream_bursts {α : Type} (d : H2cIfDesc) (src_addr : BitVec 64) {len : Nat}
    (hlen : 0 < len) (ts : List (Span (Option (BitVec 64)))) {beats : List (List α)}
    (hbeats : ∀ b ∈ beats, b.length = PCIM_BYTES) :
    stream PCIM_BYTES ((bursts p d src_addr len).map (fun rd => rd.rd_txn_trk.span) ++ ts) beats =
      stream PCIM_BYTES (⟨src_addr.toNat % PCIM_BYTES, len, (span d).mark⟩ :: ts) beats := by
  induction len using Nat.strongRecOn generalizing src_addr beats with
  | ind len ih =>
    have hpos := burst_bytes_pos p src_addr hlen
    have hle := (burst_bytes_le (p := p) src_addr len).1
    rw [bursts_cons d src_addr hlen, List.map_cons, List.cons_append]
    rcases Nat.eq_or_lt_of_le hle with hall | hmore
    · have hspan : (burst p d src_addr len).rd_txn_trk.span =
          ⟨src_addr.toNat % PCIM_BYTES, len, (span d).mark⟩ := by
        simp [burst, RdTxnTrk.span, span, hall]
      rw [hspan, hall, Nat.sub_self, bursts_zero, List.map_nil, List.nil_append]
    · obtain ⟨hrow, hnext⟩ := next_burst_aligned src_addr hmore
      have hspan : (burst p d src_addr len).rd_txn_trk.span =
          ⟨src_addr.toNat % PCIM_BYTES, burst_bytes p src_addr len, none⟩ := by
        have hnot : ¬len ≤ burst_bytes p src_addr len := by omega
        simp [burst, RdTxnTrk.span, hnot]
      have hdrop : ∀ b ∈ beats.drop ((burst p d src_addr len).rd_txn_trk.span.beats PCIM_BYTES),
          b.length = PCIM_BYTES := fun b hb => hbeats b (List.mem_of_mem_drop hb)
      have hrest := ih (len - burst_bytes p src_addr len) (by omega)
        (src_addr + BitVec.ofNat 64 (burst_bytes p src_addr len)) (by omega) hdrop
      rw [stream, hrest, hnext, ← stream, hspan]
      exact stream_split (Nat.mod_lt _ (by decide)) hpos hrow hmore ts hbeats

theorem stream_reads {α : Type} {ds : List H2cIfDesc} (hds : ∀ d ∈ ds, d.len ≠ 0)
    {beats : List (List α)} (hbeats : ∀ b ∈ beats, b.length = PCIM_BYTES) :
    stream PCIM_BYTES ((ds.flatMap (reads p)).map fun rd => rd.rd_txn_trk.span) beats =
      stream PCIM_BYTES (ds.map span) beats := by
  induction ds generalizing beats with
  | nil => rfl
  | cons d ds ih =>
    obtain ⟨hd, hds⟩ := List.forall_mem_cons.mp hds
    have hlen : 0 < d.len.toNat := by
      rcases Nat.eq_zero_or_pos d.len.toNat with hzero | hpos
      · exact absurd (BitVec.eq_of_toNat_eq (by rw [hzero]; rfl)) hd
      · exact hpos
    rw [List.flatMap_cons, List.map_append, reads, stream_bursts d d.src_addr hlen _ hbeats,
      List.map_cons, stream, stream, ih hds fun b hb => hbeats b (List.mem_of_mem_drop hb)]
    rfl

/-- The pattern of RLAST that answers some requests. -/
def rlasts (rds : List PcimRd) : List Bool :=
  rds.flatMap fun rd => List.replicate rd.dm_pm_arlen false ++ [true]

theorem rlasts_eq {rds : List PcimRd} (h : ∀ rd ∈ rds, rd.Ok) :
    rlasts rds = lasts PCIM_BYTES (rds.map fun rd => rd.rd_txn_trk.span) := by
  rw [rlasts, lasts, List.flatMap_map]
  exact List.flatMap_congr fun rd hrd => by rw [(h rd hrd).arlen]

theorem rlasts_grows {rds rds' : List PcimRd} (h : rds <+: rds') : rlasts rds <+: rlasts rds' := by
  obtain ⟨more, hmore⟩ := h
  rw [← hmore, rlasts, rlasts, List.flatMap_append]
  exact List.prefix_append _ _

end H2cReq

end AwsFpga.Rtl
