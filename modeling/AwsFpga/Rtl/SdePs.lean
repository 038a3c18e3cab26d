import Mathlib.Data.Fintype.Pi
import AwsFpga.Rtl.SdePsAcc

/-!
# Requests from the host (`sde_ps.sv`)

The host writes descriptors, and writes and reads configuration registers, through
the PCIS port. One state machine serves one request at a time. Only the low 14 bits
of an address count.
-/

open Lib Lib.Axi

namespace AwsFpga.Rtl

inductive PcisReqState where
  | IDLE
  | AW_AR
  | DEC
  | WR_DESC
  | WR_PKT
  | RD_DUMMY
  | WR_DUMMY
  | CFG
  | RESP
  deriving DecidableEq

/-- The address of a write or of a read. -/
structure PcisAddr where
  id : BitVec 5
  addr : BitVec 64
  len : BitVec 8
  size : BitVec 3
  deriving DecidableEq

/-- The request being served. -/
structure PcisReq where
  id : BitVec 5
  size : BitVec 3
  len : BitVec 8
  addr : BitVec 14
  rd_n_wr : Bool
  deriving DecidableEq

def PcisReq.capture (a : PcisAddr) (rd_n_wr : Bool) : PcisReq :=
  ⟨a.id, a.size, a.len, a.addr.setWidth 14, rd_n_wr⟩

/-! ## The apertures -/

def C2H_PCIS_DESC_ADDR_START : Nat := 0
def C2H_PCIS_DESC_ADDR_END : Nat := C2H_PCIS_DESC_ADDR_START + 0x1000
def H2C_PCIS_DESC_ADDR_START : Nat := C2H_PCIS_DESC_ADDR_END
def H2C_PCIS_DESC_ADDR_END : Nat := H2C_PCIS_DESC_ADDR_START + 0x1000
def H2C_PCIS_PKT_ADDR_START : Nat := H2C_PCIS_DESC_ADDR_END
def H2C_PCIS_PKT_ADDR_END : Nat := H2C_PCIS_PKT_ADDR_START + 0x1000
def PS_PCIS_CFG_ADDR_START : Nat := H2C_PCIS_PKT_ADDR_END
def PS_PCIS_CFG_ADDR_END : Nat := PS_PCIS_CFG_ADDR_START + 0x200
def PM_PCIS_CFG_ADDR_START : Nat := PS_PCIS_CFG_ADDR_END
def PM_PCIS_CFG_ADDR_END : Nat := PM_PCIS_CFG_ADDR_START + 0x200
def C2H_PCIS_CFG_ADDR_START : Nat := PM_PCIS_CFG_ADDR_END
def C2H_PCIS_CFG_ADDR_END : Nat := C2H_PCIS_CFG_ADDR_START + 0x600
def H2C_PCIS_CFG_ADDR_START : Nat := C2H_PCIS_CFG_ADDR_END
def H2C_PCIS_CFG_ADDR_END : Nat := H2C_PCIS_CFG_ADDR_START + 0x600

-- The values, so that `omega` can see them.
@[simp] theorem c2h_desc_start_val : C2H_PCIS_DESC_ADDR_START = 0 := rfl
@[simp] theorem c2h_desc_end_val : C2H_PCIS_DESC_ADDR_END = 0x1000 := rfl
@[simp] theorem h2c_desc_start_val : H2C_PCIS_DESC_ADDR_START = 0x1000 := rfl
@[simp] theorem h2c_desc_end_val : H2C_PCIS_DESC_ADDR_END = 0x2000 := rfl
@[simp] theorem h2c_pkt_start_val : H2C_PCIS_PKT_ADDR_START = 0x2000 := rfl
@[simp] theorem h2c_pkt_end_val : H2C_PCIS_PKT_ADDR_END = 0x3000 := rfl
@[simp] theorem ps_cfg_start_val : PS_PCIS_CFG_ADDR_START = 0x3000 := rfl
@[simp] theorem ps_cfg_end_val : PS_PCIS_CFG_ADDR_END = 0x3200 := rfl
@[simp] theorem pm_cfg_start_val : PM_PCIS_CFG_ADDR_START = 0x3200 := rfl
@[simp] theorem pm_cfg_end_val : PM_PCIS_CFG_ADDR_END = 0x3400 := rfl
@[simp] theorem c2h_cfg_start_val : C2H_PCIS_CFG_ADDR_START = 0x3400 := rfl
@[simp] theorem c2h_cfg_end_val : C2H_PCIS_CFG_ADDR_END = 0x3A00 := rfl
@[simp] theorem h2c_cfg_start_val : H2C_PCIS_CFG_ADDR_START = 0x3A00 := rfl
@[simp] theorem h2c_cfg_end_val : H2C_PCIS_CFG_ADDR_END = 0x4000 := rfl

/-- The configuration blocks. -/
inductive CfgBlock where
  | ps
  | pm
  | c2h
  | h2c
  deriving DecidableEq

namespace CfgBlock

instance : Fintype CfgBlock where
  elems := {ps, pm, c2h, h2c}
  complete b := by cases b <;> decide

def start : CfgBlock → Nat
  | ps => PS_PCIS_CFG_ADDR_START
  | pm => PM_PCIS_CFG_ADDR_START
  | c2h => C2H_PCIS_CFG_ADDR_START
  | h2c => H2C_PCIS_CFG_ADDR_START

def stop : CfgBlock → Nat
  | ps => PS_PCIS_CFG_ADDR_END
  | pm => PM_PCIS_CFG_ADDR_END
  | c2h => C2H_PCIS_CFG_ADDR_END
  | h2c => H2C_PCIS_CFG_ADDR_END

end CfgBlock

/-- What an address is for. The registers keep it until the next request. -/
structure PcisDecode where
  c2h_wr_desc : Bool
  h2c_wr_desc : Bool
  h2c_wr_pkt : Bool
  cfg : CfgBlock → Bool
  rd_dummy : Bool
  wr_dummy : Bool
  deriving DecidableEq

/-- `(addr >= start) && (addr < stop)`. -/
def within (addr : BitVec 14) (start stop : Nat) : Bool := start ≤ addr.toNat && addr.toNat < stop

def PcisReq.decode (r : PcisReq) : PcisDecode where
  c2h_wr_desc := !r.rd_n_wr && within r.addr C2H_PCIS_DESC_ADDR_START C2H_PCIS_DESC_ADDR_END
  h2c_wr_desc := !r.rd_n_wr && within r.addr H2C_PCIS_DESC_ADDR_START H2C_PCIS_DESC_ADDR_END
  h2c_wr_pkt := !r.rd_n_wr && within r.addr H2C_PCIS_PKT_ADDR_START H2C_PCIS_PKT_ADDR_END
  cfg b := within r.addr b.start b.stop
  rd_dummy := r.rd_n_wr &&
    (r.addr.toNat < C2H_PCIS_DESC_ADDR_START || H2C_PCIS_CFG_ADDR_END ≤ r.addr.toNat ||
      within r.addr C2H_PCIS_DESC_ADDR_START H2C_PCIS_PKT_ADDR_END)
  wr_dummy := !r.rd_n_wr &&
    (r.addr.toNat < C2H_PCIS_DESC_ADDR_START || H2C_PCIS_CFG_ADDR_END ≤ r.addr.toNat)

/-! ## The handshake with a configuration block -/

/-- What a configuration block answers. -/
structure CfgAnswer where
  ack : Bool
  rdata : BitVec 32
  deriving DecidableEq

structure CfgPort where
  wr_req : Bool
  rd_req : Bool
  addr : BitVec 16
  wdata : BitVec 32
  pcis_wready : Bool
  pcis_rvalid : Bool
  pcis_rdata : BitVec 32
  deriving DecidableEq

namespace CfgPort

def reset : CfgPort := ⟨false, false, 0, 0, false, false, 0⟩

/-- `state_cfg`: the machine is in `CFG`. `here`: the request is for this block. -/
def step (start : Nat) (state_cfg here : Bool) (req : PcisReq) (wvalid : Bool) (w : WBeat)
    (a : CfgAnswer) (c : CfgPort) : CfgPort where
  wr_req :=
    if !c.wr_req && !c.pcis_wready && state_cfg && here && !req.rd_n_wr && wvalid then true
    else if c.wr_req && here && !req.rd_n_wr && a.ack then false
    else c.wr_req
  rd_req :=
    if !c.rd_req && !c.pcis_rvalid && state_cfg && here && req.rd_n_wr then true
    else if c.rd_req && here && req.rd_n_wr && a.ack then false
    else c.rd_req
  addr := if !(c.wr_req || c.rd_req) then req.addr.setWidth 16 - BitVec.ofNat 16 start else c.addr
  wdata :=
    if !(c.wr_req || c.rd_req) then
      (w.data >>> (32 * (req.addr.extractLsb' 2 4).toNat)).setWidth 32
    else c.wdata
  pcis_wready := c.wr_req && a.ack
  pcis_rvalid := c.rd_req && a.ack
  pcis_rdata := if c.rd_req && a.ack then a.rdata else c.pcis_rdata

end CfgPort

/-! ## The whole block -/

structure PsParams where
  C2H_ONLY : Bool
  H2C_ONLY : Bool
  C2H_DESC_TYPE : Bool
  H2C_DESC_TYPE : Bool

namespace PsParams

/-- The dwords of a descriptor: 128 or 256 bits. -/
def desc_dw (desc_type : Bool) : Nat := if desc_type then 4 else 8

def c2h_dw (p : PsParams) : Nat := desc_dw p.C2H_DESC_TYPE
def h2c_dw (p : PsParams) : Nat := desc_dw p.H2C_DESC_TYPE

end PsParams

structure PsIn where
  awvalid : Bool
  aw : PcisAddr
  wvalid : Bool
  w : WBeat
  bready : Bool
  arvalid : Bool
  ar : PcisAddr
  rready : Bool
  c2h_ps_desc_ack : Bool
  h2c_ps_desc_ack : Bool
  /-- The answers of the blocks outside: the one of `ps` is not used. -/
  ps_cfg : CfgBlock → CfgAnswer

structure SdePs (p : PsParams) where
  state : PcisReqState
  active : Bool
  req : PcisReq
  dec : PcisDecode
  awready : Bool
  arready : Bool
  bvalid : Bool
  rvalid : Bool
  rdata : BitVec 512
  rlast : Bool
  read_len : BitVec 8
  C2H_DESC_ACC : PsAcc p.c2h_dw
  H2C_DESC_ACC : PsAcc p.h2c_dw
  cfg : CfgBlock → CfgPort
  /-- The registers of the block itself. -/
  ps_ps_cfg_wr_ack : Bool
  ps_ps_cfg_rd_ack : Bool
  ps_ps_cfg_rdata : BitVec 32
  cfg_ps_reset : Bool
  c2h_sync_rst_n : Bool
  h2c_sync_rst_n : Bool
  pm_sync_rst_n : Bool
  deriving DecidableEq

namespace SdePs

variable {p : PsParams} (i : PsIn) (s : SdePs p)

/-! ### The wires -/

def c2h_acc_in : PsAccIn where
  pcis_req_wr := s.active && s.dec.c2h_wr_desc
  pcis_req_addr := s.req.addr
  pcis_wvalid := i.wvalid
  pcis_w := i.w
  acc_ack := i.c2h_ps_desc_ack

def h2c_acc_in : PsAccIn where
  pcis_req_wr := s.active && s.dec.h2c_wr_desc
  pcis_req_addr := s.req.addr
  pcis_wvalid := i.wvalid
  pcis_w := i.w
  acc_ack := i.h2c_ps_desc_ack

def c2h_pcis_desc_wready : Bool := PsAcc.pcis_wready (c2h_acc_in i s) s.C2H_DESC_ACC
def h2c_pcis_desc_wready : Bool := PsAcc.pcis_wready (h2c_acc_in i s) s.H2C_DESC_ACC
def h2c_pcis_pkt_wready : Bool := false

def wready : Bool :=
  (s.dec.c2h_wr_desc && c2h_pcis_desc_wready i s) || (s.dec.h2c_wr_desc && h2c_pcis_desc_wready i s) ||
    (s.dec.h2c_wr_pkt && h2c_pcis_pkt_wready) ||
    (s.dec.cfg .ps && (s.cfg .ps).pcis_wready) || (s.dec.cfg .pm && (s.cfg .pm).pcis_wready) ||
    (s.dec.cfg .c2h && (s.cfg .c2h).pcis_wready) || (s.dec.cfg .h2c && (s.cfg .h2c).pcis_wready) ||
    s.dec.wr_dummy

/-- The block of the request has answered. -/
def cfg_done (b : CfgBlock) : Bool :=
  s.dec.cfg b && ((s.req.rd_n_wr && (s.cfg b).pcis_rvalid) || (!s.req.rd_n_wr && (s.cfg b).pcis_wready))

def next_state : PcisReqState :=
  match s.state with
  | .IDLE => if i.awvalid || i.arvalid then .AW_AR else .IDLE
  | .AW_AR => .DEC
  | .DEC =>
    if s.dec.c2h_wr_desc || s.dec.h2c_wr_desc then .WR_DESC
    else if s.dec.h2c_wr_pkt then .WR_PKT
    else if s.dec.cfg .ps || s.dec.cfg .pm || s.dec.cfg .c2h || s.dec.cfg .h2c then .CFG
    else if s.req.rd_n_wr then .RESP
    else .WR_DUMMY
  | .CFG =>
    if cfg_done s .pm || cfg_done s .ps || cfg_done s .c2h || cfg_done s .h2c then .RESP else .CFG
  | .WR_DESC =>
    if i.wvalid && i.w.last && s.dec.c2h_wr_desc && c2h_pcis_desc_wready i s then .RESP
    else if i.wvalid && i.w.last && s.dec.h2c_wr_desc && h2c_pcis_desc_wready i s then .RESP
    else .WR_DESC
  | .WR_PKT =>
    if i.wvalid && i.w.last && s.dec.h2c_wr_pkt && h2c_pcis_pkt_wready then .RESP else .WR_PKT
  | .WR_DUMMY => if i.wvalid && i.w.last then .RESP else .WR_DUMMY
  | .RD_DUMMY => .RESP
  | .RESP =>
    if (!s.req.rd_n_wr && s.bvalid && i.bready) || (s.req.rd_n_wr && s.rvalid && i.rready) then .IDLE
    else .RESP

def cfg_pcis_rdata : BitVec 32 :=
  if s.dec.cfg .ps then (s.cfg .ps).pcis_rdata
  else if s.dec.cfg .pm then (s.cfg .pm).pcis_rdata
  else if s.dec.cfg .c2h then (s.cfg .c2h).pcis_rdata
  else if s.dec.cfg .h2c then (s.cfg .h2c).pcis_rdata
  else 0xbaad0000

def ps_ps_cfg_ack : Bool := if (s.cfg .ps).wr_req then s.ps_ps_cfg_wr_ack else s.ps_ps_cfg_rd_ack

/-- The answer a configuration block gives in this cycle. -/
def answer : CfgBlock → CfgAnswer
  | .ps => ⟨ps_ps_cfg_ack s, s.ps_ps_cfg_rdata⟩
  | b => i.ps_cfg b

/-! ### The registers -/

def next_req : PcisReq :=
  if s.state = .IDLE && i.awvalid then .capture i.aw false
  else if s.state = .IDLE && i.arvalid then .capture i.ar true
  else s.req

/-- The SDE information register: which directions are present. -/
def sde_info (p : PsParams) : BitVec 32 :=
  (BitVec.ofBool !p.C2H_ONLY).setWidth 16 ++ (BitVec.ofBool !p.H2C_ONLY).setWidth 16

/-- The write of the reset register looks at the address for the C2H block. -/
def next_cfg_ps_reset : Bool :=
  if (s.cfg .ps).wr_req && (s.cfg .c2h).addr.setWidth 9 = 0 then (s.cfg .ps).wdata.getLsbD 0
  else s.cfg_ps_reset

def step : SdePs p where
  state := next_state i s
  active :=
    if s.state = .DEC then true else if next_state i s = .RESP then false else s.active
  req := next_req i s
  dec := if s.state = .AW_AR then s.req.decode else s.dec
  awready := !s.req.rd_n_wr && s.state = .AW_AR
  arready := s.req.rd_n_wr && s.state = .AW_AR
  bvalid :=
    if s.bvalid && i.bready then false
    else if !s.req.rd_n_wr && s.state = .RESP then true
    else s.bvalid
  rvalid :=
    if s.rvalid && i.rready && s.read_len = 0 then false
    else if s.state = .RESP && s.req.rd_n_wr then true
    else s.rvalid
  rdata := (cfg_pcis_rdata s).setWidth 512 <<< (32 * (s.req.addr.extractLsb' 2 4).toNat)
  rlast := s.state = .RESP && s.req.rd_n_wr && s.read_len = 0
  read_len :=
    if i.arvalid && s.arready then i.ar.len
    else if s.rvalid && i.rready then s.read_len - 1
    else s.read_len
  C2H_DESC_ACC :=
    PsAcc.clocked (BitVec.ofNat 14 C2H_PCIS_DESC_ADDR_START) (c2h_acc_in i s) s.C2H_DESC_ACC
      s.c2h_sync_rst_n
  H2C_DESC_ACC :=
    PsAcc.clocked (BitVec.ofNat 14 H2C_PCIS_DESC_ADDR_START) (h2c_acc_in i s) s.H2C_DESC_ACC
      s.h2c_sync_rst_n
  cfg b :=
    CfgPort.step b.start (s.state = .CFG) (s.dec.cfg b) s.req i.wvalid i.w (answer i s b) (s.cfg b)
  ps_ps_cfg_wr_ack := s.ps_ps_cfg_wr_ack || (s.cfg .ps).wr_req
  ps_ps_cfg_rd_ack := true
  ps_ps_cfg_rdata :=
    if (s.cfg .ps).addr.setWidth 9 = 0 then (BitVec.ofBool s.cfg_ps_reset).setWidth 32
    else if (s.cfg .ps).addr.setWidth 9 = 4 then sde_info p
    else 0xbaad2000
  cfg_ps_reset := next_cfg_ps_reset s
  c2h_sync_rst_n := !s.cfg_ps_reset
  h2c_sync_rst_n := !s.cfg_ps_reset
  pm_sync_rst_n := !s.cfg_ps_reset

def reset (p : PsParams) : SdePs p where
  state := .IDLE
  active := false
  req := ⟨0, 0, 0, 0, false⟩
  dec := ⟨false, false, false, fun _ => false, false, false⟩
  awready := false
  arready := false
  bvalid := false
  rvalid := false
  rdata := 0
  rlast := false
  read_len := 0
  C2H_DESC_ACC := .reset
  H2C_DESC_ACC := .reset
  cfg _ := .reset
  ps_ps_cfg_wr_ack := false
  ps_ps_cfg_rd_ack := false
  ps_ps_cfg_rdata := 0
  cfg_ps_reset := false
  c2h_sync_rst_n := false
  h2c_sync_rst_n := false
  pm_sync_rst_n := false

def circuit (p : PsParams) : Circuit PsIn (SdePs p) := ⟨reset p, step⟩

end SdePs

end AwsFpga.Rtl
