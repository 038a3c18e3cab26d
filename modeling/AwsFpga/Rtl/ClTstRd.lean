import AwsFpga.Rtl.Blocks
import AwsFpga.Rtl.ClTst
import AwsFpga.Lib.Lanes

/-!
# The read side of the traffic generator (`cl_tst.sv`)

A pop takes a tag for the next read instruction. The instruction comes out of its RAM two cycles
later: then the request is pushed, and the trackers of the tag are written.

`DATA_WIDTH` is 32 times `DATA_DW`. Counters and RAMs that are only read back are left out.
-/

open Lib Lib.Axi

namespace AwsFpga.Rtl

/-- The configuration port, the readies, the B channel's valid and the R channel. -/
structure TstRdIn (DATA_DW : Nat) where
  cfg_addr : BitVec 32
  cfg_wdata : BitVec 32
  cfg_wr : Bool
  cfg_rd : Bool
  awready : Bool
  wready : Bool
  bvalid : Bool
  arready : Bool
  rvalid : Bool
  rid : BitVec 9
  rdata : BitVec (32 * DATA_DW)
  rlast : Bool

/-- The registers of the configuration that only reads use. -/
structure TstRdCfg where
  rd_compare_en : Bool
  sync_mode : Bool
  rd_loop_addr_shift : BitVec 6
  const_data_mode : Bool
  max_read_req : BitVec 9
  rd_num_inst : BitVec 16
  read_address : BitVec 64
  read_data : BitVec 32
  rd_loop_iter : BitVec 64
  rd_inst_index : BitVec 8
  read_inst_ram : BitVec 8 → BitVec 128

/-- What is pushed into `RD_REQ_FIFO`. -/
structure TstReq where
  arid : BitVec 9
  aruser : BitVec 11
  arlen : BitVec 8
  araddr : BitVec 64
  deriving DecidableEq

/-- `rd_trk_t`. -/
structure RdTrk (DATA_DW : Nat) where
  last_adj : BitVec 8
  req_addr : BitVec 64
  req_data : BitVec (32 * DATA_DW)
  req_length : BitVec 8
  running_length : BitVec 8
  last_inst : Bool

/-- A word of `RD_TRK_MD_RAM`. -/
structure RdMd (DATA_DW : Nat) where
  running_length : BitVec 8
  req_data : BitVec (32 * DATA_DW)

structure TstRd (DATA_DW : Nat) where
  /-- The write side, with the configuration that both sides use. -/
  wr : Tst
  rcfg : TstRdCfg
  wr_cyc_count : BitVec 64
  rid_q : BitVec 9
  rdata_q : BitVec (32 * DATA_DW)
  rlast_q : Bool
  rvalid_q : Bool
  rvalid_qq : Bool
  rdata_qq : BitVec (32 * DATA_DW)
  rd_inp : Bool
  rd_stop_pend : Bool
  rd_inst_addr : BitVec 8
  inst_rd_rdata : BitVec 128
  inst_rd_rdata_q : BitVec 128
  rd_cyc_count : BitVec 64
  rd_loop_count : BitVec 64
  rd_cyc_holdoff : Bool
  rd_tag_inc_nxt_alloc : BitVec 9
  rd_tag_some_avail : Bool
  rd_tag_alloc_winner : BitVec 9
  rd_tag_avail : BitVec 9 → Bool
  rd_tag_pop_q : Bool
  rd_tag_pop_qq : Bool
  pre_rd_cur_req_tag : BitVec 9
  rd_cur_req_tag : BitVec 9
  rd_loop_addr_adj : BitVec 64
  rd_loop_addr_adj_q : BitVec 64
  RD_REQ_FIFO : List TstReq
  rd_got_first_phase : BitVec 9 → Bool
  rd_got_first_phase_q : Bool
  RD_TRK_RAM : BitVec 9 → RdTrk DATA_DW
  rd_trk_ram_rd_data : RdTrk DATA_DW
  RD_TRK_MD_RAM : BitVec 9 → RdMd DATA_DW
  rd_md_ram_rd_data_ram : RdMd DATA_DW
  rd_md_ram_wr : Bool
  rd_md_ram_wr_addr : BitVec 9
  rd_md_ram_wr_data : RdMd DATA_DW
  rd_md_ram_col_q_pre : Bool
  rd_md_ram_wr_data_q_pre : RdMd DATA_DW
  rd_md_ram_col_q : Bool
  rd_md_ram_wr_data_q : RdMd DATA_DW
  rd_data_cmp_q : BitVec (32 * DATA_DW)
  rd_data_mask_q : BitVec (32 * DATA_DW)
  cfg_rd_cmp_error : Bool

/-- A read: its tag, its instruction, and what is put into its address for the loop. -/
structure TstRead where
  tag : BitVec 9
  inst : BitVec 128
  adj : BitVec 64
  deriving DecidableEq

namespace TstRead

variable (r : TstRead)

def addr : BitVec 64 := Tst.inst_address r.inst ||| r.adj

def len : BitVec 8 := Tst.inst_length r.inst

end TstRead

namespace TstRd

/-! ## The configuration -/

section Cfg

variable (NUM_RD_TAG : Nat) (c : TstCfg) (r : TstRdCfg)

def cfg_read_inst_ram_wr : Bool := Tst.cfg_set c 0x4c

/-- `{user, last_length, length}` is the dword just written. -/
def cfg_inst : BitVec 128 := (c.wdata_q ++ r.read_data ++ r.read_address).setWidth 128

def rcfg_step : TstRdCfg where
  rd_compare_en := if Tst.cfg_set c 0x00 then c.wdata_q.getLsbD 3 else r.rd_compare_en
  sync_mode := if Tst.cfg_set c 0x00 then c.wdata_q.getLsbD 4 else r.sync_mode
  rd_loop_addr_shift :=
    if Tst.cfg_set c 0x00 then c.wdata_q.extractLsb' 16 6 else r.rd_loop_addr_shift
  const_data_mode := if Tst.cfg_set c 0x00 then c.wdata_q.getLsbD 25 else r.const_data_mode
  max_read_req :=
    if Tst.cfg_set c 0x14 then
      if c.wdata_q.toNat < NUM_RD_TAG then c.wdata_q.setWidth 9 else BitVec.ofNat 9 (NUM_RD_TAG - 1)
    else r.max_read_req
  rd_num_inst := if Tst.cfg_set c 0x10 then c.wdata_q.extractLsb' 16 16 else r.rd_num_inst
  read_address :=
    if Tst.cfg_set c 0x40 then r.read_address.extractLsb' 32 32 ++ c.wdata_q
    else if Tst.cfg_set c 0x44 then c.wdata_q ++ r.read_address.setWidth 32
    else r.read_address
  read_data := if Tst.cfg_set c 0x48 then c.wdata_q else r.read_data
  rd_loop_iter :=
    if Tst.cfg_set c 0xc8 then r.rd_loop_iter.extractLsb' 32 32 ++ c.wdata_q
    else if Tst.cfg_set c 0xcc then c.wdata_q ++ r.rd_loop_iter.setWidth 32
    else r.rd_loop_iter
  rd_inst_index :=
    if Tst.cfg_set c 0x3c then c.wdata_q.setWidth 8
    else if cfg_read_inst_ram_wr c && c.ack then r.rd_inst_index + 1
    else r.rd_inst_index
  read_inst_ram :=
    if cfg_read_inst_ram_wr c then Function.update r.read_inst_ram r.rd_inst_index (cfg_inst c r)
    else r.read_inst_ram

def cfg_rd_stop : Bool := Tst.cfg_go_wr c && !c.wdata_q.getLsbD 1

def cfg_read_reset : Bool := c.wr_stretch && c.ack && c.addr_q = 0x0c && c.wdata_q.getLsbD 1

def cfg_clr_error : Bool := c.wr_stretch && c.ack && c.addr_q = 0xb0 && c.wdata_q.getLsbD 0

end Cfg

/-! ## The dwords of a beat -/

section Data

variable (DATA_DW : Nat) (const_data_mode : Bool)

/-- What the first beat of an instruction is compared with. -/
def first_data (start : BitVec 32) : BitVec (32 * DATA_DW) :=
  of_lanes DATA_DW fun i => if const_data_mode then start else start + BitVec.ofNat 32 i

variable {DATA_DW} (rd_data_cmp : BitVec (32 * DATA_DW))

def rd_data_nxt : BitVec (32 * DATA_DW) :=
  of_lanes DATA_DW fun i =>
    if const_data_mode then lane 32 rd_data_cmp i
    else lane 32 rd_data_cmp i + BitVec.ofNat 32 DATA_DW

end Data

/-- The start data of an instruction. -/
def inst_data (inst : BitVec 128) : BitVec 32 := inst.extractLsb' 64 32

def inst_last_adj (inst : BitVec 128) : BitVec 8 := inst.extractLsb' 104 8

/-! ## The wires -/

variable (NUM_RD_TAG : Nat) {DATA_DW : Nat} (i : TstRdIn DATA_DW) (s : TstRd DATA_DW)

/-- What the write side sees of this cycle. -/
def wr_in : TstIn where
  cfg_addr := i.cfg_addr
  cfg_wdata := i.cfg_wdata
  cfg_wr := i.cfg_wr
  cfg_rd := i.cfg_rd
  awready := i.awready
  wready := i.wready
  rd_cfg_read_ram_ack := true
  cfg_rd_cmp_error := s.cfg_rd_cmp_error

def cfg_rd_go : Bool := Tst.cfg_go_wr s.wr.cfg && s.wr.cfg.wdata_q.getLsbD 1 && !s.rd_inp

def rd_last_inst : Bool := s.rd_inst_addr.setWidth 16 = s.rcfg.rd_num_inst

def rd_inst_done : Bool :=
  if s.wr.cfg.iter_mode then s.rd_last_inst && s.rd_loop_count + 1 = s.rcfg.rd_loop_iter
  else if !s.wr.cfg.cont_mode then s.rd_last_inst
  else false

def rd_fifo_full : Bool := watermark 2 s.RD_REQ_FIFO

def rd_wr_holdoff : Bool := s.rcfg.sync_mode && s.rd_cyc_holdoff

def rd_tag_pop : Bool := s.rd_inp && s.rd_tag_some_avail && !s.rd_fifo_full && !s.rd_wr_holdoff

/-- A bit of `rd_tag_avail`. There are `NUM_RD_TAG` of them. -/
def tag_avail (tag : BitVec 9) : Bool := tag.toNat < NUM_RD_TAG && s.rd_tag_avail tag

/-- `rd_loop_addr_adj` of the next cycle. -/
def loop_addr_adj : BitVec 64 :=
  if s.wr.cfg.loop_addr_mode then s.rd_loop_count <<< s.rcfg.rd_loop_addr_shift.toNat else 0

def rd_trk_wr : RdTrk DATA_DW where
  last_adj := inst_last_adj s.inst_rd_rdata_q
  req_addr := Tst.inst_address s.inst_rd_rdata_q ||| s.rd_loop_addr_adj_q
  req_data := first_data DATA_DW s.rcfg.const_data_mode (inst_data s.inst_rd_rdata_q)
  req_length := Tst.inst_length s.inst_rd_rdata_q
  running_length := 0
  last_inst := s.rd_last_inst

def rd_push_user : BitVec 11 :=
  if s.wr.cfg.user_mode then (Tst.inst_user s.inst_rd_rdata_q).setWidth 11
  else (((Tst.inst_length s.inst_rd_rdata_q).setWidth 11 + 1) *
    Tst.user_length_mult (32 * DATA_DW)) - Tst.wr_first_adj (32 * DATA_DW) s.inst_rd_rdata_q -
      (inst_last_adj s.inst_rd_rdata_q).setWidth 11

def rd_push : TstReq where
  arid := s.rd_cur_req_tag
  aruser := s.rd_push_user
  arlen := Tst.inst_length s.inst_rd_rdata_q
  araddr := Tst.inst_address s.inst_rd_rdata_q ||| s.rd_loop_addr_adj_q

def arvalid : Bool := !s.RD_REQ_FIFO.isEmpty

def rd_md_ram_rd_data : RdMd DATA_DW :=
  if s.rd_md_ram_col_q_pre then s.rd_md_ram_wr_data_q_pre
  else if s.rd_md_ram_col_q then s.rd_md_ram_wr_data_q
  else s.rd_md_ram_rd_data_ram

/-- The tracker of the beat in `rdata_q`. After the first beat its progress is in the other RAM. -/
def rd_trk_rd : RdTrk DATA_DW :=
  if s.rd_got_first_phase_q then
    { s.rd_trk_ram_rd_data with
      running_length := s.rd_md_ram_rd_data.running_length
      req_data := s.rd_md_ram_rd_data.req_data }
  else s.rd_trk_ram_rd_data

def rd_tag_free : Bool :=
  s.rvalid_q && s.rlast_q && s.rd_trk_rd.running_length = s.rd_trk_rd.req_length

def rd_data_cmp : BitVec (32 * DATA_DW) := s.rd_trk_rd.req_data

def rd_md_ram_wr_data_pre : RdMd DATA_DW where
  running_length := s.rd_trk_rd.running_length + 1
  req_data := rd_data_nxt s.rcfg.const_data_mode s.rd_data_cmp

/-- The mask of the dwords from the first one on. -/
def first_mask : BitVec (32 * DATA_DW) :=
  BitVec.allOnes _ <<< ((s.rd_trk_rd.req_addr.extractLsb' 2 (Tst.ADJ_DW_WIDTH (32 * DATA_DW))).toNat * 32)

/-- The mask of the dwords up to the last one. -/
def last_mask : BitVec (32 * DATA_DW) :=
  ~~~(BitVec.allOnes _ <<< (2 ^ (Tst.ADJ_DW_WIDTH (32 * DATA_DW) + 5) -
    (s.rd_trk_rd.last_adj.setWidth (Tst.ADJ_DW_WIDTH (32 * DATA_DW))).toNat * 32))

def rd_data_mask : BitVec (32 * DATA_DW) :=
  if s.rd_trk_rd.running_length = 0 && s.rlast_q then s.first_mask &&& s.last_mask
  else if s.rd_trk_rd.running_length = 0 then s.first_mask
  else if s.rlast_q then s.last_mask
  else BitVec.allOnes _

/-! ## The registers -/

def step : TstRd DATA_DW where
  wr := Tst.step (32 * DATA_DW) (wr_in i s) s.wr
  rcfg := rcfg_step NUM_RD_TAG s.wr.cfg s.rcfg
  wr_cyc_count :=
    if s.wr.cfg_wr_go then 0 else if i.bvalid then s.wr_cyc_count + 1 else s.wr_cyc_count
  rid_q := i.rid
  rdata_q := i.rdata
  rlast_q := i.rlast
  rvalid_q := i.rvalid
  rvalid_qq := s.rvalid_q
  rdata_qq := s.rdata_q
  rd_inp :=
    if s.cfg_rd_go then true
    else if s.rd_stop_pend || (s.rd_tag_pop && s.rd_inst_done) then false
    else s.rd_inp
  rd_stop_pend := (cfg_rd_stop s.wr.cfg || s.cfg_rd_cmp_error) || (s.rd_stop_pend && s.rd_inp)
  rd_inst_addr :=
    if !s.rd_inp then 0
    else if s.rd_tag_pop then (if s.rd_last_inst then 0 else s.rd_inst_addr + 1)
    else s.rd_inst_addr
  inst_rd_rdata := s.rcfg.read_inst_ram s.rd_inst_addr
  inst_rd_rdata_q := s.inst_rd_rdata
  rd_cyc_count :=
    if s.cfg_rd_go then 0 else if s.rd_tag_pop then s.rd_cyc_count + 1 else s.rd_cyc_count
  rd_loop_count :=
    if s.cfg_rd_go then 0
    else if s.rd_tag_pop && s.rd_last_inst then s.rd_loop_count + 1
    else s.rd_loop_count
  rd_cyc_holdoff := s.wr_cyc_count ≤ s.rd_cyc_count
  rd_tag_inc_nxt_alloc :=
    if cfg_read_reset s.wr.cfg then 0
    else if s.rd_tag_pop then
      (if s.rd_tag_inc_nxt_alloc = s.rcfg.max_read_req then 0 else s.rd_tag_inc_nxt_alloc + 1)
    else s.rd_tag_inc_nxt_alloc
  rd_tag_some_avail :=
    if s.rd_tag_pop then false
    else if !s.rd_tag_some_avail then tag_avail NUM_RD_TAG s s.rd_tag_inc_nxt_alloc
    else s.rd_tag_some_avail
  rd_tag_alloc_winner :=
    if s.rd_tag_pop then 0
    else if !s.rd_tag_some_avail then s.rd_tag_inc_nxt_alloc
    else s.rd_tag_alloc_winner
  rd_tag_avail :=
    if cfg_read_reset s.wr.cfg then fun _ => true
    else
      let popped := if s.rd_tag_pop then Function.update s.rd_tag_avail s.rd_tag_alloc_winner false
        else s.rd_tag_avail
      if s.rd_tag_free then Function.update popped s.rid_q true else popped
  rd_tag_pop_q := s.rd_tag_pop
  rd_tag_pop_qq := s.rd_tag_pop_q
  pre_rd_cur_req_tag := s.rd_tag_alloc_winner
  rd_cur_req_tag := s.pre_rd_cur_req_tag
  rd_loop_addr_adj := s.loop_addr_adj
  rd_loop_addr_adj_q := s.rd_loop_addr_adj
  RD_REQ_FIFO :=
    flop_fifo 4 (if s.rd_tag_pop_qq then some s.rd_push else none) (s.arvalid && i.arready)
      s.RD_REQ_FIFO
  rd_got_first_phase :=
    let cleared := if s.rd_tag_pop_qq then Function.update s.rd_got_first_phase s.rd_cur_req_tag false
      else s.rd_got_first_phase
    if i.rvalid then Function.update cleared i.rid true else cleared
  rd_got_first_phase_q := s.rd_got_first_phase i.rid
  RD_TRK_RAM :=
    if s.rd_tag_pop_qq then Function.update s.RD_TRK_RAM s.rd_cur_req_tag s.rd_trk_wr
    else s.RD_TRK_RAM
  rd_trk_ram_rd_data := s.RD_TRK_RAM i.rid
  RD_TRK_MD_RAM :=
    if s.rd_md_ram_wr then Function.update s.RD_TRK_MD_RAM s.rd_md_ram_wr_addr s.rd_md_ram_wr_data
    else s.RD_TRK_MD_RAM
  rd_md_ram_rd_data_ram := s.RD_TRK_MD_RAM i.rid
  rd_md_ram_wr := s.rvalid_q
  rd_md_ram_wr_addr := s.rid_q
  rd_md_ram_wr_data := s.rd_md_ram_wr_data_pre
  rd_md_ram_col_q_pre := s.rvalid_q && s.rid_q = i.rid
  rd_md_ram_wr_data_q_pre := s.rd_md_ram_wr_data_pre
  rd_md_ram_col_q := s.rd_md_ram_wr && s.rd_md_ram_wr_addr = i.rid
  rd_md_ram_wr_data_q := s.rd_md_ram_wr_data
  rd_data_cmp_q := s.rd_data_cmp
  rd_data_mask_q := s.rd_data_mask
  cfg_rd_cmp_error :=
    if cfg_clr_error s.wr.cfg then false
    else if s.rcfg.rd_compare_en && s.rvalid_qq &&
        (s.rdata_qq &&& s.rd_data_mask_q) ≠ (s.rd_data_cmp_q &&& s.rd_data_mask_q) &&
        !s.cfg_rd_cmp_error then
      true
    else s.cfg_rd_cmp_error

/-- The state after power up. The configuration and the instructions have no reset. -/
def reset (cfg : TstCfg) (rcfg : TstRdCfg) : TstRd DATA_DW where
  wr := Tst.reset cfg
  rcfg := rcfg
  wr_cyc_count := 0
  rid_q := 0
  rdata_q := 0
  rlast_q := false
  rvalid_q := false
  rvalid_qq := false
  rdata_qq := 0
  rd_inp := false
  rd_stop_pend := false
  rd_inst_addr := 0
  inst_rd_rdata := 0
  inst_rd_rdata_q := 0
  rd_cyc_count := 0
  rd_loop_count := 0
  rd_cyc_holdoff := false
  rd_tag_inc_nxt_alloc := 0
  rd_tag_some_avail := false
  rd_tag_alloc_winner := 0
  rd_tag_avail := fun _ => true
  rd_tag_pop_q := false
  rd_tag_pop_qq := false
  pre_rd_cur_req_tag := 0
  rd_cur_req_tag := 0
  rd_loop_addr_adj := 0
  rd_loop_addr_adj_q := 0
  RD_REQ_FIFO := []
  rd_got_first_phase := fun _ => false
  rd_got_first_phase_q := false
  RD_TRK_RAM := fun _ => ⟨0, 0, 0, 0, 0, false⟩
  rd_trk_ram_rd_data := ⟨0, 0, 0, 0, 0, false⟩
  RD_TRK_MD_RAM := fun _ => ⟨0, 0⟩
  rd_md_ram_rd_data_ram := ⟨0, 0⟩
  rd_md_ram_wr := false
  rd_md_ram_wr_addr := 0
  rd_md_ram_wr_data := ⟨0, 0⟩
  rd_md_ram_col_q_pre := false
  rd_md_ram_wr_data_q_pre := ⟨0, 0⟩
  rd_md_ram_col_q := false
  rd_md_ram_wr_data_q := ⟨0, 0⟩
  rd_data_cmp_q := 0
  rd_data_mask_q := 0
  cfg_rd_cmp_error := false

/-- The read side from the state `s` on. -/
def run : Circuit (TstRdIn DATA_DW) (TstRd DATA_DW) := ⟨s, step NUM_RD_TAG⟩

/-! ## The channels -/

/-- The read that a pop begins. -/
def popped : List TstRead :=
  if s.rd_tag_pop then
    [⟨s.rd_tag_alloc_winner, s.rcfg.read_inst_ram s.rd_inst_addr, s.loop_addr_adj⟩]
  else []

def ar_accepted : List TstReq := if i.arready then s.RD_REQ_FIFO.head?.toList else []

/-- Of an R beat its tag, and whether it is the last. -/
def r_accepted : List (BitVec 9 × Bool) := if i.rvalid then [(i.rid, i.rlast)] else []

def freed : List (BitVec 9) := if s.rd_tag_free then [s.rid_q] else []

variable (ins : Nat → TstRdIn DATA_DW) (n : Nat) (tag : BitVec 9)

/-- The reads so far with a tag. -/
def pops : List TstRead :=
  ((run NUM_RD_TAG s).passed ins (fun _ => popped) n).filter fun r => r.tag = tag

def ars : List TstReq :=
  ((run NUM_RD_TAG s).passed ins ar_accepted n).filter fun q => q.arid = tag

/-- The marks of the beats so far with a tag. -/
def rs : List Bool :=
  (((run NUM_RD_TAG s).passed ins (fun i _ => r_accepted i) n).filter fun b => b.1 = tag).map Prod.snd

/-- The tags that were popped and not freed. -/
def in_flight : List (BitVec 9) :=
  (((run NUM_RD_TAG s).passed ins (fun _ => popped) n).map TstRead.tag).diff
    ((run NUM_RD_TAG s).passed ins (fun _ => freed) n)

/-- The memory answers addresses that it accepted, those of one tag in their order, each with a
burst of its length. Bursts of different tags come in any order and mixed. -/
def Answers : Prop := ∀ n tag,
  rs NUM_RD_TAG s ins n tag <+: (ars NUM_RD_TAG s ins n tag).flatMap fun q => beats q.arlen.toNat

/-- No reset of the tags while reads are in flight. -/
def Calm : Prop := ∀ n, cfg_read_reset ((run NUM_RD_TAG s).state ins n).wr.cfg →
  in_flight NUM_RD_TAG s ins (n + 1) = []

/-- Nothing is in flight. -/
structure Idle : Prop where
  rd_tag_avail : s.rd_tag_avail = fun _ => true
  rd_tag_pop_q : s.rd_tag_pop_q = false
  rd_tag_pop_qq : s.rd_tag_pop_qq = false
  RD_REQ_FIFO : s.RD_REQ_FIFO = []
  rvalid_q : s.rvalid_q = false

variable {NUM_RD_TAG s ins}

theorem wr_stretch_quiet {k : Nat} (hquiet : ∀ n, k ≤ n → (ins n).cfg_wr = false)
    (h : ((run NUM_RD_TAG s).state ins k).wr.cfg.wr_stretch = false) (n : Nat) (hn : k ≤ n) :
    ((run NUM_RD_TAG s).state ins n).wr.cfg.wr_stretch = false := by
  induction hn with
  | refl => exact h
  | @step n hn ih =>
    change ((ins n).cfg_wr || (((run NUM_RD_TAG s).state ins n).wr.cfg.wr_stretch && _)) = false
    rw [hquiet n hn, ih]
    rfl

theorem idle_reset (cfg : TstCfg) (rcfg : TstRdCfg) : Idle (reset cfg rcfg : TstRd DATA_DW) :=
  ⟨rfl, rfl, rfl, rfl, rfl⟩

end TstRd

end AwsFpga.Rtl
