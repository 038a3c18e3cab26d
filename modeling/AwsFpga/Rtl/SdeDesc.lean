import Mathlib.Data.Nat.Log
import AwsFpga.Lib.Circuit
import AwsFpga.Rtl.Blocks

/-!
# Descriptors of one direction (`sde_desc.sv`, `sde_pkg.sv`)

A descriptor that comes from PCIS goes through a register into a RAM, and from
there through a flow-through FIFO to the data mover. Two counters give the host
its credits.
-/

open Lib

namespace AwsFpga.Rtl

/-! ## Formats -/

/-- `comm_desc_t`. -/
structure CommDesc where
  user : BitVec 64
  spb : Bool
  eop : Bool
  len : BitVec 32
  src_addr : BitVec 64
  dest_addr : BitVec 64
  desc_type : Bool
  h2c : Bool
  deriving DecidableEq

/-- What comes in, what the RAM keeps of it, and what the data mover gets. -/
structure DescFormat where
  Desc : Type
  Sav : Type
  /-- The content of a register after reset. -/
  zero : Sav
  cnv_desc_to_sav : Desc → Sav
  cnv_desc_from_sav : Sav → Desc
  cnv_desc_to_comm : Desc → CommDesc
  kept : ∀ d, cnv_desc_to_comm (cnv_desc_from_sav (cnv_desc_to_sav d)) = cnv_desc_to_comm d

/-- `c2h_reg_desc_t`. -/
structure C2hRegDesc where
  rsvd : BitVec 32
  dest_addr : BitVec 64
  len : BitVec 32

/-- `c2h_reg_sav_desc_t`. -/
structure C2hRegSavDesc where
  dest_addr : BitVec 64
  len : BitVec 32

def c2h_reg : DescFormat where
  Desc := C2hRegDesc
  Sav := C2hRegSavDesc
  zero := ⟨0, 0⟩
  cnv_desc_to_sav d := ⟨d.dest_addr, d.len⟩
  cnv_desc_from_sav d := ⟨0, d.dest_addr, d.len⟩
  cnv_desc_to_comm d := ⟨0, false, false, d.len, 0, d.dest_addr, false, false⟩
  kept _ := rfl

/-- `c2h_comp_desc_t`. -/
structure C2hCompDesc where
  rsvd : BitVec 48
  dest_addr : BitVec 48
  len : BitVec 32

/-- `c2h_comp_sav_desc_t`. -/
structure C2hCompSavDesc where
  dest_addr : BitVec 48
  len : BitVec 32

def c2h_comp : DescFormat where
  Desc := C2hCompDesc
  Sav := C2hCompSavDesc
  zero := ⟨0, 0⟩
  cnv_desc_to_sav d := ⟨d.dest_addr, d.len⟩
  cnv_desc_from_sav d := ⟨0, d.dest_addr, d.len⟩
  cnv_desc_to_comm d := ⟨0, false, false, d.len, 0, d.dest_addr.setWidth 64, true, false⟩
  kept _ := rfl

/-- `h2c_reg_desc_t`. -/
structure H2cRegDesc where
  user : BitVec 64
  rsvd : BitVec 94
  spb : Bool
  eop : Bool
  src_addr : BitVec 64
  len : BitVec 32

/-- `h2c_reg_sav_desc_t`. -/
structure H2cRegSavDesc where
  user : BitVec 64
  spb : Bool
  eop : Bool
  src_addr : BitVec 64
  len : BitVec 32

def h2c_reg : DescFormat where
  Desc := H2cRegDesc
  Sav := H2cRegSavDesc
  zero := ⟨0, false, false, 0, 0⟩
  cnv_desc_to_sav d := ⟨d.user, d.spb, d.eop, d.src_addr, d.len⟩
  cnv_desc_from_sav d := ⟨d.user, 0, d.spb, d.eop, d.src_addr, d.len⟩
  cnv_desc_to_comm d := ⟨d.user, d.spb, d.eop, d.len, d.src_addr, 0, false, true⟩
  kept _ := rfl

/-- `h2c_comp_desc_t`. -/
structure H2cCompDesc where
  rsvd : BitVec 46
  spb : Bool
  eop : Bool
  src_addr : BitVec 48
  len : BitVec 32

/-- `h2c_comp_sav_desc_t`. -/
structure H2cCompSavDesc where
  spb : Bool
  eop : Bool
  src_addr : BitVec 48
  len : BitVec 32

def h2c_comp : DescFormat where
  Desc := H2cCompDesc
  Sav := H2cCompSavDesc
  zero := ⟨false, false, 0, 0⟩
  cnv_desc_to_sav d := ⟨d.spb, d.eop, d.src_addr, d.len⟩
  cnv_desc_from_sav d := ⟨0, d.spb, d.eop, d.src_addr, d.len⟩
  cnv_desc_to_comm d := ⟨0, d.spb, d.eop, d.len, d.src_addr.setWidth 64, 0, true, true⟩
  kept _ := rfl

/-! ## The block -/

/-- The parameters. The counters of the credits have 32 bits. -/
structure DescParams where
  format : DescFormat
  DESC_RAM_DEPTH : Nat
  pos : 0 < DESC_RAM_DEPTH
  fits : DESC_RAM_DEPTH < 2 ^ 32

structure DescIn (f : DescFormat) where
  ps_desc_wr_req : Bool
  ps_desc_wdata : f.Desc
  cfg_desc_ram_wr_req : Bool
  cfg_desc_ram_rd_req : Bool
  cfg_desc_ram_addr : BitVec 16
  cfg_desc_ram_wdata : f.Desc
  cfg_desc_clr_cdt_limit : Bool
  cfg_desc_clr_cdt_consumed : Bool
  dm_desc_pop : Bool

structure SdeDesc (f : DescFormat) where
  ps_desc_wr_req_q : Bool
  ps_desc_wdata_q : f.Sav
  cfg_desc_ram_wr_req_q : Bool
  cfg_desc_ram_rd_req_q : Bool
  cfg_desc_ram_addr_q : Nat
  cfg_desc_ram_wdata_q : f.Sav
  cfg_desc_ram_rd_req_winner_q : Bool
  desc_cfg_ram_ack : Bool
  desc_cfg_ram_rdata : f.Desc
  desc_ram : Nat → f.Sav
  desc_ram_rdata : f.Sav
  desc_ram_ptrs : RamPtrs
  desc_ram_oflow : Bool
  desc_fifo_uflow : Bool
  DESC_FT_FIFO : FtFifo f.Sav
  cdt_consumed : BitVec 32
  cdt_limit : BitVec 32

namespace SdeDesc

variable {p : DescParams} (i : DescIn p.format) (s : SdeDesc p.format)

/-! ### The wires -/

def desc_ram_pop : Bool := s.DESC_FT_FIFO.ram_pop s.desc_ram_ptrs.empty i.dm_desc_pop

def cfg_desc_ram_wr_req_winner : Bool := s.cfg_desc_ram_wr_req_q && !s.ps_desc_wr_req_q

def cfg_desc_ram_rd_req_winner : Bool := s.cfg_desc_ram_rd_req_q && !desc_ram_pop i s

def desc_ram_wr : Bool := s.ps_desc_wr_req_q || s.cfg_desc_ram_wr_req_q

def desc_ram_waddr : Nat :=
  if s.ps_desc_wr_req_q then s.desc_ram_ptrs.wr_ptr.idx else s.cfg_desc_ram_addr_q

def desc_ram_wdata : p.format.Sav :=
  if s.ps_desc_wr_req_q then s.ps_desc_wdata_q else s.cfg_desc_ram_wdata_q

def desc_ram_rd : Bool := desc_ram_pop i s || s.cfg_desc_ram_rd_req_q

def desc_ram_raddr : Nat :=
  if cfg_desc_ram_rd_req_winner i s then s.cfg_desc_ram_addr_q else s.desc_ram_ptrs.rd_ptr.idx

def desc_dm_desc_valid : Bool := s.DESC_FT_FIFO.ft_valid

/-- It matters only while it is valid. -/
def desc_dm_desc : CommDesc :=
  p.format.cnv_desc_to_comm (p.format.cnv_desc_from_sav (s.DESC_FT_FIFO.ft0.getD p.format.zero))

/-! ### The registers -/

/-- A request register: set by a request, and cleared when the request wins. -/
def req_q (q req winner : Bool) : Bool := if !q && req then true else if q && winner then false else q

def step : SdeDesc p.format where
  ps_desc_wr_req_q := i.ps_desc_wr_req
  ps_desc_wdata_q := p.format.cnv_desc_to_sav i.ps_desc_wdata
  cfg_desc_ram_wr_req_q :=
    req_q s.cfg_desc_ram_wr_req_q i.cfg_desc_ram_wr_req (cfg_desc_ram_wr_req_winner s)
  cfg_desc_ram_rd_req_q :=
    req_q s.cfg_desc_ram_rd_req_q i.cfg_desc_ram_rd_req (cfg_desc_ram_rd_req_winner i s)
  cfg_desc_ram_addr_q := i.cfg_desc_ram_addr.toNat % 2 ^ Nat.clog 2 p.DESC_RAM_DEPTH
  cfg_desc_ram_wdata_q := p.format.cnv_desc_to_sav i.cfg_desc_ram_wdata
  cfg_desc_ram_rd_req_winner_q := cfg_desc_ram_rd_req_winner i s
  desc_cfg_ram_ack :=
    if s.cfg_desc_ram_wr_req_q then cfg_desc_ram_wr_req_winner s else s.cfg_desc_ram_rd_req_winner_q
  desc_cfg_ram_rdata := p.format.cnv_desc_from_sav s.desc_ram_rdata
  desc_ram :=
    if desc_ram_wr s then Function.update s.desc_ram (desc_ram_waddr s) (desc_ram_wdata s)
    else s.desc_ram
  desc_ram_rdata := if desc_ram_rd i s then s.desc_ram (desc_ram_raddr i s) else s.desc_ram_rdata
  desc_ram_ptrs :=
    s.desc_ram_ptrs.step p.DESC_RAM_DEPTH s.ps_desc_wr_req_q (desc_ram_pop i s)
  desc_ram_oflow := s.desc_ram_ptrs.full && s.ps_desc_wr_req_q
  desc_fifo_uflow := !desc_dm_desc_valid s && i.dm_desc_pop
  DESC_FT_FIFO := s.DESC_FT_FIFO.step s.desc_ram_ptrs.empty s.desc_ram_rdata i.dm_desc_pop
  cdt_consumed :=
    if i.cfg_desc_clr_cdt_consumed then 0
    else if s.ps_desc_wr_req_q then s.cdt_consumed + 1 else s.cdt_consumed
  cdt_limit :=
    if i.cfg_desc_clr_cdt_limit then BitVec.ofNat 32 p.DESC_RAM_DEPTH
    else if i.dm_desc_pop then s.cdt_limit + 1 else s.cdt_limit

variable (p) in
def circuit : Circuit (DescIn p.format) (SdeDesc p.format) where
  reset :=
    { ps_desc_wr_req_q := false, ps_desc_wdata_q := p.format.zero
      cfg_desc_ram_wr_req_q := false, cfg_desc_ram_rd_req_q := false, cfg_desc_ram_addr_q := 0
      cfg_desc_ram_wdata_q := p.format.zero, cfg_desc_ram_rd_req_winner_q := false
      desc_cfg_ram_ack := false, desc_cfg_ram_rdata := p.format.cnv_desc_from_sav p.format.zero
      desc_ram := fun _ => p.format.zero, desc_ram_rdata := p.format.zero
      desc_ram_ptrs := .start, desc_ram_oflow := false, desc_fifo_uflow := false
      DESC_FT_FIFO := .start, cdt_consumed := 0, cdt_limit := BitVec.ofNat 32 p.DESC_RAM_DEPTH }
  step := step

/-! ### What goes in and out -/

def pushed (i : DescIn p.format) (_ : SdeDesc p.format) : List p.format.Desc :=
  if i.ps_desc_wr_req then [i.ps_desc_wdata] else []

/-- A push in its register, which is written to the RAM in this cycle. -/
def registered (s : SdeDesc p.format) : List p.format.Sav :=
  if s.ps_desc_wr_req_q then [s.ps_desc_wdata_q] else []

def popped : List CommDesc := if i.dm_desc_pop then [desc_dm_desc s] else []

/-- What the FIFOs and the read between them hold. -/
def held : List p.format.Sav :=
  s.DESC_FT_FIFO.flops ++ s.DESC_FT_FIFO.flight s.desc_ram_rdata ++
    s.desc_ram_ptrs.contents p.DESC_RAM_DEPTH s.desc_ram

/-- What came in and is not popped yet, the push in its register last, as the data mover gets it. -/
def waiting : List CommDesc :=
  (held s ++ registered s).map fun d => p.format.cnv_desc_to_comm (p.format.cnv_desc_from_sav d)

def held_count : Nat :=
  s.DESC_FT_FIFO.flops.length + s.DESC_FT_FIFO.ram_pop_q.toNat +
    s.desc_ram_ptrs.count p.DESC_RAM_DEPTH

variable {i s}

/-! ### What one cycle keeps -/

structure Inv (s : SdeDesc p.format) : Prop where
  DESC_FT_FIFO : s.DESC_FT_FIFO.Ok
  desc_ram_ptrs : s.desc_ram_ptrs.Ok p.DESC_RAM_DEPTH
  desc_ram_oflow : s.desc_ram_oflow = false
  held_le : held_count s ≤ p.DESC_RAM_DEPTH
  credits : s.cdt_limit = s.cdt_consumed + BitVec.ofNat 32 (p.DESC_RAM_DEPTH - held_count s)

/-- No counter is cleared, a push is written only while there is credit, and a pop finds something. -/
structure May (i : DescIn p.format) (s : SdeDesc p.format) : Prop where
  clr_cdt_limit : i.cfg_desc_clr_cdt_limit = false
  clr_cdt_consumed : i.cfg_desc_clr_cdt_consumed = false
  credit : s.ps_desc_wr_req_q → s.cdt_limit ≠ s.cdt_consumed
  pop : i.dm_desc_pop → desc_dm_desc_valid s

theorem inv_reset : ((circuit p).reset).Inv where
  DESC_FT_FIFO := FtFifo.ok_start
  desc_ram_ptrs := RamPtrs.ok_start p.pos
  desc_ram_oflow := rfl
  held_le := by simp [circuit, held_count, FtFifo.flops, FtFifo.start, RamPtrs.count, RamPtrs.start,
    Ring.count]
  credits := by simp [circuit, held_count, FtFifo.flops, FtFifo.start, RamPtrs.count, RamPtrs.start,
    Ring.count]

@[simp] theorem registered_length : (registered s).length = s.ps_desc_wr_req_q.toNat := by
  unfold registered
  cases s.ps_desc_wr_req_q <;> rfl

@[simp] theorem popped_length : (popped i s).length = i.dm_desc_pop.toNat := by
  unfold popped
  cases i.dm_desc_pop <;> rfl

theorem not_empty_of_pop (h : desc_ram_pop i s) : s.desc_ram_ptrs.empty = false :=
  RamFifo.not_empty_of_pop h

theorem room_of_credit (h : s.Inv) (hmay : May i s) (hwr : s.ps_desc_wr_req_q) :
    held_count s < p.DESC_RAM_DEPTH := by
  by_contra hfull
  have hle := h.held_le
  refine hmay.credit hwr ?_
  rw [h.credits, show p.DESC_RAM_DEPTH - held_count s = 0 by omega]
  simp

theorem not_full_of_write (h : s.Inv) (hmay : May i s) (hwr : s.ps_desc_wr_req_q) :
    s.desc_ram_ptrs.full = false := by
  have hroom := room_of_credit h hmay hwr
  rw [h.desc_ram_ptrs.full, decide_eq_false_iff_not]
  unfold held_count at hroom
  omega

theorem ft0_of_pop (hmay : May i s) (hpop : i.dm_desc_pop) :
    s.DESC_FT_FIFO.ft0.toList = [s.DESC_FT_FIFO.ft0.getD p.format.zero] := by
  have hvalid := hmay.pop hpop
  unfold desc_dm_desc_valid FtFifo.ft_valid at hvalid
  cases hft0 : s.DESC_FT_FIFO.ft0 with
  | none => simp [hft0] at hvalid
  | some d => rfl

theorem held_count_step (h : s.Inv) (hmay : May i s) :
    held_count (step i s) + i.dm_desc_pop.toNat = held_count s + s.ps_desc_wr_req_q.toNat := by
  have hptrs := (RamPtrs.ok_step h.desc_ram_ptrs (not_full_of_write h hmay)
    (not_empty_of_pop (i := i))).2
  have hflops := congrArg List.length (FtFifo.flops_step
    s.desc_ram_ptrs.empty s.desc_ram_rdata h.DESC_FT_FIFO hmay.pop)
  have hflight : (s.DESC_FT_FIFO.flight s.desc_ram_rdata).length =
      s.DESC_FT_FIFO.ram_pop_q.toNat := by
    unfold FtFifo.flight
    cases s.DESC_FT_FIFO.ram_pop_q <;> rfl
  have hfront : (if i.dm_desc_pop then s.DESC_FT_FIFO.ft0.toList else []).length =
      i.dm_desc_pop.toNat := by
    cases hpop : i.dm_desc_pop with
    | false => rfl
    | true => rw [if_pos rfl, ft0_of_pop hmay hpop]; rfl
  have hpopq : (step i s).DESC_FT_FIFO.ram_pop_q = desc_ram_pop i s := rfl
  rw [List.length_append, List.length_append, hflight, hfront] at hflops
  unfold held_count
  rw [hpopq]
  change (FtFifo.step _ _ _ s.DESC_FT_FIFO).flops.length + _ + (RamPtrs.step _ _ _ _).count _ + _ = _
  omega

theorem inv_step (h : s.Inv) (hmay : May i s) : (step i s).Inv := by
  have hcount := held_count_step h hmay
  have hle := h.held_le
  have hle' : held_count (step i s) ≤ p.DESC_RAM_DEPTH := by
    cases hwr : s.ps_desc_wr_req_q with
    | false =>
      rw [hwr, Bool.toNat_false] at hcount
      omega
    | true =>
      have hroom := room_of_credit h hmay hwr
      rw [hwr, Bool.toNat_true] at hcount
      omega
  refine ⟨FtFifo.ok_step h.DESC_FT_FIFO hmay.pop, ?_, ?_, hle', ?_⟩
  · exact (RamPtrs.ok_step h.desc_ram_ptrs (not_full_of_write h hmay)
      (not_empty_of_pop (i := i))).1
  · change (s.desc_ram_ptrs.full && s.ps_desc_wr_req_q) = false
    cases hwr : s.ps_desc_wr_req_q with
    | false => simp
    | true => simp [not_full_of_write h hmay hwr]
  · have hlimit : (step i s).cdt_limit = s.cdt_limit + BitVec.ofNat 32 i.dm_desc_pop.toNat := by
      simp only [step, hmay.clr_cdt_limit]
      cases i.dm_desc_pop <;> simp
    have hconsumed : (step i s).cdt_consumed =
        s.cdt_consumed + BitVec.ofNat 32 s.ps_desc_wr_req_q.toNat := by
      simp only [step, hmay.clr_cdt_consumed]
      cases s.ps_desc_wr_req_q <;> simp
    have hsum : p.DESC_RAM_DEPTH - held_count s + i.dm_desc_pop.toNat =
        s.ps_desc_wr_req_q.toNat + (p.DESC_RAM_DEPTH - held_count (step i s)) := by
      omega
    rw [hlimit, hconsumed, h.credits, BitVec.add_assoc, BitVec.add_assoc, ← BitVec.ofNat_add,
      ← BitVec.ofNat_add, hsum]

theorem held_step (h : s.Inv) (hmay : May i s) (hcfg : s.cfg_desc_ram_wr_req_q = false) :
    held s ++ registered s =
      (if i.dm_desc_pop then s.DESC_FT_FIFO.ft0.toList else []) ++ held (step i s) := by
  have hram : (step i s).desc_ram =
      RamPtrs.write s.ps_desc_wr_req_q s.desc_ram_ptrs s.desc_ram s.ps_desc_wdata_q := by
    simp only [step, desc_ram_wr, desc_ram_waddr, desc_ram_wdata, hcfg, RamPtrs.write]
    cases s.ps_desc_wr_req_q <;> simp
  have hrdata : desc_ram_pop i s →
      (step i s).desc_ram_rdata = s.desc_ram s.desc_ram_ptrs.rd_ptr.idx := by
    intro hpop
    simp [step, desc_ram_rd, desc_ram_raddr, cfg_desc_ram_rd_req_winner, hpop]
  have hstep := RamFifo.held_step s.desc_ram_rdata h.DESC_FT_FIFO h.desc_ram_ptrs
    (not_full_of_write h hmay) hmay.pop s.ps_desc_wdata_q hrdata
  rw [← hram] at hstep
  exact hstep

/-! ### Whole runs -/

variable {ins : Nat → DescIn p.format}

theorem inv_state (hmay : ∀ n, May (ins n) ((circuit p).state ins n)) (n : Nat) :
    ((circuit p).state ins n).Inv :=
  Circuit.inv_state inv_reset (fun _ _ hm h => inv_step h hm) hmay n

variable (ins) in
theorem pushed_state (n : Nat) :
    ((circuit p).passed ins pushed n).map p.format.cnv_desc_to_sav =
      (circuit p).passed ins (fun _ s => registered s) n ++ registered ((circuit p).state ins n) := by
  rw [Circuit.passed_map]
  refine Circuit.passed_eq (P := fun _ => True) (m := fun _ _ => True) registered
    (fun _ => trivial) (fun _ => trivial) rfl (fun i s _ _ => ?_) n
  unfold pushed
  change _ = _ ++ (if i.ps_desc_wr_req then [p.format.cnv_desc_to_sav i.ps_desc_wdata] else [])
  cases i.ps_desc_wr_req <;> rfl

theorem count_state (hmay : ∀ n, May (ins n) ((circuit p).state ins n)) (n : Nat) :
    ((circuit p).passed ins (fun _ s => registered s) n).length =
      ((circuit p).passed ins popped n).length + held_count ((circuit p).state ins n) := by
  induction n with
  | zero => simp [circuit, held_count, FtFifo.flops, FtFifo.start, RamPtrs.count, RamPtrs.start,
      Ring.count]
  | succ n ih =>
    have hcount := held_count_step (inv_state hmay n) (hmay n)
    rw [Circuit.passed_succ, Circuit.passed_succ, List.length_append, List.length_append,
      registered_length, popped_length, ih]
    change _ = _ + held_count (step _ _)
    omega

theorem cfg_write_state (hcfg : ∀ n, (ins n).cfg_desc_ram_wr_req = false) (n : Nat) :
    ((circuit p).state ins n).cfg_desc_ram_wr_req_q = false := by
  refine Circuit.inv_state (P := fun s : SdeDesc p.format => s.cfg_desc_ram_wr_req_q = false)
    (m := fun i _ => i.cfg_desc_ram_wr_req = false) rfl (fun i s hi hs => ?_) hcfg n
  change req_q _ _ _ = false
  simp [req_q, hi, hs]

theorem popped_state (hmay : ∀ n, May (ins n) ((circuit p).state ins n))
    (hcfg : ∀ n, (ins n).cfg_desc_ram_wr_req = false) (n : Nat) :
    ((circuit p).passed ins (fun _ s => registered s) n).map
        (fun d => p.format.cnv_desc_to_comm (p.format.cnv_desc_from_sav d)) =
      (circuit p).passed ins popped n ++ (held ((circuit p).state ins n)).map
        (fun d => p.format.cnv_desc_to_comm (p.format.cnv_desc_from_sav d)) := by
  rw [Circuit.passed_map]
  refine Circuit.passed_eq (P := fun s => s.Inv ∧ s.cfg_desc_ram_wr_req_q = false) (m := May)
    (fun s => (held s).map fun d => p.format.cnv_desc_to_comm (p.format.cnv_desc_from_sav d))
    (fun n => ⟨inv_state hmay n, cfg_write_state hcfg n⟩) hmay ?_ (fun i s hm h => ?_) n
  · simp [held, circuit, FtFifo.flops, FtFifo.flight, FtFifo.start, RamPtrs.contents, RamPtrs.start,
      Ring.contents_empty]
  · have hstep := held_step h.1 hm h.2
    rw [← List.map_append, hstep, List.map_append]
    congr 1
    unfold popped desc_dm_desc
    cases hpop : i.dm_desc_pop with
    | false => rfl
    | true =>
      rw [if_pos rfl, ft0_of_pop hm hpop]
      rfl

/-- Nothing is lost, doubled or overtaken. -/
theorem order_state (hmay : ∀ n, May (ins n) ((circuit p).state ins n))
    (hcfg : ∀ n, (ins n).cfg_desc_ram_wr_req = false) (n : Nat) :
    ((circuit p).passed ins pushed n).map p.format.cnv_desc_to_comm =
      (circuit p).passed ins popped n ++ waiting ((circuit p).state ins n) := by
  have hkept : (fun d => p.format.cnv_desc_to_comm (p.format.cnv_desc_from_sav d)) ∘
      p.format.cnv_desc_to_sav = p.format.cnv_desc_to_comm := funext p.format.kept
  rw [← hkept, ← List.map_map, pushed_state, List.map_append, popped_state hmay hcfg,
    List.append_assoc, waiting, List.map_append]

theorem delay_state (hmay : ∀ n, May (ins n) ((circuit p).state ins n)) (n : Nat) :
    ((circuit p).state ins n).DESC_FT_FIFO.Delay ((circuit p).passed ins popped n).length
      ((circuit p).passed ins (fun _ s => registered s) (n - 1)).length
      ((circuit p).passed ins (fun _ s => registered s) (n - 2)).length := by
  induction n with
  | zero => exact FtFifo.delay_start
  | succ n ih =>
    have hinv := inv_state hmay n
    have hall := count_state hmay n
    rw [Circuit.passed_succ, List.length_append, popped_length]
    exact FtFifo.delay_step hinv.DESC_FT_FIFO (hmay n).pop ih hall.symm hinv.desc_ram_ptrs.empty

/-- Three cycles after it came, a descriptor is popped, or one is there to pop. -/
theorem valid_of_pushed (hmay : ∀ n, May (ins n) ((circuit p).state ins n)) {n : Nat}
    (hn : ((circuit p).passed ins popped (n + 3)).length <
      ((circuit p).passed ins pushed n).length) :
    desc_dm_desc_valid ((circuit p).state ins (n + 3)) := by
  have hsucc : (circuit p).passed ins (fun _ s => registered s) (n + 1) = _ :=
    Circuit.passed_succ _ _ _ n
  have hlen := congrArg List.length (pushed_state ins n)
  rw [List.length_map, ← hsucc] at hlen
  have hdelay := delay_state hmay (n + 3)
  unfold desc_dm_desc_valid FtFifo.ft_valid
  by_contra hnone
  have hle := hdelay.starved (by simpa using hnone)
  change ((circuit p).passed ins (fun _ s => registered s) (n + 1)).length ≤ _ at hle
  omega

variable (ins)

/-- What is promised of cycle `n`. -/
structure Kept (n : Nat) : Prop where
  no_overflow : ((circuit p).state ins n).desc_ram_oflow = false ∧
    ((circuit p).state ins n).desc_ram_ptrs.count p.DESC_RAM_DEPTH ≤ p.DESC_RAM_DEPTH
  /-- A push counts as consumed when it has left its register. -/
  credits : ((circuit p).state ins n).cdt_limit - ((circuit p).state ins n).cdt_consumed =
    BitVec.ofNat 32 p.DESC_RAM_DEPTH -
      (BitVec.ofNat 32 ((circuit p).passed ins pushed n).length -
        BitVec.ofNat 32 ((circuit p).passed ins popped n).length) +
      BitVec.ofNat 32 ((circuit p).state ins n).ps_desc_wr_req_q.toNat
  /-- All that was pushed is popped or waits, in order. -/
  order : (∀ n, (ins n).cfg_desc_ram_wr_req = false) →
    ((circuit p).passed ins pushed n).map p.format.cnv_desc_to_comm =
      (circuit p).passed ins popped n ++ waiting ((circuit p).state ins n)
  /-- What waits is there to pop after three cycles. -/
  valid : ((circuit p).passed ins popped (n + 3)).length <
      ((circuit p).passed ins pushed n).length →
    desc_dm_desc_valid ((circuit p).state ins (n + 3))

theorem kept_of_may (hmay : ∀ n, May (ins n) ((circuit p).state ins n)) (n : Nat) : Kept ins n where
  no_overflow := ⟨(inv_state hmay n).desc_ram_oflow, RamPtrs.count_le (inv_state hmay n).desc_ram_ptrs⟩
  credits := by
    have hinv := inv_state hmay n
    have hle := hinv.held_le
    have hlen := congrArg List.length (pushed_state ins n)
    rw [List.length_map, List.length_append, count_state hmay n, registered_length] at hlen
    have hdepth : BitVec.ofNat 32 p.DESC_RAM_DEPTH =
        BitVec.ofNat 32 (p.DESC_RAM_DEPTH - held_count ((circuit p).state ins n)) +
          BitVec.ofNat 32 (held_count ((circuit p).state ins n)) := by
      rw [← BitVec.ofNat_add, Nat.sub_add_cancel hle]
    rw [hlen, hinv.credits, hdepth, BitVec.ofNat_add, BitVec.ofNat_add]
    grind
  order hcfg := order_state hmay hcfg n
  valid hn := valid_of_pushed hmay hn

theorem depth_pos : 0 < 64 := by decide

theorem depth_fits : 64 < 2 ^ 32 := by decide

def c2h_64 : DescParams := ⟨c2h_reg, 64, depth_pos, depth_fits⟩

def three_descs : List C2hRegDesc := [⟨0, 0x1000, 64⟩, ⟨7, 0x2000, 128⟩, ⟨0, 0x3000, 4096⟩]

/-- Three descriptors in a row, of which the last waits in the RAM, and a read of the RAM by the
host, which waits for the two pops of the RAM that come in its way. -/
def read_between (n : Nat) : DescIn c2h_64.format where
  ps_desc_wr_req := n < 3
  ps_desc_wdata := three_descs.getD n ⟨0, 0, 0⟩
  cfg_desc_ram_wr_req := false
  cfg_desc_ram_rd_req := n = 1
  cfg_desc_ram_addr := 1
  cfg_desc_ram_wdata := ⟨0, 0, 0⟩
  cfg_desc_clr_cdt_limit := false
  cfg_desc_clr_cdt_consumed := false
  dm_desc_pop := n = 6 || n = 7 || n = 9

theorem kept_read_between : (∀ n, Kept read_between n) ∧
    (circuit c2h_64).passed read_between popped 7 =
      [⟨0, false, false, 64, 0, 0x1000, false, false⟩] ∧
    (waiting ((circuit c2h_64).state read_between 7)).length = 2 ∧
    (circuit c2h_64).passed read_between popped 10 =
      [⟨0, false, false, 64, 0, 0x1000, false, false⟩,
        ⟨0, false, false, 128, 0, 0x2000, false, false⟩,
        ⟨0, false, false, 4096, 0, 0x3000, false, false⟩] ∧
    (∀ n < 6, ((circuit c2h_64).state read_between n).desc_cfg_ram_ack = false) ∧
    ((circuit c2h_64).state read_between 6).desc_cfg_ram_ack = true ∧
    ((circuit c2h_64).state read_between 6).desc_cfg_ram_rdata = ⟨0, 0x2000, 128⟩ := by
  refine ⟨fun n => kept_of_may read_between (fun m => ⟨rfl, rfl, fun hwr => ?_, fun hpop => ?_⟩) n,
    by decide, by decide, by decide, by decide, by decide, rfl⟩
  · have hall : ∀ m < 4, ((circuit c2h_64).state read_between m).ps_desc_wr_req_q →
        ((circuit c2h_64).state read_between m).cdt_limit ≠
          ((circuit c2h_64).state read_between m).cdt_consumed := by
      decide
    refine hall m ?_ hwr
    by_contra hm
    obtain ⟨k, rfl⟩ : ∃ k, m = k + 1 := ⟨m - 1, by omega⟩
    have hreq : decide (k < 3) = true := hwr
    have hlt := of_decide_eq_true hreq
    omega
  · have hcases : (m = 6 ∨ m = 7) ∨ m = 9 := by simpa [read_between] using hpop
    rcases hcases with (rfl | rfl) | rfl <;> decide

/-- As `May`, with the credit asked for when a push comes. -/
structure PortMay {p : DescParams} (i : DescIn p.format) (s : SdeDesc p.format) : Prop where
  clr_cdt_limit : i.cfg_desc_clr_cdt_limit = false
  clr_cdt_consumed : i.cfg_desc_clr_cdt_consumed = false
  credit : i.ps_desc_wr_req → s.cdt_limit ≠ s.cdt_consumed
  pop : i.dm_desc_pop → desc_dm_desc_valid s

/-- Pushes without a break, while the counters differ. The push in the register is not counted yet,
so one comes too many, and the difference wraps. -/
def pushes (n : Nat) : DescIn c2h_64.format where
  ps_desc_wr_req := n < 70 && n ≠ 65
  ps_desc_wdata := ⟨0, 0x1000, 64⟩
  cfg_desc_ram_wr_req := false
  cfg_desc_ram_rd_req := false
  cfg_desc_ram_addr := 0
  cfg_desc_ram_wdata := ⟨0, 0, 0⟩
  cfg_desc_clr_cdt_limit := false
  cfg_desc_clr_cdt_consumed := false
  dm_desc_pop := false

theorem pushes_may (n : Nat) : PortMay (pushes n) ((circuit c2h_64).state pushes n) := by
  refine ⟨rfl, rfl, fun hreq => ?_, nofun⟩
  have hlt : n < 70 ∧ n ≠ 65 := by simpa [pushes] using hreq
  have hall : ∀ n < 70, n ≠ 65 → ((circuit c2h_64).state pushes n).cdt_limit ≠
      ((circuit c2h_64).state pushes n).cdt_consumed := by
    decide
  exact hall n hlt.1 hlt.2

theorem port_overflow :
    (¬ ∀ ins : Nat → DescIn c2h_64.format,
      (∀ n, PortMay (ins n) ((circuit c2h_64).state ins n)) →
        ∀ n, ((circuit c2h_64).state ins n).desc_ram_oflow = false) ∧
    (¬ ∀ ins : Nat → DescIn c2h_64.format,
      (∀ n, PortMay (ins n) ((circuit c2h_64).state ins n)) →
        ∀ n, ((circuit c2h_64).state ins n).cdt_limit - ((circuit c2h_64).state ins n).cdt_consumed =
          BitVec.ofNat 32 c2h_64.DESC_RAM_DEPTH -
            (BitVec.ofNat 32 ((circuit c2h_64).passed ins pushed n).length -
              BitVec.ofNat 32 ((circuit c2h_64).passed ins popped n).length)) := by
  constructor
  · intro h
    have hoflow : ((circuit c2h_64).state pushes 69).desc_ram_oflow = true := by decide +kernel
    rw [h pushes pushes_may 69] at hoflow
    cases hoflow
  · intro h
    exact absurd (h pushes pushes_may 1) (by decide)

end SdeDesc

end AwsFpga.Rtl
