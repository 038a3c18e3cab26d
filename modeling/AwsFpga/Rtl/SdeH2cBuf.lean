import Mathlib.Data.List.Forall2
import AwsFpga.Lib.Axi
import AwsFpga.Rtl.Blocks

/-!
# The packet buffer of H2C (`sde_h2c_buf.sv`)

Rows go into a RAM. Where a packet ends is not stored with them: for its last row
a record goes into a second RAM, with the index of the row. The output pipeline
compares the index of the row that it holds with that of the next record.
-/

open Lib Lib.Axi

namespace AwsFpga.Rtl

/-- A row as the data mover writes it, with `USER_BIT_WIDTH` user bits. -/
structure BufRow (w : Nat) where
  data : BitVec 512
  eop : Bool
  user : BitVec w
  num_bytes_minus1 : Nat
  deriving DecidableEq

/-- The record of a last row. -/
structure AuxRec (w : Nat) where
  user : BitVec w
  eop_wr_ptr : Nat
  num_bytes_minus1 : Nat
  deriving DecidableEq

/-- A row on AXI-Stream. -/
structure AxisRow (w : Nat) where
  data : BitVec 512
  last : Bool
  user : BitVec w
  keep : BitVec 64
  deriving DecidableEq

structure H2cBufIn (w : Nat) where
  dm_buf_wr : Bool
  row : BufRow w
  axis_buf_ready : Bool

/-- A row in the pipeline, and its index. -/
structure OpRow where
  data : BitVec 512
  buf_rd_addr : Nat
  deriving DecidableEq

structure H2cBuf (w : Nat) where
  buf_ptrs : RamPtrs
  buf_uflow : Bool
  buf_oflow : Bool
  buf_ram : Nat → BitVec 512
  buf_ram_rdata : BitVec 512
  aux_ptrs : RamPtrs
  aux_ram_oflow : Bool
  aux_fifo_uflow : Bool
  aux_ram : Nat → AuxRec w
  aux_ram_rdata : AuxRec w
  AUX_FT_FIFO : FtFifo (AuxRec w)
  pl0_op_valid : Bool
  pl0_op_buf_rd_addr : Nat
  pl1_op_valid : Bool
  pl1_op : OpRow
  pl1_op_ovf : Bool
  pl1_op_ovf_row : OpRow
  pl2_op_valid : Bool
  pl2_op : AxisRow w
  OP_OUTPUT_FIFO : List (AxisRow w)

/-- The depths of the two RAMs. -/
structure H2cBufParams where
  BUF_DEPTH : Nat
  BUF_AUX_DEPTH : Nat
  buf_pos : 0 < BUF_DEPTH
  aux_pos : 0 < BUF_AUX_DEPTH

namespace H2cBuf

def OP_OUTPUT_FIFO_DEPTH : Nat := 3

def PCIM_DATA_WIDTH_BYTES : Nat := 64

variable {w : Nat} (p : H2cBufParams) (i : H2cBufIn w) (s : H2cBuf w)

/-! ## The wires -/

def op_stall : Bool := watermark (OP_OUTPUT_FIFO_DEPTH - 1) s.OP_OUTPUT_FIFO

def buf_rd_en : Bool := !s.buf_ptrs.empty && !op_stall s

def aux_ram_wr : Bool := i.dm_buf_wr && i.row.eop

def aux_ram_wdata : AuxRec w := ⟨i.row.user, s.buf_ptrs.wr_ptr.idx, i.row.num_bytes_minus1⟩

def aux_out_valid : Bool := s.AUX_FT_FIFO.ft_valid

/-- It matters only while `aux_out_valid` is set. -/
def aux_out : AuxRec w := s.AUX_FT_FIFO.ft0.getD ⟨0, 0, 0⟩

def stg1_op_valid : Bool := s.pl0_op_valid || s.pl1_op_ovf

/-- What the RAM gives for the row in the first stage. -/
def pl0_op : OpRow := ⟨s.buf_ram_rdata, s.pl0_op_buf_rd_addr⟩

def stg1_op : OpRow := if s.pl1_op_ovf then s.pl1_op_ovf_row else pl0_op s

def stg1_op_ovf : Bool :=
  if s.pl0_op_valid && op_stall s then true else if !op_stall s then false else s.pl1_op_ovf

def stg1_op_ovf_row : OpRow :=
  if s.pl0_op_valid && op_stall s then pl0_op s else s.pl1_op_ovf_row

def stg2_op_eop : Bool := aux_out_valid s && (aux_out s).eop_wr_ptr = s.pl1_op.buf_rd_addr

/-- The loop over `byte_idx`. -/
def stg2_op_keep_last (num_bytes_minus1 : Nat) : BitVec 64 :=
  (List.range PCIM_DATA_WIDTH_BYTES).foldl
    (fun keep byte_idx => if byte_idx ≤ num_bytes_minus1 then keep ||| 1#64 <<< byte_idx else keep) 0#64

def stg2_op : AxisRow w where
  data := s.pl1_op.data
  last := stg2_op_eop s
  user := (aux_out s).user
  keep := if stg2_op_eop s then stg2_op_keep_last (aux_out s).num_bytes_minus1 else .allOnes 64

def aux_ft_ff_pop : Bool := aux_out_valid s && s.pl1_op_valid && stg2_op_eop s && !op_stall s

def aux_ram_pop : Bool := s.AUX_FT_FIFO.ram_pop s.aux_ptrs.empty (aux_ft_ff_pop s)

def op_out_ff_push : Bool := s.pl2_op_valid && !op_stall s

def buf_axis_valid : Bool := !s.OP_OUTPUT_FIFO.isEmpty

def op_out_ff_pop : Bool := buf_axis_valid s && i.axis_buf_ready

/-! ### What the data mover is told

It gives the place behind all that it has requested. -/

def BUF_SIZE_BYTES : Nat := p.BUF_DEPTH * PCIM_DATA_WIDTH_BYTES

def buf_rd_byte_addr : Nat := s.buf_ptrs.rd_ptr.idx * PCIM_DATA_WIDTH_BYTES

def buf_byte_addr_diff (dm_buf_wr_byte_addr : Nat) : Nat :=
  if buf_rd_byte_addr s < dm_buf_wr_byte_addr then
    (s.buf_ptrs.rd_ptr.idx + p.BUF_DEPTH) * PCIM_DATA_WIDTH_BYTES - dm_buf_wr_byte_addr
  else buf_rd_byte_addr s - dm_buf_wr_byte_addr

def buf_dm_num_bytes (dm_buf_wr_byte_addr : Nat) (dm_buf_wr_ptr_msb : Bool) : Nat :=
  if dm_buf_wr_byte_addr = buf_rd_byte_addr s && dm_buf_wr_ptr_msb = s.buf_ptrs.rd_ptr.msb then
    BUF_SIZE_BYTES p
  else if dm_buf_wr_byte_addr = buf_rd_byte_addr s && dm_buf_wr_ptr_msb ≠ s.buf_ptrs.rd_ptr.msb then 0
  else buf_byte_addr_diff p s dm_buf_wr_byte_addr

def buf_dm_aux_full (dm_buf_aux_wr_ptr : Nat) (dm_buf_aux_wr_ptr_msb : Bool) : Bool :=
  dm_buf_aux_wr_ptr = s.aux_ptrs.rd_ptr.idx && dm_buf_aux_wr_ptr_msb ≠ s.aux_ptrs.rd_ptr.msb

/-! ## The registers -/

def step : H2cBuf w where
  buf_ptrs := s.buf_ptrs.step p.BUF_DEPTH i.dm_buf_wr (buf_rd_en s)
  buf_uflow := s.buf_ptrs.empty && buf_rd_en s
  buf_oflow := s.buf_ptrs.full && i.dm_buf_wr
  buf_ram := RamPtrs.write i.dm_buf_wr s.buf_ptrs s.buf_ram i.row.data
  buf_ram_rdata := if buf_rd_en s then s.buf_ram s.buf_ptrs.rd_ptr.idx else s.buf_ram_rdata
  aux_ptrs := s.aux_ptrs.step p.BUF_AUX_DEPTH (aux_ram_wr i) (aux_ram_pop s)
  aux_ram_oflow := s.aux_ptrs.full && aux_ram_wr i
  aux_fifo_uflow := !aux_out_valid s && aux_ft_ff_pop s
  aux_ram := RamPtrs.write (aux_ram_wr i) s.aux_ptrs s.aux_ram (aux_ram_wdata i s)
  aux_ram_rdata := if aux_ram_pop s then s.aux_ram s.aux_ptrs.rd_ptr.idx else s.aux_ram_rdata
  AUX_FT_FIFO := s.AUX_FT_FIFO.step s.aux_ptrs.empty s.aux_ram_rdata (aux_ft_ff_pop s)
  pl0_op_valid := buf_rd_en s
  pl0_op_buf_rd_addr := s.buf_ptrs.rd_ptr.idx
  pl1_op_valid := if !op_stall s then stg1_op_valid s else s.pl1_op_valid
  pl1_op := if !op_stall s then stg1_op s else s.pl1_op
  pl1_op_ovf := stg1_op_ovf s
  pl1_op_ovf_row := stg1_op_ovf_row s
  pl2_op_valid := if !op_stall s then s.pl1_op_valid else s.pl2_op_valid
  pl2_op := if !op_stall s then stg2_op s else s.pl2_op
  OP_OUTPUT_FIFO := flop_fifo OP_OUTPUT_FIFO_DEPTH
    (if op_out_ff_push s then some s.pl2_op else none) (op_out_ff_pop i s) s.OP_OUTPUT_FIFO

def circuit : Circuit (H2cBufIn w) (H2cBuf w) where
  reset :=
    { buf_ptrs := .start, buf_uflow := false, buf_oflow := false
      buf_ram := fun _ => 0, buf_ram_rdata := 0
      aux_ptrs := .start, aux_ram_oflow := false, aux_fifo_uflow := false
      aux_ram := fun _ => ⟨0, 0, 0⟩, aux_ram_rdata := ⟨0, 0, 0⟩
      AUX_FT_FIFO := .start
      pl0_op_valid := false, pl0_op_buf_rd_addr := 0
      pl1_op_valid := false, pl1_op := ⟨0, 0⟩
      pl1_op_ovf := false, pl1_op_ovf_row := ⟨0, 0⟩
      pl2_op_valid := false, pl2_op := ⟨0, false, 0, 0⟩
      OP_OUTPUT_FIFO := [] }
  step := step p

/-! ## What goes in and out -/

def written (i : H2cBufIn w) (_ : H2cBuf w) : List (BufRow w) :=
  if i.dm_buf_wr then [i.row] else []

/-- The row on AXI-Stream is the first of the output FIFO. -/
def sent : List (AxisRow w) := if op_out_ff_pop i s then s.OP_OUTPUT_FIFO.take 1 else []

/-- A row leaves the stage in which its index is compared. -/
def leaves : Bool := s.pl1_op_valid && !op_stall s

/-- What it leaves with. -/
def marked (s : H2cBuf w) : List (AxisRow w) := if leaves s then [stg2_op s] else []

/-- A written row as it should appear. -/
structure Shows (r : BufRow w) (o : AxisRow w) : Prop where
  data : o.data = r.data
  last : o.last = r.eop
  keep : ∀ b < PCIM_DATA_WIDTH_BYTES, o.keep.getLsbD b = (!r.eop || b ≤ r.num_bytes_minus1)
  user : r.eop → o.user = r.user

/-! ## The keep bits -/

theorem keep_fold (num_bytes_minus1 b : Nat) (hb : b < 64) (m : Nat) :
    ((List.range m).foldl (fun keep byte_idx =>
        if byte_idx ≤ num_bytes_minus1 then keep ||| 1#64 <<< byte_idx else keep)
      0#64).getLsbD b = (decide (b < m) && decide (b ≤ num_bytes_minus1)) := by
  induction m with
  | zero => simp
  | succ m ih =>
    rw [List.range_succ, List.foldl_append, List.foldl_cons, List.foldl_nil]
    have hbit : (1#64 <<< m).getLsbD b = decide (b = m) := by
      simp only [BitVec.getLsbD_shiftLeft, BitVec.getLsbD_one]
      grind
    split
    case isTrue hm =>
      rw [BitVec.getLsbD_or, ih, hbit]
      grind
    case isFalse hm =>
      rw [ih]
      grind

theorem keep_last_getLsbD (num_bytes_minus1 : Nat) {b : Nat} (hb : b < PCIM_DATA_WIDTH_BYTES) :
    (stg2_op_keep_last num_bytes_minus1).getLsbD b = decide (b ≤ num_bytes_minus1) := by
  unfold stg2_op_keep_last
  rw [keep_fold _ _ hb]
  simp [hb]

/-! ## Rows that are inside -/

variable {p i s}

/-- What the pipeline and the RAM hold before the indices are compared, oldest first. -/
def raw_held (p : H2cBufParams) (s : H2cBuf w) : List (OpRow) :=
  shown s.pl1_op_valid s.pl1_op ++ shown s.pl1_op_ovf s.pl1_op_ovf_row ++
    shown s.pl0_op_valid (pl0_op s) ++ s.buf_ptrs.contents p.BUF_DEPTH fun k => ⟨s.buf_ram k, k⟩

def aux_held (p : H2cBufParams) (s : H2cBuf w) : List (AuxRec w) :=
  RamFifo.held p.BUF_AUX_DEPTH s.aux_ram s.aux_ram_rdata s.aux_ptrs s.AUX_FT_FIFO

def out_held (s : H2cBuf w) : List (AxisRow w) := s.OP_OUTPUT_FIFO ++ shown s.pl2_op_valid s.pl2_op

structure Inv (p : H2cBufParams) (s : H2cBuf w) : Prop where
  buf_ptrs : s.buf_ptrs.Ok p.BUF_DEPTH
  aux_ptrs : s.aux_ptrs.Ok p.BUF_AUX_DEPTH
  AUX_FT_FIFO : s.AUX_FT_FIFO.Ok
  ovf : s.pl1_op_ovf → s.pl0_op_valid = false

/-- Rows and records come only while there is room for them. -/
structure May (i : H2cBufIn w) (s : H2cBuf w) : Prop where
  buf : i.dm_buf_wr → s.buf_ptrs.full = false
  aux : aux_ram_wr i → s.aux_ptrs.full = false

theorem inv_reset : Inv p (circuit p : Circuit (H2cBufIn w) (H2cBuf w)).reset where
  buf_ptrs := RamPtrs.ok_start p.buf_pos
  aux_ptrs := RamPtrs.ok_start p.aux_pos
  AUX_FT_FIFO := FtFifo.ok_start
  ovf := nofun

theorem not_empty_of_rd (h : buf_rd_en s) : s.buf_ptrs.empty = false := by
  unfold buf_rd_en at h
  simp only [Bool.and_eq_true, Bool.not_eq_true'] at h
  exact h.1

theorem valid_of_pop (h : aux_ft_ff_pop s) : s.AUX_FT_FIFO.ft_valid := by
  unfold aux_ft_ff_pop at h
  simp only [Bool.and_eq_true] at h
  exact h.1.1.1

theorem inv_step (h : Inv p s) (hmay : May i s) : Inv p (step p i s) where
  buf_ptrs := (RamPtrs.ok_step h.buf_ptrs hmay.buf not_empty_of_rd).1
  aux_ptrs := (RamPtrs.ok_step h.aux_ptrs hmay.aux
    (RamFifo.not_empty_of_pop (f := s.AUX_FT_FIFO))).1
  AUX_FT_FIFO := FtFifo.ok_step h.AUX_FT_FIFO valid_of_pop
  ovf hovf := by
    change stg1_op_ovf s = true at hovf
    change buf_rd_en s = false
    unfold stg1_op_ovf at hovf
    unfold buf_rd_en
    cases hstall : op_stall s with
    | true => simp
    | false => simp [hstall] at hovf

theorem raw_step (h : Inv p s) (hmay : May i s) :
    raw_held p s ++ (if i.dm_buf_wr then [⟨i.row.data, s.buf_ptrs.wr_ptr.idx⟩] else []) =
      shown (leaves s) s.pl1_op ++ raw_held p (step p i s) := by
  have hcontents := RamPtrs.contents_step h.buf_ptrs hmay.buf not_empty_of_rd
    (fun k => OpRow.mk (s.buf_ram k) k) ⟨i.row.data, s.buf_ptrs.wr_ptr.idx⟩
  rw [RamPtrs.write_map (fun k a => OpRow.mk a k)] at hcontents
  unfold raw_held
  rw [List.append_assoc, hcontents]
  have hpl0 : shown (step p i s).pl0_op_valid (pl0_op (step p i s)) =
      if buf_rd_en s then [⟨s.buf_ram s.buf_ptrs.rd_ptr.idx, s.buf_ptrs.rd_ptr.idx⟩] else [] := by
    simp only [step, pl0_op]
    cases buf_rd_en s <;> simp
  rw [hpl0]
  simp only [step, leaves, stg1_op_valid, stg1_op, stg1_op_ovf, stg1_op_ovf_row]
  have hovf := h.ovf
  cases hstall : op_stall s with
  | true =>
    have hrd : buf_rd_en s = false := by simp [buf_rd_en, hstall]
    rw [hrd]
    cases hpl0 : s.pl0_op_valid <;> cases hpl1 : s.pl1_op_ovf <;> cases s.pl1_op_valid <;> simp_all
  | false =>
    cases hpl0 : s.pl0_op_valid <;> cases hpl1 : s.pl1_op_ovf <;> cases s.pl1_op_valid <;> simp_all

theorem aux_step (h : Inv p s) (hmay : May i s) :
    aux_held p s ++ (if aux_ram_wr i then [aux_ram_wdata i s] else []) =
      (if aux_ft_ff_pop s then s.AUX_FT_FIFO.ft0.toList else []) ++ aux_held p (step p i s) :=
  RamFifo.held_step s.aux_ram_rdata h.AUX_FT_FIFO h.aux_ptrs hmay.aux valid_of_pop (aux_ram_wdata i s)
    fun hpop => if_pos hpop

theorem out_step : out_held s ++ marked s = sent i s ++ out_held (step p i s) := by
  have hpush : s.OP_OUTPUT_FIFO.length < OP_OUTPUT_FIFO_DEPTH ∨
      (if op_out_ff_push s then some s.pl2_op else none) = none := by
    cases hstall : op_stall s with
    | true => simp [op_out_ff_push, hstall]
    | false =>
      left
      simp only [op_stall, watermark, decide_eq_false_iff_not] at hstall
      unfold OP_OUTPUT_FIFO_DEPTH at hstall ⊢
      omega
  have hpop : op_out_ff_pop i s → s.OP_OUTPUT_FIFO ≠ [] := by
    intro hpop hnil
    simp [op_out_ff_pop, buf_axis_valid, hnil] at hpop
  have hff : (step p i s).OP_OUTPUT_FIFO = flop_fifo OP_OUTPUT_FIFO_DEPTH
    (if op_out_ff_push s then some s.pl2_op else none) (op_out_ff_pop i s) s.OP_OUTPUT_FIFO := rfl
  have hhead : s.OP_OUTPUT_FIFO = sent i s ++
      if op_out_ff_pop i s then s.OP_OUTPUT_FIFO.tail else s.OP_OUTPUT_FIFO := by
    unfold sent
    cases hpop' : op_out_ff_pop i s with
    | false => rfl
    | true =>
      rw [if_pos rfl, if_pos rfl, ← List.drop_one, List.take_append_drop]
  have hpipe : shown s.pl2_op_valid s.pl2_op ++ marked s =
      (if op_out_ff_push s then some s.pl2_op else none).toList ++
        shown (step p i s).pl2_op_valid (step p i s).pl2_op := by
    cases hstall : op_stall s <;> cases hpl2 : s.pl2_op_valid <;> cases hpl1 : s.pl1_op_valid <;>
      simp [step, marked, leaves, op_out_ff_push, hstall, hpl1, hpl2]
  unfold out_held
  rw [hff, flop_fifo_eq hpush hpop, List.append_assoc, hpipe]
  nth_rewrite 1 [hhead]
  simp only [List.append_assoc]

/-! ## Rows and their records

A row that is inside, with its index. -/

def raw_of (r : BufRow w × Nat) : OpRow := ⟨r.1.data, r.2⟩

def rec_of (r : BufRow w × Nat) : AuxRec w := ⟨r.1.user, r.2, r.1.num_bytes_minus1⟩

def eops (rows : List (BufRow w × Nat)) : List (BufRow w × Nat) := rows.filter fun r => r.1.eop

theorem eops_append (rows rows' : List (BufRow w × Nat)) :
    eops (rows ++ rows') = eops rows ++ eops rows' := List.filter_append ..

theorem eops_cons_eop {r : BufRow w × Nat} (h : r.1.eop) (rows : List (BufRow w × Nat)) :
    eops (r :: rows) = r :: eops rows := List.filter_cons_of_pos h

theorem eops_cons_other {r : BufRow w × Nat} (h : r.1.eop = false) (rows : List (BufRow w × Nat)) :
    eops (r :: rows) = eops rows := List.filter_cons_of_neg (by simp [h])

/-- The rows whose index may be compared before a record that is asked for now can arrive. -/
def in_pl1 (s : H2cBuf w) : Nat := s.pl1_op_valid.toNat + s.pl1_op_ovf.toNat

/-- The rows inside, oldest first. The record of a last row is never behind the row: it is in the
FIFO when the row gets to the comparison. -/
structure Track (p : H2cBufParams) (s : H2cBuf w) (rows : List (BufRow w × Nat)) : Prop where
  raw : raw_held p s = rows.map raw_of
  aux : aux_held p s = (eops rows).map rec_of
  idle : s.AUX_FT_FIFO.ram_pop_q = false → s.AUX_FT_FIFO.ft1 = none →
    (eops (rows.take (in_pl1 s + s.pl0_op_valid.toNat))).length ≤ s.AUX_FT_FIFO.flops.length
  starved : s.AUX_FT_FIFO.ram_pop_q → s.AUX_FT_FIFO.ft0 = none → eops (rows.take (in_pl1 s)) = []

variable {rows : List (BufRow w × Nat)}

theorem pl1_of_leaves (h : leaves s) : s.pl1_op_valid ∧ op_stall s = false := by
  unfold leaves at h
  simpa only [Bool.and_eq_true, Bool.not_eq_true'] using h

theorem head_of_leaves (ht : Track p s rows) (h : leaves s) :
    ∃ r rest, rows = r :: rest ∧ raw_of r = s.pl1_op := by
  have hraw := ht.raw
  unfold raw_held at hraw
  rw [(pl1_of_leaves h).1, shown_true] at hraw
  cases rows with
  | nil => simp at hraw
  | cons r rest =>
    simp only [List.map_cons, List.cons_append, List.cons.injEq] at hraw
    exact ⟨r, rest, rfl, hraw.1.symm⟩

theorem valid_of_eop (h : Inv p s) {r : BufRow w × Nat} {rest : List (BufRow w × Nat)}
    (ht : Track p s (r :: rest)) (hleaves : leaves s) (heop : r.1.eop) :
    s.AUX_FT_FIFO.ft0 = some (rec_of r) := by
  have hpos : ∃ n, in_pl1 s = n + 1 :=
    ⟨s.pl1_op_ovf.toNat, by simp [in_pl1, (pl1_of_leaves hleaves).1, Nat.add_comm]⟩
  obtain ⟨n, hn⟩ := hpos
  cases hft0 : s.AUX_FT_FIFO.ft0 with
  | none =>
    have hft1 : s.AUX_FT_FIFO.ft1 = none := by
      cases hft1 : s.AUX_FT_FIFO.ft1 with
      | none => rfl
      | some d =>
        have hsome := h.AUX_FT_FIFO.order (by simp [hft1])
        simp [hft0] at hsome
    cases hpop : s.AUX_FT_FIFO.ram_pop_q with
    | false =>
      have hidle := ht.idle hpop hft1
      rw [show in_pl1 s + s.pl0_op_valid.toNat = n + s.pl0_op_valid.toNat + 1 by omega] at hidle
      simp [eops, heop, FtFifo.flops, hft0, hft1] at hidle
    | true =>
      have hstarved := ht.starved hpop hft0
      rw [hn] at hstarved
      simp [eops, heop] at hstarved
  | some d =>
    have haux := ht.aux
    rw [eops_cons_eop heop] at haux
    simp only [aux_held, RamFifo.held, FtFifo.flops, hft0, Option.toList_some, List.map_cons,
      List.cons_append, List.cons.injEq] at haux
    rw [haux.1]

/-- What leaves the comparison is marked as it was written. `hclear` says that the next record, if
it is there, is not that of a later row with the same index. -/
theorem stg2_shows (h : Inv p s) {r : BufRow w × Nat} {rest : List (BufRow w × Nat)}
    (ht : Track p s (r :: rest)) (hleaves : leaves s)
    (hclear : s.AUX_FT_FIFO.ft_valid → r.1.eop = false → ∀ q qs, eops rest = q :: qs → q.2 ≠ r.2) :
    Shows r.1 (stg2_op s) ∧ aux_ft_ff_pop s = r.1.eop := by
  have hpl1 := pl1_of_leaves hleaves
  obtain ⟨r', rest', heq, hraw⟩ := head_of_leaves ht hleaves
  obtain ⟨rfl, rfl⟩ := List.cons.inj heq
  have hdata : s.pl1_op.data = r.1.data := by rw [← hraw]; rfl
  have haddr : s.pl1_op.buf_rd_addr = r.2 := by rw [← hraw]; rfl
  cases heop : r.1.eop with
  | true =>
    have hft0 := valid_of_eop h ht hleaves heop
    have hout : aux_out s = rec_of r := by simp [aux_out, hft0]
    have hlast : stg2_op_eop s = true := by
      simp [stg2_op_eop, aux_out_valid, FtFifo.ft_valid, hft0, hout, haddr, rec_of]
    refine ⟨⟨hdata, ?_, fun b hb => ?_, fun _ => ?_⟩, ?_⟩
    · rw [heop]
      exact hlast
    · simp only [stg2_op, hlast, hout, if_true, keep_last_getLsbD _ hb, heop]
      rfl
    · simp only [stg2_op, hout]
      rfl
    · simp [aux_ft_ff_pop, hlast, hpl1.1, hpl1.2, aux_out_valid, FtFifo.ft_valid, hft0]
  | false =>
    have hlast : stg2_op_eop s = false := by
      cases hft0 : s.AUX_FT_FIFO.ft0 with
      | none => simp [stg2_op_eop, aux_out_valid, FtFifo.ft_valid, hft0]
      | some d =>
        have haux := ht.aux
        rw [eops_cons_other heop] at haux
        simp only [aux_held, RamFifo.held, FtFifo.flops, hft0, Option.toList_some,
          List.cons_append] at haux
        cases hqs : eops rest with
        | nil => simp [hqs] at haux
        | cons q qs =>
          have hne := hclear (by simp [FtFifo.ft_valid, hft0]) heop q qs hqs
          rw [hqs, List.map_cons, List.cons.injEq] at haux
          have hout : aux_out s = rec_of q := by simp [aux_out, hft0, haux.1]
          simp [stg2_op_eop, hout, haddr, rec_of, hne]
    refine ⟨⟨hdata, ?_, fun b hb => ?_, fun h => ?_⟩, ?_⟩
    · rw [heop]
      exact hlast
    · simp only [stg2_op, hlast, Bool.false_eq_true, if_false, heop]
      rw [BitVec.getLsbD_allOnes]
      exact decide_eq_true hb
    · rw [heop] at h
      cases h
    · simp [aux_ft_ff_pop, hlast]

/-! ## One cycle -/

/-- A written row with the index that it gets. -/
def stored (i : H2cBufIn w) (s : H2cBuf w) : List (BufRow w × Nat) :=
  if i.dm_buf_wr then [(i.row, s.buf_ptrs.wr_ptr.idx)] else []

theorem in_pl1_step (h : Inv p s) :
    in_pl1 (step p i s) + (leaves s).toNat = in_pl1 s + s.pl0_op_valid.toNat := by
  have hovf := h.ovf
  unfold in_pl1 leaves
  simp only [step, stg1_op_valid, stg1_op_ovf]
  cases hstall : op_stall s <;> cases hpl0 : s.pl0_op_valid <;> cases hpl1 : s.pl1_op_ovf <;>
    cases s.pl1_op_valid <;> simp_all

theorem raw_held_length :
    (raw_held p s).length =
      in_pl1 s + s.pl0_op_valid.toNat + s.buf_ptrs.count p.BUF_DEPTH := by
  unfold raw_held in_pl1 shown
  rw [List.length_append, RamPtrs.contents_length]
  cases s.pl1_op_valid <;> cases s.pl1_op_ovf <;> cases s.pl0_op_valid <;> simp

/-- The rows that stay, after one may have left. -/
def stay (s : H2cBuf w) (rows : List (BufRow w × Nat)) : List (BufRow w × Nat) :=
  if leaves s then rows.tail else rows

theorem stay_take (h : Inv p s) :
    (stay s rows).take (in_pl1 (step p i s)) =
      stay s (rows.take (in_pl1 s + s.pl0_op_valid.toNat)) := by
  have hin := in_pl1_step (i := i) h
  rw [← hin]
  unfold stay
  cases hleaves : leaves s with
  | false => simp
  | true => cases rows <;> simp

theorem stay_length (h : Inv p s) (ht : Track p s rows) :
    (stay s rows).length = in_pl1 (step p i s) + s.buf_ptrs.count p.BUF_DEPTH := by
  have hin := in_pl1_step (i := i) h
  have hlen := congrArg List.length ht.raw
  rw [raw_held_length, List.length_map] at hlen
  unfold stay
  cases hleaves : leaves s with
  | false =>
    rw [hleaves, Bool.toNat_false] at hin
    simp only [Bool.false_eq_true, if_false]
    omega
  | true =>
    rw [hleaves, Bool.toNat_true] at hin
    simp only [if_true, List.length_tail]
    omega

theorem leaves_of_pop (h : aux_ft_ff_pop s) : leaves s := by
  unfold aux_ft_ff_pop at h
  simp only [Bool.and_eq_true] at h
  simp [leaves, h.1.1.2, h.2]

/-- No row with the index of the one that leaves is behind it and next to end a packet, while its
record is there. -/
def Distinct (s : H2cBuf w) (rows : List (BufRow w × Nat)) : Prop :=
  leaves s → s.AUX_FT_FIFO.ft_valid → ∀ r rest q qs, rows = r :: rest → r.1.eop = false →
    eops rest = q :: qs → q.2 ≠ r.2

theorem eops_stay (h : Inv p s) (ht : Track p s rows) (hclear : Distinct s rows) :
    (if aux_ft_ff_pop s then s.AUX_FT_FIFO.ft0.toList else []) ++ (eops (stay s rows)).map rec_of =
      (eops rows).map rec_of := by
  unfold stay
  cases hleaves : leaves s with
  | false =>
    have hpop : aux_ft_ff_pop s = false := by
      cases hpop : aux_ft_ff_pop s with
      | false => rfl
      | true => rw [leaves_of_pop hpop] at hleaves; exact hleaves
    rw [hpop]
    rfl
  | true =>
    obtain ⟨r, rest, rfl, -⟩ := head_of_leaves ht hleaves
    have hpop := (stg2_shows h ht hleaves
      fun hvalid heop q qs => hclear hleaves hvalid r rest q qs rfl heop).2
    cases heop : r.1.eop with
    | true =>
      rw [hpop, heop, valid_of_eop h ht hleaves heop, eops_cons_eop heop]
      rfl
    | false =>
      rw [hpop, heop, eops_cons_other heop]
      rfl

theorem map_eops (rows : List (BufRow w × Nat)) :
    (rows.map Prod.fst).filter BufRow.eop = (eops rows).map Prod.fst := List.filter_map ..

theorem eops_le_of_sublist {rows rows' : List (BufRow w × Nat)} (h : rows.Sublist rows') :
    (eops rows).length ≤ (eops rows').length := (h.filter _).length_le

theorem track_idle (h : Inv p s) (hmay : May i s) (ht : Track p s rows) (hclear : Distinct s rows)
    (hidle : aux_ram_pop s = false) (hft1 : (step p i s).AUX_FT_FIFO.ft1 = none) :
    (eops ((stay s rows ++ stored i s).take
      (in_pl1 (step p i s) + (step p i s).pl0_op_valid.toNat))).length ≤
        (step p i s).AUX_FT_FIFO.flops.length := by
  have hempty := FtFifo.empty_of_idle h.AUX_FT_FIFO valid_of_pop hidle hft1
  have hcount : s.aux_ptrs.count p.BUF_AUX_DEPTH = 0 := by
    rw [h.aux_ptrs.empty] at hempty
    exact of_decide_eq_true hempty
  -- With an empty RAM, the records left are those in the flops and the one that is written now.
  have haux := congrArg List.length (aux_step h hmay)
  rw [ht.aux, ← eops_stay h ht hclear, List.append_assoc, List.length_append, List.length_append,
    List.length_append, List.length_map] at haux
  have hnew : (if aux_ram_wr i then [aux_ram_wdata i s] else []).length = (aux_ram_wr i).toNat := by
    cases aux_ram_wr i <;> rfl
  have hheld : (aux_held p (step p i s)).length =
      (step p i s).AUX_FT_FIFO.flops.length + (aux_ram_wr i).toNat := by
    have hptrs := (RamPtrs.ok_step h.aux_ptrs hmay.aux
      fun h : s.AUX_FT_FIFO.ram_pop _ (aux_ft_ff_pop s) => RamFifo.not_empty_of_pop h).2
    change _ + (aux_ram_pop s).toNat = _ at hptrs
    rw [hidle, hcount, Bool.toNat_false] at hptrs
    unfold aux_held RamFifo.held FtFifo.flight
    rw [List.length_append, List.length_append, RamPtrs.contents_length]
    change _ + (if aux_ram_pop s then [_] else []).length +
      (s.aux_ptrs.step p.BUF_AUX_DEPTH (aux_ram_wr i) (aux_ram_pop s)).count p.BUF_AUX_DEPTH = _
    rw [hidle]
    change (s.aux_ptrs.step p.BUF_AUX_DEPTH (aux_ram_wr i) (aux_ram_pop s)).count _ + 0 = _ at hptrs
    rw [hidle] at hptrs
    simp only [Bool.false_eq_true, if_false, List.length_nil]
    omega
  have hstay : (eops (stay s rows)).length = (step p i s).AUX_FT_FIFO.flops.length := by
    omega
  have hrd : (step p i s).pl0_op_valid.toNat ≤ s.buf_ptrs.count p.BUF_DEPTH := by
    change (buf_rd_en s).toNat ≤ _
    cases hrd : buf_rd_en s with
    | false => simp
    | true =>
      have hne := not_empty_of_rd hrd
      rw [h.buf_ptrs.empty, decide_eq_false_iff_not] at hne
      rw [Bool.toNat_true]
      omega
  have hlen := stay_length (i := i) h ht
  rw [List.take_append_of_le_length (by omega), ← hstay]
  exact eops_le_of_sublist (List.take_sublist _ _)

theorem track_starved (h : Inv p s) (ht : Track p s rows) (hclear : Distinct s rows)
    (hft0 : (step p i s).AUX_FT_FIFO.ft0 = none) :
    eops ((stay s rows ++ stored i s).take (in_pl1 (step p i s))) = [] := by
  obtain ⟨hpop_q, hft1, hnone⟩ := FtFifo.idle_of_starved h.AUX_FT_FIFO valid_of_pop hft0
  have hidle := ht.idle hpop_q hft1
  have hlen := stay_length (i := i) h ht
  rw [List.take_append_of_le_length (by omega), stay_take h]
  unfold stay
  cases hleaves : leaves s with
  | false =>
    have hft0 : s.AUX_FT_FIFO.ft0 = none := by
      rcases hnone with hnone | hpop
      · exact hnone
      · rw [leaves_of_pop hpop] at hleaves
        cases hleaves
    simp only [FtFifo.flops, hft0, hft1, Option.toList_none, List.append_nil, List.length_nil,
      Nat.le_zero_eq, List.length_eq_zero_iff] at hidle
    exact hidle
  | true =>
    obtain ⟨r, rest, rfl, -⟩ := head_of_leaves ht hleaves
    have hpop := (stg2_shows h ht hleaves
      fun hvalid heop q qs => hclear hleaves hvalid r rest q qs rfl heop).2
    have hin := in_pl1_step (i := i) h
    rw [hleaves, Bool.toNat_true] at hin
    rw [← hin, List.take_succ_cons] at hidle ⊢
    simp only [if_true, List.tail_cons]
    cases heop : r.1.eop with
    | true =>
      rw [eops_cons_eop heop, FtFifo.flops, valid_of_eop h ht hleaves heop, hft1] at hidle
      simpa using hidle
    | false =>
      rw [heop] at hpop
      have hft0 : s.AUX_FT_FIFO.ft0 = none := by
        rcases hnone with hnone | htrue
        · exact hnone
        · rw [hpop] at htrue
          cases htrue
      rw [eops_cons_other heop, FtFifo.flops, hft0, hft1] at hidle
      simpa using hidle

theorem track_step (h : Inv p s) (hmay : May i s) (ht : Track p s rows) (hclear : Distinct s rows) :
    Track p (step p i s) (stay s rows ++ stored i s) where
  raw := by
    have hraw := raw_step h hmay
    rw [ht.raw] at hraw
    have hnew : (if i.dm_buf_wr then [(⟨i.row.data, s.buf_ptrs.wr_ptr.idx⟩ : OpRow)] else []) =
        (stored i s).map raw_of := by
      unfold stored
      cases i.dm_buf_wr <;> rfl
    rw [hnew] at hraw
    unfold stay
    rw [List.map_append]
    cases hleaves : leaves s with
    | false =>
      rw [hleaves, shown_false, List.nil_append] at hraw
      exact hraw.symm
    | true =>
      obtain ⟨r, rest, rfl, -⟩ := head_of_leaves ht hleaves
      rw [hleaves, shown_true, List.map_cons, List.cons_append, List.singleton_append] at hraw
      exact (List.cons.inj hraw).2.symm
  aux := by
    have haux := aux_step h hmay
    rw [ht.aux, ← eops_stay h ht hclear, List.append_assoc, List.append_cancel_left_eq] at haux
    have hnew : (if aux_ram_wr i then [aux_ram_wdata i s] else []) =
        (eops (stored i s)).map rec_of := by
      unfold stored aux_ram_wr
      cases i.dm_buf_wr with
      | false => rfl
      | true => cases heop : i.row.eop <;> simp [eops, heop, rec_of, aux_ram_wdata]
    rw [← haux, hnew, eops_append, List.map_append]
  idle hidle hft1 := track_idle h hmay ht hclear hidle hft1
  starved _ hft0 := track_starved h ht hclear hft0

/-! ## Whole runs -/

variable (p) (ins : Nat → H2cBufIn w)

/-- Of the rows that have not left, the first that ends a packet, if its record is there, is not a
multiple of `BUF_DEPTH` behind the one that leaves. -/
def Clear (n : Nat) : Prop :=
  leaves ((circuit p).state ins n) → aux_out_valid ((circuit p).state ins n) → ∀ k,
    (((circuit p).passed ins written n).drop
      ((circuit p).passed ins (fun _ s => marked s) n).length).findIdx? (fun r => r.eop) = some k →
    k = 0 ∨ k % p.BUF_DEPTH ≠ 0

/-- Rows that wait before the comparison: their data in one RAM, and in the other what belongs to the
last rows among them. -/
structure Waits (s : H2cBuf w) (rows : List (BufRow w)) : Prop where
  data : rows.map BufRow.data = (raw_held p s).map OpRow.data
  recs : (rows.filter BufRow.eop).map (fun r => (r.user, r.num_bytes_minus1)) =
    (aux_held p s).map fun r => (r.user, r.num_bytes_minus1)

structure Kept (n : Nat) : Prop where
  shows : List.Forall₂ Shows
    (((circuit p).passed ins written n).take ((circuit p).passed ins sent n).length)
    ((circuit p).passed ins sent n)
  /-- All that was written is sent, marked and on its way out, or waits. -/
  held : ∃ out inside, (circuit p).passed ins written n = out ++ inside ∧
    List.Forall₂ Shows out ((circuit p).passed ins sent n ++ out_held ((circuit p).state ins n)) ∧
    Waits p ((circuit p).state ins n) inside

variable {p ins}

theorem stored_map (n : Nat) :
    ((circuit p).passed ins stored n).map Prod.fst = (circuit p).passed ins written n := by
  rw [Circuit.passed_map]
  congr 1
  funext i s
  unfold stored written
  cases i.dm_buf_wr <;> rfl

theorem wr_ptr_state (n : Nat) : ((circuit p).state ins n).buf_ptrs.wr_ptr.idx =
    ((circuit p).passed ins stored n).length % p.BUF_DEPTH := by
  induction n with
  | zero => exact (Nat.zero_mod _).symm
  | succ n ih =>
    rw [Circuit.passed_succ, Circuit.state_succ, List.length_append]
    change (if (ins n).dm_buf_wr then _ else _ : Ptr).idx = _
    unfold stored
    cases (ins n).dm_buf_wr with
    | false => exact ih
    | true => exact Ptr.next_idx p.buf_pos ih

variable (ins) in
theorem stored_idx (n m : Nat) (r : BufRow w × Nat)
    (h : ((circuit p).passed ins stored n)[m]? = some r) : r.2 = m % p.BUF_DEPTH := by
  induction n with
  | zero => simp at h
  | succ n ih =>
    rw [Circuit.passed_succ] at h
    rcases Nat.lt_or_ge m ((circuit p).passed ins stored n).length with hlt | hge
    · rw [List.getElem?_append_left hlt] at h
      exact ih h
    · rw [List.getElem?_append_right hge] at h
      cases hwr : (ins n).dm_buf_wr with
      | false => simp [stored, hwr] at h
      | true =>
        have hnew : stored (ins n) ((circuit p).state ins n) =
            [((ins n).row, ((circuit p).state ins n).buf_ptrs.wr_ptr.idx)] := if_pos hwr
        rw [hnew, List.getElem?_singleton] at h
        split at h
        case isFalse => cases h
        case isTrue hm =>
          cases h
          rw [show m = ((circuit p).passed ins stored n).length by omega]
          exact wr_ptr_state n

theorem findIdx_of_eops {rest qs : List (BufRow w × Nat)} {q : BufRow w × Nat}
    (h : eops rest = q :: qs) :
    ∃ k, rest[k]? = some q ∧ (rest.map Prod.fst).findIdx? (fun r => r.eop) = some k := by
  induction rest with
  | nil => cases h
  | cons r rest ih =>
    cases heop : r.1.eop with
    | true =>
      rw [eops_cons_eop heop] at h
      obtain ⟨rfl, -⟩ := List.cons.inj h
      exact ⟨0, rfl, by simp [List.findIdx?_cons, heop]⟩
    | false =>
      rw [eops_cons_other heop] at h
      obtain ⟨k, hk, hfind⟩ := ih h
      exact ⟨k + 1, hk, by simp [List.findIdx?_cons, heop, hfind]⟩

theorem distinct_of_clear {n : Nat} (hclear : Clear p ins n) {gone rows : List (BufRow w × Nat)}
    (hstored : (circuit p).passed ins stored n = gone ++ rows)
    (hlen : gone.length = ((circuit p).passed ins (fun _ s => marked s) n).length) :
    Distinct ((circuit p).state ins n) rows := by
  rintro hleaves hvalid r rest q qs rfl heop hqs hsame
  obtain ⟨k, hk, hfind⟩ := findIdx_of_eops hqs
  have hdrop : ((circuit p).passed ins written n).drop gone.length = (r :: rest).map Prod.fst := by
    rw [← stored_map, hstored, List.map_append, List.drop_left' (List.length_map _)]
  have hr : r.2 = gone.length % p.BUF_DEPTH := by
    refine stored_idx ins n gone.length r ?_
    rw [hstored, List.getElem?_append_right (Nat.le_refl _), Nat.sub_self]
    rfl
  have hq : q.2 = (gone.length + (k + 1)) % p.BUF_DEPTH := by
    refine stored_idx ins n (gone.length + (k + 1)) q ?_
    rw [hstored, List.getElem?_append_right (by omega), Nat.add_sub_cancel_left]
    exact hk
  have hmod : (k + 1) % p.BUF_DEPTH = 0 := by
    rw [hq, hr] at hsame
    have hcancel : (k + 1) % p.BUF_DEPTH = 0 % p.BUF_DEPTH :=
      Nat.ModEq.add_left_cancel' gone.length hsame
    rw [hcancel, Nat.zero_mod]
  rcases hclear hleaves hvalid (k + 1) (by
    rw [← hlen, hdrop]
    simp [List.findIdx?_cons, heop, hfind]) with hzero | hne
  · omega
  · exact hne hmod

/-- Of the rows written so far some have left, marked as they were written, and the others are
inside with their records. -/
theorem track_state (hmay : ∀ n, May (ins n) ((circuit p).state ins n))
    (hclear : ∀ n, Clear p ins n) (n : Nat) :
    Inv p ((circuit p).state ins n) ∧ ∃ gone rows,
      (circuit p).passed ins stored n = gone ++ rows ∧ Track p ((circuit p).state ins n) rows ∧
      List.Forall₂ Shows (gone.map Prod.fst) ((circuit p).passed ins (fun _ s => marked s) n) := by
  induction n with
  | zero =>
    refine ⟨inv_reset, [], [], rfl, ⟨?_, RamFifo.held_start, fun _ _ => Nat.zero_le _, nofun⟩, .nil⟩
    simp [circuit, raw_held, RamPtrs.contents, RamPtrs.start, Ring.contents_empty]
  | succ n ih =>
    obtain ⟨hinv, gone, rows, hstored, ht, hshows⟩ := ih
    have hlen : gone.length = ((circuit p).passed ins (fun _ s => marked s) n).length := by
      rw [← hshows.length_eq, List.length_map]
    have hdistinct := distinct_of_clear (hclear n) hstored hlen
    have ht' := track_step hinv (hmay n) ht hdistinct
    refine ⟨inv_step hinv (hmay n), ?_⟩
    rw [Circuit.passed_succ, Circuit.passed_succ, Circuit.state_succ, hstored]
    cases hleaves : leaves ((circuit p).state ins n) with
    | false =>
      have hstay : stay ((circuit p).state ins n) rows = rows := by simp [stay, hleaves]
      have hnone : marked ((circuit p).state ins n) = [] := by simp [marked, hleaves]
      rw [hstay] at ht'
      rw [hnone, List.append_nil]
      exact ⟨gone, _, List.append_assoc .., ht', hshows⟩
    | true =>
      obtain ⟨r, rest, rfl, -⟩ := head_of_leaves ht hleaves
      have hstay : stay ((circuit p).state ins n) (r :: rest) = rest := by simp [stay, hleaves]
      have hone : marked ((circuit p).state ins n) = [stg2_op ((circuit p).state ins n)] := by
        simp [marked, hleaves]
      rw [hstay] at ht'
      rw [hone]
      have hmark := (stg2_shows hinv ht hleaves
        fun hvalid heop q qs => hdistinct hleaves hvalid r rest q qs rfl heop).1
      refine ⟨gone ++ [r], _, by simp, ht', ?_⟩
      rw [List.map_append]
      exact List.rel_append hshows (.cons hmark .nil)

theorem Track.waits (h : Track p s rows) : Waits p s (rows.map Prod.fst) where
  data := by
    rw [h.raw, List.map_map, List.map_map]
    rfl
  recs := by
    rw [h.aux, map_eops, List.map_map, List.map_map]
    rfl

/-- As long as no row leaves while the record of a row `BUF_DEPTH` later is the next. -/
theorem kept_of_clear (p : H2cBufParams) (ins : Nat → H2cBufIn w)
    (hmay : ∀ n, May (ins n) ((circuit p).state ins n)) (hclear : ∀ n, Clear p ins n) (n : Nat) :
    Kept p ins n := by
  obtain ⟨-, gone, rows, hstored, ht, hshows⟩ := track_state hmay hclear n
  have hout : (circuit p).passed ins (fun _ s => marked s) n =
      (circuit p).passed ins sent n ++ out_held ((circuit p).state ins n) :=
    Circuit.passed_eq (P := fun _ => True) (m := fun _ _ => True) out_held (fun _ => trivial)
      (fun _ => trivial) rfl (fun _ _ _ _ => out_step) n
  have hwritten : (circuit p).passed ins written n = gone.map Prod.fst ++ rows.map Prod.fst := by
    rw [← stored_map, hstored, List.map_append]
  rw [hout] at hshows
  refine ⟨?_, gone.map Prod.fst, rows.map Prod.fst, hwritten, hshows, ht.waits⟩
  have hlen := hshows.length_eq
  rw [List.length_append] at hlen
  have htake := List.forall₂_take ((circuit p).passed ins sent n).length hshows
  rw [List.take_left' rfl] at htake
  rw [hwritten, List.take_append_of_le_length (by omega)]
  exact htake

theorem clear_of_short {n : Nat} (h : ∀ j,
    j + p.BUF_DEPTH ≤ ((circuit p).passed ins written n).length →
      ∃ r ∈ (((circuit p).passed ins written n).drop j).take p.BUF_DEPTH, r.eop) :
    Clear p ins n := by
  intro _ _ k hfind
  obtain ⟨hk, -, hbefore⟩ := List.findIdx?_eq_some_iff_getElem.mp hfind
  have hlt : k < p.BUF_DEPTH := by
    by_contra hge
    rw [List.length_drop] at hk
    obtain ⟨r, hr, heop⟩ := h ((circuit p).passed ins (fun _ s => marked s) n).length (by omega)
    obtain ⟨j, hj, rfl⟩ := List.mem_iff_getElem.mp hr
    rw [List.length_take] at hj
    rw [List.getElem_take] at heop
    exact hbefore j (by omega) heop
  rcases Nat.eq_zero_or_pos k with hzero | hpos
  · exact .inl hzero
  · rw [Nat.mod_eq_of_lt hlt]
    exact .inr (by omega)

theorem rows_pos : 0 < 512 := by decide

theorem recs_pos : 0 < 64 := by decide

def default_params : H2cBufParams := ⟨512, 64, rows_pos, recs_pos⟩

/-- A packet of two rows. -/
def two_rows (n : Nat) : H2cBufIn 64 where
  dm_buf_wr := n < 2
  row := ⟨BitVec.ofNat 512 n, n = 1, 7, 9⟩
  axis_buf_ready := true

theorem two_rows_length (n : Nat) :
    ((circuit default_params).passed two_rows written n).length ≤ 2 := by
  have hlen : ((circuit default_params).passed two_rows written n).length = min n 2 := by
    induction n with
    | zero => rfl
    | succ n ih =>
      rw [Circuit.passed_succ, List.length_append, ih]
      unfold written two_rows
      by_cases hn : n < 2 <;> simp [hn] <;> omega
  omega

theorem kept_two_rows : (∀ n, Kept default_params two_rows n) ∧
    ((circuit default_params).passed two_rows sent 8).map AxisRow.last = [false, true] := by
  refine ⟨kept_of_clear default_params two_rows (fun n => ?_) fun n => ?_, by decide⟩
  · have hlt : ∀ n < 2, ((circuit default_params).state two_rows n).buf_ptrs.full = false ∧
        ((circuit default_params).state two_rows n).aux_ptrs.full = false := by
      decide
    refine ⟨fun hwr => (hlt n (of_decide_eq_true hwr)).1, fun hwr => (hlt n ?_).2⟩
    simp only [aux_ram_wr, Bool.and_eq_true] at hwr
    exact of_decide_eq_true hwr.1
  · refine clear_of_short fun j hj => ?_
    have hle := two_rows_length n
    have hdepth : default_params.BUF_DEPTH = 512 := rfl
    omega

/-- A packet of 517 rows. The stream is stalled until all of it is written, with row 4 in the
comparison when the record of row 516 arrives. -/
def long_packet (n : Nat) : H2cBufIn 64 where
  dm_buf_wr := n < 517
  row := ⟨BitVec.ofNat 512 n, n = 516, 7, 9⟩
  axis_buf_ready := 525 ≤ n

theorem long_packet_may (n : Nat) :
    May (long_packet n) ((circuit default_params).state long_packet n) := by
  have hlt : ∀ n < 517, ((circuit default_params).state long_packet n).buf_ptrs.full = false ∧
      ((circuit default_params).state long_packet n).aux_ptrs.full = false := by
    decide +kernel
  refine ⟨fun hwr => (hlt n (of_decide_eq_true hwr)).1, fun hwr => (hlt n ?_).2⟩
  simp only [aux_ram_wr, Bool.and_eq_true] at hwr
  exact of_decide_eq_true hwr.1

theorem last_of_shows {rows : List (BufRow w)} {outs : List (AxisRow w)}
    (h : List.Forall₂ Shows rows outs) : outs.map AxisRow.last = rows.map BufRow.eop := by
  induction h with
  | nil => rfl
  | cons hshow _ ih => rw [List.map_cons, List.map_cons, hshow.last, ih]

theorem not_kept : ¬ ∀ ins : Nat → H2cBufIn 64,
    (∀ n, May (ins n) ((circuit default_params).state ins n)) →
      ∀ n, Kept default_params ins n := by
  intro h
  have hlast := last_of_shows (h long_packet long_packet_may 532).shows
  exact absurd hlast (by decide +kernel)

end H2cBuf

end AwsFpga.Rtl
