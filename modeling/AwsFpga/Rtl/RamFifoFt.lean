import AwsFpga.Rtl.Blocks

/-!
# A FIFO in a RAM (`ram_fifo_ft.sv`)

With a flow-through FIFO behind the RAM it looks like a FIFO of flops to who pops:
an entry is shown three cycles after its push, and not earlier.
-/

open Lib

namespace AwsFpga.Rtl

/-- `PIPELINE` is 0: the RAM is read in one cycle. -/
structure RamFifoFt (α : Type) where
  wptr : Ptr
  rptr : Ptr
  FIFO_RAM : Nat → α
  ram_rdata : α
  FT_FIFO : FtFifo α

namespace RamFifoFt

variable {α : Type} (NUM_LOC : Nat) (push : Bool) (push_data : α) (pop : Bool) (f : RamFifoFt α)

/-! ## The wires -/

def ptr_diff : Nat := Ring.count NUM_LOC f.wptr f.rptr

def fifo_full : Bool := ptr_diff NUM_LOC f = NUM_LOC

def ram_fifo_empty : Bool := ptr_diff NUM_LOC f = 0

def wmark (WATERMARK : Nat) : Bool := WATERMARK < ptr_diff NUM_LOC f

def ram_pop : Bool := f.FT_FIFO.ram_pop (ram_fifo_empty NUM_LOC f) pop

def valid : Bool := f.FT_FIFO.ft_valid

/-- It matters only while `valid` is set. -/
def pop_data (zero : α) : α := f.FT_FIFO.ft0.getD zero

/-! ## The registers -/

def start (zero : α) : RamFifoFt α := ⟨⟨0, false⟩, ⟨0, false⟩, fun _ => zero, zero, .start⟩

def step : RamFifoFt α where
  wptr := if push && !fifo_full NUM_LOC f then f.wptr.next NUM_LOC else f.wptr
  rptr := if ram_pop NUM_LOC pop f then f.rptr.next NUM_LOC else f.rptr
  FIFO_RAM :=
    if push && !fifo_full NUM_LOC f then Function.update f.FIFO_RAM f.wptr.idx push_data
    else f.FIFO_RAM
  ram_rdata := f.FIFO_RAM f.rptr.idx
  FT_FIFO := f.FT_FIFO.step (ram_fifo_empty NUM_LOC f) f.ram_rdata pop

/-! ## What it holds -/

/-- The pointers with the flags they stand for. -/
def ptrs : RamPtrs := ⟨f.wptr, f.rptr, ram_fifo_empty NUM_LOC f, fifo_full NUM_LOC f⟩

def held : List α := RamFifo.held NUM_LOC f.FIFO_RAM f.ram_rdata (ptrs NUM_LOC f) f.FT_FIFO

structure Ok : Prop where
  ring : Ring.Ok NUM_LOC f.wptr f.rptr
  FT_FIFO : f.FT_FIFO.Ok

variable {NUM_LOC push push_data pop f}

theorem ok_start {zero : α} (h : 0 < NUM_LOC) : Ok NUM_LOC (start zero) :=
  ⟨Ring.ok_start h, FtFifo.ok_start⟩

theorem held_start {zero : α} : held NUM_LOC (start zero) = [] := by
  simp [held, start, ptrs, RamFifo.held, FtFifo.start, FtFifo.flops, FtFifo.flight, RamPtrs.contents,
    Ring.contents_empty]

theorem ptrs_ok (h : Ok NUM_LOC f) : (ptrs NUM_LOC f).Ok NUM_LOC := ⟨h.ring, rfl, rfl⟩

theorem write_eq (hpush : push → fifo_full NUM_LOC f = false) :
    (push && !fifo_full NUM_LOC f) = push := by
  cases push with
  | false => rfl
  | true => simp [hpush rfl]

variable (pop) in
theorem ptrs_ok_step (h : Ok NUM_LOC f) (hpush : push → fifo_full NUM_LOC f = false) :
    ((ptrs NUM_LOC f).step NUM_LOC push (ram_pop NUM_LOC pop f)).Ok NUM_LOC ∧
      ((ptrs NUM_LOC f).step NUM_LOC push (ram_pop NUM_LOC pop f)).count NUM_LOC +
        (ram_pop NUM_LOC pop f).toNat = ptr_diff NUM_LOC f + push.toNat :=
  RamPtrs.ok_step (ptrs_ok h) hpush (@RamFifo.not_empty_of_pop α (ptrs NUM_LOC f) f.FT_FIFO pop)

variable (push_data pop) in
theorem ptrs_step (h : Ok NUM_LOC f) (hpush : push → fifo_full NUM_LOC f = false) :
    ptrs NUM_LOC (step NUM_LOC push push_data pop f) =
      (ptrs NUM_LOC f).step NUM_LOC push (ram_pop NUM_LOC pop f) := by
  have hok := (ptrs_ok_step pop h hpush).1
  have hwptr : (step NUM_LOC push push_data pop f).wptr =
      ((ptrs NUM_LOC f).step NUM_LOC push (ram_pop NUM_LOC pop f)).wr_ptr := by
    change (if push && !fifo_full NUM_LOC f then _ else _) = _
    rw [write_eq hpush]
    rfl
  rw [hok.eq_mk, ← hwptr]
  rfl

theorem ok_step (h : Ok NUM_LOC f) (hpush : push → fifo_full NUM_LOC f = false)
    (hpop : pop → f.valid) : Ok NUM_LOC (step NUM_LOC push push_data pop f) where
  ring := by
    have hok := (ptrs_ok_step pop h hpush).1
    rw [← ptrs_step push_data pop h hpush] at hok
    exact hok.ring
  FT_FIFO := FtFifo.ok_step h.FT_FIFO hpop

theorem held_step (h : Ok NUM_LOC f) (hpush : push → fifo_full NUM_LOC f = false)
    (hpop : pop → f.valid) :
    held NUM_LOC f ++ (if push then [push_data] else []) =
      (if pop then f.FT_FIFO.ft0.toList else []) ++
        held NUM_LOC (step NUM_LOC push push_data pop f) := by
  have hstep := @RamFifo.held_step α NUM_LOC f.FIFO_RAM f.ram_rdata (ptrs NUM_LOC f) f.FT_FIFO push pop
    (f.FIFO_RAM f.rptr.idx) h.FT_FIFO (ptrs_ok h) hpush hpop push_data fun _ => rfl
  have hmem : (step NUM_LOC push push_data pop f).FIFO_RAM =
      RamPtrs.write push (ptrs NUM_LOC f) f.FIFO_RAM push_data := by
    change (if push && !fifo_full NUM_LOC f then _ else _) = _
    rw [write_eq hpush]
    rfl
  rw [held, held, hmem, ptrs_step push_data pop h hpush]
  exact hstep

theorem held_length : (held NUM_LOC f).length =
    f.FT_FIFO.flops.length + f.FT_FIFO.ram_pop_q.toNat + ptr_diff NUM_LOC f := by
  rw [held, RamFifo.held, List.length_append, List.length_append, RamPtrs.contents_length,
    FtFifo.flight_length]
  rfl

theorem held_head {a : α} (h : f.FT_FIFO.ft0 = some a) : ∃ rest, held NUM_LOC f = a :: rest := by
  refine ⟨f.FT_FIFO.ft1.toList ++ f.FT_FIFO.flight f.ram_rdata ++
    (ptrs NUM_LOC f).contents NUM_LOC f.FIFO_RAM, ?_⟩
  rw [held, RamFifo.held, FtFifo.flops, h]
  rfl

variable (push_data pop) in
theorem ptr_diff_step (h : Ok NUM_LOC f) (hpush : push → fifo_full NUM_LOC f = false) :
    ptr_diff NUM_LOC (step NUM_LOC push push_data pop f) ≤ ptr_diff NUM_LOC f + push.toNat := by
  have hcount := (ptrs_ok_step pop h hpush).2
  have hdiff : ptr_diff NUM_LOC (step NUM_LOC push push_data pop f) =
      ((ptrs NUM_LOC f).step NUM_LOC push (ram_pop NUM_LOC pop f)).count NUM_LOC := by
    rw [← ptrs_step push_data pop h hpush]
    rfl
  omega

theorem delay_step {popped pushed pushed_q pushed_qq : Nat} (h : Ok NUM_LOC f)
    (hpop : pop → f.valid) (hd : f.FT_FIFO.Delay popped pushed_q pushed_qq)
    (hall : popped + (held NUM_LOC f).length = pushed) :
    (step NUM_LOC push push_data pop f).FT_FIFO.Delay (popped + pop.toNat) pushed pushed_q :=
  FtFifo.delay_step h.FT_FIFO hpop hd (by rwa [held_length] at hall) rfl

end RamFifoFt

end AwsFpga.Rtl
