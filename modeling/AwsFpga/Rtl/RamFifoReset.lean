import AwsFpga.Lib.Queue
import AwsFpga.Lib.Ring
import AwsFpga.Rtl.FtFifos
import Mathlib.Data.BitVec

/-!
# A FIFO in a RAM, with its resets (`ram_fifo_ft.sv`)

Both settings of `PIPELINE`, with all registers. A reset clears the flow-through
FIFO, but neither the pointers of the RAM nor the reads that are on the way.
-/

open Lib

namespace AwsFpga.Rtl.RamFifoReset

variable {α : Type}

structure Params where
  PTR_WIDTH : Nat
  WATERMARK : Nat
  PIPELINE : Bool

namespace Params

variable (p : Params)

def NUM_LOC : Nat := 2 ^ p.PTR_WIDTH

/-- `READ_LATENCY_B`. -/
def latency : Nat := if p.PIPELINE then 2 else 1

def ft (α : Type) : FtModule α := if p.PIPELINE then ft_fifo_p else ft_fifo

end Params

structure In (α : Type) where
  rst_n : Bool
  push : Bool
  push_data : α
  pop : Bool

structure Regs (p : Params) (α : Type) where
  wptr : BitVec (p.PTR_WIDTH + 1)
  rptr : BitVec (p.PTR_WIDTH + 1)
  num_entries : BitVec (p.PTR_WIDTH + 1)
  empty : Bool
  free_entries : BitVec p.PTR_WIDTH
  oflow : Bool
  FIFO_RAM : Nat → α
  rddata_b : α
  rddata_b_q : α
  FT_FIFO : (p.ft α).Regs

variable {p : Params} (i : In α) (s : Regs p α)

/-! ## The wires -/

def ptr_diff : BitVec (p.PTR_WIDTH + 1) := s.wptr - s.rptr

def fifo_full : Bool := (ptr_diff s).toNat = p.NUM_LOC

def wmark : Bool := p.WATERMARK < (ptr_diff s).toNat

def ram_fifo_empty : Bool := ptr_diff s = 0#_

def ram_rdata : α := if p.PIPELINE then s.rddata_b_q else s.rddata_b

def ram_pop : Bool := (p.ft α).ram_pop i.rst_n (ram_fifo_empty s) i.pop s.FT_FIFO

def valid : Bool := ((p.ft α).ft0 s.FT_FIFO).isSome

/-- Its reset does not wait for the clock. -/
def oflow : Bool := if !i.rst_n then false else s.oflow

def num_entries_nxt : BitVec (p.PTR_WIDTH + 1) :=
  if !i.rst_n then 0#_
  else s.num_entries + BitVec.ofNat _ (i.push && !fifo_full s).toNat -
    BitVec.ofNat _ (i.pop && valid s).toNat

/-! ## The registers -/

def start (p : Params) (zero : α) : Regs p α where
  wptr := 0#_
  rptr := 0#_
  num_entries := 0#_
  empty := true
  free_entries := 0#_
  oflow := false
  FIFO_RAM := fun _ => zero
  rddata_b := zero
  rddata_b_q := zero
  FT_FIFO := (p.ft α).reset

def step : Regs p α where
  wptr := if i.push && !fifo_full s then s.wptr + 1#_ else s.wptr
  rptr := if ram_pop i s then s.rptr + 1#_ else s.rptr
  num_entries := num_entries_nxt i s
  empty := num_entries_nxt i s = 0#_
  free_entries := BitVec.ofNat _ p.NUM_LOC - (ptr_diff s).setWidth _
  oflow := if !i.rst_n then false else if i.push && fifo_full s then true else s.oflow
  FIFO_RAM :=
    if i.push && !fifo_full s then Function.update s.FIFO_RAM (s.wptr.toNat % p.NUM_LOC) i.push_data
    else s.FIFO_RAM
  rddata_b := s.FIFO_RAM (s.rptr.toNat % p.NUM_LOC)
  rddata_b_q := s.rddata_b
  FT_FIFO := (p.ft α).step i.rst_n (ram_fifo_empty s) (ram_rdata s) i.pop s.FT_FIFO

def ram_fifo (p : Params) (zero : α) : Circuit (In α) (Regs p α) where
  reset := start p zero
  step := step

/-! ## The pointers -/

/-- The address and the bit above it. -/
def ptr (w : BitVec (p.PTR_WIDTH + 1)) : Ptr :=
  ⟨w.toNat % p.NUM_LOC, decide (p.NUM_LOC ≤ w.toNat)⟩

theorem num_loc_pos (p : Params) : 0 < p.NUM_LOC := Nat.two_pow_pos _

theorem ptr_lt (w : BitVec (p.PTR_WIDTH + 1)) : w.toNat < 2 * p.NUM_LOC := by
  have hlt := w.isLt
  rwa [Nat.pow_succ, Nat.mul_comm] at hlt

theorem ptr_idx (w : BitVec (p.PTR_WIDTH + 1)) :
    w.toNat % p.NUM_LOC = if p.NUM_LOC ≤ w.toNat then w.toNat - p.NUM_LOC else w.toNat := by
  have hlt := ptr_lt w
  split
  case isTrue hle =>
    rw [Nat.mod_eq_sub_mod hle]
    exact Nat.mod_eq_of_lt (by omega)
  case isFalse hlow => exact Nat.mod_eq_of_lt (by omega)

theorem ptr_succ (w : BitVec (p.PTR_WIDTH + 1)) :
    (w + 1#_).toNat = if w.toNat + 1 = 2 * p.NUM_LOC then 0 else w.toNat + 1 := by
  have hlt := ptr_lt w
  have hpow : 2 ^ (p.PTR_WIDTH + 1) = 2 * p.NUM_LOC := by rw [Nat.pow_succ, Nat.mul_comm]; rfl
  rw [BitVec.toNat_add, BitVec.toNat_ofNat, Nat.add_mod_mod, hpow]
  split
  case isTrue hend => rw [hend, Nat.mod_self]
  case isFalse hne => exact Nat.mod_eq_of_lt (by omega)

theorem ptr_next (w : BitVec (p.PTR_WIDTH + 1)) : ptr (w + 1#_) = (ptr w).next p.NUM_LOC := by
  have hlt := ptr_lt w
  have hpos := num_loc_pos p
  have hidx := ptr_idx w
  have hidx' := ptr_idx (w + 1#_)
  have hsucc := ptr_succ w
  unfold Ptr.next ptr
  simp only
  generalize p.NUM_LOC = N at *
  split
  case isTrue h =>
    rw [Ptr.mk.injEq, ← decide_not, decide_eq_decide]
    constructor <;> (split at hidx <;> split at hidx' <;> split at hsucc <;> omega)
  case isFalse h =>
    rw [Ptr.mk.injEq, decide_eq_decide]
    constructor <;> (split at hidx <;> split at hidx' <;> split at hsucc <;> omega)

theorem ptr_diff_toNat (h : Ring.Ok p.NUM_LOC (ptr s.wptr) (ptr s.rptr)) :
    (ptr_diff s).toNat = Ring.count p.NUM_LOC (ptr s.wptr) (ptr s.rptr) := by
  have hw := ptr_lt s.wptr
  have hr := ptr_lt s.rptr
  have hpow : 2 ^ (p.PTR_WIDTH + 1) = 2 * p.NUM_LOC := by rw [Nat.pow_succ, Nat.mul_comm]; rfl
  have hwi := ptr_idx s.wptr
  have hri := ptr_idx s.rptr
  obtain ⟨hwlt, hrlt, hsame, hwrapped⟩ := h
  unfold ptr_diff Ring.count
  rw [BitVec.toNat_sub, hpow]
  unfold ptr at *
  simp only [decide_eq_decide, ne_eq] at *
  generalize p.NUM_LOC = N at *
  have hmod : ∀ d, d < 2 * N → (d + 2 * N) % (2 * N) = d := by
    intro d hd
    rw [Nat.add_mod_right]
    exact Nat.mod_eq_of_lt hd
  split
  case isTrue heq =>
    have hle := hsame heq
    have hsum : 2 * N - s.rptr.toNat + s.wptr.toNat =
        s.wptr.toNat % N - s.rptr.toNat % N + 2 * N := by
      split at hwi <;> split at hri <;> omega
    rw [hsum, hmod _ (by omega)]
  case isFalse hne =>
    have hle := hwrapped hne
    by_cases hhigh : N ≤ s.wptr.toNat
    · have hsum : 2 * N - s.rptr.toNat + s.wptr.toNat =
          N + s.wptr.toNat % N - s.rptr.toNat % N + 2 * N := by
        split at hwi <;> split at hri <;> omega
      rw [hsum, hmod _ (by omega)]
    · have hsum : 2 * N - s.rptr.toNat + s.wptr.toNat =
          N + s.wptr.toNat % N - s.rptr.toNat % N := by
        split at hwi <;> split at hri <;> omega
      rw [hsum]
      exact Nat.mod_eq_of_lt (by omega)

/-- The pointers with the flags they stand for. -/
def ptrs : RamPtrs := ⟨ptr s.wptr, ptr s.rptr, ram_fifo_empty s, fifo_full s⟩

def write : Bool := i.push && !fifo_full s

theorem ptrs_ok (h : Ring.Ok p.NUM_LOC (ptr s.wptr) (ptr s.rptr)) : (ptrs s).Ok p.NUM_LOC where
  ring := h
  empty := by
    change decide (ptr_diff s = 0#_) = decide (Ring.count p.NUM_LOC (ptr s.wptr) (ptr s.rptr) = 0)
    rw [← ptr_diff_toNat s h, decide_eq_decide]
    exact BitVec.toNat_inj.symm.trans (by rw [BitVec.toNat_ofNat, Nat.zero_mod])
  full := by
    change decide ((ptr_diff s).toNat = p.NUM_LOC) = _
    rw [ptr_diff_toNat s h]
    rfl

theorem write_full (h : write i s = true) : (ptrs s).full = false := by
  unfold write at h
  rw [Bool.and_eq_true, Bool.not_eq_true'] at h
  exact h.2

/-- How a flow-through FIFO comes out of a reset, and what it does with a pop of nothing. -/
structure Restarts (M : FtModule α) (L : Nat) (R : M.Regs → List (Option α) → Prop) : Prop where
  in_flight : ∀ {f reads}, R f reads → M.in_flight f = (reads.filterMap id).length
  ram_pop : ∀ {f} {rst_n pop : Bool}, M.ram_pop rst_n true pop f = false
  flops : ∀ {f} {empty pop : Bool} {data : α}, M.flops (M.step false empty data pop f) = []
  reset : ∀ {f} {empty pop : Bool} {data : α}, M.in_flight (M.step false empty data pop f) = 0 →
    R (M.step false empty data pop f) (List.replicate L none)
  pop : ∀ {f reads} {pop : Bool} (empty : Bool) (data : α), R f reads → (pop → M.early f = false) →
    M.step true empty data pop f = M.step true empty data (pop && (M.ft0 f).isSome) f ∧
      M.ram_pop true empty pop f = M.ram_pop true empty (pop && (M.ft0 f).isSome) f

theorem ft_fifo_restarts : Restarts (ft_fifo : FtModule α) 1
    (fun f reads => FtFifo.Ok f ∧ ∃ r, reads = [r] ∧ r.isSome = FtFifo.ram_pop_q f) where
  in_flight := by
    rintro f reads ⟨-, r, rfl, hr⟩
    change f.ram_pop_q.toNat = _
    rw [← hr]
    cases r <;> rfl
  ram_pop := rfl
  flops := rfl
  reset := by
    intro f empty pop data h
    have hq : f.ram_pop empty pop = false := by
      cases hq : f.ram_pop empty pop with
      | false => rfl
      | true =>
        change (f.ram_pop empty pop).toNat = 0 at h
        rw [hq] at h
        cases h
    change FtFifo.Ok ⟨f.ram_pop empty pop, none, none⟩ ∧ _
    rw [hq]
    exact ⟨FtFifo.ok_start, none, rfl, hq.symm⟩
  pop := by
    rintro ⟨q, ft0, ft1⟩ reads pop empty data ⟨hok, -⟩ hearly
    have horder := hok.order
    cases pop <;> cases q <;> cases ft0 <;> cases ft1 <;>
      simp_all [ft_fifo, FtFifo.step, FtFifo.ram_pop, FtFifo.nxt_ft0, FtFifo.nxt_ft1]

theorem ft_fifo_p_restarts : Restarts (ft_fifo_p : FtModule α) 2
    (fun f reads => FtFifoP.Ok f ∧ ∃ r r', reads = [r, r'] ∧ r.isSome = FtFifoP.ram_pop_qq f ∧
      r'.isSome = FtFifoP.ram_pop_q f) where
  in_flight := by
    rintro f reads ⟨-, r, r', rfl, hr, hr'⟩
    change f.ram_pop_qq.toNat + f.ram_pop_q.toNat = _
    rw [← hr, ← hr']
    cases r <;> cases r' <;> rfl
  ram_pop := rfl
  flops := rfl
  reset := by
    intro f empty pop data h
    have hq : FtFifoP.ram_pop false empty pop f = false := by
      unfold FtFifoP.ram_pop
      rw [Bool.and_false, Bool.false_and]
    have hqq : f.ram_pop_q = false := by
      cases hqq : f.ram_pop_q with
      | false => rfl
      | true =>
        change f.ram_pop_q.toNat + (FtFifoP.ram_pop false empty pop f).toNat = 0 at h
        rw [hqq, hq] at h
        cases h
    have hstart : FtFifoP.step false empty data pop f = FtFifoP.start := by
      unfold FtFifoP.step FtFifoP.start
      rw [hq, hqq]
      rfl
    change FtFifoP.Ok (FtFifoP.step false empty data pop f) ∧ ∃ r r' : Option α,
      List.replicate 2 none = [r, r'] ∧ r.isSome = (FtFifoP.step false empty data pop f).ram_pop_qq ∧
      r'.isSome = (FtFifoP.step false empty data pop f).ram_pop_q
    rw [hstart]
    exact ⟨FtFifoP.ok_start, none, none, rfl, rfl, rfl⟩
  pop := by
    rintro f reads pop empty data - -
    have hqual : FtFifoP.qual_ft_pop (pop && f.ft0.isSome) f = FtFifoP.qual_ft_pop pop f := by
      unfold FtFifoP.qual_ft_pop
      rw [Bool.and_assoc, Bool.and_self]
    have hpop : FtFifoP.ram_pop true empty (pop && f.ft0.isSome) f =
        FtFifoP.ram_pop true empty pop f := by
      unfold FtFifoP.ram_pop
      rw [hqual]
    refine ⟨?_, hpop.symm⟩
    change FtFifoP.step true empty data pop f = FtFifoP.step true empty data (pop && f.ft0.isSome) f
    unfold FtFifoP.step FtFifoP.nxt_num_valid
    rw [hpop, hqual]

theorem ft_restarts (p : Params) (α : Type) : ∃ R : (p.ft α).Regs → List (Option α) → Prop,
    (p.ft α).Buffers p.latency R ∧ Restarts (p.ft α) p.latency R := by
  by_cases h : p.PIPELINE = true
  · rw [show p.ft α = ft_fifo_p from if_pos h, show p.latency = 2 from if_pos h]
    exact ⟨_, ft_fifo_p_buffers, ft_fifo_p_restarts⟩
  · rw [show p.ft α = ft_fifo from if_neg h, show p.latency = 1 from if_neg h]
    exact ⟨_, ft_fifo_buffers, ft_fifo_restarts⟩

theorem latency_pos (p : Params) : 0 < p.latency := by
  unfold Params.latency
  split <;> omega

/-! ## What it holds -/

/-- What the RAM has read out, the earliest first. -/
def rddata : List α := if p.PIPELINE then [s.rddata_b_q, s.rddata_b] else [s.rddata_b]

/-- A word that is pushed and not refused. -/
def accepted : Option α := if write i s then some i.push_data else none

/-- A word that is popped. -/
def popped : List α := if i.pop && valid s then ((p.ft α).ft0 s.FT_FIFO).toList else []

/-- How many words are held, in the RAM, on the way and in the flops. -/
def level : Nat :=
  (ptr_diff s).toNat + (p.ft α).in_flight s.FT_FIFO + ((p.ft α).flops s.FT_FIFO).length

variable (R : (p.ft α).Regs → List (Option α) → Prop)

/-- The registers stand for a flow-through buffer. -/
structure Sim (t : FlowBuf α) : Prop where
  ring : Ring.Ok p.NUM_LOC (ptr s.wptr) (ptr s.rptr)
  ram : t.ram = (ptrs s).contents p.NUM_LOC s.FIFO_RAM
  regs : R s.FT_FIFO t.reads
  flops : t.flops = (p.ft α).flops s.FT_FIFO
  ok : t.Ok p.latency
  data : ∀ (k : Nat) (a : α), t.reads[k]? = some (some a) → (rddata s)[k]? = some a

variable {i s R} {t : FlowBuf α}

/-- The RAM is never read when it is empty, nor written when it is full: not even in a reset. -/
theorem ring_step (hR : Restarts (p.ft α) p.latency R)
    (h : Ring.Ok p.NUM_LOC (ptr s.wptr) (ptr s.rptr)) :
    Ring.Ok p.NUM_LOC (ptr (step i s).wptr) (ptr (step i s).rptr) ∧
      (ptrs s).contents p.NUM_LOC s.FIFO_RAM ++ (accepted i s).toList =
        (if ram_pop i s then [s.FIFO_RAM (ptr s.rptr).idx] else []) ++
          (ptrs (step i s)).contents p.NUM_LOC (step i s).FIFO_RAM := by
  have hrd : ram_pop i s = true → (ptrs s).empty = false := by
    intro hpop
    cases he : ram_fifo_empty s with
    | false => exact he
    | true =>
      unfold ram_pop at hpop
      rw [he, hR.ram_pop] at hpop
      exact absurd hpop Bool.false_ne_true
  have hok := (RamPtrs.ok_step (ptrs_ok s h) (write_full i s) hrd).1
  have hwptr : ptr (step i s).wptr = ((ptrs s).step p.NUM_LOC (write i s) (ram_pop i s)).wr_ptr := by
    change ptr (if write i s then s.wptr + 1#_ else s.wptr) =
      if write i s then (ptr s.wptr).next p.NUM_LOC else ptr s.wptr
    rw [apply_ite ptr, ptr_next]
  have hrptr : ptr (step i s).rptr = ((ptrs s).step p.NUM_LOC (write i s) (ram_pop i s)).rd_ptr := by
    change ptr (if ram_pop i s then s.rptr + 1#_ else s.rptr) =
      if ram_pop i s then (ptr s.rptr).next p.NUM_LOC else ptr s.rptr
    rw [apply_ite ptr, ptr_next]
  have hcontents := RamPtrs.contents_step (ptrs_ok s h) (write_full i s) hrd s.FIFO_RAM i.push_data
  have hpush : (accepted i s).toList = if write i s then [i.push_data] else [] := by
    unfold accepted
    split <;> rfl
  rw [hpush, hcontents]
  refine ⟨by rw [hwptr, hrptr]; exact hok.ring, ?_⟩
  congr 1
  change Ring.contents _ _ _ _ = Ring.contents _ _ (ptr (step i s).wptr) (ptr (step i s).rptr)
  rw [hwptr, hrptr]
  rfl

theorem rddata_step : rddata (step i s) = (rddata s).tail ++ [s.FIFO_RAM (ptr s.rptr).idx] := by
  unfold rddata
  split <;> rfl

theorem rddata_length : (rddata s).length = p.latency := by
  unfold rddata Params.latency
  split <;> rfl

theorem rddata_head : (rddata s)[0]? = some (ram_rdata s) := by
  unfold rddata ram_rdata
  split <;> rfl

namespace Sim

theorem valid_iff (hM : (p.ft α).Buffers p.latency R) (h : Sim s R t) :
    valid s = true ↔ t.flops ≠ [] := by
  unfold valid
  rw [hM.ft0 h.regs, h.flops, Option.isSome_iff_ne_none, ne_eq, List.head?_eq_none_iff]

theorem ram_fifo_empty_eq (h : Sim s R t) : ram_fifo_empty s = t.ram.isEmpty := by
  have hempty : ram_fifo_empty s = decide ((ptrs s).count p.NUM_LOC = 0) := (ptrs_ok s h.ring).empty
  rw [hempty, Bool.eq_iff_iff, decide_eq_true_iff, List.isEmpty_iff, ← List.length_eq_zero_iff, h.ram,
    RamPtrs.contents_length]

theorem ram_rdata_eq (h : Sim s R t) : (t.reads.headD none).getD (ram_rdata s) = ram_rdata s := by
  cases hr : t.reads with
  | nil => rfl
  | cons r rest =>
    cases r with
    | none => rfl
    | some a =>
      have hdata := h.data 0 a (by rw [hr]; rfl)
      rw [rddata_head] at hdata
      exact (Option.some.inj hdata).symm

theorem flow_eq (h : Sim s R t) : (⟨t.ram, t.reads, (p.ft α).flops s.FT_FIFO⟩ : FlowBuf α) = t := by
  rw [← h.flops]

theorem ram_pop_eq (hM : (p.ft α).Buffers p.latency R) (hR : Restarts (p.ft α) p.latency R)
    (h : Sim s R t) (hrst : i.rst_n = true)
    (hearly : i.pop → (p.ft α).early s.FT_FIFO = false) :
    ram_pop i s = FlowBuf.fetch p.latency (i.pop && valid s) t := by
  have hpop := (hR.pop (ram_fifo_empty s) (ram_rdata s) h.regs hearly).2
  have hflow := h.flow_eq
  have hne : (i.pop && valid s) = true → (p.ft α).flops s.FT_FIFO ≠ [] := by
    intro hp
    rw [← h.flops]
    exact (h.valid_iff hM).mp (Bool.and_eq_true _ _ ▸ hp).2
  have hfetch := hM.ram_pop t.ram h.regs (hflow ▸ h.ok) hne
  rw [hflow, ← h.ram_fifo_empty_eq] at hfetch
  unfold ram_pop
  rw [hrst, hpop]
  exact hfetch

theorem next (hM : (p.ft α).Buffers p.latency R) (hR : Restarts (p.ft α) p.latency R)
    (h : Sim s R t) (hrst : i.rst_n = true)
    (hearly : i.pop → (p.ft α).early s.FT_FIFO = false) :
    Sim (step i s) R (FlowBuf.next p.latency (accepted i s) (i.pop && valid s) t) := by
  have hfetch := h.ram_pop_eq hM hR hrst hearly
  obtain ⟨hring, hcontents⟩ := ring_step (i := i) hR h.ring
  have hne : (i.pop && valid s) = true → t.flops ≠ [] :=
    fun hp => (h.valid_iff hM).mp (Bool.and_eq_true _ _ ▸ hp).2
  have hread : ram_pop i s = true → t.ram = s.FIFO_RAM (ptr s.rptr).idx :: t.ram.tail ∧
      (ptrs (step i s)).contents p.NUM_LOC (step i s).FIFO_RAM =
        t.ram.tail ++ (accepted i s).toList := by
    intro hf
    obtain ⟨a, ha⟩ := FlowBuf.ram_of_fetch (hfetch ▸ hf)
    rw [← h.ram, ha, if_pos hf] at hcontents
    obtain ⟨rfl, hrest⟩ := List.cons.inj hcontents
    exact ⟨ha, hrest.symm⟩
  have hnew : (if ram_pop i s then t.ram.head? else none).isSome = ram_pop i s := by
    cases hf : ram_pop i s with
    | false => rfl
    | true =>
      rw [if_pos rfl, (hread hf).1]
      rfl
  have hnewram : (if ram_pop i s then t.ram.tail else t.ram) ++ (accepted i s).toList =
      (ptrs (step i s)).contents p.NUM_LOC (step i s).FIFO_RAM := by
    cases hf : ram_pop i s with
    | false =>
      rw [hf, if_neg Bool.false_ne_true, List.nil_append, ← h.ram] at hcontents
      exact hcontents
    | true => exact (hread hf).2.symm
  -- what the flow-through FIFO does with the pop that counts
  have hft : (step i s).FT_FIFO = (p.ft α).step true (ram_fifo_empty s)
      ((t.reads.headD none).getD (ram_rdata s)) (i.pop && valid s) s.FT_FIFO := by
    change (p.ft α).step i.rst_n (ram_fifo_empty s) (ram_rdata s) i.pop s.FT_FIFO = _
    rw [h.ram_rdata_eq, hrst, (hR.pop (ram_fifo_empty s) (ram_rdata s) h.regs hearly).1]
    rfl
  have hpop : ram_pop i s = (p.ft α).ram_pop true (ram_fifo_empty s) (i.pop && valid s) s.FT_FIFO := by
    unfold ram_pop
    rw [hrst, (hR.pop (ram_fifo_empty s) (ram_rdata s) h.regs hearly).2]
    rfl
  obtain ⟨hregs, hflops⟩ := hM.step (ram_rdata s) h.regs h.ok.reads
    (h.flops ▸ h.ok.room) (h.flops ▸ hne) (hnew.trans hpop)
  rw [← hft] at hregs hflops
  refine ⟨hring, ?_, ?_, ?_, FlowBuf.ok_next _ (latency_pos p) h.ok hne, ?_⟩
  · unfold FlowBuf.next
    rw [← hfetch]
    exact hnewram
  · unfold FlowBuf.next
    rw [← hfetch]
    exact hregs
  · rw [hflops, ← h.flops]
    rfl
  · intro k a hk
    unfold FlowBuf.next at hk
    rw [← hfetch] at hk
    change (t.reads.tail ++ [_])[k]? = _ at hk
    rw [rddata_step]
    have hlen := h.ok.reads
    by_cases hlt : k < t.reads.tail.length
    · rw [List.getElem?_append_left hlt, List.getElem?_tail] at hk
      rw [List.getElem?_append_left (by rw [List.length_tail] at hlt ⊢; rw [rddata_length]; omega),
        List.getElem?_tail]
      exact h.data (k + 1) a hk
    · rw [List.getElem?_append_right (by omega)] at hk
      have hlast : k - t.reads.tail.length = 0 := by
        have hone := (List.getElem?_eq_some_iff.mp hk).1
        rw [List.length_singleton] at hone
        omega
      rw [hlast] at hk
      have hnewa : (if ram_pop i s then t.ram.head? else none) = some a := Option.some.inj hk
      have hf : ram_pop i s = true := by
        by_contra hno
        rw [if_neg hno] at hnewa
        cases hnewa
      rw [if_pos hf, (hread hf).1] at hnewa
      rw [List.getElem?_append_right (by rw [List.length_tail] at *; rw [rddata_length]; omega)]
      have hidx : k - (rddata s).tail.length = 0 := by
        rw [List.length_tail] at *
        rw [rddata_length]
        omega
      rw [hidx]
      exact hnewa

theorem of_empty (hring : Ring.Ok p.NUM_LOC (ptr s.wptr) (ptr s.rptr)) (hdiff : ptr_diff s = 0#_)
    (hregs : R s.FT_FIFO (List.replicate p.latency none))
    (hflops : (p.ft α).flops s.FT_FIFO = []) : Sim s R (FlowBuf.start p.latency) where
  ring := hring
  ram := by
    have hcount : ((ptrs s).contents p.NUM_LOC s.FIFO_RAM).length = 0 := by
      rw [RamPtrs.contents_length]
      change Ring.count p.NUM_LOC (ptr s.wptr) (ptr s.rptr) = 0
      rw [← ptr_diff_toNat s hring, hdiff, BitVec.toNat_ofNat, Nat.zero_mod]
    exact (List.eq_nil_of_length_eq_zero hcount).symm
  regs := hregs
  flops := hflops.symm
  ok := FlowBuf.ok_start
  data := by
    intro k a hk
    have hnone := List.eq_of_mem_replicate (List.mem_of_getElem? hk)
    cases hnone

theorem held_length (hR : Restarts (p.ft α) p.latency R) (h : Sim s R t) :
    t.held.length = level s := by
  have hram : t.ram.length = (ptr_diff s).toNat := by
    rw [h.ram, RamPtrs.contents_length, ptr_diff_toNat s h.ring]
    rfl
  have hflight : t.flight.length = (p.ft α).in_flight s.FT_FIFO := (hR.in_flight h.regs).symm
  unfold FlowBuf.held level
  rw [List.length_append, List.length_append, hram, hflight, h.flops]
  omega

end Sim

/-- What a reset leaves on the way: with `PIPELINE` what was read in the cycle before it, else what
is read in this one. -/
theorem in_flight_reset (p : Params) {empty pop : Bool} {data : α} {f : (p.ft α).Regs} :
    (p.ft α).in_flight ((p.ft α).step false empty data pop f) =
      (if p.PIPELINE then ((p.ft α).ram_pop_q f).toNat else 0) +
        ((p.ft α).ram_pop false empty pop f).toNat := by
  obtain ⟨P, W, pipe⟩ := p
  cases pipe with
  | true => rfl
  | false => exact (Nat.zero_add _).symm

variable (i s) in
/-- The reset can end in this cycle: nothing is in the RAM, nothing is pushed, and with `PIPELINE`
nothing was read in the cycle before. -/
def Clean : Prop :=
  ptr_diff s = 0#_ ∧ i.push = false ∧
    (p.PIPELINE = true → (p.ft α).ram_pop_q s.FT_FIFO = false)

theorem level_reset (hR : Restarts (p.ft α) p.latency R)
    (hring : Ring.Ok p.NUM_LOC (ptr s.wptr) (ptr s.rptr)) (hrst : i.rst_n = false) :
    level (step i s) = 0 ↔ Clean i s := by
  have hlevel : level (step i s) = (ptr_diff s).toNat + (write i s).toNat +
      if p.PIPELINE then ((p.ft α).ram_pop_q s.FT_FIFO).toNat else 0 := by
    obtain ⟨hring', hcontents⟩ := ring_step (i := i) hR hring
    have hlen := congrArg List.length hcontents
    have hacc : (accepted i s).toList.length = (write i s).toNat := by
      unfold accepted
      cases write i s <;> rfl
    have hrd : (if ram_pop i s then [s.FIFO_RAM (ptr s.rptr).idx] else []).length =
        (ram_pop i s).toNat := by
      cases ram_pop i s <;> rfl
    have hdiff : (ptrs (step i s)).count p.NUM_LOC = (ptr_diff (step i s)).toNat :=
      (ptr_diff_toNat _ hring').symm
    have hdiff' : (ptrs s).count p.NUM_LOC = (ptr_diff s).toNat := (ptr_diff_toNat s hring).symm
    rw [List.length_append, List.length_append, RamPtrs.contents_length, RamPtrs.contents_length, hacc,
      hrd, hdiff, hdiff'] at hlen
    have hft : (step i s).FT_FIFO =
        (p.ft α).step false (ram_fifo_empty s) (ram_rdata s) i.pop s.FT_FIFO := by
      change (p.ft α).step i.rst_n _ _ _ _ = _
      rw [hrst]
    have hpop : ram_pop i s = (p.ft α).ram_pop false (ram_fifo_empty s) i.pop s.FT_FIFO := by
      unfold ram_pop
      rw [hrst]
    unfold level
    rw [hft, hR.flops, in_flight_reset, ← hpop, List.length_nil]
    omega
  have hnot : ptr_diff s = 0#_ → write i s = i.push := by
    intro hzero
    have hfull : fifo_full s = false := by
      have hpos := num_loc_pos p
      unfold fifo_full
      rw [hzero, BitVec.toNat_ofNat, Nat.zero_mod, decide_eq_false_iff_not]
      omega
    unfold write
    rw [hfull, Bool.not_false, Bool.and_true]
  have hdiff : (ptr_diff s).toNat = 0 ↔ ptr_diff s = 0#_ := by
    rw [← BitVec.toNat_inj, BitVec.toNat_ofNat, Nat.zero_mod]
  rw [hlevel]
  unfold Clean
  constructor
  · intro hzero
    have hempty : ptr_diff s = 0#_ := hdiff.mp (by omega)
    refine ⟨hempty, ?_, fun hpipe => ?_⟩
    · rw [← hnot hempty]
      cases hw : write i s with
      | false => rfl
      | true =>
        rw [hw, Bool.toNat_true] at hzero
        omega
    · rw [if_pos hpipe] at hzero
      cases hq : (p.ft α).ram_pop_q s.FT_FIFO with
      | false => rfl
      | true =>
        rw [hq, Bool.toNat_true] at hzero
        omega
  · rintro ⟨hempty, hpush, hq⟩
    rw [hdiff.mpr hempty, hnot hempty, hpush]
    split
    case isTrue hpipe =>
      rw [hq hpipe]
      rfl
    case isFalse => rfl

/-! ## Runs -/

section Runs

variable (p) (zero : α) (ins : Nat → In α)

/-- The registers in cycle `n`. -/
def regs (n : Nat) : Regs p α := (ram_fifo p zero).state ins n

/-- What was pushed and not refused since the last reset. -/
def pushed_words : Nat → List α :=
  (ram_fifo p zero).since ins (fun i => !i.rst_n) (fun i s => (accepted i s).toList)

/-- What was popped since the last reset. -/
def popped_words : Nat → List α := (ram_fifo p zero).since ins (fun i => !i.rst_n) popped

/-- The pushes that were refused since the last reset. -/
def refused : Nat → List Unit :=
  (ram_fifo p zero).since ins (fun i => !i.rst_n)
    (fun i s => if i.push && fifo_full s then [()] else [])

/-- The words leave in order, each once. -/
def InOrder (n : Nat) : Prop :=
  popped_words p zero ins n <+: pushed_words p zero ins n ∧
    (pushed_words p zero ins n).length =
      (popped_words p zero ins n).length + level (regs p zero ins n)

/-- `free_entries` in the next cycle is what is free of the RAM in this one. -/
def FreeRight (n : Nat) : Prop :=
  (regs p zero ins (n + 1)).free_entries.toNat =
    p.NUM_LOC - (ptr_diff (regs p zero ins n)).toNat

/-- All that is expected of the FIFO in a run. -/
structure Expected : Prop where
  order : ∀ n, (ins n).rst_n → InOrder p zero ins n
  empty : ∀ n, (ins n).rst_n = false → level (regs p zero ins (n + 1)) = 0
  oflow : ∀ n, (ins n).rst_n → oflow (ins n) (regs p zero ins n) = !(refused p zero ins n).isEmpty
  free_entries : ∀ n, FreeRight p zero ins n

/-- Every reset ends clean. -/
def EndsClean : Prop :=
  ∀ n, (ins n).rst_n = false → (ins (n + 1)).rst_n = true → Clean (ins n) (regs p zero ins n)

/-- Without `PIPELINE`, nobody pops while nothing is shown and a read returns. -/
def PopsInTime : Prop :=
  ∀ n, (ins n).rst_n = true → (ins n).pop = true →
    (p.ft α).early (regs p zero ins n).FT_FIFO = false

/-- What does hold of a run. -/
structure Kept : Prop where
  order : EndsClean p zero ins → PopsInTime p zero ins → ∀ n, (ins n).rst_n → InOrder p zero ins n
  /-- No word stays behind. -/
  shown : EndsClean p zero ins → PopsInTime p zero ins → ∀ n,
    (∀ k ≤ p.latency, (ins (n + k)).rst_n) → ptr_diff (regs p zero ins n) ≠ 0#_ →
    valid (regs p zero ins (n + (p.latency + 1)))
  empty : ∀ n, (ins n).rst_n = false →
    (level (regs p zero ins (n + 1)) = 0 ↔ Clean (ins n) (regs p zero ins n))
  oflow : ∀ n, (ins n).rst_n → oflow (ins n) (regs p zero ins n) = !(refused p zero ins n).isEmpty
  free_entries : ∀ n, FreeRight p zero ins n ↔ ptr_diff (regs p zero ins n) ≠ 0#_

variable {p zero ins}

theorem regs_succ (n : Nat) : regs p zero ins (n + 1) = step (ins n) (regs p zero ins n) := rfl

variable (p zero ins) in
theorem ring_regs (n : Nat) :
    Ring.Ok p.NUM_LOC (ptr (regs p zero ins n).wptr) (ptr (regs p zero ins n).rptr) := by
  obtain ⟨R, -, hR⟩ := ft_restarts p α
  induction n with
  | zero =>
    have hzero : ptr (0#(p.PTR_WIDTH + 1)) = ⟨0, false⟩ := by
      have hpos := num_loc_pos p
      have hnot : ¬ p.NUM_LOC ≤ 0 := by omega
      unfold ptr
      rw [BitVec.toNat_ofNat, Nat.zero_mod, Nat.zero_mod, decide_eq_false hnot]
    change Ring.Ok p.NUM_LOC (ptr 0#_) (ptr 0#_)
    rw [hzero]
    exact Ring.ok_start (num_loc_pos p)
  | succ n ih => exact (ring_step hR ih).1

theorem sim_regs {R : (p.ft α).Regs → List (Option α) → Prop}
    (hM : (p.ft α).Buffers p.latency R) (hR : Restarts (p.ft α) p.latency R)
    (hclean : EndsClean p zero ins) (hpops : PopsInTime p zero ins) (n : Nat)
    (hrst : (ins n).rst_n = true) : ∃ t, Sim (regs p zero ins n) R t ∧
      pushed_words p zero ins n = popped_words p zero ins n ++ t.held := by
  have hring := ring_regs p zero ins
  induction n with
  | zero =>
    refine ⟨_, Sim.of_empty (hring 0) ?_ hM.reset hM.empty, ?_⟩
    · exact BitVec.sub_self _
    · rw [FlowBuf.held_start]
      rfl
  | succ n ih =>
    cases hn : (ins n).rst_n with
    | false =>
      -- a reset that ended clean
      have hfree := (level_reset hR (hring n) hn).mpr (hclean n hn hrst)
      have hstep : (step (ins n) (regs p zero ins n)).FT_FIFO = (p.ft α).step false
          (ram_fifo_empty (regs p zero ins n)) (ram_rdata (regs p zero ins n)) (ins n).pop
          (regs p zero ins n).FT_FIFO := by
        change (p.ft α).step (ins n).rst_n _ _ _ _ = _
        rw [hn]
      have hflight : (p.ft α).in_flight (step (ins n) (regs p zero ins n)).FT_FIFO = 0 := by
        unfold level at hfree
        omega
      have hdiff : ptr_diff (step (ins n) (regs p zero ins n)) = 0#_ := by
        unfold level at hfree
        rw [← BitVec.toNat_inj, BitVec.toNat_ofNat, Nat.zero_mod]
        omega
      refine ⟨_, Sim.of_empty (hring (n + 1)) hdiff ?_ ?_, ?_⟩
      · rw [regs_succ, hstep]
        exact hR.reset (hstep ▸ hflight)
      · rw [regs_succ, hstep]
        exact hR.flops
      · have hempty : (!(ins n).rst_n) = true := by rw [hn]; rfl
        unfold pushed_words popped_words Circuit.since
        rw [if_pos hempty, if_pos hempty, FlowBuf.held_start]
        rfl
    | true =>
      obtain ⟨t, hsim, hwords⟩ := ih hn
      have hpop : ((ins n).pop && valid (regs p zero ins n)) = true → t.flops ≠ [] :=
        fun hp => (hsim.valid_iff hM).mp (Bool.and_eq_true _ _ ▸ hp).2
      refine ⟨FlowBuf.next p.latency (accepted (ins n) (regs p zero ins n))
        ((ins n).pop && valid (regs p zero ins n)) t, hsim.next hM hR hn (hpops n hn), ?_⟩
      have hheld := FlowBuf.held_next (accepted (ins n) (regs p zero ins n)) (latency_pos p) hsim.ok hpop
      have hnot : ¬ (!(ins n).rst_n) = true := by rw [hn]; exact Bool.false_ne_true
      have hout : popped (ins n) (regs p zero ins n) =
          if ((ins n).pop && valid (regs p zero ins n)) = true then t.flops.head?.toList else [] := by
        unfold popped
        rw [hM.ft0 hsim.regs, hsim.flops]
      have hpushed : pushed_words p zero ins (n + 1) =
          pushed_words p zero ins n ++ (accepted (ins n) (regs p zero ins n)).toList := if_neg hnot
      have hpopped : popped_words p zero ins (n + 1) =
          popped_words p zero ins n ++ popped (ins n) (regs p zero ins n) := if_neg hnot
      rw [hpushed, hpopped, hwords, hout, List.append_assoc, List.append_assoc, hheld]

variable (p zero ins) in
/-- The buffer from cycle `n` on. -/
def flow_from (n : Nat) (t : FlowBuf α) : Nat → FlowBuf α
  | 0 => t
  | k + 1 => FlowBuf.next p.latency (accepted (ins (n + k)) (regs p zero ins (n + k)))
      ((ins (n + k)).pop && valid (regs p zero ins (n + k))) (flow_from n t k)

theorem shown_regs (hclean : EndsClean p zero ins) (hpops : PopsInTime p zero ins) (n : Nat)
    (hrst : ∀ k ≤ p.latency, (ins (n + k)).rst_n) (hdiff : ptr_diff (regs p zero ins n) ≠ 0#_) :
    valid (regs p zero ins (n + (p.latency + 1))) = true := by
  obtain ⟨R, hM, hR⟩ := ft_restarts p α
  obtain ⟨t, hsim, -⟩ := sim_regs hM hR hclean hpops n (hrst 0 (Nat.zero_le _))
  have hall : ∀ k ≤ p.latency + 1,
      Sim (regs p zero ins (n + k)) R (flow_from p zero ins n t k) := by
    intro k hk
    induction k with
    | zero => exact hsim
    | succ k ih => exact (ih (by omega)).next hM hR (hrst k (by omega)) (hpops (n + k) (hrst k (by omega)))
  apply ((hall _ (Nat.le_refl _)).valid_iff hM).mpr
  apply FlowBuf.shown (latency_pos p) hsim.ok (fun k _ => rfl)
  · intro k hk hp
    exact ((hall k (by omega)).valid_iff hM).mp (Bool.and_eq_true _ _ ▸ hp).2
  · have hempty := hsim.ram_fifo_empty_eq
    intro hnil
    change t.ram = [] at hnil
    rw [hnil] at hempty
    exact hdiff (of_decide_eq_true hempty)

theorem in_order (hclean : EndsClean p zero ins) (hpops : PopsInTime p zero ins) (n : Nat)
    (hrst : (ins n).rst_n = true) : InOrder p zero ins n := by
  obtain ⟨R, hM, hR⟩ := ft_restarts p α
  obtain ⟨t, hsim, hwords⟩ := sim_regs hM hR hclean hpops n hrst
  refine ⟨⟨t.held, hwords.symm⟩, ?_⟩
  rw [hwords, List.length_append, hsim.held_length hR]

theorem oflow_reg (n : Nat) : (regs p zero ins n).oflow = !(refused p zero ins n).isEmpty := by
  induction n with
  | zero => rfl
  | succ n ih =>
    have hreg : (regs p zero ins (n + 1)).oflow = if !(ins n).rst_n then false
        else if (ins n).push && fifo_full (regs p zero ins n) then true
        else (regs p zero ins n).oflow := rfl
    have hlog : refused p zero ins (n + 1) = if !(ins n).rst_n then [] else refused p zero ins n ++
        (if (ins n).push && fifo_full (regs p zero ins n) then [()] else []) := rfl
    rw [hreg, hlog, ih]
    split
    · rfl
    · split
      · cases refused p zero ins n <;> rfl
      · rw [List.append_nil]

/-- `free_entries` has no room for the number of all locations. -/
theorem free_right_iff (n : Nat) :
    FreeRight p zero ins n ↔ ptr_diff (regs p zero ins n) ≠ 0#_ := by
  have hpos := num_loc_pos p
  have hle : (ptr_diff (regs p zero ins n)).toNat ≤ p.NUM_LOC := by
    rw [ptr_diff_toNat _ (ring_regs p zero ins n)]
    exact Ring.count_le (ring_regs p zero ins n)
  have hnum : (2 : Nat) ^ p.PTR_WIDTH = p.NUM_LOC := rfl
  have hfree : (regs p zero ins (n + 1)).free_entries.toNat =
      (p.NUM_LOC - (ptr_diff (regs p zero ins n)).toNat % p.NUM_LOC) % p.NUM_LOC := by
    change (BitVec.ofNat p.PTR_WIDTH p.NUM_LOC - (ptr_diff (regs p zero ins n)).setWidth _).toNat = _
    rw [BitVec.toNat_sub, BitVec.toNat_ofNat, BitVec.toNat_setWidth, hnum, Nat.mod_self, Nat.add_zero]
  unfold FreeRight
  rw [hfree, ne_eq, ← BitVec.toNat_inj, BitVec.toNat_ofNat, Nat.zero_mod]
  generalize (ptr_diff (regs p zero ins n)).toNat = d at *
  rcases Nat.eq_zero_or_pos d with rfl | hd
  · rw [Nat.zero_mod, Nat.sub_zero, Nat.mod_self]
    omega
  · rcases Nat.eq_or_lt_of_le hle with rfl | hlt
    · rw [Nat.mod_self, Nat.sub_zero, Nat.mod_self]
      omega
    · rw [Nat.mod_eq_of_lt hlt, Nat.mod_eq_of_lt (by omega)]
      omega

theorem kept : Kept p zero ins where
  order := in_order
  shown := shown_regs
  empty n hrst := by
    obtain ⟨R, -, hR⟩ := ft_restarts p α
    exact level_reset hR (ring_regs p zero ins n) hrst
  oflow n hrst := by
    unfold oflow
    rw [hrst, if_neg (by decide)]
    exact oflow_reg n
  free_entries := free_right_iff

end Runs

/-- No run is all that is expected, since the RAM is empty at first; but what is wrong with
`free_entries` is only that, and the words are in order when every reset ends clean. -/
theorem ram_fifo_runs (p : Params) (zero : α) (ins : Nat → In α) :
    ¬ Expected p zero ins ∧ Kept p zero ins := by
  refine ⟨fun h => ?_, kept⟩
  apply (free_right_iff 0).mp (h.free_entries 0)
  exact BitVec.sub_self _

/-- Three words are pushed, a reset comes, and later the FIFO is popped once. -/
def stale_run : Nat → In Nat
  | 0 => ⟨true, true, 7, false⟩
  | 1 => ⟨true, true, 8, false⟩
  | 2 => ⟨true, true, 9, false⟩
  | 3 => ⟨false, false, 0, false⟩
  | 6 => ⟨true, false, 0, true⟩
  | _ => ⟨true, false, 0, false⟩

/-- A word from before the reset is popped, although nothing was pushed since. -/
theorem stale_word : ¬ Expected ⟨1, 0, true⟩ 0 stale_run ∧
    pushed_words ⟨1, 0, true⟩ 0 stale_run 7 = [] ∧ popped_words ⟨1, 0, true⟩ 0 stale_run 7 = [8] := by
  have hpushed : pushed_words ⟨1, 0, true⟩ 0 stale_run 7 = [] := by decide +kernel
  have hpopped : popped_words ⟨1, 0, true⟩ 0 stale_run 7 = [8] := by decide +kernel
  refine ⟨fun h => ?_, hpushed, hpopped⟩
  have horder := (h.order 7 rfl).1
  rw [hpushed, hpopped] at horder
  exact absurd horder (by decide)

end AwsFpga.Rtl.RamFifoReset
