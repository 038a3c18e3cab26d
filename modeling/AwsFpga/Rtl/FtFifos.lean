import AwsFpga.Lib.Circuit
import AwsFpga.Lib.FlowThrough
import AwsFpga.Rtl.Blocks
import Mathlib.Data.BitVec

/-!
# The flow-through FIFOs (`ft_fifo.v`, `ft_fifo_p.v`)

`ft_fifo` stands behind a RAM that answers in the next cycle, `ft_fifo_p` behind
one that takes two. Both are the flow-through buffer of the library.
-/

open Lib

namespace AwsFpga.Rtl

variable {α : Type}

/-! ## `ft_fifo_p` -/

/-- A flop is `none` when its valid bit is not set. -/
structure FtFifoP (α : Type) where
  num_valid : BitVec 2
  ram_pop_q : Bool
  ram_pop_qq : Bool
  ft0 : Option α
  ft1 : Option α
  ft2 : Option α
  deriving DecidableEq

namespace FtFifoP

variable (sync_rst_n ram_fifo_empty : Bool) (ram_fifo_data : α) (ft_pop : Bool) (f : FtFifoP α)

def start : FtFifoP α := ⟨0, false, false, none, none, none⟩

def qual_ft_pop : Bool := ft_pop && f.ft0.isSome

def ram_pop : Bool :=
  !ram_fifo_empty && sync_rst_n && (decide (f.num_valid.toNat < 3) || qual_ft_pop ft_pop f)

def nxt_num_valid : BitVec 2 :=
  match ram_pop sync_rst_n ram_fifo_empty ft_pop f, qual_ft_pop ft_pop f with
  | false, false | true, true => f.num_valid
  | false, true => f.num_valid - 1
  | true, false => f.num_valid + 1

def nxt_ft0 : Option α := if f.ram_pop_qq && !f.ft0.isSome then some ram_fifo_data else f.ft0

def nxt_ft1 : Option α :=
  if f.ram_pop_qq && f.ft0.isSome && !f.ft1.isSome then some ram_fifo_data else f.ft1

def nxt_ft2 : Option α :=
  if f.ram_pop_qq && f.ft1.isSome && !f.ft2.isSome then some ram_fifo_data else f.ft2

def step : FtFifoP α where
  num_valid := if !sync_rst_n then 0 else nxt_num_valid sync_rst_n ram_fifo_empty ft_pop f
  ram_pop_q := ram_pop sync_rst_n ram_fifo_empty ft_pop f
  ram_pop_qq := f.ram_pop_q
  ft0 :=
    if !sync_rst_n then none
    else if qual_ft_pop ft_pop f then nxt_ft1 ram_fifo_data f
    else nxt_ft0 ram_fifo_data f
  ft1 :=
    if !sync_rst_n then none
    else if qual_ft_pop ft_pop f then nxt_ft2 ram_fifo_data f
    else nxt_ft1 ram_fifo_data f
  ft2 :=
    if !sync_rst_n then none
    else if qual_ft_pop ft_pop f then none
    else nxt_ft2 ram_fifo_data f

def flops : List α := f.ft0.toList ++ f.ft1.toList ++ f.ft2.toList

/-- The flops fill up in order, and `num_valid` also counts what is on the way. -/
structure Ok : Prop where
  order : f.ft1.isSome → f.ft0.isSome
  order' : f.ft2.isSome → f.ft1.isSome
  num_valid : f.num_valid.toNat = f.flops.length + f.ram_pop_qq.toNat + f.ram_pop_q.toNat

end FtFifoP

/-! ## The modules -/

/-- The ports of a flow-through FIFO, and what its flops hold. -/
structure FtModule (α : Type) where
  Regs : Type
  reset : Regs
  ram_pop : (sync_rst_n ram_fifo_empty ft_pop : Bool) → Regs → Bool
  step : (sync_rst_n ram_fifo_empty : Bool) → (ram_fifo_data : α) → (ft_pop : Bool) → Regs → Regs
  ft0 : Regs → Option α
  flops : Regs → List α
  ram_pop_q : Regs → Bool
  /-- How many reads are on the way. -/
  in_flight : Regs → Nat
  /-- A pop comes too early: it would drop the word that returns. -/
  early : Regs → Bool

/-- A reset leaves `ram_pop_q` as it is. -/
def ft_fifo : FtModule α where
  Regs := FtFifo α
  reset := .start
  ram_pop _ ram_fifo_empty ft_pop f := f.ram_pop ram_fifo_empty ft_pop
  step sync_rst_n ram_fifo_empty ram_fifo_data ft_pop f :=
    if !sync_rst_n then ⟨f.ram_pop ram_fifo_empty ft_pop, none, none⟩
    else f.step ram_fifo_empty ram_fifo_data ft_pop
  ft0 f := f.ft0
  flops f := f.flops
  ram_pop_q f := f.ram_pop_q
  in_flight f := f.ram_pop_q.toNat
  early f := !f.ft0.isSome && f.ram_pop_q

def ft_fifo_p : FtModule α where
  Regs := FtFifoP α
  reset := .start
  ram_pop sync_rst_n ram_fifo_empty ft_pop f := f.ram_pop sync_rst_n ram_fifo_empty ft_pop
  step sync_rst_n ram_fifo_empty ram_fifo_data ft_pop f :=
    f.step sync_rst_n ram_fifo_empty ram_fifo_data ft_pop
  ft0 f := f.ft0
  flops f := f.flops
  ram_pop_q f := f.ram_pop_q
  in_flight f := f.ram_pop_qq.toNat + f.ram_pop_q.toNat
  early _ := false

/-- How the registers stand to the reads that are on the way. -/
structure FtModule.Buffers (M : FtModule α) (L : Nat)
    (R : M.Regs → List (Option α) → Prop) : Prop where
  reset : R M.reset (List.replicate L none)
  empty : M.flops M.reset = []
  ft0 : ∀ {f reads}, R f reads → M.ft0 f = (M.flops f).head?
  /-- A read is issued where the buffer issues one. -/
  ram_pop : ∀ {f reads} {pop : Bool} (ram : List α), R f reads → FlowBuf.Ok L ⟨ram, reads, M.flops f⟩ →
    (pop → M.flops f ≠ []) →
    M.ram_pop true ram.isEmpty pop f = FlowBuf.fetch L pop ⟨ram, reads, M.flops f⟩
  /-- The flops take what returns, and the reads move on. -/
  step : ∀ {f reads new} {empty pop : Bool} (junk : α), R f reads → reads.length = L →
    (M.flops f).length + (reads.filterMap id).length ≤ L + 1 → (pop → M.flops f ≠ []) →
    Option.isSome new = M.ram_pop true empty pop f →
    R (M.step true empty ((reads.headD none).getD junk) pop f) (reads.tail ++ [new]) ∧
      M.flops (M.step true empty ((reads.headD none).getD junk) pop f) =
        (if pop then (M.flops f).tail else M.flops f) ++ (reads.headD none).toList

theorem ft_fifo_buffers : (ft_fifo : FtModule α).Buffers 1
    (fun f reads => FtFifo.Ok f ∧ ∃ r, reads = [r] ∧ r.isSome = FtFifo.ram_pop_q f) where
  reset := ⟨FtFifo.ok_start, none, rfl, rfl⟩
  empty := rfl
  ft0 := by
    rintro ⟨q, ft0, ft1⟩ reads ⟨hok, -⟩
    have horder := hok.order
    cases ft0 <;> cases ft1 <;> simp_all [ft_fifo, FtFifo.flops]
  ram_pop := by
    rintro ⟨q, ft0, ft1⟩ reads pop ram ⟨hok, r, rfl, hr⟩ hroom hpop
    obtain ⟨horder, hfree⟩ := hok
    unfold FlowBuf.fetch FlowBuf.count FlowBuf.flight
    cases pop <;> cases q <;> cases ft0 <;> cases ft1 <;> cases r <;>
      simp_all [ft_fifo, FtFifo.ram_pop, FtFifo.flops]
  step := by
    rintro f reads new empty pop junk ⟨hok, r, rfl, hr⟩ - - hpop hnew
    have hvalid : pop = true → f.ft_valid = true := by
      intro hp
      have hne := hpop hp
      have horder := hok.order
      change f.flops ≠ [] at hne
      obtain ⟨q, ft0, ft1⟩ := f
      cases ft0 <;> cases ft1 <;> simp_all [FtFifo.flops, FtFifo.ft_valid]
    have hflops := FtFifo.flops_step empty (r.getD junk) hok hvalid
    have hflight : FtFifo.flight (r.getD junk) f = r.toList := by
      unfold FtFifo.flight
      rw [← hr]
      cases r <;> rfl
    refine ⟨⟨FtFifo.ok_step hok hvalid, new, rfl, hnew⟩, ?_⟩
    change (f.step empty (r.getD junk) pop).flops = (if pop then f.flops.tail else f.flops) ++ r.toList
    rw [hflight] at hflops
    cases hp : pop with
    | false =>
      rw [hp] at hflops
      exact hflops.symm
    | true =>
      obtain ⟨a, ha⟩ := Option.isSome_iff_exists.mp (hvalid hp)
      have hhead : f.flops = a :: f.ft1.toList := by
        unfold FtFifo.flops
        rw [ha]
        rfl
      rw [hp, if_pos rfl, ha, hhead] at hflops
      rw [if_pos rfl, hhead]
      exact (List.cons.inj hflops).2.symm

namespace FtFifoP

variable {sync_rst_n ram_fifo_empty ft_pop : Bool} {ram_fifo_data : α} {f : FtFifoP α}

theorem ok_start : (start : FtFifoP α).Ok := ⟨nofun, nofun, rfl⟩

theorem qual_of_flops (h : f.Ok) (hpop : ft_pop → f.flops ≠ []) : qual_ft_pop ft_pop f = ft_pop := by
  obtain ⟨horder, horder', -⟩ := h
  obtain ⟨num, q, qq, ft0, ft1, ft2⟩ := f
  unfold flops at hpop
  unfold qual_ft_pop
  cases ft_pop <;> cases ft0 <;> cases ft1 <;> cases ft2 <;> simp_all

variable (ram_fifo_empty) in
theorem flops_step (h : f.Ok) (hpop : ft_pop → f.flops ≠ []) (r : Option α) (junk : α)
    (hr : r.isSome = f.ram_pop_qq) :
    (step true ram_fifo_empty (r.getD junk) ft_pop f).flops =
      (if ft_pop then f.flops.tail else f.flops) ++ r.toList := by
  have hqual := qual_of_flops h hpop
  obtain ⟨horder, horder', hnum⟩ := h
  have hroom : f.flops.length + f.ram_pop_qq.toNat ≤ 3 := by
    have hlt := f.num_valid.isLt
    omega
  clear hnum
  obtain ⟨num, q, qq, ft0, ft1, ft2⟩ := f
  unfold step nxt_ft0 nxt_ft1 nxt_ft2
  unfold flops at hroom hpop ⊢
  rw [hqual]
  cases ft_pop <;> cases ft0 <;> cases ft1 <;> cases ft2 <;> cases r <;> simp_all

theorem order_step (h : f.Ok) (hpop : ft_pop → f.flops ≠ []) :
    ((step true ram_fifo_empty ram_fifo_data ft_pop f).ft1.isSome →
      (step true ram_fifo_empty ram_fifo_data ft_pop f).ft0.isSome) ∧
    ((step true ram_fifo_empty ram_fifo_data ft_pop f).ft2.isSome →
      (step true ram_fifo_empty ram_fifo_data ft_pop f).ft1.isSome) := by
  have hqual := qual_of_flops h hpop
  obtain ⟨horder, horder', hnum⟩ := h
  have hlt := f.num_valid.isLt
  obtain ⟨num, q, qq, ft0, ft1, ft2⟩ := f
  unfold step nxt_ft0 nxt_ft1 nxt_ft2
  unfold flops at hnum hpop
  rw [hqual]
  cases ft_pop <;> cases qq <;> cases ft0 <;> cases ft1 <;> cases ft2 <;> simp_all

variable (ram_fifo_empty) in
/-- The counter does not wrap: it goes up when there is room, and down when a word is there. -/
theorem nxt_num_valid_toNat (h : f.Ok) (hpop : ft_pop → f.flops ≠ []) :
    (nxt_num_valid true ram_fifo_empty ft_pop f).toNat + ft_pop.toNat =
      f.num_valid.toNat + (ram_pop true ram_fifo_empty ft_pop f).toNat := by
  have hqual := qual_of_flops h hpop
  have hnum := h.num_valid
  have hlt := f.num_valid.isLt
  unfold nxt_num_valid
  rw [hqual]
  cases hp : ft_pop <;> cases hr : ram_pop true ram_fifo_empty ft_pop f
  · rw [hp] at hr
    rw [hr]
  · rw [hp] at hr
    rw [hr]
    have hroom : f.num_valid.toNat < 3 := by
      unfold ram_pop qual_ft_pop at hr
      have hside := (Bool.and_eq_true _ _ ▸ hr).2
      rwa [Bool.false_and, Bool.or_false, decide_eq_true_eq] at hside
    change (f.num_valid + 1).toNat + 0 = f.num_valid.toNat + 1
    rw [BitVec.toNat_add]
    change (f.num_valid.toNat + 1) % 4 + 0 = f.num_valid.toNat + 1
    omega
  · rw [hp] at hr
    rw [hr]
    have hpos : 0 < f.flops.length := List.length_pos_iff.mpr (hpop hp)
    change (f.num_valid - 1).toNat + 1 = f.num_valid.toNat + 0
    rw [BitVec.toNat_sub]
    change (4 - 1 + f.num_valid.toNat) % 4 + 1 = f.num_valid.toNat + 0
    omega
  · rw [hp] at hr
    rw [hr]

theorem ok_step (h : f.Ok) (hpop : ft_pop → f.flops ≠ []) (r : Option α) (junk : α)
    (hr : r.isSome = f.ram_pop_qq) : (step true ram_fifo_empty (r.getD junk) ft_pop f).Ok where
  order := (order_step h hpop).1
  order' := (order_step h hpop).2
  num_valid := by
    have hnum := h.num_valid
    have hnext := nxt_num_valid_toNat ram_fifo_empty h hpop
    have hflops := congrArg List.length (flops_step ram_fifo_empty h hpop r junk hr)
    have hback : r.toList.length = f.ram_pop_qq.toNat := by
      rw [← hr]
      cases r <;> rfl
    have hleft : (if ft_pop then f.flops.tail else f.flops).length + ft_pop.toNat =
        f.flops.length := by
      cases hp : ft_pop with
      | false => rfl
      | true =>
        have hpos : 0 < f.flops.length := List.length_pos_iff.mpr (hpop hp)
        rw [if_pos rfl, List.length_tail, Bool.toNat_true]
        omega
    rw [List.length_append, hback] at hflops
    change (nxt_num_valid true ram_fifo_empty ft_pop f).toNat =
      (step true ram_fifo_empty (r.getD junk) ft_pop f).flops.length + f.ram_pop_q.toNat +
        (ram_pop true ram_fifo_empty ft_pop f).toNat
    omega

end FtFifoP

theorem ft_fifo_p_buffers : (ft_fifo_p : FtModule α).Buffers 2
    (fun f reads => FtFifoP.Ok f ∧ ∃ r r', reads = [r, r'] ∧ r.isSome = FtFifoP.ram_pop_qq f ∧
      r'.isSome = FtFifoP.ram_pop_q f) where
  reset := ⟨FtFifoP.ok_start, none, none, rfl, rfl, rfl⟩
  empty := rfl
  ft0 := by
    rintro ⟨num, q, qq, ft0, ft1, ft2⟩ reads ⟨hok, -⟩
    have horder := hok.order
    have horder' := hok.order'
    cases ft0 <;> cases ft1 <;> cases ft2 <;> simp_all [ft_fifo_p, FtFifoP.flops]
  ram_pop := by
    rintro f reads pop ram ⟨hok, r, r', rfl, hr, hr'⟩ - hpop
    have hqual := FtFifoP.qual_of_flops hok hpop
    have hflight : ([r, r'].filterMap id).length = f.ram_pop_qq.toNat + f.ram_pop_q.toNat := by
      rw [← hr, ← hr']
      cases r <;> cases r' <;> rfl
    have hcount : FlowBuf.count ⟨ram, [r, r'], f.flops⟩ = f.num_valid.toNat := by
      rw [hok.num_valid, Nat.add_assoc, ← hflight]
      rfl
    change FtFifoP.ram_pop true ram.isEmpty pop f = FlowBuf.fetch 2 pop ⟨ram, [r, r'], f.flops⟩
    unfold FtFifoP.ram_pop FlowBuf.fetch
    rw [hqual, hcount, Bool.and_true]
  step := by
    rintro f reads new empty pop junk ⟨hok, r, r', rfl, hr, hr'⟩ - - hpop hnew
    exact ⟨⟨FtFifoP.ok_step hok hpop r junk hr, r', new, rfl, hr', hnew⟩,
      FtFifoP.flops_step empty hok hpop r junk hr⟩

/-! ## Over a RAM FIFO -/

structure FtIn (α : Type) where
  /-- What comes into the RAM FIFO. -/
  push : Option α
  /-- What the RAM shows when no read returns. -/
  junk : α
  ft_pop : Bool

structure FtOver (M : FtModule α) where
  ram : List α
  /-- What was read in the last cycles, the earliest first. -/
  reads : List (Option α)
  FT_FIFO : M.Regs

namespace FtOver

variable (M : FtModule α) (L : Nat)

section

variable (i : FtIn α) (s : FtOver M)

def ram_pop : Bool := M.ram_pop true s.ram.isEmpty i.ft_pop s.FT_FIFO

def ram_fifo_data : α := (s.reads.headD none).getD i.junk

/-- The RAM FIFO with a read latency of `L`, and the flow-through FIFO on it. -/
def over_ram : Circuit (FtIn α) (FtOver M) where
  reset := ⟨[], List.replicate L none, M.reset⟩
  step i s :=
    { ram := (if ram_pop M i s then s.ram.tail else s.ram) ++ i.push.toList
      reads := s.reads.tail ++ [if ram_pop M i s then s.ram.head? else none]
      FT_FIFO := M.step true s.ram.isEmpty (ram_fifo_data M i s) i.ft_pop s.FT_FIFO }

def ft_valid : Bool := (M.ft0 s.FT_FIFO).isSome

/-- `{ft_valid, ft_data}` when it is popped. -/
def popped : List α := if i.ft_pop then (M.ft0 s.FT_FIFO).toList else []

def flow : FlowBuf α := ⟨s.ram, s.reads, M.flops s.FT_FIFO⟩

end

variable (ins : Nat → FtIn α)

/-- Nobody pops when there is nothing. -/
def Orderly : Prop := ∀ n, (ins n).ft_pop → ft_valid M ((over_ram M L).state ins n)

/-- What the FIFO does in a run. -/
structure FlowsThrough : Prop where
  /-- The words of the RAM FIFO leave in order, each once. -/
  order : ∀ n, (over_ram M L).passed ins (fun i _ => i.push.toList) n =
    (over_ram M L).passed ins (popped M) n ++ (flow M ((over_ram M L).state ins n)).held
  /-- Whatever is on the way finds a register. -/
  room : ∀ n, (flow M ((over_ram M L).state ins n)).count ≤ L + 1
  /-- A word in the RAM is seen after the latency, if no earlier one is. -/
  latency : ∀ n, ((over_ram M L).state ins n).ram ≠ [] →
    ft_valid M ((over_ram M L).state ins (n + (L + 1)))
  /-- Once as many words are read as there are registers, there is one in every cycle until the RAM
  is empty. -/
  stream : ∀ n d, L + 1 ≤ (flow M ((over_ram M L).state ins n)).count →
    (∀ k < d, ((over_ram M L).state ins (n + k)).ram ≠ []) →
    ∀ k ≤ d, ft_valid M ((over_ram M L).state ins (n + k))

variable {M L ins} {R : M.Regs → List (Option α) → Prop}

theorem ft_valid_iff (hM : M.Buffers L R) {s : FtOver M} (h : R s.FT_FIFO s.reads) :
    ft_valid M s = true ↔ (flow M s).flops ≠ [] := by
  unfold ft_valid flow
  rw [hM.ft0 h, Option.isSome_iff_ne_none, ne_eq, List.head?_eq_none_iff]

theorem flow_step (hM : M.Buffers L R) {i : FtIn α} {s : FtOver M} (h : R s.FT_FIFO s.reads)
    (hok : (flow M s).Ok L) (hpop : i.ft_pop → ft_valid M s) :
    flow M ((over_ram M L).step i s) = FlowBuf.next L i.push i.ft_pop (flow M s) ∧
      R ((over_ram M L).step i s).FT_FIFO ((over_ram M L).step i s).reads := by
  have hne : i.ft_pop → M.flops s.FT_FIFO ≠ [] := fun hp => (ft_valid_iff hM h).mp (hpop hp)
  have hfetch : ram_pop M i s = FlowBuf.fetch L i.ft_pop (flow M s) := hM.ram_pop s.ram h hok hne
  have hnew : (if ram_pop M i s then s.ram.head? else none).isSome = ram_pop M i s := by
    cases hf : ram_pop M i s with
    | false => rfl
    | true =>
      obtain ⟨a, ha⟩ := FlowBuf.ram_of_fetch (hfetch ▸ hf)
      have hram : s.ram.head? = some a := by
        rw [show s.ram = a :: _ from ha]
        rfl
      rw [if_pos rfl, hram]
      rfl
  obtain ⟨hR, hflops⟩ := hM.step i.junk h hok.reads hok.room hne hnew
  refine ⟨?_, hR⟩
  unfold FlowBuf.next
  rw [← hfetch]
  change (⟨_, _, M.flops (M.step _ _ _ _ _)⟩ : FlowBuf α) = ⟨_, _, _⟩
  rw [show M.flops (M.step true s.ram.isEmpty (ram_fifo_data M i s) i.ft_pop s.FT_FIFO) = _ from
    hflops]
  rfl

theorem flows_through (hL : 0 < L) (hM : M.Buffers L R) (hpop : Orderly M L ins) :
    FlowsThrough M L ins := by
  have hstart : flow M ((over_ram M L).state ins 0) = FlowBuf.start L :=
    congrArg (FlowBuf.mk [] (List.replicate L none)) hM.empty
  have hall : ∀ n, (flow M ((over_ram M L).state ins n)).Ok L ∧
      R ((over_ram M L).state ins n).FT_FIFO ((over_ram M L).state ins n).reads := by
    intro n
    induction n with
    | zero =>
      rw [hstart]
      exact ⟨FlowBuf.ok_start, hM.reset⟩
    | succ n ih =>
      obtain ⟨hflow, hR⟩ := flow_step hM ih.2 ih.1 (hpop n)
      rw [Circuit.state_succ, hflow]
      exact ⟨FlowBuf.ok_next _ hL ih.1 fun hp => (ft_valid_iff hM ih.2).mp (hpop n hp), hR⟩
  have hne : ∀ n, (ins n).ft_pop → (flow M ((over_ram M L).state ins n)).flops ≠ [] :=
    fun n hp => (ft_valid_iff hM (hall n).2).mp (hpop n hp)
  have hnext : ∀ n, flow M ((over_ram M L).state ins (n + 1)) =
      FlowBuf.next L (ins n).push (ins n).ft_pop (flow M ((over_ram M L).state ins n)) :=
    fun n => (flow_step hM (hall n).2 (hall n).1 (hpop n)).1
  refine ⟨?_, fun n => (hall n).1.room, ?_, ?_⟩
  · intro n
    induction n with
    | zero =>
      rw [hstart, FlowBuf.held_start]
      rfl
    | succ n ih =>
      have hheld := FlowBuf.held_next (ins n).push hL (hall n).1 (hne n)
      have hout : popped M (ins n) ((over_ram M L).state ins n) = if (ins n).ft_pop then
          (flow M ((over_ram M L).state ins n)).flops.head?.toList else [] := by
        unfold popped
        rw [hM.ft0 (hall n).2]
        rfl
      rw [Circuit.passed_succ, Circuit.passed_succ, ih, List.append_assoc, List.append_assoc, hnext,
        hout, hheld]
  · intro n hram
    apply (ft_valid_iff hM (hall _).2).mpr
    exact FlowBuf.shown (t := fun k => flow M ((over_ram M L).state ins (n + k))) hL (hall n).1
      (fun k _ => hnext (n + k)) (fun k _ => hne (n + k)) hram
  · intro n d hfull hram k hk
    have hkeeps : L + 1 ≤ (flow M ((over_ram M L).state ins (n + k))).count := by
      induction k with
      | zero => exact hfull
      | succ k ih =>
        rw [← Nat.add_assoc, hnext]
        exact FlowBuf.full_next hL (hall _).1 (hne _) (hram k hk) (ih (by omega))
    exact (ft_valid_iff hM (hall _).2).mpr (FlowBuf.flops_of_full (hall _).1 hkeeps)

end FtOver

/-- Both FIFOs are as fast as flops and lose nothing, over a RAM with their read latency. -/
theorem ft_fifos (ins : Nat → FtIn α) :
    (FtOver.Orderly ft_fifo 1 ins → FtOver.FlowsThrough ft_fifo 1 ins) ∧
      (FtOver.Orderly ft_fifo_p 2 ins → FtOver.FlowsThrough ft_fifo_p 2 ins) :=
  ⟨FtOver.flows_through Nat.one_pos ft_fifo_buffers,
    FtOver.flows_through Nat.two_pos ft_fifo_p_buffers⟩

/-- Eight words come in one after another, and seven leave, with cycles between them. -/
def eight_words (n : Nat) : FtIn Nat where
  push := if n < 8 then some n else none
  junk := 99
  ft_pop := n ∈ [5, 6, 8, 9, 10, 12, 15]

theorem eight_words_popped {P : Nat → Prop} (h : ∀ n ∈ [5, 6, 8, 9, 10, 12, 15], P n) (n : Nat)
    (hpop : (eight_words n).ft_pop) : P n :=
  h n (of_decide_eq_true hpop)

theorem eight_words_flow :
    FtOver.FlowsThrough ft_fifo 1 eight_words ∧ FtOver.FlowsThrough ft_fifo_p 2 eight_words ∧
    (FtOver.over_ram ft_fifo 1).passed eight_words (FtOver.popped ft_fifo) 16 = List.range 7 ∧
    (FtOver.over_ram ft_fifo_p 2).passed eight_words (FtOver.popped ft_fifo_p) 16 = List.range 7 :=
  ⟨(ft_fifos eight_words).1 (eight_words_popped (by decide +kernel)),
    (ft_fifos eight_words).2 (eight_words_popped (by decide +kernel)), by decide +kernel,
    by decide +kernel⟩

end AwsFpga.Rtl
