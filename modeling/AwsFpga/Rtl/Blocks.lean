import AwsFpga.Lib.Ring

/-!
# Shared blocks (`hdk/common/lib`)
-/

open Lib

namespace AwsFpga.Rtl

/-! ## The round robin arbiter (`rr_arb.sv`) -/

def hi_pri (REQ_WIDTH winner_q : Nat) : Nat := if winner_q = REQ_WIDTH - 1 then 0 else winner_q + 1

/-- The adjustment for odd widths. -/
def adjust (REQ_WIDTH tmp_winner : Nat) : Nat :=
  if REQ_WIDTH ≤ tmp_winner then tmp_winner - REQ_WIDTH else tmp_winner

/-- `{2{req}} >> hi_pri`. -/
def req_shifted (REQ_WIDTH : Nat) (req : Nat → Bool) (hi_pri i : Nat) : Bool :=
  req (adjust REQ_WIDTH (hi_pri + i))

/-- The loop of the arbiter, down from `REQ_WIDTH - 1`: the last request that it meets wins. -/
def rr_loop (REQ_WIDTH : Nat) (req : Nat → Bool) (hi_pri : Nat) : (i tmp_winner : Nat) → Nat
  | 0, tmp_winner => tmp_winner
  | i + 1, tmp_winner => rr_loop REQ_WIDTH req hi_pri i
      (if req_shifted REQ_WIDTH req hi_pri i then adjust REQ_WIDTH (hi_pri + i) else tmp_winner)

/-- `winner`, where `DO_ARB_IS_CHANGE_STATE` is 1. -/
def rr_arb (REQ_WIDTH : Nat) (req : Nat → Bool) (winner_q : Nat) : Nat :=
  rr_loop REQ_WIDTH req (hi_pri REQ_WIDTH winner_q) REQ_WIDTH 0

theorem rr_loop_winner {REQ_WIDTH : Nat} {req : Nat → Bool} {hi_pri : Nat}
    (hpri : hi_pri < REQ_WIDTH) {i tmp_winner : Nat} (hi : i ≤ REQ_WIDTH)
    (h : tmp_winner < REQ_WIDTH ∧ req tmp_winner ∨
      ∃ j < i, req_shifted REQ_WIDTH req hi_pri j) :
    rr_loop REQ_WIDTH req hi_pri i tmp_winner < REQ_WIDTH ∧
      req (rr_loop REQ_WIDTH req hi_pri i tmp_winner) := by
  induction i generalizing tmp_winner with
  | zero =>
    rcases h with h | ⟨j, hj, -⟩
    · exact h
    · omega
  | succ i ih =>
    rw [rr_loop]
    refine ih (by omega) ?_
    split
    case isTrue hreq =>
      refine .inl ⟨?_, hreq⟩
      unfold adjust
      split <;> omega
    case isFalse hreq =>
      rcases h with h | ⟨j, hj, hjreq⟩
      · exact .inl h
      · rcases Nat.lt_succ_iff_lt_or_eq.mp hj with hlt | rfl
        · exact .inr ⟨j, hlt, hjreq⟩
        · exact absurd hjreq hreq

theorem hi_pri_lt {REQ_WIDTH winner_q : Nat} (h : winner_q < REQ_WIDTH) :
    hi_pri REQ_WIDTH winner_q < REQ_WIDTH := by
  unfold hi_pri
  split <;> omega

theorem rr_arb_req {REQ_WIDTH : Nat} (req : Nat → Bool) {winner_q k : Nat}
    (hwinner : winner_q < REQ_WIDTH) (hk : k < REQ_WIDTH) (hreq : req k) :
    rr_arb REQ_WIDTH req winner_q < REQ_WIDTH ∧ req (rr_arb REQ_WIDTH req winner_q) := by
  have hpri := hi_pri_lt hwinner
  refine rr_loop_winner hpri (Nat.le_refl _) (.inr ?_)
  refine ⟨(k + REQ_WIDTH - hi_pri REQ_WIDTH winner_q) % REQ_WIDTH, Nat.mod_lt _ (by omega), ?_⟩
  have hidx : adjust REQ_WIDTH
      (hi_pri REQ_WIDTH winner_q + (k + REQ_WIDTH - hi_pri REQ_WIDTH winner_q) % REQ_WIDTH) = k := by
    unfold adjust
    by_cases hle : hi_pri REQ_WIDTH winner_q ≤ k
    · have hmod : (k + REQ_WIDTH - hi_pri REQ_WIDTH winner_q) % REQ_WIDTH =
          k - hi_pri REQ_WIDTH winner_q := by
        rw [show k + REQ_WIDTH - hi_pri REQ_WIDTH winner_q =
          k - hi_pri REQ_WIDTH winner_q + REQ_WIDTH by omega, Nat.add_mod_right]
        exact Nat.mod_eq_of_lt (by omega)
      rw [hmod]
      split <;> omega
    · have hmod : (k + REQ_WIDTH - hi_pri REQ_WIDTH winner_q) % REQ_WIDTH =
          k + REQ_WIDTH - hi_pri REQ_WIDTH winner_q := Nat.mod_eq_of_lt (by omega)
      rw [hmod]
      split <;> omega
  unfold req_shifted
  rw [hidx]
  exact hreq

theorem rr_loop_lt {REQ_WIDTH : Nat} {req : Nat → Bool} {hi_pri : Nat} (hpri : hi_pri < REQ_WIDTH)
    {i tmp_winner : Nat} (hi : i ≤ REQ_WIDTH) (h : tmp_winner < REQ_WIDTH) :
    rr_loop REQ_WIDTH req hi_pri i tmp_winner < REQ_WIDTH := by
  induction i generalizing tmp_winner with
  | zero => exact h
  | succ i ih =>
    refine ih (by omega) ?_
    split
    · unfold adjust
      split <;> omega
    · exact h

theorem rr_arb_lt {REQ_WIDTH : Nat} {req : Nat → Bool} {winner_q : Nat}
    (hwinner : winner_q < REQ_WIDTH) : rr_arb REQ_WIDTH req winner_q < REQ_WIDTH :=
  rr_loop_lt (hi_pri_lt hwinner) (Nat.le_refl _) (by omega)

/-! ## The shifting FIFO (`flop_fifo.sv`)

Its valid bits are set from the first entry on without a gap, so a list stands
for the entries that are valid. -/

variable {α : Type}

/-- A push into a full FIFO is lost, and a pop takes what was pushed into an empty one. -/
def flop_fifo (DEPTH : Nat) (push : Option α) (pop : Bool) (fifo : List α) : List α :=
  let nxt_fifo := if fifo.length < DEPTH then fifo ++ push.toList else fifo
  if pop then nxt_fifo.tail else nxt_fifo

/-- `fifo_valid[cfg_watermark]`. -/
def watermark (cfg_watermark : Nat) (fifo : List α) : Bool := cfg_watermark < fifo.length

theorem flop_fifo_mem {DEPTH : Nat} {push : Option α} {pop : Bool} {fifo : List α} {a : α}
    (h : a ∈ flop_fifo DEPTH push pop fifo) : push = some a ∨ a ∈ fifo := by
  have hnxt : a ∈ (if fifo.length < DEPTH then fifo ++ push.toList else fifo) := by
    unfold flop_fifo at h
    dsimp only at h
    split at h
    · exact List.mem_of_mem_tail h
    · exact h
  split at hnxt
  · rw [List.mem_append, Option.mem_toList] at hnxt
    exact hnxt.symm
  · exact .inr hnxt

/-- Used as it should be: nothing comes in when it is full, nothing is taken when it is empty. -/
theorem flop_fifo_eq {DEPTH : Nat} {push : Option α} {pop : Bool} {fifo : List α}
    (hpush : fifo.length < DEPTH ∨ push = none) (hpop : pop → fifo ≠ []) :
    flop_fifo DEPTH push pop fifo = (if pop then fifo.tail else fifo) ++ push.toList := by
  have hnxt : (if fifo.length < DEPTH then fifo ++ push.toList else fifo) = fifo ++ push.toList := by
    rcases hpush with h | rfl
    · rw [if_pos h]
    · simp
  unfold flop_fifo
  dsimp only
  rw [hnxt]
  cases pop with
  | false => rfl
  | true =>
    simp only [if_true]
    exact List.tail_append_of_ne_nil (hpop rfl)

/-! ## The FIFO that flops its input (`flop_fifo_in.sv`)

A list stands for the entries that are valid, the oldest first. -/

/-- A push into a full FIFO shifts the oldest entry out, and a pop takes what was pushed into an
empty one. -/
def flop_fifo_in (DEPTH : Nat) (push : Option α) (pop : Bool) (ff_fifo : List α) : List α :=
  let shifted := ff_fifo ++ push.toList
  if pop then shifted.tail else shifted.drop (shifted.length - DEPTH)

theorem flop_fifo_in_eq {DEPTH : Nat} {push : Option α} {pop : Bool} {ff_fifo : List α}
    (hlen : ff_fifo.length ≤ DEPTH) (hpush : ff_fifo.length < DEPTH ∨ push = none)
    (hpop : pop → ff_fifo ≠ []) :
    flop_fifo_in DEPTH push pop ff_fifo =
      (if pop then ff_fifo.tail else ff_fifo) ++ push.toList := by
  unfold flop_fifo_in
  dsimp only
  cases pop with
  | true =>
    simp only [if_true]
    exact List.tail_append_of_ne_nil (hpop rfl)
  | false =>
    have hle : (ff_fifo ++ push.toList).length - DEPTH = 0 := by
      rw [List.length_append]
      rcases hpush with h | rfl
      · have hone : push.toList.length ≤ 1 := by cases push <;> simp
        omega
      · simp
        omega
    simp only [Bool.false_eq_true, if_false]
    rw [hle, List.drop_zero]

/-! ## The flow-through FIFO (`ft_fifo.v`)

It reads a RAM, whose data comes one cycle after the pop. -/

/-- A flop is `none` when its valid bit is not set. -/
structure FtFifo (α : Type) where
  ram_pop_q : Bool
  ft0 : Option α
  ft1 : Option α
  deriving DecidableEq

namespace FtFifo

variable (ram_fifo_empty : Bool) (ram_fifo_data : α) (ft_pop : Bool) (f : FtFifo α)

def start : FtFifo α := ⟨false, none, none⟩

def ft_valid : Bool := f.ft0.isSome

def ram_pop : Bool :=
  !ram_fifo_empty && (!f.ft1.isSome || ft_pop) && (!f.ft0.isSome || !f.ram_pop_q || ft_pop)

def nxt_ft0 : Option α := if f.ram_pop_q && !f.ft0.isSome then some ram_fifo_data else f.ft0

def nxt_ft1 : Option α := if f.ram_pop_q && f.ft0.isSome then some ram_fifo_data else f.ft1

def step : FtFifo α where
  ram_pop_q := ram_pop ram_fifo_empty ft_pop f
  ft0 := if ft_pop then nxt_ft1 ram_fifo_data f else nxt_ft0 ram_fifo_data f
  ft1 := if ft_pop then none else nxt_ft1 ram_fifo_data f

/-- What the RAM gives comes to a free flop, and the flops fill up in order. -/
structure Ok : Prop where
  order : f.ft1.isSome → f.ft0.isSome
  room : f.ram_pop_q → f.ft1 = none

def flops : List α := f.ft0.toList ++ f.ft1.toList

/-- What was popped from the RAM and is on the way. -/
def flight : List α := if f.ram_pop_q then [ram_fifo_data] else []

variable {ram_fifo_empty ram_fifo_data ft_pop f}

theorem ok_start : (start : FtFifo α).Ok := ⟨nofun, nofun⟩

theorem ok_step (h : f.Ok) (hpop : ft_pop → f.ft_valid) :
    (step ram_fifo_empty ram_fifo_data ft_pop f).Ok := by
  obtain ⟨horder, hroom⟩ := h
  obtain ⟨pop_q, ft0, ft1⟩ := f
  unfold step ram_pop nxt_ft0 nxt_ft1
  unfold ft_valid at hpop
  constructor <;> cases ft_pop <;> cases pop_q <;> cases ft0 <;> cases ft1 <;> simp_all

theorem empty_of_idle (h : f.Ok) (hpop : ft_pop → f.ft_valid)
    (hidle : ram_pop ram_fifo_empty ft_pop f = false)
    (hroom : (step ram_fifo_empty ram_fifo_data ft_pop f).ft1 = none) : ram_fifo_empty = true := by
  obtain ⟨horder, hfree⟩ := h
  obtain ⟨pop_q, ft0, ft1⟩ := f
  unfold ram_pop at hidle
  unfold step nxt_ft1 at hroom
  unfold ft_valid at hpop
  cases ft_pop <;> cases pop_q <;> cases ft0 <;> cases ft1 <;> simp_all

theorem idle_of_starved (h : f.Ok) (hpop : ft_pop → f.ft_valid)
    (hnone : (step ram_fifo_empty ram_fifo_data ft_pop f).ft0 = none) :
    f.ram_pop_q = false ∧ f.ft1 = none ∧ (f.ft0 = none ∨ ft_pop) := by
  obtain ⟨horder, hfree⟩ := h
  obtain ⟨pop_q, ft0, ft1⟩ := f
  unfold step nxt_ft1 nxt_ft0 at hnone
  unfold ft_valid at hpop
  cases ft_pop <;> cases pop_q <;> cases ft0 <;> cases ft1 <;> simp_all

variable (ram_fifo_empty ram_fifo_data) in
theorem flops_step (h : f.Ok) (hpop : ft_pop → f.ft_valid) :
    f.flops ++ flight ram_fifo_data f = (if ft_pop then f.ft0.toList else []) ++
      (step ram_fifo_empty ram_fifo_data ft_pop f).flops := by
  obtain ⟨horder, hroom⟩ := h
  obtain ⟨pop_q, ft0, ft1⟩ := f
  unfold flops flight step nxt_ft0 nxt_ft1
  unfold ft_valid at hpop
  cases ft_pop <;> cases pop_q <;> cases ft0 <;> cases ft1 <;> simp_all

@[simp] theorem flight_length : (f.flight ram_fifo_data).length = f.ram_pop_q.toNat := by
  unfold flight
  cases f.ram_pop_q <;> rfl

theorem ft0_of_pop (hpop : ft_pop → f.ft_valid) :
    (if ft_pop then f.ft0.toList else []).length = ft_pop.toNat := by
  cases hcase : ft_pop with
  | false => rfl
  | true =>
    obtain ⟨a, ha⟩ := Option.isSome_iff_exists.mp (hpop hcase)
    simp [ha]

/-- How long an entry takes through the RAM: of all entries, `popped` were popped, and `pushed_q` and
`pushed_qq` were pushed one and two cycles before. -/
structure Delay (f : FtFifo α) (popped pushed_q pushed_qq : Nat) : Prop where
  flops : popped + f.flops.length ≤ pushed_qq
  flight : popped + f.flops.length + f.ram_pop_q.toNat ≤ pushed_q
  idle : f.ram_pop_q = false → f.ft1 = none → pushed_q ≤ popped + f.flops.length
  /-- Who sees nothing has popped everything that is older. -/
  starved : f.ft0 = none → pushed_qq ≤ popped

theorem delay_start : (start : FtFifo α).Delay 0 0 0 where
  flops := by simp [start, flops]
  flight := by simp [start, flops]
  idle := by simp
  starved := by simp

theorem delay_step {popped pushed pushed_q pushed_qq count : Nat} (h : f.Ok)
    (hpop : ft_pop → f.ft_valid) (hd : f.Delay popped pushed_q pushed_qq)
    (hall : popped + (f.flops.length + f.ram_pop_q.toNat + count) = pushed)
    (hempty : ram_fifo_empty = decide (count = 0)) :
    (step ram_fifo_empty ram_fifo_data ft_pop f).Delay (popped + ft_pop.toNat) pushed pushed_q := by
  have hflops := congrArg List.length (flops_step ram_fifo_empty ram_fifo_data h hpop)
  rw [List.length_append, List.length_append, flight_length, ft0_of_pop hpop] at hflops
  refine ⟨?_, ?_, ?_, ?_⟩
  · have hle := hd.flight
    omega
  · change _ + (step ram_fifo_empty ram_fifo_data ft_pop f).flops.length +
      (ram_pop ram_fifo_empty ft_pop f).toNat ≤ _
    cases hrd : ram_pop ram_fifo_empty ft_pop f with
    | false =>
      rw [Bool.toNat_false]
      omega
    | true =>
      have hsome : ram_fifo_empty = false := by
        unfold ram_pop at hrd
        simp only [Bool.and_eq_true, Bool.not_eq_true'] at hrd
        exact hrd.1.1
      rw [hsome] at hempty
      have hne := of_decide_eq_false hempty.symm
      rw [Bool.toNat_true]
      omega
  · intro hidle hroom
    have hnone := empty_of_idle h hpop hidle hroom
    rw [hnone] at hempty
    have hzero := of_decide_eq_true hempty.symm
    omega
  · intro hnone
    obtain ⟨hq, hft1, -⟩ := idle_of_starved h hpop hnone
    have hle := hd.idle hq hft1
    have hok : (step ram_fifo_empty ram_fifo_data ft_pop f).Ok := ok_step h hpop
    have hft1' : (step ram_fifo_empty ram_fifo_data ft_pop f).ft1 = none := by
      by_contra hsome
      have hft0 := hok.order (Option.isSome_iff_ne_none.mpr hsome)
      rw [hnone] at hft0
      cases hft0
    have hzero : (step ram_fifo_empty ram_fifo_data ft_pop f).flops.length = 0 := by
      rw [flops, hnone, hft1']
      rfl
    rw [hq, Bool.toNat_false] at hflops
    omega

end FtFifo

/-! ## The pointers of a RAM that is used as a FIFO

The descriptor RAM, the packet buffer and the RAM of packet ends keep theirs in
the same way. -/

structure RamPtrs where
  wr_ptr : Ptr
  rd_ptr : Ptr
  empty : Bool
  full : Bool
  deriving DecidableEq

namespace RamPtrs

variable (depth : Nat) (wr rd : Bool) (p : RamPtrs)

def start : RamPtrs := ⟨⟨0, false⟩, ⟨0, false⟩, true, false⟩

def step : RamPtrs where
  wr_ptr := if wr then p.wr_ptr.next depth else p.wr_ptr
  rd_ptr := if rd then p.rd_ptr.next depth else p.rd_ptr
  empty :=
    if wr && !rd then false
    else if !wr && rd then p.wr_ptr = p.rd_ptr.next depth
    else p.empty
  full :=
    if wr && !rd then
      (p.wr_ptr.next depth).msb ≠ p.rd_ptr.msb && (p.wr_ptr.next depth).idx = p.rd_ptr.idx
    else if !wr && rd then false
    else p.full

def count : Nat := Ring.count depth p.wr_ptr p.rd_ptr

/-- The RAM after a cycle in which `wdata` may be written. -/
def write (mem : Nat → α) (wdata : α) : Nat → α :=
  if wr then Function.update mem p.wr_ptr.idx wdata else mem

def contents (mem : Nat → α) : List α := Ring.contents depth mem p.wr_ptr p.rd_ptr

structure Ok : Prop where
  ring : Ring.Ok depth p.wr_ptr p.rd_ptr
  empty : p.empty = decide (p.count depth = 0)
  full : p.full = decide (p.count depth = depth)

variable {depth wr rd p}

theorem ok_start (h : 0 < depth) : start.Ok depth where
  ring := Ring.ok_start h
  empty := by simp [start, count, Ring.count]
  full := by
    have hne : ¬ 0 = depth := by omega
    simp [start, count, Ring.count, hne]

/-- The flags follow from the pointers. -/
theorem Ok.eq_mk (h : p.Ok depth) :
    p = ⟨p.wr_ptr, p.rd_ptr, Ring.count depth p.wr_ptr p.rd_ptr = 0,
      Ring.count depth p.wr_ptr p.rd_ptr = depth⟩ := by
  have hempty := h.empty
  have hfull := h.full
  unfold count at hempty hfull
  rw [← hempty, ← hfull]

theorem count_le (h : p.Ok depth) : p.count depth ≤ depth := Ring.count_le h.ring

@[simp] theorem contents_length {mem : Nat → α} :
    (p.contents depth mem).length = p.count depth := Ring.contents_length

theorem ok_read (h : p.Ok depth) (hrd : rd → p.empty = false) :
    Ring.Ok depth p.wr_ptr (if rd then p.rd_ptr.next depth else p.rd_ptr) ∧
      Ring.count depth p.wr_ptr (if rd then p.rd_ptr.next depth else p.rd_ptr) + rd.toNat =
        p.count depth := by
  cases rd with
  | false => exact ⟨h.ring, rfl⟩
  | true =>
    have hcount : 0 < p.count depth := by
      have hempty := hrd rfl
      rw [h.empty, decide_eq_false_iff_not] at hempty
      omega
    exact Ring.ok_read h.ring hcount

theorem ok_step (h : p.Ok depth) (hwr : wr → p.full = false) (hrd : rd → p.empty = false) :
    (step depth wr rd p).Ok depth ∧
      (step depth wr rd p).count depth + rd.toNat = p.count depth + wr.toNat := by
  obtain ⟨hok, hcount⟩ := ok_read h hrd
  have hle := count_le h
  cases wr with
  | false =>
    refine ⟨⟨hok, ?_, ?_⟩, hcount⟩
    · cases rd with
      | false => exact h.empty
      | true => exact decide_eq_decide.mpr (Ring.count_eq_zero hok).symm
    · cases rd with
      | false => exact h.full
      | true =>
        symm
        change decide (Ring.count depth p.wr_ptr (p.rd_ptr.next depth) = depth) = false
        rw [decide_eq_false_iff_not]
        simp only [if_true, Bool.toNat_true] at hcount
        omega
  | true =>
    have hroom : p.count depth < depth := by
      have hfull := hwr rfl
      rw [h.full, decide_eq_false_iff_not] at hfull
      omega
    obtain ⟨hok', hcount'⟩ := Ring.ok_write hok (by omega)
    have hsum : (step depth true rd p).count depth + rd.toNat = p.count depth + true.toNat := by
      have hnew : (step depth true rd p).count depth =
          Ring.count depth p.wr_ptr (if rd then p.rd_ptr.next depth else p.rd_ptr) + 1 := hcount'
      rw [hnew, Bool.toNat_true]
      omega
    refine ⟨⟨hok', ?_, ?_⟩, hsum⟩
    · cases rd with
      | false =>
        symm
        change decide ((step depth true false p).count depth = 0) = false
        rw [decide_eq_false_iff_not]
        simp only [Bool.toNat_false, Bool.toNat_true] at hsum
        omega
      | true =>
        change p.empty = decide ((step depth true true p).count depth = 0)
        simp only [Bool.toNat_true] at hsum
        rw [h.empty, show (step depth true true p).count depth = p.count depth by omega]
    · cases rd with
      | false =>
        have heq : Ring.count depth (p.wr_ptr.next depth) p.rd_ptr = depth ↔
            (p.wr_ptr.next depth).msb ≠ p.rd_ptr.msb ∧ (p.wr_ptr.next depth).idx = p.rd_ptr.idx :=
          Ring.count_eq_depth hok'
        change (_ && _) = decide (Ring.count depth (p.wr_ptr.next depth) p.rd_ptr = depth)
        rw [decide_eq_decide.mpr heq, Bool.decide_and]
      | true =>
        change p.full = decide ((step depth true true p).count depth = depth)
        simp only [Bool.toNat_true] at hsum
        rw [h.full, show (step depth true true p).count depth = p.count depth by omega]

/-- What a cycle writes goes behind the contents, and what it reads was their first entry. -/
theorem contents_step (h : p.Ok depth) (hwr : wr → p.full = false) (hrd : rd → p.empty = false)
    (mem : Nat → α) (wdata : α) :
    p.contents depth mem ++ (if wr then [wdata] else []) =
      (if rd then [mem p.rd_ptr.idx] else []) ++
        (step depth wr rd p).contents depth (write wr p mem wdata) := by
  obtain ⟨hok, hcount⟩ := ok_read h hrd
  have hle := count_le h
  have hread : p.contents depth mem = (if rd then [mem p.rd_ptr.idx] else []) ++
      Ring.contents depth mem p.wr_ptr (if rd then p.rd_ptr.next depth else p.rd_ptr) := by
    cases rd with
    | false => rfl
    | true =>
      have hpos : 0 < p.count depth := by
        rw [← hcount]
        simp
      exact Ring.contents_read h.ring hpos
  rw [hread]
  cases wr with
  | false =>
    rw [if_neg Bool.false_ne_true, List.append_nil]
    rfl
  | true =>
    have hroom : p.count depth < depth := by
      have hfull := hwr rfl
      rw [h.full, decide_eq_false_iff_not] at hfull
      omega
    have hwrite := Ring.contents_write hok (by omega) mem wdata
    rw [List.append_assoc, if_pos rfl, ← hwrite]
    rfl

theorem write_map {β : Type} (g : Nat → α → β) (mem : Nat → α) (wdata : α) :
    write wr p (fun k => g k (mem k)) (g p.wr_ptr.idx wdata) = fun k => g k (write wr p mem wdata k) := by
  unfold write
  cases wr with
  | false => rfl
  | true =>
    funext k
    simp only [if_true]
    by_cases hk : k = p.wr_ptr.idx
    · rw [hk, Function.update_self, Function.update_self]
    · rw [Function.update_of_ne hk, Function.update_of_ne hk]

/-- `k` entries were written in all, and `r` of them were read. -/
structure At (depth : Nat) (p : RamPtrs) (k r : Nat) : Prop where
  wr_ptr : p.wr_ptr = .after depth k
  rd_ptr : p.rd_ptr = .after depth r
  read_le : r ≤ k
  room : k ≤ r + depth

theorem at_start : At depth start 0 0 where
  wr_ptr := by simp [start, Ptr.after]
  rd_ptr := by simp [start, Ptr.after]
  read_le := Nat.le_refl 0
  room := Nat.zero_le _

theorem count_at {k r : Nat} (hpos : 0 < depth) (h : p.At depth k r) : p.count depth = k - r := by
  obtain ⟨hwr, hrd, hle, hroom⟩ := h
  have hcount := (Ring.after_ok hpos (by omega : k - r ≤ depth) (k := r)).2
  rwa [Nat.add_sub_cancel' hle, ← hwr, ← hrd] at hcount

theorem at_step {k r : Nat} (h : p.Ok depth) (hat : p.At depth k r) (hpos : 0 < depth)
    (hwr : wr → p.full = false) (hrd : rd → p.empty = false) :
    (step depth wr rd p).At depth (k + wr.toNat) (r + rd.toNat) := by
  have hcount := count_at hpos hat
  have hread := hat.read_le
  have hroom := hat.room
  have hle : r + rd.toNat ≤ k ∧ k + wr.toNat ≤ r + depth := by
    constructor
    · cases rd with
      | false => exact hread
      | true =>
        have hempty := hrd rfl
        rw [h.empty, decide_eq_false_iff_not] at hempty
        rw [Bool.toNat_true]
        omega
    · cases wr with
      | false => exact hroom
      | true =>
        have hfull := hwr rfl
        rw [h.full, decide_eq_false_iff_not] at hfull
        rw [Bool.toNat_true]
        omega
  refine ⟨?_, ?_, by omega, by omega⟩
  · cases wr with
    | false => exact hat.wr_ptr
    | true =>
      change p.wr_ptr.next depth = _
      rw [hat.wr_ptr, Ptr.next_after hpos]
      rfl
  · cases rd with
    | false => exact hat.rd_ptr
    | true =>
      change p.rd_ptr.next depth = _
      rw [hat.rd_ptr, Ptr.next_after hpos]
      rfl

end RamPtrs

/-! ## A RAM with a flow-through FIFO behind it -/

namespace RamFifo

variable (depth : Nat) (mem : Nat → α) (rdata : α) (p : RamPtrs) (f : FtFifo α)

def held : List α := f.flops ++ f.flight rdata ++ p.contents depth mem

variable {depth mem rdata p f}

theorem not_empty_of_pop {ft_pop : Bool} (h : f.ram_pop p.empty ft_pop) : p.empty = false := by
  unfold FtFifo.ram_pop at h
  simp only [Bool.and_eq_true, Bool.not_eq_true'] at h
  exact h.1.1

theorem held_start : held depth mem rdata .start .start = [] := by
  simp [held, FtFifo.flops, FtFifo.flight, FtFifo.start, RamPtrs.contents, RamPtrs.start,
    Ring.contents_empty]

variable (rdata) in
theorem held_step {wr ft_pop : Bool} {rdata' : α} (hf : f.Ok) (hp : p.Ok depth)
    (hwr : wr → p.full = false) (hpop : ft_pop → f.ft_valid) (wdata : α)
    (hrdata : f.ram_pop p.empty ft_pop → rdata' = mem p.rd_ptr.idx) :
    held depth mem rdata p f ++ (if wr then [wdata] else []) =
      (if ft_pop then f.ft0.toList else []) ++
        held depth (p.write wr mem wdata) rdata' (p.step depth wr (f.ram_pop p.empty ft_pop))
          (f.step p.empty rdata ft_pop) := by
  have hflops := FtFifo.flops_step p.empty rdata hf hpop
  have hempty : f.ram_pop p.empty ft_pop → p.empty = false := not_empty_of_pop
  have hcontents := RamPtrs.contents_step hp hwr hempty mem wdata
  have hflight : (f.step p.empty rdata ft_pop).flight rdata' =
      if f.ram_pop p.empty ft_pop then [mem p.rd_ptr.idx] else [] := by
    change (if f.ram_pop p.empty ft_pop then [rdata'] else []) = _
    split
    case isTrue h => rw [hrdata h]
    case isFalse => rfl
  unfold held
  rw [List.append_assoc, hcontents, hflops, hflight]
  simp only [List.append_assoc]

end RamFifo

end AwsFpga.Rtl
