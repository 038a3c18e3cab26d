import Mathlib.Tactic.IntervalCases
import AwsFpga.Lib.Axi
import AwsFpga.Rtl.Blocks

/-!
# Writes to the host (`sde_pm.sv`)

Three requesters share the address and the data channel of PCIM. An arbiter
chooses whose address goes next, and a FIFO of the winners steers the data.
-/

open Lib Lib.Axi

namespace AwsFpga.Rtl

inductive WrRequester where
  | c2h_dm
  | c2h_wb
  | h2c_wb
  deriving DecidableEq

namespace WrRequester

def all : List WrRequester := [.c2h_dm, .c2h_wb, .h2c_wb]

/-- The value of `wr_arb_out` that makes it the winner. -/
def index : WrRequester → Nat
  | .c2h_dm => 0
  | .c2h_wb => 1
  | .h2c_wb => 2

/-- `(winner == 0) ? .. : (winner == 1) ? .. : ..`. -/
def of_winner (winner : Nat) : WrRequester :=
  if winner = 0 then .c2h_dm else if winner = 1 then .c2h_wb else .h2c_wb

/-- `C2H_PCIM_DM_AWID`, `C2H_PCIM_WB_AWID` and `H2C_PCIM_WB_AWID`. -/
def awid : WrRequester → BitVec 3
  | .c2h_dm => 0
  | .c2h_wb => 1
  | .h2c_wb => 2

theorem of_winner_eq {winner : Nat} {r : WrRequester} (h : winner < 3) :
    of_winner winner = r ↔ winner = r.index := by
  unfold of_winner
  cases r <;> simp only [index] <;> split <;> (try split) <;> simp <;> omega

theorem index_of_winner {winner : Nat} (h : winner < 3) : (of_winner winner).index = winner :=
  ((of_winner_eq h).mp rfl).symm

end WrRequester

structure AwReq where
  addr : BitVec 64
  len : BitVec 8
  deriving DecidableEq

structure PcimAw where
  id : BitVec 3
  addr : BitVec 64
  len : BitVec 8
  deriving DecidableEq

structure WBeat where
  data : BitVec 512
  strb : BitVec 64
  last : Bool
  deriving DecidableEq

def PM_WR_WINNER_FIFO_DEPTH : Nat := 32

/-- The inputs of one cycle. -/
structure PmWrIn where
  awvalid : WrRequester → Bool
  aw : WrRequester → AwReq
  wvalid : WrRequester → Bool
  w : WrRequester → WBeat
  pcim_awready : Bool
  pcim_wready : Bool

/-- The registers. `winner_q` is that of the arbiter. -/
structure PmWr where
  winner_q : Nat
  wr_winner : Nat
  pcim_awvalid : Bool
  pcim_aw : PcimAw
  pm_wr_winner_ff : List Nat
  pcim_wvalid : Bool
  pcim_w : WBeat
  deriving DecidableEq

namespace PmWr

variable (i : PmWrIn) (s : PmWr)

/-! ## The wires -/

def any_awvalid : Bool := i.awvalid .h2c_wb || i.awvalid .c2h_wb || i.awvalid .c2h_dm

def wr_arb_out : Nat := rr_arb 3 (fun k => i.awvalid (.of_winner k)) s.winner_q

def pm_wr_winner_ff_full : Bool := watermark (PM_WR_WINNER_FIFO_DEPTH - 1) s.pm_wr_winner_ff

def aw_pipe_stall : Bool := s.pcim_awvalid && !i.pcim_awready && !s.pm_wr_winner_ff_full

def awready (r : WrRequester) : Bool := wr_arb_out i s = r.index && !aw_pipe_stall i s

def wr_do_arb : Bool := any_awvalid i && !aw_pipe_stall i s

def pm_wr_winner_ff_push : Bool := s.pcim_awvalid && i.pcim_awready && !s.pm_wr_winner_ff_full

def pm_wr_winner_ff_valid : Bool := !s.pm_wr_winner_ff.isEmpty

/-- It matters only while the FIFO is valid. -/
def pm_wr_winner_ff_pop_data : Nat := s.pm_wr_winner_ff.headD 0

def wdata_pipe_stall : Bool := s.pcim_wvalid && !i.pcim_wready

def requester_wvalid : Bool :=
  s.pm_wr_winner_ff_valid && i.wvalid (.of_winner s.pm_wr_winner_ff_pop_data)

def requester_wlast : Bool :=
  s.pm_wr_winner_ff_valid && (i.w (.of_winner s.pm_wr_winner_ff_pop_data)).last

def pm_wr_winner_ff_pop : Bool :=
  requester_wvalid i s && requester_wlast i s && !wdata_pipe_stall i s && s.pm_wr_winner_ff_valid

def wready (r : WrRequester) : Bool :=
  s.pm_wr_winner_ff_valid && s.pm_wr_winner_ff_pop_data = r.index && !wdata_pipe_stall i s

/-! ## The registers -/

def next_pcim_aw : PcimAw :=
  let r := WrRequester.of_winner (wr_arb_out i s)
  ⟨r.awid, (i.aw r).addr, (i.aw r).len⟩

def next_pcim_w : WBeat :=
  { i.w (.of_winner s.pm_wr_winner_ff_pop_data) with last := requester_wlast i s }

def step : PmWr where
  winner_q := if wr_do_arb i s then wr_arb_out i s else s.winner_q
  wr_winner := if !aw_pipe_stall i s then wr_arb_out i s else s.wr_winner
  pcim_awvalid :=
    if !aw_pipe_stall i s then any_awvalid i && !s.pm_wr_winner_ff_full else s.pcim_awvalid
  pcim_aw := if !aw_pipe_stall i s then next_pcim_aw i s else s.pcim_aw
  pm_wr_winner_ff := flop_fifo PM_WR_WINNER_FIFO_DEPTH
    (if pm_wr_winner_ff_push i s then some s.wr_winner else none) (pm_wr_winner_ff_pop i s)
    s.pm_wr_winner_ff
  pcim_wvalid := if !wdata_pipe_stall i s then requester_wvalid i s else s.pcim_wvalid
  pcim_w := if !wdata_pipe_stall i s then next_pcim_w i s else s.pcim_w

def circuit : Circuit PmWrIn PmWr := ⟨⟨0, 0, false, ⟨0, 0, 0⟩, [], false, ⟨0, 0, false⟩⟩, step⟩

/-! ## The channels -/

def aw_accepted : List (WrRequester × AwReq) :=
  WrRequester.all.flatMap fun r => fire (i.awvalid r) (awready i s r) (r, i.aw r)

def aw_issued : List PcimAw := fire s.pcim_awvalid i.pcim_awready s.pcim_aw

def w_accepted : List (WrRequester × WBeat) :=
  WrRequester.all.flatMap fun r => fire (i.wvalid r) (wready i s r) (r, i.w r)

def w_sent : List WBeat := fire s.pcim_wvalid i.pcim_wready s.pcim_w

/-- What a requester's address becomes on PCIM. -/
def issue (a : WrRequester × AwReq) : PcimAw := ⟨a.1.awid, a.2.addr, a.2.len⟩

variable {i s}

/-! ## Who is accepted -/

structure Inv (s : PmWr) : Prop where
  winner_q : s.winner_q < 3
  wr_winner : s.wr_winner < 3
  pcim_aw : s.pcim_awvalid → s.pcim_aw.id = (WrRequester.of_winner s.wr_winner).awid
  pm_wr_winner_ff : ∀ k ∈ s.pm_wr_winner_ff, k < 3

theorem wr_arb_out_lt (h : s.Inv) : wr_arb_out i s < 3 := rr_arb_lt h.winner_q

theorem wr_arb_out_awvalid (h : s.Inv) (hany : any_awvalid i) :
    i.awvalid (.of_winner (wr_arb_out i s)) := by
  have hreq : ∃ k < 3, i.awvalid (.of_winner k) := by
    simp only [any_awvalid, Bool.or_eq_true] at hany
    rcases hany with (h | h) | h
    · exact ⟨2, by omega, h⟩
    · exact ⟨1, by omega, h⟩
    · exact ⟨0, by omega, h⟩
  obtain ⟨k, hk, hreq⟩ := hreq
  exact (rr_arb_req (fun k => i.awvalid (.of_winner k)) h.winner_q hk hreq).2

theorem any_awvalid_of {r : WrRequester} (h : i.awvalid r) : any_awvalid i := by
  cases r <;> simp [any_awvalid, h]

theorem flatMap_index {β : Type} {k : Nat} (hk : k < 3) (f : WrRequester → List β)
    (hf : ∀ r, k ≠ r.index → f r = []) : WrRequester.all.flatMap f = f (.of_winner k) := by
  have hother : ∀ r, r ≠ WrRequester.of_winner k → f r = [] := by
    intro r hr
    refine hf r fun heq => hr ?_
    exact ((WrRequester.of_winner_eq hk).mpr heq).symm
  unfold WrRequester.all
  generalize WrRequester.of_winner k = w at hother ⊢
  cases w <;> simp [hother]

theorem aw_accepted_eq (h : s.Inv) :
    aw_accepted i s = fire (any_awvalid i) (!aw_pipe_stall i s)
      (.of_winner (wr_arb_out i s), i.aw (.of_winner (wr_arb_out i s))) := by
  have hlt := wr_arb_out_lt (i := i) h
  have hother : ∀ r : WrRequester, wr_arb_out i s ≠ r.index →
      fire (i.awvalid r) (awready i s r) (r, i.aw r) = [] := by
    intro r hne
    simp [awready, hne]
  rw [aw_accepted, flatMap_index hlt _ hother]
  have hready : awready i s (.of_winner (wr_arb_out i s)) = !aw_pipe_stall i s := by
    simp [awready, WrRequester.index_of_winner hlt]
  rw [hready]
  cases hany : any_awvalid i with
  | true => rw [wr_arb_out_awvalid h hany]
  | false =>
    have hvalid : i.awvalid (.of_winner (wr_arb_out i s)) = false := by
      by_contra hne
      rw [any_awvalid_of (Bool.not_eq_false _ ▸ hne)] at hany
      cases hany
    rw [hvalid]

theorem head_lt (h : s.Inv) : s.pm_wr_winner_ff_pop_data < 3 := by
  unfold pm_wr_winner_ff_pop_data
  cases hff : s.pm_wr_winner_ff with
  | nil => simp
  | cons k ks => exact h.pm_wr_winner_ff k (by simp [hff])

theorem w_accepted_eq (h : s.Inv) :
    w_accepted i s = fire (requester_wvalid i s) (!wdata_pipe_stall i s)
      (.of_winner s.pm_wr_winner_ff_pop_data, i.w (.of_winner s.pm_wr_winner_ff_pop_data)) := by
  have hlt := head_lt h
  have hother : ∀ r : WrRequester, s.pm_wr_winner_ff_pop_data ≠ r.index →
      fire (i.wvalid r) (wready i s r) (r, i.w r) = [] := by
    intro r hne
    simp [wready, hne]
  rw [w_accepted, flatMap_index hlt _ hother]
  have hready : wready i s (.of_winner s.pm_wr_winner_ff_pop_data) =
      (s.pm_wr_winner_ff_valid && !wdata_pipe_stall i s) := by
    simp [wready, WrRequester.index_of_winner hlt]
  rw [hready]
  unfold requester_wvalid fire
  cases s.pm_wr_winner_ff_valid <;> simp

/-! ## What one cycle keeps -/

theorem inv_step (h : s.Inv) : (step i s).Inv where
  winner_q := by
    unfold step
    dsimp only
    split
    · exact wr_arb_out_lt h
    · exact h.winner_q
  wr_winner := by
    unfold step
    dsimp only
    split
    · exact wr_arb_out_lt h
    · exact h.wr_winner
  pcim_aw := by
    unfold step
    dsimp only
    split
    · exact fun _ => rfl
    · exact h.pcim_aw
  pm_wr_winner_ff := by
    intro k hk
    rcases flop_fifo_mem hk with hpush | hmem
    · split at hpush
      · cases hpush
        exact h.wr_winner
      · cases hpush
    · exact h.pm_wr_winner_ff k hmem

theorem inv_reset : circuit.reset.Inv := ⟨by decide, by decide, by decide, by decide⟩

variable (i s) in
/-- While the FIFO is full no address comes and none waits. -/
def Clear : Prop := s.pm_wr_winner_ff_full → any_awvalid i = false ∧ s.pcim_awvalid = false

theorem not_full (hclear : Clear i s) (hvalid : s.pcim_awvalid) :
    s.pm_wr_winner_ff_full = false := by
  cases hfull : s.pm_wr_winner_ff_full with
  | false => rfl
  | true =>
    rw [(hclear hfull).2] at hvalid
    exact hvalid.symm

theorem aw_step (h : s.Inv) (hclear : Clear i s) :
    shown s.pcim_awvalid s.pcim_aw ++ (aw_accepted i s).map issue =
      aw_issued i s ++ shown (step i s).pcim_awvalid (step i s).pcim_aw := by
  have hnext : (step i s).pcim_awvalid =
      if !aw_pipe_stall i s then any_awvalid i && !s.pm_wr_winner_ff_full else s.pcim_awvalid := rfl
  have haw : (step i s).pcim_aw = if !aw_pipe_stall i s then next_pcim_aw i s else s.pcim_aw := rfl
  rw [aw_accepted_eq h, hnext, haw]
  unfold aw_issued aw_pipe_stall
  cases hfull : s.pm_wr_winner_ff_full with
  | true =>
    obtain ⟨hany, hvalid⟩ := hclear hfull
    simp [hany, hvalid]
  | false =>
    cases hvalid : s.pcim_awvalid <;> cases hready : i.pcim_awready <;>
      cases hany : any_awvalid i <;> simp [fire, issue, next_pcim_aw]

theorem aw_held (hclear : Clear i s) (hvalid : s.pcim_awvalid) (hready : i.pcim_awready = false) :
    (step i s).pcim_awvalid ∧ (step i s).pcim_aw = s.pcim_aw := by
  have hstall : aw_pipe_stall i s = true := by
    simp [aw_pipe_stall, hvalid, hready, not_full hclear hvalid]
  simp [step, hstall, hvalid]

theorem w_step (h : s.Inv) :
    shown s.pcim_wvalid s.pcim_w ++ (w_accepted i s).map Prod.snd =
      w_sent i s ++ shown (step i s).pcim_wvalid (step i s).pcim_w := by
  have hnext : (step i s).pcim_wvalid =
      if !wdata_pipe_stall i s then requester_wvalid i s else s.pcim_wvalid := rfl
  have hw : (step i s).pcim_w = if !wdata_pipe_stall i s then next_pcim_w i s else s.pcim_w := rfl
  have hlast : requester_wvalid i s →
      next_pcim_w i s = i.w (.of_winner s.pm_wr_winner_ff_pop_data) := by
    intro hvalid
    rw [requester_wvalid, Bool.and_eq_true] at hvalid
    simp [next_pcim_w, requester_wlast, hvalid.1]
  rw [w_accepted_eq h, hnext, hw]
  unfold w_sent wdata_pipe_stall
  cases hreq : requester_wvalid i s with
  | false => cases s.pcim_wvalid <;> cases i.pcim_wready <;> simp
  | true =>
    rw [hlast hreq]
    cases s.pcim_wvalid <;> cases i.pcim_wready <;> simp

theorem order_step (h : s.Inv) (hclear : Clear i s) :
    follow WBeat.last
        (s.pm_wr_winner_ff.map (fun k => (WrRequester.of_winner k).awid) ++
          (aw_issued i s).map PcimAw.id)
        ((w_accepted i s).map fun b => (b.1.awid, b.2)) =
      some ((step i s).pm_wr_winner_ff.map fun k => (WrRequester.of_winner k).awid) := by
  have hpop : pm_wr_winner_ff_pop i s → s.pm_wr_winner_ff ≠ [] := by
    intro hpop hnil
    simp [pm_wr_winner_ff_pop, pm_wr_winner_ff_valid, hnil] at hpop
  have hpush : s.pm_wr_winner_ff.length < PM_WR_WINNER_FIFO_DEPTH ∨
      (if pm_wr_winner_ff_push i s then some s.wr_winner else none) = none := by
    cases hfull : s.pm_wr_winner_ff_full with
    | true => simp [pm_wr_winner_ff_push, hfull]
    | false =>
      left
      simp only [pm_wr_winner_ff_full, watermark, decide_eq_false_iff_not] at hfull
      unfold PM_WR_WINNER_FIFO_DEPTH at hfull ⊢
      omega
  have hissued : (aw_issued i s).map PcimAw.id =
      ((if pm_wr_winner_ff_push i s then some s.wr_winner else none).toList).map
        fun k => (WrRequester.of_winner k).awid := by
    unfold aw_issued pm_wr_winner_ff_push
    cases hvalid : s.pcim_awvalid with
    | false => simp
    | true =>
      rw [not_full hclear hvalid]
      cases i.pcim_awready <;> simp [h.pcim_aw hvalid]
  have hff : (step i s).pm_wr_winner_ff = flop_fifo PM_WR_WINNER_FIFO_DEPTH
    (if pm_wr_winner_ff_push i s then some s.wr_winner else none) (pm_wr_winner_ff_pop i s)
    s.pm_wr_winner_ff := rfl
  rw [hff, flop_fifo_eq hpush hpop, hissued, w_accepted_eq h]
  cases hlist : s.pm_wr_winner_ff with
  | nil => simp [requester_wvalid, pm_wr_winner_ff_valid, pm_wr_winner_ff_pop, hlist]
  | cons k ks =>
    unfold pm_wr_winner_ff_pop requester_wvalid requester_wlast pm_wr_winner_ff_valid
      pm_wr_winner_ff_pop_data
    rw [hlist]
    cases hw : i.wvalid (.of_winner k) with
    | false => simp [hw]
    | true =>
      cases hstall : wdata_pipe_stall i s with
      | true => simp
      | false => cases hlast : (i.w (.of_winner k)).last <;> simp [hw, hlast, follow]

/-! ## Whole runs -/

variable (ins : Nat → PmWrIn)

/-- The requesters hold what they show. -/
structure Compliant : Prop where
  aw : ∀ r, Held (fun n => (ins n).awvalid r) (fun n => awready (ins n) (circuit.state ins n) r)
    fun n => (ins n).aw r
  w : ∀ r, Held (fun n => (ins n).wvalid r) (fun n => wready (ins n) (circuit.state ins n) r)
    fun n => (ins n).w r

/-- What is owed to the requesters and to PCIM. -/
structure Delivers : Prop where
  /-- Each accepted address is issued once, in the order of acceptance, or is shown now. -/
  aw : ∀ n, (circuit.passed ins aw_accepted n).map issue =
    circuit.passed ins aw_issued n ++
      shown (circuit.state ins n).pcim_awvalid (circuit.state ins n).pcim_aw
  aw_held : Held (fun n => (circuit.state ins n).pcim_awvalid) (fun n => (ins n).pcim_awready)
    fun n => (circuit.state ins n).pcim_aw
  /-- Each accepted beat is sent once, in the order of acceptance, or is shown now. -/
  w : ∀ n, (circuit.passed ins w_accepted n).map Prod.snd =
    circuit.passed ins w_sent n ++
      shown (circuit.state ins n).pcim_wvalid (circuit.state ins n).pcim_w
  /-- The bursts come from the requesters of the issued addresses, in that order. -/
  order : ∀ n, ∃ rest, follow WBeat.last ((circuit.passed ins aw_issued n).map PcimAw.id)
    ((circuit.passed ins w_accepted n).map fun b => (b.1.awid, b.2)) = some rest

variable {ins}

theorem inv_state (n : Nat) : (circuit.state ins n).Inv :=
  Circuit.inv_state (m := fun _ _ => True) inv_reset (fun _ _ _ => inv_step) (fun _ => trivial) n

theorem order_state (hclear : ∀ n, Clear (ins n) (circuit.state ins n)) (n : Nat) :
    follow WBeat.last ((circuit.passed ins aw_issued n).map PcimAw.id)
        ((circuit.passed ins w_accepted n).map fun b => (b.1.awid, b.2)) =
      some ((circuit.state ins n).pm_wr_winner_ff.map fun k => (WrRequester.of_winner k).awid) := by
  induction n with
  | zero => rfl
  | succ n ih =>
    rw [Circuit.passed_succ, Circuit.passed_succ, List.map_append, List.map_append, follow_append,
      follow_more _ ih, Option.bind_some, Circuit.state_succ]
    exact order_step (inv_state n) (hclear n)

/-- As long as no address comes or waits while the FIFO of the winners is full. -/
theorem delivers_of_clear (ins : Nat → PmWrIn)
    (hclear : ∀ n, Clear (ins n) (circuit.state ins n)) : Delivers ins where
  aw n := by
    rw [Circuit.passed_map]
    exact Circuit.passed_eq (P := Inv) (m := Clear)
      (fun s => shown s.pcim_awvalid s.pcim_aw) inv_state hclear rfl (fun _ _ hc h => aw_step h hc) n
  aw_held n hvalid hready := aw_held (hclear n) hvalid hready
  w n := by
    rw [Circuit.passed_map]
    exact Circuit.passed_eq (P := Inv) (m := Clear)
      (fun s => shown s.pcim_wvalid s.pcim_w) inv_state hclear rfl (fun _ _ _ h => w_step h) n
  order n := ⟨_, order_state hclear n⟩

/-- One address at the start, and its data offered all the time. -/
def one_write (n : Nat) : PmWrIn where
  awvalid r := n = 0 && r = .c2h_dm
  aw _ := ⟨0x1000, 0⟩
  wvalid r := r = .c2h_dm
  w _ := ⟨7, 1, true⟩
  pcim_awready := true
  pcim_wready := true

def one_write_done : PmWr := ⟨0, 0, false, ⟨0, 0x1000, 0⟩, [], false, ⟨7, 1, false⟩⟩

theorem one_write_state (n : Nat) (hn : 4 ≤ n) : circuit.state one_write n = one_write_done := by
  refine Circuit.state_eq_of_step_eq (by decide +kernel) ?_ n hn
  intro n hn
  have hin : one_write n = one_write 1 := by
    simp [one_write, show n ≠ 0 by omega]
  rw [hin]
  decide +kernel

theorem delivers_one_write : Delivers one_write ∧ circuit.passed one_write w_sent 5 = [⟨7, 1, true⟩] := by
  refine ⟨delivers_of_clear one_write fun n => ?_, by decide +kernel⟩
  have hff : (circuit.state one_write n).pm_wr_winner_ff_full = false := by
    rcases Nat.lt_or_ge n 4 with hlt | hge
    · interval_cases n <;> decide +kernel
    · rw [one_write_state n hge]
      rfl
  intro hfull
  rw [hff] at hfull
  cases hfull

/-- Addresses come all the time, and no data. -/
def flood (_ : Nat) : PmWrIn where
  awvalid r := r = .c2h_dm
  aw _ := ⟨0x1000, 0⟩
  wvalid _ := false
  w _ := ⟨0, 0, false⟩
  pcim_awready := true
  pcim_wready := true

theorem not_delivers : ¬ ∀ ins, Compliant ins → Delivers ins := by
  intro h
  have hcompliant : Compliant flood :=
    ⟨fun _ _ hvalid _ => ⟨hvalid, rfl⟩, fun _ _ hvalid _ => ⟨hvalid, rfl⟩⟩
  have hlost : (circuit.passed flood aw_accepted 35).map issue ≠
      circuit.passed flood aw_issued 35 ++
        shown (circuit.state flood 35).pcim_awvalid (circuit.state flood 35).pcim_aw := by
    decide +kernel
  exact hlost ((h flood hcompliant).aw 35)

end PmWr

end AwsFpga.Rtl
