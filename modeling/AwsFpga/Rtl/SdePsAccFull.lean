import AwsFpga.Rtl.SdePsAcc

/-!
# Descriptors from beats at any address (`sde_ps_acc.sv`)

The other variant of the accumulator (`LIMITED_SUPPORT` is 0) takes any number of
dwords, from any place in the first word of a burst. On beats that both support, the
two variants cannot be told apart.
-/

open Lib Lib.Axi

namespace AwsFpga.Rtl

/-- The registers, for descriptors of `dw` dwords. -/
structure PsAccFull (dw : Nat) where
  pcis_first_q : Bool
  pcis_wdata_q : BitVec 512
  pcis_wr_num_dw_q : Nat
  pcis_wvalid_q : Bool
  acc_wr_num_dw : Nat
  acc_wr_req : Bool
  acc_wdata : BitVec (32 * dw)
  pcis_req_addr_q : BitVec 14
  ooo_error : Bool
  unalin_error : Bool
  deriving DecidableEq

namespace PsAccFull

variable {dw : Nat} (START_ADDR : BitVec 14) (i : PsAccIn) (s : PsAccFull dw)

/-- The registers that both variants have. Counts and stalls are computed from these, in both in the
same way. -/
def limited : PsAcc dw where
  pcis_first_q := s.pcis_first_q
  pcis_wdata_q := s.pcis_wdata_q.setWidth 256
  pcis_wr_num_dw_q := s.pcis_wr_num_dw_q
  pcis_wvalid_q := s.pcis_wvalid_q
  acc_wr_num_dw := s.acc_wr_num_dw
  acc_wr_req := s.acc_wr_req
  acc_wdata := s.acc_wdata
  pcis_req_addr_q := s.pcis_req_addr_q
  ooo_error := s.ooo_error
  unalin_error := s.unalin_error

/-- The last dword whose first strobe is set. -/
def pcis_wr_num_dw_d : Nat :=
  (List.range 16).foldl (fun n k => if i.pcis_w.strb.getLsbD (4 * k) then k + 1 else n) 0

def pcis_wready : Bool := PsAcc.pcis_wready i s.limited

def acc_out_transmit : Bool := s.limited.acc_out_transmit

def acc_num_dw_to_accumulate : Nat := s.limited.acc_num_dw_to_accumulate

def acc_wr_num_dw_d : Nat := s.limited.acc_wr_num_dw_d

def acc_out_stall : Bool := PsAcc.acc_out_stall i s.limited

def acc_in_wdata_acc : BitVec (32 * dw) :=
  of_dwords dw fun k =>
    if k < s.acc_wr_num_dw then dword s.acc_wdata k else dword s.pcis_wdata_q (k - s.acc_wr_num_dw)

def acc_in_wdata_d : BitVec (32 * dw) :=
  if s.acc_out_transmit && s.pcis_wvalid_q then s.pcis_wdata_q.setWidth (32 * dw)
  else if s.pcis_wvalid_q then s.acc_in_wdata_acc
  else s.acc_wdata

/-- The number of dwords has five bits. -/
def step : PsAccFull dw where
  pcis_first_q :=
    if i.pcis_wvalid && pcis_wready i s && i.pcis_w.last then true
    else if i.pcis_wvalid && pcis_wready i s then false
    else s.pcis_first_q
  pcis_wdata_q :=
    if i.pcis_wvalid && !s.pcis_wvalid_q && s.pcis_first_q then
      i.pcis_w.data >>> (8 * (i.pcis_req_addr.toNat % 64))
    else if i.pcis_wvalid && !s.pcis_wvalid_q then i.pcis_w.data
    else if s.pcis_wvalid_q && !acc_out_stall i s then
      s.pcis_wdata_q >>> (32 * s.acc_num_dw_to_accumulate)
    else s.pcis_wdata_q
  pcis_wr_num_dw_q :=
    if i.pcis_wvalid && !s.pcis_wvalid_q && s.pcis_first_q then
      (pcis_wr_num_dw_d i + 32 - i.pcis_req_addr.toNat % 64 / 4) % 32
    else if i.pcis_wvalid && !s.pcis_wvalid_q then pcis_wr_num_dw_d i
    else if s.pcis_wvalid_q && !acc_out_stall i s then
      s.pcis_wr_num_dw_q - s.acc_num_dw_to_accumulate
    else s.pcis_wr_num_dw_q
  pcis_wvalid_q :=
    if !s.pcis_wvalid_q && i.pcis_wvalid && i.pcis_req_wr then true
    else if s.pcis_wvalid_q && !acc_out_stall i s && s.pcis_wr_num_dw_q = s.acc_num_dw_to_accumulate
    then false
    else s.pcis_wvalid_q
  acc_wr_num_dw := if !acc_out_stall i s then s.acc_wr_num_dw_d else s.acc_wr_num_dw
  acc_wr_req := if !acc_out_stall i s then s.acc_wr_num_dw_d = dw else s.acc_wr_req
  acc_wdata := if !acc_out_stall i s then s.acc_in_wdata_d else s.acc_wdata
  pcis_req_addr_q := if i.pcis_req_wr then i.pcis_req_addr else s.pcis_req_addr_q
  ooo_error :=
    !s.ooo_error && i.pcis_req_wr && i.pcis_req_addr < s.pcis_req_addr_q &&
      i.pcis_req_addr != START_ADDR
  unalin_error := !s.unalin_error && i.pcis_req_wr && i.pcis_req_addr.setWidth 6 != 0

def reset : PsAccFull dw where
  pcis_first_q := true
  pcis_wdata_q := 0
  pcis_wr_num_dw_q := 0
  pcis_wvalid_q := false
  acc_wr_num_dw := 0
  acc_wr_req := false
  acc_wdata := 0
  pcis_req_addr_q := 0
  ooo_error := false
  unalin_error := false

def circuit (dw : Nat) : Circuit PsAccIn (PsAccFull dw) := ⟨reset, step START_ADDR⟩

/-- The dwords of the beat that is taken in. -/
def taken_dws : List (BitVec 32) :=
  (fire i.pcis_wvalid (pcis_wready i s) i.pcis_w).flatMap PsAcc.carried

/-- The descriptors that are handed on. -/
def handed : List (BitVec (32 * dw)) := fire s.acc_wr_req i.acc_ack s.acc_wdata

/-! ## One cycle of both variants -/

/-- A beat that both variants support: at the start of a word, with its dwords in the low lanes. -/
def Supported (i : PsAccIn) (s : PsAcc dw) : Prop :=
  i.pcis_wvalid → PsAcc.pcis_wready i s →
    i.pcis_req_addr.toNat % 64 = 0 ∧ PsAcc.LowLanes i.pcis_w

/-- The registers of the two variants: they may differ in dwords that are not in use. -/
structure Agrees (s : PsAcc dw) (g : PsAccFull dw) : Prop where
  pcis_first_q : g.pcis_first_q = s.pcis_first_q
  pcis_wvalid_q : g.pcis_wvalid_q = s.pcis_wvalid_q
  pcis_wr_num_dw_q : s.pcis_wvalid_q → g.pcis_wr_num_dw_q = s.pcis_wr_num_dw_q
  pcis_wdata_q : s.pcis_wvalid_q → ∀ k < s.pcis_wr_num_dw_q,
    dword g.pcis_wdata_q k = dword s.pcis_wdata_q k
  acc_wr_num_dw : g.acc_wr_num_dw = s.acc_wr_num_dw
  acc_wr_req : g.acc_wr_req = s.acc_wr_req
  acc_wdata : ∀ k < s.acc_wr_num_dw, dword g.acc_wdata k = dword s.acc_wdata k
  pcis_req_addr_q : g.pcis_req_addr_q = s.pcis_req_addr_q
  ooo_error : g.ooo_error = s.ooo_error
  unalin_error : g.unalin_error = s.unalin_error

variable {START_ADDR i} {s : PsAcc dw} {g : PsAccFull dw}

theorem agrees_reset : Agrees (PsAcc.reset : PsAcc dw) reset where
  pcis_first_q := rfl
  pcis_wvalid_q := rfl
  pcis_wr_num_dw_q _ := rfl
  pcis_wdata_q h := by cases h
  acc_wr_num_dw := rfl
  acc_wr_req := rfl
  acc_wdata _ _ := rfl
  pcis_req_addr_q := rfl
  ooo_error := rfl
  unalin_error := rfl

theorem Agrees.ready (h : Agrees s g) : pcis_wready i g = PsAcc.pcis_wready i s := by
  simp [pcis_wready, PsAcc.pcis_wready, limited, h.pcis_wvalid_q]

theorem Agrees.stall (h : Agrees s g) : acc_out_stall i g = PsAcc.acc_out_stall i s := by
  simp [acc_out_stall, PsAcc.acc_out_stall, limited, h.acc_wr_req]

theorem Agrees.transmit (h : Agrees s g) : g.acc_out_transmit = s.acc_out_transmit := by
  simp [acc_out_transmit, PsAcc.acc_out_transmit, limited, h.acc_wr_num_dw]

theorem Agrees.accumulate (h : Agrees s g) (hbusy : s.pcis_wvalid_q) :
    g.acc_num_dw_to_accumulate = s.acc_num_dw_to_accumulate := by
  have htransmit : g.limited.acc_out_transmit = s.acc_out_transmit := h.transmit
  unfold acc_num_dw_to_accumulate PsAcc.acc_num_dw_to_accumulate PsAcc.acc_out_num_dw_needed
  rw [htransmit]
  simp only [limited, h.acc_wr_num_dw, h.pcis_wr_num_dw_q hbusy]

theorem Agrees.num_dw_d (h : Agrees s g) : g.acc_wr_num_dw_d = s.acc_wr_num_dw_d := by
  have htransmit : g.limited.acc_out_transmit = s.acc_out_transmit := h.transmit
  unfold acc_wr_num_dw_d PsAcc.acc_wr_num_dw_d
  rw [htransmit]
  cases hbusy : s.pcis_wvalid_q with
  | false => simp [limited, h.pcis_wvalid_q, hbusy, h.acc_wr_num_dw]
  | true =>
    have haccumulate : g.limited.acc_num_dw_to_accumulate = s.acc_num_dw_to_accumulate :=
      h.accumulate hbusy
    simp [limited, h.pcis_wvalid_q, hbusy, h.acc_wr_num_dw] at haccumulate ⊢
    rw [haccumulate]

theorem num_dw_of_low (h : PsAcc.LowLanes i.pcis_w) :
    pcis_wr_num_dw_d i = PsAcc.pcis_wr_num_dw_d i := by
  obtain ⟨n, hn, hstrb⟩ := h
  unfold pcis_wr_num_dw_d PsAcc.pcis_wr_num_dw_d
  rw [hstrb]
  simp only [List.mem_cons, List.not_mem_nil, or_false] at hn
  rcases hn with rfl | rfl | rfl <;> rfl

theorem loaded (hbeat : Supported i s) (h : Agrees s g) (hfree : s.pcis_wvalid_q = false)
    (hcome : i.pcis_wvalid = true ∧ i.pcis_req_wr = true) :
    (step START_ADDR i g).pcis_wdata_q = i.pcis_w.data ∧
      (step START_ADDR i g).pcis_wr_num_dw_q = PsAcc.pcis_wr_num_dw_d i := by
  have hready : PsAcc.pcis_wready i s = true := by simp [PsAcc.pcis_wready, hcome.2, hfree]
  obtain ⟨haddr, hlow⟩ := hbeat hcome.1 hready
  have hle := (PsAcc.num_dw_of_low hlow).2.2
  have hmod : (PsAcc.pcis_wr_num_dw_d i + 32) % 32 = PsAcc.pcis_wr_num_dw_d i := by omega
  simp [step, hcome.1, h.pcis_wvalid_q, hfree, haddr, num_dw_of_low hlow, hmod]

theorem agrees_acc_wdata (h : Agrees s g) :
    ∀ k < s.acc_wr_num_dw_d, dword g.acc_in_wdata_d k = dword s.acc_in_wdata_d k := by
  intro k hk
  obtain ⟨hle, hneeded⟩ := PsAcc.accumulate_le (s := s)
  unfold PsAcc.acc_out_num_dw_needed at hneeded
  unfold acc_in_wdata_d PsAcc.acc_in_wdata_d
  rw [h.transmit, h.pcis_wvalid_q]
  unfold PsAcc.acc_wr_num_dw_d at hk
  cases hbusy : s.pcis_wvalid_q with
  | false =>
    cases htransmit : s.acc_out_transmit with
    | true => simp [hbusy, htransmit] at hk
    | false =>
      simp [hbusy, htransmit] at hk ⊢
      exact h.acc_wdata k hk
  | true =>
    cases htransmit : s.acc_out_transmit with
    | true =>
      simp [hbusy, htransmit] at hk hneeded ⊢
      rw [dword_setWidth _ k (by omega), dword_setWidth _ k (by omega)]
      exact h.pcis_wdata_q hbusy k (by omega)
    | false =>
      have hlt : s.acc_wr_num_dw < dw := by simpa [PsAcc.acc_out_transmit] using htransmit
      simp [hbusy, htransmit] at hk hneeded ⊢
      rw [acc_in_wdata_acc, PsAcc.acc_in_wdata_acc, dword_of_dwords _ _ _ (by omega),
        dword_of_dwords _ _ _ (by omega), h.acc_wr_num_dw]
      split
      case isTrue hold => exact h.acc_wdata k hold
      case isFalse hnew => exact h.pcis_wdata_q hbusy _ (by omega)

/-- The dwords of the beat, where the two variants load them and where they shift them. -/
theorem agrees_beat (hbeat : Supported i s) (h : Agrees s g)
    (hbusy' : (PsAcc.step START_ADDR i s).pcis_wvalid_q) :
    (step START_ADDR i g).pcis_wr_num_dw_q = (PsAcc.step START_ADDR i s).pcis_wr_num_dw_q ∧
      ∀ k < (PsAcc.step START_ADDR i s).pcis_wr_num_dw_q,
        dword (step START_ADDR i g).pcis_wdata_q k =
          dword (PsAcc.step START_ADDR i s).pcis_wdata_q k := by
  cases hbusy : s.pcis_wvalid_q with
  | false =>
    have hcome : i.pcis_wvalid = true ∧ i.pcis_req_wr = true := by
      simpa [PsAcc.step, hbusy] using hbusy'
    obtain ⟨hdata, hnum⟩ := @loaded _ START_ADDR _ _ _ hbeat h hbusy hcome
    have hlow := hbeat hcome.1 (by simp [PsAcc.pcis_wready, hcome.2, hbusy])
    have hle := (PsAcc.num_dw_of_low hlow.2).2.2
    have hnum' : (PsAcc.step START_ADDR i s).pcis_wr_num_dw_q = PsAcc.pcis_wr_num_dw_d i := by
      simp [PsAcc.step, hcome.1, hbusy]
    have hdata' : (PsAcc.step START_ADDR i s).pcis_wdata_q = i.pcis_w.data.setWidth 256 := by
      simp [PsAcc.step, hcome.1, hbusy]
    rw [hnum, hdata, hnum', hdata']
    exact ⟨rfl, fun k hk => (dword_setWidth _ k (by omega)).symm⟩
  | true =>
    have hnum := h.pcis_wr_num_dw_q hbusy
    have hdata := h.pcis_wdata_q hbusy
    have haccumulate := h.accumulate hbusy
    cases hstall : PsAcc.acc_out_stall i s with
    | true => simpa [step, PsAcc.step, h.stall, h.pcis_wvalid_q, hbusy, hstall, hnum] using hdata
    | false =>
      simp only [step, PsAcc.step, h.stall, h.pcis_wvalid_q, hbusy, hstall, hnum, haccumulate]
      simp only [Bool.not_true, Bool.not_false, Bool.and_false, Bool.and_true, Bool.false_and,
        Bool.false_eq_true, if_false, if_true, true_and]
      intro k hk
      rw [PsAcc.dword_ushiftRight, PsAcc.dword_ushiftRight]
      exact hdata _ (by omega)

theorem agrees_step (hbeat : Supported i s) (h : Agrees s g) :
    Agrees (PsAcc.step START_ADDR i s) (step START_ADDR i g) where
  pcis_first_q := by simp [step, PsAcc.step, h.ready, h.pcis_first_q]
  pcis_wvalid_q := by
    cases hbusy : s.pcis_wvalid_q with
    | false => simp [step, PsAcc.step, h.pcis_wvalid_q, hbusy]
    | true =>
      simp [step, PsAcc.step, h.pcis_wvalid_q, hbusy, h.stall, h.accumulate hbusy,
        h.pcis_wr_num_dw_q hbusy]
  pcis_wr_num_dw_q hbusy := (agrees_beat hbeat h hbusy).1
  pcis_wdata_q hbusy := (agrees_beat hbeat h hbusy).2
  acc_wr_num_dw := by simp [step, PsAcc.step, h.stall, h.num_dw_d, h.acc_wr_num_dw]
  acc_wr_req := by simp [step, PsAcc.step, h.stall, h.num_dw_d, h.acc_wr_req]
  acc_wdata := by
    cases hstall : PsAcc.acc_out_stall i s with
    | true => simpa [step, PsAcc.step, h.stall, hstall] using h.acc_wdata
    | false => simpa [step, PsAcc.step, h.stall, hstall] using agrees_acc_wdata h
  pcis_req_addr_q := by simp [step, PsAcc.step, h.pcis_req_addr_q]
  ooo_error := by simp [step, PsAcc.step, h.pcis_req_addr_q, h.ooo_error]
  unalin_error := by simp [step, PsAcc.step, h.unalin_error]

theorem Agrees.wdata (h : Agrees s g) (hcounts : s.Counts) (hreq : s.acc_wr_req) :
    g.acc_wdata = s.acc_wdata := by
  have hall : s.acc_wr_num_dw = dw := by simpa [hcounts.acc_wr_req] using hreq
  apply bus_dwords_inj
  apply List.map_congr_left
  intro k hk
  rw [List.mem_range] at hk
  exact h.acc_wdata k (by omega)

/-! ## Whole runs -/

section Runs

variable (START_ADDR : BitVec 14) (dw : Nat) (ins : Nat → PsAccIn)

/-- The dwords taken in before cycle `n`. -/
def dwords_in (n : Nat) : List (BitVec 32) :=
  (PsAcc.circuit START_ADDR dw).passed ins PsAcc.taken_dws n

/-- The descriptors handed on before cycle `n`. -/
def words_out (n : Nat) : List (BitVec (32 * dw)) :=
  (PsAcc.circuit START_ADDR dw).passed ins PsAcc.handed n

/-- What is promised of cycle `n`. -/
structure Repacks (n : Nat) : Prop where
  /-- The variants take the same dwords and hand on the same words, in the same cycles. -/
  same_in : (circuit START_ADDR dw).passed ins taken_dws n = dwords_in START_ADDR dw ins n
  same_out : (circuit START_ADDR dw).passed ins handed n = words_out START_ADDR dw ins n
  same_req : ((circuit START_ADDR dw).state ins n).acc_wr_req =
    ((PsAcc.circuit START_ADDR dw).state ins n).acc_wr_req
  same_wdata : ((PsAcc.circuit START_ADDR dw).state ins n).acc_wr_req →
    ((circuit START_ADDR dw).state ins n).acc_wdata =
      ((PsAcc.circuit START_ADDR dw).state ins n).acc_wdata
  /-- The words are the dwords, in their order. -/
  words : (words_out START_ADDR dw ins n).flatMap bus_dwords <+: dwords_in START_ADDR dw ins n
  /-- A word stays requested until it is acknowledged. -/
  held : ((PsAcc.circuit START_ADDR dw).state ins n).acc_wr_req → (ins n).acc_ack = false →
    ((PsAcc.circuit START_ADDR dw).state ins (n + 1)).acc_wr_req ∧
      ((PsAcc.circuit START_ADDR dw).state ins (n + 1)).acc_wdata =
        ((PsAcc.circuit START_ADDR dw).state ins n).acc_wdata
  /-- When acknowledgements come, each whole word is handed on. -/
  complete : LeadsTo (fun k => ((PsAcc.circuit START_ADDR dw).state ins k).acc_wr_req)
      (fun k => (ins k).acc_ack) →
    ∃ m, (dwords_in START_ADDR dw ins n).length / dw ≤ (words_out START_ADDR dw ins m).length

variable {START_ADDR dw ins}

theorem held_state (n : Nat)
    (hreq : ((PsAcc.circuit START_ADDR dw).state ins n).acc_wr_req)
    (hack : (ins n).acc_ack = false) :
    ((PsAcc.circuit START_ADDR dw).state ins (n + 1)).acc_wr_req ∧
      ((PsAcc.circuit START_ADDR dw).state ins (n + 1)).acc_wdata =
        ((PsAcc.circuit START_ADDR dw).state ins n).acc_wdata := by
  have hstall : PsAcc.acc_out_stall (ins n) ((PsAcc.circuit START_ADDR dw).state ins n) = true := by
    simp [PsAcc.acc_out_stall, hreq, hack]
  rw [Circuit.state_succ]
  simp [PsAcc.circuit] at hstall hreq ⊢
  simp [PsAcc.step, hstall, hreq]

section Beats

variable (hbeats : ∀ n, Supported (ins n) ((PsAcc.circuit START_ADDR dw).state ins n))

include hbeats

theorem agrees_state (n : Nat) : Agrees ((PsAcc.circuit START_ADDR dw).state ins n)
    ((circuit START_ADDR dw).state ins n) := by
  induction n with
  | zero => exact agrees_reset
  | succ n ih => exact agrees_step (hbeats n) ih

theorem low_state (n : Nat) : PsAcc.Low (ins n) ((PsAcc.circuit START_ADDR dw).state ins n) :=
  fun hvalid hready => (hbeats n hvalid hready).2

theorem counts_state (hdw : 0 < dw) (n : Nat) :
    ((PsAcc.circuit START_ADDR dw).state ins n).Counts :=
  Circuit.inv_state (m := PsAcc.Low) (PsAcc.counts_reset hdw)
    (fun _ _ hlow h => PsAcc.counts_step hlow h) (low_state hbeats) n

theorem same_in_state (n : Nat) :
    (circuit START_ADDR dw).passed ins taken_dws n = dwords_in START_ADDR dw ins n := by
  induction n with
  | zero => rfl
  | succ n ih =>
    have hready := (agrees_state hbeats n).ready (i := ins n)
    have hstep : taken_dws (ins n) ((circuit START_ADDR dw).state ins n) =
        PsAcc.taken_dws (ins n) ((PsAcc.circuit START_ADDR dw).state ins n) := by
      rw [taken_dws, hready, PsAcc.taken_dws]
    rw [Circuit.passed_succ, ih, hstep]
    rfl

theorem same_out_state (hdw : 0 < dw) (n : Nat) :
    (circuit START_ADDR dw).passed ins handed n = words_out START_ADDR dw ins n := by
  induction n with
  | zero => rfl
  | succ n ih =>
    have hagrees := agrees_state hbeats n
    have hstep : handed (ins n) ((circuit START_ADDR dw).state ins n) =
        PsAcc.handed (ins n) ((PsAcc.circuit START_ADDR dw).state ins n) := by
      rw [handed, PsAcc.handed, hagrees.acc_wr_req]
      cases hreq : ((PsAcc.circuit START_ADDR dw).state ins n).acc_wr_req with
      | false => rfl
      | true => rw [hagrees.wdata (counts_state hbeats hdw n) hreq]
    rw [Circuit.passed_succ, ih, hstep]
    rfl

theorem dwords_state (hdw : 0 < dw) (n : Nat) : dwords_in START_ADDR dw ins n =
    (words_out START_ADDR dw ins n).flatMap bus_dwords ++
      (PsAcc.collected ((PsAcc.circuit START_ADDR dw).state ins n) ++
        PsAcc.remaining ((PsAcc.circuit START_ADDR dw).state ins n)) := by
  have hflat : (words_out START_ADDR dw ins n).flatMap bus_dwords =
      (PsAcc.circuit START_ADDR dw).passed ins
        (fun i s => (PsAcc.handed i s).flatMap bus_dwords) n := by
    induction n with
    | zero => rfl
    | succ n ih =>
      rw [Circuit.passed_succ, ← ih, words_out, words_out, Circuit.passed_succ, List.flatMap_append]
  rw [hflat]
  exact Circuit.passed_eq (P := PsAcc.Counts) (m := PsAcc.Low)
    (fun s => PsAcc.collected s ++ PsAcc.remaining s) (counts_state hbeats hdw) (low_state hbeats)
    (by simp [PsAcc.circuit, PsAcc.reset, PsAcc.collected, PsAcc.remaining])
    (fun i s hlow h => PsAcc.dwords_step hlow h) n

theorem words_free (hdw : 0 < dw) {n : Nat}
    (hfree : ((PsAcc.circuit START_ADDR dw).state ins n).pcis_wvalid_q = false) :
    (dwords_in START_ADDR dw ins n).length / dw ≤ (words_out START_ADDR dw ins n).length +
      if ((PsAcc.circuit START_ADDR dw).state ins n).acc_wr_req then 1 else 0 := by
  have hcounts := counts_state hbeats hdw n
  have hle := hcounts.acc_wr_num_dw
  have hlen := congrArg List.length (dwords_state hbeats hdw n)
  rw [PsAcc.remaining, hfree, if_neg Bool.false_ne_true, List.append_nil, List.length_append,
    flatMap_length bus_dwords_length, PsAcc.collected, List.length_map, List.length_range] at hlen
  rw [hlen, hcounts.acc_wr_req, Nat.mul_comm, Nat.mul_add_div hdw]
  apply Nat.add_le_add_left
  split
  case isTrue => exact (Nat.div_le_div_right hle).trans (Nat.div_self hdw).le
  case isFalse hless =>
    rw [decide_eq_true_eq] at hless
    rw [Nat.div_eq_of_lt (Nat.lt_of_le_of_ne hle hless)]

theorem complete_state (hdw : 0 < dw)
    (hack : LeadsTo (fun k => ((PsAcc.circuit START_ADDR dw).state ins k).acc_wr_req)
      fun k => (ins k).acc_ack) (n : Nat) :
    ∃ m, (dwords_in START_ADDR dw ins n).length / dw ≤ (words_out START_ADDR dw ins m).length := by
  have hleads : LeadsTo (fun k => ((PsAcc.circuit START_ADDR dw).state ins k).pcis_wvalid_q)
      fun k => ((PsAcc.circuit START_ADDR dw).state ins k).pcis_wvalid_q = false := by
    refine PsAcc.leadsTo_free (fun _ => true) hdw (fun _ => rfl) fun k hk => ?_
    obtain ⟨m, hm, hcome⟩ := hack k hk
    exact ⟨m, hm, .inl hcome⟩
  have hfree : ∃ m, n ≤ m ∧
      ((PsAcc.circuit START_ADDR dw).state ins m).pcis_wvalid_q = false := by
    cases hbusy : ((PsAcc.circuit START_ADDR dw).state ins n).pcis_wvalid_q with
    | false => exact ⟨n, Nat.le_refl n, hbusy⟩
    | true => exact hleads n hbusy
  obtain ⟨m, hm, hfree⟩ := hfree
  have hwords := words_free hbeats hdw hfree
  have hmore : (dwords_in START_ADDR dw ins n).length / dw ≤
      (dwords_in START_ADDR dw ins m).length / dw :=
    Nat.div_le_div_right (Circuit.passed_prefix hm).length_le
  cases hreq : ((PsAcc.circuit START_ADDR dw).state ins m).acc_wr_req with
  | false =>
    rw [hreq, if_neg Bool.false_ne_true] at hwords
    exact ⟨m, hmore.trans hwords⟩
  | true =>
    rw [hreq, if_pos rfl] at hwords
    -- The word that is requested is handed on when its acknowledgement comes.
    obtain ⟨k, hk, hreq', hcome⟩ := LeadsTo.wait
      (fun k hk hnot => (held_state k hk (eq_false_of_ne_true hnot)).1) hack m hreq
    have hstep : words_out START_ADDR dw ins (k + 1) = words_out START_ADDR dw ins k ++
        [((PsAcc.circuit START_ADDR dw).state ins k).acc_wdata] := by
      rw [words_out, Circuit.passed_succ, PsAcc.handed, hreq', hcome, fire_true]
      rfl
    have hlen := congrArg List.length hstep
    have hprefix : (words_out START_ADDR dw ins m).length ≤ (words_out START_ADDR dw ins k).length :=
      (Circuit.passed_prefix hk).length_le
    rw [List.length_append, List.length_singleton] at hlen
    exact ⟨k + 1, by omega⟩

/-- On beats that both variants support, both cut the dwords into words. -/
theorem variants_repack (hdw : 0 < dw) (n : Nat) : Repacks START_ADDR dw ins n where
  same_in := same_in_state hbeats n
  same_out := same_out_state hbeats hdw n
  same_req := (agrees_state hbeats n).acc_wr_req
  same_wdata := (agrees_state hbeats n).wdata (counts_state hbeats hdw n)
  words := by
    rw [dwords_state hbeats hdw n]
    exact List.prefix_append _ _
  held := held_state n
  complete hack := complete_state hbeats hdw hack n

end Beats

/-- Four dwords in every cycle that takes them, and an acknowledgement in every third. -/
def fours (n : Nat) : PsAccIn where
  pcis_req_wr := true
  pcis_req_addr := 0x40
  pcis_wvalid := true
  pcis_w := ⟨0x00000004000000030000000200000001, 0xFFFF, n % 2 = 0⟩
  acc_ack := n % 3 = 0

theorem fours_aligned : (0x40 : BitVec 14).toNat % 64 = 0 := by decide

theorem repack_fours : (∀ n, Repacks 0 3 fours n) ∧
    words_out 0 3 fours 7 = [0x000000030000000200000001, 0x000000020000000100000004] :=
  ⟨variants_repack (fun _ _ _ => ⟨fours_aligned, 4, by decide, rfl⟩) (by decide), by decide +kernel⟩

end Runs

end PsAccFull

end AwsFpga.Rtl
