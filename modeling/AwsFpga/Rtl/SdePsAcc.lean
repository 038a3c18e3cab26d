import AwsFpga.Lib.Circuit
import AwsFpga.Lib.LeadsTo
import AwsFpga.Rtl.SdePmWrite

/-!
# Descriptors from the host's beats (`sde_ps_acc.sv`)

The accumulator takes write beats of one, four or eight dwords and hands on whole
descriptors (`LIMITED_SUPPORT` is 1). While it works on a beat it takes no other.
-/

open Lib Lib.Axi

namespace AwsFpga.Rtl

/-- Dword `k` of a bus. -/
def dword {w : Nat} (data : BitVec w) (k : Nat) : BitVec 32 := data.extractLsb' (32 * k) 32

/-- A bus of `n` dwords. -/
def of_dwords (n : Nat) (f : Nat → BitVec 32) : BitVec (32 * n) :=
  (List.range n).foldl (fun data k => data ||| (f k).setWidth (32 * n) <<< (32 * k)) 0

/-! ## Buses and their dwords -/

/-- The dwords of a bus. -/
def bus_dwords {n : Nat} (data : BitVec (32 * n)) : List (BitVec 32) := (List.range n).map (dword data)

theorem bus_dwords_length {n : Nat} (data : BitVec (32 * n)) : (bus_dwords data).length = n := by
  simp [bus_dwords]

theorem getLsbD_dword {w : Nat} (data : BitVec w) (k i : Nat) (hi : i < 32) :
    (dword data k).getLsbD i = data.getLsbD (32 * k + i) := by
  simp [dword, hi]

theorem getLsbD_of_dwords_fold (n m : Nat) (f : Nat → BitVec 32) (i : Nat) :
    ((List.range m).foldl (fun data k => data ||| (f k).setWidth (32 * n) <<< (32 * k))
      (0 : BitVec (32 * n))).getLsbD i =
      (decide (i < 32 * n) && decide (i < 32 * m) && (f (i / 32)).getLsbD (i % 32)) := by
  induction m with
  | zero => simp
  | succ m ih =>
    rw [List.range_succ, List.foldl_append]
    simp only [List.foldl_cons, List.foldl_nil, BitVec.getLsbD_or, ih, BitVec.getLsbD_shiftLeft,
      BitVec.getLsbD_setWidth]
    by_cases hw : i < 32 * n
    · by_cases hlt : i < 32 * m
      · have hlt' : i < 32 * (m + 1) := by omega
        simp [hw, hlt, hlt']
      · by_cases hnext : i < 32 * (m + 1)
        · have hdiv : i / 32 = m := by omega
          have hmod : i - 32 * m = i % 32 := by omega
          have hle : i - 32 * m < 32 * n := by omega
          simp [hw, hlt, hnext, hdiv, hmod]
          omega
        · have hge : 32 ≤ i - 32 * m := by omega
          simp [hw, hlt, hnext, BitVec.getLsbD_of_ge _ _ hge]
    · simp [hw]

theorem dword_of_dwords (n : Nat) (f : Nat → BitVec 32) (k : Nat) (hk : k < n) :
    dword (of_dwords n f) k = f k := by
  apply BitVec.eq_of_getLsbD_eq
  intro i hi
  have hdiv : (32 * k + i) / 32 = k := by omega
  have hmod : (32 * k + i) % 32 = i := by omega
  rw [getLsbD_dword _ _ _ hi, of_dwords, getLsbD_of_dwords_fold, hdiv, hmod]
  have h : 32 * k + i < 32 * n := by omega
  simp [h]

theorem dword_setWidth {w v : Nat} (data : BitVec w) (k : Nat) (hv : 32 * k + 32 ≤ v) :
    dword (data.setWidth v) k = dword data k := by
  apply BitVec.eq_of_getLsbD_eq
  intro i hi
  rw [getLsbD_dword _ _ _ hi, getLsbD_dword _ _ _ hi, BitVec.getLsbD_setWidth]
  have h : 32 * k + i < v := by omega
  simp [h]

theorem bus_dwords_of_dwords (n : Nat) (f : Nat → BitVec 32) :
    bus_dwords (of_dwords n f) = (List.range n).map f := by
  apply List.map_congr_left
  intro k hk
  exact dword_of_dwords n f k (List.mem_range.mp hk)

theorem bus_dwords_inj {n : Nat} {data data' : BitVec (32 * n)}
    (h : bus_dwords data = bus_dwords data') : data = data' := by
  apply BitVec.eq_of_getLsbD_eq
  intro i hi
  have hk : i / 32 < n := by omega
  have hdword : dword data (i / 32) = dword data' (i / 32) := by
    have hget := congrArg (fun l => l[i / 32]?) h
    simpa [bus_dwords, hk] using hget
  have hbit := congrArg (fun d => d.getLsbD (i % 32)) hdword
  simp only [getLsbD_dword _ _ _ (Nat.mod_lt i (by decide : 0 < 32)), Nat.div_add_mod] at hbit
  exact hbit

/-! ## The block -/

structure PsAccIn where
  pcis_req_wr : Bool
  pcis_req_addr : BitVec 14
  pcis_wvalid : Bool
  pcis_w : WBeat
  acc_ack : Bool

/-- The registers, for descriptors of `dw` dwords. -/
structure PsAcc (dw : Nat) where
  pcis_first_q : Bool
  pcis_wdata_q : BitVec 256
  pcis_wr_num_dw_q : Nat
  pcis_wvalid_q : Bool
  acc_wr_num_dw : Nat
  acc_wr_req : Bool
  acc_wdata : BitVec (32 * dw)
  pcis_req_addr_q : BitVec 14
  ooo_error : Bool
  unalin_error : Bool
  deriving DecidableEq

namespace PsAcc

variable {dw : Nat} (START_ADDR : BitVec 14) (i : PsAccIn) (s : PsAcc dw)

/-- The last of dwords 0, 3 and 7 whose first strobe is set. -/
def pcis_wr_num_dw_d : Nat :=
  [0, 3, 7].foldl (fun n k => if i.pcis_w.strb.getLsbD (4 * k) then k + 1 else n) 0

def pcis_wready : Bool := i.pcis_req_wr && !s.pcis_wvalid_q

def acc_out_transmit : Bool := dw ≤ s.acc_wr_num_dw

def acc_out_num_dw_needed : Nat := if s.acc_out_transmit then dw else dw - s.acc_wr_num_dw

def acc_num_dw_to_accumulate : Nat :=
  if s.acc_out_num_dw_needed < s.pcis_wr_num_dw_q then s.acc_out_num_dw_needed
  else s.pcis_wr_num_dw_q

def acc_wr_num_dw_d : Nat :=
  if s.acc_out_transmit && s.pcis_wvalid_q then s.acc_num_dw_to_accumulate
  else if s.acc_out_transmit then 0
  else if s.pcis_wvalid_q then s.acc_wr_num_dw + s.acc_num_dw_to_accumulate
  else s.acc_wr_num_dw

def acc_out_stall : Bool := s.acc_wr_req && !i.acc_ack

def acc_in_wdata_acc : BitVec (32 * dw) :=
  of_dwords dw fun k =>
    if k < s.acc_wr_num_dw then dword s.acc_wdata k else dword s.pcis_wdata_q (k - s.acc_wr_num_dw)

def acc_in_wdata_d : BitVec (32 * dw) :=
  if s.acc_out_transmit && s.pcis_wvalid_q then s.pcis_wdata_q.setWidth (32 * dw)
  else if s.pcis_wvalid_q then s.acc_in_wdata_acc
  else s.acc_wdata

def step : PsAcc dw where
  pcis_first_q :=
    if i.pcis_wvalid && pcis_wready i s && i.pcis_w.last then true
    else if i.pcis_wvalid && pcis_wready i s then false
    else s.pcis_first_q
  pcis_wdata_q :=
    if i.pcis_wvalid && !s.pcis_wvalid_q then i.pcis_w.data.setWidth 256
    else if s.pcis_wvalid_q && !acc_out_stall i s then
      s.pcis_wdata_q >>> (32 * s.acc_num_dw_to_accumulate)
    else s.pcis_wdata_q
  pcis_wr_num_dw_q :=
    if i.pcis_wvalid && !s.pcis_wvalid_q then pcis_wr_num_dw_d i
    else if s.pcis_wvalid_q && !acc_out_stall i s then
      s.pcis_wr_num_dw_q - s.acc_num_dw_to_accumulate
    else s.pcis_wr_num_dw_q
  pcis_wvalid_q :=
    if !s.pcis_wvalid_q && i.pcis_wvalid && i.pcis_req_wr then true
    else if s.pcis_wvalid_q && !acc_out_stall i s && s.pcis_wr_num_dw_q = s.acc_num_dw_to_accumulate
    then false
    else s.pcis_wvalid_q
  acc_wr_num_dw := if !acc_out_stall i s then s.acc_wr_num_dw_d else s.acc_wr_num_dw
  acc_wr_req := if !acc_out_stall i s then s.acc_wr_num_dw_d = dw else s.acc_wr_req
  acc_wdata := if !acc_out_stall i s then s.acc_in_wdata_d else s.acc_wdata
  pcis_req_addr_q := if i.pcis_req_wr then i.pcis_req_addr else s.pcis_req_addr_q
  ooo_error :=
    !s.ooo_error && i.pcis_req_wr && i.pcis_req_addr < s.pcis_req_addr_q &&
      i.pcis_req_addr != START_ADDR
  unalin_error := !s.unalin_error && i.pcis_req_wr && i.pcis_req_addr.setWidth 6 != 0

def reset : PsAcc dw where
  pcis_first_q := true
  pcis_wdata_q := 0
  pcis_wr_num_dw_q := 0
  pcis_wvalid_q := false
  acc_wr_num_dw := 0
  acc_wr_req := false
  acc_wdata := 0
  pcis_req_addr_q := 0
  ooo_error := false
  unalin_error := false

/-- The block has a reset of its own. -/
def clocked (rst_n : Bool) : PsAcc dw := if rst_n then step START_ADDR i s else reset

/-! ## A beat is worked off -/

variable {START_ADDR i s}

theorem needed_pos (hdw : 0 < dw) : 0 < s.acc_out_num_dw_needed := by
  unfold acc_out_num_dw_needed acc_out_transmit
  split
  · exact hdw
  · simp_all

variable (START_ADDR) in
theorem busy_stalled (hbusy : s.pcis_wvalid_q) (hstall : acc_out_stall i s) :
    (step START_ADDR i s).pcis_wvalid_q ∧
      (step START_ADDR i s).pcis_wr_num_dw_q = s.pcis_wr_num_dw_q ∧
      (step START_ADDR i s).acc_wr_req := by
  have hreq : s.acc_wr_req := by
    unfold acc_out_stall at hstall
    rw [Bool.and_eq_true] at hstall
    exact hstall.1
  simp [step, hbusy, hstall, hreq]

variable (START_ADDR) in
theorem busy_moves (hdw : 0 < dw) (hbusy : s.pcis_wvalid_q) (hmove : acc_out_stall i s = false) :
    (step START_ADDR i s).pcis_wvalid_q = false ∨
      (step START_ADDR i s).pcis_wr_num_dw_q < s.pcis_wr_num_dw_q := by
  have hneeded := needed_pos (s := s) hdw
  by_cases hdone : s.pcis_wr_num_dw_q = s.acc_num_dw_to_accumulate
  · left
    simp [step, hbusy, hmove, ← hdone]
  · right
    have hnum : (step START_ADDR i s).pcis_wr_num_dw_q =
        s.pcis_wr_num_dw_q - s.acc_num_dw_to_accumulate := by
      simp [step, hbusy, hmove]
    rw [hnum]
    unfold acc_num_dw_to_accumulate at hdone ⊢
    split at hdone
    next hlt =>
      rw [if_pos hlt]
      omega
    next => exact absurd rfl hdone

theorem leadsTo_free {acc : Nat → PsAcc dw} {ins : Nat → PsAccIn}
    (rst_n : Nat → Bool) (hdw : 0 < dw)
    (hacc : ∀ n, acc (n + 1) = clocked START_ADDR (ins n) (acc n) (rst_n n))
    (hack : LeadsTo (fun n => (acc n).acc_wr_req) fun n => (ins n).acc_ack ∨ rst_n n = false) :
    LeadsTo (fun n => (acc n).pcis_wvalid_q) fun n => (acc n).pcis_wvalid_q = false := by
  have hmove : LeadsTo (fun n => (acc n).pcis_wvalid_q)
      fun n => acc_out_stall (ins n) (acc n) = false ∨ rst_n n = false := by
    intro n _
    cases hreq : (acc n).acc_wr_req with
    | false => exact ⟨n, Nat.le_refl n, .inl (by simp [acc_out_stall, hreq])⟩
    | true =>
      obtain ⟨m, hm, hcome⟩ := hack n hreq
      refine ⟨m, hm, ?_⟩
      rcases hcome with hcome | hcome
      · exact .inl (by simp [acc_out_stall, hcome])
      · exact .inr hcome
  refine LeadsTo.rank (fun n => (acc n).pcis_wr_num_dw_q) fun k => ?_
  have hstay : ∀ n, ((acc n).pcis_wvalid_q = true ∧ (acc n).pcis_wr_num_dw_q = k) →
      ¬(acc_out_stall (ins n) (acc n) = false ∨ rst_n n = false) →
      (acc (n + 1)).pcis_wvalid_q = true ∧ (acc (n + 1)).pcis_wr_num_dw_q = k := by
    rintro n ⟨hbusy, hnum⟩ hnot
    rw [not_or, Bool.not_eq_false, Bool.not_eq_false] at hnot
    have hstep := busy_stalled START_ADDR hbusy hnot.1
    rw [hacc, clocked, if_pos hnot.2]
    exact ⟨hstep.1, hstep.2.1.trans hnum⟩
  refine LeadsTo.trans (LeadsTo.wait hstay fun n h => hmove n h.1) (LeadsTo.next ?_)
  rintro n ⟨⟨hbusy, hnum⟩, hcome⟩
  rw [hacc, clocked]
  split
  next hrst =>
    have hfree : acc_out_stall (ins n) (acc n) = false := by
      rcases hcome with hcome | hcome
      · exact hcome
      · rw [hrst] at hcome
        cases hcome
    rcases busy_moves START_ADDR hdw hbusy hfree with hdone | hless
    · exact .inl hdone
    · cases hvalid : (step START_ADDR (ins n) (acc n)).pcis_wvalid_q with
      | false => exact .inl rfl
      | true => exact .inr ⟨rfl, hnum ▸ hless⟩
  next => exact .inl rfl

/-! ## The dwords of a beat -/

variable (START_ADDR i s)

def circuit (dw : Nat) : Circuit PsAccIn (PsAcc dw) := ⟨reset, step START_ADDR⟩

/-- The descriptors that are handed on. -/
def handed : List (BitVec (32 * dw)) := fire s.acc_wr_req i.acc_ack s.acc_wdata

/-- The dwords that a beat carries, by the first strobe of each. -/
def carried (w : WBeat) : List (BitVec 32) :=
  ((List.range 16).filter fun k => w.strb.getLsbD (4 * k)).map (dword w.data)

/-- The dwords of the beat that is taken in. -/
def taken_dws : List (BitVec 32) := (fire i.pcis_wvalid (pcis_wready i s) i.pcis_w).flatMap carried

/-- One, four or eight dwords in the low lanes. -/
def LowLanes (w : WBeat) : Prop := ∃ n ∈ [1, 4, 8], w.strb = BitVec.ofNat 64 (2 ^ (4 * n) - 1)

/-- A beat that is taken has its dwords in the low lanes. -/
def Low : Prop := i.pcis_wvalid → pcis_wready i s → LowLanes i.pcis_w

structure Counts (s : PsAcc dw) : Prop where
  acc_wr_num_dw : s.acc_wr_num_dw ≤ dw
  acc_wr_req : s.acc_wr_req = decide (s.acc_wr_num_dw = dw)
  pcis_wr_num_dw_q : s.pcis_wvalid_q → 0 < s.pcis_wr_num_dw_q ∧ s.pcis_wr_num_dw_q ≤ 8

/-- The dwords in the output register. -/
def collected : List (BitVec 32) := (List.range s.acc_wr_num_dw).map (dword s.acc_wdata)

/-- The dwords left of the beat. -/
def remaining : List (BitVec 32) :=
  if s.pcis_wvalid_q then (List.range s.pcis_wr_num_dw_q).map (dword s.pcis_wdata_q) else []

variable {START_ADDR i s}

theorem num_dw_of_low (h : LowLanes i.pcis_w) :
    carried i.pcis_w = (List.range (pcis_wr_num_dw_d i)).map (dword i.pcis_w.data) ∧
      0 < pcis_wr_num_dw_d i ∧ pcis_wr_num_dw_d i ≤ 8 := by
  obtain ⟨n, hn, hstrb⟩ := h
  unfold carried pcis_wr_num_dw_d
  rw [hstrb]
  simp only [List.mem_cons, List.not_mem_nil, or_false] at hn
  rcases hn with rfl | rfl | rfl
  · exact ⟨rfl, by decide, by decide⟩
  · exact ⟨rfl, by decide, by decide⟩
  · exact ⟨rfl, by decide, by decide⟩

theorem dword_ushiftRight {w : Nat} (data : BitVec w) (a k : Nat) :
    dword (data >>> (32 * a)) k = dword data (a + k) := by
  apply BitVec.eq_of_getLsbD_eq
  intro j hj
  have hadd : 32 * a + (32 * k + j) = 32 * (a + k) + j := by omega
  rw [getLsbD_dword _ _ _ hj, getLsbD_dword _ _ _ hj, BitVec.getLsbD_ushiftRight, hadd]

theorem counts_reset (hdw : 0 < dw) : (reset : PsAcc dw).Counts where
  acc_wr_num_dw := Nat.zero_le _
  acc_wr_req := by simp [reset, hdw.ne]
  pcis_wr_num_dw_q h := by cases h

theorem accumulate_le : s.acc_num_dw_to_accumulate ≤ s.pcis_wr_num_dw_q ∧
    s.acc_num_dw_to_accumulate ≤ s.acc_out_num_dw_needed := by
  unfold acc_num_dw_to_accumulate
  split <;> omega

theorem num_dw_d_le (h : s.Counts) : s.acc_wr_num_dw_d ≤ dw := by
  have hle := h.acc_wr_num_dw
  have hneeded := (accumulate_le (s := s)).2
  unfold acc_out_num_dw_needed at hneeded
  unfold acc_wr_num_dw_d
  cases htransmit : s.acc_out_transmit <;> cases s.pcis_wvalid_q <;>
    simp [htransmit] at hneeded ⊢ <;> omega

theorem counts_step (hlow : Low i s) (h : s.Counts) : (step START_ADDR i s).Counts where
  acc_wr_num_dw := by
    simp only [step]
    split
    · exact num_dw_d_le h
    · exact h.acc_wr_num_dw
  acc_wr_req := by
    simp only [step]
    split
    · rfl
    · exact h.acc_wr_req
  pcis_wr_num_dw_q hbusy' := by
    cases hbusy : s.pcis_wvalid_q with
    | false =>
      have hcome : i.pcis_wvalid = true ∧ i.pcis_req_wr = true := by
        simpa [step, hbusy] using hbusy'
      have hnum : (step START_ADDR i s).pcis_wr_num_dw_q = pcis_wr_num_dw_d i := by
        simp [step, hbusy, hcome.1]
      rw [hnum]
      exact (num_dw_of_low (hlow hcome.1 (by simp [pcis_wready, hcome.2, hbusy]))).2
    | true =>
      have hnum := h.pcis_wr_num_dw_q hbusy
      cases hstall : acc_out_stall i s with
      | true => simpa [step, hbusy, hstall] using hnum
      | false =>
        have hle := (accumulate_le (s := s)).1
        have hmore : s.pcis_wr_num_dw_q ≠ s.acc_num_dw_to_accumulate := by
          intro heq
          simp [step, hbusy, hstall, ← heq] at hbusy'
        have hleft : (step START_ADDR i s).pcis_wr_num_dw_q =
            s.pcis_wr_num_dw_q - s.acc_num_dw_to_accumulate := by
          simp [step, hbusy, hstall]
        omega

theorem remaining_take : (remaining s).take s.acc_num_dw_to_accumulate =
    if s.pcis_wvalid_q then
      (List.range s.acc_num_dw_to_accumulate).map (dword s.pcis_wdata_q) else [] := by
  unfold remaining
  split
  · rw [← List.map_take, List.take_range, Nat.min_eq_left (accumulate_le (s := s)).1]
  · exact List.take_nil

variable (START_ADDR) in
theorem collected_step (h : s.Counts) :
    collected s ++
        (if acc_out_stall i s then [] else (remaining s).take s.acc_num_dw_to_accumulate) =
      (handed i s).flatMap bus_dwords ++ collected (step START_ADDR i s) := by
  cases hstall : acc_out_stall i s with
  | true =>
    have hreq : s.acc_wr_req = true ∧ i.acc_ack = false := by
      simpa [acc_out_stall] using hstall
    simp [handed, hreq.2, collected, step, hstall]
  | false =>
    rw [if_neg (by simp), remaining_take]
    have hneeded := (accumulate_le (s := s)).2
    unfold acc_out_num_dw_needed at hneeded
    by_cases hfull : s.acc_wr_num_dw = dw
    · have hreq : s.acc_wr_req = true := by simp [h.acc_wr_req, hfull]
      have hack : i.acc_ack = true := by simpa [acc_out_stall, hreq] using hstall
      have hout : (handed i s).flatMap bus_dwords = collected s := by
        simp [handed, hreq, hack, bus_dwords, collected, hfull]
      have htransmit : s.acc_out_transmit = true := by simp [acc_out_transmit, hfull]
      rw [htransmit, if_pos rfl] at hneeded
      rw [hout]
      congr 1
      cases hbusy : s.pcis_wvalid_q with
      | false => simp [collected, step, hstall, hbusy, acc_wr_num_dw_d, htransmit]
      | true =>
        have hnum : (step START_ADDR i s).acc_wr_num_dw = s.acc_num_dw_to_accumulate := by
          simp [step, hstall, acc_wr_num_dw_d, htransmit, hbusy]
        have hdata : (step START_ADDR i s).acc_wdata = s.pcis_wdata_q.setWidth (32 * dw) := by
          simp [step, hstall, acc_in_wdata_d, htransmit, hbusy]
        rw [if_pos rfl, collected, hnum, hdata]
        apply List.map_congr_left
        intro k hk
        rw [List.mem_range] at hk
        exact (dword_setWidth _ k (by omega)).symm
    · have hreq : s.acc_wr_req = false := by rw [h.acc_wr_req, decide_eq_false hfull]
      have hlt : s.acc_wr_num_dw < dw := Nat.lt_of_le_of_ne h.acc_wr_num_dw hfull
      have htransmit : s.acc_out_transmit = false := by simp [acc_out_transmit, hlt]
      have hout : handed i s = [] := by simp [handed, hreq]
      rw [htransmit, if_neg Bool.false_ne_true] at hneeded
      rw [hout]
      cases hbusy : s.pcis_wvalid_q with
      | false => simp [collected, step, hstall, hbusy, acc_wr_num_dw_d, htransmit, acc_in_wdata_d]
      | true =>
        have hnum : (step START_ADDR i s).acc_wr_num_dw =
            s.acc_wr_num_dw + s.acc_num_dw_to_accumulate := by
          simp [step, hstall, acc_wr_num_dw_d, htransmit, hbusy]
        have hdata : (step START_ADDR i s).acc_wdata = s.acc_in_wdata_acc := by
          simp [step, hstall, acc_in_wdata_d, htransmit, hbusy]
        rw [if_pos rfl, collected, collected, hnum, hdata, List.range_add, List.map_append,
          List.map_map, List.flatMap_nil, List.nil_append]
        congr 1
        · apply List.map_congr_left
          intro k hk
          rw [List.mem_range] at hk
          rw [acc_in_wdata_acc, dword_of_dwords _ _ _ (by omega), if_pos hk]
        · apply List.map_congr_left
          intro k hk
          rw [List.mem_range] at hk
          have hnot : ¬s.acc_wr_num_dw + k < s.acc_wr_num_dw := by omega
          rw [Function.comp_apply, acc_in_wdata_acc, dword_of_dwords _ _ _ (by omega), if_neg hnot,
            Nat.add_sub_cancel_left]

variable (START_ADDR) in
theorem remaining_step (hlow : Low i s) :
    (if acc_out_stall i s then remaining s
      else (remaining s).drop s.acc_num_dw_to_accumulate) ++ taken_dws i s =
        remaining (step START_ADDR i s) := by
  cases hbusy : s.pcis_wvalid_q with
  | false =>
    have hnone : remaining s = [] := by simp [remaining, hbusy]
    rw [hnone, List.drop_nil, ite_self, List.nil_append]
    by_cases hcome : i.pcis_wvalid = true ∧ i.pcis_req_wr = true
    · have hready : pcis_wready i s = true := by simp [pcis_wready, hcome.2, hbusy]
      obtain ⟨hcarried, -, hle⟩ := num_dw_of_low (hlow hcome.1 hready)
      have hnext : remaining (step START_ADDR i s) =
          (List.range (pcis_wr_num_dw_d i)).map (dword (i.pcis_w.data.setWidth 256)) := by
        simp [remaining, step, hbusy, hcome.1, hcome.2]
      rw [hnext, taken_dws, hcome.1, hready, fire_true, List.flatMap_singleton, hcarried]
      apply List.map_congr_left
      intro k hk
      rw [List.mem_range] at hk
      exact (dword_setWidth _ k (by omega)).symm
    · have htaken : taken_dws i s = [] := by
        cases hvalid : i.pcis_wvalid <;> cases hreq : i.pcis_req_wr <;>
          simp_all [taken_dws, pcis_wready]
      have hnext : (step START_ADDR i s).pcis_wvalid_q = false := by
        cases hvalid : i.pcis_wvalid <;> cases hreq : i.pcis_req_wr <;> simp_all [step]
      rw [htaken, remaining, hnext, if_neg Bool.false_ne_true]
  | true =>
    have htaken : taken_dws i s = [] := by simp [taken_dws, pcis_wready, hbusy]
    rw [htaken, List.append_nil]
    cases hstall : acc_out_stall i s with
    | true => simp [remaining, step, hbusy, hstall]
    | false =>
      rw [if_neg Bool.false_ne_true, remaining, if_pos hbusy]
      by_cases hdone : s.pcis_wr_num_dw_q = s.acc_num_dw_to_accumulate
      · have hnext : (step START_ADDR i s).pcis_wvalid_q = false := by
          simp [step, hbusy, hstall, ← hdone]
        rw [remaining, hnext, if_neg Bool.false_ne_true, ← hdone]
        exact List.drop_eq_nil_of_le (by simp)
      · have hnext : remaining (step START_ADDR i s) =
            (List.range (s.pcis_wr_num_dw_q - s.acc_num_dw_to_accumulate)).map
              (dword (s.pcis_wdata_q >>> (32 * s.acc_num_dw_to_accumulate))) := by
          simp [remaining, step, hbusy, hstall, hdone]
        rw [hnext]
        apply List.ext_getElem
        · simp
        · intro k hk hk'
          simp [dword_ushiftRight]

theorem dwords_step (hlow : Low i s) (h : s.Counts) :
    (collected s ++ remaining s) ++ taken_dws i s =
      (handed i s).flatMap bus_dwords ++
        (collected (step START_ADDR i s) ++ remaining (step START_ADDR i s)) := by
  have hcollected := collected_step START_ADDR (i := i) h
  rw [← remaining_step START_ADDR hlow]
  cases hstall : acc_out_stall i s with
  | true =>
    rw [hstall, if_pos rfl, List.append_nil] at hcollected
    rw [if_pos rfl, ← List.append_assoc, ← hcollected, List.append_assoc]
  | false =>
    rw [hstall, if_neg Bool.false_ne_true] at hcollected
    rw [if_neg Bool.false_ne_true, ← List.append_assoc, ← hcollected, ← List.append_assoc,
      List.append_assoc (collected s) (List.take _ _), List.take_append_drop]

/-! ## Descriptors from single dwords -/

variable (START_ADDR i s)

/-- The dwords that are taken in: each beat brings the first of its bus. -/
def accepted : List (BitVec 32) :=
  fire i.pcis_wvalid (pcis_wready i s) (i.pcis_w.data.setWidth 32)

/-- A beat that is taken carries one dword. -/
def Single : Prop := i.pcis_wvalid → pcis_wready i s → i.pcis_w.strb = 0xF

structure Inv (s : PsAcc dw) : Prop where
  acc_wr_num_dw : s.acc_wr_num_dw ≤ dw
  acc_wr_req : s.acc_wr_req = decide (s.acc_wr_num_dw = dw)
  pcis_wr_num_dw_q : s.pcis_wvalid_q → s.pcis_wr_num_dw_q = 1

def waiting : List (BitVec 32) := shown s.pcis_wvalid_q (dword s.pcis_wdata_q 0)

variable {START_ADDR i s}

theorem num_dw_of_single (h : i.pcis_w.strb = 0xF) : pcis_wr_num_dw_d i = 1 := by
  unfold pcis_wr_num_dw_d
  rw [h]
  decide

theorem inv_reset (hdw : 0 < dw) : (reset : PsAcc dw).Inv where
  acc_wr_num_dw := Nat.zero_le _
  acc_wr_req := by simp [reset, hdw.ne]
  pcis_wr_num_dw_q h := by cases h

theorem Inv.counts (h : s.Inv) : s.Counts where
  acc_wr_num_dw := h.acc_wr_num_dw
  acc_wr_req := h.acc_wr_req
  pcis_wr_num_dw_q hbusy := by simp [h.pcis_wr_num_dw_q hbusy]

theorem accumulate_one (h : s.Inv) (hdw : 0 < dw) (hbusy : s.pcis_wvalid_q) :
    s.acc_num_dw_to_accumulate = 1 := by
  have hneeded := needed_pos (s := s) hdw
  unfold acc_num_dw_to_accumulate
  rw [h.pcis_wr_num_dw_q hbusy]
  split <;> omega

theorem waiting_take (h : s.Inv) (hdw : 0 < dw) :
    (remaining s).take s.acc_num_dw_to_accumulate = waiting s := by
  rw [remaining_take, waiting, shown]
  split
  case isTrue hbusy =>
    rw [accumulate_one h hdw hbusy]
    rfl
  case isFalse => rfl

theorem inv_step (hdw : 0 < dw) (hsingle : Single i s) (h : s.Inv) : (step START_ADDR i s).Inv where
  acc_wr_num_dw := by
    simp only [step]
    split
    · exact num_dw_d_le h.counts
    · exact h.acc_wr_num_dw
  acc_wr_req := by
    simp only [step]
    split
    · rfl
    · exact h.acc_wr_req
  pcis_wr_num_dw_q hbusy' := by
    cases hbusy : s.pcis_wvalid_q with
    | false =>
      have hcome : i.pcis_wvalid = true ∧ i.pcis_req_wr = true := by
        simpa [step, hbusy] using hbusy'
      have hstrb := hsingle hcome.1 (by simp [pcis_wready, hcome.2, hbusy])
      simp [step, hbusy, hcome.1, num_dw_of_single hstrb]
    | true =>
      have hone := accumulate_one h hdw hbusy
      have hnum := h.pcis_wr_num_dw_q hbusy
      cases hstall : acc_out_stall i s with
      | false => simp [step, hbusy, hstall, hone, hnum] at hbusy'
      | true => simp [step, hbusy, hstall, hnum]

variable (START_ADDR) in
theorem waiting_step (hdw : 0 < dw) (h : s.Inv) :
    (if acc_out_stall i s then waiting s else []) ++ accepted i s =
      waiting (step START_ADDR i s) := by
  cases hbusy : s.pcis_wvalid_q with
  | false =>
    have hword : dword (i.pcis_w.data.setWidth 256) 0 = i.pcis_w.data.setWidth 32 := by
      rw [dword_setWidth _ 0 (by decide)]
      rfl
    cases hvalid : i.pcis_wvalid <;> cases hreq : i.pcis_req_wr <;>
      simp [waiting, accepted, fire, shown, pcis_wready, step, hbusy, hvalid, hreq, hword]
  | true =>
    have hone := accumulate_one h hdw hbusy
    have hnum := h.pcis_wr_num_dw_q hbusy
    cases hstall : acc_out_stall i s <;>
      simp [waiting, accepted, pcis_wready, step, hbusy, hstall, hone, hnum]

variable (START_ADDR) in
theorem collected_single (hdw : 0 < dw) (h : s.Inv) :
    collected s ++ (if acc_out_stall i s then [] else waiting s) =
      (handed i s).flatMap bus_dwords ++ collected (step START_ADDR i s) := by
  rw [← collected_step START_ADDR h.counts, waiting_take h hdw]

theorem single_step (hdw : 0 < dw) (h : s.Inv) :
    (collected s ++ waiting s) ++ accepted i s =
      (handed i s).flatMap bus_dwords ++
        (collected (step START_ADDR i s) ++ waiting (step START_ADDR i s)) := by
  have hcollected := collected_single START_ADDR (i := i) hdw h
  have hwaiting := waiting_step START_ADDR (i := i) hdw h
  cases hstall : acc_out_stall i s with
  | true =>
    rw [hstall, if_pos rfl, List.append_nil] at hcollected
    rw [hstall, if_pos rfl] at hwaiting
    rw [← List.append_assoc, ← hcollected, ← hwaiting, List.append_assoc]
  | false =>
    rw [hstall, if_neg (by simp)] at hcollected
    rw [hstall, if_neg (by simp), List.nil_append] at hwaiting
    rw [hcollected, hwaiting, List.append_assoc]

section Runs

variable {START_ADDR : BitVec 14} {ins : Nat → PsAccIn}

theorem inv_state (hdw : 0 < dw)
    (hsingle : ∀ n, Single (ins n) ((circuit START_ADDR dw).state ins n)) (n : Nat) :
    ((circuit START_ADDR dw).state ins n).Inv :=
  Circuit.inv_state (m := Single) (inv_reset hdw) (fun _ _ hm h => inv_step hdw hm h) hsingle n

/-- The dwords taken in are those of the descriptors handed on, and those held. -/
theorem accepted_state (hdw : 0 < dw)
    (hsingle : ∀ n, Single (ins n) ((circuit START_ADDR dw).state ins n)) (n : Nat) :
    (circuit START_ADDR dw).passed ins accepted n =
      ((circuit START_ADDR dw).passed ins handed n).flatMap bus_dwords ++
        (collected ((circuit START_ADDR dw).state ins n) ++
          waiting ((circuit START_ADDR dw).state ins n)) := by
  have hflat : ((circuit START_ADDR dw).passed ins handed n).flatMap bus_dwords =
      (circuit START_ADDR dw).passed ins (fun i s => (handed i s).flatMap bus_dwords) n := by
    induction n with
    | zero => rfl
    | succ n ih => rw [Circuit.passed_succ, Circuit.passed_succ, List.flatMap_append, ih]
  rw [hflat]
  exact Circuit.passed_eq (P := Inv) (m := Single) (fun s => collected s ++ waiting s)
    (inv_state hdw hsingle) hsingle (by simp [circuit, reset, collected, waiting])
    (fun i s _ h => single_step hdw h) n

/-- Whole descriptors come out, in the order of their dwords. -/
theorem handed_prefix (hdw : 0 < dw)
    (hsingle : ∀ n, Single (ins n) ((circuit START_ADDR dw).state ins n))
    {descs : List (BitVec (32 * dw))} {n : Nat}
    (haccepted : (circuit START_ADDR dw).passed ins accepted n <+: descs.flatMap bus_dwords) :
    (circuit START_ADDR dw).passed ins handed n <+: descs := by
  rw [accepted_state hdw hsingle n] at haccepted
  exact prefix_of_flatMap_prefix hdw bus_dwords_length (fun _ _ => bus_dwords_inj)
    ((List.prefix_append _ _).trans haccepted)

section AllIn

/-! From cycle `k` on all dwords are in. -/

variable (hdw : 0 < dw) (hsingle : ∀ n, Single (ins n) ((circuit START_ADDR dw).state ins n))
variable {descs : List (BitVec (32 * dw))} {k : Nat}
variable (haccepted : ∀ n, k ≤ n →
  (circuit START_ADDR dw).passed ins accepted n = descs.flatMap bus_dwords)

include haccepted

theorem accepted_none {n : Nat} (hn : k ≤ n) :
    accepted (ins n) ((circuit START_ADDR dw).state ins n) = [] := by
  have hnext := haccepted (n + 1) (by omega)
  rw [Circuit.passed_succ, haccepted n hn] at hnext
  simpa using hnext

include hdw hsingle

theorem waiting_done (hack : ∀ n, ∃ m, n ≤ m ∧ (ins m).acc_ack) :
    ∃ n₁, k ≤ n₁ ∧ ∀ n, n₁ ≤ n → waiting ((circuit START_ADDR dw).state ins n) = [] := by
  have hfree : ∃ n, k ≤ n ∧ waiting ((circuit START_ADDR dw).state ins n) = [] := by
    cases hbusy : ((circuit START_ADDR dw).state ins k).pcis_wvalid_q with
    | false => exact ⟨k, Nat.le_refl k, by simp [waiting, hbusy]⟩
    | true =>
      have hleads : LeadsTo (fun n => ((circuit START_ADDR dw).state ins n).pcis_wvalid_q)
          fun n => ((circuit START_ADDR dw).state ins n).pcis_wvalid_q = false := by
        refine leadsTo_free (fun _ => true) hdw (fun _ => rfl) fun n _ => ?_
        obtain ⟨m, hm, hcome⟩ := hack n
        exact ⟨m, hm, .inl hcome⟩
      obtain ⟨n, hn, hdone⟩ := hleads k hbusy
      exact ⟨n, hn, by simp [waiting, hdone]⟩
  obtain ⟨n₁, hn₁, hwait₁⟩ := hfree
  refine ⟨n₁, hn₁, fun n hn => ?_⟩
  induction hn with
  | refl => exact hwait₁
  | @step n hn ih =>
    have hstep := waiting_step START_ADDR (i := ins n) hdw (inv_state hdw hsingle n)
    rw [accepted_none haccepted (hn₁.trans hn), ih, ite_self, List.append_nil] at hstep
    exact hstep.symm

/-- The registers then hold no dword or a whole descriptor, which the next acknowledgement takes. -/
theorem collected_none {m : Nat} (hm : k ≤ m)
    (hwait : waiting ((circuit START_ADDR dw).state ins m) = []) (hcome : (ins m).acc_ack) :
    collected ((circuit START_ADDR dw).state ins (m + 1)) = [] := by
  have hinv := inv_state hdw hsingle m
  have hlen := congrArg List.length (accepted_state hdw hsingle m)
  rw [haccepted m hm, hwait, List.append_nil, List.length_append,
    flatMap_length bus_dwords_length, flatMap_length bus_dwords_length, collected, List.length_map,
    List.length_range] at hlen
  have hstep := collected_single START_ADDR (i := ins m) hdw hinv
  rw [hwait, ite_self, List.append_nil] at hstep
  have hlen' := congrArg List.length hstep
  rw [List.length_append, flatMap_length bus_dwords_length, collected, List.length_map,
    List.length_range] at hlen'
  apply List.eq_nil_of_length_eq_zero
  rw [Circuit.state_succ]
  change (collected (step START_ADDR _ _)).length = 0
  by_cases hfull : ((circuit START_ADDR dw).state ins m).acc_wr_num_dw = dw
  · have hout : (handed (ins m) ((circuit START_ADDR dw).state ins m)).length = 1 := by
      simp [handed, hinv.acc_wr_req, hfull, hcome]
    rw [hout, hfull] at hlen'
    omega
  · have hzero : ((circuit START_ADDR dw).state ins m).acc_wr_num_dw = 0 := by
      have hle := hinv.acc_wr_num_dw
      have hlt : ((circuit START_ADDR dw).state ins m).acc_wr_num_dw < dw := by omega
      have hmod := congrArg (· % dw) hlen
      simp only [Nat.mul_mod_left, Nat.mul_add_mod_self_right, Nat.mod_eq_of_lt hlt] at hmod
      exact hmod.symm
    rw [hzero] at hlen'
    omega

/-- When acknowledgements keep coming, all descriptors come out. -/
theorem handed_of_accepted (hack : ∀ n, ∃ m, n ≤ m ∧ (ins m).acc_ack) :
    ∃ N, ∀ n, N ≤ n → (circuit START_ADDR dw).passed ins handed n = descs := by
  obtain ⟨n₁, hn₁, hwait⟩ := waiting_done hdw hsingle haccepted hack
  obtain ⟨m, hm, hcome⟩ := hack n₁
  have hcollected := collected_none hdw hsingle haccepted (hn₁.trans hm) (hwait m hm) hcome
  have hpre : ∀ n, k ≤ n → (circuit START_ADDR dw).passed ins handed n <+: descs := fun n hn =>
    handed_prefix hdw hsingle (by simp [haccepted n hn])
  have hmore : descs <+: (circuit START_ADDR dw).passed ins handed (m + 1) := by
    have hstate := accepted_state hdw hsingle (m + 1)
    rw [haccepted (m + 1) (by omega), hcollected, hwait (m + 1) (by omega), List.append_nil,
      List.append_nil] at hstate
    exact prefix_of_flatMap_prefix hdw bus_dwords_length (fun _ _ => bus_dwords_inj) (by simp [hstate])
  refine ⟨m + 1, fun n hn => ?_⟩
  have hle := (hmore.trans (Circuit.passed_prefix hn)).length_le
  have hpre' := hpre n (by omega)
  exact hpre'.eq_of_length (Nat.le_antisymm hpre'.length_le hle)

end AllIn

end Runs

end PsAcc

end AwsFpga.Rtl
