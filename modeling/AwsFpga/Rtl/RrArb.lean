import AwsFpga.Lib.Circuit
import AwsFpga.Lib.RoundRobin
import AwsFpga.Rtl.Blocks
import Mathlib.Data.BitVec

/-!
# The round robin arbiter (`rr_arb.sv`)

The arbiter as the source has it, with its vectors and its register; where it
arbitrates, it computes what `rr_arb` of the blocks does.
-/

open Lib

namespace AwsFpga.Rtl.RrArb

structure Params where
  WINNER_WIDTH : Nat
  REQ_WIDTH : Nat
  DO_ARB_IS_CHANGE_STATE : Nat
  pos : 1 ≤ REQ_WIDTH
  /-- Every request has an index. -/
  wide : REQ_WIDTH ≤ 2 ^ WINNER_WIDTH

structure In (p : Params) where
  rst_n : Bool
  req : BitVec p.REQ_WIDTH
  do_arb : Bool

section

variable (p : Params) (i : In p) (s : BitVec p.WINNER_WIDTH)

/-- `winner_q`, whose reset does not wait for the clock. -/
def winner_q : BitVec p.WINNER_WIDTH := if !i.rst_n then 0#_ else s

def hi_pri : BitVec p.WINNER_WIDTH :=
  if (winner_q p i s).toNat = p.REQ_WIDTH - 1 then 0#_ else winner_q p i s + 1#_

/-- `{2{req}} >> hi_pri`. -/
def req_shifted : BitVec p.REQ_WIDTH :=
  ((i.req ++ i.req) >>> (hi_pri p i s).toNat).setWidth p.REQ_WIDTH

/-- The adjustment for odd widths. -/
def adjusted (tmp_winner : BitVec (p.WINNER_WIDTH + 1)) : BitVec (p.WINNER_WIDTH + 1) :=
  if p.REQ_WIDTH ≤ tmp_winner.toNat then tmp_winner - BitVec.ofNat _ p.REQ_WIDTH else tmp_winner

/-- The loop, down from `REQ_WIDTH - 1`. -/
def winner_loop : Nat → BitVec (p.WINNER_WIDTH + 1) → BitVec (p.WINNER_WIDTH + 1)
  | 0, tmp_winner => tmp_winner
  | k + 1, tmp_winner => winner_loop k
      (if (req_shifted p i s).getLsbD k
        then adjusted p (BitVec.ofNat _ ((hi_pri p i s).toNat + k)) else tmp_winner)

/-- This cycle looks at the requests. -/
def arbitrates : Bool := i.do_arb || p.DO_ARB_IS_CHANGE_STATE == 1

def tmp_winner : BitVec (p.WINNER_WIDTH + 1) :=
  if arbitrates p i then winner_loop p i s p.REQ_WIDTH 0#_ else (winner_q p i s).setWidth _

def winner : BitVec p.WINNER_WIDTH := (tmp_winner p i s).setWidth _

def arb : Circuit (In p) (BitVec p.WINNER_WIDTH) where
  reset := 0#_
  step i s := if !i.rst_n then 0#_ else if i.do_arb then winner p i s else s

end

/-! ## It computes `rr_arb` -/

variable {p : Params} {i : In p} {s : BitVec p.WINNER_WIDTH}

theorem hi_pri_toNat (hq : (winner_q p i s).toNat < p.REQ_WIDTH) :
    (hi_pri p i s).toNat = Rtl.hi_pri p.REQ_WIDTH (winner_q p i s).toNat := by
  have hwide := p.wide
  unfold hi_pri Rtl.hi_pri
  by_cases h : (winner_q p i s).toNat = p.REQ_WIDTH - 1
  · rw [if_pos h, if_pos h]
    rfl
  · rw [if_neg h, if_neg h, BitVec.toNat_add, BitVec.toNat_ofNat, Nat.add_mod_mod]
    exact Nat.mod_eq_of_lt (by omega)

theorem req_shifted_getLsbD {k : Nat} (hk : k < p.REQ_WIDTH) : (req_shifted p i s).getLsbD k =
    Rtl.req_shifted p.REQ_WIDTH i.req.getLsbD (hi_pri p i s).toNat k := by
  unfold req_shifted Rtl.req_shifted adjust
  rw [BitVec.getLsbD_setWidth, BitVec.getLsbD_ushiftRight, BitVec.getLsbD_append]
  simp only [hk, decide_true, Bool.true_and]
  by_cases hlt : (hi_pri p i s).toNat + k < p.REQ_WIDTH
  · rw [if_pos hlt, if_neg (Nat.not_le.mpr hlt)]
  · rw [if_neg hlt, if_pos (Nat.not_lt.mp hlt)]

theorem adjusted_toNat {k : Nat} (hpri : (hi_pri p i s).toNat < p.REQ_WIDTH)
    (hk : k < p.REQ_WIDTH) : (adjusted p (BitVec.ofNat _ ((hi_pri p i s).toNat + k))).toNat =
      adjust p.REQ_WIDTH ((hi_pri p i s).toNat + k) := by
  have hwide := p.wide
  have hpow : 2 ^ (p.WINNER_WIDTH + 1) = 2 * 2 ^ p.WINNER_WIDTH := by rw [Nat.pow_succ, Nat.mul_comm]
  have hlt := Nat.add_lt_add hpri hk
  have hsum : (BitVec.ofNat (p.WINNER_WIDTH + 1) ((hi_pri p i s).toNat + k)).toNat =
      (hi_pri p i s).toNat + k := by
    rw [BitVec.toNat_ofNat]
    exact Nat.mod_eq_of_lt (by omega)
  have hreq : (BitVec.ofNat (p.WINNER_WIDTH + 1) p.REQ_WIDTH).toNat = p.REQ_WIDTH := by
    rw [BitVec.toNat_ofNat]
    exact Nat.mod_eq_of_lt (by omega)
  unfold adjusted adjust
  rw [hsum]
  split
  case isTrue hle =>
    rw [BitVec.toNat_sub_of_le (by rw [BitVec.le_def, hsum, hreq]; exact hle), hsum, hreq]
  case isFalse => exact hsum

theorem winner_loop_toNat (hpri : (hi_pri p i s).toNat < p.REQ_WIDTH) {k : Nat}
    (hk : k ≤ p.REQ_WIDTH) (tmp_winner : BitVec (p.WINNER_WIDTH + 1)) :
    (winner_loop p i s k tmp_winner).toNat =
      rr_loop p.REQ_WIDTH i.req.getLsbD (hi_pri p i s).toNat k tmp_winner.toNat := by
  induction k generalizing tmp_winner with
  | zero => rfl
  | succ k ih =>
    rw [winner_loop, rr_loop, ih (by omega), req_shifted_getLsbD (by omega)]
    split
    · rw [adjusted_toNat hpri (by omega)]
    · rfl

theorem winner_toNat (harb : arbitrates p i) (hq : (winner_q p i s).toNat < p.REQ_WIDTH) :
    (winner p i s).toNat = rr_arb p.REQ_WIDTH i.req.getLsbD (winner_q p i s).toNat := by
  have hwide := p.wide
  have hpri : (hi_pri p i s).toNat < p.REQ_WIDTH := by
    rw [hi_pri_toNat hq]
    exact hi_pri_lt hq
  have hloop : (tmp_winner p i s).toNat =
      rr_arb p.REQ_WIDTH i.req.getLsbD (winner_q p i s).toNat := by
    unfold tmp_winner rr_arb
    rw [if_pos harb, winner_loop_toNat hpri (Nat.le_refl _), hi_pri_toNat hq]
    rfl
  have hlt : rr_arb p.REQ_WIDTH i.req.getLsbD (winner_q p i s).toNat < p.REQ_WIDTH := rr_arb_lt hq
  unfold winner
  rw [BitVec.toNat_setWidth, hloop]
  exact Nat.mod_eq_of_lt (by omega)

theorem winner_toNat_of_not (harb : ¬ arbitrates p i) :
    (winner p i s).toNat = (winner_q p i s).toNat := by
  unfold winner tmp_winner
  rw [if_neg harb, BitVec.setWidth_setWidth_of_le _ (Nat.le_succ _), BitVec.setWidth_eq]

/-! ## The first request after the last one -/

theorem rr_loop_none {REQ_WIDTH hi_pri : Nat} {req : Nat → Bool} {k : Nat}
    (h : ∀ j < k, Rtl.req_shifted REQ_WIDTH req hi_pri j = false) (tmp_winner : Nat) :
    rr_loop REQ_WIDTH req hi_pri k tmp_winner = tmp_winner := by
  induction k with
  | zero => rfl
  | succ k ih =>
    rw [rr_loop, h k (by omega), if_neg Bool.false_ne_true]
    exact ih (fun j hj => h j (by omega))

/-- The lowest request of the shifted ones wins, for the loop meets it last. -/
theorem rr_loop_first {REQ_WIDTH hi_pri : Nat} {req : Nat → Bool} {k j : Nat} (hj : j < k)
    (hreq : Rtl.req_shifted REQ_WIDTH req hi_pri j)
    (hnone : ∀ l < j, Rtl.req_shifted REQ_WIDTH req hi_pri l = false) (tmp_winner : Nat) :
    rr_loop REQ_WIDTH req hi_pri k tmp_winner = adjust REQ_WIDTH (hi_pri + j) := by
  induction k generalizing tmp_winner with
  | zero => omega
  | succ k ih =>
    rw [rr_loop]
    rcases Nat.lt_succ_iff_lt_or_eq.mp hj with hlt | rfl
    · exact ih hlt _
    · rw [if_pos hreq, rr_loop_none hnone]

/-- Bit `j` of the shifted requests is the place that is looked at after `j` others. -/
theorem adjust_behind {REQ_WIDTH last k : Nat} (hlast : last < REQ_WIDTH) (hk : k < REQ_WIDTH) :
    adjust REQ_WIDTH (Rtl.hi_pri REQ_WIDTH last + behind REQ_WIDTH last k) = k := by
  unfold adjust Rtl.hi_pri behind
  split <;> split <;> split <;> omega

theorem behind_adjust {REQ_WIDTH last j : Nat} (hlast : last < REQ_WIDTH) (hj : j < REQ_WIDTH) :
    behind REQ_WIDTH last (adjust REQ_WIDTH (Rtl.hi_pri REQ_WIDTH last + j)) = j := by
  unfold adjust Rtl.hi_pri behind
  split <;> split <;> split <;> omega

theorem adjust_lt {REQ_WIDTH last j : Nat} (hlast : last < REQ_WIDTH) (hj : j < REQ_WIDTH) :
    adjust REQ_WIDTH (Rtl.hi_pri REQ_WIDTH last + j) < REQ_WIDTH := by
  unfold adjust Rtl.hi_pri
  split <;> split <;> omega

theorem rr_arb_first {REQ_WIDTH last k : Nat} {req : Nat → Bool} (hlast : last < REQ_WIDTH)
    (hk : k < REQ_WIDTH) (hreq : req k) :
    FirstAfter REQ_WIDTH last req (rr_arb REQ_WIDTH req last) := by
  have hshift : ∀ k < REQ_WIDTH, req k →
      Rtl.req_shifted REQ_WIDTH req (Rtl.hi_pri REQ_WIDTH last) (behind REQ_WIDTH last k) := by
    intro k hk hreq
    unfold Rtl.req_shifted
    rw [adjust_behind hlast hk]
    exact hreq
  -- the lowest request of the shifted ones
  have hex : ∃ j, Rtl.req_shifted REQ_WIDTH req (Rtl.hi_pri REQ_WIDTH last) j :=
    ⟨_, hshift k hk hreq⟩
  have hmin : ∀ k < REQ_WIDTH, req k → Nat.find hex ≤ behind REQ_WIDTH last k :=
    fun k hk hreq => Nat.find_min' hex (hshift k hk hreq)
  have hlt : Nat.find hex < REQ_WIDTH :=
    Nat.lt_of_le_of_lt (hmin k hk hreq) (behind_lt hlast hk)
  have hwin : rr_arb REQ_WIDTH req last =
      adjust REQ_WIDTH (Rtl.hi_pri REQ_WIDTH last + Nat.find hex) :=
    rr_loop_first hlt (Nat.find_spec hex) (fun l hl => by simpa using Nat.find_min hex hl) 0
  rw [hwin]
  refine ⟨adjust_lt hlast hlt, Nat.find_spec hex, ?_⟩
  intro j hj hreq
  rw [behind_adjust hlast hlt]
  exact hmin j hj hreq

theorem rr_arb_none {REQ_WIDTH last : Nat} {req : Nat → Bool} (hlast : last < REQ_WIDTH)
    (hnone : ∀ k < REQ_WIDTH, req k = false) : rr_arb REQ_WIDTH req last = 0 :=
  rr_loop_none (fun _ hj => hnone _ (adjust_lt hlast hj)) 0

/-! ## Runs -/

variable (ins : Nat → In p)

/-- The winner of cycle `t`. -/
def winner_at (t : Nat) : Nat := (winner p (ins t) ((arb p).state ins t)).toNat

/-- Cycle `t` has no reset, and the reset does not go before it. -/
def runs_on : Nat → Bool
  | 0 => false
  | t + 1 => (ins (t + 1)).rst_n && (ins t).rst_n

/-- The index that was granted last, where an arbitration without any request grants nothing. -/
def last_granted : Nat → Nat
  | 0 => 0
  | t + 1 =>
    if !runs_on ins (t + 1) then 0
    else if (ins t).do_arb && (ins t).req != 0#_ then winner_at ins t else last_granted t

/-- The index that the arbiter was left at: the one granted last, but 0 if there was an
arbitration without any request since. -/
def left_at : Nat → Nat
  | 0 => 0
  | t + 1 =>
    if !runs_on ins (t + 1) then 0
    else if !(ins t).do_arb then left_at t
    else if (ins t).req = 0#_ then 0 else winner_at ins t

/-- What the arbiter does in a run. -/
structure RoundRobin : Prop where
  /-- Where it arbitrates, the first request after the index it was left at wins. -/
  first : ∀ t, arbitrates p (ins t) → (ins t).req ≠ 0#_ →
    FirstAfter p.REQ_WIDTH (left_at ins t) (ins t).req.getLsbD (winner_at ins t)
  /-- Else it shows that index. -/
  held : ∀ t, ¬ arbitrates p (ins t) → winner_at ins t = left_at ins t
  /-- A request that stays is granted within `REQ_WIDTH` arbitrations. -/
  within : ∀ k < p.REQ_WIDTH, ∀ t d, (∀ v < d, (ins (t + v)).rst_n ∧ (ins (t + v)).req.getLsbD k) →
    p.REQ_WIDTH ≤ Nat.count (fun v => (ins (t + v)).do_arb) d →
    ∃ v < d, (ins (t + v)).do_arb ∧ winner_at ins (t + v) = k
  /-- With `DO_ARB_IS_CHANGE_STATE` nothing else matters for the winner. -/
  by_request : p.DO_ARB_IS_CHANGE_STATE = 1 → ∀ ins' t t', (ins t).req = (ins' t').req →
    left_at ins t = left_at ins' t' → winner_at ins t = winner_at ins' t'

theorem asks_of_ne_zero {w : Nat} {req : BitVec w} (h : req ≠ 0#_) :
    ∃ k < w, req.getLsbD k = true := by
  by_contra hnone
  apply h
  apply BitVec.eq_of_getLsbD_eq
  intro k hk
  rw [BitVec.getLsbD_zero]
  by_contra hbit
  exact hnone ⟨k, hk, by simpa using hbit⟩

theorem winner_first (harb : arbitrates p i) (hq : (winner_q p i s).toNat < p.REQ_WIDTH)
    (hreq : i.req ≠ 0#_) :
    FirstAfter p.REQ_WIDTH (winner_q p i s).toNat i.req.getLsbD (winner p i s).toNat := by
  obtain ⟨k, hk, hbit⟩ := asks_of_ne_zero hreq
  rw [winner_toNat harb hq]
  exact rr_arb_first hq hk hbit

theorem winner_zero (harb : arbitrates p i) (hq : (winner_q p i s).toNat < p.REQ_WIDTH)
    (hreq : i.req = 0#_) : (winner p i s).toNat = 0 := by
  rw [winner_toNat harb hq]
  exact rr_arb_none hq (fun k _ => by rw [hreq, BitVec.getLsbD_zero])

theorem winner_q_lt (hs : s.toNat < p.REQ_WIDTH) : (winner_q p i s).toNat < p.REQ_WIDTH := by
  have hpos := p.pos
  unfold winner_q
  split
  · rw [BitVec.toNat_zero]
    omega
  · exact hs

theorem winner_lt (hs : s.toNat < p.REQ_WIDTH) : (winner p i s).toNat < p.REQ_WIDTH := by
  by_cases harb : arbitrates p i
  · rw [winner_toNat harb (winner_q_lt hs)]
    exact rr_arb_lt (winner_q_lt hs)
  · rw [winner_toNat_of_not harb]
    exact winner_q_lt hs

theorem arbitrates_of_do_arb (h : i.do_arb = true) : arbitrates p i := by
  simp [arbitrates, h]

theorem state_lt (t : Nat) : ((arb p).state ins t).toNat < p.REQ_WIDTH := by
  have hpos := p.pos
  have hzero : (0#p.WINNER_WIDTH).toNat < p.REQ_WIDTH := by
    rw [BitVec.toNat_zero]
    omega
  refine Circuit.inv_state (P := fun s : BitVec p.WINNER_WIDTH => s.toNat < p.REQ_WIDTH)
    (m := fun _ _ => True) hzero ?_ (fun _ => trivial) t
  intro i s _ hs
  change (if !i.rst_n then 0#_ else if i.do_arb then winner p i s else s).toNat < p.REQ_WIDTH
  split
  · exact hzero
  · split
    · exact winner_lt hs
    · exact hs

theorem state_next {t : Nat} (hrst : (ins t).rst_n = true) :
    ((arb p).state ins (t + 1)).toNat =
      if (ins t).do_arb then winner_at ins t else ((arb p).state ins t).toNat := by
  have hstep : (arb p).state ins (t + 1) =
      if !(ins t).rst_n then 0#_
      else if (ins t).do_arb then winner p (ins t) ((arb p).state ins t)
      else (arb p).state ins t := rfl
  rw [hstep, hrst]
  simp only [Bool.not_true, Bool.false_eq_true, ↓reduceIte]
  split <;> rfl

theorem winner_q_toNat (t : Nat) :
    (winner_q p (ins t) ((arb p).state ins t)).toNat = left_at ins t := by
  induction t with
  | zero =>
    unfold winner_q left_at
    split <;> rfl
  | succ t ih =>
    unfold left_at runs_on
    by_cases hnow : (ins (t + 1)).rst_n = true
    case neg => simp [winner_q, hnow]
    case pos =>
      have hq : winner_q p (ins (t + 1)) ((arb p).state ins (t + 1)) =
          (arb p).state ins (t + 1) := by simp [winner_q, hnow]
      rw [hq]
      by_cases hrst : (ins t).rst_n = true
      case neg =>
        have hzero : (arb p).state ins (t + 1) = 0#_ := by simp [Circuit.state_succ, arb, hrst]
        simp [hzero, hrst]
      case pos =>
        have hlast : ((arb p).state ins t).toNat = left_at ins t := by
          rw [← ih]
          simp [winner_q, hrst]
        rw [state_next ins hrst, hlast]
        simp only [hnow, hrst, Bool.and_self, Bool.not_true, Bool.false_eq_true, ↓reduceIte]
        by_cases hdo : (ins t).do_arb = true
        · simp only [hdo, ↓reduceIte, Bool.not_true, Bool.false_eq_true]
          by_cases hreq : (ins t).req = 0#_
          · rw [if_pos hreq]
            exact winner_zero (arbitrates_of_do_arb hdo) (winner_q_lt (state_lt ins t)) hreq
          · rw [if_neg hreq]
        · simp [hdo]

/-- The arbiter serves the requests in turn, whatever their number. -/
theorem round_robin (ins : Nat → In p) : RoundRobin ins where
  first t harb hreq := by
    rw [← winner_q_toNat]
    exact winner_first harb (winner_q_lt (state_lt ins t)) hreq
  held t harb := by
    rw [← winner_q_toNat]
    exact winner_toNat_of_not harb
  within k hk t d hreq hcount := by
    have hq : ∀ v < d, winner_q p (ins (t + v)) ((arb p).state ins (t + v)) =
        (arb p).state ins (t + v) := fun v hv => by simp [winner_q, (hreq v hv).1]
    obtain ⟨v, hv, hdo, hwin⟩ := served_within
      (fun v => ((arb p).state ins (t + v)).toNat) (fun v => (ins (t + v)).do_arb)
      (fun v => (ins (t + v)).req.getLsbD)
      (fun v _ => state_lt ins (t + v)) hk
      (fun v hv hdo => by
        have hne : (ins (t + v)).req ≠ 0#_ := by
          intro hzero
          have hbit := (hreq v hv).2
          simp [hzero] at hbit
        have hnext := state_next ins (hreq v hv).1
        have hfirst := winner_first (arbitrates_of_do_arb hdo)
          (winner_q_lt (state_lt ins (t + v))) hne
        rw [if_pos hdo] at hnext
        rw [hq v hv] at hfirst
        rw [← Nat.add_assoc, hnext]
        exact hfirst)
      (fun v hv hdo => by
        have hnext := state_next ins (hreq v hv).1
        rw [if_neg (by simp [hdo])] at hnext
        rw [← Nat.add_assoc, hnext])
      (fun v hv => (hreq v hv).2) hcount
    have hnext := state_next ins (hreq v hv).1
    rw [if_pos hdo] at hnext
    exact ⟨v, hv, hdo, by rw [← hnext, ← hwin, Nat.add_assoc]⟩
  by_request hchange ins' t t' hreq hleft := by
    have harb : ∀ i : In p, arbitrates p i := fun i => by simp [arbitrates, hchange]
    unfold winner_at
    rw [winner_toNat (harb _) (winner_q_lt (state_lt ins t)),
      winner_toNat (harb _) (winner_q_lt (state_lt ins' t')), winner_q_toNat, winner_q_toNat,
      hreq, hleft]

theorem four_pos : 1 ≤ 4 := by decide

theorem four_wide : 4 ≤ 2 ^ 2 := by decide

def four : Params := ⟨2, 4, 1, four_pos, four_wide⟩

/-- Request 2 alone, then none, and from then on requests 1 and 3: it arbitrates every cycle. -/
def idle_between : Nat → In four
  | 0 => ⟨true, 0b0100#4, true⟩
  | 1 => ⟨true, 0b0000#4, true⟩
  | _ => ⟨true, 0b1010#4, true⟩

/-- After 2 was granted it is the turn of 3, but 1 wins: the cycle without any request has set
the index back. -/
theorem idle_forgets : ¬ ∀ (p : Params) (ins : Nat → In p) (t : Nat), (ins t).req ≠ 0#_ →
    FirstAfter p.REQ_WIDTH (last_granted ins t) (ins t).req.getLsbD (winner_at ins t) := by
  intro h
  have hfirst := (h four idle_between 2 (by decide)).first 3 (by decide) (by decide)
  exact absurd hfirst (by decide)

end AwsFpga.Rtl.RrArb
