import AwsFpga.Lib.LeadsTo
import AwsFpga.Rtl.SdeWb

/-!
# Coalescing (`sde_wb.sv`)

How far a counter is from what was last sent is kept in 7 bits, and the timeout runs while
they are not zero.
-/

open Lib

namespace AwsFpga.Rtl.Wb

variable {p : WbParams} {i : WbIn} {s : Wb} {c : WbCounter} {ins : Nat → WbIn}

/-! ## What a cycle does to a counter -/

theorem regs_step : regs (step p i s) c = wc_step i s c := by
  cases c <;> rfl

theorem cnt_step : (regs (step p i s) c).req_wc_cnt = diff i s c % 2 ^ 7 := by
  rw [regs_step]
  rfl

theorem req_pend_status (h : (regs s c).req_pend) : status_req_pend s := by
  unfold status_req_pend
  cases c with
  | desc_cdt => simp [show s.desc_cdt.req_pend from h]
  | desc_cnt => simp [show s.desc_cnt.req_pend from h]
  | pkt_cnt => simp [show s.pkt_cnt.req_pend from h]
  | md_wr_ptr => simp [show s.md_ptr.req_pend from h]

theorem Ctl.pend_of_done (h : Ctl s) (hdone : wr_done_status i s) : status_req_pend s := by
  unfold wr_done_status at hdone
  rw [Bool.and_eq_true, decide_eq_true_eq] at hdone
  have howner := h.owner (active_of_done hdone.1)
  rw [owner_pend, hdone.2] at howner
  exact howner

theorem pend_of_wc_req (hreq : wc_req i s c) (hen : cfg_wb_en i c) (hunsent : unsent i s c)
    (hdone : wr_done_status i s = false) : status_req_pend (step p i s) := by
  apply req_pend_status (c := c)
  rw [regs_step, wc_step]
  simp [hreq, hen, hunsent, hdone]

/-! ## Whole runs -/

variable (p ins)

/-- Whether one of the strobes that clear a counter is set. -/
def clears (i : WbIn) : Bool :=
  i.cfg_desc_clr_cdt_limit || i.cfg_desc_clr_desc_cnt || i.cfg_axis_clr_pkt_cnt ||
    i.cfg_wb_clr_wr_ptr

/-- A counter that has differed from its last sent value for one cycle is asked for, or counts. -/
def NotLost (n : Nat) : Prop :=
  ∀ c, cfg_wb_en (ins (n + 1)) c → unsent (ins n) ((circuit p).state ins n) c →
    unsent (ins (n + 1)) ((circuit p).state ins (n + 1)) c → clears (ins (n + 1)) = false →
      status_req_pend ((circuit p).state ins (n + 1)) ∨
        0 < (regs ((circuit p).state ins (n + 1)) c).req_wc_cnt

/-- No enabled counter differs by a multiple of 128, unless a status is asked for and stays so. -/
def Apart (n : Nat) : Prop :=
  ∀ c, cfg_wb_en (ins (n + 1)) c → unsent (ins n) ((circuit p).state ins n) c →
    2 ^ 7 ∣ diff (ins n) ((circuit p).state ins n) c →
      status_req_pend ((circuit p).state ins n) ∧
        wr_done_status (ins n) ((circuit p).state ins n) = false

/-- An enabled counter that differs for good has a status asked for. -/
def Raises : Prop :=
  ∀ n c, (∀ m, n ≤ m → cfg_wb_en (ins m) c ∧ unsent (ins m) ((circuit p).state ins m) c) →
    ∃ m, n ≤ m ∧ status_req_pend ((circuit p).state ins m)

variable {p ins}

theorem not_lost (n : Nat) (h : Apart p ins n) : NotLost p ins n := by
  intro c hen hunsent _ _
  by_cases hdvd : 2 ^ 7 ∣ diff (ins n) ((circuit p).state ins n) c
  · obtain ⟨hpend, hdone⟩ := h c hen hunsent hdvd
    exact .inl (status_req_pend_step hpend hdone)
  · right
    rw [state_succ, cnt_step]
    omega

theorem tick_zero (n : Nat) : ∃ m, n ≤ m ∧ ((circuit p).state ins m).wc_to_tick_cnt = 0 := by
  induction hk : ((circuit p).state ins n).wc_to_tick_cnt generalizing n with
  | zero => exact ⟨n, Nat.le_refl n, hk⟩
  | succ k ih =>
    have hnext : ((circuit p).state ins (n + 1)).wc_to_tick_cnt = k := by
      change (if ((circuit p).state ins n).wc_to_tick_cnt = 0 then _ else _) = k
      rw [hk, if_neg (by omega)]
      rfl
    obtain ⟨m, hm, hzero⟩ := ih (n + 1) hnext
    exact ⟨m, Nat.le_of_succ_le hm, hzero⟩

theorem to_cnt_step (hcnt : 0 < (regs s c).req_wc_cnt) (hreq : wc_req i s c = false) :
    (regs (step p i s) c).req_wc_to_cnt =
      if s.wc_to_tick_cnt = 0 ∧ (regs s c).req_wc_to_cnt < 15 then (regs s c).req_wc_to_cnt + 1
      else (regs s c).req_wc_to_cnt := by
  rw [regs_step, wc_step]
  simp [hreq, hcnt]

theorem to_cnt_grows {n : Nat} (hcnt : ∀ m, n ≤ m → 0 < (regs ((circuit p).state ins m) c).req_wc_cnt)
    (hnever : ∀ m, n ≤ m → wc_req (ins m) ((circuit p).state ins m) c = false) (k : Nat)
    (hk : k ≤ 15) : ∃ m, n ≤ m ∧ k ≤ (regs ((circuit p).state ins m) c).req_wc_to_cnt := by
  have hstep : ∀ m, n ≤ m → _ := fun m hm => @to_cnt_step p _ _ c (hcnt m hm) (hnever m hm)
  have hmono : ∀ m, n ≤ m → ∀ d, (regs ((circuit p).state ins m) c).req_wc_to_cnt ≤
      (regs ((circuit p).state ins (m + d)) c).req_wc_to_cnt := by
    intro m hm d
    induction d with
    | zero => exact Nat.le_refl _
    | succ d ih =>
      have hnext := hstep (m + d) (by omega)
      rw [← state_succ] at hnext
      refine Nat.le_trans ih ?_
      change _ ≤ (regs ((circuit p).state ins (m + d + 1)) c).req_wc_to_cnt
      rw [hnext]
      split <;> omega
  induction k with
  | zero => exact ⟨n, Nat.le_refl n, Nat.zero_le _⟩
  | succ k ih =>
    obtain ⟨m, hm, hle⟩ := ih (by omega)
    obtain ⟨m', hm', htick⟩ := @tick_zero p ins m
    obtain ⟨d, rfl⟩ := Nat.exists_eq_add_of_le hm'
    have hmore := hmono m hm d
    have hnext := hstep (m + d) (by omega)
    rw [← state_succ] at hnext
    refine ⟨m + d + 1, by omega, ?_⟩
    rw [hnext, htick]
    split <;> omega

theorem raises (h : ∀ n, Apart p ins n) : Raises p ins := by
  intro n c hdiffers
  by_contra hnone
  have hquiet : ∀ m, n ≤ m → status_req_pend ((circuit p).state ins m) = false := by
    intro m hm
    by_contra hpend
    exact hnone ⟨m, hm, by simpa using hpend⟩
  have hcnt : ∀ m, n + 1 ≤ m → 0 < (regs ((circuit p).state ins m) c).req_wc_cnt := by
    intro m hm
    obtain ⟨k, rfl⟩ : ∃ k, m = k + 1 := ⟨m - 1, by omega⟩
    have hpend := hquiet k (by omega)
    rw [state_succ, cnt_step]
    by_contra hzero
    have hdvd : 2 ^ 7 ∣ diff (ins k) ((circuit p).state ins k) c := by omega
    have hapart := h k c (hdiffers (k + 1) (by omega)).1 (hdiffers k (by omega)).2 hdvd
    rw [hpend] at hapart
    cases hapart.1
  -- At the end of the timeout the counter asks.
  have hnever : ∀ m, n + 1 ≤ m → wc_req (ins m) ((circuit p).state ins m) c = false := by
    intro m hm
    by_contra hreq
    have hdone : wr_done_status (ins m) ((circuit p).state ins m) = false := by
      by_contra hdone
      have hpend := (ctl_state m).pend_of_done (by simpa using hdone)
      rw [hquiet m (by omega)] at hpend
      cases hpend
    obtain ⟨hen, hunsent⟩ := hdiffers m (by omega)
    have hpend := @pend_of_wc_req p _ _ c (by simpa using hreq) hen hunsent hdone
    rw [← state_succ, hquiet (m + 1) (by omega)] at hpend
    cases hpend
  obtain ⟨m, hm, hend⟩ := to_cnt_grows hcnt hnever 15 (Nat.le_refl _)
  have hreq := hnever m hm
  have hcfg := (ins m).cfg.cfg_wc_to_cnt.isLt
  have hto : (ins m).cfg.cfg_wc_to_cnt.toNat ≤ (regs ((circuit p).state ins m) c).req_wc_to_cnt := by
    omega
  simp [wc_req, hto, Nat.pos_iff_ne_zero.mp (hcnt m hm)] at hreq

/-- Where no counter is apart by a multiple of 128, none is lost, and each is sent in the end. -/
theorem updates_kept (p : WbParams) (ins : Nat → WbIn) (h : ∀ n, Apart p ins n) :
    (∀ n, NotLost p ins n) ∧ Raises p ins :=
  ⟨fun n => not_lost n (h n), raises h⟩

/-- One packet comes. -/
def one_packet (n : Nat) : WbIn :=
  { quiet_in with
    cfg := { default_cfg with cfg_wb_pkt_cnt_en := true }
    axis_wb_pkt_cnt := if n = 0 then 0 else 1 }

theorem one_packet_state (n : Nat) (hn : 12 ≤ n) : (circuit default_params).state one_packet n =
    (circuit default_params).state one_packet 12 := by
  refine Circuit.state_eq_of_step_eq rfl ?_ n hn
  intro n hn
  have hin : one_packet n = one_packet 12 := by
    have hne : n ≠ 0 := by omega
    simp [one_packet, hne]
  rw [hin]
  decide +kernel

theorem one_packet_kept :
    (∀ n, NotLost default_params one_packet n) ∧ Raises default_params one_packet := by
  refine updates_kept default_params one_packet ?_
  intro n c hen hunsent hdvd
  have hc : c = .pkt_cnt := by
    cases c with
    | pkt_cnt => rfl
    | desc_cdt => cases hen
    | desc_cnt => cases hen
    | md_wr_ptr => cases hen
  subst hc
  by_cases hn : n < 12
  · interval_cases n
    all_goals first | exact absurd hunsent (by decide +kernel) | exact absurd hdvd (by decide +kernel)
  · have hin : one_packet n = one_packet 12 := by
      have hne : n ≠ 0 := by omega
      simp [one_packet, hne]
    rw [one_packet_state n (by omega), hin] at hunsent
    exact absurd hunsent (by decide +kernel)

/-- A packet in each cycle, until 128 have come since the status was latched. The data of the
status is taken after them. -/
def packets (n : Nat) : WbIn :=
  { quiet_in with
    cfg := { default_cfg with cfg_wb_pkt_cnt_en := true }
    axis_wb_pkt_cnt := BitVec.ofNat 32 (min n 133)
    pm_wb_wready := 133 < n }

/-- No more packets come, no status is asked for, and the count of the last 128 packets is 0. -/
theorem packets_lost : ¬ ∀ p ins n, NotLost p ins n := by
  intro h
  have hkept := h default_params packets 134 .pkt_cnt rfl (by decide +kernel) (by decide +kernel) rfl
  revert hkept
  decide +kernel

end AwsFpga.Rtl.Wb
