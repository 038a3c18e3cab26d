import AwsFpga.Lib.LeadsTo
import AwsFpga.Rtl.SdeWbBeats
import AwsFpga.Rtl.SdeWbResp

/-!
# The metadata ring (`sde_wb.sv`)

The metadata of the packets goes to the entries of a ring, one after the other. A pointer says
which entry is next, and it has 16 bits.
-/

open Lib Lib.Axi

namespace AwsFpga.Rtl.Wb

variable {p : WbParams} {c : WbCfg} {i : WbIn} {s : Wb} {ins : Nat → WbIn}

/-! ## The pointer -/

def num_entries (c : WbCfg) : Nat := c.cfg_wb_md_ring_size.toNat / WB_MD_WIDTH_BYTES

/-- After how many entries the pointer is 0 again. -/
def wrap (c : WbCfg) : Nat := min (num_entries c) (2 ^ 16)

/-- Where entry `e` begins. -/
def entry_addr (c : WbCfg) (e : Nat) : BitVec 64 :=
  (c.cfg_wb_md_ring_addr + BitVec.ofNat 48 (WB_MD_WIDTH_BYTES * e)).setWidth 64

theorem md_wr_addr_eq : md_wr_addr i s = entry_addr i.cfg s.md_wr_ptr.toNat := by
  have hptr := s.md_wr_ptr.isLt
  have hring := i.cfg.cfg_wb_md_ring_addr.isLt
  have happ {m n : Nat} (x : BitVec m) (y : BitVec n) :
      (x ++ y).toNat = x.toNat * 2 ^ n + y.toNat := by
    rw [BitVec.toNat_append, ← Nat.shiftLeft_add_eq_or_of_lt y.isLt, Nat.shiftLeft_eq]
  apply BitVec.eq_of_toNat_eq
  unfold md_wr_addr entry_addr WB_MD_WIDTH_BYTES
  rw [happ, happ]
  simp only [BitVec.toNat_add, BitVec.toNat_setWidth, BitVec.extractLsb'_toNat, BitVec.toNat_ofNat,
    Nat.shiftRight_eq_div_pow]
  omega

theorem md_wr_ptr_step : (step p i s).md_wr_ptr =
    if i.cfg_wb_clr_wr_ptr then 0 else if wb_dm_md_grant i s then md_wr_ptr_next s
    else s.md_wr_ptr :=
  rfl

theorem wrap_pos (h : 0 < num_entries c) : 0 < wrap c := by
  unfold wrap
  omega

theorem ptr_next (hentries : 0 < num_entries c) (hnum : s.num_md_in_ring = num_entries c) {k : Nat}
    (hptr : s.md_wr_ptr.toNat = k % wrap c) :
    (md_wr_ptr_next s).toNat = (k + 1) % wrap c := by
  have hlt := Nat.mod_lt k (wrap_pos hentries)
  unfold md_wr_ptr_next md_wr_ptr_next_inc
  rw [hptr, hnum, BitVec.toNat_ofNat, Nat.add_mod k 1]
  unfold wrap at hlt ⊢
  rcases Nat.lt_or_ge (k % min (num_entries c) (2 ^ 16) + 1) (min (num_entries c) (2 ^ 16)) with h | h
  · have hone : 1 % min (num_entries c) (2 ^ 16) = 1 := Nat.mod_eq_of_lt (by omega)
    rw [hone, Nat.mod_eq_of_lt h, if_neg (by omega), Nat.mod_eq_of_lt (by omega)]
  · have heq : k % min (num_entries c) (2 ^ 16) + 1 = min (num_entries c) (2 ^ 16) := by omega
    have hzero : (k % min (num_entries c) (2 ^ 16) + 1 % min (num_entries c) (2 ^ 16)) %
        min (num_entries c) (2 ^ 16) = 0 := by
      rw [Nat.add_mod_mod, heq, Nat.mod_self]
    rw [hzero, heq]
    split <;> omega

/-! ## Whole runs -/

def granted (i : WbIn) (s : Wb) : List Unit := if wb_dm_md_grant i s then [()] else []

/-- The last beats of metadata that are taken. -/
def md_done (i : WbIn) (s : Wb) : List Unit :=
  if w_taken i s && s.wb_pm_w.last && s.req_winner = .WB_METADATA then [()] else []

variable (p c ins)

/-- How many requests were granted before cycle `n`. -/
def num_granted (n : Nat) : Nat := ((circuit p).passed ins granted n).length

def md_only (l : List (WbRequester × BitVec 64)) : List (BitVec 64) :=
  (l.filter fun a => a.1 = .WB_METADATA).map Prod.snd

/-- Where metadata was written before cycle `n`, by the addresses that were taken. -/
def md_addrs (n : Nat) : List (BitVec 64) := md_only ((circuit p).passed ins addressed n)

/-- The ring stays, and the data mover holds its requests. -/
structure MdRun : Prop where
  cfg : ∀ n, (ins n).cfg = c
  size : WB_MD_WIDTH_BYTES ∣ c.cfg_wb_md_ring_size.toNat
  entries : 0 < num_entries c
  clr : ∀ n, (ins n).cfg_wb_clr_wr_ptr = false
  held : MdHeld p ins

/-- PM takes what it is shown, the responses come, and the ring does not stay full. -/
structure MdFair : Prop where
  awready : ∀ n, ∃ m, n ≤ m ∧ (ins m).pm_wb_awready
  wready : ∀ n, ∃ m, n ≤ m ∧ (ins m).pm_wb_wready
  bvalid : ∀ n, ((circuit p).state ins n).WB_BRESP_TRK_FIFO ≠ [] → ∃ m, n ≤ m ∧ (ins m).pm_wb_bvalid
  room : ∀ n, ∃ m, n ≤ m ∧
    (md_ring_full (ins m) ((circuit p).state ins m) && (ins m).cfg.cfg_wb_md_ptr_en) = false

/-- Each request is granted once, and written once. -/
structure MdServed : Prop where
  asked : ∀ n, wb_dm_md_grant (ins n) ((circuit p).state ins n) → (ins n).dm_wb_md_req
  served : MdFair p ins →
    LeadsTo (fun n => (ins n).dm_wb_md_req)
      fun n => wb_dm_md_grant (ins n) ((circuit p).state ins n)
  /-- Nothing but its grant ends a pending request. -/
  kept : ∀ n, ((circuit p).state ins n).dm_wb_md_req_pend →
    wb_dm_md_grant (ins n) ((circuit p).state ins n) ∨
      ((circuit p).state ins (n + 1)).dm_wb_md_req_pend
  data : ∀ n, ((circuit p).passed ins md_done n).length = num_granted p ins n
  addrs : ∀ n, md_addrs p ins n =
    (List.range (md_addrs p ins n).length).map fun k => entry_addr c (k % num_entries c)
  /-- Only the write under way has its address taken and is not granted. -/
  once : ∀ n, num_granted p ins n ≤ (md_addrs p ins n).length ∧
    (md_addrs p ins n).length ≤
      num_granted p ins n + ((circuit p).state ins n).wr_active.toNat

def NeverFull : Prop :=
  c.cfg_wb_md_ptr_en → ∀ n, ((circuit p).state ins n).wr_active →
    ((circuit p).state ins n).req_winner = .WB_METADATA →
      md_ring_full (ins n) ((circuit p).state ins n) = false

/-- The read pointer moves on over entries that were written. -/
def HostReads : Prop :=
  ∃ read : Nat → Nat, Monotone read ∧ ∀ n, read n ≤ num_granted p ins n ∧
    (ins n).cfg_wb_md_rd_ptr.toNat = read n % num_entries c

variable {p c ins}

theorem num_in_ring (h : MdRun p c ins) (n : Nat) :
    ((circuit p).state ins (n + 1)).num_md_in_ring = num_entries c := by
  rw [state_succ, num_entries, ← h.cfg n]
  rfl

theorem num_granted_succ (n : Nat) : num_granted p ins (n + 1) = num_granted p ins n +
    (wb_dm_md_grant (ins n) ((circuit p).state ins n)).toNat := by
  unfold num_granted
  rw [Circuit.passed_succ, List.length_append, granted]
  cases wb_dm_md_grant (ins n) ((circuit p).state ins n) <;> rfl

theorem ptr_eq (h : MdRun p c ins) (n : Nat) :
    ((circuit p).state ins n).md_wr_ptr.toNat = num_granted p ins n % wrap c := by
  induction n with
  | zero => exact (Nat.zero_mod _).symm
  | succ n ih =>
    rw [num_granted_succ, state_succ, md_wr_ptr_step, h.clr n]
    simp only [Bool.false_eq_true, if_false]
    cases hgrant : wb_dm_md_grant (ins n) ((circuit p).state ins n) with
    | false => simpa using ih
    | true =>
      cases n with
      | zero => cases hgrant
      | succ n => exact ptr_next h.entries (num_in_ring h n) ih

theorem md_only_append (l l' : List (WbRequester × BitVec 64)) :
    md_only (l ++ l') = md_only l ++ md_only l' := by
  simp [md_only]

theorem completed_md (h : MdRun p c ins) (n : Nat) :
    md_only ((circuit p).passed ins completed n) =
      (List.range (num_granted p ins n)).map fun k => entry_addr c (k % wrap c) := by
  induction n with
  | zero => rfl
  | succ n ih =>
    rw [Circuit.passed_succ, md_only_append, ih, num_granted_succ, completed]
    cases hdone : wr_done (ins n) ((circuit p).state ins n) with
    | false => simp [wb_dm_md_grant, hdone, md_only]
    | true =>
      cases hcase : ((circuit p).state ins n).req_winner with
      | WB_STATUS => simp [wb_dm_md_grant, hcase, md_only, wb_bresp_trk_ff_push_data]
      | WB_METADATA =>
        have hgrant := grant_of_done hdone hcase
        rw [hgrant, Bool.toNat_true, List.range_succ, List.map_append]
        simp [md_only, wb_bresp_trk_ff_push_data, hcase, addr_pipe_write_addr, md_wr_addr_eq, h.cfg,
          ptr_eq h n]

theorem MdRun.steady (h : MdRun p c ins) (hfirst : AddrFirst p ins) : AddrSteady p ins :=
  addr_steady h.cfg h.clr hfirst

theorem active_of_addr (hsteady : AddrSteady p ins) (hfirst : AddrFirst p ins) (n : Nat)
    (haddr : ((circuit p).state ins n).addr_active) : ((circuit p).state ins n).wr_active := by
  induction n with
  | zero => cases haddr
  | succ n ih =>
    have hctl : Ctl ((circuit p).state ins n) := ctl_state n
    rw [state_succ, addr_active_step] at haddr
    rw [state_succ, wr_active_step]
    cases hstart : ((circuit p).state ins n).start_new_req with
    | true => simp [(hctl.not_busy hstart).1]
    | false =>
      rw [hstart] at haddr
      simp only [Bool.false_eq_true, if_false] at haddr ⊢
      split at haddr
      case isTrue => cases haddr
      case isFalse hnot =>
        rw [haddr, Bool.true_and, addr_done, haddr, Bool.true_and] at hnot
        cases hdone : wr_done (ins n) ((circuit p).state ins n) with
        | false => simpa using ih haddr
        | true =>
          have hvalid := (phases_state hsteady n).shows_addr hctl hdone haddr
          rw [hvalid, hfirst n hdone haddr] at hnot
          exact absurd rfl hnot

theorem md_addrs_eq (h : MdRun p c ins) (hfirst : AddrFirst p ins) (n : Nat) :
    ∃ e ≤ ((circuit p).state ins n).wr_active.toNat, md_addrs p ins n =
      (List.range (num_granted p ins n + e)).map fun k => entry_addr c (k % wrap c) := by
  have hsteady := h.steady hfirst
  have heq := congrArg md_only (addressed_eq hsteady n)
  rw [md_only_append, md_only_append, completed_md h] at heq
  change _ = md_addrs p ins n ++ _ at heq
  cases haddr : ((circuit p).state ins n).addr_active with
  | true =>
    have hactive := active_of_addr hsteady hfirst n haddr
    rw [haddr, hactive] at heq
    exact ⟨0, Nat.zero_le _, (List.append_cancel_right heq).symm⟩
  | false =>
    rw [haddr, shown_false] at heq
    cases hactive : ((circuit p).state ins n).wr_active with
    | false =>
      rw [hactive, shown_false] at heq
      exact ⟨0, Nat.zero_le _, (List.append_cancel_right heq).symm⟩
    | true =>
      rw [hactive, shown_true] at heq
      cases hcase : ((circuit p).state ins n).req_winner with
      | WB_STATUS =>
        refine ⟨0, Nat.zero_le _, ?_⟩
        simpa [md_only, wb_bresp_trk_ff_push_data, hcase] using heq.symm
      | WB_METADATA =>
        refine ⟨1, Nat.le_refl _, ?_⟩
        rw [List.range_succ, List.map_append]
        simpa [md_only, wb_bresp_trk_ff_push_data, hcase, addr_pipe_write_addr, md_wr_addr_eq,
          h.cfg, ptr_eq h n] using heq.symm

theorem md_done_eq (hsteady : AddrSteady p ins) (n : Nat) :
    ((circuit p).passed ins md_done n).length = num_granted p ins n := by
  induction n with
  | zero => rfl
  | succ n ih =>
    have hphases := phases_state hsteady n
    have hsame : md_done (ins n) ((circuit p).state ins n) =
        granted (ins n) ((circuit p).state ins n) := by
      unfold md_done granted wb_dm_md_grant wr_done w_taken
      cases hvalid : ((circuit p).state ins n).wb_pm_wvalid with
      | false => simp
      | true => simp [(hphases.data hvalid).1, and_assoc, and_comm]
    unfold num_granted at ih ⊢
    rw [Circuit.passed_succ, Circuit.passed_succ, List.length_append, List.length_append, ih, hsame]

theorem pend_of_grant (n : Nat) (hgrant : wb_dm_md_grant (ins n) ((circuit p).state ins n)) :
    ((circuit p).state ins n).dm_wb_md_req_pend := by
  obtain ⟨hdone, hwinner⟩ := done_of_grant hgrant
  have howner := (ctl_state n).owner (active_of_done hdone)
  rw [owner_pend, hwinner] at howner
  exact howner

/-! ## The ring is not full -/

/-- The host is at most one round behind, and a pending request has its entry free. -/
structure Room (entries granted read : Nat) (pend : Bool) : Prop where
  all : granted + 1 ≤ read + entries
  pend : pend → granted + 2 ≤ read + entries

theorem full_iff (h : MdRun p c ins) (hsmall : num_entries c ≤ 2 ^ 16) {read : Nat} (n : Nat)
    (hread : (ins (n + 1)).cfg_wb_md_rd_ptr.toNat = read % num_entries c) :
    md_ring_full (ins (n + 1)) ((circuit p).state ins (n + 1)) ↔
      (num_granted p ins (n + 1) + 1) % num_entries c = read % num_entries c := by
  have hwrap : wrap c = num_entries c := Nat.min_eq_left hsmall
  have hptr := ptr_eq h (n + 1)
  have hlt := Nat.mod_lt (num_granted p ins (n + 1)) h.entries
  rw [hwrap] at hptr
  have hnext : md_wr_ptr_plus1_rovr ((circuit p).state ins (n + 1)) =
      (num_granted p ins (n + 1) + 1) % num_entries c := by
    unfold md_wr_ptr_plus1_rovr md_wr_ptr_next_inc
    rw [num_in_ring h, hptr, Nat.add_mod]
    rcases Nat.lt_or_ge (num_granted p ins (n + 1) % num_entries c + 1) (num_entries c) with hin | hend
    · have hone : 1 % num_entries c = 1 := Nat.mod_eq_of_lt (by omega)
      rw [if_neg (by omega), hone, Nat.mod_eq_of_lt hin]
    · have heq : num_granted p ins (n + 1) % num_entries c + 1 = num_entries c := by omega
      rw [if_pos hend, Nat.add_mod_mod, heq, Nat.mod_self]
  unfold md_ring_full
  rw [decide_eq_true_iff, hnext, hread]

/-- Between 1 and a round behind, the places differ. -/
theorem not_full_of_room {entries granted read : Nat} (hread : read ≤ granted)
    (hroom : granted + 2 ≤ read + entries) : (granted + 1) % entries ≠ read % entries := by
  intro heq
  have hdvd := (Nat.modEq_iff_dvd' (by omega : read ≤ granted + 1)).mp heq.symm
  have hle := Nat.le_of_dvd (by omega) hdvd
  omega

theorem room_state (h : MdRun p c ins) (hsmall : num_entries c ≤ 2 ^ 16)
    (hen : c.cfg_wb_md_ptr_en) {read : Nat → Nat} (hmono : Monotone read)
    (hread : ∀ n, read n ≤ num_granted p ins n ∧
      (ins n).cfg_wb_md_rd_ptr.toNat = read n % num_entries c) (n : Nat) :
    Room (num_entries c) (num_granted p ins n) (read n)
      ((circuit p).state ins n).dm_wb_md_req_pend := by
  have hentries := h.entries
  induction n with
  | zero =>
    refine ⟨?_, nofun⟩
    change 0 + 1 ≤ _
    omega
  | succ n ih =>
    have hle : read n ≤ read (n + 1) := hmono (Nat.le_succ n)
    have hroom := ih.all
    constructor
    case all =>
      rw [num_granted_succ]
      cases hgrant : wb_dm_md_grant (ins n) ((circuit p).state ins n) with
      | false =>
        rw [Bool.toNat_false]
        omega
      | true =>
        have hfree := ih.pend (pend_of_grant n hgrant)
        rw [Bool.toNat_true]
        omega
    case pend =>
      intro hpend
      have hnext : (if wb_dm_md_grant (ins n) ((circuit p).state ins n) then false
        else if (ins n).dm_wb_md_req && !(md_ring_full (ins n) ((circuit p).state ins n) &&
          (ins n).cfg.cfg_wb_md_ptr_en) then true
        else ((circuit p).state ins n).dm_wb_md_req_pend) = true := hpend
      rw [num_granted_succ]
      cases hgrant : wb_dm_md_grant (ins n) ((circuit p).state ins n) with
      | true =>
        rw [hgrant] at hnext
        cases hnext
      | false =>
        rw [hgrant, h.cfg n, hen, Bool.and_true] at hnext
        rw [Bool.toNat_false]
        cases hfull : md_ring_full (ins n) ((circuit p).state ins n) with
        | true =>
          rw [hfull] at hnext
          simp only [Bool.not_true, Bool.and_false, Bool.false_eq_true, if_false] at hnext
          have hfree := ih.pend hnext
          omega
        | false =>
          obtain ⟨hle', hptr⟩ := hread n
          cases n with
          | zero =>
            -- No entry counts yet, and the ring looks full.
            have hzero : num_granted p ins 0 = 0 := rfl
            have hfirst : md_ring_full (ins 0) (start p) = true := by
              have hread0 : read 0 = 0 := by omega
              rw [hread0, Nat.zero_mod] at hptr
              unfold md_ring_full
              rw [hptr]
              rfl
            rw [Circuit.state_zero] at hfull
            exact absurd (hfirst.symm.trans hfull) (by decide)
          | succ n =>
            have hne : ¬ _ := fun heq => by
              have hyes := (full_iff h hsmall n hptr).mpr heq
              rw [hfull] at hyes
              cases hyes
            by_contra hnot
            have heq : num_granted p ins (n + 1) + 1 = read (n + 1) + num_entries c := by omega
            rw [heq, Nat.add_mod_right] at hne
            exact hne rfl

theorem never_full (h : MdRun p c ins) (hsmall : num_entries c ≤ 2 ^ 16)
    (hreads : HostReads p c ins) : NeverFull p c ins := by
  obtain ⟨read, hmono, hread⟩ := hreads
  intro hen n hactive hwinner
  cases n with
  | zero => cases hactive
  | succ n =>
    have hpend := (ctl_state (n + 1)).owner hactive
    rw [owner_pend, hwinner] at hpend
    have hroom := (room_state h hsmall hen hmono hread (n + 1)).pend hpend
    obtain ⟨hle, hptr⟩ := hread (n + 1)
    rw [← Bool.not_eq_true, full_iff h hsmall n hptr]
    exact not_full_of_room hle hroom

/-! ## A request is served -/

/-- A request is pending and nothing goes on. -/
structure Idle (s : Wb) : Prop where
  pend : s.dm_wb_md_req_pend
  start : s.start_new_req = false
  busy : busy s = false

theorem winner_q_step : (step p i s).winner_q =
    if do_arb s then requester_arb_out s else s.winner_q := rfl

theorem Idle.not_busy (h : Idle s) : s.wr_active = false ∧ s.addr_active = false := by
  have hbusy := h.busy
  unfold Wb.busy at hbusy
  rw [Bool.or_eq_false_iff] at hbusy
  exact hbusy

theorem Idle.step (h : Idle s) : (step p i s).dm_wb_md_req_pend ∧
    (step p i s).start_new_req = bresp_prealloc_avail s ∧ Wb.busy (step p i s) = false ∧
      (step p i s).winner_q = s.winner_q := by
  obtain ⟨hactive, haddr⟩ := h.not_busy
  refine ⟨?_, ?_, ?_, ?_⟩
  · exact md_pend_step h.pend (by simp [wb_dm_md_grant, wr_done_eq_false hactive])
  · rw [start_new_req_step]
    simp [accept_new_wb_req, new_wb_req, h.pend, h.start, hactive, haddr]
  · unfold Wb.busy
    rw [wr_active_step, addr_active_step, hactive, haddr, h.start]
    rfl
  · rw [winner_q_step, do_arb, h.start, Bool.and_false]
    rfl

theorem arb_turn (hpend : s.dm_wb_md_req_pend) (hturn : s.winner_q = 0) :
    requester_arb_out s = 1 := by
  unfold requester_arb_out
  rw [hturn]
  simp [rr_arb, hi_pri, rr_loop, req_shifted, adjust, requester_arb_in, hpend]

theorem start_step (hctl : Ctl s) (hpend : s.dm_wb_md_req_pend) (hstart : s.start_new_req) :
    (step p i s).dm_wb_md_req_pend ∧ (step p i s).wr_active ∧
      (step p i s).req_winner = requester_t (requester_arb_out s) ∧
        (step p i s).winner_q = requester_arb_out s := by
  obtain ⟨hactive, haddr⟩ := hctl.not_busy hstart
  refine ⟨?_, ?_, ?_, ?_⟩
  · exact md_pend_step hpend (by simp [wb_dm_md_grant, wr_done_eq_false hactive])
  · rw [wr_active_step, hactive, hstart]
    rfl
  · rw [req_winner_step, hstart]
    rfl
  · rw [winner_q_step, do_arb, hstart, haddr]
    rfl

section Live

variable (h : MdRun p c ins) (hfirst : AddrFirst p ins) (hfair : MdFair p ins)

include h hfirst

theorem num_beats_stay (n : Nat) (hactive : ((circuit p).state ins n).wr_active)
    (hactive' : ((circuit p).state ins (n + 1)).wr_active) :
    (under_way (ins (n + 1)) ((circuit p).state ins (n + 1))).num_beats =
      (under_way (ins n) ((circuit p).state ins n)).num_beats := by
  have hbusy : busy ((circuit p).state ins n) := by simp [busy, hactive]
  have hbusy' : busy ((circuit p).state ins (n + 1)) := by simp [busy, hactive']
  exact (num_beats_congr ((ctl_state n).req_winner_step hbusy)
    (h.steady hfirst n hbusy hbusy')).2.1

theorem active_shows : LeadsTo (fun n => ((circuit p).state ins n).wr_active)
    fun n => ((circuit p).state ins n).wb_pm_wvalid := by
  have hloaded : LeadsTo (fun n => ((circuit p).state ins n).wr_active ∧
      ((circuit p).state ins n).wr_active_q) fun n => ((circuit p).state ins n).wb_pm_wvalid := by
    rintro n ⟨hactive, hq⟩
    have hphases := phases_state (h.steady hfirst) n
    rcases hphases.go hactive hq with hload | hvalid
    · exact ⟨n + 1, Nat.le_succ n, hphases.valid_step.mpr (.inl hload)⟩
    · exact ⟨n, Nat.le_refl n, hvalid⟩
  intro n hactive
  cases hq : ((circuit p).state ins n).wr_active_q with
  | true => exact hloaded n ⟨hactive, hq⟩
  | false =>
    have hphases := phases_state (h.steady hfirst) n
    have hvalid : ((circuit p).state ins n).wb_pm_wvalid = false := by
      by_contra hvalid
      rw [(hphases.data (by simpa using hvalid)).2] at hq
      cases hq
    have hactive' : ((circuit p).state ins (n + 1)).wr_active :=
      active_of_not_done hactive (by simp [wr_done, hvalid])
    obtain ⟨m, hm, hshown⟩ := hloaded (n + 1) ⟨hactive', hactive⟩
    exact ⟨m, Nat.le_of_succ_le hm, hshown⟩

include hfair

theorem shown_done : LeadsTo (fun n => ((circuit p).state ins n).wb_pm_wvalid)
    fun n => wr_done (ins n) ((circuit p).state ins n) := by
  refine LeadsTo.rank (fun n => (under_way (ins n) ((circuit p).state ins n)).num_beats -
    ((circuit p).state ins n).wb_wr_idx) ?_
  intro k
  have hstay : ∀ n, ((circuit p).state ins n).wb_pm_wvalid ∧
      (under_way (ins n) ((circuit p).state ins n)).num_beats -
        ((circuit p).state ins n).wb_wr_idx = k → ¬ (ins n).pm_wb_wready →
      ((circuit p).state ins (n + 1)).wb_pm_wvalid ∧
        (under_way (ins (n + 1)) ((circuit p).state ins (n + 1))).num_beats -
          ((circuit p).state ins (n + 1)).wb_wr_idx = k := by
    rintro n ⟨hvalid, hk⟩ hready
    have hphases := phases_state (h.steady hfirst) n
    have hactive := (hphases.data hvalid).1
    have hdone : wr_done (ins n) ((circuit p).state ins n) = false := by
      rw [← Bool.not_eq_true, hphases.done_iff]
      exact fun hdone => hready hdone.2.1
    have hbeats := num_beats_stay h hfirst n hactive (active_of_not_done hactive hdone)
    rw [hbeats, state_succ]
    cases @data_step p _ _ hphases with
    | quiet _ hno => rw [hno] at hvalid; cases hvalid
    | load _ hno => rw [hno] at hvalid; cases hvalid
    | hold _ _ _ hvalid' hidx' => exact ⟨hvalid', by rw [hidx']; exact hk⟩
    | next _ _ hyes => exact absurd hyes hready
    | last _ _ hyes => exact absurd hyes hready
  intro n hn
  obtain ⟨m, hm, ⟨hvalid, hk⟩, hready⟩ := LeadsTo.wait hstay (fun n _ => hfair.wready n) n hn
  have hphases := phases_state (h.steady hfirst) m
  have hactive := (hphases.data hvalid).1
  have hidx := hphases.idx hvalid
  cases hdone : wr_done (ins m) ((circuit p).state ins m) with
  | true => exact ⟨m, hm, .inl hdone⟩
  | false =>
    have hbeats := num_beats_stay h hfirst m hactive (active_of_not_done hactive hdone)
    refine ⟨m + 1, Nat.le_succ_of_le hm, .inr ?_⟩
    rw [hbeats, state_succ]
    cases @data_step p _ _ hphases with
    | quiet _ hno => rw [hno] at hvalid; cases hvalid
    | load _ hno => rw [hno] at hvalid; cases hvalid
    | hold _ _ hno => rw [hno] at hready; cases hready
    | next _ _ _ _ hvalid' hidx' =>
      refine ⟨hvalid', ?_⟩
      rw [hidx']
      omega
    | last _ _ hyes hend =>
      rw [hphases.done_iff.mpr ⟨hvalid, hyes, hend⟩] at hdone
      cases hdone

theorem active_done : LeadsTo (fun n => ((circuit p).state ins n).wr_active)
    fun n => wr_done (ins n) ((circuit p).state ins n) :=
  (active_shows h hfirst).trans (shown_done h hfirst hfair)

theorem metadata_granted : LeadsTo
    (fun n => ((circuit p).state ins n).wr_active ∧
      ((circuit p).state ins n).req_winner = .WB_METADATA)
    fun n => wb_dm_md_grant (ins n) ((circuit p).state ins n) := by
  intro n hn
  have hstay : ∀ n, ((circuit p).state ins n).wr_active ∧
      ((circuit p).state ins n).req_winner = .WB_METADATA →
      ¬ wr_done (ins n) ((circuit p).state ins n) →
      ((circuit p).state ins (n + 1)).wr_active ∧
        ((circuit p).state ins (n + 1)).req_winner = .WB_METADATA := by
    rintro n ⟨hactive, hwinner⟩ hdone
    refine ⟨active_of_not_done hactive (by simpa using hdone), ?_⟩
    rw [state_succ, (ctl_state n).req_winner_step (by simp [busy, hactive]), hwinner]
  obtain ⟨m, hm, ⟨-, hwinner⟩, hdone⟩ := LeadsTo.wait hstay
    (fun n hn => active_done h hfirst hfair n hn.1) n hn
  exact ⟨m, hm, grant_of_done hdone hwinner⟩

theorem status_idle (w : Nat) : LeadsTo
    (fun n => ((circuit p).state ins n).wr_active ∧
      ((circuit p).state ins n).req_winner = .WB_STATUS ∧
      ((circuit p).state ins n).dm_wb_md_req_pend ∧ ((circuit p).state ins n).winner_q = w)
    fun n => Idle ((circuit p).state ins n) ∧ ((circuit p).state ins n).winner_q = w := by
  intro n hn
  have hkeeps : ∀ n, ((circuit p).state ins n).wr_active →
      ((circuit p).state ins n).req_winner = .WB_STATUS →
      ((circuit p).state ins n).dm_wb_md_req_pend →
      ((circuit p).state ins (n + 1)).dm_wb_md_req_pend ∧
        ((circuit p).state ins (n + 1)).winner_q = ((circuit p).state ins n).winner_q := by
    intro n hactive hwinner hpend
    have hstart : ((circuit p).state ins n).start_new_req = false := (ctl_state n).no_start hactive
    refine ⟨md_pend_step hpend (by simp [wb_dm_md_grant, hwinner]), ?_⟩
    rw [state_succ, winner_q_step, do_arb, hstart, Bool.and_false]
    rfl
  have hstay : ∀ n, (((circuit p).state ins n).wr_active ∧
      ((circuit p).state ins n).req_winner = .WB_STATUS ∧
      ((circuit p).state ins n).dm_wb_md_req_pend ∧ ((circuit p).state ins n).winner_q = w) →
      ¬ wr_done (ins n) ((circuit p).state ins n) →
      ((circuit p).state ins (n + 1)).wr_active ∧
        ((circuit p).state ins (n + 1)).req_winner = .WB_STATUS ∧
        ((circuit p).state ins (n + 1)).dm_wb_md_req_pend ∧
          ((circuit p).state ins (n + 1)).winner_q = w := by
    rintro n ⟨hactive, hwinner, hpend, hw⟩ hdone
    obtain ⟨hpend', hw'⟩ := hkeeps n hactive hwinner hpend
    refine ⟨active_of_not_done hactive (by simpa using hdone), ?_, hpend', hw'.trans hw⟩
    rw [state_succ, (ctl_state n).req_winner_step (by simp [busy, hactive]), hwinner]
  obtain ⟨m, hm, ⟨hactive, hwinner, hpend, hw⟩, hdone⟩ := LeadsTo.wait hstay
    (fun n hn => active_done h hfirst hfair n hn.1) n hn
  obtain ⟨hpend', hw'⟩ := hkeeps m hactive hwinner hpend
  refine ⟨m + 1, Nat.le_succ_of_le hm, ⟨hpend', ?_, ?_⟩, hw'.trans hw⟩
  · rw [state_succ, start_new_req_step, accept_new_wb_req, hactive]
    simp
  · -- The address was taken with the last beat, or before.
    have hphases := phases_state (h.steady hfirst) m
    unfold busy
    rw [state_succ, wr_active_step, addr_active_step, hactive, hdone]
    have hstart : ((circuit p).state ins m).start_new_req = false := (ctl_state m).no_start hactive
    cases haddr : ((circuit p).state ins m).addr_active with
    | false =>
      rw [hstart]
      rfl
    | true =>
      have haddr_done : addr_done (ins m) ((circuit p).state ins m) := by
        simp [addr_done, haddr, hphases.shows_addr (ctl_state m) hdone haddr, hfirst m hdone haddr]
      rw [haddr_done]
      rfl

omit h hfirst

/-- A free entry comes, at the latest with the next response. -/
theorem idle_starts (w : Nat) : LeadsTo
    (fun n => Idle ((circuit p).state ins n) ∧ ((circuit p).state ins n).winner_q = w)
    fun n => ((circuit p).state ins n).dm_wb_md_req_pend ∧
      ((circuit p).state ins n).start_new_req ∧ ((circuit p).state ins n).winner_q = w := by
  have hfree : ∀ n, Idle ((circuit p).state ins n) ∧ ((circuit p).state ins n).winner_q = w →
      0 < ((circuit p).state ins n).bresp_prealloc_avail_cnt →
      ((circuit p).state ins (n + 1)).dm_wb_md_req_pend ∧
        ((circuit p).state ins (n + 1)).start_new_req ∧
          ((circuit p).state ins (n + 1)).winner_q = w := by
    rintro n ⟨hidle, hw⟩ hpos
    obtain ⟨hpend', hstart', -, hw'⟩ := @Idle.step p (ins n) _ hidle
    refine ⟨hpend', ?_, hw'.trans hw⟩
    rw [state_succ, hstart', bresp_prealloc_avail]
    exact decide_eq_true hpos
  have hstay : ∀ n, ((Idle ((circuit p).state ins n) ∧ ((circuit p).state ins n).winner_q = w) ∧
      ((circuit p).state ins n).bresp_prealloc_avail_cnt = 0) → ¬ (ins n).pm_wb_bvalid →
      (Idle ((circuit p).state ins (n + 1)) ∧ ((circuit p).state ins (n + 1)).winner_q = w) ∧
        ((circuit p).state ins (n + 1)).bresp_prealloc_avail_cnt = 0 := by
    rintro n ⟨⟨hidle, hw⟩, hzero⟩ hvalid
    obtain ⟨hpend', hstart', hbusy', hw'⟩ := @Idle.step p (ins n) _ hidle
    have hcnt : _ = _ := (@slots_state p ins n).cnt_step (i := ins n)
    rw [hzero, hidle.start] at hcnt
    rw [Bool.not_eq_true] at hvalid
    simp only [wb_bresp_trk_ff_pop, hvalid, Bool.and_false, Bool.toNat_false, Nat.add_zero] at hcnt
    refine ⟨⟨⟨hpend', ?_, hbusy'⟩, hw'.trans hw⟩, hcnt⟩
    rw [state_succ, hstart', bresp_prealloc_avail, hzero]
    rfl
  have hfull : ∀ n, Idle ((circuit p).state ins n) →
      ((circuit p).state ins n).bresp_prealloc_avail_cnt = 0 →
      ((circuit p).state ins n).WB_BRESP_TRK_FIFO ≠ [] := by
    intro n hidle hzero hnil
    have hsum := (@slots_state p ins n).sum
    have hpos := p.depth_pos
    rw [hzero, hnil, hidle.not_busy.1] at hsum
    simp at hsum
    omega
  intro n hn
  rcases Nat.eq_zero_or_pos ((circuit p).state ins n).bresp_prealloc_avail_cnt with hzero | hpos
  · obtain ⟨m, hm, ⟨⟨hidle, hw⟩, hzero'⟩, hvalid⟩ := LeadsTo.wait hstay
      (fun n hn => hfair.bvalid n (hfull n hn.1.1 hn.2)) n ⟨hn, hzero⟩
    obtain ⟨hpend', hstart', hbusy', hw'⟩ := @Idle.step p (ins m) _ hidle
    have hne := hfull m hidle hzero'
    have hcnt : _ = _ := (@slots_state p ins m).cnt_step (i := ins m)
    rw [hzero', hidle.start] at hcnt
    have hpop : wb_bresp_trk_ff_pop (ins m) ((circuit p).state ins m) := by
      simp [wb_bresp_trk_ff_pop, wb_bresp_trk_ff_valid, hvalid, hne]
    rw [hpop, Bool.toNat_false, Bool.toNat_true, Nat.add_zero, Nat.zero_add] at hcnt
    have hstill : ((circuit p).state ins (m + 1)).start_new_req = false := by
      rw [state_succ, hstart', bresp_prealloc_avail, hzero']
      rfl
    refine ⟨m + 2, by omega, hfree (m + 1) ⟨⟨hpend', hstill, hbusy'⟩, hw'.trans hw⟩ ?_⟩
    rw [state_succ, hcnt]
    exact Nat.one_pos
  · exact ⟨n + 1, Nat.le_succ n, hfree n hn hpos⟩

include h hfirst

theorem start_granted : LeadsTo
    (fun n => ((circuit p).state ins n).dm_wb_md_req_pend ∧
      ((circuit p).state ins n).start_new_req)
    fun n => wb_dm_md_grant (ins n) ((circuit p).state ins n) := by
  have hmetadata := metadata_granted h hfirst hfair
  -- The arbiter lets a status go first at most once.
  have hturn : LeadsTo
      (fun n => ((circuit p).state ins n).dm_wb_md_req_pend ∧
        ((circuit p).state ins n).start_new_req ∧ ((circuit p).state ins n).winner_q = 0)
      fun n => wb_dm_md_grant (ins n) ((circuit p).state ins n) := by
    refine LeadsTo.trans (LeadsTo.next ?_) hmetadata
    rintro n ⟨hpend, hstart, hw⟩
    obtain ⟨-, hactive, hwinner, -⟩ := @start_step p (ins n) _ (ctl_state n) hpend hstart
    rw [arb_turn hpend hw] at hwinner
    exact ⟨hactive, hwinner⟩
  rintro n ⟨hpend, hstart⟩
  obtain ⟨hpend', hactive, hwinner, hw⟩ := @start_step p (ins n) _ (ctl_state n) hpend hstart
  have hlt := (arb_pend (@ctl_state p ins n).arb (by simp [new_wb_req, hpend])).1
  rcases (by omega : requester_arb_out ((circuit p).state ins n) = 0 ∨
    requester_arb_out ((circuit p).state ins n) = 1) with hzero | hone
  · rw [hzero] at hwinner hw
    have hstatus := (status_idle h hfirst hfair 0).trans ((idle_starts hfair 0).trans hturn)
    obtain ⟨m, hm, hgrant⟩ := hstatus (n + 1) ⟨hactive, hwinner, hpend', hw⟩
    exact ⟨m, Nat.le_of_succ_le hm, hgrant⟩
  · rw [hone] at hwinner
    obtain ⟨m, hm, hgrant⟩ := hmetadata (n + 1) ⟨hactive, hwinner⟩
    exact ⟨m, Nat.le_of_succ_le hm, hgrant⟩

theorem idle_granted : LeadsTo (fun n => Idle ((circuit p).state ins n))
    fun n => wb_dm_md_grant (ins n) ((circuit p).state ins n) := by
  intro n hidle
  obtain ⟨m, hm, hpend, hstart, -⟩ := idle_starts hfair _ n ⟨hidle, rfl⟩
  obtain ⟨m', hm', hgrant⟩ := start_granted h hfirst hfair m ⟨hpend, hstart⟩
  exact ⟨m', Nat.le_trans hm hm', hgrant⟩

theorem pend_granted : LeadsTo (fun n => ((circuit p).state ins n).dm_wb_md_req_pend)
    fun n => wb_dm_md_grant (ins n) ((circuit p).state ins n) := by
  intro n hpend
  cases hstart : ((circuit p).state ins n).start_new_req with
  | true => exact start_granted h hfirst hfair n ⟨hpend, hstart⟩
  | false =>
    cases hactive : ((circuit p).state ins n).wr_active with
    | true =>
      cases hwinner : ((circuit p).state ins n).req_winner with
      | WB_METADATA => exact metadata_granted h hfirst hfair n ⟨hactive, hwinner⟩
      | WB_STATUS =>
        obtain ⟨m, hm, hidle, -⟩ := status_idle h hfirst hfair _ n ⟨hactive, hwinner, hpend, rfl⟩
        obtain ⟨m', hm', hgrant⟩ := idle_granted h hfirst hfair m hidle
        exact ⟨m', Nat.le_trans hm hm', hgrant⟩
    | false =>
      have haddr : ((circuit p).state ins n).addr_active = false := by
        by_contra haddr
        have hyes := active_of_addr (h.steady hfirst) hfirst n (by simpa using haddr)
        rw [hactive] at hyes
        cases hyes
      exact idle_granted h hfirst hfair n ⟨hpend, hstart, by simp [busy, hactive, haddr]⟩

theorem request_granted : LeadsTo (fun n => (ins n).dm_wb_md_req)
    fun n => wb_dm_md_grant (ins n) ((circuit p).state ins n) := by
  intro n hreq
  have hstay : ∀ n, (ins n).dm_wb_md_req →
      ¬ ((md_ring_full (ins n) ((circuit p).state ins n) && (ins n).cfg.cfg_wb_md_ptr_en) = false ∨
        wb_dm_md_grant (ins n) ((circuit p).state ins n)) → (ins (n + 1)).dm_wb_md_req := by
    intro n hreq hnot
    rw [not_or, Bool.not_eq_true] at hnot
    exact (h.held n hreq hnot.2).1
  obtain ⟨m, hm, hreq', hgo⟩ := LeadsTo.wait hstay
    (fun n _ => (hfair.room n).imp fun m hm => ⟨hm.1, .inl hm.2⟩) n hreq
  cases hgrant : wb_dm_md_grant (ins m) ((circuit p).state ins m) with
  | true => exact ⟨m, hm, hgrant⟩
  | false =>
    rw [hgrant] at hgo
    have hroom := hgo.resolve_right (by simp)
    have hpend : ((circuit p).state ins (m + 1)).dm_wb_md_req_pend := by
      simp [state_succ, step, hgrant, hreq', hroom]
    obtain ⟨m', hm', hyes⟩ := pend_granted h hfirst hfair (m + 1) hpend
    exact ⟨m', by omega, hyes⟩

end Live

/-- For every ring: only the addresses need it to be small. -/
theorem md_addrs_wrap (h : MdRun p c ins) (hfirst : AddrFirst p ins) (n : Nat) :
    md_addrs p ins n =
      (List.range (md_addrs p ins n).length).map fun k => entry_addr c (k % wrap c) := by
  obtain ⟨e, -, heq⟩ := md_addrs_eq h hfirst n
  have hlen := congrArg List.length heq
  rw [List.length_map, List.length_range] at hlen
  rw [hlen, ← heq]

theorem md_served (h : MdRun p c ins) (hfirst : AddrFirst p ins)
    (hsmall : num_entries c ≤ 2 ^ 16) : MdServed p c ins where
  asked n hgrant := req_of_pend h.held n (pend_of_grant n hgrant)
  served hfair := request_granted h hfirst hfair
  kept n hpend := by
    cases hgrant : wb_dm_md_grant (ins n) ((circuit p).state ins n) with
    | true => exact .inl rfl
    | false => exact .inr (md_pend_step hpend hgrant)
  data := md_done_eq (h.steady hfirst)
  addrs n := by
    have hwrap : wrap c = num_entries c := Nat.min_eq_left hsmall
    rw [← hwrap]
    exact md_addrs_wrap h hfirst n
  once n := by
    obtain ⟨e, hle, heq⟩ := md_addrs_eq h hfirst n
    rw [heq, List.length_map, List.length_range]
    omega

/-- In a ring that the pointer can count, with addresses that do not come last. -/
theorem metadata_in_ring (p : WbParams) (c : WbCfg) (ins : Nat → WbIn) (h : MdRun p c ins)
    (hfirst : AddrFirst p ins) (hsmall : num_entries c ≤ 2 ^ 16) :
    MdServed p c ins ∧ (HostReads p c ins → NeverFull p c ins) :=
  ⟨md_served h hfirst hsmall, never_full h hsmall⟩

/-! ### Runs -/

/-- The data mover asks for a write in each cycle. -/
def metadata_always (cfg : WbCfg) (rd_ptr : Nat → BitVec 16) (n : Nat) : WbIn :=
  { quiet_in with
    cfg := cfg
    cfg_wb_md_rd_ptr := rd_ptr n
    dm_wb_md_req := true
    pm_wb_bvalid := true }

theorem metadata_always_run {cfg : WbCfg} (rd_ptr : Nat → BitVec 16)
    (hsize : WB_MD_WIDTH_BYTES ∣ cfg.cfg_wb_md_ring_size.toNat) (hentries : 0 < num_entries cfg) :
    MdRun default_params cfg (metadata_always cfg rd_ptr) where
  cfg _ := rfl
  size := hsize
  entries := hentries
  clr _ := rfl
  held _ _ _ := ⟨rfl, rfl⟩

theorem metadata_always_first (cfg : WbCfg) (rd_ptr : Nat → BitVec 16) :
    AddrFirst default_params (metadata_always cfg rd_ptr) := fun _ _ _ => rfl

/-- Nobody minds a full ring here. -/
theorem metadata_always_fair {cfg : WbCfg} (rd_ptr : Nat → BitVec 16)
    (hen : cfg.cfg_wb_md_ptr_en = false) : MdFair default_params (metadata_always cfg rd_ptr) where
  awready n := ⟨n, Nat.le_refl n, rfl⟩
  wready n := ⟨n, Nat.le_refl n, rfl⟩
  bvalid n _ := ⟨n, Nat.le_refl n, rfl⟩
  room n := ⟨n, Nat.le_refl n, by simp [metadata_always, hen]⟩

theorem default_entries : WB_MD_WIDTH_BYTES ∣ default_cfg.cfg_wb_md_ring_size.toNat ∧
    0 < num_entries default_cfg ∧ num_entries default_cfg ≤ 2 ^ 16 := by decide

/-- Four entries, and the pointer and the packet count are written back. -/
def ring_cfg : WbCfg :=
  { default_cfg with cfg_wb_md_ptr_en := true, cfg_wb_pkt_cnt_en := true, cfg_wb_md_ring_size := 64 }

/-- The host reads two entries in cycle 50. -/
def reads_two (n : Nat) : Nat := if n < 50 then 0 else 2

/-- The ring gets full and waits for the host. Packets end in between, and data beats are stalled. -/
def ring_waits (n : Nat) : WbIn :=
  { metadata_always ring_cfg (fun n => BitVec.ofNat 16 (reads_two n)) n with
    axis_wb_pkt_cnt := BitVec.ofNat 32 (n / 16)
    pm_wb_wready := n % 3 = 0
    pm_wb_bvalid := n % 2 = 1 }

theorem ring_waits_run : MdRun default_params ring_cfg ring_waits where
  cfg _ := rfl
  size := by decide
  entries := by decide
  clr _ := rfl
  held _ _ _ := ⟨rfl, rfl⟩

theorem ring_waits_reads : HostReads default_params ring_cfg ring_waits := by
  refine ⟨reads_two, fun m n hle => ?_, fun n => ?_⟩
  · unfold reads_two
    split <;> split <;> omega
  · have hentries : num_entries ring_cfg = 4 := by decide
    have htwo : 2 ≤ num_granted default_params ring_waits 50 := by decide +kernel
    by_cases hn : n < 50
    · have hread : reads_two n = 0 := if_pos hn
      rw [hread]
      refine ⟨Nat.zero_le _, ?_⟩
      change (BitVec.ofNat 16 (reads_two n)).toNat = _
      rw [hread]
      rfl
    · have hread : reads_two n = 2 := if_neg hn
      have hmono : num_granted default_params ring_waits 50 ≤ num_granted default_params ring_waits n :=
        (Circuit.passed_prefix (Nat.le_of_not_lt hn)).length_le
      rw [hread, hentries]
      refine ⟨htwo.trans hmono, ?_⟩
      change (BitVec.ofNat 16 (reads_two n)).toNat = _
      rw [hread]
      rfl

theorem ring_waits_in_ring :
    MdServed default_params ring_cfg ring_waits ∧ NeverFull default_params ring_cfg ring_waits ∧
      md_ring_full (ring_waits 49) ((circuit default_params).state ring_waits 49) ∧
      md_addrs default_params ring_waits 49 = [0x2000, 0x2010, 0x2020] ∧
      md_addrs default_params ring_waits 80 = [0x2000, 0x2010, 0x2020, 0x2030, 0x2000] := by
  have hring := metadata_in_ring default_params ring_cfg ring_waits ring_waits_run (fun _ _ _ => rfl)
    (by decide)
  exact ⟨hring.1, hring.2 ring_waits_reads, by decide +kernel, by decide +kernel, by decide +kernel⟩

/-- A ring with one entry more than the pointer can count. -/
def large_cfg : WbCfg := { default_cfg with cfg_wb_md_ring_size := 16 * 65537 }

theorem granted_more {n : Nat}
    (hserved : LeadsTo (fun n => (ins n).dm_wb_md_req)
      fun n => wb_dm_md_grant (ins n) ((circuit p).state ins n))
    (hreq : ∀ n, (ins n).dm_wb_md_req) : ∃ m, n ≤ num_granted p ins m := by
  induction n with
  | zero => exact ⟨0, Nat.zero_le _⟩
  | succ n ih =>
    obtain ⟨m, hm⟩ := ih
    obtain ⟨m', hm', hgrant⟩ := hserved m (hreq m)
    have hmono : num_granted p ins m ≤ num_granted p ins m' :=
      (Circuit.passed_prefix hm').length_le
    refine ⟨m' + 1, ?_⟩
    rw [num_granted_succ, hgrant, Bool.toNat_true]
    omega

/-- The ring is moved back by the host while an entry is written. -/
def moved_back (n : Nat) : BitVec 16 := if n < 3 then 0 else 1

/-- The pointer wraps too early, or has moved on when the address goes out, or the host says that
the ring is full when it was not. -/
theorem not_in_ring :
    (¬ ∀ p c ins, MdRun p c ins → AddrFirst p ins → MdServed p c ins) ∧
    (¬ ∀ p c ins, MdRun p c ins → num_entries c ≤ 2 ^ 16 → MdServed p c ins) ∧
    (¬ ∀ p c ins, MdRun p c ins → AddrFirst p ins → num_entries c ≤ 2 ^ 16 →
      NeverFull p c ins) := by
  refine ⟨?_, ?_, ?_⟩
  · intro h
    have hrun : MdRun default_params large_cfg (metadata_always large_cfg fun _ => 0) :=
      metadata_always_run _ (by decide) (by decide)
    have hfirst := metadata_always_first large_cfg fun _ => 0
    have hserved := h default_params large_cfg _ hrun hfirst
    obtain ⟨n, hn⟩ := @granted_more default_params (metadata_always large_cfg fun _ => 0) 65537
      (hserved.served (metadata_always_fair _ rfl)) (fun _ => rfl)
    have hlen := (hserved.once n).1
    -- The entry after the last one that the pointer can count.
    have hclaimed := congrArg (fun l => l[65536]?) (hserved.addrs n)
    have hreal := congrArg (fun l => l[65536]?) (md_addrs_wrap hrun hfirst n)
    rw [hclaimed] at hreal
    simp only [List.getElem?_map] at hreal
    rw [List.getElem?_range (by omega)] at hreal
    exact absurd hreal (by decide)
  · intro h
    have hrun : MdRun default_params default_cfg late_address :=
      ⟨fun _ => rfl, default_entries.1, default_entries.2.1, fun _ => rfl,
        late_address_held⟩
    have haddrs := (h default_params default_cfg late_address hrun default_entries.2.2).addrs 12
    revert haddrs
    decide
  · intro h
    have hfull := h default_params { default_cfg with cfg_wb_md_ptr_en := true }
      (metadata_always { default_cfg with cfg_wb_md_ptr_en := true } moved_back)
      (metadata_always_run _ default_entries.1 default_entries.2.1) (metadata_always_first _ _)
      default_entries.2.2 rfl 5 (by decide) (by decide)
    revert hfull
    decide

end AwsFpga.Rtl.Wb
