import AwsFpga.Rtl.SdeWb

/-!
# The responses to write-backs (`sde_wb.sv`)

A write takes a free entry when it starts, its requester and address are put into the FIFO
when its data is done, and its response takes them out.
-/

open Lib Lib.Axi

namespace AwsFpga.Rtl.Wb

variable {p : WbParams} {i : WbIn} {s : Wb} {ins : Nat → WbIn}

/-! ## What passes in a cycle -/

def started (_ : WbIn) (s : Wb) : List Unit := if s.start_new_req then [()] else []

def addressed (i : WbIn) (s : Wb) : List (WbRequester × BitVec 64) :=
  fire s.wb_pm_awvalid i.pm_wb_awready (s.req_winner, s.wb_pm_aw.addr)

/-- The writes whose last beat was taken. -/
def completed (i : WbIn) (s : Wb) : List (WbRequester × BitVec 64) :=
  if wr_done i s then [wb_bresp_trk_ff_push_data i s] else []

/-- `wb_pm_bready` is 1. -/
def responses (i : WbIn) (_ : Wb) : List (BitVec 2) := fire i.pm_wb_bvalid true i.pm_wb_bresp

/-- What the responses are matched with. -/
def matched (i : WbIn) (s : Wb) : List (WbRequester × BitVec 64) :=
  if wb_bresp_trk_ff_pop i s then [wb_bresp_trk_ff_pop_data s] else []

/-! ## The entries -/

/-- An entry is free, or taken by the write under way, or waits for its response. -/
structure Slots (p : WbParams) (s : Wb) : Prop where
  sum : s.bresp_prealloc_avail_cnt + s.WB_BRESP_TRK_FIFO.length + s.wr_active.toNat =
    p.WB_BRESP_TRK_FIFO_DEPTH
  start : s.start_new_req → s.wr_active = false ∧ 0 < s.bresp_prealloc_avail_cnt

theorem ne_nil_of_pop (h : wb_bresp_trk_ff_pop i s) : s.WB_BRESP_TRK_FIFO ≠ [] := by
  simp only [wb_bresp_trk_ff_pop, wb_bresp_trk_ff_valid, Bool.and_eq_true, Bool.not_eq_true',
    List.isEmpty_eq_false_iff] at h
  exact h.1

theorem Slots.room (h : Slots p s) (hdone : wr_done i s) :
    s.WB_BRESP_TRK_FIFO.length < p.WB_BRESP_TRK_FIFO_DEPTH := by
  have hsum := h.sum
  rw [active_of_done hdone, Bool.toNat_true] at hsum
  omega

theorem Slots.not_full (h : Slots p s) (hdone : wr_done i s) : wb_bresp_trk_ff_full p s = false := by
  have hroom := h.room hdone
  unfold wb_bresp_trk_ff_full watermark
  rw [decide_eq_false_iff_not]
  omega

theorem Slots.fifo_step (h : Slots p s) : (step p i s).WB_BRESP_TRK_FIFO =
    (if wb_bresp_trk_ff_pop i s then s.WB_BRESP_TRK_FIFO.tail else s.WB_BRESP_TRK_FIFO) ++
      completed i s := by
  have hpush : (if wb_bresp_trk_ff_push p i s then some (wb_bresp_trk_ff_push_data i s)
      else none).toList = completed i s := by
    unfold completed wb_bresp_trk_ff_push
    cases hdone : wr_done i s with
    | false => simp
    | true => simp [active_of_done hdone, h.not_full hdone]
  have hle : s.WB_BRESP_TRK_FIFO.length ≤ p.WB_BRESP_TRK_FIFO_DEPTH := by
    have hsum := h.sum
    omega
  change flop_fifo_in _ _ _ _ = _
  rw [flop_fifo_in_eq hle ?_ ne_nil_of_pop, hpush]
  cases hdone : wr_done i s with
  | false => exact .inr (by simp [wb_bresp_trk_ff_push, hdone])
  | true => exact .inl (h.room hdone)

theorem slots_start : Slots p (start p) := ⟨rfl, nofun⟩

theorem Slots.fifo_length (h : Slots p s) :
    (step p i s).WB_BRESP_TRK_FIFO.length + (wb_bresp_trk_ff_pop i s).toNat =
      s.WB_BRESP_TRK_FIFO.length + (wr_done i s).toNat := by
  have hcompleted : (completed i s).length = (wr_done i s).toNat := by
    unfold completed
    cases wr_done i s <;> rfl
  rw [h.fifo_step, List.length_append, hcompleted]
  cases hpop : wb_bresp_trk_ff_pop i s with
  | false => simp
  | true =>
    have hpos := List.length_pos_iff.mpr (ne_nil_of_pop hpop)
    simp only [if_true, List.length_tail, Bool.toNat_true]
    omega

theorem Slots.cnt_step (h : Slots p s) :
    (step p i s).bresp_prealloc_avail_cnt + s.start_new_req.toNat =
      s.bresp_prealloc_avail_cnt + (wb_bresp_trk_ff_pop i s).toNat := by
  have hsum := h.sum
  have hlt := p.depth_lt
  change (if wb_bresp_trk_ff_pop i s && !s.start_new_req then _
    else if !wb_bresp_trk_ff_pop i s && s.start_new_req then _ else _) + _ = _
  cases hpop : wb_bresp_trk_ff_pop i s with
  | false =>
    cases hstart : s.start_new_req with
    | false => rfl
    | true =>
      have hpos := (h.start hstart).2
      simp only [Bool.false_and, Bool.not_false, Bool.and_self, Bool.false_eq_true, if_false,
        if_true, Bool.toNat_true, Bool.toNat_false]
      omega
  | true =>
    have hpos := List.length_pos_iff.mpr (ne_nil_of_pop hpop)
    cases hstart : s.start_new_req with
    | false =>
      simp only [Bool.not_false, Bool.and_self, if_true, Bool.toNat_true, Bool.toNat_false]
      omega
    | true => rfl

theorem Slots.active_step (h : Slots p s) : (step p i s).wr_active.toNat + (wr_done i s).toNat =
    s.wr_active.toNat + s.start_new_req.toNat := by
  rw [wr_active_step]
  cases hdone : wr_done i s with
  | false =>
    cases hstart : s.start_new_req with
    | false => simp
    | true => simp [(h.start hstart).1]
  | true =>
    have hactive := active_of_done hdone
    cases hstart : s.start_new_req with
    | false => simp [hactive]
    | true =>
      rw [(h.start hstart).1] at hactive
      cases hactive

theorem slots_step (h : Slots p s) : Slots p (step p i s) where
  sum := by
    have hfifo : _ = _ := h.fifo_length (i := i)
    have hcnt : _ = _ := h.cnt_step (i := i)
    have hactive : _ = _ := h.active_step (i := i)
    have hsum := h.sum
    omega
  start hstart := by
    rw [start_new_req_step, accept_new_wb_req, bresp_prealloc_avail] at hstart
    simp only [Bool.and_eq_true, Bool.not_eq_true', decide_eq_true_eq] at hstart
    obtain ⟨⟨⟨⟨hidle, hactive⟩, -⟩, hpos⟩, -⟩ := hstart
    have hcnt : _ = _ := h.cnt_step (i := i)
    rw [hidle, Bool.toNat_false] at hcnt
    refine ⟨?_, by omega⟩
    rw [wr_active_step, hactive, hidle]
    rfl

theorem slots_state (n : Nat) : Slots p ((circuit p).state ins n) :=
  @Circuit.inv_state WbIn Wb (circuit p) ins (Slots p) (fun _ _ => True) slots_start
    (fun _ _ _ h => slots_step h) (fun _ => trivial) n

/-! ## Whole runs -/

variable (p ins)

/-- The number of writes that have started before cycle `n`. -/
def num_started (n : Nat) : Nat := ((circuit p).passed ins started n).length

def num_responses (n : Nat) : Nat := ((circuit p).passed ins responses n).length

/-- Each response comes after the last beat of its write was taken. -/
def Answers : Prop :=
  ∀ n, (ins n).pm_wb_bvalid → num_responses p ins n < ((circuit p).passed ins completed n).length

/-- Between its start and its response, a write has one entry of the FIFO for itself. -/
structure Tracked : Prop where
  answered : ∀ n, num_responses p ins n ≤ num_started p ins n
  outstanding : ∀ n,
    num_started p ins n - num_responses p ins n ≤ p.WB_BRESP_TRK_FIFO_DEPTH
  prealloc : ∀ n, ((circuit p).state ins n).bresp_prealloc_avail_cnt =
    p.WB_BRESP_TRK_FIFO_DEPTH - (num_started p ins n - num_responses p ins n)
  wraps : ∀ n, ((circuit p).state ins n).start_new_req →
    0 < ((circuit p).state ins n).bresp_prealloc_avail_cnt
  pushed : ∀ n, wr_done (ins n) ((circuit p).state ins n) →
    wb_bresp_trk_ff_push p (ins n) ((circuit p).state ins n)
  popped : ∀ n, ((circuit p).passed ins matched n).length = num_responses p ins n

/-- The requester and the address that come out with a response are those of its write. -/
def Matches : Prop :=
  ∀ n k : Nat, ∀ x ∈ ((circuit p).passed ins matched n)[k]?,
    ∀ y ∈ ((circuit p).passed ins addressed n)[k]?, x = y

variable {p ins}

theorem completed_eq (n : Nat) : (circuit p).passed ins completed n =
    (circuit p).passed ins matched n ++ ((circuit p).state ins n).WB_BRESP_TRK_FIFO := by
  refine @Circuit.passed_eq WbIn Wb _ (circuit p) ins (Slots p) (fun _ _ => True)
    (fun s => s.WB_BRESP_TRK_FIFO) completed matched slots_state (fun _ => trivial) rfl ?_ n
  intro i s _ h
  change s.WB_BRESP_TRK_FIFO ++ completed i s = matched i s ++ (step p i s).WB_BRESP_TRK_FIFO
  rw [h.fifo_step, matched]
  cases hpop : wb_bresp_trk_ff_pop i s with
  | false => simp
  | true =>
    obtain ⟨a, fifo, hfifo⟩ := List.exists_cons_of_ne_nil (ne_nil_of_pop hpop)
    simp [wb_bresp_trk_ff_pop_data, hfifo]

theorem num_started_eq (n : Nat) : num_started p ins n =
    ((circuit p).passed ins completed n).length + ((circuit p).state ins n).wr_active.toNat := by
  induction n with
  | zero => rfl
  | succ n ih =>
    have hactive : _ = _ := (@slots_state p ins n).active_step (i := ins n)
    have hstarted : (started (ins n) ((circuit p).state ins n)).length =
        ((circuit p).state ins n).start_new_req.toNat := by
      unfold started
      cases ((circuit p).state ins n).start_new_req <;> rfl
    have hcompleted : (completed (ins n) ((circuit p).state ins n)).length =
        (wr_done (ins n) ((circuit p).state ins n)).toNat := by
      unfold completed
      cases wr_done (ins n) ((circuit p).state ins n) <;> rfl
    unfold num_started at ih ⊢
    rw [Circuit.passed_succ, Circuit.passed_succ, List.length_append, List.length_append, hstarted,
      hcompleted, ih, state_succ]
    omega

theorem num_matched (h : Answers p ins) (n : Nat) :
    ((circuit p).passed ins matched n).length = num_responses p ins n := by
  induction n with
  | zero => rfl
  | succ n ih =>
    have hlen : (matched (ins n) ((circuit p).state ins n)).length =
        (responses (ins n) ((circuit p).state ins n)).length := by
      cases hvalid : (ins n).pm_wb_bvalid with
      | false => simp [matched, responses, wb_bresp_trk_ff_pop, hvalid]
      | true =>
        have hlt := h n hvalid
        rw [completed_eq, List.length_append, ih] at hlt
        have hne : ((circuit p).state ins n).WB_BRESP_TRK_FIFO ≠ [] := by
          apply List.ne_nil_of_length_pos
          omega
        simp [matched, responses, wb_bresp_trk_ff_pop, wb_bresp_trk_ff_valid, hvalid, hne]
    unfold num_responses at ih ⊢
    rw [Circuit.passed_succ, Circuit.passed_succ, List.length_append, List.length_append, ih, hlen]

theorem completed_shown (hstart : s.start_new_req = false) {t : WbRequester × BitVec 64}
    (hsame : (step p i s).wr_active → t = wb_bresp_trk_ff_push_data i s) :
    completed i s ++ shown (step p i s).wr_active t =
      shown s.wr_active (wb_bresp_trk_ff_push_data i s) := by
  rw [wr_active_step, hstart] at hsame ⊢
  unfold completed
  cases hdone : wr_done i s with
  | true => simp [active_of_done hdone]
  | false =>
    cases hactive : s.wr_active with
    | false => simp
    | true =>
      rw [hactive, hdone] at hsame
      simp [hsame rfl]

theorem addressed_shown (hctl : Ctl s) (hstart : s.start_new_req = false)
    (haw : s.wb_pm_awvalid → s.wb_pm_aw.addr = addr_pipe_write_addr i s)
    {t : WbRequester × BitVec 64}
    (hsame : (step p i s).addr_active → t = wb_bresp_trk_ff_push_data i s) :
    addressed i s ++ shown (step p i s).addr_active t =
      shown s.addr_active (wb_bresp_trk_ff_push_data i s) := by
  rw [addr_active_step, hstart] at hsame ⊢
  unfold addressed fire
  cases hactive : s.addr_active with
  | false =>
    simp [hctl.awvalid_eq_false hactive]
  | true =>
    rw [hactive] at hsame
    cases hdone : s.wb_pm_awvalid && i.pm_wb_awready with
    | true =>
      rw [Bool.and_eq_true] at hdone
      simp [addr_done, hactive, hdone.1, hdone.2, haw hdone.1, wb_bresp_trk_ff_push_data]
    | false =>
      have hnot : addr_done i s = false := by
        unfold addr_done
        rw [hdone, Bool.and_false]
      rw [hnot] at hsame ⊢
      simp [hsame rfl]

/-- The write under way is the last of those whose address was sent, or of those that are done. -/
theorem addressed_eq (hsteady : AddrSteady p ins) (n : Nat) :
    (circuit p).passed ins completed n ++
        shown ((circuit p).state ins n).wr_active
          (wb_bresp_trk_ff_push_data (ins n) ((circuit p).state ins n)) =
      (circuit p).passed ins addressed n ++
        shown ((circuit p).state ins n).addr_active
          (wb_bresp_trk_ff_push_data (ins n) ((circuit p).state ins n)) := by
  induction n with
  | zero => rfl
  | succ n ih =>
    have hctl : Ctl ((circuit p).state ins n) := ctl_state n
    rw [Circuit.passed_succ, Circuit.passed_succ, List.append_assoc, List.append_assoc]
    cases hstart : ((circuit p).state ins n).start_new_req with
    | true =>
      obtain ⟨hactive, haddr⟩ := hctl.not_busy hstart
      have hvalid := hctl.awvalid_eq_false haddr
      rw [hactive, haddr] at ih
      simp only [shown_false, List.append_nil] at ih
      simp [completed, addressed, wr_done_eq_false hactive, hvalid, ih, state_succ, wr_active_step,
        addr_active_step, hactive, haddr, hstart]
    | false =>
      have hsame : busy ((circuit p).state ins n) → busy ((circuit p).state ins (n + 1)) →
          wb_bresp_trk_ff_push_data (ins (n + 1)) ((circuit p).state ins (n + 1)) =
            wb_bresp_trk_ff_push_data (ins n) ((circuit p).state ins n) := by
        intro hbusy hbusy'
        unfold wb_bresp_trk_ff_push_data
        rw [hsteady n hbusy hbusy', state_succ, hctl.req_winner_step hbusy]
      have haw := fun hvalid => congrArg AwReq.addr (aw_shown hsteady n hvalid)
      rw [state_succ, completed_shown hstart, addressed_shown hctl hstart haw, ih]
      · intro haddr'
        have haddr := haddr'
        rw [addr_active_step, hstart] at haddr
        apply hsame
        · cases hactive : ((circuit p).state ins n).addr_active with
          | true => simp [busy, hactive]
          | false => simp [hactive] at haddr
        · rw [state_succ, busy, haddr', Bool.or_true]
      · intro hactive'
        have hactive := hactive'
        rw [wr_active_step, hstart] at hactive
        apply hsame
        · cases hwr : ((circuit p).state ins n).wr_active with
          | true => simp [busy, hwr]
          | false => simp [hwr] at hactive
        · rw [state_succ, busy, hactive', Bool.true_or]

theorem tracked_of_answers (h : Answers p ins) : Tracked p ins := by
  have hmatched := num_matched h
  have hstarted := @num_started_eq p ins
  have hcount : ∀ n, num_started p ins n = num_responses p ins n +
      ((circuit p).state ins n).WB_BRESP_TRK_FIFO.length +
        ((circuit p).state ins n).wr_active.toNat := by
    intro n
    rw [hstarted, completed_eq, List.length_append, hmatched]
  constructor
  case answered =>
    intro n
    rw [hcount]
    omega
  case outstanding =>
    intro n
    have hsum := (@slots_state p ins n).sum
    rw [hcount]
    omega
  case prealloc =>
    intro n
    have hsum := (@slots_state p ins n).sum
    rw [hcount]
    omega
  case wraps =>
    intro n hstart
    exact ((slots_state n).start hstart).2
  case pushed =>
    intro n hdone
    simp [wb_bresp_trk_ff_push, hdone, active_of_done hdone, (slots_state n).not_full hdone]
  case popped => exact hmatched

theorem matches_of_steady (h : AddrSteady p ins) : Matches p ins := by
  intro n k x hx y hy
  have heq := addressed_eq h n
  rw [completed_eq, List.append_assoc] at heq
  rw [Option.mem_def] at hx hy
  obtain ⟨hltx, -⟩ := List.getElem?_eq_some_iff.mp hx
  obtain ⟨hlty, -⟩ := List.getElem?_eq_some_iff.mp hy
  have hk := congrArg (fun l => l[k]?) heq
  rw [List.getElem?_append_left hltx, List.getElem?_append_left hlty, hx, hy] at hk
  exact Option.some.inj hk

theorem responses_tracked (p : WbParams) (ins : Nat → WbIn) (h : Answers p ins) :
    Tracked p ins ∧ (AddrSteady p ins → Matches p ins) :=
  ⟨tracked_of_answers h, matches_of_steady⟩

/-- A status that is answered. -/
def answered_status (n : Nat) : WbIn :=
  { quiet_in with cfg_wb_desc_error := true, pm_wb_bvalid := n = 9 }

theorem answers_status : Answers default_params answered_status := by
  intro n hvalid
  have hn : n = 9 := by simpa [answered_status] using hvalid
  subst hn
  decide

theorem answered_status_tracked :
    Tracked default_params answered_status ∧
      (AddrSteady default_params answered_status → Matches default_params answered_status) ∧
      (circuit default_params).passed answered_status matched 10 = [(.WB_STATUS, 0x1000)] :=
  have h := responses_tracked default_params answered_status answers_status
  ⟨h.1, h.2, by decide⟩

/-- The pointer has moved on when the address goes out. -/
theorem not_matches_late :
    ¬ ∀ p ins, Answers p ins → Tracked p ins ∧ Matches p ins := by
  intro h
  have hanswers : Answers default_params late_address := by
    intro n hvalid
    have hn : n = 14 := by simpa [late_address] using hvalid
    subst hn
    decide
  have hmatches := (h default_params late_address hanswers).2 15 0 (.WB_METADATA, 0x2000)
    (by decide) (.WB_METADATA, 0x2010) (by decide)
  exact absurd hmatches (by decide)

end AwsFpga.Rtl.Wb
