import AwsFpga.Rtl.ClTstRd

/-!
# From a pop to its request

A pop is followed by one cycle without a pop, so at most two reads are on their way to
`RD_REQ_FIFO`, and the watermark leaves room for them.
-/

open Lib Lib.Axi

namespace AwsFpga.Rtl

/-- What a read asks of the memory. -/
def TstRead.request (r : TstRead) : BitVec 9 × BitVec 64 × BitVec 8 := (r.tag, r.addr, r.len)

/-- What the memory sees of a request. -/
def TstReq.request (q : TstReq) : BitVec 9 × BitVec 64 × BitVec 8 := (q.arid, q.araddr, q.arlen)

namespace TstRd

variable {NUM_RD_TAG DATA_DW : Nat} {i : TstRdIn DATA_DW} {s : TstRd DATA_DW}

section Stages

variable (s)

/-- The read in the first cycle after its pop: the RAM shows its instruction. -/
def stage_q : List TstRead :=
  if s.rd_tag_pop_q then [⟨s.pre_rd_cur_req_tag, s.inst_rd_rdata, s.rd_loop_addr_adj⟩] else []

/-- The read in the second cycle after its pop: it is pushed. -/
def stage_qq : List TstRead :=
  if s.rd_tag_pop_qq then [⟨s.rd_cur_req_tag, s.inst_rd_rdata_q, s.rd_loop_addr_adj_q⟩] else []

/-- The requests that were not accepted yet. -/
def waiting : List (BitVec 9 × BitVec 64 × BitVec 8) :=
  s.RD_REQ_FIFO.map TstReq.request ++ (stage_qq s ++ stage_q s).map TstRead.request

/-- There is room for what is on its way, and a chosen tag is available. -/
structure Inv : Prop where
  room : s.RD_REQ_FIFO.length + (stage_qq s).length + (stage_q s).length ≤ 4
  rested : s.rd_tag_some_avail → s.rd_tag_pop_q = false
  chosen : s.rd_tag_some_avail → s.rd_tag_avail s.rd_tag_alloc_winner

end Stages

theorem stage_q_step : stage_q (step NUM_RD_TAG i s) = popped s := by
  unfold stage_q popped
  change (if s.rd_tag_pop then _ else _) = _
  rfl

theorem stage_qq_step : stage_qq (step NUM_RD_TAG i s) = stage_q s := rfl

theorem stage_qq_length : (stage_qq s).length ≤ 1 := by
  unfold stage_qq
  split <;> simp

theorem pop_eq (hpop : s.rd_tag_pop) : s.rd_tag_some_avail ∧ s.RD_REQ_FIFO.length ≤ 2 := by
  simp only [rd_tag_pop, rd_fifo_full, watermark, Bool.and_eq_true, Bool.not_eq_true',
    decide_eq_false_iff_not, Nat.not_lt] at hpop
  exact ⟨hpop.1.1.2, hpop.1.2⟩

theorem Inv.not_full (hinv : Inv s) (hpush : s.rd_tag_pop_qq) : s.RD_REQ_FIFO.length < 4 := by
  have hroom := hinv.room
  simp only [stage_qq, hpush, if_true, List.length_singleton] at hroom
  omega

theorem fifo_sent : s.RD_REQ_FIFO = ar_accepted i s ++
    if s.arvalid && i.arready then s.RD_REQ_FIFO.tail else s.RD_REQ_FIFO := by
  unfold ar_accepted arvalid
  cases s.RD_REQ_FIFO <;> cases i.arready <;> rfl

theorem fifo_step (hinv : Inv s) :
    s.RD_REQ_FIFO.map TstReq.request ++ (stage_qq s).map TstRead.request =
      (ar_accepted i s).map TstReq.request ++
        (step NUM_RD_TAG i s).RD_REQ_FIFO.map TstReq.request := by
  have hroom : s.RD_REQ_FIFO.length < 4 ∨
      (if s.rd_tag_pop_qq then some s.rd_push else none) = none := by
    by_cases hpush : s.rd_tag_pop_qq = true
    · exact .inl (hinv.not_full hpush)
    · exact .inr (if_neg hpush)
  have hpop : s.arvalid && i.arready → s.RD_REQ_FIFO ≠ [] := by
    intro hpop hnil
    simp [arvalid, hnil] at hpop
  have hfifo : (step NUM_RD_TAG i s).RD_REQ_FIFO = _ := flop_fifo_eq hroom hpop
  have hpush : (stage_qq s).map TstRead.request =
      (if s.rd_tag_pop_qq then some s.rd_push else none).toList.map TstReq.request := by
    unfold stage_qq
    split <;> rfl
  have hsent : s.RD_REQ_FIFO = ar_accepted i s ++ _ := fifo_sent
  rw [hfifo, hpush]
  conv_lhs => rw [hsent]
  simp only [List.map_append, List.append_assoc]

theorem waiting_step (hinv : Inv s) :
    waiting s ++ (popped s).map TstRead.request =
      (ar_accepted i s).map TstReq.request ++ waiting (step NUM_RD_TAG i s) := by
  have hfifo : _ = (ar_accepted i s).map TstReq.request ++
    (step NUM_RD_TAG i s).RD_REQ_FIFO.map TstReq.request := fifo_step hinv
  unfold waiting
  rw [stage_q_step, stage_qq_step, List.map_append, List.map_append, ← List.append_assoc, hfifo]
  simp only [List.append_assoc]

theorem fifo_length_step :
    (step NUM_RD_TAG i s).RD_REQ_FIFO.length ≤ s.RD_REQ_FIFO.length + (stage_qq s).length := by
  change (flop_fifo 4 _ _ _).length ≤ _
  unfold flop_fifo stage_qq
  dsimp only
  split <;> split <;> split <;> simp
  all_goals omega

theorem some_avail_step (hsome : (step NUM_RD_TAG i s).rd_tag_some_avail) :
    s.rd_tag_pop = false ∧
      (s.rd_tag_some_avail ∧
          (step NUM_RD_TAG i s).rd_tag_alloc_winner = s.rd_tag_alloc_winner ∨
        s.rd_tag_avail s.rd_tag_inc_nxt_alloc ∧
          (step NUM_RD_TAG i s).rd_tag_alloc_winner = s.rd_tag_inc_nxt_alloc) := by
  change (if s.rd_tag_pop then false else if !s.rd_tag_some_avail then
    tag_avail NUM_RD_TAG s s.rd_tag_inc_nxt_alloc else s.rd_tag_some_avail) = true at hsome
  have hwinner : (step NUM_RD_TAG i s).rd_tag_alloc_winner = if s.rd_tag_pop then 0 else
    if !s.rd_tag_some_avail then s.rd_tag_inc_nxt_alloc else s.rd_tag_alloc_winner := rfl
  rw [hwinner]
  cases hpop : s.rd_tag_pop
  · cases hcur : s.rd_tag_some_avail
    · simp [hpop, hcur, tag_avail] at hsome
      simp [hsome.2]
    · simp
  · simp [hpop] at hsome

theorem avail_kept (hpop : s.rd_tag_pop = false) {tag : BitVec 9} (h : s.rd_tag_avail tag) :
    (step NUM_RD_TAG i s).rd_tag_avail tag := by
  change (if cfg_read_reset s.wr.cfg then fun _ => true else _) tag = true
  split
  · rfl
  · simp only [hpop, Bool.false_eq_true, if_false]
    split
    · rw [Function.update_apply]
      split
      · rfl
      · exact h
    · exact h

theorem Inv.step (hinv : Inv s) : Inv (step NUM_RD_TAG i s) := by
  constructor
  · have hfifo : (TstRd.step NUM_RD_TAG i s).RD_REQ_FIFO.length ≤ _ := fifo_length_step
    rw [stage_q_step, stage_qq_step]
    have hroom := hinv.room
    unfold popped
    split
    case isTrue hpop =>
      have hone : (stage_qq s).length ≤ 1 := stage_qq_length
      obtain ⟨hsome, hlen⟩ := pop_eq hpop
      have hq : stage_q s = [] := by simp [stage_q, hinv.rested hsome]
      rw [hq, List.length_nil, List.length_singleton]
      omega
    case isFalse =>
      rw [List.length_nil]
      omega
  · intro hsome
    exact (some_avail_step hsome).1
  · intro hsome
    obtain ⟨hpop, ⟨hcur, hwinner⟩ | ⟨havail, hwinner⟩⟩ := some_avail_step hsome
    · rw [hwinner]
      exact avail_kept hpop (hinv.chosen hcur)
    · rw [hwinner]
      exact avail_kept hpop havail

theorem Idle.inv (h : Idle s) : Inv s := by
  refine ⟨?_, fun _ => h.rd_tag_pop_q, fun _ => by rw [h.rd_tag_avail]⟩
  simp [stage_q, stage_qq, h.rd_tag_pop_q, h.rd_tag_pop_qq, h.RD_REQ_FIFO]

variable (hidle : Idle s) (ins : Nat → TstRdIn DATA_DW) (n : Nat)

include hidle

theorem inv_state : Inv ((run NUM_RD_TAG s).state ins n) := by
  induction n with
  | zero => exact hidle.inv
  | succ n ih => exact ih.step

theorem requests_eq : ((run NUM_RD_TAG s).passed ins (fun _ => popped) n).map TstRead.request =
    ((run NUM_RD_TAG s).passed ins ar_accepted n).map TstReq.request ++
      waiting ((run NUM_RD_TAG s).state ins n) := by
  rw [Circuit.passed_map, Circuit.passed_map]
  refine Circuit.passed_eq (m := fun _ _ => True) waiting (inv_state hidle ins) (fun _ => trivial) ?_
    (fun _ _ _ hinv => waiting_step hinv) n
  change waiting s = []
  simp [waiting, stage_q, stage_qq, hidle.rd_tag_pop_q, hidle.rd_tag_pop_qq, hidle.RD_REQ_FIFO]

end TstRd

end AwsFpga.Rtl
