import AwsFpga.Rtl.ClTstRdReq
import AwsFpga.Lib.Bypass
import Mathlib.Data.List.Count

/-!
# The trackers of the reads

A tag goes from its pop over its request to the beats of its burst, and is freed with the last one.
-/

open Lib Lib.Axi

namespace AwsFpga.Rtl.TstRd

variable {NUM_RD_TAG DATA_DW : Nat} {i : TstRdIn DATA_DW} {s : TstRd DATA_DW}

/-! ## The progress of a tag -/

section Progress

variable (s)

/-- `RD_TRK_MD_RAM` with its collision registers. -/
def md : Bypass (BitVec 9) (RdMd DATA_DW) where
  ram := s.RD_TRK_MD_RAM
  wr := if s.rd_md_ram_wr then some (s.rd_md_ram_wr_addr, s.rd_md_ram_wr_data) else none
  rd_ram := s.rd_md_ram_rd_data_ram
  col_pre := if s.rd_md_ram_col_q_pre then some s.rd_md_ram_wr_data_q_pre else none
  col := if s.rd_md_ram_col_q then some s.rd_md_ram_wr_data_q else none

/-- The write that the beat in `rdata_q` begins. -/
def md_now : Option (BitVec 9 × RdMd DATA_DW) :=
  if s.rvalid_q then some (s.rid_q, s.rd_md_ram_wr_data_pre) else none

/-- The tracker that the next beat of `tag` finds. -/
def tracker (tag : BitVec 9) : RdTrk DATA_DW :=
  if s.rd_got_first_phase tag then
    { s.RD_TRK_RAM tag with
      running_length := (Bypass.latest (md_now s) (md s) tag).running_length
      req_data := (Bypass.latest (md_now s) (md s) tag).req_data }
  else s.RD_TRK_RAM tag

end Progress

theorem md_read : (md s).read = s.rd_md_ram_rd_data := by
  unfold md Bypass.read rd_md_ram_rd_data
  cases s.rd_md_ram_col_q_pre <;> cases s.rd_md_ram_col_q <;> rfl

theorem md_step : md (step NUM_RD_TAG i s) = (md s).step (md_now s) i.rid := by
  unfold md Bypass.step md_now
  congr 1
  · change (if s.rd_md_ram_wr then _ else _) = _
    cases s.rd_md_ram_wr <;> rfl
  · change (if s.rvalid_q && s.rid_q = i.rid then _ else _) = _
    cases s.rvalid_q
    · rfl
    · by_cases h : s.rid_q = i.rid
      · simp [Bypass.hit, h]
        rfl
      · simp [Bypass.hit, h]
  · change (if s.rd_md_ram_wr && s.rd_md_ram_wr_addr = i.rid then _ else _) = _
    cases s.rd_md_ram_wr
    · rfl
    · by_cases h : s.rd_md_ram_wr_addr = i.rid
      · simp [Bypass.hit, h]
        rfl
      · simp [Bypass.hit, h]

/-- The bypass makes the two RAMs as fast as the beats come. -/
theorem rd_trk_rd_step : (step NUM_RD_TAG i s).rd_trk_rd = tracker s i.rid := by
  unfold rd_trk_rd tracker
  rw [← md_read, md_step, Bypass.read_step]
  rfl

/-- What beat `k` of a burst is compared with. -/
def expected (DATA_DW : Nat) (const_data_mode : Bool) (start : BitVec 32) (k : Nat) :
    BitVec (32 * DATA_DW) :=
  of_lanes DATA_DW fun d =>
    if const_data_mode then start else start + BitVec.ofNat 32 (d + k * DATA_DW)

theorem first_data_eq (const_data_mode : Bool) (start : BitVec 32) :
    first_data DATA_DW const_data_mode start = expected DATA_DW const_data_mode start 0 :=
  of_lanes_congr fun d _ => by rw [Nat.zero_mul, Nat.add_zero]

theorem rd_data_nxt_expected (const_data_mode : Bool) (start : BitVec 32) (k : Nat) :
    rd_data_nxt const_data_mode (expected DATA_DW const_data_mode start k) =
      expected DATA_DW const_data_mode start (k + 1) := by
  refine of_lanes_congr fun d hd => ?_
  rw [expected, lane_of_lanes _ hd]
  cases const_data_mode
  · simp only [Bool.false_eq_true, if_false]
    rw [Nat.succ_mul, ← Nat.add_assoc, BitVec.ofNat_add, BitVec.ofNat_add, BitVec.ofNat_add]
    simp only [BitVec.add_assoc]
  · rfl

/-- A tracker says that beat `k` of a read is next. The data is told where the mode is known. -/
structure Shows (mode : Bool → Prop) (trk : RdTrk DATA_DW) (r : TstRead) (k : Nat) : Prop where
  running_length : trk.running_length = BitVec.ofNat 8 k
  req_length : trk.req_length = r.len
  req_data : ∀ m, mode m → trk.req_data = expected DATA_DW m (inst_data r.inst) k

variable {mode : Bool → Prop} {tag : BitVec 9} {r : TstRead} {k : Nat}

theorem cur_req_tag_of_push (hpop : s.rd_tag_pop_qq = true) (hpush : ∀ r ∈ stage_qq s, r.tag ≠ tag) :
    s.rd_cur_req_tag ≠ tag := by
  unfold stage_qq at hpush
  rw [if_pos hpop] at hpush
  exact hpush _ (List.mem_singleton_self _)

/-- `rd_got_first_phase` after the push of this cycle. -/
def got_pushed (s : TstRd DATA_DW) : BitVec 9 → Bool :=
  if s.rd_tag_pop_qq then Function.update s.rd_got_first_phase s.rd_cur_req_tag false
  else s.rd_got_first_phase

theorem got_step (hbeat : i.rvalid → i.rid ≠ tag) :
    (step NUM_RD_TAG i s).rd_got_first_phase tag = got_pushed s tag := by
  change (if i.rvalid then Function.update (got_pushed s) i.rid true else got_pushed s) tag = _
  split
  case isTrue hrvalid => rw [Function.update_of_ne (Ne.symm (hbeat hrvalid))]
  case isFalse => rfl

theorem got_beat (hrvalid : i.rvalid) (hrid : i.rid = tag) :
    (step NUM_RD_TAG i s).rd_got_first_phase tag = true := by
  change (if i.rvalid then Function.update (got_pushed s) i.rid true else got_pushed s) tag = _
  rw [if_pos hrvalid, hrid, Function.update_self]

theorem got_kept (hpush : ∀ r ∈ stage_qq s, r.tag ≠ tag) :
    got_pushed s tag = s.rd_got_first_phase tag := by
  unfold got_pushed
  split
  case isTrue hpop => rw [Function.update_of_ne (Ne.symm (cur_req_tag_of_push hpop hpush))]
  case isFalse => rfl

theorem trk_kept (hpush : ∀ r ∈ stage_qq s, r.tag ≠ tag) :
    (step NUM_RD_TAG i s).RD_TRK_RAM tag = s.RD_TRK_RAM tag := by
  change (if s.rd_tag_pop_qq then Function.update s.RD_TRK_RAM s.rd_cur_req_tag s.rd_trk_wr
    else s.RD_TRK_RAM) tag = _
  split
  case isTrue hpop => rw [Function.update_of_ne (Ne.symm (cur_req_tag_of_push hpop hpush))]
  case isFalse => rfl

theorem tracker_push (hpush : stage_qq s = [r]) (htag : r.tag = tag)
    (hmode : ∀ m, mode m → s.rcfg.const_data_mode = m) (hbeat : i.rvalid → i.rid ≠ tag) :
    Shows mode (tracker (step NUM_RD_TAG i s) tag) r 0 := by
  have hpop : s.rd_tag_pop_qq = true := by
    by_contra hnot
    simp [stage_qq, hnot] at hpush
  have hr : r = ⟨s.rd_cur_req_tag, s.inst_rd_rdata_q, s.rd_loop_addr_adj_q⟩ := by
    simpa [stage_qq, hpop] using hpush.symm
  have hcur : s.rd_cur_req_tag = tag := by rw [← htag, hr]
  have hfirst : (step NUM_RD_TAG i s).rd_got_first_phase tag = false := by
    rw [got_step hbeat, got_pushed, if_pos hpop, hcur, Function.update_self]
  have hram : (step NUM_RD_TAG i s).RD_TRK_RAM tag = s.rd_trk_wr := by
    change (if s.rd_tag_pop_qq then Function.update s.RD_TRK_RAM s.rd_cur_req_tag s.rd_trk_wr
      else s.RD_TRK_RAM) tag = _
    rw [if_pos hpop, hcur, Function.update_self]
  unfold tracker
  rw [hfirst, hram]
  refine ⟨rfl, by rw [hr]; rfl, fun m hm => ?_⟩
  rw [← first_data_eq, ← hmode m hm, hr]
  rfl

theorem tracker_beat (h : Shows mode (tracker s tag) r k) (hrvalid : i.rvalid) (hrid : i.rid = tag)
    (hpush : ∀ r ∈ stage_qq s, r.tag ≠ tag)
    (hmode : ∀ m, mode m → (step NUM_RD_TAG i s).rcfg.const_data_mode = m) :
    Shows mode (tracker (step NUM_RD_TAG i s) tag) r (k + 1) := by
  have hnow : md_now (step NUM_RD_TAG i s) =
      some (tag, (step NUM_RD_TAG i s).rd_md_ram_wr_data_pre) := by
    change (if i.rvalid then some (i.rid, _) else none) = _
    rw [if_pos hrvalid, hrid]
  have htrk : (step NUM_RD_TAG i s).rd_trk_rd = tracker s tag := by rw [rd_trk_rd_step, hrid]
  have hlen : (tracker s tag).req_length = (s.RD_TRK_RAM tag).req_length := by
    unfold tracker
    split <;> rfl
  unfold tracker
  rw [got_beat hrvalid hrid, trk_kept hpush, hnow]
  simp only [Bypass.latest_some, if_true]
  refine ⟨?_, ?_, fun m hm => ?_⟩
  · change (step NUM_RD_TAG i s).rd_trk_rd.running_length + 1 = _
    rw [htrk, h.running_length, BitVec.ofNat_add]
    rfl
  · change (s.RD_TRK_RAM tag).req_length = _
    rw [← hlen, h.req_length]
  · change rd_data_nxt (step NUM_RD_TAG i s).rcfg.const_data_mode
      (step NUM_RD_TAG i s).rd_trk_rd.req_data = _
    rw [htrk, hmode m hm, h.req_data m hm, rd_data_nxt_expected]

theorem tracker_kept (hbeat : i.rvalid → i.rid ≠ tag) (hpush : ∀ r ∈ stage_qq s, r.tag ≠ tag) :
    tracker (step NUM_RD_TAG i s) tag = tracker s tag := by
  have hnow : ∀ w ∈ md_now (step NUM_RD_TAG i s), w.1 ≠ tag := by
    intro w hw
    change w ∈ (if i.rvalid then some (i.rid, _) else none) at hw
    split at hw
    case isTrue hrvalid =>
      obtain rfl := Option.mem_some.mp hw
      exact hbeat hrvalid
    case isFalse => cases hw
  unfold tracker
  rw [got_step hbeat, got_kept hpush, trk_kept hpush, md_step, Bypass.latest_step hnow]

/-! ## A tag from its pop on -/

/-- The marks of the beats of some reads. -/
def marks (reads : List TstRead) : List Bool := reads.flatMap fun r => beats r.len.toNat

/-- The beat in `rdata_q` has this tag. -/
def here (s : TstRd DATA_DW) (tag : BitVec 9) : Bool := s.rvalid_q && s.rid_q = tag

/-- Where a tag is, with its reads so far, the marks of its beats, and how often it was freed. -/
inductive View (mode : Bool → Prop) (s : TstRd DATA_DW) (tag : BitVec 9) :
    List TstRead → List Bool → Nat → Prop
  | available {done} (havail : s.rd_tag_avail tag = true) (hq : ∀ r ∈ stage_q s, r.tag ≠ tag)
      (hqq : ∀ r ∈ stage_qq s, r.tag ≠ tag) (hhere : here s tag = false) :
      View mode s tag done (marks done) done.length
  | popped {done r} (havail : s.rd_tag_avail tag = false) (htag : r.tag = tag)
      (hq : stage_q s = [r]) (hqq : ∀ r ∈ stage_qq s, r.tag ≠ tag) (hhere : here s tag = false) :
      View mode s tag (done ++ [r]) (marks done) done.length
  | pushed {done r} (havail : s.rd_tag_avail tag = false) (htag : r.tag = tag)
      (hq : ∀ r ∈ stage_q s, r.tag ≠ tag) (hqq : stage_qq s = [r]) (hhere : here s tag = false) :
      View mode s tag (done ++ [r]) (marks done) done.length
  | running {done r k} (havail : s.rd_tag_avail tag = false) (hq : ∀ r ∈ stage_q s, r.tag ≠ tag)
      (hqq : ∀ r ∈ stage_qq s, r.tag ≠ tag) (hk : k ≤ r.len.toNat)
      (hshows : Shows mode (tracker s tag) r k)
      (hhere : here s tag → ∃ j, k = j + 1 ∧ s.rlast_q = false ∧ Shows mode s.rd_trk_rd r j) :
      View mode s tag (done ++ [r]) (marks done ++ List.replicate k false) done.length
  | last {done r} (havail : s.rd_tag_avail tag = false) (hq : ∀ r ∈ stage_q s, r.tag ≠ tag)
      (hqq : ∀ r ∈ stage_qq s, r.tag ≠ tag) (hhere : here s tag) (hrlast : s.rlast_q)
      (hshows : Shows mode s.rd_trk_rd r r.len.toNat) :
      View mode s tag (done ++ [r]) (marks (done ++ [r])) done.length

/-! ## One cycle -/

/-- The read of this tag that is popped. -/
def pop_of (s : TstRd DATA_DW) (tag : BitVec 9) : List TstRead :=
  (popped s).filter fun r => r.tag = tag

/-- The mark of a beat of this tag. -/
def beat_of (i : TstRdIn DATA_DW) (tag : BitVec 9) : List Bool :=
  ((r_accepted i).filter fun b => b.1 = tag).map Prod.snd

theorem beat_of_pos (hrvalid : i.rvalid) (hrid : i.rid = tag) : beat_of i tag = [i.rlast] := by
  simp [beat_of, r_accepted, hrvalid, hrid]

theorem beat_of_neg (hbeat : i.rvalid → i.rid ≠ tag) : beat_of i tag = [] := by
  unfold beat_of r_accepted
  split
  case isTrue hrvalid => simp [hbeat hrvalid]
  case isFalse => rfl

theorem here_step_neg (hbeat : i.rvalid → i.rid ≠ tag) :
    here (step NUM_RD_TAG i s) tag = false := by
  change (i.rvalid && decide (i.rid = tag)) = false
  cases hrvalid : i.rvalid
  · rfl
  · simp [hbeat hrvalid]

theorem freed_neg (hhere : here s tag = false) : (freed s).count tag = 0 := by
  unfold freed
  split
  case isTrue hfree =>
    simp only [rd_tag_free, Bool.and_eq_true] at hfree
    simpa [here, hfree.1.1, List.count_singleton] using hhere
  case isFalse => rfl

theorem freed_not_last (hhere : here s tag → s.rlast_q = false) : (freed s).count tag = 0 := by
  cases h : here s tag
  · exact freed_neg h
  · simp [freed, rd_tag_free, hhere h]

theorem rd_tag_free_of_shows (hrvalid : s.rvalid_q) (h : Shows mode s.rd_trk_rd r k)
    (hk : k ≤ r.len.toNat) : s.rd_tag_free = (s.rlast_q && decide (k = r.len.toNat)) := by
  have hlt : k < 2 ^ 8 := Nat.lt_of_le_of_lt hk r.len.isLt
  have hiff : BitVec.ofNat 8 k = r.len ↔ k = r.len.toNat := by
    rw [← BitVec.toNat_inj, BitVec.toNat_ofNat, Nat.mod_eq_of_lt hlt]
  simp only [rd_tag_free, hrvalid, Bool.true_and, h.running_length, h.req_length, hiff]

theorem freed_last (hhere : here s tag) (hrlast : s.rlast_q)
    (h : Shows mode s.rd_trk_rd r r.len.toNat) : (freed s).count tag = 1 := by
  have hvalid : s.rvalid_q ∧ s.rid_q = tag := by simpa [here] using hhere
  have hfree : s.rd_tag_free = true := by
    rw [rd_tag_free_of_shows hvalid.1 h (Nat.le_refl _), hrlast]
    simp
  simp [freed, hfree, hvalid.2]

theorem pop_of_taken (hinv : Inv s) (havail : s.rd_tag_avail tag = false) :
    ∀ r ∈ popped s, r.tag ≠ tag := by
  intro r hr htag
  unfold popped at hr
  split at hr
  case isTrue hpop =>
    obtain rfl := List.mem_singleton.mp hr
    have hchosen := hinv.chosen (pop_eq hpop).1
    rw [show s.rd_tag_alloc_winner = tag from htag, havail] at hchosen
    cases hchosen
  case isFalse => cases hr

theorem filter_tag_nil {l : List TstRead} (h : ∀ r ∈ l, r.tag ≠ tag) :
    (l.filter fun r => r.tag = tag) = [] := by
  rw [List.filter_eq_nil_iff]
  intro r hr
  simpa using h r hr

theorem pop_of_neg (h : ∀ r ∈ popped s, r.tag ≠ tag) : pop_of s tag = [] := filter_tag_nil h

theorem avail_of_reset (hreset : cfg_read_reset s.wr.cfg) :
    (step NUM_RD_TAG i s).rd_tag_avail tag = true := by
  change (if cfg_read_reset s.wr.cfg then fun _ => true else _) tag = true
  rw [if_pos hreset]

theorem avail_of_neg (hreset : cfg_read_reset s.wr.cfg = false) (hfree : (freed s).count tag = 0) :
    (step NUM_RD_TAG i s).rd_tag_avail tag =
      (s.rd_tag_avail tag && (pop_of s tag).isEmpty) := by
  have hrid : s.rd_tag_free → s.rid_q ≠ tag := by
    intro h heq
    simp [freed, h, heq] at hfree
  have hpop : (if s.rd_tag_pop then Function.update s.rd_tag_avail s.rd_tag_alloc_winner false
      else s.rd_tag_avail) tag = (s.rd_tag_avail tag && (pop_of s tag).isEmpty) := by
    unfold pop_of popped
    split
    · rw [Function.update_apply]
      by_cases h : tag = s.rd_tag_alloc_winner
      · simp [h]
      · simp [h, Ne.symm h]
    · simp
  change (if cfg_read_reset s.wr.cfg then fun _ => true else _) tag = _
  rw [hreset, ← hpop]
  split
  · contradiction
  · split
    case isTrue h => rw [Function.update_of_ne (Ne.symm (hrid h))]
    case isFalse => rfl

theorem avail_of_freed (hfree : (freed s).count tag ≠ 0) :
    (step NUM_RD_TAG i s).rd_tag_avail tag = true := by
  have hrid : s.rd_tag_free ∧ s.rid_q = tag := by
    unfold freed at hfree
    split at hfree
    case isTrue h => simpa [h, List.count_singleton] using hfree
    case isFalse => exact absurd rfl hfree
  change (if cfg_read_reset s.wr.cfg then fun _ => true else _) tag = true
  split
  · rfl
  · rw [if_pos hrid.1, hrid.2, Function.update_self]

theorem no_beat {done : List TstRead} (hans : i.rvalid → i.rid = tag →
    marks done ++ [i.rlast] <+: marks done) : i.rvalid → i.rid ≠ tag := by
  intro hrvalid hrid
  have hle := (hans hrvalid hrid).length_le
  rw [List.length_append, List.length_singleton] at hle
  omega

section Step

variable {done : List TstRead} {reads : List TstRead} {bs : List Bool} {frees : Nat}

/-- What a cycle adds for a tag. -/
def Next (NUM_RD_TAG : Nat) (mode : Bool → Prop) (i : TstRdIn DATA_DW) (s : TstRd DATA_DW)
    (tag : BitVec 9) (reads : List TstRead) (bs : List Bool) (frees : Nat) : Prop :=
  View mode (step NUM_RD_TAG i s) tag (reads ++ pop_of s tag) (bs ++ beat_of i tag)
    (frees + (freed s).count tag)

theorem next_of_available (havail : s.rd_tag_avail tag = true)
    (hq : ∀ r ∈ stage_q s, r.tag ≠ tag) (hhere : here s tag = false)
    (hreset : cfg_read_reset s.wr.cfg →
      (done ++ pop_of s tag).length ≤ done.length + (freed s).count tag)
    (hbeat : i.rvalid → i.rid ≠ tag) :
    Next NUM_RD_TAG mode i s tag done (marks done) done.length := by
  have hfreed := freed_neg hhere
  have hhere' : here (step NUM_RD_TAG i s) tag = false := here_step_neg hbeat
  unfold Next
  rw [beat_of_neg hbeat, hfreed, List.append_nil, Nat.add_zero]
  by_cases hpop : ∀ r ∈ popped s, r.tag ≠ tag
  · rw [pop_of_neg hpop, List.append_nil]
    refine .available ?_ (by rwa [stage_q_step]) hq hhere'
    by_cases hr : cfg_read_reset s.wr.cfg
    · exact avail_of_reset hr
    · rw [avail_of_neg (eq_false_of_ne_true hr) hfreed, havail, pop_of_neg hpop]
      rfl
  · have hone : ∃ r, popped s = [r] ∧ r.tag = tag := by
      unfold popped at hpop ⊢
      split at hpop
      case isTrue h =>
        rw [if_pos h]
        exact ⟨_, rfl, by simpa using hpop⟩
      case isFalse => simp at hpop
    obtain ⟨r, hr, htag⟩ := hone
    have hof : pop_of s tag = [r] := by simp [pop_of, hr, htag]
    have hno : cfg_read_reset s.wr.cfg = false := by
      by_contra hyes
      have hlen := hreset (by simpa using hyes)
      rw [hof, hfreed, List.length_append, List.length_singleton] at hlen
      omega
    rw [hof]
    refine .popped ?_ htag (by rw [stage_q_step, hr]) hq hhere'
    rw [avail_of_neg hno hfreed, hof]
    exact Bool.and_false _

theorem taken_step (NUM_RD_TAG : Nat) (i : TstRdIn DATA_DW) (hinv : Inv s) (havail : s.rd_tag_avail tag = false)
    (hfreed : (freed s).count tag = 0) {r : TstRead}
    (hreset : cfg_read_reset s.wr.cfg →
      (done ++ [r] ++ pop_of s tag).length ≤ done.length + (freed s).count tag) :
    pop_of s tag = [] ∧ (step NUM_RD_TAG i s).rd_tag_avail tag = false ∧
      ∀ r ∈ stage_q (step NUM_RD_TAG i s), r.tag ≠ tag := by
  have hpop := pop_of_taken hinv havail
  have hno : cfg_read_reset s.wr.cfg = false := by
    by_contra hyes
    have hlen := hreset (by simpa using hyes)
    rw [pop_of_neg hpop, hfreed, List.append_nil, List.length_append, List.length_singleton] at hlen
    omega
  refine ⟨pop_of_neg hpop, ?_, by rwa [stage_q_step]⟩
  rw [avail_of_neg hno hfreed, havail, Bool.false_and]

theorem next_of_popped (hinv : Inv s) (havail : s.rd_tag_avail tag = false) (htag : r.tag = tag)
    (hq : stage_q s = [r]) (hhere : here s tag = false)
    (hreset : cfg_read_reset s.wr.cfg →
      (done ++ [r] ++ pop_of s tag).length ≤ done.length + (freed s).count tag)
    (hbeat : i.rvalid → i.rid ≠ tag) :
    Next NUM_RD_TAG mode i s tag (done ++ [r]) (marks done) done.length := by
  have hfreed := freed_neg hhere
  obtain ⟨hpop, havail', hq'⟩ := taken_step NUM_RD_TAG i hinv havail hfreed hreset
  unfold Next
  rw [hpop, beat_of_neg hbeat, hfreed, List.append_nil, List.append_nil, Nat.add_zero]
  exact .pushed havail' htag hq' hq (here_step_neg hbeat)

theorem next_of_pushed (hinv : Inv s) (havail : s.rd_tag_avail tag = false) (htag : r.tag = tag)
    (hq : ∀ r ∈ stage_q s, r.tag ≠ tag) (hqq : stage_qq s = [r]) (hhere : here s tag = false)
    (hmode : ∀ m, mode m → s.rcfg.const_data_mode = m)
    (hreset : cfg_read_reset s.wr.cfg →
      (done ++ [r] ++ pop_of s tag).length ≤ done.length + (freed s).count tag)
    (hbeat : i.rvalid → i.rid ≠ tag) :
    Next NUM_RD_TAG mode i s tag (done ++ [r]) (marks done) done.length := by
  have hfreed := freed_neg hhere
  obtain ⟨hpop, havail', hq'⟩ := taken_step NUM_RD_TAG i hinv havail hfreed hreset
  have hhere' : here (step NUM_RD_TAG i s) tag = false := here_step_neg hbeat
  unfold Next
  rw [hpop, beat_of_neg hbeat, hfreed, List.append_nil, Nat.add_zero]
  exact .running (k := 0) havail' hq' hq (Nat.zero_le _) (tracker_push hqq htag hmode hbeat)
    (fun h => absurd h (by simp [hhere']))

theorem next_of_running (hinv : Inv s) (havail : s.rd_tag_avail tag = false)
    (hq : ∀ r ∈ stage_q s, r.tag ≠ tag) (hqq : ∀ r ∈ stage_qq s, r.tag ≠ tag)
    (hk : k ≤ r.len.toNat) (hshows : Shows mode (tracker s tag) r k)
    (hhere : here s tag → ∃ j, k = j + 1 ∧ s.rlast_q = false ∧ Shows mode s.rd_trk_rd r j)
    (hmode : ∀ m, mode m → (step NUM_RD_TAG i s).rcfg.const_data_mode = m)
    (hreset : cfg_read_reset s.wr.cfg →
      (done ++ [r] ++ pop_of s tag).length ≤ done.length + (freed s).count tag)
    (hbeat : i.rvalid → i.rid = tag → marks done ++ List.replicate k false ++ [i.rlast] <+:
      marks (done ++ [r])) :
    Next NUM_RD_TAG mode i s tag (done ++ [r]) (marks done ++ List.replicate k false)
      done.length := by
  have hfreed : (freed s).count tag = 0 := freed_not_last fun h => (hhere h).elim fun _ hj => hj.2.1
  obtain ⟨hpop, havail', hq'⟩ := taken_step NUM_RD_TAG i hinv havail hfreed hreset
  unfold Next
  rw [hpop, hfreed, List.append_nil, Nat.add_zero]
  by_cases hno : i.rvalid → i.rid ≠ tag
  · have hhere' : here (step NUM_RD_TAG i s) tag = false := here_step_neg hno
    rw [beat_of_neg hno, List.append_nil]
    exact .running havail' hq' hq hk (by rwa [tracker_kept hno hqq])
      (fun h => absurd h (by simp [hhere']))
  · have hyes : i.rvalid ∧ i.rid = tag := by simpa using hno
    obtain ⟨hrvalid, hrid⟩ := hyes
    have hmarks : marks (done ++ [r]) = marks done ++ beats r.len.toNat := by
      simp [marks]
    have hpre := hbeat hrvalid hrid
    rw [hmarks, List.append_assoc, List.prefix_append_right_inj] at hpre
    obtain ⟨-, hlast⟩ := mark_of_prefix hpre
    have hhere' : here (step NUM_RD_TAG i s) tag = true := by
      change (i.rvalid && decide (i.rid = tag)) = true
      simp [hrvalid, hrid]
    have htrk : Shows mode (step NUM_RD_TAG i s).rd_trk_rd r k := by
      rwa [rd_trk_rd_step, hrid]
    rw [beat_of_pos hrvalid hrid, hlast]
    by_cases heq : k = r.len.toNat
    · have hfull : marks done ++ List.replicate k false ++ [decide (k = r.len.toNat)] =
          marks (done ++ [r]) := by
        rw [hmarks, decide_eq_true heq, heq, List.append_assoc]
        rfl
      rw [hfull]
      refine .last havail' hq' hq hhere' ?_ (by rwa [← heq])
      change i.rlast = true
      rw [hlast, decide_eq_true heq]
    · have hmore : marks done ++ List.replicate k false ++ [decide (k = r.len.toNat)] =
          marks done ++ List.replicate (k + 1) false := by
        rw [decide_eq_false heq, List.replicate_succ', List.append_assoc]
      rw [hmore]
      refine .running havail' hq' hq (by omega) (tracker_beat hshows hrvalid hrid hqq hmode) fun _ => ?_
      refine ⟨k, rfl, ?_, htrk⟩
      change i.rlast = false
      rw [hlast, decide_eq_false heq]

theorem next_of_last (hinv : Inv s) (havail : s.rd_tag_avail tag = false)
    (hq : ∀ r ∈ stage_q s, r.tag ≠ tag) (hhere : here s tag) (hrlast : s.rlast_q)
    (hshows : Shows mode s.rd_trk_rd r r.len.toNat) (hbeat : i.rvalid → i.rid ≠ tag) :
    Next NUM_RD_TAG mode i s tag (done ++ [r]) (marks (done ++ [r])) done.length := by
  have hpop := pop_of_taken hinv havail
  have hfreed := freed_last hhere hrlast hshows
  have hlen : done.length + 1 = (done ++ [r]).length := by simp
  unfold Next
  rw [pop_of_neg hpop, beat_of_neg hbeat, hfreed, List.append_nil, List.append_nil, hlen]
  exact .available (avail_of_freed (by omega)) (by rwa [stage_q_step]) hq (here_step_neg hbeat)

end Step

/-! ## Runs -/

section Run

variable (ins : Nat → TstRdIn DATA_DW) (n : Nat) (tag : BitVec 9)

theorem pops_succ : pops NUM_RD_TAG s ins (n + 1) tag =
    pops NUM_RD_TAG s ins n tag ++ pop_of ((run NUM_RD_TAG s).state ins n) tag := by
  unfold pops pop_of
  rw [Circuit.passed_succ, List.filter_append]

theorem rs_succ : rs NUM_RD_TAG s ins (n + 1) tag =
    rs NUM_RD_TAG s ins n tag ++ beat_of (ins n) tag := by
  unfold rs beat_of
  rw [Circuit.passed_succ, List.filter_append, List.map_append]

/-- How often a tag was freed. -/
def frees (NUM_RD_TAG : Nat) (s : TstRd DATA_DW) (ins : Nat → TstRdIn DATA_DW) (n : Nat)
    (tag : BitVec 9) : Nat :=
  ((run NUM_RD_TAG s).passed ins (fun _ => freed) n).count tag

theorem frees_succ : frees NUM_RD_TAG s ins (n + 1) tag =
    frees NUM_RD_TAG s ins n tag + (freed ((run NUM_RD_TAG s).state ins n)).count tag := by
  unfold frees
  rw [Circuit.passed_succ, List.count_append]

theorem pops_length : (pops NUM_RD_TAG s ins n tag).length =
    (((run NUM_RD_TAG s).passed ins (fun _ => popped) n).map TstRead.tag).count tag := by
  unfold pops
  rw [List.count_eq_countP, List.countP_map, List.countP_eq_length_filter]
  congr 2

theorem pops_le_of_in_flight (h : in_flight NUM_RD_TAG s ins n = []) :
    (pops NUM_RD_TAG s ins n tag).length ≤ frees NUM_RD_TAG s ins n tag := by
  have hcount := congrArg (List.count tag) h
  rw [in_flight, List.count_diff, ← pops_length, List.count_nil] at hcount
  exact Nat.sub_eq_zero_iff_le.mp hcount

variable (hidle : Idle s)

include hidle

/-- What the memory knows of a tag's reads leaves out those that were not pushed. -/
theorem ars_eq : ∃ queued, (pops NUM_RD_TAG s ins n tag).map TstRead.len =
    (ars NUM_RD_TAG s ins (n + 1) tag).map TstReq.arlen ++ queued ++
      ((stage_qq ((run NUM_RD_TAG s).state ins n) ++
        stage_q ((run NUM_RD_TAG s).state ins n)).filter fun r => r.tag = tag).map TstRead.len := by
  have heq : ((run NUM_RD_TAG s).passed ins (fun _ => popped) n).map TstRead.request = _ :=
    requests_eq hidle ins n
  have hsent : ((run NUM_RD_TAG s).state ins n).RD_REQ_FIFO = ar_accepted (ins n) _ ++ _ := fifo_sent
  rw [waiting, hsent] at heq
  have hreq := congrArg (fun l => (l.filter fun q => q.1 = tag).map fun q => q.2.2) heq
  simp only [List.filter_append, List.filter_map, List.map_append, List.map_map] at hreq
  unfold pops ars
  rw [Circuit.passed_succ]
  simp only [List.filter_append, List.map_append, List.append_assoc] at hreq ⊢
  exact ⟨_, hreq⟩

/-- A beat goes on where the bursts of the reads that were pushed have got to. -/
theorem beat_prefix (hans : Answers NUM_RD_TAG s ins) (pushed : List TstRead)
    (hpushed : pops NUM_RD_TAG s ins n tag = pushed ++
      (stage_qq ((run NUM_RD_TAG s).state ins n) ++
        stage_q ((run NUM_RD_TAG s).state ins n)).filter fun r => r.tag = tag)
    (hrvalid : (ins n).rvalid) (hrid : (ins n).rid = tag) :
    rs NUM_RD_TAG s ins n tag ++ [(ins n).rlast] <+: marks pushed := by
  obtain ⟨queued, heq⟩ : ∃ queued, (pops NUM_RD_TAG s ins n tag).map TstRead.len = _ :=
    ars_eq ins n tag hidle
  rw [hpushed, List.map_append, List.append_cancel_right_eq] at heq
  have hbeat := hans (n + 1) tag
  rw [rs_succ, beat_of_pos hrvalid hrid] at hbeat
  have hmarks : marks pushed = (pushed.map TstRead.len).flatMap fun l => beats l.toNat := by
    rw [List.flatMap_map]
    rfl
  have hars : ((ars NUM_RD_TAG s ins (n + 1) tag).flatMap fun q => beats q.arlen.toNat) =
      ((ars NUM_RD_TAG s ins (n + 1) tag).map TstReq.arlen).flatMap fun l => beats l.toNat := by
    rw [List.flatMap_map]
  rw [hmarks, heq, List.flatMap_append]
  rw [hars] at hbeat
  exact hbeat.trans (List.prefix_append _ _)

theorem view_zero : View mode s tag [] [] 0 := by
  have hq : ∀ r ∈ stage_q s, r.tag ≠ tag := by simp [stage_q, hidle.rd_tag_pop_q]
  have hqq : ∀ r ∈ stage_qq s, r.tag ≠ tag := by simp [stage_qq, hidle.rd_tag_pop_qq]
  exact .available (by rw [hidle.rd_tag_avail]) hq hqq (by simp [here, hidle.rvalid_q])

theorem view_succ (hans : Answers NUM_RD_TAG s ins) (hcalm : Calm NUM_RD_TAG s ins)
    (hmode : ∀ m, mode m → ∀ n, ((run NUM_RD_TAG s).state ins n).rcfg.const_data_mode = m)
    (h : View mode ((run NUM_RD_TAG s).state ins n) tag (pops NUM_RD_TAG s ins n tag)
      (rs NUM_RD_TAG s ins n tag) (frees NUM_RD_TAG s ins n tag)) :
    Next NUM_RD_TAG mode (ins n) ((run NUM_RD_TAG s).state ins n) tag
      (pops NUM_RD_TAG s ins n tag) (rs NUM_RD_TAG s ins n tag) (frees NUM_RD_TAG s ins n tag) := by
  have hinv : Inv ((run NUM_RD_TAG s).state ins n) := inv_state hidle ins n
  have hbeat : ∀ pushed, pops NUM_RD_TAG s ins n tag = _ → _ := beat_prefix ins n tag hidle hans
  have hreset : cfg_read_reset ((run NUM_RD_TAG s).state ins n).wr.cfg →
      (pops NUM_RD_TAG s ins n tag ++ pop_of ((run NUM_RD_TAG s).state ins n) tag).length ≤
        frees NUM_RD_TAG s ins n tag + (freed ((run NUM_RD_TAG s).state ins n)).count tag := by
    intro hreset
    rw [← pops_succ, ← frees_succ]
    exact pops_le_of_in_flight ins (n + 1) tag (hcalm n hreset)
  have hnow := fun m hm => hmode m hm n
  have hnext := fun m hm => hmode m hm (n + 1)
  generalize pops NUM_RD_TAG s ins n tag = reads at *
  generalize rs NUM_RD_TAG s ins n tag = bs at *
  generalize frees NUM_RD_TAG s ins n tag = k at *
  cases h with
  | available havail hq hqq hhere =>
    refine next_of_available havail hq hhere hreset (no_beat (hbeat _ ?_))
    rw [List.filter_append, filter_tag_nil hq, filter_tag_nil hqq, List.append_nil, List.append_nil]
  | popped havail htag hq hqq hhere =>
    refine next_of_popped hinv havail htag hq hhere hreset (no_beat (hbeat _ ?_))
    rw [List.filter_append, filter_tag_nil hqq, hq]
    simp [htag]
  | pushed havail htag hq hqq hhere =>
    refine next_of_pushed hinv havail htag hq hqq hhere hnow hreset (no_beat (hbeat _ ?_))
    rw [List.filter_append, filter_tag_nil hq, hqq]
    simp [htag]
  | running havail hq hqq hk hshows hhere =>
    refine next_of_running hinv havail hq hqq hk hshows hhere hnext hreset (hbeat _ ?_)
    rw [List.filter_append, filter_tag_nil hq, filter_tag_nil hqq, List.append_nil, List.append_nil]
  | last havail hq hqq hhere hrlast hshows =>
    refine next_of_last hinv havail hq hhere hrlast hshows (no_beat (hbeat _ ?_))
    rw [List.filter_append, filter_tag_nil hq, filter_tag_nil hqq, List.append_nil, List.append_nil]

theorem view_state (hans : Answers NUM_RD_TAG s ins) (hcalm : Calm NUM_RD_TAG s ins)
    (hmode : ∀ m, mode m → ∀ n, ((run NUM_RD_TAG s).state ins n).rcfg.const_data_mode = m) :
    View mode ((run NUM_RD_TAG s).state ins n) tag (pops NUM_RD_TAG s ins n tag)
      (rs NUM_RD_TAG s ins n tag) (frees NUM_RD_TAG s ins n tag) := by
  induction n with
  | zero => exact view_zero tag hidle
  | succ n ih =>
    rw [pops_succ, rs_succ, frees_succ]
    exact view_succ ins n tag hidle hans hcalm hmode ih

end Run

/-- What each beat is compared with, and when a tag is freed. -/
structure Tracks (NUM_RD_TAG : Nat) (s : TstRd DATA_DW) (ins : Nat → TstRdIn DATA_DW) : Prop where
  /-- Of the last read of its tag it is some beat `k`, after the bursts of the reads before. -/
  beat : ∀ n, ((run NUM_RD_TAG s).state ins n).rvalid_q → ∃ done r k,
    let t := (run NUM_RD_TAG s).state ins n
    pops NUM_RD_TAG s ins n t.rid_q = done ++ [r] ∧ k ≤ r.len.toNat ∧
      rs NUM_RD_TAG s ins n t.rid_q =
        marks done ++ List.replicate k false ++ [decide (k = r.len.toNat)] ∧
      t.rd_trk_rd.running_length = BitVec.ofNat 8 k ∧
      (∀ m, (∀ n, ((run NUM_RD_TAG s).state ins n).rcfg.const_data_mode = m) →
        t.rd_data_cmp = expected DATA_DW m (inst_data r.inst) k) ∧
      t.rd_tag_free = decide (k = r.len.toNat)
  /-- One free for each last beat. -/
  free : ∀ n tag, frees NUM_RD_TAG s ins (n + 1) tag = (rs NUM_RD_TAG s ins n tag).count true

theorem View.beat {reads : List TstRead} {bs : List Bool} {frees : Nat}
    (h : View mode s tag reads bs frees) (hhere : here s tag) : ∃ done r k,
    reads = done ++ [r] ∧ k ≤ r.len.toNat ∧
      bs = marks done ++ List.replicate k false ++ [decide (k = r.len.toNat)] ∧
      Shows mode s.rd_trk_rd r k ∧ s.rlast_q = decide (k = r.len.toNat) := by
  cases h with
  | available _ _ _ hno => simp [hno] at hhere
  | popped _ _ _ _ hno => simp [hno] at hhere
  | pushed _ _ _ _ hno => simp [hno] at hhere
  | @running done r k _ _ _ hk _ hbeat =>
    obtain ⟨j, rfl, hrlast, hshows⟩ := hbeat hhere
    have hne : decide (j = r.len.toNat) = false := decide_eq_false (by omega)
    refine ⟨done, r, j, rfl, by omega, ?_, hshows, by rw [hrlast, hne]⟩
    rw [hne, List.replicate_succ', List.append_assoc]
  | @last done r _ _ _ _ hrlast hshows =>
    refine ⟨done, r, r.len.toNat, rfl, Nat.le_refl _, ?_, hshows, by simpa using hrlast⟩
    simp [marks, beats]

theorem marks_count (reads : List TstRead) : (marks reads).count true = reads.length := by
  induction reads with
  | nil => rfl
  | cons r reads ih =>
    have hcons : marks (r :: reads) = beats r.len.toNat ++ marks reads := rfl
    rw [hcons, List.count_append, ih, beats]
    simp [List.count_replicate, Nat.add_comm]

theorem View.free {reads : List TstRead} {bs : List Bool} {frees : Nat}
    (h : View mode s tag reads bs frees) : frees + (freed s).count tag = bs.count true := by
  cases h with
  | available _ _ _ hno => rw [freed_neg hno, marks_count, Nat.add_zero]
  | popped _ _ _ _ hno => rw [freed_neg hno, marks_count, Nat.add_zero]
  | pushed _ _ _ _ hno => rw [freed_neg hno, marks_count, Nat.add_zero]
  | running _ _ _ _ _ hbeat =>
    rw [freed_not_last fun h => (hbeat h).elim fun _ hj => hj.2.1, List.count_append, marks_count]
    simp [List.count_replicate]
  | last _ _ _ hhere hrlast hshows =>
    rw [freed_last hhere hrlast hshows, marks_count, List.length_append, List.length_singleton]

/-- Each beat is compared with what its read expects, however the tags are mixed. -/
theorem tracks (ins : Nat → TstRdIn DATA_DW) (hidle : Idle s) (hans : Answers NUM_RD_TAG s ins)
    (hcalm : Calm NUM_RD_TAG s ins) : Tracks NUM_RD_TAG s ins := by
  have hview : ∀ n tag, View
      (fun m => ∀ n, ((run NUM_RD_TAG s).state ins n).rcfg.const_data_mode = m) _ tag _ _ _ :=
    fun n tag => view_state ins n tag hidle hans hcalm fun m hm n => hm n
  constructor
  · intro n hrvalid
    have hhere : here ((run NUM_RD_TAG s).state ins n) ((run NUM_RD_TAG s).state ins n).rid_q := by
      simp [here, hrvalid]
    obtain ⟨done, r, k, hreads, hk, hbs, hshows, hrlast⟩ := (hview n _).beat hhere
    refine ⟨done, r, k, hreads, hk, hbs, hshows.running_length, hshows.req_data, ?_⟩
    rw [rd_tag_free_of_shows hrvalid hshows hk, hrlast, Bool.and_self]
  · intro n tag
    rw [frees_succ]
    exact (hview n tag).free

/-! ## One read of two beats -/

/-- The host writes the go register. The beats come one after the other. -/
def two_beats (n : Nat) : TstRdIn 2 where
  cfg_addr := 0x08
  cfg_wdata := 2
  cfg_wr := n = 0
  cfg_rd := false
  awready := true
  wready := true
  bvalid := false
  arready := true
  rvalid := n = 7 ∨ n = 8
  rid := 0
  rdata := 0
  rlast := n = 8

/-- One instruction: two beats from address 0x1000, data from 5 on. -/
def one_read : TstRdCfg where
  rd_compare_en := false
  sync_mode := false
  rd_loop_addr_shift := 0
  const_data_mode := false
  max_read_req := 31
  rd_num_inst := 0
  read_address := 0
  read_data := 0
  rd_loop_iter := 0
  rd_inst_index := 0
  read_inst_ram := fun _ => 1#32 ++ 5#32 ++ 0x1000#64

theorem two_beats_answers : Answers 512 (reset Tst.one_inst one_read) two_beats := by
  intro n tag
  by_cases htag : tag = 0
  · subst htag
    have hfirst : ∀ n ≤ 9, rs 512 (reset Tst.one_inst one_read) two_beats n 0 <+:
        (ars 512 (reset Tst.one_inst one_read) two_beats n 0).flatMap fun q => beats q.arlen.toNat := by
      decide +kernel
    rcases Nat.le_total n 9 with hn | hn
    · exact hfirst n hn
    · have hrs : rs 512 (reset Tst.one_inst one_read) two_beats n 0 =
          rs 512 (reset Tst.one_inst one_read) two_beats 9 0 := by
        unfold rs
        rw [Circuit.passed_eq_of_nil (fun k hk => ?_) n hn]
        have hno : (two_beats k).rvalid = false := decide_eq_false (by omega)
        simp [r_accepted, hno]
      obtain ⟨more, hmore⟩ : (run 512 (reset Tst.one_inst one_read)).passed two_beats ar_accepted 9 <+:
        _ := Circuit.passed_prefix hn
      rw [hrs]
      refine (hfirst 9 (Nat.le_refl _)).trans ?_
      unfold ars
      rw [← hmore, List.filter_append, List.flatMap_append]
      exact List.prefix_append _ _
  · have hnil : rs 512 (reset Tst.one_inst one_read) two_beats n tag = [] := by
      induction n with
      | zero => rfl
      | succ n ih => rw [rs_succ, ih, beat_of_neg fun _ => Ne.symm htag, List.append_nil]
    rw [hnil]
    exact List.nil_prefix

theorem two_beats_tracked : Tracks 512 (reset Tst.one_inst one_read) two_beats ∧
    ((run 512 (reset Tst.one_inst one_read)).state two_beats 9).rd_tag_free := by
  refine ⟨tracks two_beats (idle_reset _ _) two_beats_answers fun n hreset => ?_, by decide +kernel⟩
  have hfirst : ∀ n ≤ 3, cfg_read_reset
      ((run 512 (reset Tst.one_inst one_read)).state two_beats n).wr.cfg = false := by
    decide +kernel
  rcases Nat.le_total n 3 with hn | hn
  · rw [hfirst n hn] at hreset
    cases hreset
  · have hquiet := wr_stretch_quiet (fun k hk => decide_eq_false (by omega))
      (show ((run 512 (reset Tst.one_inst one_read)).state two_beats 3).wr.cfg.wr_stretch = false by
        decide +kernel) n hn
    simp [cfg_read_reset, hquiet] at hreset

end AwsFpga.Rtl.TstRd
