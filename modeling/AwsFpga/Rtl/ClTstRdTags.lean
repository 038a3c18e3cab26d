import AwsFpga.Rtl.ClTstRdTrk
import Mathlib.Data.List.Nodup
import Mathlib.Data.List.Perm.Subperm

/-!
# The tags in flight

After a reset of the tags the counter begins at 0, but a tag that was chosen before is popped first.
-/

open Lib Lib.Axi

namespace AwsFpga.Rtl.TstRd

variable {NUM_RD_TAG DATA_DW : Nat} {i : TstRdIn DATA_DW} {s : TstRd DATA_DW}

/-- What the generator promises about its requests. -/
structure Requests (NUM_RD_TAG : Nat) (s : TstRd DATA_DW) (ins : Nat → TstRdIn DATA_DW) : Prop where
  distinct : ∀ n, (in_flight NUM_RD_TAG s ins n).Nodup
  few : ∀ n, (in_flight NUM_RD_TAG s ins n).length ≤ s.rcfg.max_read_req.toNat + 1
  /-- Each pop has one request with its tag, address and length: it was accepted, or it waits. -/
  request : ∀ n, ((run NUM_RD_TAG s).passed ins (fun _ => popped) n).map TstRead.request =
    ((run NUM_RD_TAG s).passed ins ar_accepted n).map TstReq.request ++
      waiting ((run NUM_RD_TAG s).state ins n)
  room : ∀ n, ((run NUM_RD_TAG s).state ins n).rd_tag_pop_qq →
    ((run NUM_RD_TAG s).state ins n).RD_REQ_FIFO.length < 4

/-- The next tags are no greater than `max`. -/
structure Within (max : BitVec 9) (s : TstRd DATA_DW) : Prop where
  counter : s.rd_tag_inc_nxt_alloc ≤ max
  chosen : s.rd_tag_some_avail → s.rd_tag_alloc_winner ≤ max

theorem Within.step {max : BitVec 9} (h : Within max s) (hmax : s.rcfg.max_read_req = max) :
    Within max (step NUM_RD_TAG i s) := by
  constructor
  · change (if cfg_read_reset s.wr.cfg then 0 else if s.rd_tag_pop then
      (if s.rd_tag_inc_nxt_alloc = s.rcfg.max_read_req then 0 else s.rd_tag_inc_nxt_alloc + 1)
      else s.rd_tag_inc_nxt_alloc) ≤ max
    have hcounter := h.counter
    rw [hmax]
    split
    · exact Nat.zero_le _
    · split
      · split
        · exact Nat.zero_le _
        · bv_omega
      · exact hcounter
  · intro hsome
    obtain ⟨-, ⟨hcur, hwinner⟩ | ⟨-, hwinner⟩⟩ := some_avail_step hsome
    · rw [hwinner]
      exact h.chosen hcur
    · rw [hwinner]
      exact h.counter

theorem Within.popped {max : BitVec 9} (h : Within max s) : ∀ r ∈ popped s, r.tag ≤ max := by
  intro r hr
  unfold TstRd.popped at hr
  split at hr
  case isTrue hpop =>
    obtain rfl := List.mem_singleton.mp hr
    exact h.chosen (pop_eq hpop).1
  case isFalse => cases hr

theorem View.count_le {mode : Bool → Prop} {tag : BitVec 9} {reads : List TstRead} {bs : List Bool}
    {frees : Nat} (h : View mode s tag reads bs frees) : reads.length ≤ frees + 1 := by
  cases h <;> simp

theorem length_le_of_nodup {max : BitVec 9} {tags : List (BitVec 9)} (hnodup : tags.Nodup)
    (hle : ∀ t ∈ tags, t ≤ max) : tags.length ≤ max.toNat + 1 := by
  have hinj : (tags.map BitVec.toNat).Nodup := hnodup.map fun _ _ h => BitVec.eq_of_toNat_eq h
  have hsub : tags.map BitVec.toNat ⊆ List.range (max.toNat + 1) := by
    intro k hk
    obtain ⟨t, ht, rfl⟩ := List.mem_map.mp hk
    exact List.mem_range.mpr (Nat.lt_succ_of_le (hle t ht))
  simpa using (hinj.subperm hsub).length_le

section Run

variable (ins : Nat → TstRdIn DATA_DW)

theorem in_flight_nodup (hidle : Idle s) (hans : Answers NUM_RD_TAG s ins)
    (hcalm : Calm NUM_RD_TAG s ins) (n : Nat) : (in_flight NUM_RD_TAG s ins n).Nodup := by
  rw [List.nodup_iff_count_le_one]
  intro tag
  have hview : View (fun _ => False) _ tag _ _ _ :=
    view_state ins n tag hidle hans hcalm fun _ hm => hm.elim
  have hle := hview.count_le
  rw [in_flight, List.count_diff, ← pops_length]
  unfold frees at hle
  omega

theorem within_state {max : BitVec 9} (h : Within max s)
    (hmax : ∀ n, ((run NUM_RD_TAG s).state ins n).rcfg.max_read_req = max) (n : Nat) :
    Within max ((run NUM_RD_TAG s).state ins n) := by
  induction n with
  | zero => exact h
  | succ n ih => exact ih.step (hmax n)

theorem popped_within {max : BitVec 9} (h : Within max s)
    (hmax : ∀ n, ((run NUM_RD_TAG s).state ins n).rcfg.max_read_req = max) (n : Nat) :
    ∀ r ∈ (run NUM_RD_TAG s).passed ins (fun _ => popped) n, r.tag ≤ max :=
  Circuit.passed_forall (within_state ins h hmax) (fun _ _ h => h.popped) n

theorem requests (hidle : Idle s) (hwithin : Within s.rcfg.max_read_req s)
    (hmax : ∀ n, ((run NUM_RD_TAG s).state ins n).rcfg.max_read_req = s.rcfg.max_read_req)
    (hans : Answers NUM_RD_TAG s ins) (hcalm : Calm NUM_RD_TAG s ins) :
    Requests NUM_RD_TAG s ins := by
  have hnodup := in_flight_nodup ins hidle hans hcalm
  refine ⟨hnodup, fun n => length_le_of_nodup (hnodup n) fun t ht => ?_, requests_eq hidle ins,
    fun n => (inv_state hidle ins n).not_full⟩
  obtain ⟨r, hr, rfl⟩ := List.mem_map.mp (List.diff_subset _ _ ht)
  exact popped_within ins hwithin hmax n r hr

end Run

/-! ## After a reset of the tags -/

/-- A run after a reset of the tags that came while nothing was in flight: `s` is the state of the
reset, `i` are its inputs. -/
structure AfterReset (NUM_RD_TAG : Nat) (i : TstRdIn DATA_DW) (s : TstRd DATA_DW)
    (ins : Nat → TstRdIn DATA_DW) : Prop where
  reset : cfg_read_reset s.wr.cfg
  idle : Idle (step NUM_RD_TAG i s)
  max_read_req : ∀ n, ((run NUM_RD_TAG (step NUM_RD_TAG i s)).state ins n).rcfg.max_read_req =
    (step NUM_RD_TAG i s).rcfg.max_read_req
  answers : Answers NUM_RD_TAG (step NUM_RD_TAG i s) ins
  calm : Calm NUM_RD_TAG (step NUM_RD_TAG i s) ins

/-- The promise holds when the tag that was chosen before the reset is no greater than
`cfg_max_read_req`. -/
theorem requests_after_reset {ins : Nat → TstRdIn DATA_DW} (h : AfterReset NUM_RD_TAG i s ins)
    (hchosen : (step NUM_RD_TAG i s).rd_tag_some_avail →
      (step NUM_RD_TAG i s).rd_tag_alloc_winner ≤ (step NUM_RD_TAG i s).rcfg.max_read_req) :
    Requests NUM_RD_TAG (step NUM_RD_TAG i s) ins := by
  have hcounter : (step NUM_RD_TAG i s).rd_tag_inc_nxt_alloc = 0 := if_pos h.reset
  refine requests ins h.idle ⟨?_, hchosen⟩ h.max_read_req h.answers h.calm
  rw [hcounter]
  exact Nat.zero_le _

/-- Two reads, then `cfg_max_read_req` is `max`, then a reset and two reads more. -/
def reset_between (max : BitVec 32) (n : Nat) : TstRdIn 2 where
  cfg_addr := if n = 3 then 0x14 else if n = 9 then 0x0c else 0x08
  cfg_wdata := if n = 3 then max else 2
  cfg_wr := n = 0 ∨ n = 3 ∨ n = 9 ∨ n = 12
  cfg_rd := false
  awready := true
  wready := true
  bvalid := false
  arready := true
  rvalid := n = 8 ∨ n = 9
  rid := if n = 8 then 0 else 1
  rdata := 0
  rlast := true

/-- Two instructions, each with one beat. -/
def two_reads : TstRdCfg := { one_read with
  rd_num_inst := 1
  read_inst_ram := fun _ => 0#32 ++ 5#32 ++ 0x1000#64 }

/-- The state of the reset. -/
def at_reset (max : BitVec 32) : TstRd 2 :=
  (run 512 (reset Tst.one_inst two_reads)).state (reset_between max) 11

/-- The inputs after it. -/
def later (max : BitVec 32) (n : Nat) : TstRdIn 2 := reset_between max (12 + n)

theorem reset_between_after (max : BitVec 32) (hmax : max = 0 ∨ max = 31) :
    AfterReset 512 (reset_between max 11) (at_reset max) (later max) := by
  have hreset : cfg_read_reset (at_reset max).wr.cfg := by
    rcases hmax with rfl | rfl <;> decide
  have hquiet : ∀ n, 3 ≤ n → ((run 512 (step 512 (reset_between max 11) (at_reset max))).state
      (later max) n).wr.cfg.wr_stretch = false := by
    refine wr_stretch_quiet (fun n hn => decide_eq_false (by omega)) ?_
    rcases hmax with rfl | rfl <;> decide
  have hfirst : ∀ n ≤ 3, ((run 512 (step 512 (reset_between max 11) (at_reset max))).state
      (later max) n).rcfg.max_read_req =
        (step 512 (reset_between max 11) (at_reset max)).rcfg.max_read_req := by
    rcases hmax with rfl | rfl <;> decide
  refine ⟨hreset, ⟨if_pos hreset, ?_, ?_, ?_, rfl⟩, fun n => ?_, fun n tag => ?_, fun n hagain => ?_⟩
  · rcases hmax with rfl | rfl <;> decide
  · rcases hmax with rfl | rfl <;> decide
  · rcases hmax with rfl | rfl <;> decide
  · rcases Nat.le_total n 3 with hn | hn
    · exact hfirst n hn
    · induction hn with
      | refl => exact hfirst 3 (Nat.le_refl _)
      | @step n hn ih =>
        rw [← ih]
        change (if Tst.cfg_set _ _ then _ else _) = _
        rw [if_neg (by simp [Tst.cfg_set, hquiet n hn])]
  · have hnil : rs 512 (step 512 (reset_between max 11) (at_reset max)) (later max) n tag = [] := by
      induction n with
      | zero => rfl
      | succ n ih =>
        have hno : (later max n).rvalid = false := decide_eq_false (by omega)
        rw [rs_succ, ih, beat_of_neg (by simp [hno]), List.append_nil]
    rw [hnil]
    exact List.nil_prefix
  · rcases Nat.le_total n 3 with hn | hn
    · have hfirst : ∀ n ≤ 3, cfg_read_reset ((run 512 (step 512 (reset_between max 11)
          (at_reset max))).state (later max) n).wr.cfg = false := by
        rcases hmax with rfl | rfl <;> decide
      rw [hfirst n hn] at hagain
      cases hagain
    · simp [cfg_read_reset, hquiet n hn] at hagain

theorem requests_max_31 : Requests 512 (step 512 (reset_between 31 11) (at_reset 31)) (later 31) ∧
    in_flight 512 (step 512 (reset_between 31 11) (at_reset 31)) (later 31) 6 = [2, 1] :=
  ⟨requests_after_reset (reset_between_after 31 (.inr rfl)) (by decide), by decide⟩

/-- With `cfg_max_read_req` 0 there are two tags in flight: 2, which was chosen before, and 0. -/
theorem not_requests : ¬ ∀ NUM_RD_TAG DATA_DW cfg rcfg (ins : Nat → TstRdIn DATA_DW) n,
    AfterReset NUM_RD_TAG (ins n) ((run NUM_RD_TAG (reset cfg rcfg)).state ins n)
        (fun k => ins (n + 1 + k)) →
      Requests NUM_RD_TAG ((run NUM_RD_TAG (reset cfg rcfg)).state ins (n + 1))
        (fun k => ins (n + 1 + k)) := by
  intro hall
  have hfew := (hall 512 2 Tst.one_inst two_reads (reset_between 0) 11
    (reset_between_after 0 (.inl rfl))).few 6
  revert hfew
  decide

end AwsFpga.Rtl.TstRd
