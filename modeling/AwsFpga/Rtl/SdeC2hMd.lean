import AwsFpga.Rtl.SdeC2hRecs

/-!
# When the C2H data mover reports a descriptor (`sde_c2h_data.sv`)

The responses are counted as they come. When as many have come as the oldest record waits for, the
write-back block is asked to write its metadata.
-/

open Lib Lib.Axi

namespace AwsFpga.Rtl

namespace C2hData

variable (i : C2hDataIn) (s : C2hData)

/-- The record that leaves the FIFO. -/
def released : List C2hWbRec := if dp_wb_ff_pop i s then [dp_wb_ff_pop_data s] else []

/-- The metadata that the write-back block takes. -/
def md_taken : List C2hMd := fire s.dm_wb_md_req i.wb_dm_md_grant s.dm_wb_md

/-- The response that is taken. -/
def responded : List (BitVec 2) := fire i.pm_dm_bvalid (dm_pm_bready s) i.pm_dm_bresp

/-- The response that is counted. -/
def counted : List (BitVec 2) :=
  if dp_bresp_ff_pop i s then [s.DP_DATA_BRESP_FIFO.headD 0] else []

end C2hData

namespace C2h

open C2hBuf (Packed)

section Runs

variable (p : C2hDataParams) (ins : Nat → C2hIn)

/-- The records that left the FIFO before cycle `n`. -/
def recs_out (n : Nat) : List C2hWbRec :=
  (circuit p).passed ins (fun i s => C2hData.released (data_in p i s) s.SDE_C2H_DATA) n

/-- The metadata that the write-back block took before cycle `n`. -/
def md_out (n : Nat) : List C2hMd :=
  (circuit p).passed ins (fun i s => C2hData.md_taken (data_in p i s) s.SDE_C2H_DATA) n

/-- The metadata that is shown to it. -/
def md_shown (n : Nat) : List C2hMd :=
  shown ((circuit p).state ins n).SDE_C2H_DATA.dm_wb_md_req ((circuit p).state ins n).SDE_C2H_DATA.dm_wb_md

/-- The responses that were taken before cycle `n`. -/
def b_in (n : Nat) : List (BitVec 2) :=
  (circuit p).passed ins (fun i s => C2hData.responded (data_in p i s) s.SDE_C2H_DATA) n

/-- Those of them that were counted. -/
def b_out (n : Nat) : List (BitVec 2) :=
  (circuit p).passed ins (fun i s => C2hData.counted (data_in p i s) s.SDE_C2H_DATA) n

/-- How many bursts had all their beats taken before cycle `n`. -/
def lasts_out (n : Nat) : Nat := (w_out p ins n).countP WBeat.last

/-- A response comes behind the last beat of its burst. -/
def RespondsAfter : Prop := ∀ n, (ins n).pm_dm_bvalid → (b_in p ins n).length < lasts_out p ins n

/-- What is expected of the records before cycle `n`. -/
structure Completed (n : Nat) : Prop where
  /-- Each descriptor is counted once. -/
  counted : descs_counted p ins n = (descs_written p ins n).length
  /-- The metadata is that of the descriptors that are done, each once and in order. -/
  metadata : ∃ mds, Mds (beats_in p ins n) 0 (descs_written p ins n) mds ∧
    md_out p ins n ++ md_shown p ins n <+: mds
  /-- When it is shown, all bursts of its descriptor have their responses. -/
  answered : ∃ complete started, writes_out p ins n = complete.flatten ++ started ∧
    Tiled p (beats_in p ins n) 0 (descs_written p ins n) complete ∧
    (complete.take (md_out p ins n ++ md_shown p ins n).length).flatten.length ≤
      (b_in p ins n).length

variable {p ins} {n : Nat}

/-! ## The two FIFOs -/

theorem recs_eq (n : Nat) : recs_in p ins n = recs_out p ins n ++
    ((circuit p).state ins n).SDE_C2H_DATA.DP_WB_FIFO.held C2hData.DP_WB_FIFO_DEPTH := by
  refine Circuit.passed_eq (P := fun s : C2h => s.SDE_C2H_DATA.DP_WB_FIFO.Ok C2hData.DP_WB_FIFO_DEPTH)
    (m := fun _ _ => True)
    (fun s : C2h => s.SDE_C2H_DATA.DP_WB_FIFO.held C2hData.DP_WB_FIFO_DEPTH) wb_ok (fun _ => trivial)
    RamFifoFt.held_start ?_ n
  intro i s _ hok
  have hpop := @wb_valid_of_pop (data_in p i s) s.SDE_C2H_DATA
  have hstep := @RamFifoFt.held_step _ _ _ (C2hData.dp_wb_ff_push_data s.SDE_C2H_DATA) _ _
    hok wb_not_full hpop
  have hreleased : C2hData.released (data_in p i s) s.SDE_C2H_DATA =
      if C2hData.dp_wb_ff_pop (data_in p i s) s.SDE_C2H_DATA then
        s.SDE_C2H_DATA.DP_WB_FIFO.FT_FIFO.ft0.toList else [] := by
    unfold C2hData.released
    split
    case isTrue h =>
      obtain ⟨r, hr⟩ := Option.isSome_iff_exists.mp (hpop h)
      rw [C2hData.dp_wb_ff_pop_data, RamFifoFt.pop_data, hr]
      rfl
    case isFalse => rfl
  rw [hreleased]
  exact hstep

theorem wb_delay (n : Nat) : ((circuit p).state ins n).SDE_C2H_DATA.DP_WB_FIFO.FT_FIFO.Delay
    (recs_out p ins n).length (recs_in p ins (n - 1)).length (recs_in p ins (n - 2)).length := by
  induction n with
  | zero => exact FtFifo.delay_start
  | succ n ih =>
    have hall := congrArg List.length (@recs_eq p ins n)
    rw [List.length_append] at hall
    have hstep := @RamFifoFt.delay_step _ _ (C2hData.dp_wb_ff_push ((circuit p).state ins n).SDE_C2H_DATA)
      (C2hData.dp_wb_ff_push_data ((circuit p).state ins n).SDE_C2H_DATA) _ _ _ _ _ _ (wb_ok n)
      (@wb_valid_of_pop (data_in p (ins n) ((circuit p).state ins n)) _) ih hall.symm
    have hout : (recs_out p ins (n + 1)).length = (recs_out p ins n).length +
        (C2hData.dp_wb_ff_pop (data_in p (ins n) ((circuit p).state ins n))
          ((circuit p).state ins n).SDE_C2H_DATA).toNat := by
      change (recs_out p ins n ++ C2hData.released _ _).length = _
      rw [List.length_append, C2hData.released]
      split
      case isTrue h => rw [h]; rfl
      case isFalse h => rw [Bool.not_eq_true] at h; rw [h]; rfl
    rw [hout]
    exact hstep

theorem bresp_nonempty {i : C2hDataIn} {dm : C2hData} (hpop : C2hData.dp_bresp_ff_pop i dm) :
    dm.DP_DATA_BRESP_FIFO ≠ [] := by
  intro hempty
  simp [C2hData.dp_bresp_ff_pop, C2hData.curr_desc_send_to_wb, C2hData.dp_bresp_ff_valid, hempty] at hpop

theorem bresp_room {i : C2hDataIn} {dm : C2hData} :
    dm.DP_DATA_BRESP_FIFO.length < C2hData.DP_DATA_BRESP_FIFO_DEPTH ∨
      (if C2hData.dp_bresp_ff_push i dm then some i.pm_dm_bresp else none) = none := by
  cases hpush : C2hData.dp_bresp_ff_push i dm with
  | false => exact .inr rfl
  | true =>
    simp only [C2hData.dp_bresp_ff_push, C2hData.dp_bresp_ff_full, watermark, Bool.and_eq_true,
      Bool.not_eq_true'] at hpush
    have hle := of_decide_eq_false hpush.2
    have hdepth : C2hData.DP_DATA_BRESP_FIFO_DEPTH = 32 := rfl
    exact .inl (by omega)

theorem bresp_step {i : C2hDataIn} {dm : C2hData}
    (hlen : dm.DP_DATA_BRESP_FIFO.length ≤ C2hData.DP_DATA_BRESP_FIFO_DEPTH) :
    dm.DP_DATA_BRESP_FIFO ++ C2hData.responded i dm =
      C2hData.counted i dm ++ (C2hData.step p i dm).DP_DATA_BRESP_FIFO := by
  have hstep : (C2hData.step p i dm).DP_DATA_BRESP_FIFO = _ :=
    flop_fifo_in_eq hlen bresp_room (bresp_nonempty (i := i))
  have hpushed : C2hData.responded i dm =
      (if C2hData.dp_bresp_ff_push i dm then some i.pm_dm_bresp else none).toList := by
    change (if C2hData.dp_bresp_ff_push i dm then _ else _) = _
    split <;> rfl
  rw [hstep, hpushed, ← List.append_assoc]
  congr 1
  unfold C2hData.counted
  split
  case isTrue h =>
    obtain ⟨b, rest, hfifo⟩ := List.exists_cons_of_ne_nil (bresp_nonempty h)
    rw [hfifo]
    rfl
  case isFalse => rfl

theorem bresp_length (n : Nat) :
    ((circuit p).state ins n).SDE_C2H_DATA.DP_DATA_BRESP_FIFO.length ≤
      C2hData.DP_DATA_BRESP_FIFO_DEPTH := by
  refine Circuit.inv_state (P := fun s : C2h =>
      s.SDE_C2H_DATA.DP_DATA_BRESP_FIFO.length ≤ C2hData.DP_DATA_BRESP_FIFO_DEPTH)
    (m := fun _ _ => True) (Nat.zero_le _) ?_ (fun _ => trivial) n
  intro i s _ hlen
  have hstep : (C2hData.step p (data_in p i s) s.SDE_C2H_DATA).DP_DATA_BRESP_FIFO = _ :=
    flop_fifo_in_eq hlen bresp_room (bresp_nonempty (i := data_in p i s))
  change (C2hData.step p (data_in p i s) s.SDE_C2H_DATA).DP_DATA_BRESP_FIFO.length ≤ _
  rw [hstep, List.length_append]
  rcases @bresp_room (data_in p i s) s.SDE_C2H_DATA with hroom | hnone
  · have hone : ((if C2hData.dp_bresp_ff_push (data_in p i s) s.SDE_C2H_DATA then
        some (data_in p i s).pm_dm_bresp else none).toList).length ≤ 1 := by
      split <;> simp
    split
    · rw [List.length_tail]
      omega
    · omega
  · rw [hnone]
    split
    · rw [List.length_tail]
      exact (Nat.sub_le _ _).trans hlen
    · exact hlen

theorem b_eq (n : Nat) : b_in p ins n = b_out p ins n ++
    ((circuit p).state ins n).SDE_C2H_DATA.DP_DATA_BRESP_FIFO :=
  Circuit.passed_eq (P := fun s : C2h =>
      s.SDE_C2H_DATA.DP_DATA_BRESP_FIFO.length ≤ C2hData.DP_DATA_BRESP_FIFO_DEPTH)
    (m := fun _ _ => True) (fun s : C2h => s.SDE_C2H_DATA.DP_DATA_BRESP_FIFO) bresp_length
    (fun _ => trivial) rfl (fun _ _ _ hlen => bresp_step hlen) n

/-! ## Responses and bursts -/

variable (p ins) in
/-- How many bursts had their last beat go to the output FIFO before cycle `n`. -/
def finished (n : Nat) : Nat := (w_in p ins n).countP WBeat.last

/-- How many responses the records wait for. -/
def waited (recs : List C2hWbRec) : Nat := (recs.map C2hWbRec.num_bresp).sum

theorem waited_append (recs recs' : List C2hWbRec) :
    waited (recs ++ recs') = waited recs + waited recs' := by
  rw [waited, List.map_append, List.sum_append]
  rfl

theorem waited_single (r : C2hWbRec) : waited [r] = r.num_bresp_minus1 + 1 := by
  simp [waited, C2hWbRec.num_bresp]

theorem finished_mono {m k : Nat} (h : m ≤ k) : finished p ins m ≤ finished p ins k :=
  (Circuit.passed_prefix h : w_in p ins m <+: w_in p ins k).sublist.countP_le

theorem finished_succ : finished p ins (n + 1) = finished p ins n +
    (C2hData.data_tx_done ((circuit p).state ins n).SDE_C2H_DATA).toNat := by
  change (w_in p ins n ++ C2hData.w_pushed _).countP _ = _
  rw [List.countP_append, C2hData.w_pushed]
  change _ = _ + (C2hData.dp_data_out_ff_push _ && _).toNat
  congr 1
  cases C2hData.dp_data_out_ff_push ((circuit p).state ins n).SDE_C2H_DATA with
  | false => rfl
  | true =>
    rw [if_pos rfl, Bool.true_and, List.countP_singleton]
    change (if ((circuit p).state ins n).SDE_C2H_DATA.pl5_dp.last = true then 1 else 0) = _
    cases ((circuit p).state ins n).SDE_C2H_DATA.pl5_dp.last <;> rfl

theorem writes_length (hpacked : ∀ n, (ins n).axis_buf_valid → Packed (ins n).axis_buf) (n : Nat) :
    (writes_out p ins n).length = finished p ins n +
      if ((circuit p).state ins n).SDE_C2H_DATA.req_state = .REQ_DATA then 1 else 0 := by
  induction n with
  | zero => rfl
  | succ n ih =>
    rw [writes_out_succ, List.length_append, finished_succ, ih]
    cases hdone : C2hData.data_tx_done ((circuit p).state ins n).SDE_C2H_DATA with
    | false =>
      have hburst := @issued_length p (data_in p (ins n) ((circuit p).state ins n)) _ hdone
      have hstep : ((circuit p).state ins (n + 1)).SDE_C2H_DATA = C2hData.step p
          (data_in p (ins n) ((circuit p).state ins n)) ((circuit p).state ins n).SDE_C2H_DATA := rfl
      rw [hstep, ← hburst, Bool.toNat_false]
      omega
    | true =>
      have hpush := hdone
      rw [C2hData.data_tx_done, Bool.and_eq_true] at hpush
      obtain ⟨bqq, rp, rd, -, hphase⟩ := holds_state (p := p) hpacked n
      obtain ⟨-, -, hstate, -⟩ := hphase.of_push hpush.1
      have hnext : ((circuit p).state ins (n + 1)).SDE_C2H_DATA.req_state ≠ .REQ_DATA := by
        have hnext : ((circuit p).state ins (n + 1)).SDE_C2H_DATA.req_state = _ :=
          state_done hdone hstate
        rw [hnext]
        split <;> decide
      rw [not_issued (by rw [hstate]; decide), if_pos hstate, if_neg hnext]
      rfl

/-- The bursts that are finished are those of the records and those of the descriptor in progress. -/
theorem finished_eq (hpacked : ∀ n, (ins n).axis_buf_valid → Packed (ins n).axis_buf) (n : Nat) :
    finished p ins n = waited (recs_in p ins n) +
      if ((circuit p).state ins n).SDE_C2H_DATA.req_state = .REQ_IDLE then 0
      else ((circuit p).state ins n).SDE_C2H_DATA.curr_desc_num_txns := by
  have hk := kept_state (p := p) hpacked n
  have hlen := writes_length (p := p) hpacked n
  have hwaited : waited (recs_in p ins n) = (bursts_done p ins n).flatten.length := by
    rw [waited, hk.num_bresp, List.length_flatten]
  rw [writes_split, List.length_append] at hlen
  split
  case isTrue hidle =>
    obtain ⟨hnone, -⟩ := hk.progress.none (hk.progress.idle.mp hidle)
    rw [hidle, if_neg (by decide), hnone, List.length_nil] at hlen
    omega
  case isFalse hbusy =>
    have hnum := hk.num_txns hbusy
    omega

theorem num_bresp_lt (hpacked : ∀ n, (ins n).axis_buf_valid → Packed (ins n).axis_buf) (n : Nat) :
    ∀ r ∈ recs_in p ins n, r.num_bresp_minus1 + 1 < 2 ^ 32 := by
  induction n with
  | zero => exact fun r hr => absurd hr List.not_mem_nil
  | succ n ih =>
    intro r hr
    rw [recs_in_succ, C2hData.recorded] at hr
    rcases List.mem_append.mp hr with hr | hr
    · exact ih r hr
    · split at hr
      case isTrue hpush =>
        obtain rfl := List.mem_singleton.mp hr
        have hstate := state_of_record hpacked hpush
        have hleft := txns_left (p := p) hpacked n (by rw [hstate]; decide)
        change ((circuit p).state ins n).SDE_C2H_DATA.curr_desc_num_txns + 1 < _
        omega
      case isFalse => exact absurd hr List.not_mem_nil

theorem finished_le_of_record (hpacked : ∀ n, (ins n).axis_buf_valid → Packed (ins n).axis_buf)
    {m k : Nat} (hle : m ≤ k) {r : C2hWbRec} {rest : List C2hWbRec}
    (h : recs_in p ins k = recs_in p ins m ++ r :: rest) :
    finished p ins m ≤ waited (recs_in p ins m) + r.num_bresp_minus1 := by
  induction hle generalizing rest with
  | refl =>
    have hlen := congrArg List.length h
    rw [List.length_append, List.length_cons] at hlen
    omega
  | @step k hmk ih =>
    obtain ⟨t, ht⟩ : recs_in p ins m <+: recs_in p ins k := Circuit.passed_prefix hmk
    rw [recs_in_succ, ← ht, List.append_assoc] at h
    have hrest := List.append_cancel_left h
    cases t with
    | nil =>
      rw [List.nil_append, C2hData.recorded] at hrest
      cases hpush : C2hData.dp_wb_ff_push ((circuit p).state ins k).SDE_C2H_DATA with
      | false =>
        rw [hpush, if_neg Bool.false_ne_true] at hrest
        cases hrest
      | true =>
        -- The record is made here, and counts what was finished before.
        rw [hpush, if_pos rfl] at hrest
        obtain ⟨rfl, -⟩ := List.cons.inj hrest
        have hstate := state_of_record hpacked hpush
        have hall := finished_eq (p := p) hpacked k
        rw [hstate, if_neg (by decide), ← ht, List.append_nil] at hall
        have hmono := @finished_mono p ins _ _ hmk
        have hnum : (C2hData.dp_wb_ff_push_data ((circuit p).state ins k).SDE_C2H_DATA).num_bresp_minus1 =
            ((circuit p).state ins k).SDE_C2H_DATA.curr_desc_num_txns := rfl
        omega
    | cons r' t =>
      rw [List.cons_append] at hrest
      obtain ⟨rfl, -⟩ := List.cons.inj hrest
      exact ih ht.symm

theorem lasts_out_le (n : Nat) : lasts_out p ins (n + 1) ≤ finished p ins n := by
  have hprefix : w_out p ins (n + 1) <+: w_in p ins n := by
    rw [w_in_eq]
    change w_out p ins n ++ C2hData.w_taken _ _ <+: _
    apply (List.prefix_append_right_inj _).mpr
    unfold w_waiting C2hData.w_taken
    cases hfifo : ((circuit p).state ins n).SDE_C2H_DATA.DP_DATA_OUTPUT_FIFO with
    | nil => simp [C2hData.dm_pm_wvalid, hfifo]
    | cons w rest =>
      unfold fire
      split
      · rw [C2hData.dm_pm_w, hfifo]
        exact List.prefix_append [w] rest
      · exact List.nil_prefix
  exact hprefix.sublist.countP_le

/-- A burst has no response in the FIFO before its last beat was there for two cycles. -/
theorem b_in_le (hafter : RespondsAfter p ins) (n : Nat) :
    (b_in p ins n).length ≤ finished p ins (n - 2) := by
  have hnext (n : Nat) : (b_in p ins (n + 1)).length ≤ lasts_out p ins n := by
    induction n with
    | zero =>
      have hnone : C2hData.responded (data_in p (ins 0) ((circuit p).state ins 0))
          ((circuit p).state ins 0).SDE_C2H_DATA = [] := by
        have hno : (ins 0).pm_dm_bvalid = false := by
          by_contra hb
          exact absurd (hafter 0 (by simpa using hb)) (Nat.not_lt_zero _)
        rw [C2hData.responded]
        change fire (ins 0).pm_dm_bvalid _ _ = _
        rw [hno, fire_not_valid]
      change ([] ++ C2hData.responded _ _).length ≤ _
      rw [hnone]
      exact Nat.zero_le _
    | succ n ih =>
      have hmono : lasts_out p ins n ≤ lasts_out p ins (n + 1) :=
        (Circuit.passed_prefix (Nat.le_succ n) : w_out p ins n <+: w_out p ins (n + 1))
          |>.sublist.countP_le
      change (b_in p ins (n + 1) ++ C2hData.responded _ _).length ≤ _
      rw [List.length_append, C2hData.responded, fire]
      split
      case isTrue hb =>
        rw [Bool.and_eq_true] at hb
        exact hafter (n + 1) hb.1
      case isFalse => exact ih.trans hmono
  cases n with
  | zero => exact Nat.zero_le _
  | succ n =>
    cases n with
    | zero => exact (hnext 0).trans (Nat.zero_le _)
    | succ n => exact (hnext (n + 1)).trans (lasts_out_le n)

/-! ## One response after another -/

/-- What was counted belongs to the records that left the FIFO, and the rest to the oldest one in it. -/
structure Answered (p : C2hDataParams) (ins : Nat → C2hIn) (n : Nat) : Prop where
  out : md_out p ins n = (recs_out p ins n).map C2hWbRec.md
  count : (b_out p ins n).length = waited (recs_out p ins n) +
    ((circuit p).state ins n).SDE_C2H_DATA.curr_desc_bresp_cnt
  within : ∀ r rest,
    ((circuit p).state ins n).SDE_C2H_DATA.DP_WB_FIFO.held C2hData.DP_WB_FIFO_DEPTH = r :: rest →
    ((circuit p).state ins n).SDE_C2H_DATA.curr_desc_bresp_cnt ≤ r.num_bresp_minus1
  asked : ((circuit p).state ins n).SDE_C2H_DATA.dm_wb_md_req = true →
    C2hData.curr_desc_send_to_wb ((circuit p).state ins n).SDE_C2H_DATA = true ∧
    ((circuit p).state ins n).SDE_C2H_DATA.curr_desc_send_to_wb_q = true ∧
    ((circuit p).state ins n).SDE_C2H_DATA.dm_wb_md =
      (C2hData.dp_wb_ff_pop_data ((circuit p).state ins n).SDE_C2H_DATA).md

theorem answered_zero : Answered p ins 0 where
  out := rfl
  count := rfl
  within := fun _ _ _ => Nat.zero_le _
  asked := fun hc => absurd hc Bool.false_ne_true

section Dm

variable {i : C2hDataIn} {dm : C2hData}

theorem wb_head (hvalid : dm.DP_WB_FIFO.valid) :
    ∃ rest, dm.DP_WB_FIFO.held C2hData.DP_WB_FIFO_DEPTH = C2hData.dp_wb_ff_pop_data dm :: rest := by
  obtain ⟨r, hr⟩ := Option.isSome_iff_exists.mp hvalid
  have hdata : C2hData.dp_wb_ff_pop_data dm = r := by
    rw [C2hData.dp_wb_ff_pop_data, RamFifoFt.pop_data, hr]
    rfl
  rw [hdata]
  exact RamFifoFt.held_head hr

theorem send_iff : C2hData.curr_desc_send_to_wb dm = true ↔ dm.DP_DATA_BRESP_FIFO ≠ [] ∧
    dm.DP_WB_FIFO.valid = true ∧
    (C2hData.dp_wb_ff_pop_data dm).num_bresp_minus1 ≤ dm.curr_desc_bresp_cnt := by
  unfold C2hData.curr_desc_send_to_wb C2hData.dp_bresp_ff_valid C2hData.dp_wb_ff_valid
  rw [Bool.and_eq_true, Bool.and_eq_true, Bool.not_eq_true', List.isEmpty_eq_false_iff,
    decide_eq_true_iff, and_assoc]

theorem wb_shown_step (hvalid : dm.DP_WB_FIFO.valid) (hpop : C2hData.dp_wb_ff_pop i dm = false) :
    (C2hData.step p i dm).DP_WB_FIFO.valid ∧
      C2hData.dp_wb_ff_pop_data (C2hData.step p i dm) = C2hData.dp_wb_ff_pop_data dm := by
  obtain ⟨r, hr⟩ := Option.isSome_iff_exists.mp hvalid
  have hft0 : (C2hData.step p i dm).DP_WB_FIFO.FT_FIFO.ft0 = some r := by
    change (FtFifo.step _ _ (C2hData.dp_wb_ff_pop i dm) dm.DP_WB_FIFO.FT_FIFO).ft0 = _
    rw [hpop]
    simp [FtFifo.step, FtFifo.nxt_ft0, hr]
  refine ⟨Option.isSome_iff_exists.mpr ⟨r, hft0⟩, ?_⟩
  rw [C2hData.dp_wb_ff_pop_data, C2hData.dp_wb_ff_pop_data, RamFifoFt.pop_data, RamFifoFt.pop_data,
    hft0, hr]

end Dm

theorem count_unshown (hpacked : ∀ n, (ins n).axis_buf_valid → Packed (ins n).axis_buf)
    (hafter : RespondsAfter p ins)
    (hvalid : ((circuit p).state ins n).SDE_C2H_DATA.DP_WB_FIFO.valid = false) :
    (b_in p ins n).length < waited (recs_out p ins n) + 2 ^ 32 ∧
    ∀ r rest, recs_in p ins (n + 1) = recs_out p ins n ++ r :: rest →
      (b_in p ins n).length ≤ waited (recs_out p ins n) + r.num_bresp_minus1 := by
  have hdelay := @wb_delay p ins n
  have hnone : ((circuit p).state ins n).SDE_C2H_DATA.DP_WB_FIFO.FT_FIFO.ft0 = none := by
    simpa [RamFifoFt.valid, FtFifo.ft_valid] using hvalid
  have hlen : (recs_in p ins (n - 2)).length = (recs_out p ins n).length :=
    Nat.le_antisymm (hdelay.starved hnone) ((Nat.le_add_right _ _).trans hdelay.flops)
  have hprefix : recs_in p ins (n - 2) <+: recs_in p ins n := Circuit.passed_prefix (Nat.sub_le _ _)
  have hsame : recs_in p ins (n - 2) = recs_out p ins n := by
    refine (List.prefix_of_prefix_length_le hprefix ?_ (Nat.le_of_eq hlen)).eq_of_length hlen
    rw [recs_eq]
    exact List.prefix_append _ _
  have hle := b_in_le hafter n
  constructor
  · have hall := finished_eq (p := p) hpacked (n - 2)
    rw [hsame] at hall
    by_cases hidle : ((circuit p).state ins (n - 2)).SDE_C2H_DATA.req_state = .REQ_IDLE
    · rw [if_pos hidle] at hall
      omega
    · have hlt := txns_left (p := p) hpacked (n - 2) hidle
      rw [if_neg hidle] at hall
      omega
  · intro r rest hrecs
    rw [← hsame] at hrecs ⊢
    exact hle.trans (finished_le_of_record hpacked (by omega) hrecs)

theorem b_out_next : (b_out p ins (n + 1)).length = (b_out p ins n).length +
    (C2hData.dp_bresp_ff_pop (data_in p (ins n) ((circuit p).state ins n))
      ((circuit p).state ins n).SDE_C2H_DATA).toNat := by
  change (b_out p ins n ++ C2hData.counted _ _).length = _
  rw [List.length_append, C2hData.counted]
  split
  case isTrue h => rw [h]; rfl
  case isFalse h => rw [Bool.not_eq_true] at h; rw [h]; rfl

/-! ### Without a grant nothing is reported -/

section NoGrant

variable (hno : (((circuit p).state ins n).SDE_C2H_DATA.dm_wb_md_req && (ins n).wb_dm_md_grant) = false)

include hno

theorem no_complete : C2hData.curr_desc_wb_complete (data_in p (ins n) ((circuit p).state ins n))
    ((circuit p).state ins n).SDE_C2H_DATA = false := by
  rw [C2hData.curr_desc_wb_complete, Bool.and_assoc]
  change (_ && (_ && (ins n).wb_dm_md_grant)) = false
  rw [hno, Bool.and_false]

theorem no_wb_pop : C2hData.dp_wb_ff_pop (data_in p (ins n) ((circuit p).state ins n))
    ((circuit p).state ins n).SDE_C2H_DATA = false := by
  rw [C2hData.dp_wb_ff_pop]
  change (_ && (ins n).wb_dm_md_grant && _) = false
  rw [hno, Bool.false_and]

theorem recs_out_kept : recs_out p ins (n + 1) = recs_out p ins n := by
  change recs_out p ins n ++ C2hData.released _ _ = _
  rw [C2hData.released, no_wb_pop hno, if_neg Bool.false_ne_true, List.append_nil]

theorem md_out_kept : md_out p ins (n + 1) = md_out p ins n := by
  change md_out p ins n ++ (if (_ && (ins n).wb_dm_md_grant) = true then _ else _) = _
  rw [hno, if_neg Bool.false_ne_true, List.append_nil]

theorem bresp_cnt_succ : ((circuit p).state ins (n + 1)).SDE_C2H_DATA.curr_desc_bresp_cnt =
    if C2hData.dp_bresp_ff_pop (data_in p (ins n) ((circuit p).state ins n))
      ((circuit p).state ins n).SDE_C2H_DATA then
      (((circuit p).state ins n).SDE_C2H_DATA.curr_desc_bresp_cnt + 1) % 2 ^ 32
    else ((circuit p).state ins n).SDE_C2H_DATA.curr_desc_bresp_cnt := by
  change (if _ then _ else _) = _
  rw [no_complete hno, if_neg Bool.false_ne_true]

end NoGrant

/-- The record is popped, and so is its last response. -/
theorem answered_grant (h : Answered p ins n)
    (hreq : ((circuit p).state ins n).SDE_C2H_DATA.dm_wb_md_req = true)
    (hgrant : (ins n).wb_dm_md_grant = true) : Answered p ins (n + 1) := by
  obtain ⟨hsend, hsend_q, hmd⟩ := h.asked hreq
  obtain ⟨-, hvalid, hnum⟩ := send_iff.mp hsend
  obtain ⟨rest, hheld⟩ := wb_head hvalid
  have hcnt := h.within _ _ hheld
  have hcomplete : C2hData.curr_desc_wb_complete (data_in p (ins n) ((circuit p).state ins n))
      ((circuit p).state ins n).SDE_C2H_DATA = true := by
    simp [C2hData.curr_desc_wb_complete, hsend, hsend_q, hreq, data_in, hgrant]
  have hzero : ((circuit p).state ins (n + 1)).SDE_C2H_DATA.curr_desc_bresp_cnt = 0 := if_pos hcomplete
  have hreleased : C2hData.released (data_in p (ins n) ((circuit p).state ins n))
      ((circuit p).state ins n).SDE_C2H_DATA =
        [C2hData.dp_wb_ff_pop_data ((circuit p).state ins n).SDE_C2H_DATA] := by
    apply if_pos
    simp [C2hData.dp_wb_ff_pop, hreq, data_in, hgrant, C2hData.dp_wb_ff_valid, hvalid]
  have hpop : C2hData.dp_bresp_ff_pop (data_in p (ins n) ((circuit p).state ins n))
      ((circuit p).state ins n).SDE_C2H_DATA = true := by
    rw [C2hData.dp_bresp_ff_pop, hsend, if_pos rfl, hcomplete]
  refine ⟨?_, ?_, fun _ _ _ => ?_, fun hc => ?_⟩
  · change md_out p ins n ++ C2hData.md_taken _ _ = (recs_out p ins n ++ C2hData.released _ _).map _
    rw [hreleased, List.map_append, h.out, C2hData.md_taken, hreq, hmd]
    change _ ++ fire true (ins n).wb_dm_md_grant _ = _
    rw [hgrant]
    rfl
  · change _ = waited (recs_out p ins n ++ C2hData.released _ _) + _
    have hcount := h.count
    rw [b_out_next, hpop, Bool.toNat_true, hreleased, waited_append, waited_single, hzero]
    omega
  · rw [hzero]
    exact Nat.zero_le _
  · have hno : ((circuit p).state ins (n + 1)).SDE_C2H_DATA.dm_wb_md_req = false := by
      apply if_pos
      rw [hreq]
      exact hgrant
    rw [hno] at hc
    cases hc

/-- All responses of the record are there, but it is not granted: the last one stays. -/
theorem answered_held (h : Answered p ins n)
    (hsend : C2hData.curr_desc_send_to_wb ((circuit p).state ins n).SDE_C2H_DATA = true)
    (hno : (((circuit p).state ins n).SDE_C2H_DATA.dm_wb_md_req && (ins n).wb_dm_md_grant) = false) :
    Answered p ins (n + 1) := by
  obtain ⟨hresp, hvalid, hnum⟩ := send_iff.mp hsend
  obtain ⟨rest, hheld⟩ := wb_head hvalid
  have hpop : C2hData.dp_bresp_ff_pop (data_in p (ins n) ((circuit p).state ins n))
      ((circuit p).state ins n).SDE_C2H_DATA = false := by
    rw [C2hData.dp_bresp_ff_pop, hsend, if_pos rfl, no_complete hno]
  have hcnt := bresp_cnt_succ hno
  rw [hpop, if_neg Bool.false_ne_true] at hcnt
  obtain ⟨hvalid', hdata'⟩ := wb_shown_step (p := p) hvalid (no_wb_pop hno)
  obtain ⟨rest', hheld'⟩ := wb_head hvalid'
  refine ⟨?_, ?_, ?_, fun _ => ⟨?_, hsend, ?_⟩⟩
  · rw [md_out_kept hno, recs_out_kept hno, h.out]
  · rw [b_out_next, hpop, Bool.toNat_false, recs_out_kept hno, hcnt, h.count, Nat.add_zero]
  · intro r rest'' hr
    obtain ⟨hhead, -⟩ := List.cons.inj (hheld'.symm.trans hr)
    rw [← hhead, hcnt, hdata']
    exact h.within _ _ hheld
  · refine send_iff.mpr ⟨?_, hvalid', ?_⟩
    · have hstep := bresp_step (p := p) (i := data_in p (ins n) ((circuit p).state ins n))
        (@bresp_length p ins n)
      rw [C2hData.counted, hpop, if_neg Bool.false_ne_true, List.nil_append] at hstep
      change (C2hData.step p (data_in p (ins n) ((circuit p).state ins n)) _).DP_DATA_BRESP_FIFO ≠ []
      rw [← hstep]
      exact List.append_ne_nil_of_left_ne_nil hresp _
    · change (C2hData.dp_wb_ff_pop_data (C2hData.step p _ _)).num_bresp_minus1 ≤ _
      rw [hdata', hcnt]
      exact hnum
  · exact congrArg C2hWbRec.md hdata'.symm

theorem b_out_succ_le : (b_out p ins (n + 1)).length ≤ (b_in p ins n).length := by
  have hb := congrArg List.length (@b_eq p ins n)
  rw [List.length_append] at hb
  rw [b_out_next]
  cases hpop : C2hData.dp_bresp_ff_pop (data_in p (ins n) ((circuit p).state ins n))
      ((circuit p).state ins n).SDE_C2H_DATA with
  | false =>
    rw [Bool.toNat_false]
    omega
  | true =>
    have hsome := List.length_pos_iff.mpr (bresp_nonempty hpop)
    rw [Bool.toNat_true]
    omega

/-- The counter does not wrap, and does not go over what the oldest record waits for. -/
theorem Answered.bound (hpacked : ∀ n, (ins n).axis_buf_valid → Packed (ins n).axis_buf)
    (hafter : RespondsAfter p ins) (h : Answered p ins n)
    (hsend : C2hData.curr_desc_send_to_wb ((circuit p).state ins n).SDE_C2H_DATA = false) :
    (b_out p ins (n + 1)).length < waited (recs_out p ins n) + 2 ^ 32 ∧
    ∀ r rest, recs_in p ins (n + 1) = recs_out p ins n ++ r :: rest →
      (b_out p ins (n + 1)).length ≤ waited (recs_out p ins n) + r.num_bresp_minus1 := by
  cases hvalid : ((circuit p).state ins n).SDE_C2H_DATA.DP_WB_FIFO.valid with
  | false =>
    obtain ⟨hlt, hrec⟩ := count_unshown hpacked hafter hvalid
    exact ⟨b_out_succ_le.trans_lt hlt, fun r rest hr => b_out_succ_le.trans (hrec r rest hr)⟩
  | true =>
    obtain ⟨rest, hheld⟩ := wb_head hvalid
    have hrecs := @recs_eq p ins n
    rw [hheld] at hrecs
    have hsmall := num_bresp_lt (p := p) hpacked n
      (C2hData.dp_wb_ff_pop_data ((circuit p).state ins n).SDE_C2H_DATA) (by rw [hrecs]; simp)
    have hle : (b_out p ins (n + 1)).length ≤ waited (recs_out p ins n) +
        (C2hData.dp_wb_ff_pop_data ((circuit p).state ins n).SDE_C2H_DATA).num_bresp_minus1 := by
      have hcount := h.count
      have hcnt := h.within _ _ hheld
      rw [b_out_next]
      cases hpop : C2hData.dp_bresp_ff_pop (data_in p (ins n) ((circuit p).state ins n))
          ((circuit p).state ins n).SDE_C2H_DATA with
      | false =>
        rw [Bool.toNat_false]
        omega
      | true =>
        have hlt : ((circuit p).state ins n).SDE_C2H_DATA.curr_desc_bresp_cnt <
            (C2hData.dp_wb_ff_pop_data ((circuit p).state ins n).SDE_C2H_DATA).num_bresp_minus1 := by
          by_contra hge
          rw [send_iff.mpr ⟨bresp_nonempty hpop, hvalid, Nat.le_of_not_lt hge⟩] at hsend
          cases hsend
        rw [Bool.toNat_true]
        omega
    refine ⟨by omega, fun r rest' hr => ?_⟩
    rw [recs_in_succ, hrecs, List.append_assoc] at hr
    obtain ⟨rfl, -⟩ := List.cons.inj (List.append_cancel_left hr)
    exact hle

theorem answered_wait (hpacked : ∀ n, (ins n).axis_buf_valid → Packed (ins n).axis_buf)
    (hafter : RespondsAfter p ins) (h : Answered p ins n)
    (hsend : C2hData.curr_desc_send_to_wb ((circuit p).state ins n).SDE_C2H_DATA = false) :
    Answered p ins (n + 1) := by
  have hreq : ((circuit p).state ins n).SDE_C2H_DATA.dm_wb_md_req = false := by
    by_contra hreq
    rw [Bool.not_eq_false] at hreq
    rw [(h.asked hreq).1] at hsend
    cases hsend
  have hno : (((circuit p).state ins n).SDE_C2H_DATA.dm_wb_md_req && (ins n).wb_dm_md_grant) = false := by
    rw [hreq, Bool.false_and]
  obtain ⟨hlt, hrec⟩ := h.bound hpacked hafter hsend
  have hcnt : (b_out p ins (n + 1)).length = waited (recs_out p ins n) +
      ((circuit p).state ins (n + 1)).SDE_C2H_DATA.curr_desc_bresp_cnt := by
    have hcount := h.count
    rw [b_out_next] at hlt ⊢
    rw [bresp_cnt_succ hno]
    cases hpop : C2hData.dp_bresp_ff_pop (data_in p (ins n) ((circuit p).state ins n))
        ((circuit p).state ins n).SDE_C2H_DATA with
    | false => exact hcount
    | true =>
      rw [hpop, Bool.toNat_true] at hlt
      rw [if_pos rfl, Bool.toNat_true, Nat.mod_eq_of_lt (by omega)]
      omega
  refine ⟨by rw [md_out_kept hno, recs_out_kept hno, h.out], by rw [hcnt, recs_out_kept hno], ?_,
    fun hc => ?_⟩
  · intro r rest hr
    have hrecs := @recs_eq p ins (n + 1)
    rw [hr, recs_out_kept hno] at hrecs
    have hle := hrec r rest hrecs
    omega
  · have hnext : ((circuit p).state ins (n + 1)).SDE_C2H_DATA.dm_wb_md_req = false := by
      change (if _ then _ else if _ then _ else _) = _
      rw [hreq, Bool.false_and, if_neg Bool.false_ne_true, hsend, if_neg Bool.false_ne_true]
    rw [hnext] at hc
    cases hc

theorem answered_state (hpacked : ∀ n, (ins n).axis_buf_valid → Packed (ins n).axis_buf)
    (hafter : RespondsAfter p ins) (n : Nat) : Answered p ins n := by
  induction n with
  | zero => exact answered_zero
  | succ n ih =>
    cases hsend : C2hData.curr_desc_send_to_wb ((circuit p).state ins n).SDE_C2H_DATA with
    | false => exact answered_wait hpacked hafter ih hsend
    | true =>
      cases hgo : ((circuit p).state ins n).SDE_C2H_DATA.dm_wb_md_req && (ins n).wb_dm_md_grant with
      | false => exact answered_held ih hsend hgo
      | true =>
        rw [Bool.and_eq_true] at hgo
        exact answered_grant ih hgo.1 hgo.2

/-- The metadata that was taken or is shown is that of the oldest records, and the responses that they wait
for came. -/
theorem Answered.asked_recs (h : Answered p ins n) : ∃ recs, recs <+: recs_in p ins n ∧
    md_out p ins n ++ md_shown p ins n = recs.map C2hWbRec.md ∧
    waited recs ≤ (b_in p ins n).length := by
  have hrecs := @recs_eq p ins n
  have hb := congrArg List.length (@b_eq p ins n)
  rw [List.length_append, h.count] at hb
  cases hreq : ((circuit p).state ins n).SDE_C2H_DATA.dm_wb_md_req with
  | false =>
    refine ⟨recs_out p ins n, ?_, ?_, by omega⟩
    · rw [hrecs]
      exact List.prefix_append _ _
    · rw [md_shown, hreq, shown_false, List.append_nil, h.out]
  | true =>
    obtain ⟨hsend, -, hmd⟩ := h.asked hreq
    obtain ⟨hresp, hvalid, hnum⟩ := send_iff.mp hsend
    obtain ⟨rest, hheld⟩ := wb_head hvalid
    have hpos := List.length_pos_iff.mpr hresp
    refine ⟨recs_out p ins n ++
      [C2hData.dp_wb_ff_pop_data ((circuit p).state ins n).SDE_C2H_DATA], ?_, ?_, ?_⟩
    · rw [hrecs, hheld]
      exact (List.prefix_append_right_inj _).mpr (List.prefix_append [_] rest)
    · rw [md_shown, hreq, shown_true, hmd, h.out, List.map_append]
      rfl
    · rw [waited_append, waited_single]
      omega

theorem counted_state (hpacked : ∀ n, (ins n).axis_buf_valid → Packed (ins n).axis_buf) (n : Nat) :
    descs_counted p ins n = (descs_written p ins n).length := by
  have hlen := (kept_state (p := p) hpacked n).mds.length_eq
  rw [List.length_map] at hlen
  rw [descs_counted_eq hpacked, hlen]

theorem metadata_state (hpacked : ∀ n, (ins n).axis_buf_valid → Packed (ins n).axis_buf)
    (hafter : RespondsAfter p ins) (n : Nat) :
    ∃ mds, Mds (beats_in p ins n) 0 (descs_written p ins n) mds ∧
      md_out p ins n ++ md_shown p ins n <+: mds := by
  obtain ⟨recs, hprefix, hmd, -⟩ := (answered_state (p := p) hpacked hafter n).asked_recs
  refine ⟨_, (kept_state (p := p) hpacked n).mds, ?_⟩
  rw [hmd]
  exact hprefix.map _

theorem responses_state (hpacked : ∀ n, (ins n).axis_buf_valid → Packed (ins n).axis_buf)
    (hafter : RespondsAfter p ins) (n : Nat) :
    ((bursts_done p ins n).take (md_out p ins n ++ md_shown p ins n).length).flatten.length ≤
      (b_in p ins n).length := by
  obtain ⟨recs, ⟨more, hmore⟩, hmd, hwaited⟩ := (answered_state (p := p) hpacked hafter n).asked_recs
  have hnum := (kept_state (p := p) hpacked n).num_bresp
  rw [← hmore, List.map_append] at hnum
  rw [hmd, List.length_map, List.length_flatten, List.map_take, ← hnum,
    List.take_left' (List.length_map _)]
  exact hwaited

end Runs

/-- In every run in which the packets come in as they should, each descriptor has a byte and a response
comes behind the last beat of its burst, each descriptor is counted once and its metadata is asked for
once, in order, and only when all its bursts have their responses. -/
theorem metadata_complete (p : C2hDataParams) (ins : Nat → C2hIn)
    (hpacked : ∀ n, (ins n).axis_buf_valid → Packed (ins n).axis_buf)
    (hbyte : ∀ n, HasByte (ins n)) (hafter : RespondsAfter p ins) (n : Nat) : Completed p ins n where
  counted := counted_state hpacked n
  metadata := metadata_state hpacked hafter n
  answered := by
    have hsome := writes_some (p := p) hpacked hbyte n
    rw [writes_split] at hsome
    exact ⟨_, _, writes_split n,
      (progress_here hpacked n).chain.tiled fun b hb => hsome b (List.mem_append_left _ hb),
      responses_state hpacked hafter n⟩

/-- The run of `at_boundary`, with a response for each of the two bursts. -/
def responding (n : Nat) : C2hIn :=
  { at_boundary n with pm_dm_bvalid := n = 12 || n = 21, wb_dm_md_grant := true }

theorem responding_after : RespondsAfter default_params responding := by
  intro n hvalid
  have hn : n = 12 ∨ n = 21 := by simpa [responding] using hvalid
  rcases hn with rfl | rfl <;> decide +kernel

theorem responding_complete :
    (∀ n, Completed default_params responding n) ∧
    md_out default_params responding 25 = [⟨true, 3, 5⟩] := by
  refine ⟨fun n => metadata_complete default_params responding at_boundary_packed (fun _ _ => ?_)
    responding_after n, ?_⟩
  · change (100 : BitVec 32) ≠ 0
    decide
  · decide +kernel

end C2h

end AwsFpga.Rtl
