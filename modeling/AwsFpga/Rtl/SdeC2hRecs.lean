import AwsFpga.Rtl.SdeC2hWrites

/-!
# The records of the C2H data mover (`sde_c2h_data.sv`)

Behind the last beat of a descriptor its record goes into a FIFO: how many bytes it got, whether a
packet ends with it, and how many responses there will be.
-/

open Lib Lib.Axi

namespace AwsFpga.Rtl

namespace C2hWbRec

/-- What is written back of a record. -/
def md (r : C2hWbRec) : C2hMd := ⟨r.eop, r.num_bytes, r.user⟩

/-- How many responses it waits for. -/
def num_bresp (r : C2hWbRec) : Nat := r.num_bresp_minus1 + 1

end C2hWbRec

/-- The record that is kept of the descriptor that is done. -/
def C2hData.recorded (s : C2hData) : List C2hWbRec :=
  if C2hData.dp_wb_ff_push s then [C2hData.dp_wb_ff_push_data s] else []

namespace C2h

open C2hBuf (BUF_SIZE_BYTES bytes Packed unread row_up)
open C2hData (Flow Serves Empty)

/-! ## What is expected of the metadata -/

/-- The packet ends with the descriptor. -/
def packet_ends (beats : List AxisBeat) (pos len : Nat) : Bool :=
  (beats.drop (pos / PCIM_DATA_WIDTH_BYTES)).any AxisBeat.last &&
    decide (unread (beats.drop (pos / PCIM_DATA_WIDTH_BYTES)) (pos % PCIM_DATA_WIDTH_BYTES) ≤ len)

/-- The metadata of a descriptor that starts at a place. Only where a packet ends the user bits matter,
and they are those of its last beat. -/
structure MdOf (beats : List AxisBeat) (pos : Nat) (d : C2hIfDesc) (md : C2hMd) : Prop where
  len : md.len = desc_bytes beats pos d.len.toNat
  eop : md.eop = packet_ends beats pos d.len.toNat
  user : md.eop → ((beats.drop (pos / PCIM_DATA_WIDTH_BYTES)).find? AxisBeat.last).map AxisBeat.user =
    some md.user

/-- The metadata of the descriptors one after another. -/
def Mds (beats : List AxisBeat) : (pos : Nat) → List C2hIfDesc → List C2hMd → Prop
  | _, [], [] => True
  | pos, d :: ds, md :: mds =>
    MdOf beats pos d md ∧ Mds beats (desc_end beats pos d.len.toNat) ds mds
  | _, _, _ => False

section Md

variable {beats new : List AxisBeat} {pos r e len sent next : Nat} {ds : List C2hIfDesc}
  {mds : List C2hMd} {d : C2hIfDesc} {md : C2hMd}

theorem Mds.concat (h : Mds beats pos ds mds)
    (hmd : MdOf beats (ds.foldl (fun pos d => desc_end beats pos d.len.toNat) pos) d md) :
    Mds beats pos (ds ++ [d]) (mds ++ [md]) := by
  induction ds generalizing pos mds with
  | nil =>
    cases mds with
    | nil => exact ⟨hmd, trivial⟩
    | cons _ _ => exact h.elim
  | cons d' ds ih =>
    cases mds with
    | nil => exact h.elim
    | cons md' mds => exact ⟨h.1, ih h.2 hmd⟩

theorem Mds.length_eq (h : Mds beats pos ds mds) : mds.length = ds.length := by
  induction ds generalizing pos mds with
  | nil =>
    cases mds with
    | nil => rfl
    | cons _ _ => exact h.elim
  | cons d' ds ih =>
    cases mds with
    | nil => exact h.elim
    | cons md' mds => rw [List.length_cons, List.length_cons, ih h.2]

theorem Got.ends_iff (h : Got beats pos len sent next) :
    packet_ends beats pos len = true ↔ 0 < sent ∧ EndsAt beats (pos + sent) := by
  unfold packet_ends
  cases hany : (beats.drop (pos / PCIM_DATA_WIDTH_BYTES)).any AxisBeat.last with
  | true =>
    obtain ⟨hend, hlt, hfirst⟩ := first_end h.packed h.on_byte hany
    have hsent := h.unbroken _ hend hlt
    rw [Bool.true_and, decide_eq_true_iff]
    constructor
    · intro hle
      rcases h.done with ⟨hends, -⟩ | ⟨-, rfl, -⟩
      · exact hends
      · have heq : pos + unread (beats.drop (pos / PCIM_DATA_WIDTH_BYTES))
            (pos % PCIM_DATA_WIDTH_BYTES) = pos + sent := by omega
        rw [heq] at hend
        exact ⟨by omega, hend⟩
    · rintro ⟨hpos, hends⟩
      have hback := hfirst _ hends (by omega)
      have hle := h.le
      omega
  | false =>
    rw [Bool.false_and]
    refine ⟨fun hc => Bool.noConfusion hc, fun ⟨hpos, hends⟩ => ?_⟩
    have hbehind := no_end_behind hany hends
    omega

theorem next_end_from (hon : OnByte beats pos) (hunbroken : Unbroken beats pos e) (hle : pos ≤ r)
    (hlt : r < e) : (beats.drop (pos / PCIM_DATA_WIDTH_BYTES)).find? AxisBeat.last =
      (beats.drop (r / PCIM_DATA_WIDTH_BYTES)).find? AxisBeat.last := by
  obtain ⟨k, hk⟩ := Nat.exists_eq_add_of_le (Nat.div_le_div_right (c := PCIM_DATA_WIDTH_BYTES) hle)
  have hnone : ((beats.drop (pos / PCIM_DATA_WIDTH_BYTES)).take k).find? AxisBeat.last = none := by
    rw [List.find?_eq_none]
    intro b hb hlast
    obtain ⟨j, hj⟩ := List.mem_iff_getElem?.mp hb
    have hjk : j < k := by
      have hlen := (List.getElem?_eq_some_iff.mp hj).1
      rw [List.length_take] at hlen
      omega
    rw [List.getElem?_take_of_lt hjk, List.getElem?_drop] at hj
    have hbytes := C2hBuf.bytes_le b
    have hend : EndsAt beats
        (PCIM_DATA_WIDTH_BYTES * (pos / PCIM_DATA_WIDTH_BYTES + j) + bytes b) := ⟨_, b, hj, hlast, rfl⟩
    have hrow : PCIM_DATA_WIDTH_BYTES * (pos / PCIM_DATA_WIDTH_BYTES + j) + bytes b ≤ r := by
      rw [width_val] at *
      omega
    rcases Nat.lt_or_ge pos (PCIM_DATA_WIDTH_BYTES * (pos / PCIM_DATA_WIDTH_BYTES + j) + bytes b) with
      hbehind | hbefore
    · have hfirst := hunbroken _ hend hbehind
      omega
    · -- The place would stand behind the bytes of its beat.
      have hsplit := Nat.div_add_mod pos PCIM_DATA_WIDTH_BYTES
      have hzero : j = 0 := by
        rw [width_val] at *
        omega
      rw [hzero, Nat.add_zero] at hj hbefore
      have hbyte := hon b hj
      omega
  conv => lhs; rw [← List.take_append_drop k (beats.drop (pos / PCIM_DATA_WIDTH_BYTES))]
  rw [List.find?_append, hnone, List.drop_drop, ← hk]
  rfl

theorem find_append {b : AxisBeat} {k : Nat} (hk : k ≤ beats.length)
    (h : (beats.drop k).find? AxisBeat.last = some b) :
    ((beats ++ new).drop k).find? AxisBeat.last = some b := by
  rw [List.drop_append_of_le_length hk, List.find?_append, h]
  rfl

theorem MdOf.append (h : MdOf beats pos d md) (hgot : Got beats pos d.len.toNat sent next)
    (hpacked : ∀ b ∈ new, Packed b) : MdOf (beats ++ new) pos d md where
  len := by rw [h.len, (hgot.append hpacked).eq.1, hgot.eq.1]
  eop := by
    rw [h.eop, Bool.eq_iff_iff, hgot.ends_iff, (hgot.append hpacked).ends_iff,
      endsAt_append_iff hpacked hgot.fits]
  user heop := by
    have huser := h.user heop
    obtain ⟨b, hb, hu⟩ := Option.map_eq_some_iff.mp huser
    have hfits := hgot.fits
    have hrow : pos / PCIM_DATA_WIDTH_BYTES ≤ beats.length := by
      rw [width_val] at *
      omega
    rw [find_append hrow hb, Option.map_some, hu]

theorem Mds.of_concat (h : Mds beats pos (ds ++ [d]) mds) :
    ∃ mds' md, mds = mds' ++ [md] ∧ Mds beats pos ds mds' ∧
      MdOf beats (ds.foldl (fun pos d => desc_end beats pos d.len.toNat) pos) d md := by
  induction ds generalizing pos mds with
  | nil =>
    cases mds with
    | nil => exact h.elim
    | cons md mds =>
      cases mds with
      | nil => exact ⟨[], md, rfl, trivial, h.1⟩
      | cons _ _ => exact h.2.elim
  | cons d' ds ih =>
    cases mds with
    | nil => exact h.elim
    | cons md' mds =>
      obtain ⟨mds', md, rfl, hmds, hmd⟩ := ih h.2
      exact ⟨md' :: mds', md, rfl, ⟨h.1, hmds⟩, hmd⟩

theorem Chain.mds_append {p : C2hDataParams} {bss : List (List (Burst 64))}
    (h : Chain p beats ds bss pos) (hmds : Mds beats 0 ds mds) (hpacked : ∀ b ∈ new, Packed b) :
    Mds (beats ++ new) 0 ds mds := by
  induction h generalizing mds with
  | nil =>
    cases mds with
    | nil => trivial
    | cons _ _ => exact hmds.elim
  | snoc before got tiles good ih =>
    obtain ⟨mds', md, rfl, hmds, hmd⟩ := hmds.of_concat
    rw [before.place] at hmd
    refine (ih hmds).concat ?_
    rw [(before.append hpacked).place]
    exact hmd.append got hpacked

end Md

/-! ## Whole runs -/

section Runs

variable (p : C2hDataParams) (ins : Nat → C2hIn)

/-- The records that went into the FIFO before cycle `n`. -/
def recs_in (n : Nat) : List C2hWbRec :=
  (circuit p).passed ins (fun _ s => C2hData.recorded s.SDE_C2H_DATA) n

/-- How often `dm_desc_cnt_inc` was set before cycle `n`. -/
def descs_counted (n : Nat) : Nat := ((circuit p).passed ins
  (fun _ s => if C2hData.dm_desc_cnt_inc s.SDE_C2H_DATA then [()] else []) n).length

variable {p ins} {n : Nat}

theorem recs_in_succ : recs_in p ins (n + 1) = recs_in p ins n ++
    C2hData.recorded ((circuit p).state ins n).SDE_C2H_DATA := rfl

/-! ### There is room for a record -/

section Room

variable {i : C2hDataIn} {dm : C2hData}

theorem no_record (hdone : C2hData.data_tx_done dm = false) : C2hData.dp_wb_ff_push dm = false := by
  simp [C2hData.dp_wb_ff_push, C2hData.data_desc_done, hdone]

theorem wb_not_full (hpush : C2hData.dp_wb_ff_push dm) :
    dm.DP_WB_FIFO.fifo_full C2hData.DP_WB_FIFO_DEPTH = false := by
  have hroom : C2hData.dp_wb_ff_full dm = false := by
    simp only [C2hData.dp_wb_ff_push, Bool.and_eq_true, Bool.not_eq_true'] at hpush
    exact hpush.2
  unfold C2hData.dp_wb_ff_full RamFifoFt.wmark at hroom
  unfold RamFifoFt.fifo_full
  have hle := of_decide_eq_false hroom
  have hdepth : C2hData.DP_WB_FIFO_DEPTH = 32 := rfl
  exact decide_eq_false (by omega)

theorem wb_valid_of_pop (hpop : C2hData.dp_wb_ff_pop i dm) : dm.DP_WB_FIFO.valid := by
  simp only [C2hData.dp_wb_ff_pop, Bool.and_eq_true] at hpop
  exact hpop.2

theorem wb_ok (n : Nat) :
    ((circuit p).state ins n).SDE_C2H_DATA.DP_WB_FIFO.Ok C2hData.DP_WB_FIFO_DEPTH := by
  refine Circuit.inv_state (P := fun s : C2h => s.SDE_C2H_DATA.DP_WB_FIFO.Ok C2hData.DP_WB_FIFO_DEPTH)
    (m := fun _ _ => True) (RamFifoFt.ok_start (by decide)) ?_ (fun _ => trivial) n
  intro i s _ hok
  exact RamFifoFt.ok_step hok wb_not_full (wb_valid_of_pop (i := data_in p i s))

theorem wb_room (hpacked : ∀ n, (ins n).axis_buf_valid → Packed (ins n).axis_buf) (n : Nat) :
    ((circuit p).state ins n).SDE_C2H_DATA.req_state = .REQ_ADDR ∨
      ((circuit p).state ins n).SDE_C2H_DATA.req_state = .REQ_DATA →
    C2hData.dp_wb_ff_full ((circuit p).state ins n).SDE_C2H_DATA = false := by
  induction n with
  | zero => exact fun hc => by rcases hc with hc | hc <;> cases hc
  | succ n ih =>
    intro hnext
    obtain ⟨bqq, rp, r, hlinked, hphase⟩ := holds_state (p := p) hpacked n
    have hnext' : C2hData.req_state_next (data_in p (ins n) ((circuit p).state ins n))
          ((circuit p).state ins n).SDE_C2H_DATA = .REQ_ADDR ∨
        C2hData.req_state_next (data_in p (ins n) ((circuit p).state ins n))
          ((circuit p).state ins n).SDE_C2H_DATA = .REQ_DATA := hnext
    have hdone : C2hData.data_tx_done ((circuit p).state ins n).SDE_C2H_DATA = false := by
      by_contra hdone
      rw [Bool.not_eq_false] at hdone
      have hpush := hdone
      rw [C2hData.data_tx_done, Bool.and_eq_true] at hpush
      obtain ⟨-, -, hstate, -⟩ := hphase.of_push hpush.1
      rw [C2hData.req_state_next, hstate] at hnext'
      simp only [hdone, Bool.true_and, if_true] at hnext'
      split at hnext' <;> rcases hnext' with hc | hc <;> cases hc
    have hroom : C2hData.dp_wb_ff_full ((circuit p).state ins n).SDE_C2H_DATA = false := by
      cases hstate : ((circuit p).state ins n).SDE_C2H_DATA.req_state with
      | REQ_ADDR => exact ih (.inl hstate)
      | REQ_DATA => exact ih (.inr hstate)
      | REQ_WAIT_DATA =>
        by_contra hfull
        rw [Bool.not_eq_false] at hfull
        rw [C2hData.req_state_next, hstate] at hnext'
        simp [hfull] at hnext'
      | REQ_IDLE =>
        rw [C2hData.req_state_next, hstate] at hnext'
        dsimp only at hnext'
        split at hnext' <;> rcases hnext' with hc | hc <;> cases hc
      | REQ_GET_DESC =>
        rw [C2hData.req_state_next, hstate] at hnext'
        rcases hnext' with hc | hc <;> cases hc
      | REQ_WAIT_CALC =>
        rw [C2hData.req_state_next, hstate] at hnext'
        rcases hnext' with hc | hc <;> cases hc
    -- Nothing is recorded, so the FIFO is not fuller than before.
    have hle := RamFifoFt.ptr_diff_step
      (C2hData.dp_wb_ff_push_data ((circuit p).state ins n).SDE_C2H_DATA)
      (C2hData.dp_wb_ff_pop (data_in p (ins n) ((circuit p).state ins n))
        ((circuit p).state ins n).SDE_C2H_DATA)
      (@wb_ok p ins n) (@wb_not_full ((circuit p).state ins n).SDE_C2H_DATA)
    rw [no_record hdone, Bool.toNat_false] at hle
    have hnow := of_decide_eq_false hroom
    apply decide_eq_false
    change ¬_ < RamFifoFt.ptr_diff _ (RamFifoFt.step _ _ _ _ _)
    rw [no_record hdone]
    omega

theorem state_of_record (hpacked : ∀ n, (ins n).axis_buf_valid → Packed (ins n).axis_buf)
    (hpush : C2hData.dp_wb_ff_push ((circuit p).state ins n).SDE_C2H_DATA = true) :
    ((circuit p).state ins n).SDE_C2H_DATA.req_state = .REQ_DATA := by
  rw [C2hData.dp_wb_ff_push, C2hData.data_desc_done, C2hData.data_tx_done] at hpush
  simp only [Bool.and_eq_true] at hpush
  obtain ⟨bqq, rp, r, -, hphase⟩ := holds_state (p := p) hpacked n
  obtain ⟨-, -, hstate, -⟩ := hphase.of_push (by
    rw [C2hData.dp_data_out_ff_push, Bool.and_eq_true]
    exact hpush.1.1.1)
  exact hstate

theorem record_of_done (hpacked : ∀ n, (ins n).axis_buf_valid → Packed (ins n).axis_buf) (n : Nat) :
    C2hData.dp_wb_ff_push ((circuit p).state ins n).SDE_C2H_DATA =
      C2hData.data_desc_done ((circuit p).state ins n).SDE_C2H_DATA := by
  cases hdesc : C2hData.data_desc_done ((circuit p).state ins n).SDE_C2H_DATA with
  | false => rw [C2hData.dp_wb_ff_push, hdesc, Bool.false_and]
  | true =>
    have hpush := hdesc
    rw [C2hData.data_desc_done, C2hData.data_tx_done, Bool.and_eq_true, Bool.and_eq_true] at hpush
    obtain ⟨bqq, rp, r, hlinked, hphase⟩ := holds_state (p := p) hpacked n
    obtain ⟨-, -, hstate, -⟩ := hphase.of_push hpush.1.1
    rw [C2hData.dp_wb_ff_push, hdesc, wb_room hpacked n (.inr hstate)]
    rfl

theorem descs_counted_eq (hpacked : ∀ n, (ins n).axis_buf_valid → Packed (ins n).axis_buf) (n : Nat) : descs_counted p ins n = (recs_in p ins n).length := by
  induction n with
  | zero => rfl
  | succ n ih =>
    unfold descs_counted at ih ⊢
    rw [Circuit.passed_succ, List.length_append, ih, recs_in_succ, List.length_append,
      C2hData.recorded, record_of_done hpacked n, C2hData.dm_desc_cnt_inc]
    split <;> rfl

end Room

/-! ### What the records say -/

theorem not_done_of_push {rows rp r : Nat} (hphase : Phase p ((circuit p).state ins n) (beats_in p ins n)
      rows rp r (place p ins n))
    (hpush : ((circuit p).state ins (n + 1)).SDE_C2H_DATA.pl5_dp.valid = true) :
    C2hData.data_tx_done ((circuit p).state ins n).SDE_C2H_DATA = false := by
  by_contra hdone
  rw [Bool.not_eq_false] at hdone
  have hgone := hdone
  rw [C2hData.data_tx_done, Bool.and_eq_true] at hgone
  obtain ⟨q, c, state, flow, started, -, -, serves, -⟩ := hphase.of_push hgone.1
  have hempty : Empty ((circuit p).state ins (n + 1)).SDE_C2H_DATA :=
    C2hData.empty_of_done state started hdone
  rw [hempty.pl5] at hpush
  cases hpush

/-- The end that is shown behind the bytes that were read is the first one of the descriptor. -/
theorem find_of_shown {d : C2hIfDesc} {bqq : List AxisBeat} {rp r x : Nat}
    (hlinked : Linked p ((circuit p).state ins n) (beats_in p ins n) (beats_in p ins (n - 1)) bqq rp r
      (place p ins n))
    (hcur : Current p (beats_in p ins n) (start_place p ins n) (place p ins n) d
      ((circuit p).state ins n).SDE_C2H_DATA (bursts_started p ins n))
    (hunbroken : Unbroken (beats_in p ins n) (start_place p ins n) x) (hbefore : place p ins n ≤ r)
    (hlt : r < x) (hshown : C2hBuf.buf_dm_aux_valid ((circuit p).state ins n).SDE_C2H_BUF = true) :
    (((beats_in p ins n).drop (start_place p ins n / PCIM_DATA_WIDTH_BYTES)).find? AxisBeat.last).map
      AxisBeat.user = some (C2hBuf.buf_dm_aux_data ((circuit p).state ins n).SDE_C2H_BUF).user := by
  obtain ⟨pre, b, post, hdrop, hpre, hlast, -, hdata⟩ :=
    C2hBuf.end_of_valid hlinked.track hlinked.delay hshown
  have hnone : pre.find? AxisBeat.last = none := by
    rw [List.find?_eq_none]
    intro x hx
    rw [hpre x hx]
    exact Bool.false_ne_true
  have hle := hcur.le
  rw [next_end_from (r := r) hcur.on_byte hunbroken (by omega) hlt, hdrop, List.find?_append, hnone,
    List.find?_cons_of_pos hlast, hdata]
  rfl

/-- The user bits that are there with the last byte of a packet are those of its last beat. -/
theorem user_of_done (hpacked : ∀ n, (ins n).axis_buf_valid → Packed (ins n).axis_buf)
    (hsome : 0 < ((circuit p).state ins n).SDE_C2H_DATA.curr_txn.num_bytes)
    (hpush : C2hData.dp_data_out_ff_push ((circuit p).state ins n).SDE_C2H_DATA = true)
    (hvalid : ((circuit p).state ins n).SDE_C2H_DATA.buf_dm_aux_valid_q = true) :
    (((beats_in p ins n).drop (start_place p ins n / PCIM_DATA_WIDTH_BYTES)).find? AxisBeat.last).map
      AxisBeat.user = some ((circuit p).state ins n).SDE_C2H_DATA.buf_dm_aux_data_q.user := by
  rw [C2hData.dp_data_out_ff_push, Bool.and_eq_true] at hpush
  cases n with
  | zero => exact absurd hpush.1 Bool.false_ne_true
  | succ n =>
    obtain ⟨bqq, rp, r, hlinked, hphase⟩ := holds_state (p := p) hpacked n
    have hnew : ∀ b ∈ accepted (ins n) ((circuit p).state ins n), Packed b := fun b hb =>
      C2hBuf.packed_step (i := buf_in (ins n) ((circuit p).state ins n)) hlinked.track (hpacked n) b
        (List.mem_append_right _ hb)
    have h := progress_here (p := p) hpacked n
    have h' := progress_here (p := p) hpacked (n + 1)
    have hdone := not_done_of_push hphase hpush.1
    have hempty (empty : Empty ((circuit p).state ins n).SDE_C2H_DATA) : False := by
      have hpl5 : ((circuit p).state ins (n + 1)).SDE_C2H_DATA.pl5_dp.valid = false :=
        (empty.stages (p := p) (i := data_in p (ins n) ((circuit p).state ins n))).2.2.2.2.2.2
      rw [hpl5] at hpush
      exact absurd hpush.1 Bool.false_ne_true
    cases hphase with
    | idle state empty => exact (hempty empty).elim
    | next state empty => exact (hempty empty).elim
    | wait state empty => exact (hempty empty).elim
    | addr q state empty => exact (hempty empty).elim
    | load q state empty => exact (hempty empty).elim
    | data q c state flow loaded here before serves chosen rdata =>
      have hbusy : ((circuit p).state ins n).SDE_C2H_DATA.req_state ≠ .REQ_IDLE := by
        rw [state]
        decide
      obtain ⟨d, hd⟩ := Option.ne_none_iff_exists'.mp fun hc => hbusy (h.idle.mpr hc)
      have hcur := h.current d hd
      obtain ⟨-, -, hunbroken⟩ := hcur.all_sent state serves chosen (hlinked.max hbusy)
      have htxn : ((circuit p).state ins (n + 1)).SDE_C2H_DATA.curr_txn =
          ((circuit p).state ins n).SDE_C2H_DATA.curr_txn := if_neg (by rw [state]; decide)
      rw [htxn, serves.held.num_bytes] at hsome
      have hbefore := Flow.read_before flow serves hsome
      have hfind := find_of_shown hlinked hcur hunbroken (r := r) (by omega) (by omega) hvalid
      have hstart : start_place p ins (n + 1) = start_place p ins n := by
        obtain ⟨hds, -⟩ := written_kept h h' hdone
        rw [hds] at h'
        exact start_kept h h' hnew
      have hrow : start_place p ins n / PCIM_DATA_WIDTH_BYTES ≤ (beats_in p ins n).length := by
        have hle := hcur.le
        have hfits := hcur.fits
        rw [width_val] at *
        omega
      obtain ⟨b, hb, huser⟩ := Option.map_eq_some_iff.mp hfind
      have hb' : ((beats_in p ins (n + 1)).drop
          (start_place p ins n / PCIM_DATA_WIDTH_BYTES)).find? AxisBeat.last = some b :=
        find_append hrow hb
      rw [hstart, hb', Option.map_some, huser]
      rfl

/-- The records are those of the descriptors that are done. -/
structure Kept (p : C2hDataParams) (ins : Nat → C2hIn) (n : Nat) : Prop where
  progress : Progress p ins n (descs_written p ins n) (in_progress p ins n) (start_place p ins n)
  num_bytes : ((circuit p).state ins n).SDE_C2H_DATA.req_state ≠ .REQ_IDLE →
    ((circuit p).state ins n).SDE_C2H_DATA.curr_desc_num_bytes = place p ins n - start_place p ins n
  num_txns : ((circuit p).state ins n).SDE_C2H_DATA.req_state ≠ .REQ_IDLE →
    ((circuit p).state ins n).SDE_C2H_DATA.curr_desc_num_txns +
        (if ((circuit p).state ins n).SDE_C2H_DATA.req_state = .REQ_DATA then 1 else 0) =
      (bursts_started p ins n).length
  num_bresp : (recs_in p ins n).map C2hWbRec.num_bresp = (bursts_done p ins n).map List.length
  mds : Mds (beats_in p ins n) 0 (descs_written p ins n) ((recs_in p ins n).map C2hWbRec.md)

theorem kept_zero : Kept p ins 0 where
  progress := progress_zero
  num_bytes := fun hc => absurd rfl hc
  num_txns := fun hc => absurd rfl hc
  num_bresp := rfl
  mds := trivial

section Step

theorem idle_of_no_pop {i : C2hDataIn} {dm : C2hData} (hidle : dm.req_state = .REQ_IDLE)
    (hpop : C2hData.dm_desc_pop i dm = false) : C2hData.req_state_next i dm = .REQ_IDLE := by
  simp only [C2hData.dm_desc_pop, hidle, decide_true, Bool.true_and] at hpop
  rw [C2hData.req_state_next, hidle]
  simp [hpop]

theorem issued_length {i : C2hDataIn} {dm : C2hData} (hdone : C2hData.data_tx_done dm = false) :
    (if dm.req_state = .REQ_DATA then 1 else 0) + (C2hData.issued i dm).length =
      if (C2hData.step p i dm).req_state = .REQ_DATA then 1 else 0 := by
  by_cases hidle : dm.req_state = .REQ_IDLE
  · have hnot : (C2hData.step p i dm).req_state ≠ .REQ_DATA := by
      change C2hData.req_state_next _ _ ≠ _
      rw [C2hData.req_state_next, hidle]
      dsimp only
      split <;> decide
    rw [hidle, not_issued (by rw [hidle]; decide), if_neg hnot]
    rfl
  · have hburst := congrArg List.length (@burst_step p i _ hidle hdone).1
    rw [List.length_append, apply_ite List.length, apply_ite List.length] at hburst
    exact hburst

theorem kept_same (hpacked : ∀ n, (ins n).axis_buf_valid → Packed (ins n).axis_buf)
    (h : Kept p ins n) (hnew : ∀ b ∈ accepted (ins n) ((circuit p).state ins n), Packed b)
    (hdone : C2hData.data_tx_done ((circuit p).state ins n).SDE_C2H_DATA = false) :
    Kept p ins (n + 1) := by
  have h' := progress_here (p := p) hpacked (n + 1)
  obtain ⟨hds, hcur⟩ := written_kept h.progress h' hdone
  have hstart : start_place p ins (n + 1) = start_place p ins n := by
    rw [hds] at h'
    exact start_kept h.progress h' hnew
  obtain ⟨hbss, hstarted⟩ := bursts_of_descs_kept hdone
  have hplace : place p ins (n + 1) = place p ins n := place_kept hdone _
  have hrecs : recs_in p ins (n + 1) = recs_in p ins n := by
    rw [recs_in_succ, C2hData.recorded, no_record hdone, if_neg Bool.false_ne_true, List.append_nil]
  have hnt := no_txn_done hdone
  refine ⟨h', ?_, ?_, by rw [hrecs, h.num_bresp, hbss], ?_⟩
  · intro hbusy
    rw [hplace, hstart]
    change (if _ then _ else if _ then _ else _) = _
    by_cases hidle : ((circuit p).state ins n).SDE_C2H_DATA.req_state = .REQ_IDLE
    · have hnone := h.progress.none (h.progress.idle.mp hidle)
      cases hpop : C2hData.dm_desc_pop (data_in p (ins n) ((circuit p).state ins n))
          ((circuit p).state ins n).SDE_C2H_DATA with
      | true =>
        rw [if_pos rfl, hnone.2, Nat.sub_self]
      | false => exact absurd (idle_of_no_pop hidle hpop) hbusy
    · have hpop : C2hData.dm_desc_pop (data_in p (ins n) ((circuit p).state ins n))
          ((circuit p).state ins n).SDE_C2H_DATA = false := by simp [C2hData.dm_desc_pop, hidle]
      rw [hpop, hnt, if_neg Bool.false_ne_true, if_neg Bool.false_ne_true, h.num_bytes hidle]
  · intro hbusy
    have hissued : (if ((circuit p).state ins n).SDE_C2H_DATA.req_state = .REQ_DATA then 1 else 0) + _ =
        if ((circuit p).state ins (n + 1)).SDE_C2H_DATA.req_state = .REQ_DATA then 1 else 0 :=
      @issued_length p (data_in p (ins n) ((circuit p).state ins n)) _ hdone
    rw [hstarted, List.length_append, ← hissued]
    by_cases hidle : ((circuit p).state ins n).SDE_C2H_DATA.req_state = .REQ_IDLE
    · obtain ⟨hnone, -⟩ := h.progress.none (h.progress.idle.mp hidle)
      cases hpop : C2hData.dm_desc_pop (data_in p (ins n) ((circuit p).state ins n))
          ((circuit p).state ins n).SDE_C2H_DATA with
      | true =>
        have htxns : ((circuit p).state ins (n + 1)).SDE_C2H_DATA.curr_desc_num_txns = 0 := if_pos hpop
        rw [htxns, hnone, hidle, if_neg (by decide), Nat.zero_add, Nat.zero_add, List.length_nil,
          Nat.zero_add]
      | false => exact absurd (idle_of_no_pop hidle hpop) hbusy
    · have hpop : C2hData.dm_desc_pop (data_in p (ins n) ((circuit p).state ins n))
          ((circuit p).state ins n).SDE_C2H_DATA = false := by simp [C2hData.dm_desc_pop, hidle]
      have htxns : ((circuit p).state ins (n + 1)).SDE_C2H_DATA.curr_desc_num_txns =
          ((circuit p).state ins n).SDE_C2H_DATA.curr_desc_num_txns := by
        change (if _ then _ else if _ then _ else _) = _
        rw [hpop, hnt, if_neg Bool.false_ne_true, if_neg Bool.false_ne_true]
      have hnum := h.num_txns hidle
      omega
  · rw [hrecs, hds]
    exact h.progress.chain.mds_append h.mds hnew

/-- The last beat of burst `q` of descriptor `d` goes out in cycle `n`. -/
structure LastBeat (p : C2hDataParams) (ins : Nat → C2hIn) (n : Nat) (d : C2hIfDesc) (q : C2hJob) :
    Prop where
  done : C2hData.data_tx_done ((circuit p).state ins n).SDE_C2H_DATA = true
  pushed : C2hData.dp_data_out_ff_push ((circuit p).state ins n).SDE_C2H_DATA = true
  state : ((circuit p).state ins n).SDE_C2H_DATA.req_state = .REQ_DATA
  current : in_progress p ins n = some d
  row : start_place p ins n / PCIM_DATA_WIDTH_BYTES ≤ (beats_in p ins n).length
  le : start_place p ins n ≤ place p ins n
  fits : place p ins n + q.bytes ≤ PCIM_DATA_WIDTH_BYTES * (beats_in p ins n).length
  num_bytes : ((circuit p).state ins n).SDE_C2H_DATA.curr_txn.num_bytes = q.bytes
  eop : ((circuit p).state ins n).SDE_C2H_DATA.pl5_dp.eop = q.ends
  ends : q.ends ↔ 0 < q.bytes ∧ EndsAt (beats_in p ins n) (place p ins n + q.bytes)
  not_ended : q.ends = false → start_place p ins n < place p ins n + q.bytes →
    ¬EndsAt (beats_in p ins n) (place p ins n + q.bytes)
  known : q.ends → ((circuit p).state ins n).SDE_C2H_DATA.buf_dm_aux_valid_q
  /-- What the descriptor got when it is done too. -/
  got : C2hData.data_desc_done ((circuit p).state ins n).SDE_C2H_DATA = true →
    Got (beats_in p ins n) (start_place p ins n) d.len.toNat
      (place p ins n + q.bytes - start_place p ins n) (base_next (place p ins n) q)

theorem Kept.lastBeat (hpacked : ∀ n, (ins n).axis_buf_valid → Packed (ins n).axis_buf)
    (h : Kept p ins n)
    (hdone : C2hData.data_tx_done ((circuit p).state ins n).SDE_C2H_DATA = true) :
    ∃ d q, LastBeat p ins n d q := by
  obtain ⟨bqq, rp, r, hlinked, hphase⟩ := holds_state (p := p) hpacked n
  have hpush := hdone
  rw [C2hData.data_tx_done, Bool.and_eq_true] at hpush
  obtain ⟨q, c, state, flow, -, -, -, serves, chosen, -⟩ := hphase.of_push hpush.1
  have heop := (last_beat flow serves hdone).2.2.2.2.1
  have hrows : bqq.length ≤ (beats_in p ins n).length := by
    have hrows := C2hBuf.read_rows hlinked.track
    omega
  have hbusy : ((circuit p).state ins n).SDE_C2H_DATA.req_state ≠ .REQ_IDLE := by
    rw [state]
    decide
  obtain ⟨d, hd⟩ := Option.ne_none_iff_exists'.mp fun hc => hbusy (h.progress.idle.mpr hc)
  have hcur := h.progress.current d hd
  obtain ⟨-, -, hunbroken⟩ := hcur.all_sent state serves chosen (hlinked.max hbusy)
  have hrow : start_place p ins n / PCIM_DATA_WIDTH_BYTES ≤ (beats_in p ins n).length := by
    have hle := hcur.le
    have hfits := hcur.fits
    rw [width_val] at *
    omega
  refine ⟨d, q, hdone, hpush.1, state, hd, hrow, hcur.le,
    chosen.fits.trans (Nat.mul_le_mul_left _ hrows), serves.held.num_bytes, heop, chosen.ends,
    fun hends hlt => hcur.not_ended chosen hends hlt, chosen.known, fun hdesc => ?_⟩
  exact hcur.got hlinked.track.packed serves chosen hrows hunbroken ((desc_done_iff hdone heop).mp hdesc)

namespace LastBeat

variable {d : C2hIfDesc} {q : C2hJob} (hlast : LastBeat p ins n d q)

include hlast

theorem busy : ((circuit p).state ins n).SDE_C2H_DATA.req_state ≠ .REQ_IDLE := by
  rw [hlast.state]
  decide

theorem no_pop : C2hData.dm_desc_pop (data_in p (ins n) ((circuit p).state ins n))
    ((circuit p).state ins n).SDE_C2H_DATA = false := by
  simp [C2hData.dm_desc_pop, hlast.state]

theorem none_issued : C2hData.issued (data_in p (ins n) ((circuit p).state ins n))
    ((circuit p).state ins n).SDE_C2H_DATA = [] :=
  not_issued (by rw [hlast.state]; decide)

theorem place_succ : place p ins (n + 1) = base_next (place p ins n) q :=
  place_done hlast.done hlast.state hlast.num_bytes hlast.eop _

theorem num_txns_succ : ((circuit p).state ins (n + 1)).SDE_C2H_DATA.curr_desc_num_txns =
    ((circuit p).state ins n).SDE_C2H_DATA.curr_desc_num_txns + 1 := by
  change (if _ then _ else if _ then _ else _) = _
  rw [hlast.no_pop, txn_done hlast.done hlast.state, if_neg Bool.false_ne_true, if_pos rfl]

theorem num_bytes_succ : ((circuit p).state ins (n + 1)).SDE_C2H_DATA.curr_desc_num_bytes =
    ((circuit p).state ins n).SDE_C2H_DATA.curr_desc_num_bytes + q.bytes := by
  change (if _ then _ else if _ then _ else _) = _
  rw [hlast.no_pop, txn_done hlast.done hlast.state, if_neg Bool.false_ne_true, if_pos rfl, hlast.num_bytes]

theorem state_succ : ((circuit p).state ins (n + 1)).SDE_C2H_DATA.req_state =
    if C2hData.data_desc_done ((circuit p).state ins n).SDE_C2H_DATA then .REQ_IDLE
    else .REQ_WAIT_CALC :=
  state_done hlast.done hlast.state

theorem descs_succ (h : Kept p ins n) :
    descs_in p ins (n + 1) = descs_written p ins n ++ [d] := by
  rw [descs_in_succ, popped_busy hlast.busy, List.append_nil, h.progress.descs, hlast.current]
  rfl

theorem mdOf (hpacked : ∀ n, (ins n).axis_buf_valid → Packed (ins n).axis_buf)
    (h : Kept p ins n)
    (hnew : ∀ b ∈ accepted (ins n) ((circuit p).state ins n), Packed b)
    (hdesc : C2hData.data_desc_done ((circuit p).state ins n).SDE_C2H_DATA = true) :
    MdOf (beats_in p ins (n + 1)) (start_place p ins n) d
      (C2hData.dp_wb_ff_push_data ((circuit p).state ins n).SDE_C2H_DATA).md := by
  have hgot := (hlast.got hdesc).append hnew
  have hle := hlast.le
  refine ⟨?_, ?_, ?_⟩
  · change ((circuit p).state ins n).SDE_C2H_DATA.curr_desc_num_bytes +
      ((circuit p).state ins n).SDE_C2H_DATA.curr_txn.num_bytes = _
    have hget : desc_bytes (beats_in p ins (n + 1)) (start_place p ins n) d.len.toNat = _ :=
      hgot.eq.1
    rw [hlast.num_bytes, h.num_bytes hlast.busy, hget]
    omega
  · change ((circuit p).state ins n).SDE_C2H_DATA.pl5_dp.eop = _
    have hiff : packet_ends (beats_in p ins (n + 1)) (start_place p ins n) d.len.toNat = true ↔ _ :=
      hgot.ends_iff
    have hsum : start_place p ins n + (place p ins n + q.bytes - start_place p ins n) =
        place p ins n + q.bytes := by omega
    rw [hsum, endsAt_append_iff hnew hlast.fits] at hiff
    rw [hlast.eop, Bool.eq_iff_iff, hiff]
    refine ⟨fun hends => ?_, fun ⟨hpos, hend⟩ => ?_⟩
    · obtain ⟨hsome, hend⟩ := hlast.ends.mp hends
      exact ⟨by omega, hend⟩
    · by_contra hends
      exact hlast.not_ended (eq_false_of_ne_true hends) (by omega) hend
  · intro hc
    have hends : q.ends = true := hlast.eop.symm.trans hc
    have hsome := (hlast.ends.mp hends).1
    have huser := user_of_done hpacked (hlast.num_bytes.symm ▸ hsome) hlast.pushed (hlast.known hends)
    obtain ⟨b, hb, hu⟩ := Option.map_eq_some_iff.mp huser
    have hb' : ((beats_in p ins (n + 1)).drop
        (start_place p ins n / PCIM_DATA_WIDTH_BYTES)).find? AxisBeat.last = some b :=
      find_append hlast.row hb
    rw [hb', Option.map_some, hu]
    rfl

theorem kept_desc (hpacked : ∀ n, (ins n).axis_buf_valid → Packed (ins n).axis_buf)
    (h : Kept p ins n) (hnew : ∀ b ∈ accepted (ins n) ((circuit p).state ins n), Packed b)
    (hdesc : C2hData.data_desc_done ((circuit p).state ins n).SDE_C2H_DATA = true) :
    Kept p ins (n + 1) := by
  have h' := progress_here (p := p) hpacked (n + 1)
  have hnext := hlast.state_succ
  rw [hdesc, if_pos rfl] at hnext
  have hidle := h'.idle.mp hnext
  have hdescs : descs_written p ins n ++ [d] = descs_written p ins (n + 1) := by
    rw [← hlast.descs_succ h, h'.descs, hidle, Option.toList_none, List.append_nil]
  have hbss : bursts_done p ins (n + 1) = bursts_done p ins n ++ [bursts_started p ins n] := by
    rw [bursts_done, if_pos hdesc, hlast.none_issued, List.append_nil]
  have hrecs : recs_in p ins (n + 1) = recs_in p ins n ++
      [C2hData.dp_wb_ff_push_data ((circuit p).state ins n).SDE_C2H_DATA] := by
    rw [recs_in_succ, C2hData.recorded, record_of_done hpacked, hdesc, if_pos rfl]
  have hnum_txns := h.num_txns hlast.busy
  rw [if_pos hlast.state] at hnum_txns
  refine ⟨h', fun hc => absurd hnext hc, fun hc => absurd hnext hc, ?_, ?_⟩
  · rw [hrecs, List.map_append, h.num_bresp, hbss, List.map_append, List.map_singleton,
      List.map_singleton, ← hnum_txns]
    rfl
  · rw [hrecs, ← hdescs, List.map_append]
    have hmds : Mds (beats_in p ins (n + 1)) 0 (descs_written p ins n)
        ((recs_in p ins n).map C2hWbRec.md) := h.progress.chain.mds_append h.mds hnew
    have hstart : (descs_written p ins n).foldl
        (fun pos d => desc_end (beats_in p ins (n + 1)) pos d.len.toNat) 0 = start_place p ins n :=
      (h.progress.chain.append hnew).place
    have hmd := hlast.mdOf hpacked h hnew hdesc
    rw [← hstart] at hmd
    exact hmds.concat hmd

theorem kept_txn (hpacked : ∀ n, (ins n).axis_buf_valid → Packed (ins n).axis_buf)
    (h : Kept p ins n) (hnew : ∀ b ∈ accepted (ins n) ((circuit p).state ins n), Packed b)
    (hdesc : C2hData.data_desc_done ((circuit p).state ins n).SDE_C2H_DATA = false) :
    Kept p ins (n + 1) := by
  have h' := progress_here (p := p) hpacked (n + 1)
  have hnext := hlast.state_succ
  rw [hdesc, if_neg Bool.false_ne_true] at hnext
  have hends := not_ends_of_more hlast.done hlast.eop hdesc
  obtain ⟨d', hd'⟩ := Option.ne_none_iff_exists'.mp fun hc => by
    have hidle := h'.idle.mpr hc
    rw [hnext] at hidle
    cases hidle
  have hdescs := h'.descs
  rw [hlast.descs_succ h, hd'] at hdescs
  obtain ⟨hds, -⟩ := List.append_inj' hdescs rfl
  have hprog := h'
  rw [← hds] at hprog
  have hstart := start_kept h.progress hprog hnew
  have hbss : bursts_done p ins (n + 1) = bursts_done p ins n := by
    rw [bursts_done, hdesc, if_neg Bool.false_ne_true, List.append_nil]
  have hstarted : bursts_started p ins (n + 1) = bursts_started p ins n := by
    rw [bursts_started, hdesc, if_neg Bool.false_ne_true, hlast.none_issued, List.append_nil]
  have hrecs : recs_in p ins (n + 1) = recs_in p ins n := by
    rw [recs_in_succ, C2hData.recorded, record_of_done hpacked, hdesc,
      if_neg Bool.false_ne_true, List.append_nil]
  have hle := hlast.le
  have hnum_txns := h.num_txns hlast.busy
  rw [if_pos hlast.state] at hnum_txns
  refine ⟨h', fun _ => ?_, fun _ => ?_, by rw [hrecs, h.num_bresp, hbss], ?_⟩
  · rw [hlast.num_bytes_succ, h.num_bytes hlast.busy, hlast.place_succ, base_next, hends, hstart,
      if_neg Bool.false_ne_true]
    omega
  · rw [hlast.num_txns_succ, hstarted, hnext, if_neg (by decide), hnum_txns]
  · rw [hrecs, ← hds]
    exact h.progress.chain.mds_append h.mds hnew

end LastBeat

theorem kept_state (hpacked : ∀ n, (ins n).axis_buf_valid → Packed (ins n).axis_buf) (n : Nat) :
    Kept p ins n := by
  induction n with
  | zero => exact kept_zero
  | succ n h =>
    obtain ⟨bqq, rp, r, hlinked, -⟩ := holds_state (p := p) hpacked n
    have hnew : ∀ b ∈ accepted (ins n) ((circuit p).state ins n), Packed b := fun b hb =>
      C2hBuf.packed_step (i := buf_in (ins n) ((circuit p).state ins n)) hlinked.track (hpacked n) b
        (List.mem_append_right _ hb)
    cases hdone : C2hData.data_tx_done ((circuit p).state ins n).SDE_C2H_DATA with
    | false => exact kept_same hpacked h hnew hdone
    | true =>
      obtain ⟨d, q, hlast⟩ := h.lastBeat hpacked hdone
      cases hdesc : C2hData.data_desc_done ((circuit p).state ins n).SDE_C2H_DATA with
      | true => exact hlast.kept_desc hpacked h hnew hdesc
      | false => exact hlast.kept_txn hpacked h hnew hdesc

end Step

end Runs

end C2h

end AwsFpga.Rtl
