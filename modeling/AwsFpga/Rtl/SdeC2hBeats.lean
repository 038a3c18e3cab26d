import AwsFpga.Rtl.SdeC2hData

/-!
# The beats of a burst (`sde_c2h_data.sv`, stages 3 to 5)

The bytes of a burst are read from byte `rd` of a row on, and written from byte `dest` of a
beat on. Slice `j` of them comes from row `j`, and beat `m` of them goes out with beat `m`.
What a slice has too much for a beat, or a beat too little, is saved between them.
-/

open Lib Lib.Axi

namespace AwsFpga.Rtl

/-- A burst, as the stages 3 to 5 get it: where in a beat and in a row it starts, its bytes, and whether
a packet ends with them. -/
structure C2hJob where
  dest : Nat
  rd : Nat
  bytes : Nat
  byte : Nat → BitVec 8
  ends : Bool

namespace C2hJob

/-- The bytes of the first `j` slices. -/
def bytes_in (q : C2hJob) (j : Nat) : Nat := min q.bytes (PCIM_DATA_WIDTH_BYTES * j - q.rd)

/-- The bytes of the first `m` beats. -/
def bytes_out (q : C2hJob) (m : Nat) : Nat := min q.bytes (PCIM_DATA_WIDTH_BYTES * m - q.dest)

/-- The bytes before those that are saved when slice `j` has come. -/
def bytes_gone (q : C2hJob) (j : Nat) : Nat :=
  if q.rd < q.dest then q.bytes_out (j + 1) else q.bytes_out j

/-- How many slices more than beats must have come, so that a beat is whole. -/
def lead (q : C2hJob) : Nat := if q.dest < q.rd then 1 else 0

/-- How many beats hold the bytes. A burst without a byte has a beat too. -/
def beats (q : C2hJob) : Nat :=
  max 1 ((q.dest + q.bytes + PCIM_DATA_WIDTH_BYTES - 1) / PCIM_DATA_WIDTH_BYTES)

/-- The byte of beat `m` that the first of its bytes goes to. -/
def beat_start (q : C2hJob) (m : Nat) : Nat := if m = 0 then q.dest else 0

/-- The registers of a burst say what the burst is. -/
structure Held (q : C2hJob) (txn : C2hTxn) : Prop where
  dest_lt : q.dest < PCIM_DATA_WIDTH_BYTES
  rd_lt : q.rd < PCIM_DATA_WIDTH_BYTES
  some : q.ends → 0 < q.bytes
  dest : C2hData.txn_dest_idx txn = q.dest
  num_bytes : txn.num_bytes = q.bytes
  fo : txn.num_bytes_fo = PCIM_DATA_WIDTH_BYTES - q.dest
  sav : txn.num_bytes_sav =
    if q.rd < q.dest then q.dest - q.rd else PCIM_DATA_WIDTH_BYTES - (q.rd - q.dest)
  dw_minus_sav : txn.num_bytes_dw_minus_sav =
    if q.rd < q.dest then PCIM_DATA_WIDTH_BYTES - (q.dest - q.rd) else q.rd - q.dest
  case1 : txn.case1_a_gt_r = decide (q.rd < q.dest)
  case2 : txn.case2_r_gt_a = decide (q.dest < q.rd)
  case3 : txn.case3_a_eq_r = decide (q.dest = q.rd)

/-- Stage 3 has slice `j`. Behind the last slice there are empty ones. -/
structure Slice (q : C2hJob) (j : Nat) (pl3 : C2hPl3) : Prop where
  num_bytes : pl3.num_bytes = q.bytes_in (j + 1) - q.bytes_in j
  first : pl3.first = decide (j = 0)
  last : pl3.last = decide (q.bytes_in (j + 1) = q.bytes)
  eop : pl3.eop = (q.ends && decide (q.bytes_in (j + 1) = q.bytes ∧ q.bytes_in j < q.bytes))
  data : ∀ k < pl3.num_bytes, lane 8 pl3.data k = q.byte (q.bytes_in j + k)

/-- Stage 4 has what is saved of the slices up to `j`. -/
structure Saved (q : C2hJob) (j : Nat) (pl4 : C2hPl4) : Prop where
  num_bytes : pl4.num_bytes = q.bytes_in (j + 1) - q.bytes_gone j
  first : q.dest < q.rd → pl4.first = decide (j = 0)
  last : pl4.last = decide (q.bytes_in (j + 1) = q.bytes)
  eop : pl4.eop = (q.ends && decide (q.bytes_in (j + 1) = q.bytes))
  data : ∀ k < pl4.num_bytes, lane 8 pl4.data k = q.byte (q.bytes_gone j + k)

/-- Beat `m`, put together. -/
structure Out (q : C2hJob) (m : Nat) (beat : C2hData.Beat) : Prop where
  num_bytes : beat.num_bytes = q.bytes_out (m + 1) - q.bytes_out m
  first : beat.first = decide (m = 0)
  last : beat.last = decide (q.bytes_out (m + 1) = q.bytes)
  eop : beat.eop = (q.ends && decide (q.bytes_out (m + 1) = q.bytes))
  data : ∀ k < beat.num_bytes, lane 8 beat.data (q.beat_start m + k) = q.byte (q.bytes_out m + k)

variable {q : C2hJob} {txn : C2hTxn} {pl3 : C2hPl3} {pl4 : C2hPl4} {j m : Nat}

theorem min_bytes_2_eq (a b : Nat) : C2hData.min_bytes_2 a b = min a b := by
  unfold C2hData.min_bytes_2
  split <;> omega

theorem sub_bytes_eq {a b : Nat} (hle : b ≤ a) (hlt : a < b + 2 * PCIM_DATA_WIDTH_BYTES) :
    C2hData.sub_bytes a b = a - b := by
  unfold C2hData.sub_bytes
  have hsum : a + 2 * PCIM_DATA_WIDTH_BYTES - b = a - b + 2 * PCIM_DATA_WIDTH_BYTES := by omega
  rw [hsum, Nat.add_mod_right, Nat.mod_eq_of_lt (by omega)]

theorem bytes_in_le (j : Nat) : q.bytes_in j ≤ q.bytes := Nat.min_le_left _ _

theorem bytes_out_le (m : Nat) : q.bytes_out m ≤ q.bytes := Nat.min_le_left _ _

theorem bytes_in_mono (j : Nat) : q.bytes_in j ≤ q.bytes_in (j + 1) := by
  unfold bytes_in
  rw [width_val]
  omega

theorem bytes_out_mono (m : Nat) : q.bytes_out m ≤ q.bytes_out (m + 1) := by
  unfold bytes_out
  rw [width_val]
  omega

/-! ## Stage 4 -/

theorem gone_between (h : q.Held txn) (hmore : q.bytes_gone j < q.bytes) :
    q.bytes_in j ≤ q.bytes_gone j ∧ q.bytes_gone j ≤ q.bytes_in (j + 1) := by
  have hdest := h.dest_lt
  have hrd := h.rd_lt
  unfold bytes_gone bytes_in bytes_out at *
  rw [width_val] at *
  split at hmore
  case isTrue hlt =>
    rw [if_pos hlt]
    omega
  case isFalse hlt =>
    rw [if_neg hlt]
    omega

theorem slice_le (hs : q.Slice j pl3) : pl3.num_bytes ≤ PCIM_DATA_WIDTH_BYTES := by
  have hnum := hs.num_bytes
  unfold bytes_in at hnum
  rw [width_val] at *
  omega

theorem saved_of_shift (h : q.Held txn) (hs : q.Slice j pl3) (hmore : q.bytes_gone j < q.bytes)
    {shift : Nat} (hshift : shift = q.bytes_gone j - q.bytes_in j) (hnum : pl4.num_bytes = pl3.num_bytes - shift)
    (hfirst : q.dest < q.rd → pl4.first = decide (j = 0))
    (hlast : pl4.last = (pl3.last && decide (shift < pl3.num_bytes)))
    (heop : pl4.eop = (pl3.eop && decide (shift < pl3.num_bytes)))
    (hdata : ∀ k, lane 8 pl4.data k = lane 8 pl3.data (shift + k)) : q.Saved j pl4 := by
  have hslice := hs.num_bytes
  obtain ⟨hfrom, hto⟩ := gone_between h hmore
  have hrest : q.bytes_in (j + 1) = q.bytes → shift < pl3.num_bytes := by
    intro hall
    omega
  refine ⟨by omega, hfirst, ?_, ?_, ?_⟩
  · rw [hlast, hs.last]
    by_cases hall : q.bytes_in (j + 1) = q.bytes
    · rw [decide_eq_true (hrest hall), Bool.and_true]
    · rw [decide_eq_false hall, Bool.false_and]
  · rw [heop, hs.eop, Bool.and_assoc]
    by_cases hall : q.bytes_in (j + 1) = q.bytes
    · have hbefore : q.bytes_in j < q.bytes := by omega
      rw [decide_eq_true (hrest hall), decide_eq_true hall, decide_eq_true ⟨hall, hbefore⟩]
      rfl
    · have hno : ¬(q.bytes_in (j + 1) = q.bytes ∧ q.bytes_in j < q.bytes) := fun hc => hall hc.1
      rw [decide_eq_false hall, decide_eq_false hno, Bool.false_and]
  · intro k hk
    have hpos : q.bytes_in j + (shift + k) = q.bytes_gone j + k := by omega
    rw [hdata, hs.data _ (by omega), hpos]

/-- The beats start later than the rows: of the first slice, what the first beat has no room for. -/
theorem case1_shift (h : q.Held txn) (hcase : q.rd < q.dest) (hs : q.Slice j pl3)
    (hmore : q.bytes_gone j < q.bytes) :
    C2hData.stg4_dp_shift txn pl3 = q.bytes_gone j - q.bytes_in j := by
  have hdest := h.dest_lt
  have hdw := h.dw_minus_sav
  rw [if_pos hcase] at hdw
  unfold C2hData.stg4_dp_shift
  rw [hs.first, h.fo, hdw]
  unfold bytes_gone bytes_in bytes_out at *
  rw [if_pos hcase] at *
  rw [width_val] at *
  by_cases hj : j = 0
  · rw [decide_eq_true hj, if_pos rfl]
    omega
  · rw [decide_eq_false hj, if_neg Bool.false_ne_true]
    omega

theorem case1_num_bytes (h : q.Held txn) (hcase : q.rd < q.dest) (hs : q.Slice j pl3)
    (hmore : q.bytes_gone j < q.bytes) :
    (C2hData.stg4_case1 txn pl3).num_bytes = pl3.num_bytes - C2hData.stg4_dp_shift txn pl3 := by
  have hnum := hs.num_bytes
  have hle := slice_le hs
  have hwidth : 0 < PCIM_DATA_WIDTH_BYTES := by decide
  have hshift := case1_shift h hcase hs hmore
  obtain ⟨hfrom, hto⟩ := gone_between h hmore
  have hrest : C2hData.sub_bytes pl3.num_bytes (C2hData.stg4_dp_shift txn pl3) =
      pl3.num_bytes - C2hData.stg4_dp_shift txn pl3 := sub_bytes_eq (by omega) (by omega)
  unfold C2hData.stg4_dp_shift at hrest ⊢
  change (if pl3.first && pl3.last then C2hData.sub_bytes pl3.num_bytes txn.num_bytes_fo
    else if pl3.first then C2hData.min_bytes_2 pl3.num_bytes txn.num_bytes_sav
    else C2hData.sub_bytes pl3.num_bytes txn.num_bytes_dw_minus_sav) = _
  cases hfirst : pl3.first with
  | false =>
    rw [hfirst] at hrest
    exact hrest
  | true =>
    rw [hfirst] at hrest
    cases hlast : pl3.last with
    | true => exact hrest
    | false =>
      -- The first slice is not the last one, so it has all of its row.
      have hj := of_decide_eq_true (hs.first.symm.trans hfirst)
      have hno := of_decide_eq_false (hs.last.symm.trans hlast)
      have hdest := h.dest_lt
      have hsav := h.sav
      rw [if_pos hcase] at hsav
      subst hj
      simp only [Bool.and_false, Bool.false_eq_true, if_false, if_true]
      rw [min_bytes_2_eq, hsav, h.fo, hnum]
      unfold bytes_in at *
      rw [width_val] at *
      omega

theorem case1_saved (h : q.Held txn) (hcase : q.rd < q.dest) (hs : q.Slice j pl3)
    (hmore : q.bytes_gone j < q.bytes) : q.Saved j (C2hData.stg4_case1 txn pl3) :=
  saved_of_shift h hs hmore (case1_shift h hcase hs hmore) (case1_num_bytes h hcase hs hmore)
    (fun hgt => absurd hcase (Nat.not_lt.mpr (Nat.le_of_lt hgt))) rfl rfl
    (fun k => lane_shift_right _ _ k)

/-- The beats start earlier: the first slice is saved whole. -/
theorem case2_saved (h : q.Held txn) (hcase : q.dest < q.rd) (hs : q.Slice j pl3)
    (hmore : q.bytes_gone j < q.bytes) : q.Saved j (C2hData.stg4_case2 txn pl3) := by
  have hrd := h.rd_lt
  have hnot : ¬q.rd < q.dest := by omega
  have hnum := hs.num_bytes
  have hle := slice_le hs
  have hdw := h.dw_minus_sav
  rw [if_neg hnot] at hdw
  have hwidth : 0 < PCIM_DATA_WIDTH_BYTES := by decide
  obtain ⟨hfrom, hto⟩ := gone_between h hmore
  by_cases hj : j = 0
  · have hfirst : pl3.first = true := hs.first.trans (decide_eq_true hj)
    have hshift : 0 = q.bytes_gone j - q.bytes_in j := by
      unfold bytes_gone bytes_in bytes_out
      rw [if_neg hnot, hj]
      omega
    have hsome : 0 < pl3.num_bytes := by
      unfold bytes_in at hnum
      rw [width_val] at *
      omega
    apply saved_of_shift h hs hmore hshift
    · simp [C2hData.stg4_case2, hfirst]
    · intro _
      exact hs.first
    · simp [C2hData.stg4_case2, hfirst, hsome]
    · simp [C2hData.stg4_case2, hfirst, hsome]
    · simp [C2hData.stg4_case2, hfirst]
  · have hfirst : pl3.first = false := hs.first.trans (decide_eq_false hj)
    have hshift : txn.num_bytes_dw_minus_sav = q.bytes_gone j - q.bytes_in j := by
      rw [hdw]
      unfold bytes_gone bytes_in bytes_out at *
      rw [if_neg hnot] at *
      rw [width_val] at *
      omega
    apply saved_of_shift h hs hmore hshift
    · rw [C2hData.stg4_case2, hfirst, if_neg Bool.false_ne_true, sub_bytes_eq (by omega) (by omega)]
    · intro _
      exact hs.first
    · simp [C2hData.stg4_case2, hfirst]
    · simp [C2hData.stg4_case2, hfirst]
    · intro k
      rw [C2hData.stg4_case2, hfirst, if_neg Bool.false_ne_true]
      exact lane_shift_right _ _ k

/-! ## Stage 5 -/

/-- Beat `m` is put together from what is saved and slice `j`. -/
structure Parts (q : C2hJob) (txn : C2hTxn) (m j : Nat) (pl3 : C2hPl3) (pl4 : C2hPl4) : Prop where
  slice : q.Slice j pl3
  num_bytes : pl4.num_bytes = q.bytes_in j - q.bytes_out m
  last : pl4.last = decide (q.bytes_in j = q.bytes)
  eop : pl4.eop = (q.ends && decide (q.bytes_in j = q.bytes))
  data : ∀ k < pl4.num_bytes, lane 8 pl4.data k = q.byte (q.bytes_out m + k)
  more : q.bytes_out m < q.bytes
  /-- The rows are ahead of the beats, by less than a row. -/
  ahead : q.bytes_out m ≤ q.bytes_in j ∧ q.bytes_in j < q.bytes_out m + PCIM_DATA_WIDTH_BYTES
  enough : q.bytes_out (m + 1) ≤ q.bytes_in (j + 1)
  room : q.bytes_in j < q.bytes →
    q.bytes_in j + txn.num_bytes_dw_minus_sav = PCIM_DATA_WIDTH_BYTES * (m + 1) - q.dest
  stop : q.bytes_in j = q.bytes → q.bytes_out (m + 1) = q.bytes

theorem case1_parts (h : q.Held txn) (hcase : q.rd < q.dest) (hm : 0 < m) (hs : q.Slice m pl3)
    (hsaved : q.Saved (m - 1) pl4) (hmore : q.bytes_out m < q.bytes) : q.Parts txn m m pl3 pl4 := by
  have hdest := h.dest_lt
  have hdw := h.dw_minus_sav
  have hone : m - 1 + 1 = m := Nat.sub_add_cancel hm
  have hgone : q.bytes_gone (m - 1) = q.bytes_out m := by rw [bytes_gone, if_pos hcase, hone]
  have hnum := hsaved.num_bytes
  have hlast := hsaved.last
  have heop := hsaved.eop
  have hdata := hsaved.data
  rw [if_pos hcase] at hdw
  rw [hone] at hnum hlast heop
  rw [hgone] at hnum hdata
  refine ⟨hs, hnum, hlast, heop, hdata, hmore, ?_, ?_, ?_, ?_⟩ <;>
    unfold bytes_in bytes_out at * <;> rw [width_val] at * <;> omega

theorem case2_parts (h : q.Held txn) (hcase : q.dest < q.rd) (hs : q.Slice (m + 1) pl3)
    (hsaved : q.Saved m pl4) (hmore : q.bytes_out m < q.bytes) : q.Parts txn m (m + 1) pl3 pl4 := by
  have hrd := h.rd_lt
  have hnot : ¬q.rd < q.dest := by omega
  have hdw := h.dw_minus_sav
  have hgone : q.bytes_gone m = q.bytes_out m := by rw [bytes_gone, if_neg hnot]
  have hnum := hsaved.num_bytes
  have hdata := hsaved.data
  rw [if_neg hnot] at hdw
  rw [hgone] at hnum hdata
  refine ⟨hs, hnum, hsaved.last, hsaved.eop, hdata, hmore, ?_, ?_, ?_, ?_⟩ <;>
    unfold bytes_in bytes_out at * <;> rw [width_val] at * <;> omega

namespace Parts

theorem comb_eq (h : q.Parts txn m j pl3 pl4) :
    C2hData.stg5_dp_num_bytes_comb pl3 pl4 = q.bytes_in (j + 1) - q.bytes_out m := by
  have hnum := h.num_bytes
  have hslice := h.slice.num_bytes
  have hle := slice_le h.slice
  have hahead := h.ahead
  have hmono := @bytes_in_mono q j
  unfold C2hData.stg5_dp_num_bytes_comb
  rw [Nat.mod_eq_of_lt (by omega)]
  omega

theorem num_bytes_eq (h : q.Parts txn m j pl3 pl4) {room : Nat}
    (hroom : q.bytes_out m + room = PCIM_DATA_WIDTH_BYTES * (m + 1) - q.dest) :
    (if pl4.last then pl4.num_bytes
      else min room (C2hData.stg5_dp_num_bytes_comb pl3 pl4)) =
        q.bytes_out (m + 1) - q.bytes_out m := by
  have henough := h.enough
  rw [h.last, comb_eq h, h.num_bytes]
  by_cases hall : q.bytes_in j = q.bytes
  · rw [decide_eq_true hall, if_pos rfl, h.stop hall, hall]
  · rw [decide_eq_false hall, if_neg Bool.false_ne_true]
    have hout : q.bytes_out (m + 1) = min q.bytes (PCIM_DATA_WIDTH_BYTES * (m + 1) - q.dest) := rfl
    have hin := @bytes_in_le q (j + 1)
    omega

theorem last_eq (h : q.Parts txn m j pl3 pl4) :
    (pl4.last || (!pl4.last && pl3.last && decide (pl3.num_bytes ≤ txn.num_bytes_dw_minus_sav))) =
      decide (q.bytes_out (m + 1) = q.bytes) := by
  have hout : q.bytes_out (m + 1) = min q.bytes (PCIM_DATA_WIDTH_BYTES * (m + 1) - q.dest) := rfl
  have hin := @bytes_in_le q j
  have henough := h.enough
  have hin' := @bytes_in_le q (j + 1)
  have hroom := h.room
  rw [h.last, h.slice.last, h.slice.num_bytes]
  by_cases hall : q.bytes_in j = q.bytes
  · rw [decide_eq_true hall, decide_eq_true (h.stop hall), Bool.true_or]
  · rw [decide_eq_false hall, Bool.false_or, Bool.not_false, Bool.true_and, ← Bool.decide_and,
      decide_eq_decide]
    omega

theorem eop_eq (h : q.Parts txn m j pl3 pl4) :
    (pl4.eop || (!pl4.eop && pl3.eop && decide (pl3.num_bytes ≤ txn.num_bytes_dw_minus_sav))) =
      (q.ends && decide (q.bytes_out (m + 1) = q.bytes)) := by
  have hlast := last_eq h
  rw [h.last, h.slice.last] at hlast
  rw [h.eop, h.slice.eop]
  cases q.ends with
  | false => rfl
  | true =>
    simp only [Bool.true_and]
    rw [← hlast]
    have hin := @bytes_in_le q j
    by_cases hall : q.bytes_in j = q.bytes
    · rw [decide_eq_true hall]
      rfl
    · have hbefore : q.bytes_in j < q.bytes := by omega
      have hand : (q.bytes_in (j + 1) = q.bytes ∧ q.bytes_in j < q.bytes) ↔
          q.bytes_in (j + 1) = q.bytes := ⟨And.left, fun hc => ⟨hc, hbefore⟩⟩
      rw [decide_eq_decide.mpr hand]

theorem data_eq (h : q.Parts txn m j pl3 pl4) {k : Nat} (hwidth : k < PCIM_DATA_WIDTH_BYTES)
    (hk : q.bytes_out m + k < q.bytes_in (j + 1)) :
    lane 8 (C2hData.stg5_dp_data_comb pl3 pl4) k = q.byte (q.bytes_out m + k) := by
  have hnum := h.num_bytes
  have hslice := h.slice.num_bytes
  have hahead := h.ahead
  unfold C2hData.stg5_dp_data_comb
  rw [lane_of_lanes _ (show k < 64 from hwidth)]
  by_cases hsaved : k < pl4.num_bytes
  · rw [if_pos hsaved, h.data k hsaved]
  · have hpos : q.bytes_in j + (k - pl4.num_bytes) = q.bytes_out m + k := by omega
    rw [if_neg hsaved, h.slice.data _ (by omega), hpos]

end Parts

theorem stg5_case1_first (hfirst : pl3.first = true) :
    C2hData.stg5_case1 txn pl3 pl4 =
      { valid := pl3.valid
        num_bytes := min txn.num_bytes_fo pl3.num_bytes
        first := true
        last := pl3.last && decide (pl3.num_bytes ≤ txn.num_bytes_fo)
        eop := pl3.eop && decide (pl3.num_bytes ≤ txn.num_bytes_fo)
        data := pl3.data <<< (8 * C2hData.txn_dest_idx txn) } := by
  simp [C2hData.stg5_case1, hfirst, min_bytes_2_eq]

theorem stg5_case1_rest (hfirst : pl3.first = false) :
    C2hData.stg5_case1 txn pl3 pl4 =
      { valid := pl3.valid
        num_bytes := if pl4.last then pl4.num_bytes
          else min PCIM_DATA_WIDTH_BYTES (C2hData.stg5_dp_num_bytes_comb pl3 pl4)
        first := false
        last := (pl4.last && decide (pl4.num_bytes ≤ txn.num_bytes_sav)) ||
          (!pl4.last && pl3.last && decide (pl3.num_bytes ≤ txn.num_bytes_dw_minus_sav))
        eop := (pl4.eop && decide (pl4.num_bytes ≤ txn.num_bytes_sav)) ||
          (!pl4.eop && pl3.eop && decide (pl3.num_bytes ≤ txn.num_bytes_dw_minus_sav))
        data := C2hData.stg5_dp_data_comb pl3 pl4 } := by
  simp [C2hData.stg5_case1, hfirst, min_bytes_2_eq]

theorem case1_out_first (h : q.Held txn) (hcase : q.rd < q.dest) (hs : q.Slice 0 pl3) :
    q.Out 0 (C2hData.stg5_case1 txn pl3 pl4) := by
  have hdest := h.dest_lt
  have hnum := hs.num_bytes
  have hroom : pl3.num_bytes ≤ txn.num_bytes_fo ∧ q.bytes_in 1 = q.bytes ↔
      q.bytes_out 1 = q.bytes := by
    rw [h.fo, hnum]
    unfold bytes_in bytes_out
    rw [width_val] at *
    omega
  have hbytes : min txn.num_bytes_fo pl3.num_bytes = q.bytes_out 1 - q.bytes_out 0 := by
    rw [h.fo, hnum]
    unfold bytes_in bytes_out
    rw [width_val] at *
    omega
  have hnone : q.bytes_in 0 = 0 ∧ q.bytes_out 0 = 0 := by
    unfold bytes_in bytes_out
    omega
  rw [stg5_case1_first hs.first]
  refine ⟨hbytes, rfl, ?_, ?_, ?_⟩
  · dsimp only
    rw [hs.last, Bool.and_comm, ← Bool.decide_and, decide_eq_decide]
    exact hroom
  · dsimp only
    rw [hs.eop]
    cases hends : q.ends with
    | false => rfl
    | true =>
      have hsome := h.some hends
      rw [Bool.true_and, Bool.true_and, ← Bool.decide_and, decide_eq_decide, ← hroom, Nat.zero_add]
      omega
  · intro k hk
    dsimp only at hk ⊢
    have hin : k < pl3.num_bytes ∧ q.dest + k < PCIM_DATA_WIDTH_BYTES := by
      rw [h.fo] at hk
      omega
    have hbus : 8 * (q.dest + k) + 8 ≤ 512 := by
      rw [width_val] at hin
      omega
    rw [h.dest, beat_start, if_pos rfl, lane_shift_left _ _ hbus, if_pos (Nat.le_add_right _ _),
      Nat.add_sub_cancel_left, hs.data k hin.1, hnone.1, hnone.2]

theorem case1_out (h : q.Held txn) (hcase : q.rd < q.dest) (hm : 0 < m) (hs : q.Slice m pl3)
    (hsaved : q.Saved (m - 1) pl4) (hmore : q.bytes_out m < q.bytes) :
    q.Out m (C2hData.stg5_case1 txn pl3 pl4) := by
  have hparts := case1_parts h hcase hm hs hsaved hmore
  have hno : ¬m = 0 := by omega
  have hroom : q.bytes_out m + PCIM_DATA_WIDTH_BYTES = PCIM_DATA_WIDTH_BYTES * (m + 1) - q.dest := by
    have hdest := h.dest_lt
    unfold bytes_out at *
    rw [width_val] at *
    omega
  have hbytes := hparts.num_bytes_eq hroom
  -- What is saved is never more than what can be.
  have hsav : pl4.num_bytes ≤ txn.num_bytes_sav := by
    have hdest := h.dest_lt
    rw [h.sav, if_pos hcase, hparts.num_bytes]
    unfold bytes_in bytes_out at *
    rw [width_val] at *
    omega
  rw [stg5_case1_rest (hs.first.trans (decide_eq_false hno)), decide_eq_true hsav, Bool.and_true,
    Bool.and_true]
  refine ⟨hbytes, (decide_eq_false hno).symm, hparts.last_eq, hparts.eop_eq, ?_⟩
  intro k hk
  dsimp only at hk ⊢
  rw [hbytes] at hk
  have henough := hparts.enough
  have hle : q.bytes_out (m + 1) ≤ PCIM_DATA_WIDTH_BYTES * (m + 1) - q.dest := Nat.min_le_right _ _
  rw [beat_start, if_neg hno, Nat.zero_add]
  exact hparts.data_eq (by omega) (by omega)

theorem stg5_case2_first (hfirst : pl4.first = true) :
    C2hData.stg5_case2 txn pl3 pl4 =
      { valid := pl4.valid
        num_bytes := if pl4.last then pl4.num_bytes
          else min txn.num_bytes_fo (C2hData.stg5_dp_num_bytes_comb pl3 pl4)
        first := true
        last := pl4.last ||
          (!pl4.last && pl3.last && decide (pl3.num_bytes ≤ txn.num_bytes_dw_minus_sav))
        eop := pl4.eop ||
          (!pl4.eop && pl3.eop && decide (pl3.num_bytes ≤ txn.num_bytes_dw_minus_sav))
        data := C2hData.stg5_dp_data_comb pl3 pl4 <<< (8 * C2hData.txn_dest_idx txn) } := by
  simp [C2hData.stg5_case2, hfirst, min_bytes_2_eq, Nat.min_comm]

theorem stg5_case2_rest (hfirst : pl4.first = false)
    (hend : pl4.last = false → (pl3.last && decide (pl3.num_bytes ≤ txn.num_bytes_dw_minus_sav)) →
      C2hData.stg5_dp_num_bytes_comb pl3 pl4 ≤ PCIM_DATA_WIDTH_BYTES) :
    C2hData.stg5_case2 txn pl3 pl4 =
      { valid := pl4.valid
        num_bytes := if pl4.last then pl4.num_bytes
          else min PCIM_DATA_WIDTH_BYTES (C2hData.stg5_dp_num_bytes_comb pl3 pl4)
        first := false
        last := pl4.last ||
          (!pl4.last && pl3.last && decide (pl3.num_bytes ≤ txn.num_bytes_dw_minus_sav))
        eop := pl4.eop ||
          (!pl4.eop && pl3.eop && decide (pl3.num_bytes ≤ txn.num_bytes_dw_minus_sav))
        data := C2hData.stg5_dp_data_comb pl3 pl4 } := by
  cases hlast : pl4.last with
  | true => simp [C2hData.stg5_case2, hfirst, hlast]
  | false =>
    cases hall : pl3.last && decide (pl3.num_bytes ≤ txn.num_bytes_dw_minus_sav) with
    | true =>
      rw [Nat.min_eq_right (hend hlast hall)]
      simp [C2hData.stg5_case2, hfirst, hlast, hall]
    | false => simp [C2hData.stg5_case2, hfirst, hlast, hall, min_bytes_2_eq, Nat.min_comm]

theorem case2_out (h : q.Held txn) (hcase : q.dest < q.rd) (hs : q.Slice (m + 1) pl3)
    (hsaved : q.Saved m pl4) (hmore : q.bytes_out m < q.bytes) :
    q.Out m (C2hData.stg5_case2 txn pl3 pl4) := by
  have hparts := case2_parts h hcase hs hsaved hmore
  have henough := hparts.enough
  have hle : q.bytes_out (m + 1) ≤ PCIM_DATA_WIDTH_BYTES * (m + 1) - q.dest := Nat.min_le_right _ _
  have hdest := h.dest_lt
  have hwidth : 0 < PCIM_DATA_WIDTH_BYTES := by decide
  by_cases hm : m = 0
  · have hroom : q.bytes_out m + txn.num_bytes_fo = PCIM_DATA_WIDTH_BYTES * (m + 1) - q.dest := by
      have hnone : q.bytes_out 0 = 0 := by
        unfold bytes_out
        omega
      rw [h.fo, hm, hnone]
      omega
    have hbytes := hparts.num_bytes_eq hroom
    rw [stg5_case2_first ((hsaved.first hcase).trans (decide_eq_true hm))]
    refine ⟨hbytes, (decide_eq_true hm).symm, hparts.last_eq, hparts.eop_eq, ?_⟩
    intro k hk
    dsimp only at hk ⊢
    rw [hbytes] at hk
    have hin : q.dest + k < PCIM_DATA_WIDTH_BYTES := by
      rw [h.fo] at hroom
      omega
    have hbus : 8 * (q.dest + k) + 8 ≤ 512 := by
      rw [width_val] at hin
      omega
    rw [h.dest, beat_start, if_pos hm, lane_shift_left _ _ hbus, if_pos (Nat.le_add_right _ _),
      Nat.add_sub_cancel_left]
    exact hparts.data_eq (by omega) (by omega)
  · have hroom : q.bytes_out m + PCIM_DATA_WIDTH_BYTES =
        PCIM_DATA_WIDTH_BYTES * (m + 1) - q.dest := by
      unfold bytes_out at *
      rw [width_val] at *
      omega
    have hbytes := hparts.num_bytes_eq hroom
    have hend : pl4.last = false →
        (pl3.last && decide (pl3.num_bytes ≤ txn.num_bytes_dw_minus_sav)) →
          C2hData.stg5_dp_num_bytes_comb pl3 pl4 ≤ PCIM_DATA_WIDTH_BYTES := by
      intro hlast hall
      have hnot := of_decide_eq_false (hparts.last.symm.trans hlast)
      have hbefore := @bytes_in_le q (m + 1)
      have hfit := hparts.room (by omega)
      have hnum := hparts.slice.num_bytes
      rw [Bool.and_eq_true, decide_eq_true_iff] at hall
      rw [hparts.comb_eq]
      omega
    rw [stg5_case2_rest ((hsaved.first hcase).trans (decide_eq_false hm)) hend]
    refine ⟨hbytes, (decide_eq_false hm).symm, hparts.last_eq, hparts.eop_eq, ?_⟩
    intro k hk
    dsimp only at hk ⊢
    rw [hbytes] at hk
    rw [beat_start, if_neg hm, Nat.zero_add]
    exact hparts.data_eq (by omega) (by omega)

/-- Where rows and beats start alike, a slice is a beat. -/
theorem case3_out (h : q.Held txn) (hcase : q.dest = q.rd) (hs : q.Slice m pl3)
    (hmore : q.ends → q.bytes_out m < q.bytes) : q.Out m (C2hData.stg5_case3 txn pl3) := by
  have hdest := h.dest_lt
  have hin : ∀ j, q.bytes_in j = q.bytes_out j := by
    intro j
    unfold bytes_in bytes_out
    rw [hcase]
  have hnum := hs.num_bytes
  have hlast := hs.last
  have heop := hs.eop
  have hdata := hs.data
  rw [hin, hin] at hnum
  rw [hin] at hlast hdata
  rw [hin, hin] at heop
  refine ⟨hnum, hs.first, hlast, ?_, ?_⟩
  · change pl3.eop = _
    rw [heop]
    cases hends : q.ends with
    | false => rfl
    | true =>
      have hand : (q.bytes_out (m + 1) = q.bytes ∧ q.bytes_out m < q.bytes) ↔
          q.bytes_out (m + 1) = q.bytes := ⟨And.left, fun hc => ⟨hc, hmore hends⟩⟩
      rw [decide_eq_decide.mpr hand]
  · intro k hk
    change k < pl3.num_bytes at hk
    change lane 8 (if pl3.first then pl3.data <<< (8 * C2hData.txn_dest_idx txn) else pl3.data) _ = _
    rw [hs.first, beat_start]
    by_cases hm : m = 0
    · have hbus : 8 * (q.dest + k) + 8 ≤ 512 := by
        unfold bytes_out at hnum
        rw [width_val] at *
        omega
      rw [decide_eq_true hm, if_pos rfl, if_pos hm, h.dest, lane_shift_left _ _ hbus,
        if_pos (Nat.le_add_right _ _), Nat.add_sub_cancel_left, hdata k hk]
    · rw [decide_eq_false hm, if_neg Bool.false_ne_true, if_neg hm, Nat.zero_add, hdata k hk]

/-! ## The two stages -/

theorem saved_of_slice (h : q.Held txn) (hne : q.rd ≠ q.dest) (hs : q.Slice j pl3)
    (hmore : q.bytes_gone j < q.bytes) :
    q.Saved j (if txn.case1_a_gt_r then C2hData.stg4_case1 txn pl3 else C2hData.stg4_case2 txn pl3) := by
  rw [h.case1]
  by_cases hcase : q.rd < q.dest
  · rw [decide_eq_true hcase, if_pos rfl]
    exact case1_saved h hcase hs hmore
  · rw [decide_eq_false hcase, if_neg Bool.false_ne_true]
    exact case2_saved h (by omega) hs hmore

theorem out_of_slice (h : q.Held txn) (hs : q.Slice (m + q.lead) pl3)
    (hsaved : q.rd ≠ q.dest → 0 < m + q.lead → q.Saved (m + q.lead - 1) pl4)
    (hmore : q.bytes_out m < q.bytes) : q.Out m (C2hData.stg5_beat txn pl3 pl4) := by
  unfold C2hData.stg5_beat
  rw [h.case1, h.case2]
  unfold lead at *
  rcases Nat.lt_trichotomy q.rd q.dest with hcase | hcase | hcase
  · have hnot : ¬q.dest < q.rd := by omega
    rw [if_neg hnot, Nat.add_zero] at *
    rw [decide_eq_true hcase, if_pos rfl]
    rcases Nat.eq_zero_or_pos m with rfl | hm
    · exact case1_out_first h hcase hs
    · exact case1_out h hcase hm hs (hsaved (by omega) hm) hmore
  · have hnot : ¬q.rd < q.dest := by omega
    have hnot' : ¬q.dest < q.rd := by omega
    rw [if_neg hnot', Nat.add_zero] at hs
    rw [decide_eq_false hnot, decide_eq_false hnot', if_neg Bool.false_ne_true,
      if_neg Bool.false_ne_true]
    exact case3_out h hcase.symm hs fun _ => hmore
  · have hnot : ¬q.rd < q.dest := by omega
    rw [if_pos hcase] at *
    rw [decide_eq_false hnot, decide_eq_true hcase, if_neg Bool.false_ne_true, if_pos rfl]
    exact case2_out h hcase hs (hsaved (by omega) (Nat.succ_pos m)) hmore

theorem Held.null_ends (h : q.Held txn) (hnull : q.bytes = 0) : q.ends = false := by
  cases hends : q.ends with
  | false => rfl
  | true => exact absurd (h.some hends) (hnull ▸ Nat.lt_irrefl 0)

/-- Without a byte to save, the first slice has nothing but the mark of the last. -/
theorem null_saved (h : q.Held txn) (hnull : q.bytes = 0) (hs : q.Slice 0 pl3) :
    q.Saved 0 (C2hData.stg4_case2 txn pl3) := by
  have hends := h.null_ends hnull
  have hfirst : pl3.first = true := hs.first
  have hin (j : Nat) : q.bytes_in j = 0 := Nat.eq_zero_of_le_zero (hnull ▸ bytes_in_le j)
  have hnum := hs.num_bytes
  have hlast := hs.last
  have heop := hs.eop
  rw [hin, hin] at hnum
  rw [hin, hnull] at hlast
  rw [hends] at heop
  refine ⟨?_, fun _ => hs.first, ?_, ?_, fun k hk => ?_⟩
  · simp [C2hData.stg4_case2, hfirst, hnum, hin]
  · simp [C2hData.stg4_case2, hfirst, hlast, hin, hnull]
  · simp [C2hData.stg4_case2, hfirst, heop, hends]
  · simp [C2hData.stg4_case2, hfirst, hnum] at hk

/-- What slice `j` leaves is wanted: there are bytes to come, or the burst has none and this is its beat. -/
def Wanted (q : C2hJob) (j : Nat) : Prop :=
  q.bytes_gone j < q.bytes ∨ q.bytes = 0 ∧ j = 0 ∧ q.dest < q.rd

theorem saved_of_wanted (h : q.Held txn) (hne : q.rd ≠ q.dest) (hs : q.Slice j pl3) (hwanted : q.Wanted j) :
    q.Saved j (if txn.case1_a_gt_r then C2hData.stg4_case1 txn pl3 else C2hData.stg4_case2 txn pl3) := by
  rcases hwanted with hmore | ⟨hnull, rfl, hcase⟩
  · exact saved_of_slice h hne hs hmore
  · rw [h.case1, decide_eq_false (by omega), if_neg Bool.false_ne_true]
    exact null_saved h hnull hs

/-- A burst without a byte goes out as one beat without a byte, and no packet ends with it. -/
theorem null_out (h : q.Held txn) (hnull : q.bytes = 0) (hs : q.Slice q.lead pl3)
    (hsaved : q.dest < q.rd → q.Saved 0 pl4) : q.Out 0 (C2hData.stg5_beat txn pl3 pl4) := by
  have hends := h.null_ends hnull
  unfold C2hData.stg5_beat
  rw [h.case1, h.case2]
  unfold lead at hs
  rcases Nat.lt_trichotomy q.rd q.dest with hcase | hcase | hcase
  · rw [if_neg (by omega)] at hs
    rw [decide_eq_true hcase, if_pos rfl]
    exact case1_out_first h hcase hs
  · rw [if_neg (by omega)] at hs
    rw [decide_eq_false (by omega), decide_eq_false (by omega), if_neg Bool.false_ne_true,
      if_neg Bool.false_ne_true]
    refine case3_out h hcase.symm hs fun hc => ?_
    rw [hends] at hc
    cases hc
  · rw [if_pos hcase] at hs
    rw [decide_eq_false (by omega), decide_eq_true hcase, if_neg Bool.false_ne_true, if_pos rfl]
    have hin (j : Nat) : q.bytes_in j = 0 := Nat.eq_zero_of_le_zero (hnull ▸ bytes_in_le j)
    have hout (m : Nat) : q.bytes_out m = 0 := Nat.eq_zero_of_le_zero (hnull ▸ bytes_out_le m)
    have hpl4 := hsaved hcase
    have hnum := hpl4.num_bytes
    have hlast := hpl4.last
    have heop := hpl4.eop
    have heop3 := hs.eop
    rw [hin] at hnum
    rw [hin, hnull] at hlast
    rw [hends] at heop heop3
    rw [stg5_case2_first ((hpl4.first hcase).trans rfl)]
    refine ⟨?_, rfl, ?_, ?_, fun k hk => ?_⟩
    · simp [hlast, hnum, hout]
    · simp [hlast, hout, hnull]
    · simp [heop, heop3, hends]
    · simp [hlast, hnum] at hk

theorem gone_eq (hne : q.rd ≠ q.dest) (hpos : 0 < m + q.lead) :
    q.bytes_gone (m + q.lead - 1) = q.bytes_out m := by
  unfold bytes_gone lead at *
  by_cases hcase : q.rd < q.dest
  · have hnot : ¬q.dest < q.rd := by omega
    rw [if_neg hnot] at *
    have hone : m + 0 - 1 + 1 = m := by omega
    rw [if_pos hcase, hone]
  · have hcase' : q.dest < q.rd := by omega
    rw [if_neg hcase, if_pos hcase', Nat.add_sub_cancel]

/-! ## The number of beats -/

theorem beats_pos (q : C2hJob) : 0 < q.beats := Nat.lt_of_lt_of_le Nat.zero_lt_one (Nat.le_max_left _ _)

theorem beats_some {bytes : Nat} (heq : q.bytes = bytes) (hsome : 0 < bytes) :
    q.beats = (q.dest + bytes + PCIM_DATA_WIDTH_BYTES - 1) / PCIM_DATA_WIDTH_BYTES := by
  unfold beats
  rw [heq]
  rw [width_val]
  omega

theorem beats_null (h : q.Held txn) (hnull : q.bytes = 0) : q.beats = 1 := by
  have hdest := h.dest_lt
  unfold beats
  rw [hnull]
  rw [width_val] at *
  omega

theorem bytes_out_lt (h : q.Held txn) (hsome : 0 < q.bytes) (m : Nat) :
    q.bytes_out m < q.bytes ↔ m < q.beats := by
  have hdest := h.dest_lt
  unfold bytes_out beats
  rw [width_val] at *
  omega

theorem bytes_out_all (h : q.Held txn) : q.bytes_out q.beats = q.bytes := by
  have hle := @bytes_out_le q q.beats
  rcases Nat.eq_zero_or_pos q.bytes with hnull | hsome
  · omega
  · have hlt := bytes_out_lt h hsome q.beats
    omega

theorem Out.last_eq {beat : C2hData.Beat} (h : q.Held txn) (hout : q.Out m beat) :
    beat.last = decide (q.beats ≤ m + 1) := by
  have hle := @bytes_out_le q (m + 1)
  rw [hout.last, decide_eq_decide]
  rcases Nat.eq_zero_or_pos q.bytes with hnull | hsome
  · have hone := beats_null h hnull
    omega
  · have hlt := bytes_out_lt h hsome (m + 1)
    omega

end C2hJob

end AwsFpga.Rtl
