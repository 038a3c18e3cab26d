import AwsFpga.Lib.Writes
import AwsFpga.Rtl.SdeC2hBursts

/-!
# What the C2H data mover writes (`sde_c2h_data.sv`)

The beats go to the bursts in order. A descriptor gets the next bytes of the packets, and they are
written from its address on.
-/

open Lib Lib.Axi

namespace AwsFpga.Rtl

/-- What a beat does with a lane. -/
def WBeat.byte (b : WBeat) (l : Nat) : Option (BitVec 8) :=
  if b.strb.getLsbD l then some (lane 8 b.data l) else none

namespace C2hData

variable (i : C2hDataIn) (s : C2hData)

def dm_pm_w : WBeat := s.DP_DATA_OUTPUT_FIFO.headD ⟨0, 0, false⟩

/-- The beat that goes to the output FIFO. -/
def w_pushed : List WBeat := if dp_data_out_ff_push s then [dp_data_out_ff_push_data s] else []

/-- The beat that is taken. -/
def w_taken : List WBeat := fire (dm_pm_wvalid s) i.pm_dm_wready (dm_pm_w s)

/-- How many beats of the burst have gone to the output FIFO. -/
def beats_gone : Nat := if s.pl5_dp.valid then s.curr_txn.awlen - s.pl5_dp.num_beats else 0

end C2hData

namespace C2h

open C2hBuf (BUF_SIZE_BYTES bytes Packed unread row_up)
open C2hData (Flow Serves Empty)

/-! ## The stream -/

/-- The bytes of the packets, one after another. -/
def stream (beats : List AxisBeat) : List (BitVec 8) := beats.flatMap fun b => lanes 8 b.data (bytes b)

/-- Those from a place on. -/
def stream_from (beats : List AxisBeat) (pos : Nat) : List (BitVec 8) :=
  (stream (beats.drop (pos / PCIM_DATA_WIDTH_BYTES))).drop (pos % PCIM_DATA_WIDTH_BYTES)

/-- The descriptors one after another, each with the bytes that it gets. -/
def desc_writes (beats : List AxisBeat) : (pos : Nat) → List C2hIfDesc → List (BitVec 64 × BitVec 8)
  | _, [] => []
  | pos, d :: ds =>
    placed d.dest_addr (desc_bytes beats pos d.len.toNat) (fun k => byte_at beats (pos + k)) ++
      desc_writes beats (desc_end beats pos d.len.toNat) ds

section Stream

variable {beats new : List AxisBeat} {pos x e len sent next : Nat}

theorem stream_from_row {k offset : Nat} {b : AxisBeat} (hget : beats[k]? = some b)
    (hoffset : offset ≤ bytes b) : stream_from beats (PCIM_DATA_WIDTH_BYTES * k + offset) =
      (lanes 8 b.data (bytes b)).drop offset ++ stream (beats.drop (k + 1)) := by
  have hle := C2hBuf.bytes_le b
  obtain ⟨hk, hb⟩ := List.getElem?_eq_some_iff.mp hget
  unfold stream_from
  rcases Nat.lt_or_eq_of_le (hoffset.trans hle) with hlt | rfl
  · rw [Nat.mul_add_div (by decide), Nat.div_eq_of_lt hlt, Nat.add_zero, Nat.mul_add_mod,
      Nat.mod_eq_of_lt hlt, List.drop_eq_getElem_cons hk, hb, stream, List.flatMap_cons,
      List.drop_append_of_le_length (by rwa [lanes_length])]
    rfl
  · have hdrop : (lanes 8 b.data (bytes b)).drop PCIM_DATA_WIDTH_BYTES = [] :=
      List.drop_eq_nil_of_le (by rwa [lanes_length])
    rw [← Nat.mul_succ, Nat.mul_div_cancel_left _ (by decide), Nat.mul_mod_right, List.drop_zero,
      hdrop, List.nil_append]

theorem stream_from_next {b : AxisBeat} (hget : beats[x / PCIM_DATA_WIDTH_BYTES]? = some b)
    (hlt : x % PCIM_DATA_WIDTH_BYTES < bytes b) :
    stream_from beats x = byte_at beats x :: stream_from beats (x + 1) := by
  have hsplit : x = PCIM_DATA_WIDTH_BYTES * (x / PCIM_DATA_WIDTH_BYTES) + x % PCIM_DATA_WIDTH_BYTES :=
    (Nat.div_add_mod _ _).symm
  have hnow := stream_from_row hget (Nat.le_of_lt hlt)
  have hthen := stream_from_row hget (Nat.succ_le_of_lt hlt)
  rw [Nat.succ_eq_add_one, ← Nat.add_assoc, ← hsplit] at hthen
  rw [← hsplit] at hnow
  rw [hnow, hthen, List.drop_eq_getElem_cons (by rwa [lanes_length]), byte_at, hget]
  simp [lanes]

theorem on_byte_within (hon : OnByte beats pos) (hunbroken : Unbroken beats pos e)
    (hpacked : ∀ b ∈ beats, Packed b) (hfits : e ≤ PCIM_DATA_WIDTH_BYTES * beats.length)
    (hlow : pos ≤ x) (hhigh : x < e) :
    ∃ b, beats[x / PCIM_DATA_WIDTH_BYTES]? = some b ∧ x % PCIM_DATA_WIDTH_BYTES < bytes b := by
  have hrow : x / PCIM_DATA_WIDTH_BYTES < beats.length := by
    rw [width_val] at *
    omega
  obtain ⟨b, hget⟩ : ∃ b, beats[x / PCIM_DATA_WIDTH_BYTES]? = some b :=
    ⟨_, List.getElem?_eq_getElem hrow⟩
  refine ⟨b, hget, ?_⟩
  have hmod : x % PCIM_DATA_WIDTH_BYTES < PCIM_DATA_WIDTH_BYTES := Nat.mod_lt _ (by decide)
  cases hlast : b.last with
  | false =>
    rw [(hpacked b (List.mem_of_getElem? hget)).2.2 hlast]
    exact hmod
  | true =>
    have hsplit := Nat.div_add_mod x PCIM_DATA_WIDTH_BYTES
    have hend : EndsAt beats (PCIM_DATA_WIDTH_BYTES * (x / PCIM_DATA_WIDTH_BYTES) + bytes b) :=
      ⟨_, b, hget, hlast, rfl⟩
    by_contra hge
    rcases Nat.lt_or_ge pos (PCIM_DATA_WIDTH_BYTES * (x / PCIM_DATA_WIDTH_BYTES) + bytes b) with
      hlt | hle
    · have hfirst := hunbroken _ hend hlt
      omega
    · -- The place is in the same row, behind the end of the packet.
      have hrow_le : x / PCIM_DATA_WIDTH_BYTES ≤ pos / PCIM_DATA_WIDTH_BYTES := by
        rw [Nat.le_div_iff_mul_le (by decide), Nat.mul_comm]
        exact (Nat.le_add_right _ _).trans hle
      have hsame := Nat.le_antisymm (Nat.div_le_div_right hlow) hrow_le
      have hpos := Nat.div_add_mod pos PCIM_DATA_WIDTH_BYTES
      rw [← hsame] at hget hle
      have hbyte := hon _ hget
      omega

theorem stream_from_run (hon : OnByte beats pos) (hunbroken : Unbroken beats pos (pos + sent))
    (hpacked : ∀ b ∈ beats, Packed b) (hfits : pos + sent ≤ PCIM_DATA_WIDTH_BYTES * beats.length)
    {n : Nat} (hn : n ≤ sent) : stream_from beats pos =
      (List.range n).map (fun k => byte_at beats (pos + k)) ++ stream_from beats (pos + n) := by
  induction n with
  | zero => rfl
  | succ n ih =>
    obtain ⟨b, hget, hlt⟩ := on_byte_within (x := pos + n) hon hunbroken hpacked hfits
      (Nat.le_add_right _ _) (by omega)
    rw [ih (by omega), stream_from_next hget hlt, List.range_succ, List.map_append, List.append_assoc]
    rfl

/-- Behind the end of a packet, the next byte is in the next row. -/
theorem stream_from_end (hpacked : ∀ b ∈ beats, Packed b) (hend : EndsAt beats x) :
    stream_from beats (row_up x) = stream_from beats x := by
  obtain ⟨k, b, hget, hlast, rfl⟩ := hend
  have hpos := (hpacked b (List.mem_of_getElem? hget)).1
  have hle := C2hBuf.bytes_le b
  have hup : row_up (PCIM_DATA_WIDTH_BYTES * k + bytes b) = PCIM_DATA_WIDTH_BYTES * (k + 1) := by
    unfold row_up
    rw [width_val] at *
    omega
  have hnone : (lanes 8 b.data (bytes b)).drop (bytes b) = [] :=
    List.drop_eq_nil_of_le (Nat.le_of_eq (lanes_length _ _))
  rw [hup, stream_from_row hget (Nat.le_refl _), hnone, List.nil_append, stream_from,
    Nat.mul_div_cancel_left _ (by decide), Nat.mul_mod_right, List.drop_zero]

theorem Got.stream_from (h : Got beats pos len sent next) :
    C2h.stream_from beats pos =
      (List.range sent).map (fun k => byte_at beats (pos + k)) ++ C2h.stream_from beats next := by
  rw [stream_from_run h.on_byte h.unbroken h.packed h.fits (Nat.le_refl _)]
  rcases h.done with ⟨⟨-, hend⟩, rfl⟩ | ⟨-, -, rfl⟩
  · rw [stream_from_end h.packed hend]
  · rfl

/-! ## The descriptors that were written -/

theorem desc_writes_concat (ds : List C2hIfDesc) (d : C2hIfDesc) :
    desc_writes beats pos (ds ++ [d]) = desc_writes beats pos ds ++
      desc_writes beats (ds.foldl (fun pos d => desc_end beats pos d.len.toNat) pos) [d] := by
  induction ds generalizing pos with
  | nil => rfl
  | cons d' ds ih =>
    rw [List.cons_append, desc_writes, desc_writes, ih, List.append_assoc]
    rfl

variable {p : C2hDataParams} {ds : List C2hIfDesc} {bss : List (List (Burst 64))}

theorem Got.placed_writes (h : Got beats pos len sent next) {d : C2hIfDesc} (hlen : d.len.toNat = len) :
    desc_writes beats pos [d] = placed d.dest_addr sent fun k => byte_at beats (pos + k) := by
  rw [desc_writes, hlen, h.eq.1]
  exact List.append_nil _

/-- The first `m` bytes of a descriptor that starts at a place are there, and no packet ends before
them. -/
structure First (beats : List AxisBeat) (pos len m : Nat) : Prop where
  packed : ∀ b ∈ beats, Packed b
  on_byte : OnByte beats pos
  unbroken : Unbroken beats pos (pos + m)
  le : m ≤ len
  fits : pos + m ≤ PCIM_DATA_WIDTH_BYTES * beats.length

theorem First.placed_writes {m : Nat} (h : First beats pos len m) {d : C2hIfDesc}
    (hlen : d.len.toNat = len) :
    placed d.dest_addr m (fun k => byte_at beats (pos + k)) <+: desc_writes beats pos [d] := by
  rw [desc_writes, desc_writes, List.append_nil, hlen]
  exact placed_prefix (le_desc_bytes h.packed h.on_byte h.unbroken h.le)

theorem Chain.writes_append (h : Chain p beats ds bss pos) (hpacked : ∀ b ∈ new, Packed b) :
    desc_writes (beats ++ new) 0 ds = desc_writes beats 0 ds := by
  induction h with
  | nil => rfl
  | snoc before got tiles good ih =>
    have hfits := got.fits
    rw [desc_writes_concat, desc_writes_concat, ih, (before.append hpacked).place, before.place,
      (got.append hpacked).placed_writes rfl, got.placed_writes rfl]
    congr 1
    exact placed_congr fun k hk => byte_at_append (by omega)

theorem Chain.stream (h : Chain p beats ds bss pos) :
    C2h.stream beats = (desc_writes beats 0 ds).map Prod.snd ++ stream_from beats pos := by
  induction h with
  | nil => rfl
  | snoc before got tiles good ih =>
    rw [desc_writes_concat, before.place, got.placed_writes rfl, ih, got.stream_from, List.map_append,
      placed_values, List.append_assoc]

end Stream

/-! ## The beats -/

section Beat

variable {p : C2hDataParams} {q : C2hJob} {m base c : Nat} {txn : C2hTxn} {beat : C2hData.Beat}
  {dm : C2hData}

theorem strb_all_lane {num_bytes l : Nat} (hl : l < PCIM_DATA_WIDTH_BYTES) :
    (C2hData.stg5_dp_strb_all num_bytes).getLsbD l = decide (l < num_bytes) := by
  have hlane := lane_of_lanes (c := 1) (fun byte_idx => BitVec.ofBool (byte_idx < num_bytes)) hl
  have hbit := congrArg (BitVec.getLsbD · 0) hlane
  have hindex : 1 * l + 0 = l := Nat.one_mul l
  rw [getLsbD_lane _ _ Nat.one_pos, hindex] at hbit
  exact hbit.trans (by simp)

theorem strb_lane (h : q.Held txn) (hout : q.Out m beat) {l : Nat} (hl : l < PCIM_DATA_WIDTH_BYTES) :
    (C2hData.stg5_dp_strb txn beat).getLsbD l =
      decide (q.beat_start m ≤ l ∧ l < q.beat_start m + beat.num_bytes) := by
  unfold C2hData.stg5_dp_strb C2hJob.beat_start
  rw [hout.first]
  by_cases hm : m = 0
  · rw [decide_eq_true hm, if_pos rfl, if_pos hm, h.dest, BitVec.getLsbD_shiftLeft,
      strb_all_lane (by omega), decide_eq_true (by exact hl), Bool.true_and, ← decide_not,
      ← Bool.decide_and, decide_eq_decide]
    omega
  · rw [decide_eq_false hm, if_neg Bool.false_ne_true, if_neg hm, strb_all_lane hl, decide_eq_decide]
    omega

theorem held_eq (q : C2hJob) (m : Nat) :
    Burst.held PCIM_DATA_WIDTH_BYTES q.dest q.bytes m = q.bytes_out m := rfl

theorem beat_holds (hserves : Serves p base q dm) (hf : Flow p base q c dm) (hc : 4 + q.lead ≤ c) :
    Burst.Holds PCIM_DATA_WIDTH_BYTES WBeat.byte q.dest q.bytes (c - 4 - q.lead) q.byte
      (C2hData.dp_data_out_ff_push_data dm) := by
  have hout := hf.out hc
  have hdest := hserves.held.dest_lt
  have hnum := hout.num_bytes
  have hbyte (l : Nat) (hl : l < PCIM_DATA_WIDTH_BYTES) :
      (C2hData.dp_data_out_ff_push_data dm).byte l =
        if q.beat_start (c - 4 - q.lead) ≤ l ∧
            l < q.beat_start (c - 4 - q.lead) + dm.pl5_dp.beat.num_bytes then
          some (lane 8 dm.pl5_dp.data l) else none := by
    unfold WBeat.byte
    change (if dm.pl5_dp.strb.getLsbD l = true then _ else _) = _
    rw [hf.strb hc, strb_lane hserves.held hout hl]
    simp only [decide_eq_true_eq]
    rfl
  constructor
  · intro k hk
    rw [held_eq, held_eq, ← hnum] at hk
    have hroom : q.beat_start (c - 4 - q.lead) + k < PCIM_DATA_WIDTH_BYTES := by
      rw [hnum] at hk
      unfold C2hJob.beat_start C2hJob.bytes_out at *
      rw [width_val] at *
      split <;> omega
    change WBeat.byte _ (q.beat_start (c - 4 - q.lead) + k) = _
    rw [hbyte _ hroom, if_pos (by omega), held_eq]
    exact congrArg some (hout.data k hk)
  · intro l hl hside
    rw [held_eq, held_eq, ← hnum] at hside
    rw [hbyte l hl, if_neg]
    change l < q.beat_start (c - 4 - q.lead) ∨ q.beat_start (c - 4 - q.lead) + _ ≤ l at hside
    omega

end Beat

section Gone

variable {p : C2hDataParams} {i : C2hDataIn} {q : C2hJob} {base c : Nat} {dm : C2hData}

theorem gone_of_empty (h : Empty dm) : C2hData.beats_gone dm = 0 := by
  rw [C2hData.beats_gone, h.pl5, if_neg Bool.false_ne_true]

theorem gone_of_flow (hserves : Serves p base q dm) (hf : Flow p base q c dm) (hsome : 0 < q.bytes) :
    C2hData.beats_gone dm = c - 4 - q.lead := by
  unfold C2hData.beats_gone
  rw [hf.pl5]
  by_cases hc : 4 + q.lead ≤ c
  · have hbeats := hf.num_beats hsome hc
    have hlen := hserves.awlen hsome
    rw [decide_eq_true hc, if_pos rfl]
    omega
  · rw [decide_eq_false hc, if_neg Bool.false_ne_true]
    omega

theorem gone_of_phase {s : C2h} {beats : List AxisBeat} {rows rp r : Nat}
    (h : Phase p s beats rows rp r base) (hstate : s.SDE_C2H_DATA.req_state ≠ .REQ_DATA) :
    C2hData.beats_gone s.SDE_C2H_DATA = 0 := by
  cases h with
  | idle state empty => exact gone_of_empty empty
  | next state empty => exact gone_of_empty empty
  | wait state empty => exact gone_of_empty empty
  | addr q state empty => exact gone_of_empty empty
  | load q state => exact absurd state hstate
  | data q c state => exact absurd state hstate

end Gone

/-! ## Whole runs -/

section Runs

variable (p : C2hDataParams) (ins : Nat → C2hIn)

/-- The beats that went to the output FIFO before cycle `n`. -/
def w_in (n : Nat) : List WBeat :=
  (circuit p).passed ins (fun _ s => C2hData.w_pushed s.SDE_C2H_DATA) n

/-- The beats that were taken before cycle `n`. -/
def w_out (n : Nat) : List WBeat :=
  (circuit p).passed ins (fun i s => C2hData.w_taken (data_in p i s) s.SDE_C2H_DATA) n

/-- Those that wait to be taken. -/
def w_waiting (n : Nat) : List WBeat := ((circuit p).state ins n).SDE_C2H_DATA.DP_DATA_OUTPUT_FIFO

/-- Where the descriptor starts that is written in cycle `n`. -/
def start_place (n : Nat) : Nat :=
  (descs_written p ins n).foldl (fun pos d => desc_end (beats_in p ins n) pos d.len.toNat) 0

/-- What the beats write, at the addresses of the bursts. -/
def bytes_written (n : Nat) (beats : List WBeat) : List (BitVec 64 × BitVec 8) :=
  Burst.all_writes PCIM_DATA_WIDTH_BYTES WBeat.byte (writes_out p ins n) beats

/-- What is expected of the beats that were taken before cycle `n` or wait to be taken. -/
structure Delivered (n : Nat) : Prop where
  /-- `wlast` is set on the last beat of each burst, and on no other. -/
  last : (w_out p ins n ++ w_waiting p ins n).map WBeat.last <+:
    (writes_out p ins n).flatMap fun b => beats (b.beats - 1)
  /-- Each descriptor has its bytes from its address on, and the one in progress the first of them. -/
  descs : ∃ started, bytes_written p ins n (w_out p ins n ++ w_waiting p ins n) =
      desc_writes (beats_in p ins n) 0 (descs_written p ins n) ++ started ∧
    started <+: desc_writes (beats_in p ins n) (start_place p ins n) (in_progress p ins n).toList
  /-- These are the next bytes of the packets. -/
  stream : (bytes_written p ins n (w_out p ins n ++ w_waiting p ins n)).map Prod.snd <+:
    stream (beats_in p ins n)
  /-- Of them, those that were taken are the first. -/
  taken : bytes_written p ins n (w_out p ins n) <+:
    bytes_written p ins n (w_out p ins n ++ w_waiting p ins n)

variable {p ins} {n : Nat}

theorem w_in_eq : w_in p ins n = w_out p ins n ++ w_waiting p ins n := by
  refine Circuit.passed_eq (P := fun _ => True) (m := fun _ _ => True)
    (fun s : C2h => s.SDE_C2H_DATA.DP_DATA_OUTPUT_FIFO) (fun _ => trivial) (fun _ => trivial) rfl ?_ n
  intro i s _ _
  have hroom : s.SDE_C2H_DATA.DP_DATA_OUTPUT_FIFO.length < C2hData.DP_DATA_OUTPUT_FIFO_DEPTH ∨
      (if C2hData.dp_data_out_ff_push s.SDE_C2H_DATA then
        some (C2hData.dp_data_out_ff_push_data s.SDE_C2H_DATA) else none) = none := by
    cases hpush : C2hData.dp_data_out_ff_push s.SDE_C2H_DATA with
    | false => exact .inr rfl
    | true =>
      simp [C2hData.dp_data_out_ff_push, C2hData.dp_stall, watermark,
        C2hData.DP_DATA_OUTPUT_FIFO_DEPTH] at hpush
      exact .inl (Nat.lt_succ_of_le (Nat.le_of_not_lt (of_decide_eq_false hpush.2)))
  have hpop : C2hData.dp_data_out_ff_pop (data_in p i s) s.SDE_C2H_DATA →
      s.SDE_C2H_DATA.DP_DATA_OUTPUT_FIFO ≠ [] := by
    intro hpop hempty
    simp [C2hData.dp_data_out_ff_pop, C2hData.dm_pm_wvalid, hempty] at hpop
  change _ = _ ++ flop_fifo _ _ _ _
  rw [flop_fifo_eq hroom hpop, C2hData.w_pushed, C2hData.w_taken, fire, C2hData.dp_data_out_ff_pop,
    ← List.append_assoc]
  congr 1
  · cases hfifo : s.SDE_C2H_DATA.DP_DATA_OUTPUT_FIFO with
    | nil => simp [C2hData.dm_pm_wvalid, hfifo]
    | cons w rest =>
      cases (data_in p i s).pm_dm_wready <;> simp [C2hData.dm_pm_wvalid, C2hData.dm_pm_w, hfifo]
  · cases C2hData.dp_data_out_ff_push s.SDE_C2H_DATA <;> rfl

/-! ### What is due -/

variable (p ins) in
/-- What the bursts before the one that is sent have to write. -/
def due (n : Nat) : List (BitVec 64 × BitVec 8) :=
  desc_writes (beats_in p ins n) 0 (descs_written p ins n) ++
    (in_progress p ins n).toList.flatMap fun d =>
      placed d.dest_addr (place p ins n - start_place p ins n)
        fun k => byte_at (beats_in p ins n) (start_place p ins n + k)

theorem progress_here (hpacked : ∀ n, (ins n).axis_buf_valid → Packed (ins n).axis_buf) (n : Nat) :
    Progress p ins n (descs_written p ins n) (in_progress p ins n) (start_place p ins n) := by
  obtain ⟨ds, cur, pos, h⟩ := @progress_state p ins hpacked n
  obtain ⟨hds, hcur⟩ := h.descs_eq
  have hpos : start_place p ins n = pos := by
    rw [start_place, hds]
    exact h.chain.place
  rw [hds, hcur, hpos]
  exact h

section Due

variable {ds ds' : List C2hIfDesc} {cur cur' : Option C2hIfDesc} {started : List (Burst 64)}
  {pos pos' : Nat}

theorem written_kept (h : Progress p ins n ds cur pos) (h' : Progress p ins (n + 1) ds' cur' pos')
    (hdone : C2hData.data_tx_done ((circuit p).state ins n).SDE_C2H_DATA = false) :
    ds' = ds ∧ (cur = none ∨ cur' = cur) := by
  have hdescs := h'.descs
  rw [descs_in_succ, h.descs] at hdescs
  cases cur with
  | some d =>
    have hbusy : ((circuit p).state ins n).SDE_C2H_DATA.req_state ≠ .REQ_IDLE := fun hidle =>
      absurd (h.idle.mp hidle) (Option.some_ne_none _)
    have hnext := (@burst_step p (data_in p (ins n) ((circuit p).state ins n)) _ hbusy hdone).2
    rw [popped_busy hbusy, List.append_nil] at hdescs
    cases cur' with
    | none => exact absurd (h'.idle.mpr rfl) hnext
    | some d' =>
      obtain ⟨hds, hd⟩ := List.append_inj' hdescs rfl
      exact ⟨hds.symm, .inr (congrArg some (List.singleton_inj.mp hd).symm)⟩
  | none =>
    have hstate := h.idle.mpr rfl
    have hnext : ((circuit p).state ins (n + 1)).SDE_C2H_DATA.req_state =
        if (ins n).desc_dm_desc_valid then .REQ_WAIT_DATA else .REQ_IDLE := by
      change C2hData.req_state_next _ _ = _
      rw [C2hData.req_state_next, hstate]
      rfl
    refine ⟨?_, .inl rfl⟩
    have hpop : C2hData.dm_desc_pop (data_in p (ins n) ((circuit p).state ins n))
        ((circuit p).state ins n).SDE_C2H_DATA = (ins n).desc_dm_desc_valid := by
      simp [C2hData.dm_desc_pop, hstate, data_in]
    rw [C2hData.popped, hpop, Option.toList_none, List.append_nil] at hdescs
    cases hvalid : (ins n).desc_dm_desc_valid with
    | false =>
      rw [hvalid, if_neg Bool.false_ne_true] at hnext
      rw [hvalid, h'.idle.mp hnext, if_neg Bool.false_ne_true, List.append_nil, Option.toList_none,
        List.append_nil] at hdescs
      exact hdescs.symm
    | true =>
      rw [hvalid, if_pos rfl] at hnext hdescs
      cases cur' with
      | none =>
        have hidle := h'.idle.mpr rfl
        rw [hnext] at hidle
        cases hidle
      | some d' => exact (List.append_inj' hdescs rfl).1.symm

theorem start_kept (h : Progress p ins n ds cur pos) (h' : Progress p ins (n + 1) ds cur' pos')
    (hpacked : ∀ b ∈ accepted (ins n) ((circuit p).state ins n), Packed b) : pos' = pos := by
  rw [← h'.chain.place, ← (h.chain.append hpacked).place]
  rfl

theorem Current.joined {d : C2hIfDesc} {beats : List AxisBeat} {base : Nat} {dm : C2hData}
    (h : Current p beats pos base d dm started) (n : Nat) :
    placed d.dest_addr (base - pos) (fun k => byte_at beats (pos + k)) ++
        placed (C2hData.burst dm).addr n (fun k => byte_at beats (base + k)) =
      placed d.dest_addr (base - pos + n) fun k => byte_at beats (pos + k) := by
  have hle := h.le
  have haddr : (C2hData.burst dm).addr = d.dest_addr + BitVec.ofNat 64 (base - pos) := h.dest
  rw [placed_add, haddr]
  congr 1
  refine placed_congr fun k _ => ?_
  rw [← Nat.add_assoc, Nat.add_sub_cancel' hle]

theorem due_kept (hpacked : ∀ n, (ins n).axis_buf_valid → Packed (ins n).axis_buf)
    (hnew : ∀ b ∈ accepted (ins n) ((circuit p).state ins n), Packed b)
    (hdone : C2hData.data_tx_done ((circuit p).state ins n).SDE_C2H_DATA = false) :
    due p ins (n + 1) = due p ins n := by
  have h := progress_here (p := p) hpacked n
  have h' := progress_here (p := p) hpacked (n + 1)
  obtain ⟨hds, hcur⟩ := written_kept h h' hdone
  rw [hds] at h'
  have hpos := start_kept h h' hnew
  have hplace : place p ins (n + 1) = place p ins n := place_kept hdone _
  have hwritten : desc_writes (beats_in p ins (n + 1)) 0 (descs_written p ins n) =
      desc_writes (beats_in p ins n) 0 (descs_written p ins n) := h.chain.writes_append hnew
  unfold due
  rw [hds, hwritten, hplace, hpos]
  congr 1
  rcases hcur with hcur | hcur
  · obtain ⟨-, hstart⟩ := h.none hcur
    rw [hcur, hstart, Nat.sub_self]
    simp
  · rw [hcur]
    cases hd : in_progress p ins n with
    | none => rfl
    | some d =>
      have hcurrent := h.current d hd
      have hle := hcurrent.le
      have hfits := hcurrent.fits
      simp only [Option.toList_some, List.flatMap_singleton]
      refine placed_congr fun k hk => byte_at_append ?_
      change _ < PCIM_DATA_WIDTH_BYTES * (beats_in p ins n).length
      omega

/-- With the last beat of a burst, what is due of the descriptor are its bytes up to there. -/
theorem due_joined {d : C2hIfDesc} {q : C2hJob} (hd : in_progress p ins n = some d)
    (hcur : Current p (beats_in p ins n) (start_place p ins n) (place p ins n) d
      ((circuit p).state ins n).SDE_C2H_DATA (bursts_started p ins n))
    (hfits : place p ins n + q.bytes ≤ PCIM_DATA_WIDTH_BYTES * (beats_in p ins n).length) :
    due p ins n ++ placed (C2hData.burst ((circuit p).state ins n).SDE_C2H_DATA).addr q.bytes
        (fun k => byte_at (beats_in p ins n) (place p ins n + k)) =
      desc_writes (beats_in p ins n) 0 (descs_written p ins n) ++
        placed d.dest_addr (place p ins n + q.bytes - start_place p ins n)
          fun k => byte_at (beats_in p ins (n + 1)) (start_place p ins n + k) := by
  have hle := hcur.le
  have hsum : place p ins n - start_place p ins n + q.bytes =
      place p ins n + q.bytes - start_place p ins n := by omega
  have hbytes : placed d.dest_addr (place p ins n + q.bytes - start_place p ins n)
        (fun k => byte_at (beats_in p ins (n + 1)) (start_place p ins n + k)) =
      placed d.dest_addr (place p ins n + q.bytes - start_place p ins n)
        fun k => byte_at (beats_in p ins n) (start_place p ins n + k) := by
    refine placed_congr fun k hk => byte_at_append ?_
    change _ < PCIM_DATA_WIDTH_BYTES * (beats_in p ins n).length
    omega
  rw [hbytes, due, hd, Option.toList_some, List.flatMap_singleton, List.append_assoc, hcur.joined, hsum]

theorem due_done {q : C2hJob} {rows : Nat}
    (hpacked : ∀ n, (ins n).axis_buf_valid → Packed (ins n).axis_buf)
    (hall : ∀ b ∈ beats_in p ins n, Packed b)
    (hnew : ∀ b ∈ accepted (ins n) ((circuit p).state ins n), Packed b)
    (hstate : ((circuit p).state ins n).SDE_C2H_DATA.req_state = .REQ_DATA)
    (hserves : Serves p (place p ins n) q ((circuit p).state ins n).SDE_C2H_DATA)
    (hchosen : Chosen p (beats_in p ins n) rows (place p ins n) q
      ((circuit p).state ins n).SDE_C2H_DATA)
    (hrows : rows ≤ (beats_in p ins n).length)
    (hmax : ((circuit p).state ins n).SDE_C2H_DATA.curr_desc_max_minus_dest_addr =
      C2hData.PCIM_MAX_WR_SIZE_BYTES p -
        ((circuit p).state ins n).SDE_C2H_DATA.curr_desc_dest_addr.toNat %
          C2hData.PCIM_MAX_WR_SIZE_BYTES p)
    (hdone : C2hData.data_tx_done ((circuit p).state ins n).SDE_C2H_DATA = true)
    (heop : ((circuit p).state ins n).SDE_C2H_DATA.pl5_dp.eop = q.ends) :
    due p ins (n + 1) = due p ins n ++
      placed (C2hData.burst ((circuit p).state ins n).SDE_C2H_DATA).addr q.bytes
        fun k => byte_at (beats_in p ins n) (place p ins n + k) := by
  have h := progress_here (p := p) hpacked n
  have h' := progress_here (p := p) hpacked (n + 1)
  have hbusy : ((circuit p).state ins n).SDE_C2H_DATA.req_state ≠ .REQ_IDLE := by
    rw [hstate]
    decide
  obtain ⟨d, hd⟩ := Option.ne_none_iff_exists'.mp fun hc => hbusy (h.idle.mpr hc)
  have hcur := h.current d hd
  have hnext : ((circuit p).state ins (n + 1)).SDE_C2H_DATA.req_state =
      if C2hData.data_desc_done ((circuit p).state ins n).SDE_C2H_DATA then .REQ_IDLE
      else .REQ_WAIT_CALC := state_done hdone hstate
  have hdescs := h'.descs
  rw [descs_in_succ, popped_busy hbusy, List.append_nil, h.descs, hd] at hdescs
  have hwritten : desc_writes (beats_in p ins (n + 1)) 0 (descs_written p ins n) =
      desc_writes (beats_in p ins n) 0 (descs_written p ins n) := h.chain.writes_append hnew
  rw [due_joined hd hcur (hchosen.fits.trans (Nat.mul_le_mul_left _ hrows)), due]
  cases hdesc : C2hData.data_desc_done ((circuit p).state ins n).SDE_C2H_DATA with
  | true =>
    -- The descriptor is done, and has all its bytes.
    rw [hdesc, if_pos rfl] at hnext
    have hidle := h'.idle.mp hnext
    obtain ⟨-, -, hunbroken⟩ := hcur.all_sent hstate hserves hchosen hmax
    have hgot := hcur.got hall hserves hchosen hrows hunbroken ((desc_done_iff hdone heop).mp hdesc)
    rw [hidle, Option.toList_none, List.append_nil] at hdescs
    rw [hidle, ← hdescs, Option.toList_some, desc_writes_concat, hwritten]
    have hstart : (descs_written p ins n).foldl
        (fun pos d => desc_end (beats_in p ins (n + 1)) pos d.len.toNat) 0 = start_place p ins n :=
      (h.chain.append hnew).place
    have hlast : desc_writes (beats_in p ins (n + 1)) (start_place p ins n) [d] = _ :=
      (hgot.append hnew).placed_writes rfl
    rw [hstart, hlast, Option.toList_none, List.flatMap_nil, List.append_nil]
    rfl
  | false =>
    -- It goes on with the next burst.
    rw [hdesc, if_neg Bool.false_ne_true] at hnext
    obtain ⟨d', hd'⟩ := Option.ne_none_iff_exists'.mp fun hc => by
      have hidle := h'.idle.mpr hc
      rw [hnext] at hidle
      cases hidle
    rw [hd'] at hdescs
    obtain ⟨hds, hsame⟩ := List.append_inj' hdescs rfl
    obtain rfl := List.singleton_inj.mp hsame
    rw [← hds] at h'
    have hpos := start_kept h h' hnew
    have hbase : place p ins (n + 1) = place p ins n + q.bytes := by
      refine (place_done hdone hstate hserves.held.num_bytes heop _).trans ?_
      rw [base_next, not_ends_of_more hdone heop hdesc, if_neg Bool.false_ne_true]
    rw [hd', ← hds, hwritten, Option.toList_some, List.flatMap_singleton, hpos, hbase]

end Due

/-! ### What was sent -/

/-- The bursts `sent` have all their beats, and the beats `part` are those of the burst that is sent. -/
structure Sent (p : C2hDataParams) (ins : Nat → C2hIn) (n : Nat) (sent : List (Burst 64))
    (gone part : List WBeat) : Prop where
  bursts : writes_out p ins n = sent ++
    if ((circuit p).state ins n).SDE_C2H_DATA.req_state = .REQ_DATA then
      [C2hData.burst ((circuit p).state ins n).SDE_C2H_DATA] else []
  pushed : w_in p ins n = gone ++ part
  length : gone.length = (sent.map Burst.beats).sum
  marks : gone.map WBeat.last = sent.flatMap fun b => beats (b.beats - 1)
  not_last : ∀ w ∈ part, w.last = false
  count : part.length = C2hData.beats_gone ((circuit p).state ins n).SDE_C2H_DATA
  written : Burst.all_writes PCIM_DATA_WIDTH_BYTES WBeat.byte sent gone = due p ins n
  part_written : (C2hData.burst ((circuit p).state ins n).SDE_C2H_DATA).writes PCIM_DATA_WIDTH_BYTES
      WBeat.byte part =
    placed (C2hData.burst ((circuit p).state ins n).SDE_C2H_DATA).addr
      (Burst.held PCIM_DATA_WIDTH_BYTES
        ((C2hData.burst ((circuit p).state ins n).SDE_C2H_DATA).addr.toNat % PCIM_DATA_WIDTH_BYTES)
        (C2hData.burst ((circuit p).state ins n).SDE_C2H_DATA).bytes part.length)
      fun k => byte_at (beats_in p ins n) (place p ins n + k)

theorem sent_zero : Sent p ins 0 [] [] [] where
  bursts := rfl
  pushed := rfl
  length := rfl
  marks := rfl
  not_last := fun _ hw => absurd hw List.not_mem_nil
  count := rfl
  written := rfl
  part_written := by
    rw [List.length_nil, Burst.held, Nat.mul_zero, Nat.zero_sub, Nat.min_zero]
    rfl

theorem burst_kept {i : C2hDataIn} {dm : C2hData} (hdone : C2hData.data_tx_done dm = false)
    (hstate : dm.req_state = .REQ_DATA) : C2hData.burst (C2hData.step p i dm) = C2hData.burst dm := by
  have hnot : dm.req_state ≠ .REQ_WAIT_DATA := by
    rw [hstate]
    decide
  have hbusy : dm.req_state ≠ .REQ_IDLE := by
    rw [hstate]
    decide
  have htxn : (C2hData.step p i dm).curr_txn = dm.curr_txn := if_neg hnot
  have hdesc := (@desc_kept p i dm hdone hbusy).1
  simp only [C2hData.burst, C2hData.dm_pm_awaddr, C2hData.dm_pm_awlen, hdesc, htxn]

section Step

variable {s : C2h} {i : C2hIn} {beats bq bqq : List AxisBeat} {rp r base c : Nat} {q : C2hJob}

theorem no_done_of_no_push {dm : C2hData} (hpush : C2hData.dp_data_out_ff_push dm = false) :
    C2hData.data_tx_done dm = false := by
  unfold C2hData.dp_data_out_ff_push at hpush
  rw [C2hData.data_tx_done, hpush, Bool.false_and]

/-- A beat goes to the output FIFO only when the stages run. -/
theorem Phase.of_push {rows : Nat} (h : Phase p s beats rows rp r base)
    (hpush : C2hData.dp_data_out_ff_push s.SDE_C2H_DATA = true) :
    ∃ q c, s.SDE_C2H_DATA.req_state = .REQ_DATA ∧ Flow p base q c s.SDE_C2H_DATA ∧
      s.SDE_C2H_DATA.aw_req_done_q = false ∧ r = base + q.bytes_out (c - 4 - q.lead) ∧
      (base ≤ rp ∧ rp ≤ r) ∧ Serves p base q s.SDE_C2H_DATA ∧
      Chosen p beats rows base q s.SDE_C2H_DATA ∧
      (s.SDE_C2H_DATA.pl1_dp.rd → q.RowData (c - 1) s.SDE_C2H_BUF.buf_ram_rdata) := by
  have hempty (empty : Empty s.SDE_C2H_DATA) : False := by
    rw [C2hData.dp_data_out_ff_push, empty.pl5] at hpush
    cases hpush
  cases h with
  | idle state empty => exact (hempty empty).elim
  | next state empty => exact (hempty empty).elim
  | wait state empty => exact (hempty empty).elim
  | addr q state empty => exact (hempty empty).elim
  | load q state empty => exact (hempty empty).elim
  | data q c state flow started here before serves chosen rdata =>
    exact ⟨q, c, state, flow, started, here, before, serves, chosen, rdata⟩

theorem gone_quiet (h : Linked p s beats bq bqq rp r base) (hphase : Phase p s beats bqq.length rp r base)
    (hlen : s.SDE_C2H_DATA.req_state ≠ .REQ_IDLE → 0 < s.SDE_C2H_DATA.curr_desc_len)
    (hpush : C2hData.dp_data_out_ff_push s.SDE_C2H_DATA = false) :
    C2hData.beats_gone ((circuit p).step i s).SDE_C2H_DATA = C2hData.beats_gone s.SDE_C2H_DATA := by
  have hempty (empty : Empty s.SDE_C2H_DATA) : C2hData.beats_gone ((circuit p).step i s).SDE_C2H_DATA =
      C2hData.beats_gone s.SDE_C2H_DATA := by
    have hpl5 : ((circuit p).step i s).SDE_C2H_DATA.pl5_dp.valid = false :=
      (empty.stages (p := p) (i := data_in p i s)).2.2.2.2.2.2
    rw [gone_of_empty empty, C2hData.beats_gone, hpl5, if_neg Bool.false_ne_true]
  cases hphase with
  | idle state empty => exact hempty empty
  | next state empty => exact hempty empty
  | wait state empty => exact hempty empty
  | addr q state empty => exact hempty empty
  | load q state empty => exact hempty empty
  | data q c state flow started here before serves chosen rdata =>
    have hdone := no_done_of_no_push hpush
    have hnot : s.SDE_C2H_DATA.req_state ≠ .REQ_WAIT_DATA := by
      rw [state]
      decide
    have hserves : Serves p base q ((circuit p).step i s).SDE_C2H_DATA := serves_kept serves hdone hnot
    have hsome := chosen.some (hlen (by rw [state]; decide))
    cases hstall : C2hData.dp_stall s.SDE_C2H_DATA with
    | true =>
      have hflow : Flow p base q c ((circuit p).step i s).SDE_C2H_DATA :=
        flow.step_stall hstall hnot rdata
      rw [gone_of_flow hserves hflow hsome, gone_of_flow serves flow hsome]
    | false =>
      have hlate : ¬4 + q.lead ≤ c := by
        rw [C2hData.dp_data_out_ff_push, hstall, Bool.not_false, Bool.and_true, flow.pl5] at hpush
        exact of_decide_eq_false hpush
      have hflow : Flow p base q (c + 1) ((circuit p).step i s).SDE_C2H_DATA :=
        flow.step_run serves ⟨state, started, hstall, hdone⟩
          (fun hc => hears_of_linked h flow serves chosen here before hc) rdata
      rw [gone_of_flow hserves hflow hsome, gone_of_flow serves flow hsome]
      omega

theorem bursts_kept {sent : List (Burst 64)} (hdone : C2hData.data_tx_done
      ((circuit p).state ins n).SDE_C2H_DATA = false)
    (hbursts : writes_out p ins n = sent ++
      if ((circuit p).state ins n).SDE_C2H_DATA.req_state = .REQ_DATA then
        [C2hData.burst ((circuit p).state ins n).SDE_C2H_DATA] else []) :
    writes_out p ins (n + 1) = sent ++
      if ((circuit p).state ins (n + 1)).SDE_C2H_DATA.req_state = .REQ_DATA then
        [C2hData.burst ((circuit p).state ins (n + 1)).SDE_C2H_DATA] else [] := by
  rw [writes_out_succ, hbursts, List.append_assoc]
  congr 1
  by_cases hidle : ((circuit p).state ins n).SDE_C2H_DATA.req_state = .REQ_IDLE
  · have hissued : C2hData.issued (data_in p (ins n) ((circuit p).state ins n))
        ((circuit p).state ins n).SDE_C2H_DATA = [] := by
      simp [C2hData.issued, C2hData.aw_req_done, C2hData.dm_pm_awvalid, hidle]
    have hnext : ((circuit p).state ins (n + 1)).SDE_C2H_DATA.req_state ≠ .REQ_DATA := by
      change C2hData.req_state_next _ _ ≠ _
      rw [C2hData.req_state_next, hidle]
      dsimp only
      split <;> decide
    rw [hissued, hidle, if_neg (by decide), if_neg hnext]
    rfl
  · exact (@burst_step p (data_in p (ins n) ((circuit p).state ins n)) _ hidle hdone).1

theorem part_step {sent : List (Burst 64)} {gone part : List WBeat} {rows : Nat}
    (h : Sent p ins n sent gone part)
    (hserves : Serves p (place p ins n) q ((circuit p).state ins n).SDE_C2H_DATA)
    (hchosen : Chosen p (beats_in p ins n) rows (place p ins n) q
      ((circuit p).state ins n).SDE_C2H_DATA)
    (hf : Flow p (place p ins n) q c ((circuit p).state ins n).SDE_C2H_DATA) (hsome : 0 < q.bytes)
    (hc : 4 + q.lead ≤ c) :
    (C2hData.burst ((circuit p).state ins n).SDE_C2H_DATA).writes PCIM_DATA_WIDTH_BYTES WBeat.byte
        (part ++ [C2hData.dp_data_out_ff_push_data ((circuit p).state ins n).SDE_C2H_DATA]) =
      placed (C2hData.burst ((circuit p).state ins n).SDE_C2H_DATA).addr
        (Burst.held PCIM_DATA_WIDTH_BYTES
          ((C2hData.burst ((circuit p).state ins n).SDE_C2H_DATA).addr.toNat % PCIM_DATA_WIDTH_BYTES)
          (C2hData.burst ((circuit p).state ins n).SDE_C2H_DATA).bytes (part.length + 1))
        fun k => byte_at (beats_in p ins n) (place p ins n + k) := by
  have hcount : part.length = c - 4 - q.lead := h.count.trans (gone_of_flow hserves hf hsome)
  have hdest := burst_dest hserves hchosen
  have hbytes : (C2hData.burst ((circuit p).state ins n).SDE_C2H_DATA).bytes = q.bytes :=
    hserves.held.num_bytes
  have hmore := (q.bytes_out_lt hserves.held hsome part.length).mpr (by rw [hcount]; exact hf.more hc)
  have hholds := beat_holds hserves hf hc
  have hmono := @C2hJob.bytes_out_mono q part.length
  have hpart := h.part_written
  rw [← hcount] at hholds
  rw [hdest, hbytes] at hpart ⊢
  have hbeat := Burst.beat_writes_placed
    (b := C2hData.burst ((circuit p).state ins n).SDE_C2H_DATA) (w := PCIM_DATA_WIDTH_BYTES)
    (n := q.bytes) (m := part.length) (f := q.byte) (by decide) (by rw [hdest]; exact hmore)
    (hdest.symm ▸ hholds)
  rw [hdest] at hbeat
  have hsum : Burst.held PCIM_DATA_WIDTH_BYTES q.dest q.bytes (part.length + 1) =
      Burst.held PCIM_DATA_WIDTH_BYTES q.dest q.bytes part.length +
        (Burst.held PCIM_DATA_WIDTH_BYTES q.dest q.bytes (part.length + 1) -
          Burst.held PCIM_DATA_WIDTH_BYTES q.dest q.bytes part.length) :=
    (Nat.add_sub_cancel' hmono).symm
  rw [Burst.writes_concat, hpart, hbeat, hsum, placed_add, Nat.add_sub_cancel_left]
  congr 1
  refine placed_congr fun k hk => ?_
  have hle := @C2hJob.bytes_out_le q (part.length + 1)
  rw [held_eq, held_eq] at hk
  rw [held_eq, hchosen.byte _ (by omega)]

theorem part_kept {rows m : Nat} {addr : BitVec 64}
    (hchosen : Chosen p (beats_in p ins n) rows (place p ins n) q
      ((circuit p).state ins n).SDE_C2H_DATA)
    (hrows : rows ≤ (beats_in p ins n).length)
    (hdone : C2hData.data_tx_done ((circuit p).state ins n).SDE_C2H_DATA = false) (hm : m ≤ q.bytes) :
    placed addr m (fun k => byte_at (beats_in p ins (n + 1)) (place p ins (n + 1) + k)) =
      placed addr m fun k => byte_at (beats_in p ins n) (place p ins n + k) := by
  have hplace : place p ins (n + 1) = place p ins n := place_kept hdone _
  have hfits := hchosen.fits.trans (Nat.mul_le_mul_left _ hrows)
  rw [hplace]
  refine placed_congr fun k hk => byte_at_append ?_
  change _ < PCIM_DATA_WIDTH_BYTES * (beats_in p ins n).length
  omega

theorem sent_quiet {sent : List (Burst 64)} {gone part : List WBeat}
    (hpacked : ∀ n, (ins n).axis_buf_valid → Packed (ins n).axis_buf)
    (hbyte : ∀ n, HasByte (ins n)) (h : Sent p ins n sent gone part)
    (hlinked : Linked p ((circuit p).state ins n) (beats_in p ins n) bq bqq rp r (place p ins n))
    (hphase : Phase p ((circuit p).state ins n) (beats_in p ins n) bqq.length rp r (place p ins n))
    (hnew : ∀ b ∈ accepted (ins n) ((circuit p).state ins n), Packed b)
    (hpush : C2hData.dp_data_out_ff_push ((circuit p).state ins n).SDE_C2H_DATA = false) :
    Sent p ins (n + 1) sent gone part := by
  have hdone := no_done_of_no_push hpush
  have hgone : C2hData.beats_gone ((circuit p).state ins (n + 1)).SDE_C2H_DATA =
      C2hData.beats_gone ((circuit p).state ins n).SDE_C2H_DATA :=
    gone_quiet hlinked hphase (len_pos hbyte n) hpush
  have hrows : bqq.length ≤ (beats_in p ins n).length := by
    have hrows := C2hBuf.read_rows hlinked.track
    omega
  exact
    { bursts := bursts_kept hdone h.bursts
      pushed := by
        change w_in p ins n ++ C2hData.w_pushed _ = _
        rw [C2hData.w_pushed, hpush, if_neg Bool.false_ne_true, List.append_nil, h.pushed]
      length := h.length
      marks := h.marks
      not_last := h.not_last
      count := h.count.trans hgone.symm
      written := h.written.trans (due_kept hpacked hnew hdone).symm
      part_written := by
        rcases List.eq_nil_or_concat part with rfl | ⟨_, _, hpart⟩
        · rw [List.length_nil, Burst.held, Nat.mul_zero, Nat.zero_sub, Nat.min_zero]
          rfl
        · -- A burst is sent.
          have hsome : part.length ≠ 0 := by simp [hpart]
          have hstate : ((circuit p).state ins n).SDE_C2H_DATA.req_state = .REQ_DATA := by
            by_contra hnot
            exact hsome (h.count.trans (gone_of_phase hphase hnot))
          have hburst : C2hData.burst ((circuit p).state ins (n + 1)).SDE_C2H_DATA =
              C2hData.burst ((circuit p).state ins n).SDE_C2H_DATA := burst_kept hdone hstate
          obtain ⟨q, hserves, hchosen⟩ := hphase.sends hstate
          have hbytes : (C2hData.burst ((circuit p).state ins n).SDE_C2H_DATA).bytes = q.bytes :=
            hserves.held.num_bytes
          rw [hburst, h.part_written, hbytes]
          exact (part_kept hchosen hrows hdone (Nat.min_le_left _ _)).symm }

theorem sent_beat {sent : List (Burst 64)} {gone part : List WBeat}
    (hpacked : ∀ n, (ins n).axis_buf_valid → Packed (ins n).axis_buf)
    (hbyte : ∀ n, HasByte (ins n)) (h : Sent p ins n sent gone part)
    (hlinked : Linked p ((circuit p).state ins n) (beats_in p ins n) bq bqq rp r (place p ins n))
    (hphase : Phase p ((circuit p).state ins n) (beats_in p ins n) bqq.length rp r (place p ins n))
    (hnew : ∀ b ∈ accepted (ins n) ((circuit p).state ins n), Packed b)
    (hpush : C2hData.dp_data_out_ff_push ((circuit p).state ins n).SDE_C2H_DATA = true)
    (hdone : C2hData.data_tx_done ((circuit p).state ins n).SDE_C2H_DATA = false) :
    Sent p ins (n + 1) sent gone
      (part ++ [C2hData.dp_data_out_ff_push_data ((circuit p).state ins n).SDE_C2H_DATA]) := by
  obtain ⟨q, c, state, flow, started, here, before, serves, chosen, rdata⟩ := hphase.of_push hpush
  have hgo := hpush
  rw [C2hData.dp_data_out_ff_push, Bool.and_eq_true, Bool.not_eq_true'] at hgo
  obtain ⟨hvalid, hrun⟩ := hgo
  have hc : 4 + q.lead ≤ c := of_decide_eq_true (flow.pl5.symm.trans hvalid)
  have hrows : bqq.length ≤ (beats_in p ins n).length := by
    have hrows := C2hBuf.read_rows hlinked.track
    omega
  have hnot : ((circuit p).state ins n).SDE_C2H_DATA.req_state ≠ .REQ_WAIT_DATA := by
    rw [state]
    decide
  have hserves : Serves p (place p ins n) q ((circuit p).state ins (n + 1)).SDE_C2H_DATA :=
    serves_kept serves hdone hnot
  have hflow : Flow p (place p ins n) q (c + 1) ((circuit p).state ins (n + 1)).SDE_C2H_DATA :=
    flow.step_run serves ⟨state, started, hrun, hdone⟩
      (fun hc => hears_of_linked hlinked flow serves chosen here before hc) rdata
  have hsome := chosen.some (len_pos hbyte n (by rw [state]; decide))
  have hcount := h.count.trans (gone_of_flow serves flow hsome)
  have hburst : C2hData.burst ((circuit p).state ins (n + 1)).SDE_C2H_DATA =
      C2hData.burst ((circuit p).state ins n).SDE_C2H_DATA := burst_kept hdone state
  have hbytes : (C2hData.burst ((circuit p).state ins n).SDE_C2H_DATA).bytes = q.bytes :=
    serves.held.num_bytes
  exact
    { bursts := bursts_kept hdone h.bursts
      pushed := by
        change w_in p ins n ++ C2hData.w_pushed _ = _
        rw [C2hData.w_pushed, hpush, if_pos rfl, h.pushed, List.append_assoc]
      length := h.length
      marks := h.marks
      not_last := by
        intro w hw
        rcases List.mem_append.mp hw with hw | hw
        · exact h.not_last w hw
        · obtain rfl := List.mem_singleton.mp hw
          rw [C2hData.data_tx_done, hvalid, hrun] at hdone
          exact hdone
      count := by
        rw [List.length_append, List.length_singleton, hcount, gone_of_flow hserves hflow hsome]
        omega
      written := h.written.trans (due_kept hpacked hnew hdone).symm
      part_written := by
        rw [hburst, part_step h serves chosen flow hsome hc, List.length_append, List.length_singleton, hbytes]
        exact (part_kept chosen hrows hdone (Nat.min_le_left _ _)).symm }

theorem marks_of_last {part : List WBeat} {w : WBeat} (hpart : ∀ w ∈ part, w.last = false)
    (hlast : w.last = true) : (part ++ [w]).map WBeat.last = Lib.Axi.beats part.length := by
  rw [List.map_append, List.map_singleton, hlast, Lib.Axi.beats]
  congr 1
  refine List.eq_replicate_iff.mpr ⟨List.length_map _, fun b hb => ?_⟩
  obtain ⟨w, hw, rfl⟩ := List.mem_map.mp hb
  exact hpart w hw

theorem sent_done {sent : List (Burst 64)} {gone part : List WBeat}
    (hpacked : ∀ n, (ins n).axis_buf_valid → Packed (ins n).axis_buf)
    (hbyte : ∀ n, HasByte (ins n)) (h : Sent p ins n sent gone part)
    (hlinked : Linked p ((circuit p).state ins n) (beats_in p ins n) bq bqq rp r (place p ins n))
    (hphase : Phase p ((circuit p).state ins n) (beats_in p ins n) bqq.length rp r (place p ins n))
    (hnext : ∃ bq' bqq' rp' r', Phase p ((circuit p).state ins (n + 1)) bq' bqq' rp' r' (place p ins (n + 1)))
    (hnew : ∀ b ∈ accepted (ins n) ((circuit p).state ins n), Packed b)
    (hdone : C2hData.data_tx_done ((circuit p).state ins n).SDE_C2H_DATA = true) :
    Sent p ins (n + 1) (sent ++ [C2hData.burst ((circuit p).state ins n).SDE_C2H_DATA])
      (gone ++ (part ++ [C2hData.dp_data_out_ff_push_data ((circuit p).state ins n).SDE_C2H_DATA])) [] := by
  have hsent := hdone
  rw [C2hData.data_tx_done, Bool.and_eq_true] at hsent
  obtain ⟨hpush, hlast⟩ := hsent
  obtain ⟨q, c, state, flow, started, here, before, serves, chosen, rdata⟩ := hphase.of_push hpush
  obtain ⟨hc, hrun, hbeats, hall, heop, -⟩ := last_beat flow serves hdone
  have hrows : bqq.length ≤ (beats_in p ins n).length := by
    have hrows := C2hBuf.read_rows hlinked.track
    omega
  have hsome := chosen.some (len_pos hbyte n (by rw [state]; decide))
  have hcount : part.length = c - 4 - q.lead := h.count.trans (gone_of_flow serves flow hsome)
  have hbytes : (C2hData.burst ((circuit p).state ins n).SDE_C2H_DATA).bytes = q.bytes :=
    serves.held.num_bytes
  have hlen : (part ++ [C2hData.dp_data_out_ff_push_data
      ((circuit p).state ins n).SDE_C2H_DATA]).length =
        (C2hData.burst ((circuit p).state ins n).SDE_C2H_DATA).beats := by
    have hawlen := serves.awlen hsome
    change _ = ((circuit p).state ins n).SDE_C2H_DATA.curr_txn.awlen + 1
    rw [List.length_append, List.length_singleton]
    omega
  have hout : ((circuit p).state ins (n + 1)).SDE_C2H_DATA.req_state ≠ .REQ_DATA := by
    change (C2hData.step p _ _).req_state ≠ _
    rw [state_done hdone state]
    split <;> decide
  have hissued : C2hData.issued (data_in p (ins n) ((circuit p).state ins n))
      ((circuit p).state ins n).SDE_C2H_DATA = [] := not_issued (by rw [state]; decide)
  exact
    { bursts := by
        rw [writes_out_succ, hissued, List.append_nil, h.bursts, if_pos state, if_neg hout,
          List.append_nil]
      pushed := by
        change w_in p ins n ++ C2hData.w_pushed _ = _
        rw [C2hData.w_pushed, C2hData.dp_data_out_ff_push, hpush, if_pos rfl, h.pushed,
          List.append_nil, List.append_assoc]
      length := by
        rw [List.length_append, hlen, h.length, List.map_append, List.sum_append]
        simp
      marks := by
        rw [List.map_append, h.marks, List.flatMap_append, List.flatMap_singleton, ← hlen,
          marks_of_last h.not_last hlast, List.length_append, List.length_singleton, Nat.add_sub_cancel]
      not_last := fun _ hw => absurd hw List.not_mem_nil
      count := by
        obtain ⟨_, _, _, _, hphase'⟩ := hnext
        exact (gone_of_phase hphase' hout).symm
      written := by
        have hheld : Burst.held PCIM_DATA_WIDTH_BYTES
            ((C2hData.burst ((circuit p).state ins n).SDE_C2H_DATA).addr.toNat %
              PCIM_DATA_WIDTH_BYTES)
            (C2hData.burst ((circuit p).state ins n).SDE_C2H_DATA).bytes (part.length + 1) =
              q.bytes := by
          rw [burst_dest serves chosen, hbytes, held_eq, hcount, hall]
        rw [Burst.all_writes_append h.length, Burst.all_writes_single (Nat.le_of_eq hlen),
          part_step h serves chosen flow hsome hc, hheld, h.written]
        exact (due_done hpacked hlinked.track.packed hnew state serves chosen hrows
          (hlinked.max (by rw [state]; decide)) hdone heop).symm
      part_written := by
        rw [List.length_nil, Burst.held, Nat.mul_zero, Nat.zero_sub, Nat.min_zero]
        rfl }

theorem sent_state (hpacked : ∀ n, (ins n).axis_buf_valid → Packed (ins n).axis_buf)
    (hbyte : ∀ n, HasByte (ins n)) (n : Nat) : ∃ sent gone part, Sent p ins n sent gone part := by
  induction n with
  | zero => exact ⟨_, _, _, sent_zero⟩
  | succ n ih =>
    obtain ⟨sent, gone, part, h⟩ := ih
    obtain ⟨bqq, rp, r, hlinked, hphase⟩ := holds_state (p := p) hpacked n
    obtain ⟨_, _, _, -, hphase'⟩ := holds_state (p := p) hpacked (n + 1)
    have hnew : ∀ b ∈ accepted (ins n) ((circuit p).state ins n), Packed b := fun b hb =>
      C2hBuf.packed_step (i := buf_in (ins n) ((circuit p).state ins n)) hlinked.track (hpacked n) b
        (List.mem_append_right _ hb)
    cases hpush : C2hData.dp_data_out_ff_push ((circuit p).state ins n).SDE_C2H_DATA with
    | false => exact ⟨_, _, _, sent_quiet hpacked hbyte h hlinked hphase hnew hpush⟩
    | true =>
      cases hdone : C2hData.data_tx_done ((circuit p).state ins n).SDE_C2H_DATA with
      | false => exact ⟨_, _, _, sent_beat hpacked hbyte h hlinked hphase hnew hpush hdone⟩
      | true =>
        exact ⟨_, _, _, sent_done hpacked hbyte h hlinked hphase ⟨_, _, _, _, hphase'⟩ hnew hdone⟩

end Step

/-! ### The beats of a run -/

section Written

variable {sent : List (Burst 64)} {gone part : List WBeat} {bq bqq : List AxisBeat} {rp r : Nat}

theorem Sent.part_lt (h : Sent p ins n sent gone part)
    (hphase : Phase p ((circuit p).state ins n) (beats_in p ins n) bqq.length rp r (place p ins n)) :
    if ((circuit p).state ins n).SDE_C2H_DATA.req_state = .REQ_DATA then
      part.length < (C2hData.burst ((circuit p).state ins n).SDE_C2H_DATA).beats
    else part = [] := by
  split
  case isTrue hstate =>
    apply Nat.lt_succ_of_le
    rw [h.count, C2hData.beats_gone]
    split
    · exact Nat.sub_le _ _
    · exact Nat.zero_le _
  case isFalse hstate =>
    rw [← List.length_eq_zero_iff, h.count]
    exact gone_of_phase hphase hstate

theorem Sent.marks_prefix (h : Sent p ins n sent gone part)
    (hphase : Phase p ((circuit p).state ins n) (beats_in p ins n) bqq.length rp r (place p ins n)) :
    (w_in p ins n).map WBeat.last <+: (writes_out p ins n).flatMap fun b => beats (b.beats - 1) := by
  have hpart := h.part_lt hphase
  rw [h.pushed, h.bursts, List.map_append, h.marks, List.flatMap_append]
  apply (List.prefix_append_right_inj _).mpr
  split at hpart
  case isTrue hstate =>
    have hmarks : part.map WBeat.last = List.replicate part.length false := by
      apply List.eq_replicate_iff.mpr
      refine ⟨List.length_map _, fun b hb => ?_⟩
      obtain ⟨w, hw, rfl⟩ := List.mem_map.mp hb
      exact h.not_last w hw
    rw [if_pos hstate, List.flatMap_singleton, hmarks]
    obtain ⟨d, hd⟩ := Nat.exists_eq_add_of_le (Nat.le_sub_one_of_lt hpart)
    rw [beats, hd, ← List.replicate_append_replicate, List.append_assoc]
    exact List.prefix_append _ _
  case isFalse hstate =>
    rw [hpart]
    exact List.nil_prefix

/-- What was written is all that the descriptors get that are done, and the first bytes of the one in
progress. -/
theorem Sent.written_to (hpacked : ∀ n, (ins n).axis_buf_valid → Packed (ins n).axis_buf)
    (h : Sent p ins n sent gone part)
    (hlinked : Linked p ((circuit p).state ins n) (beats_in p ins n) bq bqq rp r (place p ins n))
    (hphase : Phase p ((circuit p).state ins n) (beats_in p ins n) bqq.length rp r (place p ins n)) :
    ∃ m, bytes_written p ins n (w_in p ins n) =
        desc_writes (beats_in p ins n) 0 (descs_written p ins n) ++
          ((in_progress p ins n).toList.flatMap fun d =>
            placed d.dest_addr m fun k => byte_at (beats_in p ins n) (start_place p ins n + k)) ∧
      ∀ d, in_progress p ins n = some d →
        First (beats_in p ins n) (start_place p ins n) d.len.toNat m := by
  have hrun := progress_here (p := p) hpacked n
  have hpart := h.part_lt hphase
  have hrows : bqq.length ≤ (beats_in p ins n).length := by
    have hrows := C2hBuf.read_rows hlinked.track
    omega
  rw [bytes_written, h.pushed, h.bursts, Burst.all_writes_append h.length, h.written]
  split at hpart
  case isTrue hstate =>
    -- The descriptor has what the bursts before gave it, and the beats that are out.
    have hbusy : ((circuit p).state ins n).SDE_C2H_DATA.req_state ≠ .REQ_IDLE := by
      rw [hstate]
      decide
    obtain ⟨d, hd⟩ := Option.ne_none_iff_exists'.mp fun hc => hbusy (hrun.idle.mpr hc)
    have hcur := hrun.current d hd
    obtain ⟨q, hserves, hchosen⟩ := hphase.sends hstate
    obtain ⟨-, -, hunbroken⟩ := hcur.all_sent hstate hserves hchosen (hlinked.max hbusy)
    have hle := hcur.le
    have hlen := hcur.len
    have hsize := hchosen.len
    have hfits := hchosen.fits.trans (Nat.mul_le_mul_left _ hrows)
    have hbytes : (C2hData.burst ((circuit p).state ins n).SDE_C2H_DATA).bytes = q.bytes :=
      hserves.held.num_bytes
    have hheld : Burst.held PCIM_DATA_WIDTH_BYTES
        ((C2hData.burst ((circuit p).state ins n).SDE_C2H_DATA).addr.toNat % PCIM_DATA_WIDTH_BYTES)
        (C2hData.burst ((circuit p).state ins n).SDE_C2H_DATA).bytes part.length ≤ q.bytes :=
      (Nat.min_le_left _ _).trans (Nat.le_of_eq hbytes)
    refine ⟨place p ins n - start_place p ins n + Burst.held PCIM_DATA_WIDTH_BYTES
      ((C2hData.burst ((circuit p).state ins n).SDE_C2H_DATA).addr.toNat % PCIM_DATA_WIDTH_BYTES)
      (C2hData.burst ((circuit p).state ins n).SDE_C2H_DATA).bytes part.length, ?_, ?_⟩
    · rw [if_pos hstate, Burst.all_writes_single (Nat.le_of_lt hpart), h.part_written, due, hd,
        Option.toList_some, List.flatMap_singleton, List.flatMap_singleton, List.append_assoc,
        hcur.joined]
    · intro d' hd'
      obtain rfl := Option.some.inj (hd.symm.trans hd')
      exact ⟨hlinked.track.packed, hcur.on_byte, fun x hend hx => by have := hunbroken x hend hx; omega,
        by omega, by omega⟩
  case isFalse hstate =>
    refine ⟨place p ins n - start_place p ins n, ?_, ?_⟩
    · rw [hpart, Burst.all_writes_nil, List.append_nil, due]
    · intro d hd
      have hcur := hrun.current d hd
      have hle := hcur.le
      have hlen := hcur.len
      have hfits := hcur.fits
      refine ⟨hlinked.track.packed, hcur.on_byte, ?_, by omega, by omega⟩
      rw [Nat.add_sub_cancel' hle]
      exact hcur.unbroken

end Written

end Runs

/-- In every run in which the packets come in as they should and each descriptor has a byte, the beats
have the bytes of the packets in order, and put them where the descriptors want them. -/
theorem bytes_delivered (p : C2hDataParams) (ins : Nat → C2hIn)
    (hpacked : ∀ n, (ins n).axis_buf_valid → Packed (ins n).axis_buf)
    (hbyte : ∀ n, HasByte (ins n)) (n : Nat) : Delivered p ins n := by
  obtain ⟨sent, gone, part, h⟩ := sent_state (p := p) hpacked hbyte n
  obtain ⟨bqq, rp, r, hlinked, hphase⟩ := holds_state (p := p) hpacked n
  have hrun := progress_here (p := p) hpacked n
  obtain ⟨m, hwritten, hfirst⟩ := h.written_to hpacked hlinked hphase
  rw [w_in_eq] at hwritten
  refine ⟨?_, ⟨_, hwritten, ?_⟩, ?_, Burst.all_writes_prefix⟩
  · rw [← w_in_eq]
    exact h.marks_prefix hphase
  · cases hd : in_progress p ins n with
    | none => exact List.nil_prefix
    | some d =>
      rw [Option.toList_some, List.flatMap_singleton]
      exact (hfirst d hd).placed_writes rfl
  · rw [hwritten, hrun.chain.stream, List.map_append]
    apply (List.prefix_append_right_inj _).mpr
    cases hd : in_progress p ins n with
    | none => exact List.nil_prefix
    | some d =>
      have hf := hfirst d hd
      rw [Option.toList_some, List.flatMap_singleton, placed_values,
        stream_from_run hf.on_byte hf.unbroken hf.packed hf.fits (Nat.le_refl m)]
      exact List.prefix_append _ _

theorem at_boundary_delivered :
    (∀ n, Delivered default_params at_boundary n) ∧
    bytes_written default_params at_boundary 24 (w_out default_params at_boundary 24) =
      [(0x1ffe, 1), (0x1fff, 2), (0x2000, 3)] := by
  refine ⟨fun n => bytes_delivered default_params at_boundary at_boundary_packed (fun _ _ => ?_) n, ?_⟩
  · change (100 : BitVec 32) ≠ 0
    decide
  · decide +kernel

end C2h

end AwsFpga.Rtl
