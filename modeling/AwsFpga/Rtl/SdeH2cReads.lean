import AwsFpga.Lib.Bursts
import AwsFpga.Rtl.SdeH2cDataRuns

/-!
# The reads of the H2C data mover (`sde_h2c_data.sv`)

Whatever the descriptors are and whenever there is room, each descriptor is read in
bursts that tile it. A descriptor without a byte is the exception: it is read too.
-/

open Lib

namespace AwsFpga.Rtl

def PcimRd.toBurst (rd : PcimRd) : Burst 64 where
  addr := rd.dm_pm_araddr
  bytes := rd.rd_txn_trk.txn_num_bytes
  beats := rd.dm_pm_arlen + 1

namespace H2cReq

variable {p : H2cDataParams}

/-- The requests of a descriptor tile it. -/
structure Tiled (p : H2cDataParams) (d : H2cIfDesc) (rds : List PcimRd) : Prop where
  tiles : Burst.Tiles d.src_addr d.len.toNat (rds.map PcimRd.toBurst)
  good : ∀ rd ∈ rds, rd.toBurst.Good PCIM_BYTES (PCIM_MAX_RD_SIZE_BYTES p)

theorem burst_good (d : H2cIfDesc) (src_addr : BitVec 64) {len : Nat} (hlen : 0 < len) :
    (burst p d src_addr len).toBurst.Good PCIM_BYTES (PCIM_MAX_RD_SIZE_BYTES p) := by
  have hpos := burst_bytes_pos p src_addr hlen
  have hmod := Nat.mod_lt src_addr.toNat (max_pos p)
  have hrow : 0 < PCIM_BYTES := by decide
  have hinside : src_addr.toNat % PCIM_MAX_RD_SIZE_BYTES p + burst_bytes p src_addr len ≤
      PCIM_MAX_RD_SIZE_BYTES p := by
    unfold burst_bytes
    omega
  have hbeats : (burst p d src_addr len).toBurst.beats =
      (touched PCIM_BYTES src_addr.toNat (burst_bytes p src_addr len)).card := by
    have hone : PCIM_BYTES ≤ src_addr.toNat % PCIM_BYTES + burst_bytes p src_addr len + PCIM_BYTES - 1 :=
      by omega
    have hge := Nat.div_pos hone hrow
    rw [card_touched hrow _ hpos]
    exact Nat.sub_add_cancel hge
  refine ⟨hpos, hinside, hbeats, ?_⟩
  rw [hbeats]
  exact card_touched_le hrow (max_dvd p).1 hinside

theorem bursts_tile (d : H2cIfDesc) (src_addr : BitVec 64) (len : Nat) :
    Burst.Tiles src_addr len ((bursts p d src_addr len).map PcimRd.toBurst) := by
  induction len using Nat.strongRecOn generalizing src_addr with
  | ind len ih =>
    rcases Nat.eq_zero_or_pos len with rfl | hlen
    · rw [bursts_zero]
      rfl
    · have hpos := burst_bytes_pos p src_addr hlen
      rw [bursts_cons d src_addr hlen]
      exact ⟨rfl, (burst_bytes_le src_addr len).1,
        ih _ (show len - burst_bytes p src_addr len < len by omega) _⟩

theorem bursts_good (d : H2cIfDesc) (src_addr : BitVec 64) (len : Nat) :
    ∀ rd ∈ bursts p d src_addr len, rd.toBurst.Good PCIM_BYTES (PCIM_MAX_RD_SIZE_BYTES p) := by
  induction len using Nat.strongRecOn generalizing src_addr with
  | ind len ih =>
    rcases Nat.eq_zero_or_pos len with rfl | hlen
    · simp
    · have hpos := burst_bytes_pos p src_addr hlen
      rw [bursts_cons d src_addr hlen]
      exact List.forall_mem_cons.mpr ⟨burst_good d src_addr hlen, ih _ (by omega) _⟩

/-- The requests for a whole descriptor. -/
def asks (p : H2cDataParams) (d : H2cIfDesc) : List PcimRd := asked p d d.src_addr d.len.toNat

theorem asks_tiled {d : H2cIfDesc} (hlen : d.len ≠ 0) : Tiled p d (asks p d) := by
  have hpos : 0 < d.len.toNat :=
    Nat.pos_of_ne_zero fun hzero => hlen (BitVec.eq_of_toNat_eq (by rw [hzero]; rfl))
  rw [asks, asked_eq d d.src_addr hpos]
  exact ⟨bursts_tile d d.src_addr d.len.toNat, bursts_good d d.src_addr d.len.toNat⟩

theorem asks_zero {d : H2cIfDesc} (hlen : d.len = 0) : asks p d = [request p d d.src_addr 0] := by
  have hzero : d.len.toNat = 0 := by rw [hlen]; rfl
  rw [asks, hzero, asked, if_pos rfl]

theorem request_zero_bytes (d : H2cIfDesc) (src_addr : BitVec 64) :
    (request p d src_addr 0).toBurst.bytes = 0 := burst_bytes_zero src_addr |>.mpr rfl

theorem asked_ne_nil (d : H2cIfDesc) (src_addr : BitVec 64) (len : Nat) :
    asked p d src_addr len ≠ [] := by
  rw [asked_cons]
  exact List.cons_ne_nil _ _

end H2cReq

namespace H2cData

variable (p : H2cDataParams) (ins : Nat → H2cDataIn)

/-- The descriptor that is being read. -/
def in_progress (n : Nat) : Option H2cIfDesc :=
  if ((circuit p).state ins n).req.req_state = .REQ_IDLE then none else (descs_in p ins n).getLast?

/-- The descriptors read before cycle `n`. -/
def descs_read (n : Nat) : List H2cIfDesc :=
  if ((circuit p).state ins n).req.req_state = .REQ_IDLE then descs_in p ins n
  else (descs_in p ins n).dropLast

/-- What is expected of the reads granted before cycle `n`: those of each descriptor tile it, and those
of the last one are the first of some that do. -/
def ReadsTile (n : Nat) : Prop :=
  ∃ complete started, reads_out p ins n = complete.flatten ++ started ∧
    List.Forall₂ (H2cReq.Tiled p) (descs_read p ins n) complete ∧
    match in_progress p ins n with
    | none => started = []
    | some d => ∃ rest, H2cReq.Tiled p d (started ++ rest)

/-- The requests granted before cycle `n` are those of the descriptors `ds` and some of `cur`. -/
structure Asked (n : Nat) (ds : List H2cIfDesc) (cur : Option H2cIfDesc) (started : List PcimRd) :
    Prop where
  steady : H2cReq.Steady p ((circuit p).state ins n).req
  descs : descs_in p ins n = ds ++ cur.toList
  idle : ((circuit p).state ins n).req.req_state = .REQ_IDLE ↔ cur = none
  reads : reads_out p ins n = ds.flatMap (H2cReq.asks p) ++ started
  current : cur.toList.flatMap (H2cReq.asks p) = started ++ ((circuit p).state ins n).req.to_ask p

variable {p ins}

theorem asked_zero : Asked p ins 0 [] none [] where
  steady := H2cReq.steady_start
  descs := rfl
  idle := ⟨fun _ => rfl, fun _ => rfl⟩
  reads := rfl
  current := rfl

theorem asked_step {n : Nat} {ds : List H2cIfDesc} {cur : Option H2cIfDesc} {started : List PcimRd}
    (h : Asked p ins n ds cur started) :
    ∃ ds' cur' started', Asked p ins (n + 1) ds' cur' started' := by
  have hask := @H2cReq.to_ask_step p (ins n) (rd_txn_trk_ff_full p ((circuit p).state ins n)) _ h.steady
  have hsteady : H2cReq.Steady p ((circuit p).state ins (n + 1)).req := H2cReq.steady_step h.steady
  have hdescs : descs_in p ins (n + 1) =
    descs_in p ins n ++ H2cReq.popped (ins n) ((circuit p).state ins n).req := rfl
  have hreads : reads_out p ins (n + 1) =
    reads_out p ins n ++ H2cReq.issued (ins n) ((circuit p).state ins n).req := rfl
  have hstate : ((circuit p).state ins (n + 1)).req = H2cReq.step p (ins n)
    (rd_txn_trk_ff_full p ((circuit p).state ins n)) ((circuit p).state ins n).req := rfl
  rw [← hstate] at hask
  rw [h.descs] at hdescs
  rw [h.reads] at hreads
  cases hpop : H2cReq.dm_desc_pop (ins n) ((circuit p).state ins n).req with
  | true =>
    have hidle := (H2cReq.pop_state hpop).1
    have hnone := h.idle.mp hidle
    have hnext : ((circuit p).state ins (n + 1)).req.req_state = .REQ_WAIT_DATA :=
      (H2cReq.step_pop hpop).1
    have hpopped : H2cReq.popped (ins n) ((circuit p).state ins n).req =
        [H2cReq.desc_dm_desc_in (ins n)] := if_pos hpop
    have hissued : H2cReq.issued (ins n) ((circuit p).state ins n).req = [] := by
      simp [H2cReq.issued, H2cReq.dm_pm_arvalid, hidle]
    have hcurrent := h.current
    have hto_ask : ((circuit p).state ins n).req.to_ask p = [] := if_pos hidle
    rw [hnone, hto_ask, List.append_nil] at hcurrent
    rw [hpopped, hnone, Option.toList_none, List.append_nil] at hdescs
    rw [hissued, ← hcurrent] at hreads
    rw [hto_ask, hissued, hpopped, List.nil_append, List.nil_append] at hask
    exact ⟨ds, some (H2cReq.desc_dm_desc_in (ins n)), [],
      { steady := hsteady
        descs := hdescs
        idle := by simp [hnext]
        reads := by simpa using hreads
        current := hask }⟩
  | false =>
    have hpopped : H2cReq.popped (ins n) ((circuit p).state ins n).req = [] := by
      rw [H2cReq.popped, hpop, if_neg Bool.false_ne_true]
    rw [hpopped, List.append_nil] at hdescs
    rw [hpopped, List.flatMap_nil, List.append_nil] at hask
    have hcurrent := h.current
    rw [hask, ← List.append_assoc] at hcurrent
    by_cases hidle : ((circuit p).state ins (n + 1)).req.req_state = .REQ_IDLE
    · have hto_ask : ((circuit p).state ins (n + 1)).req.to_ask p = [] := if_pos hidle
      rw [hto_ask, List.append_nil] at hcurrent
      exact ⟨ds ++ cur.toList, none, [],
        { steady := hsteady
          descs := by simpa using hdescs
          idle := ⟨fun _ => rfl, fun _ => hidle⟩
          reads := by rw [hreads, List.flatMap_append, hcurrent, List.append_assoc, List.append_nil]
          current := by rw [hto_ask]; rfl }⟩
    · have hbusy : cur ≠ none := by
        intro hnone
        have hstart := h.idle.mpr hnone
        have hdone : H2cReq.desc_req_done (ins n) ((circuit p).state ins n).req = false := by
          apply H2cReq.no_req_done
          rw [hstart]
          decide
        exact hidle ((H2cReq.idle_hold h.steady hpop hdone).mpr hstart)
      exact ⟨ds, cur, started ++ H2cReq.issued (ins n) ((circuit p).state ins n).req,
        { steady := hsteady
          descs := hdescs
          idle := ⟨fun h' => absurd h' hidle, fun h' => absurd h' hbusy⟩
          reads := by rw [hreads, List.append_assoc]
          current := hcurrent }⟩

theorem asked_state (n : Nat) : ∃ ds cur started, Asked p ins n ds cur started := by
  induction n with
  | zero => exact ⟨_, _, _, asked_zero⟩
  | succ n ih =>
    obtain ⟨ds, cur, started, h⟩ := ih
    exact asked_step h

theorem Asked.descs_eq {n : Nat} {ds : List H2cIfDesc} {cur : Option H2cIfDesc}
    {started : List PcimRd} (h : Asked p ins n ds cur started) :
    descs_read p ins n = ds ∧ in_progress p ins n = cur := by
  unfold descs_read in_progress
  cases cur with
  | none =>
    rw [if_pos (h.idle.mpr rfl), if_pos (h.idle.mpr rfl), h.descs]
    simp
  | some d =>
    have hbusy : ((circuit p).state ins n).req.req_state ≠ .REQ_IDLE := fun hidle =>
      nomatch h.idle.mp hidle
    rw [if_neg hbusy, if_neg hbusy, h.descs]
    simp

/-- Of a descriptor without a byte no request is granted as long as it is being read. -/
theorem Asked.started_tiled {n : Nat} {ds : List H2cIfDesc} {d : H2cIfDesc} {started : List PcimRd}
    (h : Asked p ins n ds (some d) started) : ∃ rest, H2cReq.Tiled p d (started ++ rest) := by
  have hcurrent := h.current
  rw [Option.toList_some, List.flatMap_singleton] at hcurrent
  by_cases hlen : d.len = 0
  · have hbusy : ((circuit p).state ins n).req.req_state ≠ .REQ_IDLE := fun hidle =>
      nomatch h.idle.mp hidle
    have hrest : ((circuit p).state ins n).req.to_ask p ≠ [] := by
      rw [H2cReq.to_ask, if_neg hbusy]
      exact H2cReq.asked_ne_nil _ _ _
    have hlength := congrArg List.length hcurrent
    rw [H2cReq.asks_zero hlen, List.length_singleton, List.length_append] at hlength
    have hpos := List.length_pos_iff.mpr hrest
    have hstarted : started = [] := List.length_eq_zero_iff.mp (by omega)
    refine ⟨[], ?_⟩
    rw [hstarted]
    exact ⟨by rw [hlen]; rfl, by simp⟩
  · exact ⟨((circuit p).state ins n).req.to_ask p, hcurrent ▸ H2cReq.asks_tiled hlen⟩

theorem ReadsTile.bytes {n : Nat} (h : ReadsTile p ins n) :
    ∀ rd ∈ reads_out p ins n, 0 < rd.toBurst.bytes := by
  obtain ⟨complete, started, hreads, htiled, hstarted⟩ := h
  rw [hreads]
  intro rd hrd
  rcases List.mem_append.mp hrd with hrd | hrd
  · obtain ⟨rds, hrds, hrd⟩ := List.mem_flatten.mp hrd
    obtain ⟨k, hk, rfl⟩ := List.mem_iff_getElem.mp hrds
    exact ((htiled.get (htiled.length_eq ▸ hk) hk).good rd hrd).bytes
  · cases hcur : in_progress p ins n with
    | none =>
      rw [hcur] at hstarted
      rw [show started = [] from hstarted] at hrd
      cases hrd
    | some d =>
      rw [hcur] at hstarted
      obtain ⟨rest, htiled⟩ := hstarted
      exact (htiled.good rd (List.mem_append_left _ hrd)).bytes

/-- In every cycle of every run, the reads are those that the descriptors need just when no descriptor
that was read has no byte. -/
theorem reads_tile_iff (p : H2cDataParams) (ins : Nat → H2cDataIn) (n : Nat) :
    ReadsTile p ins n ↔ ∀ d ∈ descs_read p ins n, d.len ≠ 0 := by
  obtain ⟨ds, cur, started, h⟩ := @asked_state p ins n
  obtain ⟨hread, hcur⟩ := h.descs_eq
  constructor
  · intro htile d hd hlen
    rw [hread] at hd
    have hmem : H2cReq.request p d d.src_addr 0 ∈ reads_out p ins n := by
      rw [h.reads]
      refine List.mem_append_left _ (List.mem_flatMap.mpr ⟨d, hd, ?_⟩)
      rw [H2cReq.asks_zero hlen]
      exact List.mem_singleton.mpr rfl
    have hbytes := htile.bytes _ hmem
    rw [H2cReq.request_zero_bytes] at hbytes
    cases hbytes
  · intro hlen
    rw [hread] at hlen
    unfold ReadsTile
    rw [hread, hcur, h.reads]
    refine ⟨ds.map (H2cReq.asks p), started, by rw [List.flatMap_def], ?_, ?_⟩
    · rw [List.forall₂_map_right_iff, List.forall₂_same]
      exact fun d hd => H2cReq.asks_tiled (hlen d hd)
    · cases cur with
      | none =>
        have hcurrent := h.current
        rw [Option.toList_none, List.flatMap_nil] at hcurrent
        exact (List.append_eq_nil_iff.mp hcurrent.symm).1
      | some d => exact h.started_tiled

/-- A descriptor without a byte, at the start of a row. -/
def empty_desc (n : Nat) : H2cDataIn where
  desc_dm_desc_valid := n = 0
  desc_dm_desc := ⟨0, false, false, 0, 0x1000, 0, false, false⟩
  pm_dm_arready := true
  pm_dm_rvalid := false
  pm_dm_rdata := 0
  pm_dm_rresp := 0
  pm_dm_rlast := false
  buf_dm_num_bytes := 32768
  buf_dm_aux_full := false

theorem reads_empty_desc :
    (reads_out default_params empty_desc 3).map PcimRd.toBurst = [⟨0x1000, 0, 256⟩] ∧
      ¬ReadsTile default_params empty_desc 3 := by
  have hreads : (reads_out default_params empty_desc 3).map PcimRd.toBurst = [⟨0x1000, 0, 256⟩] := by
    rfl
  refine ⟨hreads, fun h => ?_⟩
  have hbytes : ∀ b ∈ (reads_out default_params empty_desc 3).map PcimRd.toBurst, 0 < b.bytes := by
    simpa using h.bytes
  rw [hreads] at hbytes
  exact absurd (hbytes _ (List.mem_singleton.mpr rfl)) (Nat.lt_irrefl 0)

end H2cData

end AwsFpga.Rtl
