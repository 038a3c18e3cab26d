import AwsFpga.Rtl.SdeC2hFlow

/-!
# C2H: the packet buffer and the data mover (`sde_c2h.sv`)

The data mover keeps the read address, and the buffer tells it how much there is. Places in the
stream are counted in bytes, a whole row for every beat, so that a place is a row and a byte of it.
-/

open Lib Lib.Axi

namespace AwsFpga.Rtl

/-- What comes from outside the two blocks. -/
structure C2hIn where
  axis_buf_valid : Bool
  axis_buf : AxisBeat
  desc_dm_desc_valid : Bool
  desc_dm_desc : CommDesc
  pm_dm_awready : Bool
  pm_dm_wready : Bool
  pm_dm_bvalid : Bool
  pm_dm_bresp : BitVec 2
  wb_dm_md_grant : Bool

structure C2h where
  SDE_C2H_BUF : C2hBuf
  SDE_C2H_DATA : C2hData

namespace C2h

open C2hBuf (BUF_SIZE_BYTES bytes Packed Track Delay)

variable (p : C2hDataParams) (i : C2hIn) (s : C2h)

def buf_in : C2hBufIn where
  axis_buf_valid := i.axis_buf_valid
  axis_buf := i.axis_buf
  dm_buf_aux_pop := C2hData.dm_buf_aux_pop s.SDE_C2H_DATA
  dm_buf_rd_byte_addr := s.SDE_C2H_DATA.dm_buf_rd_byte_addr
  dm_buf_rd := C2hData.dm_buf_rd s.SDE_C2H_DATA
  dm_buf_addr := C2hData.dm_buf_addr s.SDE_C2H_DATA

def data_in : C2hDataIn where
  desc_dm_desc_valid := i.desc_dm_desc_valid
  desc_dm_desc := i.desc_dm_desc
  pm_dm_awready := i.pm_dm_awready
  pm_dm_wready := i.pm_dm_wready
  pm_dm_bvalid := i.pm_dm_bvalid
  pm_dm_bresp := i.pm_dm_bresp
  wb_dm_md_grant := i.wb_dm_md_grant
  buf_dm_aux_valid := C2hBuf.buf_dm_aux_valid s.SDE_C2H_BUF
  buf_dm_aux_data := C2hBuf.buf_dm_aux_data s.SDE_C2H_BUF
  buf_dm_num_bytes := C2hBuf.buf_dm_num_bytes p.toC2hBufParams (buf_in i s) s.SDE_C2H_BUF
  buf_dm_data := s.SDE_C2H_BUF.buf_ram_rdata

def circuit : Circuit C2hIn C2h where
  reset := ⟨(C2hBuf.circuit p.toC2hBufParams).reset, C2hData.start⟩
  step i s :=
    ⟨C2hBuf.step p.toC2hBufParams (buf_in i s) s.SDE_C2H_BUF,
      C2hData.step p (data_in p i s) s.SDE_C2H_DATA⟩

/-- The beats that the buffer takes. -/
def accepted : List AxisBeat := C2hBuf.accepted (buf_in i s) s.SDE_C2H_BUF

/-! ## Places in the stream -/

/-- A packet ends in front of byte `x`. -/
def EndsAt (beats : List AxisBeat) (x : Nat) : Prop :=
  ∃ k b, beats[k]? = some b ∧ b.last = true ∧ x = PCIM_DATA_WIDTH_BYTES * k + bytes b

/-- Behind byte `r`, no packet ends before byte `e`. -/
def Unbroken (beats : List AxisBeat) (r e : Nat) : Prop := ∀ x, EndsAt beats x → r < x → e ≤ x

/-- The byte at a place of the stream. -/
def byte_at (beats : List AxisBeat) (x : Nat) : BitVec 8 :=
  match beats[x / PCIM_DATA_WIDTH_BYTES]? with
  | some b => lane 8 b.data (x % PCIM_DATA_WIDTH_BYTES)
  | none => 0

variable {beats new : List AxisBeat} {r e x : Nat}

theorem EndsAt.append (h : EndsAt beats x) : EndsAt (beats ++ new) x := by
  obtain ⟨k, b, hget, hlast, hx⟩ := h
  exact ⟨k, b, List.getElem?_append_left (List.getElem?_eq_some_iff.mp hget).1 ▸ hget, hlast, hx⟩

theorem endsAt_append_iff (hpacked : ∀ b ∈ new, Packed b)
    (hx : x ≤ PCIM_DATA_WIDTH_BYTES * beats.length) : EndsAt (beats ++ new) x ↔ EndsAt beats x := by
  refine ⟨?_, EndsAt.append⟩
  rintro ⟨k, b, hget, hlast, rfl⟩
  rcases Nat.lt_or_ge k beats.length with hlt | hge
  · rw [List.getElem?_append_left hlt] at hget
    exact ⟨k, b, hget, hlast, rfl⟩
  · rw [List.getElem?_append_right hge] at hget
    have hpos := (hpacked b (List.mem_of_getElem? hget)).1
    rw [width_val] at hx
    omega

theorem Unbroken.append (h : Unbroken beats r e) (he : e ≤ PCIM_DATA_WIDTH_BYTES * beats.length) :
    Unbroken (beats ++ new) r e := by
  rintro x ⟨k, b, hget, hlast, rfl⟩ hr
  rcases Nat.lt_or_ge k beats.length with hlt | hge
  · rw [List.getElem?_append_left hlt] at hget
    exact h _ ⟨k, b, hget, hlast, rfl⟩ hr
  · rw [width_val] at he ⊢
    omega

theorem byte_at_append (hx : x < PCIM_DATA_WIDTH_BYTES * beats.length) :
    byte_at (beats ++ new) x = byte_at beats x := by
  have hlt : x / PCIM_DATA_WIDTH_BYTES < beats.length := by
    rw [width_val] at *
    omega
  rw [byte_at, byte_at, List.getElem?_append_left hlt]

/-! ## What the buffer reports -/

/-- The report for place `r`, when `rows` rows are written. -/
structure Reported (p : C2hBufParams) (beats : List AxisBeat) (rows r num_bytes : Nat) (aux_valid : Bool)
    (eop_byte_addr : Nat) : Prop where
  fits : r + num_bytes ≤ PCIM_DATA_WIDTH_BYTES * rows
  unbroken : Unbroken beats r (r + num_bytes)
  ended : aux_valid → 0 < num_bytes ∧ EndsAt beats (r + num_bytes) ∧
    eop_byte_addr = (r + num_bytes - 1) % BUF_SIZE_BYTES p
  no_end : aux_valid = false → EndsAt beats (r + num_bytes) → num_bytes = 0

theorem Reported.append {p : C2hBufParams} {rows rows' num_bytes eop_byte_addr : Nat} {aux_valid : Bool}
    (h : Reported p beats rows r num_bytes aux_valid eop_byte_addr) (hrows : rows ≤ beats.length)
    (hle : rows ≤ rows') (hpacked : ∀ b ∈ new, Packed b) :
    Reported p (beats ++ new) rows' r num_bytes aux_valid eop_byte_addr := by
  have hfits := h.fits
  have hin : r + num_bytes ≤ PCIM_DATA_WIDTH_BYTES * beats.length :=
    hfits.trans (Nat.mul_le_mul_left _ hrows)
  refine ⟨hfits.trans (Nat.mul_le_mul_left _ hle), h.unbroken.append hin, fun hvalid => ?_,
    fun hvalid hend => ?_⟩
  · obtain ⟨hpos, hend, haddr⟩ := h.ended hvalid
    exact ⟨hpos, hend.append, haddr⟩
  · exact h.no_end hvalid ((endsAt_append_iff hpacked hin).mp hend)

section Buffer

variable {p : C2hBufParams} {i : C2hBufIn} {s : C2hBuf} {bq bqq : List AxisBeat} {rq : Nat}

theorem end_row {k : Nat} {b : AxisBeat} (hr : r < PCIM_DATA_WIDTH_BYTES * k + bytes b) :
    r / PCIM_DATA_WIDTH_BYTES ≤ k := by
  have hle := C2hBuf.bytes_le b
  rw [width_val] at *
  omega

theorem reported_end (h : Track p s beats bq bqq rq r) (hd : Delay s beats bq bqq r)
    (haddr : i.dm_buf_rd_byte_addr = r % BUF_SIZE_BYTES p) (hvalid : C2hBuf.buf_dm_aux_valid s = true) :
    Reported p beats bqq.length r (C2hBuf.buf_dm_num_bytes p i s) true
      (C2hBuf.buf_dm_aux_data s).eop_byte_addr := by
  obtain ⟨pre, b, post, hdrop, hpre, hlast, hlt, hdata⟩ := C2hBuf.end_of_valid h hd hvalid
  have hnum := C2hBuf.num_bytes_of_valid (i := i) h haddr hvalid hdrop hlt (by rw [hdata])
  have hget : beats[r / PCIM_DATA_WIDTH_BYTES + pre.length]? = some b := by
    rw [← List.getElem?_drop, hdrop]
    simp
  have hpos := (h.packed b (List.mem_of_getElem? hget)).1
  have hle := C2hBuf.bytes_le b
  have hsome : 0 < C2hBuf.buf_dm_num_bytes p i s := by
    rw [C2hBuf.buf_dm_num_bytes, if_pos hvalid]
    exact Nat.succ_pos _
  refine ⟨?_, ?_, fun _ => ⟨hsome, ⟨_, b, hget, hlast, hnum⟩, ?_⟩, fun hc => Bool.noConfusion hc⟩
  · rw [width_val] at *
    omega
  · rintro x ⟨k, b', hget', hlast', rfl⟩ hr
    have hrow := end_row hr
    rw [hnum]
    rcases Nat.lt_trichotomy k (r / PCIM_DATA_WIDTH_BYTES + pre.length) with hk | hk | hk
    · -- The rows in front have no end.
      rw [← Nat.add_sub_cancel' hrow, ← List.getElem?_drop, hdrop,
        List.getElem?_append_left (by omega)] at hget'
      rw [hpre b' (List.mem_of_getElem? hget')] at hlast'
      cases hlast'
    · rw [hk, hget, Option.some.injEq] at hget'
      rw [hk, hget']
    · rw [width_val] at *
      omega
  · have hlane : bytes b - 1 < PCIM_DATA_WIDTH_BYTES := by omega
    have hlast_byte : PCIM_DATA_WIDTH_BYTES * (r / PCIM_DATA_WIDTH_BYTES + pre.length) + (bytes b - 1) =
        r + C2hBuf.buf_dm_num_bytes p i s - 1 := by omega
    rw [hdata]
    dsimp only
    rw [C2hBuf.row_addr _ _ _ hlane, hlast_byte]
    rfl

theorem reported_open (h : Track p s beats bq bqq rq r) (hd : Delay s beats bq bqq r)
    (haddr : i.dm_buf_rd_byte_addr = r % BUF_SIZE_BYTES p)
    (hvalid : C2hBuf.buf_dm_aux_valid s = false) :
    Reported p beats bqq.length r (C2hBuf.buf_dm_num_bytes p i s) false
      (C2hBuf.buf_dm_aux_data s).eop_byte_addr := by
  have hnone : s.AUX_FT_FIFO.ft0 = none := by
    simpa [C2hBuf.buf_dm_aux_valid, FtFifo.ft_valid] using hvalid
  have hno := C2hBuf.no_end_of_starved h hd hnone
  have hnum := C2hBuf.num_bytes_of_starved (i := i) h haddr hvalid
  have hrows : ∀ (k : Nat) (b : AxisBeat), r / PCIM_DATA_WIDTH_BYTES ≤ k → k < bqq.length →
      beats[k]? = some b → b.last = false := by
    intro k b hrow hk hget
    rw [← List.getElem?_take_of_lt hk, C2hBuf.take_bqq h, ← Nat.add_sub_cancel' hrow,
      ← List.getElem?_drop] at hget
    exact hno b (List.mem_of_getElem? hget)
  refine ⟨hnum.le, ?_, fun hc => Bool.noConfusion hc, fun _ hend => ?_⟩
  · rintro x ⟨k, b, hget, hlast, rfl⟩ hr
    rcases Nat.lt_or_ge k bqq.length with hk | hk
    · rw [hrows k b (end_row hr) hk hget] at hlast
      cases hlast
    · rw [hnum, width_val]
      omega
  · obtain ⟨k, b, hget, hlast, hx⟩ := hend
    by_contra hsome
    have hpos := (h.packed b (List.mem_of_getElem? hget)).1
    have hr : r < PCIM_DATA_WIDTH_BYTES * k + bytes b := by omega
    have hk : k < bqq.length := by
      rw [hnum, width_val] at hx
      omega
    rw [hrows k b (end_row hr) hk hget] at hlast
    cases hlast

theorem reported (h : Track p s beats bq bqq rq r) (hd : Delay s beats bq bqq r)
    (haddr : i.dm_buf_rd_byte_addr = r % BUF_SIZE_BYTES p) :
    Reported p beats bqq.length r (C2hBuf.buf_dm_num_bytes p i s) (C2hBuf.buf_dm_aux_valid s)
      (C2hBuf.buf_dm_aux_data s).eop_byte_addr := by
  cases hvalid : C2hBuf.buf_dm_aux_valid s with
  | true => exact reported_end h hd haddr hvalid
  | false => exact reported_open h hd haddr hvalid

theorem aux_valid_step (hvalid : C2hBuf.buf_dm_aux_valid s) (hpop : i.dm_buf_aux_pop = false) :
    C2hBuf.buf_dm_aux_valid (C2hBuf.step p i s) := by
  obtain ⟨a, ha⟩ := Option.isSome_iff_exists.mp hvalid
  simp [C2hBuf.buf_dm_aux_valid, C2hBuf.step, FtFifo.step, FtFifo.ft_valid, FtFifo.nxt_ft0, hpop, ha]

theorem rdata_step (h : Track p s beats bq bqq rq r) (hrd : i.dm_buf_rd) {k : Nat} {b : AxisBeat}
    (haddr : i.dm_buf_addr = k % p.BUF_DEPTH) (hk : r / PCIM_DATA_WIDTH_BYTES ≤ k)
    (hget : beats[k]? = some b) : (C2hBuf.step p i s).buf_ram_rdata = b.data := by
  change (if i.dm_buf_rd then s.buf_ram i.dm_buf_addr else s.buf_ram_rdata) = _
  rw [if_pos hrd, haddr, h.ram k b hk hget]

end Buffer

end C2h

end AwsFpga.Rtl
