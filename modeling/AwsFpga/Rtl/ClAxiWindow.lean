import AwsFpga.Rtl.ClAxiCtl

/-!
# Where the requests of the HBM kernel go

The offset of an address goes round the window. What is added to it is the length of a burst,
of which 12 bits are kept.
-/

open Lib Lib.Axi

namespace AwsFpga.Rtl

/-- The window of an instance has more than one page of 4 KB, and starts with a page. -/
structure AxiWindow extends AxiCtlParams where
  bits : Nat
  mask : AXI_END_ADDR_MASK.toNat = 2 ^ bits - 1
  pages : 12 < bits
  short : bits ≤ 32
  aligned : AXI_START_ADDR.toNat % 4096 = 0
  fits : AXI_START_ADDR.toNat + 2 ^ bits ≤ 2 ^ 64
  requests : 0 < NUM_OT

namespace AxiCtl

section Bursts

variable {P : AxiCtlParams}

/-- How many bytes a burst has. -/
def bytes (P : AxiCtlParams) (len : BitVec P.AXLEN_WIDTH) : Nat :=
  (len.toNat + 1) * 2 ^ BUS_WIDTH_SHIFT P

/-- Each burst is inside the window and inside a page, and starts where the one before it ended
or, after the end of the window, at its start. -/
structure InWindow (bursts : List (BitVec 64 × BitVec P.AXLEN_WIDTH)) : Prop where
  window : ∀ b ∈ bursts, P.AXI_START_ADDR.toNat ≤ b.1.toNat ∧
    b.1.toNat + bytes P b.2 ≤ P.AXI_START_ADDR.toNat + P.AXI_END_ADDR_MASK.toNat + 1
  page : ∀ b ∈ bursts, b.1.toNat % 4096 + bytes P b.2 ≤ 4096
  adjacent : bursts.IsChain fun b b' => b'.1.toNat = b.1.toNat + bytes P b.2 ∨
    b'.1 = P.AXI_START_ADDR ∧
      b.1.toNat + bytes P b.2 = P.AXI_START_ADDR.toNat + P.AXI_END_ADDR_MASK.toNat + 1

theorem total_bytes_xfrd_toNat (cfg_axlen : BitVec P.AXLEN_WIDTH) :
    (total_bytes_xfrd P cfg_axlen).toNat = bytes P cfg_axlen % 4096 := by
  have habs : (axlen_abs_val P cfg_axlen).toNat = cfg_axlen.toNat + 1 := by
    have hlt := cfg_axlen.isLt
    have hpow : 2 ^ (P.AXLEN_WIDTH + 1) = 2 ^ P.AXLEN_WIDTH * 2 := Nat.pow_succ ..
    have hone : (1 : BitVec (P.AXLEN_WIDTH + 1)).toNat = 1 :=
      Nat.mod_eq_of_lt (Nat.one_lt_two_pow (Nat.succ_ne_zero _))
    have hset : (cfg_axlen.setWidth (P.AXLEN_WIDTH + 1)).toNat = cfg_axlen.toNat := by
      rw [BitVec.toNat_setWidth]
      exact Nat.mod_eq_of_lt (by omega)
    unfold axlen_abs_val
    rw [BitVec.toNat_add_of_lt (by rw [hset, hone]; omega), hset, hone]
  unfold total_bytes_xfrd bytes
  rw [BitVec.toNat_setWidth, BitVec.toNat_append, habs]
  simp [Nat.shiftLeft_eq]

theorem bytes_pos (len : BitVec P.AXLEN_WIDTH) : 0 < bytes P len :=
  Nat.mul_pos (Nat.succ_pos _) (Nat.two_pow_pos _)

end Bursts

variable (W : AxiWindow) (cfg_axlen : BitVec W.AXLEN_WIDTH)

/-- The `k`-th burst of a direction. -/
def burst_at (k : Nat) : BitVec 64 × BitVec W.AXLEN_WIDTH :=
  (W.AXI_START_ADDR +
    BitVec.ofNat 64 (walk (2 ^ W.bits) (total_bytes_xfrd W.toAxiCtlParams cfg_axlen).toNat k),
    cfg_axlen)

variable {W cfg_axlen}

variable (W) in
theorem size_le : 4096 < 2 ^ W.bits ∧ 2 ^ W.bits ≤ 2 ^ 32 := by
  have hlo : 2 ^ 12 < 2 ^ W.bits := Nat.pow_lt_pow_right (by omega) W.pages
  exact ⟨hlo, Nat.pow_le_pow_right (by omega) W.short⟩

theorem next_offset_toNat (offset : BitVec 32) (bytes : BitVec 12) :
    (next_offset W.toAxiCtlParams offset bytes).toNat = (offset.toNat + bytes.toNat) % 2 ^ W.bits := by
  obtain ⟨-, hle⟩ := size_le W
  have hmod : (offset.toNat + bytes.toNat) % 2 ^ W.bits < 2 ^ W.bits :=
    Nat.mod_lt _ (Nat.two_pow_pos _)
  have hoffset := offset.isLt
  have hbytes := bytes.isLt
  unfold next_offset
  rw [BitVec.toNat_setWidth, BitVec.toNat_and, W.mask, Nat.and_two_pow_sub_one_eq_mod,
    BitVec.toNat_add, BitVec.toNat_setWidth, BitVec.toNat_setWidth,
    Nat.mod_eq_of_lt (b := 2 ^ 64) (by omega), Nat.mod_eq_of_lt (b := 2 ^ 64) (by omega),
    Nat.mod_eq_of_lt (b := 2 ^ 64) (by omega), Nat.mod_eq_of_lt (b := 2 ^ 32) (by omega)]

theorem burst_at_toNat (k : Nat) : (burst_at W cfg_axlen k).1.toNat = W.AXI_START_ADDR.toNat +
    walk (2 ^ W.bits) (total_bytes_xfrd W.toAxiCtlParams cfg_axlen).toNat k := by
  have hlt : walk (2 ^ W.bits) (total_bytes_xfrd W.toAxiCtlParams cfg_axlen).toNat k < 2 ^ W.bits :=
    Nat.mod_lt _ (Nat.two_pow_pos _)
  have hfits := W.fits
  have hof : (BitVec.ofNat 64 (walk (2 ^ W.bits)
      (total_bytes_xfrd W.toAxiCtlParams cfg_axlen).toNat k)).toNat =
        walk (2 ^ W.bits) (total_bytes_xfrd W.toAxiCtlParams cfg_axlen).toNat k :=
    Nat.mod_eq_of_lt (by omega)
  unfold burst_at
  rw [BitVec.toNat_add_of_lt (by rw [hof]; omega), hof]

variable (cfg_axlen) in
/-- The bursts so far, and the offset of the next one. -/
def Walks (offset : BitVec 32) (bursts : List (BitVec 64 × BitVec W.AXLEN_WIDTH)) : Prop :=
  bursts = (List.range bursts.length).map (burst_at W cfg_axlen) ∧
    offset.toNat = walk (2 ^ W.bits) (total_bytes_xfrd W.toAxiCtlParams cfg_axlen).toNat bursts.length

theorem Walks.sent {offset : BitVec 32} {bursts : List (BitVec 64 × BitVec W.AXLEN_WIDTH)}
    (h : Walks cfg_axlen offset bursts) :
    (W.AXI_START_ADDR + offset.setWidth 64, cfg_axlen) = burst_at W cfg_axlen bursts.length := by
  have hoffset : offset.setWidth 64 = BitVec.ofNat 64 (walk (2 ^ W.bits)
      (total_bytes_xfrd W.toAxiCtlParams cfg_axlen).toNat bursts.length) := by
    rw [← h.2]
    exact BitVec.eq_of_toNat_eq (BitVec.toNat_setWidth 64 offset)
  rw [hoffset, burst_at]

theorem Walks.next {offset : BitVec 32} {bursts : List (BitVec 64 × BitVec W.AXLEN_WIDTH)}
    (h : Walks cfg_axlen offset bursts) :
    Walks cfg_axlen
      (next_offset W.toAxiCtlParams offset (total_bytes_xfrd W.toAxiCtlParams cfg_axlen))
      (bursts ++ [(W.AXI_START_ADDR + offset.setWidth 64, cfg_axlen)]) := by
  unfold Walks
  rw [h.sent, List.length_append, List.length_singleton, next_offset_toNat, h.2, ← walk_succ,
    List.range_succ, List.map_append, ← h.1]
  exact ⟨rfl, rfl⟩

variable (W cfg_axlen) (ins : Nat → AxiCtlIn)

theorem aw_walks (n : Nat) : Walks cfg_axlen ((circuit cfg_axlen).state ins n).aw_offset_q
    ((circuit cfg_axlen).passed ins aw_sent n) := by
  induction n with
  | zero => simp [Walks, circuit, reset]
  | succ n ih =>
    have hinv : Inv cfg_axlen ((circuit cfg_axlen).state ins n) := inv_state ins n
    rw [Circuit.passed_succ, Circuit.state_succ, circuit_step]
    generalize (circuit cfg_axlen).state ins n = s at ih hinv
    by_cases h : s.awvalid && (ins n).awready
    · have hvalid := (Bool.and_eq_true_iff.mp h).1
      have haddr : s.wr_state = .WR_ADDR := of_decide_eq_true (hinv.awvalid ▸ hvalid)
      have hoffset : (step cfg_axlen (ins n) s).aw_offset_q =
          next_offset W.toAxiCtlParams s.aw_offset_q
            (total_bytes_xfrd W.toAxiCtlParams cfg_axlen) := by
        simp [step, h, total_bytes_xfr_wr, haddr]
      have hsent : aw_sent (ins n) s =
          [(W.AXI_START_ADDR + s.aw_offset_q.setWidth 64, cfg_axlen)] := by
        rw [← (hinv.aw hvalid).1, ← (hinv.aw hvalid).2]
        exact if_pos h
      rw [hoffset, hsent]
      exact ih.next
    · have hoffset : (step cfg_axlen (ins n) s).aw_offset_q = s.aw_offset_q := if_neg h
      have hsent : aw_sent (ins n) s = [] := if_neg h
      rw [hoffset, hsent, List.append_nil]
      exact ih

theorem ar_walks (n : Nat) : Walks cfg_axlen ((circuit cfg_axlen).state ins n).ar_offset_q
    ((circuit cfg_axlen).passed ins ar_sent n) := by
  induction n with
  | zero => simp [Walks, circuit, reset]
  | succ n ih =>
    have hinv : Inv cfg_axlen ((circuit cfg_axlen).state ins n) := inv_state ins n
    rw [Circuit.passed_succ, Circuit.state_succ, circuit_step]
    generalize (circuit cfg_axlen).state ins n = s at ih hinv
    by_cases h : s.arvalid && (ins n).arready
    · have hvalid := (Bool.and_eq_true_iff.mp h).1
      have hoffset : (step cfg_axlen (ins n) s).ar_offset_q =
          next_offset W.toAxiCtlParams s.ar_offset_q
            (total_bytes_xfrd W.toAxiCtlParams cfg_axlen) := if_pos h
      have hsent : ar_sent (ins n) s =
          [(W.AXI_START_ADDR + s.ar_offset_q.setWidth 64, cfg_axlen)] := by
        rw [← (hinv.ar hvalid).1, ← (hinv.ar hvalid).2]
        exact if_pos h
      rw [hoffset, hsent]
      exact ih.next
    · have hoffset : (step cfg_axlen (ins n) s).ar_offset_q = s.ar_offset_q := if_neg h
      have hsent : ar_sent (ins n) s = [] := if_neg h
      rw [hoffset, hsent, List.append_nil]
      exact ih

variable {W cfg_axlen}

variable (W) in
theorem END_ADDR : W.AXI_END_ADDR_MASK.toNat + 1 = 2 ^ W.bits := by
  have hpos := Nat.two_pow_pos W.bits
  rw [W.mask]
  omega

variable (W) in
theorem page_dvd : 4096 ∣ 2 ^ W.bits := by
  have hle : 12 ≤ W.bits := Nat.le_of_lt W.pages
  exact Nat.pow_dvd_pow 2 hle

theorem inWindow_of_dvd (hdvd : bytes W.toAxiCtlParams cfg_axlen ∣ 4096)
    (hlt : bytes W.toAxiCtlParams cfg_axlen < 4096) (k : Nat) :
    InWindow ((List.range k).map (burst_at W cfg_axlen)) := by
  have htotal : (total_bytes_xfrd W.toAxiCtlParams cfg_axlen).toNat =
      bytes W.toAxiCtlParams cfg_axlen := by
    rw [total_bytes_xfrd_toNat, Nat.mod_eq_of_lt hlt]
  have haddr : ∀ j, (burst_at W cfg_axlen j).1.toNat = W.AXI_START_ADDR.toNat +
      walk (2 ^ W.bits) (bytes W.toAxiCtlParams cfg_axlen) j := by
    intro j
    rw [burst_at_toNat, htotal]
  have hlen : ∀ j, (burst_at W cfg_axlen j).2 = cfg_axlen := fun _ => rfl
  have hpos := Nat.two_pow_pos W.bits
  have hsize := hdvd.trans (page_dvd W)
  have hend := END_ADDR W
  have haligned := W.aligned
  refine ⟨?_, ?_, ?_⟩
  · intro b hb
    obtain ⟨j, -, rfl⟩ := List.mem_map.mp hb
    have hle := walk_add_le hpos hsize j
    rw [haddr, hlen]
    omega
  · intro b hb
    obtain ⟨j, -, rfl⟩ := List.mem_map.mp hb
    have hle := walk_in_page (by omega) (page_dvd W) hdvd j
    rw [haddr, hlen]
    omega
  · rw [List.isChain_map, List.isChain_range]
    intro j _
    rw [haddr, haddr, hlen]
    rcases walk_next hpos hsize j with hnext | ⟨hstart, hfull⟩
    · exact .inl (by rw [hnext, Nat.add_assoc])
    · refine .inr ⟨BitVec.eq_of_toNat_eq ?_, ?_⟩
      · rw [haddr, hstart, Nat.add_zero]
      · rw [Nat.add_assoc, hfull, Nat.add_assoc, hend]

theorem not_inWindow {k : Nat} (hk : 4096 < k)
    (h : ¬ (bytes W.toAxiCtlParams cfg_axlen ∣ 4096 ∧ bytes W.toAxiCtlParams cfg_axlen < 4096)) :
    ¬ InWindow ((List.range k).map (burst_at W cfg_axlen)) := by
  intro hin
  have hmem : ∀ j, j < k → burst_at W cfg_axlen j ∈ (List.range k).map (burst_at W cfg_axlen) :=
    fun j hj => List.mem_map_of_mem (List.mem_range.mpr hj)
  have hlen : ∀ j, (burst_at W cfg_axlen j).2 = cfg_axlen := fun _ => rfl
  have haligned := W.aligned
  obtain ⟨hsize, -⟩ := size_le W
  by_cases hlt : bytes W.toAxiCtlParams cfg_axlen < 4096
  · have htotal : (total_bytes_xfrd W.toAxiCtlParams cfg_axlen).toNat =
        bytes W.toAxiCtlParams cfg_axlen := by
      rw [total_bytes_xfrd_toNat, Nat.mod_eq_of_lt hlt]
    have hlast : 4096 / bytes W.toAxiCtlParams cfg_axlen < k :=
      Nat.lt_of_le_of_lt (Nat.div_le_self _ _) hk
    have hcross := walk_cross (bytes_pos cfg_axlen) (Nat.le_of_lt hsize) fun hdvd => h ⟨hdvd, hlt⟩
    have hpage := hin.page _ (hmem _ hlast)
    rw [burst_at_toNat, htotal, hlen] at hpage
    omega
  · have hfirst := hin.page _ (hmem 0 (by omega))
    rw [burst_at_toNat, walk_zero, hlen] at hfirst
    have hbytes : bytes W.toAxiCtlParams cfg_axlen = 4096 := by omega
    -- Of 4096 nothing is left in 12 bits, so that the offset stays.
    have htotal : (total_bytes_xfrd W.toAxiCtlParams cfg_axlen).toNat = 0 := by
      rw [total_bytes_xfrd_toNat, hbytes]
    have hnext := hin.adjacent
    rw [List.isChain_map, List.isChain_range] at hnext
    have hsecond := hnext 0 (by omega)
    rw [burst_at_toNat, burst_at_toNat, hlen, htotal, hbytes, walk_zero] at hsecond
    have hstay : walk (2 ^ W.bits) 0 (Nat.succ 0) = 0 := by simp [walk]
    have hend := END_ADDR W
    omega

/-- Reads alone, one after the other. -/
def read_on (_ : Nat) : AxiCtlIn where
  wr_pulse := false
  rd_pulse := true
  wdata_pattern := 0
  awready := true
  wready := true
  bresp := 0
  bvalid := false
  arready := true
  rresp := 0
  rlast := true
  rvalid := false

/-- How far the next address has come. -/
def stage (s : AxiCtl W.toAxiCtlParams) : Nat :=
  if s.arvalid then 2 else if s.rd_req_pend_q ≠ 0 then 1 else 0

variable (W cfg_axlen) in
theorem read_on_count (n : Nat) :
    ((circuit cfg_axlen).state read_on n).wr_state = .WR_IDLE ∧
      ((circuit cfg_axlen).state read_on n).wr_req_pend_q = 0 ∧
      n ≤ 3 * ((circuit cfg_axlen).passed read_on ar_sent n).length +
        stage ((circuit cfg_axlen).state read_on n) := by
  induction n with
  | zero => exact ⟨rfl, rfl, Nat.zero_le _⟩
  | succ n ih =>
    have hinv : Inv cfg_axlen ((circuit cfg_axlen).state read_on n) := inv_state read_on n
    rw [Circuit.passed_succ, Circuit.state_succ, circuit_step, List.length_append]
    generalize (circuit cfg_axlen).state read_on n = s at ih hinv
    generalize ((circuit cfg_axlen).passed read_on ar_sent n).length = count at ih
    obtain ⟨hidle, hpend, hle⟩ := ih
    have hnovalid : s.awvalid = false := by simp [hinv.awvalid, hidle]
    refine ⟨by simp [step, wr_state_nxt, hidle, hpend],
      by simp [step, pend_nxt, inc_wr_req, dec_wr_req, hnovalid, hpend, read_on], ?_⟩
    have hhold : rd_hold_off s = false := by simp [rd_hold_off, hidle]
    have hstep := rd_req_step (i := read_on n) hinv
    cases hvalid : s.arvalid
    · have hnone : ar_sent (read_on n) s = [] := by simp [ar_sent, hvalid]
      have hdec : dec_rd_req (read_on n) s = false := by simp [dec_rd_req, hvalid]
      rw [hnone, List.length_nil]
      by_cases hzero : s.rd_req_pend_q = 0
      · have hrequests := W.requests
        have hinc : inc_rd_req (read_on n) s = true := by
          simp [inc_rd_req, read_on, hzero]
          omega
        have hnext : (step cfg_axlen (read_on n) s).rd_req_pend_q ≠ 0 := by
          rw [ne_zero_iff]
          rw [hdec, hinc, Bool.toNat_false, Bool.toNat_true] at hstep
          omega
        have hstage : stage s = 0 := by simp [stage, hvalid, hzero]
        have hstage' : 1 ≤ stage (step cfg_axlen (read_on n) s) := by
          unfold stage
          rw [if_pos hnext]
          split <;> omega
        omega
      · have hstage : stage s = 1 := by simpa [stage, hvalid] using hzero
        have hvalid' : (step cfg_axlen (read_on n) s).arvalid = true := by
          simpa [step, hvalid, hhold] using hzero
        have hstage' : stage (step cfg_axlen (read_on n) s) = 2 := if_pos hvalid'
        omega
    · have hone : ar_sent (read_on n) s = [(s.araddr, s.arlen)] := by
        simp [ar_sent, hvalid, read_on]
      have hstage : stage s = 2 := if_pos hvalid
      rw [hone, List.length_singleton]
      omega

theorem leaves_window
    (h : ¬ (bytes W.toAxiCtlParams cfg_axlen ∣ 4096 ∧ bytes W.toAxiCtlParams cfg_axlen < 4096))
    {n : Nat} (hn : 12293 ≤ n) :
    ¬ InWindow ((circuit cfg_axlen).passed read_on ar_sent n) := by
  obtain ⟨-, -, hcount⟩ := read_on_count W cfg_axlen n
  have hstage : stage ((circuit cfg_axlen).state read_on n) ≤ 2 := by
    unfold stage
    split
    · exact Nat.le_refl 2
    · split <;> omega
  rw [(ar_walks W cfg_axlen read_on n).1]
  exact not_inWindow (by omega) h

variable (W cfg_axlen) in
/-- The bursts of every run are in the window and in their pages exactly when a burst has fewer
than 4096 bytes and divides a page. -/
theorem inWindow_iff : (∀ ins n, InWindow ((circuit cfg_axlen).passed ins aw_sent n) ∧
      InWindow ((circuit cfg_axlen).passed ins ar_sent n)) ↔
    bytes W.toAxiCtlParams cfg_axlen ∣ 4096 ∧ bytes W.toAxiCtlParams cfg_axlen < 4096 := by
  constructor
  · intro h
    by_contra hnot
    exact leaves_window hnot (Nat.le_refl _) (h read_on _).2
  · intro h ins n
    rw [(aw_walks W cfg_axlen ins n).1, (ar_walks W cfg_axlen ins n).1]
    exact ⟨inWindow_of_dvd h.1 h.2 _, inWindow_of_dvd h.1 h.2 _⟩

/-! ## The instances -/

theorem HBM_MASK : (0x1FFFFFFF : BitVec 64).toNat = 2 ^ 29 - 1 := by decide

theorem HBM_START_toNat (jj : Fin 32) :
    (BitVec.ofNat 64 (jj.val * 0x20000000)).toNat = jj.val * 0x20000000 := by
  have hlt := jj.isLt
  rw [BitVec.toNat_ofNat]
  omega

theorem HBM_START_aligned (jj : Fin 32) :
    (BitVec.ofNat 64 (jj.val * 0x20000000)).toNat % 4096 = 0 := by
  rw [HBM_START_toNat]
  omega

theorem HBM_START_fits (jj : Fin 32) :
    (BitVec.ofNat 64 (jj.val * 0x20000000)).toNat + 2 ^ 29 ≤ 2 ^ 64 := by
  have hlt := jj.isLt
  rw [HBM_START_toNat]
  omega

/-- The channels of `cl_hbm_perf_kernel.sv`. -/
def hbm_channel (jj : Fin 32) : AxiWindow where
  DATA_WIDTH := 256
  NUM_OT := 64
  AXI_START_ADDR := BitVec.ofNat 64 (jj.val * 0x20000000)
  AXI_END_ADDR_MASK := 0x1FFFFFFF
  AXLEN_WIDTH := 4
  bits := 29
  mask := HBM_MASK
  pages := Nat.le_add_left 13 16
  short := Nat.le_add_left 29 3
  aligned := HBM_START_aligned jj
  fits := HBM_START_fits jj
  requests := Nat.succ_pos 63

/-- Bursts of three beats, of 32 bytes each, do not divide a page. -/
theorem three_beats_leave : ¬ ∀ (W : AxiWindow) (cfg_axlen : BitVec W.AXLEN_WIDTH) ins n,
    InWindow ((circuit cfg_axlen).passed ins aw_sent n) ∧
      InWindow ((circuit cfg_axlen).passed ins ar_sent n) := by
  intro h
  have hbytes : bytes (hbm_channel 0).toAxiCtlParams (2 : BitVec 4) = 96 := by
    have hshift : Nat.clog 2 (256 / 8) = 5 := by decide
    change (2 + 1) * 2 ^ Nat.clog 2 (256 / 8) = 96
    exact hshift ▸ rfl
  have hnot : ¬ (bytes (hbm_channel 0).toAxiCtlParams (2 : BitVec 4) ∣ 4096 ∧
      bytes (hbm_channel 0).toAxiCtlParams (2 : BitVec 4) < 4096) := by
    rw [hbytes]
    omega
  exact leaves_window hnot (Nat.le_refl _) (h (hbm_channel 0) (2 : BitVec 4) read_on _).2

end AxiCtl

end AwsFpga.Rtl
