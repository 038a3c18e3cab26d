import AwsFpga.Rtl.ClPktTx

/-!
# The checker follows the generator

After each beat of the generator the checker has the words of the next one, whether the beat
matched or its words were taken over.
-/

open Lib Lib.Axi

namespace AwsFpga.Rtl.PktChk

open PktTx

variable {DATA_DW : Nat} {g c : PktCfg} {clr : PktClr} {b : PktBeat DATA_DW} {k : PktChk}

/-- The two sides have the same modes. -/
structure SameModes (g c : PktCfg) : Prop where
  prbs : c.rx_prbs = g.tx_prbs
  no_inc : c.rx_no_inc = g.tx_no_inc
  no_scramble : c.rx_no_scramble = g.tx_no_scramble

/-! ## The data -/

@[simp] theorem pkt_dword_no_scramble (data_0 data_1 : BitVec 32) (dw_idx : Nat) :
    pkt_dword true data_0 data_1 dw_idx = data_0 := rfl

theorem pkt_dword_even {dw_idx : Nat} (h : dw_idx % 2 = 0) (data_0 data_1 : BitVec 32) :
    pkt_dword false data_0 data_1 dw_idx = ((data_0 ++ data_0) >>> dw_idx).setWidth 32 := by
  simp [pkt_dword, h]

theorem setWidth_append_self (x : BitVec 32) : ((x ++ x) >>> 0).setWidth 32 = x := by
  rw [BitVec.ushiftRight_zero, BitVec.setWidth_append]
  simp

theorem tdata_0 {no_scramble : Bool} {data_0 data_1 : BitVec 32} (h : 0 < DATA_DW) :
    lane 32 (pkt_tdata DATA_DW no_scramble data_0 data_1) 0 = data_0 := by
  rw [pkt_tdata, lane_of_lanes _ h]
  cases no_scramble
  · rw [pkt_dword_even (Nat.zero_mod 2), setWidth_append_self]
  · exact pkt_dword_no_scramble data_0 data_1 0

theorem tdata_1 {data_0 data_1 : BitVec 32} (h : 1 < DATA_DW) :
    lane 32 (pkt_tdata DATA_DW false data_0 data_1) 1 = data_1 := by
  rw [pkt_tdata, lane_of_lanes _ h]
  exact setWidth_append_self data_1

theorem tdata_of_match (hkeep : b.tkeep = BitVec.allOnes _) (h : rx_data_mismatch c b k = false) :
    rx_exp_tdata DATA_DW c k = b.tdata := by
  have hmask : w_mask b (rx_exp_tdata DATA_DW c k) = w_mask b b.tdata := by
    simpa [rx_data_mismatch] using h
  refine eq_of_lane_eq (c := 8) (by omega) (n := 4 * DATA_DW) (by omega) ?_
  intro byte_idx hlt
  have hlane := congrArg (fun x => lane 8 x byte_idx) hmask
  have hset : b.tkeep.getLsbD byte_idx = true := by simp [hkeep, hlt]
  dsimp only [w_mask] at hlane
  rw [lane_of_lanes _ hlt, lane_of_lanes _ hlt, hset] at hlane
  simpa using hlane

/-- The checker has the words of beat `j`, as far as they are in the data. -/
structure Synced (g : PktCfg) (DATA_DW : Nat) (k : PktChk) (j : Nat) : Prop where
  data_0 : 0 < DATA_DW → k.rx_data_0 = word_0 g j
  data_1 : 1 < DATA_DW → g.tx_no_scramble = false → k.rx_data_1 = word_1 g j

/-- What beat `j` is. -/
def IsBeat (g : PktCfg) (b : PktBeat DATA_DW) (j : Nat) : Prop :=
  b.tdata = beat_at g DATA_DW j ∧ b.tkeep = BitVec.allOnes _

theorem pkt_tdata_congr {no_scramble : Bool} {data_0 data_1 data_0' data_1' : BitVec 32}
    (h0 : 0 < DATA_DW → data_0 = data_0')
    (h1 : 1 < DATA_DW → no_scramble = false → data_1 = data_1') :
    pkt_tdata DATA_DW no_scramble data_0 data_1 =
      pkt_tdata DATA_DW no_scramble data_0' data_1' := by
  refine of_lanes_congr fun dw_idx hlt => ?_
  rw [h0 (Nat.zero_lt_of_lt hlt)]
  cases no_scramble with
  | true => rw [pkt_dword_no_scramble, pkt_dword_no_scramble]
  | false =>
    by_cases heven : dw_idx % 2 = 0
    · rw [pkt_dword_even heven, pkt_dword_even heven]
    · rw [h1 (by omega) rfl]

theorem rx_data_match (hmodes : SameModes g c) {j : Nat} (hb : IsBeat g b j)
    (h : Synced g DATA_DW k j) : rx_data_mismatch c b k = false := by
  have hexp : rx_exp_tdata DATA_DW c k = b.tdata := by
    rw [hb.1, rx_exp_tdata, beat_at, hmodes.no_scramble]
    exact pkt_tdata_congr h.data_0 h.data_1
  unfold rx_data_mismatch
  rw [hexp]
  exact decide_eq_false (not_not_intro rfl)

theorem word_0_no_inc (hprbs : g.tx_prbs = false) (hinc : g.tx_no_inc) (j : Nat) :
    word_0 g j = g.tx_seed_0 := by
  cases j with
  | zero => rfl
  | succ j => simp [word_0, next_tx_data_0, hprbs, hinc]

theorem next_word_0 (hmodes : SameModes g c) (j : Nat) :
    next_rx_data_0 c (word_0 g j) = word_0 g (j + 1) := by
  unfold next_rx_data_0
  rw [hmodes.prbs, hmodes.no_inc]
  cases hprbs : g.tx_prbs
  · cases hinc : g.tx_no_inc
    · simp [word_0, next_tx_data_0, hprbs, hinc]
    · simp [word_0_no_inc hprbs hinc]
  · simp [word_0, next_tx_data_0, hprbs]

theorem next_word_1 (hmodes : SameModes g c) (j : Nat) :
    next_rx_data_1 c (word_1 g j) = word_1 g (j + 1) := by
  unfold next_rx_data_1
  rw [hmodes.prbs]
  rfl

/-- After beat `j`, which matched or was taken over, the checker has the words of the next. -/
theorem synced_next (hmodes : SameModes g c) {j : Nat} (hb : IsBeat g b j) :
    Synced g DATA_DW (k.step c clr true b) (j + 1) := by
  have hin_0 : 0 < DATA_DW → next_rx_data_0_in c true b k = word_0 g j := by
    intro hpos
    unfold next_rx_data_0_in mismatch
    cases hmis : rx_data_mismatch c b k
    · have hmatch := tdata_of_match hb.2 hmis
      rw [hb.1, beat_at, rx_exp_tdata] at hmatch
      have hlane := congrArg (lane 32 · 0) hmatch
      rw [tdata_0 hpos, tdata_0 hpos] at hlane
      exact hlane
    · rw [hb.1]
      exact tdata_0 hpos
  have hin_1 : 1 < DATA_DW → g.tx_no_scramble = false →
      next_rx_data_1_in c true b k = word_1 g j := by
    intro hpos hscr
    unfold next_rx_data_1_in mismatch
    cases hmis : rx_data_mismatch c b k
    · have hmatch := tdata_of_match hb.2 hmis
      rw [hb.1, beat_at, rx_exp_tdata, hmodes.no_scramble, hscr] at hmatch
      have hlane := congrArg (lane 32 · 1) hmatch
      rw [tdata_1 hpos, tdata_1 hpos] at hlane
      exact hlane
    · rw [hb.1, beat_at, hscr]
      exact tdata_1 hpos
  refine ⟨fun hpos => ?_, fun hpos hscr => ?_⟩
  · change next_rx_data_0 c (next_rx_data_0_in c true b k) = _
    rw [hin_0 hpos, next_word_0 hmodes]
  · change next_rx_data_1 c (next_rx_data_1_in c true b k) = _
    rw [hin_1 hpos hscr, next_word_1 hmodes]

/-! ## The lock -/

/-- What holds of the checker in every run. -/
structure Legal (k : PktChk) : Prop where
  state : k.rx_pkt_state = .IDLE ∨ k.rx_pkt_state = .PREAMBLE ∨ k.rx_pkt_state = .PKT_DATA
  locked : k.rx_pkt_state = .PKT_DATA → k.rx_lock ∧ k.rx_errored_pkt = false

/-- After `j` beats of the generator: locked, or as many beats matched as came after the first. -/
def Locking (k : PktChk) (j : Nat) : Prop :=
  k.rx_pkt_state = .PKT_DATA ∨
    k.rx_pkt_state = .PREAMBLE ∧ j ≤ k.rx_lock_cnt.toNat + 1 ∧ k.rx_lock_cnt.toNat ≤ 4

variable {v : Bool}

theorem legal_reset : Legal reset := ⟨.inl rfl, fun h => by simp [reset] at h⟩

theorem step_pkt_data (h : (k.step c clr v b).rx_pkt_state = .PKT_DATA) : c.rx_en ∧
    (k.rx_pkt_state = .PREAMBLE ∧ k.locks c v b ∨
      k.rx_pkt_state = .PKT_DATA ∧ k.mismatch c v b = false) := by
  change (if c.rx_en then next_rx_pkt_state c v b k else .IDLE) = _ at h
  split at h
  case isFalse => contradiction
  case isTrue hen =>
    refine ⟨hen, ?_⟩
    unfold next_rx_pkt_state at h
    split at h
    · contradiction
    · next hstate =>
      split at h
      case isTrue hlocks => exact .inl ⟨hstate, hlocks⟩
      case isFalse => contradiction
    · next hstate =>
      split at h
      case isTrue => contradiction
      case isFalse hmis => exact .inr ⟨hstate, eq_false_of_ne_true hmis⟩
    · contradiction

theorem Legal.step (h : Legal k) : Legal (k.step c clr v b) := by
  constructor
  · change (if c.rx_en then next_rx_pkt_state c v b k else .IDLE) = _ ∨
      (if c.rx_en then next_rx_pkt_state c v b k else .IDLE) = _ ∨
      (if c.rx_en then next_rx_pkt_state c v b k else .IDLE) = _
    split
    · rcases h.state with hstate | hstate | hstate <;> unfold next_rx_pkt_state <;> rw [hstate]
      · exact .inr (.inl rfl)
      · by_cases hlocks : k.locks c v b <;> simp [hlocks]
      · by_cases hmis : k.mismatch c v b <;> simp [hmis]
    · exact .inl rfl
  · intro hdata
    obtain ⟨-, ⟨hstate, hlocks⟩ | ⟨hstate, hmis⟩⟩ := step_pkt_data hdata
    · simp [PktChk.step, hstate, hlocks]
    · obtain ⟨hlock, herr⟩ := h.locked hstate
      have hno : k.locks c v b = false := by simp [locks, hstate]
      simp [PktChk.step, hstate, hmis, hlock, herr, hno]

theorem step_state (hen : c.rx_en) :
    (k.step c clr v b).rx_pkt_state = next_rx_pkt_state c v b k := if_pos hen

theorem lock_cnt_succ {cnt : BitVec 32} (h : cnt.toNat ≤ 4) : (cnt + 1).toNat = cnt.toNat + 1 := by
  rw [BitVec.toNat_add]
  change (cnt.toNat + 1) % 2 ^ 32 = _
  omega

theorem lock_cnt_le {cnt : BitVec 32} : RX_LOCK_CNT_MINUS1 ≤ cnt ↔ 4 ≤ cnt.toNat := Iff.rfl

theorem locking_first (hen : c.rx_en) (h : Legal k) : Locking (k.step c clr true b) 1 := by
  unfold Locking
  rw [step_state hen]
  rcases h.state with hstate | hstate | hstate
  · refine .inr ⟨by simp [next_rx_pkt_state, hstate], by omega, ?_⟩
    have hcnt : (k.step c clr true b).rx_lock_cnt = 0 := by simp [step, hstate]
    rw [hcnt]
    exact Nat.zero_le 4
  · cases hmis : rx_data_mismatch c b k
    · by_cases hcnt : 4 ≤ k.rx_lock_cnt.toNat
      · refine .inl ?_
        have hlocks : k.locks c true b = true := by
          simp [locks, hstate, lock_cnt_le, hcnt, hmis]
        simp [next_rx_pkt_state, hstate, hlocks]
      · refine .inr ⟨?_, by omega, ?_⟩
        · simp [next_rx_pkt_state, hstate, locks, lock_cnt_le, hcnt]
        · have hnext : (k.step c clr true b).rx_lock_cnt = k.rx_lock_cnt + 1 := by
            simp [step, hstate, mismatch, hmis]
          rw [hnext, lock_cnt_succ (by omega)]
          omega
    · refine .inr ⟨?_, by omega, ?_⟩
      · simp [next_rx_pkt_state, hstate, locks, hmis]
      · have hnext : (k.step c clr true b).rx_lock_cnt = 0 := by
          simp [step, hstate, mismatch, hmis]
        rw [hnext]
        exact Nat.zero_le 4
  · cases hmis : rx_data_mismatch c b k
    · exact .inl (by simp [next_rx_pkt_state, hstate, mismatch, hmis])
    · refine .inr ⟨by simp [next_rx_pkt_state, hstate, mismatch, hmis], by omega, ?_⟩
      have hnext : (k.step c clr true b).rx_lock_cnt = 0 := by
        simp [step, hstate, mismatch, hmis]
      rw [hnext]
      exact Nat.zero_le 4

theorem locking_next (hen : c.rx_en) {j : Nat} (h : Locking k j)
    (hmatch : rx_data_mismatch c b k = false) : Locking (k.step c clr true b) (j + 1) := by
  unfold Locking
  rw [step_state hen]
  rcases h with hstate | ⟨hstate, hj, hle⟩
  · exact .inl (by simp [next_rx_pkt_state, hstate, mismatch, hmatch])
  · by_cases hcnt : 4 ≤ k.rx_lock_cnt.toNat
    · have hlocks : k.locks c true b = true := by
        simp [locks, hstate, lock_cnt_le, hcnt, hmatch]
      exact .inl (by simp [next_rx_pkt_state, hstate, hlocks])
    · have hnext : (k.step c clr true b).rx_lock_cnt = k.rx_lock_cnt + 1 := by
        simp [step, hstate, mismatch, hmatch]
      refine .inr ⟨by simp [next_rx_pkt_state, hstate, locks, lock_cnt_le, hcnt], ?_⟩
      rw [hnext, lock_cnt_succ hle]
      omega

theorem locking_wait (hen : c.rx_en) {j : Nat} (h : Locking k j) :
    Locking (k.step c clr false b) j := by
  unfold Locking
  rw [step_state hen]
  rcases h with hstate | ⟨hstate, hcnt⟩
  · exact .inl (by simp [next_rx_pkt_state, hstate, mismatch])
  · have hnext : (k.step c clr false b).rx_lock_cnt = k.rx_lock_cnt := by simp [step, hstate]
    rw [hnext]
    exact .inr ⟨by simp [next_rx_pkt_state, hstate, locks], hcnt⟩

theorem errors_keep (h : Legal k) (hmatch : k.mismatch c v b = false)
    (hclr : clr.rx_err_pkt_cnt = false ∧ clr.rx_err_cnt = false ∧ clr.rx_raw_err_cnt = false) :
    (k.step c clr v b).rx_err_pkt_cnt = k.rx_err_pkt_cnt ∧
      (k.step c clr v b).rx_err_cnt = k.rx_err_cnt ∧
      (k.step c clr v b).rx_raw_err_cnt = k.rx_raw_err_cnt ∧
      ((k.step c clr v b).data_err → k.data_err) := by
  obtain ⟨hclr0, hclr1, hclr2⟩ := hclr
  refine ⟨?_, ?_, ?_, ?_⟩
  · have hevent : (v && b.tlast && k.rx_pkt_state = .PKT_DATA &&
        (k.rx_errored_pkt || rx_data_mismatch c b k)) = false := by
      cases hv : v
      · rfl
      · have hmis : rx_data_mismatch c b k = false := by simpa [mismatch, hv] using hmatch
        by_cases hstate : k.rx_pkt_state = .PKT_DATA
        · simp [hmis, (h.locked hstate).2]
        · simp [hstate]
    simp [step, count, hclr0, hevent]
  · simp [step, count, hclr1, hmatch]
  · simp [step, count, hclr2, hmatch]
  · have hnext : (k.step c clr v b).data_err = if clr.data_err then false else k.data_err := by
      simp [step, rx_data_err, hmatch]
    rw [hnext]
    cases clr.data_err <;> simp

end AwsFpga.Rtl.PktChk

namespace AwsFpga.Rtl.PktTst

open PktTx PktChk

variable {DATA_DW : Nat} {start : PktTst DATA_DW} {ins : Nat → PktIn DATA_DW} {g : PktCfg}

/-! ## The checker in a run -/

/-- The beat that the checker looks at. -/
def rx_checked (_ : PktIn DATA_DW) (s : PktTst DATA_DW) : List (PktBeat DATA_DW) :=
  shown s.rx_tvalid s.rx_t

theorem clrs_quiet {p : PktPort} (h : p.cfg_wr_stretch = false) :
    p.clrs = ⟨false, false, false, false, false, false, false⟩ := by
  simp [PktPort.clrs, clr_quiet h, h]

theorem chk_succ (h : Quiet start ins) (n : Nat) : ((resume start).state ins (n + 1)).chk =
    ((resume start).state ins n).chk.step start.cfg
      ⟨false, false, false, false, false, false, false⟩ ((resume start).state ins n).rx_tvalid
      ((resume start).state ins n).rx_t := by
  change PktChk.step _ _ _ _ _ = _
  rw [quiet_cfg h, clrs_quiet (quiet_port h n)]

theorem legal_state (n : Nat) (h : Legal start.chk) :
    Legal ((resume start).state ins n).chk := by
  induction n with
  | zero => exact h
  | succ n ih => exact ih.step

/-- The beats that the checker looks at are the first ones of the generator. -/
def Follows (g : PktCfg) (beats : List (PktBeat DATA_DW)) : Prop :=
  ∀ j (hj : j < beats.length), IsBeat g beats[j] j

/-- What the checker does after the first beat. -/
structure InStep (start : PktTst DATA_DW) (ins : Nat → PktIn DATA_DW) (n : Nat) : Prop where
  /-- From the second beat on none is wrong, and no error is counted. -/
  no_mismatch : 1 ≤ ((resume start).passed ins rx_checked n).length →
    ((resume start).state ins n).chk.mismatch start.cfg ((resume start).state ins n).rx_tvalid
        ((resume start).state ins n).rx_t = false ∧
      ((resume start).state ins (n + 1)).chk.rx_err_pkt_cnt =
        ((resume start).state ins n).chk.rx_err_pkt_cnt ∧
      ((resume start).state ins (n + 1)).chk.rx_err_cnt =
        ((resume start).state ins n).chk.rx_err_cnt ∧
      ((resume start).state ins (n + 1)).chk.rx_raw_err_cnt =
        ((resume start).state ins n).chk.rx_raw_err_cnt ∧
      (((resume start).state ins (n + 1)).chk.data_err →
        ((resume start).state ins n).chk.data_err)
  /-- After five beats more the checker is locked. -/
  locked : 6 ≤ ((resume start).passed ins rx_checked n).length →
    ((resume start).state ins n).chk.rx_lock

theorem Follows.mono {beats beats' : List (PktBeat DATA_DW)} (h : Follows g beats')
    (hpre : beats <+: beats') : Follows g beats := by
  intro j hj
  rw [hpre.getElem hj]
  exact h j _

theorem checked_mono (n : Nat) : (resume start).passed ins rx_checked n <+:
    (resume start).passed ins rx_checked (n + 1) := List.prefix_append _ _

theorem checked_succ {n : Nat} (hvalid : ((resume start).state ins n).rx_tvalid) :
    (resume start).passed ins rx_checked (n + 1) =
      (resume start).passed ins rx_checked n ++ [((resume start).state ins n).rx_t] := by
  rw [Circuit.passed_succ, rx_checked, hvalid, shown_true]

theorem isBeat_of_follows {n : Nat} (hfollow : Follows g ((resume start).passed ins rx_checked (n + 1)))
    (hvalid : ((resume start).state ins n).rx_tvalid) :
    IsBeat g ((resume start).state ins n).rx_t ((resume start).passed ins rx_checked n).length := by
  rw [checked_succ hvalid] at hfollow
  have hbeat := hfollow ((resume start).passed ins rx_checked n).length (by simp)
  rwa [List.getElem_concat_length rfl] at hbeat

theorem synced_state (h : Quiet start ins) (hmodes : SameModes g start.cfg) {n : Nat}
    (hfollow : Follows g ((resume start).passed ins rx_checked n))
    (hpos : 1 ≤ ((resume start).passed ins rx_checked n).length) :
    Synced g DATA_DW ((resume start).state ins n).chk
      ((resume start).passed ins rx_checked n).length := by
  induction n with
  | zero => simp at hpos
  | succ n ih =>
    rw [chk_succ h]
    cases hvalid : ((resume start).state ins n).rx_tvalid
    · have hsame : (resume start).passed ins rx_checked (n + 1) =
          (resume start).passed ins rx_checked n := by
        rw [Circuit.passed_succ, rx_checked, hvalid, shown_false, List.append_nil]
      rw [hsame] at hpos hfollow ⊢
      have hsync := ih hfollow hpos
      exact ⟨hsync.data_0, hsync.data_1⟩
    · have hbeat := isBeat_of_follows hfollow hvalid
      rw [checked_succ hvalid, List.length_append, List.length_singleton]
      exact synced_next hmodes hbeat

theorem mismatch_state (h : Quiet start ins) (hmodes : SameModes g start.cfg) {n : Nat}
    (hfollow : Follows g ((resume start).passed ins rx_checked (n + 1)))
    (hpos : 1 ≤ ((resume start).passed ins rx_checked n).length) :
    ((resume start).state ins n).chk.mismatch start.cfg ((resume start).state ins n).rx_tvalid
      ((resume start).state ins n).rx_t = false := by
  cases hvalid : ((resume start).state ins n).rx_tvalid
  · rfl
  · have hsync := synced_state h hmodes (hfollow.mono (checked_mono n)) hpos
    exact rx_data_match hmodes (isBeat_of_follows hfollow hvalid) hsync

theorem locking_state (h : Quiet start ins) (hen : start.cfg.rx_en) (hlegal : Legal start.chk)
    (hmodes : SameModes g start.cfg) {n : Nat}
    (hfollow : Follows g ((resume start).passed ins rx_checked n))
    (hpos : 1 ≤ ((resume start).passed ins rx_checked n).length) :
    Locking ((resume start).state ins n).chk ((resume start).passed ins rx_checked n).length := by
  induction n with
  | zero => simp at hpos
  | succ n ih =>
    have hmis := mismatch_state h hmodes hfollow
    rw [chk_succ h]
    cases hvalid : ((resume start).state ins n).rx_tvalid
    · have hsame : (resume start).passed ins rx_checked (n + 1) =
          (resume start).passed ins rx_checked n := by
        rw [Circuit.passed_succ, rx_checked, hvalid, shown_false, List.append_nil]
      rw [hsame] at hpos hfollow ⊢
      exact locking_wait hen (ih hfollow hpos)
    · rw [hvalid] at hmis
      rw [checked_succ hvalid, List.length_append, List.length_singleton]
      by_cases hfirst : ((resume start).passed ins rx_checked n).length = 0
      · rw [hfirst]
        exact locking_first hen (legal_state n hlegal)
      · have hpos' : 1 ≤ ((resume start).passed ins rx_checked n).length := Nat.pos_of_ne_zero hfirst
        exact locking_next hen (ih (hfollow.mono (checked_mono n)) hpos') (hmis hpos')

theorem inStep_of_follows (h : Quiet start ins) (hen : start.cfg.rx_en) (hlegal : Legal start.chk)
    (hmodes : SameModes g start.cfg) {n : Nat}
    (hfollow : Follows g ((resume start).passed ins rx_checked (n + 1))) : InStep start ins n := by
  have hlegal' : Legal ((resume start).state ins n).chk := legal_state n hlegal
  constructor
  · intro hpos
    have hmis := mismatch_state h hmodes hfollow hpos
    rw [chk_succ h]
    exact ⟨hmis, errors_keep hlegal' hmis ⟨rfl, rfl, rfl⟩⟩
  · intro hsix
    have hlock := locking_state h hen hlegal hmodes (hfollow.mono (checked_mono n)) (by omega)
    rcases hlock with hdata | ⟨-, hcnt, hle⟩
    · exact (hlegal'.locked hdata).1
    · omega

/-! ## What comes to the checker -/

/-- The beats that came to the checker and were not looked at yet. -/
def rx_left (s : PktTst DATA_DW) : List (PktBeat DATA_DW) := shown s.rx_tvalid s.rx_t ++ s.rx_fifo

theorem rx_fifo_le_step (i : PktIn DATA_DW) {s : PktTst DATA_DW} (h : s.rx_fifo.length ≤ 3) :
    (step i s).rx_fifo.length ≤ 3 := by
  change (flop_fifo_in 3 (s.rx_push i) _ s.rx_fifo).length ≤ 3
  have hone : (s.rx_push i).toList.length ≤ 1 := by cases s.rx_push i <;> simp
  unfold flop_fifo_in
  dsimp only
  split <;> simp <;> omega

theorem rx_fifo_le (n : Nat) (h : start.rx_fifo.length ≤ 3) :
    ((resume start).state ins n).rx_fifo.length ≤ 3 := by
  induction n with
  | zero => exact h
  | succ n ih => exact rx_fifo_le_step (ins n) ih

theorem rx_step (i : PktIn DATA_DW) {s : PktTst DATA_DW} (hen : s.cfg.rx_en)
    (hport : s.cfg.rx_loopback = false) (hle : s.rx_fifo.length ≤ 3) :
    rx_left s ++ axis_rx_taken i s = rx_checked i s ++ rx_left (step i s) := by
  have htaken : axis_rx_taken i s = (s.rx_push i).toList := by
    unfold axis_rx_taken rx_push fire
    split <;> rfl
  have hpush : s.rx_fifo.length < 3 ∨ s.rx_push i = none := by
    by_cases hlt : s.rx_fifo.length < 3
    · exact .inl hlt
    · refine .inr ?_
      have hfull : s.axis_rx_tready = false := by
        simp only [axis_rx_tready, watermark, Bool.not_eq_false', decide_eq_true_eq]
        omega
      simp [rx_push, hfull]
  have hfifo : (step i s).rx_fifo =
      (if s.rx_ff_tvalid && s.cfg.rx_en then s.rx_fifo.tail else s.rx_fifo) ++
        (s.rx_push i).toList :=
    flop_fifo_in_eq hle hpush fun h => by
      simpa [rx_ff_tvalid] using (Bool.and_eq_true_iff.mp h).1
  have hvalid : (step i s).rx_tvalid = s.rx_ff_tvalid := by simp [step, hport]
  have hbeat : (step i s).rx_t = s.rx_ff := by simp [step, hport]
  unfold rx_left rx_checked
  rw [htaken, hvalid, hbeat, hfifo, hen, List.append_assoc]
  congr 1
  unfold rx_ff_tvalid rx_ff
  cases s.rx_fifo <;> simp

theorem rx_state (h : Quiet start ins) (hen : start.cfg.rx_en) (hport : start.cfg.rx_loopback = false)
    (hle : start.rx_fifo.length ≤ 3) (n : Nat) :
    rx_left start ++ (resume start).passed ins axis_rx_taken n =
      (resume start).passed ins rx_checked n ++ rx_left ((resume start).state ins n) := by
  induction n with
  | zero => simp [resume]
  | succ n ih =>
    have hstep := rx_step (ins n) (s := (resume start).state ins n) (by rw [quiet_cfg h, hen])
      (by rw [quiet_cfg h, hport]) (rx_fifo_le n hle)
    rw [Circuit.passed_succ, Circuit.passed_succ, ← List.append_assoc, ih, List.append_assoc, hstep,
      List.append_assoc]
    rfl

/-! ## What the generator sends -/

/-- How many packets are complete. -/
def pkts (beats : List (PktBeat DATA_DW)) : Nat := (beats.map (·.tlast)).count true

theorem pkts_append (beats beats' : List (PktBeat DATA_DW)) :
    pkts (beats ++ beats') = pkts beats + pkts beats' := by
  simp [pkts]

theorem pkts_le (beats : List (PktBeat DATA_DW)) : pkts beats ≤ beats.length := by
  have hle := List.count_le_length (a := true) (l := beats.map (·.tlast))
  rwa [List.length_map] at hle

theorem pkts_of_sent {c : PktCfg} {log : List (PktBeat DATA_DW)} {done part : Nat}
    (h : Sent c log done part) : pkts log = done := by
  unfold pkts
  rw [h.last, List.count_append, packets_count, List.count_replicate]
  simp

theorem follows_of_sent {c : PktCfg} {log : List (PktBeat DATA_DW)} {done part : Nat}
    (h : Sent c log done part) (hfew : pkts log < 2 ^ 64) : Follows c log := by
  rw [pkts_of_sent h] at hfew
  intro j hj
  have hget := congrArg (fun l => l[j]?) (h.data hfew)
  simp only [List.getElem?_map, List.getElem?_range hj, List.getElem?_eq_getElem hj, Option.map_some,
    Option.some.injEq, Prod.mk.injEq] at hget
  exact hget

theorem exists_sent (h : Quiet start ins) (hready : TxReady start) (n : Nat) :
    ∃ done part, Sent start.cfg ((resume start).passed ins tx_pushed n) done part := by
  cases n with
  | zero => exact ⟨0, 0, .nil⟩
  | succ n =>
    cases tx_phase h hready n with
    | wait _ _ none => exact ⟨0, 0, none ▸ .nil⟩
    | start _ _ _ sent | data _ _ _ sent | last _ _ _ sent | finished _ _ _ sent =>
      exact ⟨_, _, sent⟩

/-- Until the counter of packets comes round, the generator sends the beats of its seeds. -/
theorem tx_follows (h : Quiet start ins) (hready : TxReady start) {n : Nat}
    (hfew : pkts ((resume start).passed ins axis_tx_sent n) < 2 ^ 32) :
    Follows start.cfg ((resume start).passed ins axis_tx_sent n) := by
  obtain ⟨done, part, hsent⟩ := exists_sent h hready n
  have hlog := tx_pushed_eq h hready n
  have hle := tx_fifo_le h hready n
  have hfifo := pkts_le ((resume start).state ins n).tx.tx_fifo
  have hmore : pkts ((resume start).passed ins tx_pushed n) < 2 ^ 64 := by
    rw [hlog, pkts_append]
    omega
  refine (follows_of_sent hsent hmore).mono ?_
  rw [hlog]
  exact List.prefix_append _ _

/-! ## Generator and checker -/

/-- The checker, enabled and with the modes of the generator, gets the beats that the generator
sends in their order. From the start of both nothing is configured. -/
structure Linked (gen : PktTst DATA_DW) (gins : Nat → PktIn DATA_DW) (start : PktTst DATA_DW)
    (ins : Nat → PktIn DATA_DW) : Prop where
  gen_quiet : Quiet gen gins
  gen_ready : TxReady gen
  quiet : Quiet start ins
  en : start.cfg.rx_en
  port : start.cfg.rx_loopback = false
  modes : SameModes gen.cfg start.cfg
  gets : ∀ n, ∃ l, rx_left start ++ (resume start).passed ins axis_rx_taken n <+:
      (resume gen).passed gins axis_tx_sent l ∧
    pkts ((resume gen).passed gins axis_tx_sent l) < 2 ^ 32

theorem rx_follows {gen : PktTst DATA_DW} {gins : Nat → PktIn DATA_DW}
    (h : Linked gen gins start ins) (hle : start.rx_fifo.length ≤ 3) (n : Nat) :
    Follows gen.cfg ((resume start).passed ins rx_checked n) := by
  obtain ⟨l, hpre, hfew⟩ := h.gets n
  rw [rx_state h.quiet h.en h.port hle] at hpre
  exact (tx_follows h.gen_quiet h.gen_ready hfew).mono
    ((List.prefix_append _ _).trans hpre)

theorem reachable (past : Nat → PktIn DATA_DW) (m : Nat) :
    Legal (circuit.state past m).chk ∧ (circuit.state past m).rx_fifo.length ≤ 3 := by
  induction m with
  | zero => exact ⟨legal_reset, Nat.zero_le 3⟩
  | succ m ih => exact ⟨ih.1.step, rx_fifo_le_step (past m) ih.2⟩

/-- From whatever state it starts in, the checker is in step with the generator after one beat,
and locked after five more. -/
theorem checker_in_step {gen : PktTst DATA_DW} {gins : Nat → PktIn DATA_DW}
    (past : Nat → PktIn DATA_DW) (m : Nat) {ins : Nat → PktIn DATA_DW}
    (h : Linked gen gins (circuit.state past m) ins) (n : Nat) :
    InStep (circuit.state past m) ins n := by
  obtain ⟨hlegal, hle⟩ := reachable past m
  exact inStep_of_follows h.quiet h.en hlegal h.modes (rx_follows h hle (n + 1))

/-! ## Four packets -/

theorem eq_of_follows {c : PktCfg} {beats : List (PktBeat 16)} (h : Follows c beats) :
    beats = (List.range beats.length).map fun j =>
      ⟨beat_at c 16 j, (beats.map (·.tlast)).getD j false, BitVec.allOnes _⟩ := by
  apply List.ext_getElem (by simp)
  intro j hj _
  obtain ⟨hdata, hkeep⟩ := h j hj
  have hlast : (beats.map (·.tlast)).getD j false = beats[j].tlast := by simp [hj]
  rw [List.getElem_map, List.getElem_range, hlast, ← hdata, ← hkeep]

/-- Beat `j` of the generator with four packets to send. -/
def four_beat (j : Nat) : PktBeat 16 :=
  ⟨beat_at four_packets.cfg 16 j, (packets four_packets.cfg 4).getD j false, BitVec.allOnes _⟩

/-- The host enables the checker. -/
def enables (n : Nat) : PktIn 16 where
  cfg_addr := 0x80
  cfg_wdata := 1
  cfg_wr := n = 0
  cfg_rd := false
  axis_tx_tready := true
  axis_rx_tvalid := false
  axis_rx := ⟨0, false, 0⟩

/-- A beat comes in every other cycle. -/
def gets_four (n : Nat) : PktIn 16 where
  cfg_addr := 0
  cfg_wdata := 0
  cfg_wr := false
  cfg_rd := false
  axis_tx_tready := true
  axis_rx_tvalid := n < 14 && n % 2 = 0
  axis_rx := four_beat (n / 2)

theorem four_packets_beats : ∃ l, (resume four_packets).passed slow_receiver axis_tx_sent l =
    (List.range 7).map four_beat := by
  have hsends : Sends four_packets slow_receiver 4 :=
    sends_succ four_packets_quiet four_packets_ready rfl slow_receiver_fair
  obtain ⟨m, hm⟩ := hsends
  obtain ⟨-, -, hsent⟩ := hm m (Nat.le_refl m)
  have hfew : pkts ((resume four_packets).passed slow_receiver axis_tx_sent m) < 2 ^ 32 := by
    rw [pkts, hsent, four_packets_marks]
    decide
  have hfollow := tx_follows four_packets_quiet four_packets_ready hfew
  have hlen : ((resume four_packets).passed slow_receiver axis_tx_sent m).length = 7 := by
    rw [← List.length_map (·.tlast), hsent, four_packets_marks]
    rfl
  refine ⟨m, (eq_of_follows hfollow).trans ?_⟩
  rw [hlen, hsent]
  rfl

theorem gets_four_taken (n : Nat) :
    (resume (circuit.state enables 3)).passed gets_four axis_rx_taken n <+:
      (List.range 7).map four_beat := by
  have hnil : ∀ n, 14 ≤ n → axis_rx_taken (gets_four n)
      ((resume (circuit.state enables 3)).state gets_four n) = [] := by
    intro n hn
    have hno : (gets_four n).axis_rx_tvalid = false := by simp [gets_four, hn]
    simp [axis_rx_taken, hno]
  have hall : (resume (circuit.state enables 3)).passed gets_four axis_rx_taken 14 =
      (List.range 7).map four_beat := rfl
  rcases Nat.le_total n 14 with hle | hge
  · rw [← hall]
    exact Circuit.passed_prefix hle
  · rw [Circuit.passed_eq_of_nil hnil n hge, hall]

theorem four_packets_linked :
    Linked four_packets slow_receiver (circuit.state enables 3) gets_four where
  gen_quiet := four_packets_quiet
  gen_ready := four_packets_ready
  quiet := ⟨rfl, fun _ => rfl⟩
  en := rfl
  port := rfl
  modes := ⟨rfl, rfl, rfl⟩
  gets := by
    intro n
    obtain ⟨l, hl⟩ := four_packets_beats
    refine ⟨l, ?_, ?_⟩
    · rw [hl]
      exact gets_four_taken n
    · rw [hl]
      decide

theorem four_packets_in_step :
    (∀ n, InStep (circuit.state enables 3) gets_four n) ∧
    ((resume (circuit.state enables 3)).state gets_four 20).chk.rx_lock = true :=
  ⟨checker_in_step enables 3 four_packets_linked,
    (checker_in_step enables 3 four_packets_linked 20).locked (by decide +kernel)⟩

end AwsFpga.Rtl.PktTst
