import AwsFpga.Rtl.ClTstRdTrk

/-!
# The write data of the traffic generator (`cl_tst.sv`)

The data of the first beat is computed one cycle ahead, from what the instruction RAM shows then.
The strobe is computed anew in each cycle, all ones unless a beat with a mask begins.
-/

open Lib Lib.Axi

namespace AwsFpga.Rtl

/-- The write side with its W channel. The width is 32 times `DATA_DW`. -/
structure TstWr (DATA_DW : Nat) where
  tst : Tst
  const_data_mode : Bool
  first_wdata : BitVec (32 * DATA_DW)
  wdata : BitVec (32 * DATA_DW)
  wstrb : BitVec (4 * DATA_DW)
  wr_last_adj : BitVec 8

namespace TstWr

/-! ## The masks -/

section Mask

variable (DATA_DW : Nat) (inst : BitVec 128)

/-- The bytes from the first dword on. -/
def first_mask : BitVec (4 * DATA_DW) :=
  BitVec.allOnes _ <<< ((Tst.wr_first_adj (32 * DATA_DW) inst).toNat * 4)

/-- The number of bytes up to the last dword, in 32 bits. -/
def last_bytes (last_adj : BitVec 8) : BitVec 32 :=
  BitVec.ofNat 32 (2 ^ (Tst.ADJ_DW_WIDTH (32 * DATA_DW) + 2)) - BitVec.ofNat 32 (last_adj.toNat * 4)

/-- A shift by the width or more leaves nothing to take away. -/
def last_mask (last_adj : BitVec 8) : BitVec (4 * DATA_DW) :=
  ~~~(if (last_bytes DATA_DW last_adj).toNat < 4 * DATA_DW then
    BitVec.allOnes _ <<< (last_bytes DATA_DW last_adj).toNat else 0)

end Mask

variable {DATA_DW : Nat} (i : TstIn) (s : TstWr DATA_DW)

def wdata_nxt : BitVec (32 * DATA_DW) :=
  if s.tst.wr_state = .WR_ADDR then s.first_wdata
  else if s.tst.wvalid && i.wready then TstRd.rd_data_nxt s.const_data_mode s.wdata
  else s.wdata

def wstrb_nxt : BitVec (4 * DATA_DW) :=
  if s.tst.wr_state = .WR_ADDR then
    if s.tst.len = 0 then
      first_mask DATA_DW s.tst.inst_wr_rdata &&&
        last_mask DATA_DW (TstRd.inst_last_adj s.tst.inst_wr_rdata)
    else first_mask DATA_DW s.tst.inst_wr_rdata
  else if s.tst.wr_running_length = 1 && i.wready then last_mask DATA_DW s.wr_last_adj
  else BitVec.allOnes _

def step : TstWr DATA_DW where
  tst := Tst.step (32 * DATA_DW) i s.tst
  const_data_mode :=
    if Tst.cfg_set s.tst.cfg 0x00 then s.tst.cfg.wdata_q.getLsbD 25 else s.const_data_mode
  first_wdata :=
    TstRd.first_data DATA_DW s.const_data_mode (TstRd.inst_data s.tst.inst_wr_rdata)
  wdata := wdata_nxt i s
  wstrb := wstrb_nxt i s
  wr_last_adj :=
    if s.tst.wr_state = .WR_ADDR then TstRd.inst_last_adj s.tst.inst_wr_rdata else s.wr_last_adj

def reset (cfg : TstCfg) (const_data_mode : Bool) : TstWr DATA_DW where
  tst := Tst.reset cfg
  const_data_mode := const_data_mode
  first_wdata := 0
  wdata := 0
  wstrb := 0
  wr_last_adj := 0

def circuit (DATA_DW : Nat) (cfg : TstCfg) (const_data_mode : Bool) : Circuit TstIn (TstWr DATA_DW) :=
  ⟨reset cfg const_data_mode, step⟩

/-! ## The beats -/

/-- Data, strobe and mark. -/
abbrev Beat (DATA_DW : Nat) := BitVec (32 * DATA_DW) × BitVec (4 * DATA_DW) × Bool

/-- The write instructions, each in the cycle that ends its `WR_ADDR`. -/
def executed : List (BitVec 128) :=
  if Tst.wr_addr_done i s.tst then [s.tst.inst_wr_rdata] else []

def w_accepted : List (Beat DATA_DW) :=
  fire s.tst.wvalid i.wready (s.wdata, s.wstrb, s.tst.wlast)

section Inst

variable (DATA_DW : Nat) (const_data_mode : Bool) (inst : BitVec 128) (k : Nat)

/-- The lanes of beat `k`: in the first one from the dword of the address on, in the last one up to
the adjustment. -/
def strobe : BitVec (4 * DATA_DW) :=
  of_lanes DATA_DW fun d =>
    if (k = 0 → (Tst.wr_first_adj (32 * DATA_DW) inst).toNat ≤ d) ∧
        (k = (Tst.inst_length inst).toNat → d + (TstRd.inst_last_adj inst).toNat < DATA_DW) then
      BitVec.allOnes 4
    else 0

/-- Beat `k` of an instruction. -/
def beat : Beat DATA_DW :=
  (TstRd.expected DATA_DW const_data_mode (TstRd.inst_data inst) k, strobe DATA_DW inst k,
    decide (k = (Tst.inst_length inst).toNat))

def burst : List (Beat DATA_DW) :=
  (List.range ((Tst.inst_length inst).toNat + 1)).map (beat DATA_DW const_data_mode inst)

end Inst

/-! ## The masks lane by lane -/

section Masks

variable {inst : BitVec 128} {k : Nat}

theorem first_mask_lane {d : Nat} (hd : d < DATA_DW) : lane 4 (first_mask DATA_DW inst) d =
    if (Tst.wr_first_adj (32 * DATA_DW) inst).toNat ≤ d then BitVec.allOnes 4 else 0 := by
  unfold first_mask
  rw [Nat.mul_comm _ 4, lane_shift_left _ _ (by omega)]
  split
  · exact lane_allOnes (by omega)
  · rfl

/-- The adjustment is in dwords, and `2 ^ ADJ_DW_WIDTH` of them make a beat. -/
theorem last_bytes_toNat (hwidth : 2 ^ Tst.ADJ_DW_WIDTH (32 * DATA_DW) = DATA_DW)
    {last_adj : BitVec 8} (hadj : last_adj.toNat ≤ DATA_DW) :
    (last_bytes DATA_DW last_adj).toNat = 4 * (DATA_DW - last_adj.toNat) := by
  have hle : DATA_DW ≤ 2 ^ 4 := by
    rw [← hwidth]
    refine Nat.pow_le_pow_right (by omega) ?_
    unfold Tst.ADJ_DW_WIDTH
    split <;> try split
    all_goals try split
    all_goals omega
  have hbytes : 2 ^ (Tst.ADJ_DW_WIDTH (32 * DATA_DW) + 2) = DATA_DW * 4 := by
    rw [Nat.pow_add, hwidth]
  unfold last_bytes
  rw [hbytes, BitVec.toNat_sub_of_le, BitVec.toNat_ofNat, BitVec.toNat_ofNat,
    Nat.mod_eq_of_lt (by omega), Nat.mod_eq_of_lt (by omega)]
  · omega
  · rw [BitVec.le_def, BitVec.toNat_ofNat, BitVec.toNat_ofNat, Nat.mod_eq_of_lt (by omega),
      Nat.mod_eq_of_lt (by omega)]
    omega

theorem last_mask_lane (hwidth : 2 ^ Tst.ADJ_DW_WIDTH (32 * DATA_DW) = DATA_DW)
    {last_adj : BitVec 8} (hadj : last_adj.toNat ≤ DATA_DW) {d : Nat} (hd : d < DATA_DW) :
    lane 4 (last_mask DATA_DW last_adj) d =
      if d + last_adj.toNat < DATA_DW then BitVec.allOnes 4 else 0 := by
  unfold last_mask
  rw [last_bytes_toNat hwidth hadj, lane_not _ (by omega)]
  split
  · rw [lane_shift_left _ _ (by omega)]
    by_cases h : d + last_adj.toNat < DATA_DW
    · rw [if_neg (by omega), if_pos h]
      rfl
    · rw [if_pos (by omega), if_neg h, lane_allOnes (by omega)]
      rfl
  · rw [if_pos (by omega)]
    simp [lane]

theorem strobe_first (hlen : Tst.inst_length inst ≠ 0) :
    first_mask DATA_DW inst = strobe DATA_DW inst 0 := by
  have hne : 0 ≠ (Tst.inst_length inst).toNat := fun h => hlen (BitVec.eq_of_toNat_eq h.symm)
  refine eq_of_lane_eq (by omega) (Nat.le_refl _) fun d hd => ?_
  rw [first_mask_lane hd, strobe, lane_of_lanes _ hd]
  simp [hne]

theorem strobe_only (hwidth : 2 ^ Tst.ADJ_DW_WIDTH (32 * DATA_DW) = DATA_DW)
    (hadj : (TstRd.inst_last_adj inst).toNat ≤ DATA_DW) (hlen : Tst.inst_length inst = 0) :
    first_mask DATA_DW inst &&& last_mask DATA_DW (TstRd.inst_last_adj inst) =
      strobe DATA_DW inst 0 := by
  refine eq_of_lane_eq (by omega) (Nat.le_refl _) fun d hd => ?_
  rw [lane_and, first_mask_lane hd, last_mask_lane hwidth hadj hd, strobe, lane_of_lanes _ hd, hlen]
  split <;> split <;> simp_all

theorem strobe_last (hwidth : 2 ^ Tst.ADJ_DW_WIDTH (32 * DATA_DW) = DATA_DW)
    (hadj : (TstRd.inst_last_adj inst).toNat ≤ DATA_DW) (hk : k ≠ 0)
    (hlen : k = (Tst.inst_length inst).toNat) :
    last_mask DATA_DW (TstRd.inst_last_adj inst) = strobe DATA_DW inst k := by
  refine eq_of_lane_eq (by omega) (Nat.le_refl _) fun d hd => ?_
  rw [last_mask_lane hwidth hadj hd, strobe, lane_of_lanes _ hd]
  simp [hk, ← hlen]

theorem strobe_middle (hk : k ≠ 0) (hlen : k ≠ (Tst.inst_length inst).toNat) :
    BitVec.allOnes _ = strobe DATA_DW inst k := by
  refine eq_of_lane_eq (by omega) (Nat.le_refl _) fun d hd => ?_
  rw [lane_allOnes (by omega), strobe, lane_of_lanes _ hd]
  simp [hk, hlen]

end Masks

/-! ## One cycle -/

variable {i s} {m : Bool}

/-- Beat `k` of `inst` is shown. -/
structure Sending (m : Bool) (s : TstWr DATA_DW) (inst : BitVec 128) (k : Nat) : Prop where
  wr_state : s.tst.wr_state = .WR_DAT
  le : k ≤ (Tst.inst_length inst).toNat
  running : s.tst.wr_running_length = BitVec.ofNat 8 ((Tst.inst_length inst).toNat - k)
  last_adj : s.wr_last_adj = TstRd.inst_last_adj inst
  adj_le : (TstRd.inst_last_adj inst).toNat ≤ DATA_DW
  wdata : s.wdata = TstRd.expected DATA_DW m (TstRd.inst_data inst) k
  wstrb : s.wstrb = strobe DATA_DW inst k

/-- Where a burst is, with the instructions so far and the beats that were accepted. -/
inductive View (m : Bool) (s : TstWr DATA_DW) : List (BitVec 128) → List (Beat DATA_DW) → Prop
  | between {insts} (hstate : s.tst.wr_state ≠ .WR_DAT) :
      View m s insts (insts.flatMap (burst DATA_DW m))
  | sending {done inst k} (h : Sending m s inst k) :
      View m s (done ++ [inst])
        (done.flatMap (burst DATA_DW m) ++ (burst DATA_DW m inst).take k)

theorem burst_length (inst : BitVec 128) :
    (burst DATA_DW m inst).length = (Tst.inst_length inst).toNat + 1 := by
  simp [burst]

theorem burst_take_succ {inst : BitVec 128} {k : Nat} (hk : k ≤ (Tst.inst_length inst).toNat) :
    (burst DATA_DW m inst).take (k + 1) =
      (burst DATA_DW m inst).take k ++ [beat DATA_DW m inst k] := by
  have hlt : k < (burst DATA_DW m inst).length := by rw [burst_length]; omega
  rw [List.take_add_one, List.getElem?_eq_getElem hlt]
  simp [burst]

theorem running_eq_iff {inst : BitVec 128} {k j : Nat} (hj : j < 2 ^ 8) :
    BitVec.ofNat 8 ((Tst.inst_length inst).toNat - k) = BitVec.ofNat 8 j ↔
      (Tst.inst_length inst).toNat - k = j := by
  have hlen := (Tst.inst_length inst).isLt
  rw [← BitVec.toNat_inj, BitVec.toNat_ofNat, BitVec.toNat_ofNat, Nat.mod_eq_of_lt (by omega),
    Nat.mod_eq_of_lt hj]

theorem Sending.wlast {inst : BitVec 128} {k : Nat} (h : Sending m s inst k) :
    s.tst.wlast = decide (k = (Tst.inst_length inst).toNat) := by
  have hk := h.le
  change decide (s.tst.wr_running_length = 0) = _
  rw [h.running, decide_eq_decide]
  change BitVec.ofNat 8 _ = BitVec.ofNat 8 0 ↔ _
  rw [running_eq_iff (by omega)]
  omega

theorem Sending.accepted {inst : BitVec 128} {k : Nat} (h : Sending m s inst k) (hready : i.wready) :
    w_accepted i s = [beat DATA_DW m inst k] := by
  simp [w_accepted, Tst.wvalid, h.wr_state, hready, h.wdata, h.wstrb, h.wlast, beat]

theorem view_between (hstate : s.tst.wr_state ≠ .WR_DAT) (hdone : executed i s = [])
    (insts : List (BitVec 128)) (hnext : Tst.wr_state_nxt i s.tst ≠ .WR_DAT) :
    View m (step i s) (insts ++ executed i s)
      (insts.flatMap (burst DATA_DW m) ++ w_accepted i s) := by
  have hno : w_accepted i s = [] := by simp [w_accepted, Tst.wvalid, hstate]
  rw [hdone, hno, List.append_nil, List.append_nil]
  exact .between hnext

theorem view_begin (hwidth : 2 ^ Tst.ADJ_DW_WIDTH (32 * DATA_DW) = DATA_DW)
    (haddr : s.tst.wr_state = .WR_ADDR) (hready : i.awready)
    (hadj : (TstRd.inst_last_adj s.tst.inst_wr_rdata).toNat ≤ DATA_DW)
    (hfirst : s.first_wdata = TstRd.first_data DATA_DW m (TstRd.inst_data s.tst.inst_wr_rdata))
    (insts : List (BitVec 128)) :
    View m (step i s) (insts ++ executed i s)
      (insts.flatMap (burst DATA_DW m) ++ w_accepted i s) := by
  have hnext : Tst.wr_state_nxt i s.tst = .WR_DAT := by simp [Tst.wr_state_nxt, haddr, hready]
  have hexec : executed i s = [s.tst.inst_wr_rdata] := by
    simp [executed, Tst.wr_addr_done, haddr, hnext]
  have hno : w_accepted i s = [] := by simp [w_accepted, Tst.wvalid, haddr]
  have hstrb : (step i s).wstrb = strobe DATA_DW s.tst.inst_wr_rdata 0 := by
    change wstrb_nxt i s = _
    unfold wstrb_nxt
    rw [if_pos haddr]
    by_cases hlen : s.tst.len = 0
    · rw [if_pos hlen]
      exact strobe_only hwidth hadj hlen
    · rw [if_neg hlen]
      exact strobe_first hlen
  rw [hexec, hno]
  have hview : View m (step i s) (insts ++ [s.tst.inst_wr_rdata]) (insts.flatMap (burst DATA_DW m) ++
      (burst DATA_DW m s.tst.inst_wr_rdata).take 0) := by
    refine .sending ⟨hnext, Nat.zero_le _, ?_, if_pos haddr, hadj, ?_, hstrb⟩
    · simp [step, Tst.step, haddr, Tst.len]
    · rw [← TstRd.first_data_eq, ← hfirst]
      exact if_pos haddr
  simpa using hview

/-- A beat that stalls stays when its strobe is all ones. -/
theorem Sending.stalled {inst : BitVec 128} {k : Nat} (h : Sending m s inst k)
    (hready : i.wready = false) (hstall : s.wstrb = BitVec.allOnes _) :
    Sending m (step i s) inst k := by
  refine ⟨?_, h.le, ?_, ?_, h.adj_le, ?_, ?_⟩
  · change Tst.wr_state_nxt i s.tst = _
    simp [Tst.wr_state_nxt, h.wr_state, hready]
  · simp [step, Tst.step, h.wr_state, hready, h.running]
  · simp [step, h.wr_state, h.last_adj]
  · simp [step, wdata_nxt, h.wr_state, hready, h.wdata]
  · rw [← h.wstrb, hstall]
    simp [step, wstrb_nxt, h.wr_state, hready]

theorem Sending.next (hwidth : 2 ^ Tst.ADJ_DW_WIDTH (32 * DATA_DW) = DATA_DW)
    {inst : BitVec 128} {k : Nat} (h : Sending m s inst k) (hready : i.wready)
    (hmore : k < (Tst.inst_length inst).toNat) (hmode : s.const_data_mode = m) :
    Sending m (step i s) inst (k + 1) := by
  have hend : s.tst.wr_dat_end = false := h.wlast.trans (decide_eq_false (by omega))
  have hone : s.tst.wr_running_length = 1 ↔ k + 1 = (Tst.inst_length inst).toNat := by
    rw [h.running]
    change BitVec.ofNat 8 _ = BitVec.ofNat 8 1 ↔ _
    rw [running_eq_iff (by omega)]
    omega
  refine ⟨?_, hmore, ?_, ?_, h.adj_le, ?_, ?_⟩
  · change Tst.wr_state_nxt i s.tst = _
    simp [Tst.wr_state_nxt, h.wr_state, hend]
  · have hsub : (Tst.inst_length inst).toNat - k = (Tst.inst_length inst).toNat - (k + 1) + 1 := by
      omega
    change (if s.tst.wr_state = .WR_ADDR then s.tst.len
      else if s.tst.wvalid && i.wready then s.tst.wr_running_length - 1 else _) = _
    rw [if_neg (by simp [h.wr_state]), if_pos (by simp [Tst.wvalid, h.wr_state, hready]), h.running,
      hsub, BitVec.ofNat_add]
    exact BitVec.add_sub_cancel _ _
  · simp [step, h.wr_state, h.last_adj]
  · rw [← TstRd.rd_data_nxt_expected, ← h.wdata, ← hmode]
    simp [step, wdata_nxt, Tst.wvalid, h.wr_state, hready]
  · change wstrb_nxt i s = _
    unfold wstrb_nxt
    rw [if_neg (by simp [h.wr_state]), h.last_adj]
    by_cases hlast : k + 1 = (Tst.inst_length inst).toNat
    · rw [if_pos (by simp only [hone.mpr hlast, hready, decide_true, Bool.and_self])]
      exact strobe_last hwidth h.adj_le (by omega) hlast
    · rw [if_neg (by simp only [mt hone.mp hlast, decide_false, Bool.false_and, Bool.false_eq_true,
        not_false_iff])]
      exact strobe_middle (by omega) hlast

theorem view_sending (hwidth : 2 ^ Tst.ADJ_DW_WIDTH (32 * DATA_DW) = DATA_DW)
    {done : List (BitVec 128)} {inst : BitVec 128} {k : Nat} (h : Sending m s inst k)
    (hmode : s.const_data_mode = m) (hstall : i.wready = false → s.wstrb = BitVec.allOnes _) :
    View m (step i s) (done ++ [inst] ++ executed i s)
      (done.flatMap (burst DATA_DW m) ++ (burst DATA_DW m inst).take k ++ w_accepted i s) := by
  have hexec : executed i s = [] := by simp [executed, Tst.wr_addr_done, h.wr_state]
  rw [hexec, List.append_nil]
  cases hready : i.wready
  · have hno : w_accepted i s = [] := by simp [w_accepted, hready]
    rw [hno, List.append_nil]
    exact .sending (h.stalled hready (hstall hready))
  · rw [h.accepted hready, List.append_assoc, ← burst_take_succ h.le]
    rcases Nat.lt_or_eq_of_le h.le with hmore | hlast
    · exact .sending (h.next hwidth hready hmore hmode)
    · have hend : s.tst.wr_dat_end = true := h.wlast.trans (decide_eq_true hlast)
      have hnext : Tst.wr_state_nxt i s.tst ≠ .WR_DAT := by
        simp only [Tst.wr_state_nxt, h.wr_state, hend, hready, Bool.and_self, if_true]
        split <;> simp
      have hall : done.flatMap (burst DATA_DW m) ++ (burst DATA_DW m inst).take (k + 1) =
          (done ++ [inst]).flatMap (burst DATA_DW m) := by
        rw [List.take_of_length_le (by rw [burst_length]; omega)]
        simp
      rw [hall]
      exact .between hnext

/-! ## Runs -/

section Run

variable (DATA_DW) (cfg : TstCfg) (m : Bool) (ins : Nat → TstIn)

/-- The state in cycle `n`. The mode stays as it is set. -/
def at_cycle (n : Nat) : TstWr DATA_DW := (circuit DATA_DW cfg m).state ins n

/-- What the W channel promises. -/
structure Writes : Prop where
  /-- The bursts of the instructions so far: what was accepted, and what is shown comes next. -/
  w : ∀ n, ∃ left, ((circuit DATA_DW cfg m).passed ins executed n).flatMap (burst DATA_DW m) =
    (circuit DATA_DW cfg m).passed ins w_accepted n ++ left ∧
      left.head? =
        let s := at_cycle DATA_DW cfg m ins n
        if s.tst.wvalid then some (s.wdata, s.wstrb, s.tst.wlast) else none
  held : Held (fun n => (at_cycle DATA_DW cfg m ins n).tst.wvalid) (fun n => (ins n).wready)
    fun n =>
      let s := at_cycle DATA_DW cfg m ins n
      (s.wdata, s.wstrb, s.tst.wlast)

structure May (n : Nat) : Prop where
  mode : (at_cycle DATA_DW cfg m ins n).const_data_mode = m
  /-- When the machine leaves `WR_ADDR`, the RAM has shown this start data for two cycles. -/
  settled : Tst.wr_addr_done (ins (n + 1)) (at_cycle DATA_DW cfg m ins (n + 1)).tst →
    TstRd.inst_data (at_cycle DATA_DW cfg m ins (n + 1)).tst.inst_wr_rdata =
      TstRd.inst_data (at_cycle DATA_DW cfg m ins n).tst.inst_wr_rdata
  /-- The adjustment is no more than a beat. -/
  adj : Tst.wr_addr_done (ins n) (at_cycle DATA_DW cfg m ins n).tst →
    (TstRd.inst_last_adj (at_cycle DATA_DW cfg m ins n).tst.inst_wr_rdata).toNat ≤ DATA_DW
  /-- Only beats with all lanes stall. -/
  stall : (at_cycle DATA_DW cfg m ins n).tst.wvalid → (ins n).wready = false →
    (at_cycle DATA_DW cfg m ins n).wstrb = BitVec.allOnes _

variable {DATA_DW cfg m ins}

theorem first_wdata_eq (h : ∀ n, May DATA_DW cfg m ins n) (n : Nat)
    (hdone : Tst.wr_addr_done (ins n) (at_cycle DATA_DW cfg m ins n).tst) :
    (at_cycle DATA_DW cfg m ins n).first_wdata = TstRd.first_data DATA_DW m
      (TstRd.inst_data (at_cycle DATA_DW cfg m ins n).tst.inst_wr_rdata) := by
  cases n with
  | zero => simp [Tst.wr_addr_done, at_cycle, circuit, reset, Tst.reset] at hdone
  | succ n =>
    rw [(h n).settled hdone]
    change TstRd.first_data DATA_DW (at_cycle DATA_DW cfg m ins n).const_data_mode _ = _
    rw [(h n).mode]
    rfl

theorem view_state (hwidth : 2 ^ Tst.ADJ_DW_WIDTH (32 * DATA_DW) = DATA_DW)
    (h : ∀ n, May DATA_DW cfg m ins n) (n : Nat) : View m (at_cycle DATA_DW cfg m ins n)
      ((circuit DATA_DW cfg m).passed ins executed n) ((circuit DATA_DW cfg m).passed ins w_accepted n) := by
  induction n with
  | zero =>
    have hidle : (at_cycle DATA_DW cfg m ins 0).tst.wr_state ≠ .WR_DAT := by
      simp [at_cycle, circuit, reset, Tst.reset]
    exact .between hidle
  | succ n ih =>
    have hfirst := first_wdata_eq h n
    have hmode := (h n).mode
    have hadj := (h n).adj
    have hstall := (h n).stall
    have hnext : at_cycle DATA_DW cfg m ins (n + 1) = step (ins n) (at_cycle DATA_DW cfg m ins n) := rfl
    have hstate : (circuit DATA_DW cfg m).state ins n = at_cycle DATA_DW cfg m ins n := rfl
    rw [hnext, Circuit.passed_succ, Circuit.passed_succ, hstate]
    generalize (circuit DATA_DW cfg m).passed ins executed n = insts at ih ⊢
    generalize (circuit DATA_DW cfg m).passed ins w_accepted n = beats at ih ⊢
    generalize at_cycle DATA_DW cfg m ins n = s at *
    cases ih with
    | between hout =>
      by_cases hdone : Tst.wr_addr_done (ins n) s.tst
      · have haddr : s.tst.wr_state = .WR_ADDR := by
          simpa [Tst.wr_addr_done] using (Bool.and_eq_true_iff.mp hdone).1
        have hready : (ins n).awready = true := by
          by_contra hnot
          simp [Tst.wr_addr_done, Tst.wr_state_nxt, haddr, hnot] at hdone
        exact view_begin hwidth haddr hready (hadj hdone) (hfirst hdone) insts
      · refine view_between hout (if_neg hdone) insts ?_
        simp only [Tst.wr_addr_done, Tst.wr_state_nxt] at hdone ⊢
        cases hstate : s.tst.wr_state with
        | WR_IDLE =>
          simp only
          split <;> simp
        | WR_ADDR => simpa [hstate] using hdone
        | WR_DAT => exact absurd hstate hout
    | sending hsending =>
      exact view_sending hwidth hsending hmode (hstall (by simp [Tst.wvalid, hsending.wr_state]))

/-- The W channel keeps its promise when the first data is settled, the adjustment fits and no beat
with a mask stalls. -/
theorem writes (hwidth : 2 ^ Tst.ADJ_DW_WIDTH (32 * DATA_DW) = DATA_DW)
    (h : ∀ n, May DATA_DW cfg m ins n) : Writes DATA_DW cfg m ins := by
  constructor
  · intro n
    have hview := view_state hwidth h n
    generalize (circuit DATA_DW cfg m).passed ins executed n = insts at hview
    generalize (circuit DATA_DW cfg m).passed ins w_accepted n = beats at hview
    cases hview with
    | between hstate => exact ⟨[], by simp, by simp [Tst.wvalid, hstate]⟩
    | @sending done inst k hsending =>
      refine ⟨(burst DATA_DW m inst).drop k, by simp, ?_⟩
      have hlt : k < (burst DATA_DW m inst).length := by
        rw [burst_length]
        exact Nat.lt_succ_of_le hsending.le
      rw [List.head?_drop, List.getElem?_eq_getElem hlt]
      simp [Tst.wvalid, hsending.wr_state, hsending.wdata, hsending.wstrb, hsending.wlast, burst, beat]
  · intro n hvalid hready
    have hview := view_state hwidth h n
    have hstall := (h n).stall hvalid hready
    have hnext : at_cycle DATA_DW cfg m ins (n + 1) = step (ins n) (at_cycle DATA_DW cfg m ins n) := rfl
    dsimp only at hvalid ⊢
    rw [hnext]
    generalize (circuit DATA_DW cfg m).passed ins executed n = insts at hview
    generalize (circuit DATA_DW cfg m).passed ins w_accepted n = beats at hview
    generalize at_cycle DATA_DW cfg m ins n = s at *
    cases hview with
    | between hstate => simp [Tst.wvalid, hstate] at hvalid
    | sending hsending =>
      have hsame := hsending.stalled hready hstall
      refine ⟨by simp [Tst.wvalid, hsame.wr_state], ?_⟩
      rw [hsame.wdata, hsame.wstrb, hsame.wlast, hsending.wdata, hsending.wstrb, hsending.wlast]

end Run

/-! ## A first beat with a mask -/

/-- The host writes the go register. The memory takes the first beat late, or not. -/
def go_once (late : Bool) (n : Nat) : TstIn where
  cfg_addr := 0x08
  cfg_wdata := 1
  cfg_wr := n = 0
  cfg_rd := false
  awready := true
  wready := !(late && n = 4)
  rd_cfg_read_ram_ack := true
  cfg_rd_cmp_error := false

/-- Two beats from address 0x1004, the last one without its last dword, data from 5 on. -/
def unaligned : TstCfg := { Tst.one_inst with
  write_inst_ram := fun _ => 0x00000101#32 ++ 5#32 ++ 0x1004#64 }

theorem idle_after (late : Bool) (n : Nat) (hn : 8 ≤ n) :
    (at_cycle 2 unaligned false (go_once late) n).tst.wr_state = .WR_IDLE ∧
      (at_cycle 2 unaligned false (go_once late) n).tst.cfg.wr_stretch = false := by
  induction hn with
  | refl => cases late <;> decide
  | @step n hn ih =>
    have hle : 8 ≤ n := hn
    have hwr : (go_once late n).cfg_wr = false := decide_eq_false (by omega)
    have hgo : (at_cycle 2 unaligned false (go_once late) n).tst.cfg_wr_go = false := by
      simp [Tst.cfg_wr_go, Tst.cfg_go_wr, ih.2]
    constructor
    · change Tst.wr_state_nxt _ (at_cycle 2 unaligned false (go_once late) n).tst = _
      simp [Tst.wr_state_nxt, ih.1, hgo]
    · change ((go_once late n).cfg_wr ||
        ((at_cycle 2 unaligned false (go_once late) n).tst.cfg.wr_stretch && _)) = false
      rw [hwr, ih.2]
      rfl

theorem mode_kept (late : Bool) (n : Nat) :
    (at_cycle 2 unaligned false (go_once late) n).const_data_mode = false := by
  have hfirst : ∀ n ≤ 8, (at_cycle 2 unaligned false (go_once late) n).const_data_mode = false := by
    cases late <;> decide
  rcases Nat.le_total n 8 with hn | hn
  · exact hfirst n hn
  · induction hn with
    | refl => exact hfirst 8 (Nat.le_refl _)
    | @step n hn ih =>
      have hquiet : ((circuit 2 unaligned false).state (go_once late) n).tst.cfg.wr_stretch = false :=
        (idle_after late n hn).2
      change (if Tst.cfg_set _ _ then _ else _) = false
      rw [if_neg (by simp [Tst.cfg_set, hquiet])]
      exact ih

theorem not_done_after (late : Bool) (n : Nat) (hn : 8 ≤ n) :
    Tst.wr_addr_done (go_once late n) (at_cycle 2 unaligned false (go_once late) n).tst = false := by
  simp [Tst.wr_addr_done, (idle_after late n hn).1]

theorem writes_unaligned : Writes 2 unaligned false (go_once false) ∧
    (at_cycle 2 unaligned false (go_once false) 4).wstrb = 0xF0 := by
  refine ⟨writes (by decide) fun n => ⟨mode_kept false n, ?_, ?_, ?_⟩, by decide⟩
  · intro hdone
    have hfirst : ∀ n ≤ 8, Tst.wr_addr_done (go_once false (n + 1))
        (at_cycle 2 unaligned false (go_once false) (n + 1)).tst →
      TstRd.inst_data (at_cycle 2 unaligned false (go_once false) (n + 1)).tst.inst_wr_rdata =
        TstRd.inst_data (at_cycle 2 unaligned false (go_once false) n).tst.inst_wr_rdata := by
      decide
    rcases Nat.le_total n 8 with hn | hn
    · exact hfirst n hn hdone
    · rw [not_done_after false (n + 1) (by omega)] at hdone
      cases hdone
  · intro hdone
    have hfirst : ∀ n ≤ 8, (TstRd.inst_last_adj
        (at_cycle 2 unaligned false (go_once false) n).tst.inst_wr_rdata).toNat ≤ 2 := by
      decide
    rcases Nat.le_total n 8 with hn | hn
    · exact hfirst n hn
    · rw [not_done_after false n hn] at hdone
      cases hdone
  · intro _ hready
    simp [go_once] at hready

/-- The strobe of a first beat that waits becomes all ones. -/
theorem not_writes : ¬ ∀ DATA_DW cfg m ins, 2 ^ Tst.ADJ_DW_WIDTH (32 * DATA_DW) = DATA_DW →
    (∀ n, (at_cycle DATA_DW cfg m ins n).const_data_mode = m) → Writes DATA_DW cfg m ins := by
  intro hall
  have hheld := (hall 2 unaligned false (go_once true) (by decide) (mode_kept true)).held 4
  revert hheld
  decide

end TstWr

end AwsFpga.Rtl
