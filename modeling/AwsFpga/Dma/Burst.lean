import Mathlib.Data.List.Perm.Basic
import Mathlib.Data.List.Nodup
import AwsFpga.Common

/-!
# DMA transfers (`fpga_dma_utils.c`)

A burst calls `pread` or `pwrite` for what is left of the buffer until nothing is
left. The count that a call answers with is narrowed to an `int`, and decides how
far the next call starts.
-/

namespace AwsFpga.Dma

/-! ## The loop -/

inductive Sys where
  | pread
  | pwrite

/-- `pread(fd, buffer + offset, count, address)`, or the same of `pwrite`. -/
structure Call where
  sys : Sys
  fd : Int
  offset : BitVec 64
  count : BitVec 64
  address : BitVec 64

/-- What a call answers, and `errno` after it. -/
structure Answer where
  count : BitVec 64
  errno : Int

/-- `rc = pread(...)`, where `rc` is an `int`. -/
def Answer.rc (a : Answer) : BitVec 32 := a.count.setWidth 32

inductive Burst where
  | looping (offset : BitVec 64)
  | returned (rc : Int)

/-- Where the function stands, and its calls so far with their answers. -/
structure Run where
  state : Burst
  calls : List (Call × Answer)

section Model

variable (sys : Sys) (fd : Int) (xfer_sz address : BitVec 64)

def burst_call (offset : BitVec 64) : Call :=
  ⟨sys, fd, offset, xfer_sz - offset, address + offset⟩

/-- One round of the `while`, from its test on. `a` is what a call would answer. -/
def burst_round (a : Answer) (r : Run) : Run :=
  match r.state with
  | .returned _ => r
  | .looping offset =>
    if offset < xfer_sz then
      let calls := r.calls ++ [(burst_call sys fd xfer_sz address offset, a)]
      if a.rc.toInt < 0 then
        ⟨.returned (-a.errno), calls⟩
      else
        ⟨.looping (offset + a.rc.signExtend 64), calls⟩
    else
      ⟨.returned 0, r.calls⟩

/-- After `n` rounds, when `answers k` is what a call of round `k` answers. -/
def fpga_dma_burst (answers : Nat → Answer) : Nat → Run
  | 0 => ⟨if fd < 0 then .returned (-EINVAL) else .looping 0, []⟩
  | n + 1 => burst_round sys fd xfer_sz address (answers n) (fpga_dma_burst answers n)

end Model

def fpga_dma_burst_read : Int → BitVec 64 → BitVec 64 → (Nat → Answer) → Nat → Run :=
  fpga_dma_burst .pread

def fpga_dma_burst_write : Int → BitVec 64 → BitVec 64 → (Nat → Answer) → Nat → Run :=
  fpga_dma_burst .pwrite

/-! ## What a burst promises -/

/-- Byte `k` of the transfer, as a place in the buffer and an address of the device. -/
def byteAt (address offset : BitVec 64) (k : Nat) : Nat × BitVec 64 :=
  (offset.toNat + k, address + BitVec.ofNat 64 k)

/-- The bytes that a call moved. -/
def moved : Call × Answer → List (Nat × BitVec 64)
  | (call, a) => (List.range a.count.toNat).map (byteAt call.address call.offset)

/-- Each byte of the buffer once, from or to the address that belongs to it. -/
def EachOnce (xfer_sz address : BitVec 64) (calls : List (Call × Answer)) : Prop :=
  (calls.flatMap moved).Perm ((List.range xfer_sz.toNat).map (byteAt address 0))

section Runs

variable (xfer_sz address : BitVec 64) (answers : Nat → Answer) (run : Nat → Run)

/-- Round `n` makes a call, at `offset`. -/
def CallsAt (n : Nat) (offset : BitVec 64) : Prop :=
  (run n).state = .looping offset ∧ offset < xfer_sz

/-- No call fails, and none answers more than it was asked for. -/
def ShortCounts : Prop :=
  ∀ n offset, CallsAt xfer_sz run n offset →
    0 ≤ (answers n).count.toInt ∧ (answers n).count ≤ xfer_sz - offset

structure BurstSound : Prop where
  ends : ∃ n rc, (run n).state = .returned rc
  once : ∀ n, (run n).state = .returned 0 → EachOnce xfer_sz address (run n).calls
  eof : ∀ n offset, CallsAt xfer_sz run n offset → (answers n).count = 0 →
    ∃ rc, rc ≠ 0 ∧ (run (n + 1)).state = .returned rc

/-- Round `n` makes a call whose count is negative as an `int`, and the function returns. It
returns an error, or 0 and that call was the last one needed. -/
def CutOff (n : Nat) (offset : BitVec 64) : Prop :=
  CallsAt xfer_sz run n offset ∧ (answers n).rc.toInt < 0 ∧ ((answers n).errno ≠ 0 ∨
    (∀ m < n, (answers m).count.toNat < 2 ^ 31) ∧ (answers n).count = xfer_sz - offset)

/-- No call answers 0, and the counts fit an `int`, or the first that is negative as one does no
harm. -/
def GoodCounts : Prop :=
  (∀ n offset, CallsAt xfer_sz run n offset → (answers n).count ≠ 0) ∧
    ((∀ n offset, CallsAt xfer_sz run n offset → (answers n).count.toNat < 2 ^ 31) ∨
      ∃ n offset, CutOff xfer_sz answers run n offset)

end Runs

/-! ## One round -/

theorem rc_neg_iff (a : Answer) : a.rc.toInt < 0 ↔ 2 ^ 31 ≤ a.count.toNat % 2 ^ 32 := by
  have hrc : a.rc.toNat = a.count.toNat % 2 ^ 32 := by simp [Answer.rc]
  rw [BitVec.toInt_eq_toNat_cond, hrc]
  split <;> omega

theorem rc_signExtend (a : Answer) (h : ¬ a.rc.toInt < 0) :
    (a.rc.signExtend 64).toNat = a.count.toNat % 2 ^ 32 := by
  have hrc : a.rc.toNat = a.count.toNat % 2 ^ 32 := by simp [Answer.rc]
  have hmsb : a.rc.msb = false := by
    rw [BitVec.msb_eq_decide, decide_eq_false_iff_not, hrc]
    rw [rc_neg_iff] at h
    omega
  rw [BitVec.signExtend_eq_setWidth_of_msb_false hmsb, BitVec.toNat_setWidth, hrc]
  omega

variable {sys : Sys} {fd : Int} {xfer_sz address : BitVec 64} {answers : Nat → Answer}
  {run : Nat → Run} {n : Nat} {offset : BitVec 64} {rc : Int}

/-- `run` are the rounds of a burst. -/
structure Follows (sys : Sys) (fd : Int) (xfer_sz address : BitVec 64) (answers : Nat → Answer)
    (run : Nat → Run) : Prop where
  start : run 0 = ⟨if fd < 0 then .returned (-EINVAL) else .looping 0, []⟩
  next : ∀ n, run (n + 1) = burst_round sys fd xfer_sz address (answers n) (run n)

theorem follows_burst (sys : Sys) (fd : Int) (xfer_sz address : BitVec 64)
    (answers : Nat → Answer) :
    Follows sys fd xfer_sz address answers (fpga_dma_burst sys fd xfer_sz address answers) :=
  ⟨rfl, fun _ => rfl⟩

section Round

variable (hrun : Follows sys fd xfer_sz address answers run)

include hrun

theorem next_of_returned (h : (run n).state = .returned rc) : run (n + 1) = run n := by
  rw [hrun.next, burst_round, h]

theorem returned_stays (h : (run n).state = .returned rc) {m : Nat} (hm : n ≤ m) :
    run m = run n := by
  induction m, hm using Nat.le_induction with
  | base => rfl
  | succ m hm ih =>
    rw [← ih] at h
    rw [next_of_returned hrun h, ih]

theorem next_of_call (h : CallsAt xfer_sz run n offset) (hrc : ¬ (answers n).rc.toInt < 0) :
    run (n + 1) = ⟨.looping (offset + (answers n).rc.signExtend 64),
      (run n).calls ++ [(burst_call sys fd xfer_sz address offset, answers n)]⟩ := by
  rw [hrun.next, burst_round, h.1]
  simp only [if_pos h.2, if_neg hrc]

theorem next_of_cut (h : CallsAt xfer_sz run n offset) (hrc : (answers n).rc.toInt < 0) :
    run (n + 1) = ⟨.returned (-(answers n).errno),
      (run n).calls ++ [(burst_call sys fd xfer_sz address offset, answers n)]⟩ := by
  rw [hrun.next, burst_round, h.1]
  simp only [if_pos h.2, if_pos hrc]

theorem next_of_done (h : (run n).state = .looping offset) (hdone : ¬ offset < xfer_sz) :
    run (n + 1) = ⟨.returned 0, (run n).calls⟩ := by
  rw [hrun.next, burst_round, h]
  simp only [if_neg hdone]

theorem looping_succ (h : (run (n + 1)).state = .looping offset) :
    ∃ before, CallsAt xfer_sz run n before ∧ ¬ (answers n).rc.toInt < 0 ∧
      offset = before + (answers n).rc.signExtend 64 := by
  cases hstate : (run n).state with
  | returned rc =>
    rw [next_of_returned hrun hstate, hstate] at h
    cases h
  | looping before =>
    by_cases hlt : before < xfer_sz
    · by_cases hrc : (answers n).rc.toInt < 0
      · rw [next_of_cut hrun ⟨hstate, hlt⟩ hrc] at h
        cases h
      · rw [next_of_call hrun ⟨hstate, hlt⟩ hrc] at h
        cases h
        exact ⟨before, ⟨hstate, hlt⟩, hrc, rfl⟩
    · rw [next_of_done hrun hstate hlt] at h
      cases h

theorem calls_before (h : (run n).state = .looping offset) {m : Nat} (hm : m < n) :
    ∃ before, CallsAt xfer_sz run m before ∧ ¬ (answers m).rc.toInt < 0 := by
  induction n, hm using Nat.le_induction generalizing offset with
  | base =>
    obtain ⟨before, hcall, hrc, -⟩ := looping_succ hrun h
    exact ⟨before, hcall, hrc⟩
  | succ n hm ih =>
    obtain ⟨before, hcall, -, -⟩ := looping_succ hrun h
    exact ih hcall.1

theorem how_returned (h : (run n).state = .returned rc) :
    rc = 0 ∨ (run 0).state = .returned rc ∨
      ∃ m offset, CallsAt xfer_sz run m offset ∧ (answers m).rc.toInt < 0 := by
  induction n with
  | zero => exact .inr (.inl h)
  | succ n ih =>
    cases hstate : (run n).state with
    | returned r =>
      rw [next_of_returned hrun hstate] at h
      exact ih h
    | looping offset =>
      by_cases hlt : offset < xfer_sz
      · by_cases hrc : (answers n).rc.toInt < 0
        · rw [next_of_cut hrun ⟨hstate, hlt⟩ hrc] at h
          cases h
          exact .inr (.inr ⟨n, offset, ⟨hstate, hlt⟩, hrc⟩)
        · rw [next_of_call hrun ⟨hstate, hlt⟩ hrc] at h
          cases h
      · rw [next_of_done hrun hstate hlt] at h
        cases h
        exact .inl rfl

end Round

/-! ## How far a burst is -/

section Offsets

variable (hrun : Follows sys fd xfer_sz address answers run)
  (hshort : ShortCounts xfer_sz answers run)

include hshort

theorem count_le (h : CallsAt xfer_sz run n offset) :
    offset.toNat + (answers n).count.toNat ≤ xfer_sz.toNat := by
  have hle := (hshort n offset h).2
  have hlt := h.2
  rw [BitVec.le_def, BitVec.toNat_sub_of_le (BitVec.le_of_lt hlt)] at hle
  rw [BitVec.lt_def] at hlt
  omega

theorem offset_add (h : CallsAt xfer_sz run n offset) (hrc : ¬ (answers n).rc.toInt < 0) :
    (offset + (answers n).rc.signExtend 64).toNat =
      offset.toNat + (answers n).count.toNat % 2 ^ 32 := by
  have hle := count_le hshort h
  have hmod := Nat.mod_le (answers n).count.toNat (2 ^ 32)
  have hsz := xfer_sz.isLt
  rw [BitVec.toNat_add, rc_signExtend _ hrc]
  omega

include hrun

theorem looping_le (h : (run n).state = .looping offset) : offset ≤ xfer_sz := by
  rw [BitVec.le_def]
  cases n with
  | zero =>
    rw [hrun.start] at h
    split at h
    · cases h
    · cases h
      exact Nat.zero_le _
  | succ n =>
    obtain ⟨before, hcall, hrc, rfl⟩ := looping_succ hrun h
    have hle := count_le hshort hcall
    have hmod := Nat.mod_le (answers n).count.toNat (2 ^ 32)
    rw [offset_add hshort hcall hrc]
    omega

theorem progress (hcounts : ∀ n offset, CallsAt xfer_sz run n offset →
      (answers n).count ≠ 0 ∧ (answers n).count.toNat < 2 ^ 31)
    (h : (run n).state = .looping offset) : n ≤ offset.toNat := by
  induction n generalizing offset with
  | zero => exact Nat.zero_le _
  | succ n ih =>
    obtain ⟨before, hcall, hrc, rfl⟩ := looping_succ hrun h
    obtain ⟨hne, hlt⟩ := hcounts n before hcall
    have hpos : (answers n).count.toNat ≠ 0 := fun h0 => hne (BitVec.eq_of_toNat_eq h0)
    have hbefore := ih hcall.1
    rw [offset_add hshort hcall hrc]
    omega

end Offsets

/-! ## The bytes -/

theorem moved_call (a : Answer) :
    moved (burst_call sys fd xfer_sz address offset, a) =
      (List.range a.count.toNat).map fun k => byteAt address 0 (offset.toNat + k) := by
  apply List.map_congr_left
  intro k _
  simp [byteAt, burst_call, BitVec.ofNat_add, BitVec.add_assoc]

theorem byteAt_injective (address : BitVec 64) : Function.Injective (byteAt address 0) := by
  intro j k h
  have hfst := congrArg Prod.fst h
  simpa [byteAt] using hfst

theorem eachOnce_nodup {calls : List (Call × Answer)} (h : EachOnce xfer_sz address calls) :
    (calls.flatMap moved).Nodup :=
  h.symm.nodup (List.nodup_range.map (byteAt_injective address))

section Bytes

variable (hrun : Follows sys fd xfer_sz address answers run)

include hrun

theorem moved_clean (hshort : ShortCounts xfer_sz answers run)
    (hclean : ∀ m < n, (answers m).count.toNat < 2 ^ 31)
    (h : (run n).state = .looping offset) :
    (run n).calls.flatMap moved = (List.range offset.toNat).map (byteAt address 0) := by
  induction n generalizing offset with
  | zero =>
    rw [hrun.start] at h ⊢
    split at h
    · cases h
    · cases h
      rfl
  | succ n ih =>
    obtain ⟨before, hcall, hrc, rfl⟩ := looping_succ hrun h
    have hbefore := ih (fun m hm => hclean m (by omega)) hcall.1
    have hcount : (answers n).count.toNat % 2 ^ 32 = (answers n).count.toNat :=
      Nat.mod_eq_of_lt (by have := hclean n (by omega); omega)
    rw [next_of_call hrun hcall hrc, offset_add hshort hcall hrc, hcount, List.flatMap_append,
      hbefore, List.range_add, List.map_append, List.map_map]
    simp only [List.flatMap_cons, List.flatMap_nil, List.append_nil,
      moved_call]
    rfl

theorem calls_grow {m : Nat} (hm : n ≤ m) :
    List.Sublist ((run n).calls.flatMap moved) ((run m).calls.flatMap moved) := by
  induction m, hm using Nat.le_induction with
  | base => exact List.Sublist.refl _
  | succ m hm ih =>
    refine ih.trans ?_
    cases hstate : (run m).state with
    | returned rc =>
      rw [next_of_returned hrun hstate]
    | looping offset =>
      by_cases hlt : offset < xfer_sz
      · by_cases hrc : (answers m).rc.toInt < 0
        · rw [next_of_cut hrun ⟨hstate, hlt⟩ hrc, List.flatMap_append]
          exact List.sublist_append_left _ _
        · rw [next_of_call hrun ⟨hstate, hlt⟩ hrc, List.flatMap_append]
          exact List.sublist_append_left _ _
      · rw [next_of_done hrun hstate hlt]

theorem calls_succ (h : CallsAt xfer_sz run n offset) :
    (run (n + 1)).calls = (run n).calls ++ [(burst_call sys fd xfer_sz address offset, answers n)] := by
  by_cases hrc : (answers n).rc.toInt < 0
  · rw [next_of_cut hrun h hrc]
  · rw [next_of_call hrun h hrc]

/-- A count of which `rc` keeps a part: the next call moves the byte after that part again. -/
theorem moved_twice (hshort : ShortCounts xfer_sz answers run)
    (hcall : CallsAt xfer_sz run n offset) (hrc : ¬ (answers n).rc.toInt < 0)
    (hwide : 2 ^ 31 ≤ (answers n).count.toNat)
    (hzero : ∀ n offset, CallsAt xfer_sz run n offset → (answers n).count ≠ 0) {m : Nat}
    (hm : n + 2 ≤ m) : ¬ ((run m).calls.flatMap moved).Nodup := by
  have hpart : (answers n).count.toNat % 2 ^ 32 < (answers n).count.toNat := by
    rw [rc_neg_iff] at hrc
    omega
  have hle := count_le hshort hcall
  have hadd := offset_add hshort hcall hrc
  have hstate : (run (n + 1)).state = .looping (offset + (answers n).rc.signExtend 64) := by
    rw [next_of_call hrun hcall hrc]
  have hnext : CallsAt xfer_sz run (n + 1) (offset + (answers n).rc.signExtend 64) := by
    refine ⟨hstate, ?_⟩
    rw [BitVec.lt_def, hadd]
    omega
  have hpos : (answers (n + 1)).count.toNat ≠ 0 :=
    fun h0 => hzero _ _ hnext (BitVec.eq_of_toNat_eq h0)
  intro hnodup
  have hnodup := (calls_grow hrun hm).nodup hnodup
  rw [calls_succ hrun hnext, calls_succ hrun hcall] at hnodup
  simp only [List.append_assoc, List.flatMap_append, List.flatMap_cons, List.flatMap_nil,
    List.append_nil, moved_call, hadd] at hnodup
  have hdisj := List.disjoint_of_nodup_append (List.nodup_append.mp hnodup).2.1
  refine hdisj (a := byteAt address 0 (offset.toNat + (answers n).count.toNat % 2 ^ 32)) ?_ ?_
  · exact List.mem_map.mpr ⟨_, List.mem_range.mpr hpart, rfl⟩
  · exact List.mem_map.mpr ⟨0, List.mem_range.mpr (Nat.pos_of_ne_zero hpos), rfl⟩

end Bytes

/-! ## Every burst -/

section Sound

variable (hrun : Follows sys fd xfer_sz address answers run)
  (hshort : ShortCounts xfer_sz answers run)

include hrun hshort

theorem ends_of_counts (hcounts : ∀ n offset, CallsAt xfer_sz run n offset →
    (answers n).count ≠ 0 ∧ (answers n).count.toNat < 2 ^ 31) :
    ∃ n rc, (run n).state = .returned rc := by
  cases hstate : (run (xfer_sz.toNat + 1)).state with
  | returned rc => exact ⟨_, rc, hstate⟩
  | looping offset =>
    -- After that many rounds the offset would be past the end.
    have hfar := progress hrun hshort hcounts hstate
    have hle := looping_le hrun hshort hstate
    rw [BitVec.le_def] at hle
    omega

theorem once_of_counts (hcounts : ∀ n offset, CallsAt xfer_sz run n offset →
      (answers n).count.toNat < 2 ^ 31)
    (h : (run n).state = .returned 0) : EachOnce xfer_sz address (run n).calls := by
  induction n with
  | zero =>
    rw [hrun.start] at h
    split at h <;> cases h
  | succ n ih =>
    cases hstate : (run n).state with
    | returned r =>
      rw [next_of_returned hrun hstate] at h ⊢
      exact ih h
    | looping offset =>
      by_cases hlt : offset < xfer_sz
      · have hcount := hcounts n offset ⟨hstate, hlt⟩
        have hrc : ¬ (answers n).rc.toInt < 0 := by
          rw [rc_neg_iff]
          omega
        rw [next_of_call hrun ⟨hstate, hlt⟩ hrc] at h
        cases h
      · have hend : offset = xfer_sz :=
          BitVec.le_antisymm (looping_le hrun hshort hstate) (BitVec.not_lt.mp hlt)
        have hclean : ∀ m < n, (answers m).count.toNat < 2 ^ 31 := by
          intro m hm
          obtain ⟨before, hcall, -⟩ := calls_before hrun hstate hm
          exact hcounts m before hcall
        rw [next_of_done hrun hstate hlt]
        unfold EachOnce
        rw [moved_clean hrun hshort hclean hstate, hend]

theorem moved_cut (hcall : CallsAt xfer_sz run n offset)
    (hclean : ∀ m < n, (answers m).count.toNat < 2 ^ 31) :
    (run (n + 1)).calls.flatMap moved =
      (List.range (offset.toNat + (answers n).count.toNat)).map (byteAt address 0) := by
  rw [calls_succ hrun hcall, List.flatMap_append, moved_clean hrun hshort hclean hcall.1,
    List.range_add, List.map_append, List.map_map]
  simp only [List.flatMap_cons, List.flatMap_nil, List.append_nil, moved_call]
  rfl

/-- A call that is cut off and returns 0 has moved every byte once exactly if it had to move
what was left, and no part of a count was lost before. -/
theorem eachOnce_cut_iff (hcall : CallsAt xfer_sz run n offset)
    (hzero : ∀ n offset, CallsAt xfer_sz run n offset → (answers n).count ≠ 0) :
    EachOnce xfer_sz address (run (n + 1)).calls ↔
      (∀ m < n, (answers m).count.toNat < 2 ^ 31) ∧ (answers n).count = xfer_sz - offset := by
  have hle := count_le hshort hcall
  have hleft : (xfer_sz - offset).toNat = xfer_sz.toNat - offset.toNat :=
    BitVec.toNat_sub_of_le (BitVec.le_of_lt hcall.2)
  constructor
  · intro honce
    have hclean : ∀ m < n, (answers m).count.toNat < 2 ^ 31 := by
      intro m hm
      obtain ⟨before, hbefore, hrc⟩ := calls_before hrun hcall.1 hm
      by_contra hwide
      exact moved_twice hrun hshort hbefore hrc (Nat.le_of_not_lt hwide) hzero (by omega)
        (eachOnce_nodup honce)
    refine ⟨hclean, ?_⟩
    have hlen := honce.length_eq
    rw [moved_cut hrun hshort hcall hclean, List.length_map, List.length_map, List.length_range,
      List.length_range] at hlen
    apply BitVec.eq_of_toNat_eq
    omega
  · rintro ⟨hclean, hcount⟩
    have hsum : offset.toNat + (answers n).count.toNat = xfer_sz.toNat := by
      rw [hcount, hleft]
      omega
    unfold EachOnce
    rw [moved_cut hrun hshort hcall hclean, hsum]

theorem sound_of_counts (hzero : ∀ n offset, CallsAt xfer_sz run n offset → (answers n).count ≠ 0)
    (hcounts : ∀ n offset, CallsAt xfer_sz run n offset → (answers n).count.toNat < 2 ^ 31) :
    BurstSound xfer_sz address answers run := by
  refine ⟨ends_of_counts hrun hshort fun n offset h => ⟨hzero n offset h, hcounts n offset h⟩,
    fun n => once_of_counts hrun hshort hcounts, ?_⟩
  intro n offset hcall h0
  exact absurd h0 (hzero n offset hcall)

theorem sound_of_cutOff
    (hzero : ∀ n offset, CallsAt xfer_sz run n offset → (answers n).count ≠ 0)
    (hcut : CutOff xfer_sz answers run n offset) : BurstSound xfer_sz address answers run := by
  obtain ⟨hcall, hrc, hharmless⟩ := hcut
  have hnext := next_of_cut hrun hcall hrc
  have hstate : (run (n + 1)).state = .returned (-(answers n).errno) := by rw [hnext]
  refine ⟨⟨n + 1, _, hstate⟩, ?_, fun m offset hm h0 => absurd h0 (hzero m offset hm)⟩
  intro m hm
  have hsame : run m = run (n + 1) := by
    rcases Nat.le_total (n + 1) m with hle | hle
    · exact returned_stays hrun hstate hle
    · exact (returned_stays hrun hm hle).symm
  rw [hsame, hstate] at hm
  rw [hsame]
  have herrno : (answers n).errno = 0 := by
    injection hm with hm
    omega
  exact (eachOnce_cut_iff hrun hshort hcall hzero).mpr
    (hharmless.resolve_left (not_not.mpr herrno))

theorem good_of_sound (h : BurstSound xfer_sz address answers run) :
    GoodCounts xfer_sz answers run := by
  have hzero : ∀ n offset, CallsAt xfer_sz run n offset → (answers n).count ≠ 0 := by
    intro n offset hcall h0
    obtain ⟨rc, -, hstate⟩ := h.eof n offset hcall h0
    have hrc : ¬ (answers n).rc.toInt < 0 := by
      rw [rc_neg_iff, h0]
      decide
    rw [next_of_call hrun hcall hrc] at hstate
    cases hstate
  refine ⟨hzero, ?_⟩
  by_contra hnot
  obtain ⟨hwide, hcuts⟩ := not_or.mp hnot
  -- A call that is cut off returns 0 with bytes missing or moved twice.
  have hcut : ∀ n offset, CallsAt xfer_sz run n offset → ¬ (answers n).rc.toInt < 0 := by
    intro n offset hcall hrc
    refine hcuts ⟨n, offset, hcall, hrc, ?_⟩
    by_contra hharm
    obtain ⟨herrno, hharm⟩ := not_or.mp hharm
    have hstate : (run (n + 1)).state = .returned 0 := by
      rw [next_of_cut hrun hcall hrc, not_not.mp herrno]
      rfl
    exact hharm ((eachOnce_cut_iff hrun hshort hcall hzero).mp (h.once _ hstate))
  push Not at hwide
  obtain ⟨n, offset, hcall, hcount⟩ := hwide
  obtain ⟨m, rc, hend⟩ := h.ends
  have hlater : (run (max m (n + 2))).state = .returned rc := by
    rw [returned_stays hrun hend (Nat.le_max_left _ _), hend]
  have hrc : rc = 0 := by
    rcases how_returned hrun hend with h0 | hstart | ⟨k, o, hk, hneg⟩
    · exact h0
    · have hstate := hcall.1
      rw [returned_stays hrun hstart (Nat.zero_le n), hstart] at hstate
      cases hstate
    · exact absurd hneg (hcut k o hk)
  rw [hrc] at hlater
  exact moved_twice hrun hshort hcall (hcut n offset hcall) hcount hzero (Nat.le_max_right _ _)
    (eachOnce_nodup (h.once _ hlater))

theorem sound_iff_good :
    BurstSound xfer_sz address answers run ↔ GoodCounts xfer_sz answers run := by
  constructor
  · exact good_of_sound hrun hshort
  · rintro ⟨hzero, hcounts | ⟨n, offset, hcut⟩⟩
    · exact sound_of_counts hrun hshort hzero hcounts
    · exact sound_of_cutOff hrun hshort hzero hcut

end Sound

/-- For all answers without an error, a burst ends and moves every byte once exactly if no call
answers 0, and no count is narrowed to another one that matters. -/
theorem fpga_dma_burst_sound_iff (fd : Int) (xfer_sz address : BitVec 64)
    (answers : Nat → Answer) :
    (ShortCounts xfer_sz answers (fpga_dma_burst_read fd xfer_sz address answers) →
      (BurstSound xfer_sz address answers (fpga_dma_burst_read fd xfer_sz address answers) ↔
        GoodCounts xfer_sz answers (fpga_dma_burst_read fd xfer_sz address answers))) ∧
    (ShortCounts xfer_sz answers (fpga_dma_burst_write fd xfer_sz address answers) →
      (BurstSound xfer_sz address answers (fpga_dma_burst_write fd xfer_sz address answers) ↔
        GoodCounts xfer_sz answers (fpga_dma_burst_write fd xfer_sz address answers))) := by
  constructor
  · intro hshort
    exact sound_iff_good (follows_burst .pread fd xfer_sz address answers) hshort
  · intro hshort
    exact sound_iff_good (follows_burst .pwrite fd xfer_sz address answers) hshort

/-- Three short counts, which together are 8192 bytes. -/
def pieces (n : Nat) : Answer := ⟨[4096, 512, 3584].getD n 0, 0⟩

theorem piece_call {sys : Sys}
    (h : CallsAt 8192 (fpga_dma_burst sys 3 8192 65536 pieces) n offset) :
    n = 0 ∧ offset = 0 ∨ n = 1 ∧ offset = 4096 ∨ n = 2 ∧ offset = 4608 := by
  obtain ⟨hstate, hlt⟩ := h
  match n with
  | 0 =>
    cases hstate
    exact .inl ⟨rfl, rfl⟩
  | 1 =>
    have h1 : (fpga_dma_burst sys 3 8192 65536 pieces 1).state = .looping 4096 := rfl
    rw [h1] at hstate
    cases hstate
    exact .inr (.inl ⟨rfl, rfl⟩)
  | 2 =>
    have h2 : (fpga_dma_burst sys 3 8192 65536 pieces 2).state = .looping 4608 := rfl
    rw [h2] at hstate
    cases hstate
    exact .inr (.inr ⟨rfl, rfl⟩)
  | 3 =>
    have h3 : (fpga_dma_burst sys 3 8192 65536 pieces 3).state = .looping 8192 := rfl
    rw [h3] at hstate
    cases hstate
    exact absurd hlt (by decide)
  | n + 4 =>
    have h4 : (fpga_dma_burst sys 3 8192 65536 pieces 4).state = .returned 0 := rfl
    rw [returned_stays (follows_burst sys 3 8192 65536 pieces) h4 (Nat.le_add_left 4 n), h4]
      at hstate
    cases hstate

theorem pieces_short {sys : Sys} :
    ShortCounts 8192 pieces (fpga_dma_burst sys 3 8192 65536 pieces) := by
  intro n offset h
  rcases piece_call h with ⟨rfl, rfl⟩ | ⟨rfl, rfl⟩ | ⟨rfl, rfl⟩ <;> decide

theorem pieces_good {sys : Sys} :
    GoodCounts 8192 pieces (fpga_dma_burst sys 3 8192 65536 pieces) := by
  refine ⟨fun n offset h => ?_, .inl fun n offset h => ?_⟩
  · rcases piece_call h with ⟨rfl, -⟩ | ⟨rfl, -⟩ | ⟨rfl, -⟩ <;> decide
  · rcases piece_call h with ⟨rfl, -⟩ | ⟨rfl, -⟩ | ⟨rfl, -⟩ <;> decide

theorem fpga_dma_burst_sound_pieces :
    BurstSound 8192 65536 pieces (fpga_dma_burst_read 3 8192 65536 pieces) ∧
      BurstSound 8192 65536 pieces (fpga_dma_burst_write 3 8192 65536 pieces) :=
  ⟨((fpga_dma_burst_sound_iff 3 8192 65536 pieces).1 pieces_short).mpr pieces_good,
    ((fpga_dma_burst_sound_iff 3 8192 65536 pieces).2 pieces_short).mpr pieces_good⟩

/-! ## The end of the file -/

/-- Every call answers the same count. -/
def always (count : BitVec 64) : Nat → Answer := fun _ => ⟨count, 0⟩

theorem eof_looping (n : Nat) :
    (fpga_dma_burst_read 3 4 0 (always 0) n).state = .looping 0 := by
  induction n with
  | zero => rfl
  | succ n ih =>
    have hcall : CallsAt 4 (fpga_dma_burst_read 3 4 0 (always 0)) n 0 := ⟨ih, by decide⟩
    have hrc : ¬ (⟨0, 0⟩ : Answer).rc.toInt < 0 := by decide
    have hnext := next_of_call (follows_burst .pread 3 4 0 (always 0)) hcall hrc
    change (fpga_dma_burst .pread 3 4 0 (always 0) (n + 1)).state = _
    rw [hnext]
    rfl

theorem eof_short : ShortCounts 4 (always 0) (fpga_dma_burst_read 3 4 0 (always 0)) := by
  intro n offset h
  refine ⟨(by decide : (0 : Int) ≤ (0 : BitVec 64).toInt), ?_⟩
  rw [BitVec.le_def]
  exact Nat.zero_le _

/-- A read past the end of the device is tried again forever. -/
theorem fpga_dma_burst_eof_forever :
    ¬ ∀ (fd : Int) (xfer_sz address : BitVec 64) (answers : Nat → Answer),
      ShortCounts xfer_sz answers (fpga_dma_burst_read fd xfer_sz address answers) →
        BurstSound xfer_sz address answers (fpga_dma_burst_read fd xfer_sz address answers) := by
  intro h
  obtain ⟨n, rc, hend⟩ := (h 3 4 0 (always 0) eof_short).ends
  rw [eof_looping] at hend
  cases hend

end AwsFpga.Dma
