import AwsFpga.Lib.Queue
import Mathlib.Data.BitVec

/-!
# A FIFO of shift registers (`srl_fifo.sv`)

All bits of a word have their own shift register, with the same enable and the
same address, so the shift register is one of words.
-/

open Lib

namespace AwsFpga.Rtl.SrlFifo

structure Params where
  WIDTH : Nat
  DEPTH : Nat
  WATERMARK : Nat
  PIPELINE : Bool
  width : 1 ≤ WIDTH
  depth : 2 ≤ DEPTH
  depth_le : DEPTH ≤ 32
  watermark : 1 ≤ WATERMARK
  watermark_lt : WATERMARK ≤ DEPTH - 1

namespace Params

variable (p : Params)

def PTR_WIDTH : Nat := if 16 < p.DEPTH then 5 else 4

/-- `SRLC32E` where the words have more than 16 bits, else `SRL16E`. -/
def srl_depth : Nat := if 16 < p.WIDTH then 32 else 16

end Params

structure In (p : Params) where
  rst_n : Bool
  push : Bool
  push_data : BitVec p.WIDTH
  pop : Bool

structure Regs (p : Params) where
  rd_ptr : BitVec p.PTR_WIDTH
  watermark : Bool
  empty : Bool
  data_valid_p : Bool
  srl : Nat → BitVec p.WIDTH
  OUT_DATA_REG : BitVec p.WIDTH

section

variable {p : Params} (i : In p) (s : Regs p)

/-! ## The wires -/

def data_valid : Bool := if p.PIPELINE then s.data_valid_p else !s.empty

def rd_stall : Bool := if p.PIPELINE then data_valid s && !i.pop else !i.pop

def rd_en : Bool := !s.empty && !rd_stall i s

/-- `SRL16E` has four address bits. -/
def srl_q : BitVec p.WIDTH := s.srl (s.rd_ptr.toNat % p.srl_depth)

def pop_data : BitVec p.WIDTH := if p.PIPELINE then s.OUT_DATA_REG else srl_q s

/-! ## The registers -/

def step : Regs p where
  rd_ptr :=
    if !i.rst_n then BitVec.allOnes _
    else if i.push && !rd_en i s then s.rd_ptr + 1#_
    else if !i.push && rd_en i s then s.rd_ptr - 1#_
    else s.rd_ptr
  watermark :=
    if !i.rst_n then false
    else if i.push && !rd_en i s then s.rd_ptr.toNat = p.WATERMARK - 1
    else if !i.push && rd_en i s then false
    else s.watermark
  empty :=
    if !i.rst_n then true
    else if i.push && !rd_en i s then false
    else if !i.push && rd_en i s then s.rd_ptr.toNat = 0
    else s.empty
  data_valid_p :=
    if !i.rst_n then false
    else if i.pop || !s.data_valid_p then rd_en i s
    else s.data_valid_p
  srl k := if i.push then if k = 0 then i.push_data else s.srl (k - 1) else s.srl k
  OUT_DATA_REG := if !i.rst_n then 0 else if rd_en i s then srl_q s else s.OUT_DATA_REG

end

def fifo (p : Params) : Circuit (In p) (Regs p) where
  reset := ⟨BitVec.allOnes _, false, true, false, fun _ => 0, 0⟩
  step := step

/-! ## The words in the shift registers -/

variable {p : Params} {i : In p} {s : Regs p}

def pushed (i : In p) : Option (BitVec p.WIDTH) := if i.push then some i.push_data else none

/-- A word that is read leaves the shift registers. -/
def port (i : In p) (s : Regs p) : QueueIn (BitVec p.WIDTH) := ⟨!i.rst_n, pushed i, rd_en i s⟩

/-- The registers with the words `q` in the shift registers, the oldest first. -/
structure Holds (s : Regs p) (q : List (BitVec p.WIDTH)) : Prop where
  /-- With no word the pointer is that of a full register. -/
  rd_ptr : s.rd_ptr + 1#_ = BitVec.ofNat _ q.length
  empty : s.empty = q.isEmpty
  srl : Queue.InShift s.srl q

theorem depth_le_ptr (p : Params) : p.DEPTH ≤ 2 ^ p.PTR_WIDTH := by
  have hle := p.depth_le
  unfold Params.PTR_WIDTH
  split <;> omega

theorem ptr_pos (p : Params) : 2 ≤ 2 ^ p.PTR_WIDTH := by
  unfold Params.PTR_WIDTH
  split <;> omega

section

variable {q : List (BitVec p.WIDTH)}

theorem Holds.rd_ptr_toNat (h : Holds s q) (hne : q ≠ []) (hlen : q.length ≤ p.DEPTH) :
    s.rd_ptr.toNat + 1 = q.length := by
  have hdepth := depth_le_ptr p
  have hpos := List.length_pos_iff.mpr hne
  have hlt := s.rd_ptr.isLt
  have hptr := congrArg BitVec.toNat h.rd_ptr
  rw [BitVec.toNat_add, BitVec.toNat_ofNat, BitVec.toNat_ofNat, Nat.add_mod_mod] at hptr
  generalize 2 ^ p.PTR_WIDTH = N at *
  rcases Nat.lt_or_ge (s.rd_ptr.toNat + 1) N with hin | hend
  · rw [Nat.mod_eq_of_lt hin] at hptr
    rcases Nat.eq_or_lt_of_le (Nat.le_trans hlen hdepth) with heq | hlow
    · rw [heq, Nat.mod_self] at hptr
      omega
    · rwa [Nat.mod_eq_of_lt hlow] at hptr
  · obtain hfull : s.rd_ptr.toNat + 1 = N := by omega
    rw [hfull, Nat.mod_self] at hptr
    rcases Nat.eq_or_lt_of_le (Nat.le_trans hlen hdepth) with heq | hlow
    · omega
    · rw [Nat.mod_eq_of_lt hlow] at hptr
      omega

theorem Holds.rd_ptr_empty (h : Holds s []) : s.rd_ptr.toNat = 2 ^ p.PTR_WIDTH - 1 := by
  have hpos := ptr_pos p
  have hlt := s.rd_ptr.isLt
  have hptr := congrArg BitVec.toNat h.rd_ptr
  rw [BitVec.toNat_add, BitVec.toNat_ofNat, BitVec.toNat_ofNat, Nat.add_mod_mod, List.length_nil,
    Nat.zero_mod] at hptr
  generalize 2 ^ p.PTR_WIDTH = N at *
  rcases Nat.lt_or_ge (s.rd_ptr.toNat + 1) N with hin | hend
  · rw [Nat.mod_eq_of_lt hin] at hptr
    omega
  · omega

theorem Holds.not_empty (h : Holds s q) (hrd : rd_en i s = true) : q ≠ [] := by
  have hempty := h.empty
  unfold rd_en at hrd
  rintro rfl
  rw [hempty] at hrd
  exact Bool.false_ne_true hrd

theorem Holds.reset (hrd : s.rd_ptr = BitVec.allOnes _) (hempty : s.empty = true) : Holds s [] where
  rd_ptr := by
    rw [hrd]
    apply BitVec.eq_of_toNat_eq
    have hpos := ptr_pos p
    rw [BitVec.toNat_add, BitVec.toNat_allOnes, BitVec.toNat_ofNat, BitVec.toNat_ofNat,
      Nat.add_mod_mod, Nat.sub_add_cancel (by omega), Nat.mod_self]
    rfl
  empty := hempty
  srl := .nil _

theorem next_eq (hrst : i.rst_n = true) : Queue.next (port i s) q =
    (if rd_en i s then q.tail else q) ++ (pushed i).toList := by
  apply if_neg
  change ¬ (!i.rst_n) = true
  simp [hrst]

theorem next_length (hrst : i.rst_n = true) : (Queue.next (port i s) q).length =
    (if rd_en i s then q.length - 1 else q.length) + i.push.toNat := by
  rw [next_eq hrst, List.length_append, apply_ite List.length, List.length_tail]
  unfold pushed
  cases i.push <;> rfl

theorem Holds.rd_ptr_step (h : Holds s q) (hrst : i.rst_n = true) :
    (step i s).rd_ptr + 1#_ = BitVec.ofNat _ (Queue.next (port i s) q).length := by
  have hptr := h.rd_ptr
  have hnot : ¬ (!i.rst_n) = true := by rw [hrst]; exact Bool.false_ne_true
  change (if !i.rst_n then BitVec.allOnes _ else if i.push && !rd_en i s then s.rd_ptr + 1#_
    else if !i.push && rd_en i s then s.rd_ptr - 1#_ else s.rd_ptr) + 1#_ = _
  rw [if_neg hnot, next_length hrst]
  cases hp : i.push <;> cases hr : rd_en i s
  · exact hptr
  · have hpos := List.length_pos_iff.mpr (h.not_empty hr)
    obtain ⟨d, hd⟩ : ∃ d, q.length = d + 1 := ⟨q.length - 1, by omega⟩
    rw [hd] at hptr ⊢
    change s.rd_ptr - 1#_ + 1#_ = BitVec.ofNat _ d
    rwa [BitVec.sub_add_cancel, ← BitVec.add_left_inj, ← BitVec.ofNat_add]
  · change s.rd_ptr + 1#_ + 1#_ = BitVec.ofNat _ (q.length + 1)
    rw [hptr, BitVec.ofNat_add]
  · have hpos := List.length_pos_iff.mpr (h.not_empty hr)
    change s.rd_ptr + 1#_ = BitVec.ofNat _ (q.length - 1 + 1)
    rw [hptr, Nat.sub_add_cancel hpos]

theorem Holds.srl_step (h : Holds s q) :
    Queue.InShift (step i s).srl (Queue.next (port i s) q) := by
  refine Queue.InShift.suffix ?_ (Queue.next_suffix (port i s) q)
  change Queue.InShift (fun k => if i.push then if k = 0 then i.push_data else s.srl (k - 1) else
    s.srl k) (q ++ (if i.push then some i.push_data else none).toList)
  by_cases hp : i.push = true
  · simp only [hp, ↓reduceIte]
    exact h.srl.concat rfl (fun _ => rfl)
  · simp only [hp, Bool.false_eq_true, ↓reduceIte, Option.toList_none, List.append_nil]
    exact h.srl

theorem Holds.empty_step (h : Holds s q) (hlen : q.length ≤ p.DEPTH) (hrst : i.rst_n = true) :
    (step i s).empty = (Queue.next (port i s) q).isEmpty := by
  have hnot : ¬ (!i.rst_n) = true := by rw [hrst]; exact Bool.false_ne_true
  change (if !i.rst_n then true else if i.push && !rd_en i s then false
    else if !i.push && rd_en i s then decide (s.rd_ptr.toNat = 0) else s.empty) = _
  rw [if_neg hnot, next_eq hrst]
  unfold pushed
  cases hp : i.push <;> cases hr : rd_en i s
  · rw [h.empty]
    simp
  · have hptr := h.rd_ptr_toNat (h.not_empty hr) hlen
    obtain ⟨a, l, rfl⟩ := List.exists_cons_of_ne_nil (h.not_empty hr)
    rw [List.length_cons] at hptr
    have hl : s.rd_ptr.toNat = l.length := by omega
    cases l <;> simp [hl]
  · simp
  · have hne := h.not_empty hr
    rw [h.empty]
    cases q with
    | nil => exact absurd rfl hne
    | cons a l => simp

theorem Holds.next (hlen : q.length ≤ p.DEPTH) (h : Holds s q) :
    Holds (step i s) (Queue.next (port i s) q) := by
  by_cases hrst : i.rst_n = true
  · exact ⟨h.rd_ptr_step hrst, h.empty_step hlen hrst, h.srl_step⟩
  · have hnot : (!i.rst_n) = true := by simp [hrst]
    rw [Queue.next_reset hnot]
    exact .reset (if_pos hnot) (if_pos hnot)

/-- What is read is the oldest word, unless `SRL16E` is too short for it. -/
theorem Holds.srl_q_eq (h : Holds s q) (hlen : q.length ≤ p.DEPTH) (hshort : q.length ≤ p.srl_depth)
    {a : BitVec p.WIDTH} (ha : q.head? = some a) : srl_q s = a := by
  have hne : q ≠ [] := by
    rintro rfl
    cases ha
  have hptr := h.rd_ptr_toNat hne hlen
  unfold srl_q
  rw [Nat.mod_eq_of_lt (by omega)]
  exact h.srl.head ha hptr

/-! ## The watermark -/

/-- The flag is right as long as there is at most one word more than `WATERMARK`. -/
theorem Holds.watermark_step (h : Holds s q) (hlen : q.length ≤ p.DEPTH) (hrst : i.rst_n = true)
    (hflag : s.watermark = decide (p.WATERMARK < q.length)) (hroom : q.length ≤ p.WATERMARK + 1) :
    (step i s).watermark = decide (p.WATERMARK < (Queue.next (port i s) q).length) ↔
      (Queue.next (port i s) q).length ≤ p.WATERMARK + 1 := by
  have hmark := p.watermark
  have hnot : ¬ (!i.rst_n) = true := by rw [hrst]; exact Bool.false_ne_true
  have hstep : (step i s).watermark = if i.push && !rd_en i s then
      decide (s.rd_ptr.toNat = p.WATERMARK - 1)
      else if !i.push && rd_en i s then false else s.watermark := if_neg hnot
  rw [hstep, next_length hrst]
  cases hp : i.push <;> cases hr : rd_en i s
  · simpa [hflag] using hroom
  · have hpos := List.length_pos_iff.mpr (h.not_empty hr)
    simp
    omega
  · have hptr : s.rd_ptr.toNat = p.WATERMARK - 1 ↔ q.length = p.WATERMARK := by
      rcases eq_or_ne q [] with rfl | hne
      · rw [h.rd_ptr_empty, List.length_nil]
        have hlt := p.watermark_lt
        have hdepth := depth_le_ptr p
        omega
      · have hnum := h.rd_ptr_toNat hne hlen
        omega
    simp [hptr]
    omega
  · have hpos := List.length_pos_iff.mpr (h.not_empty hr)
    simp [hflag, Nat.sub_add_cancel hpos]
    omega

/-! ## The output register -/

variable (s) in
/-- The word that was read and not popped. -/
def read : List (BitVec p.WIDTH) := if p.PIPELINE && s.data_valid_p then [s.OUT_DATA_REG] else []

variable (i s) in
def popped : List (BitVec p.WIDTH) := if i.pop then [pop_data s] else []

theorem Holds.words_step (h : Holds s q) (hlen : q.length ≤ p.DEPTH)
    (hshort : q.length ≤ p.srl_depth) (hrst : i.rst_n = true) (hpop : i.pop → data_valid s) :
    read s ++ q ++ (pushed i).toList =
      popped i s ++ (read (SrlFifo.step i s) ++ Queue.next (port i s) q) := by
  have hnot : ¬ (!i.rst_n) = true := by rw [hrst]; exact Bool.false_ne_true
  have hread : rd_en i s = true →
      q ++ (pushed i).toList = srl_q s :: (q.tail ++ (pushed i).toList) := by
    intro hr
    obtain ⟨a, l, rfl⟩ := List.exists_cons_of_ne_nil (h.not_empty hr)
    rw [h.srl_q_eq hlen hshort rfl]
    rfl
  have hvalid_p : (SrlFifo.step i s).data_valid_p =
      if i.pop || !s.data_valid_p then rd_en i s else s.data_valid_p := if_neg hnot
  have hreg : (SrlFifo.step i s).OUT_DATA_REG =
      if rd_en i s then srl_q s else s.OUT_DATA_REG := if_neg hnot
  unfold read popped
  rw [next_eq hrst, hvalid_p, hreg]
  by_cases hpipe : p.PIPELINE = true
  · have hdata : pop_data s = s.OUT_DATA_REG := if_pos hpipe
    have hvalid : data_valid s = s.data_valid_p := if_pos hpipe
    rw [hvalid] at hpop
    rw [hdata, hpipe]
    cases hv : s.data_valid_p <;> cases hp : i.pop
    · -- the output is free
      cases hr : rd_en i s with
      | false => simp
      | true =>
        simp [hread hr]
    · exact absurd (hpop hp) (by simp [hv])
    · -- the output is taken, and nothing is read
      have hr : rd_en i s = false := by simp [rd_en, rd_stall, hpipe, hvalid, hv, hp]
      simp [hr]
    · cases hr : rd_en i s with
      | false => simp
      | true =>
        simp [hread hr]
  · have hdata : pop_data s = srl_q s := if_neg hpipe
    have hvalid : data_valid s = !s.empty := if_neg hpipe
    have hr : rd_en i s = i.pop := by
      rw [hvalid] at hpop
      cases hp : i.pop with
      | false => simp [rd_en, rd_stall, hpipe, hp]
      | true => simpa [rd_en, rd_stall, hpipe, hp] using hpop hp
    rw [hdata]
    cases hp : i.pop with
    | false => simp [hpipe, hr, hp]
    | true => simp [hpipe, hr, hp, hread (hr.trans hp)]

end

/-! ## Runs -/

variable (ins : Nat → In p)

/-- The words in the shift registers in cycle `n`. -/
def words (n : Nat) : List (BitVec p.WIDTH) := Queue.stored (fifo p) ins port n

/-- The words that were pushed since the last reset. -/
def accepted : Nat → List (BitVec p.WIDTH) :=
  (fifo p).since ins (fun i => !i.rst_n) (fun i _ => (pushed i).toList)

/-- The words that were popped since the last reset. -/
def delivered : Nat → List (BitVec p.WIDTH) := (fifo p).since ins (fun i => !i.rst_n) popped

/-- It is used as it should be. -/
structure Orderly : Prop where
  push : ∀ n, (ins n).push → (words ins n).length < p.DEPTH
  pop : ∀ n, (ins n).pop → data_valid ((fifo p).state ins n)

def InOrder : Prop :=
  ∀ n, accepted ins n = delivered ins n ++ (read ((fifo p).state ins n) ++ words ins n)

def EmptyRight : Prop := ∀ n, ((fifo p).state ins n).empty = (words ins n).isEmpty

def WatermarkRight : Prop :=
  ∀ n, ((fifo p).state ins n).watermark = decide (p.WATERMARK < (words ins n).length)

/-- All that is expected of the FIFO in a run. -/
structure Expected : Prop where
  order : InOrder ins
  empty : EmptyRight ins
  watermark : WatermarkRight ins

/-- There is never more than one word above the watermark. -/
def BelowMark : Prop := ∀ n, (words ins n).length ≤ p.WATERMARK + 1

/-- There are never more words than the primitive can address. -/
def Addressed : Prop := ∀ n, (words ins n).length ≤ p.srl_depth

variable {ins}

theorem holds_state (hlegal : Orderly ins) (n : Nat) :
    (words ins n).length ≤ p.DEPTH ∧ Holds ((fifo p).state ins n) (words ins n) := by
  apply Queue.stored_rel (c := fifo p) port (R := Holds)
  · exact .reset rfl rfl
  · intro i s q _ hlen h
    exact h.next hlen
  · intro n h
    refine ⟨fun hp => hlegal.push n ?_, fun hr => h.not_empty hr⟩
    unfold port pushed at hp
    by_contra hno
    simp [hno] at hp

theorem words_succ (n : Nat) : words ins (n + 1) =
    Queue.next (port (ins n) ((fifo p).state ins n)) (words ins n) := rfl

theorem words_le_of_quiet {n : Nat} (hpush : (ins n).push = false) :
    (words ins (n + 1)).length ≤ (words ins n).length := by
  have hnone : pushed (ins n) = none := by simp [pushed, hpush]
  rw [words_succ, Queue.next, port, hnone]
  split
  · exact Nat.zero_le _
  · split
    · simp
    · simp

theorem in_order (hlegal : Orderly ins) (haddr : Addressed ins) : InOrder ins := by
  intro n
  apply Circuit.since_eq (fun n => read ((fifo p).state ins n) ++ words ins n)
  · unfold read
    rw [Circuit.state_zero]
    simp [fifo, words, Queue.stored_zero]
  · intro n h
    have hreset : words ins (n + 1) = [] := Queue.next_reset h
    have hnone : ((fifo p).state ins (n + 1)).data_valid_p = false := if_pos h
    rw [hreset]
    unfold read
    rw [hnone]
    simp
  · intro n h
    obtain ⟨hlen, hholds⟩ := holds_state hlegal n
    exact hholds.words_step hlen (haddr n) (by simpa using h) (hlegal.pop n)

theorem watermark_succ (hlegal : Orderly ins) (n : Nat)
    (hflag : ((fifo p).state ins n).watermark = decide (p.WATERMARK < (words ins n).length))
    (hroom : (words ins n).length ≤ p.WATERMARK + 1) :
    ((fifo p).state ins (n + 1)).watermark = decide (p.WATERMARK < (words ins (n + 1)).length) ↔
      (words ins (n + 1)).length ≤ p.WATERMARK + 1 := by
  obtain ⟨hlen, hholds⟩ := holds_state hlegal n
  by_cases hrst : (ins n).rst_n = true
  · exact hholds.watermark_step hlen hrst hflag hroom
  · have hnot : (!(ins n).rst_n) = true := by simp [hrst]
    have hreset : words ins (n + 1) = [] := Queue.next_reset hnot
    have hnone : ((fifo p).state ins (n + 1)).watermark = false := if_pos hnot
    rw [hreset, hnone]
    simp

theorem watermark_right_iff (hlegal : Orderly ins) : WatermarkRight ins ↔ BelowMark ins := by
  constructor
  · intro hright n
    induction n with
    | zero => exact Nat.zero_le _
    | succ n ih => exact (watermark_succ hlegal n (hright n) ih).mp (hright (n + 1))
  · intro hbelow n
    induction n with
    | zero => rfl
    | succ n ih => exact (watermark_succ hlegal n ih (hbelow n)).mpr (hbelow (n + 1))

/-- As long as there is never more than one word above the watermark, nor more than the primitive can
address, the FIFO does what is expected; the first is also needed. -/
theorem srl_fifo_runs (hlegal : Orderly ins) :
    EmptyRight ins ∧ (WatermarkRight ins ↔ BelowMark ins) ∧ (Addressed ins → InOrder ins) ∧
      (BelowMark ins ∧ Addressed ins → Expected ins) := by
  have hempty : EmptyRight ins := fun n => (holds_state hlegal n).2.empty
  refine ⟨hempty, watermark_right_iff hlegal, in_order hlegal, ?_⟩
  rintro ⟨hbelow, haddr⟩
  exact ⟨in_order hlegal haddr, hempty, (watermark_right_iff hlegal).mpr hbelow⟩

theorem byte_wide : 1 ≤ 8 := by decide

theorem deep : 2 ≤ 32 := by decide

theorem deepest : 32 ≤ 32 := by decide

theorem low_mark : 1 ≤ 1 := by decide

theorem low_mark_le : 1 ≤ 32 - 1 := by decide

/-- Bytes, 32 of them, and the lowest watermark. -/
def bytes : Params := ⟨8, 32, 1, false, byte_wide, deep, deepest, low_mark, low_mark_le⟩

/-- Bytes, 16 of them, with an output register. -/
def piped_bytes : Params :=
  ⟨8, 16, 8, true, byte_wide, by decide, by decide, by decide, by decide⟩

/-- Nine bytes come in a row, then some go, and two come while others go. -/
def bursts (n : Nat) : In piped_bytes :=
  ⟨true, n < 9 || n = 15 || n = 16, BitVec.ofNat 8 n, n ∈ [12, 13, 14, 15, 17, 18]⟩

theorem bursts_length (n : Nat) : (words bursts n).length ≤ 9 := by
  have hbusy : ∀ k < 18, (words bursts k).length ≤ 9 := by decide +kernel
  induction n with
  | zero => exact Nat.zero_le _
  | succ n ih =>
    rcases Nat.lt_or_ge (n + 1) 18 with hlt | hge
    · exact hbusy _ hlt
    · have hpush : (bursts n).push = false := by simp [bursts]; omega
      exact (words_le_of_quiet hpush).trans ih

theorem bursts_orderly : Orderly bursts where
  push n _ := Nat.lt_of_le_of_lt (bursts_length n) (by decide)
  pop n hp := by
    have hvalid : ∀ k ∈ [12, 13, 14, 15, 17, 18],
        data_valid ((fifo piped_bytes).state bursts k) := by decide +kernel
    exact hvalid n (of_decide_eq_true hp)

/-- All goes well with up to nine bytes over a watermark of eight. -/
theorem bursts_expected : Expected bursts ∧
    (delivered bursts 19).map BitVec.toNat = [0, 1, 2, 3, 4, 5] :=
  ⟨(srl_fifo_runs bursts_orderly).2.2.2
    ⟨bursts_length, fun n => Nat.le_trans (bursts_length n) (by decide)⟩, by decide +kernel⟩

/-- 17 bytes are pushed, of which only the first is not zero, and then one is popped. -/
def seventeen (n : Nat) : In bytes :=
  ⟨true, decide (n < 17), if n = 0 then 1#8 else 0#8, decide (n = 17)⟩

theorem seventeen_orderly : Orderly seventeen where
  push n hp := by
    have hroom : ∀ n < 17, (words seventeen n).length < 32 := by decide +kernel
    exact hroom n (of_decide_eq_true hp)
  pop n hp := by
    obtain rfl : n = 17 := of_decide_eq_true hp
    decide +kernel

/-- With three bytes the watermark of 1 is not shown, and of the 17 bytes the last one is popped
first. -/
theorem seventeen_wrong : Orderly seventeen ∧ ¬ WatermarkRight seventeen ∧ ¬ InOrder seventeen ∧
    ¬ Expected seventeen := by
  have hmark : ¬ WatermarkRight seventeen := fun h => absurd (h 3) (by decide +kernel)
  have hfirst : (delivered seventeen 18).map BitVec.toNat = [0] := by decide +kernel
  have hpushed : (accepted seventeen 18).map BitVec.toNat = 1 :: List.replicate 16 0 := by
    decide +kernel
  have horder : ¬ InOrder seventeen := by
    intro h
    have heq := congrArg (List.map BitVec.toNat) (h 18)
    rw [hpushed, List.map_append, hfirst] at heq
    exact absurd (List.cons.inj heq).1 (by decide)
  exact ⟨seventeen_orderly, hmark, horder, fun h => hmark h.watermark⟩

end AwsFpga.Rtl.SrlFifo
