import AwsFpga.Lib.Queue
import AwsFpga.Rtl.Blocks
import Mathlib.Data.BitVec

/-!
# The FIFOs of flops (`flop_fifo.sv`, `flop_fifo_in.sv`)

Both with their registers. `flop_fifo` shifts when a word is popped,
`flop_fifo_in` when one is pushed (`OUTPUT_REG` is 0); a list of the words they
store tells what either does. `rst_n` is high in a run.
-/

open Lib

namespace AwsFpga.Rtl

/-! ## The ports, which are those of both -/

structure FifoIn (WIDTH : Nat) where
  sync_rst_n : Bool
  cfg_watermark : Nat
  push : Bool
  push_data : BitVec WIDTH
  pop : Bool

structure FifoOut (WIDTH : Nat) where
  pop_data : BitVec WIDTH
  half_full : Bool
  watermark : Bool
  data_valid : Bool

variable {WIDTH : Nat}

def FifoIn.pushed (i : FifoIn WIDTH) : Option (BitVec WIDTH) :=
  if i.push then some i.push_data else none

def FifoIn.port (i : FifoIn WIDTH) : QueueIn (BitVec WIDTH) := ⟨!i.sync_rst_n, i.pushed, i.pop⟩

/-- What the outputs say of the words that are stored. -/
structure FifoOut.Shows (DEPTH cfg_watermark : Nat) (o : FifoOut WIDTH)
    (q : List (BitVec WIDTH)) : Prop where
  data_valid : o.data_valid = !q.isEmpty
  pop_data : ∀ a ∈ q.head?, o.pop_data = a
  half_full : o.half_full = decide (DEPTH / 2 ≤ q.length)
  watermark : o.watermark = decide (cfg_watermark < q.length)

/-- A module with these ports. -/
structure FifoModule where
  Regs : Nat → Type
  reset : {WIDTH : Nat} → Regs WIDTH
  step : {WIDTH : Nat} → FifoIn WIDTH → Regs WIDTH → Regs WIDTH
  out : {WIDTH : Nat} → (cfg_watermark : Nat) → Regs WIDTH → FifoOut WIDTH

def FifoModule.circuit (M : FifoModule) (WIDTH : Nat) :
    Circuit (FifoIn WIDTH) (M.Regs WIDTH) where
  reset := M.reset
  step := M.step

/-- The module is a queue of `DEPTH` words. -/
structure FifoModule.Stores (M : FifoModule) (DEPTH : Nat)
    (R : {WIDTH : Nat} → M.Regs WIDTH → List (BitVec WIDTH) → Prop) : Prop where
  reset : ∀ {WIDTH : Nat}, R (M.reset : M.Regs WIDTH) []
  step : ∀ {WIDTH : Nat} {i : FifoIn WIDTH} {s q}, Queue.Legal DEPTH i.port q →
    q.length ≤ DEPTH → R s q → R (M.step i s) (Queue.next i.port q)
  out : ∀ {WIDTH : Nat} {s : M.Regs WIDTH} {q} (cfg_watermark : Nat), R s q →
    (M.out cfg_watermark s).Shows DEPTH cfg_watermark q

/-! ## `flop_fifo` -/

namespace FlopFifo

/-- An entry: the valid bit, which is its highest one, and the data. -/
structure Slot (WIDTH : Nat) where
  valid : Bool
  data : BitVec WIDTH

variable (DEPTH : Nat) (push : Bool) (push_data : BitVec WIDTH) (fifo : Nat → Slot WIDTH)

def fifo_valid (k : Nat) : Bool := decide (k < DEPTH) && (fifo k).valid

def nxt_fifo : Nat → Slot WIDTH
  | 0 => if push && !fifo_valid DEPTH fifo 0 then ⟨true, push_data⟩ else fifo 0
  | k + 1 =>
    if push && fifo_valid DEPTH fifo k && !fifo_valid DEPTH fifo (k + 1) then ⟨true, push_data⟩
    else fifo (k + 1)

def step (i : FifoIn WIDTH) (k : Nat) : Slot WIDTH :=
  if !i.sync_rst_n then { fifo k with valid := false }
  else if i.pop then
    if k < DEPTH - 1 then nxt_fifo DEPTH i.push i.push_data fifo (k + 1)
    else { fifo k with valid := false }
  else nxt_fifo DEPTH i.push i.push_data fifo k

def out (cfg_watermark : Nat) : FifoOut WIDTH where
  pop_data := (fifo 0).data
  half_full := fifo_valid DEPTH fifo (DEPTH / 2 - 1)
  watermark := fifo_valid DEPTH fifo cfg_watermark
  data_valid := (fifo 0).valid

/-- What an entry stores. -/
def Slot.word (e : Slot WIDTH) : Option (BitVec WIDTH) := if e.valid then some e.data else none

/-- The words are stored from entry 0 on, the oldest first. -/
structure Holds (q : List (BitVec WIDTH)) : Prop where
  length : q.length ≤ DEPTH
  word : ∀ k < DEPTH, q[k]? = (fifo k).word

variable {DEPTH push push_data fifo} {q : List (BitVec WIDTH)}

theorem Holds.valid (h : Holds DEPTH fifo q) (k : Nat) :
    fifo_valid DEPTH fifo k = decide (k < q.length) := by
  have hlen := h.length
  unfold fifo_valid
  by_cases hk : k < DEPTH
  · have hword := h.word k hk
    rw [decide_eq_true hk, Bool.true_and]
    unfold Slot.word at hword
    split at hword
    case isTrue hv =>
      have hlt := (List.getElem?_eq_some_iff.mp hword).1
      rw [hv, decide_eq_true hlt]
    case isFalse hv =>
      have hge := List.getElem?_eq_none_iff.mp hword
      rw [decide_eq_false (by omega)]
      simpa using hv
  · rw [decide_eq_false hk, decide_eq_false (by omega), Bool.false_and]

theorem Holds.nxt_fifo_eq (h : Holds DEPTH fifo q) (k : Nat) :
    nxt_fifo DEPTH push push_data fifo k =
      if push ∧ k = q.length then ⟨true, push_data⟩ else fifo k := by
  cases k with
  | zero =>
    unfold nxt_fifo
    refine if_congr ?_ rfl rfl
    rw [h.valid, Bool.and_eq_true, Bool.not_eq_true', decide_eq_false_iff_not]
    refine and_congr_right fun _ => ?_
    omega
  | succ k =>
    rw [nxt_fifo]
    refine if_congr ?_ rfl rfl
    rw [h.valid, h.valid, Bool.and_eq_true, Bool.and_eq_true, Bool.not_eq_true', decide_eq_true_eq,
      decide_eq_false_iff_not, and_assoc]
    refine and_congr_right fun _ => ?_
    omega

theorem Holds.grown (h : Holds DEPTH fifo q) {k : Nat} (hk : k < DEPTH) :
    (if q.length < DEPTH then q ++ (if push then some push_data else none).toList else q)[k]? =
      (nxt_fifo DEPTH push push_data fifo k).word := by
  rw [h.nxt_fifo_eq]
  by_cases hnew : push ∧ k = q.length
  · obtain ⟨hp, rfl⟩ := hnew
    rw [if_pos hk, if_pos (And.intro hp rfl), if_pos hp]
    exact List.getElem?_concat_length
  · rw [if_neg hnew, ← h.word k hk]
    split
    case isFalse => rfl
    case isTrue =>
      by_cases hp : push = true
      · have hne : k ≠ q.length := fun heq => hnew ⟨hp, heq⟩
        rw [if_pos hp]
        rcases Nat.lt_or_gt_of_ne hne with hlt | hgt
        · exact List.getElem?_append_left hlt
        · rw [List.getElem?_eq_none (by simp; omega), List.getElem?_eq_none (by omega)]
      · rw [if_neg hp, Option.toList_none, List.append_nil]

variable {i : FifoIn WIDTH}

theorem Holds.reset (fifo : Nat → Slot WIDTH) (hv : ∀ k, (fifo k).valid = false) :
    Holds DEPTH fifo [] :=
  ⟨Nat.zero_le _, fun k _ => by simp [Slot.word, hv k]⟩

theorem length_nxt (hlen : q.length ≤ DEPTH) (push : Option (BitVec WIDTH)) :
    (if q.length < DEPTH then q ++ push.toList else q).length ≤ DEPTH := by
  split
  · have hone : push.toList.length ≤ 1 := by cases push <;> simp
    rw [List.length_append]
    omega
  · exact hlen

theorem length_flop_fifo (hlen : q.length ≤ DEPTH) (push : Option (BitVec WIDTH)) (pop : Bool) :
    (Rtl.flop_fifo DEPTH push pop q).length ≤ DEPTH := by
  have hnxt := length_nxt hlen push
  unfold Rtl.flop_fifo
  dsimp only
  split
  · rw [List.length_tail]
    omega
  · exact hnxt

/-- The registers do what the list does, whatever comes in. -/
theorem Holds.step (h : Holds DEPTH fifo q) (hrst : i.sync_rst_n = true) :
    Holds DEPTH (step DEPTH fifo i) (Rtl.flop_fifo DEPTH i.pushed i.pop q) := by
  refine ⟨length_flop_fifo h.length _ _, fun k hk => ?_⟩
  have hnot : ¬ (!i.sync_rst_n) = true := by simp [hrst]
  unfold Rtl.flop_fifo FlopFifo.step FifoIn.pushed
  dsimp only
  rw [if_neg hnot]
  by_cases hpop : i.pop = true
  · rw [if_pos hpop, if_pos hpop, List.getElem?_tail]
    by_cases hlast : k < DEPTH - 1
    · rw [if_pos hlast]
      exact h.grown (by omega)
    · rw [if_neg hlast, List.getElem?_eq_none]
      · rfl
      · have hle := length_nxt h.length (if i.push then some i.push_data else none)
        omega
  · rw [if_neg hpop, if_neg hpop]
    exact h.grown hk

end FlopFifo

def flop_fifo_regs (DEPTH : Nat) : FifoModule where
  Regs WIDTH := Nat → FlopFifo.Slot WIDTH
  reset := fun _ => ⟨false, 0⟩
  step i fifo := FlopFifo.step DEPTH fifo i
  out cfg_watermark fifo := FlopFifo.out DEPTH fifo cfg_watermark

theorem FifoIn.legal {i : FifoIn WIDTH} {DEPTH : Nat} {q : List (BitVec WIDTH)}
    (h : Queue.Legal DEPTH i.port q) :
    (q.length < DEPTH ∨ i.pushed = none) ∧ (i.pop → q ≠ []) := by
  refine ⟨?_, h.pop⟩
  have hpush := h.push
  cases hp : i.pushed with
  | none => exact .inr rfl
  | some a => exact .inl (hpush (by simp [FifoIn.port, hp]))

theorem flop_fifo_stores {DEPTH : Nat} (hdepth : 2 ≤ DEPTH) :
    (flop_fifo_regs DEPTH).Stores DEPTH (fun {_} fifo q => FlopFifo.Holds DEPTH fifo q) where
  reset := .reset _ fun _ => rfl
  step {_ i s q} hlegal _ h := by
    change FlopFifo.Holds DEPTH (FlopFifo.step DEPTH s i) _
    by_cases hrst : i.sync_rst_n = true
    · obtain ⟨hpush, hpop⟩ := i.legal hlegal
      have hnext := flop_fifo_eq hpush hpop
      rw [Queue.next, if_neg (by simp [FifoIn.port, hrst])]
      exact hnext ▸ h.step hrst
    · have hnot : (!i.sync_rst_n) = true := by simp [hrst]
      rw [Queue.next_reset hnot]
      exact .reset _ fun k => by simp [FlopFifo.step, hnot]
  out {_ s q} cfg_watermark h := by
    refine ⟨?_, ?_, ?_, h.valid cfg_watermark⟩
    · have hvalid := h.valid 0
      unfold FlopFifo.fifo_valid at hvalid
      rw [decide_eq_true (by omega), Bool.true_and] at hvalid
      change (s 0).valid = _
      rw [hvalid]
      cases q <;> rfl
    · intro a ha
      have hzero := h.word 0 (by omega)
      rw [← List.head?_eq_getElem?, Option.mem_def.mp ha] at hzero
      unfold FlopFifo.Slot.word at hzero
      split at hzero
      · exact (Option.some.inj hzero).symm
      · exact absurd hzero (by simp)
    · change FlopFifo.fifo_valid DEPTH s (DEPTH / 2 - 1) = _
      rw [h.valid, decide_eq_decide]
      omega

/-! ## `flop_fifo_in` -/

namespace FlopFifoIn

structure Regs (WIDTH : Nat) where
  ff_fifo : Nat → BitVec WIDTH
  ff_valid : Nat → Bool

variable (DEPTH LESS_RST : Nat) (i : FifoIn WIDTH) (s : Regs WIDTH)

/-- For every push the array shifts, and for pops there is no change. -/
def shifted : Nat → BitVec WIDTH
  | 0 => if i.push then i.push_data else s.ff_fifo 0
  | k + 1 => if i.push then s.ff_fifo k else s.ff_fifo (k + 1)

def nxt_valid (k : Nat) : Bool :=
  if i.push && !i.pop then
    match k with
    | 0 => true
    | k + 1 => s.ff_valid k
  else if !i.push && i.pop then
    if k = DEPTH - 1 then false else s.ff_valid (k + 1)
  else s.ff_valid k

/-- The data is reset only where `LESS_RST` is not 1. -/
def step : Regs WIDTH where
  ff_fifo k := if !i.sync_rst_n && LESS_RST != 1 then 0 else shifted i s k
  ff_valid k := if !i.sync_rst_n then false else decide (k < DEPTH) && nxt_valid DEPTH i s k

/-- The loop up to entry `k`: the last one that is valid stays. -/
def ss_pop_data : Nat → BitVec WIDTH
  | 0 => 0
  | k + 1 => if s.ff_valid k then s.ff_fifo k else ss_pop_data k

def out (cfg_watermark : Nat) : FifoOut WIDTH where
  pop_data := ss_pop_data s DEPTH
  half_full := s.ff_valid (DEPTH / 2 - 1)
  watermark := s.ff_valid cfg_watermark
  data_valid := s.ff_valid 0

/-- The words are stored up to entry 0, the oldest last. -/
structure Holds (q : List (BitVec WIDTH)) : Prop where
  length : q.length ≤ DEPTH
  valid : ∀ k, s.ff_valid k = decide (k < q.length)
  word : Queue.InShift s.ff_fifo q

variable {DEPTH LESS_RST i s} {q : List (BitVec WIDTH)}

theorem Holds.reset (s : Regs WIDTH) (hv : ∀ k, s.ff_valid k = false) : Holds DEPTH s [] :=
  ⟨Nat.zero_le _, fun k => by simp [hv k], .nil _⟩

theorem Holds.shift_in (h : Holds DEPTH s q) :
    Queue.InShift (shifted i s) (q ++ i.pushed.toList) := by
  unfold FifoIn.pushed
  by_cases hp : i.push = true
  · rw [if_pos hp]
    exact h.word.concat (if_pos hp) (fun _ => if_pos hp)
  · have hsame : shifted i s = s.ff_fifo := by
      funext k
      cases k <;> exact if_neg hp
    rw [if_neg hp, hsame, Option.toList_none, List.append_nil]
    exact h.word

theorem flop_fifo_in_suffix (DEPTH : Nat) (q : List (BitVec WIDTH)) (push : Option (BitVec WIDTH)) (pop : Bool) :
    Rtl.flop_fifo_in DEPTH push pop q <:+ q ++ push.toList := by
  unfold Rtl.flop_fifo_in
  dsimp only
  split
  · exact List.tail_suffix _
  · exact List.drop_suffix _ _

theorem length_flop_fifo_in (hlen : q.length ≤ DEPTH) : (Rtl.flop_fifo_in DEPTH i.pushed i.pop q).length =
    if i.push then if i.pop then q.length else min (q.length + 1) DEPTH
    else if i.pop then q.length - 1 else q.length := by
  unfold Rtl.flop_fifo_in FifoIn.pushed
  by_cases hp : i.push = true <;> by_cases ho : i.pop = true <;>
    simp only [hp, ho, Bool.false_eq_true, ↓reduceIte, Option.toList_some, Option.toList_none,
      List.append_nil, List.length_tail, List.length_drop, List.length_append,
      List.length_singleton] <;> omega

theorem Holds.nxt_valid_eq (h : Holds DEPTH s q) (k : Nat) :
    (decide (k < DEPTH) && nxt_valid DEPTH i s k) =
      decide (k < (Rtl.flop_fifo_in DEPTH i.pushed i.pop q).length) := by
  have hlen := h.length
  rw [length_flop_fifo_in hlen]
  by_cases hp : i.push = true <;> by_cases ho : i.pop = true
  · -- a word comes and one leaves
    simp only [nxt_valid, hp, ho, h.valid, ← Bool.decide_and, decide_eq_decide, Bool.not_true,
      Bool.and_false, Bool.false_and, Bool.false_eq_true, ↓reduceIte]
    omega
  · simp only [nxt_valid, hp, ho, Bool.not_false, Bool.and_true, Bool.false_eq_true, ↓reduceIte]
    cases k with
    | zero =>
      rw [Bool.and_true, decide_eq_decide]
      omega
    | succ k =>
      simp only [h.valid, ← Bool.decide_and, decide_eq_decide]
      omega
  · simp only [nxt_valid, hp, ho, h.valid, Bool.not_false, Bool.not_true, Bool.and_false,
      Bool.and_true, Bool.false_eq_true, ↓reduceIte]
    by_cases hk : k = DEPTH - 1
    · rw [if_pos hk, Bool.and_false, decide_eq_false (by omega)]
    · rw [if_neg hk, ← Bool.decide_and, decide_eq_decide]
      omega
  · simp only [nxt_valid, hp, ho, h.valid, ← Bool.decide_and, decide_eq_decide, Bool.and_false,
      Bool.false_and, Bool.false_eq_true, ↓reduceIte]
    omega

theorem Holds.step (h : Holds DEPTH s q) (hrst : i.sync_rst_n = true) :
    Holds DEPTH (step DEPTH LESS_RST i s) (Rtl.flop_fifo_in DEPTH i.pushed i.pop q) := by
  have hnot : ¬ (!i.sync_rst_n) = true := by simp [hrst]
  have hdata : ¬ (!i.sync_rst_n && LESS_RST != 1) = true := by simp [hrst]
  refine ⟨?_, fun k => ?_, fun k hk => ?_⟩
  · have hlen := h.length
    rw [length_flop_fifo_in hlen]
    split <;> split <;> omega
  · change (if !i.sync_rst_n then false else _) = _
    rw [if_neg hnot]
    exact h.nxt_valid_eq k
  · have hsuffix := flop_fifo_in_suffix DEPTH q i.pushed i.pop
    change _ = some (if !i.sync_rst_n && LESS_RST != 1 then 0 else shifted i s k)
    rw [if_neg hdata]
    exact h.shift_in.suffix hsuffix k hk

theorem Holds.ss_pop_data_eq (h : Holds DEPTH s q) {a : BitVec WIDTH} (ha : q.head? = some a)
    {n : Nat} (hn : q.length ≤ n) : ss_pop_data s n = a := by
  induction n with
  | zero =>
    have hnil : q = [] := List.eq_nil_of_length_eq_zero (by omega)
    simp [hnil] at ha
  | succ n ih =>
    rw [ss_pop_data, h.valid]
    by_cases hlt : n < q.length
    · rw [if_pos (decide_eq_true hlt)]
      exact h.word.head ha (by omega)
    · rw [if_neg (by simpa using hlt)]
      exact ih (by omega)

end FlopFifoIn

def flop_fifo_in_regs (DEPTH LESS_RST : Nat) : FifoModule where
  Regs := FlopFifoIn.Regs
  reset := ⟨fun _ => 0, fun _ => false⟩
  step i s := FlopFifoIn.step DEPTH LESS_RST i s
  out cfg_watermark s := FlopFifoIn.out DEPTH s cfg_watermark

theorem flop_fifo_in_stores {DEPTH : Nat} (hdepth : 2 ≤ DEPTH) (LESS_RST : Nat) :
    (flop_fifo_in_regs DEPTH LESS_RST).Stores DEPTH
      (fun {_} s q => FlopFifoIn.Holds DEPTH s q) where
  reset := .reset _ fun _ => rfl
  step {_ i s q} hlegal hlen h := by
    change FlopFifoIn.Holds DEPTH (FlopFifoIn.step DEPTH LESS_RST i s) _
    by_cases hrst : i.sync_rst_n = true
    · obtain ⟨hpush, hpop⟩ := i.legal hlegal
      have hnext := flop_fifo_in_eq hlen hpush hpop
      rw [Queue.next, if_neg (by simp [FifoIn.port, hrst])]
      exact hnext ▸ h.step hrst
    · have hnot : (!i.sync_rst_n) = true := by simp [hrst]
      rw [Queue.next_reset hnot]
      exact .reset _ fun k => by simp [FlopFifoIn.step, hnot]
  out {_ s q} cfg_watermark h := by
    refine ⟨?_, fun a ha => h.ss_pop_data_eq ha h.length, ?_, h.valid cfg_watermark⟩
    · change s.ff_valid 0 = _
      rw [h.valid]
      cases q <;> rfl
    · change s.ff_valid (DEPTH / 2 - 1) = _
      rw [h.valid, decide_eq_decide]
      omega

/-! ## Runs -/

/-- The words that are stored in cycle `n`: those that were pushed and not popped. -/
def words (ins : Nat → FifoIn WIDTH) (n : Nat) : List (BitVec WIDTH) :=
  Queue.queue.state (fun k => (ins k).port) n

def FifoModule.outputs (M : FifoModule) (ins : Nat → FifoIn WIDTH) (n : Nat) : FifoOut WIDTH :=
  M.out (ins n).cfg_watermark ((M.circuit WIDTH).state ins n)

/-- The words that were pushed since the last reset. -/
def FifoModule.pushed (M : FifoModule) (ins : Nat → FifoIn WIDTH) : Nat → List (BitVec WIDTH) :=
  (M.circuit WIDTH).since ins (fun i => !i.sync_rst_n) (fun i _ => i.pushed.toList)

/-- The words that were popped since the last reset. -/
def FifoModule.popped (M : FifoModule) (ins : Nat → FifoIn WIDTH) : Nat → List (BitVec WIDTH) :=
  (M.circuit WIDTH).since ins (fun i => !i.sync_rst_n)
    (fun i s => if i.pop then [(M.out i.cfg_watermark s).pop_data] else [])

/-- In every cycle of a run the module is a queue of `DEPTH` words. -/
structure FifoModule.IsQueue (M : FifoModule) (DEPTH : Nat) (ins : Nat → FifoIn WIDTH) : Prop where
  room : ∀ n, (words ins n).length ≤ DEPTH
  shows : ∀ n, (M.outputs ins n).Shows DEPTH (ins n).cfg_watermark (words ins n)
  order : ∀ n, M.pushed ins n = M.popped ins n ++ words ins n

theorem FifoModule.Stores.isQueue {M : FifoModule} {DEPTH : Nat}
    {R : {WIDTH : Nat} → M.Regs WIDTH → List (BitVec WIDTH) → Prop} (hM : M.Stores DEPTH R)
    {ins : Nat → FifoIn WIDTH} (hlegal : ∀ n, Queue.Legal DEPTH (ins n).port (words ins n)) :
    M.IsQueue DEPTH ins := by
  have hrel : ∀ n, (words ins n).length ≤ DEPTH ∧ R ((M.circuit WIDTH).state ins n) (words ins n) :=
    Queue.stored_rel (c := M.circuit WIDTH) (fun i _ => i.port) hM.reset
      (fun _ _ _ hl hlen h => hM.step hl hlen h) (fun n _ => hlegal n)
  have hshows : ∀ n, (M.outputs ins n).Shows DEPTH (ins n).cfg_watermark (words ins n) :=
    fun n => hM.out _ (hrel n).2
  refine ⟨fun n => (hrel n).1, hshows, ?_⟩
  apply Queue.pushed_eq (c := M.circuit WIDTH) (fun i _ => i.port) (fun n => (hlegal n).pop)
  · intro n
    change (if (ins n).pop then [(M.outputs ins n).pop_data] else []) =
      if (ins n).pop then (words ins n).head?.toList else []
    split
    case isTrue hpop =>
      obtain ⟨a, l, hq⟩ := List.exists_cons_of_ne_nil ((hlegal n).pop hpop)
      have hhead : (words ins n).head? = some a := by rw [hq]; rfl
      rw [(hshows n).pop_data a hhead, hhead]
      rfl
    case isFalse => rfl
  · intro n
    rfl

/-- The two modules cannot be told apart by who uses them as they should be used. -/
structure SameFifo (DEPTH LESS_RST : Nat) (ins : Nat → FifoIn WIDTH) (n : Nat) : Prop where
  data_valid : ((flop_fifo_regs DEPTH).outputs ins n).data_valid =
    ((flop_fifo_in_regs DEPTH LESS_RST).outputs ins n).data_valid
  pop_data : ((flop_fifo_regs DEPTH).outputs ins n).data_valid →
    ((flop_fifo_regs DEPTH).outputs ins n).pop_data =
      ((flop_fifo_in_regs DEPTH LESS_RST).outputs ins n).pop_data
  half_full : ((flop_fifo_regs DEPTH).outputs ins n).half_full =
    ((flop_fifo_in_regs DEPTH LESS_RST).outputs ins n).half_full
  watermark : ((flop_fifo_regs DEPTH).outputs ins n).watermark =
    ((flop_fifo_in_regs DEPTH LESS_RST).outputs ins n).watermark

theorem FifoOut.Shows.head_of_valid {DEPTH cfg_watermark : Nat} {o : FifoOut WIDTH}
    {q : List (BitVec WIDTH)} (h : o.Shows DEPTH cfg_watermark q) (hv : o.data_valid = true) :
    q.head? = some o.pop_data := by
  have hvalid := h.data_valid
  cases q with
  | nil => simp [hv] at hvalid
  | cons a l => rw [h.pop_data a rfl, List.head?_cons]

theorem same_fifo {DEPTH : Nat} (hdepth : 2 ≤ DEPTH) (LESS_RST : Nat) {ins : Nat → FifoIn WIDTH}
    (hlegal : ∀ n, Queue.Legal DEPTH (ins n).port (words ins n)) (n : Nat) :
    SameFifo DEPTH LESS_RST ins n := by
  have hout := ((flop_fifo_stores hdepth).isQueue hlegal).shows n
  have hin := ((flop_fifo_in_stores hdepth LESS_RST).isQueue hlegal).shows n
  refine ⟨hout.data_valid.trans hin.data_valid.symm, fun hv => ?_,
    hout.half_full.trans hin.half_full.symm, hout.watermark.trans hin.watermark.symm⟩
  exact (hin.pop_data _ (hout.head_of_valid hv)).symm

end AwsFpga.Rtl
