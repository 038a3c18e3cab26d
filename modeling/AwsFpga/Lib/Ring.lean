import Mathlib.Data.List.Basic
import Mathlib.Data.Nat.ModEq
import Mathlib.Logic.Function.Basic

/-!
# Circular buffers with wrap bits

A pointer is an index and a bit that toggles whenever the index wraps. With the
bit, a full buffer and an empty one can be told apart.
-/

namespace Lib

/-- A pointer into a buffer. -/
structure Ptr where
  idx : Nat
  msb : Bool
  deriving DecidableEq

namespace Ptr

def next (depth : Nat) (p : Ptr) : Ptr :=
  if p.idx = depth - 1 then ⟨0, !p.msb⟩ else ⟨p.idx + 1, p.msb⟩

theorem next_idx {depth l : Nat} {p : Ptr} (hpos : 0 < depth) (h : p.idx = l % depth) :
    (p.next depth).idx = (l + 1) % depth := by
  have hlt := Nat.mod_lt l hpos
  unfold next
  split
  case isTrue hend =>
    rw [Nat.add_mod, ← h, hend]
    rcases Nat.eq_or_lt_of_le hpos with hone | hmore
    · rw [← hone, Nat.mod_self]
    · rw [Nat.mod_eq_of_lt hmore, show depth - 1 + 1 = depth by omega, Nat.mod_self]
  case isFalse hne =>
    have hmore : 1 < depth := by omega
    rw [Nat.add_mod, ← h, Nat.mod_eq_of_lt hmore, Nat.mod_eq_of_lt (by omega)]

/-- The pointer after `k` steps. -/
def after (depth k : Nat) : Ptr := ⟨k % depth, k / depth % 2 = 1⟩

theorem after_add {depth k d : Nat} (hpos : 0 < depth) (hd : d ≤ depth) :
    after depth (k + d) =
      if depth ≤ k % depth + d then ⟨k % depth + d - depth, !(after depth k).msb⟩
      else ⟨k % depth + d, (after depth k).msb⟩ := by
  have hlt := Nat.mod_lt k hpos
  have hk := Nat.div_add_mod k depth
  unfold after
  split
  case isTrue hwrap =>
    have hsum : k + d = k % depth + d - depth + depth * (k / depth + 1) := by
      rw [Nat.mul_add, Nat.mul_one]
      omega
    rw [hsum, Nat.add_mul_mod_self_left, Nat.add_mul_div_left _ _ hpos]
    have hlast : k % depth + d - depth < depth := by omega
    have htoggle : (decide (0 + (k / depth + 1) % 2 = 1)) = !decide (k / depth % 2 = 1) := by
      rw [← decide_not, decide_eq_decide]
      omega
    rw [Nat.mod_eq_of_lt hlast, Nat.div_eq_of_lt hlast, Nat.zero_add, ← htoggle, Nat.zero_add]
  case isFalse hno =>
    have hsum : k + d = k % depth + d + depth * (k / depth) := by omega
    have hlast : k % depth + d < depth := by omega
    rw [hsum, Nat.add_mul_mod_self_left, Nat.add_mul_div_left _ _ hpos, Nat.mod_eq_of_lt hlast,
      Nat.div_eq_of_lt hlast, Nat.zero_add]

theorem next_after {depth : Nat} (hpos : 0 < depth) (k : Nat) :
    (after depth k).next depth = after depth (k + 1) := by
  have hlt := Nat.mod_lt k hpos
  rw [after_add hpos hpos, next]
  by_cases hend : k % depth = depth - 1
  · have hidx : (after depth k).idx = depth - 1 := hend
    rw [if_pos hidx, if_pos (by omega), show k % depth + 1 - depth = 0 by omega]
  · have hidx : ¬(after depth k).idx = depth - 1 := hend
    rw [if_neg hidx, if_neg (by omega)]
    rfl

theorem after_mul {c : Nat} (hc : 0 < c) (depth k : Nat) :
    after (depth * c) (k * c) = ⟨(after depth k).idx * c, (after depth k).msb⟩ := by
  unfold after
  rw [Nat.mul_mod_mul_right, Nat.mul_div_mul_right _ _ hc]

theorem after_div (c depth k : Nat) :
    after depth (k / c) = ⟨(after (depth * c) k).idx / c, (after (depth * c) k).msb⟩ := by
  unfold after
  rw [Nat.mod_mul_left_div_self, Nat.div_div_eq_div_mul, Nat.mul_comm c]

end Ptr

namespace Ring

variable {α : Type} {depth : Nat} {wr rd : Ptr} {mem : Nat → α}

/-- How many entries were written and not read. -/
def count (depth : Nat) (wr rd : Ptr) : Nat :=
  if wr.msb = rd.msb then wr.idx - rd.idx else depth + wr.idx - rd.idx

structure Ok (depth : Nat) (wr rd : Ptr) : Prop where
  wr_lt : wr.idx < depth
  rd_lt : rd.idx < depth
  same : wr.msb = rd.msb → rd.idx ≤ wr.idx
  wrapped : wr.msb ≠ rd.msb → wr.idx ≤ rd.idx

theorem ok_start (h : 0 < depth) : Ok depth ⟨0, false⟩ ⟨0, false⟩ :=
  ⟨h, h, fun _ => Nat.le_refl _, fun hne => absurd rfl hne⟩

/-- The writer is ahead of the reader, but not by more than the buffer. -/
theorem after_ok {j k : Nat} (hpos : 0 < depth) (hd : j ≤ depth) :
    Ok depth (.after depth (k + j)) (.after depth k) ∧
      count depth (.after depth (k + j)) (.after depth k) = j := by
  have hlt := Nat.mod_lt k hpos
  rw [Ptr.after_add hpos hd]
  split
  case isTrue hwrap =>
    refine ⟨⟨by dsimp only; omega, hlt, fun heq => ?_, fun _ => ?_⟩, ?_⟩
    · exact absurd heq (by simp)
    · change k % depth + j - depth ≤ k % depth
      omega
    · unfold count
      rw [if_neg (by simp)]
      change depth + (k % depth + j - depth) - k % depth = j
      omega
  case isFalse hno =>
    refine ⟨⟨by dsimp only; omega, hlt, fun _ => ?_, fun hne => absurd rfl hne⟩, ?_⟩
    · change k % depth ≤ k % depth + j
      omega
    · unfold count
      rw [if_pos rfl]
      change k % depth + j - k % depth = j
      omega

theorem count_le (h : Ok depth wr rd) : count depth wr rd ≤ depth := by
  have hwr := h.wr_lt
  unfold count
  split
  case isTrue => omega
  case isFalse hne =>
    have hle := h.wrapped hne
    omega

theorem count_eq_zero (h : Ok depth wr rd) : count depth wr rd = 0 ↔ wr = rd := by
  obtain ⟨wi, wm⟩ := wr
  obtain ⟨ri, rm⟩ := rd
  have hrd := h.rd_lt
  unfold count
  constructor
  · intro hcount
    split at hcount
    case isTrue heq =>
      have hle := h.same heq
      simp only at hcount hle heq
      rw [heq, show wi = ri by omega]
    case isFalse =>
      simp only at hcount hrd
      omega
  · intro heq
    rw [heq]
    simp

theorem count_eq_depth (h : Ok depth wr rd) :
    count depth wr rd = depth ↔ wr.msb ≠ rd.msb ∧ wr.idx = rd.idx := by
  have hwr := h.wr_lt
  have hrd := h.rd_lt
  unfold count
  constructor
  · intro hcount
    split at hcount
    case isTrue => omega
    case isFalse hne =>
      have hle := h.wrapped hne
      exact ⟨hne, by omega⟩
  · rintro ⟨hne, heq⟩
    rw [if_neg hne]
    omega

theorem count_free (h : Ok depth wr rd) :
    (if wr.idx = rd.idx && wr.msb = rd.msb then depth
      else if wr.idx = rd.idx && wr.msb ≠ rd.msb then 0
      else if rd.idx < wr.idx then rd.idx + depth - wr.idx
      else rd.idx - wr.idx) + count depth wr rd = depth := by
  obtain ⟨hwr, hrd, hsame, hwrapped⟩ := h
  unfold count
  by_cases hmsb : wr.msb = rd.msb
  · have hle := hsame hmsb
    simp only [hmsb, decide_true, Bool.and_true, decide_eq_true_eq, ne_eq, not_true, decide_false,
      Bool.and_false, Bool.false_eq_true, if_false, if_true]
    split
    · omega
    · rw [if_pos (by omega)]
      omega
  · have hle := hwrapped hmsb
    simp only [hmsb, decide_false, Bool.and_false, Bool.false_eq_true, if_false, ne_eq,
      not_false_eq_true, decide_true, Bool.and_true, decide_eq_true_eq]
    split
    · omega
    · rw [if_neg (by omega)]
      omega

theorem ok_write (h : Ok depth wr rd) (hcount : count depth wr rd < depth) :
    Ok depth (wr.next depth) rd ∧ count depth (wr.next depth) rd = count depth wr rd + 1 := by
  obtain ⟨hwr, hrd, hsame, hwrapped⟩ := h
  obtain ⟨wi, wm⟩ := wr
  obtain ⟨ri, rm⟩ := rd
  unfold count at hcount
  simp only at *
  by_cases hend : wi = depth - 1 <;> by_cases hmsb : wm = rm
  · have hne : (!wm) ≠ rm := by simp [hmsb]
    have hnext : Ptr.next depth ⟨wi, wm⟩ = ⟨0, !wm⟩ := if_pos hend
    have hle := hsame hmsb
    rw [hnext]
    refine ⟨⟨by simp only; omega, hrd, fun heq => absurd heq hne, fun _ => Nat.zero_le _⟩, ?_⟩
    unfold count
    simp only [if_neg hne, if_pos hmsb]
    omega
  · have hle := hwrapped hmsb
    rw [if_neg hmsb] at hcount
    omega
  · have hnext : Ptr.next depth ⟨wi, wm⟩ = ⟨wi + 1, wm⟩ := if_neg hend
    have hle := hsame hmsb
    rw [hnext]
    refine ⟨⟨by simp only; omega, hrd, fun _ => by simp only; omega, fun hne => absurd hmsb hne⟩, ?_⟩
    unfold count
    simp only [if_pos hmsb]
    omega
  · have hnext : Ptr.next depth ⟨wi, wm⟩ = ⟨wi + 1, wm⟩ := if_neg hend
    have hle := hwrapped hmsb
    rw [if_neg hmsb] at hcount
    rw [hnext]
    refine ⟨⟨by simp only; omega, hrd, fun heq => absurd heq hmsb, fun _ => by simp only; omega⟩, ?_⟩
    unfold count
    simp only [if_neg hmsb]
    omega

theorem ok_read (h : Ok depth wr rd) (hcount : 0 < count depth wr rd) :
    Ok depth wr (rd.next depth) ∧ count depth wr (rd.next depth) + 1 = count depth wr rd := by
  obtain ⟨hwr, hrd, hsame, hwrapped⟩ := h
  obtain ⟨wi, wm⟩ := wr
  obtain ⟨ri, rm⟩ := rd
  unfold count at hcount ⊢
  simp only at *
  by_cases hend : ri = depth - 1 <;> by_cases hmsb : wm = rm
  · have hle := hsame hmsb
    rw [if_pos hmsb] at hcount
    omega
  · have heq : wm = !rm := by cases wm <;> cases rm <;> simp_all
    have hnext : Ptr.next depth ⟨ri, rm⟩ = ⟨0, !rm⟩ := if_pos hend
    have hle := hwrapped hmsb
    rw [hnext]
    refine ⟨⟨hwr, by simp only; omega, fun _ => Nat.zero_le _, fun hne => absurd heq hne⟩, ?_⟩
    simp only [if_neg hmsb, if_pos heq]
    omega
  · have hnext : Ptr.next depth ⟨ri, rm⟩ = ⟨ri + 1, rm⟩ := if_neg hend
    have hle := hsame hmsb
    rw [if_pos hmsb] at hcount
    rw [hnext]
    refine ⟨⟨hwr, by simp only; omega, fun _ => by simp only; omega, fun hne => absurd hmsb hne⟩, ?_⟩
    simp only [if_pos hmsb]
    omega
  · have hnext : Ptr.next depth ⟨ri, rm⟩ = ⟨ri + 1, rm⟩ := if_neg hend
    have hle := hwrapped hmsb
    rw [hnext]
    refine ⟨⟨hwr, by simp only; omega, fun heq => absurd heq hmsb, fun _ => by simp only; omega⟩, ?_⟩
    simp only [if_neg hmsb]
    omega

/-! ## What the buffer holds -/

/-- The cell `k` places after the index. -/
def cell (depth idx k : Nat) : Nat := (idx + k) % depth

/-- The entries from the one to be read next on. -/
def contents (depth : Nat) (mem : Nat → α) (wr rd : Ptr) : List α :=
  (List.range (count depth wr rd)).map fun k => mem (cell depth rd.idx k)

@[simp] theorem contents_length : (contents depth mem wr rd).length = count depth wr rd := by
  simp [contents]

theorem contents_empty : contents depth mem rd rd = [] := by
  simp [contents, count]

theorem cell_count (h : Ok depth wr rd) : cell depth rd.idx (count depth wr rd) = wr.idx := by
  have hwr := h.wr_lt
  have hrd := h.rd_lt
  unfold cell count
  split
  case isTrue heq =>
    have hle := h.same heq
    rw [show rd.idx + (wr.idx - rd.idx) = wr.idx by omega, Nat.mod_eq_of_lt hwr]
  case isFalse hne =>
    rw [show rd.idx + (depth + wr.idx - rd.idx) = wr.idx + depth by omega, Nat.add_mod_right,
      Nat.mod_eq_of_lt hwr]

theorem cell_inj {idx j k : Nat} (hj : j < depth) (hk : k < depth)
    (h : cell depth idx j = cell depth idx k) : j = k := by
  unfold cell at h
  have hmod : j % depth = k % depth := Nat.ModEq.add_left_cancel' idx h
  rwa [Nat.mod_eq_of_lt hj, Nat.mod_eq_of_lt hk] at hmod

theorem contents_write (h : Ok depth wr rd) (hcount : count depth wr rd < depth) (mem : Nat → α)
    (a : α) :
    contents depth (Function.update mem wr.idx a) (wr.next depth) rd =
      contents depth mem wr rd ++ [a] := by
  have hnext := (ok_write h hcount).2
  unfold contents
  rw [hnext, List.range_succ, List.map_append, List.map_singleton, cell_count h,
    Function.update_self]
  congr 1
  apply List.map_congr_left
  intro k hk
  have hlt : k < count depth wr rd := List.mem_range.mp hk
  have hne : cell depth rd.idx k ≠ wr.idx := by
    rw [← cell_count h]
    intro heq
    have hkeq := cell_inj (by omega) hcount heq
    omega
  exact Function.update_of_ne hne a mem

theorem contents_read (h : Ok depth wr rd) (hcount : 0 < count depth wr rd) :
    contents depth mem wr rd = mem rd.idx :: contents depth mem wr (rd.next depth) := by
  have hnext := (ok_read h hcount).2
  have hrd := h.rd_lt
  unfold contents
  rw [← hnext, List.range_succ_eq_map, List.map_cons, List.map_map]
  have hhead : cell depth rd.idx 0 = rd.idx := by
    unfold cell
    rw [Nat.add_zero, Nat.mod_eq_of_lt hrd]
  rw [hhead]
  congr 1
  apply List.map_congr_left
  intro k _
  rw [Function.comp_apply]
  congr 1
  unfold cell Ptr.next
  split
  case isTrue hend =>
    rw [hend, show depth - 1 + (k + 1) = 0 + k + depth by omega, Nat.add_mod_right]
  case isFalse => rw [show rd.idx + (k + 1) = rd.idx + 1 + k by omega]

end Ring

end Lib
