import Mathlib.Data.List.Basic
import Mathlib.Data.Nat.Basic

/-!
# The lanes of a bus

A bus is cut into lanes of the same width. What shifts by whole lanes or selects
lanes is described lane by lane.
-/

namespace Lib

section Lane

variable {c w : Nat}

/-- Lane `k` of a bus. Beyond the bus there are zeros. -/
def lane (c : Nat) (x : BitVec w) (k : Nat) : BitVec c := x.extractLsb' (c * k) c

/-- A bus of `n` lanes. -/
def of_lanes (n : Nat) (f : Nat → BitVec c) : BitVec (c * n) :=
  (List.range n).foldl (fun x k => x ||| (f k).setWidth (c * n) <<< (c * k)) 0

theorem getLsbD_lane (x : BitVec w) (k : Nat) {i : Nat} (hi : i < c) :
    (lane c x k).getLsbD i = x.getLsbD (c * k + i) := by
  simp [lane, hi]

theorem getLsbD_lanes_fold (n m : Nat) (f : Nat → BitVec c) {k i : Nat} (hi : i < c) (hk : k < n) :
    ((List.range m).foldl (fun x k => x ||| (f k).setWidth (c * n) <<< (c * k))
      (0 : BitVec (c * n))).getLsbD (c * k + i) = (decide (k < m) && (f k).getLsbD i) := by
  have hbus : c * k + i < c * n := by
    have hle : c * (k + 1) ≤ c * n := Nat.mul_le_mul_left c hk
    rw [Nat.mul_succ] at hle
    omega
  induction m with
  | zero => simp
  | succ m ih =>
    rw [List.range_succ, List.foldl_append]
    simp only [List.foldl_cons, List.foldl_nil, BitVec.getLsbD_or, ih, BitVec.getLsbD_shiftLeft,
      BitVec.getLsbD_setWidth, hbus, decide_true, Bool.true_and]
    rcases Nat.lt_trichotomy k m with hlt | rfl | hgt
    · -- The lane that comes in lies above.
      have hle : c * (k + 1) ≤ c * m := Nat.mul_le_mul_left c hlt
      rw [Nat.mul_succ] at hle
      have hbelow : c * k + i < c * m := by omega
      have hlt' : k < m + 1 := by omega
      simp [hbelow, hlt, hlt']
    · have hpos : i < c * n := by omega
      simp [hpos]
    · have hle : c * (m + 1) ≤ c * k := Nat.mul_le_mul_left c hgt
      rw [Nat.mul_succ] at hle
      have hout : (f m).getLsbD (c * k + i - c * m) = false := BitVec.getLsbD_of_ge _ _ (by omega)
      have hno : ¬k < m := by omega
      have hno' : ¬k < m + 1 := by omega
      simp [hout, hno, hno']

theorem lane_of_lanes {n k : Nat} (f : Nat → BitVec c) (hk : k < n) :
    lane c (of_lanes n f) k = f k := by
  apply BitVec.eq_of_getLsbD_eq
  intro i hi
  rw [getLsbD_lane _ _ hi, of_lanes, getLsbD_lanes_fold n n f hi hk, decide_eq_true hk, Bool.true_and]

theorem of_lanes_congr {n : Nat} {f g : Nat → BitVec c} (h : ∀ k, k < n → f k = g k) :
    of_lanes n f = of_lanes n g := by
  unfold of_lanes
  refine List.foldl_ext _ _ _ fun x k hk => ?_
  rw [h k (List.mem_range.mp hk)]

theorem eq_of_lane_eq {x y : BitVec w} (hc : 0 < c) {n : Nat} (hw : w ≤ c * n)
    (h : ∀ k, k < n → lane c x k = lane c y k) : x = y := by
  apply BitVec.eq_of_getLsbD_eq
  intro i hi
  have hmod : i % c < c := Nat.mod_lt i hc
  have hlane := h (i / c) (Nat.div_lt_of_lt_mul (Nat.lt_of_lt_of_le hi hw))
  have hbit := congrArg (BitVec.getLsbD · (i % c)) hlane
  rwa [getLsbD_lane x _ hmod, getLsbD_lane y _ hmod, Nat.div_add_mod] at hbit

theorem lane_shift_right (x : BitVec w) (j k : Nat) :
    lane c (x >>> (c * j)) k = lane c x (j + k) := by
  apply BitVec.eq_of_getLsbD_eq
  intro i hi
  rw [getLsbD_lane _ _ hi, getLsbD_lane _ _ hi, BitVec.getLsbD_ushiftRight, Nat.mul_add, Nat.add_assoc]

theorem lane_shift_left (x : BitVec w) (j : Nat) {k : Nat} (hk : c * k + c ≤ w) :
    lane c (x <<< (c * j)) k = if j ≤ k then lane c x (k - j) else 0 := by
  apply BitVec.eq_of_getLsbD_eq
  intro i hi
  have hin : c * k + i < w := by omega
  rw [getLsbD_lane _ _ hi, BitVec.getLsbD_shiftLeft, decide_eq_true hin, Bool.true_and]
  split
  case isTrue hle =>
    obtain ⟨d, rfl⟩ := Nat.exists_eq_add_of_le hle
    have habove : ¬ c * (j + d) + i < c * j := by
      rw [Nat.mul_add]
      omega
    have hsub : c * (j + d) + i - c * j = c * d + i := by
      rw [Nat.mul_add]
      omega
    rw [decide_eq_false habove, Bool.not_false, Bool.true_and, Nat.add_sub_cancel_left,
      getLsbD_lane _ _ hi, hsub]
  case isFalse hlt =>
    have hle : c * (k + 1) ≤ c * j := Nat.mul_le_mul_left c (by omega)
    rw [Nat.mul_succ] at hle
    have hbelow : c * k + i < c * j := by omega
    rw [decide_eq_true hbelow, Bool.not_true, Bool.false_and]
    exact (BitVec.getLsbD_zero).symm

theorem lane_and (x y : BitVec w) (k : Nat) : lane c (x &&& y) k = lane c x k &&& lane c y k := by
  apply BitVec.eq_of_getLsbD_eq
  intro i hi
  rw [BitVec.getLsbD_and, getLsbD_lane _ _ hi, getLsbD_lane _ _ hi, getLsbD_lane _ _ hi,
    BitVec.getLsbD_and]

theorem lane_not (x : BitVec w) {k : Nat} (hk : c * k + c ≤ w) : lane c (~~~x) k = ~~~lane c x k := by
  apply BitVec.eq_of_getLsbD_eq
  intro i hi
  have hin : c * k + i < w := by omega
  rw [BitVec.getLsbD_not, getLsbD_lane _ _ hi, getLsbD_lane _ _ hi, BitVec.getLsbD_not,
    decide_eq_true hin, decide_eq_true hi]

theorem lane_allOnes {k : Nat} (hk : c * k + c ≤ w) :
    lane c (BitVec.allOnes w) k = BitVec.allOnes c := by
  apply BitVec.eq_of_getLsbD_eq
  intro i hi
  have hin : c * k + i < w := by omega
  rw [getLsbD_lane _ _ hi, BitVec.getLsbD_allOnes, BitVec.getLsbD_allOnes, decide_eq_true hin,
    decide_eq_true hi]

theorem lane_widen {w' : Nat} (x : BitVec w) (hw : w ≤ w') (k : Nat) :
    lane c (x.setWidth w') k = lane c x k := by
  apply BitVec.eq_of_getLsbD_eq
  intro i hi
  rw [getLsbD_lane _ _ hi, getLsbD_lane _ _ hi, BitVec.getLsbD_setWidth]
  by_cases hin : c * k + i < w'
  · rw [decide_eq_true hin, Bool.true_and]
  · rw [decide_eq_false hin, Bool.false_and, BitVec.getLsbD_of_ge _ _ (by omega)]

theorem lane_extract (x : BitVec w) (j : Nat) {n k : Nat} (hk : k < n) :
    lane c (x.extractLsb' (c * j) (c * n)) k = lane c x (j + k) := by
  have hle : c * (k + 1) ≤ c * n := Nat.mul_le_mul_left c hk
  rw [Nat.mul_succ] at hle
  apply BitVec.eq_of_getLsbD_eq
  intro i hi
  have hbus : c * k + i < c * n := by omega
  rw [getLsbD_lane _ _ hi, getLsbD_lane _ _ hi, BitVec.getLsbD_extractLsb', decide_eq_true hbus,
    Bool.true_and, Nat.mul_add, Nat.add_assoc]

/-- The first lanes of a bus. -/
def lanes (c : Nat) (x : BitVec w) (n : Nat) : List (BitVec c) := (List.range n).map (lane c x)

@[simp] theorem lanes_length (x : BitVec w) (n : Nat) : (lanes c x n).length = n := by
  simp [lanes]

theorem lanes_congr {w' n : Nat} {x : BitVec w} {y : BitVec w'}
    (h : ∀ k < n, lane c x k = lane c y k) : lanes c x n = lanes c y n :=
  List.map_congr_left fun k hk => h k (List.mem_range.mp hk)

theorem lanes_take (x : BitVec w) (m n : Nat) : (lanes c x n).take m = lanes c x (min m n) := by
  rw [lanes, ← List.map_take, List.take_range]
  rfl

theorem lanes_drop (x : BitVec w) (j n : Nat) :
    (lanes c x n).drop j = lanes c (x >>> (c * j)) (n - j) := by
  apply List.ext_getElem
  · simp
  · intro k hk hk'
    simp [lanes, lane_shift_right]

theorem lanes_append {w' w'' : Nat} {x : BitVec w} {y : BitVec w'} {z : BitVec w''} {m n : Nat}
    (hx : ∀ k < m, lane c z k = lane c x k) (hy : ∀ k < n, lane c z (m + k) = lane c y k) :
    lanes c x m ++ lanes c y n = lanes c z (m + n) := by
  rw [lanes, lanes, lanes, List.range_add, List.map_append, List.map_map]
  congr 1
  · exact List.map_congr_left fun k hk => (hx k (List.mem_range.mp hk)).symm
  · exact List.map_congr_left fun k hk => (hy k (List.mem_range.mp hk)).symm

end Lane

end Lib
