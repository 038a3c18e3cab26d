import Mathlib.Data.List.Basic

/-!
# A list in pieces of one size

The last piece may be shorter.
-/

namespace Lib

variable {α : Type}

def chunks (n : Nat) (data : List α) : List (List α) :=
  (List.range ((data.length + n - 1) / n)).map fun k => (data.drop (k * n)).take n

section Chunks

variable {n : Nat} {data : List α}

@[simp] theorem chunks_length (n : Nat) (data : List α) :
    (chunks n data).length = (data.length + n - 1) / n := by
  simp [chunks]

@[simp] theorem chunks_nil (hn : 0 < n) : chunks n ([] : List α) = [] := by
  have hnone : (0 + n - 1) / n = 0 := Nat.div_eq_of_lt (by omega)
  unfold chunks
  rw [List.length_nil, hnone]
  rfl

theorem chunks_cons (hn : 0 < n) (h : data ≠ []) :
    chunks n data = data.take n :: chunks n (data.drop n) := by
  have hpos := List.length_pos_iff.mpr h
  have hcount : (data.length + n - 1) / n = (data.length - n + n - 1) / n + 1 := by
    rw [← Nat.add_div_right _ hn]
    rcases Nat.lt_or_ge data.length n with hlt | hge
    · rw [Nat.div_eq_of_lt_le (k := 1) (by omega) (by omega),
        Nat.div_eq_of_lt_le (k := 1) (by omega) (by omega)]
    · congr 1
      omega
  unfold chunks
  rw [hcount, List.range_succ_eq_map, List.map_cons, List.map_map, List.length_drop, Nat.zero_mul,
    List.drop_zero]
  congr 1
  apply List.map_congr_left
  intro k _
  rw [Function.comp_apply, List.drop_drop, Nat.succ_mul, Nat.add_comm n]

/-- What holds of the pieces goes along the list, piece by piece. -/
theorem chunks_rec (hn : 0 < n) {P : List α → List (List α) → Prop} (nil : P [] [])
    (cons : ∀ data, data ≠ [] → P (data.drop n) (chunks n (data.drop n)) →
      P data (data.take n :: chunks n (data.drop n))) (data : List α) : P data (chunks n data) := by
  induction hlength : data.length using Nat.strongRecOn generalizing data with
  | _ length ih =>
    rcases Decidable.em (data = []) with rfl | h
    · rw [chunks_nil hn]
      exact nil
    · have hpos := List.length_pos_iff.mpr h
      rw [chunks_cons hn h]
      exact cons data h (ih _ (by rw [List.length_drop]; omega) _ rfl)

theorem chunks_flatten (hn : 0 < n) (data : List α) : (chunks n data).flatten = data := by
  refine chunks_rec hn (P := fun data pieces => pieces.flatten = data) rfl ?_ data
  intro data _ ih
  rw [List.flatten_cons, ih, List.take_append_drop]

theorem length_of_mem_whole (hn : 0 < n) (hdvd : n ∣ data.length) {c : List α}
    (hc : c ∈ chunks n data) : c.length = n := by
  obtain ⟨k, hk, rfl⟩ := List.mem_map.mp hc
  obtain ⟨q, hq⟩ := hdvd
  have hcount : (data.length + n - 1) / n = q := by
    rw [hq, Nat.add_sub_assoc hn, Nat.mul_add_div hn, Nat.div_eq_of_lt (by omega), Nat.add_zero]
  rw [List.mem_range, hcount] at hk
  have hroom : (k + 1) * n ≤ data.length := by
    rw [hq, Nat.mul_comm n]
    exact Nat.mul_le_mul_right n hk
  rw [Nat.succ_mul] at hroom
  rw [List.length_take, List.length_drop]
  omega

end Chunks

end Lib
