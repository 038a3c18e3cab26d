import Mathlib.Data.Nat.Count
import Mathlib.Tactic.Common

/-!
# Round robin

`n` places stand in a circle. The search for the next one to serve starts at the
place after the last one served, which is itself looked at last.
-/

namespace Lib

/-- How many places are looked at before `k`, when `last` was served last. -/
def behind (n last k : Nat) : Nat := if last < k then k - last - 1 else k + n - last - 1

/-- `k` asks, and no place that is looked at before it does. -/
structure FirstAfter (n last : Nat) (req : Nat → Bool) (k : Nat) : Prop where
  lt : k < n
  asks : req k
  first : ∀ j < n, req j → behind n last k ≤ behind n last j

variable {n k g : Nat}

theorem behind_lt {last : Nat} (hlast : last < n) (hk : k < n) : behind n last k < n := by
  unfold behind
  split <;> omega

theorem behind_inj {last : Nat} (hlast : last < n) (hk : k < n) (hg : g < n)
    (h : behind n last k = behind n last g) : k = g := by
  unfold behind at h
  split at h <;> split at h <;> omega

theorem FirstAfter.nearer {last : Nat} {req : Nat → Bool} (h : FirstAfter n last req g)
    (hlast : last < n) (hk : k < n) (hreq : req k) (hne : g ≠ k) :
    behind n g k < behind n last k := by
  have hg := h.lt
  have hle := h.first k hk hreq
  have hdiff : behind n last g ≠ behind n last k := fun heq => hne (behind_inj hlast hg hk heq)
  unfold behind at hle hdiff ⊢
  by_cases hlk : last < k <;> by_cases hlg : last < g <;> by_cases hgk : g < k <;>
    simp only [hlk, hlg, hgk, ↓reduceIte] at hle hdiff ⊢ <;> omega

section Runs

variable {last : Nat → Nat} {turn : Nat → Bool} {req : Nat → Nat → Bool} {d : Nat}

/-- As long as `k` asks and is not served, every turn brings its own nearer. -/
theorem behind_count (hlast : ∀ v ≤ d, last v < n) (hk : k < n)
    (hturn : ∀ v < d, turn v → FirstAfter n (last v) (req v) (last (v + 1)))
    (hhold : ∀ v < d, turn v = false → last (v + 1) = last v) (hreq : ∀ v < d, req v k)
    (hnot : ∀ v < d, turn v → last (v + 1) ≠ k) :
    behind n (last d) k + Nat.count (fun v => turn v) d ≤ behind n (last 0) k := by
  induction d with
  | zero => simp
  | succ d ih =>
    have hle := ih (fun v hv => hlast v (by omega)) (fun v hv => hturn v (by omega))
      (fun v hv => hhold v (by omega)) (fun v hv => hreq v (by omega))
      (fun v hv => hnot v (by omega))
    rw [Nat.count_succ]
    by_cases ht : turn d
    · have hnear := (hturn d (by omega) ht).nearer (hlast d (by omega)) hk (hreq d (by omega))
        (hnot d (by omega) ht)
      rw [if_pos ht]
      omega
    · rw [if_neg ht, hhold d (by omega) (by simpa using ht)]
      omega

/-- Whoever keeps asking is served within `n` turns. -/
theorem served_within (last : Nat → Nat) (turn : Nat → Bool) (req : Nat → Nat → Bool)
    (hlast : ∀ v ≤ d, last v < n) (hk : k < n)
    (hturn : ∀ v < d, turn v → FirstAfter n (last v) (req v) (last (v + 1)))
    (hhold : ∀ v < d, turn v = false → last (v + 1) = last v) (hreq : ∀ v < d, req v k)
    (hcount : n ≤ Nat.count (fun v => turn v) d) : ∃ v < d, turn v ∧ last (v + 1) = k := by
  by_contra hnone
  have hle := behind_count hlast hk hturn hhold hreq
    (fun v hv ht heq => hnone ⟨v, hv, ht, heq⟩)
  have hlt := behind_lt (hlast 0 (by omega)) hk
  omega

end Runs

end Lib
