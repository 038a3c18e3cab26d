import Mathlib.Order.Basic

/-!
# What must happen

A property of a run's cycles leads to another when each cycle that has the first
is followed, at once or later, by one that has the second.
-/

namespace Lib

def LeadsTo (P Q : Nat → Prop) : Prop := ∀ n, P n → ∃ m, n ≤ m ∧ Q m

namespace LeadsTo

variable {P Q R G : Nat → Prop}

theorem of_imp (h : ∀ n, P n → Q n) : LeadsTo P Q := fun n hp => ⟨n, Nat.le_refl n, h n hp⟩

theorem next (h : ∀ n, P n → Q (n + 1)) : LeadsTo P Q :=
  fun n hp => ⟨n + 1, Nat.le_succ n, h n hp⟩

theorem trans (h : LeadsTo P Q) (h' : LeadsTo Q R) : LeadsTo P R := by
  intro n hp
  obtain ⟨m, hm, hq⟩ := h n hp
  obtain ⟨k, hk, hr⟩ := h' m hq
  exact ⟨k, Nat.le_trans hm hk, hr⟩

theorem or (h : LeadsTo P R) (h' : LeadsTo Q R) : LeadsTo (fun n => P n ∨ Q n) R := by
  rintro n (hp | hq)
  · exact h n hp
  · exact h' n hq

/-- What stays until something comes is still there when it comes. -/
theorem wait (hstay : ∀ n, P n → ¬ G n → P (n + 1)) (hgo : LeadsTo P G) :
    LeadsTo P (fun n => P n ∧ G n) := by
  intro n hp
  obtain ⟨m, hm, hcome⟩ := hgo n hp
  obtain ⟨d, rfl⟩ := Nat.exists_eq_add_of_le hm
  clear hm
  induction d generalizing n with
  | zero => exact ⟨n, Nat.le_refl n, hp, hcome⟩
  | succ d ih =>
    by_cases hnow : G n
    · exact ⟨n, Nat.le_refl n, hp, hnow⟩
    · have heq : n + (d + 1) = n + 1 + d := by omega
      obtain ⟨m, hm, h⟩ := ih (n + 1) (hstay n hp hnow) (heq ▸ hcome)
      exact ⟨m, Nat.le_of_succ_le hm, h⟩

/-- A measure that falls again and again comes to an end. -/
theorem rank (f : Nat → Nat)
    (h : ∀ k, LeadsTo (fun n => P n ∧ f n = k) (fun n => Q n ∨ (P n ∧ f n < k))) : LeadsTo P Q := by
  intro n hp
  induction hk : f n using Nat.strongRecOn generalizing n with
  | ind k ih =>
    obtain ⟨m, hm, hq | ⟨hp', hlt⟩⟩ := h k n ⟨hp, hk⟩
    · exact ⟨m, hm, hq⟩
    · obtain ⟨m', hm', hq⟩ := ih (f m) hlt m hp' rfl
      exact ⟨m', Nat.le_trans hm hm', hq⟩

/-- A number that grows again and again gets as far as it is to get. -/
theorem grows {f : Nat → Nat} {s k : Nat} (h : ∀ n, s ≤ n → f n < k → ∃ m, n ≤ m ∧ f n < f m) :
    ∃ m, s ≤ m ∧ k ≤ f m := by
  have hreach : LeadsTo (s ≤ ·) (fun n => s ≤ n ∧ k ≤ f n) := by
    refine rank (fun n => k - f n) fun j n hn => ?_
    obtain ⟨hs, rfl⟩ := hn
    rcases Nat.lt_or_ge (f n) k with hlt | hge
    · obtain ⟨m, hm, hmore⟩ := h n hs hlt
      refine ⟨m, hm, .inr ⟨Nat.le_trans hs hm, ?_⟩⟩
      omega
    · exact ⟨n, Nat.le_refl n, .inl ⟨hs, hge⟩⟩
  obtain ⟨m, hm, -, hk⟩ := hreach s (Nat.le_refl s)
  exact ⟨m, hm, hk⟩

end LeadsTo

end Lib
