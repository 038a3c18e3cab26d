import AwsFpga.Lib.Circuit

/-!
# Pipes that may lose

What comes out of such a pipe came in, in the same order, and what is missing is counted.
-/

namespace Lib.Circuit

variable {ι σ α β : Type} {c : Circuit ι σ} {ins : Nat → ι} {P : σ → Prop} {m : ι → σ → Prop}

theorem passed_sublist (hold : σ → List α) {inp out : ι → σ → List α}
    (hinv : ∀ n, P (c.state ins n)) (hmay : ∀ n, m (ins n) (c.state ins n))
    (hreset : hold c.reset = [])
    (hstep : ∀ i s, m i s → P s →
      (out i s ++ hold (c.step i s)).Sublist (hold s ++ inp i s)) (n : Nat) :
    (c.passed ins out n ++ hold (c.state ins n)).Sublist (c.passed ins inp n) := by
  induction n with
  | zero => simp [hreset]
  | succ n ih =>
    have hnext := hstep _ _ (hmay n) (hinv n)
    rw [passed_succ, passed_succ, state_succ, List.append_assoc]
    refine ((List.Sublist.refl _).append hnext).trans ?_
    rw [← List.append_assoc]
    exact ih.append (List.Sublist.refl _)

/-- What came in is held, came out or was lost. -/
theorem passed_lost_length (hold : σ → List β) {inp : ι → σ → List α} {out lost : ι → σ → List β}
    (hinv : ∀ n, P (c.state ins n)) (hmay : ∀ n, m (ins n) (c.state ins n))
    (hreset : hold c.reset = [])
    (hstep : ∀ i s, m i s → P s → (hold s).length + (inp i s).length =
      (out i s).length + (lost i s).length + (hold (c.step i s)).length) (n : Nat) :
    (c.passed ins inp n).length = (c.passed ins out n).length +
      (c.passed ins lost n).length + (hold (c.state ins n)).length := by
  induction n with
  | zero => simp [hreset]
  | succ n ih =>
    have hnext := hstep _ _ (hmay n) (hinv n)
    rw [passed_succ, passed_succ, passed_succ, state_succ, List.length_append, List.length_append,
      List.length_append]
    omega

end Lib.Circuit
