import AwsFpga.Lib.Exec

/-!
# Functions that report the failures of their calls

Each answer carries a return code. A function reports its calls when it returns 0
exactly if all of them did.
-/

namespace Lib

variable {I : Iface} {σ α β : Type} {code : (o : I.Op) → I.Ans o → Int}

/-- In every run of `m`, the code in the result is 0 exactly if that of each call is. -/
def Reports (code : (o : I.Op) → I.Ans o → Int) (m : SProg I σ α) (ret : α → Int) : Prop :=
  ∀ s t a s', Exec m s t a s' → (ret a = 0 ↔ ∀ e ∈ t, code e.1 e.2 = 0)

theorem reports_pure {a : α} {ret : α → Int} (h : ret a = 0) :
    Reports code (pure a : SProg I σ α) ret := by
  intro s t b s' hrun
  obtain ⟨rfl, rfl, rfl⟩ := (exec_pure _ _ _ _ _).mp hrun
  simp [h]

theorem reports_op (o : I.Op) :
    Reports code (liftProg (Prog.op o) : SProg I σ (I.Ans o)) (code o) := by
  intro s t r s' hrun
  obtain ⟨rfl, rfl⟩ := (exec_op _ _ _ _ _).mp hrun
  simp

theorem reports_get_bind {f : σ → SProg I σ β} {ret : β → Int} (h : ∀ s, Reports code (f s) ret) :
    Reports code (get >>= f) ret :=
  fun s t b s' hrun => h s s t b s' ((exec_get_bind _ _ _ _ _).mp hrun)

theorem reports_modify_bind {g : σ → σ} {f : Unit → SProg I σ β} {ret : β → Int}
    (h : Reports code (f ()) ret) : Reports code (modify g >>= f) ret :=
  fun s t b s' hrun => h (g s) t b s' ((exec_modify_bind _ _ _ _ _ _).mp hrun)

theorem reports_bind {m : SProg I σ α} {c : α → Int} {f : α → SProg I σ β} {ret : β → Int}
    (hm : Reports code m c) (hstop : ∀ a, c a ≠ 0 → ∃ b, f a = pure b ∧ ret b ≠ 0)
    (hrest : ∀ a, c a = 0 → Reports code (f a) ret) : Reports code (m >>= f) ret := by
  intro s t b s' hrun
  obtain ⟨t₁, a, s₁, t₂, rfl, hfirst, hsecond⟩ := (exec_bind _ _ _ _ _ _).mp hrun
  have hcalls := hm _ _ _ _ hfirst
  by_cases hc : c a = 0
  · have ht₁ := hcalls.mp hc
    rw [hrest a hc _ _ _ _ hsecond]
    constructor
    · intro ht₂ e he
      exact (List.mem_append.mp he).elim (ht₁ e) (ht₂ e)
    · intro ht e he
      exact ht e (List.mem_append_right _ he)
  · obtain ⟨b', hpure, hb'⟩ := hstop a hc
    rw [hpure] at hsecond
    obtain ⟨rfl, rfl, rfl⟩ := (exec_pure _ _ _ _ _).mp hsecond
    rw [List.append_nil, ← hcalls]
    exact iff_of_false hb' hc

end Lib
