import AwsFpga.Lib.Prog

/-!
# Contracts between a program and its callees

`Meets A P Q p`: as long as every answer satisfies `A`, every call that `p` makes
satisfies `P` and its result satisfies `Q`. A caller uses the contract only.
-/

namespace Lib.Prog

variable {I : Iface} {α β σ : Type} {A : (o : I.Op) → I.Ans o → Prop} {P P' : I.Op → Prop}
  {Q Q' : α → Prop} {R : β → Prop} {p : Prog I α} {f : α → Prog I β}

def Meets (A : (o : I.Op) → I.Ans o → Prop) (P : I.Op → Prop) (Q : α → Prop) : Prog I α → Prop
  | .pure a => Q a
  | .call o k => P o ∧ ∀ r, A o r → (k r).Meets A P Q

theorem meets_pure {a : α} (h : Q a) : (Pure.pure a : Prog I α).Meets A P Q := h

theorem meets_op_bind {o : I.Op} {f : I.Ans o → Prog I β} (ho : P o)
    (hf : ∀ r, A o r → (f r).Meets A P R) : (op o >>= f).Meets A P R :=
  ⟨ho, hf⟩

theorem meets_bind (hp : p.Meets A P Q) (hf : ∀ a, Q a → (f a).Meets A P R) :
    (p >>= f).Meets A P R := by
  induction p with
  | pure a => exact hf a hp
  | call o k ih => exact ⟨hp.1, fun r hr => ih r (hp.2 r hr)⟩

theorem meets_mono (hp : p.Meets A P Q) (hP : ∀ o, P o → P' o) (hQ : ∀ a, Q a → Q' a) :
    p.Meets A P' Q' := by
  induction p with
  | pure a => exact hQ a hp
  | call o k ih => exact ⟨hP o hp.1, fun r hr => ih r (hp.2 r hr)⟩

theorem meets_ite {c : Prop} [Decidable c] {q : Prog I α} (hp : c → p.Meets A P Q)
    (hq : ¬ c → q.Meets A P Q) : (if c then p else q).Meets A P Q := by
  split
  case isTrue h => exact hp h
  case isFalse h => exact hq h

theorem meets_failOn {p : Prog I (Int × σ)} {k : σ → Prog I (Int × σ)} {R : Int × σ → Prop}
    (hp : p.Meets A P fun r => (r.1 ≠ 0 → R r) ∧ (r.1 = 0 → (k r.2).Meets A P R)) :
    (failOn p k).Meets A P R := by
  refine meets_bind hp ?_
  rintro ⟨rc, s⟩ ⟨hfail, hgo⟩
  dsimp only
  split
  case isTrue hrc => exact hfail hrc
  case isFalse hrc => exact hgo (not_not.mp hrc)

theorem runs_meets (h : p.Meets A P Q) {t : List I.Event} {a : α} (hrun : p.Runs t a)
    (ht : ∀ e ∈ t, A e.1 e.2) : (∀ e ∈ t, P e.1) ∧ Q a := by
  induction p generalizing t with
  | pure b =>
    obtain ⟨rfl, rfl⟩ := hrun
    exact ⟨by simp, h⟩
  | call o k ih =>
    obtain ⟨r, t', rfl, hrun⟩ := hrun
    obtain ⟨hr, ht'⟩ := List.forall_mem_cons.mp ht
    obtain ⟨hP, hQ⟩ := ih r (h.2 r hr) hrun ht'
    exact ⟨List.forall_mem_cons.mpr ⟨h.1, hP⟩, hQ⟩

end Lib.Prog
