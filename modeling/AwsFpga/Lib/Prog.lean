import Mathlib.Logic.Basic
import Mathlib.Data.List.Basic

/-!
# Programs that call an interface

A `Prog` is a program as its callees see it: a tree of calls, with a branch for
every answer. Nothing is assumed about the answers, so a theorem about all runs
holds whatever the lower layer does.
-/

namespace Lib

/-- The calls a layer offers, and the type each is answered with. -/
structure Iface where
  Op : Type
  Ans : Op → Type

abbrev Iface.Event (I : Iface) : Type := (o : I.Op) × I.Ans o

inductive Prog (I : Iface) (α : Type) : Type where
  | pure (a : α) : Prog I α
  | call (o : I.Op) (k : I.Ans o → Prog I α) : Prog I α

namespace Prog

variable {I J : Iface} {α β σ : Type}

def bind : Prog I α → (α → Prog I β) → Prog I β
  | .pure a, f => f a
  | .call o k, f => .call o fun r => (k r).bind f

instance : Monad (Prog I) where
  pure := Prog.pure
  bind := Prog.bind

/-- One call, answered once. -/
def op (o : I.Op) : Prog I (I.Ans o) := .call o .pure

@[simp] theorem pure_bind' (a : α) (f : α → Prog I β) : (Pure.pure a : Prog I α) >>= f = f a := rfl

@[simp] theorem call_bind (o : I.Op) (k : I.Ans o → Prog I α) (f : α → Prog I β) :
    (Prog.call o k) >>= f = .call o fun r => k r >>= f := rfl

theorem bind_pure' (p : Prog I α) : p >>= Pure.pure = p := by
  induction p with
  | pure a => rfl
  | call o k ih =>
    rw [call_bind]
    congr 1
    funext r
    exact ih r

theorem bind_assoc' {γ : Type} (p : Prog I α) (f : α → Prog I β) (g : β → Prog I γ) :
    p >>= f >>= g = p >>= fun a => f a >>= g := by
  induction p with
  | pure a => rfl
  | call o k ih =>
    simp only [call_bind]
    congr 1
    funext r
    exact ih r

instance : LawfulMonad (Prog I) :=
  LawfulMonad.mk' (Prog I) bind_pure' (fun _ _ => rfl) bind_assoc'

/-! ## Runs -/

/-- `Runs p t a`: some answers make `p` call exactly `t` and return `a`. -/
def Runs : Prog I α → List I.Event → α → Prop
  | .pure a, t, b => t = [] ∧ b = a
  | .call o k, t, b => ∃ r t', t = ⟨o, r⟩ :: t' ∧ (k r).Runs t' b

@[simp] theorem runs_pure (a b : α) (t : List I.Event) :
    (Pure.pure a : Prog I α).Runs t b ↔ t = [] ∧ b = a := Iff.rfl

@[simp] theorem runs_call (o : I.Op) (k : I.Ans o → Prog I α) (t : List I.Event) (b : α) :
    (Prog.call o k).Runs t b ↔ ∃ r t', t = ⟨o, r⟩ :: t' ∧ (k r).Runs t' b := Iff.rfl

@[simp] theorem runs_op (o : I.Op) (t : List I.Event) (r : I.Ans o) :
    (op o).Runs t r ↔ t = [⟨o, r⟩] := by
  constructor
  · rintro ⟨r', t', rfl, rfl, rfl⟩
    rfl
  · rintro rfl
    exact ⟨r, [], rfl, rfl, rfl⟩

theorem runs_bind (p : Prog I α) (f : α → Prog I β) (t : List I.Event) (b : β) :
    (p >>= f).Runs t b ↔ ∃ t₁ a t₂, t = t₁ ++ t₂ ∧ p.Runs t₁ a ∧ (f a).Runs t₂ b := by
  induction p generalizing t with
  | pure a =>
    constructor
    · intro h
      exact ⟨[], a, t, rfl, ⟨rfl, rfl⟩, h⟩
    · rintro ⟨t₁, a', t₂, rfl, ⟨rfl, rfl⟩, h⟩
      exact h
  | call o k ih =>
    rw [call_bind, runs_call]
    constructor
    · rintro ⟨r, t', rfl, h⟩
      obtain ⟨t₁, a, t₂, rfl, h₁, h₂⟩ := (ih r t').mp h
      exact ⟨⟨o, r⟩ :: t₁, a, t₂, rfl, ⟨r, t₁, rfl, h₁⟩, h₂⟩
    · rintro ⟨-, a, t₂, rfl, ⟨r, t₁, rfl, h₁⟩, h₂⟩
      exact ⟨r, t₁ ++ t₂, rfl, (ih r _).mpr ⟨t₁, a, t₂, rfl, h₁, h₂⟩⟩

@[simp] theorem runs_op_bind (o : I.Op) (f : I.Ans o → Prog I β) (t : List I.Event) (b : β) :
    (op o >>= f).Runs t b ↔ ∃ r t', t = ⟨o, r⟩ :: t' ∧ (f r).Runs t' b := Iff.rfl

/-! ## Which calls a program makes -/

/-- Every call the program can make satisfies `P`. -/
def AllCalls (P : I.Op → Prop) : Prog I α → Prop
  | .pure _ => True
  | .call o k => P o ∧ ∀ r, (k r).AllCalls P

theorem allCalls_bind {P : I.Op → Prop} {p : Prog I α} {f : α → Prog I β} (hp : p.AllCalls P)
    (hf : ∀ a, (f a).AllCalls P) : (p >>= f).AllCalls P := by
  induction p with
  | pure a => exact hf a
  | call o k ih => exact ⟨hp.1, fun r => ih r (hp.2 r)⟩

theorem allCalls_mono {P Q : I.Op → Prop} (h : ∀ o, P o → Q o) {p : Prog I α}
    (hp : p.AllCalls P) : p.AllCalls Q := by
  induction p with
  | pure a => trivial
  | call o k ih => exact ⟨h o hp.1, fun r => ih r (hp.2 r)⟩

theorem allCalls_of_forall {P : I.Op → Prop} (h : ∀ o, P o) (p : Prog I α) : p.AllCalls P := by
  induction p with
  | pure a => trivial
  | call o k ih => exact ⟨h o, ih⟩

theorem allCalls_ite {P : I.Op → Prop} {c : Prop} [Decidable c] {p q : Prog I α}
    (hp : p.AllCalls P) (hq : q.AllCalls P) : (if c then p else q).AllCalls P := by
  split
  · exact hp
  · exact hq

theorem runs_allCalls {P : I.Op → Prop} {p : Prog I α} (hp : p.AllCalls P) {t : List I.Event}
    {a : α} (h : p.Runs t a) : ∀ e ∈ t, P e.1 := by
  induction p generalizing t with
  | pure b =>
    obtain ⟨rfl, -⟩ := h
    simp
  | call o k ih =>
    obtain ⟨r, t', rfl, h⟩ := h
    intro e he
    rcases List.mem_cons.mp he with rfl | he
    · exact hp.1
    · exact ih r (hp.2 r) h e he

/-- A program goes on as long as its calls can be answered, here as `A` says. -/
theorem exists_run {P : I.Op → Prop} {A : (o : I.Op) → I.Ans o → Prop} {p : Prog I α}
    (hp : p.AllCalls P) (h : ∀ o, P o → ∃ r, A o r) : ∃ t a, p.Runs t a ∧ ∀ e ∈ t, A e.1 e.2 := by
  induction p with
  | pure a => exact ⟨[], a, ⟨rfl, rfl⟩, by simp⟩
  | call o k ih =>
    obtain ⟨r, hr⟩ := h o hp.1
    obtain ⟨t, a, hrun, hall⟩ := ih r (hp.2 r)
    exact ⟨⟨o, r⟩ :: t, a, ⟨r, t, rfl, hrun⟩, List.forall_mem_cons.mpr ⟨hr, hall⟩⟩

/-! ## Postconditions -/

/-- Whatever the calls answer, the result satisfies `P`. -/
def Ensures (P : α → Prop) : Prog I α → Prop
  | .pure a => P a
  | .call _ k => ∀ r, (k r).Ensures P

theorem ensures_iff_runs {P : α → Prop} {p : Prog I α} :
    p.Ensures P ↔ ∀ t a, p.Runs t a → P a := by
  induction p with
  | pure a =>
    constructor
    · rintro h t b ⟨-, rfl⟩
      exact h
    · intro h
      exact h [] a ⟨rfl, rfl⟩
  | call o k ih =>
    constructor
    · rintro h t a ⟨r, t', -, hrun⟩
      exact (ih r).mp (h r) t' a hrun
    · intro h r
      exact (ih r).mpr fun t a hrun => h _ a ⟨r, t, rfl, hrun⟩

theorem ensures_pure {P : α → Prop} {a : α} (h : P a) : (Pure.pure a : Prog I α).Ensures P := h

theorem ensures_true (p : Prog I α) : p.Ensures fun _ => True := by
  induction p with
  | pure a => trivial
  | call o k ih => exact ih

theorem ensures_bind {P : α → Prop} {Q : β → Prop} {p : Prog I α} {f : α → Prog I β}
    (hp : p.Ensures P) (hf : ∀ a, P a → (f a).Ensures Q) : (p >>= f).Ensures Q := by
  induction p with
  | pure a => exact hf a hp
  | call o k ih => exact fun r => ih r (hp r)

/-! ## Return codes -/

/-- Go on with `k` when `p` returned 0, and stop with its code otherwise. -/
def failOn (p : Prog I (Int × σ)) (k : σ → Prog I (Int × σ)) : Prog I (Int × σ) := do
  let (rc, s) ← p
  if rc ≠ 0 then
    return (rc, s)
  else
    k s

/-- A sequence stopped at its first part, or it went on. -/
theorem runs_failOn {p : Prog I (Int × σ)} {k : σ → Prog I (Int × σ)} {t : List I.Event}
    {r : Int × σ} (h : (failOn p k).Runs t r) :
    (r.1 ≠ 0 ∧ p.Runs t r) ∨
      ∃ t₁ s t₂, t = t₁ ++ t₂ ∧ p.Runs t₁ (0, s) ∧ (k s).Runs t₂ r := by
  unfold failOn at h
  obtain ⟨t₁, ⟨rc, s⟩, t₂, rfl, hp, hk⟩ := (runs_bind _ _ _ _).mp h
  dsimp only at hk
  split at hk
  case isTrue hrc =>
    obtain ⟨rfl, rfl⟩ := hk
    rw [List.append_nil]
    exact .inl ⟨hrc, hp⟩
  case isFalse hrc =>
    obtain rfl : rc = 0 := not_not.mp hrc
    exact .inr ⟨t₁, s, t₂, rfl, hp, hk⟩

theorem runs_failOn_zero (p : Prog I (Int × σ)) (k : σ → Prog I (Int × σ)) (t : List I.Event)
    (s' : σ) :
    (failOn p k).Runs t (0, s') ↔
      ∃ t₁ s t₂, t = t₁ ++ t₂ ∧ p.Runs t₁ (0, s) ∧ (k s).Runs t₂ (0, s') := by
  unfold failOn
  rw [runs_bind]
  constructor
  · rintro ⟨t₁, ⟨rc, s⟩, t₂, rfl, hp, hk⟩
    dsimp only at hk
    split at hk
    case isTrue hrc =>
      exact absurd (Prod.mk.inj hk.2).1.symm hrc
    case isFalse hrc =>
      obtain rfl : rc = 0 := not_not.mp hrc
      exact ⟨t₁, s, t₂, rfl, hp, hk⟩
  · rintro ⟨t₁, s, t₂, rfl, hp, hk⟩
    exact ⟨t₁, (0, s), t₂, rfl, hp, hk⟩

/-- `failOn` for a part that answers its code alone. -/
def andThen (p k : Prog I Int) : Prog I Int := do
  let rc ← p
  if rc ≠ 0 then
    return rc
  else
    k

theorem runs_andThen (p k : Prog I Int) (t : List I.Event) (rc : Int) :
    (andThen p k).Runs t rc ↔
      (rc ≠ 0 ∧ p.Runs t rc) ∨ ∃ t₁ t₂, t = t₁ ++ t₂ ∧ p.Runs t₁ 0 ∧ k.Runs t₂ rc := by
  unfold andThen
  rw [runs_bind]
  constructor
  · rintro ⟨t₁, rc₁, t₂, rfl, hp, hk⟩
    split at hk
    case isTrue hrc =>
      obtain ⟨rfl, rfl⟩ := hk
      rw [List.append_nil]
      exact .inl ⟨hrc, hp⟩
    case isFalse hrc =>
      obtain rfl : rc₁ = 0 := not_not.mp hrc
      exact .inr ⟨t₁, t₂, rfl, hp, hk⟩
  · rintro (⟨hrc, hp⟩ | ⟨t₁, t₂, rfl, hp, hk⟩)
    · refine ⟨t, rc, [], (List.append_nil t).symm, hp, ?_⟩
      rw [if_pos hrc]
      exact ⟨rfl, rfl⟩
    · exact ⟨t₁, 0, t₂, rfl, hp, hk⟩

theorem allCalls_andThen {P : I.Op → Prop} {p k : Prog I Int} (hp : p.AllCalls P)
    (hk : k.AllCalls P) : (andThen p k).AllCalls P :=
  allCalls_bind hp fun _ => allCalls_ite trivial hk

/-! ## Running against a given lower layer -/

/-- A lower layer that computes its answers from a state of its own. -/
abbrev Handler (I : Iface) (σ : Type) : Type := (o : I.Op) → σ → I.Ans o × σ

structure Outcome (I : Iface) (σ α : Type) where
  result : α
  state : σ
  trace : List I.Event

def exec (h : Handler I σ) : Prog I α → σ → Outcome I σ α
  | .pure a, s => ⟨a, s, []⟩
  | .call o k, s =>
    let r := exec h (k (h o s).1) (h o s).2
    { r with trace := ⟨o, (h o s).1⟩ :: r.trace }

@[simp] theorem exec_pure' (h : Handler I σ) (a : α) (s : σ) :
    (Pure.pure a : Prog I α).exec h s = ⟨a, s, []⟩ := rfl

theorem exec_bind_result (h : Handler I σ) (p : Prog I α) (f : α → Prog I β) (s : σ) :
    ((p >>= f).exec h s).result =
      ((f (p.exec h s).result).exec h (p.exec h s).state).result := by
  induction p generalizing s with
  | pure a => rfl
  | call o k ih => exact ih _ _

theorem exec_bind_state (h : Handler I σ) (p : Prog I α) (f : α → Prog I β) (s : σ) :
    ((p >>= f).exec h s).state = ((f (p.exec h s).result).exec h (p.exec h s).state).state := by
  induction p generalizing s with
  | pure a => rfl
  | call o k ih => exact ih _ _

theorem exec_runs (h : Handler I σ) (p : Prog I α) (s : σ) :
    p.Runs (p.exec h s).trace (p.exec h s).result := by
  induction p generalizing s with
  | pure a => exact ⟨rfl, rfl⟩
  | call o k ih => exact ⟨(h o s).1, _, rfl, ih _ _⟩

end Prog

end Lib
