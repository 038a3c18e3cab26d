import AwsFpga.Lib.Prog

/-!
# Programs with a state of their own, and layers

An `SProg` is a program that also keeps a state, as the functions of one C file
keep its static variables. `handle` puts a program on top of an implementation
of its interface: its runs are runs of the program, call by call.
-/

namespace Lib

variable {I J : Iface} {σ α β : Type}

abbrev SProg (I : Iface) (σ : Type) : Type → Type := StateT σ (Prog I)

/-- `Exec m s t a s'`: from the state `s`, `m` may call exactly `t`, return `a` and leave `s'`. -/
def Exec (m : SProg I σ α) (s : σ) (t : List I.Event) (a : α) (s' : σ) : Prop :=
  (m.run s).Runs t (a, s')

/-- A program that leaves the state alone. -/
def liftProg (p : Prog I α) : SProg I σ α := StateT.lift p

@[simp] theorem exec_pure (a b : α) (s s' : σ) (t : List I.Event) :
    Exec (pure a : SProg I σ α) s t b s' ↔ t = [] ∧ b = a ∧ s' = s := by
  simp [Exec]

@[simp] theorem exec_get (s s' a : σ) (t : List I.Event) :
    Exec (get : SProg I σ σ) s t a s' ↔ t = [] ∧ a = s ∧ s' = s := by
  simp [Exec]

@[simp] theorem exec_modify (f : σ → σ) (s s' : σ) (u : Unit) (t : List I.Event) :
    Exec (modify f : SProg I σ Unit) s t u s' ↔ t = [] ∧ s' = f s := by
  simp [Exec]

theorem exec_bind (m : SProg I σ α) (f : α → SProg I σ β) (s s'' : σ) (t : List I.Event) (b : β) :
    Exec (m >>= f) s t b s'' ↔ ∃ t₁ a s' t₂, t = t₁ ++ t₂ ∧ Exec m s t₁ a s' ∧
      Exec (f a) s' t₂ b s'' := by
  simp only [Exec, StateT.run_bind, Prog.runs_bind]
  constructor
  · rintro ⟨t₁, ⟨a, s'⟩, t₂, rfl, hm, hf⟩
    exact ⟨t₁, a, s', t₂, rfl, hm, hf⟩
  · rintro ⟨t₁, a, s', t₂, rfl, hm, hf⟩
    exact ⟨t₁, (a, s'), t₂, rfl, hm, hf⟩

@[simp] theorem exec_get_bind (f : σ → SProg I σ β) (s s' : σ) (t : List I.Event) (b : β) :
    Exec (get >>= f) s t b s' ↔ Exec (f s) s t b s' := by
  simp [Exec]

@[simp] theorem exec_modify_bind (g : σ → σ) (f : Unit → SProg I σ β) (s s' : σ)
    (t : List I.Event) (b : β) :
    Exec (modify g >>= f) s t b s' ↔ Exec (f ()) (g s) t b s' := by
  simp [Exec]

theorem exec_liftProg (p : Prog I α) (s s' : σ) (t : List I.Event) (a : α) :
    Exec (liftProg p) s t a s' ↔ p.Runs t a ∧ s' = s := by
  simp only [Exec, liftProg, StateT.run_lift, Prog.runs_bind]
  constructor
  · rintro ⟨t₁, a', t₂, rfl, hp, rfl, h⟩
    cases h
    exact ⟨by simpa using hp, rfl⟩
  · rintro ⟨hp, rfl⟩
    exact ⟨t, a, [], by simp, hp, rfl, rfl⟩

theorem exec_liftProg_bind (p : Prog I α) (f : α → SProg I σ β) (s s' : σ) (t : List I.Event)
    (b : β) :
    Exec (liftProg p >>= f) s t b s' ↔ ∃ t₁ a t₂, t = t₁ ++ t₂ ∧ p.Runs t₁ a ∧
      Exec (f a) s t₂ b s' := by
  rw [exec_bind]
  constructor
  · rintro ⟨t₁, a, _, t₂, rfl, hm, hf⟩
    obtain ⟨hp, rfl⟩ := (exec_liftProg p s _ t₁ a).mp hm
    exact ⟨t₁, a, t₂, rfl, hp, hf⟩
  · rintro ⟨t₁, a, t₂, rfl, hp, hf⟩
    exact ⟨t₁, a, s, t₂, rfl, (exec_liftProg p s s t₁ a).mpr ⟨hp, rfl⟩, hf⟩

theorem exec_op (o : I.Op) (r : I.Ans o) (s s' : σ) (t : List I.Event) :
    Exec (liftProg (Prog.op o)) s t r s' ↔ t = [⟨o, r⟩] ∧ s' = s := by
  rw [exec_liftProg, Prog.runs_op]

theorem exec_op_bind (o : I.Op) (f : I.Ans o → SProg I σ β) (s s' : σ) (t : List I.Event) (b : β) :
    Exec (liftProg (Prog.op o) >>= f) s t b s' ↔ ∃ r t', t = ⟨o, r⟩ :: t' ∧
      Exec (f r) s t' b s' := by
  rw [exec_liftProg_bind]
  constructor
  · rintro ⟨t₁, r, t₂, rfl, ho, hf⟩
    obtain rfl := (Prog.runs_op o t₁ r).mp ho
    exact ⟨r, t₂, rfl, hf⟩
  · rintro ⟨r, t', rfl, hf⟩
    exact ⟨[⟨o, r⟩], r, t', rfl, (Prog.runs_op o _ r).mpr rfl, hf⟩

/-! ## Which calls a program makes -/

def Calls (P : I.Op → Prop) (m : SProg I σ α) : Prop := ∀ s, (m.run s).AllCalls P

theorem calls_mono {P Q : I.Op → Prop} (h : ∀ o, P o → Q o) {m : SProg I σ α} (hm : Calls P m) :
    Calls Q m :=
  fun s => Prog.allCalls_mono h (hm s)

theorem calls_pure (P : I.Op → Prop) (a : α) : Calls P (pure a : SProg I σ α) :=
  fun _ => trivial

theorem calls_modify (P : I.Op → Prop) (f : σ → σ) : Calls P (modify f : SProg I σ Unit) :=
  fun _ => trivial

theorem calls_op {P : I.Op → Prop} {o : I.Op} (h : P o) :
    Calls P (liftProg (Prog.op o) : SProg I σ (I.Ans o)) :=
  fun _ => ⟨h, fun _ => trivial⟩

theorem calls_bind {P : I.Op → Prop} {m : SProg I σ α} {f : α → SProg I σ β} (hm : Calls P m)
    (hf : ∀ a, Calls P (f a)) : Calls P (m >>= f) :=
  fun s => Prog.allCalls_bind (hm s) fun r => hf r.1 r.2

theorem calls_get_bind {P : I.Op → Prop} {f : σ → SProg I σ β} (hf : ∀ s, Calls P (f s)) :
    Calls P (get >>= f) :=
  fun s => hf s s

theorem calls_ite {P : I.Op → Prop} {c : Prop} [Decidable c] {m n : SProg I σ α}
    (hm : Calls P m) (hn : Calls P n) : Calls P (if c then m else n) := by
  split
  · exact hm
  · exact hn

theorem exec_calls {P : I.Op → Prop} {m : SProg I σ α} (hm : Calls P m) {s s' : σ}
    {t : List I.Event} {a : α} (h : Exec m s t a s') : ∀ e ∈ t, P e.1 :=
  Prog.runs_allCalls (hm s) h

/-! ## Layers -/

namespace Prog

/-- The program with each of its calls replaced by what implements it. -/
def handle (h : (o : I.Op) → SProg J σ (I.Ans o)) : Prog I α → SProg J σ α
  | .pure a => Pure.pure a
  | .call o k => h o >>= fun r => handle h (k r)

/-- The calls `ti` of the upper layer, implemented one after another by `tj`. -/
inductive Implements (h : (o : I.Op) → SProg J σ (I.Ans o)) :
    List I.Event → σ → List J.Event → σ → Prop where
  | nil (s) : Implements h [] s [] s
  | cons {o r s t s' ti tj s''} (call : Exec (h o) s t r s') (rest : Implements h ti s' tj s'') :
    Implements h (⟨o, r⟩ :: ti) s (t ++ tj) s''

/-- A run of the layered program is a run of the program whose calls are implemented. -/
theorem exec_handle (h : (o : I.Op) → SProg J σ (I.Ans o)) (p : Prog I α) (s s' : σ)
    (t : List J.Event) (a : α) :
    Exec (p.handle h) s t a s' ↔ ∃ ti, p.Runs ti a ∧ Implements h ti s t s' := by
  induction p generalizing s t with
  | pure b =>
    change Exec (Pure.pure b) s t a s' ↔ _
    rw [exec_pure]
    constructor
    · rintro ⟨rfl, rfl, rfl⟩
      exact ⟨[], ⟨rfl, rfl⟩, .nil s'⟩
    · rintro ⟨ti, ⟨rfl, rfl⟩, himpl⟩
      cases himpl
      exact ⟨rfl, rfl, rfl⟩
  | call o k ih =>
    rw [handle, exec_bind]
    constructor
    · rintro ⟨t₁, r, s₁, t₂, rfl, ho, hk⟩
      obtain ⟨ti, hrun, himpl⟩ := (ih r s₁ t₂).mp hk
      exact ⟨⟨o, r⟩ :: ti, ⟨r, ti, rfl, hrun⟩, .cons ho himpl⟩
    · rintro ⟨ti, ⟨r, ti', rfl, hrun⟩, himpl⟩
      cases himpl with
      | @cons _ _ _ t₁ s₁ _ t₂ _ ho hrest =>
        exact ⟨t₁, r, s₁, t₂, rfl, ho, (ih r s₁ t₂).mpr ⟨ti', hrun, hrest⟩⟩

end Prog

end Lib
