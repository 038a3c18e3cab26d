import AwsFpga.Lib.Exec

/-!
# What calls do to something below

`Trace step t x x'`: the calls `t`, one after another, take `x` to `x'`. It is
how a program is judged by what its calls do, without the program that
implements them.
-/

namespace Lib

variable {I J : Iface} {σ τ α β : Type}

inductive Trace {ε : Type} (step : ε → τ → τ → Prop) : List ε → τ → τ → Prop where
  | nil (x) : Trace step [] x x
  | cons {e t x x' x''} (head : step e x x') (tail : Trace step t x' x'') : Trace step (e :: t) x x''

section Trace

variable {ε : Type} {step : ε → τ → τ → Prop} {e : ε} {t t₁ t₂ : List ε} {x x' : τ}

@[simp] theorem trace_nil : Trace step [] x x' ↔ x' = x := by
  constructor
  · intro h
    cases h
    rfl
  · rintro rfl
    exact .nil x'

@[simp] theorem trace_cons :
    Trace step (e :: t) x x' ↔ ∃ y, step e x y ∧ Trace step t y x' := by
  constructor
  · intro h
    cases h with
    | cons head tail => exact ⟨_, head, tail⟩
  · rintro ⟨y, head, tail⟩
    exact .cons head tail

theorem trace_append :
    Trace step (t₁ ++ t₂) x x' ↔ ∃ y, Trace step t₁ x y ∧ Trace step t₂ y x' := by
  induction t₁ generalizing x with
  | nil => simp
  | cons e t ih =>
    simp only [List.cons_append, trace_cons, ih]
    constructor
    · rintro ⟨y, head, z, h₁, h₂⟩
      exact ⟨z, ⟨y, head, h₁⟩, h₂⟩
    · rintro ⟨z, ⟨y, head, h₁⟩, h₂⟩
      exact ⟨y, head, z, h₁, h₂⟩

theorem trace_frame {P : ε → Prop} (hstep : ∀ e y y', P e → step e y y' → y' = y)
    (ht : ∀ e ∈ t, P e) (h : Trace step t x x') : x' = x := by
  induction h with
  | nil => rfl
  | cons head tail ih =>
    rw [ih fun e he => ht e (List.mem_cons_of_mem _ he)]
    exact hstep _ _ _ (ht _ List.mem_cons_self) head

theorem trace_and {P : ε → Prop} (ht : ∀ e ∈ t, P e) (h : Trace step t x x') :
    Trace (fun e y y' => step e y y' ∧ P e) t x x' := by
  induction h with
  | nil x => exact .nil x
  | cons head tail ih =>
    exact .cons ⟨head, ht _ List.mem_cons_self⟩ (ih fun e he => ht e (List.mem_cons_of_mem _ he))

end Trace

/-! ## Layers -/

namespace Prog

variable {h : (o : I.Op) → SProg J σ (I.Ans o)} {ti : List I.Event} {tj : List J.Event} {s s' : σ}

/-- A layer whose every call does to its state what `step` says of the call. -/
theorem Implements.trace {step : I.Event → τ → τ → Prop} {P : J.Event → Prop} (abs : σ → τ)
    (hstep : ∀ o s t r s', Exec (h o) s t r s' → (∀ e ∈ t, P e) → step ⟨o, r⟩ (abs s) (abs s'))
    (himpl : Implements h ti s tj s') (ht : ∀ e ∈ tj, P e) : Trace step ti (abs s) (abs s') := by
  induction himpl with
  | nil s => exact .nil _
  | cons call rest ih =>
    refine .cons (hstep _ _ _ _ _ call fun e he => ht e (List.mem_append_left _ he)) ?_
    exact ih fun e he => ht e (List.mem_append_right _ he)

/-- A layer that passes on to the layer below what its calls do. -/
theorem Implements.lift {upper : I.Event → τ → τ → Prop} {lower : J.Event → τ → τ → Prop}
    (hstep : ∀ o s t r s' x x', Exec (h o) s t r s' → Trace lower t x x' → upper ⟨o, r⟩ x x')
    (himpl : Implements h ti s tj s') {x x' : τ} (ht : Trace lower tj x x') :
    Trace upper ti x x' := by
  induction himpl generalizing x with
  | nil s =>
    rw [trace_nil] at ht
    rw [ht]
    exact .nil x
  | cons call rest ih =>
    obtain ⟨y, h₁, h₂⟩ := trace_append.mp ht
    exact .cons (hstep _ _ _ _ _ _ _ call h₁) (ih h₂)

end Prog

/-! ## Programs that keep an invariant -/

/-- Whatever `m` calls, `inv` holds after it of its state and of what the calls act on. -/
def Preserves (step : J.Event → τ → τ → Prop) (inv : σ → τ → Prop) (m : SProg J σ α) : Prop :=
  ∀ s t a s' x x', Exec m s t a s' → Trace step t x x' → inv s x → inv s' x'

section Preserves

variable {step : J.Event → τ → τ → Prop} {inv : σ → τ → Prop} {m n : SProg J σ α}
  {f : α → SProg J σ β}

theorem preserves_pure (a : α) : Preserves step inv (pure a : SProg J σ α) := by
  intro s t b s' x x' h ht hinv
  obtain ⟨rfl, -, rfl⟩ := (exec_pure _ _ _ _ _).mp h
  rwa [trace_nil.mp ht]

theorem preserves_bind (hm : Preserves step inv m) (hf : ∀ a, Preserves step inv (f a)) :
    Preserves step inv (m >>= f) := by
  intro s t b s' x x' h ht hinv
  obtain ⟨t₁, a, s₁, t₂, rfl, h₁, h₂⟩ := (exec_bind _ _ _ _ _ _).mp h
  obtain ⟨y, ht₁, ht₂⟩ := trace_append.mp ht
  exact hf a _ _ _ _ _ _ h₂ ht₂ (hm _ _ _ _ _ _ h₁ ht₁ hinv)

theorem preserves_get_bind {f : σ → SProg J σ β} (hf : ∀ s, Preserves step inv (f s)) :
    Preserves step inv (get >>= f) := by
  intro s t b s' x x' h ht hinv
  exact hf s _ _ _ _ _ _ ((exec_get_bind _ _ _ _ _).mp h) ht hinv

theorem preserves_ite {c : Prop} [Decidable c] (hm : Preserves step inv m)
    (hn : Preserves step inv n) : Preserves step inv (if c then m else n) := by
  split
  · exact hm
  · exact hn

theorem preserves_modify {g : σ → σ} (hg : ∀ s x, inv s x → inv (g s) x) :
    Preserves step inv (modify g : SProg J σ Unit) := by
  intro s t b s' x x' h ht hinv
  obtain ⟨rfl, rfl⟩ := (exec_modify _ _ _ _ _).mp h
  rw [trace_nil.mp ht]
  exact hg s x hinv

theorem preserves_op {o : J.Op} (ho : ∀ r x x', step ⟨o, r⟩ x x' → x' = x) :
    Preserves step inv (liftProg (Prog.op o) : SProg J σ (J.Ans o)) := by
  intro s t r s' x x' h ht hinv
  obtain ⟨rfl, rfl⟩ := (exec_op _ _ _ _ _).mp h
  obtain ⟨y, hy, hy'⟩ := trace_cons.mp ht
  rw [trace_nil.mp hy', ho _ _ _ hy]
  exact hinv

end Preserves

end Lib
