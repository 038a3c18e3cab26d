import Mathlib.Logic.Relation
import AwsFpga.Lib.Meets

/-!
# Programs in an environment that acts by itself

An environment answers calls, and between any two of them it may also move on its
own. What holds at a point of a program has to survive these moves. `Safe` asks
just that at every point, so it can be proved along the program and gives an
invariant of every run.
-/

namespace Lib

structure Env (I : Iface) (ε : Type) where
  answers : (o : I.Op) → ε → I.Ans o → ε → Prop
  moves : ε → ε → Prop

namespace Env

variable {I : Iface} {ε α β σ μ : Type} (E : Env I ε) {Inv : ε → Prop}

/-- Holds at one point of a program: it survives the moves, and implies the invariant. -/
structure Stable (Inv A : ε → Prop) : Prop where
  moves : ∀ {e e'}, A e → E.moves e e' → A e'
  inv : ∀ {e}, A e → Inv e

theorem stable_trans {A : ε → Prop} (hA : E.Stable Inv A) {e e' : ε} (ha : A e)
    (h : Relation.ReflTransGen E.moves e e') : A e' := by
  induction h with
  | refl => exact ha
  | tail _ hmove ih => exact hA.moves ih hmove

/-- The invariant holds from `e` on whatever the environment does, and the result satisfies `Q`. -/
def Safe (Inv : ε → Prop) (Q : α → ε → Prop) : Prog I α → ε → Prop
  | .pure a, e => ∀ e', Relation.ReflTransGen E.moves e e' → Inv e' ∧ Q a e'
  | .call o k, e => ∀ e', Relation.ReflTransGen E.moves e e' →
      Inv e' ∧ ∀ r e'', E.answers o e' r e'' → Safe Inv Q (k r) e''

/-! ## Rules -/

variable {E} {Q : α → ε → Prop}

theorem safe_pure {A : ε → Prop} (hA : E.Stable Inv A) {e : ε} (ha : A e) {a : α}
    (hq : ∀ e, A e → Q a e) : E.Safe Inv Q (pure a) e := by
  intro e' hmoves
  have ha' := E.stable_trans hA ha hmoves
  exact ⟨hA.inv ha', hq e' ha'⟩

theorem safe_call {A : ε → Prop} (hA : E.Stable Inv A) {e : ε} (ha : A e) {o : I.Op}
    {k : I.Ans o → Prog I α} (h : ∀ e r e', A e → E.answers o e r e' → E.Safe Inv Q (k r) e') :
    E.Safe Inv Q (.call o k) e := by
  intro e' hmoves
  have ha' := E.stable_trans hA ha hmoves
  exact ⟨hA.inv ha', fun r e'' hans => h e' r e'' ha' hans⟩

theorem safe_mono {Q' : α → ε → Prop} {p : Prog I α} {e : ε} (h : E.Safe Inv Q p e)
    (hq : ∀ a e, Q a e → Q' a e) : E.Safe Inv Q' p e := by
  induction p generalizing e with
  | pure a =>
    intro e' hmoves
    exact ⟨(h e' hmoves).1, hq a e' (h e' hmoves).2⟩
  | call o k ih =>
    intro e' hmoves
    exact ⟨(h e' hmoves).1, fun r e'' hans => ih r ((h e' hmoves).2 r e'' hans)⟩

theorem safe_bind {Q' : β → ε → Prop} {p : Prog I α} {f : α → Prog I β} {e : ε}
    (h : E.Safe Inv Q p e) (hf : ∀ a e, Q a e → E.Safe Inv Q' (f a) e) :
    E.Safe Inv Q' (p >>= f) e := by
  induction p generalizing e with
  | pure a => exact hf a e (h e .refl).2
  | call o k ih =>
    intro e' hmoves
    exact ⟨(h e' hmoves).1, fun r e'' hans => ih r ((h e' hmoves).2 r e'' hans)⟩

theorem safe_op_bind {A : ε → Prop} (hA : E.Stable Inv A) {e : ε} (ha : A e) {o : I.Op}
    {f : I.Ans o → Prog I α} (h : ∀ e r e', A e → E.answers o e r e' → E.Safe Inv Q (f r) e') :
    E.Safe Inv Q (Prog.op o >>= f) e :=
  safe_call hA ha h

theorem safe_of_meets {A : ε → Prop} (hA : E.Stable Inv A) {P : I.Op → Prop} {R : α → Prop}
    (hP : ∀ o e r e', P o → A e → E.answers o e r e' → A e') {p : Prog I α}
    (hp : p.Meets (fun _ _ => True) P R) {e : ε} (ha : A e) :
    E.Safe Inv (fun a e => R a ∧ A e) p e := by
  induction p generalizing e with
  | pure a => exact safe_pure hA ha fun _ h => ⟨hp, h⟩
  | call o k ih =>
    exact safe_call hA ha fun e r e' h hans => ih r (hp.2 r trivial) (hP o e r e' hp.1 h hans)

theorem safe_failOn {p : Prog I (Int × σ)} {k : σ → Prog I (Int × σ)} {Q : Int × σ → ε → Prop}
    {B : σ → ε → Prop} {e : ε}
    (hp : E.Safe Inv (fun r e => (r.1 ≠ 0 → E.Safe Inv Q (pure r) e) ∧ (r.1 = 0 → B r.2 e)) p e)
    (hk : ∀ s e, B s e → E.Safe Inv Q (k s) e) : E.Safe Inv Q (Prog.failOn p k) e := by
  refine safe_bind hp ?_
  rintro ⟨rc, s⟩ e ⟨hfail, hgo⟩
  dsimp only
  split
  case isTrue hrc => exact hfail hrc
  case isFalse hrc => exact hk s e (hgo (not_not.mp hrc))

/-! ## Runs of an object

An object has a state of its own between the calls of its methods. -/

/-- No method runs, or one does and has this left to do. -/
inductive Config (I : Iface) (σ : Type) where
  | rest (m : σ)
  | busy (p : Prog I σ)

/-- `body i` is the method `i`, and `may i` says in which states it is called. -/
inductive Step (E : Env I ε) (body : μ → σ → Prog I σ) (may : μ → σ → ε → Prop) :
    Config I σ × ε → Config I σ × ε → Prop where
  | move {c e e'} (h : E.moves e e') : Step E body may (c, e) (c, e')
  | start {m e} (i) (h : may i m e) : Step E body may (.rest m, e) (.busy (body i m), e)
  | call {o k e r e'} (h : E.answers o e r e') :
    Step E body may (.busy (.call o k), e) (.busy (k r), e')
  | finish {m e} : Step E body may (.busy (pure m), e) (.rest m, e)

variable {body : μ → σ → Prog I σ} {may : μ → σ → ε → Prop} {Rest : σ → ε → Prop}

variable (E Inv Rest) in
/-- What holds at rest, and of a method that is running. -/
def Ok : Config I σ × ε → Prop
  | (.rest m, e) => Rest m e
  | (.busy p, e) => E.Safe Inv Rest p e

theorem safe_moves {p : Prog I α} {e e' : ε} (h : E.Safe Inv Q p e) (hmove : E.moves e e') :
    E.Safe Inv Q p e' := by
  cases p with
  | pure a => exact fun e'' hmoves => h e'' (.head hmove hmoves)
  | call o k => exact fun e'' hmoves => h e'' (.head hmove hmoves)

theorem safe_inv {p : Prog I α} {e : ε} (h : E.Safe Inv Q p e) : Inv e := by
  cases p with
  | pure a => exact (h e .refl).1
  | call o k => exact (h e .refl).1

theorem step_ok (hrest : ∀ m, E.Stable Inv (Rest m))
    (hbody : ∀ i m e, Rest m e → may i m e → E.Safe Inv Rest (body i m) e)
    {c c' : Config I σ × ε} (hstep : Step E body may c c') (h : Ok E Inv Rest c) :
    Ok E Inv Rest c' := by
  cases hstep with
  | @move c e e' hmove =>
    cases c with
    | rest m => exact (hrest m).moves h hmove
    | busy p => exact safe_moves h hmove
  | start i hmay => exact hbody i _ _ h hmay
  | call hans => exact (h _ .refl).2 _ _ hans
  | finish => exact (h _ .refl).2

/-- Every state reached satisfies the invariant, and at rest more than that. -/
theorem reaches_ok (hrest : ∀ m, E.Stable Inv (Rest m))
    (hbody : ∀ i m e, Rest m e → may i m e → E.Safe Inv Rest (body i m) e)
    {c c' : Config I σ × ε} (hreach : Relation.ReflTransGen (Step E body may) c c')
    (h : Ok E Inv Rest c) : Ok E Inv Rest c' := by
  induction hreach with
  | refl => exact h
  | tail _ hstep ih => exact step_ok hrest hbody hstep ih

theorem ok_inv (hrest : ∀ m, E.Stable Inv (Rest m)) {c : Config I σ × ε} (h : Ok E Inv Rest c) :
    Inv c.2 := by
  obtain ⟨c, e⟩ := c
  cases c with
  | rest m => exact (hrest m).inv h
  | busy p => exact safe_inv h

/-! ## What may happen -/

variable (E) in
/-- Some answers lead the program from `e` to the result `a` and to `e'`. -/
def Can : Prog I α → ε → α → ε → Prop
  | .pure b, e, a, e' => a = b ∧ e' = e
  | .call o k, e, a, e' => ∃ r e₁, E.answers o e r e₁ ∧ Can (k r) e₁ a e'

/-- The run of a program whose answers are computed, if there are any. -/
def eval (answer : (o : I.Op) → ε → Option (I.Ans o × ε)) : Prog I α → ε → Option (α × ε)
  | .pure a, e => some (a, e)
  | .call o k, e => (answer o e).bind fun r => eval answer (k r.1) r.2

theorem can_of_eval {answer : (o : I.Op) → ε → Option (I.Ans o × ε)}
    (hanswer : ∀ o e r, answer o e = some r → E.answers o e r.1 r.2) {p : Prog I α} {e e' : ε}
    {a : α} (h : eval answer p e = some (a, e')) : E.Can p e a e' := by
  induction p generalizing e with
  | pure b =>
    cases h
    exact ⟨rfl, rfl⟩
  | call o k ih =>
    obtain ⟨r, hr, hrest⟩ := Option.bind_eq_some_iff.mp h
    exact ⟨r.1, r.2, hanswer o e r hr, ih r.1 hrest⟩

theorem can_op_bind {o : I.Op} {f : I.Ans o → Prog I α} {r : I.Ans o} {a : α} {e e₁ e₂ : ε}
    (hans : E.answers o e r e₁) (h : E.Can (f r) e₁ a e₂) : E.Can (Prog.op o >>= f) e a e₂ :=
  ⟨r, e₁, hans, h⟩

theorem can_bind {p : Prog I α} {f : α → Prog I β} {a : α} {b : β} {e e₁ e₂ : ε}
    (hp : E.Can p e a e₁) (hf : E.Can (f a) e₁ b e₂) : E.Can (p >>= f) e b e₂ := by
  induction p generalizing e with
  | pure a' =>
    obtain ⟨rfl, rfl⟩ := hp
    exact hf
  | call o k ih =>
    obtain ⟨r, e', hans, hp⟩ := hp
    exact ⟨r, e', hans, ih r hp⟩

theorem can_failOn {p : Prog I (Int × σ)} {k : σ → Prog I (Int × σ)} {s : σ} {r : Int × σ}
    {e e₁ e₂ : ε} (hp : E.Can p e (0, s) e₁) (hk : E.Can (k s) e₁ r e₂) :
    E.Can (Prog.failOn p k) e r e₂ := by
  refine can_bind hp ?_
  dsimp only
  rw [if_neg (by decide)]
  exact hk

theorem can_method {i : μ} {m m' : σ} {e e' : ε} (h : E.Can (body i m) e m' e')
    (hmay : may i m e) : Relation.ReflTransGen (Step E body may) (.rest m, e) (.rest m', e') := by
  refine .head (.start i hmay) ?_
  generalize body i m = p at h
  clear hmay
  induction p generalizing e with
  | pure a =>
    obtain ⟨rfl, rfl⟩ := h
    exact .single .finish
  | call o k ih =>
    obtain ⟨r, e₁, hans, h⟩ := h
    exact .head (.call hans) (ih r h)

end Env

end Lib
