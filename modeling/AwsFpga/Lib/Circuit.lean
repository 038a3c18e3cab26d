import Mathlib.Data.List.Basic

/-!
# Circuits with one clock

A circuit has registers, and in each cycle it computes their next content from
the inputs of that cycle. A run is given by its inputs, one for every cycle. What
passes a channel is collected in a list, so that what goes in can be compared
with what comes out and with what the registers hold.
-/

namespace Lib

structure Circuit (ι σ : Type) where
  /-- The registers after reset. -/
  reset : σ
  step : ι → σ → σ

namespace Circuit

variable {ι σ α β : Type} (c : Circuit ι σ) (ins : Nat → ι)

/-- The registers in cycle `n`. -/
def state : Nat → σ
  | 0 => c.reset
  | n + 1 => c.step (ins n) (state n)

/-- What passed a channel before cycle `n`, where `fire` is what passes it in one cycle. -/
def passed (fire : ι → σ → List α) : Nat → List α
  | 0 => []
  | n + 1 => passed fire n ++ fire (ins n) (c.state ins n)

/-- What passed it since cycle `k`. -/
def passed_from (fire : ι → σ → List α) (k n : Nat) : List α :=
  (c.passed ins fire n).drop (c.passed ins fire k).length

@[simp] theorem state_zero : c.state ins 0 = c.reset := rfl

theorem state_succ (n : Nat) : c.state ins (n + 1) = c.step (ins n) (c.state ins n) := rfl

@[simp] theorem passed_zero (fire : ι → σ → List α) : c.passed ins fire 0 = [] := rfl

theorem passed_succ (fire : ι → σ → List α) (n : Nat) :
    c.passed ins fire (n + 1) = c.passed ins fire n ++ fire (ins n) (c.state ins n) := rfl

variable {c ins} {P : σ → Prop} {m : ι → σ → Prop}

/-- What holds after reset and is kept by every cycle holds always. -/
theorem inv_state (hreset : P c.reset) (hstep : ∀ i s, m i s → P s → P (c.step i s))
    (hmay : ∀ n, m (ins n) (c.state ins n)) (n : Nat) : P (c.state ins n) := by
  induction n with
  | zero => exact hreset
  | succ n ih => exact hstep _ _ (hmay n) ih

/-- A pipe: what a cycle takes in and what it gives out differ by what is held. -/
theorem passed_eq (hold : σ → List β) {inp : ι → σ → List β} {out : ι → σ → List β}
    (hinv : ∀ n, P (c.state ins n)) (hmay : ∀ n, m (ins n) (c.state ins n))
    (hreset : hold c.reset = [])
    (hstep : ∀ i s, m i s → P s → hold s ++ inp i s = out i s ++ hold (c.step i s)) (n : Nat) :
    c.passed ins inp n = c.passed ins out n ++ hold (c.state ins n) := by
  induction n with
  | zero => simp [hreset]
  | succ n ih =>
    rw [passed_succ, passed_succ, state_succ, ih, List.append_assoc, List.append_assoc,
      hstep _ _ (hmay n) (hinv n)]

theorem state_eq_of_step_eq {s : σ} {k : Nat} (hk : c.state ins k = s)
    (hstep : ∀ n, k ≤ n → c.step (ins n) s = s) (n : Nat) (hn : k ≤ n) : c.state ins n = s := by
  induction hn with
  | refl => exact hk
  | step hn ih => rw [state_succ, ih, hstep _ hn]

theorem passed_eq_of_nil {fire : ι → σ → List α} {k : Nat}
    (hnil : ∀ n, k ≤ n → fire (ins n) (c.state ins n) = []) (n : Nat) (hn : k ≤ n) :
    c.passed ins fire n = c.passed ins fire k := by
  induction hn with
  | refl => rfl
  | step hn ih => rw [passed_succ, ih, hnil _ hn, List.append_nil]

theorem passed_prefix {fire : ι → σ → List α} {k n : Nat} (hn : k ≤ n) :
    c.passed ins fire k <+: c.passed ins fire n := by
  induction hn with
  | refl => exact List.prefix_rfl
  | step _ ih => exact ih.trans (List.prefix_append _ _)

@[simp] theorem passed_from_self (fire : ι → σ → List α) (k : Nat) :
    c.passed_from ins fire k k = [] := List.drop_length

theorem passed_from_succ (fire : ι → σ → List α) {k n : Nat} (hn : k ≤ n) :
    c.passed_from ins fire k (n + 1) =
      c.passed_from ins fire k n ++ fire (ins n) (c.state ins n) := by
  have hbefore : c.passed ins fire k <+: c.passed ins fire n := passed_prefix hn
  unfold passed_from
  rw [passed_succ, List.drop_append_of_le_length hbefore.length_le]

theorem passed_map (f : α → β) (fire : ι → σ → List α) (n : Nat) :
    (c.passed ins fire n).map f = c.passed ins (fun i s => (fire i s).map f) n := by
  induction n with
  | zero => rfl
  | succ n ih => rw [passed_succ, passed_succ, List.map_append, ih]

theorem passed_flatMap (f : α → List β) (fire : ι → σ → List α) (n : Nat) :
    (c.passed ins fire n).flatMap f = c.passed ins (fun i s => (fire i s).flatMap f) n := by
  induction n with
  | zero => rfl
  | succ n ih => rw [passed_succ, passed_succ, List.flatMap_append, ih]

theorem passed_forall {Q : α → Prop} {fire : ι → σ → List α} (hinv : ∀ n, P (c.state ins n))
    (hstep : ∀ i s, P s → ∀ a ∈ fire i s, Q a) (n : Nat) : ∀ a ∈ c.passed ins fire n, Q a := by
  induction n with
  | zero => simp
  | succ n ih =>
    intro a ha
    rcases List.mem_append.mp ha with ha | ha
    · exact ih a ha
    · exact hstep _ _ (hinv n) a ha

/-- A counter: it goes up with what comes in and down with what goes out. -/
theorem passed_length_eq (level : σ → Nat) {inp : ι → σ → List α} {out : ι → σ → List β}
    (hinv : ∀ n, P (c.state ins n)) (hmay : ∀ n, m (ins n) (c.state ins n))
    (hreset : level c.reset = 0)
    (hstep : ∀ i s, m i s → P s →
      level s + (inp i s).length = (out i s).length + level (c.step i s)) (n : Nat) :
    (c.passed ins inp n).length = (c.passed ins out n).length + level (c.state ins n) := by
  induction n with
  | zero => simp [hreset]
  | succ n ih =>
    have hnext := hstep _ _ (hmay n) (hinv n)
    rw [passed_succ, passed_succ, state_succ, List.length_append, List.length_append]
    omega

theorem state_shift (m n : Nat) : (⟨c.state ins m, c.step⟩ : Circuit ι σ).state
    (fun k => ins (m + k)) n = c.state ins (m + n) := by
  induction n with
  | zero => rfl
  | succ n ih => rw [state_succ, ih, ← Nat.add_assoc, state_succ]

/-- A part of a circuit runs as it would alone, on what the other parts give it. -/
theorem state_part {ι' σ' : Type} {d : Circuit ι' σ'} (part : σ → σ') (feed : ι → σ → ι')
    (hreset : d.reset = part c.reset)
    (hstep : ∀ i s, d.step (feed i s) (part s) = part (c.step i s)) (n : Nat) :
    d.state (fun k => feed (ins k) (c.state ins k)) n = part (c.state ins n) := by
  induction n with
  | zero => exact hreset
  | succ n ih => rw [state_succ, state_succ, ih, hstep]

end Circuit

/-! ## Values sent in parts -/

variable {α β : Type} {f : α → List β} {d : Nat}

theorem flatMap_length (hlen : ∀ a, (f a).length = d) (l : List α) :
    (l.flatMap f).length = l.length * d := by
  induction l with
  | nil => simp
  | cons a l ih => rw [List.flatMap_cons, List.length_append, hlen, ih, List.length_cons, Nat.succ_mul,
      Nat.add_comm]

theorem prefix_of_flatMap_prefix (hd : 0 < d) (hlen : ∀ a, (f a).length = d)
    (hinj : ∀ a b, f a = f b → a = b) {l l' : List α} (h : l.flatMap f <+: l'.flatMap f) :
    l <+: l' := by
  induction l generalizing l' with
  | nil => exact List.nil_prefix
  | cons a l ih =>
    cases l' with
    | nil =>
      have hzero := h.length_le
      rw [List.flatMap_cons, List.length_append, hlen, List.flatMap_nil, List.length_nil] at hzero
      omega
    | cons b l' =>
      obtain ⟨rest, hrest⟩ := h
      rw [List.flatMap_cons, List.flatMap_cons, List.append_assoc] at hrest
      obtain ⟨hhead, htail⟩ := List.append_inj hrest (by rw [hlen, hlen])
      rw [hinj a b hhead]
      exact List.cons_prefix_cons.mpr ⟨rfl, ih ⟨rest, htail⟩⟩

end Lib
