import AwsFpga.Lib.Circuit

/-!
# Queues with a reset

What a FIFO is for: the words leave in the order in which they came, each once,
and a reset empties it.
-/

namespace Lib

namespace Circuit

variable {ι σ α β : Type} (c : Circuit ι σ) (ins : Nat → ι)

/-- What passed a channel since the last reset before cycle `n`. -/
def since (rst : ι → Bool) (fire : ι → σ → List α) : Nat → List α
  | 0 => []
  | n + 1 => if rst (ins n) then [] else since rst fire n ++ fire (ins n) (c.state ins n)

/-- A reset empties a pipe, and else what a cycle takes in and what it gives out differ by what is
held. -/
theorem since_eq {c : Circuit ι σ} {ins : Nat → ι} {rst : ι → Bool} (hold : Nat → List β)
    {inp out : ι → σ → List β} (hzero : hold 0 = [])
    (hrst : ∀ n, rst (ins n) → hold (n + 1) = [])
    (hstep : ∀ n, rst (ins n) = false → hold n ++ inp (ins n) (c.state ins n) =
      out (ins n) (c.state ins n) ++ hold (n + 1)) (n : Nat) :
    c.since ins rst inp n = c.since ins rst out n ++ hold n := by
  induction n with
  | zero => simp [since, hzero]
  | succ n ih =>
    unfold since
    by_cases h : rst (ins n) = true
    · rw [if_pos h, if_pos h, hrst n h, List.append_nil]
    · rw [if_neg h, if_neg h, ih, List.append_assoc, List.append_assoc, hstep n (by simpa using h)]

end Circuit

/-- What a cycle does to a queue. -/
structure QueueIn (α : Type) where
  reset : Bool
  push : Option α
  pop : Bool

namespace Queue

variable {α : Type}

def next (i : QueueIn α) (q : List α) : List α :=
  if i.reset then [] else (if i.pop then q.tail else q) ++ i.push.toList

def queue : Circuit (QueueIn α) (List α) where
  reset := []
  step := next

/-- Nothing is pushed when `depth` words are stored, and nothing is popped when there is none. -/
structure Legal (depth : Nat) (i : QueueIn α) (q : List α) : Prop where
  push : i.push.isSome → q.length < depth
  pop : i.pop → q ≠ []

variable {depth : Nat} {i : QueueIn α} {q : List α}

theorem next_reset (h : i.reset = true) : next i q = [] := if_pos h

theorem next_eq (hrst : i.reset = false) (hpop : i.pop → q ≠ []) :
    q ++ i.push.toList = (if i.pop then q.head?.toList else []) ++ next i q := by
  unfold next
  rw [hrst, if_neg Bool.false_ne_true]
  split
  case isTrue h =>
    obtain ⟨a, l, rfl⟩ := List.exists_cons_of_ne_nil (hpop h)
    rfl
  case isFalse => rfl

theorem length_next (h : Legal depth i q) (hlen : q.length ≤ depth) :
    (next i q).length ≤ depth := by
  have hpush := h.push
  unfold next
  split
  · exact Nat.zero_le _
  · rw [List.length_append, apply_ite List.length, List.length_tail]
    cases hp : i.push with
    | none =>
      change _ + 0 ≤ depth
      split <;> omega
    | some a =>
      have hroom := hpush (by rw [hp]; rfl)
      change _ + 1 ≤ depth
      split <;> omega

theorem next_suffix (i : QueueIn α) (q : List α) : next i q <:+ q ++ i.push.toList := by
  unfold next
  split
  · exact List.nil_suffix
  · split
    · cases q with
      | nil => exact List.suffix_refl _
      | cons a l => exact List.suffix_cons a (l ++ i.push.toList)
    · exact List.suffix_refl _

theorem getElem?_reverse_suffix {l : List α} (h : q <:+ l) {k : Nat} (hk : k < q.length) :
    q.reverse[k]? = l.reverse[k]? := by
  have hlt : k < q.reverse.length := by rwa [List.length_reverse]
  rw [List.prefix_iff_getElem?.mp (List.reverse_prefix.mpr h) k hlt, List.getElem?_eq_getElem hlt]

/-- A shift register holds the words up to entry 0, the oldest last. -/
def InShift (r : Nat → α) (q : List α) : Prop := ∀ k < q.length, q.reverse[k]? = some (r k)

theorem InShift.nil (r : Nat → α) : InShift r [] := fun _ hk => absurd hk (Nat.not_lt_zero _)

theorem InShift.concat {r r' : Nat → α} {a : α} (h : InShift r q) (hzero : r' 0 = a)
    (hsucc : ∀ k, r' (k + 1) = r k) : InShift r' (q ++ [a]) := by
  intro k hk
  rw [List.length_append, List.length_singleton] at hk
  rw [List.reverse_append, List.reverse_singleton]
  cases k with
  | zero =>
    rw [hzero]
    rfl
  | succ k =>
    rw [hsucc]
    exact h k (by omega)

theorem InShift.suffix {r : Nat → α} {l : List α} (h : InShift r l) (hq : q <:+ l) : InShift r q := by
  intro k hk
  rw [getElem?_reverse_suffix hq hk]
  exact h k (Nat.lt_of_lt_of_le hk hq.length_le)

theorem InShift.head {r : Nat → α} {a : α} (h : InShift r q) (ha : q.head? = some a) {n : Nat}
    (hn : n + 1 = q.length) : r n = a := by
  have hword := h n (by omega)
  rw [List.getElem?_reverse (by omega), show q.length - 1 - n = 0 by omega,
    ← List.head?_eq_getElem?, ha] at hword
  exact (Option.some.inj hword).symm

/-- A queue of parts of the words is used as that of the words. -/
theorem next_map {β : Type} (f : α → β) (r : Bool) (push : Option α) (pop : Bool) :
    next ⟨r, push.map f, pop⟩ (q.map f) = (next ⟨r, push, pop⟩ q).map f := by
  cases r <;> cases push <;> cases pop <;> simp [next]

theorem Legal.map {β : Type} (f : α → β) {r : Bool} {push : Option α} {pop : Bool}
    (h : Legal depth ⟨r, push, pop⟩ q) : Legal depth ⟨r, push.map f, pop⟩ (q.map f) where
  push hp := by
    rw [List.length_map]
    exact h.push (by simpa using hp)
  pop hp hnil := h.pop hp (List.map_eq_nil_iff.mp hnil)

section Refine

variable {ι σ : Type} (c : Circuit ι σ) (ins : Nat → ι) (port : ι → σ → QueueIn α)

/-- What a queue stores that is used as the circuit is. -/
def stored (n : Nat) : List α := queue.state (fun k => port (ins k) (c.state ins k)) n

theorem stored_zero : stored c ins port 0 = [] := rfl

theorem stored_succ (n : Nat) : stored c ins port (n + 1) =
    next (port (ins n) (c.state ins n)) (stored c ins port n) := rfl

variable {c ins} {R : σ → List α → Prop}

/-- What a circuit holds is told by the queue, as long as it is used as it should be. -/
theorem stored_rel (hreset : R c.reset [])
    (hstep : ∀ i s q, Legal depth (port i s) q → q.length ≤ depth → R s q →
      R (c.step i s) (next (port i s) q))
    (hlegal : ∀ n, R (c.state ins n) (stored c ins port n) →
      Legal depth (port (ins n) (c.state ins n)) (stored c ins port n)) (n : Nat) :
    (stored c ins port n).length ≤ depth ∧ R (c.state ins n) (stored c ins port n) := by
  induction n with
  | zero => exact ⟨Nat.zero_le _, hreset⟩
  | succ n ih =>
    have hn := hlegal n ih.2
    exact ⟨length_next hn ih.1, hstep _ _ _ hn ih.1 ih.2⟩

/-- The words that came since the last reset have left in order, or are stored. -/
theorem pushed_eq (hlegal : ∀ n, (port (ins n) (c.state ins n)).pop →
      stored c ins port n ≠ []) {out : ι → σ → List α}
    (hout : ∀ n, out (ins n) (c.state ins n) =
      if (port (ins n) (c.state ins n)).pop then (stored c ins port n).head?.toList else [])
    {rst : ι → Bool} (hrst : ∀ n, rst (ins n) = (port (ins n) (c.state ins n)).reset) (n : Nat) :
    c.since ins rst (fun i s => (port i s).push.toList) n =
      c.since ins rst out n ++ stored c ins port n := by
  apply Circuit.since_eq (stored c ins port) (stored_zero c ins port)
  · intro n h
    rw [stored_succ, next_reset ((hrst n).symm.trans h)]
  · intro n h
    rw [hout, stored_succ]
    exact next_eq ((hrst n).symm.trans h) (hlegal n)

end Refine

end Queue

end Lib
