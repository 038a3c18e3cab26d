import Mathlib.Data.List.Basic
import Mathlib.Tactic.Common

/-!
# Flow-through buffers

A memory answers a read `L` cycles later. With `L + 1` registers behind it, and a
read only where a register is left for the answer, it looks like a queue whose
oldest word can be taken in every cycle.
-/

namespace Lib

structure FlowBuf (α : Type) where
  ram : List α
  /-- The reads that are on the way, the next one to return first. -/
  reads : List (Option α)
  flops : List α

namespace FlowBuf

variable {α : Type} (L : Nat) (push : Option α) (pop : Bool) (s : FlowBuf α)

def start : FlowBuf α := ⟨[], List.replicate L none, []⟩

def flight : List α := s.reads.filterMap id

/-- How many words have a register, or need one when they return. -/
def count : Nat := s.flops.length + s.flight.length

def held : List α := s.flops ++ s.flight ++ s.ram

def fetch : Bool := !s.ram.isEmpty && (decide (s.count < L + 1) || pop)

def next : FlowBuf α where
  ram := (if fetch L pop s then s.ram.tail else s.ram) ++ push.toList
  reads := s.reads.tail ++ [if fetch L pop s then s.ram.head? else none]
  flops := (if pop then s.flops.tail else s.flops) ++ (s.reads.headD none).toList

structure Ok : Prop where
  reads : s.reads.length = L
  room : s.count ≤ L + 1

variable {L push pop s}

theorem ok_start : (start L : FlowBuf α).Ok L where
  reads := List.length_replicate
  room := by simp [start, count, flight]

theorem held_start : (start L : FlowBuf α).held = [] := by
  simp [start, held, flight]

theorem ram_of_fetch (h : fetch L pop s = true) : ∃ a, s.ram = a :: s.ram.tail := by
  unfold fetch at h
  cases hram : s.ram with
  | nil => simp [hram] at h
  | cons a l => exact ⟨a, rfl⟩

theorem reads_cons (hL : 0 < L) (h : s.Ok L) : ∃ r rest, s.reads = r :: rest := by
  apply List.exists_cons_of_length_pos
  rw [h.reads]
  exact hL

variable (push pop) in
theorem flight_next (hL : 0 < L) (h : s.Ok L) :
    (s.reads.headD none).toList ++ (next L push pop s).flight =
      s.flight ++ (if fetch L pop s then s.ram.head?.toList else []) := by
  obtain ⟨r, rest, hreads⟩ := reads_cons hL h
  unfold flight next
  rw [hreads, List.filterMap_append]
  cases r <;> split <;> simp <;> cases s.ram.head? <;> simp

variable (push) in
theorem held_next (hL : 0 < L) (h : s.Ok L) (hpop : pop → s.flops ≠ []) :
    s.held ++ push.toList =
      (if pop then s.flops.head?.toList else []) ++ (next L push pop s).held := by
  have hflight := flight_next push pop hL h
  have hflops : s.flops = (if pop then s.flops.head?.toList else []) ++
      (if pop then s.flops.tail else s.flops) := by
    split
    case isTrue hp =>
      obtain ⟨a, l, hl⟩ := List.exists_cons_of_ne_nil (hpop hp)
      rw [hl]
      rfl
    case isFalse => rfl
  have hram : s.ram = (if fetch L pop s then s.ram.head?.toList else []) ++
      (if fetch L pop s then s.ram.tail else s.ram) := by
    split
    case isTrue hf =>
      obtain ⟨a, ha⟩ := ram_of_fetch hf
      rw [ha]
      rfl
    case isFalse => rfl
  calc s.held ++ push.toList
      = s.flops ++ (s.flight ++ s.ram) ++ push.toList := by rw [held, List.append_assoc s.flops]
    _ = (if pop then s.flops.head?.toList else []) ++ (if pop then s.flops.tail else s.flops) ++
          (s.flight ++ ((if fetch L pop s then s.ram.head?.toList else []) ++
            (if fetch L pop s then s.ram.tail else s.ram))) ++ push.toList := by rw [← hflops, ← hram]
    _ = (if pop then s.flops.head?.toList else []) ++ (next L push pop s).held := by
      rw [← List.append_assoc s.flight, ← hflight]
      simp only [held, next, List.append_assoc]

variable (push) in
theorem count_next (hL : 0 < L) (h : s.Ok L) (hpop : pop → s.flops ≠ []) :
    (next L push pop s).count + pop.toNat = s.count + (fetch L pop s).toNat := by
  have hflight := congrArg List.length (flight_next push pop hL h)
  have hread : (if fetch L pop s then s.ram.head?.toList else []).length =
      (fetch L pop s).toNat := by
    cases hf : fetch L pop s with
    | false => rfl
    | true =>
      obtain ⟨a, ha⟩ := ram_of_fetch hf
      rw [ha]
      rfl
  have hflops : (if pop then s.flops.tail else s.flops).length + pop.toNat = s.flops.length := by
    cases hp : pop with
    | false => rfl
    | true =>
      obtain ⟨a, l, hl⟩ := List.exists_cons_of_ne_nil (hpop hp)
      rw [hl]
      rfl
  rw [List.length_append, List.length_append, hread] at hflight
  unfold count
  change ((if pop then s.flops.tail else s.flops) ++ (s.reads.headD none).toList).length +
    (next L push pop s).flight.length + pop.toNat = _
  rw [List.length_append]
  omega

variable (push) in
theorem ok_next (hL : 0 < L) (h : s.Ok L) (hpop : pop → s.flops ≠ []) :
    (next L push pop s).Ok L where
  reads := by
    have hlen := h.reads
    change (s.reads.tail ++ [_]).length = L
    rw [List.length_append, List.length_tail, List.length_singleton]
    omega
  room := by
    have hroom := h.room
    have hcount := count_next push hL h hpop
    cases hf : fetch L pop s with
    | false =>
      rw [hf] at hcount
      simp only [Bool.toNat_false] at hcount
      omega
    | true =>
      rw [hf, Bool.toNat_true] at hcount
      unfold fetch at hf
      cases hp : pop with
      | false =>
        rw [hp, Bool.or_false, Bool.and_eq_true, decide_eq_true_eq] at hf
        rw [hp, Bool.toNat_false] at hcount
        omega
      | true =>
        rw [hp, Bool.toNat_true] at hcount
        omega

/-! ## A word in every cycle -/

theorem flight_le (h : s.Ok L) : s.flight.length ≤ L := by
  rw [← h.reads]
  exact List.length_filterMap_le _ _

/-- When all registers are spoken for there is a word in one of them. -/
theorem flops_of_full (h : s.Ok L) (hfull : L + 1 ≤ s.count) : s.flops ≠ [] := by
  have hle := flight_le h
  unfold count at hfull
  intro hnil
  rw [hnil, List.length_nil] at hfull
  omega

theorem full_next (hL : 0 < L) (h : s.Ok L) (hpop : pop → s.flops ≠ []) (hram : s.ram ≠ [])
    (hfull : L + 1 ≤ s.count) : L + 1 ≤ (next L push pop s).count := by
  have hcount := count_next push hL h hpop
  cases hp : pop with
  | false =>
    rw [hp, Bool.toNat_false] at hcount
    omega
  | true =>
    have hf : fetch L true s = true := by
      unfold fetch
      simp [hram]
    rw [hp, hf] at hcount
    simp only [Bool.toNat_true] at hcount
    omega

/-- The words that are there within `k` cycles. -/
def near (k : Nat) (s : FlowBuf α) : Nat := s.flops.length + ((s.reads.take k).filterMap id).length

/-- In `k` cycles there will be a word, whoever pops: one returns just then, or there are more than
can be popped until then. -/
def Due (k : Nat) (s : FlowBuf α) : Prop :=
  (∃ j a, k = j + 1 ∧ s.reads[j]? = some (some a)) ∨ k + 1 ≤ near k s

theorem due_zero (h : Due 0 s) : s.flops ≠ [] := by
  rcases h with ⟨j, a, hj, -⟩ | h
  · omega
  · unfold near at h
    intro hnil
    rw [hnil] at h
    simp at h

variable (push pop) in
theorem near_next (hL : 0 < L) (h : s.Ok L) (k : Nat) :
    near (k + 1) s ≤ near k (next L push pop s) + pop.toNat := by
  obtain ⟨r, rest, hreads⟩ := reads_cons hL h
  have hpop : s.flops.length ≤ (if pop then s.flops.tail else s.flops).length + pop.toNat := by
    cases pop with
    | false => exact Nat.le_refl _
    | true =>
      rw [if_pos rfl, List.length_tail, Bool.toNat_true]
      omega
  have htake : ((rest.take k).filterMap id).length ≤ (((next L push pop s).reads.take k).filterMap
      id).length := by
    unfold next
    rw [hreads]
    apply List.Sublist.length_le
    apply List.Sublist.filterMap
    rw [List.tail_cons, List.take_append]
    exact List.sublist_append_left _ _
  have hhead : ((s.reads.take (k + 1)).filterMap id).length =
      r.toList.length + ((rest.take k).filterMap id).length := by
    rw [hreads, List.take_succ_cons]
    cases r <;> simp
    omega
  have hflops : (next L push pop s).flops =
      (if pop then s.flops.tail else s.flops) ++ r.toList := by
    unfold next
    rw [hreads]
    rfl
  unfold near
  rw [hhead, hflops, List.length_append]
  omega

theorem due_next (hL : 0 < L) (h : s.Ok L) {k : Nat} (hdue : Due (k + 1) s) :
    Due k (next L push pop s) := by
  rcases hdue with ⟨j, a, hj, hread⟩ | hnear
  · obtain rfl : j = k := by omega
    obtain ⟨r, rest, hreads⟩ := reads_cons hL h
    rw [hreads] at hread
    cases j with
    | zero =>
      obtain rfl : r = some a := by simpa using hread
      refine .inr ?_
      unfold near next
      rw [hreads]
      simp
    | succ j =>
      refine .inl ⟨j, a, rfl, ?_⟩
      have hrest : rest[j]? = some (some a) := by simpa using hread
      have hlt := (List.getElem?_eq_some_iff.mp hrest).1
      unfold next
      rw [hreads, List.tail_cons, List.getElem?_append_left hlt]
      exact hrest
  · have hle := near_next push pop hL h k
    have hone : pop.toNat ≤ 1 := Bool.toNat_le pop
    exact .inr (by omega)

theorem due_of_ram (hL : 0 < L) (h : s.Ok L) (hpop : pop → s.flops ≠ []) (hram : s.ram ≠ []) :
    Due L (next L push pop s) := by
  cases hf : fetch L pop s with
  | true =>
    obtain ⟨a, ha⟩ := ram_of_fetch hf
    have hlen := h.reads
    refine .inl ⟨L - 1, a, by omega, ?_⟩
    change (s.reads.tail ++ [if fetch L pop s then s.ram.head? else none])[L - 1]? = _
    rw [hf, if_pos rfl, ha, List.head?_cons, List.getElem?_append_right (by simp; omega),
      List.length_tail, hlen, Nat.sub_self]
    rfl
  | false =>
    have hcount := count_next push hL h hpop
    have hok := ok_next push hL h hpop
    unfold fetch at hf
    have hidle : ¬ s.count < L + 1 ∧ pop = false := by simpa [hram] using hf
    rw [hidle.2] at hcount hok ⊢
    refine .inr ?_
    unfold near
    rw [List.take_of_length_le (Nat.le_of_eq hok.reads)]
    simp only [Bool.toNat_false] at hcount
    have hall : (next L push false s).flops.length +
        ((next L push false s).reads.filterMap id).length = (next L push false s).count := rfl
    omega

/-- A word of the memory is seen `L + 1` cycles later, or another one that came before it. -/
theorem shown {t : Nat → FlowBuf α} {pushes : Nat → Option α} {pops : Nat → Bool} (hL : 0 < L)
    (hstart : (t 0).Ok L) (hnext : ∀ k ≤ L, t (k + 1) = next L (pushes k) (pops k) (t k))
    (hpop : ∀ k ≤ L, pops k → (t k).flops ≠ []) (hram : (t 0).ram ≠ []) :
    (t (L + 1)).flops ≠ [] := by
  have hall : ∀ k ≤ L, (t (k + 1)).Ok L ∧ Due (L - k) (t (k + 1)) := by
    intro k hk
    induction k with
    | zero =>
      rw [hnext 0 hk]
      exact ⟨ok_next _ hL hstart (hpop 0 hk), due_of_ram hL hstart (hpop 0 hk) hram⟩
    | succ k ih =>
      obtain ⟨hok, hdue⟩ := ih (by omega)
      rw [hnext (k + 1) hk]
      refine ⟨ok_next _ hL hok (hpop (k + 1) hk), due_next hL hok ?_⟩
      rwa [show L - (k + 1) + 1 = L - k by omega]
  have hlast := (hall L (Nat.le_refl _)).2
  rw [Nat.sub_self] at hlast
  exact due_zero hlast

end FlowBuf

end Lib
