import AwsFpga.Lib.Circuit

/-!
# Channels with valid and ready

What passes such a channel in a cycle is its payload when both are set. Data that
belongs to addresses comes in bursts, and a burst ends with its last beat.
-/

namespace Lib.Axi

variable {α ν β : Type}

/-- What passes a channel in one cycle. -/
def fire (valid ready : Bool) (payload : α) : List α := if valid && ready then [payload] else []

/-- What a channel shows and has not passed yet. -/
def shown (valid : Bool) (payload : α) : List α := if valid then [payload] else []

@[simp] theorem fire_true (payload : α) : fire true true payload = [payload] := rfl

@[simp] theorem fire_not_valid (ready : Bool) (payload : α) : fire false ready payload = [] := rfl

@[simp] theorem fire_not_ready (valid : Bool) (payload : α) : fire valid false payload = [] := by
  simp [fire]

theorem mem_fire {valid ready : Bool} {payload a : α} :
    a ∈ fire valid ready payload ↔ (valid ∧ ready) ∧ a = payload := by
  unfold fire
  split
  case isTrue h => simpa using fun _ => Bool.and_eq_true_iff.mp h
  case isFalse h => simpa using fun hv hr => absurd (by rw [hv, hr]; rfl) h

@[simp] theorem shown_true (payload : α) : shown true payload = [payload] := rfl

@[simp] theorem shown_false (payload : α) : shown false payload = [] := rfl

/-- Valid and payload stay until ready: what a sender owes its receiver. -/
def Held (valid ready : Nat → Bool) (payload : Nat → α) : Prop :=
  ∀ n, valid n → ready n = false → valid (n + 1) ∧ payload (n + 1) = payload n

theorem zip_fst_snd (l : List (α × β)) (more : List α) :
    (l.map Prod.fst ++ more).zip (l.map Prod.snd) = l := by
  induction l with
  | nil => simp
  | cons w l ih => simp [ih]

/-! ## Bursts -/

/-- The marks of a burst with `len + 1` beats. -/
def beats (len : Nat) : List Bool := List.replicate len false ++ [true]

theorem beats_succ (len : Nat) : beats (len + 1) = false :: beats len := rfl

@[simp] theorem beats_zero : beats 0 = [true] := rfl

theorem beats_length (len : Nat) : (beats len).length = len + 1 := by simp [beats]

theorem mark_of_prefix {k len : Nat} {b : Bool} (h : List.replicate k false ++ [b] <+: beats len) :
    k ≤ len ∧ b = decide (k = len) := by
  have hle := h.length_le
  simp only [List.length_append, List.length_replicate, List.length_singleton, beats_length] at hle
  have hk : k ≤ len := Nat.le_of_succ_le_succ hle
  have hget := h.getElem (i := k) (by simp)
  rw [List.getElem_append_right (by simp)] at hget
  refine ⟨hk, ?_⟩
  rcases Nat.lt_or_eq_of_le hk with hlt | rfl
  · simpa [beats, List.getElem_append_left, hlt, Nat.ne_of_lt hlt] using hget
  · simpa [beats] using hget

/-- The owners still to be served after some beats, each with who sent it, when every burst comes
from the owner whose turn it is. -/
def follow [DecidableEq ν] (last : β → Bool) : (owners : List ν) → List (ν × β) → Option (List ν)
  | owners, [] => some owners
  | [], _ :: _ => none
  | owner :: owners, (sender, beat) :: beats =>
    if sender = owner then follow last (if last beat then owners else owner :: owners) beats else none

variable [DecidableEq ν] {last : β → Bool}

@[simp] theorem follow_nil (owners : List ν) : follow last owners ([] : List (ν × β)) = some owners := by
  cases owners <;> rfl

theorem follow_append (owners : List ν) (beats beats' : List (ν × β)) :
    follow last owners (beats ++ beats') =
      (follow last owners beats).bind fun rest => follow last rest beats' := by
  induction beats generalizing owners with
  | nil => simp
  | cons b beats ih =>
    cases owners with
    | nil => rfl
    | cons owner owners =>
      obtain ⟨sender, beat⟩ := b
      simp only [List.cons_append, follow]
      split
      · exact ih _
      · rfl

theorem follow_more {owners rest : List ν} {beats : List (ν × β)} (more : List ν)
    (h : follow last owners beats = some rest) :
    follow last (owners ++ more) beats = some (rest ++ more) := by
  induction beats generalizing owners with
  | nil =>
    simp only [follow_nil, Option.some.injEq] at h
    rw [follow_nil, h]
  | cons b beats ih =>
    cases owners with
    | nil => simp [follow] at h
    | cons owner owners =>
      obtain ⟨sender, beat⟩ := b
      simp only [List.cons_append, follow] at h ⊢
      split at h
      case isTrue heq =>
        rw [if_pos heq]
        have happ : (if last beat then owners ++ more else owner :: (owners ++ more)) =
            (if last beat then owners else owner :: owners) ++ more := by
          split <;> rfl
        rw [happ]
        exact ih h
      case isFalse => cases h

/-! ## Bursts with their addresses -/

/-- The first burst, when its last beat is there, and what comes after it. -/
def burst (last : β → Bool) : List β → Option (List β × List β)
  | [] => none
  | b :: bs => if last b then some ([b], bs) else (burst last bs).map fun p => (b :: p.1, p.2)

/-- The addresses with their complete bursts, then the addresses and the beats that are left. -/
def pair (last : β → Bool) : List α → List β → List (α × List β) × List α × List β
  | [], beats => ([], [], beats)
  | a :: as, beats =>
    match burst last beats with
    | none => ([], a :: as, beats)
    | some (b, rest) =>
      let (paired, as', beats') := pair last as rest
      ((a, b) :: paired, as', beats')

theorem burst_eq {beats b rest : List β} (h : burst last beats = some (b, rest)) :
    beats = b ++ rest := by
  induction beats generalizing b with
  | nil => cases h
  | cons x xs ih =>
    unfold burst at h
    split at h
    · cases h
      rfl
    · obtain ⟨p, hp, heq⟩ := Option.map_eq_some_iff.mp h
      cases heq
      rw [ih hp, List.cons_append]

theorem pair_addresses (addresses : List α) (beats : List β) :
    (pair last addresses beats).1.map Prod.fst ++ (pair last addresses beats).2.1 = addresses := by
  induction addresses generalizing beats with
  | nil => rfl
  | cons a as ih =>
    unfold pair
    split
    · rfl
    · simp [ih]

theorem pair_beats (addresses : List α) (beats : List β) :
    (pair last addresses beats).1.flatMap Prod.snd ++ (pair last addresses beats).2.2 = beats := by
  induction addresses generalizing beats with
  | nil => rfl
  | cons a as ih =>
    unfold pair
    split
    next => rfl
    next b rest heq => simp [ih, burst_eq heq]

theorem burst_append {beats b rest : List β} (more : List β) (h : burst last beats = some (b, rest)) :
    burst last (beats ++ more) = some (b, rest ++ more) := by
  induction beats generalizing b with
  | nil => cases h
  | cons x xs ih =>
    rw [List.cons_append]
    unfold burst at h ⊢
    split at h
    next hlast =>
      cases h
      rw [if_pos hlast]
    next hlast =>
      obtain ⟨p, hp, heq⟩ := Option.map_eq_some_iff.mp h
      cases heq
      rw [if_neg hlast, ih hp, Option.map_some]

theorem pair_append (addresses addresses' : List α) (beats beats' : List β) :
    pair last (addresses ++ addresses') (beats ++ beats') =
      let p := pair last addresses beats
      let p' := pair last (p.2.1 ++ addresses') (p.2.2 ++ beats')
      (p.1 ++ p'.1, p'.2.1, p'.2.2) := by
  induction addresses generalizing beats with
  | nil => rfl
  | cons a as ih =>
    rw [List.cons_append]
    cases hburst : burst last beats with
    | none => simp [pair, hburst]
    | some p => simp [pair, hburst, burst_append beats' hburst, ih]

theorem burst_none {beats : List β} (h : ∀ b ∈ beats, last b = false) : burst last beats = none := by
  induction beats with
  | nil => rfl
  | cons x xs ih =>
    rw [List.forall_mem_cons] at h
    simp [burst, h.1, ih h.2]

theorem burst_last {beats : List β} {b : β} (h : ∀ b ∈ beats, last b = false) (hb : last b) :
    burst last (beats ++ [b]) = some (beats ++ [b], []) := by
  induction beats with
  | nil => simp [burst, hb]
  | cons x xs ih =>
    rw [List.forall_mem_cons] at h
    simp [burst, h.1, ih h.2]

/-- Each complete burst has one beat more than its address says, and none is longer. -/
def Fits (last : β → Bool) (len : α → Nat) (addresses : List α) (beats : List β) : Prop :=
  (∀ p ∈ (pair last addresses beats).1, p.2.length = len p.1 + 1) ∧
    ∀ a ∈ (pair last addresses beats).2.1.head?, (pair last addresses beats).2.2.length ≤ len a

end Lib.Axi
