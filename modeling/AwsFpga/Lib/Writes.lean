import Mathlib.Data.BitVec
import Mathlib.Data.List.Basic
import AwsFpga.Lib.Bursts

/-!
# What bursts write

A beat writes some lanes of a word. The first beat of a burst goes to the word that holds its
address, and each other one to the word behind.
-/

namespace Lib

variable {a : Nat} {β γ : Type}

/-! ## Bytes that follow one another -/

/-- The values of `f`, from an address on. -/
def placed (addr : BitVec a) (n : Nat) (f : Nat → γ) : List (BitVec a × γ) :=
  (List.range n).map fun k => (addr + BitVec.ofNat a k, f k)

section Placed

variable {addr : BitVec a} {m n : Nat} {f g : Nat → γ}

@[simp] theorem placed_zero : placed addr 0 f = [] := rfl

theorem placed_add : placed addr (m + n) f =
    placed addr m f ++ placed (addr + BitVec.ofNat a m) n fun k => f (m + k) := by
  unfold placed
  rw [List.range_add, List.map_append, List.map_map]
  congr 1
  apply List.map_congr_left
  intro k _
  simp [BitVec.ofNat_add, BitVec.add_assoc]

theorem placed_congr (h : ∀ k < n, f k = g k) : placed addr n f = placed addr n g := by
  apply List.map_congr_left
  intro k hk
  rw [h k (List.mem_range.mp hk)]

theorem placed_values : (placed addr n f).map Prod.snd = (List.range n).map f := by
  unfold placed
  rw [List.map_map]
  rfl

theorem placed_prefix (h : m ≤ n) : placed addr m f <+: placed addr n f := by
  obtain ⟨d, rfl⟩ := Nat.exists_eq_add_of_le h
  rw [placed_add]
  exact List.prefix_append _ _

end Placed

theorem filterMap_window (start : Nat) {w n : Nat} {f : Nat → Option γ} {g : Nat → γ} (hfits : start + n ≤ w)
    (hin : ∀ k < n, f (start + k) = some (g k))
    (hout : ∀ l < w, l < start ∨ start + n ≤ l → f l = none) :
    (List.range w).filterMap f = (List.range n).map g := by
  obtain ⟨d, rfl⟩ := Nat.exists_eq_add_of_le hfits
  have hbelow : (List.range start).filterMap f = [] := by
    rw [List.filterMap_eq_nil_iff]
    intro l hl
    rw [List.mem_range] at hl
    exact hout l (by omega) (.inl hl)
  have habove : ((List.range d).map fun l => start + n + l).filterMap f = [] := by
    rw [List.filterMap_eq_nil_iff]
    intro l hl
    obtain ⟨k, hk, rfl⟩ := List.mem_map.mp hl
    rw [List.mem_range] at hk
    exact hout _ (by omega) (.inr (Nat.le_add_right _ _))
  rw [List.range_add, List.range_add, List.filterMap_append, List.filterMap_append, hbelow, habove,
    List.nil_append, List.append_nil, List.filterMap_map, ← List.filterMap_eq_map]
  apply List.filterMap_congr
  intro k hk
  exact hin k (List.mem_range.mp hk)

/-! ## Beats -/

/-- Lane `l` of the `m`-th word from the one that holds an address. -/
def lane_addr (w : Nat) (addr : BitVec a) (m l : Nat) : BitVec a :=
  BitVec.ofNat a (w * (addr.toNat / w + m) + l)

namespace Burst

section Writes

variable (w : Nat) (lane : β → Nat → Option γ)

/-- What beat `m` of a burst writes, when `lane` says what each of its lanes does. -/
def beat_writes (b : Burst a) (m : Nat) (x : β) : List (BitVec a × γ) :=
  (List.range w).filterMap fun l => (lane x l).map fun v => (lane_addr w b.addr m l, v)

/-- What the first beats of a burst write. -/
def writes (b : Burst a) (xs : List β) : List (BitVec a × γ) :=
  xs.zipIdx.flatMap fun x => b.beat_writes w lane x.2 x.1

/-- What bursts write, when each takes its beats from those that the bursts before it left. -/
def all_writes : List (Burst a) → List β → List (BitVec a × γ)
  | [], _ => []
  | b :: bs, xs => b.writes w lane (xs.take b.beats) ++ all_writes bs (xs.drop b.beats)

end Writes

variable {w : Nat} {lane : β → Nat → Option γ} {b : Burst a} {bs bs' : List (Burst a)}
  {xs ys : List β} {x : β}

@[simp] theorem writes_nil : b.writes w lane [] = [] := rfl

theorem writes_concat :
    b.writes w lane (xs ++ [x]) = b.writes w lane xs ++ b.beat_writes w lane xs.length x := by
  unfold writes
  rw [List.zipIdx_append, List.flatMap_append]
  simp

theorem writes_prefix : b.writes w lane xs <+: b.writes w lane (xs ++ ys) := by
  unfold writes
  rw [List.zipIdx_append, List.flatMap_append]
  exact List.prefix_append _ _

@[simp] theorem all_writes_nil (bs : List (Burst a)) : all_writes w lane bs [] = [] := by
  induction bs with
  | nil => rfl
  | cons b bs ih =>
    unfold all_writes
    rw [List.take_nil, List.drop_nil, ih]
    rfl

/-- Bursts that have all their beats leave the others to those that come after. -/
theorem all_writes_append (h : xs.length = (bs.map Burst.beats).sum) :
    all_writes w lane (bs ++ bs') (xs ++ ys) =
      all_writes w lane bs xs ++ all_writes w lane bs' ys := by
  induction bs generalizing xs with
  | nil =>
    obtain rfl : xs = [] := List.length_eq_zero_iff.mp h
    rfl
  | cons b bs ih =>
    rw [List.map_cons, List.sum_cons] at h
    have hle : b.beats ≤ xs.length := by omega
    rw [List.cons_append, all_writes, all_writes, List.take_append_of_le_length hle,
      List.drop_append_of_le_length hle, ih (by rw [List.length_drop]; omega), List.append_assoc]

theorem all_writes_single (h : xs.length ≤ b.beats) : all_writes w lane [b] xs = b.writes w lane xs := by
  rw [all_writes, List.take_of_length_le h]
  exact List.append_nil _

theorem all_writes_prefix : all_writes w lane bs xs <+: all_writes w lane bs (xs ++ ys) := by
  induction bs generalizing xs with
  | nil => exact List.prefix_rfl
  | cons b bs ih =>
    unfold all_writes
    rcases Nat.le_total b.beats xs.length with hle | hle
    · rw [List.take_append_of_le_length hle, List.drop_append_of_le_length hle]
      exact (List.prefix_append_right_inj _).mpr ih
    · have htake : (xs ++ ys).take b.beats = xs ++ ys.take (b.beats - xs.length) := by
        rw [List.take_append, List.take_of_length_le hle]
      rw [htake, List.take_of_length_le hle, List.drop_eq_nil_of_le hle, all_writes_nil,
        List.append_nil]
      exact writes_prefix.trans (List.prefix_append _ _)

/-! ## Beats that hold what is placed -/

/-- How many bytes the first `m` beats hold, of `n` bytes from byte `start` of a word on. -/
def held (w start n m : Nat) : Nat := min n (w * m - start)

/-- A beat holds the bytes that come next in its lanes from `start` on. -/
structure Holds (w : Nat) (lane : β → Nat → Option γ) (start n m : Nat) (f : Nat → γ) (x : β) :
    Prop where
  inside : ∀ k < held w start n (m + 1) - held w start n m,
    lane x ((if m = 0 then start else 0) + k) = some (f (held w start n m + k))
  outside : ∀ l < w, l < (if m = 0 then start else 0) ∨
    (if m = 0 then start else 0) + (held w start n (m + 1) - held w start n m) ≤ l → lane x l = none

theorem beat_writes_placed {n m : Nat} {f : Nat → γ} (hw : 0 < w)
    (hmore : held w (b.addr.toNat % w) n m < n)
    (h : Holds w lane (b.addr.toNat % w) n m f x) :
    b.beat_writes w lane m x = placed (b.addr + BitVec.ofNat a (held w (b.addr.toNat % w) n m))
      (held w (b.addr.toNat % w) n (m + 1) - held w (b.addr.toNat % w) n m)
      fun k => f (held w (b.addr.toNat % w) n m + k) := by
  have hlt := Nat.mod_lt b.addr.toNat hw
  have hsplit := Nat.div_add_mod b.addr.toNat w
  have hsucc : w * (m + 1) = w * m + w := Nat.mul_succ w m
  unfold beat_writes placed
  apply filterMap_window (if m = 0 then b.addr.toNat % w else 0)
  · unfold held at *
    rw [hsucc]
    rcases Nat.eq_zero_or_pos m with rfl | hm
    · rw [if_pos rfl, Nat.mul_zero]
      omega
    · rw [if_neg (Nat.pos_iff_ne_zero.mp hm)]
      omega
  · intro k hk
    have haddr : w * (b.addr.toNat / w + m) + ((if m = 0 then b.addr.toNat % w else 0) + k) =
        b.addr.toNat + (held w (b.addr.toNat % w) n m + k) := by
      rw [Nat.mul_add]
      unfold held at *
      rcases Nat.eq_zero_or_pos m with rfl | hm
      · rw [if_pos rfl, Nat.mul_zero]
        omega
      · have hle : w ≤ w * m := Nat.le_mul_of_pos_right w hm
        rw [if_neg (Nat.pos_iff_ne_zero.mp hm)]
        omega
    rw [h.inside k hk, Option.map_some, lane_addr, haddr, BitVec.ofNat_add, BitVec.ofNat_add,
      BitVec.ofNat_toNat, BitVec.setWidth_eq, BitVec.add_assoc]
  · intro l hl hout
    rw [h.outside l hl hout, Option.map_none]

theorem beat_writes_full {v : γ} (hw : 0 < w) (haligned : b.addr.toNat % w = 0) (m : Nat)
    (h : ∀ l < w, lane x l = some v) : b.beat_writes w lane m x =
      placed (b.addr + BitVec.ofNat a (w * m)) w fun _ => v := by
  have hsucc : w * (m + 1) = w * m + w := Nat.mul_succ w m
  have hheld : held w (b.addr.toNat % w) (w * (m + 1)) m = w * m := by
    rw [haligned]
    exact Nat.min_eq_right (Nat.mul_le_mul_left w (Nat.le_succ m))
  have hheld' : held w (b.addr.toNat % w) (w * (m + 1)) (m + 1) = w * m + w := by
    rw [haligned, ← hsucc]
    exact Nat.min_self _
  have hholds : Holds w lane (b.addr.toNat % w) (w * (m + 1)) m (fun _ => v) x := by
    constructor <;> rw [hheld, hheld', haligned, ite_self, Nat.add_sub_cancel_left]
    · intro k hk
      rw [Nat.zero_add]
      exact h k hk
    · intro l hl hout
      omega
  have hplaced := beat_writes_placed hw (by rw [hheld, hsucc]; omega) hholds
  rwa [hheld, hheld', Nat.add_sub_cancel_left] at hplaced

theorem writes_full {v : γ} (hw : 0 < w) (haligned : b.addr.toNat % w = 0)
    (h : ∀ x ∈ xs, ∀ l < w, lane x l = some v) :
    b.writes w lane xs = placed b.addr (w * xs.length) fun _ => v := by
  induction xs using List.reverseRecOn with
  | nil => rfl
  | append_singleton xs x ih =>
    have hx := h x (List.mem_append_right _ (List.mem_singleton.mpr rfl))
    rw [writes_concat, ih fun y hy => h y (List.mem_append_left _ hy),
      beat_writes_full hw haligned xs.length hx, List.length_append, List.length_singleton,
      Nat.mul_succ, placed_add]

theorem all_writes_next {addr : BitVec a} {v : γ} (hw : 0 < w)
    (hprev : all_writes w lane bs xs = placed addr (w * xs.length) fun _ => v)
    (hsum : xs.length = (bs.map beats).sum)
    (haddr : b.addr = addr + BitVec.ofNat a (w * xs.length)) (haligned : b.addr.toNat % w = 0)
    (hlen : ys.length ≤ b.beats) (hfull : ∀ y ∈ ys, ∀ l < w, lane y l = some v) :
    all_writes w lane (bs ++ [b]) (xs ++ ys) =
      placed addr (w * (xs ++ ys).length) fun _ => v := by
  rw [all_writes_append hsum, hprev, all_writes_single hlen, writes_full hw haligned hfull, haddr,
    List.length_append, Nat.mul_add, placed_add]

/-- Bursts of `d` beats, each where the one before it ends. -/
theorem all_writes_full {addr : BitVec a} {v : γ} {next : Nat → Burst a} {d k : Nat} (hw : 0 < w)
    (haddr : ∀ j < k, (next j).addr = addr + BitVec.ofNat a (w * (j * d)))
    (haligned : ∀ j < k, (next j).addr.toNat % w = 0) (hbeats : ∀ j, (next j).beats = d)
    (hfull : ∀ x ∈ xs, ∀ l < w, lane x l = some v) (hlen : xs.length = k * d) :
    all_writes w lane ((List.range k).map next) xs = placed addr (w * xs.length) fun _ => v := by
  induction k generalizing xs with
  | zero =>
    rw [Nat.zero_mul] at hlen
    obtain rfl := List.length_eq_zero_iff.mp hlen
    rfl
  | succ k ih =>
    have hsucc : (k + 1) * d = k * d + d := Nat.succ_mul k d
    have htake : (xs.take (k * d)).length = k * d := List.length_take_of_le (by omega)
    have hdrop : (xs.drop (k * d)).length = d := by
      rw [List.length_drop]
      omega
    have hsum : (((List.range k).map next).map beats).sum = k * d := by
      rw [List.map_map]
      simp [Function.comp_def, hbeats]
    have hprev := ih (fun j hj => haddr j (Nat.lt_succ_of_lt hj))
      (fun j hj => haligned j (Nat.lt_succ_of_lt hj))
      (fun x hx => hfull x (List.mem_of_mem_take hx)) htake
    have hnext := all_writes_next hw hprev (htake.trans hsum.symm)
      (by rw [htake]; exact haddr k (Nat.lt_succ_self k)) (haligned k (Nat.lt_succ_self k))
      (by rw [hdrop, hbeats]) fun x hx => hfull x (List.mem_of_mem_drop hx)
    rw [List.take_append_drop] at hnext
    rw [List.range_succ, List.map_append]
    exact hnext

end Burst

/-! ## What is stored -/

/-- The content of a memory after some writes, the oldest first. -/
def memory_after (content : BitVec a → γ) (ws : List (BitVec a × γ)) : BitVec a → γ :=
  ws.foldl (fun content w => Function.update content w.1 w.2) content

theorem memory_after_placed {addr : BitVec a} {n : Nat} {f : Nat → γ} (content : BitVec a → γ)
    (hn : n ≤ 2 ^ a) (b : BitVec a) : memory_after content (placed addr n f) b =
      if (b - addr).toNat < n then f (b - addr).toNat else content b := by
  induction n with
  | zero => rfl
  | succ n ih =>
    have hlast : placed addr (n + 1) f = placed addr n f ++ [(addr + BitVec.ofNat a n, f n)] := by
      unfold placed
      rw [List.range_succ, List.map_append]
      rfl
    have hstored : memory_after content (placed addr (n + 1) f) =
        Function.update (memory_after content (placed addr n f)) (addr + BitVec.ofNat a n)
          (f n) := by
      rw [hlast]
      exact List.foldl_append
    rw [hstored, Function.update_apply, ih (Nat.le_of_succ_le hn)]
    have hat : b = addr + BitVec.ofNat a n ↔ (b - addr).toNat = n := by
      rw [BitVec.add_comm, ← BitVec.sub_eq_iff_eq_add, ← BitVec.toNat_inj, BitVec.toNat_ofNat,
        Nat.mod_eq_of_lt hn]
    by_cases hb : b = addr + BitVec.ofNat a n
    · rw [if_pos hb, if_pos (by rw [hat.mp hb]; exact Nat.lt_succ_self n), hat.mp hb]
    · have hne := mt hat.mpr hb
      rw [if_neg hb]
      exact if_congr (by omega) rfl rfl

end Lib
