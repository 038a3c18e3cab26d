import Mathlib.Data.List.Basic
import Mathlib.Data.Nat.Basic

/-!
# Spans of bytes in beats

A sequence of beats of `w` bytes each carries spans of bytes: every span starts in a
beat of its own, at any byte, and takes as many beats as it needs. The bytes of all
spans, one after the other, are a stream. A stream is cut into rows of `w` bytes
again, and a mark ends a row early.
-/

namespace Lib

variable {α μ ν : Type}

/-! ## Marks -/

/-- Bytes, of which the one that is number `n` has the mark. -/
def marked (mark : Option μ) : (n : Nat) → List α → List (α × Option μ)
  | _, [] => []
  | n, a :: l => (a, if n = 1 then mark else none) :: marked mark (n - 1) l

section Marked

variable {mark : Option μ}

@[simp] theorem marked_length (n : Nat) (l : List α) : (marked mark n l).length = l.length := by
  induction l generalizing n with
  | nil => rfl
  | cons a l ih => simp [marked, ih]

theorem marked_append (n : Nat) (l l' : List α) :
    marked mark n (l ++ l') = marked mark n l ++ marked mark (n - l.length) l' := by
  induction l generalizing n with
  | nil => rfl
  | cons a l ih =>
    rw [List.cons_append, marked, marked, ih, List.cons_append, List.length_cons, Nat.sub_sub,
      Nat.add_comm 1]

theorem marked_of_short {n : Nat} {l : List α} (h : l.length < n ∨ mark = none) :
    marked mark n l = l.map fun a => (a, none) := by
  induction l generalizing n with
  | nil => rfl
  | cons a l ih =>
    rw [List.length_cons] at h
    rw [marked, ih (h.imp (by omega) id), List.map_cons]
    rcases h with h | h
    · rw [if_neg (by omega)]
    · rw [h, ite_self]

theorem marked_all {n : Nat} {l : List α} {a : α} (h : n = l.length + 1) :
    marked mark n (l ++ [a]) = l.map (fun a => (a, none)) ++ [(a, mark)] := by
  have hone : n - l.length = 1 := by omega
  rw [marked_append, marked_of_short (.inl (by omega)), hone]
  rfl

theorem marked_none_append {n : Nat} (hn : 0 < n) (m : Nat) (l l' : List α) :
    marked none m l ++ marked mark n l' = marked mark (l.length + n) (l ++ l') := by
  have hfirst : marked mark (l.length + n) l = l.map fun a => (a, none) :=
    marked_of_short (.inl (by omega))
  rw [marked_append, Nat.add_sub_cancel_left, hfirst, marked_of_short (.inr rfl)]

theorem marked_count (hmark : mark.isSome) {n : Nat} (hn : 0 < n) (l : List α) :
    (marked mark n l).countP (fun x => x.2.isSome) = if n ≤ l.length then 1 else 0 := by
  induction l generalizing n with
  | nil => simp [marked, Nat.not_le.mpr hn]
  | cons a l ih =>
    rw [marked, List.countP_cons, List.length_cons]
    by_cases hone : n = 1
    · have hnone : marked mark (n - 1) l = l.map fun a => (a, none) := by
        subst hone
        clear ih
        induction l with
        | nil => rfl
        | cons b l ih => simpa [marked] using ih
      rw [hnone, List.countP_map, if_pos hone, if_pos (show n ≤ l.length + 1 by omega)]
      simp [hmark, Function.comp_def]
    · rw [ih (by omega), if_neg hone]
      simp only [Option.isSome_none, Bool.false_eq_true, if_false, Nat.add_zero]
      congr 1
      rw [eq_iff_iff]
      omega

theorem marked_map (f : Option μ → Option ν) (hf : f none = none) (n : Nat) (l : List α) :
    (marked mark n l).map (fun x => (x.1, f x.2)) = marked (f mark) n l := by
  induction l generalizing n with
  | nil => rfl
  | cons a l ih =>
    rw [marked, marked, List.map_cons, ih]
    split <;> simp [hf]

end Marked

/-! ## Spans -/

/-- Where a span starts in its first beat, how long it is, and the mark of its last byte. -/
structure Span (μ : Type) where
  offset : Nat
  length : Nat
  mark : Option μ

namespace Span

variable (w : Nat) (t : Span μ)

/-- The number of its beats. -/
def beats : Nat := (t.offset + t.length + w - 1) / w

/-- It starts in its first beat and has a byte. -/
structure Ok : Prop where
  offset : t.offset < w
  length : 0 < t.length

/-- What comes after the first beat. -/
def rest : Span μ := ⟨0, t.offset + t.length - w, t.mark⟩

/-- Its bytes in the beats that have come. -/
def read (beats : List (List α)) : List (α × Option μ) :=
  marked t.mark t.length ((beats.flatten.drop t.offset).take t.length)

variable {w t}

theorem beats_of_le (h : t.Ok w) (hle : t.offset + t.length ≤ w) : t.beats w = 1 := by
  have hoffset := h.offset
  have hlength := h.length
  rw [beats, show t.offset + t.length + w - 1 = t.offset + t.length - 1 + w by omega,
    Nat.add_div_right _ (by omega), Nat.div_eq_of_lt (by omega)]

theorem beats_of_lt (hw : 0 < w) (hlt : w < t.offset + t.length) :
    t.beats w = (t.rest w).beats w + 1 := by
  rw [beats, beats, rest, show t.offset + t.length + w - 1 =
    0 + (t.offset + t.length - w) + w - 1 + w by omega, Nat.add_div_right _ hw]

theorem rest_ok (hw : 0 < w) (hlt : w < t.offset + t.length) : (t.rest w).Ok w :=
  ⟨hw, by unfold rest; dsimp only; omega⟩

theorem beats_pos (h : t.Ok w) : 0 < t.beats w := by
  have hoffset := h.offset
  have hlength := h.length
  exact Nat.div_pos (by omega) (by omega)

end Span

variable {w : Nat} {t : Span μ} {ts : List (Span μ)}

/-- The bytes of the spans, as far as the beats have come. -/
def stream (w : Nat) : List (Span μ) → List (List α) → List (α × Option μ)
  | [], _ => []
  | t :: ts, beats => t.read (beats.take (t.beats w)) ++ stream w ts (beats.drop (t.beats w))

/-- How many spans have all their beats, when `k` beats have come. -/
def ended (w : Nat) : List (Span μ) → (k : Nat) → Nat
  | [], _ => 0
  | t :: ts, k => if t.beats w ≤ k then ended w ts (k - t.beats w) + 1 else 0

/-- Which beats are the last of their spans. -/
def lasts (w : Nat) (ts : List (Span μ)) : List Bool :=
  ts.flatMap fun t => List.replicate (t.beats w - 1) false ++ [true]

/-- What is left of the spans after one beat. -/
def after_beat (w : Nat) (t : Span μ) (ts : List (Span μ)) : List (Span μ) :=
  if t.offset + t.length ≤ w then ts else t.rest w :: ts

@[simp] theorem stream_no_beats (ts : List (Span μ)) : stream w ts ([] : List (List α)) = [] := by
  induction ts with
  | nil => rfl
  | cons t ts ih => simp [stream, ih, Span.read, marked]

theorem stream_cons (h : t.Ok w) {b : List α} (hb : b.length = w) (bs : List (List α)) :
    stream w (t :: ts) (b :: bs) = marked t.mark t.length ((b.drop t.offset).take t.length) ++
      stream w (after_beat w t ts) bs := by
  have hoffset := h.offset
  unfold after_beat
  split
  case isTrue hle => simp [stream, Span.beats_of_le h hle, Span.read]
  case isFalse hgt =>
    have hlt : w < t.offset + t.length := by omega
    have hread : t.read (b :: bs.take ((t.rest w).beats w)) =
        marked t.mark t.length ((b.drop t.offset).take t.length) ++
          (t.rest w).read (bs.take ((t.rest w).beats w)) := by
      have hlen : (b.drop t.offset).length = w - t.offset := by rw [List.length_drop, hb]
      rw [Span.read, Span.read, List.flatten_cons, List.drop_append_of_le_length (by omega),
        List.take_append, List.take_of_length_le (show (b.drop t.offset).length ≤ t.length by omega),
        hlen, marked_append, hlen, Span.rest]
      simp only [List.drop_zero]
      rw [show t.length - (w - t.offset) = t.offset + t.length - w by omega]
    rw [stream, stream, Span.beats_of_lt (by omega) hlt, List.take_succ_cons, List.drop_succ_cons,
      hread, List.append_assoc]

theorem lasts_cons (h : t.Ok w) :
    lasts w (t :: ts) = decide (t.offset + t.length ≤ w) :: lasts w (after_beat w t ts) := by
  have hoffset := h.offset
  unfold after_beat
  split
  case isTrue hle => simp [lasts, Span.beats_of_le h hle, hle]
  case isFalse hgt =>
    have hlt : w < t.offset + t.length := by omega
    have hpos := Span.beats_pos (Span.rest_ok (by omega) hlt)
    rw [lasts, lasts, List.flatMap_cons, List.flatMap_cons, Span.beats_of_lt (by omega) hlt,
      Nat.add_sub_cancel, decide_eq_false hgt]
    conv => lhs; rw [← Nat.sub_add_cancel hpos, List.replicate_succ]
    rfl

theorem lasts_append (ts ts' : List (Span μ)) : lasts w (ts ++ ts') = lasts w ts ++ lasts w ts' :=
  List.flatMap_append

theorem after_beat_ok (h : t.Ok w) (hts : ∀ x ∈ ts, Span.Ok w x) :
    ∀ x ∈ after_beat w t ts, Span.Ok w x := by
  have hoffset := h.offset
  rw [after_beat]
  by_cases hle : t.offset + t.length ≤ w
  · rw [if_pos hle]
    exact hts
  · rw [if_neg hle]
    exact List.forall_mem_cons.mpr ⟨Span.rest_ok (by omega) (by omega), hts⟩

/-- A span that is cut between two beats. -/
theorem stream_split {offset n len : Nat} {mark : Option μ} (hoffset : offset < w) (hn : 0 < n)
    (hrow : w ∣ offset + n) (hlt : n < len) (ts : List (Span μ)) {beats : List (List α)}
    (hw : ∀ b ∈ beats, b.length = w) :
    stream w (⟨offset, n, none⟩ :: ⟨0, len - n, mark⟩ :: ts) beats =
      stream w (⟨offset, len, mark⟩ :: ts) beats := by
  induction beats generalizing offset n len with
  | nil => simp
  | cons b bs ih =>
    obtain ⟨hb, hbs⟩ := List.forall_mem_cons.mp hw
    have hok : (⟨offset, n, none⟩ : Span μ).Ok w := ⟨hoffset, hn⟩
    have hok' : (⟨offset, len, mark⟩ : Span μ).Ok w := ⟨hoffset, by dsimp only; omega⟩
    have hrowle : w ≤ offset + n := Nat.le_of_dvd (by omega) hrow
    have hlen : (b.drop offset).length = w - offset := by rw [List.length_drop, hb]
    have hhead : marked (none : Option μ) n ((b.drop offset).take n) =
        marked mark len ((b.drop offset).take len) := by
      rw [List.take_of_length_le (by omega), List.take_of_length_le (by omega),
        marked_of_short (.inr rfl), marked_of_short (.inl (by omega))]
    rw [stream_cons hok hb, stream_cons hok' hb, after_beat, after_beat]
    dsimp only
    rw [hhead, if_neg (show ¬offset + len ≤ w by omega)]
    congr 1
    by_cases hle : offset + n ≤ w
    · rw [if_pos hle, Span.rest]
      dsimp only
      rw [show len - n = offset + len - w by omega]
    · have hmore : w ∣ 0 + (offset + n - w) := by
        rw [Nat.zero_add]
        exact Nat.dvd_sub hrow (Nat.dvd_refl w)
      have hrest := ih (by omega) (by omega) hmore (show offset + n - w < offset + len - w by omega) hbs
      rw [if_neg hle, Span.rest, Span.rest]
      dsimp only
      rw [← hrest, show offset + len - w - (offset + n - w) = len - n by omega]

theorem stream_ended {beats : List (List α)} (hw : ∀ b ∈ beats, b.length = w)
    (hok : ∀ x ∈ ts, Span.Ok w x) (hmark : ∀ x ∈ ts, x.mark.isSome) :
    (stream w ts beats).countP (fun x => x.2.isSome) = ended w ts beats.length := by
  induction beats generalizing ts with
  | nil =>
    rw [stream_no_beats]
    cases ts with
    | nil => rfl
    | cons t ts =>
      have hpos := Span.beats_pos (hok t (by simp))
      rw [ended, if_neg (by simp; omega)]
      rfl
  | cons b bs ih =>
    obtain ⟨hb, hbs⟩ := List.forall_mem_cons.mp hw
    cases ts with
    | nil => rfl
    | cons t ts =>
      obtain ⟨ht, hts⟩ := List.forall_mem_cons.mp hok
      obtain ⟨hm, hms⟩ := List.forall_mem_cons.mp hmark
      have hoffset := ht.offset
      have hafter : ∀ x ∈ after_beat w t ts, x.mark.isSome := by
        rw [after_beat]
        by_cases hle : t.offset + t.length ≤ w
        · rw [if_pos hle]
          exact hms
        · rw [if_neg hle]
          exact List.forall_mem_cons.mpr ⟨hm, hms⟩
      rw [stream_cons ht hb, List.countP_append, marked_count hm ht.length, ih hbs (after_beat_ok ht hts)
        hafter, List.length_take, List.length_drop, hb, ended, List.length_cons, after_beat]
      by_cases hle : t.offset + t.length ≤ w
      · rw [if_pos hle, if_pos (by omega), Span.beats_of_le ht hle, if_pos (by omega),
          Nat.add_sub_cancel, Nat.add_comm]
      · rw [if_neg hle, if_neg (by omega), Span.beats_of_lt (by omega) (by omega), ended, Nat.zero_add]
        simp only [Nat.add_le_add_iff_right, Nat.add_sub_add_right]

theorem stream_grows (ts ts' : List (Span μ)) (beats : List (List α)) :
    stream w ts beats <+: stream w (ts ++ ts') beats := by
  induction ts generalizing beats with
  | nil => exact List.nil_prefix
  | cons t ts ih => exact (List.prefix_append_right_inj _).mpr (ih _)

theorem stream_map (f : Option μ → Option ν) (hf : f none = none) (ts : List (Span μ))
    (beats : List (List α)) :
    (stream w ts beats).map (fun x => (x.1, f x.2)) =
      stream w (ts.map fun t => ⟨t.offset, t.length, f t.mark⟩) beats := by
  induction ts generalizing beats with
  | nil => rfl
  | cons t ts ih =>
    rw [stream, List.map_append, ih, List.map_cons, stream, Span.read, marked_map f hf]
    rfl

/-! ## Rows -/

variable {ends : α → Bool}

/-- The rows that are complete, after what is collected already. -/
def cut (w : Nat) (ends : α → Bool) : (acc : List α) → List α → List (List α)
  | _, [] => []
  | acc, a :: l =>
    if ends a || acc.length + 1 = w then (acc ++ [a]) :: cut w ends [] l
    else cut w ends (acc ++ [a]) l

/-- A row: it ends where the mark is or where it is full. -/
structure IsRow (w : Nat) (ends : α → Bool) (init : List α) (a : α) : Prop where
  before : ∀ x ∈ init, ends x = false
  room : init.length < w
  closed : ends a ∨ init.length + 1 = w

theorem cut_collect {acc init : List α} (hopen : ∀ x ∈ init, ends x = false)
    (hroom : acc.length + init.length < w) (l : List α) :
    cut w ends acc (init ++ l) = cut w ends (acc ++ init) l := by
  induction init generalizing acc with
  | nil => simp
  | cons a init ih =>
    obtain ⟨ha, hinit⟩ := List.forall_mem_cons.mp hopen
    rw [List.length_cons] at hroom
    have hnot : ¬(ends a || decide (acc.length + 1 = w)) = true := by
      simp [ha]
      omega
    rw [List.cons_append, cut, if_neg hnot, ih hinit (by simp; omega)]
    simp

theorem cut_row {init : List α} {a : α} (h : IsRow w ends init a) (l : List α) :
    cut w ends [] (init ++ [a] ++ l) = (init ++ [a]) :: cut w ends [] l := by
  have hclosed : (ends a || decide (init.length + 1 = w)) = true := by
    rcases h.closed with h | h <;> simp [h]
  rw [List.append_assoc, cut_collect h.before (by simpa using h.room), List.nil_append,
    List.singleton_append, cut, if_pos hclosed]

theorem cut_open {l : List α} (hopen : ∀ x ∈ l, ends x = false) (hroom : l.length < w) :
    cut w ends [] l = [] := by
  have h := @cut_collect _ w ends [] l hopen (by simpa using hroom) []
  rw [List.append_nil] at h
  rw [h]
  rfl

theorem cut_grows (acc l l' : List α) : cut w ends acc l <+: cut w ends acc (l ++ l') := by
  induction l generalizing acc with
  | nil => exact List.nil_prefix
  | cons a l ih =>
    rw [List.cons_append, cut, cut]
    split
    · exact List.cons_prefix_cons.mpr ⟨rfl, ih []⟩
    · exact ih _

/-! ## Places

The place of a byte counts the bytes before it. After a mark, rows begin anew, and the
place of the next byte is the next multiple of `w`. -/

def next_row (w a : Nat) : Nat := (a + w - 1) / w * w

theorem next_row_add (hw : 0 < w) (k a : Nat) : next_row w (k * w + a) = k * w + next_row w a := by
  unfold next_row
  rw [show k * w + a + w - 1 = a + w - 1 + k * w by omega, Nat.add_mul_div_right _ _ hw, Nat.add_mul,
    Nat.add_comm]

theorem next_row_div (hw : 0 < w) {a : Nat} (ha : 0 < a) (hle : a ≤ w) : next_row w a = w := by
  unfold next_row
  rw [show a + w - 1 = a - 1 + w by omega, Nat.add_div_right _ hw, Nat.div_eq_of_lt (by omega)]
  exact Nat.one_mul w

theorem le_next_row (hw : 0 < w) (a : Nat) : a ≤ next_row w a ∧ next_row w a < a + w := by
  have hmod := Nat.mod_lt (a + w - 1) hw
  have hsum := Nat.div_add_mod' (a + w - 1) w
  unfold next_row
  omega

/-- The place behind some bytes. -/
def fill (w : Nat) (ends : α → Bool) : Nat → List α → Nat
  | n, [] => n
  | n, a :: l => fill w ends (if ends a then next_row w (n + 1) else n + 1) l

theorem fill_append (n : Nat) (l l' : List α) :
    fill w ends n (l ++ l') = fill w ends (fill w ends n l) l' := by
  induction l generalizing n with
  | nil => rfl
  | cons a l ih => exact ih _

theorem fill_add (hw : 0 < w) (k n : Nat) (l : List α) :
    fill w ends (k * w + n) l = k * w + fill w ends n l := by
  induction l generalizing n with
  | nil => rfl
  | cons a l ih =>
    rw [fill, fill, Nat.add_assoc, next_row_add hw, ← ih]
    split <;> rfl

theorem cut_length (hw : 0 < w) {acc : List α} (hacc : acc.length < w) (l : List α) :
    (cut w ends acc l).length = fill w ends acc.length l / w := by
  induction l generalizing acc with
  | nil => exact (Nat.div_eq_of_lt hacc).symm
  | cons a l ih =>
    rw [cut, fill]
    by_cases hfull : (ends a || decide (acc.length + 1 = w)) = true
    · have hrow : (if ends a then next_row w (acc.length + 1) else acc.length + 1) = 1 * w + 0 := by
        rw [Bool.or_eq_true, decide_eq_true_eq] at hfull
        split
        case isTrue => rw [next_row_div hw (by omega) (by omega)]; omega
        case isFalse hnot => rw [hfull.resolve_left hnot]; omega
      have hrest := ih (show ([] : List α).length < w from hw)
      rw [if_pos hfull, hrow, fill_add hw, List.length_cons, hrest, Nat.one_mul, Nat.add_comm w,
        Nat.add_div_right _ hw]
      rfl
    · rw [Bool.or_eq_true, decide_eq_true_eq, not_or] at hfull
      have hlen : (acc ++ [a]).length = acc.length + 1 := by simp
      rw [if_neg (by simpa using hfull), if_neg hfull.1, ih (by omega), hlen]

theorem cut_flatten {acc : List α} (hacc : ∀ x ∈ acc, ends x = false) (l : List α) :
    ∃ rest, acc ++ l = (cut w ends acc l).flatten ++ rest ∧ ∀ x ∈ rest, ends x = false := by
  induction l generalizing acc with
  | nil => exact ⟨acc, by simp [cut], hacc⟩
  | cons a l ih =>
    rw [cut]
    by_cases hfull : (ends a || decide (acc.length + 1 = w)) = true
    · obtain ⟨rest, hrest, hopen⟩ := @ih [] (by simp)
      refine ⟨rest, ?_, hopen⟩
      rw [if_pos hfull, List.flatten_cons, List.append_assoc, ← hrest]
      simp
    · have ha : ends a = false := eq_false_of_ne_true fun h => hfull (by simp [h])
      have hacc' : ∀ x ∈ acc ++ [a], ends x = false := by
        intro x hx
        rcases List.mem_append.mp hx with hx | hx
        · exact hacc x hx
        · rw [List.mem_singleton.mp hx]
          exact ha
      obtain ⟨rest, hrest, hopen⟩ := ih hacc'
      refine ⟨rest, ?_, hopen⟩
      rw [if_neg hfull, ← hrest]
      simp

theorem cut_countP {l : List α} : (cut w ends [] l).flatten.countP ends = l.countP ends := by
  obtain ⟨rest, hrest, hopen⟩ := @cut_flatten _ w ends [] (by simp) l
  rw [List.nil_append] at hrest
  conv => rhs; rw [hrest]
  have hnone : rest.countP ends = 0 := by simpa [List.countP_eq_zero] using hopen
  rw [List.countP_append, hnone, Nat.add_zero]

/-! ### The place behind spans that have come -/

section Places

variable {mark : Option μ}

/-- A byte with a mark. -/
def has_mark (x : α × Option μ) : Bool := x.2.isSome

theorem fill_open (n : Nat) (l : List α) :
    fill w has_mark n (l.map fun a => (a, (none : Option μ))) = n + l.length := by
  induction l generalizing n with
  | nil => rfl
  | cons a l ih =>
    rw [List.map_cons, fill, if_neg (by simp [has_mark]), ih, List.length_cons]
    omega

/-- The place behind a span. -/
def Span.fill (w n : Nat) (t : Span μ) : Nat :=
  if t.mark.isSome then next_row w (n + t.length) else n + t.length

theorem flatten_length {beats : List (List α)} (hw : ∀ b ∈ beats, b.length = w) :
    beats.flatten.length = beats.length * w := by
  induction beats with
  | nil => simp
  | cons b bs ih =>
    obtain ⟨hb, hbs⟩ := List.forall_mem_cons.mp hw
    rw [List.flatten_cons, List.length_append, hb, ih hbs, List.length_cons, Nat.succ_mul, Nat.add_comm]

theorem read_all (h : t.Ok w) {beats : List (List α)} (hw : ∀ b ∈ beats, b.length = w)
    (hall : t.beats w ≤ beats.length) :
    ∃ (l : List α) (a : α), l.length + 1 = t.length ∧
      t.read (beats.take (t.beats w)) = l.map (fun a => (a, none)) ++ [(a, t.mark)] := by
  have hoffset := h.offset
  have hlength := h.length
  have hbytes : ((beats.take (t.beats w)).flatten).length = t.beats w * w := by
    rw [flatten_length fun b hb => hw b (List.mem_of_mem_take hb), List.length_take,
      Nat.min_eq_left hall]
  have hroom : t.offset + t.length ≤ t.beats w * w := (le_next_row (by omega) _).1
  obtain ⟨l, a, hl⟩ := List.eq_nil_or_concat' ((((beats.take (t.beats w)).flatten).drop t.offset).take
    t.length) |>.resolve_left (by
      rw [← List.length_eq_zero_iff, List.length_take, List.length_drop, hbytes]
      omega)
  have hlen := congrArg List.length hl
  rw [List.length_take, List.length_drop, hbytes, List.length_append, List.length_singleton] at hlen
  refine ⟨l, a, by omega, ?_⟩
  rw [Span.read, hl, marked_all (by omega)]

theorem read_fill (h : t.Ok w) {beats : List (List α)} (hw : ∀ b ∈ beats, b.length = w)
    (hall : t.beats w ≤ beats.length) (n : Nat) :
    fill w has_mark n (t.read (beats.take (t.beats w))) = t.fill w n ∧
      (t.read (beats.take (t.beats w))).countP has_mark = t.mark.isSome.toNat := by
  obtain ⟨l, a, hlen, hread⟩ := read_all h hw hall
  rw [hread]
  constructor
  · rw [fill_append, fill_open, fill, fill, Span.fill, Nat.add_assoc, hlen]
    rfl
  · rw [List.countP_append, List.countP_map]
    cases t.mark <;> simp [has_mark, Function.comp_def]

theorem stream_fill {beats : List (List α)} (hw : ∀ b ∈ beats, b.length = w)
    (hok : ∀ x ∈ ts, Span.Ok w x) (hall : (lasts w ts).length ≤ beats.length) (n : Nat) :
    fill w has_mark n (stream w ts beats) = ts.foldl (Span.fill w) n ∧
      (stream w ts beats).countP has_mark = ts.countP (fun t => t.mark.isSome) := by
  induction ts generalizing n beats with
  | nil => exact ⟨rfl, rfl⟩
  | cons t ts ih =>
    obtain ⟨ht, hts⟩ := List.forall_mem_cons.mp hok
    have hpos := Span.beats_pos ht
    have hlen : (lasts w (t :: ts)).length = t.beats w + (lasts w ts).length := by
      rw [lasts, List.flatMap_cons, List.length_append, List.length_append, List.length_replicate,
        List.length_singleton, Nat.sub_add_cancel hpos]
      rfl
    obtain ⟨hfill, hcount⟩ := read_fill ht hw (by omega) n
    have hrest : (lasts w ts).length ≤ (beats.drop (t.beats w)).length := by
      rw [List.length_drop]
      omega
    obtain ⟨hfills, hcounts⟩ := ih (fun b hb => hw b (List.mem_of_mem_drop hb)) hts hrest (t.fill w n)
    rw [stream, fill_append, hfill, List.countP_append, hcount]
    refine ⟨hfills, ?_⟩
    rw [hcounts, List.countP_cons]
    cases t.mark <;> simp [Nat.add_comm]

end Places

end Lib
