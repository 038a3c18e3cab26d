import Mathlib.Data.List.Basic
import Mathlib.Data.BitVec

/-!
# Loops around reads and writes (`io.c`)

A system call is answered with a count or an error. What it transferred is told by
the addresses of the bytes: a read stores there what comes next from the source, and
a write sends what is stored there.
-/

namespace AwsFpga.Utils

/-- The answer of `read`, `write`, `readv` or `writev`. Of the errors, `EINTR` is told apart. -/
inductive IoAns where
  | eintr
  | error
  | count (n : Nat)
  deriving DecidableEq

/-- What the calls answer, one after the other. -/
abbrev IoAnswers : Type := Nat → IoAns

def IoAnswers.tail (ans : IoAnswers) : IoAnswers := fun k => ans (k + 1)

structure IoVec where
  iov_base : Nat
  iov_len : Nat
  deriving DecidableEq

inductive IoFault where
  /-- The vector is read behind its last entry. -/
  | beyond
  | assertion
  deriving DecidableEq

/-- What a loop returns, and the addresses of what was transferred until then. -/
structure IoOut where
  ret : Int
  bytes : List Nat
  deriving DecidableEq

def IoVec.bytes (v : IoVec) : List Nat := List.range' v.iov_base v.iov_len

/-- The bytes of all buffers. -/
def bytes (iov : List IoVec) : List Nat := iov.flatMap IoVec.bytes

/-! ## One buffer -/

/-- The loop of `sread_loop` and `write_loop`, with `calls` calls left to make and `received` bytes
transferred. No answer follows within `calls` calls when it is `none`. -/
def scalar_loop (buf size : Nat) : (calls : Nat) → IoAnswers → (received : Nat) → Option IoOut
  | 0, _, received => if received < size then none else some ⟨0, List.range' buf received⟩
  | calls + 1, ans, received =>
    if received < size then
      match ans 0 with
      | .eintr => scalar_loop buf size calls ans.tail received
      | .error => some ⟨-1, List.range' buf received⟩
      | .count 0 => some ⟨1, List.range' buf received⟩
      | .count cur => scalar_loop buf size calls ans.tail (received + cur)
    else
      some ⟨0, List.range' buf received⟩

/-- `*rsize` is the number of bytes transferred. -/
def sread_loop (ans : IoAnswers) (buf size calls : Nat) : Option (Except IoFault IoOut) :=
  (scalar_loop buf size calls ans 0).map .ok

def write_loop (fd : Int) (ans : IoAnswers) (buf size calls : Nat) : Option (Except IoFault IoOut) :=
  if fd = 0 then some (.error .assertion) else (scalar_loop buf size calls ans 0).map .ok

/-! ## Vectors -/

/-- The sum over the vector, in a `size_t`. -/
def size_of (iov : List IoVec) : Nat :=
  iov.foldl (fun size v => (size + v.iov_len) % 2 ^ 64) 0

/-- The loop that moves the vector past `rc` bytes. -/
def advance : (rc : Nat) → List IoVec → Except IoFault (List IoVec)
  | _, [] => .error .beyond
  | rc, v :: iov =>
    if rc < v.iov_len then .ok (⟨v.iov_base + rc, v.iov_len - rc⟩ :: iov)
    else advance (rc - v.iov_len) iov

/-- The body of `readv_loop` and `writev_loop`, with `calls` calls left to make. -/
def vector_loop : (calls : Nat) → IoAnswers → List IoVec → Option (Except IoFault IoOut)
  | 0, _, _ => none
  | calls + 1, ans, iov =>
    match ans 0 with
    | .eintr => vector_loop calls ans.tail iov
    | .error => some (.ok ⟨-1, []⟩)
    | .count rc =>
      if rc = size_of iov then
        some (.ok ⟨0, (bytes iov).take rc⟩)
      else
        match advance rc iov with
        | .error fault => some (.error fault)
        | .ok rest => (vector_loop calls ans.tail rest).map fun r =>
          r.map fun out => ⟨out.ret, (bytes iov).take rc ++ out.bytes⟩

def readv_loop (ans : IoAnswers) (iov : List IoVec) (calls : Nat) : Option (Except IoFault IoOut) :=
  vector_loop calls ans iov

def writev_loop (fd : Int) (ans : IoAnswers) (iov : List IoVec) (calls : Nat) :
    Option (Except IoFault IoOut) :=
  if fd = 0 then some (.error .assertion) else vector_loop calls ans iov

/-! ## What the calls do -/

def transferred : IoAns → Nat
  | .count n => n
  | _ => 0

/-- The bytes that the first `k` calls transfer. -/
def sofar (ans : IoAnswers) : (k : Nat) → Nat
  | 0 => 0
  | k + 1 => transferred (ans 0) + sofar ans.tail k

/-- A call transfers no more than it was asked for, and fails when that does not fit into a
`ssize_t`. -/
def Obeys (ans : IoAnswers) (wanted : Nat) : Prop :=
  ∀ k n, ans k = .count n → wanted < 2 ^ 63 ∧ sofar ans k + n ≤ wanted

/-- Call `k` finds the end of the file while bytes are wanted. -/
def Eof (ans : IoAnswers) (wanted k : Nat) : Prop :=
  (∀ j < k, ans j ≠ .error) ∧ sofar ans k < wanted ∧ ans k = .count 0

/-- From some call on nothing comes. -/
def Finite (ans : IoAnswers) : Prop := ∃ k, ∀ j, k ≤ j → ans j = .count 0

/-- What a loop promises that transfers the bytes `all`. -/
structure LoopSound (loop : (calls : Nat) → Option (Except IoFault IoOut)) (ans : IoAnswers)
    (all : List Nat) : Prop where
  /-- What returns 0 transferred every byte once, in order. -/
  exact : ∀ calls out, loop calls = some (.ok out) → out.ret = 0 → out.bytes = all
  inside : ∀ calls, loop calls ≠ some (.error .beyond)
  eof : ∀ k, Eof ans all.length k → ∃ out, loop (k + 1) = some (.ok out) ∧ out.ret ≠ 0
  ends : Finite ans → ∃ calls r, loop calls = some r

variable {ans : IoAnswers} {wanted k : Nat}

theorem obeys_tail (h : Obeys ans wanted) (hle : transferred (ans 0) ≤ wanted) :
    Obeys ans.tail (wanted - transferred (ans 0)) := by
  intro j n hj
  have hcount := h (j + 1) n hj
  rw [sofar] at hcount
  omega

theorem obeys_eintr (hans : ans 0 = .eintr) (h : Obeys ans wanted) : Obeys ans.tail wanted := by
  have htail := obeys_tail h (by simp [hans, transferred])
  simpa only [hans, transferred, Nat.sub_zero] using htail

theorem eof_tail (h : Eof ans wanted (k + 1)) (hle : transferred (ans 0) ≤ wanted) :
    Eof ans.tail (wanted - transferred (ans 0)) k := by
  obtain ⟨hno, hlt, hend⟩ := h
  rw [sofar] at hlt
  exact ⟨fun j hj => hno (j + 1) (by omega), by omega, hend⟩

/-! ## The loops around one buffer -/

theorem scalar_loop_eof {buf size received : Nat} (h : Eof ans (size - received) k) :
    ∃ out, scalar_loop buf size (k + 1) ans received = some out ∧ out.ret = 1 := by
  induction k generalizing ans received with
  | zero =>
    obtain ⟨-, hlt, hend⟩ := h
    refine ⟨⟨1, List.range' buf received⟩, ?_, rfl⟩
    have hmore : received < size := by omega
    simp only [scalar_loop, hend, if_pos hmore]
  | succ k ih =>
    have hno := h.1 0 (by omega)
    have hlt := h.2.1
    rw [sofar] at hlt
    have hmore : received < size := by omega
    have htail := eof_tail h (by omega)
    unfold scalar_loop
    rw [if_pos hmore]
    cases hans : ans 0 with
    | eintr =>
      rw [hans] at htail
      exact ih htail
    | error => exact absurd hans hno
    | count n =>
      rw [hans, transferred, Nat.sub_sub] at htail
      cases n with
      | zero => exact ⟨_, rfl, rfl⟩
      | succ n => exact ih htail

theorem scalar_loop_exact {buf size received calls : Nat} {out : IoOut}
    (h : Obeys ans (size - received)) (hle : received ≤ size)
    (hout : scalar_loop buf size calls ans received = some out) (hret : out.ret = 0) :
    out.bytes = List.range' buf size := by
  induction calls generalizing ans received with
  | zero =>
    unfold scalar_loop at hout
    split at hout
    · cases hout
    · cases hout
      rw [show received = size by omega]
  | succ calls ih =>
    unfold scalar_loop at hout
    split at hout
    case isFalse =>
      cases hout
      rw [show received = size by omega]
    case isTrue hmore =>
      cases hans : ans 0 with
      | eintr =>
        rw [hans] at hout
        exact ih (obeys_eintr hans h) hle hout
      | error =>
        rw [hans] at hout
        cases hout
        cases hret
      | count n =>
        rw [hans] at hout
        cases n with
        | zero =>
          cases hout
          cases hret
        | succ n =>
          have hcount := (h 0 _ hans).2
          rw [sofar] at hcount
          have htail := obeys_tail h (by rw [hans, transferred]; omega)
          rw [hans, transferred, Nat.sub_sub] at htail
          exact ih htail (by omega) hout

theorem scalar_loop_ends {buf size received : Nat} (hend : ans k = .count 0) :
    ∃ out, scalar_loop buf size (k + 1) ans received = some out := by
  induction k generalizing ans received with
  | zero =>
    unfold scalar_loop
    rw [hend]
    split <;> exact ⟨_, rfl⟩
  | succ k ih =>
    unfold scalar_loop
    split
    case isFalse => exact ⟨_, rfl⟩
    case isTrue =>
      cases ans 0 with
      | eintr => exact ih hend
      | error => exact ⟨_, rfl⟩
      | count n =>
        cases n with
        | zero => exact ⟨_, rfl⟩
        | succ n => exact ih hend

theorem scalar_loop_sound {buf size : Nat} (h : Obeys ans size) :
    LoopSound (sread_loop ans buf size) ans (List.range' buf size) := by
  unfold sread_loop
  refine ⟨fun calls out hout hret => ?_, fun calls hout => ?_, fun k heof => ?_, ?_⟩
  · obtain ⟨out', hout', heq⟩ := Option.map_eq_some_iff.mp hout
    cases heq
    exact scalar_loop_exact h (Nat.zero_le _) hout' hret
  · obtain ⟨out', -, hfault⟩ := Option.map_eq_some_iff.mp hout
    cases hfault
  · rw [List.length_range'] at heof
    have hloop : ∃ out, scalar_loop buf size (k + 1) ans 0 = some out ∧ out.ret = 1 :=
      scalar_loop_eof heof
    obtain ⟨out, hout, hret⟩ := hloop
    exact ⟨out, by rw [hout]; rfl, by rw [hret]; decide⟩
  · rintro ⟨k, hk⟩
    obtain ⟨out, hout⟩ := scalar_loop_ends (hk k (Nat.le_refl k))
    exact ⟨k + 1, .ok out, by rw [hout]; rfl⟩

/-- The loops around one buffer know the end of a file. -/
theorem scalar_loops_sound {fd : Int} {buf size : Nat} (hfd : fd ≠ 0) (h : Obeys ans size) :
    LoopSound (sread_loop ans buf size) ans (List.range' buf size) ∧
      LoopSound (write_loop fd ans buf size) ans (List.range' buf size) := by
  have hwrite : write_loop fd ans buf size = sread_loop ans buf size := by
    funext calls
    rw [write_loop, if_neg hfd]
    rfl
  rw [hwrite, and_self]
  exact scalar_loop_sound h

/-! ## One pass over a vector -/

theorem bytes_length_cons (v : IoVec) (iov : List IoVec) :
    (bytes (v :: iov)).length = v.iov_len + (bytes iov).length := by
  simp [bytes, IoVec.bytes]

theorem size_of_fold (iov : List IoVec) (size : Nat) (h : size + (bytes iov).length < 2 ^ 64) :
    iov.foldl (fun size v => (size + v.iov_len) % 2 ^ 64) size = size + (bytes iov).length := by
  induction iov generalizing size with
  | nil => rfl
  | cons v iov ih =>
    rw [bytes_length_cons] at h ⊢
    rw [List.foldl_cons, Nat.mod_eq_of_lt (by omega), ih _ (by omega)]
    omega

theorem size_of_eq {iov : List IoVec} (h : (bytes iov).length < 2 ^ 63) :
    size_of iov = (bytes iov).length := by
  rw [size_of, size_of_fold iov 0 (by omega)]
  omega

theorem advance_eq {iov : List IoVec} {rc : Nat} (h : rc < (bytes iov).length) :
    ∃ rest, advance rc iov = .ok rest ∧ bytes rest = (bytes iov).drop rc := by
  induction iov generalizing rc with
  | nil => simp [bytes] at h
  | cons v iov ih =>
    rw [bytes_length_cons] at h
    unfold advance
    by_cases hlt : rc < v.iov_len
    · refine ⟨_, if_pos hlt, ?_⟩
      have hlen : rc ≤ v.bytes.length := by simp [IoVec.bytes]; omega
      simp only [bytes, List.flatMap_cons]
      rw [List.drop_append_of_le_length hlen, IoVec.bytes, IoVec.bytes, List.drop_range', Nat.mul_one]
    · have hless : rc - v.iov_len < (bytes iov).length := by omega
      obtain ⟨rest, hadvance, hrest⟩ := ih hless
      refine ⟨rest, by rw [if_neg hlt, hadvance], ?_⟩
      have hlen : v.bytes.length ≤ rc := by simp [IoVec.bytes]; omega
      have hlen' : v.bytes.length = v.iov_len := by simp [IoVec.bytes]
      rw [hrest]
      simp only [bytes, List.flatMap_cons]
      rw [List.drop_append, List.drop_of_length_le hlen, hlen', List.nil_append]

/-- What a call does whose answer is a count: it is the last one, or the loop goes on with what is
left. -/
theorem vector_loop_count {iov : List IoVec} {rc : Nat} (calls : Nat) (hans : ans 0 = .count rc)
    (h : Obeys ans (bytes iov).length) :
    (rc = (bytes iov).length ∧ vector_loop (calls + 1) ans iov = some (.ok ⟨0, bytes iov⟩)) ∨
      (rc < (bytes iov).length ∧ ∃ rest, bytes rest = (bytes iov).drop rc ∧
        Obeys ans.tail (bytes rest).length ∧
        vector_loop (calls + 1) ans iov = (vector_loop calls ans.tail rest).map fun r =>
          r.map fun out => ⟨out.ret, (bytes iov).take rc ++ out.bytes⟩) := by
  obtain ⟨hmax, hle⟩ := h 0 rc hans
  rw [sofar, Nat.zero_add] at hle
  have hsize := size_of_eq hmax
  rcases Nat.eq_or_lt_of_le hle with heq | hlt
  · left
    refine ⟨heq, ?_⟩
    unfold vector_loop
    simp only [hans, hsize, if_pos heq]
    rw [heq, List.take_length]
  · right
    obtain ⟨rest, hadvance, hrest⟩ := advance_eq hlt
    have htail := obeys_tail h (by simp only [hans, transferred]; omega)
    refine ⟨hlt, rest, hrest, ?_, ?_⟩
    · rw [hrest, List.length_drop]
      simpa only [hans, transferred] using htail
    · have hne : ¬rc = (bytes iov).length := by omega
      rw [vector_loop]
      simp only [hans, hsize, if_neg hne, hadvance]

/-! ## Whole runs -/

theorem vector_loop_exact {iov : List IoVec} {calls : Nat} {out : IoOut}
    (h : Obeys ans (bytes iov).length) (hrun : vector_loop calls ans iov = some (.ok out))
    (hret : out.ret = 0) : out.bytes = bytes iov := by
  induction calls generalizing ans iov out with
  | zero => cases hrun
  | succ calls ih =>
    cases hans : ans 0 with
    | eintr =>
      unfold vector_loop at hrun
      rw [hans] at hrun
      exact ih (obeys_eintr hans h) hrun hret
    | error =>
      unfold vector_loop at hrun
      rw [hans] at hrun
      cases hrun
      cases hret
    | count rc =>
      rcases vector_loop_count calls hans h with ⟨-, heq⟩ | ⟨-, rest, hrest, htail, heq⟩
      · rw [heq] at hrun
        cases hrun
        rfl
      · rw [heq] at hrun
        obtain ⟨r, hr, hmap⟩ := Option.map_eq_some_iff.mp hrun
        cases r with
        | error fault => cases hmap
        | ok out' =>
          cases hmap
          have hbytes : out'.bytes = bytes rest := ih htail hr hret
          dsimp only
          rw [hbytes, hrest, List.take_append_drop]

theorem vector_loop_inside {iov : List IoVec} {calls : Nat} (h : Obeys ans (bytes iov).length) :
    vector_loop calls ans iov ≠ some (.error .beyond) := by
  induction calls generalizing ans iov with
  | zero => simp [vector_loop]
  | succ calls ih =>
    cases hans : ans 0 with
    | eintr =>
      unfold vector_loop
      rw [hans]
      exact ih (obeys_eintr hans h)
    | error => simp [vector_loop, hans]
    | count rc =>
      rcases vector_loop_count calls hans h with ⟨-, heq⟩ | ⟨-, rest, -, htail, heq⟩
      · simp [heq]
      · rw [heq]
        intro hmap
        obtain ⟨r, hr, hfault⟩ := Option.map_eq_some_iff.mp hmap
        cases r with
        | error fault =>
          cases hfault
          exact ih htail hr
        | ok out => cases hfault

theorem vector_loop_running {iov : List IoVec} {calls : Nat} (h : Obeys ans (bytes iov).length)
    (hno : ∀ j < calls, ans j ≠ .error) (hlt : sofar ans calls < (bytes iov).length) :
    vector_loop calls ans iov = none := by
  induction calls generalizing ans iov with
  | zero => rfl
  | succ calls ih =>
    rw [sofar] at hlt
    have hno' : ∀ j < calls, ans.tail j ≠ .error := fun j hj => hno (j + 1) (by omega)
    cases hans : ans 0 with
    | eintr =>
      unfold vector_loop
      rw [hans]
      exact ih (obeys_eintr hans h) hno' (by omega)
    | error => exact absurd hans (hno 0 (by omega))
    | count rc =>
      rw [hans, transferred] at hlt
      rcases vector_loop_count calls hans h with ⟨heq, -⟩ | ⟨-, rest, hrest, htail, heq⟩
      · omega
      · have hlen := congrArg List.length hrest
        rw [List.length_drop] at hlen
        rw [heq, ih htail hno' (by omega)]
        rfl

theorem vector_loop_ends {iov : List IoVec} {n : Nat} (h : Obeys ans (bytes iov).length)
    (hdone : (∃ j < k, ans j = .error) ∨ (bytes iov).length ≤ sofar ans k) (hend : ans k = .count n) :
    ∃ r, vector_loop (k + 1) ans iov = some r := by
  induction k generalizing ans iov with
  | zero =>
    rcases hdone with ⟨j, hj, -⟩ | hle
    · omega
    · have hcount := (h 0 n hend).2
      rw [sofar] at hle hcount
      rcases vector_loop_count 0 hend h with ⟨-, heq⟩ | ⟨hlt, -⟩
      · exact ⟨_, heq⟩
      · omega
  | succ k ih =>
    rw [sofar] at hdone
    have hdone' : ans 0 ≠ .error → (∃ j < k, ans.tail j = .error) ∨
        (bytes iov).length ≤ transferred (ans 0) + sofar ans.tail k := by
      intro hne
      rcases hdone with ⟨j, hj, herr⟩ | hle
      · cases j with
        | zero => exact absurd herr hne
        | succ j => exact .inl ⟨j, by omega, herr⟩
      · exact .inr hle
    cases hans : ans 0 with
    | eintr =>
      simp only [hans, transferred, Nat.zero_add] at hdone'
      unfold vector_loop
      rw [hans]
      exact ih (obeys_eintr hans h) (hdone' nofun) hend
    | error => exact ⟨.ok ⟨-1, []⟩, by rw [vector_loop]; simp only [hans]⟩
    | count rc =>
      rw [hans, transferred] at hdone'
      rcases vector_loop_count (k + 1) hans h with ⟨-, heq⟩ | ⟨-, rest, hrest, htail, heq⟩
      · exact ⟨_, heq⟩
      · have hlen := congrArg List.length hrest
        rw [List.length_drop] at hlen
        obtain ⟨r, hr⟩ := ih htail ((hdone' nofun).imp id (by omega)) hend
        exact ⟨_, by rw [heq, hr]; rfl⟩

/-- The loop does not know the end of a file. -/
theorem vector_loop_sound_iff {iov : List IoVec} (h : Obeys ans (bytes iov).length) :
    LoopSound (fun calls => vector_loop calls ans iov) ans (bytes iov) ↔
      ∀ k, ¬Eof ans (bytes iov).length k := by
  constructor
  · intro hsound k heof
    obtain ⟨out, hout, -⟩ := hsound.eof k heof
    obtain ⟨hno, hlt, hend⟩ := heof
    have hno' : ∀ j < k + 1, ans j ≠ .error := by
      intro j hj
      rcases Nat.lt_succ_iff_lt_or_eq.mp hj with hlt | rfl
      · exact hno j hlt
      · rw [hend]
        nofun
    have hsofar : ∀ (a : IoAnswers) m, sofar a (m + 1) = sofar a m + transferred (a m) := by
      intro a m
      induction m generalizing a with
      | zero => simp [sofar]
      | succ m ih =>
        rw [sofar, ih, sofar, Nat.add_assoc]
        rfl
    have hrun := vector_loop_running h hno' (by rw [hsofar, hend]; exact hlt)
    rw [hrun] at hout
    cases hout
  · intro hno
    refine ⟨fun calls out => vector_loop_exact h, fun calls => vector_loop_inside h,
      fun k heof => absurd heof (hno k), fun hfinite => ?_⟩
    obtain ⟨k, hk⟩ := hfinite
    have hend := hk k (Nat.le_refl k)
    refine ⟨k + 1, vector_loop_ends h ?_ hend⟩
    by_contra hnot
    rw [not_or, Nat.not_le] at hnot
    exact hno k ⟨fun j hj herr => hnot.1 ⟨j, hj, herr⟩, hnot.2, hend⟩

theorem vector_loops_sound_iff {fd : Int} {iov : List IoVec} (hfd : fd ≠ 0)
    (h : Obeys ans (bytes iov).length) :
    (LoopSound (readv_loop ans iov) ans (bytes iov) ∧
        LoopSound (writev_loop fd ans iov) ans (bytes iov)) ↔
      ∀ k, ¬Eof ans (bytes iov).length k := by
  have hwritev : writev_loop fd ans iov = readv_loop ans iov := by
    funext calls
    rw [writev_loop, if_neg hfd]
    rfl
  rw [hwritev, and_self]
  exact vector_loop_sound_iff h

/-- Three bytes into two buffers, with an empty one between them. -/
def three_bytes : List IoVec := [⟨0x1000, 2⟩, ⟨0x3000, 0⟩, ⟨0x2000, 1⟩]

/-- Two short counts, an interrupted call, and nothing more. -/
def short_counts : IoAnswers
  | 0 => .count 1
  | 1 => .eintr
  | 2 => .count 2
  | _ => .error

theorem short_counts_obey : Obeys short_counts (bytes three_bytes).length := by
  intro k n hk
  match k with
  | 0 | 1 | 2 =>
    simp only [short_counts] at hk
    first
      | cases hk
        decide
      | cases hk
  | k + 3 => cases hk

theorem short_counts_sound : LoopSound (readv_loop short_counts three_bytes) short_counts
      (bytes three_bytes) ∧
    LoopSound (writev_loop 3 short_counts three_bytes) short_counts (bytes three_bytes) := by
  refine (vector_loops_sound_iff (by decide) short_counts_obey).mpr fun k heof => ?_
  match k with
  | 0 | 1 | 2 => exact absurd heof.2.2 (by decide)
  | k + 3 => exact absurd heof.2.2 (by simp [short_counts])

/-- At the end of the file `readv_loop` and `writev_loop` call for ever. -/
theorem vector_loops_at_eof : ¬∀ (iov : List IoVec) (ans : IoAnswers),
    Obeys ans (bytes iov).length → LoopSound (readv_loop ans iov) ans (bytes iov) := by
  intro h
  have hobeys : Obeys (fun _ => .count 0) (bytes [⟨0x1000, 1⟩]).length := by
    have hzero : ∀ k, sofar (fun _ => .count 0) k = 0 := by
      intro k
      induction k with
      | zero => rfl
      | succ k ih =>
        rw [sofar, transferred, Nat.zero_add]
        exact ih
    intro k n hk
    cases hk
    rw [hzero]
    decide
  obtain ⟨out, hout, -⟩ := (h [⟨0x1000, 1⟩] (fun _ => .count 0) hobeys).eof 0 ⟨nofun, by decide, rfl⟩
  cases hout

end AwsFpga.Utils
