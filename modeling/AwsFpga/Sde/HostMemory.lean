import Mathlib.Data.BitVec
import Mathlib.Data.Nat.ModEq
import AwsFpga.Sde.Post

/-!
# The packet buffers, as the driver and the device see them

The driver works with virtual addresses and the descriptors hold bus addresses. Descriptor `k` of a
direction belongs to buffer `k` modulo their number, so two that are open at once are apart.
-/

namespace AwsFpga.Sde

/-- The handle of the BAR, the address of the ring, and where on the bus an address of the driver is. -/
structure Wiring where
  bar4_handle : Int
  metadata : BitVec 64
  bus : BitVec 64 → BitVec 64

/-- The bytes from `pa` on. -/
def bytes_at (memory : BitVec 64 → BitVec 8) (pa : BitVec 64) (size : Nat) : List (BitVec 8) :=
  (List.range size).map fun i => memory (pa + BitVec.ofNat 64 i)

/-- `a` is one of the `length` addresses from `pa` on. -/
def Covers (pa : BitVec 64) (length : Nat) (a : BitVec 64) : Prop := (a - pa).toNat < length

theorem concat_some {α : Type} {l : List α} {a b : α} {k : Nat} (h : (l ++ [a])[k]? = some b) :
    l[k]? = some b ∨ k = l.length ∧ b = a := by
  rcases Nat.lt_or_ge k l.length with hk | hk
  · rw [List.getElem?_append_left hk] at h
    exact .inl h
  · rw [List.getElem?_append_right hk, List.getElem?_singleton] at h
    split at h
    · cases h
      exact .inr ⟨by omega, rfl⟩
    · cases h

/-- A copy of `bytes` to the addresses `addr 0`, `addr 1` and so on. -/
def copied (memory : BitVec 64 → BitVec 8) (addr : Nat → BitVec 64) (bytes : List (BitVec 8)) :
    BitVec 64 → BitVec 8 :=
  bytes.zipIdx.foldl (fun memory x => Function.update memory (addr x.2) x.1) memory

section Copied

variable {memory : BitVec 64 → BitVec 8} {addr : Nat → BitVec 64} {bytes : List (BitVec 8)}

theorem copied_concat (b : BitVec 8) :
    copied memory addr (bytes ++ [b]) =
      Function.update (copied memory addr bytes) (addr bytes.length) b := by
  unfold copied
  rw [List.zipIdx_append, List.foldl_append, Nat.zero_add]
  rfl

theorem copied_frame {a : BitVec 64} (h : ∀ i < bytes.length, a ≠ addr i) :
    copied memory addr bytes a = memory a := by
  induction bytes using List.reverseRecOn with
  | nil => rfl
  | append_singleton bytes b ih =>
    rw [List.length_append, List.length_singleton] at h
    rw [copied_concat, Function.update_of_ne (h _ (Nat.lt_succ_self _))]
    exact ih fun i hi => h i (Nat.lt_succ_of_lt hi)

theorem copied_get (hinj : ∀ i j, i < j → j < bytes.length → addr i ≠ addr j) {i : Nat}
    {b : BitVec 8} (hb : bytes[i]? = some b) : copied memory addr bytes (addr i) = b := by
  induction bytes using List.reverseRecOn with
  | nil => cases hb
  | append_singleton bytes b' ih =>
    rw [List.length_append, List.length_singleton] at hinj
    rw [copied_concat]
    obtain hold | ⟨rfl, rfl⟩ := concat_some hb
    · have hi : i < bytes.length := (List.getElem?_eq_some_iff.mp hold).1
      rw [Function.update_of_ne (hinj _ _ hi (Nat.lt_succ_self _))]
      exact ih (fun j k hjk hk => hinj j k hjk (Nat.lt_succ_of_lt hk)) hold
    · exact Function.update_self _ _ _

end Copied

/-! ## The buffers -/

/-- The buffer of descriptor `k`. -/
def buffer_of (buffers : List SdeBuffer) (k : Nat) : SdeBuffer :=
  buffers.getD (k % buffers.length) no_buffer

/-- The buffers of a slot: there is an entry of the ring for each, the driver and the device see the
same bytes in them, and no two have a byte in common. -/
structure Buffers (w : Wiring) (buffers : List SdeBuffer) : Prop where
  some : 0 < buffers.length
  few : buffers.length ≤ C2H_NUM_MD_IN_RING
  mapped : ∀ b ∈ buffers, ∀ i < b.length.toNat,
    w.bus (b.data_va + BitVec.ofNat 64 i) = b.data_pa + BitVec.ofNat 64 i
  apart : ∀ j k, j % buffers.length ≠ k % buffers.length → ∀ a,
    Covers (buffer_of buffers j).data_pa (buffer_of buffers j).length.toNat a →
      ¬Covers (buffer_of buffers k).data_pa (buffer_of buffers k).length.toNat a

section Bytes

variable {w : Wiring} {buffers : List SdeBuffer} {memory memory' : BitVec 64 → BitVec 8}
  {pa : BitVec 64} {size length i : Nat}

theorem covers_add (hi : i < length) (hlength : length ≤ 2 ^ 32) :
    Covers pa length (pa + BitVec.ofNat 64 i) := by
  unfold Covers
  rw [BitVec.add_comm, BitVec.add_sub_cancel, BitVec.toNat_ofNat, Nat.mod_eq_of_lt (by omega)]
  exact hi

theorem bytes_at_length : (bytes_at memory pa size).length = size := by
  simp [bytes_at]

theorem bytes_at_take {n : Nat} (h : n ≤ size) :
    (bytes_at memory pa size).take n = bytes_at memory pa n := by
  unfold bytes_at
  rw [← List.map_take, List.take_range, Nat.min_eq_left h]

theorem bytes_at_get (hi : i < size) :
    (bytes_at memory pa size)[i]? = some (memory (pa + BitVec.ofNat 64 i)) := by
  unfold bytes_at
  rw [List.getElem?_map, List.getElem?_range hi, Option.map_some]

theorem bytes_at_frame (hsize : size ≤ length) (hlength : length ≤ 2 ^ 32)
    (h : ∀ a, Covers pa length a → memory' a = memory a) :
    bytes_at memory' pa size = bytes_at memory pa size := by
  apply List.map_congr_left
  intro i hi
  have := List.mem_range.mp hi
  exact h _ (covers_add (by omega) hlength)

theorem buffer_of_mem (h : Buffers w buffers) (k : Nat) : buffer_of buffers k ∈ buffers := by
  unfold buffer_of
  rw [List.getD_eq_getElem _ _ (Nat.mod_lt k h.some)]
  exact List.getElem_mem _

theorem bytes_at_bus (h : Buffers w buffers) (k : Nat)
    (hsize : size ≤ (buffer_of buffers k).length.toNat) :
    ((List.range size).map fun i =>
      memory (w.bus ((buffer_of buffers k).data_va + BitVec.ofNat 64 i))) =
      bytes_at memory (buffer_of buffers k).data_pa size := by
  apply List.map_congr_left
  intro i hi
  have := List.mem_range.mp hi
  rw [h.mapped _ (buffer_of_mem h k) i (by omega)]

/-- Two descriptors that are open at once have different buffers. -/
theorem slots_differ {n j k : Nat} (hlt : j < k) (hnear : k < j + n) : j % n ≠ k % n := by
  intro heq
  have hdvd : n ∣ k - j := (Nat.modEq_iff_dvd' hlt.le).mp heq
  have := Nat.le_of_dvd (by omega) hdvd
  omega

theorem addresses_differ {j : Nat} (hij : i < j) (hj : j < 2 ^ 64) :
    pa + BitVec.ofNat 64 i ≠ pa + BitVec.ofNat 64 j := by
  intro heq
  have hnat := congrArg BitVec.toNat ((BitVec.add_right_inj pa).mp heq)
  rw [BitVec.toNat_ofNat, BitVec.toNat_ofNat, Nat.mod_eq_of_lt (hij.trans hj),
    Nat.mod_eq_of_lt hj] at hnat
  omega

/-- The addresses that the driver copies to when it fills buffer `k`. -/
def fill_addr (w : Wiring) (buffers : List SdeBuffer) (k i : Nat) : BitVec 64 :=
  w.bus ((buffer_of buffers k).data_va + BitVec.ofNat 64 i)

theorem fill_addr_eq (h : Buffers w buffers) {k : Nat}
    (hi : i < (buffer_of buffers k).length.toNat) :
    fill_addr w buffers k i = (buffer_of buffers k).data_pa + BitVec.ofNat 64 i :=
  h.mapped _ (buffer_of_mem h k) i hi

theorem bytes_at_copied_to {addr : Nat → BitVec 64} {bytes : List (BitVec 8)}
    (haddr : ∀ i < bytes.length, addr i = pa + BitVec.ofNat 64 i) (hsize : bytes.length ≤ 2 ^ 64) :
    bytes_at (copied memory addr bytes) pa bytes.length = bytes := by
  apply List.ext_getElem?
  intro i
  rcases Nat.lt_or_ge i bytes.length with hi | hi
  · rw [bytes_at_get hi, ← haddr i hi, List.getElem?_eq_getElem hi]
    congr 1
    refine copied_get (fun i j hij hj => ?_) (List.getElem?_eq_getElem hi)
    rw [haddr i (by omega), haddr j hj]
    exact addresses_differ hij (by omega)
  · rw [List.getElem?_eq_none hi, List.getElem?_eq_none (bytes_at_length.trans_le hi)]

theorem bytes_at_copied (h : Buffers w buffers) {k : Nat} {bytes : List (BitVec 8)}
    (hsize : bytes.length ≤ (buffer_of buffers k).length.toNat) :
    bytes_at (copied memory (fill_addr w buffers k) bytes) (buffer_of buffers k).data_pa
      bytes.length = bytes := by
  have hlength := (buffer_of buffers k).length.isLt
  exact bytes_at_copied_to (fun i hi => fill_addr_eq h (hi.trans_le hsize)) (by omega)

theorem copied_outside (h : Buffers w buffers) {k : Nat} {bytes : List (BitVec 8)}
    (hsize : bytes.length ≤ (buffer_of buffers k).length.toNat) {a : BitVec 64}
    (ha : ¬Covers (buffer_of buffers k).data_pa (buffer_of buffers k).length.toNat a) :
    copied memory (fill_addr w buffers k) bytes a = memory a := by
  refine copied_frame fun i hi => ?_
  rintro rfl
  have hlength := (buffer_of buffers k).length.isLt
  rw [fill_addr_eq h (hi.trans_le hsize)] at ha
  exact ha (covers_add (hi.trans_le hsize) (by omega))

end Bytes

theorem halves_append (pa : BitVec 64) :
    ((pa >>> 32).setWidth 32 ++ pa.setWidth 32 : BitVec 64) = pa := by
  ext i hi
  simp only [BitVec.getElem_append, BitVec.getElem_setWidth, BitVec.getLsbD_ushiftRight]
  split
  · rw [BitVec.getLsbD_eq_getElem hi]
  · rw [show 32 + (i - 32) = i by omega, BitVec.getLsbD_eq_getElem hi]

/-! ### An example

Two buffers of four bytes. The device sees them 0x8000 higher. -/

def sampleWiring : Wiring := ⟨1, 0x500, fun va => va + 0x8000⟩

def sampleBuffers : List SdeBuffer := [⟨0x1000, 0x9000, 4, 4096⟩, ⟨0x2000, 0xA000, 4, 4096⟩]

theorem sampleBuffers_ok : Buffers sampleWiring sampleBuffers where
  some := by decide
  few := by decide
  mapped := by
    intro b hb i _
    change b.data_va + BitVec.ofNat 64 i + 0x8000 = _
    generalize BitVec.ofNat 64 i = x
    simp only [sampleBuffers, List.mem_cons, List.not_mem_nil, or_false] at hb
    obtain rfl | rfl := hb
    · bv_omega
    · bv_omega
  apart := by
    have heven : ∀ n, n % 2 = 0 → buffer_of sampleBuffers n = ⟨0x1000, 0x9000, 4, 4096⟩ := by
      intro n hn
      unfold buffer_of
      rw [show n % sampleBuffers.length = 0 from hn]
      rfl
    have hodd : ∀ n, n % 2 = 1 → buffer_of sampleBuffers n = ⟨0x2000, 0xA000, 4, 4096⟩ := by
      intro n hn
      unfold buffer_of
      rw [show n % sampleBuffers.length = 1 from hn]
      rfl
    intro j k hjk a h₀ h₁
    change j % 2 ≠ k % 2 at hjk
    unfold Covers at h₀ h₁
    rcases Nat.mod_two_eq_zero_or_one j with hj | hj
    · rw [heven j hj] at h₀
      rw [hodd k (by omega)] at h₁
      dsimp only at h₀ h₁
      bv_omega
    · rw [hodd j hj] at h₀
      rw [heven k (by omega)] at h₁
      dsimp only at h₀ h₁
      bv_omega

end AwsFpga.Sde
