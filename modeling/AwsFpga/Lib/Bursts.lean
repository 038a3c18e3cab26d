import Mathlib.Data.Finset.Image
import Mathlib.Order.Interval.Finset.Nat

/-!
# Bursts of a transfer

A transfer of bytes is cut into bursts. Each starts where the one before it ended, and
none crosses a multiple of the longest burst. A burst takes one beat for every word
that it touches.
-/

namespace Lib

/-- An address of `a` bits, how many bytes from there on, and in how many beats. -/
structure Burst (a : Nat) where
  addr : BitVec a
  bytes : Nat
  beats : Nat

/-- The words of `w` bytes that hold the bytes from `addr` on. -/
def touched (w addr bytes : Nat) : Finset Nat := (Finset.range bytes).image fun k => (addr + k) / w

theorem touched_eq {w bytes : Nat} (hw : 0 < w) (addr : Nat) (hbytes : 0 < bytes) :
    touched w addr bytes = Finset.Icc (addr / w) ((addr + bytes - 1) / w) := by
  ext q
  unfold touched
  rw [Finset.mem_image, Finset.mem_Icc]
  constructor
  · rintro ⟨k, hk, rfl⟩
    rw [Finset.mem_range] at hk
    exact ⟨Nat.div_le_div_right (by omega), Nat.div_le_div_right (by omega)⟩
  · rintro ⟨hlo, hhi⟩
    rcases Nat.eq_or_lt_of_le hlo with heq | hlt
    · exact ⟨0, Finset.mem_range.mpr hbytes, by rw [Nat.add_zero, heq]⟩
    · -- The first byte of word `q`.
      have hfirst : addr < q * w := (Nat.div_lt_iff_lt_mul hw).mp hlt
      have hlast : q * w ≤ addr + bytes - 1 := (Nat.le_div_iff_mul_le hw).mp hhi
      refine ⟨q * w - addr, Finset.mem_range.mpr (by omega), ?_⟩
      have haddr : addr + (q * w - addr) = q * w := by omega
      rw [haddr, Nat.mul_div_cancel _ hw]

theorem card_touched {w bytes : Nat} (hw : 0 < w) (addr : Nat) (hbytes : 0 < bytes) :
    (touched w addr bytes).card = (addr % w + bytes + w - 1) / w := by
  have hsplit : addr + bytes - 1 = addr % w + bytes - 1 + w * (addr / w) := by
    have hdiv := Nat.mod_add_div addr w
    omega
  have hnext : addr % w + bytes + w - 1 = addr % w + bytes - 1 + w := by omega
  rw [touched_eq hw addr hbytes, Nat.card_Icc, hsplit, Nat.add_mul_div_left _ _ hw, hnext,
    Nat.add_div_right _ hw, Nat.add_right_comm, Nat.add_sub_cancel]

theorem card_touched_le {w max addr bytes : Nat} (hw : 0 < w) (hdvd : w ∣ max)
    (hinside : addr % max + bytes ≤ max) : (touched w addr bytes).card ≤ max / w := by
  rcases Nat.eq_zero_or_pos bytes with rfl | hbytes
  · simp [touched]
  · have hmod : addr % max % w = addr % w := Nat.mod_mod_of_dvd addr hdvd
    have hle : addr % w ≤ addr % max := by
      rw [← hmod]
      exact Nat.mod_le _ _
    obtain ⟨k, rfl⟩ := hdvd
    rw [card_touched hw addr hbytes, Nat.mul_div_cancel_left k hw, ← Nat.lt_succ_iff,
      Nat.div_lt_iff_lt_mul hw, Nat.succ_mul, Nat.mul_comm k w]
    omega

namespace Burst

variable {a : Nat}

/-- In words of `w` bytes, and within a block of `max` bytes. -/
structure Good (w max : Nat) (b : Burst a) : Prop where
  bytes : 0 < b.bytes
  inside : b.addr.toNat % max + b.bytes ≤ max
  beats : b.beats = (touched w b.addr.toNat b.bytes).card
  short : b.beats ≤ max / w

/-- Each burst starts where the one before it ended, and together they have `bytes` bytes. -/
def Tiles (addr : BitVec a) (bytes : Nat) : List (Burst a) → Prop
  | [] => bytes = 0
  | b :: bs => b.addr = addr ∧ b.bytes ≤ bytes ∧
      Tiles (addr + BitVec.ofNat a b.bytes) (bytes - b.bytes) bs

theorem Tiles.concat {addr : BitVec a} {bytes : Nat} {bs : List (Burst a)} (h : Tiles addr bytes bs)
    {b : Burst a} (haddr : b.addr = addr + BitVec.ofNat a bytes) :
    Tiles addr (bytes + b.bytes) (bs ++ [b]) := by
  induction bs generalizing addr bytes with
  | nil =>
    obtain rfl : bytes = 0 := h
    refine ⟨?_, Nat.le_add_left _ _, ?_⟩
    · rw [haddr]
      exact BitVec.add_zero addr
    · change 0 + b.bytes - b.bytes = 0
      omega
  | cons b' bs ih =>
    obtain ⟨haddr', hle, hrest⟩ := h
    have hsum : b'.bytes + (bytes - b'.bytes) = bytes := Nat.add_sub_cancel' hle
    have hnext : b.addr = addr + BitVec.ofNat a b'.bytes + BitVec.ofNat a (bytes - b'.bytes) := by
      rw [haddr, BitVec.add_assoc, ← BitVec.ofNat_add, hsum]
    have hbytes : bytes - b'.bytes + b.bytes = bytes + b.bytes - b'.bytes := by omega
    refine ⟨haddr', by omega, ?_⟩
    rw [← hbytes]
    exact ih hrest hnext

end Burst

/-! ## Steps round a window -/

section Walk

variable {size step page : Nat}

/-- Where the `i`-th step begins, when steps of one length go round a window. -/
def walk (size step i : Nat) : Nat := i * step % size

@[simp] theorem walk_zero : walk size step 0 = 0 := by simp [walk]

theorem walk_succ (i : Nat) : walk size step (i + 1) = (walk size step i + step) % size := by
  simp [walk, Nat.succ_mul]

theorem walk_of_lt {i : Nat} (h : i * step < size) : walk size step i = i * step := Nat.mod_eq_of_lt h

theorem walk_add_le (hsize : 0 < size) (hdvd : step ∣ size) (i : Nat) :
    walk size step i + step ≤ size := by
  obtain ⟨k, rfl⟩ := hdvd
  have hk : 0 < k := Nat.pos_of_mul_pos_left hsize
  have hlt : i % k < k := Nat.mod_lt i hk
  calc walk (step * k) step i + step = step * (i % k) + step := by
        rw [walk, Nat.mul_comm i, Nat.mul_mod_mul_left]
    _ = step * (i % k + 1) := (Nat.mul_succ _ _).symm
    _ ≤ step * k := Nat.mul_le_mul_left step hlt

theorem walk_next (hsize : 0 < size) (hdvd : step ∣ size) (i : Nat) :
    walk size step (i + 1) = walk size step i + step ∨
      walk size step (i + 1) = 0 ∧ walk size step i + step = size := by
  rw [walk_succ]
  rcases Nat.lt_or_eq_of_le (walk_add_le hsize hdvd i) with hlt | heq
  · exact .inl (Nat.mod_eq_of_lt hlt)
  · exact .inr ⟨by rw [heq, Nat.mod_self], heq⟩

/-- Steps that divide the pages of the window do not cross their borders. -/
theorem walk_in_page (hpage : 0 < page) (hsize : page ∣ size) (hdvd : step ∣ page) (i : Nat) :
    walk size step i % page + step ≤ page := by
  have hmod : walk size step i % page = walk page step i := Nat.mod_mod_of_dvd _ hsize
  rw [hmod]
  exact walk_add_le hpage hdvd i

/-- Other steps do: the one that begins last in the first page. -/
theorem walk_cross (hstep : 0 < step) (hpage : page ≤ size) (hdvd : ¬ step ∣ page) :
    page < walk size step (page / step) % page + step := by
  have hsum : page / step * step + page % step = page := Nat.div_add_mod' page step
  have hrest : 0 < page % step := Nat.pos_of_ne_zero fun h => hdvd (Nat.dvd_of_mod_eq_zero h)
  have hlt : page % step < step := Nat.mod_lt page hstep
  rw [walk_of_lt (by omega), Nat.mod_eq_of_lt (by omega)]
  omega

end Walk

end Lib
