import AwsFpga.Lib.Chunks
import AwsFpga.Sde.H2cHost
import AwsFpga.Sde.Posting

/-!
# Writing packets, from the bytes to the descriptors

`sde_mgmt_prepare_write` cuts the data into chunks and copies each to the next buffer.
`sde_mgmt_write` posts descriptors. The two have an index each, and nothing but the caller sees to it
that the one stays behind the other.
-/

open Lib AwsFpga.Pci

namespace AwsFpga.Sde.Writing

/-! ## The states of a write -/

/-- `limit` descriptors are posted or being posted, of which `dwords` dwords went out. At least `gone`
packets were sent. -/
structure At (buffers : List SdeBuffer) (dw : Nat → BitVec 32) (limit dwords gone : Nat)
    (filled : List (List (BitVec 8))) (h : H2cHost) : Prop where
  lent : Lent buffers dw limit filled h
  posted : h.posted.length = dwords
  gone : gone ≤ h.sent.length

/-- What holds always: nothing that is still to be sent is overwritten. -/
def Safely (buffers : List SdeBuffer) (dw : Nat → BitVec 32) (h : H2cHost) : Prop :=
  ∃ limit filled, Lent buffers dw limit filled h

section At

variable {w : Wiring} {buffers : List SdeBuffer} {dw : Nat → BitVec 32}
  {limit dwords gone : Nat} {filled : List (List (BitVec 8))} {h h' : H2cHost}

theorem moves_frame (hmove : H2cHost.Moves buffers h h') :
    h'.posted = h.posted ∧ h.sent.length ≤ h'.sent.length := by
  cases hmove with
  | fetch k i opened posted inside => exact ⟨rfl, Nat.le_refl _⟩
  | complete bytes posted length fetched => exact ⟨rfl, (List.prefix_append _ _).length_le⟩
  | others memory frame => exact ⟨rfl, Nat.le_refl _⟩

theorem at_stable (hb : Buffers w buffers) (hn : Names buffers dw) (limit dwords gone : Nat)
    (filled : List (List (BitVec 8))) :
    (H2cHost.env w buffers).Stable (Safely buffers dw)
      (At buffers dw limit dwords gone filled) where
  moves := by
    intro h h' ha hmove
    obtain ⟨hposted, hsent⟩ := moves_frame hmove
    exact ⟨ha.lent.moves hb hn hmove, by rw [hposted, ha.posted], ha.gone.trans hsent⟩
  inv := fun ha => ⟨_, _, ha.lent⟩

theorem At.grant (ha : At buffers dw limit dwords gone filled h) {limit' : Nat}
    (hle : limit ≤ limit') (hfilled : limit' ≤ filled.length) :
    At buffers dw limit' dwords gone filled h := by
  have hl := ha.lent
  refine ⟨⟨hl.posted, ?_, hfilled, hl.room, hl.sent_le, hl.fits, hl.sent, hl.stored, hl.fetched⟩,
    ha.posted, ha.gone⟩
  exact hl.posted_le.trans (Nat.mul_le_mul_right _ hle)

theorem At.push (ha : At buffers dw limit dwords gone filled h) (hlt : dwords < limit * 8) :
    At buffers dw limit (dwords + 1) gone filled
      { h with posted := h.posted ++ [dw dwords] } := by
  have hl := ha.lent
  have hposted := ha.posted
  have hmore : h.num_posted ≤ (h.posted ++ [dw dwords]).length / 8 := by
    unfold H2cHost.num_posted
    rw [List.length_append]
    exact Nat.div_le_div_right (Nat.le_add_right _ _)
  refine ⟨⟨?_, ?_, hl.limit_le, hl.room, hl.sent_le.trans hmore, hl.fits, hl.sent, hl.stored, ?_⟩, ?_,
    ha.gone⟩
  · rw [List.length_append, List.length_singleton, List.range_succ, List.map_append, ← hl.posted,
      hposted, List.map_singleton]
  · rw [List.length_append, List.length_singleton]
    omega
  · intro k i b hk hb
    obtain ⟨hlt, hbyte⟩ := hl.fetched k i b hk hb
    exact ⟨hlt.trans_le hmore, hbyte⟩
  · rw [List.length_append, List.length_singleton, hposted]

end At

/-! ## The element of the slot -/

/-- The driver posted `posted` descriptors and filled a buffer `filled` times, and its indices say
so. -/
structure Writes (w : Wiring) (buffers : List SdeBuffer) (dw : Nat → BitVec 32) (pkt_size : BitVec 64)
    (posted filled : Nat) (m : SdeMgmt) : Prop where
  bar4_handle : m.hw_ctrl.bar4_handle = w.bar4_handle
  ring : RingOf m.hw_ctrl .h2c dw posted m.h2c_buffer
  has_buffers : m.h2c_buffer.buffers = some buffers
  num_buffers : m.h2c_buffer.num_buffers = buffers.length
  pkt_size : m.h2c_buffer.pkt_size = pkt_size
  buffer_index : m.h2c_buffer.current_buffer_index = filled % buffers.length

/-- The packets have a size, and no buffer is too small for one. -/
structure Sized (buffers : List SdeBuffer) (pkt_size : BitVec 64) : Prop where
  pos : 0 < pkt_size.toNat
  fits : ∀ b ∈ buffers, pkt_size.toNat ≤ b.length.toNat

section Writing

variable {w : Wiring} {buffers : List SdeBuffer} {dw : Nat → BitVec 32} {pkt_size : BitVec 64}
  {limit dwords gone posted : Nat} {filled : List (List (BitVec 8))} {h h' : H2cHost} {m : SdeMgmt}
  {slot_id : Int}

/-! ### The data -/

theorem dma_write_data_safe (hb : Buffers w buffers) (hn : Names buffers dw) {b : SdeDmaBuffer}
    (hbuffers : b.buffers = some buffers) (hnum : b.num_buffers = buffers.length)
    (hindex : b.current_buffer_index = filled.length % buffers.length) {c : List (BitVec 8)}
    (hfits : c.length ≤ (buffer_of buffers filled.length).length.toNat)
    (hroom : filled.length < gone + buffers.length)
    (ha : At buffers dw limit dwords gone filled h) :
    (H2cHost.env w buffers).Safe (Safely buffers dw) (fun r h =>
      r = { b with current_buffer_index := (filled ++ [c]).length % buffers.length } ∧
        At buffers dw limit dwords gone (filled ++ [c]) h) (sde_dma_write_data c b) h := by
  obtain ⟨fuel, hfuel⟩ : ∃ fuel, copy_rounds c.length b.num_buffers = fuel + 1 :=
    Nat.exists_eq_succ_of_ne_zero (by simp [copy_rounds])
  unfold sde_dma_write_data
  rw [hfuel]
  unfold write_loop
  rw [hbuffers]
  dsimp only
  rw [hindex]
  have hcopy : (if c.length < (buffers.getD (filled.length % buffers.length) no_buffer).length.toNat
      then c.length
      else (buffers.getD (filled.length % buffers.length) no_buffer).length.toNat) = c.length := by
    change (if c.length < (buffer_of buffers filled.length).length.toNat then c.length
      else (buffer_of buffers filled.length).length.toNat) = c.length
    split <;> omega
  rw [hcopy, List.take_length]
  refine Env.safe_op_bind (at_stable hb hn _ _ _ _) ha ?_
  rintro h (r : Unit) h' ha (rfl : h' = _)
  rw [if_neg (by rw [hnum]; exact hb.some.ne'), if_neg (by omega)]
  have hnext : At buffers dw limit dwords gone (filled ++ [c])
      { h with memory := copied h.memory (fill_addr w buffers filled.length) c } :=
    ⟨ha.lent.fill hb (hroom.trans_le (Nat.add_le_add_right ha.gone _)) hfits, ha.posted, ha.gone⟩
  refine Env.safe_pure (at_stable hb hn _ _ _ _) hnext fun h ha => ⟨?_, ha⟩
  rw [hnum, Nat.mod_add_mod, List.length_append, List.length_singleton]

theorem Writes.fill (hm : Writes w buffers dw pkt_size posted limit m) (n : Nat) :
    Writes w buffers dw pkt_size posted n { m with
      h2c_buffer := { m.h2c_buffer with current_buffer_index := n % buffers.length } } where
  bar4_handle := hm.bar4_handle
  ring :=
    ⟨⟨hm.ring.ring.opened, hm.ring.ring.ctrl, hm.ring.ring.index, hm.ring.ring.depth,
      hm.ring.ring.size⟩, hm.ring.subsystem, hm.ring.desc, hm.ring.index⟩
  has_buffers := hm.has_buffers
  num_buffers := hm.num_buffers
  pkt_size := hm.pkt_size
  buffer_index := rfl

theorem prepare_write_loop_safe (hb : Buffers w buffers) (hn : Names buffers dw)
    (hs : Sized buffers pkt_size) {rounds : Nat} {data : List (BitVec 8)}
    (hrounds : data.length ≤ rounds)
    (hm : Writes w buffers dw pkt_size posted filled.length m)
    (hroom : filled.length + (chunks pkt_size.toNat data).length ≤ gone + buffers.length)
    (ha : At buffers dw limit dwords gone filled h) :
    (H2cHost.env w buffers).Safe (Safely buffers dw) (fun m h =>
      Writes w buffers dw pkt_size posted (filled ++ chunks pkt_size.toNat data).length m ∧
        At buffers dw limit dwords gone (filled ++ chunks pkt_size.toNat data) h)
      (prepare_write_loop rounds data m) h := by
  induction rounds generalizing data filled m h with
  | zero =>
    obtain rfl : data = [] := List.length_eq_zero_iff.mp (Nat.le_zero.mp hrounds)
    rw [chunks_nil hs.pos, List.append_nil]
    exact Env.safe_pure (at_stable hb hn _ _ _ _) ha fun h ha => ⟨hm, ha⟩
  | succ rounds ih =>
    unfold prepare_write_loop
    split
    case isFalse hnone =>
      obtain rfl : data = [] := List.length_eq_zero_iff.mp (by omega)
      rw [chunks_nil hs.pos, List.append_nil]
      exact Env.safe_pure (at_stable hb hn _ _ _ _) ha fun h ha => ⟨hm, ha⟩
    case isTrue hmore =>
    rw [chunks_cons hs.pos (List.length_pos_iff.mp hmore), List.length_cons] at hroom
    have hcut : data.take (min m.h2c_buffer.pkt_size.toNat data.length) =
        data.take pkt_size.toNat := by
      rw [hm.pkt_size, ← List.take_eq_take_min]
    have hrest : data.drop (min m.h2c_buffer.pkt_size.toNat data.length) =
        data.drop pkt_size.toNat := by
      rw [hm.pkt_size]
      rcases Nat.le_total pkt_size.toNat data.length with hle | hle
      · rw [Nat.min_eq_left hle]
      · rw [Nat.min_eq_right hle, List.drop_length, List.drop_eq_nil_of_le hle]
    have hfits : (data.take pkt_size.toNat).length ≤
        (buffer_of buffers filled.length).length.toNat :=
      (List.length_take_le _ _).trans (hs.fits _ (buffer_of_mem hb _))
    dsimp only
    rw [hcut, hrest]
    refine Env.safe_bind (dma_write_data_safe hb hn hm.has_buffers hm.num_buffers hm.buffer_index
      hfits (by omega) ha) ?_
    rintro b h ⟨rfl, ha⟩
    rw [chunks_cons hs.pos (List.length_pos_iff.mp hmore), List.append_cons]
    refine ih ?_ (hm.fill _) ?_ ha
    · have hpos := hs.pos
      rw [List.length_drop]
      omega
    · rw [List.length_append, List.length_singleton]
      omega

/-- The chunks in the buffers when a call of `sde_mgmt_prepare_write` has answered `ret`. -/
def after_prepare (pkt_size : BitVec 64) (filled : List (List (BitVec 8))) (data : List (BitVec 8))
    (ret : Int) : List (List (BitVec 8)) :=
  if ret = 0 then filled ++ chunks pkt_size.toNat data else filled

theorem prepare_write_safe (hb : Buffers w buffers) (hn : Names buffers dw)
    (hs : Sized buffers pkt_size) {data : List (BitVec 8)}
    (hm : Writes w buffers dw pkt_size posted filled.length m)
    (hroom : filled.length + (chunks pkt_size.toNat data).length ≤ gone + buffers.length)
    (ha : At buffers dw limit dwords gone filled h) :
    (H2cHost.env w buffers).Safe (Safely buffers dw) (fun r h =>
      Writes w buffers dw pkt_size posted (after_prepare pkt_size filled data r.1).length r.2 ∧
        At buffers dw limit dwords gone (after_prepare pkt_size filled data r.1) h)
      (sde_mgmt_prepare_write slot_id data m) h := by
  have hrefused : (H2cHost.env w buffers).Safe (Safely buffers dw) (fun r h =>
      Writes w buffers dw pkt_size posted (after_prepare pkt_size filled data r.1).length r.2 ∧
        At buffers dw limit dwords gone (after_prepare pkt_size filled data r.1) h)
      (pure (FPGA_ERR_SOFTWARE_PROBLEM, m)) h := by
    refine Env.safe_pure (at_stable hb hn _ _ _ _) ha fun h ha => ?_
    unfold after_prepare
    rw [if_neg (show ¬FPGA_ERR_SOFTWARE_PROBLEM = 0 by decide)]
    exact ⟨hm, ha⟩
  unfold sde_mgmt_prepare_write checked
  split
  case isTrue => exact hrefused
  case isFalse =>
  split
  case isTrue => exact hrefused
  case isFalse =>
  split
  case isTrue => exact hrefused
  case isFalse =>
  refine Env.safe_bind (prepare_write_loop_safe hb hn hs (Nat.le_refl _) hm hroom ha) ?_
  rintro m h ⟨hm, ha⟩
  exact Env.safe_pure (at_stable hb hn _ _ _ _) ha fun h ha => ⟨hm, ha⟩

/-! ### The descriptors -/

theorem posting (hb : Buffers w buffers) (hn : Names buffers dw) (gone : Nat)
    (filled : List (List (BitVec 8))) :
    Posting (H2cHost.env w buffers) (Safely buffers dw) w.bar4_handle .h2c dw
      fun limit dwords => At buffers dw limit dwords gone filled where
  stable limit dwords := at_stable hb hn limit dwords gone filled
  poke := by
    rintro limit n h ret h' hlt ha ⟨hret, hpoke⟩
    rw [if_pos ⟨rfl, rfl⟩] at hpoke
    subst hpoke
    exact ⟨hret, ha.push hlt⟩
  load := by
    rintro limit n h va field r h' ha (rfl : h' = h)
    exact ha

theorem Writes.moved {more n : Nat} {m' : SdeMgmt} (hm : Writes w buffers dw pkt_size posted n m)
    (hmoved : Moved m .h2c more m') : Writes w buffers dw pkt_size (posted + more) n m' := by
  cases hmoved with
  | none => exact hm
  | some more desc_consumed =>
    exact ⟨hm.bar4_handle, hm.ring.advance more, hm.has_buffers, hm.num_buffers, hm.pkt_size,
      hm.buffer_index⟩

/-- Some number of descriptors was posted behind those before. -/
def Started (w : Wiring) (buffers : List SdeBuffer) (dw : Nat → BitVec 32) (pkt_size : BitVec 64)
    (posted gone : Nat) (filled : List (List (BitVec 8))) (m : SdeMgmt) (h : H2cHost) : Prop :=
  ∃ more, Writes w buffers dw pkt_size (posted + more) filled.length m ∧
    At buffers dw (posted + more) ((posted + more) * 8) gone filled h

theorem write_safe (hb : Buffers w buffers) (hn : Names buffers dw)
    (hm : Writes w buffers dw pkt_size posted filled.length m) (size : BitVec 64)
    (hfilled : posted + desc_for_size size pkt_size ≤ filled.length)
    (ha : At buffers dw posted (posted * 8) gone filled h) :
    (H2cHost.env w buffers).Safe (Safely buffers dw)
      (fun r h => Started w buffers dw pkt_size posted gone filled r.2 h)
      (sde_mgmt_write slot_id size m) h := by
  have hrefused : (H2cHost.env w buffers).Safe (Safely buffers dw)
      (fun r h => Started w buffers dw pkt_size posted gone filled r.2 h)
      (pure (FPGA_ERR_SOFTWARE_PROBLEM, m)) h :=
    Env.safe_pure (at_stable hb hn _ _ _ _) ha fun h ha => ⟨0, hm, ha⟩
  unfold sde_mgmt_write checked
  split
  case isTrue => exact hrefused
  case isFalse =>
  split
  case isTrue => exact hrefused
  case isFalse =>
  split
  case isTrue => exact hrefused
  case isFalse =>
  have hp := posting hb hn gone filled
  rw [← hm.bar4_handle] at hp
  rw [← hm.pkt_size] at hfilled
  refine Env.safe_mono (hp.transfer hm.ring size
    (fun h ha => ha.grant (Nat.le_add_right _ _) hfilled) ha) ?_
  rintro r h ⟨more, hmoved, ha⟩
  exact ⟨more, hm.moved hmoved, ha⟩

end Writing

end AwsFpga.Sde.Writing
