import AwsFpga.Lib.Env
import AwsFpga.Sde.HostMemory
import AwsFpga.Sde.Wire

/-!
# The H2C engine and the memory of the host

What the driver and the engine share while packets go out: the descriptors that were written to the
engine (`design/sde_desc.sv`) and the packet buffers, which it reads (`sde_h2c.sv`). The bytes of the
open descriptors are fetched in any order. A packet is sent when it has all of its bytes.
-/

open Lib AwsFpga.Pci

namespace AwsFpga.Sde.Writing

/-- What the engine sent for one descriptor. -/
structure Packet where
  bytes : List (BitVec 8)
  eop : Bool

structure H2cHost where
  /-- The dwords written to the descriptor RAM. -/
  posted : List (BitVec 32)
  /-- The byte of a descriptor at a position, once it was read. -/
  fetched : Nat × Nat → Option (BitVec 8)
  sent : List Packet
  /-- By the address on the bus. -/
  memory : BitVec 64 → BitVec 8

namespace H2cHost

section Descriptors

variable (h : H2cHost)

/-- The descriptors that are complete. -/
def num_posted : Nat := h.posted.length / 8

/-- Dword `i` of descriptor `k`. -/
def desc_dw (k i : Nat) : BitVec 32 := h.posted.getD (k * 8 + i) 0

def desc_len (k : Nat) : Nat := (h.desc_dw k 0).toNat

def desc_addr (k : Nat) : BitVec 64 := h.desc_dw k 2 ++ h.desc_dw k 1

def desc_eop (k : Nat) : Bool := (h.desc_dw k 3).getLsbD 0

end Descriptors

/-- How a call of the driver is answered. Only the writes to the descriptor RAM and to memory change
something. The writes to the BAR succeed. -/
def Answers (w : Wiring) : (o : SdeOp) → H2cHost → o.Ans → H2cHost → Prop
  | .pci (.poke handle offset value), h, (ret : Int), h' =>
    ret = 0 ∧ h' = if handle = w.bar4_handle ∧ offset = DESC_RAM_MAP_OFFSET .h2c then
      { h with posted := h.posted ++ [value] } else h
  | .copy_to va bytes, h, _, h' =>
    h' = { h with memory := copied h.memory (fun i => w.bus (va + BitVec.ofNat 64 i)) bytes }
  | _, h, _, h' => h' = h

/-- What happens by itself. The engine reads the bytes of descriptors that it did not complete, and
completes the next one when it has them all. Nothing else writes to the buffers. -/
inductive Moves (buffers : List SdeBuffer) : H2cHost → H2cHost → Prop where
  | fetch {h} (k i : Nat) (opened : h.sent.length ≤ k) (posted : k < h.num_posted)
      (inside : i < h.desc_len k) : Moves buffers h { h with
        fetched := Function.update h.fetched (k, i)
          (some (h.memory (h.desc_addr k + BitVec.ofNat 64 i))) }
  | complete {h} (bytes : List (BitVec 8)) (posted : h.sent.length < h.num_posted)
      (length : bytes.length = h.desc_len h.sent.length)
      (fetched : ∀ i < bytes.length, h.fetched (h.sent.length, i) = bytes[i]?) :
    Moves buffers h { h with sent := h.sent ++ [⟨bytes, h.desc_eop h.sent.length⟩] }
  | others {h} (memory : BitVec 64 → BitVec 8)
      (frame : ∀ b ∈ buffers, ∀ a, Covers b.data_pa b.length.toNat a → memory a = h.memory a) :
    Moves buffers h { h with memory }

def env (w : Wiring) (buffers : List SdeBuffer) : Env SdeApi H2cHost :=
  ⟨Answers w, Moves buffers⟩

end H2cHost

/-! ## What holds between the driver and the engine -/

/-- The dwords of descriptor `k` name buffer `k`, and end a packet. -/
structure Names (buffers : List SdeBuffer) (dw : Nat → BitVec 32) : Prop where
  length : ∀ k, dw (k * 8) = (buffer_of buffers k).length
  addr : ∀ k, dw (k * 8 + 2) ++ dw (k * 8 + 1) = (buffer_of buffers k).data_pa
  eop : ∀ k, (dw (k * 8 + 3)).getLsbD 0 = true

/-- A packet is a whole buffer, with the chunk in front. -/
structure Carries (buffers : List SdeBuffer) (k : Nat) (chunk : List (BitVec 8)) (p : Packet) :
    Prop where
  front : chunk <+: p.bytes
  length : p.bytes.length = (buffer_of buffers k).length.toNat
  eop : p.eop = true

/-- The driver filled a buffer with each of the `filled` chunks, and has posted or is posting `limit`
descriptors. -/
structure Lent (buffers : List SdeBuffer) (dw : Nat → BitVec 32) (limit : Nat)
    (filled : List (List (BitVec 8))) (h : H2cHost) : Prop where
  posted : h.posted = (List.range h.posted.length).map dw
  posted_le : h.posted.length ≤ limit * 8
  limit_le : limit ≤ filled.length
  room : filled.length ≤ h.sent.length + buffers.length
  sent_le : h.sent.length ≤ h.num_posted
  fits : ∀ k c, filled[k]? = some c → c.length ≤ (buffer_of buffers k).length.toNat
  sent : ∀ k p, h.sent[k]? = some p → ∃ c, filled[k]? = some c ∧ Carries buffers k c p
  stored : ∀ k c, h.sent.length ≤ k → filled[k]? = some c →
    bytes_at h.memory (buffer_of buffers k).data_pa c.length = c
  fetched : ∀ k i b, h.sent.length ≤ k → h.fetched (k, i) = some b → k < h.num_posted ∧
    ∀ chunk x, filled[k]? = some chunk → chunk[i]? = some x → b = x

section Lent

variable {w : Wiring} {buffers : List SdeBuffer} {dw : Nat → BitVec 32} {limit : Nat}
  {filled : List (List (BitVec 8))} {h h' : H2cHost}

theorem Lent.desc_dw (hl : Lent buffers dw limit filled h) {k i : Nat} (hk : k < h.num_posted)
    (hi : i < 8) : h.desc_dw k i = dw (k * 8 + i) := by
  have hlt : k * 8 + i < h.posted.length := by
    unfold H2cHost.num_posted at hk
    omega
  unfold H2cHost.desc_dw
  rw [hl.posted, List.getD_eq_getElem _ _ (by simpa using hlt), List.getElem_map,
    List.getElem_range]

theorem Lent.desc_len (hn : Names buffers dw) (hl : Lent buffers dw limit filled h) {k : Nat}
    (hk : k < h.num_posted) : h.desc_len k = (buffer_of buffers k).length.toNat := by
  unfold H2cHost.desc_len
  rw [hl.desc_dw hk (by decide), Nat.add_zero, hn.length]

theorem Lent.desc_addr (hn : Names buffers dw) (hl : Lent buffers dw limit filled h) {k : Nat}
    (hk : k < h.num_posted) : h.desc_addr k = (buffer_of buffers k).data_pa := by
  unfold H2cHost.desc_addr
  rw [hl.desc_dw hk (by decide), hl.desc_dw hk (by decide), hn.addr]

theorem Lent.desc_eop (hn : Names buffers dw) (hl : Lent buffers dw limit filled h) {k : Nat}
    (hk : k < h.num_posted) : h.desc_eop k = true := by
  unfold H2cHost.desc_eop
  rw [hl.desc_dw hk (by decide), hn.eop]

theorem Lent.num_posted_le (hl : Lent buffers dw limit filled h) : h.num_posted ≤ limit := by
  have := hl.posted_le
  unfold H2cHost.num_posted
  omega

theorem Lent.byte (hl : Lent buffers dw limit filled h) {k i : Nat} {chunk : List (BitVec 8)}
    {x : BitVec 8} (hk : h.sent.length ≤ k) (hc : filled[k]? = some chunk) (hx : chunk[i]? = some x) :
    h.memory ((buffer_of buffers k).data_pa + BitVec.ofNat 64 i) = x := by
  have hi : i < chunk.length := (List.getElem?_eq_some_iff.mp hx).1
  rw [← hl.stored k chunk hk hc, bytes_at_get hi] at hx
  exact Option.some.inj hx

theorem Lent.fetch (hn : Names buffers dw) (hl : Lent buffers dw limit filled h) {k i : Nat}
    (hopened : h.sent.length ≤ k) (hposted : k < h.num_posted) :
    Lent buffers dw limit filled { h with
      fetched := Function.update h.fetched (k, i)
        (some (h.memory (h.desc_addr k + BitVec.ofNat 64 i))) } := by
  refine ⟨hl.posted, hl.posted_le, hl.limit_le, hl.room, hl.sent_le, hl.fits, hl.sent, hl.stored, ?_⟩
  intro k' i' b hk' hb
  dsimp only at hk' hb ⊢
  by_cases heq : (k', i') = (k, i)
  · obtain ⟨rfl, rfl⟩ := Prod.mk.inj heq
    rw [Function.update_self, hl.desc_addr hn hposted] at hb
    refine ⟨hposted, fun c x hc hx => ?_⟩
    rw [← Option.some.inj hb]
    exact hl.byte hopened hc hx
  · rw [Function.update_of_ne heq] at hb
    exact hl.fetched k' i' b hk' hb

theorem Lent.complete (hn : Names buffers dw) (hl : Lent buffers dw limit filled h)
    {bytes : List (BitVec 8)} (hposted : h.sent.length < h.num_posted)
    (hlength : bytes.length = h.desc_len h.sent.length)
    (hfetched : ∀ i < bytes.length, h.fetched (h.sent.length, i) = bytes[i]?) :
    Lent buffers dw limit filled
      { h with sent := h.sent ++ [⟨bytes, h.desc_eop h.sent.length⟩] } := by
  have hlt : h.sent.length < filled.length :=
    (hposted.trans_le hl.num_posted_le).trans_le hl.limit_le
  rw [hl.desc_len hn hposted] at hlength
  have hsucc (p : Packet) : (h.sent ++ [p]).length = h.sent.length + 1 := by
    rw [List.length_append, List.length_singleton]
  refine ⟨hl.posted, hl.posted_le, hl.limit_le, ?_, ?_, hl.fits, ?_, ?_, ?_⟩
  · have hroom := hl.room
    rw [hsucc]
    omega
  · dsimp only
    rw [hsucc]
    exact hposted
  · intro k p hp
    obtain hp | ⟨rfl, rfl⟩ := concat_some hp
    · exact hl.sent k p hp
    · have hc := List.getElem?_eq_getElem hlt
      refine ⟨_, hc, ?_, hlength, hl.desc_eop hn hposted⟩
      have hfits := hl.fits _ _ hc
      refine List.prefix_iff_getElem?.mpr fun i hi => ?_
      have hb := hfetched i (by omega)
      rw [List.getElem?_eq_getElem (show i < bytes.length by omega)] at hb ⊢
      rw [(hl.fetched _ i _ (Nat.le_refl _) hb).2 _ _ hc (List.getElem?_eq_getElem hi)]
  · intro k c hk hc
    rw [hsucc] at hk
    exact hl.stored k c (Nat.le_of_succ_le hk) hc
  · intro k i b hk hb
    rw [hsucc] at hk
    exact hl.fetched k i b (Nat.le_of_succ_le hk) hb

theorem Lent.others (hb : Buffers w buffers) (hl : Lent buffers dw limit filled h)
    {memory : BitVec 64 → BitVec 8}
    (hframe : ∀ b ∈ buffers, ∀ a, Covers b.data_pa b.length.toNat a → memory a = h.memory a) :
    Lent buffers dw limit filled { h with memory } := by
  refine ⟨hl.posted, hl.posted_le, hl.limit_le, hl.room, hl.sent_le, hl.fits, hl.sent, ?_, hl.fetched⟩
  intro k c hk hc
  have hlength := (buffer_of buffers k).length.isLt
  refine (bytes_at_frame (hl.fits k c hc) (by omega) ?_).trans (hl.stored k c hk hc)
  exact hframe _ (buffer_of_mem hb k)

theorem Lent.moves (hb : Buffers w buffers) (hn : Names buffers dw)
    (hl : Lent buffers dw limit filled h) (hmove : H2cHost.Moves buffers h h') :
    Lent buffers dw limit filled h' := by
  cases hmove with
  | fetch k i opened posted inside => exact hl.fetch hn opened posted
  | complete bytes posted length fetched => exact hl.complete hn posted length fetched
  | others memory frame => exact hl.others hb frame

/-- The next chunk goes to a buffer whose packet was sent. -/
theorem Lent.fill (hb : Buffers w buffers) (hl : Lent buffers dw limit filled h)
    {c : List (BitVec 8)} (hroom : filled.length < h.sent.length + buffers.length)
    (hfits : c.length ≤ (buffer_of buffers filled.length).length.toNat) :
    Lent buffers dw limit (filled ++ [c])
      { h with memory := copied h.memory (fill_addr w buffers filled.length) c } := by
  have hsucc : (filled ++ [c]).length = filled.length + 1 := by
    rw [List.length_append, List.length_singleton]
  refine ⟨hl.posted, hl.posted_le, ?_, ?_, hl.sent_le, ?_, ?_, ?_, ?_⟩
  · rw [hsucc]
    exact Nat.le_succ_of_le hl.limit_le
  · dsimp only
    rw [hsucc]
    exact hroom
  · intro k c' hc'
    obtain hold | ⟨rfl, rfl⟩ := concat_some hc'
    · exact hl.fits k c' hold
    · exact hfits
  · intro k p hp
    obtain ⟨c', hc', hcarries⟩ := hl.sent k p hp
    refine ⟨c', ?_, hcarries⟩
    rw [List.getElem?_append_left (List.getElem?_eq_some_iff.mp hc').1]
    exact hc'
  · intro k c' hk hc'
    dsimp only at hk ⊢
    obtain hold | ⟨rfl, rfl⟩ := concat_some hc'
    · have hlt : k < filled.length := (List.getElem?_eq_some_iff.mp hold).1
      have hlength := (buffer_of buffers k).length.isLt
      refine (bytes_at_frame (hl.fits k c' hold) (by omega) fun a ha => ?_).trans
        (hl.stored k c' hk hold)
      refine copied_outside hb hfits fun ha' => ?_
      exact hb.apart k filled.length (slots_differ hlt (by omega)) a ha ha'
    · exact bytes_at_copied hb hfits
  · intro k i b hk hget
    obtain ⟨hposted, hbyte⟩ := hl.fetched k i b hk hget
    refine ⟨hposted, fun c' x hc' hx => ?_⟩
    obtain hold | ⟨rfl, rfl⟩ := concat_some hc'
    · exact hbyte c' x hold hx
    · -- Nothing is fetched for a descriptor that is not posted.
      have hlimit := hl.limit_le
      have hle := hl.num_posted_le
      omega

end Lent

end AwsFpga.Sde.Writing
