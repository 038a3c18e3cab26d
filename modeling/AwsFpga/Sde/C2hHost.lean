import AwsFpga.Lib.Env
import AwsFpga.Sde.HostMemory

/-!
# The C2H engine and the memory of the host

What the driver and the engine share while packets come in: the descriptors that
were written to the engine (`design/sde_desc.sv`), the packet buffers
(`sde_c2h_data.sv`) and the ring of metadata (`sde_wb.sv`). The engine takes the
descriptors in order. It writes the bytes of a packet first and the metadata last.
-/

open Lib AwsFpga.Pci

namespace AwsFpga.Sde.Reading

/-- What the engine received for one descriptor. -/
structure Packet where
  bytes : List (BitVec 8)
  eop : Bool
  user : BitVec 64

/-- `struct c2h_wb_metadata`. -/
structure WbMetadata where
  length : BitVec 32
  status : BitVec 32
  user : BitVec 64

/-- `sde_pkg::c2h_reg_wb_t`: bit 0 of the status is `valid` and bit 1 is `eop`. -/
def Packet.metadata (p : Packet) : WbMetadata :=
  ⟨BitVec.ofNat 32 p.bytes.length, if p.eop then 3 else 1, p.user⟩

theorem Packet.metadata_valid (p : Packet) : md_valid p.metadata.status = true := by
  change md_valid (if p.eop then 3 else 1) = true
  split <;> decide

theorem Packet.metadata_eop (p : Packet) : md_eop p.metadata.status = p.eop := by
  change md_eop (if p.eop then 3 else 1) = p.eop
  cases p.eop <;> decide

structure C2hHost where
  /-- The dwords written to the descriptor RAM. -/
  posted : List (BitVec 32)
  /-- The packets whose metadata was written. -/
  packets : List Packet
  /-- How many entries of the ring the driver gave back. -/
  cleared : Nat
  /-- By the address on the bus. -/
  memory : BitVec 64 → BitVec 8
  entries : Nat → WbMetadata

namespace C2hHost

section Descriptors

variable (h : C2hHost)

/-- The descriptors that are complete. -/
def num_posted : Nat := h.posted.length / 4

/-- Dword `i` of descriptor `k`. -/
def desc_dw (k i : Nat) : BitVec 32 := h.posted.getD (k * 4 + i) 0

def desc_len (k : Nat) : Nat := (h.desc_dw k 0).toNat

def desc_addr (k : Nat) : BitVec 64 := h.desc_dw k 2 ++ h.desc_dw k 1

end Descriptors

/-- How a call of the driver is answered. Only the writes to the descriptor RAM, to the ring and to
memory change something. The writes to the BAR succeed. -/
def Answers (w : Wiring) : (o : SdeOp) → C2hHost → o.Ans → C2hHost → Prop
  | .pci (.poke handle offset value), h, (ret : Int), h' =>
    ret = 0 ∧ h' = if handle = w.bar4_handle ∧ offset = DESC_RAM_MAP_OFFSET .c2h then
      { h with posted := h.posted ++ [value] } else h
  | .md_length va index, h, (length : BitVec 32), h' =>
    h' = h ∧ (va = w.metadata → length = (h.entries index).length)
  | .md_status va index, h, (status : BitVec 32), h' =>
    h' = h ∧ (va = w.metadata → status = (h.entries index).status)
  | .md_user va index, h, (user : BitVec 64), h' =>
    h' = h ∧ (va = w.metadata → user = (h.entries index).user)
  | .md_store_status va index status, h, _, h' =>
    h' = if va = w.metadata then
      { h with
        entries := Function.update h.entries index { h.entries index with status }
        cleared := h.cleared + 1 } else h
  | .copy_from va size, h, (r : {bytes : List (BitVec 8) // bytes.length = size}), h' =>
    h' = h ∧ r.1 = (List.range size).map fun i => h.memory (w.bus (va + BitVec.ofNat 64 i))
  | .copy_to va bytes, h, _, h' =>
    h' = { h with memory := copied h.memory (fun i => w.bus (va + BitVec.ofNat 64 i)) bytes }
  | _, h, _, h' => h' = h

/-- What the engine does by itself. It writes to the buffers of descriptors that it did not complete,
and it completes the next one when its bytes are there. -/
inductive Moves : C2hHost → C2hHost → Prop where
  | write {h} (memory : BitVec 64 → BitVec 8)
      (frame : ∀ a, memory a ≠ h.memory a → ∃ k, h.packets.length ≤ k ∧ k < h.num_posted ∧
        Covers (h.desc_addr k) (h.desc_len k) a) : Moves h { h with memory }
  | complete {h} (p : Packet) (posted : h.packets.length < h.num_posted)
      (fits : p.bytes.length ≤ h.desc_len h.packets.length)
      (written : bytes_at h.memory (h.desc_addr h.packets.length) p.bytes.length = p.bytes) :
      Moves h { h with
        packets := h.packets ++ [p]
        entries := Function.update h.entries (h.packets.length % C2H_NUM_MD_IN_RING) p.metadata }

def env (w : Wiring) : Env SdeApi C2hHost := ⟨Answers w, Moves⟩

end C2hHost

/-! ## The dwords of the ring -/

/-- The dwords that the driver writes, when it goes through the buffers over and over. -/
def ring_dw (buffers : List SdeBuffer) (i : Nat) : BitVec 32 :=
  (c2h_desc (buffer_of buffers (i / 4))).getD (i % 4) 0

/-! ## What holds between the driver and the engine -/

/-- Packet `k` lies in its buffer. -/
structure Stored (buffers : List SdeBuffer) (memory : BitVec 64 → BitVec 8) (k : Nat) (p : Packet) :
    Prop where
  fits : p.bytes.length ≤ (buffer_of buffers k).length.toNat
  bytes : bytes_at memory (buffer_of buffers k).data_pa p.bytes.length = p.bytes

/-- The driver took `taken` packets, gave back that many entries or one more, and has posted or is
posting `limit` descriptors. -/
structure Shared (buffers : List SdeBuffer) (limit taken : Nat) (h : C2hHost) : Prop where
  posted : h.posted = (List.range h.posted.length).map (ring_dw buffers)
  posted_le : h.posted.length ≤ limit * 4
  limit_le : limit ≤ taken + buffers.length
  taken_le : taken ≤ h.cleared
  cleared_le : h.cleared ≤ h.packets.length
  written_le : h.packets.length ≤ h.num_posted
  stored : ∀ k p, taken ≤ k → h.packets[k]? = some p → Stored buffers h.memory k p
  entries : ∀ k p, h.cleared ≤ k → h.packets[k]? = some p →
    h.entries (k % C2H_NUM_MD_IN_RING) = p.metadata
  free : ∀ k, h.packets.length ≤ k → k < h.cleared + C2H_NUM_MD_IN_RING →
    md_valid (h.entries (k % C2H_NUM_MD_IN_RING)).status = false

section Shared

variable {w : Wiring} {buffers : List SdeBuffer} {limit taken : Nat} {h h' : C2hHost}

theorem Shared.desc_dw (hs : Shared buffers limit taken h) {k i : Nat} (hk : k < h.num_posted)
    (hi : i < 4) : h.desc_dw k i = (c2h_desc (buffer_of buffers k)).getD i 0 := by
  have hlt : k * 4 + i < h.posted.length := by
    unfold C2hHost.num_posted at hk
    omega
  unfold C2hHost.desc_dw
  rw [hs.posted, List.getD_eq_getElem _ _ (by simpa using hlt), List.getElem_map,
    List.getElem_range]
  unfold ring_dw
  rw [show (k * 4 + i) / 4 = k by omega, show (k * 4 + i) % 4 = i by omega]

theorem Shared.desc_len (hs : Shared buffers limit taken h) {k : Nat} (hk : k < h.num_posted) :
    h.desc_len k = (buffer_of buffers k).length.toNat := by
  unfold C2hHost.desc_len
  rw [hs.desc_dw hk (by decide)]
  rfl

theorem Shared.desc_addr (hs : Shared buffers limit taken h) {k : Nat} (hk : k < h.num_posted) :
    h.desc_addr k = (buffer_of buffers k).data_pa := by
  unfold C2hHost.desc_addr
  rw [hs.desc_dw hk (by decide), hs.desc_dw hk (by decide)]
  exact halves_append _

theorem Shared.num_posted_le (hs : Shared buffers limit taken h) : h.num_posted ≤ limit := by
  have := hs.posted_le
  unfold C2hHost.num_posted
  omega

theorem Stored.frame {memory memory' : BitVec 64 → BitVec 8} {k : Nat} {p : Packet}
    (hp : Stored buffers memory k p)
    (hframe : ∀ a, Covers (buffer_of buffers k).data_pa (buffer_of buffers k).length.toNat a →
      memory' a = memory a) : Stored buffers memory' k p :=
  ⟨hp.fits, (bytes_at_frame hp.fits (by omega) hframe).trans hp.bytes⟩

/-- The engine does not write to what the driver has still to take. -/
theorem Shared.write (hb : Buffers w buffers) (hs : Shared buffers limit taken h)
    {memory : BitVec 64 → BitVec 8}
    (hframe : ∀ a, memory a ≠ h.memory a → ∃ k, h.packets.length ≤ k ∧ k < h.num_posted ∧
      Covers (h.desc_addr k) (h.desc_len k) a) :
    Shared buffers limit taken { h with memory } := by
  refine ⟨hs.posted, hs.posted_le, hs.limit_le, hs.taken_le, hs.cleared_le, hs.written_le, ?_,
    hs.entries, hs.free⟩
  intro k p hk hp
  refine (hs.stored k p hk hp).frame fun a ha => ?_
  by_contra hne
  obtain ⟨j, hj, hposted, hcovers⟩ := hframe a hne
  rw [hs.desc_addr hposted, hs.desc_len hposted] at hcovers
  have hlt : k < h.packets.length := (List.getElem?_eq_some_iff.mp hp).1
  have hnear : j < k + buffers.length := by
    have hlimit := hs.limit_le
    have hle := hs.num_posted_le
    omega
  exact hb.apart j k (slots_differ (by omega) hnear).symm a hcovers ha

theorem Shared.complete (hb : Buffers w buffers) (hs : Shared buffers limit taken h) {p : Packet}
    (hposted : h.packets.length < h.num_posted)
    (hfits : p.bytes.length ≤ h.desc_len h.packets.length)
    (hwritten : bytes_at h.memory (h.desc_addr h.packets.length) p.bytes.length = p.bytes) :
    Shared buffers limit taken { h with
      packets := h.packets ++ [p]
      entries :=
        Function.update h.entries (h.packets.length % C2H_NUM_MD_IN_RING) p.metadata } := by
  have hnear : h.packets.length < taken + C2H_NUM_MD_IN_RING := by
    have hlimit := hs.limit_le
    have hle := hs.num_posted_le
    have hfew := hb.few
    omega
  rw [hs.desc_len hposted] at hfits
  rw [hs.desc_addr hposted] at hwritten
  have htaken := hs.taken_le
  have hcleared := hs.cleared_le
  refine ⟨hs.posted, hs.posted_le, hs.limit_le, htaken, ?_, ?_, ?_, ?_, ?_⟩
  · rw [List.length_append]
    exact hcleared.trans (Nat.le_add_right _ _)
  · rw [List.length_append]
    exact hposted
  · intro k q hk hq
    obtain hq | ⟨rfl, rfl⟩ := concat_some hq
    · exact hs.stored k q hk hq
    · exact ⟨hfits, hwritten⟩
  · intro k q hk hq
    dsimp only at hk ⊢
    obtain hq | ⟨rfl, rfl⟩ := concat_some hq
    · have hlt : k < h.packets.length := (List.getElem?_eq_some_iff.mp hq).1
      rw [Function.update_of_ne (slots_differ hlt (by omega))]
      exact hs.entries k q hk hq
    · rw [Function.update_self]
  · intro k hk hnear
    rw [List.length_append, List.length_singleton] at hk
    dsimp only at hk hnear ⊢
    rw [Function.update_of_ne (slots_differ hk (by omega)).symm]
    exact hs.free k (Nat.le_of_succ_le hk) hnear

theorem Shared.moves (hb : Buffers w buffers) (hs : Shared buffers limit taken h)
    (hmove : C2hHost.Moves h h') : Shared buffers limit taken h' := by
  cases hmove with
  | write memory frame => exact hs.write hb frame
  | complete p posted fits written => exact hs.complete hb posted fits written

end Shared

end AwsFpga.Sde.Reading
