import AwsFpga.Sde.C2hHost
import AwsFpga.Sde.Posting

/-!
# Reading packets, from the descriptors to the bytes

A caller starts reads and takes data, in any order, while packets come in. The
driver has two indices, one in the ring of metadata and one in the buffers, and a
third for the descriptors. Each goes round at its own size.
-/

open Lib AwsFpga.Pci

namespace AwsFpga.Sde.Reading

/-! ## What a call returns -/

def bytes_of (packets : List Packet) : List (BitVec 8) := packets.flatMap Packet.bytes

/-- A call of `sde_mgmt_read_data`: what it was asked for, its code and the bytes that it copied. -/
structure Read where
  size : Nat
  ret : Int
  data : List (BitVec 8)

/-- What a call makes of the packets that it took. It takes packets until it has `size` bytes, and what
the last one has beyond them is dropped. -/
inductive Returned (r : Read) : List Packet → Prop where
  | refused (ret : r.ret = FPGA_ERR_SOFTWARE_PROBLEM) (data : r.data = []) : Returned r []
  | timeout {taken} (ret : r.ret = SDE_METADATA_VALID_TIMEOUT) (data : r.data = bytes_of taken)
      (less : (bytes_of taken).length < r.size) : Returned r taken
  | filled {taken} (ret : r.ret = 0) (data : r.data = (bytes_of taken).take r.size)
      (enough : r.size ≤ (bytes_of taken).length)
      (needed : (bytes_of taken.dropLast).length < r.size) : Returned r taken

/-- Each call has its packets: those that were taken, one call after another. -/
def Shares (reads : List Read) (taken : List Packet) : Prop :=
  ∃ shares : List (List Packet), shares.flatten = taken ∧ List.Forall₂ Returned reads shares

theorem Shares.concat {reads : List Read} {taken more : List Packet} {r : Read}
    (h : Shares reads taken) (hr : Returned r more) : Shares (reads ++ [r]) (taken ++ more) := by
  obtain ⟨shares, rfl, hall⟩ := h
  refine ⟨shares ++ [more], by rw [List.flatten_append, List.flatten_singleton], ?_⟩
  exact List.rel_append hall (.cons hr .nil)

/-! ## The states of a read -/

/-- `limit` descriptors are posted or being posted, of which `dwords` dwords went out. `cleared` entries
were given back, and `taken` packets were copied. `known` are packets that came in. -/
structure At (buffers : List SdeBuffer) (limit dwords cleared taken : Nat) (known : List Packet)
    (h : C2hHost) : Prop where
  shared : Shared buffers limit taken h
  posted : h.posted.length = dwords
  cleared : h.cleared = cleared
  known : known <+: h.packets

/-- What holds always: nothing that is still to be copied is lost. -/
def Safely (buffers : List SdeBuffer) (h : C2hHost) : Prop :=
  ∃ limit taken, Shared buffers limit taken h

section At

variable {w : Wiring} {buffers : List SdeBuffer} {limit dwords cleared taken : Nat}
  {known : List Packet} {h h' : C2hHost} {p : Packet}

theorem moves_frame (hmove : C2hHost.Moves h h') :
    h'.posted = h.posted ∧ h'.cleared = h.cleared ∧ h.packets <+: h'.packets := by
  cases hmove with
  | write memory frame => exact ⟨rfl, rfl, List.prefix_rfl⟩
  | complete p posted fits written => exact ⟨rfl, rfl, List.prefix_append _ _⟩

theorem at_stable (hb : Buffers w buffers) (limit dwords cleared taken : Nat)
    (known : List Packet) :
    (C2hHost.env w).Stable (Safely buffers) (At buffers limit dwords cleared taken known) where
  moves := by
    intro h h' ha hmove
    obtain ⟨hposted, hcleared, hpackets⟩ := moves_frame hmove
    exact ⟨ha.shared.moves hb hmove, by rw [hposted, ha.posted], hcleared.trans ha.cleared,
      ha.known.trans hpackets⟩
  inv := fun ha => ⟨_, _, ha.shared⟩

theorem At.more (ha : At buffers limit dwords cleared taken known h) :
    At buffers limit dwords cleared taken h.packets h :=
  ⟨ha.shared, ha.posted, ha.cleared, List.prefix_rfl⟩

theorem At.getElem? (ha : At buffers limit dwords cleared taken known h) {k : Nat}
    (hp : known[k]? = some p) : h.packets[k]? = some p := by
  obtain ⟨more, hmore⟩ := ha.known
  rw [← hmore, List.getElem?_append_left (List.getElem?_eq_some_iff.mp hp).1]
  exact hp

theorem At.length_le (ha : At buffers limit dwords cleared taken known h) :
    known.length ≤ h.packets.length := ha.known.length_le

theorem At.give_back (hb : Buffers w buffers) (ha : At buffers limit dwords cleared cleared known h)
    (hlt : cleared < known.length) :
    At buffers limit dwords (cleared + 1) cleared known { h with
      entries := Function.update h.entries (cleared % C2H_NUM_MD_IN_RING)
        { h.entries (cleared % C2H_NUM_MD_IN_RING) with status := 0 }
      cleared := h.cleared + 1 } := by
  have hs := ha.shared
  have hcleared := ha.cleared
  have hle := ha.length_le
  refine ⟨⟨hs.posted, hs.posted_le, hs.limit_le, ?_, ?_, hs.written_le, hs.stored, ?_, ?_⟩,
    ha.posted, by rw [hcleared], ha.known⟩
  · dsimp only
    omega
  · dsimp only
    omega
  · intro k q hk hq
    dsimp only at hk hq ⊢
    have hnear : k < cleared + C2H_NUM_MD_IN_RING := by
      have hlt : k < h.packets.length := (List.getElem?_eq_some_iff.mp hq).1
      have hwritten := hs.written_le
      have hposted := hs.num_posted_le
      have hlimit := hs.limit_le
      have hfew := hb.few
      omega
    rw [Function.update_of_ne (slots_differ (by omega) hnear).symm]
    exact hs.entries k q (by omega) hq
  · intro k hk hnear
    dsimp only at hk hnear ⊢
    by_cases hlast : k = cleared + C2H_NUM_MD_IN_RING
    · rw [hlast, Nat.add_mod_right, Function.update_self]
      change md_valid 0 = false
      decide
    · rw [Function.update_of_ne (slots_differ (by omega) (by omega)).symm]
      exact hs.free k hk (by omega)

theorem At.take (ha : At buffers limit dwords (taken + 1) taken known h) :
    At buffers limit dwords (taken + 1) (taken + 1) known h := by
  have hs := ha.shared
  refine ⟨⟨hs.posted, hs.posted_le, ?_, ?_, hs.cleared_le, hs.written_le, ?_, hs.entries, hs.free⟩,
    ha.posted, ha.cleared, ha.known⟩
  · have := hs.limit_le
    omega
  · exact ha.cleared.ge
  · exact fun k p hk hp => hs.stored k p (Nat.le_of_succ_le hk) hp

theorem At.grant (ha : At buffers limit dwords cleared taken known h) {limit' : Nat}
    (hle : limit ≤ limit') (hroom : limit' ≤ taken + buffers.length) :
    At buffers limit' dwords cleared taken known h := by
  have hs := ha.shared
  refine ⟨⟨hs.posted, ?_, hroom, hs.taken_le, hs.cleared_le, hs.written_le, hs.stored, hs.entries,
    hs.free⟩, ha.posted, ha.cleared, ha.known⟩
  exact hs.posted_le.trans (Nat.mul_le_mul_right _ hle)

theorem At.push (ha : At buffers limit dwords cleared taken known h) (hlt : dwords < limit * 4) :
    At buffers limit (dwords + 1) cleared taken known
      { h with posted := h.posted ++ [ring_dw buffers dwords] } := by
  have hs := ha.shared
  have hposted := ha.posted
  refine ⟨⟨?_, ?_, hs.limit_le, hs.taken_le, hs.cleared_le, ?_, hs.stored, hs.entries, hs.free⟩, ?_,
    ha.cleared, ha.known⟩
  · rw [List.length_append, List.length_singleton, List.range_succ, List.map_append, ← hs.posted,
      hposted, List.map_singleton]
  · rw [List.length_append, List.length_singleton]
    omega
  · have hwritten := hs.written_le
    unfold C2hHost.num_posted at hwritten ⊢
    rw [List.length_append, List.length_singleton]
    dsimp only
    omega
  · rw [List.length_append, List.length_singleton, hposted]

/-- The entry at the index of the driver: it is valid when the next packet is there. -/
theorem At.valid_iff (ha : At buffers limit dwords cleared taken known h) :
    md_valid (h.entries (cleared % C2H_NUM_MD_IN_RING)).status = true ↔
      cleared < h.packets.length := by
  have hs := ha.shared
  have hcleared := ha.cleared
  constructor
  · intro hvalid
    by_contra hge
    have hfree := hs.free cleared (by omega) (by unfold C2H_NUM_MD_IN_RING; omega)
    rw [hvalid] at hfree
    cases hfree
  · intro hlt
    rw [hs.entries cleared _ hcleared.le (List.getElem?_eq_getElem hlt)]
    exact Packet.metadata_valid _

end At

/-! ## The element of the slot -/

/-- The ring of descriptors goes through the buffers, and `posted` of them were posted. -/
structure PostRing (hw_ctrl : SdeHwCtrl) (buffers : List SdeBuffer) (posted : Nat)
    (b : SdeDmaBuffer) : Prop where
  ring : DescRing hw_ctrl b
  subsystem : b.subsystem = .c2h
  whole : buffers.length ∣ b.num_desc
  desc : ∀ k < b.num_desc * 4, b.desc k = ring_dw buffers k
  index : b.curr_desc_index_to_post = posted % b.num_desc

/-- The driver posted `posted` descriptors and took `taken` packets, and its indices say so. -/
structure Reads (w : Wiring) (buffers : List SdeBuffer) (posted taken : Nat) (m : SdeMgmt) :
    Prop where
  bar4_handle : m.hw_ctrl.bar4_handle = w.bar4_handle
  metadata : m.metadata = w.metadata
  ring : PostRing m.hw_ctrl buffers posted m.c2h_buffer
  has_buffers : m.c2h_buffer.buffers = some buffers
  num_buffers : m.c2h_buffer.num_buffers = buffers.length
  md_index : m.md_read_index = taken % C2H_NUM_MD_IN_RING
  buffer_index : m.c2h_buffer.current_buffer_index = taken % buffers.length

section Reading

variable {w : Wiring} {buffers : List SdeBuffer} {limit dwords cleared taken posted : Nat}
  {known : List Packet} {h h' : C2hHost} {p : Packet} {m : SdeMgmt} {slot_id : Int}

/-! ### The metadata -/

/-- The next packet is there, or none of those that the driver does not have is. -/
def Waited (buffers : List SdeBuffer) (limit dwords cleared : Nat) (known : List Packet)
    (done : Bool) (h : C2hHost) : Prop :=
  if done then
    ∃ known', known <+: known' ∧ cleared < known'.length ∧
      At buffers limit dwords cleared cleared known' h
  else known.length ≤ cleared ∧ At buffers limit dwords cleared cleared known h

theorem wait_md_step (hb : Buffers w buffers) (hm : Reads w buffers posted cleared m) {rounds : Nat}
    (ha : At buffers limit dwords cleared cleared known h)
    (hnext : ∀ h, known.length ≤ cleared → At buffers limit dwords cleared cleared known h →
      (C2hHost.env w).Safe (Safely buffers) (Waited buffers limit dwords cleared known)
        (wait_md m rounds) h) :
    (C2hHost.env w).Safe (Safely buffers) (Waited buffers limit dwords cleared known)
      (wait_md m (rounds + 1)) h := by
  unfold wait_md
  refine Env.safe_op_bind (at_stable hb _ _ _ _ _) ha ?_
  rintro h (status : BitVec 32) h' ha ⟨rfl, hstatus⟩
  have hvalid : md_valid status = true ↔ cleared < h'.packets.length := by
    rw [hstatus hm.metadata, hm.md_index]
    exact ha.valid_iff
  split
  case isTrue hdone =>
    refine Env.safe_pure (at_stable hb _ _ _ _ _) ha.more fun h ha' => ?_
    exact ⟨_, ha.known, hvalid.mp hdone, ha'⟩
  case isFalse hdone =>
    have hnone := Nat.not_lt.mp (mt hvalid.mpr hdone)
    exact hnext h' (ha.length_le.trans hnone) ha

theorem wait_md_safe (hb : Buffers w buffers) (hm : Reads w buffers posted cleared m) (rounds : Nat)
    (ha : At buffers limit dwords cleared cleared known h) :
    (C2hHost.env w).Safe (Safely buffers) (Waited buffers limit dwords cleared known)
      (wait_md m (rounds + 1)) h := by
  induction rounds generalizing h with
  | zero =>
    refine wait_md_step hb hm ha fun h hnone ha => ?_
    exact Env.safe_pure (at_stable hb _ _ _ _ _) ha fun h ha => ⟨hnone, ha⟩
  | succ rounds ih => exact wait_md_step hb hm ha fun h _ ha => ih ha

/-- What `sde_mgmt_read_md` answers for a packet. -/
def md_of (p : Packet) : SdeMd :=
  ⟨BitVec.ofNat 32 p.bytes.length, true, p.eop, (p.user.setWidth 32, (p.user >>> 32).setWidth 32)⟩

/-- The user bits of the packet whose entry was given back are still there. -/
def User (p : Packet) (cleared : Nat) (h : C2hHost) : Prop :=
  (h.entries (cleared % C2H_NUM_MD_IN_RING)).user = p.user

theorem user_stable (hb : Buffers w buffers) (limit dwords cleared : Nat) (known : List Packet)
    (p : Packet) : (C2hHost.env w).Stable (Safely buffers) fun h =>
      At buffers limit dwords (cleared + 1) cleared known h ∧ User p cleared h where
  moves := by
    rintro h h' ⟨ha, huser⟩ hmove
    refine ⟨(at_stable hb _ _ _ _ _).moves ha hmove, ?_⟩
    cases hmove with
    | write memory frame => exact huser
    | complete q hposted fits written =>
      have hs := ha.shared
      have hcleared := ha.cleared
      have hlt := hs.cleared_le
      have hle := hs.num_posted_le
      have hlimit := hs.limit_le
      have hfew := hb.few
      unfold User
      dsimp only
      rw [Function.update_of_ne (slots_differ (by omega) (by omega))]
      exact huser
  inv := fun h => (at_stable hb _ _ _ _ _).inv h.1

/-- How `sde_mgmt_read_md` ends: nothing came in, or it answers the metadata of the next packet. -/
inductive MdRead (buffers : List SdeBuffer) (limit dwords cleared : Nat) (known : List Packet)
    (m : SdeMgmt) : Int × SdeMd × SdeMgmt → C2hHost → Prop where
  | timeout (g) (none : known.length ≤ cleared)
      (ha : At buffers limit dwords cleared cleared known g) :
      MdRead buffers limit dwords cleared known m (SDE_METADATA_VALID_TIMEOUT, no_md, m) g
  | next (g known' p) (more : known <+: known') (hp : known'[cleared]? = some p)
      (ha : At buffers limit dwords (cleared + 1) cleared known' g) :
      MdRead buffers limit dwords cleared known m
        (0, md_of p, { m with md_read_index := (cleared + 1) % C2H_NUM_MD_IN_RING }) g

/-- The slot is one and it was opened. -/
structure Opened (slot_id : Int) (m : SdeMgmt) : Prop where
  slot : ¬SDE_SLOT_MAX ≤ slot_id
  initialized : ¬m.initialized = false

theorem checked_opened {α : Type} (hopened : Opened slot_id m) (fail : Int → Prog SdeApi α)
    (k : Prog SdeApi α) : checked slot_id m fail k = k := by
  unfold checked
  rw [if_neg hopened.slot, if_neg hopened.initialized]

theorem md_index_next (n : Nat) :
    (n % C2H_NUM_MD_IN_RING + 1) &&& (SDE_NUM_DESC - 1) = (n + 1) % C2H_NUM_MD_IN_RING := by
  rw [show SDE_NUM_DESC - 1 = 2 ^ 6 - 1 from rfl, Nat.and_two_pow_sub_one_eq_mod,
    show C2H_NUM_MD_IN_RING = 2 ^ 6 from rfl, Nat.mod_add_mod]

theorem read_md_safe (hb : Buffers w buffers) (hopened : Opened slot_id m)
    (hm : Reads w buffers posted cleared m)
    (ha : At buffers limit dwords cleared cleared known h) :
    (C2hHost.env w).Safe (Safely buffers) (MdRead buffers limit dwords cleared known m)
      (sde_mgmt_read_md slot_id m) h := by
  unfold sde_mgmt_read_md
  rw [checked_opened hopened, show DESC_WAIT_MAX_ITERS = 999999 + 1 from rfl]
  refine Env.safe_bind (wait_md_safe hb hm _ ha) ?_
  rintro done h hwaited
  cases done with
  | false =>
    obtain ⟨hnone, ha⟩ := hwaited
    exact Env.safe_pure (at_stable hb _ _ _ _ _) ha fun h ha => .timeout h hnone ha
  | true =>
    obtain ⟨known', hmore, hlt, ha⟩ := hwaited
    have hp := List.getElem?_eq_getElem hlt
    generalize known'[cleared] = p at hp
    -- The entry holds the metadata of the next packet until it is given back.
    have hentry : ∀ g, At buffers limit dwords cleared cleared known' g →
        g.entries m.md_read_index = p.metadata := by
      intro g ha
      rw [hm.md_index]
      exact ha.shared.entries cleared p ha.cleared.le (ha.getElem? hp)
    refine Env.safe_op_bind (at_stable hb _ _ _ _ _) ha ?_
    rintro g (status : BitVec 32) h ha ⟨rfl, hstatus⟩
    rw [hentry _ ha] at hstatus
    refine Env.safe_op_bind (at_stable hb _ _ _ _ _) ha ?_
    rintro g (length : BitVec 32) h ha ⟨rfl, hlength⟩
    rw [hentry _ ha] at hlength
    refine Env.safe_op_bind (at_stable hb _ _ _ _ _) ha ?_
    rintro h u g ha hstore
    replace hstore : g = if m.metadata = w.metadata then _ else h := hstore
    rw [if_pos hm.metadata] at hstore
    subst hstore
    -- It is given back now, and the user bits are read behind that.
    have huser : User p cleared { h with
        entries := Function.update h.entries m.md_read_index
          { h.entries m.md_read_index with status := 0 }
        cleared := h.cleared + 1 } := by
      unfold User
      dsimp only
      rw [hm.md_index, Function.update_self, ← hm.md_index, hentry h ha]
      rfl
    have hback := ha.give_back hb hlt
    rw [← hm.md_index] at hback
    refine Env.safe_op_bind (user_stable hb _ _ _ _ p) ⟨hback, huser⟩ ?_
    rintro g (user₀ : BitVec 64) h ⟨ha, huser⟩ ⟨rfl, huser₀⟩
    rw [hm.md_index, huser] at huser₀
    refine Env.safe_op_bind (user_stable hb _ _ _ _ p) ⟨ha, huser⟩ ?_
    rintro g (user₁ : BitVec 64) h ⟨ha, huser⟩ ⟨rfl, huser₁⟩
    rw [hm.md_index, huser] at huser₁
    refine Env.safe_pure (at_stable hb _ _ _ _ _) ha fun h ha => ?_
    rw [hstatus hm.metadata, hlength hm.metadata, huser₀ hm.metadata, huser₁ hm.metadata,
      p.metadata_valid, p.metadata_eop, hm.md_index, md_index_next]
    exact .next h known' p hmore hp ha

/-! ### The data -/

/-- A packet lies in one buffer, so the copy takes one round. -/
theorem dma_read_data_safe (hb : Buffers w buffers) {b : SdeDmaBuffer}
    (hbuffers : b.buffers = some buffers) (hnum : b.num_buffers = buffers.length)
    (hindex : b.current_buffer_index = taken % buffers.length) (hp : known[taken]? = some p)
    {size : Nat} (hsize : size ≤ p.bytes.length)
    (ha : At buffers limit dwords (taken + 1) taken known h) :
    (C2hHost.env w).Safe (Safely buffers) (fun r h =>
      r = (p.bytes.take size, { b with current_buffer_index := (taken + 1) % buffers.length }) ∧
        At buffers limit dwords (taken + 1) (taken + 1) known h) (sde_dma_read_data size b) h := by
  have hstored := ha.shared.stored taken p (Nat.le_refl _) (ha.getElem? hp)
  have hfits := hsize.trans hstored.fits
  obtain ⟨fuel, hfuel⟩ : ∃ fuel, copy_rounds size b.num_buffers = fuel + 1 :=
    Nat.exists_eq_succ_of_ne_zero (by simp [copy_rounds])
  unfold sde_dma_read_data
  rw [hfuel]
  unfold read_loop
  rw [hbuffers]
  dsimp only
  rw [hindex]
  generalize hcopy : (if size < (buffers.getD (taken % buffers.length) no_buffer).length.toNat
    then size else (buffers.getD (taken % buffers.length) no_buffer).length.toNat) = copied
  obtain rfl : copied = size := by
    change (if size < (buffer_of buffers taken).length.toNat then size
      else (buffer_of buffers taken).length.toNat) = copied at hcopy
    split at hcopy <;> omega
  refine Env.safe_op_bind (at_stable hb _ _ _ _ _) ha ?_
  rintro g r h ha ⟨rfl, hbytes⟩
  rw [if_neg (by rw [hnum]; exact hb.some.ne'), if_neg (by omega)]
  refine Env.safe_pure (at_stable hb _ _ _ _ _) ha.take fun h' ha' => ⟨?_, ha'⟩
  have htaken := ha.shared.stored taken p (Nat.le_refl _) (ha.getElem? hp)
  rw [hnum, Nat.mod_add_mod, hbytes, ← htaken.bytes, bytes_at_take hsize]
  congr 1
  exact bytes_at_bus hb taken hfits

/-! ### A call -/

/-- What a call has of the packets that it took so far. -/
structure Took (size : Nat) (data : List (BitVec 8)) (share : List Packet) : Prop where
  data : data = (bytes_of share).take size
  needed : (bytes_of share.dropLast).length < size

theorem bytes_of_concat (share : List Packet) (p : Packet) :
    bytes_of (share ++ [p]) = bytes_of share ++ p.bytes := by
  simp [bytes_of]

section Took

variable {size : Nat} {data : List (BitVec 8)} {share : List Packet}

theorem Took.all (ht : Took size data share) (hlt : data.length < size) :
    data = bytes_of share := by
  have hlength := congrArg List.length ht.data
  rw [List.length_take] at hlength
  rw [ht.data, List.take_of_length_le (by omega)]

theorem Took.enough (ht : Took size data share) (hge : ¬data.length < size) :
    size ≤ (bytes_of share).length := by
  have hlength := congrArg List.length ht.data
  rw [List.length_take] at hlength
  omega

theorem Took.next (ht : Took size data share) (hlt : data.length < size) (p : Packet) {copied : Nat}
    (hcopied : copied = min p.bytes.length (size - data.length)) :
    Took size (data ++ p.bytes.take copied) (share ++ [p]) := by
  have hall := ht.all hlt
  constructor
  · rw [bytes_of_concat, List.take_append, ← hall, List.take_of_length_le hlt.le, hcopied,
      Nat.min_comm, ← List.take_eq_take_min]
  · rw [List.dropLast_concat, ← hall]
    exact hlt

end Took

/-- How a call of `sde_mgmt_read_data` ends, if `before` were taken and `known` had come in when it
began. -/
structure DataRead (w : Wiring) (buffers : List SdeBuffer) (limit dwords posted size : Nat)
    (accepted : Prop) (before known : List Packet) (r : Int × List (BitVec 8) × SdeMgmt)
    (h : C2hHost) (share : List Packet) : Prop where
  driver : Reads w buffers posted (before ++ share).length r.2.2
  state : ∃ known', known <+: known' ∧ before ++ share <+: known' ∧
    At buffers limit dwords (before ++ share).length (before ++ share).length known' h
  returned : Returned ⟨size, r.1, r.2.1⟩ share
  refused : r.1 = FPGA_ERR_SOFTWARE_PROBLEM → ¬accepted
  /-- It gives up only when it has all that had come in. -/
  took_all : r.1 = SDE_METADATA_VALID_TIMEOUT → known.length ≤ (before ++ share).length

theorem Reads.next {n : Nat} (hm : Reads w buffers posted n m) :
    Reads w buffers posted (n + 1) { m with
      md_read_index := (n + 1) % C2H_NUM_MD_IN_RING
      c2h_buffer := { m.c2h_buffer with current_buffer_index := (n + 1) % buffers.length } } where
  bar4_handle := hm.bar4_handle
  metadata := hm.metadata
  ring :=
    ⟨⟨hm.ring.ring.opened, hm.ring.ring.ctrl, hm.ring.ring.index, hm.ring.ring.depth,
      hm.ring.ring.size⟩, hm.ring.subsystem, hm.ring.whole, hm.ring.desc, hm.ring.index⟩
  has_buffers := hm.has_buffers
  num_buffers := hm.num_buffers
  md_index := rfl
  buffer_index := rfl

theorem md_of_length (hp : known[taken]? = some p)
    (ha : At buffers limit dwords cleared taken known h) : (md_of p).length.toNat = p.bytes.length := by
  have hfits := (ha.shared.stored taken p (Nat.le_refl _) (ha.getElem? hp)).fits
  have hlength := (buffer_of buffers taken).length.isLt
  change (BitVec.ofNat 32 p.bytes.length).toNat = _
  rw [BitVec.toNat_ofNat, Nat.mod_eq_of_lt (by omega)]

section Call

variable {size rounds : Nat} {data : List (BitVec 8)} {before share known₀ : List Packet}
  {accepted : Prop}

theorem read_data_done (hb : Buffers w buffers)
    (hm : Reads w buffers posted (before ++ share).length m) (hmore : known₀ <+: known)
    (htaken : before ++ share <+: known) (ht : Took size data share) (hge : ¬data.length < size)
    (ha : At buffers limit dwords (before ++ share).length (before ++ share).length known h) :
    (C2hHost.env w).Safe (Safely buffers)
      (fun r h => ∃ share,
        DataRead w buffers limit dwords posted size accepted before known₀ r h share)
      (pure (0, data, m)) h := by
  refine Env.safe_pure (at_stable hb _ _ _ _ _) ha fun h ha =>
    ⟨share, hm, ⟨_, hmore, htaken, ha⟩, ?_, ?_, ?_⟩
  · exact .filled rfl ht.data (ht.enough hge) ht.needed
  · intro hret
    exact absurd (show (0 : Int) = FPGA_ERR_SOFTWARE_PROBLEM from hret) (by decide)
  · intro hret
    exact absurd (show (0 : Int) = SDE_METADATA_VALID_TIMEOUT from hret) (by decide)

theorem prefix_snoc {l l' : List Packet} (h : l <+: l') (hp : l'[l.length]? = some p) :
    l ++ [p] <+: l' := by
  obtain ⟨more, rfl⟩ := h
  rw [List.getElem?_append_right (Nat.le_refl _), Nat.sub_self] at hp
  cases more with
  | nil => cases hp
  | cons q more =>
    cases hp
    exact ⟨more, by simp⟩

theorem read_data_loop_safe (hb : Buffers w buffers) (hopened : Opened slot_id m)
    (hm : Reads w buffers posted (before ++ share).length m) (hmore : known₀ <+: known)
    (htaken : before ++ share <+: known) (ht : Took size data share)
    (ha : At buffers limit dwords (before ++ share).length (before ++ share).length known h) :
    (C2hHost.env w).Safe (Safely buffers)
      (fun r h => ∃ share,
        DataRead w buffers limit dwords posted size accepted before known₀ r h share)
      (read_data_loop slot_id size rounds data m) h := by
  induction rounds generalizing data share known m h with
  | zero =>
    unfold read_data_loop
    split
    · exact Env.safe_call (at_stable hb _ _ _ _ _) ha fun _ (r : Empty) => r.elim
    case isFalse hge => exact read_data_done hb hm hmore htaken ht hge ha
  | succ rounds ih =>
    unfold read_data_loop
    split
    case isFalse hge => exact read_data_done hb hm hmore htaken ht hge ha
    case isTrue hlt =>
    refine Env.safe_bind (read_md_safe hb hopened hm ha) ?_
    intro r h hread
    cases hread with
    | timeout _ hnone ha =>
      dsimp only
      rw [if_pos (by decide)]
      refine Env.safe_pure (at_stable hb _ _ _ _ _) ha fun h ha =>
        ⟨share, hm, ⟨_, hmore, htaken, ha⟩, ?_, ?_, fun _ => hmore.length_le.trans hnone⟩
      · have hall := ht.all hlt
        exact .timeout rfl hall (hall ▸ hlt)
      · intro hret
        exact absurd (show SDE_METADATA_VALID_TIMEOUT = FPGA_ERR_SOFTWARE_PROBLEM from hret)
          (by decide)
    | next _ known' p hmore' hp ha =>
      dsimp only
      rw [if_neg (by decide), md_of_length hp ha]
      generalize hcopied : (if p.bytes.length < size - data.length then p.bytes.length
        else size - data.length) = copied
      have hmin : copied = min p.bytes.length (size - data.length) := by
        split at hcopied <;> omega
      refine Env.safe_bind (dma_read_data_safe hb hm.has_buffers hm.num_buffers hm.buffer_index hp
        (by omega) ha) ?_
      rintro r h ⟨rfl, ha⟩
      have hnext : before ++ share ++ [p] <+: known' := prefix_snoc (htaken.trans hmore') hp
      have hlength : (before ++ (share ++ [p])).length = (before ++ share).length + 1 := by
        simp [Nat.add_assoc]
      refine ih ⟨hopened.slot, hopened.initialized⟩ ?_ (hmore.trans hmore') ?_
        (ht.next hlt p hmin) ?_
      · rw [hlength]
        exact hm.next
      · rw [← List.append_assoc]
        exact hnext
      · rw [hlength]
        exact ha

theorem read_data_safe (hb : Buffers w buffers) (hm : Reads w buffers posted before.length m)
    (htaken : before <+: known) (ha : At buffers limit dwords before.length before.length known h) :
    (C2hHost.env w).Safe (Safely buffers)
      (fun r h => ∃ share, DataRead w buffers limit dwords posted size (Opened slot_id m ∧ size ≠ 0)
        before known r h share)
      (sde_mgmt_read_data slot_id size rounds m) h := by
  have hempty : before ++ ([] : List Packet) = before := List.append_nil before
  have hrefused (hnot : ¬(Opened slot_id m ∧ size ≠ 0)) : (C2hHost.env w).Safe (Safely buffers)
      (fun r h => ∃ share, DataRead w buffers limit dwords posted size (Opened slot_id m ∧ size ≠ 0)
        before known r h share) (pure (FPGA_ERR_SOFTWARE_PROBLEM, [], m)) h := by
    refine Env.safe_pure (at_stable hb _ _ _ _ _) ha fun h ha =>
      ⟨[], ?_, ⟨known, List.prefix_rfl, ?_, ?_⟩, ?_, fun _ => hnot, ?_⟩
    · rw [hempty]
      exact hm
    · rw [hempty]
      exact htaken
    · rw [hempty]
      exact ha
    · exact .refused rfl rfl
    · intro hret
      exact absurd (show FPGA_ERR_SOFTWARE_PROBLEM = SDE_METADATA_VALID_TIMEOUT from hret)
        (by decide)
  unfold sde_mgmt_read_data checked
  split
  case isTrue hslot => exact hrefused fun hopened => hopened.1.slot hslot
  case isFalse hslot =>
  split
  case isTrue hinit => exact hrefused fun hopened => hopened.1.initialized hinit
  case isFalse hinit =>
  split
  case isTrue hsize => exact hrefused fun hopened => hopened.2 hsize
  case isFalse hsize =>
  have hnone : Took size [] [] := ⟨(List.take_nil (i := size)).symm, Nat.pos_of_ne_zero hsize⟩
  refine read_data_loop_safe hb ⟨hslot, hinit⟩ ?_ List.prefix_rfl ?_ hnone ?_
  · rw [hempty]
    exact hm
  · rw [hempty]
    exact htaken
  · rw [hempty]
    exact ha

end Call

/-! ## Posting -/

section Posting

variable {hw_ctrl : SdeHwCtrl} {b : SdeDmaBuffer}

theorem buffer_of_congr {i j : Nat} (hij : i % buffers.length = j % buffers.length) :
    buffer_of buffers i = buffer_of buffers j := by
  unfold buffer_of
  rw [hij]

theorem PostRing.ring_of (hr : PostRing hw_ctrl buffers posted b) :
    RingOf hw_ctrl .c2h (ring_dw buffers) posted b where
  ring := hr.ring
  subsystem := hr.subsystem
  index := hr.index
  desc := by
    intro j
    have hindex := hr.ring.index
    change b.desc (j % (b.num_desc * 4)) = _
    rw [hr.desc _ (Nat.mod_lt _ (by omega))]
    unfold ring_dw
    rw [Nat.mod_mul_left_div_self, Nat.mod_mod_of_dvd _ (Nat.dvd_mul_left 4 _)]
    have hbuffer : buffer_of buffers (j / 4 % b.num_desc) = buffer_of buffers (j / 4) :=
      buffer_of_congr (Nat.mod_mod_of_dvd _ hr.whole)
    rw [hbuffer]

theorem PostRing.advance (hr : PostRing hw_ctrl buffers posted b) (k : Nat) :
    PostRing hw_ctrl buffers (posted + k) (b.advance k) :=
  ⟨hr.ring.advance k, hr.subsystem, hr.whole, hr.desc, (hr.ring_of.advance k).index⟩

theorem posting (hb : Buffers w buffers) (cleared taken : Nat) (known : List Packet) :
    Posting (C2hHost.env w) (Safely buffers) w.bar4_handle .c2h (ring_dw buffers)
      fun limit dwords => At buffers limit dwords cleared taken known where
  stable limit dwords := at_stable hb limit dwords cleared taken known
  poke := by
    rintro limit n h ret h' hlt ha ⟨hret, hpoke⟩
    rw [if_pos ⟨rfl, rfl⟩] at hpoke
    subst hpoke
    exact ⟨hret, ha.push hlt⟩
  load := by
    rintro limit n h va field r h' ha (rfl : h' = h)
    exact ha

/-! ### Starting a read -/

/-- Some number of descriptors was posted behind those before. -/
def Started (w : Wiring) (buffers : List SdeBuffer) (posted taken : Nat) (known : List Packet)
    (m : SdeMgmt) (h : C2hHost) : Prop :=
  ∃ more, Reads w buffers (posted + more) taken m ∧
    At buffers (posted + more) ((posted + more) * 4) taken taken known h

theorem Reads.advance (hm : Reads w buffers posted taken m) (more : Nat)
    (c2h_desc_consumed : BitVec 32) :
    Reads w buffers (posted + more) taken
      { m with c2h_buffer := m.c2h_buffer.advance more, c2h_desc_consumed } :=
  ⟨hm.bar4_handle, hm.metadata, hm.ring.advance more, hm.has_buffers, hm.num_buffers, hm.md_index,
    hm.buffer_index⟩

theorem Reads.moved {more : Nat} {m' : SdeMgmt} (hm : Reads w buffers posted taken m)
    (hmoved : Moved m .c2h more m') : Reads w buffers (posted + more) taken m' := by
  cases hmoved with
  | none => exact hm
  | some more desc_consumed => exact hm.advance more desc_consumed

theorem started_none (hb : Buffers w buffers) (hm : Reads w buffers posted taken m)
    (ha : At buffers posted (posted * 4) taken taken known h) {r : Int × SdeMgmt} (hr : r.2 = m) :
    (C2hHost.env w).Safe (Safely buffers)
      (fun r h => Started w buffers posted taken known r.2 h) (pure r) h := by
  refine Env.safe_pure (at_stable hb _ _ _ _ _) ha fun h ha => ⟨0, ?_, ha⟩
  rw [hr]
  exact hm

theorem start_read_reads (hb : Buffers w buffers) (hm : Reads w buffers posted taken m)
    (size : BitVec 64)
    (hroom : posted + desc_for_size size m.c2h_buffer.pkt_size ≤ taken + buffers.length)
    (ha : At buffers posted (posted * 4) taken taken known h) :
    (C2hHost.env w).Safe (Safely buffers) (fun r h => Started w buffers posted taken known r.2 h)
      (sde_mgmt_start_read slot_id size m) h := by
  unfold sde_mgmt_start_read checked
  split
  case isTrue => exact started_none hb hm ha rfl
  case isFalse =>
  split
  case isTrue => exact started_none hb hm ha rfl
  case isFalse =>
  split
  case isFalse => exact started_none hb hm ha rfl
  case isTrue =>
  have hp := posting hb taken taken known
  rw [← hm.bar4_handle] at hp
  refine Env.safe_mono (hp.transfer hm.ring.ring_of size
    (fun h ha => ha.grant (Nat.le_add_right _ _) hroom) ha) ?_
  rintro r h ⟨more, hmoved, ha⟩
  exact ⟨more, hm.moved hmoved, ha⟩

end Posting

end Reading

end AwsFpga.Sde.Reading
