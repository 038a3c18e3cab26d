import AwsFpga.Sde.Reading

/-!
# Packets in every run

A caller starts reads and takes data in any order, while packets come in. What it
has to see to is that it starts no read whose buffers it did not read yet. The driver
does not check this: a credit comes back when the engine takes a descriptor.
-/

open Lib AwsFpga.Pci

namespace AwsFpga.Sde.Reading

/-! ## Configuration -/

/-- A slot whose descriptors were just written. -/
structure Configured (w : Wiring) (buffers : List SdeBuffer) (m : SdeMgmt) : Prop where
  bar4_handle : m.hw_ctrl.bar4_handle = w.bar4_handle
  metadata : m.metadata = w.metadata
  ring : PostRing m.hw_ctrl buffers 0 m.c2h_buffer
  has_buffers : m.c2h_buffer.buffers = some buffers
  num_buffers : m.c2h_buffer.num_buffers = buffers.length
  md_index : m.md_read_index = 0
  buffer_index : m.c2h_buffer.current_buffer_index = 0

/-- A slot of C2H that was opened and reset, with its buffers. -/
structure SetUp (w : Wiring) (buffers : List SdeBuffer) (m : SdeMgmt) : Prop where
  direction : m.direction ≠ .h2c
  bar4_handle : m.hw_ctrl.bar4_handle = w.bar4_handle
  metadata : m.metadata = w.metadata
  opened : m.hw_ctrl.initialized = true
  ctrl : m.c2h_buffer.ctrl = true
  subsystem : m.c2h_buffer.subsystem = .c2h
  size : m.c2h_buffer.desc_element_size = desc_element_size .c2h
  has_desc : 0 < m.c2h_buffer.num_desc
  depth : m.c2h_buffer.num_desc < 2 ^ 64
  whole : buffers.length ∣ m.c2h_buffer.num_desc
  has_buffers : m.c2h_buffer.buffers = some buffers
  num_buffers : m.c2h_buffer.num_buffers = buffers.length
  md_index : m.md_read_index = 0

theorem init_desc_ring {buffers : List SdeBuffer} {b : SdeDmaBuffer}
    (hsubsystem : b.subsystem = .c2h) (hnum : b.num_buffers = buffers.length) {k : Nat}
    (hk : k < b.num_desc * 4) : init_desc buffers b k = ring_dw buffers k := by
  have hlt : k / (desc_element_size .c2h / 4) < b.num_desc :=
    show k / 4 < b.num_desc by omega
  unfold init_desc
  dsimp only
  rw [hsubsystem, if_pos hlt, hnum]
  rfl

theorem init_desc_configured {w : Wiring} {buffers : List SdeBuffer} {m : SdeMgmt}
    {b : SdeDmaBuffer} (hm : SetUp w buffers m)
    (h : sde_dma_init_desc_buffer m.c2h_buffer = (0, b)) :
    Configured w buffers { m with c2h_buffer := b } := by
  have hring := descRing_of_init_desc hm.opened hm.ctrl ⟨hm.has_desc, hm.depth⟩
    (by rw [hm.size, hm.subsystem]) h
  unfold sde_dma_init_desc_buffer at h
  split at h
  case isTrue => exact absurd (Prod.mk.inj h).1 (by decide)
  case isFalse =>
    rw [hm.has_buffers] at h
    obtain ⟨-, rfl⟩ := Prod.mk.inj h
    refine ⟨hm.bar4_handle, hm.metadata, ⟨hring, hm.subsystem, hm.whole, ?_, ?_⟩, rfl,
      hm.num_buffers, hm.md_index, rfl⟩
    · exact fun k hk => init_desc_ring hm.subsystem hm.num_buffers hk
    · exact (Nat.zero_mod _).symm

section Cfg

variable {w : Wiring} {buffers : List SdeBuffer} {slot_id : Int} {m m' : SdeMgmt} {ret : Int}
  {t : List SdeApi.Event}

theorem configured_of_cfg (hm : SetUp w buffers m) (h : (sde_mgmt_cfg slot_id m).Runs t (0, m')) :
    Configured w buffers m' := by
  obtain ⟨c2h_buffer, h2c_buffer, rfl, hc2h, -⟩ := cfg_leaves h
  have hconfigured := init_desc_configured hm (hc2h hm.direction)
  exact ⟨hconfigured.bar4_handle, hconfigured.metadata, hconfigured.ring, hconfigured.has_buffers,
    hconfigured.num_buffers, hconfigured.md_index, hconfigured.buffer_index⟩

end Cfg

/-! ## Runs -/

inductive ReadCall where
  | start_read (size : BitVec 64)
  /-- `rounds` is how often the loop may go round. -/
  | read_data (size rounds : Nat)

/-- A slot, with what its calls of `sde_mgmt_read_data` returned so far. -/
structure Reader where
  m : SdeMgmt
  reads : List Read

def readBody (slot_id : Int) : ReadCall → Reader → Prog SdeApi Reader
  | .start_read size, r => do
    let (_, m) ← sde_mgmt_start_read slot_id size r.m
    return { r with m }
  | .read_data size rounds, r => do
    let (ret, data, m) ← sde_mgmt_read_data slot_id size rounds r.m
    return ⟨m, r.reads ++ [⟨size, ret, data⟩]⟩

/-- What the driver leaves to its caller: a read is started only when there are buffers for it that
hold no packet and belong to no descriptor. Data may be read at any time. -/
def MayRead (buffers : List SdeBuffer) : ReadCall → Reader → C2hHost → Prop
  | .start_read size, r, h =>
    h.num_posted + desc_for_size size r.m.c2h_buffer.pkt_size ≤ h.cleared + buffers.length
  | .read_data .., _, _ => True

/-- Nothing was written to the engine yet, and by it. -/
structure Fresh (h : C2hHost) : Prop where
  posted : h.posted = []
  packets : h.packets = []
  cleared : h.cleared = 0
  entries : ∀ k < C2H_NUM_MD_IN_RING, md_valid (h.entries k).status = false

/-- What holds between the calls. -/
def Rest (w : Wiring) (buffers : List SdeBuffer) (r : Reader) (h : C2hHost) : Prop :=
  ∃ posted before, Reads w buffers posted before.length r.m ∧
    At buffers posted (posted * 4) before.length before.length before h ∧ Shares r.reads before

/-- What holds in a run. -/
structure ReadsSafely (w : Wiring) (buffers : List SdeBuffer)
    (c : Env.Config SdeApi Reader × C2hHost) : Prop where
  /-- A packet that the driver did not take lies in its buffer, and its metadata in its entry. -/
  unread : ∀ k p, c.2.cleared ≤ k → c.2.packets[k]? = some p →
    Stored buffers c.2.memory k p ∧ c.2.entries (k % C2H_NUM_MD_IN_RING) = p.metadata
  /-- There are never more descriptors posted than buffers that were read. -/
  room : c.2.num_posted ≤ c.2.cleared + buffers.length
  /-- Between the calls the three indices denote the next descriptor and the next packet. -/
  indices : ∀ r, c.1 = .rest r → Reads w buffers c.2.num_posted c.2.cleared r.m
  /-- The packets were returned in order. -/
  shares : ∀ r, c.1 = .rest r → Shares r.reads (c.2.packets.take c.2.cleared)

section Runs

variable {w : Wiring} {buffers : List SdeBuffer} {slot_id : Int} {r : Reader} {h : C2hHost}

theorem rest_stable (hb : Buffers w buffers) (r : Reader) :
    (C2hHost.env w).Stable (Safely buffers) (Rest w buffers r) where
  moves := by
    rintro h h' ⟨posted, before, hm, ha, hs⟩ hmove
    exact ⟨posted, before, hm, (at_stable hb _ _ _ _ _).moves ha hmove, hs⟩
  inv := by
    rintro h ⟨posted, before, hm, ha, hs⟩
    exact (at_stable hb _ _ _ _ _).inv ha

theorem At.num_posted {buffers : List SdeBuffer} {limit cleared taken posted : Nat}
    {known : List Packet} (ha : At buffers limit (posted * 4) cleared taken known h) :
    h.num_posted = posted := by
  unfold C2hHost.num_posted
  rw [ha.posted, Nat.mul_div_cancel _ (by decide)]

theorem readBody_safe (hb : Buffers w buffers) (call : ReadCall) (hrest : Rest w buffers r h)
    (hmay : MayRead buffers call r h) :
    (C2hHost.env w).Safe (Safely buffers) (Rest w buffers) (readBody slot_id call r) h := by
  obtain ⟨posted, before, hm, ha, hs⟩ := hrest
  cases call with
  | start_read size =>
    change h.num_posted + _ ≤ h.cleared + _ at hmay
    rw [ha.num_posted, ha.cleared] at hmay
    refine Env.safe_bind (start_read_reads hb hm size hmay ha) ?_
    rintro ⟨ret, m⟩ h ⟨more, hm, ha⟩
    exact Env.safe_pure (at_stable hb _ _ _ _ _) ha fun h ha => ⟨_, before, hm, ha, hs⟩
  | read_data size rounds =>
    refine Env.safe_bind (read_data_safe hb hm ha.known ha.more) ?_
    rintro ⟨ret, data, m⟩ h ⟨share, hm, ⟨known, -, htaken, ha⟩, hreturned, -, -⟩
    refine Env.safe_pure (at_stable hb _ _ _ _ _) ha fun h ha =>
      ⟨posted, before ++ share, hm, ?_, hs.concat hreturned⟩
    exact ⟨ha.shared, ha.posted, ha.cleared, htaken.trans ha.known⟩

theorem readsSafely_of_ok (hb : Buffers w buffers) {c : Env.Config SdeApi Reader × C2hHost}
    (h : Env.Ok (C2hHost.env w) (Safely buffers) (Rest w buffers) c) : ReadsSafely w buffers c := by
  obtain ⟨limit, taken, hsafe⟩ := Env.ok_inv (rest_stable hb) h
  obtain ⟨c, h⟩ := c
  refine ⟨?_, ?_, ?_, ?_⟩
  · intro k p hk hp
    exact ⟨hsafe.stored k p (hsafe.taken_le.trans hk) hp, hsafe.entries k p hk hp⟩
  · have hle := hsafe.num_posted_le
    have hlimit := hsafe.limit_le
    have htaken := hsafe.taken_le
    dsimp only at *
    omega
  · rintro r rfl
    obtain ⟨posted, before, hm, ha, -⟩ := h
    dsimp only
    rw [ha.num_posted, ha.cleared]
    exact hm
  · rintro r rfl
    obtain ⟨posted, before, -, ha, hs⟩ := h
    dsimp only
    rw [ha.cleared, ← List.prefix_iff_eq_take.mp ha.known]
    exact hs

theorem Configured.reads {m : SdeMgmt} (hm : Configured w buffers m) : Reads w buffers 0 0 m := by
  refine ⟨hm.bar4_handle, hm.metadata, hm.ring, hm.has_buffers, hm.num_buffers, ?_, ?_⟩
  · rw [hm.md_index, Nat.zero_mod]
  · rw [hm.buffer_index, Nat.zero_mod]

theorem Fresh.shared (hf : Fresh h) : Shared buffers 0 0 h := by
  obtain ⟨hposted, hpackets, hcleared, hentries⟩ := hf
  refine ⟨?_, ?_, Nat.zero_le _, Nat.zero_le _, ?_, ?_, ?_, ?_, ?_⟩
  · simp [hposted]
  · simp [hposted]
  · simp [hcleared]
  · simp [hpackets]
  · simp [hpackets]
  · simp [hpackets]
  · intro k _ hlt
    exact hentries _ (Nat.mod_lt _ (by decide))

theorem rest_start {m : SdeMgmt} (hm : Configured w buffers m) (hf : Fresh h) :
    Rest w buffers ⟨m, []⟩ h := by
  refine ⟨0, [], hm.reads, ⟨hf.shared, ?_, hf.cleared, List.nil_prefix⟩, [], rfl, .nil⟩
  rw [hf.posted]
  rfl

theorem ok_of_reach (hb : Buffers w buffers) {m : SdeMgmt} (hm : Configured w buffers m)
    (hf : Fresh h) {c : Env.Config SdeApi Reader × C2hHost}
    (hreach : Relation.ReflTransGen (Env.Step (C2hHost.env w) (readBody slot_id) (MayRead buffers))
      (.rest ⟨m, []⟩, h) c) : Env.Ok (C2hHost.env w) (Safely buffers) (Rest w buffers) c := by
  refine Env.reaches_ok (rest_stable hb) ?_ hreach (rest_start hm hf)
  exact fun call r h hrest hmay => readBody_safe hb call hrest hmay

/-- Whatever the sizes that are asked for and whenever the packets come in: what the calls return is
the bytes of the packets in order, but for what a call leaves of the last packet that it took. The
engine does not write to a packet that was not taken, nor to its metadata. -/
theorem packets_returned (w : Wiring) (buffers : List SdeBuffer) (slot_id : Int) (m : SdeMgmt)
    (h : C2hHost) (hb : Buffers w buffers) (hm : Configured w buffers m) (hf : Fresh h)
    (c : Env.Config SdeApi Reader × C2hHost)
    (hreach : Relation.ReflTransGen (Env.Step (C2hHost.env w) (readBody slot_id) (MayRead buffers))
      (.rest ⟨m, []⟩, h) c) : ReadsSafely w buffers c :=
  readsSafely_of_ok hb (ok_of_reach hb hm hf hreach)

/-! ### A run -/

def sampleSlot : SdeMgmt :=
  { SdeMgmt.zero with
    hw_ctrl := sampleCtrl
    c2h_buffer := { SdeDmaBuffer.zero with
      layout := .user_managed
      ctrl := true
      num_desc := 2
      desc_element_size := 16
      buffers := some sampleBuffers
      num_buffers := 2
      pkt_size := 4 }
    metadata := 0x500
    initialized := true }

def configuredSlot : SdeMgmt :=
  { sampleSlot with c2h_buffer := (sde_dma_init_desc_buffer sampleSlot.c2h_buffer).2 }

def quietHost : C2hHost := ⟨[], [], 0, fun _ => 0, fun _ => ⟨0, 0, 0⟩⟩

def startedSlot : SdeMgmt :=
  { configuredSlot with
    c2h_buffer := configuredSlot.c2h_buffer.advance 1
    c2h_desc_consumed := 1 }

def startedHost : C2hHost := { quietHost with posted := [4, 0x9000, 0, 0] }

theorem can_start : (C2hHost.env sampleWiring).Can (readBody 0 (.start_read 4) ⟨configuredSlot, []⟩)
    quietHost ⟨startedSlot, []⟩ startedHost := by
  refine ⟨(64 : BitVec 32), quietHost, rfl, ?_⟩
  refine ⟨(0 : Int), _, ⟨rfl, rfl⟩, ?_⟩
  refine ⟨(0 : Int), _, ⟨rfl, rfl⟩, ?_⟩
  refine ⟨(0 : Int), _, ⟨rfl, rfl⟩, ?_⟩
  refine ⟨(0 : Int), _, ⟨rfl, rfl⟩, ?_⟩
  exact ⟨rfl, rfl⟩

def samplePacket : Packet := ⟨[1, 2, 3], true, 7⟩

/-- The bytes come in, and then the packet is completed. -/
def writtenHost : C2hHost :=
  { startedHost with
    memory := fun a =>
      if a = 0x9000 then 1 else if a = 0x9001 then 2 else if a = 0x9002 then 3 else 0 }

def completedHost : C2hHost :=
  { writtenHost with
    packets := [samplePacket]
    entries := Function.update quietHost.entries 0 samplePacket.metadata }

theorem moves_write : C2hHost.Moves startedHost writtenHost := by
  refine .write _ fun a ha => ⟨0, Nat.zero_le _, by decide, ?_⟩
  change (a - 0x9000).toNat < 4
  by_contra hge
  apply ha
  change (if a = 0x9000 then 1 else if a = 0x9001 then 2 else if a = 0x9002 then 3 else 0) = 0
  rw [if_neg, if_neg, if_neg]
  all_goals
    rintro rfl
    exact hge (by decide)

theorem moves_complete : C2hHost.Moves writtenHost completedHost :=
  .complete samplePacket (by decide) (by decide) (by decide)

def readSlot : SdeMgmt :=
  { startedSlot with
    md_read_index := 1
    c2h_buffer := { startedSlot.c2h_buffer with current_buffer_index := 1 } }

def readHost : C2hHost :=
  { completedHost with
    entries := Function.update completedHost.entries 0 { samplePacket.metadata with status := 0 }
    cleared := 1 }

theorem can_read : (C2hHost.env sampleWiring).Can (readBody 0 (.read_data 2 1) ⟨startedSlot, []⟩)
    completedHost ⟨readSlot, [⟨2, 0, [1, 2]⟩]⟩ readHost := by
  refine ⟨(3 : BitVec 32), _, ⟨rfl, fun _ => rfl⟩, ?_⟩
  refine ⟨(3 : BitVec 32), _, ⟨rfl, fun _ => rfl⟩, ?_⟩
  refine ⟨(3 : BitVec 32), _, ⟨rfl, fun _ => rfl⟩, ?_⟩
  refine ⟨(), _, rfl, ?_⟩
  refine ⟨(7 : BitVec 64), _, ⟨rfl, fun _ => rfl⟩, ?_⟩
  refine ⟨(7 : BitVec 64), _, ⟨rfl, fun _ => rfl⟩, ?_⟩
  refine ⟨⟨[1, 2], rfl⟩, _, ⟨rfl, rfl⟩, ?_⟩
  exact ⟨rfl, rfl⟩

theorem sampleSlot_setUp : SetUp sampleWiring sampleBuffers sampleSlot where
  direction := by decide
  bar4_handle := rfl
  metadata := rfl
  opened := rfl
  ctrl := rfl
  subsystem := rfl
  size := rfl
  has_desc := by decide
  depth := by decide
  whole := by decide
  has_buffers := rfl
  num_buffers := rfl
  md_index := rfl

theorem configuredSlot_configured : Configured sampleWiring sampleBuffers configuredSlot :=
  init_desc_configured sampleSlot_setUp rfl

theorem quietHost_fresh : Fresh quietHost :=
  ⟨rfl, rfl, rfl, fun _ _ => show md_valid 0 = false by decide⟩

theorem sample_completes :
    Relation.ReflTransGen (Env.Step (C2hHost.env sampleWiring) (readBody 0) (MayRead sampleBuffers))
      (.rest ⟨configuredSlot, []⟩, quietHost) (.rest ⟨startedSlot, []⟩, completedHost) :=
  ((Env.can_method can_start (show 0 + desc_for_size 4 4 ≤ 0 + 2 by decide)).tail
    (.move moves_write)).tail (.move moves_complete)

theorem sample_reads :
    Relation.ReflTransGen (Env.Step (C2hHost.env sampleWiring) (readBody 0) (MayRead sampleBuffers))
      (.rest ⟨configuredSlot, []⟩, quietHost) (.rest ⟨readSlot, [⟨2, 0, [1, 2]⟩]⟩, readHost) :=
  sample_completes.trans (Env.can_method can_read trivial)

theorem sample_returned : ReadsSafely sampleWiring sampleBuffers
    (.rest ⟨readSlot, [⟨2, 0, [1, 2]⟩]⟩, readHost) :=
  packets_returned sampleWiring sampleBuffers 0 configuredSlot quietHost sampleBuffers_ok
    configuredSlot_configured quietHost_fresh _ sample_reads

/-! ## What has come in -/

theorem take_bytes_of {share packets : List Packet} (h : share <+: packets) {size : Nat}
    (hsize : size ≤ (bytes_of share).length) :
    (bytes_of packets).take size = (bytes_of share).take size := by
  obtain ⟨more, rfl⟩ := h
  unfold bytes_of at *
  rw [List.flatMap_append, List.take_append_of_le_length hsize]

/-- A call that is asked for no more than what has come in returns just that. -/
theorem returned_of_known {size : Nat} {before known known' share : List Packet} {ret : Int}
    {data : List (BitVec 8)} (hbefore : before <+: known) (hknown : known <+: known')
    (htaken : before ++ share <+: known')
    (havail : size ≤ (bytes_of (known.drop before.length)).length)
    (hrefused : ret ≠ FPGA_ERR_SOFTWARE_PROBLEM)
    (hall : ret = SDE_METADATA_VALID_TIMEOUT → known.length ≤ (before ++ share).length)
    (h : Returned ⟨size, ret, data⟩ share) :
    ret = 0 ∧ data = (bytes_of (known.drop before.length)).take size := by
  obtain ⟨unread, rfl⟩ := hbefore
  rw [List.drop_left] at havail ⊢
  cases h with
  | refused hret => exact absurd hret hrefused
  | timeout hret hdata hless =>
    have hpre : before ++ unread <+: before ++ share :=
      List.prefix_of_prefix_length_le hknown htaken (hall hret)
    obtain ⟨more, rfl⟩ := (List.prefix_append_right_inj before).mp hpre
    unfold bytes_of at *
    rw [List.flatMap_append, List.length_append] at hless
    dsimp only at hless
    omega
  | filled hret hdata henough =>
    refine ⟨hret, hdata.trans ?_⟩
    rcases Nat.le_total (before ++ unread).length (before ++ share).length with hle | hle
    · have hpre := List.prefix_of_prefix_length_le hknown htaken hle
      exact take_bytes_of ((List.prefix_append_right_inj before).mp hpre) havail
    · have hpre := List.prefix_of_prefix_length_le htaken hknown hle
      exact (take_bytes_of ((List.prefix_append_right_inj before).mp hpre) henough).symm

/-- In every state between the calls: when enough has come in, a call returns it whatever the engine
does in the meantime, and does not give up. -/
theorem available_returned (w : Wiring) (buffers : List SdeBuffer) (slot_id : Int) (m : SdeMgmt)
    (h : C2hHost) (hb : Buffers w buffers) (hm : Configured w buffers m) (hf : Fresh h) (r : Reader)
    (h' : C2hHost)
    (hreach : Relation.ReflTransGen (Env.Step (C2hHost.env w) (readBody slot_id) (MayRead buffers))
      (.rest ⟨m, []⟩, h) (.rest r, h')) (hopened : Opened slot_id r.m) (size rounds : Nat)
    (hsize : size ≠ 0) (havail : size ≤ (bytes_of (h'.packets.drop h'.cleared)).length) :
    (C2hHost.env w).Safe (Safely buffers)
      (fun result _ => result.1 = 0 ∧
        result.2.1 = (bytes_of (h'.packets.drop h'.cleared)).take size)
      (sde_mgmt_read_data slot_id size rounds r.m) h' := by
  obtain ⟨posted, before, hm', ha, -⟩ := ok_of_reach hb hm hf hreach
  rw [ha.cleared] at havail ⊢
  refine Env.safe_mono (read_data_safe hb hm' ha.known ha.more) ?_
  rintro ⟨ret, data, m'⟩ g ⟨share, -, ⟨known', hknown, htaken, -⟩, hreturned, hrefused, hall⟩
  exact returned_of_known ha.known hknown htaken havail (fun hret => hrefused hret ⟨hopened, hsize⟩)
    hall hreturned

theorem sample_available : (C2hHost.env sampleWiring).Safe (Safely sampleBuffers)
    (fun result _ => result.1 = 0 ∧ result.2.1 = [1, 2])
    (sde_mgmt_read_data 0 2 1 startedSlot) completedHost :=
  available_returned sampleWiring sampleBuffers 0 configuredSlot quietHost sampleBuffers_ok
    configuredSlot_configured quietHost_fresh ⟨startedSlot, []⟩ completedHost sample_completes
    ⟨by decide, by decide⟩ 2 1 (by decide) (by decide)

end Runs

end AwsFpga.Sde.Reading
