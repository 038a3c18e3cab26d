import AwsFpga.Sde.Writing

/-!
# Packets that go out in every run

A caller prepares data and writes it in any order, while the engine reads the buffers. What it has to
see to is that it prepares no data for a buffer whose packet was not sent, and posts no descriptor
whose buffer is not filled. The driver checks neither.
-/

open Lib AwsFpga.Pci

namespace AwsFpga.Sde.Writing

/-! ## Configuration -/

/-- The dwords that are posted, round after round. -/
def ring_dw (b : SdeDmaBuffer) (j : Nat) : BitVec 32 := b.desc (j % (b.num_desc * 8))

/-- A slot whose descriptors were just written. -/
structure Configured (w : Wiring) (buffers : List SdeBuffer) (pkt_size : BitVec 64) (m : SdeMgmt) :
    Prop where
  writes : Writes w buffers (ring_dw m.h2c_buffer) pkt_size 0 0 m
  names : Names buffers (ring_dw m.h2c_buffer)
  sized : Sized buffers pkt_size

/-- A slot of H2C that was opened and reset, with its buffers. -/
structure SetUp (w : Wiring) (buffers : List SdeBuffer) (m : SdeMgmt) : Prop where
  direction : m.direction ≠ .c2h
  bar4_handle : m.hw_ctrl.bar4_handle = w.bar4_handle
  opened : m.hw_ctrl.initialized = true
  ctrl : m.h2c_buffer.ctrl = true
  subsystem : m.h2c_buffer.subsystem = .h2c
  size : m.h2c_buffer.desc_element_size = desc_element_size .h2c
  has_desc : 0 < m.h2c_buffer.num_desc
  depth : m.h2c_buffer.num_desc < 2 ^ 64
  whole : buffers.length ∣ m.h2c_buffer.num_desc
  has_buffers : m.h2c_buffer.buffers = some buffers
  num_buffers : m.h2c_buffer.num_buffers = buffers.length
  sized : Sized buffers m.h2c_buffer.pkt_size

section Configured

variable {w : Wiring} {buffers : List SdeBuffer} {slot_id : Int} {m m' : SdeMgmt}
  {b : SdeDmaBuffer} {t : List SdeApi.Event}

theorem ring_dw_init {b' : SdeDmaBuffer} (hdesc : b'.desc = init_desc buffers b)
    (hnum_desc : b'.num_desc = b.num_desc) (hsubsystem : b.subsystem = .h2c)
    (hnum : b.num_buffers = buffers.length) (hwhole : buffers.length ∣ b.num_desc)
    (hpos : 0 < b.num_desc) (k : Nat) {i : Nat} (hi : i < 8) :
    ring_dw b' (k * 8 + i) =
      (h2c_desc (buffer_of buffers k) (b.desc (k % b.num_desc * 8 + 3)) (k % b.num_desc)).getD i 0 := by
  have hround : (k * 8 + i) % (b.num_desc * 8) = k % b.num_desc * desc_dw b.subsystem + i := by
    rw [hsubsystem]
    change _ = k % b.num_desc * 8 + i
    rw [Nat.mul_comm b.num_desc, Nat.mod_mul, show (k * 8 + i) % 8 = i by omega,
      show (k * 8 + i) / 8 = k by omega, Nat.add_comm, Nat.mul_comm]
  have hbuffer : buffers.getD (k % b.num_desc % b.num_buffers) no_buffer = buffer_of buffers k := by
    rw [hnum, Nat.mod_mod_of_dvd _ hwhole]
    rfl
  unfold ring_dw
  rw [hdesc, hnum_desc, hround, init_desc_dword (Nat.mod_lt _ hpos) (by rw [hsubsystem]; exact hi),
    hbuffer, hsubsystem]
  rfl

theorem names_of_init {b' : SdeDmaBuffer} (hdesc : b'.desc = init_desc buffers b)
    (hnum_desc : b'.num_desc = b.num_desc) (hsubsystem : b.subsystem = .h2c)
    (hnum : b.num_buffers = buffers.length) (hwhole : buffers.length ∣ b.num_desc)
    (hpos : 0 < b.num_desc) : Names buffers (ring_dw b') := by
  have hdw := ring_dw_init hdesc hnum_desc hsubsystem hnum hwhole hpos
  refine ⟨?_, ?_, ?_⟩
  · exact fun k => hdw k (show 0 < 8 by decide)
  · intro k
    rw [hdw k (show 2 < 8 by decide), hdw k (show 1 < 8 by decide)]
    exact halves_append _
  · intro k
    rw [hdw k (show 3 < 8 by decide)]
    exact eop_bit _

theorem init_desc_configured (hm : SetUp w buffers m)
    (h : sde_dma_init_desc_buffer m.h2c_buffer = (0, b)) :
    Configured w buffers m.h2c_buffer.pkt_size { m with h2c_buffer := b } := by
  have hring := descRing_of_init_desc hm.opened hm.ctrl ⟨hm.has_desc, hm.depth⟩
    (by rw [hm.size, hm.subsystem]) h
  unfold sde_dma_init_desc_buffer at h
  split at h
  case isTrue => exact absurd (Prod.mk.inj h).1 (by decide)
  case isFalse =>
    rw [hm.has_buffers] at h
    obtain ⟨-, rfl⟩ := Prod.mk.inj h
    refine ⟨⟨hm.bar4_handle, ⟨hring, hm.subsystem, fun _ => rfl, ?_⟩, rfl, hm.num_buffers, rfl, ?_⟩,
      ?_, hm.sized⟩
    · exact (Nat.zero_mod _).symm
    · exact (Nat.zero_mod _).symm
    · exact names_of_init rfl rfl hm.subsystem hm.num_buffers hm.whole hm.has_desc

theorem configured_of_cfg (hm : SetUp w buffers m) (h : (sde_mgmt_cfg slot_id m).Runs t (0, m')) :
    Configured w buffers m.h2c_buffer.pkt_size m' := by
  obtain ⟨c2h_buffer, h2c_buffer, rfl, -, hh2c⟩ := cfg_leaves h
  obtain ⟨hwrites, hnames, hsized⟩ := init_desc_configured hm (hh2c hm.direction)
  exact ⟨⟨hwrites.bar4_handle, hwrites.ring, hwrites.has_buffers, hwrites.num_buffers,
    hwrites.pkt_size, hwrites.buffer_index⟩, hnames, hsized⟩

end Configured

/-! ## Runs -/

inductive WriteCall where
  | prepare_write (data : List (BitVec 8))
  | write (size : BitVec 64)

/-- A slot, with the data that its calls of `sde_mgmt_prepare_write` took so far. -/
structure Writer where
  m : SdeMgmt
  data : List (List (BitVec 8))

/-- The chunks that go out one after another, each in a packet of its own. -/
def prepared (pkt_size : BitVec 64) (data : List (List (BitVec 8))) : List (List (BitVec 8)) :=
  data.flatMap (chunks pkt_size.toNat)

def writeBody (slot_id : Int) : WriteCall → Writer → Prog SdeApi Writer
  | .prepare_write data, r => do
    let (ret, m) ← sde_mgmt_prepare_write slot_id data r.m
    return ⟨m, if ret = 0 then r.data ++ [data] else r.data⟩
  | .write size, r => do
    let (_, m) ← sde_mgmt_write slot_id size r.m
    return { r with m }

/-- What the driver leaves to its caller: data is prepared only when there are buffers for it whose
packets were sent, and descriptors are posted only for data that was prepared. -/
def MayWrite (buffers : List SdeBuffer) (pkt_size : BitVec 64) : WriteCall → Writer → H2cHost → Prop
  | .prepare_write data, r, h =>
    (prepared pkt_size r.data).length + (chunks pkt_size.toNat data).length ≤
      h.sent.length + buffers.length
  | .write size, r, h =>
    h.num_posted + desc_for_size size pkt_size ≤ (prepared pkt_size r.data).length

/-- Nothing was written to the engine yet, and nothing read by it. -/
structure Fresh (h : H2cHost) : Prop where
  posted : h.posted = []
  fetched : ∀ x, h.fetched x = none
  sent : h.sent = []

/-- What holds between the calls. -/
def Rest (w : Wiring) (buffers : List SdeBuffer) (dw : Nat → BitVec 32) (pkt_size : BitVec 64)
    (r : Writer) (h : H2cHost) : Prop :=
  ∃ posted, Writes w buffers dw pkt_size posted (prepared pkt_size r.data).length r.m ∧
    At buffers dw posted (posted * 8) 0 (prepared pkt_size r.data) h

/-- What holds in a run. -/
structure WritesSafely (buffers : List SdeBuffer) (pkt_size : BitVec 64)
    (c : Env.Config SdeApi Writer × H2cHost) : Prop where
  /-- There are never more descriptors open than buffers. -/
  room : c.2.num_posted ≤ c.2.sent.length + buffers.length
  /-- Packet `k` is a whole buffer that begins with chunk `k`. -/
  carried : ∀ r, c.1 = .rest r → ∀ k p, c.2.sent[k]? = some p →
    ∃ chunk, (prepared pkt_size r.data)[k]? = some chunk ∧ Carries buffers k chunk p
  /-- A chunk whose packet was not sent lies in its buffer. -/
  waiting : ∀ r, c.1 = .rest r → ∀ k chunk, c.2.sent.length ≤ k →
    (prepared pkt_size r.data)[k]? = some chunk →
      bytes_at c.2.memory (buffer_of buffers k).data_pa chunk.length = chunk
  /-- Between the calls the two indices denote the next descriptor and the next buffer. -/
  indices : ∀ r, c.1 = .rest r →
    r.m.h2c_buffer.curr_desc_index_to_post = c.2.num_posted % r.m.h2c_buffer.num_desc ∧
      r.m.h2c_buffer.current_buffer_index = (prepared pkt_size r.data).length % buffers.length
  /-- When nothing is padded, what goes out is what was prepared. -/
  stream : ∀ r, c.1 = .rest r → (∀ b ∈ buffers, b.length.toNat = pkt_size.toNat) →
    (∀ data ∈ r.data, pkt_size.toNat ∣ data.length) →
      c.2.sent.flatMap Packet.bytes <+: r.data.flatten

section Runs

variable {w : Wiring} {buffers : List SdeBuffer} {dw : Nat → BitVec 32} {pkt_size : BitVec 64}
  {slot_id : Int} {r : Writer} {h : H2cHost}

theorem rest_stable (hb : Buffers w buffers) (hn : Names buffers dw) (r : Writer) :
    (H2cHost.env w buffers).Stable (Safely buffers dw) (Rest w buffers dw pkt_size r) where
  moves := by
    rintro h h' ⟨posted, hm, ha⟩ hmove
    exact ⟨posted, hm, (at_stable hb hn _ _ _ _).moves ha hmove⟩
  inv := by
    rintro h ⟨posted, hm, ha⟩
    exact (at_stable hb hn _ _ _ _).inv ha

theorem At.num_posted {posted gone limit : Nat} {filled : List (List (BitVec 8))}
    (ha : At buffers dw limit (posted * 8) gone filled h) : h.num_posted = posted := by
  unfold H2cHost.num_posted
  rw [ha.posted, Nat.mul_div_cancel _ (by decide)]

theorem At.forget {limit dwords gone : Nat} {filled : List (List (BitVec 8))}
    (ha : At buffers dw limit dwords gone filled h) : At buffers dw limit dwords 0 filled h :=
  ⟨ha.lent, ha.posted, Nat.zero_le _⟩

theorem At.now {limit dwords gone : Nat} {filled : List (List (BitVec 8))}
    (ha : At buffers dw limit dwords gone filled h) :
    At buffers dw limit dwords h.sent.length filled h :=
  ⟨ha.lent, ha.posted, Nat.le_refl _⟩

theorem after_prepare_eq (data : List (List (BitVec 8))) (more : List (BitVec 8)) (ret : Int) :
    after_prepare pkt_size (prepared pkt_size data) more ret =
      prepared pkt_size (if ret = 0 then data ++ [more] else data) := by
  unfold after_prepare prepared
  split
  · rw [List.flatMap_append, List.flatMap_singleton]
  · rfl

theorem writeBody_safe (hb : Buffers w buffers) (hn : Names buffers dw) (hs : Sized buffers pkt_size)
    (call : WriteCall) (hrest : Rest w buffers dw pkt_size r h)
    (hmay : MayWrite buffers pkt_size call r h) :
    (H2cHost.env w buffers).Safe (Safely buffers dw) (Rest w buffers dw pkt_size)
      (writeBody slot_id call r) h := by
  obtain ⟨posted, hm, ha⟩ := hrest
  cases call with
  | prepare_write data =>
    refine Env.safe_bind (prepare_write_safe hb hn hs hm hmay ha.now) ?_
    rintro ⟨ret, m⟩ h ⟨hm, ha⟩
    rw [after_prepare_eq] at hm ha
    exact Env.safe_pure (at_stable hb hn _ _ _ _) ha fun h ha => ⟨posted, hm, ha.forget⟩
  | write size =>
    change h.num_posted + _ ≤ _ at hmay
    rw [ha.num_posted] at hmay
    refine Env.safe_bind (write_safe hb hn hm size hmay ha) ?_
    rintro ⟨ret, m⟩ h ⟨more, hm, ha⟩
    exact Env.safe_pure (at_stable hb hn _ _ _ _) ha fun h ha => ⟨_, hm, ha⟩

theorem prepared_flatten (hpos : 0 < pkt_size.toNat) (data : List (List (BitVec 8))) :
    (prepared pkt_size data).flatten = data.flatten := by
  unfold prepared
  induction data with
  | nil => rfl
  | cons d data ih =>
    rw [List.flatMap_cons, List.flatten_append, chunks_flatten hpos, ih, List.flatten_cons]

theorem sent_prefix {sent : List Packet} {filled : List (List (BitVec 8))}
    (hcarried : ∀ k p, sent[k]? = some p → ∃ c, filled[k]? = some c ∧ Carries buffers k c p)
    (hwhole : ∀ k c, filled[k]? = some c → c.length = (buffer_of buffers k).length.toNat) :
    sent.map Packet.bytes <+: filled := by
  refine List.prefix_iff_getElem?.mpr fun k hk => ?_
  rw [List.length_map] at hk
  obtain ⟨c, hc, hcarries⟩ := hcarried k _ (List.getElem?_eq_getElem hk)
  rw [hc, List.getElem_map]
  refine congrArg some (hcarries.front.eq_of_length ?_)
  rw [hwhole k c hc, hcarries.length]

theorem writesSafely_of_ok (hb : Buffers w buffers) (hn : Names buffers dw)
    (hs : Sized buffers pkt_size) {c : Env.Config SdeApi Writer × H2cHost}
    (h : Env.Ok (H2cHost.env w buffers) (Safely buffers dw) (Rest w buffers dw pkt_size) c) :
    WritesSafely buffers pkt_size c := by
  obtain ⟨limit, filled, hlent⟩ := Env.ok_inv (rest_stable hb hn) h
  obtain ⟨c, h⟩ := c
  refine ⟨?_, ?_, ?_, ?_, ?_⟩
  · have hle := hlent.num_posted_le
    have hlimit := hlent.limit_le
    have hroom := hlent.room
    dsimp only at *
    omega
  · rintro r rfl
    obtain ⟨posted, -, ha⟩ := h
    exact ha.lent.sent
  · rintro r rfl
    obtain ⟨posted, -, ha⟩ := h
    exact ha.lent.stored
  · rintro r rfl
    obtain ⟨posted, hm, ha⟩ := h
    dsimp only
    rw [ha.num_posted]
    exact ⟨hm.ring.index, hm.buffer_index⟩
  · rintro r rfl hsize hwhole
    obtain ⟨posted, -, ha⟩ := h
    rw [← prepared_flatten hs.pos, List.flatMap_def]
    have hprefix := sent_prefix ha.lent.sent fun k c hc => by
      obtain ⟨data, hdata, hmem⟩ := List.mem_flatMap.mp (List.mem_of_getElem? hc)
      rw [length_of_mem_whole hs.pos (hwhole data hdata) hmem, hsize _ (buffer_of_mem hb k)]
    obtain ⟨more, hmore⟩ := hprefix
    rw [← hmore, List.flatten_append]
    exact List.prefix_append _ _

theorem rest_start {m : SdeMgmt} (hm : Writes w buffers dw pkt_size 0 0 m) (hf : Fresh h) :
    Rest w buffers dw pkt_size ⟨m, []⟩ h := by
  obtain ⟨hposted, hfetched, hsent⟩ := hf
  refine ⟨0, hm, ⟨?_, ?_, Nat.zero_le _, Nat.zero_le _, ?_, ?_, ?_, ?_, ?_⟩, ?_, Nat.zero_le _⟩
  · simp [hposted]
  · simp [hposted]
  · simp [hsent]
  · simp [prepared]
  · simp [hsent]
  · simp [prepared]
  · simp [hfetched]
  · simp [hposted]

/-- Whatever the sizes and the order of the calls, and whenever the engine reads: packet `k` is sent
with the `k`-th chunk of what was prepared in front. -/
theorem packets_sent (w : Wiring) (buffers : List SdeBuffer) (pkt_size : BitVec 64) (slot_id : Int)
    (m : SdeMgmt) (h : H2cHost) (hb : Buffers w buffers) (hm : Configured w buffers pkt_size m)
    (hf : Fresh h) (c : Env.Config SdeApi Writer × H2cHost)
    (hreach : Relation.ReflTransGen (Env.Step (H2cHost.env w buffers) (writeBody slot_id)
      (MayWrite buffers pkt_size)) (.rest ⟨m, []⟩, h) c) : WritesSafely buffers pkt_size c := by
  obtain ⟨hwrites, hnames, hsized⟩ := hm
  refine writesSafely_of_ok hb hnames hsized
    (Env.reaches_ok (rest_stable hb hnames) ?_ hreach (rest_start hwrites hf))
  exact fun call r h hrest hmay => writeBody_safe hb hnames hsized call hrest hmay

/-! ### A run -/

def sampleSlot : SdeMgmt :=
  { SdeMgmt.zero with
    direction := .h2c
    hw_ctrl := sampleCtrl
    h2c_buffer := { SdeDmaBuffer.zero with
      layout := .user_managed
      subsystem := .h2c
      ctrl := true
      num_desc := 2
      desc_element_size := 32
      buffers := some sampleBuffers
      num_buffers := 2
      pkt_size := 4 }
    initialized := true }

def configuredSlot : SdeMgmt :=
  { sampleSlot with h2c_buffer := (sde_dma_init_desc_buffer sampleSlot.h2c_buffer).2 }

def quietHost : H2cHost := ⟨[], fun _ => none, [], fun _ => 0⟩

/-- Three bytes are prepared. -/
def preparedSlot : SdeMgmt :=
  { configuredSlot with
    h2c_buffer := { configuredSlot.h2c_buffer with current_buffer_index := 1 } }

def preparedHost : H2cHost :=
  { quietHost with memory := copied quietHost.memory (fill_addr sampleWiring sampleBuffers 0) [1, 2, 3] }

theorem can_prepare : (H2cHost.env sampleWiring sampleBuffers).Can
    (writeBody 0 (.prepare_write [1, 2, 3]) ⟨configuredSlot, []⟩) quietHost
    ⟨preparedSlot, [[1, 2, 3]]⟩ preparedHost :=
  ⟨(), _, rfl, rfl, rfl⟩

/-- The descriptor is posted. -/
def postedSlot : SdeMgmt :=
  { preparedSlot with
    h2c_buffer := preparedSlot.h2c_buffer.advance 1
    h2c_desc_consumed := 1 }

def postedHost : H2cHost :=
  { preparedHost with posted := [4, 0x9000, 0, 1, 0, 0, 0x11110000, 0x22220000] }

theorem can_write : (H2cHost.env sampleWiring sampleBuffers).Can
    (writeBody 0 (.write 3) ⟨preparedSlot, [[1, 2, 3]]⟩) preparedHost
    ⟨postedSlot, [[1, 2, 3]]⟩ postedHost := by
  refine ⟨(64 : BitVec 32), _, rfl, ?_⟩
  refine ⟨(0 : Int), _, ⟨rfl, rfl⟩, ?_⟩
  refine ⟨(0 : Int), _, ⟨rfl, rfl⟩, ?_⟩
  refine ⟨(0 : Int), _, ⟨rfl, rfl⟩, ?_⟩
  refine ⟨(0 : Int), _, ⟨rfl, rfl⟩, ?_⟩
  refine ⟨(0 : Int), _, ⟨rfl, rfl⟩, ?_⟩
  refine ⟨(0 : Int), _, ⟨rfl, rfl⟩, ?_⟩
  refine ⟨(0 : Int), _, ⟨rfl, rfl⟩, ?_⟩
  refine ⟨(0 : Int), _, ⟨rfl, rfl⟩, ?_⟩
  exact ⟨rfl, rfl⟩

/-- The first `n` bytes are read. -/
def fetchedHost : (n : Nat) → H2cHost
  | 0 => postedHost
  | n + 1 => { fetchedHost n with
      fetched := Function.update (fetchedHost n).fetched (0, n)
        (some ((fetchedHost n).memory ((fetchedHost n).desc_addr 0 + BitVec.ofNat 64 n))) }

theorem fetchedHost_open (n : Nat) : (fetchedHost n).sent = [] ∧ (fetchedHost n).num_posted = 1 ∧
    (fetchedHost n).desc_len 0 = 4 := by
  induction n with
  | zero => decide
  | succ n ih => exact ih

theorem moves_fetch {n : Nat} (hn : n < 4) :
    H2cHost.Moves sampleBuffers (fetchedHost n) (fetchedHost (n + 1)) := by
  obtain ⟨hsent, hposted, hlen⟩ := fetchedHost_open n
  refine .fetch 0 n ?_ ?_ ?_
  · rw [hsent]
    exact Nat.le_refl _
  · rw [hposted]
    decide
  · rw [hlen]
    exact hn

/-- What is behind the data goes out with it. -/
def sentHost : H2cHost := { fetchedHost 4 with sent := [⟨[1, 2, 3, 0], true⟩] }

theorem moves_complete : H2cHost.Moves sampleBuffers (fetchedHost 4) sentHost :=
  .complete [1, 2, 3, 0] (by decide) (by decide) (by decide +kernel)

theorem sampleSlot_setUp : SetUp sampleWiring sampleBuffers sampleSlot where
  direction := by decide
  bar4_handle := rfl
  opened := rfl
  ctrl := rfl
  subsystem := rfl
  size := rfl
  has_desc := by decide
  depth := by decide
  whole := by decide
  has_buffers := rfl
  num_buffers := rfl
  sized := ⟨by decide, by decide⟩

theorem configuredSlot_configured : Configured sampleWiring sampleBuffers 4 configuredSlot :=
  init_desc_configured sampleSlot_setUp rfl

theorem quietHost_fresh : Fresh quietHost := ⟨rfl, fun _ => rfl, rfl⟩

theorem sample_writes :
    Relation.ReflTransGen (Env.Step (H2cHost.env sampleWiring sampleBuffers) (writeBody 0)
      (MayWrite sampleBuffers 4))
      (.rest ⟨configuredSlot, []⟩, quietHost) (.rest ⟨postedSlot, [[1, 2, 3]]⟩, sentHost) := by
  refine (Env.can_method can_prepare (show 0 + 1 ≤ 0 + 2 by decide)).trans ?_
  refine (Env.can_method can_write (show 0 + 1 ≤ 1 by decide)).trans ?_
  refine .head (.move (moves_fetch (n := 0) (by decide))) ?_
  refine .head (.move (moves_fetch (n := 1) (by decide))) ?_
  refine .head (.move (moves_fetch (n := 2) (by decide))) ?_
  refine .head (.move (moves_fetch (n := 3) (by decide))) ?_
  exact .single (.move moves_complete)

theorem sample_sent : WritesSafely sampleBuffers 4 (.rest ⟨postedSlot, [[1, 2, 3]]⟩, sentHost) :=
  packets_sent sampleWiring sampleBuffers 4 0 configuredSlot quietHost sampleBuffers_ok
    configuredSlot_configured quietHost_fresh _ sample_writes

end Runs

end AwsFpga.Sde.Writing
