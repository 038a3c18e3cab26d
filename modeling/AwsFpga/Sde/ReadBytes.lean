import AwsFpga.Sde.ReadRuns

/-!
# What the reads return together

A call of `sde_mgmt_read_data` that ends inside a packet leaves the rest of it behind: the next call
goes on with the next entry of the ring, and with the next buffer.
-/

open Lib AwsFpga.Pci

namespace AwsFpga.Sde.Reading

/-- The bytes of all calls, one call after another. -/
def received (reads : List Read) : List (BitVec 8) := reads.flatMap Read.data

/-- Where a call ends that returns 0, a packet ends. -/
def OnBoundaries (packets : List Packet) (reads : List Read) : Prop :=
  ∀ before r after, reads = before ++ r :: after → r.ret = 0 →
    ∃ n, (received before).length + r.size = (bytes_of (packets.take n)).length

/-- What the calls have read between two of them. -/
structure ReadInOrder (buffers : List SdeBuffer) (r : Reader) (h : C2hHost) : Prop where
  shares : Shares r.reads (h.packets.take h.cleared)
  /-- Nothing is dropped or repeated when no call ends inside a packet. -/
  whole : OnBoundaries h.packets r.reads →
    received r.reads = bytes_of (h.packets.take h.cleared)
  /-- Both indices denote the next packet. -/
  md_index : r.m.md_read_index = h.cleared % C2H_NUM_MD_IN_RING
  buffer_index : r.m.c2h_buffer.current_buffer_index = h.cleared % buffers.length

/-! ## Whole packets -/

section Whole

variable {packets before share : List Packet} {reads : List Read} {shares : List (List Packet)}

theorem bytes_of_append (l l' : List Packet) : bytes_of (l ++ l') = bytes_of l ++ bytes_of l' :=
  List.flatMap_append

theorem bytes_of_take_le (packets : List Packet) {m n : Nat} (h : m ≤ n) :
    (bytes_of (packets.take m)).length ≤ (bytes_of (packets.take n)).length := by
  obtain ⟨more, hmore⟩ : packets.take m <+: packets.take n := List.take_prefix_take_left h
  rw [← hmore, bytes_of_append, List.length_append]
  exact Nat.le_add_right _ _

theorem Returned.whole {r : Read} (h : Returned r share) (hpre : before ++ share <+: packets)
    (hend : r.ret = 0 → ∃ n, (bytes_of before).length + r.size =
      (bytes_of (packets.take n)).length) : r.data = bytes_of share := by
  cases h with
  | refused hret hdata => exact hdata
  | timeout hret hdata hless => exact hdata
  | filled hret hdata henough hneeded =>
    obtain ⟨n, hn⟩ := hend hret
    rw [hdata]
    apply List.take_of_length_le
    -- The call ends behind the packet before its last one, so it ends with the last one.
    by_contra hmore
    have hall : packets.take (before ++ share).length = before ++ share :=
      (List.prefix_iff_eq_take.mp hpre).symm
    rcases Nat.lt_or_ge n (before ++ share).length with hlt | hge
    · have hle := bytes_of_take_le packets (Nat.le_pred_of_lt hlt)
      have hlast : packets.take ((before ++ share).length - 1) = before ++ share.dropLast := by
        have hne : share ≠ [] := by
          rintro rfl
          exact hmore (Nat.zero_le _)
        rw [← List.dropLast_append_of_ne_nil hne, List.dropLast_eq_take, ← hall, List.take_take,
          hall]
        congr 1
        omega
      rw [Nat.pred_eq_sub_one, hlast, bytes_of_append, List.length_append] at hle
      omega
    · have hle := bytes_of_take_le packets hge
      rw [hall, bytes_of_append, List.length_append] at hle
      omega

theorem received_whole (h : List.Forall₂ Returned reads shares)
    (hpre : before ++ shares.flatten <+: packets)
    (hends : ∀ pre r post, reads = pre ++ r :: post → r.ret = 0 →
      ∃ n, (bytes_of before).length + (received pre).length + r.size =
        (bytes_of (packets.take n)).length) : received reads = bytes_of shares.flatten := by
  induction h generalizing before with
  | nil => rfl
  | @cons r share reads shares hr _ ih =>
    rw [List.flatten_cons, ← List.append_assoc] at hpre
    have hdata : r.data = bytes_of share :=
      hr.whole ((List.prefix_append _ _).trans hpre) fun hret => hends [] r reads rfl hret
    have hrest := ih hpre fun pre r' post heq hret => by
      obtain ⟨n, hn⟩ := hends (r :: pre) r' post (by rw [heq]; rfl) hret
      refine ⟨n, ?_⟩
      rw [← hn, bytes_of_append, List.length_append, ← hdata, received, received,
        List.flatMap_cons, List.length_append]
      omega
    rw [List.flatten_cons, bytes_of_append, ← hdata, ← hrest]
    rfl

end Whole

/-! ## In every run -/

section Runs

variable {w : Wiring} {buffers : List SdeBuffer} {slot_id : Int} {r : Reader} {h : C2hHost}

theorem Rest.in_order (hrest : Rest w buffers r h) : ReadInOrder buffers r h := by
  obtain ⟨posted, before, hm, ha, hs⟩ := hrest
  have htake : before = h.packets.take h.cleared := by
    rw [ha.cleared]
    exact List.prefix_iff_eq_take.mp ha.known
  refine ⟨htake ▸ hs, fun hends => ?_, ?_, ?_⟩
  · obtain ⟨shares, hshares, hall⟩ := hs
    rw [← htake, ← hshares]
    have hpre : [] ++ shares.flatten <+: h.packets := by
      rw [List.nil_append, hshares]
      exact ha.known
    refine received_whole hall hpre fun pre r post heq hret => ?_
    obtain ⟨n, hn⟩ := hends pre r post heq hret
    exact ⟨n, by rw [← hn]; simp [bytes_of]⟩
  · rw [ha.cleared]
    exact hm.md_index
  · rw [ha.cleared]
    exact hm.buffer_index

/-- The calls return the packets in order. A call drops what it leaves of its last packet, so nothing
is dropped when each call ends where a packet does. -/
theorem reads_in_order (w : Wiring) (buffers : List SdeBuffer) (slot_id : Int) (m : SdeMgmt)
    (h : C2hHost) (hb : Buffers w buffers) (hm : Configured w buffers m) (hf : Fresh h) (r : Reader)
    (h' : C2hHost)
    (hreach : Relation.ReflTransGen (Env.Step (C2hHost.env w) (readBody slot_id) (MayRead buffers))
      (.rest ⟨m, []⟩, h) (.rest r, h')) : ReadInOrder buffers r h' := by
  have hrest : Rest w buffers r h' := ok_of_reach hb hm hf hreach
  exact hrest.in_order

/-- A packet that came in and was not read stays where it is. -/
structure UnreadKept (buffers : List SdeBuffer) (h : C2hHost) : Prop where
  data : ∀ k p, h.cleared ≤ k → h.packets[k]? = some p → Stored buffers h.memory k p
  metadata : ∀ k p, h.cleared ≤ k → h.packets[k]? = some p →
    h.entries (k % C2H_NUM_MD_IN_RING) = p.metadata
  /-- A buffer is posted again only when its earlier packets were read. -/
  posted : ∀ j k, j < k → k < h.num_posted → j % buffers.length = k % buffers.length →
    j < h.cleared

theorem Safely.kept (hs : Safely buffers h) : UnreadKept buffers h := by
  obtain ⟨limit, taken, hs⟩ := hs
  have htaken := hs.taken_le
  refine ⟨fun k p hk hp => hs.stored k p (htaken.trans hk) hp, hs.entries, ?_⟩
  intro j k hjk hk hslot
  have hlimit := hs.limit_le
  have hposted := hs.num_posted_le
  by_contra hunread
  exact slots_differ hjk (by omega) hslot

end Runs

/-! ## Some runs

The answers of the host are computed here. `limit` is the credit limit that the engine wrote. -/

def C2hHost.answer (w : Wiring) (limit : BitVec 32) :
    (o : SdeOp) → C2hHost → Option (o.Ans × C2hHost)
  | .pci (.poke handle offset value), h =>
    some ((0 : Int), if handle = w.bar4_handle ∧ offset = DESC_RAM_MAP_OFFSET .c2h then
      { h with posted := h.posted ++ [value] } else h)
  | .status_load .., h => some (limit, h)
  | .md_length _ index, h => some ((h.entries index).length, h)
  | .md_status _ index, h => some ((h.entries index).status, h)
  | .md_user _ index, h => some ((h.entries index).user, h)
  | .md_store_status va index status, h =>
    some ((), if va = w.metadata then
      { h with
        entries := Function.update h.entries index { h.entries index with status }
        cleared := h.cleared + 1 } else h)
  | .copy_from va size, h =>
    some (⟨(List.range size).map fun i => h.memory (w.bus (va + BitVec.ofNat 64 i)), by simp⟩, h)
  | _, _ => none

theorem C2hHost.answers_of_answer {w : Wiring} {limit : BitVec 32} {o : SdeOp} {h : C2hHost}
    {r : o.Ans × C2hHost} (hr : C2hHost.answer w limit o h = some r) :
    C2hHost.Answers w o h r.1 r.2 := by
  cases o with
  | pci o =>
    cases o with
    | poke handle offset value =>
      cases hr
      exact ⟨rfl, rfl⟩
    | _ => cases hr
  | status_load => cases hr; rfl
  | md_length => cases hr; exact ⟨rfl, fun _ => rfl⟩
  | md_status => cases hr; exact ⟨rfl, fun _ => rfl⟩
  | md_user => cases hr; exact ⟨rfl, fun _ => rfl⟩
  | md_store_status => cases hr; rfl
  | copy_from => cases hr; exact ⟨rfl, rfl⟩
  | _ => cases hr

/-- The engine receives a packet for the next descriptor. -/
def C2hHost.receive (p : Packet) (h : C2hHost) : C2hHost where
  posted := h.posted
  packets := h.packets ++ [p]
  cleared := h.cleared
  memory := copied h.memory (fun i => h.desc_addr h.packets.length + BitVec.ofNat 64 i) p.bytes
  entries := Function.update h.entries (h.packets.length % C2H_NUM_MD_IN_RING) p.metadata

theorem C2hHost.moves_receive {p : Packet} {h : C2hHost} (hposted : h.packets.length < h.num_posted)
    (hfits : p.bytes.length ≤ h.desc_len h.packets.length) :
    Relation.ReflTransGen C2hHost.Moves h (h.receive p) := by
  have hlen : h.desc_len h.packets.length < 2 ^ 32 := (h.desc_dw h.packets.length 0).isLt
  refine .tail (.single (.write
    (copied h.memory (fun i => h.desc_addr h.packets.length + BitVec.ofNat 64 i) p.bytes) ?_)) ?_
  · intro a ha
    refine ⟨h.packets.length, Nat.le_refl _, hposted, ?_⟩
    by_contra hout
    refine ha (copied_frame fun i hi => ?_)
    rintro rfl
    exact hout (covers_add (hi.trans_le hfits) (by omega))
  · exact .complete p hposted hfits (bytes_at_copied_to (fun _ _ => rfl) (by omega))

def C2hHost.receives : List Packet → C2hHost → Option C2hHost
  | [], h => some h
  | p :: ps, h =>
    if h.packets.length < h.num_posted ∧ p.bytes.length ≤ h.desc_len h.packets.length then
      C2hHost.receives ps (h.receive p)
    else none

theorem C2hHost.moves_receives {ps : List Packet} {h h' : C2hHost}
    (hs : C2hHost.receives ps h = some h') : Relation.ReflTransGen C2hHost.Moves h h' := by
  induction ps generalizing h with
  | nil =>
    cases hs
    exact .refl
  | cons p ps ih =>
    change (if _ then _ else _) = _ at hs
    split at hs
    case isTrue hfree => exact (C2hHost.moves_receive hfree.1 hfree.2).trans (ih hs)
    case isFalse => cases hs

/-- A step of a run: a call, or packets that come in. -/
inductive RunStep where
  | call (call : ReadCall)
  | receive (ps : List Packet)

instance (buffers : List SdeBuffer) : (call : ReadCall) → (r : Reader) → (h : C2hHost) →
    Decidable (MayRead buffers call r h)
  | .start_read _, _, _ => inferInstanceAs (Decidable (_ ≤ _))
  | .read_data .., _, _ => inferInstanceAs (Decidable True)

section Steps

variable (w : Wiring) (slot_id : Int) (may : ReadCall → Reader → C2hHost → Prop)
  [∀ call r h, Decidable (may call r h)]

/-- With 64 as the credit limit. -/
def run_step : RunStep → Reader × C2hHost → Option (Reader × C2hHost)
  | .call call, (r, h) =>
    if may call r h then Env.eval (C2hHost.answer w 64) (readBody slot_id call r) h else none
  | .receive ps, (r, h) => (C2hHost.receives ps h).map fun h => (r, h)

def run_steps : List RunStep → Reader × C2hHost → Option (Reader × C2hHost)
  | [], s => some s
  | step :: steps, s => (run_step w slot_id may step s).bind (run_steps steps)

variable {w slot_id may} {s s' : Reader × C2hHost}

theorem reaches_of_step {step : RunStep} (hs : run_step w slot_id may step s = some s') :
    Relation.ReflTransGen (Env.Step (C2hHost.env w) (readBody slot_id) may)
      (.rest s.1, s.2) (.rest s'.1, s'.2) := by
  obtain ⟨r, h⟩ := s
  cases step with
  | call call =>
    change (if _ then _ else _) = _ at hs
    split at hs
    case isTrue hmay =>
      exact Env.can_method (Env.can_of_eval (fun _ _ _ => C2hHost.answers_of_answer) hs) hmay
    case isFalse => cases hs
  | receive ps =>
    obtain ⟨h', hreceived, rfl⟩ := Option.map_eq_some_iff.mp hs
    exact Relation.ReflTransGen.lift (fun h => (Env.Config.rest r, h))
      (fun _ _ hmove => Env.Step.move hmove) _ _ (C2hHost.moves_receives hreceived)

theorem reaches_of_steps {steps : List RunStep} (hs : run_steps w slot_id may steps s = some s') :
    Relation.ReflTransGen (Env.Step (C2hHost.env w) (readBody slot_id) may)
      (.rest s.1, s.2) (.rest s'.1, s'.2) := by
  induction steps generalizing s with
  | nil =>
    cases hs
    exact .refl
  | cons step steps ih =>
    obtain ⟨s₁, hstep, hrest⟩ := Option.bind_eq_some_iff.mp hs
    exact (reaches_of_step hstep).trans (ih hrest)

end Steps

/-- The slot of the samples, and its host. -/
def sample_steps (may : ReadCall → Reader → C2hHost → Prop)
    [∀ call r h, Decidable (may call r h)] (steps : List RunStep) : Option (Reader × C2hHost) :=
  run_steps sampleWiring 0 may steps (⟨configuredSlot, []⟩, quietHost)

/-- The first call takes two packets, and the third packet is in the first buffer again. -/
def two_reads : List RunStep :=
  [.call (.start_read 8), .receive [⟨[1, 2, 3], false, 0⟩, ⟨[4], true, 0⟩],
    .call (.read_data 4 2), .call (.start_read 4), .receive [⟨[5, 6], true, 0⟩],
    .call (.read_data 2 1)]

theorem two_reads_in_order : ∃ s, sample_steps (MayRead sampleBuffers) two_reads = some s ∧
    ReadInOrder sampleBuffers s.1 s.2 ∧ received s.1.reads = [1, 2, 3, 4, 5, 6] := by
  have hdone : (sample_steps (MayRead sampleBuffers) two_reads).map
      (fun s => received s.1.reads) = some [1, 2, 3, 4, 5, 6] := by decide +kernel
  obtain ⟨s, hs, hreceived⟩ := Option.map_eq_some_iff.mp hdone
  have hreach := reaches_of_steps hs
  exact ⟨s, hs, reads_in_order sampleWiring sampleBuffers 0 configuredSlot quietHost
    sampleBuffers_ok configuredSlot_configured quietHost_fresh s.1 s.2 hreach, hreceived⟩

/-- The first call leaves a byte behind. -/
def cut_packet : List RunStep :=
  [.call (.start_read 8), .receive [⟨[1, 2, 3], false, 0⟩, ⟨[4, 5, 6], true, 0⟩],
    .call (.read_data 2 1), .call (.read_data 1 1)]

/-- The third descriptor goes to the first buffer while its packet waits there. -/
def early_start : List RunStep :=
  [.call (.start_read 8), .receive [⟨[1], false, 0⟩, ⟨[2], false, 0⟩], .call (.start_read 4),
    .receive [⟨[3], true, 0⟩], .call (.read_data 1 1)]

/-- A read that ends inside a packet drops what is left of it, and a read that is started too early
has a packet overwritten. -/
theorem reads_drop_bytes :
    (¬∀ s : Reader × C2hHost,
      Relation.ReflTransGen (Env.Step (C2hHost.env sampleWiring) (readBody 0)
        (MayRead sampleBuffers)) (.rest ⟨configuredSlot, []⟩, quietHost) (.rest s.1, s.2) →
      received s.1.reads <+: bytes_of s.2.packets) ∧
    ¬∀ s : Reader × C2hHost,
      Relation.ReflTransGen (Env.Step (C2hHost.env sampleWiring) (readBody 0)
        fun _ _ _ => True) (.rest ⟨configuredSlot, []⟩, quietHost) (.rest s.1, s.2) →
      OnBoundaries s.2.packets s.1.reads → received s.1.reads <+: bytes_of s.2.packets := by
  constructor
  · intro hall
    have hdone : (sample_steps (MayRead sampleBuffers) cut_packet).map
        (fun s => (received s.1.reads, bytes_of s.2.packets)) =
          some ([1, 2, 4], [1, 2, 3, 4, 5, 6]) := by decide +kernel
    obtain ⟨s, hs, heq⟩ := Option.map_eq_some_iff.mp hdone
    obtain ⟨hreceived, hbytes⟩ := Prod.mk.inj heq
    have hpre := hall s (reaches_of_steps hs)
    rw [hreceived, hbytes] at hpre
    exact absurd hpre (by decide)
  · intro hall
    have hdone : (sample_steps (fun _ _ _ => True) early_start).map
        (fun s => (s.1.reads.map fun r => (r.size, r.data), s.2.packets.map Packet.bytes)) =
          some ([(1, [3])], [[1], [2], [3]]) := by decide +kernel
    obtain ⟨s, hs, heq⟩ := Option.map_eq_some_iff.mp hdone
    obtain ⟨hreads, hpackets⟩ := Prod.mk.inj heq
    obtain ⟨r, hr, hread⟩ := List.map_eq_singleton_iff.mp hreads
    obtain ⟨hsize, hdata⟩ := Prod.mk.inj hread
    have hbytes : ∀ n, bytes_of (s.2.packets.take n) = ([[1], [2], [3]].take n).flatten := by
      intro n
      rw [bytes_of, List.flatMap_def, List.map_take, hpackets]
    have hends : OnBoundaries s.2.packets s.1.reads := by
      intro before r' after heq _
      rw [hr] at heq
      cases before with
      | nil =>
        obtain ⟨rfl, -⟩ := List.cons.inj heq
        exact ⟨1, by rw [hbytes, hsize]; rfl⟩
      | cons _ _ => simp at heq
    have hpre := hall s (reaches_of_steps hs) hends
    rw [hr, bytes_of, List.flatMap_def, hpackets, received, List.flatMap_singleton, hdata] at hpre
    exact absurd hpre (by decide)

end AwsFpga.Sde.Reading
