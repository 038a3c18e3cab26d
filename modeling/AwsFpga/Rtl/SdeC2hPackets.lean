import AwsFpga.Rtl.SdeC2hMd

/-!
# C2H: what becomes of the packets (`sde_c2h.sv`)

Each descriptor gets the next bytes of the packets, as many as it has room for. Where a packet ends
the next descriptor goes on with the next packet.
-/

open Lib Lib.Axi

namespace AwsFpga.Rtl

structure C2hPacket where
  bytes : List (BitVec 8)
  user : BitVec 64

/-- What is reported of a descriptor. The user bits are those of the packet that ends with it. -/
structure C2hReport where
  len : Nat
  eop : Bool
  user : Option (BitVec 64)
  deriving DecidableEq

def C2hMd.report (md : C2hMd) : C2hReport :=
  ⟨md.len, md.eop, if md.eop then some md.user else none⟩

namespace C2h

open C2hBuf (bytes Packed row_up)

/-- The next byte of the packets. -/
structure PacketPlace where
  packet : Nat
  offset : Nat

section Spec

variable (pkts : Nat → C2hPacket)

namespace PacketPlace

/-- What a descriptor of `len` bytes gets. -/
def share (x : PacketPlace) (len : Nat) : List (BitVec 8) :=
  ((pkts x.packet).bytes.drop x.offset).take len

/-- The packet ends with the descriptor. -/
def ends (x : PacketPlace) (len : Nat) : Bool :=
  decide ((pkts x.packet).bytes.length ≤ x.offset + len)

def next (x : PacketPlace) (len : Nat) : PacketPlace :=
  if x.ends pkts len then ⟨x.packet + 1, 0⟩ else ⟨x.packet, x.offset + len⟩

def report (x : PacketPlace) (len : Nat) : C2hReport :=
  ⟨(x.share pkts len).length, x.ends pkts len,
    if x.ends pkts len then some (pkts x.packet).user else none⟩

end PacketPlace

/-- The bytes of the packets where the descriptors want them. -/
def placed_packets : PacketPlace → List C2hIfDesc → List (BitVec 64 × BitVec 8)
  | _, [] => []
  | x, d :: ds =>
    placed d.dest_addr (x.share pkts d.len.toNat).length
        (fun k => (x.share pkts d.len.toNat).getD k 0) ++
      placed_packets (x.next pkts d.len.toNat) ds

def reports : PacketPlace → List C2hIfDesc → List C2hReport
  | _, [] => []
  | x, d :: ds => x.report pkts d.len.toNat :: reports (x.next pkts d.len.toNat) ds

/-- Where the descriptor behind some others starts. -/
def place_behind (x : PacketPlace) (ds : List C2hIfDesc) : PacketPlace :=
  ds.foldl (fun x d => x.next pkts d.len.toNat) x

variable {pkts} {x : PacketPlace} {d : C2hIfDesc} (ds : List C2hIfDesc)

theorem placed_packets_concat : placed_packets pkts x (ds ++ [d]) =
    placed_packets pkts x ds ++ placed_packets pkts (place_behind pkts x ds) [d] := by
  induction ds generalizing x with
  | nil => rfl
  | cons d' ds ih =>
    rw [List.cons_append, placed_packets, placed_packets, ih, List.append_assoc]
    rfl

theorem reports_concat : reports pkts x (ds ++ [d]) =
    reports pkts x ds ++ reports pkts (place_behind pkts x ds) [d] := by
  induction ds generalizing x with
  | nil => rfl
  | cons d' ds ih =>
    rw [List.cons_append, reports, reports, ih]
    rfl

end Spec

/-! ## Packets as beats -/

/-- The beats of a packet: full ones, and the last one with the rest. -/
structure Carries (bs : List AxisBeat) (packet : C2hPacket) : Prop where
  packed : ∀ b ∈ bs, Packed b
  last : bs.map AxisBeat.last = beats (bs.length - 1)
  bytes : stream bs = packet.bytes
  user : ∀ b ∈ bs, b.last → b.user = packet.user

section Carried

variable {bs front after : List AxisBeat} {b : AxisBeat} {packet : C2hPacket} {pos off : Nat}

theorem Carries.split (h : Carries bs packet) : ∃ front b, bs = front ++ [b] ∧ b.last = true ∧
    (∀ b' ∈ front, b'.last = false) ∧ ∀ b' ∈ front, C2hBuf.bytes b' = PCIM_DATA_WIDTH_BYTES := by
  have hlast := h.last
  rcases List.eq_nil_or_concat' bs with rfl | ⟨front, b, rfl⟩
  · cases hlast
  · rw [beats, List.map_append, List.length_append, List.length_singleton,
      Nat.add_sub_cancel] at hlast
    obtain ⟨hfront, hb⟩ := List.append_inj' hlast rfl
    have hno : ∀ b' ∈ front, b'.last = false := fun b' hb' =>
      List.eq_of_mem_replicate (hfront ▸ List.mem_map_of_mem hb')
    exact ⟨front, b, rfl, List.singleton_inj.mp hb, hno, fun b' hb' =>
      (h.packed b' (List.mem_append_left _ hb')).2.2 (hno b' hb')⟩

theorem stream_append (l l' : List AxisBeat) : stream (l ++ l') = stream l ++ stream l' :=
  List.flatMap_append

theorem stream_full_length (h : ∀ b ∈ bs, bytes b = PCIM_DATA_WIDTH_BYTES) :
    (stream bs).length = PCIM_DATA_WIDTH_BYTES * bs.length := by
  induction bs with
  | nil => rfl
  | cons b bs ih =>
    rw [stream, List.flatMap_cons, List.length_append, lanes_length, h b (List.mem_cons_self ..),
      List.length_cons, Nat.mul_succ, Nat.add_comm]
    exact congrArg (· + _) (ih fun b' hb' => h b' (List.mem_cons_of_mem _ hb'))

theorem stream_single_length (b : AxisBeat) : (stream [b]).length = bytes b := by
  rw [stream, List.flatMap_singleton, lanes_length]

/-- From a byte of a packet on, the stream is the rest of the packet and what comes behind it. -/
theorem stream_from_within (before : List AxisBeat)
    (hfull : ∀ b' ∈ front, bytes b' = PCIM_DATA_WIDTH_BYTES)
    (hoff : off < PCIM_DATA_WIDTH_BYTES * front.length + bytes b) :
    stream_from (before ++ (front ++ [b]) ++ after) (PCIM_DATA_WIDTH_BYTES * before.length + off) =
      (stream (front ++ [b])).drop off ++ stream after := by
  have hle := C2hBuf.bytes_le b
  have hrow : off / PCIM_DATA_WIDTH_BYTES ≤ front.length := by
    rw [width_val] at *
    omega
  have hlen : (stream (front.take (off / PCIM_DATA_WIDTH_BYTES))).length =
      PCIM_DATA_WIDTH_BYTES * (off / PCIM_DATA_WIDTH_BYTES) := by
    rw [stream_full_length fun b' hb' => hfull b' (List.mem_of_mem_take hb'),
      List.length_take_of_le hrow]
  have hsplit : stream (front ++ [b]) = stream (front.take (off / PCIM_DATA_WIDTH_BYTES)) ++
      stream (front.drop (off / PCIM_DATA_WIDTH_BYTES) ++ [b]) := by
    rw [← stream_append, ← List.append_assoc, List.take_append_drop]
  have hrest : off % PCIM_DATA_WIDTH_BYTES ≤
      (stream (front.drop (off / PCIM_DATA_WIDTH_BYTES) ++ [b])).length := by
    have hall := congrArg List.length hsplit
    rw [List.length_append, hlen, stream_append, List.length_append, stream_full_length hfull,
      stream_single_length] at hall
    rw [width_val] at *
    omega
  have hdrop : (stream (front ++ [b])).drop off =
      (stream (front.drop (off / PCIM_DATA_WIDTH_BYTES) ++ [b])).drop
        (off % PCIM_DATA_WIDTH_BYTES) := by
    conv_lhs => rw [← Nat.div_add_mod off PCIM_DATA_WIDTH_BYTES]
    rw [← List.drop_drop, hsplit, ← hlen, List.drop_left]
  have hdiv : (PCIM_DATA_WIDTH_BYTES * before.length + off) / PCIM_DATA_WIDTH_BYTES =
      before.length + off / PCIM_DATA_WIDTH_BYTES := Nat.mul_add_div (by decide) _ _
  have hmod : (PCIM_DATA_WIDTH_BYTES * before.length + off) % PCIM_DATA_WIDTH_BYTES =
      off % PCIM_DATA_WIDTH_BYTES := Nat.mul_add_mod _ _ _
  rw [stream_from, hdiv, hmod, List.append_assoc, List.drop_length_add_append,
    List.append_assoc, List.drop_append_of_le_length hrow, ← List.append_assoc, stream_append,
    List.drop_append_of_le_length hrest, hdrop]

/-! ### Any packet can come in -/

def beat_of (l : List (BitVec 8)) (user : BitVec 64) (last : Bool) : AxisBeat where
  data := of_lanes 64 fun k => l.getD k 0
  keep := BitVec.ofNat 64 (2 ^ l.length - 1)
  user := user
  last := last

section BeatOf

variable {l : List (BitVec 8)} {user : BitVec 64} {last : Bool}

theorem beat_of_keep (hl : off < PCIM_DATA_WIDTH_BYTES) :
    (beat_of l user last).keep.getLsbD off = decide (off < l.length) := by
  have hlt : decide (off < 64) = true := decide_eq_true hl
  rw [beat_of, BitVec.getLsbD_ofNat, Nat.testBit_two_pow_sub_one, hlt, Bool.true_and]

theorem beat_of_bytes (hl : l.length ≤ PCIM_DATA_WIDTH_BYTES) :
    bytes (beat_of l user last) = l.length := by
  obtain ⟨e, he⟩ := Nat.exists_eq_add_of_le hl
  have hkept : (List.range l.length).countP (beat_of l user last).keep.getLsbD = l.length := by
    rw [List.countP_eq_length.mpr, List.length_range]
    intro k hk
    rw [List.mem_range] at hk
    rw [beat_of_keep (hk.trans_le hl), decide_eq_true hk]
  have hrest : ((List.range e).map (l.length + ·)).countP (beat_of l user last).keep.getLsbD = 0 := by
    rw [List.countP_eq_zero]
    intro k hk
    obtain ⟨j, hj, rfl⟩ := List.mem_map.mp hk
    rw [List.mem_range] at hj
    rw [beat_of_keep (by omega), decide_eq_false (by omega)]
    decide
  rw [bytes, he, List.range_add, List.countP_append, hkept, hrest, Nat.add_zero]

theorem beat_of_stream (hl : l.length ≤ PCIM_DATA_WIDTH_BYTES) :
    stream [beat_of l user last] = l := by
  rw [stream, List.flatMap_singleton, beat_of_bytes hl]
  apply List.ext_getElem
  · rw [lanes_length]
  · intro k hk hk'
    have hrow : k < 64 := hk'.trans_le hl
    have hdata : lane 8 (beat_of l user last).data k = l.getD k 0 :=
      lane_of_lanes (fun k => l.getD k 0) hrow
    have hget : (lanes 8 (beat_of l user last).data l.length)[k] =
        lane 8 (beat_of l user last).data k := by simp [lanes]
    rw [hget, hdata, List.getD_eq_getElem?_getD, List.getElem?_eq_getElem hk', Option.getD_some]

theorem beat_of_packed (hsome : l ≠ []) (hl : l.length ≤ PCIM_DATA_WIDTH_BYTES)
    (hfull : last = false → l.length = PCIM_DATA_WIDTH_BYTES) : Packed (beat_of l user last) := by
  rw [Packed, beat_of_bytes hl]
  exact ⟨List.length_pos_iff.mpr hsome, fun k hk => beat_of_keep hk, hfull⟩

theorem carries_last (hsome : l ≠ []) (hl : l.length ≤ PCIM_DATA_WIDTH_BYTES) :
    Carries [beat_of l user true] ⟨l, user⟩ where
  packed b hb := by
    rw [List.mem_singleton.mp hb]
    exact beat_of_packed hsome hl nofun
  last := rfl
  bytes := beat_of_stream hl
  user b hb _ := by
    rw [List.mem_singleton.mp hb]
    rfl

theorem Carries.cons {rest : List (BitVec 8)} (hl : l.length = PCIM_DATA_WIDTH_BYTES)
    (h : Carries bs ⟨rest, user⟩) : Carries (beat_of l user false :: bs) ⟨l ++ rest, user⟩ where
  packed b hb := by
    rcases List.mem_cons.mp hb with rfl | hb
    · refine beat_of_packed ?_ (Nat.le_of_eq hl) fun _ => hl
      rintro rfl
      cases hl
    · exact h.packed b hb
  last := by
    obtain ⟨front, b, rfl, -⟩ := h.split
    have hlast := h.last
    rw [List.length_append, List.length_singleton, Nat.add_sub_cancel] at hlast
    rw [List.map_cons, hlast, List.length_cons, List.length_append, List.length_singleton,
      Nat.add_sub_cancel, beats_succ]
    rfl
  bytes := by
    have hrest : stream bs = rest := h.bytes
    rw [← List.singleton_append, stream_append, beat_of_stream (Nat.le_of_eq hl), hrest]
  user b hb hlast := by
    rcases List.mem_cons.mp hb with rfl | hb
    · cases hlast
    · exact h.user b hb hlast

theorem exists_carries (h : packet.bytes ≠ []) : ∃ bs, Carries bs packet := by
  obtain ⟨bytes, user⟩ := packet
  induction hlength : bytes.length using Nat.strongRecOn generalizing bytes with
  | _ length ih =>
    rcases Nat.lt_or_ge PCIM_DATA_WIDTH_BYTES bytes.length with hlt | hle
    · have hdrop : (bytes.drop PCIM_DATA_WIDTH_BYTES).length < length := by
        rw [List.length_drop, width_val]
        omega
      have hmore : bytes.drop PCIM_DATA_WIDTH_BYTES ≠ [] := by
        rw [← List.length_pos_iff, List.length_drop]
        omega
      obtain ⟨bs, hbs⟩ := ih _ hdrop _ hmore rfl
      have hcons := hbs.cons (l := bytes.take PCIM_DATA_WIDTH_BYTES)
        (List.length_take_of_le (Nat.le_of_lt hlt))
      rw [List.take_append_drop] at hcons
      exact ⟨_, hcons⟩
    · exact ⟨_, carries_last h hle⟩

end BeatOf

end Carried

/-! ## Where a place stands in the rows -/

/-- How many rows the first packets take. -/
def rows (sent : Nat → List AxisBeat) (k : Nat) : Nat := ((List.range k).flatMap sent).length

/-- The place of a byte in the rows. -/
structure Stands (sent : Nat → List AxisBeat) (pkts : Nat → C2hPacket) (x : PacketPlace)
    (pos : Nat) : Prop where
  pos : pos = PCIM_DATA_WIDTH_BYTES * rows sent x.packet + x.offset
  within : x.offset < (pkts x.packet).bytes.length

section Places

variable {sent : Nat → List AxisBeat} {pkts : Nat → C2hPacket} {x : PacketPlace} {k N len m : Nat}
  {next : Nat} {sent_bytes : Nat}

theorem flatMap_range_split (hk : k < N) : ∃ after, (List.range N).flatMap sent =
    (List.range k).flatMap sent ++ sent k ++ after := by
  obtain ⟨e, rfl⟩ := Nat.exists_eq_add_of_le (Nat.succ_le_of_lt hk)
  refine ⟨((List.range e).map (k.succ + ·)).flatMap sent, ?_⟩
  rw [List.range_add, List.flatMap_append, List.range_succ, List.flatMap_append,
    List.flatMap_singleton]

theorem rows_le (h : k ≤ N) : rows sent k ≤ rows sent N := by
  obtain ⟨e, rfl⟩ := Nat.exists_eq_add_of_le h
  rw [rows, rows, List.range_add, List.flatMap_append, List.length_append]
  exact Nat.le_add_right _ _

/-- The packet that a place is in: its rows, and what is behind it. -/
structure Inside (beats : List AxisBeat) (sent : Nat → List AxisBeat) (pkts : Nat → C2hPacket)
    (k : Nat) (front : List AxisBeat) (b : AxisBeat) (after : List AxisBeat) : Prop where
  beats : beats = (List.range k).flatMap sent ++ (front ++ [b]) ++ after
  last : b.last = true
  open_front : ∀ b' ∈ front, b'.last = false
  full : ∀ b' ∈ front, C2hBuf.bytes b' = PCIM_DATA_WIDTH_BYTES
  stream : stream (front ++ [b]) = (pkts k).bytes
  user : b.user = (pkts k).user
  next : rows sent (k + 1) = rows sent k + front.length + 1
  has_byte : 0 < C2hBuf.bytes b

theorem inside_of_lt (h : ∀ k, Carries (sent k) (pkts k)) (hk : k < N) :
    ∃ front b after, Inside ((List.range N).flatMap sent) sent pkts k front b after := by
  obtain ⟨front, b, hsplit, hlast, hopen, hfull⟩ := (h k).split
  have hpieces : ∃ after, (List.range N).flatMap sent =
      (List.range k).flatMap sent ++ sent k ++ after := flatMap_range_split hk
  obtain ⟨after, hall⟩ := hpieces
  have hb : b ∈ sent k := by
    rw [hsplit]
    simp
  refine ⟨front, b, after, ?_, hlast, hopen, hfull, ?_, (h k).user b hb hlast, ?_,
    ((h k).packed b hb).1⟩
  · rw [hall, hsplit]
  · rw [← hsplit]
    exact (h k).bytes
  · rw [rows, rows, List.range_succ, List.flatMap_append, List.flatMap_singleton, hsplit,
      List.length_append, List.length_append, List.length_singleton, Nat.add_assoc]

section Within

variable {all front after : List AxisBeat} {b : AxisBeat} {pos : Nat}

theorem Inside.length (h : Inside all sent pkts k front b after) :
    (pkts k).bytes.length = PCIM_DATA_WIDTH_BYTES * front.length + bytes b := by
  rw [← h.stream, stream_append, List.length_append, stream_full_length h.full,
    stream_single_length]

theorem Inside.get (h : Inside all sent pkts k front b after) :
    all[rows sent k + front.length]? = some b := by
  rw [h.beats, List.append_assoc, rows, List.getElem?_append_right (Nat.le_add_right _ _),
    Nat.add_sub_cancel_left]
  simp

theorem Inside.ends_at (h : Inside all sent pkts k front b after) :
    EndsAt all (PCIM_DATA_WIDTH_BYTES * rows sent k + (pkts k).bytes.length) := by
  refine ⟨rows sent k + front.length, b, h.get, h.last, ?_⟩
  rw [h.length, Nat.mul_add, Nat.add_assoc]

theorem Inside.unbroken (h : Inside all sent pkts k front b after) (hx : Stands sent pkts x pos)
    (hk : x.packet = k) :
    Unbroken all pos (PCIM_DATA_WIDTH_BYTES * rows sent k + (pkts k).bytes.length) := by
  rintro y ⟨i, b', hget, hlast, rfl⟩ hy
  have hrow := end_row hy
  have hpos := hx.pos
  have hlen := h.length
  have hle := C2hBuf.bytes_le b
  rw [hk] at hpos
  have hlow : rows sent k ≤ i := by
    rw [width_val] at *
    omega
  rcases Nat.lt_trichotomy i (rows sent k + front.length) with hlt | rfl | hgt
  · -- The rows in front of the last one have no end.
    have hfront : i - rows sent k < front.length := by omega
    rw [h.beats, List.append_assoc, List.getElem?_append_right hlow, ← rows, List.append_assoc,
      List.getElem?_append_left hfront] at hget
    rw [h.open_front b' (List.mem_of_getElem? hget)] at hlast
    cases hlast
  · rw [h.get, Option.some.injEq] at hget
    rw [hlen, ← hget, Nat.mul_add, Nat.add_assoc]
  · rw [width_val] at *
    omega

theorem Inside.stream_from (h : Inside all sent pkts k front b after) (hx : Stands sent pkts x pos)
    (hk : x.packet = k) :
    C2h.stream_from all pos = (pkts k).bytes.drop x.offset ++ C2h.stream after := by
  have hwithin := hx.within
  rw [hk, h.length] at hwithin
  rw [hx.pos, hk, h.beats, rows, stream_from_within _ h.full hwithin, h.stream]

theorem Inside.on_end (h : Inside all sent pkts k front b after) :
    row_up (PCIM_DATA_WIDTH_BYTES * rows sent k + (pkts k).bytes.length) =
      PCIM_DATA_WIDTH_BYTES * rows sent (k + 1) := by
  have hle := C2hBuf.bytes_le b
  have hpos := h.has_byte
  rw [h.length, h.next, row_up]
  rw [width_val] at *
  omega

theorem take_of_same {l l' r r' : List (BitVec 8)} {n : Nat} (h : l ++ r = l' ++ r')
    (hlen : l'.length = min n l.length) : l.take n = l' := by
  have htake := congrArg (List.take l'.length) h
  rw [List.take_left, List.take_append_of_le_length (by omega), hlen] at htake
  rw [← htake, List.take_eq_take_min]

theorem Stands.before_end (hx : Stands sent pkts x pos) :
    pos < PCIM_DATA_WIDTH_BYTES * rows sent x.packet + (pkts x.packet).bytes.length := by
  rw [hx.pos]
  exact Nat.add_lt_add_left hx.within _

/-- A descriptor that is done got what it was to get, and the next one starts where it should. -/
theorem Inside.got (h : Inside all sent pkts k front b after) (hx : Stands sent pkts x pos)
    (hk : x.packet = k) (hnext : 0 < (pkts (k + 1)).bytes.length)
    (hgot : Got all pos len sent_bytes next) (hsome : 0 < sent_bytes) :
    (List.range sent_bytes).map (fun j => byte_at all (pos + j)) = x.share pkts len ∧
      Stands sent pkts (x.next pkts len) next ∧
      (0 < sent_bytes ∧ EndsAt all (pos + sent_bytes) ↔ x.ends pkts len = true) := by
  have hle := hgot.le
  have hpos := hx.pos
  have hbefore := hx.before_end
  have hunbroken := h.unbroken hx hk
  have hstream : (pkts k).bytes.drop x.offset ++ C2h.stream after =
      (List.range sent_bytes).map (fun j => byte_at all (pos + j)) ++ C2h.stream_from all next :=
    (h.stream_from hx hk).symm.trans hgot.stream_from
  subst hk
  have hfirst := hgot.unbroken _ h.ends_at hbefore
  rcases hgot.done with ⟨hends, rfl⟩ | ⟨hopen, rfl, rfl⟩
  · have hback := hunbroken _ hends.2 (by omega)
    have hlast : pos + sent_bytes =
        PCIM_DATA_WIDTH_BYTES * rows sent x.packet + (pkts x.packet).bytes.length := by omega
    have hended : x.ends pkts len = true := decide_eq_true (by omega)
    refine ⟨(take_of_same hstream ?_).symm, ?_, iff_of_true hends hended⟩
    · rw [List.length_map, List.length_range, List.length_drop]
      omega
    · rw [PacketPlace.next, if_pos hended, hlast, h.on_end]
      exact ⟨rfl, hnext⟩
  · have hless : pos + sent_bytes ≠
        PCIM_DATA_WIDTH_BYTES * rows sent x.packet + (pkts x.packet).bytes.length :=
      fun heq => hopen ⟨hsome, heq ▸ h.ends_at⟩
    have hmore : x.ends pkts sent_bytes = false := decide_eq_false (by omega)
    refine ⟨(take_of_same hstream ?_).symm, ?_, iff_of_false hopen (by rw [hmore]; decide)⟩
    · rw [List.length_map, List.length_range, List.length_drop]
      omega
    · rw [PacketPlace.next, hmore, if_neg Bool.false_ne_true]
      exact ⟨by dsimp only; omega, by dsimp only; omega⟩

end Within

/-! ## All descriptors that are done -/

section Done

variable {p : C2hDataParams} {ds : List C2hIfDesc} {bss : List (List (Burst 64))} {pos : Nat}
  {mds : List C2hMd}

theorem Carries.some (h : Carries (sent k) (pkts k)) : 0 < (pkts k).bytes.length := by
  obtain ⟨front, b, hsplit, -⟩ := h.split
  have hb := (h.packed b (by rw [hsplit]; simp)).1
  rw [← h.bytes, hsplit, stream_append, List.length_append, stream_single_length]
  omega

theorem rows_total : ((List.range N).flatMap sent).length = rows sent N := rfl

theorem Stands.lt (hx : Stands sent pkts x pos) (hsome : 0 < m)
    (hfits : pos + m ≤ PCIM_DATA_WIDTH_BYTES * ((List.range N).flatMap sent).length) :
    x.packet < N := by
  by_contra hge
  have hle : rows sent N ≤ rows sent x.packet := rows_le (Nat.le_of_not_lt hge)
  have hrows := Nat.mul_le_mul_left PCIM_DATA_WIDTH_BYTES hle
  have hpos := hx.pos
  rw [rows_total] at hfits
  omega

/-- Whatever a descriptor got is its share of the packet. Without a length it got nothing, and the packet need
not be there. -/
theorem Got.share (hall : ∀ k, Carries (sent k) (pkts k)) (hx : Stands sent pkts x pos)
    (hgot : Got ((List.range N).flatMap sent) pos len sent_bytes next) :
    (List.range sent_bytes).map (fun j => byte_at ((List.range N).flatMap sent) (pos + j)) =
        x.share pkts len ∧
      Stands sent pkts (x.next pkts len) next ∧
      (0 < sent_bytes ∧ EndsAt ((List.range N).flatMap sent) (pos + sent_bytes) ↔
        x.ends pkts len = true) := by
  rcases Nat.eq_zero_or_pos sent_bytes with rfl | hsome
  · have hlen : len = 0 := Nat.eq_zero_of_not_pos fun hpos => absurd (hgot.some hpos) (Nat.lt_irrefl 0)
    subst hlen
    have hwithin := hx.within
    have hmore : x.ends pkts 0 = false := decide_eq_false (by omega)
    have hnext : next = pos := by
      rcases hgot.done with ⟨⟨hc, -⟩, -⟩ | ⟨-, -, rfl⟩
      · exact absurd hc (Nat.lt_irrefl 0)
      · rfl
    rw [PacketPlace.next, hmore, if_neg Bool.false_ne_true, hnext]
    exact ⟨by rw [PacketPlace.share, List.take_zero]; rfl, hx, by simp⟩
  · obtain ⟨front, b, after, hin⟩ := inside_of_lt hall (hx.lt hsome hgot.fits)
    exact hin.got hx rfl (hall _).some hgot hsome

/-- The rows of the packets that are done, and those that come behind. -/
theorem chain_places (hall : ∀ k, Carries (sent k) (pkts k))
    (h : Chain p ((List.range N).flatMap sent) ds bss pos) :
    Stands sent pkts (place_behind pkts ⟨0, 0⟩ ds) pos ∧
      desc_writes ((List.range N).flatMap sent) 0 ds = placed_packets pkts ⟨0, 0⟩ ds := by
  induction h with
  | nil => exact ⟨⟨rfl, (hall 0).some⟩, rfl⟩
  | @snoc ds bss pos d bs sent_bytes next before got tiles good ih =>
    obtain ⟨hx, hwritten⟩ := ih
    obtain ⟨hbytes, hnext, -⟩ := got.share hall hx
    have hlen := congrArg List.length hbytes
    rw [List.length_map, List.length_range] at hlen
    constructor
    · rw [place_behind, List.foldl_append]
      exact hnext
    · rw [desc_writes_concat, before.place, hwritten, placed_packets_concat, got.placed_writes rfl,
        placed_packets, placed_packets, List.append_nil, ← hlen]
      congr 1
      refine placed_congr fun j hj => ?_
      rw [← hbytes, List.getD_eq_getElem?_getD, List.getElem?_map, List.getElem?_range hj]
      rfl

theorem Inside.next_end {all front after : List AxisBeat} {b : AxisBeat}
    (h : Inside all sent pkts k front b after) (hx : Stands sent pkts x pos) (hk : x.packet = k) :
    (all.drop (pos / PCIM_DATA_WIDTH_BYTES)).find? AxisBeat.last = some b := by
  have hwithin := hx.within
  have hle := C2hBuf.bytes_le b
  rw [hk, h.length] at hwithin
  have hrow : x.offset / PCIM_DATA_WIDTH_BYTES ≤ front.length := by
    rw [width_val] at *
    omega
  have hdiv : pos / PCIM_DATA_WIDTH_BYTES =
      ((List.range k).flatMap sent).length + x.offset / PCIM_DATA_WIDTH_BYTES := by
    rw [hx.pos, hk, rows, Nat.mul_add_div (by decide)]
  have hnone : (front.drop (x.offset / PCIM_DATA_WIDTH_BYTES)).find? AxisBeat.last = none := by
    rw [List.find?_eq_none]
    intro b' hb' hlast
    rw [h.open_front b' (List.mem_of_mem_drop hb')] at hlast
    cases hlast
  rw [hdiv, h.beats, List.append_assoc, List.drop_length_add_append, List.append_assoc,
    List.drop_append_of_le_length hrow, List.find?_append, hnone, Option.none_or,
    List.singleton_append, List.find?_cons_of_pos h.last]

theorem MdOf.report {md : C2hMd} {d : C2hIfDesc} {next sent_bytes : Nat}
    (hall : ∀ k, Carries (sent k) (pkts k)) (hx : Stands sent pkts x pos)
    (hgot : Got ((List.range N).flatMap sent) pos d.len.toNat sent_bytes next)
    (hmd : MdOf ((List.range N).flatMap sent) pos d md) :
    md.report = x.report pkts d.len.toNat := by
  obtain ⟨hbytes, -, hends⟩ := hgot.share hall hx
  have hlen := congrArg List.length hbytes
  rw [List.length_map, List.length_range] at hlen
  have heop : md.eop = x.ends pkts d.len.toNat := by
    rw [hmd.eop, Bool.eq_iff_iff, hgot.ends_iff, hends]
  rw [C2hMd.report, PacketPlace.report, heop, hmd.len, hgot.eq.1, ← hlen]
  congr 1
  split
  case isTrue hended =>
    have huser := hmd.user (heop.trans hended)
    obtain ⟨front, b, after, h⟩ := inside_of_lt hall (hx.lt (hends.mpr hended).1 hgot.fits)
    rw [h.next_end hx rfl, Option.map_some, h.user] at huser
    exact huser.symm
  case isFalse => rfl

theorem chain_reports (hall : ∀ k, Carries (sent k) (pkts k))
    (h : Chain p ((List.range N).flatMap sent) ds bss pos)
    (hmds : Mds ((List.range N).flatMap sent) 0 ds mds) :
    mds.map C2hMd.report = reports pkts ⟨0, 0⟩ ds := by
  induction h generalizing mds with
  | nil =>
    cases mds with
    | nil => rfl
    | cons _ _ => exact hmds.elim
  | @snoc ds bss pos d bs sent_bytes next before got tiles good ih =>
    obtain ⟨mds, md, rfl, hbefore, hmd⟩ := hmds.of_concat
    rw [before.place] at hmd
    obtain ⟨hx, -⟩ := chain_places hall before
    rw [List.map_append, ih hbefore, reports_concat]
    congr 1
    exact congrArg (fun r => [r]) (hmd.report hall hx got)

theorem First.placed_packets {d : C2hIfDesc} (hall : ∀ k, Carries (sent k) (pkts k))
    (hx : Stands sent pkts x pos) (h : First ((List.range N).flatMap sent) pos d.len.toNat m) :
    placed d.dest_addr m (fun j => byte_at ((List.range N).flatMap sent) (pos + j)) <+:
      C2h.placed_packets pkts x [d] := by
  rcases Nat.eq_zero_or_pos m with rfl | hsome
  · exact List.nil_prefix
  · obtain ⟨front, b, after, hin⟩ := inside_of_lt hall (hx.lt hsome h.fits)
    have hstream := stream_from_run h.on_byte h.unbroken h.packed h.fits (Nat.le_refl m)
    rw [hin.stream_from hx rfl] at hstream
    have hfirst := h.unbroken _ hin.ends_at hx.before_end
    have hpos := hx.pos
    have hle := h.le
    have hlen : ((pkts x.packet).bytes.drop x.offset).length ≥ m := by
      rw [List.length_drop]
      omega
    have htake : ((pkts x.packet).bytes.drop x.offset).take m =
        (List.range m).map fun j => byte_at ((List.range N).flatMap sent) (pos + j) :=
      take_of_same hstream (by rw [List.length_map, List.length_range]; omega)
    rw [C2h.placed_packets, C2h.placed_packets, List.append_nil]
    have hshare : m ≤ (x.share pkts d.len.toNat).length := by
      rw [PacketPlace.share, List.length_take]
      omega
    have hbytes : placed d.dest_addr m
          (fun j => byte_at ((List.range N).flatMap sent) (pos + j)) =
        placed d.dest_addr m fun j => (x.share pkts d.len.toNat).getD j 0 := by
      refine placed_congr fun j hj => ?_
      have hget := congrArg (·[j]?) htake
      simp only [List.getElem?_map, List.getElem?_range hj, List.getElem?_take, hj, if_pos] at hget
      rw [PacketPlace.share, List.getD_eq_getElem?_getD, List.getElem?_take_of_lt (by omega), hget]
      rfl
    rw [hbytes]
    exact placed_prefix hshare

end Done

end Places

/-! ## In every run -/

section Runs

variable (p : C2hDataParams) (ins : Nat → C2hIn) (pkts : Nat → C2hPacket)

/-- The packets come in one after another, each beat at any time. -/
def Receives : Prop :=
  ∃ sent : Nat → List AxisBeat, (∀ k, Carries (sent k) (pkts k)) ∧
    ∀ n, (ins n).axis_buf_valid →
      beats_in p ins n ++ [(ins n).axis_buf] <+: (List.range (n + 1)).flatMap sent

/-- What is expected of the bytes that were written before cycle `n`. -/
structure PacketsPlaced (n : Nat) : Prop where
  /-- The descriptors that are done have all their bytes. -/
  finished : placed_packets pkts ⟨0, 0⟩ (descs_written p ins n) <+:
    bytes_written p ins n (w_out p ins n ++ w_waiting p ins n)
  /-- There are no others than theirs and the first of the descriptor in progress. -/
  placed : bytes_written p ins n (w_out p ins n ++ w_waiting p ins n) <+:
    placed_packets pkts ⟨0, 0⟩ (descs_in p ins n)
  /-- Those of the beats that were taken are the first of them. -/
  taken : bytes_written p ins n (w_out p ins n) <+:
    bytes_written p ins n (w_out p ins n ++ w_waiting p ins n)
  /-- `wlast` is set on the last beat of each burst, and on no other. -/
  last : (w_out p ins n ++ w_waiting p ins n).map WBeat.last <+:
    (writes_out p ins n).flatMap fun b => beats (b.beats - 1)

variable {p ins pkts} {n : Nat}

theorem Receives.packed (h : Receives p ins pkts) (n : Nat) (hvalid : (ins n).axis_buf_valid) :
    Packed (ins n).axis_buf := by
  obtain ⟨sent, hall, hsent⟩ := h
  have hmem : (ins n).axis_buf ∈ (List.range (n + 1)).flatMap sent :=
    (hsent n hvalid).subset (by simp)
  obtain ⟨k, -, hk⟩ := List.mem_flatMap.mp hmem
  exact (hall k).packed _ hk

theorem beats_in_received {sent : Nat → List AxisBeat}
    (hsent : ∀ n, (ins n).axis_buf_valid →
      beats_in p ins n ++ [(ins n).axis_buf] <+: (List.range (n + 1)).flatMap sent) (n : Nat) :
    beats_in p ins n <+: (List.range n).flatMap sent := by
  induction n with
  | zero => exact List.prefix_rfl
  | succ n ih =>
    have hin : beats_in p ins (n + 1) = beats_in p ins n ++
        fire (ins n).axis_buf_valid
          (C2hBuf.buf_axis_ready ((circuit p).state ins n).SDE_C2H_BUF) (ins n).axis_buf := rfl
    rw [hin, fire]
    split
    case isTrue hfire =>
      rw [Bool.and_eq_true] at hfire
      exact hsent n hfire.1
    case isFalse =>
      rw [List.append_nil, List.range_succ, List.flatMap_append]
      exact ih.trans (List.prefix_append _ _)

/-- What came in are the first beats of some packets, and the others are packed too. -/
theorem Receives.more (h : Receives p ins pkts) : ∃ sent : Nat → List AxisBeat,
    (∀ k, Carries (sent k) (pkts k)) ∧ ∀ n, ∃ new, beats_in p ins n ++ new = (List.range n).flatMap sent ∧
      ∀ b ∈ new, Packed b := by
  obtain ⟨sent, hall, hsent⟩ := h
  refine ⟨sent, hall, fun n => ?_⟩
  obtain ⟨new, hnew⟩ := beats_in_received hsent n
  refine ⟨new, hnew, fun b hb => ?_⟩
  have hmem : b ∈ (List.range n).flatMap sent := hnew ▸ List.mem_append_right _ hb
  obtain ⟨k, -, hk⟩ := List.mem_flatMap.mp hmem
  exact (hall k).packed b hk

theorem First.append {all new : List AxisBeat} {pos len m : Nat} (h : First all pos len m)
    (hpacked : ∀ b ∈ new, Packed b) : First (all ++ new) pos len m where
  packed b hb := (List.mem_append.mp hb).elim (h.packed b) (hpacked b)
  on_byte := h.on_byte.append ((Nat.le_add_right _ _).trans h.fits) hpacked
  unbroken := h.unbroken.append h.fits
  le := h.le
  fits := h.fits.trans (Nat.mul_le_mul_left _ (by simp))

end Runs

/-- In every run in which packets come in and each descriptor has a byte: each descriptor that is done
has the next bytes of the packets from its address on, as many as it has room for or up to the end of
the packet, and nothing else is written. -/
theorem packets_placed (p : C2hDataParams) (ins : Nat → C2hIn) (pkts : Nat → C2hPacket)
    (hreceives : Receives p ins pkts) (hbyte : ∀ n, HasByte (ins n)) (n : Nat) :
    PacketsPlaced p ins pkts n := by
  have hpacked := hreceives.packed
  obtain ⟨sent, hall, hmore⟩ := hreceives.more
  obtain ⟨beats_out, gone, part, h⟩ := sent_state (p := p) hpacked hbyte n
  obtain ⟨bqq, rp, r, hlinked, hphase⟩ := holds_state (p := p) hpacked n
  have hrun := progress_here (p := p) hpacked n
  obtain ⟨m, hwritten, hfirst⟩ := h.written_to hpacked hlinked hphase
  have hlast := h.marks_prefix hphase
  obtain ⟨new, hnew, hnew_packed⟩ := hmore n
  have hchain := hrun.chain.append hnew_packed
  rw [hnew] at hchain
  obtain ⟨hplace, hplaced⟩ := chain_places hall hchain
  have hkept := hrun.chain.writes_append hnew_packed
  rw [hnew, hplaced] at hkept
  rw [w_in_eq] at hwritten hlast
  rw [← hkept] at hwritten
  refine ⟨?_, ?_, Burst.all_writes_prefix, hlast⟩
  · rw [hwritten]
    exact List.prefix_append _ _
  · rw [hwritten, hrun.descs]
    cases hd : in_progress p ins n with
    | none =>
      rw [Option.toList_none, List.flatMap_nil, List.append_nil, List.append_nil]
    | some d =>
      have hf := (hfirst d hd).append hnew_packed
      have hbytes : placed d.dest_addr m
            (fun k => byte_at (beats_in p ins n ++ new) (start_place p ins n + k)) =
          placed d.dest_addr m fun k => byte_at (beats_in p ins n) (start_place p ins n + k) :=
        placed_congr fun k hk => byte_at_append (by have := (hfirst d hd).fits; omega)
      rw [hnew] at hf hbytes
      rw [Option.toList_some, List.flatMap_singleton, placed_packets_concat, ← hbytes]
      exact (List.prefix_append_right_inj _).mpr (hf.placed_packets hall hplace)

/-- Packets of 67 and of 3 bytes. No other one is sent. -/
def long_and_short : Nat → C2hPacket
  | 0 => ⟨(List.range 67).map (BitVec.ofNat 8), 5⟩
  | _ => ⟨[7, 8, 9], 6⟩

def sent_beats : Nat → List AxisBeat
  | 0 => [beat_of ((List.range 64).map (BitVec.ofNat 8)) 5 false, beat_of [64, 65, 66] 5 true]
  | _ => [beat_of [7, 8, 9] 6 true]

theorem sent_beats_carry (k : Nat) : Carries (sent_beats k) (long_and_short k) := by
  cases k with
  | zero =>
    have hrest : Carries [beat_of [64, 65, 66] 5 true] ⟨[64, 65, 66], 5⟩ :=
      carries_last (by decide) (by decide)
    exact hrest.cons (l := (List.range 64).map (BitVec.ofNat 8)) rfl
  | succ k => exact carries_last (by decide) (by decide)

def three_descs (n : Nat) : CommDesc :=
  if n < 8 then ⟨0, false, false, 5, 0, 0x1ffe, false, false⟩
  else if n < 30 then ⟨0, false, false, 100, 0, 0x5021, false, false⟩
  else ⟨0, false, false, 10, 0, 0x4001, false, false⟩

/-- Three descriptors: one over a boundary, one that goes on in the same packet, and one for the other
packet. The W channel takes a beat every third cycle. -/
def two_packets (n : Nat) : C2hIn where
  axis_buf_valid := n < 3
  axis_buf := ((List.range 2).flatMap sent_beats).getD n ⟨0, 0, 0, false⟩
  desc_dm_desc_valid := n < 35
  desc_dm_desc := three_descs n
  pm_dm_awready := n % 2 = 0
  pm_dm_wready := n % 3 = 0
  pm_dm_bvalid := false
  pm_dm_bresp := 0
  wb_dm_md_grant := false

theorem two_packets_received : Receives default_params two_packets long_and_short := by
  refine ⟨sent_beats, sent_beats_carry, fun n hvalid => ?_⟩
  have hn : n < 3 := of_decide_eq_true hvalid
  have hall : ∀ n < 3, beats_in default_params two_packets n ++ [(two_packets n).axis_buf] <+:
      (List.range (n + 1)).flatMap sent_beats := by decide +kernel
  exact hall n hn

theorem three_descs_byte (n : Nat) : HasByte (two_packets n) := by
  intro _
  change (three_descs n).len ≠ 0
  unfold three_descs
  split
  · decide
  · split <;> decide

theorem two_packets_placed :
    (∀ n, PacketsPlaced default_params two_packets long_and_short n) ∧
    bytes_written default_params two_packets 45 (w_out default_params two_packets 45) =
      placed 0x1ffe 5 (BitVec.ofNat 8) ++ placed 0x5021 62 (fun k => BitVec.ofNat 8 (5 + k)) ++
        placed 0x4001 3 fun k => BitVec.ofNat 8 (7 + k) := by
  refine ⟨packets_placed default_params two_packets long_and_short two_packets_received
    three_descs_byte, ?_⟩
  decide +kernel

end C2h

end AwsFpga.Rtl
