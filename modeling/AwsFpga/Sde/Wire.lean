import AwsFpga.Sde.Post
import AwsFpga.Rtl.SdeDesc
import AwsFpga.Rtl.SdePs

/-!
# Descriptors from the driver to the data mover

The driver keeps descriptors as packed C structs and posts them dword by dword to
one address. The engine collects the dwords of a packed SystemVerilog struct,
keeps a part of it in its RAM and gives the data mover the common form.
-/

open Lib Lib.Axi AwsFpga.Pci AwsFpga.Rtl

namespace AwsFpga.Sde

/-! ## The packed structs of `sde_pkg.sv` -/

def c2h_reg_of_bits (b : BitVec (32 * 4)) : C2hRegDesc where
  rsvd := b.extractLsb' 96 32
  dest_addr := b.extractLsb' 32 64
  len := b.extractLsb' 0 32

def h2c_reg_of_bits (b : BitVec (32 * 8)) : H2cRegDesc where
  user := b.extractLsb' 192 64
  rsvd := b.extractLsb' 98 94
  spb := b.getLsbD 97
  eop := b.getLsbD 96
  src_addr := b.extractLsb' 32 64
  len := b.extractLsb' 0 32

/-- `DESC_WIDTH >> 5` of the regular formats. -/
def desc_dw : SdeSubsystem → Nat
  | .c2h => 4
  | .h2c => 8

def reg_format : SdeSubsystem → DescFormat
  | .c2h => c2h_reg
  | .h2c => h2c_reg

def of_bits : (s : SdeSubsystem) → BitVec (32 * desc_dw s) → (reg_format s).Desc
  | .c2h => c2h_reg_of_bits
  | .h2c => h2c_reg_of_bits

/-- All conversions on the way of a descriptor. -/
def to_comm (s : SdeSubsystem) (b : BitVec (32 * desc_dw s)) : CommDesc :=
  (reg_format s).cnv_desc_to_comm
    ((reg_format s).cnv_desc_from_sav ((reg_format s).cnv_desc_to_sav (of_bits s b)))

theorem desc_dw_pos (s : SdeSubsystem) : 0 < desc_dw s := by cases s <;> decide

theorem desc_dw_eq (s : SdeSubsystem) : desc_element_size s / 4 = desc_dw s := by cases s <;> rfl

/-! ## What the driver means -/

/-- The 64 bits in `desc[i].user`. -/
def desc_user (i : Nat) : BitVec 64 :=
  ((current_dw (i + 1)).setWidth 64 <<< 32) ||| (current_dw i).setWidth 64

/-- The dwords of descriptor `i` of the ring as one bus. -/
def desc_bus (s : SdeSubsystem) (desc : Nat → BitVec 32) (i : Nat) : BitVec (32 * desc_dw s) :=
  of_dwords (desc_dw s) fun k => desc (i * desc_dw s + k)

/-! ## Fields of a bus and their dwords -/

theorem extract_pair {w : Nat} (b : BitVec w) (k : Nat) :
    b.extractLsb' (32 * k) 64 =
      ((dword b (k + 1)).setWidth 64 <<< 32) ||| (dword b k).setWidth 64 := by
  apply BitVec.eq_of_getLsbD_eq
  intro i hi
  rw [BitVec.getLsbD_or, BitVec.getLsbD_shiftLeft, BitVec.getLsbD_extractLsb',
    BitVec.getLsbD_setWidth, BitVec.getLsbD_setWidth]
  by_cases hlow : i < 32
  · simp [hi, hlow, ← getLsbD_dword b k i hlow]
  · have hhigh : i - 32 < 32 := by omega
    have hpos : 32 * (k + 1) + (i - 32) = 32 * k + i := by omega
    have hzero : (dword b k).getLsbD i = false := BitVec.getLsbD_of_ge _ _ (by omega)
    have hlt : i - 32 < 64 := by omega
    simp [hi, hlow, hlt, hzero, getLsbD_dword b (k + 1) (i - 32) hhigh, hpos]

theorem address_of_halves (a : BitVec 64) :
    (((a >>> 32).setWidth 32).setWidth 64 <<< 32) ||| (a.setWidth 32).setWidth 64 = a := by
  apply BitVec.eq_of_getLsbD_eq
  intro i hi
  simp only [BitVec.getLsbD_or, BitVec.getLsbD_shiftLeft, BitVec.getLsbD_setWidth,
    BitVec.getLsbD_ushiftRight]
  by_cases hlow : i < 32
  · simp [hi, hlow]
  · have hhigh : i - 32 < 32 := by omega
    have hpos : 32 + (i - 32) = i := by omega
    have hlt : i - 32 < 64 := by omega
    simp [hi, hlow, hhigh, hpos, hlt]

theorem eop_bit (word : BitVec 32) :
    (SDE_SET_BITFIELD 2 1 0 (SDE_SET_BITFIELD 1 0 1 word)).getLsbD 0 = true := by
  simp [SDE_SET_BITFIELD]

theorem spb_bit (word : BitVec 32) :
    (SDE_SET_BITFIELD 2 1 0 (SDE_SET_BITFIELD 1 0 1 word)).getLsbD 1 = false := by
  simp [SDE_SET_BITFIELD]

/-! ## One descriptor -/

/-- The driver's description of a descriptor that writes to `buffer`. -/
def c2h_comm (buffer : SdeBuffer) : CommDesc where
  user := 0
  spb := false
  eop := false
  len := buffer.length
  src_addr := 0
  dest_addr := buffer.data_pa
  desc_type := false
  h2c := false

def h2c_comm (buffer : SdeBuffer) (i : Nat) : CommDesc where
  user := desc_user i
  spb := false
  eop := true
  len := buffer.length
  src_addr := buffer.data_pa
  dest_addr := 0
  desc_type := false
  h2c := true

/-- Descriptor `i` of the ring, as the data mover should see it. -/
def driver_desc (b : SdeDmaBuffer) (i : Nat) : CommDesc :=
  let buffer := (b.buffers.getD []).getD (i % b.num_buffers) no_buffer
  match b.subsystem with
  | .c2h => c2h_comm buffer
  | .h2c => h2c_comm buffer i

theorem dword_of_dwords_eq {n : Nat} {bus : BitVec (32 * n)} {l : List (BitVec 32)}
    (h : bus_dwords bus = l) (k : Nat) (hk : k < n) : dword bus k = l.getD k 0 := by
  rw [← h]
  simp [bus_dwords, hk]

theorem to_comm_c2h {bus : BitVec (32 * 4)} {buffer : SdeBuffer}
    (h : bus_dwords bus = c2h_desc buffer) :
    to_comm .c2h bus = c2h_comm buffer := by
  have h₀ : dword bus 0 = buffer.length := dword_of_dwords_eq h 0 (by decide)
  have h₁ : dword bus 1 = buffer.data_pa.setWidth 32 := dword_of_dwords_eq h 1 (by decide)
  have h₂ : dword bus 2 = (buffer.data_pa >>> 32).setWidth 32 := dword_of_dwords_eq h 2 (by decide)
  have haddr : bus.extractLsb' 32 64 = buffer.data_pa := by
    rw [show bus.extractLsb' 32 64 = bus.extractLsb' (32 * 1) 64 from rfl, extract_pair, h₂, h₁,
      address_of_halves]
  have hlen : bus.extractLsb' 0 32 = buffer.length := h₀
  simp only [to_comm, reg_format, of_bits, c2h_reg, c2h_reg_of_bits, c2h_comm, haddr, hlen]

theorem to_comm_h2c {bus : BitVec (32 * 8)} {buffer : SdeBuffer} {cfg_bits : BitVec 32} {i : Nat}
    (h : bus_dwords bus = h2c_desc buffer cfg_bits i) : to_comm .h2c bus = h2c_comm buffer i := by
  have h₀ : dword bus 0 = buffer.length := dword_of_dwords_eq h 0 (by decide)
  have h₁ : dword bus 1 = buffer.data_pa.setWidth 32 := dword_of_dwords_eq h 1 (by decide)
  have h₂ : dword bus 2 = (buffer.data_pa >>> 32).setWidth 32 := dword_of_dwords_eq h 2 (by decide)
  have h₃ : dword bus 3 = SDE_SET_BITFIELD 2 1 0 (SDE_SET_BITFIELD 1 0 1 cfg_bits) :=
    dword_of_dwords_eq h 3 (by decide)
  have h₆ : dword bus 6 = current_dw i := dword_of_dwords_eq h 6 (by decide)
  have h₇ : dword bus 7 = current_dw (i + 1) := dword_of_dwords_eq h 7 (by decide)
  have haddr : bus.extractLsb' 32 64 = buffer.data_pa := by
    rw [show bus.extractLsb' 32 64 = bus.extractLsb' (32 * 1) 64 from rfl, extract_pair, h₂, h₁,
      address_of_halves]
  have huser : bus.extractLsb' 192 64 = desc_user i := by
    rw [show bus.extractLsb' 192 64 = bus.extractLsb' (32 * 6) 64 from rfl, extract_pair, h₇, h₆,
      desc_user]
  have heop : bus.getLsbD 96 = true := by
    rw [← eop_bit cfg_bits, ← h₃, getLsbD_dword bus 3 0 (by decide)]
  have hspb : bus.getLsbD 97 = false := by
    rw [← spb_bit cfg_bits, ← h₃, getLsbD_dword bus 3 1 (by decide)]
  have hlen : bus.extractLsb' 0 32 = buffer.length := h₀
  simp only [to_comm, reg_format, of_bits, h2c_reg, h2c_reg_of_bits, h2c_comm, haddr, huser, heop, hspb,
    hlen]

theorem init_desc_dword {buffers : List SdeBuffer} {b : SdeDmaBuffer} {i k : Nat}
    (hi : i < b.num_desc) (hk : k < desc_dw b.subsystem) :
    init_desc buffers b (i * desc_dw b.subsystem + k) =
      match b.subsystem with
      | .c2h => (c2h_desc (buffers.getD (i % b.num_buffers) no_buffer)).getD k 0
      | .h2c => (h2c_desc (buffers.getD (i % b.num_buffers) no_buffer)
          (b.desc (i * desc_dw b.subsystem + 3)) i).getD k 0 := by
  have hdiv : (i * desc_dw b.subsystem + k) / desc_dw b.subsystem = i := by
    rw [Nat.mul_comm, Nat.mul_add_div (desc_dw_pos _), Nat.div_eq_of_lt hk, Nat.add_zero]
  have hmod : (i * desc_dw b.subsystem + k) % desc_dw b.subsystem = k := by
    rw [Nat.mul_comm, Nat.mul_add_mod, Nat.mod_eq_of_lt hk]
  unfold init_desc
  dsimp only
  rw [desc_dw_eq, hdiv, hmod]
  exact if_pos hi

theorem dwords_desc_bus (s : SdeSubsystem) (desc : Nat → BitVec 32) (i : Nat) :
    bus_dwords (desc_bus s desc i) = (List.range (desc_dw s)).map fun k => desc (i * desc_dw s + k) :=
  bus_dwords_of_dwords _ _

theorem range_map_getD (l : List (BitVec 32)) :
    (List.range l.length).map (fun k => l.getD k 0) = l := by
  apply List.ext_getElem
  · simp
  · intro k hk _
    simp at hk
    simp [hk]

theorem to_comm_desc_bus {buffers : List SdeBuffer} {b : SdeDmaBuffer} {s : SdeSubsystem}
    (hs : b.subsystem = s) (hbuf : b.buffers = some buffers) {i : Nat} (hi : i < b.num_desc) :
    to_comm s (desc_bus s (init_desc buffers b) i) = driver_desc b i := by
  have hdword := fun k (hk : k < desc_dw s) => @init_desc_dword buffers b i k hi (hs ▸ hk)
  unfold driver_desc
  rw [hs] at hdword ⊢
  rw [hbuf, Option.getD_some]
  have hbus := dwords_desc_bus s (init_desc buffers b) i
  have hlist := List.map_congr_left fun k hk => hdword k (List.mem_range.mp hk)
  cases s with
  | c2h => exact to_comm_c2h ((hbus.trans hlist).trans (range_map_getD (c2h_desc _)))
  | h2c => exact to_comm_h2c ((hbus.trans hlist).trans (range_map_getD (h2c_desc _ _ i)))

/-! ## The posted dwords -/

/-- One call of `sde_hw_post_descriptor`, for `num` descriptors of the ring from `first` on, and the
calls it made. -/
structure Post where
  first : Nat
  num : Nat
  calls : List PciApi.Event

/-- The call posts descriptors of the ring and succeeds. -/
structure Post.Done (ctrl : SdeHwCtrl) (b : SdeDmaBuffer) (p : Post) : Prop where
  in_ring : p.first + p.num ≤ b.num_desc
  runs : (sde_hw_post_descriptor (some ctrl)
    (fun k => b.desc (p.first * desc_dw b.subsystem + k)) p.num b.subsystem).Runs p.calls 0

/-- The write of a dword. -/
def poke_event (ctrl : SdeHwCtrl) (s : SdeSubsystem) (value : BitVec 32) : PciApi.Event :=
  ⟨.poke ctrl.bar4_handle (DESC_RAM_MAP_OFFSET s) value, (0 : Int)⟩

theorem post_dwords_pokes {ctrl : SdeHwCtrl} {s : SdeSubsystem} {desc : Nat → BitVec 32}
    {left index : Nat} {t : List PciApi.Event}
    (h : (post_dwords ctrl.bar4_handle (DESC_RAM_MAP_OFFSET s) desc left index).Runs t 0) :
    t = (List.range left).map fun k => poke_event ctrl s (desc (index + k)) := by
  rcases post_dwords_cases h with ⟨-, ht⟩ | ⟨hret, -⟩
  · exact ht
  · exact absurd rfl hret

/-- The descriptors of a call, as buses. -/
def Post.buses (s : SdeSubsystem) (desc : Nat → BitVec 32) (p : Post) :
    List (BitVec (32 * desc_dw s)) :=
  (List.range p.num).map fun i => desc_bus s desc (p.first + i)

/-- A call that succeeds writes the dwords of its descriptors, to one address. -/
theorem Post.calls_eq {ctrl : SdeHwCtrl} {b : SdeDmaBuffer} {p : Post} (h : p.Done ctrl b) :
    p.calls =
      ((p.buses b.subsystem b.desc).flatMap bus_dwords).map (poke_event ctrl b.subsystem) := by
  have hruns := h.runs
  unfold sde_hw_post_descriptor at hruns
  dsimp only at hruns
  split at hruns
  · cases hruns.2
  · rw [post_dwords_pokes hruns, desc_dw_eq, range_mul, Post.buses, List.flatMap_map, List.map_flatMap,
      List.map_flatMap]
    congr 1
    funext i
    rw [dwords_desc_bus, List.map_map, List.map_map]
    apply List.map_congr_left
    intro k _
    simp [Nat.add_mul, Nat.add_assoc]

/-! ## From the driver to the data mover -/

/-- A write of four bytes as a beat of 64. -/
def poke_beat (offset : BitVec 64) (value : BitVec 32) : WBeat :=
  ⟨value.setWidth 512 <<< (8 * (offset.toNat % 64)), 0xF <<< (offset.toNat % 64), true⟩

/-- Whether a write goes to the descriptors of a direction. -/
def in_window (s : SdeSubsystem) (offset : BitVec 64) : Bool :=
  let decode := PcisReq.decode ⟨0, 2, 0, offset.setWidth 14, false⟩
  match s with
  | .c2h => decode.c2h_wr_desc
  | .h2c => decode.h2c_wr_desc

/-- What a call brings to the accumulator of a direction. -/
def window_beat (s : SdeSubsystem) (e : PciApi.Event) : Option WBeat :=
  match e.1 with
  | .poke _ offset value => if in_window s offset then some (poke_beat offset value) else none
  | _ => none

def post_beats (s : SdeSubsystem) (posts : List Post) : List WBeat :=
  posts.flatMap fun p => p.calls.filterMap (window_beat s)

/-- The beats the accumulator takes. -/
def taken {dw : Nat} (i : PsAccIn) (s : PsAcc dw) : List WBeat :=
  fire i.pcis_wvalid (PsAcc.pcis_wready i s) i.pcis_w

/-- The posted descriptors, as the data mover should see them. -/
def driver_descs (b : SdeDmaBuffer) (posts : List Post) : List CommDesc :=
  posts.flatMap fun p => (List.range p.num).map fun i => driver_desc b (p.first + i)

theorem window_beat_poke_event (ctrl : SdeHwCtrl) (s : SdeSubsystem) (value : BitVec 32) :
    window_beat s (poke_event ctrl s value) = some ⟨value.setWidth 512, 0xF, true⟩ := by
  have hwindow : in_window s (DESC_RAM_MAP_OFFSET s) = true := by cases s <;> decide
  have haligned : (DESC_RAM_MAP_OFFSET s).toNat % 64 = 0 := by cases s <;> decide
  simp [window_beat, poke_event, hwindow, poke_beat, haligned]

theorem post_beats_eq {ctrl : SdeHwCtrl} {b : SdeDmaBuffer} {posts : List Post}
    (h : ∀ p ∈ posts, p.Done ctrl b) :
    post_beats b.subsystem posts =
      ((posts.flatMap (Post.buses b.subsystem b.desc)).flatMap bus_dwords).map
        fun value => ⟨value.setWidth 512, 0xF, true⟩ := by
  induction posts with
  | nil => rfl
  | cons p posts ih =>
    have hhead : p.calls.filterMap (window_beat b.subsystem) =
        ((p.buses b.subsystem b.desc).flatMap bus_dwords).map
          fun value => ⟨value.setWidth 512, 0xF, true⟩ := by
      rw [Post.calls_eq (h p (by simp)), List.filterMap_map, ← List.filterMap_eq_map]
      congr 1
      funext value
      exact window_beat_poke_event ctrl b.subsystem value
    have htail := ih fun q hq => h q (List.mem_cons_of_mem _ hq)
    unfold post_beats at htail ⊢
    rw [List.flatMap_cons, hhead, htail, List.flatMap_cons, List.flatMap_append, List.map_append]

theorem to_comm_buses {b b' : SdeDmaBuffer} (hinit : sde_dma_init_desc_buffer b = (0, b'))
    {posts : List Post} (h : ∀ p ∈ posts, p.first + p.num ≤ b.num_desc) :
    (posts.flatMap (Post.buses b.subsystem b'.desc)).map (to_comm b.subsystem) =
      driver_descs b posts := by
  unfold sde_dma_init_desc_buffer at hinit
  split at hinit
  · cases hinit
  split at hinit
  · cases hinit
  next buffers hbuf =>
    cases hinit
    rw [List.map_flatMap]
    unfold driver_descs
    apply List.flatMap_congr
    intro p hp
    rw [Post.buses, List.map_map]
    apply List.map_congr_left
    intro i hi
    have hring := h p hp
    have hi' := List.mem_range.mp hi
    exact to_comm_desc_bus rfl hbuf (by omega)

section Accumulator

variable {START_ADDR : BitVec 14} {dw : Nat} {ins : Nat → PsAccIn} {values : List (BitVec 32)}

theorem single_of_taken
    (h : ∀ n, (PsAcc.circuit START_ADDR dw).passed ins taken n <+:
      values.map fun value => ⟨value.setWidth 512, 0xF, true⟩) (n : Nat) :
    PsAcc.Single (ins n) ((PsAcc.circuit START_ADDR dw).state ins n) := by
  intro hvalid hready
  have hmem : (ins n).pcis_w ∈ (PsAcc.circuit START_ADDR dw).passed ins taken (n + 1) := by
    rw [Circuit.passed_succ]
    simp [taken, hvalid, hready]
  obtain ⟨value, -, hvalue⟩ := List.mem_map.mp ((h (n + 1)).subset hmem)
  rw [← hvalue]

theorem accepted_eq_taken (n : Nat) :
    (PsAcc.circuit START_ADDR dw).passed ins PsAcc.accepted n =
      ((PsAcc.circuit START_ADDR dw).passed ins taken n).map fun w => w.data.setWidth 32 := by
  rw [Circuit.passed_map]
  congr 1
  funext i s
  unfold taken PsAcc.accepted fire
  split <;> rfl

theorem map_beat_data :
    (values.map fun value => (⟨value.setWidth 512, 0xF, true⟩ : WBeat)).map
      (fun w => w.data.setWidth 32) = values := by
  rw [List.map_map]
  conv => rhs; rw [← List.map_id values]
  apply List.map_congr_left
  intro value _
  simp

end Accumulator

theorem init_desc_buffer_frame {b b' : SdeDmaBuffer} (hinit : sde_dma_init_desc_buffer b = (0, b')) :
    b'.subsystem = b.subsystem ∧ b'.num_desc = b.num_desc := by
  unfold sde_dma_init_desc_buffer at hinit
  split at hinit
  · cases hinit
  split at hinit
  · cases hinit
  · cases hinit
    exact ⟨rfl, rfl⟩

/-- What the driver describes in its ring and posts in any order is what the data mover gets, in
that order: out of the accumulator and the conversions, and, as long as there is credit, out of
`sde_desc` too, where it can be popped three cycles after it came. -/
theorem descriptors_reach {b b' : SdeDmaBuffer} (hinit : sde_dma_init_desc_buffer b = (0, b'))
    {ctrl : SdeHwCtrl} {posts : List Post} (hposts : ∀ p ∈ posts, p.Done ctrl b')
    {START_ADDR : BitVec 14} {ins : Nat → PsAccIn}
    (hbeats : ∀ n, (PsAcc.circuit START_ADDR (desc_dw b.subsystem)).passed ins taken n <+:
      post_beats b.subsystem posts) :
    (∀ n, ((PsAcc.circuit START_ADDR (desc_dw b.subsystem)).passed ins PsAcc.handed n).map
      (to_comm b.subsystem) <+: driver_descs b posts) ∧
    ((∃ n, (PsAcc.circuit START_ADDR (desc_dw b.subsystem)).passed ins taken n =
        post_beats b.subsystem posts) →
      (∀ n, ∃ m, n ≤ m ∧ (ins m).acc_ack) →
      ∃ N, ∀ n, N ≤ n →
        ((PsAcc.circuit START_ADDR (desc_dw b.subsystem)).passed ins PsAcc.handed n).map
          (to_comm b.subsystem) = driver_descs b posts) ∧
    ∀ (DEPTH : Nat) (hpos : 0 < DEPTH) (hfits : DEPTH < 2 ^ 32)
      (desc_ins : Nat → DescIn (reg_format b.subsystem)),
      let q : DescParams := ⟨reg_format b.subsystem, DEPTH, hpos, hfits⟩
      (∀ n, SdeDesc.May (p := q) (desc_ins n) ((SdeDesc.circuit q).state desc_ins n)) →
      (∀ n, (desc_ins n).cfg_desc_ram_wr_req = false) →
      (∀ n, ∃ m, (SdeDesc.circuit q).passed desc_ins SdeDesc.pushed n <+:
        ((PsAcc.circuit START_ADDR (desc_dw b.subsystem)).passed ins PsAcc.handed m).map
          (of_bits b.subsystem)) →
      ∀ n, (SdeDesc.circuit q).passed desc_ins SdeDesc.popped n <+: driver_descs b posts ∧
        (((SdeDesc.circuit q).passed desc_ins SdeDesc.popped (n + 3)).length <
            ((SdeDesc.circuit q).passed desc_ins SdeDesc.pushed n).length →
          SdeDesc.desc_dm_desc_valid ((SdeDesc.circuit q).state desc_ins (n + 3))) := by
  obtain ⟨hsub, hnum⟩ := init_desc_buffer_frame hinit
  have hdw := desc_dw_pos b.subsystem
  have hring : ∀ p ∈ posts, p.first + p.num ≤ b.num_desc := fun p hp => hnum ▸ (hposts p hp).in_ring
  have hpost := post_beats_eq hposts
  rw [hsub] at hpost
  rw [hpost] at hbeats ⊢
  have hcomm := to_comm_buses hinit hring
  have hsingle := single_of_taken hbeats
  have hhanded : ∀ n, ((PsAcc.circuit START_ADDR (desc_dw b.subsystem)).passed ins PsAcc.handed n).map
      (to_comm b.subsystem) <+: driver_descs b posts := by
    intro n
    rw [← hcomm]
    refine List.IsPrefix.map _ (PsAcc.handed_prefix hdw hsingle ?_)
    have hmap := (hbeats n).map fun w => w.data.setWidth 32
    rw [← accepted_eq_taken, map_beat_data] at hmap
    exact hmap
  refine ⟨hhanded, ?_, ?_⟩
  · rintro ⟨k, hk⟩ hack
    have haccepted : ∀ n, k ≤ n →
        (PsAcc.circuit START_ADDR (desc_dw b.subsystem)).passed ins PsAcc.accepted n =
          (posts.flatMap (Post.buses b.subsystem b'.desc)).flatMap bus_dwords := by
      intro n hn
      have hall := (hbeats n).eq_of_length
        (Nat.le_antisymm (hbeats n).length_le (hk ▸ (Circuit.passed_prefix hn).length_le))
      rw [accepted_eq_taken, hall, map_beat_data]
    obtain ⟨N, hN⟩ := PsAcc.handed_of_accepted hdw hsingle haccepted hack
    exact ⟨N, fun n hn => by rw [hN n hn, hcomm]⟩
  · intro DEPTH hpos hfits desc_ins q hmay hcfg hpush n
    refine ⟨?_, SdeDesc.valid_of_pushed (p := q) hmay⟩
    obtain ⟨m, hm⟩ := hpush n
    have horder := SdeDesc.order_state (p := q) hmay hcfg n
    have hpopped := List.prefix_append ((SdeDesc.circuit q).passed desc_ins SdeDesc.popped n)
      (SdeDesc.waiting ((SdeDesc.circuit q).state desc_ins n))
    have hmap := hm.map (reg_format b.subsystem).cnv_desc_to_comm
    rw [List.map_map] at hmap
    have hkept : (reg_format b.subsystem).cnv_desc_to_comm ∘ of_bits b.subsystem =
        to_comm b.subsystem := by
      funext bus
      exact ((reg_format b.subsystem).kept _).symm
    rw [hkept] at hmap
    rw [← horder] at hpopped
    exact (hpopped.trans hmap).trans (hhanded m)

theorem post_dwords_runs {ctrl : SdeHwCtrl} {s : SdeSubsystem} (desc : Nat → BitVec 32)
    (left index : Nat) :
    (post_dwords ctrl.bar4_handle (DESC_RAM_MAP_OFFSET s) desc left index).Runs
      ((List.range left).map fun k => poke_event ctrl s (desc (index + k))) 0 := by
  induction left generalizing index with
  | zero => exact ⟨rfl, rfl⟩
  | succ left ih =>
    rw [List.range_succ_eq_map, List.map_cons, List.map_map]
    refine (runs_poke _ _ _ _ _ _).mpr ⟨(0 : Int), _, rfl, ?_⟩
    have hrest := ih (index + 1)
    rw [if_neg (by decide)]
    convert hrest using 2
    funext k
    rw [Function.comp_apply, Nat.succ_eq_add_one, Nat.add_assoc, Nat.add_comm 1 k]

def hw_one : SdeHwCtrl := ⟨0, 0, 1, 2, true⟩

/-- A post in which no write fails. -/
def post_of (b : SdeDmaBuffer) (first num : Nat) : Post where
  first := first
  num := num
  calls := (List.range (num * desc_dw b.subsystem)).map fun k =>
    poke_event hw_one b.subsystem (b.desc (first * desc_dw b.subsystem + k))

theorem post_of_done {b : SdeDmaBuffer} {first num : Nat} (h : first + num ≤ b.num_desc) :
    (post_of b first num).Done hw_one b where
  in_ring := h
  runs := by
    have hruns : (post_dwords hw_one.bar4_handle (DESC_RAM_MAP_OFFSET b.subsystem) _ _ 0).Runs _ 0 :=
      post_dwords_runs (fun k => b.desc (first * desc_dw b.subsystem + k))
        (num * desc_dw b.subsystem) 0
    simp only [Nat.zero_add] at hruns
    unfold sde_hw_post_descriptor
    dsimp only
    rw [desc_dw_eq]
    exact hruns

/-- A ring of two H2C descriptors, and bits that were left in the words that the driver changes. -/
def ring_two : SdeDmaBuffer :=
  { SdeDmaBuffer.zero with
    subsystem := .h2c
    buffers := some [⟨0x7000, 0x123456789, 64, 64⟩, ⟨0x8000, 0xABCDEF0123, 4096, 4096⟩]
    num_buffers := 2
    num_desc := 2
    desc_element_size := 32
    desc := fun _ => 0xFFFFFFFF }

def described : SdeDmaBuffer := (sde_dma_init_desc_buffer ring_two).2

/-- Both descriptors in one call, and the second one once more. -/
def two_posts : List Post := [post_of described 0 2, post_of described 1 1]

/-- A beat every three cycles, and acknowledgements that come late. -/
def acc_posts (n : Nat) : PsAccIn where
  pcis_req_wr := true
  pcis_req_addr := 0
  pcis_wvalid := n % 3 = 0 && n < 72
  pcis_w := (post_beats .h2c two_posts).getD (n / 3) ⟨0, 0, false⟩
  acc_ack := n % 3 = 1

def posted_descs : List CommDesc :=
  [⟨0x2222000011110000, false, true, 64, 0x123456789, 0, false, true⟩,
    ⟨0x3333000022220000, false, true, 4096, 0xABCDEF0123, 0, false, true⟩,
    ⟨0x3333000022220000, false, true, 4096, 0xABCDEF0123, 0, false, true⟩]

def desc_64 : DescParams := ⟨reg_format .h2c, 64, SdeDesc.depth_pos, SdeDesc.depth_fits⟩

/-- The same three through `sde_desc`, and pops with a gap. -/
def desc_posts (n : Nat) : DescIn (reg_format .h2c) where
  ps_desc_wr_req := n < 3
  ps_desc_wdata := ([0, 1, 1].map fun i => of_bits .h2c (desc_bus .h2c described.desc i)).getD n
    ⟨0, 0, false, false, 0, 0⟩
  cfg_desc_ram_wr_req := false
  cfg_desc_ram_rd_req := n = 1
  cfg_desc_ram_addr := 1
  cfg_desc_ram_wdata := ⟨0, 0, false, false, 0, 0⟩
  cfg_desc_clr_cdt_limit := false
  cfg_desc_clr_cdt_consumed := false
  dm_desc_pop := n = 4 || n = 6 || n = 7

theorem taken_posts (n : Nat) :
    (PsAcc.circuit 0 8).passed acc_posts taken n <+: post_beats .h2c two_posts := by
  have hshort : ∀ n < 73,
      (PsAcc.circuit 0 8).passed acc_posts taken n <+: post_beats .h2c two_posts := by
    decide +kernel
  by_cases hn : n < 73
  · exact hshort n hn
  · rw [Circuit.passed_eq_of_nil (k := 72) (fun m hm => ?_) n (by omega)]
    · exact hshort 72 (by decide)
    · have hle : ¬m < 72 := by omega
      simp [taken, acc_posts, hle]

theorem desc_posts_may (n : Nat) :
    SdeDesc.May (p := desc_64) (desc_posts n) ((SdeDesc.circuit desc_64).state desc_posts n) := by
  refine ⟨rfl, rfl, fun hwr => ?_, fun hpop => ?_⟩
  · have hall : ∀ n < 4, ((SdeDesc.circuit desc_64).state desc_posts n).ps_desc_wr_req_q →
        ((SdeDesc.circuit desc_64).state desc_posts n).cdt_limit ≠
          ((SdeDesc.circuit desc_64).state desc_posts n).cdt_consumed := by
      decide
    refine hall n ?_ hwr
    by_contra hn
    obtain ⟨k, rfl⟩ : ∃ k, n = k + 1 := ⟨n - 1, by omega⟩
    have hreq : decide (k < 3) = true := hwr
    have hlt := of_decide_eq_true hreq
    omega
  · have hcases : (n = 4 ∨ n = 6) ∨ n = 7 := by simpa [desc_posts] using hpop
    rcases hcases with (rfl | rfl) | rfl <;> decide

theorem desc_posts_pushed (n : Nat) :
    (SdeDesc.circuit desc_64).passed desc_posts SdeDesc.pushed n <+:
      ((PsAcc.circuit 0 (desc_dw .h2c)).passed acc_posts PsAcc.handed 75).map (of_bits .h2c) := by
  have hhanded : (PsAcc.circuit 0 (desc_dw .h2c)).passed acc_posts PsAcc.handed 75 =
      [0, 1, 1].map (desc_bus .h2c described.desc) := by
    decide +kernel
  have hall : (SdeDesc.circuit desc_64).passed desc_posts SdeDesc.pushed 3 =
      ((PsAcc.circuit 0 (desc_dw .h2c)).passed acc_posts PsAcc.handed 75).map (of_bits .h2c) := by
    rw [hhanded]
    rfl
  have hnil : ∀ m, 3 ≤ m → SdeDesc.pushed (p := desc_64) (desc_posts m)
      ((SdeDesc.circuit desc_64).state desc_posts m) = [] := by
    intro m hm
    have hge : ¬m < 3 := by omega
    simp [SdeDesc.pushed, desc_posts, hge]
  have hpushed : (SdeDesc.circuit desc_64).passed desc_posts SdeDesc.pushed n <+:
      (SdeDesc.circuit desc_64).passed desc_posts SdeDesc.pushed 3 := by
    rcases Nat.le_total n 3 with hn | hn
    · exact Circuit.passed_prefix hn
    · rw [Circuit.passed_eq_of_nil hnil n hn]
  rw [hall] at hpushed
  exact hpushed

theorem descriptors_reach_posts :
    (∃ N, ∀ n, N ≤ n →
      ((PsAcc.circuit 0 8).passed acc_posts PsAcc.handed n).map (to_comm .h2c) = posted_descs) ∧
    (∀ n, (SdeDesc.circuit desc_64).passed desc_posts SdeDesc.popped n <+: posted_descs) ∧
    (SdeDesc.circuit desc_64).passed desc_posts SdeDesc.popped 8 = posted_descs := by
  have hposts : ∀ p ∈ two_posts, p.Done hw_one described := by
    intro p hp
    rcases List.mem_cons.mp hp with rfl | hp
    · exact post_of_done (by decide)
    · obtain rfl := List.mem_singleton.mp hp
      exact post_of_done (by decide)
  have hinit : sde_dma_init_desc_buffer ring_two = (0, described) := rfl
  have hreach := descriptors_reach hinit hposts taken_posts
  have hdescs : driver_descs ring_two two_posts = posted_descs := by decide
  rw [hdescs] at hreach
  refine ⟨hreach.2.1 ⟨72, by decide +kernel⟩ fun n => ⟨3 * n + 1, by omega, ?_⟩, fun n => ?_,
    by decide +kernel⟩
  · have hmod : (3 * n + 1) % 3 = 1 := by omega
    simp [acc_posts, hmod]
  · exact (hreach.2.2 64 (by decide) (by decide) desc_posts desc_posts_may (fun _ => rfl)
      (fun n => ⟨75, desc_posts_pushed n⟩) n).1

end AwsFpga.Sde
