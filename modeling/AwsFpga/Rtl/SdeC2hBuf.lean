import AwsFpga.Lib.Axi
import AwsFpga.Rtl.Blocks

/-!
# The packet buffer of C2H (`sde_c2h_buf.sv`)

Beats from AXI-Stream go into a RAM, one row each. For the last beat of a packet a
record goes into a second RAM. The data mover keeps the read address, in bytes,
and is told how many bytes it may read: up to the end of the first packet, or up
to the row to be written when no end is in sight.

`DESC_TYPE` is 0, and a row has 64 bytes.
-/

open Lib Lib.Axi

namespace AwsFpga.Rtl

def PCIM_DATA_WIDTH_BYTES : Nat := 64

theorem width_val : PCIM_DATA_WIDTH_BYTES = 64 := rfl

structure AxisBeat where
  data : BitVec 512
  keep : BitVec 64
  user : BitVec 64
  last : Bool
  deriving DecidableEq

/-- `buf_dm_aux_data`: the user bits, and the address of the last byte of a packet. -/
structure C2hAux where
  user : BitVec 64
  eop_byte_addr : Nat
  deriving DecidableEq

/-- The depths of the two RAMs. The depth of the buffer is 512 unless it is set otherwise. -/
structure C2hBufParams where
  BUF_DEPTH : Nat
  BUF_AUX_FT_FIFO_DEPTH : Nat
  large : 4 < BUF_DEPTH
  aux_pos : 0 < BUF_AUX_FT_FIFO_DEPTH

structure C2hBufIn where
  axis_buf_valid : Bool
  axis_buf : AxisBeat
  dm_buf_aux_pop : Bool
  dm_buf_rd_byte_addr : Nat
  dm_buf_rd : Bool
  dm_buf_addr : Nat

structure C2hBuf where
  buf_wr_ptr : Nat
  buf_full : Bool
  buf_empty : Bool
  buf_rd_ptr_q : Nat
  buf_oflow : Bool
  buf_uflow : Bool
  buf_ram : Nat → BitVec 512
  buf_ram_rdata : BitVec 512
  aux_ptrs : RamPtrs
  aux_ram_oflow : Bool
  aux_fifo_uflow : Bool
  aux_ram : Nat → C2hAux
  aux_ram_rdata : C2hAux
  AUX_FT_FIFO : FtFifo C2hAux
  buf_wr_ptr_q : Nat
  buf_wr_ptr_qq : Nat

namespace C2hBuf

variable (p : C2hBufParams) (i : C2hBufIn) (s : C2hBuf)

/-! ## The wires -/

def buf_wr_ptr_next : Nat := if p.BUF_DEPTH - 1 ≤ s.buf_wr_ptr then 0 else s.buf_wr_ptr + 1

def buf_rd_ptr : Nat := i.dm_buf_rd_byte_addr / PCIM_DATA_WIDTH_BYTES

def buf_axis_ready : Bool := !s.buf_full && !s.aux_ptrs.full

def buf_write_en : Bool := i.axis_buf_valid && !s.buf_full && !s.aux_ptrs.full

/-- The loop over `byte_idx`: the last byte that is kept. -/
def wr_last_byte_addr (keep : BitVec 64) : Nat :=
  (List.range PCIM_DATA_WIDTH_BYTES).foldl
    (fun addr byte_idx => if keep.getLsbD byte_idx then byte_idx else addr) 0

def aux_ram_wr : Bool := buf_write_en i s && i.axis_buf.last

/-- `{buf_wr_ptr, wr_last_byte_addr}` with the user bits. -/
def aux_ram_wdata : C2hAux :=
  ⟨i.axis_buf.user,
    s.buf_wr_ptr * PCIM_DATA_WIDTH_BYTES + wr_last_byte_addr i.axis_buf.keep⟩

def buf_dm_aux_valid : Bool := s.AUX_FT_FIFO.ft_valid

/-- It matters only while `buf_dm_aux_valid` is set. -/
def buf_dm_aux_data : C2hAux := s.AUX_FT_FIFO.ft0.getD ⟨0, 0⟩

def aux_ram_pop : Bool := s.AUX_FT_FIFO.ram_pop s.aux_ptrs.empty i.dm_buf_aux_pop

/-! ### The number of bytes -/

def BUF_SIZE_BYTES : Nat := p.BUF_DEPTH * PCIM_DATA_WIDTH_BYTES

def buf_wr_byte_addr : Nat := s.buf_wr_ptr_qq * PCIM_DATA_WIDTH_BYTES

/-- How far `to` is ahead. No sum needs more than the `BUF_ADDR_WIDTH + 1` bits it has. -/
def byte_addr_diff (wraps : Bool) (to_addr from_addr : Nat) : Nat :=
  if wraps then BUF_SIZE_BYTES p + to_addr - from_addr else to_addr - from_addr

def num_bytes_no_eop : Nat :=
  if !s.buf_full && buf_wr_byte_addr s = i.dm_buf_rd_byte_addr then 0
  else
    byte_addr_diff p (buf_wr_byte_addr s ≤ i.dm_buf_rd_byte_addr) (buf_wr_byte_addr s)
      i.dm_buf_rd_byte_addr

def num_bytes_eop : Nat :=
  byte_addr_diff p ((buf_dm_aux_data s).eop_byte_addr < i.dm_buf_rd_byte_addr)
    (buf_dm_aux_data s).eop_byte_addr i.dm_buf_rd_byte_addr + 1

def buf_dm_num_bytes : Nat :=
  if buf_dm_aux_valid s then num_bytes_eop p i s else num_bytes_no_eop p i s

/-! ## The registers -/

def step : C2hBuf where
  buf_wr_ptr := if buf_write_en i s then buf_wr_ptr_next p s else s.buf_wr_ptr
  buf_full :=
    if buf_write_en i s then buf_wr_ptr_next p s = buf_rd_ptr i
    else if s.buf_full && s.buf_wr_ptr ≠ buf_rd_ptr i then false
    else s.buf_full
  buf_empty :=
    if !buf_write_en i s && !s.buf_full && s.buf_wr_ptr = buf_rd_ptr i then true
    else if buf_write_en i s then false
    else s.buf_empty
  buf_rd_ptr_q := buf_rd_ptr i
  buf_oflow := s.buf_full && buf_write_en i s
  buf_uflow := s.buf_empty && s.buf_rd_ptr_q ≠ buf_rd_ptr i
  buf_ram :=
    if buf_write_en i s then Function.update s.buf_ram s.buf_wr_ptr i.axis_buf.data else s.buf_ram
  buf_ram_rdata := if i.dm_buf_rd then s.buf_ram i.dm_buf_addr else s.buf_ram_rdata
  aux_ptrs := s.aux_ptrs.step p.BUF_AUX_FT_FIFO_DEPTH (aux_ram_wr i s) (aux_ram_pop i s)
  aux_ram_oflow := s.aux_ptrs.full && aux_ram_wr i s
  aux_fifo_uflow := !buf_dm_aux_valid s && i.dm_buf_aux_pop
  aux_ram := RamPtrs.write (aux_ram_wr i s) s.aux_ptrs s.aux_ram (aux_ram_wdata i s)
  aux_ram_rdata := if aux_ram_pop i s then s.aux_ram s.aux_ptrs.rd_ptr.idx else s.aux_ram_rdata
  AUX_FT_FIFO := s.AUX_FT_FIFO.step s.aux_ptrs.empty s.aux_ram_rdata i.dm_buf_aux_pop
  buf_wr_ptr_q := s.buf_wr_ptr
  buf_wr_ptr_qq := s.buf_wr_ptr_q

def circuit : Circuit C2hBufIn C2hBuf where
  reset :=
    { buf_wr_ptr := 0, buf_full := false, buf_empty := false, buf_rd_ptr_q := 0
      buf_oflow := false, buf_uflow := false
      buf_ram := fun _ => 0, buf_ram_rdata := 0
      aux_ptrs := .start, aux_ram_oflow := false, aux_fifo_uflow := false
      aux_ram := fun _ => ⟨0, 0⟩, aux_ram_rdata := ⟨0, 0⟩
      AUX_FT_FIFO := .start
      buf_wr_ptr_q := 0, buf_wr_ptr_qq := 0 }
  step := step p

/-! ## The stream -/

def accepted : List AxisBeat := fire i.axis_buf_valid (buf_axis_ready s) i.axis_buf

/-- The bytes of a beat. -/
def bytes (b : AxisBeat) : Nat := (List.range PCIM_DATA_WIDTH_BYTES).countP b.keep.getLsbD

/-- A beat of a packet: its bytes are the first of the beat, and only the last may have fewer. -/
def Packed (b : AxisBeat) : Prop :=
  0 < bytes b ∧ (∀ k < PCIM_DATA_WIDTH_BYTES, b.keep.getLsbD k = decide (k < bytes b)) ∧
    (b.last = false → bytes b = PCIM_DATA_WIDTH_BYTES)

/-- The bytes that the beats hold from `offset` on, up to and including the first end of a packet. -/
def unread : List AxisBeat → (offset : Nat) → Nat
  | [], _ => 0
  | b :: beats, offset => bytes b - offset + if b.last then 0 else unread beats 0

/-- The records of the packets that end in some beats, the first of which goes to row `row`. -/
def ends (depth : Nat) : (row : Nat) → List AxisBeat → List C2hAux
  | _, [] => []
  | row, b :: beats =>
    if b.last then
      ⟨b.user, row % depth * PCIM_DATA_WIDTH_BYTES + (bytes b - 1)⟩ :: ends depth (row + 1) beats
    else
      ends depth (row + 1) beats

/-! ## Beats and their bytes -/

theorem bytes_le (b : AxisBeat) : bytes b ≤ PCIM_DATA_WIDTH_BYTES := by
  have h := List.countP_le_length (p := b.keep.getLsbD) (l := List.range PCIM_DATA_WIDTH_BYTES)
  rwa [List.length_range] at h

theorem last_byte_fold {keep : BitVec 64} {c : Nat}
    (h : ∀ k < PCIM_DATA_WIDTH_BYTES, keep.getLsbD k = decide (k < c)) {m : Nat}
    (hm : m ≤ PCIM_DATA_WIDTH_BYTES) :
    (List.range m).foldl (fun addr byte_idx => if keep.getLsbD byte_idx then byte_idx else addr) 0 =
      min m c - 1 := by
  induction m with
  | zero => simp
  | succ m ih =>
    rw [List.range_succ, List.foldl_append, ih (by omega), List.foldl_cons, List.foldl_nil,
      h m (by omega)]
    by_cases hlt : m < c
    · rw [decide_eq_true hlt, if_pos rfl]
      omega
    · rw [decide_eq_false hlt, if_neg Bool.false_ne_true]
      omega

theorem wr_last_byte_addr_eq {b : AxisBeat} (h : Packed b) :
    wr_last_byte_addr b.keep = bytes b - 1 := by
  have hle := bytes_le b
  unfold wr_last_byte_addr
  rw [last_byte_fold h.2.1 (Nat.le_refl _)]
  omega

/-! ## Ends of packets -/

section Ends

variable {depth row : Nat} {l l' : List AxisBeat}

theorem ends_append :
    ends depth row (l ++ l') = ends depth row l ++ ends depth (row + l.length) l' := by
  induction l generalizing row with
  | nil => simp [ends]
  | cons b l ih =>
    have hrow : row + (b :: l).length = row + 1 + l.length := by
      rw [List.length_cons]
      omega
    rw [hrow]
    simp only [List.cons_append, ends]
    split
    · rw [ih, List.cons_append]
    · rw [ih]

theorem ends_length : (ends depth row l).length = l.countP AxisBeat.last := by
  induction l generalizing row with
  | nil => rfl
  | cons b l ih =>
    rw [List.countP_cons, ends]
    split
    · rw [List.length_cons, ih]
    · rw [ih]
      rfl

theorem ends_drop {k : Nat} (hk : k ≤ l.length) :
    (ends depth row l).drop ((l.take k).countP AxisBeat.last) = ends depth (row + k) (l.drop k) := by
  have hlen : (l.take k).length = k := by rw [List.length_take, Nat.min_eq_left hk]
  have hsplit : ends depth row l = ends depth row (l.take k) ++ ends depth (row + k) (l.drop k) := by
    conv => lhs; rw [← List.take_append_drop k l, ends_append, hlen]
  rw [hsplit]
  exact List.drop_left' ends_length

theorem ends_head {a : C2hAux} (h : (ends depth row l).head? = some a) :
    ∃ pre b post, l = pre ++ b :: post ∧ (∀ x ∈ pre, x.last = false) ∧ b.last = true ∧
      a = ⟨b.user, (row + pre.length) % depth * PCIM_DATA_WIDTH_BYTES + (bytes b - 1)⟩ := by
  induction l generalizing row with
  | nil => cases h
  | cons b l ih =>
    rw [ends] at h
    split at h
    case isTrue hlast =>
      refine ⟨[], b, l, rfl, by simp, hlast, ?_⟩
      simpa using h.symm
    case isFalse hlast =>
      obtain ⟨pre, b', post, rfl, hpre, hlast', ha⟩ := ih h
      refine ⟨b :: pre, b', post, rfl, ?_, hlast', ?_⟩
      · intro x hx
        rcases List.mem_cons.mp hx with rfl | hx
        · exact eq_false_of_ne_true hlast
        · exact hpre x hx
      · rw [ha, List.length_cons, show row + (pre.length + 1) = row + 1 + pre.length by omega]

theorem unread_append {pre : List AxisBeat} (hpre : ∀ x ∈ pre, x.last = false)
    (hpacked : ∀ x ∈ pre, Packed x) (offset : Nat) :
    PCIM_DATA_WIDTH_BYTES * pre.length + unread l 0 ≤ offset + unread (pre ++ l) offset ∨
      pre = [] := by
  induction pre generalizing offset with
  | nil => exact .inr rfl
  | cons b pre ih =>
    left
    have hlast := hpre b (by simp)
    have hfull := (hpacked b (by simp)).2.2 hlast
    have hrest : PCIM_DATA_WIDTH_BYTES * pre.length + unread l 0 ≤ unread (pre ++ l) 0 := by
      rcases ih (fun x hx => hpre x (by simp [hx])) (fun x hx => hpacked x (by simp [hx])) 0 with
        h | rfl
      · omega
      · simp
    rw [List.cons_append, unread, hlast, if_neg Bool.false_ne_true, List.length_cons, Nat.mul_succ]
    omega

theorem unread_to_end {pre post : List AxisBeat} {b : AxisBeat} (hpre : ∀ x ∈ pre, x.last = false)
    (hpacked : ∀ x ∈ pre, Packed x) (hlast : b.last = true) (offset : Nat) :
    PCIM_DATA_WIDTH_BYTES * pre.length + bytes b - offset ≤ unread (pre ++ b :: post) offset := by
  rcases unread_append (l := b :: post) hpre hpacked offset with h | rfl
  · have hend : unread (b :: post) 0 = bytes b := by rw [unread, hlast, if_pos rfl, Nat.sub_zero]; rfl
    omega
  · simp [unread, hlast]

theorem unread_no_end {pre : List AxisBeat} (hpre : ∀ x ∈ pre, x.last = false)
    (hpacked : ∀ x ∈ pre, Packed x) (offset : Nat) :
    PCIM_DATA_WIDTH_BYTES * pre.length - offset ≤ unread (pre ++ l) offset := by
  rcases unread_append (l := l) hpre hpacked offset with h | rfl
  · omega
  · simp

end Ends

/-! ## Addresses that wrap -/

theorem add_mod_cases {size d : Nat} (a : Nat) (hd : d < size) :
    a % size + d < size ∧ (a + d) % size = a % size + d ∨
      size ≤ a % size + d ∧ (a + d) % size + size = a % size + d := by
  have hlt := Nat.mod_lt a (by omega : 0 < size)
  have hmod : (a + d) % size = (a % size + d) % size := by rw [Nat.mod_add_mod]
  by_cases h : a % size + d < size
  · exact .inl ⟨h, by rw [hmod, Nat.mod_eq_of_lt h]⟩
  · refine .inr ⟨by omega, ?_⟩
    rw [hmod, Nat.mod_eq_sub_mod (by omega), Nat.mod_eq_of_lt (by omega)]
    omega

theorem byte_addr_diff_mod {p : C2hBufParams} {a d : Nat} (hd : d < BUF_SIZE_BYTES p) :
    byte_addr_diff p ((a + d) % BUF_SIZE_BYTES p < a % BUF_SIZE_BYTES p) ((a + d) % BUF_SIZE_BYTES p)
      (a % BUF_SIZE_BYTES p) = d := by
  unfold byte_addr_diff
  rcases add_mod_cases a hd with ⟨hlt, heq⟩ | ⟨hge, heq⟩
  · rw [heq, if_neg (by simp)]
    omega
  · rw [if_pos (by simp; omega)]
    omega

theorem row_addr (depth row lane : Nat) (hlane : lane < PCIM_DATA_WIDTH_BYTES) :
    row % depth * PCIM_DATA_WIDTH_BYTES + lane =
      (PCIM_DATA_WIDTH_BYTES * row + lane) % (depth * PCIM_DATA_WIDTH_BYTES) := by
  have hdiv : (PCIM_DATA_WIDTH_BYTES * row + lane) / PCIM_DATA_WIDTH_BYTES = row := by
    rw [Nat.mul_add_div (by decide), Nat.div_eq_of_lt hlane, Nat.add_zero]
  rw [Nat.mul_comm depth, Nat.mod_mul, hdiv, Nat.mul_add_mod, Nat.mod_eq_of_lt hlane, Nat.mul_comm,
    Nat.add_comm]

/-! ## Moves of the data mover -/

variable (i : C2hBufIn) (s : C2hBuf) in
/-- How the data mover may change the read address. A beat moves it by at most 64 bytes, and not
further than was reported. Where a packet ends, the record is popped and the address goes to the next
row. -/
inductive Move (p : C2hBufParams) : (next : Nat) → Prop
  | ahead (d : Nat) (beat : d ≤ PCIM_DATA_WIDTH_BYTES) (reported : d ≤ buf_dm_num_bytes p i s)
      (inside : buf_dm_aux_valid s → d < buf_dm_num_bytes p i s)
      (no_pop : i.dm_buf_aux_pop = false) :
      Move p ((i.dm_buf_rd_byte_addr + d) % BUF_SIZE_BYTES p)
  | over (valid : buf_dm_aux_valid s) (beat : buf_dm_num_bytes p i s ≤ PCIM_DATA_WIDTH_BYTES)
      (pop : i.dm_buf_aux_pop = true) :
      Move p (((buf_dm_aux_data s).eop_byte_addr / PCIM_DATA_WIDTH_BYTES + 1) % p.BUF_DEPTH *
        PCIM_DATA_WIDTH_BYTES)

/-! ## One cycle -/

/-- The registers, when `beats` were accepted before this cycle, `bq` and `bqq` one and two cycles
before, and the read address is `r`, and was in row `rq` in the cycle before. -/
structure Track (p : C2hBufParams) (s : C2hBuf) (beats bq bqq : List AxisBeat) (rq r : Nat) : Prop where
  recent : bq <+: beats ∧ beats.length ≤ bq.length + 1
  recent_q : bqq <+: bq ∧ bq.length ≤ bqq.length + 1
  packed : ∀ b ∈ beats, Packed b
  buf_wr_ptr : s.buf_wr_ptr = beats.length % p.BUF_DEPTH
  buf_wr_ptr_q : s.buf_wr_ptr_q = bq.length % p.BUF_DEPTH
  buf_wr_ptr_qq : s.buf_wr_ptr_qq = bqq.length % p.BUF_DEPTH
  /-- Only what is in the pointers of two cycles before was read. -/
  read : r ≤ PCIM_DATA_WIDTH_BYTES * bqq.length
  rows : rq ≤ r / PCIM_DATA_WIDTH_BYTES ∧ r / PCIM_DATA_WIDTH_BYTES ≤ rq + 2
  /-- The address stands on a byte of the packet. -/
  on_byte : ∀ b, beats[r / PCIM_DATA_WIDTH_BYTES]? = some b → r % PCIM_DATA_WIDTH_BYTES < bytes b
  space : beats.length ≤ rq + p.BUF_DEPTH
  full : s.buf_full = decide (beats.length = rq + p.BUF_DEPTH)
  ram : ∀ k b, r / PCIM_DATA_WIDTH_BYTES ≤ k → beats[k]? = some b →
    s.buf_ram (k % p.BUF_DEPTH) = b.data
  AUX_FT_FIFO : s.AUX_FT_FIFO.Ok
  aux_ptrs : s.aux_ptrs.Ok p.BUF_AUX_FT_FIFO_DEPTH
  held : RamFifo.held p.BUF_AUX_FT_FIFO_DEPTH s.aux_ram s.aux_ram_rdata s.aux_ptrs s.AUX_FT_FIFO =
    (ends p.BUF_DEPTH 0 beats).drop
      ((beats.take (r / PCIM_DATA_WIDTH_BYTES)).countP AxisBeat.last)

/-- The delay of the records: from a write to the FIFO behind the RAM it takes as long as from the
write pointer to its copy. -/
def Delay (s : C2hBuf) (beats bq bqq : List AxisBeat) (r : Nat) : Prop :=
  s.AUX_FT_FIFO.Delay ((beats.take (r / PCIM_DATA_WIDTH_BYTES)).countP AxisBeat.last)
    (bq.countP AxisBeat.last) (bqq.countP AxisBeat.last)

variable {p : C2hBufParams} {i : C2hBufIn} {s : C2hBuf} {beats bq bqq : List AxisBeat} {rq r : Nat}

/-! ## What is reported -/

theorem read_rows (h : Track p s beats bq bqq rq r) :
    r / PCIM_DATA_WIDTH_BYTES ≤ bqq.length ∧ bqq.length ≤ bq.length ∧ bq.length ≤ beats.length ∧
      beats.length ≤ bqq.length + 2 := by
  have hread := h.read
  have hq := h.recent.1.length_le
  have hqq := h.recent_q.1.length_le
  have hq' := h.recent.2
  have hqq' := h.recent_q.2
  rw [width_val] at hread ⊢
  omega

theorem take_bqq (h : Track p s beats bq bqq rq r) : beats.take bqq.length = bqq :=
  (List.prefix_iff_eq_take.mp (h.recent_q.1.trans h.recent.1)).symm

theorem drop_split (h : Track p s beats bq bqq rq r) :
    beats.drop (r / PCIM_DATA_WIDTH_BYTES) =
      bqq.drop (r / PCIM_DATA_WIDTH_BYTES) ++ beats.drop bqq.length := by
  have hrows := read_rows h
  conv => lhs; rw [← List.take_append_drop bqq.length beats]
  rw [List.drop_append_of_le_length, take_bqq h]
  rw [List.length_take]
  omega

theorem take_row (h : Track p s beats bq bqq rq r) :
    beats.take (r / PCIM_DATA_WIDTH_BYTES) = bqq.take (r / PCIM_DATA_WIDTH_BYTES) := by
  have hrows := read_rows h
  conv => rhs; rw [← take_bqq h]
  rw [List.take_take, Nat.min_eq_left hrows.1]

/-- Without a record, no packet ends in what was written two cycles before. -/
theorem no_end_of_starved (h : Track p s beats bq bqq rq r)
    (hd : Delay s beats bq bqq r)
    (hnone : s.AUX_FT_FIFO.ft0 = none) :
    ∀ b ∈ bqq.drop (r / PCIM_DATA_WIDTH_BYTES), b.last = false := by
  have hcount := hd.starved hnone
  have hsplit := congrArg (List.countP AxisBeat.last)
    (List.take_append_drop (r / PCIM_DATA_WIDTH_BYTES) bqq)
  rw [List.countP_append, ← take_row h] at hsplit
  have hzero : (bqq.drop (r / PCIM_DATA_WIDTH_BYTES)).countP AxisBeat.last = 0 := by omega
  intro b hb
  exact eq_false_of_ne_true (List.countP_eq_zero.mp hzero b hb)

/-- A record that is shown is that of the first end, which was written two cycles before. -/
theorem end_of_valid (h : Track p s beats bq bqq rq r)
    (hd : Delay s beats bq bqq r)
    (hvalid : buf_dm_aux_valid s) :
    ∃ pre b post, beats.drop (r / PCIM_DATA_WIDTH_BYTES) = pre ++ b :: post ∧
      (∀ x ∈ pre, x.last = false) ∧ b.last = true ∧
      r / PCIM_DATA_WIDTH_BYTES + pre.length < bqq.length ∧
      buf_dm_aux_data s = ⟨b.user,
        (r / PCIM_DATA_WIDTH_BYTES + pre.length) % p.BUF_DEPTH * PCIM_DATA_WIDTH_BYTES +
          (bytes b - 1)⟩ := by
  have hrows := read_rows h
  obtain ⟨a, ha⟩ := Option.isSome_iff_exists.mp hvalid
  have hlist : (ends p.BUF_DEPTH 0 beats).drop
      ((beats.take (r / PCIM_DATA_WIDTH_BYTES)).countP AxisBeat.last) =
        ends p.BUF_DEPTH (0 + r / PCIM_DATA_WIDTH_BYTES) (beats.drop (r / PCIM_DATA_WIDTH_BYTES)) :=
    ends_drop (by omega)
  rw [Nat.zero_add] at hlist
  have hhead : (ends p.BUF_DEPTH (r / PCIM_DATA_WIDTH_BYTES)
      (beats.drop (r / PCIM_DATA_WIDTH_BYTES))).head? = some a := by
    rw [← hlist, ← h.held, RamFifo.held, FtFifo.flops, ha]
    rfl
  obtain ⟨pre, b, post, hdrop, hpre, hlast, hrec⟩ := ends_head hhead
  refine ⟨pre, b, post, hdrop, hpre, hlast, ?_, ?_⟩
  · by_contra hge
    have hshort : bqq.length - r / PCIM_DATA_WIDTH_BYTES ≤ pre.length := by omega
    have hno : (bqq.drop (r / PCIM_DATA_WIDTH_BYTES)).countP AxisBeat.last = 0 := by
      apply List.countP_eq_zero.mpr
      intro x hx
      have hx' : x ∈ (pre ++ b :: post).take (bqq.length - r / PCIM_DATA_WIDTH_BYTES) := by
        rw [← hdrop, drop_split h, List.take_left' (by simp)]
        exact hx
      rw [List.take_append_of_le_length hshort] at hx'
      rw [hpre x (List.mem_of_mem_take hx')]
      simp
    have hsplit := congrArg (List.countP AxisBeat.last)
      (List.take_append_drop (r / PCIM_DATA_WIDTH_BYTES) bqq)
    rw [List.countP_append, ← take_row h, hno] at hsplit
    have hflops := hd.flops
    have hone : 0 < s.AUX_FT_FIFO.flops.length := by
      rw [FtFifo.flops, ha]
      simp
    omega
  · rw [← hrec, buf_dm_aux_data, ha, Option.getD_some]

theorem num_bytes_of_valid (h : Track p s beats bq bqq rq r)
    (haddr : i.dm_buf_rd_byte_addr = r % BUF_SIZE_BYTES p) (hvalid : buf_dm_aux_valid s)
    {pre post : List AxisBeat} {b : AxisBeat}
    (hdrop : beats.drop (r / PCIM_DATA_WIDTH_BYTES) = pre ++ b :: post)
    (hlt : r / PCIM_DATA_WIDTH_BYTES + pre.length < bqq.length)
    (hdata : (buf_dm_aux_data s).eop_byte_addr =
      (r / PCIM_DATA_WIDTH_BYTES + pre.length) % p.BUF_DEPTH * PCIM_DATA_WIDTH_BYTES +
        (bytes b - 1)) :
    r + buf_dm_num_bytes p i s =
      PCIM_DATA_WIDTH_BYTES * (r / PCIM_DATA_WIDTH_BYTES + pre.length) + bytes b := by
  have hget : beats[r / PCIM_DATA_WIDTH_BYTES + pre.length]? = some b := by
    rw [← List.getElem?_drop, hdrop]
    simp
  have hpos := (h.packed b (List.mem_of_getElem? hget)).1
  have hle := bytes_le b
  have hrows := read_rows h
  have hbefore := h.rows
  have hspace := h.space
  have hread :
      r ≤ PCIM_DATA_WIDTH_BYTES * (r / PCIM_DATA_WIDTH_BYTES + pre.length) + (bytes b - 1) := by
    by_cases hzero : pre.length = 0
    · rw [hzero, Nat.add_zero] at hget ⊢
      have hon := h.on_byte b hget
      rw [width_val] at hon ⊢
      omega
    · rw [width_val]
      omega
  obtain ⟨d, hd⟩ := Nat.le.dest hread
  have hsize : d < BUF_SIZE_BYTES p := by
    unfold BUF_SIZE_BYTES
    rw [width_val] at *
    omega
  have hmod : (buf_dm_aux_data s).eop_byte_addr = (r + d) % BUF_SIZE_BYTES p := by
    rw [hdata, row_addr _ _ _ (by omega), hd]
    rfl
  rw [buf_dm_num_bytes, if_pos hvalid, num_bytes_eop, haddr, hmod, byte_addr_diff_mod hsize]
  omega

theorem num_bytes_of_starved (h : Track p s beats bq bqq rq r)
    (haddr : i.dm_buf_rd_byte_addr = r % BUF_SIZE_BYTES p) (hnone : buf_dm_aux_valid s = false) :
    r + buf_dm_num_bytes p i s = PCIM_DATA_WIDTH_BYTES * bqq.length := by
  have hrows := read_rows h
  have hbefore := h.rows
  have hspace := h.space
  have hfull := h.full
  have hlarge := p.large
  obtain ⟨d, hd⟩ := Nat.le.dest h.read
  have hwr : buf_wr_byte_addr s = (r + d) % BUF_SIZE_BYTES p := by
    have hrow := row_addr p.BUF_DEPTH bqq.length 0 (by decide)
    rw [Nat.add_zero, Nat.add_zero] at hrow
    rw [buf_wr_byte_addr, h.buf_wr_ptr_qq, hrow, hd]
    rfl
  have hsize : d ≤ BUF_SIZE_BYTES p := by
    unfold BUF_SIZE_BYTES
    rw [width_val] at *
    omega
  have hnum : num_bytes_no_eop p i s = d := by
    unfold num_bytes_no_eop
    rw [haddr, hwr]
    rcases Nat.eq_or_lt_of_le hsize with hall | hlt
    · -- The buffer is full, and the flag knows it.
      have hset : s.buf_full = true := by
        rw [hfull, decide_eq_true_iff]
        unfold BUF_SIZE_BYTES at hall
        rw [width_val] at *
        omega
      rw [hall, Nat.add_mod_right, hset]
      simp [byte_addr_diff]
    · rcases Nat.eq_zero_or_pos d with rfl | hpos
      · -- All was read, and the flag is not left over.
        have hclear : s.buf_full = false := by
          rw [hfull, decide_eq_false_iff_not]
          rw [width_val] at *
          omega
        rw [Nat.add_zero, hclear]
        simp
      · have hne : (r + d) % BUF_SIZE_BYTES p ≠ r % BUF_SIZE_BYTES p := by
          rcases add_mod_cases r hlt with ⟨-, heq⟩ | ⟨-, heq⟩ <;> omega
        have hle : decide ((r + d) % BUF_SIZE_BYTES p ≤ r % BUF_SIZE_BYTES p) =
            decide ((r + d) % BUF_SIZE_BYTES p < r % BUF_SIZE_BYTES p) := by
          rw [decide_eq_decide]
          omega
        rw [if_neg (by simp [hne]), hle, byte_addr_diff_mod hlt]
  rw [buf_dm_num_bytes, hnone, if_neg Bool.false_ne_true, hnum, hd]

/-! ## The read address moves -/

theorem jump_eq {p : C2hBufParams} {d : Nat} (hd : d < BUF_SIZE_BYTES p) :
    ((r + d) % BUF_SIZE_BYTES p + BUF_SIZE_BYTES p - r % BUF_SIZE_BYTES p) % BUF_SIZE_BYTES p = d := by
  rcases add_mod_cases r hd with ⟨-, heq⟩ | ⟨-, heq⟩
  · rw [heq, show r % BUF_SIZE_BYTES p + d + BUF_SIZE_BYTES p - r % BUF_SIZE_BYTES p =
      d + BUF_SIZE_BYTES p by omega, Nat.add_mod_right, Nat.mod_eq_of_lt hd]
  · rw [show (r + d) % BUF_SIZE_BYTES p + BUF_SIZE_BYTES p - r % BUF_SIZE_BYTES p = d by omega,
      Nat.mod_eq_of_lt hd]

/-- What a move of the read address from `r` to `r'` keeps. -/
structure Moved (p : C2hBufParams) (i : C2hBufIn) (beats bqq : List AxisBeat) (r r' : Nat) : Prop where
  ahead : r ≤ r' ∧ r' < r + BUF_SIZE_BYTES p
  rows : r' / PCIM_DATA_WIDTH_BYTES ≤ r / PCIM_DATA_WIDTH_BYTES + 2
  read : r' ≤ PCIM_DATA_WIDTH_BYTES * bqq.length
  on_byte : r' / PCIM_DATA_WIDTH_BYTES < bqq.length →
    ∀ b, beats[r' / PCIM_DATA_WIDTH_BYTES]? = some b → r' % PCIM_DATA_WIDTH_BYTES < bytes b
  popped : (beats.take (r' / PCIM_DATA_WIDTH_BYTES)).countP AxisBeat.last =
    (beats.take (r / PCIM_DATA_WIDTH_BYTES)).countP AxisBeat.last + i.dm_buf_aux_pop.toNat

theorem lt_size {d : Nat} (hd : d < 2 * PCIM_DATA_WIDTH_BYTES) : d < BUF_SIZE_BYTES p := by
  have hlarge := p.large
  unfold BUF_SIZE_BYTES
  rw [width_val] at *
  omega

theorem count_passed {k : Nat} (hk : r / PCIM_DATA_WIDTH_BYTES ≤ k)
    (hno : ∀ x ∈ (beats.drop (r / PCIM_DATA_WIDTH_BYTES)).take (k - r / PCIM_DATA_WIDTH_BYTES),
      x.last = false) :
    (beats.take k).countP AxisBeat.last =
      (beats.take (r / PCIM_DATA_WIDTH_BYTES)).countP AxisBeat.last := by
  have hsplit := List.take_add (l := beats) (i := r / PCIM_DATA_WIDTH_BYTES)
    (j := k - r / PCIM_DATA_WIDTH_BYTES)
  rw [Nat.add_sub_cancel' hk] at hsplit
  have hzero : ((beats.drop (r / PCIM_DATA_WIDTH_BYTES)).take
      (k - r / PCIM_DATA_WIDTH_BYTES)).countP AxisBeat.last = 0 :=
    List.countP_eq_zero.mpr fun x hx => by simp [hno x hx]
  rw [hsplit, List.countP_append, hzero, Nat.add_zero]

theorem on_byte_of_not_last (h : Track p s beats bq bqq rq r) {k : Nat} {b : AxisBeat}
    (hget : beats[k]? = some b) (hlast : b.last = false) (r' : Nat) :
    r' % PCIM_DATA_WIDTH_BYTES < bytes b := by
  rw [(h.packed b (List.mem_of_getElem? hget)).2.2 hlast]
  exact Nat.mod_lt _ (by decide)

theorem rows_passed {d : Nat} (hd : d ≤ PCIM_DATA_WIDTH_BYTES) :
    r / PCIM_DATA_WIDTH_BYTES ≤ (r + d) / PCIM_DATA_WIDTH_BYTES ∧
      (r + d) / PCIM_DATA_WIDTH_BYTES ≤ r / PCIM_DATA_WIDTH_BYTES + 2 ∧ d < BUF_SIZE_BYTES p := by
  refine ⟨Nat.div_le_div_right (Nat.le_add_right r d), ?_, lt_size ?_⟩
  · rw [width_val] at *
    omega
  · rw [width_val] at *
    omega

theorem moved_inside (h : Track p s beats bq bqq rq r) (hd : Delay s beats bq bqq r)
    (haddr : i.dm_buf_rd_byte_addr = r % BUF_SIZE_BYTES p) {d : Nat}
    (hbeat : d ≤ PCIM_DATA_WIDTH_BYTES) (hvalid : buf_dm_aux_valid s)
    (hinside : d < buf_dm_num_bytes p i s) (hpop : i.dm_buf_aux_pop = false) :
    Moved p i beats bqq r (r + d) := by
  obtain ⟨hrow, hjump, hsize⟩ := @rows_passed p r d hbeat
  obtain ⟨pre, b, post, hdrop, hpre, -, hlt, hdata⟩ := end_of_valid h hd hvalid
  have hnum := num_bytes_of_valid (i := i) h haddr hvalid hdrop hlt (by rw [hdata])
  have hle := bytes_le b
  have hpass : (r + d) / PCIM_DATA_WIDTH_BYTES ≤ r / PCIM_DATA_WIDTH_BYTES + pre.length := by
    rw [width_val] at *
    omega
  refine ⟨⟨by omega, by omega⟩, hjump, by rw [width_val] at *; omega, ?_, ?_⟩
  · intro _ b' hget
    have hgetdrop := hget
    rw [← Nat.add_sub_cancel' hrow, ← List.getElem?_drop, hdrop] at hgetdrop
    by_cases hend : (r + d) / PCIM_DATA_WIDTH_BYTES = r / PCIM_DATA_WIDTH_BYTES + pre.length
    · rw [hend, Nat.add_sub_cancel_left, List.getElem?_append_right (Nat.le_refl _), Nat.sub_self,
        List.getElem?_cons_zero, Option.some.injEq] at hgetdrop
      subst hgetdrop
      rw [width_val] at *
      omega
    · rw [List.getElem?_append_left (by omega)] at hgetdrop
      exact on_byte_of_not_last h hget (hpre b' (List.mem_of_getElem? hgetdrop)) _
  · rw [hpop, Bool.toNat_false, Nat.add_zero]
    refine count_passed hrow fun x hx => ?_
    rw [hdrop, List.take_append_of_le_length (by omega)] at hx
    exact hpre x (List.mem_of_mem_take hx)

theorem moved_starved (h : Track p s beats bq bqq rq r) (hd : Delay s beats bq bqq r)
    (haddr : i.dm_buf_rd_byte_addr = r % BUF_SIZE_BYTES p) {d : Nat}
    (hbeat : d ≤ PCIM_DATA_WIDTH_BYTES) (hvalid : buf_dm_aux_valid s = false)
    (hreported : d ≤ buf_dm_num_bytes p i s) (hpop : i.dm_buf_aux_pop = false) :
    Moved p i beats bqq r (r + d) := by
  obtain ⟨hrow, hjump, hsize⟩ := @rows_passed p r d hbeat
  have hnone : s.AUX_FT_FIFO.ft0 = none := by
    simpa [buf_dm_aux_valid, FtFifo.ft_valid] using hvalid
  have hno := no_end_of_starved h hd hnone
  have hnum := num_bytes_of_starved (i := i) h haddr hvalid
  refine ⟨⟨by omega, by omega⟩, hjump, by omega, ?_, ?_⟩
  · intro hlt b' hget
    refine on_byte_of_not_last h hget (hno b' ?_) _
    have hgetdrop := hget
    rw [← Nat.add_sub_cancel' hrow, ← List.getElem?_drop, drop_split h,
      List.getElem?_append_left (by rw [List.length_drop]; omega)] at hgetdrop
    exact List.mem_of_getElem? hgetdrop
  · rw [hpop, Bool.toNat_false, Nat.add_zero]
    refine count_passed hrow fun x hx => ?_
    have hle : (r + d) / PCIM_DATA_WIDTH_BYTES ≤ bqq.length := by
      rw [width_val] at *
      omega
    rw [drop_split h, List.take_append_of_le_length (by rw [List.length_drop]; omega)] at hx
    exact hno x (List.mem_of_mem_take hx)

theorem moved_ahead (h : Track p s beats bq bqq rq r) (hd : Delay s beats bq bqq r)
    (haddr : i.dm_buf_rd_byte_addr = r % BUF_SIZE_BYTES p) {d : Nat}
    (hbeat : d ≤ PCIM_DATA_WIDTH_BYTES) (hreported : d ≤ buf_dm_num_bytes p i s)
    (hinside : buf_dm_aux_valid s → d < buf_dm_num_bytes p i s) (hpop : i.dm_buf_aux_pop = false) :
    Moved p i beats bqq r (r + d) := by
  cases hvalid : buf_dm_aux_valid s with
  | true => exact moved_inside h hd haddr hbeat hvalid (hinside hvalid) hpop
  | false => exact moved_starved h hd haddr hbeat hvalid hreported hpop

/-- Where the row behind a byte starts. -/
def row_up (x : Nat) : Nat :=
  PCIM_DATA_WIDTH_BYTES * ((x + PCIM_DATA_WIDTH_BYTES - 1) / PCIM_DATA_WIDTH_BYTES)

/-- The record of a packet is popped, and the address goes over its last row. -/
theorem moved_over (h : Track p s beats bq bqq rq r) (hd : Delay s beats bq bqq r)
    (haddr : i.dm_buf_rd_byte_addr = r % BUF_SIZE_BYTES p) (hvalid : buf_dm_aux_valid s)
    (hbeat : buf_dm_num_bytes p i s ≤ PCIM_DATA_WIDTH_BYTES) (hpop : i.dm_buf_aux_pop = true) :
    ((buf_dm_aux_data s).eop_byte_addr / PCIM_DATA_WIDTH_BYTES + 1) % p.BUF_DEPTH *
        PCIM_DATA_WIDTH_BYTES = row_up (r + buf_dm_num_bytes p i s) % BUF_SIZE_BYTES p ∧
      Moved p i beats bqq r (row_up (r + buf_dm_num_bytes p i s)) := by
  obtain ⟨pre, b, post, hdrop, hpre, hlast, hlt, hdata⟩ := end_of_valid h hd hvalid
  have hnum := num_bytes_of_valid (i := i) h haddr hvalid hdrop hlt (by rw [hdata])
  have hget : beats[r / PCIM_DATA_WIDTH_BYTES + pre.length]? = some b := by
    rw [← List.getElem?_drop, hdrop]
    simp
  have hpos := (h.packed b (List.mem_of_getElem? hget)).1
  have hle := bytes_le b
  have hrowdiv : PCIM_DATA_WIDTH_BYTES * (r / PCIM_DATA_WIDTH_BYTES + pre.length + 1) /
      PCIM_DATA_WIDTH_BYTES = r / PCIM_DATA_WIDTH_BYTES + pre.length + 1 :=
    Nat.mul_div_cancel_left _ (by decide)
  have hjump : PCIM_DATA_WIDTH_BYTES * (r / PCIM_DATA_WIDTH_BYTES + pre.length + 1) - r <
      BUF_SIZE_BYTES p := lt_size (by rw [width_val] at *; omega)
  have hup : row_up (r + buf_dm_num_bytes p i s) =
      PCIM_DATA_WIDTH_BYTES * (r / PCIM_DATA_WIDTH_BYTES + pre.length + 1) := by
    unfold row_up
    rw [hnum, width_val] at *
    omega
  rw [hup]
  refine ⟨?_, ⟨by rw [width_val] at *; omega, by rw [width_val] at *; omega⟩, ?_, ?_, ?_, ?_⟩
  · have hrow := row_addr p.BUF_DEPTH (r / PCIM_DATA_WIDTH_BYTES + pre.length + 1) 0 (by decide)
    rw [Nat.add_zero, Nat.add_zero] at hrow
    have hdiv : ((r / PCIM_DATA_WIDTH_BYTES + pre.length) % p.BUF_DEPTH * PCIM_DATA_WIDTH_BYTES +
        (bytes b - 1)) / PCIM_DATA_WIDTH_BYTES =
          (r / PCIM_DATA_WIDTH_BYTES + pre.length) % p.BUF_DEPTH := by
      have hsmall : (bytes b - 1) / PCIM_DATA_WIDTH_BYTES = 0 := Nat.div_eq_of_lt (by omega)
      rw [Nat.mul_comm _ PCIM_DATA_WIDTH_BYTES, Nat.mul_add_div (by decide), hsmall, Nat.add_zero]
    rw [hdata]
    dsimp only
    rw [hdiv, Nat.mod_add_mod, hrow]
    rfl
  · rw [hrowdiv]
    rw [width_val] at *
    omega
  · rw [width_val] at *
    omega
  · intro _ b' hget'
    rw [Nat.mul_mod_right]
    exact (h.packed b' (List.mem_of_getElem? hget')).1
  · rw [hrowdiv, hpop, Bool.toNat_true, Nat.add_assoc, List.take_add, List.countP_append, hdrop]
    have hpre' : pre.countP AxisBeat.last = 0 :=
      List.countP_eq_zero.mpr fun x hx => by simp [hpre x hx]
    have htake : (pre ++ b :: post).take (pre.length + 1) = pre ++ [b] := by
      rw [List.take_append, List.take_of_length_le (by omega)]
      simp
    rw [htake, List.countP_append, hpre', Nat.zero_add, List.countP_cons, hlast]
    simp

theorem moved_of_move (h : Track p s beats bq bqq rq r)
    (hd : Delay s beats bq bqq r)
    (haddr : i.dm_buf_rd_byte_addr = r % BUF_SIZE_BYTES p) {next : Nat} (hmove : Move i s p next) :
    ∃ r', next = r' % BUF_SIZE_BYTES p ∧ Moved p i beats bqq r r' := by
  rcases hmove with ⟨d, hbeat, hreported, hinside, hpop⟩ | ⟨hvalid, hbeat, hpop⟩
  · exact ⟨r + d, by rw [haddr, Nat.mod_add_mod], moved_ahead h hd haddr hbeat hreported hinside hpop⟩
  · exact ⟨_, moved_over h hd haddr hvalid hbeat hpop⟩

/-! ## One cycle of the registers -/

theorem accepted_eq : accepted i s = if buf_write_en i s then [i.axis_buf] else [] := by
  unfold accepted fire buf_write_en buf_axis_ready
  rw [Bool.and_assoc]

theorem accepted_length : (accepted i s).length = (buf_write_en i s).toNat := by
  rw [accepted_eq]
  cases buf_write_en i s <;> rfl

theorem not_full_of_write (hwr : buf_write_en i s) :
    s.buf_full = false ∧ s.aux_ptrs.full = false := by
  unfold buf_write_en at hwr
  simp only [Bool.and_eq_true, Bool.not_eq_true'] at hwr
  exact ⟨hwr.1.2, hwr.2⟩

theorem aux_not_full_of_write (hwr : aux_ram_wr i s) : s.aux_ptrs.full = false := by
  unfold aux_ram_wr at hwr
  rw [Bool.and_eq_true] at hwr
  exact (not_full_of_write hwr.1).2

theorem held_length (h : Track p s beats bq bqq rq r) :
    (beats.take (r / PCIM_DATA_WIDTH_BYTES)).countP AxisBeat.last +
        (s.AUX_FT_FIFO.flops.length + s.AUX_FT_FIFO.ram_pop_q.toNat +
          s.aux_ptrs.count p.BUF_AUX_FT_FIFO_DEPTH) =
      beats.countP AxisBeat.last := by
  have hlen := congrArg List.length h.held
  rw [List.length_drop, ends_length, RamFifo.held, List.length_append, List.length_append,
    RamPtrs.contents_length] at hlen
  have hle : (beats.take (r / PCIM_DATA_WIDTH_BYTES)).countP AxisBeat.last ≤
      beats.countP AxisBeat.last := (List.take_sublist _ _).countP_le
  rw [FtFifo.flight_length] at hlen
  omega

theorem buf_wr_ptr_step (h : Track p s beats bq bqq rq r) :
    (step p i s).buf_wr_ptr = (beats ++ accepted i s).length % p.BUF_DEPTH := by
  have hlarge := p.large
  have hlt := Nat.mod_lt beats.length (by omega : 0 < p.BUF_DEPTH)
  rw [List.length_append, accepted_length]
  change (if buf_write_en i s then buf_wr_ptr_next p s else s.buf_wr_ptr) = _
  cases buf_write_en i s with
  | false => exact h.buf_wr_ptr
  | true =>
    rw [if_pos rfl, buf_wr_ptr_next, h.buf_wr_ptr, Bool.toNat_true]
    rcases add_mod_cases beats.length (by omega : 1 < p.BUF_DEPTH) with ⟨hno, heq⟩ | ⟨hwrap, heq⟩
    · rw [heq, if_neg (by omega)]
    · rw [if_pos (by omega)]
      omega

theorem rd_ptr_eq (haddr : i.dm_buf_rd_byte_addr = r % BUF_SIZE_BYTES p) :
    buf_rd_ptr i = r / PCIM_DATA_WIDTH_BYTES % p.BUF_DEPTH := by
  rw [buf_rd_ptr, haddr, BUF_SIZE_BYTES, Nat.mul_comm, Nat.mod_mul_right_div_self]

theorem same_cell {depth a d : Nat} (hpos : 0 < depth) (hd : d ≤ depth) :
    (a + d) % depth = a % depth ↔ d = 0 ∨ d = depth := by
  rcases Nat.eq_or_lt_of_le hd with rfl | hlt
  · simp
  · have hmod := Nat.mod_lt a hpos
    rcases add_mod_cases a hlt with ⟨-, heq⟩ | ⟨hge, heq⟩ <;> omega

theorem buf_full_step (h : Track p s beats bq bqq rq r)
    (haddr : i.dm_buf_rd_byte_addr = r % BUF_SIZE_BYTES p) :
    (step p i s).buf_full =
      decide ((beats ++ accepted i s).length = r / PCIM_DATA_WIDTH_BYTES + p.BUF_DEPTH) := by
  have hlarge := p.large
  have hrows := read_rows h
  have hbefore := h.rows
  have hspace := h.space
  have hptr := buf_wr_ptr_step (i := i) h
  have hfull := h.full
  obtain ⟨d, hd⟩ := Nat.le.dest (hrows.1.trans (hrows.2.1.trans hrows.2.2.1))
  rw [List.length_append, accepted_length] at hptr ⊢
  change (if buf_write_en i s then _ else _) = _ at hptr
  change (if buf_write_en i s then decide (buf_wr_ptr_next p s = buf_rd_ptr i)
    else if s.buf_full && decide (s.buf_wr_ptr ≠ buf_rd_ptr i) then false else s.buf_full) = _
  cases hwr : buf_write_en i s with
  | true =>
    rw [hwr, if_pos rfl, Bool.toNat_true] at hptr
    have hnot := (not_full_of_write hwr).1
    rw [hfull, decide_eq_false_iff_not] at hnot
    rw [if_pos rfl, hptr, rd_ptr_eq haddr, Bool.toNat_true, ← hd, Nat.add_assoc, decide_eq_decide,
      same_cell (by omega) (by omega)]
    omega
  | false =>
    rw [if_neg Bool.false_ne_true, Bool.toNat_false, Nat.add_zero]
    have hcell : s.buf_wr_ptr = buf_rd_ptr i ↔ d = 0 ∨ d = p.BUF_DEPTH := by
      rw [h.buf_wr_ptr, rd_ptr_eq haddr, ← hd]
      exact same_cell (by omega) (by omega)
    cases hset : s.buf_full with
    | false =>
      rw [hset] at hfull
      have hnot := of_decide_eq_false hfull.symm
      simp only [Bool.false_and, Bool.false_eq_true, if_false]
      symm
      rw [decide_eq_false_iff_not]
      omega
    | true =>
      rw [hset] at hfull
      have hyes := of_decide_eq_true hfull.symm
      by_cases heq : s.buf_wr_ptr = buf_rd_ptr i
      · have hd' := hcell.mp heq
        simp only [heq, ne_eq, not_true_eq_false, decide_false, Bool.and_false, Bool.false_eq_true,
          if_false]
        symm
        rw [decide_eq_true_iff]
        omega
      · have hd' : ¬(d = 0 ∨ d = p.BUF_DEPTH) := fun hc => heq (hcell.mpr hc)
        simp only [ne_eq, heq, not_false_eq_true, decide_true, Bool.and_true, if_true]
        symm
        rw [decide_eq_false_iff_not]
        omega

theorem valid_of_pop {next : Nat} (hmove : Move i s p next) (hpop : i.dm_buf_aux_pop) :
    s.AUX_FT_FIFO.ft_valid := by
  rcases hmove with ⟨d, -, -, -, hno⟩ | ⟨hvalid, -, -⟩
  · rw [hno] at hpop
    cases hpop
  · exact hvalid

theorem packed_step (h : Track p s beats bq bqq rq r)
    (hpacked : i.axis_buf_valid → Packed i.axis_buf) : ∀ b ∈ beats ++ accepted i s, Packed b := by
  intro b hb
  rcases List.mem_append.mp hb with hb | hb
  · exact h.packed b hb
  · rw [accepted_eq] at hb
    split at hb
    case isTrue hwr =>
      obtain rfl := List.mem_singleton.mp hb
      unfold buf_write_en at hwr
      simp only [Bool.and_eq_true] at hwr
      exact hpacked hwr.1.1
    case isFalse => cases hb

theorem space_step (h : Track p s beats bq bqq rq r) :
    (beats ++ accepted i s).length ≤ r / PCIM_DATA_WIDTH_BYTES + p.BUF_DEPTH := by
  have hspace := h.space
  have hbefore := h.rows
  have hfull := h.full
  rw [List.length_append, accepted_length]
  cases hwr : buf_write_en i s with
  | false =>
    rw [Bool.toNat_false]
    omega
  | true =>
    rw [(not_full_of_write hwr).1] at hfull
    have hnot := of_decide_eq_false hfull.symm
    rw [Bool.toNat_true]
    omega

theorem ram_step (h : Track p s beats bq bqq rq r) {k : Nat} {b : AxisBeat}
    (hk : r / PCIM_DATA_WIDTH_BYTES ≤ k) (hget : (beats ++ accepted i s)[k]? = some b) :
    (step p i s).buf_ram (k % p.BUF_DEPTH) = b.data := by
  have hlarge := p.large
  change (if buf_write_en i s then Function.update s.buf_ram s.buf_wr_ptr i.axis_buf.data
    else s.buf_ram) (k % p.BUF_DEPTH) = b.data
  rw [accepted_eq] at hget
  cases hwr : buf_write_en i s with
  | false =>
    rw [hwr, if_neg Bool.false_ne_true, List.append_nil] at hget
    exact h.ram k b hk hget
  | true =>
    rw [hwr, if_pos rfl] at hget
    rw [if_pos rfl, h.buf_wr_ptr]
    by_cases hlast : k < beats.length
    · rw [List.getElem?_append_left hlast] at hget
      have hspace := space_step (i := i) h
      rw [List.length_append, accepted_length, hwr, Bool.toNat_true] at hspace
      obtain ⟨d, hd⟩ := Nat.le.dest (Nat.le_of_lt hlast)
      have hne : k % p.BUF_DEPTH ≠ beats.length % p.BUF_DEPTH := by
        rw [← hd]
        intro heq
        rcases (same_cell (by omega) (by omega)).mp heq.symm with hzero | hdepth <;> omega
      rw [Function.update_of_ne hne]
      exact h.ram k b hk hget
    · rw [List.getElem?_append_right (by omega)] at hget
      have hk' : k = beats.length := by
        have hlt := (List.getElem?_eq_some_iff.mp hget).1
        rw [List.length_singleton] at hlt
        omega
      rw [hk', Nat.sub_self, List.getElem?_cons_zero, Option.some.injEq] at hget
      rw [hk', Function.update_self, hget]

theorem held_drop_step (h : Track p s beats bq bqq rq r)
    (hpacked : i.axis_buf_valid → Packed i.axis_buf)
    (hpop : i.dm_buf_aux_pop → s.AUX_FT_FIFO.ft_valid) {r' : Nat} (hm : Moved p i beats bqq r r') :
    RamFifo.held p.BUF_AUX_FT_FIFO_DEPTH (step p i s).aux_ram (step p i s).aux_ram_rdata
        (step p i s).aux_ptrs (step p i s).AUX_FT_FIFO =
      (ends p.BUF_DEPTH 0 (beats ++ accepted i s)).drop
        (((beats ++ accepted i s).take (r' / PCIM_DATA_WIDTH_BYTES)).countP AxisBeat.last) := by
  have hrows := read_rows h
  have hrdata : aux_ram_pop i s →
      (step p i s).aux_ram_rdata = s.aux_ram s.aux_ptrs.rd_ptr.idx := fun hrd => if_pos hrd
  have hstep := RamFifo.held_step s.aux_ram_rdata h.AUX_FT_FIFO h.aux_ptrs
    (aux_not_full_of_write (i := i)) hpop (aux_ram_wdata i s) hrdata
  have hnew : (if aux_ram_wr i s then [aux_ram_wdata i s] else []) =
      ends p.BUF_DEPTH beats.length (accepted i s) := by
    rw [accepted_eq, aux_ram_wr]
    cases hwr : buf_write_en i s with
    | false => rfl
    | true =>
      have hvalid : i.axis_buf_valid := by
        unfold buf_write_en at hwr
        simp only [Bool.and_eq_true] at hwr
        exact hwr.1.1
      cases hlast : i.axis_buf.last with
      | false => simp [ends, hlast]
      | true =>
        simp [ends, hlast, aux_ram_wdata, h.buf_wr_ptr, wr_last_byte_addr_eq (hpacked hvalid)]
  have htake : (beats ++ accepted i s).take (r' / PCIM_DATA_WIDTH_BYTES) =
      beats.take (r' / PCIM_DATA_WIDTH_BYTES) := by
    have hread := hm.read
    rw [List.take_append_of_le_length (by rw [width_val] at *; omega)]
  have hcount : (beats.take (r / PCIM_DATA_WIDTH_BYTES)).countP AxisBeat.last ≤
      (ends p.BUF_DEPTH 0 beats).length := by
    rw [ends_length]
    exact (List.take_sublist _ _).countP_le
  rw [h.held, hnew] at hstep
  have hall : (ends p.BUF_DEPTH 0 beats).drop
        ((beats.take (r / PCIM_DATA_WIDTH_BYTES)).countP AxisBeat.last) ++
      ends p.BUF_DEPTH beats.length (accepted i s) =
        (ends p.BUF_DEPTH 0 (beats ++ accepted i s)).drop
          ((beats.take (r / PCIM_DATA_WIDTH_BYTES)).countP AxisBeat.last) := by
    rw [ends_append, Nat.zero_add, List.drop_append_of_le_length hcount]
  have hout : ∀ rest : List C2hAux, rest = List.drop i.dm_buf_aux_pop.toNat
      ((if i.dm_buf_aux_pop then s.AUX_FT_FIFO.ft0.toList else []) ++ rest) := by
    intro rest
    cases hcase : i.dm_buf_aux_pop with
    | false => rfl
    | true =>
      obtain ⟨a, ha⟩ := Option.isSome_iff_exists.mp (hpop hcase)
      rw [if_pos rfl, ha]
      rfl
  rw [htake, hm.popped, ← List.drop_drop, ← hall, hstep]
  exact hout _

theorem track_step (h : Track p s beats bq bqq rq r)
    (haddr : i.dm_buf_rd_byte_addr = r % BUF_SIZE_BYTES p)
    (hpacked : i.axis_buf_valid → Packed i.axis_buf)
    (hpop : i.dm_buf_aux_pop → s.AUX_FT_FIFO.ft_valid) {r' : Nat} (hm : Moved p i beats bqq r r') :
    Track p (step p i s) (beats ++ accepted i s) beats bq (r / PCIM_DATA_WIDTH_BYTES) r' where
  recent := by
    refine ⟨List.prefix_append _ _, ?_⟩
    rw [List.length_append, accepted_length]
    have hle := Bool.toNat_le (buf_write_en i s)
    omega
  recent_q := h.recent
  packed := packed_step h hpacked
  buf_wr_ptr := buf_wr_ptr_step h
  buf_wr_ptr_q := h.buf_wr_ptr
  buf_wr_ptr_qq := h.buf_wr_ptr_q
  read := by
    have hread := hm.read
    have hrows := read_rows h
    rw [width_val] at *
    omega
  rows := ⟨Nat.div_le_div_right hm.ahead.1, hm.rows⟩
  on_byte b hget := by
    have hread := hm.read
    have hrows := read_rows h
    by_cases hlt : r' / PCIM_DATA_WIDTH_BYTES < bqq.length
    · rw [List.getElem?_append_left (by omega)] at hget
      exact hm.on_byte hlt b hget
    · have hpos := (packed_step h hpacked b (List.mem_of_getElem? hget)).1
      rw [width_val] at *
      omega
  space := space_step h
  full := buf_full_step h haddr
  ram k b hk hget :=
    ram_step h ((Nat.div_le_div_right hm.ahead.1).trans hk) hget
  AUX_FT_FIFO := FtFifo.ok_step h.AUX_FT_FIFO hpop
  aux_ptrs := (RamPtrs.ok_step h.aux_ptrs aux_not_full_of_write RamFifo.not_empty_of_pop).1
  held := held_drop_step h hpacked hpop hm

theorem delay_step (h : Track p s beats bq bqq rq r) (hd : Delay s beats bq bqq r)
    (hpop : i.dm_buf_aux_pop → s.AUX_FT_FIFO.ft_valid) {r' : Nat} (hm : Moved p i beats bqq r r') :
    Delay (step p i s) (beats ++ accepted i s) beats bq r' := by
  have hrows := read_rows h
  have hread := hm.read
  have htake : (beats ++ accepted i s).take (r' / PCIM_DATA_WIDTH_BYTES) =
      beats.take (r' / PCIM_DATA_WIDTH_BYTES) := by
    rw [List.take_append_of_le_length (by rw [width_val] at *; omega)]
  unfold Delay
  rw [htake, hm.popped]
  exact FtFifo.delay_step h.AUX_FT_FIFO hpop hd (held_length h) h.aux_ptrs.empty

/-! ## Whole runs -/

section Runs

variable (p : C2hBufParams) (ins : Nat → C2hBufIn)

/-- The beats accepted before cycle `n`. -/
def beats_in (n : Nat) : List AxisBeat := (circuit p).passed ins accepted n

/-- The bytes the read address moved by before cycle `n`. Since it counts rows from the first on,
a row and a byte in it are given by one number, without a wrap. -/
def read_pos : Nat → Nat
  | 0 => 0
  | n + 1 => read_pos n +
      ((ins (n + 1)).dm_buf_rd_byte_addr + BUF_SIZE_BYTES p - (ins n).dm_buf_rd_byte_addr) %
        BUF_SIZE_BYTES p

/-- What the data mover keeps to. -/
structure LegalReads : Prop where
  start : (ins 0).dm_buf_rd_byte_addr = 0
  move : ∀ n, Move (ins n) ((circuit p).state ins n) p (ins (n + 1)).dm_buf_rd_byte_addr

/-- What the stream and the data mover keep to. -/
structure Legal : Prop extends LegalReads p ins where
  packed : ∀ n, (ins n).axis_buf_valid → Packed (ins n).axis_buf

variable {p ins}

theorem track_reset : Track p (circuit p).reset [] [] [] 0 0 where
  recent := ⟨List.prefix_rfl, by simp⟩
  recent_q := ⟨List.prefix_rfl, by simp⟩
  packed := by simp
  buf_wr_ptr := by simp [circuit]
  buf_wr_ptr_q := by simp [circuit]
  buf_wr_ptr_qq := by simp [circuit]
  read := by simp
  rows := by simp
  on_byte := by simp
  space := by simp
  full := by
    have hlarge := p.large
    have hne : ¬0 = p.BUF_DEPTH := by omega
    simp [circuit, hne]
  ram := by simp
  AUX_FT_FIFO := FtFifo.ok_start
  aux_ptrs := RamPtrs.ok_start p.aux_pos
  held := by simp [circuit, RamFifo.held_start, ends]

theorem delay_reset : Delay (circuit p).reset [] [] [] 0 := FtFifo.delay_start

theorem track_state (h : Legal p ins) (n : Nat) :
    ∃ bqq rq, Track p ((circuit p).state ins n) (beats_in p ins n) (beats_in p ins (n - 1)) bqq rq
        (read_pos p ins n) ∧
      Delay ((circuit p).state ins n) (beats_in p ins n) (beats_in p ins (n - 1)) bqq
        (read_pos p ins n) ∧
      (ins n).dm_buf_rd_byte_addr = read_pos p ins n % BUF_SIZE_BYTES p := by
  induction n with
  | zero => exact ⟨[], 0, track_reset, delay_reset, by simp [h.start, read_pos]⟩
  | succ n ih =>
    obtain ⟨bqq, rq, htrack, hdelay, haddr⟩ := ih
    have hmove := h.move n
    have hpop := valid_of_pop hmove
    obtain ⟨r', hnext, hmoved⟩ := moved_of_move htrack hdelay haddr hmove
    obtain ⟨d, hd⟩ := Nat.le.dest hmoved.ahead.1
    have hsize : d < BUF_SIZE_BYTES p := by
      have hlt := hmoved.ahead.2
      omega
    have hpos : read_pos p ins (n + 1) = r' := by
      rw [read_pos, hnext, haddr, ← hd, jump_eq hsize]
    refine ⟨beats_in p ins (n - 1), read_pos p ins n / PCIM_DATA_WIDTH_BYTES, ?_, ?_, ?_⟩
    · rw [hpos, Circuit.state_succ]
      exact track_step htrack haddr (h.packed n) hpop hmoved
    · rw [hpos, Circuit.state_succ]
      exact delay_step htrack hdelay hpop hmoved
    · rw [hpos, hnext]

/-- What is promised of cycle `n`. -/
structure Kept (p : C2hBufParams) (ins : Nat → C2hBufIn) (n : Nat) : Prop where
  /-- No more is reported than there is, up to and including the first end. -/
  reported : buf_dm_num_bytes p (ins n) ((circuit p).state ins n) ≤
    unread ((beats_in p ins n).drop (read_pos p ins n / PCIM_DATA_WIDTH_BYTES))
      (read_pos p ins n % PCIM_DATA_WIDTH_BYTES)
  /-- The RAM has every row that is not read. -/
  intact : ∀ k b, read_pos p ins n / PCIM_DATA_WIDTH_BYTES ≤ k → (beats_in p ins n)[k]? = some b →
    ((circuit p).state ins n).buf_ram (k % p.BUF_DEPTH) = b.data
  /-- The record is that of the first end. -/
  eop : buf_dm_aux_valid ((circuit p).state ins n) →
    ∃ k b, read_pos p ins n / PCIM_DATA_WIDTH_BYTES ≤ k ∧ (beats_in p ins n)[k]? = some b ∧
      b.last = true ∧
      (∀ j b', read_pos p ins n / PCIM_DATA_WIDTH_BYTES ≤ j → j < k →
        (beats_in p ins n)[j]? = some b' → b'.last = false) ∧
      buf_dm_aux_data ((circuit p).state ins n) =
        ⟨b.user, k % p.BUF_DEPTH * PCIM_DATA_WIDTH_BYTES + (bytes b - 1)⟩

theorem kept_of_legal (h : Legal p ins) (n : Nat) : Kept p ins n := by
  obtain ⟨bqq, rq, htrack, hdelay, haddr⟩ := track_state h n
  have hrows := read_rows htrack
  refine ⟨?_, htrack.ram, ?_⟩
  · cases hvalid : buf_dm_aux_valid ((circuit p).state ins n) with
    | true =>
      obtain ⟨pre, b, post, hdrop, hpre, hlast, hlt, hdata⟩ := end_of_valid htrack hdelay hvalid
      have hnum := num_bytes_of_valid (i := ins n) htrack haddr hvalid hdrop hlt (by rw [hdata])
      have hpacked : ∀ x ∈ pre, Packed x := fun x hx =>
        htrack.packed x (List.mem_of_mem_drop (by rw [hdrop]; exact List.mem_append_left _ hx))
      have hunread := @unread_to_end pre post b hpre hpacked hlast
        (read_pos p ins n % PCIM_DATA_WIDTH_BYTES)
      rw [hdrop]
      rw [width_val] at *
      omega
    | false =>
      have hnone : ((circuit p).state ins n).AUX_FT_FIFO.ft0 = none := by
        simpa [buf_dm_aux_valid, FtFifo.ft_valid] using hvalid
      have hno := no_end_of_starved htrack hdelay hnone
      have hnum := num_bytes_of_starved (i := ins n) htrack haddr hvalid
      have hpacked : ∀ x ∈ bqq.drop (read_pos p ins n / PCIM_DATA_WIDTH_BYTES), Packed x := fun x hx =>
        htrack.packed x ((htrack.recent_q.1.trans htrack.recent.1).subset (List.mem_of_mem_drop hx))
      have hunread := unread_no_end (l := (beats_in p ins n).drop bqq.length) hno hpacked
        (read_pos p ins n % PCIM_DATA_WIDTH_BYTES)
      rw [← drop_split htrack, List.length_drop] at hunread
      rw [width_val] at *
      omega
  · intro hvalid
    obtain ⟨pre, b, post, hdrop, hpre, hlast, hlt, hdata⟩ := end_of_valid htrack hdelay hvalid
    refine ⟨read_pos p ins n / PCIM_DATA_WIDTH_BYTES + pre.length, b, Nat.le_add_right _ _, ?_, hlast,
      ?_, hdata⟩
    · rw [← List.getElem?_drop, hdrop]
      simp
    · intro j b' hj hjlt hget
      rw [← Nat.add_sub_cancel' hj, ← List.getElem?_drop, hdrop,
        List.getElem?_append_left (by omega)] at hget
      exact hpre b' (List.mem_of_getElem? hget)

/-- The sizes of the example design. -/
def default_params : C2hBufParams := ⟨512, 64, by decide, by decide⟩

/-- A packet of three bytes, which is read when its record has come. -/
def short_packet (n : Nat) : C2hBufIn where
  axis_buf_valid := n = 0
  axis_buf := ⟨0x030201, 7, 5, true⟩
  dm_buf_aux_pop := n = 4
  dm_buf_rd_byte_addr := if n ≤ 4 then 0 else 64
  dm_buf_rd := n = 3
  dm_buf_addr := 0

theorem short_packet_legal : Legal default_params short_packet where
  start := rfl
  move n := by
    by_cases hn : n = 4
    · subst hn
      exact .over (by decide +kernel) (by decide +kernel) rfl
    · have hstay : (short_packet (n + 1)).dm_buf_rd_byte_addr =
          ((short_packet n).dm_buf_rd_byte_addr + 0) % BUF_SIZE_BYTES default_params := by
        by_cases hle : n ≤ 4
        · have hle' : n + 1 ≤ 4 := by omega
          simp [short_packet, hle, hle']
        · have hle' : ¬n + 1 ≤ 4 := by omega
          simp only [short_packet, if_neg hle, if_neg hle']
          rfl
      rw [hstay]
      refine .ahead 0 (Nat.zero_le _) (Nat.zero_le _) (fun hvalid => ?_) (by simp [short_packet, hn])
      rw [buf_dm_num_bytes, if_pos hvalid]
      exact Nat.succ_pos _
  packed _ _ := by
    change Packed ⟨0x030201, 7, 5, true⟩
    unfold Packed
    decide

theorem kept_short_packet : (∀ n, Kept default_params short_packet n) ∧
    buf_dm_num_bytes default_params (short_packet 4) ((circuit default_params).state short_packet 4) =
      3 :=
  ⟨fun n => kept_of_legal short_packet_legal n, by decide +kernel⟩

/-! ### Beats that are not packed

The buffer takes the last byte that is kept for the number of bytes of an end, and a row for a full
one, whatever `keep` is. -/

/-- One beat comes in, and nothing is read. -/
def one_beat (b : AxisBeat) (n : Nat) : C2hBufIn where
  axis_buf_valid := n = 0
  axis_buf := b
  dm_buf_aux_pop := false
  dm_buf_rd_byte_addr := 0
  dm_buf_rd := false
  dm_buf_addr := 0

theorem one_beat_legal (b : AxisBeat) : LegalReads default_params (one_beat b) where
  start := rfl
  move n := by
    refine .ahead 0 (Nat.zero_le _) (Nat.zero_le _) (fun hvalid => ?_) rfl
    rw [buf_dm_num_bytes, if_pos hvalid]
    exact Nat.succ_pos _

/-- An end without a byte. -/
def no_byte : AxisBeat := ⟨0, 0, 0, true⟩

/-- An end whose byte is not the first of the beat. -/
def second_byte : AxisBeat := ⟨0, 2, 0, true⟩

/-- A beat in a packet that is not full. -/
def not_full : AxisBeat := ⟨0, 1, 0, false⟩

/-- More is reported than was written: 1 byte for none, 2 for one and 64 for one. -/
theorem unpacked_not_kept :
    (LegalReads default_params (one_beat no_byte) ∧ ¬Kept default_params (one_beat no_byte) 4) ∧
    (LegalReads default_params (one_beat second_byte) ∧
      ¬Kept default_params (one_beat second_byte) 4) ∧
    (LegalReads default_params (one_beat not_full) ∧ ¬Kept default_params (one_beat not_full) 4) := by
  refine ⟨⟨one_beat_legal _, fun h => ?_⟩, ⟨one_beat_legal _, fun h => ?_⟩,
    one_beat_legal _, fun h => ?_⟩
  all_goals exact absurd h.reported (by decide +kernel)

end Runs

end C2hBuf

end AwsFpga.Rtl
