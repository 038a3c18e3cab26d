import AwsFpga.Lib.Axi
import AwsFpga.Lib.LeadsTo
import AwsFpga.Lib.Writes
import Mathlib.Data.BitVec

/-!
# The memory scrubber (`mem_scrb.sv`, `cl_tst_scrb.sv`)

The scrubber writes zeros over a memory, one burst after the other. It has the port of the memory to
itself while it is enabled: the traffic generator and the slave have to wait.
-/

open Lib Lib.Axi

namespace AwsFpga.Rtl

inductive ScrbState where
  | FSM_IDLE
  | FSM_START
  | FSM_AW
  | FSM_W
  | FSM_B
  | FSM_DONE
  deriving DecidableEq

structure ScrbParams where
  DATA_WIDTH : Nat
  BURST_LEN_MINUS1 : Nat
  MAX_ADDR : BitVec 64

structure MemScrbIn where
  awready : Bool
  wready : Bool
  bvalid : Bool
  scrb_enable : Bool

structure MemScrb where
  curr_state : ScrbState
  curr_addr : BitVec 64
  num_txn : BitVec 16
  scrb_enable_q : Bool
  scrb_done : Bool

/-- What a master drives, with ids of `ID_WIDTH` and `WID_WIDTH` bits. -/
structure ScrbMaster (ID_WIDTH WID_WIDTH DATA_WIDTH : Nat) where
  awid : BitVec ID_WIDTH
  awaddr : BitVec 64
  awlen : BitVec 8
  awuser : BitVec 11
  awvalid : Bool
  wid : BitVec WID_WIDTH
  wdata : BitVec DATA_WIDTH
  wstrb : BitVec (DATA_WIDTH / 8)
  wlast : Bool
  wvalid : Bool
  bready : Bool
  arid : BitVec ID_WIDTH
  araddr : BitVec 64
  arlen : BitVec 8
  aruser : BitVec 11
  arvalid : Bool
  rready : Bool

namespace MemScrb

variable (p : ScrbParams) (i : MemScrbIn) (s : MemScrb)

def reset : MemScrb where
  curr_state := .FSM_IDLE
  curr_addr := 0
  num_txn := 0
  scrb_enable_q := false
  scrb_done := false

def DATA_WIDTH_BYTES : Nat := p.DATA_WIDTH / 8

def wlast : Bool := s.num_txn.toNat = p.BURST_LEN_MINUS1

def next_state : ScrbState :=
  match s.curr_state with
  | .FSM_IDLE => if s.scrb_enable_q then .FSM_START else .FSM_IDLE
  | .FSM_START => .FSM_AW
  | .FSM_AW => if i.awready then .FSM_W else .FSM_AW
  | .FSM_W => if i.wready && s.wlast p then .FSM_B else .FSM_W
  | .FSM_B =>
    if i.bvalid && decide (p.MAX_ADDR ≤ s.curr_addr) then .FSM_DONE
    else if i.bvalid then .FSM_AW
    else .FSM_B
  | .FSM_DONE => .FSM_DONE

def step : MemScrb where
  curr_state := if s.scrb_enable_q then next_state p i s else .FSM_IDLE
  curr_addr :=
    if s.curr_state = .FSM_START then 0
    else if s.curr_state = .FSM_W && i.wready then
      s.curr_addr + BitVec.ofNat 64 (DATA_WIDTH_BYTES p)
    else s.curr_addr
  num_txn :=
    if s.curr_state = .FSM_AW then 0
    else if s.curr_state = .FSM_W && i.wready then s.num_txn + 1
    else s.num_txn
  scrb_enable_q := i.scrb_enable
  scrb_done :=
    if s.curr_state = .FSM_IDLE then false
    else if s.curr_state = .FSM_DONE then true
    else s.scrb_done

def master : ScrbMaster 6 6 p.DATA_WIDTH where
  awid := 0
  awaddr := s.curr_addr
  awlen := BitVec.ofNat 8 p.BURST_LEN_MINUS1
  awuser := 0
  awvalid := s.curr_state = .FSM_AW
  wid := 0
  wdata := 0
  wstrb := BitVec.allOnes _
  wlast := s.wlast p
  wvalid := s.curr_state = .FSM_W
  bready := true
  arid := 0
  araddr := 0
  arlen := 0
  aruser := 0
  arvalid := false
  rready := true

end MemScrb

/-! ## The port of the memory -/

/-- Ids are extended with zeros. -/
def ScrbMaster.widen {j w d : Nat} (m : ScrbMaster j w d) : ScrbMaster 16 9 d where
  awid := m.awid.setWidth 16
  awaddr := m.awaddr
  awlen := m.awlen
  awuser := m.awuser
  awvalid := m.awvalid
  wid := m.wid.setWidth 9
  wdata := m.wdata
  wstrb := m.wstrb
  wlast := m.wlast
  wvalid := m.wvalid
  bready := m.bready
  arid := m.arid.setWidth 16
  araddr := m.araddr
  arlen := m.arlen
  aruser := m.aruser
  arvalid := m.arvalid
  rready := m.rready

inductive ScrbOwner where
  | scrb
  | atg
  | slv
  deriving DecidableEq

/-- `atg_enable` and what the traffic generator and the slave drive, and what the memory does. -/
structure TstScrbIn (DATA_WIDTH : Nat) where
  scrb_enable : Bool
  atg_enable : Bool
  atg : ScrbMaster 9 9 DATA_WIDTH
  slv : ScrbMaster 16 7 DATA_WIDTH
  slv_awsize : BitVec 3
  slv_arsize : BitVec 3
  awready : Bool
  wready : Bool
  bvalid : Bool
  arready : Bool
  rvalid : Bool

/-- An address with the shape of its burst. -/
structure ScrbAddr where
  id : BitVec 16
  addr : BitVec 64
  len : BitVec 8
  size : BitVec 3
  user : BitVec 11

structure ScrbBeat (DATA_WIDTH : Nat) where
  id : BitVec 9
  data : BitVec DATA_WIDTH
  strb : BitVec (DATA_WIDTH / 8)
  last : Bool

namespace TstScrb

variable {p : ScrbParams} (i : TstScrbIn p.DATA_WIDTH) (s : MemScrb)

/-- Whose signals the memory gets. -/
def owner : ScrbOwner := if i.scrb_enable then .scrb else if i.atg_enable then .atg else .slv

/-- Whether a master sees what the memory answers. -/
def granted : ScrbOwner → Bool
  | .scrb => i.scrb_enable
  | .atg => i.atg_enable
  | .slv => !i.atg_enable && !i.scrb_enable

def master : ScrbOwner → ScrbMaster 16 9 p.DATA_WIDTH
  | .scrb => (MemScrb.master p s).widen
  | .atg => i.atg.widen
  | .slv => i.slv.widen

def port : ScrbMaster 16 9 p.DATA_WIDTH := master i s (owner i)

def awsize : BitVec 3 := if i.scrb_enable then 6 else if i.atg_enable then 6 else i.slv_awsize

def arsize : BitVec 3 := if i.scrb_enable then 6 else if i.atg_enable then 6 else i.slv_arsize

def awready (o : ScrbOwner) : Bool := granted i o && i.awready
def wready (o : ScrbOwner) : Bool := granted i o && i.wready
def bvalid (o : ScrbOwner) : Bool := granted i o && i.bvalid
def arready (o : ScrbOwner) : Bool := granted i o && i.arready
def rvalid (o : ScrbOwner) : Bool := granted i o && i.rvalid

/-- `MEM_SCRB`. -/
def scrb_in : MemScrbIn where
  awready := awready i .scrb
  wready := wready i .scrb
  bvalid := bvalid i .scrb
  scrb_enable := i.scrb_enable

def step : MemScrb := s.step p (scrb_in i)

variable (p) in
def circuit : Circuit (TstScrbIn p.DATA_WIDTH) MemScrb := ⟨MemScrb.reset, step⟩

/-! ## What the memory takes and gives -/

def aw_accepted : List ScrbAddr :=
  fire (port i s).awvalid i.awready ⟨(port i s).awid, (port i s).awaddr, (port i s).awlen, awsize i,
    (port i s).awuser⟩

def w_accepted : List (ScrbBeat p.DATA_WIDTH) :=
  fire (port i s).wvalid i.wready ⟨(port i s).wid, (port i s).wdata, (port i s).wstrb,
    (port i s).wlast⟩

def ar_accepted : List ScrbAddr :=
  fire (port i s).arvalid i.arready ⟨(port i s).arid, (port i s).araddr, (port i s).arlen, arsize i,
    (port i s).aruser⟩

/-- A beat that ends its burst. -/
def w_ended : List (ScrbBeat p.DATA_WIDTH) := (w_accepted i s).filter ScrbBeat.last

def b_accepted : List Unit := fire i.bvalid (port i s).bready ()

/-- The scrubber and the slave see what the memory does exactly while the memory gets their signals.
The traffic generator sees it also while the scrubber has the port. -/
theorem granted_iff {i : TstScrbIn p.DATA_WIDTH} {o : ScrbOwner} : granted i o ↔
    owner i = o ∨ o = .atg ∧ i.scrb_enable ∧ i.atg_enable := by
  unfold owner
  cases o <;> cases h : i.scrb_enable <;> cases h' : i.atg_enable <;> simp [granted, h, h']

/-! ## The bursts of the scrubber -/

section Bursts

variable (p)

def beats : Nat := p.BURST_LEN_MINUS1 + 1

def burst_bytes : Nat := MemScrb.DATA_WIDTH_BYTES p * beats p

/-- How many bursts it takes to reach `MAX_ADDR`. -/
def bursts : Nat := max 1 ((p.MAX_ADDR.toNat + burst_bytes p - 1) / burst_bytes p)

def aw_at (j : Nat) : ScrbAddr :=
  ⟨0, BitVec.ofNat 64 (j * burst_bytes p), BitVec.ofNat 8 p.BURST_LEN_MINUS1, 6, 0⟩

def beat_at (k : Nat) : ScrbBeat p.DATA_WIDTH :=
  ⟨0, 0, BitVec.allOnes _, k % beats p = p.BURST_LEN_MINUS1⟩

/-- The size that is sent is that of the bus, the length fits its field, and the counter of the
addresses does not run over. -/
structure Sized : Prop where
  width : p.DATA_WIDTH = 512
  len : p.BURST_LEN_MINUS1 < 256
  ends : bursts p * burst_bytes p < 2 ^ 64

end Bursts

variable {i s}

section Sizes

variable (hp : Sized p)

include hp

theorem Sized.bytes : MemScrb.DATA_WIDTH_BYTES p = 64 := by
  unfold MemScrb.DATA_WIDTH_BYTES
  rw [hp.width]

theorem Sized.burst_bytes : burst_bytes p = 64 * beats p := by
  unfold TstScrb.burst_bytes
  rw [hp.bytes]

theorem Sized.burst_pos : 0 < TstScrb.burst_bytes p := by
  rw [hp.burst_bytes]
  unfold beats
  omega

theorem Sized.le_ends {a : Nat} (ha : a ≤ bursts p) : a * TstScrb.burst_bytes p < 2 ^ 64 :=
  Nat.lt_of_le_of_lt (Nat.mul_le_mul_right _ ha) hp.ends

theorem Sized.reached {a : Nat} (hpos : 0 < a) :
    p.MAX_ADDR.toNat ≤ a * TstScrb.burst_bytes p ↔ bursts p ≤ a := by
  have hburst := hp.burst_pos
  have hsucc : (a + 1) * TstScrb.burst_bytes p = a * TstScrb.burst_bytes p +
    TstScrb.burst_bytes p := Nat.succ_mul _ _
  have hdiv : (p.MAX_ADDR.toNat + TstScrb.burst_bytes p - 1) / TstScrb.burst_bytes p < a + 1 ↔
      p.MAX_ADDR.toNat + TstScrb.burst_bytes p - 1 < (a + 1) * TstScrb.burst_bytes p :=
    Nat.div_lt_iff_lt_mul hburst
  unfold bursts
  rw [Nat.max_le]
  constructor
  · intro h
    exact ⟨hpos, Nat.le_of_lt_succ (hdiv.mpr (by omega))⟩
  · rintro ⟨-, h⟩
    have hlt := hdiv.mp (Nat.lt_succ_of_le h)
    omega

end Sizes

/-! ## What the bursts write -/

def burst_of (aw : ScrbAddr) : Burst 64 where
  addr := aw.addr
  bytes := (aw.len.toNat + 1) * 2 ^ aw.size.toNat
  beats := aw.len.toNat + 1

/-- A byte is written if its strobe is set. -/
def lane (beat : ScrbBeat p.DATA_WIDTH) (l : Nat) : Option (BitVec 8) :=
  if beat.strb.getLsbD l then some (beat.data.extractLsb' (8 * l) 8) else none

theorem beat_at_lane (k : Nat) :
    ∀ l < MemScrb.DATA_WIDTH_BYTES p, lane (beat_at p k) l = some 0 := by
  intro l hl
  unfold MemScrb.DATA_WIDTH_BYTES at hl
  unfold lane beat_at
  dsimp only
  rw [BitVec.getLsbD_allOnes, if_pos (decide_eq_true hl)]
  congr 1
  ext j hj
  simp

theorem written_eq (hp : Sized p) {a b j : Nat} (ha : a ≤ bursts p) (haj : a = j ∨ a = j + 1)
    (hlo : j * beats p ≤ b) (hhi : b ≤ a * beats p) :
    Burst.all_writes (MemScrb.DATA_WIDTH_BYTES p) (lane (p := p))
        (((List.range a).map (aw_at p)).map burst_of) ((List.range b).map (beat_at p)) =
      placed 0 (MemScrb.DATA_WIDTH_BYTES p * b) fun _ => 0 := by
  have hbytes := hp.bytes
  have hw : 0 < MemScrb.DATA_WIDTH_BYTES p := by omega
  have hbeats : ∀ j, (burst_of (aw_at p j)).beats = beats p := by
    intro j
    simp [burst_of, aw_at, beats, hp.len]
  have haddr : ∀ j, (burst_of (aw_at p j)).addr =
      0 + BitVec.ofNat 64 (MemScrb.DATA_WIDTH_BYTES p * (j * beats p)) := by
    intro j
    rw [zero_add, Nat.mul_left_comm]
    rfl
  have haligned : ∀ j < bursts p,
      (burst_of (aw_at p j)).addr.toNat % MemScrb.DATA_WIDTH_BYTES p = 0 := by
    intro j hj
    have hlt := hp.le_ends (Nat.le_of_lt hj)
    rw [hp.burst_bytes, Nat.mul_left_comm] at hlt
    rw [haddr, zero_add, BitVec.toNat_ofNat, hbytes, Nat.mod_eq_of_lt hlt, Nat.mul_mod_right]
  have hfull : ∀ x ∈ (List.range b).map (beat_at p),
      ∀ l < MemScrb.DATA_WIDTH_BYTES p, lane x l = some 0 := by
    intro x hx
    obtain ⟨k, -, rfl⟩ := List.mem_map.mp hx
    exact beat_at_lane k
  have hall : ∀ {xs : List (ScrbBeat p.DATA_WIDTH)}, j ≤ a →
      (∀ x ∈ xs, ∀ l < MemScrb.DATA_WIDTH_BYTES p, lane x l = some 0) → xs.length = j * beats p →
      Burst.all_writes (MemScrb.DATA_WIDTH_BYTES p) (lane (p := p))
        ((List.range j).map fun j => burst_of (aw_at p j)) xs =
          placed 0 (MemScrb.DATA_WIDTH_BYTES p * xs.length) fun _ => 0 := fun hle hxs hxlen =>
    Burst.all_writes_full hw (fun k _ => haddr k) (fun k hk => haligned k (by omega)) hbeats hxs
      hxlen
  rw [List.map_map]
  rcases haj with rfl | rfl
  · have hb : ((List.range b).map (beat_at p)).length = a * beats p := by
      rw [List.length_map, List.length_range]
      omega
    have hwritten := hall (Nat.le_refl _) hfull hb
    rwa [List.length_map, List.length_range] at hwritten
  · have htake : (((List.range b).map (beat_at p)).take (j * beats p)).length = j * beats p :=
      List.length_take_of_le (by rw [List.length_map, List.length_range]; exact hlo)
    have hsum : (((List.range j).map fun j => burst_of (aw_at p j)).map Burst.beats).sum =
        j * beats p := by
      rw [List.map_map]
      simp [Function.comp_def, hbeats]
    have hsucc : (j + 1) * beats p = j * beats p + beats p := Nat.succ_mul _ _
    have hrest : (((List.range b).map (beat_at p)).drop (j * beats p)).length ≤
        (burst_of (aw_at p j)).beats := by
      rw [hbeats, List.length_drop, List.length_map, List.length_range]
      omega
    have hnext := Burst.all_writes_next hw
      (hall (Nat.le_succ j) (fun x hx => hfull x (List.mem_of_mem_take hx)) htake)
      (htake.trans hsum.symm) (by rw [htake]; exact haddr j) (haligned j ha) hrest
      fun x hx => hfull x (List.mem_of_mem_drop hx)
    rw [List.take_append_drop, List.length_map, List.length_range] at hnext
    rw [List.range_succ, List.map_append]
    exact hnext

/-! ## One cycle of the scrubber -/

section Enabled

variable (hi : i.scrb_enable = true)

include hi

theorem scrb_in_eq : scrb_in i = ⟨i.awready, i.wready, i.bvalid, true⟩ := by
  simp [scrb_in, awready, wready, bvalid, granted, hi]

theorem port_eq : port i s = (MemScrb.master p s).widen := by
  unfold port owner
  rw [if_pos hi]
  rfl

theorem aw_accepted_eq : aw_accepted i s = fire (s.curr_state = .FSM_AW) i.awready
    ⟨0, s.curr_addr, BitVec.ofNat 8 p.BURST_LEN_MINUS1, 6, 0⟩ := by
  have hid : (0 : BitVec 6).setWidth 16 = 0 := by decide
  unfold aw_accepted awsize
  rw [port_eq hi, if_pos hi]
  simp only [ScrbMaster.widen, MemScrb.master, hid]

theorem w_accepted_eq : w_accepted i s = fire (s.curr_state = .FSM_W) i.wready
    ⟨0, 0, BitVec.allOnes _, s.wlast p⟩ := by
  have hid : (0 : BitVec 6).setWidth 9 = 0 := by decide
  unfold w_accepted
  rw [port_eq hi]
  simp only [ScrbMaster.widen, MemScrb.master, hid]

theorem ar_accepted_eq : ar_accepted i s = [] := by
  unfold ar_accepted
  rw [port_eq hi]
  rfl

theorem b_accepted_eq : b_accepted i s = shown i.bvalid () := by
  unfold b_accepted
  rw [port_eq hi]
  cases i.bvalid <;> rfl

end Enabled

variable (p) in
/-- After `a` addresses and `b` beats. -/
inductive Progress (s : MemScrb) : Nat → Nat → Prop
  | start (hs : s.curr_state = .FSM_IDLE ∨ s.curr_state = .FSM_START) : Progress s 0 0
  | aw {a : Nat} (hs : s.curr_state = .FSM_AW) (ha : a < bursts p)
      (haddr : s.curr_addr = BitVec.ofNat 64 (a * burst_bytes p)) : Progress s a (a * beats p)
  | w {j : Nat} (hs : s.curr_state = .FSM_W) (hj : j < bursts p)
      (htxn : s.num_txn.toNat ≤ p.BURST_LEN_MINUS1)
      (haddr : s.curr_addr = BitVec.ofNat 64
        (MemScrb.DATA_WIDTH_BYTES p * (j * beats p + s.num_txn.toNat))) :
      Progress s (j + 1) (j * beats p + s.num_txn.toNat)
  | b {a : Nat} (hs : s.curr_state = .FSM_B) (hpos : 0 < a) (ha : a ≤ bursts p)
      (haddr : s.curr_addr = BitVec.ofNat 64 (a * burst_bytes p)) : Progress s a (a * beats p)
  | done (hs : s.curr_state = .FSM_DONE) : Progress s (bursts p) (bursts p * beats p)

theorem Progress.le {a b : Nat} (h : Progress p s a b) :
    a ≤ bursts p ∧ b ≤ bursts p * beats p := by
  cases h with
  | start => exact ⟨Nat.zero_le _, Nat.zero_le _⟩
  | aw _ ha => exact ⟨Nat.le_of_lt ha, Nat.mul_le_mul_right _ (Nat.le_of_lt ha)⟩
  | @w j _ hj htxn =>
    have hsucc : (j + 1) * beats p = j * beats p + beats p := Nat.succ_mul _ _
    have hle : (j + 1) * beats p ≤ bursts p * beats p := Nat.mul_le_mul_right _ hj
    refine ⟨hj, Nat.le_trans ?_ hle⟩
    rw [hsucc]
    unfold beats
    omega
  | b _ _ ha => exact ⟨ha, Nat.mul_le_mul_right _ ha⟩
  | done => exact ⟨Nat.le_refl _, Nat.le_refl _⟩

theorem Progress.of_done {a b : Nat} (h : Progress p s a b) (hs : s.curr_state = .FSM_DONE) :
    a = bursts p ∧ b = bursts p * beats p := by
  cases h with
  | done => exact ⟨rfl, rfl⟩
  | start hs' => rcases hs' with hs' | hs' <;> exact absurd (hs.symm.trans hs') (by decide)
  | aw hs' | w hs' | b hs' => exact absurd (hs.symm.trans hs') (by decide)

theorem Progress.written {a b : Nat} (h : Progress p s a b) (hp : Sized p) :
    Burst.all_writes (MemScrb.DATA_WIDTH_BYTES p) (lane (p := p))
        (((List.range a).map (aw_at p)).map burst_of) ((List.range b).map (beat_at p)) =
      placed 0 (MemScrb.DATA_WIDTH_BYTES p * b) fun _ => 0 := by
  cases h with
  | start => rfl
  | aw _ ha => exact written_eq hp (Nat.le_of_lt ha) (.inl rfl) (Nat.le_refl _) (Nat.le_refl _)
  | @w j _ hj htxn =>
    have hsucc : (j + 1) * beats p = j * beats p + beats p := Nat.succ_mul _ _
    refine written_eq hp hj (.inr rfl) (Nat.le_add_right _ _) ?_
    rw [hsucc]
    unfold beats
    omega
  | b _ _ ha => exact written_eq hp ha (.inl rfl) (Nat.le_refl _) (Nat.le_refl _)
  | done => exact written_eq hp (Nat.le_refl _) (.inl rfl) (Nat.le_refl _) (Nat.le_refl _)

theorem range_beat (j : Nat) {t : Nat} (ht : t ≤ p.BURST_LEN_MINUS1) :
    (List.range (j * beats p + t)).map (beat_at p) ++
      [⟨0, 0, BitVec.allOnes _, t = p.BURST_LEN_MINUS1⟩] =
        (List.range (j * beats p + t + 1)).map (beat_at p) := by
  have hmod : (j * beats p + t) % beats p = t := by
    rw [Nat.mul_add_mod_self_right]
    exact Nat.mod_eq_of_lt (Nat.lt_succ_of_le ht)
  rw [List.range_succ, List.map_append, List.map_singleton, beat_at, hmod]

section Step

variable (hi : i.scrb_enable = true) (hq : s.scrb_enable_q = true)

include hi hq

theorem step_curr_state :
    (step i s).curr_state = s.next_state p ⟨i.awready, i.wready, i.bvalid, true⟩ := by
  unfold step MemScrb.step
  rw [scrb_in_eq hi, if_pos hq]

omit hq in
theorem step_curr_addr : (step i s).curr_addr =
    if s.curr_state = .FSM_START then 0
    else if s.curr_state = .FSM_W && i.wready then
      s.curr_addr + BitVec.ofNat 64 (MemScrb.DATA_WIDTH_BYTES p)
    else s.curr_addr := by
  unfold step MemScrb.step
  rw [scrb_in_eq hi]

omit hq in
theorem step_num_txn : (step i s).num_txn =
    if s.curr_state = .FSM_AW then 0
    else if s.curr_state = .FSM_W && i.wready then s.num_txn + 1
    else s.num_txn := by
  unfold step MemScrb.step
  rw [scrb_in_eq hi]

theorem step_start (hs : s.curr_state = .FSM_IDLE ∨ s.curr_state = .FSM_START) :
    Progress p (step i s) 0 0 := by
  have hstate := step_curr_state hi hq
  have haddr := step_curr_addr hi (s := s)
  rcases hs with hs | hs
  · refine .start (.inr ?_)
    rw [hstate, MemScrb.next_state, hs]
    exact if_pos hq
  · have haw : Progress p (step i s) 0 (0 * beats p) := by
      refine .aw ?_ (Nat.le_max_left _ _) ?_
      · rw [hstate, MemScrb.next_state, hs]
      · rw [haddr, if_pos hs, Nat.zero_mul]
        rfl
    rwa [Nat.zero_mul] at haw

theorem step_aw {a : Nat} (hs : s.curr_state = .FSM_AW) (ha : a < bursts p)
    (haddr : s.curr_addr = BitVec.ofNat 64 (a * burst_bytes p)) :
    Progress p (step i s) (if i.awready then a + 1 else a) (a * beats p) := by
  have hstate := step_curr_state hi hq
  have haddr' : (step i s).curr_addr = s.curr_addr := by
    rw [step_curr_addr hi]
    simp [hs]
  rw [MemScrb.next_state, hs] at hstate
  cases hready : i.awready with
  | false =>
    refine .aw ?_ ha (haddr'.trans haddr)
    rw [hstate]
    simp [hready]
  | true =>
    have htxn : (step i s).num_txn = 0 := by
      rw [step_num_txn hi, if_pos hs]
    have hw : Progress p (step i s) (a + 1) (a * beats p + (step i s).num_txn.toNat) := by
      refine .w ?_ ha ?_ ?_
      · rw [hstate]
        simp [hready]
      · rw [htxn]
        exact Nat.zero_le _
      · rw [haddr', haddr, htxn, burst_bytes, Nat.mul_left_comm]
        rfl
    rw [htxn] at hw
    exact hw

variable (hp : Sized p)

include hp

theorem step_w {j : Nat} (hs : s.curr_state = .FSM_W) (hj : j < bursts p)
    (htxn : s.num_txn.toNat ≤ p.BURST_LEN_MINUS1)
    (haddr : s.curr_addr = BitVec.ofNat 64
      (MemScrb.DATA_WIDTH_BYTES p * (j * beats p + s.num_txn.toNat))) :
    Progress p (step i s) (j + 1)
      (j * beats p + s.num_txn.toNat + (if i.wready then 1 else 0)) := by
  have hstate := step_curr_state hi hq
  have haddr' := step_curr_addr hi (s := s)
  have htxn' := step_num_txn hi (s := s)
  rw [MemScrb.next_state, hs] at hstate
  rw [if_neg (by rw [hs]; decide)] at haddr' htxn'
  cases hready : i.wready with
  | false =>
    have hkept : Progress p (step i s) (j + 1) (j * beats p + (step i s).num_txn.toNat) := by
      refine .w ?_ hj ?_ ?_ <;> simp [hstate, htxn', haddr', hready, htxn, haddr]
    rw [htxn'] at hkept
    simpa [hready] using hkept
  | true =>
    have haddr_next : (step i s).curr_addr = BitVec.ofNat 64
        (MemScrb.DATA_WIDTH_BYTES p * (j * beats p + s.num_txn.toNat + 1)) := by
      rw [haddr', if_pos (by simp [hs, hready]), haddr, Nat.mul_succ, BitVec.ofNat_add]
    by_cases hlast : s.num_txn.toNat = p.BURST_LEN_MINUS1
    · have hsum : j * beats p + s.num_txn.toNat + 1 = (j + 1) * beats p := by
        rw [Nat.succ_mul, hlast, beats, Nat.add_assoc]
      rw [if_pos rfl, hsum]
      refine .b ?_ (Nat.succ_pos j) hj ?_
      · rw [hstate]
        simp [hready, MemScrb.wlast, hlast]
      · rw [haddr_next, hsum, burst_bytes, Nat.mul_left_comm]
    · have hlen := hp.len
      have hnum : (step i s).num_txn.toNat = s.num_txn.toNat + 1 := by
        rw [htxn', if_pos (by simp [hs, hready])]
        bv_omega
      have hnext : Progress p (step i s) (j + 1) (j * beats p + (step i s).num_txn.toNat) := by
        refine .w ?_ hj ?_ ?_
        · rw [hstate]
          simp [MemScrb.wlast, hlast]
        · omega
        · rw [haddr_next, hnum, Nat.add_assoc]
      rw [hnum] at hnext
      exact hnext

theorem step_b {a : Nat} (hs : s.curr_state = .FSM_B) (hpos : 0 < a) (ha : a ≤ bursts p)
    (haddr : s.curr_addr = BitVec.ofNat 64 (a * burst_bytes p)) :
    Progress p (step i s) a (a * beats p) := by
  have hstate := step_curr_state hi hq
  have haddr' : (step i s).curr_addr = s.curr_addr := by
    rw [step_curr_addr hi]
    simp [hs]
  rw [MemScrb.next_state, hs] at hstate
  have hreached : p.MAX_ADDR ≤ s.curr_addr ↔ bursts p ≤ a := by
    rw [← hp.reached hpos, haddr, BitVec.le_def, BitVec.toNat_ofNat,
      Nat.mod_eq_of_lt (hp.le_ends ha)]
  cases hvalid : i.bvalid with
  | false =>
    refine .b ?_ hpos ha (haddr'.trans haddr)
    rw [hstate]
    simp [hvalid]
  | true =>
    rcases Nat.lt_or_eq_of_le ha with hlt | rfl
    · refine .aw ?_ hlt (haddr'.trans haddr)
      rw [hstate]
      simp [hvalid, hreached, Nat.not_le.mpr hlt]
    · refine .done ?_
      rw [hstate]
      simp [hvalid, hreached]

/-- Which addresses and beats the memory takes in a cycle, and how far it is then. -/
theorem Progress.step {a b : Nat} (h : Progress p s a b) :
    ∃ a' b', (List.range a).map (aw_at p) ++ aw_accepted i s = (List.range a').map (aw_at p) ∧
      (List.range b).map (beat_at p) ++ w_accepted i s = (List.range b').map (beat_at p) ∧
      Progress p (step i s) a' b' := by
  rw [aw_accepted_eq hi, w_accepted_eq hi]
  cases h with
  | start hs =>
    refine ⟨0, 0, ?_, ?_, step_start hi hq hs⟩ <;> rcases hs with hs | hs <;> simp [hs]
  | aw hs ha haddr =>
    refine ⟨_, _, ?_, ?_, step_aw hi hq hs ha haddr⟩
    · cases i.awready <;> simp [hs, List.range_succ, aw_at, haddr]
    · simp [hs]
  | @w j hs hj htxn haddr =>
    refine ⟨_, _, ?_, ?_, step_w hi hq hp hs hj htxn haddr⟩
    · simp [hs]
    · cases i.wready with
      | false => simp
      | true =>
        simp only [hs, decide_true, fire_true]
        exact range_beat j htxn
  | b hs hpos ha haddr =>
    refine ⟨_, _, ?_, ?_, step_b hi hq hp hs hpos ha haddr⟩ <;> simp [hs]
  | done hs =>
    refine ⟨_, _, ?_, ?_, .done ?_⟩
    · simp [hs]
    · simp [hs]
    · rw [step_curr_state hi hq, MemScrb.next_state, hs]

end Step

/-! ## The responses -/

section Owed

variable (hi : i.scrb_enable = true)

include hi

theorem owed_step (hrun : s.scrb_enable_q = true ∨ s.curr_state = .FSM_IDLE)
    (hvalid : i.bvalid → s.curr_state = .FSM_B) :
    (w_ended i s).length + (if s.curr_state = .FSM_B then 1 else 0) =
      (b_accepted i s).length + if (step i s).curr_state = .FSM_B then 1 else 0 := by
  have hnot : s.curr_state ≠ .FSM_B → i.bvalid = false := fun hne => by
    rw [← Bool.not_eq_true]
    exact mt hvalid hne
  unfold w_ended
  rw [w_accepted_eq hi, b_accepted_eq hi]
  rcases hrun with hq | hidle
  · have hstate := step_curr_state hi hq
    rw [MemScrb.next_state] at hstate
    cases hs : s.curr_state with
    | FSM_W =>
      rw [hs] at hstate hnot
      cases hready : i.wready <;> cases hlast : s.wlast p <;>
        simp [hstate, hnot, hready, hlast]
    | FSM_B =>
      rw [hs] at hstate
      cases hb : i.bvalid <;> cases hend : decide (p.MAX_ADDR ≤ s.curr_addr) <;>
        simp [hstate, hb, hend]
    | _ =>
      rw [hs] at hstate hnot
      cases hready : i.awready <;> simp [hstate, hnot, hready, hq]
  · have hstate : (step i s).curr_state = if s.scrb_enable_q then .FSM_START else .FSM_IDLE := by
      change (if s.scrb_enable_q then s.next_state p (scrb_in i) else .FSM_IDLE) = _
      rw [MemScrb.next_state, hidle]
      cases s.scrb_enable_q <;> rfl
    rw [hidle] at hnot
    cases hq : s.scrb_enable_q <;> simp [hstate, hidle, hnot, hq]

end Owed

/-! ## How much is left -/

/-- What the scrubber waits for in a state. -/
def goes (i : TstScrbIn p.DATA_WIDTH) : ScrbState → Bool
  | .FSM_AW => i.awready
  | .FSM_W => i.wready
  | .FSM_B => i.bvalid
  | _ => true

variable (p) in
/-- A bound on the cycles that do not wait, after `a` addresses. -/
def left (s : MemScrb) (a : Nat) : Nat :=
  match s.curr_state with
  | .FSM_IDLE => bursts p * (beats p + 2) + 2
  | .FSM_START => bursts p * (beats p + 2) + 1
  | .FSM_AW => (bursts p - a) * (beats p + 2)
  | .FSM_W => (bursts p - a) * (beats p + 2) + (beats p + 1 - s.num_txn.toNat)
  | .FSM_B => (bursts p - a) * (beats p + 2) + 1
  | .FSM_DONE => 0

section Left

variable {a : Nat} (hi : i.scrb_enable = true) (hq : s.scrb_enable_q = true)

include hi hq

theorem left_waits (hgo : goes i s.curr_state = false) :
    (step i s).curr_state = s.curr_state ∧
      left p (step i s) (a + (aw_accepted i s).length) = left p s a := by
  have hstate := step_curr_state hi hq
  have htxn := step_num_txn hi (s := s)
  rw [MemScrb.next_state] at hstate
  rw [aw_accepted_eq hi]
  cases hs : s.curr_state <;> simp [goes, hs] at hgo hstate htxn ⊢ <;>
    simp [hgo] at hstate htxn ⊢ <;> simp [left, hs, hstate, htxn]

theorem left_start (hs : s.curr_state = .FSM_IDLE ∨ s.curr_state = .FSM_START) :
    left p (step i s) 0 < left p s 0 := by
  have hstate := step_curr_state hi hq
  rw [MemScrb.next_state] at hstate
  rcases hs with hs | hs <;> rw [hs] at hstate
  · have hnext : (step i s).curr_state = .FSM_START := hstate.trans (if_pos hq)
    simp [left, hs, hnext]
  · simp [left, hs, hstate]

theorem left_aw (hs : s.curr_state = .FSM_AW) (hready : i.awready = true) (ha : a < bursts p) :
    left p (step i s) (a + 1) < left p s a := by
  have hstate := step_curr_state hi hq
  rw [MemScrb.next_state, hs] at hstate
  have hnext : (step i s).curr_state = .FSM_W := hstate.trans (if_pos hready)
  have hzero : (step i s).num_txn = 0 := (step_num_txn hi).trans (if_pos hs)
  have hsucc : (bursts p - a) * (beats p + 2) =
      (bursts p - (a + 1)) * (beats p + 2) + (beats p + 2) := by
    rw [← Nat.succ_mul]
    congr 1
    omega
  simp only [left, hs, hnext, hzero]
  omega

theorem left_w (hp : Sized p) (hs : s.curr_state = .FSM_W) (hready : i.wready = true)
    (ht : s.num_txn.toNat ≤ p.BURST_LEN_MINUS1) : left p (step i s) a < left p s a := by
  have hstate := step_curr_state hi hq
  rw [MemScrb.next_state, hs] at hstate
  by_cases hlast : s.num_txn.toNat = p.BURST_LEN_MINUS1
  · have hnext : (step i s).curr_state = .FSM_B := by simp [hstate, hready, MemScrb.wlast, hlast]
    simp only [left, hs, hnext, beats]
    omega
  · have hnext : (step i s).curr_state = .FSM_W := by simp [hstate, MemScrb.wlast, hlast]
    have hlen := hp.len
    have hnum : (step i s).num_txn.toNat = s.num_txn.toNat + 1 := by
      rw [step_num_txn hi, if_neg (by rw [hs]; decide), if_pos (by simp [hs, hready])]
      bv_omega
    simp only [left, hs, hnext, hnum, beats]
    omega

theorem left_b (hs : s.curr_state = .FSM_B) (hvalid : i.bvalid = true) :
    left p (step i s) a < left p s a := by
  have hstate := step_curr_state hi hq
  rw [MemScrb.next_state, hs] at hstate
  by_cases hend : p.MAX_ADDR ≤ s.curr_addr
  · have hnext : (step i s).curr_state = .FSM_DONE := by simp [hstate, hvalid, hend]
    simp [left, hs, hnext]
  · have hnext : (step i s).curr_state = .FSM_AW := by simp [hstate, hvalid, hend]
    simp [left, hs, hnext]

theorem left_goes (hp : Sized p) {b : Nat} (h : Progress p s a b) (hgo : goes i s.curr_state)
    (hbusy : s.curr_state ≠ .FSM_DONE) :
    left p (step i s) (a + (aw_accepted i s).length) < left p s a := by
  rw [aw_accepted_eq hi]
  cases h with
  | start hs =>
    have hless := left_start hi hq hs
    rcases hs with hs | hs <;> simpa [hs] using hless
  | aw hs ha _ =>
    rw [hs] at hgo
    have hready : i.awready = true := hgo
    simpa [hs, hready] using left_aw hi hq hs hready ha
  | w hs _ ht _ =>
    rw [hs] at hgo
    simpa [hs] using left_w hi hq hp hs hgo ht
  | b hs _ _ _ =>
    rw [hs] at hgo
    simpa [hs] using left_b hi hq hs hgo
  | done hs => exact absurd hs hbusy

end Left

/-! ## The memory that is scrubbed -/

variable (ins : Nat → TstScrbIn p.DATA_WIDTH) (k : Nat)

/-- The scrubber is idle when cycle `k` begins, and is enabled from then on. -/
structure Session : Prop where
  low : ∀ n, n < k → k ≤ n + 2 → (ins n).scrb_enable = false
  high : ∀ n, k ≤ n → (ins n).scrb_enable = true

/-- What a memory holds in cycle `n` that held `mem` in cycle `k`, when all bursts before were
complete. -/
def content (mem : BitVec 64 → BitVec 8) (n : Nat) : BitVec 64 → BitVec 8 :=
  memory_after mem (Burst.all_writes (MemScrb.DATA_WIDTH_BYTES p) (lane (p := p))
    (((circuit p).passed_from ins aw_accepted k n).map burst_of)
    ((circuit p).passed_from ins w_accepted k n))

structure Scrubs : Prop where
  bursts : ∀ n, k ≤ n → ∃ a ≤ bursts p,
    (circuit p).passed_from ins aw_accepted k n = (List.range a).map (aw_at p)
  beats : ∀ n, k ≤ n → ∃ b,
    (circuit p).passed_from ins w_accepted k n = (List.range b).map (beat_at p)
  no_reads : ∀ n, k ≤ n → (circuit p).passed_from ins ar_accepted k n = []
  slave_waits : ∀ n, k ≤ n → granted (ins n) .slv = false
  /-- Zeros from address 0 on, as far as beats were taken, and nothing else. -/
  zeros : ∀ n, k ≤ n → ∀ mem addr, content ins k mem n addr =
    if addr.toNat <
      MemScrb.DATA_WIDTH_BYTES p * ((circuit p).passed_from ins w_accepted k n).length then 0
    else mem addr
  /-- The flag is set when all is written, up to `MAX_ADDR`. -/
  done : ∀ n, k < n → ((circuit p).state ins n).scrb_done →
    ((circuit p).passed_from ins aw_accepted k n).length = TstScrb.bursts p ∧
      ((circuit p).passed_from ins w_accepted k n).length = TstScrb.bursts p * TstScrb.beats p ∧
      ∀ mem addr, addr < p.MAX_ADDR → content ins k mem n addr = 0

/-- A bound on the cycles that do not wait, `m` cycles after `k`. -/
def remaining (m : Nat) : Nat :=
  left p ((circuit p).state ins (k + m)) ((circuit p).passed_from ins aw_accepted k (k + m)).length

/-- A memory that goes on: it takes addresses and data again and again, and it answers each burst
once, after its last beat. -/
structure Serves : Prop where
  awready : ∀ n, k ≤ n → ∃ m, n ≤ m ∧ (ins m).awready
  wready : ∀ n, k ≤ n → ∃ m, n ≤ m ∧ (ins m).wready
  bvalid : ∀ n, k ≤ n → ((circuit p).passed_from ins b_accepted k n).length <
    ((circuit p).passed_from ins w_ended k n).length → ∃ m, n ≤ m ∧ (ins m).bvalid
  after : ∀ n, k ≤ n → (ins n).bvalid → ((circuit p).passed_from ins b_accepted k n).length <
    ((circuit p).passed_from ins w_ended k n).length

variable {ins k}

theorem scrb_done_succ (n : Nat) : ((circuit p).state ins (n + 1)).scrb_done =
    if ((circuit p).state ins n).curr_state = .FSM_IDLE then false
    else if ((circuit p).state ins n).curr_state = .FSM_DONE then true
    else ((circuit p).state ins n).scrb_done := rfl

theorem Session.idle (h : Session ins k) : ((circuit p).state ins k).curr_state = .FSM_IDLE ∧
    ((circuit p).state ins k).scrb_enable_q = false := by
  have hq : ∀ n, n < k → k ≤ n + 2 → ((circuit p).state ins (n + 1)).scrb_enable_q = false := h.low
  rcases k with _ | _ | k
  · exact ⟨rfl, rfl⟩
  · exact ⟨rfl, hq 0 Nat.one_pos (by omega)⟩
  · refine ⟨?_, hq (k + 1) (Nat.lt_succ_self _) (by omega)⟩
    rw [Circuit.state_succ]
    exact if_neg (by rw [hq k (by omega) (Nat.le_refl _)]; decide)

section Run

variable (h : Session ins k)

include h

theorem Session.enabled (m : Nat) : ((circuit p).state ins (k + m + 1)).scrb_enable_q = true :=
  h.high _ (Nat.le_add_right k m)

theorem Session.running (m : Nat) : ((circuit p).state ins (k + m)).scrb_enable_q = true ∨
    ((circuit p).state ins (k + m)).curr_state = .FSM_IDLE := by
  rcases m with _ | m
  · exact .inr h.idle.1
  · exact .inl (h.enabled m)

theorem Session.first :
    ((circuit p).state ins (k + 1)).curr_state = .FSM_IDLE ∧
      aw_accepted (ins k) ((circuit p).state ins k) = [] ∧
      w_accepted (ins k) ((circuit p).state ins k) = [] := by
  obtain ⟨hidle, hq⟩ := h.idle
  have hi := h.high k (Nat.le_refl k)
  refine ⟨?_, ?_, ?_⟩
  · rw [Circuit.state_succ]
    exact if_neg (by rw [hq]; decide)
  · simp [aw_accepted_eq hi, hidle]
  · simp [w_accepted_eq hi, hidle]

variable (hp : Sized p)

include hp

theorem Session.progress (m : Nat) : ∃ a b,
    (circuit p).passed_from ins aw_accepted k (k + m) = (List.range a).map (aw_at p) ∧
      (circuit p).passed_from ins w_accepted k (k + m) = (List.range b).map (beat_at p) ∧
      Progress p ((circuit p).state ins (k + m)) a b := by
  rcases m with _ | m
  · exact ⟨0, 0, Circuit.passed_from_self .., Circuit.passed_from_self .., .start (.inl h.idle.1)⟩
  · induction m with
    | zero =>
      obtain ⟨hidle, haw, hw⟩ := h.first
      refine ⟨0, 0, ?_, ?_, .start (.inl hidle)⟩
      · rw [Circuit.passed_from_succ _ (Nat.le_refl k), Circuit.passed_from_self, haw]
        rfl
      · rw [Circuit.passed_from_succ _ (Nat.le_refl k), Circuit.passed_from_self, hw]
        rfl
    | succ m ih =>
      obtain ⟨a, b, haw, hw, hprog⟩ := ih
      rw [← Nat.add_assoc, Circuit.passed_from_succ _ (Nat.le_add_right k (m + 1)),
        Circuit.passed_from_succ _ (Nat.le_add_right k (m + 1)), haw, hw]
      exact hprog.step (h.high _ (Nat.le_add_right k _)) (h.enabled m) hp

theorem Session.progress_from (m : Nat) : Progress p ((circuit p).state ins (k + m))
    ((circuit p).passed_from ins aw_accepted k (k + m)).length
    ((circuit p).passed_from ins w_accepted k (k + m)).length := by
  obtain ⟨a, b, haw, hw, hprog⟩ := h.progress hp m
  rw [haw, hw, List.length_map, List.length_range, List.length_map, List.length_range]
  exact hprog

omit hp in
theorem Session.no_reads (m : Nat) : (circuit p).passed_from ins ar_accepted k (k + m) = [] := by
  induction m with
  | zero => exact Circuit.passed_from_self ..
  | succ m ih =>
    rw [← Nat.add_assoc, Circuit.passed_from_succ _ (Nat.le_add_right k m), ih,
      ar_accepted_eq (h.high _ (Nat.le_add_right k m))]
    rfl

omit hp in
theorem Session.done (m : Nat) (hdone : ((circuit p).state ins (k + m + 1)).scrb_done) :
    ((circuit p).state ins (k + m + 1)).curr_state = .FSM_DONE := by
  induction m with
  | zero =>
    have hlow : ((circuit p).state ins (k + 0 + 1)).scrb_done = false := if_pos h.idle.1
    rw [hlow] at hdone
    cases hdone
  | succ m ih =>
    have hat : ((circuit p).state ins (k + m + 1)).curr_state = .FSM_DONE := by
      rw [scrb_done_succ] at hdone
      split at hdone
      · cases hdone
      · split at hdone
        · assumption
        · exact ih hdone
    rw [← Nat.add_assoc, Circuit.state_succ]
    refine (step_curr_state (h.high _ (Nat.le_add_right k (m + 1))) (h.enabled m)).trans ?_
    rw [MemScrb.next_state, hat]

omit hp in
theorem Session.remaining_waits {m : Nat} (hgo : goes (ins (k + (m + 1)))
    ((circuit p).state ins (k + (m + 1))).curr_state = false) :
    ((circuit p).state ins (k + (m + 1 + 1))).curr_state =
        ((circuit p).state ins (k + (m + 1))).curr_state ∧
      remaining ins k (m + 1 + 1) = remaining ins k (m + 1) := by
  obtain ⟨hstate, hleft⟩ := left_waits (h.high _ (Nat.le_add_right k (m + 1))) (h.enabled m)
    (a := ((circuit p).passed_from ins aw_accepted k (k + (m + 1))).length) hgo
  refine ⟨hstate, ?_⟩
  unfold remaining
  rw [← Nat.add_assoc k (m + 1) 1, Circuit.passed_from_succ _ (Nat.le_add_right k (m + 1)),
    List.length_append]
  exact hleft

theorem Session.remaining_goes {m : Nat} (hgo : goes (ins (k + (m + 1)))
    ((circuit p).state ins (k + (m + 1))).curr_state)
    (hbusy : ((circuit p).state ins (k + (m + 1))).curr_state ≠ .FSM_DONE) :
    remaining ins k (m + 1 + 1) < remaining ins k (m + 1) := by
  have hleft := left_goes (h.high _ (Nat.le_add_right k (m + 1))) (h.enabled m)
    hp (h.progress_from hp (m + 1)) hgo hbusy
  unfold remaining
  rw [← Nat.add_assoc k (m + 1) 1, Circuit.passed_from_succ _ (Nat.le_add_right k (m + 1)),
    List.length_append]
  exact hleft

theorem Session.content_eq (m : Nat) (mem : BitVec 64 → BitVec 8) (addr : BitVec 64) :
    content ins k mem (k + m) addr =
      if addr.toNat < MemScrb.DATA_WIDTH_BYTES p *
        ((circuit p).passed_from ins w_accepted k (k + m)).length then 0 else mem addr := by
  obtain ⟨a, b, haw, hw, hprog⟩ := h.progress hp m
  have hle : MemScrb.DATA_WIDTH_BYTES p * b ≤ 2 ^ 64 := by
    have hends := hp.ends
    rw [burst_bytes, Nat.mul_left_comm] at hends
    exact Nat.le_trans (Nat.mul_le_mul_left _ hprog.le.2) (Nat.le_of_lt hends)
  unfold content
  rw [haw, hw, hprog.written hp, memory_after_placed mem hle, sub_zero, List.length_map,
    List.length_range]

/-! ## It comes to an end -/

variable (hserves : Serves ins k)

include hserves

omit hp in
/-- The memory owes a response exactly while the scrubber waits for it. -/
theorem Session.owed (m : Nat) :
    ((circuit p).passed_from ins w_ended k (k + m)).length =
      ((circuit p).passed_from ins b_accepted k (k + m)).length +
        if ((circuit p).state ins (k + m)).curr_state = .FSM_B then 1 else 0 := by
  induction m with
  | zero =>
    rw [Nat.add_zero, Circuit.passed_from_self, Circuit.passed_from_self, h.idle.1]
    rfl
  | succ m ih =>
    have hi := h.high _ (Nat.le_add_right k m)
    have hvalid : (ins (k + m)).bvalid →
        ((circuit p).state ins (k + m)).curr_state = .FSM_B := by
      intro hb
      have hlt := hserves.after _ (Nat.le_add_right k m) hb
      by_contra hne
      rw [ih, if_neg hne] at hlt
      exact Nat.lt_irrefl _ hlt
    rw [← Nat.add_assoc, Circuit.passed_from_succ _ (Nat.le_add_right k m),
      Circuit.passed_from_succ _ (Nat.le_add_right k m), List.length_append, List.length_append, ih,
      Circuit.state_succ]
    have hstep := owed_step hi (h.running m) hvalid
    change _ + _ + _ = _ + _ + if (step (ins (k + m))
      ((circuit p).state ins (k + m))).curr_state = .FSM_B then 1 else 0
    omega

omit hp in
theorem Session.comes {m : Nat} {st : ScrbState}
    (hst : ((circuit p).state ins (k + m)).curr_state = st) :
    ∃ m', m ≤ m' ∧ goes (ins (k + m')) st := by
  have hfrom : ∀ {P : Nat → Prop}, (∃ n, k + m ≤ n ∧ P n) → ∃ m', m ≤ m' ∧ P (k + m') := by
    rintro P ⟨n, hn, hP⟩
    obtain ⟨d, rfl⟩ := Nat.exists_eq_add_of_le hn
    rw [Nat.add_assoc] at hP
    exact ⟨m + d, Nat.le_add_right m d, hP⟩
  cases st with
  | FSM_AW => exact hfrom (hserves.awready _ (Nat.le_add_right k m))
  | FSM_W => exact hfrom (hserves.wready _ (Nat.le_add_right k m))
  | FSM_B =>
    have howed := h.owed hserves m
    rw [if_pos hst] at howed
    exact hfrom (hserves.bvalid _ (Nat.le_add_right k m) (by omega))
  | _ => exact ⟨m, Nat.le_refl m, rfl⟩

theorem Session.falls (r : Nat) : LeadsTo
    (fun m => ((circuit p).state ins (k + (m + 1))).curr_state ≠ .FSM_DONE ∧
      remaining ins k (m + 1) = r)
    (fun m => ((circuit p).state ins (k + (m + 1))).curr_state = .FSM_DONE ∨
      ((circuit p).state ins (k + (m + 1))).curr_state ≠ .FSM_DONE ∧
        remaining ins k (m + 1) < r) := by
  rintro m ⟨hbusy, hr⟩
  generalize hst : ((circuit p).state ins (k + (m + 1))).curr_state = st at hbusy
  -- Nothing changes until what the scrubber waits for comes.
  have hstay : ∀ j, ((circuit p).state ins (k + (j + 1))).curr_state = st ∧
      remaining ins k (j + 1) = r → ¬ goes (ins (k + (j + 1))) st →
      ((circuit p).state ins (k + (j + 1 + 1))).curr_state = st ∧
        remaining ins k (j + 1 + 1) = r := by
    rintro j ⟨rfl, hr⟩ hgo
    obtain ⟨hstate, hleft⟩ := h.remaining_waits (m := j) (eq_false_of_ne_true hgo)
    exact ⟨hstate, hleft.trans hr⟩
  have hcome : LeadsTo (fun j => ((circuit p).state ins (k + (j + 1))).curr_state = st ∧
      remaining ins k (j + 1) = r) fun j => goes (ins (k + (j + 1))) st := by
    rintro j ⟨hj, -⟩
    obtain ⟨j', hj', hgo⟩ := h.comes hserves hj
    obtain ⟨d, rfl⟩ := Nat.exists_eq_add_of_le hj'
    rw [Nat.add_right_comm j 1 d] at hgo
    exact ⟨j + d, Nat.le_add_right j d, hgo⟩
  obtain ⟨m', hm', ⟨rfl, rfl⟩, hgo⟩ := LeadsTo.wait hstay hcome m ⟨hst, hr⟩
  have hless := h.remaining_goes hp hgo hbusy
  refine ⟨m' + 1, Nat.le_succ_of_le hm', ?_⟩
  by_cases hdone : ((circuit p).state ins (k + (m' + 1 + 1))).curr_state = .FSM_DONE
  · exact .inl hdone
  · exact .inr ⟨hdone, hless⟩

theorem Session.finishes : ∃ n, k < n ∧ ((circuit p).state ins n).scrb_done := by
  have hbusy : ((circuit p).state ins (k + (0 + 1))).curr_state ≠ .FSM_DONE := fun hdone =>
    absurd (h.first.1.symm.trans hdone) (by decide)
  obtain ⟨m, -, hdone⟩ := LeadsTo.rank (fun m => remaining ins k (m + 1)) (h.falls hp hserves) 0
    hbusy
  refine ⟨k + (m + 1) + 1, by omega, ?_⟩
  rw [scrb_done_succ, hdone]
  rfl

end Run

def sample : ScrbParams := ⟨512, 1, 255⟩

def sample_ins (n : Nat) : TstScrbIn sample.DATA_WIDTH where
  scrb_enable := 4 ≤ n
  atg_enable := n < 4
  atg := ⟨0, 0, 3, 0, true, 0, 0, 0, false, true, true, 0, 0, 3, 0, true, true⟩
  slv := ⟨0, 0, 0, 0, true, 0, 0, 0, true, true, true, 0, 0, 0, 0, true, true⟩
  slv_awsize := 6
  slv_arsize := 6
  awready := n % 3 = 2
  wready := n % 2 = 1
  bvalid := n = 14 ∨ n = 24
  arready := true
  rvalid := n < 4

theorem sample_sized : Sized sample := ⟨rfl, by decide, by decide⟩

theorem sample_session : Session sample_ins 4 where
  low _ hn _ := decide_eq_false (Nat.not_le.mpr hn)
  high _ hn := decide_eq_true hn

theorem sample_end (n : Nat) (hn : 25 ≤ n) :
    ((circuit sample).state sample_ins n).curr_state = .FSM_DONE := by
  rcases Nat.eq_or_lt_of_le hn with rfl | hlt
  · rfl
  · have hstate : (circuit sample).state sample_ins 26 = ⟨.FSM_DONE, 256, 2, true, true⟩ := rfl
    have hstep : ∀ m, 26 ≤ m → step (sample_ins m) (⟨.FSM_DONE, 256, 2, true, true⟩ : MemScrb) =
        ⟨.FSM_DONE, 256, 2, true, true⟩ := by
      intro m hm
      have henable : (sample_ins m).scrb_enable = true := decide_eq_true (by omega)
      simp [step, MemScrb.step, MemScrb.next_state, scrb_in, henable]
    rw [Circuit.state_eq_of_step_eq hstate hstep n hlt]

theorem sample_answered (n : Nat) (hn : 25 ≤ n) :
    ((circuit sample).passed_from sample_ins b_accepted 4 n).length =
      ((circuit sample).passed_from sample_ins w_ended 4 n).length := by
  have howner : ∀ m, 25 ≤ m → (sample_ins m).scrb_enable = true := fun m hm =>
    decide_eq_true (by omega)
  have hended : (circuit sample).passed sample_ins w_ended n =
      (circuit sample).passed sample_ins w_ended 25 :=
    Circuit.passed_eq_of_nil (fun m hm => by
      simp [w_ended, w_accepted_eq (howner m hm), sample_end m hm]) n hn
  have hgiven : (circuit sample).passed sample_ins b_accepted n =
      (circuit sample).passed sample_ins b_accepted 25 :=
    Circuit.passed_eq_of_nil (fun m hm => by
      have hnot : (sample_ins m).bvalid = false := decide_eq_false (by omega)
      simp [b_accepted_eq (howner m hm), hnot]) n hn
  unfold Circuit.passed_from
  rw [hended, hgiven]
  rfl

theorem sample_serves : Serves sample_ins 4 where
  awready n _ := ⟨3 * n + 2, by omega, decide_eq_true (by omega)⟩
  wready n _ := ⟨2 * n + 1, by omega, decide_eq_true (by omega)⟩
  bvalid n _ hlt := by
    rcases Nat.lt_or_ge 24 n with hn | hn
    · rw [sample_answered n hn] at hlt
      exact absurd hlt (Nat.lt_irrefl _)
    · exact ⟨24, hn, rfl⟩
  after n _ hvalid := by
    rcases of_decide_eq_true hvalid with rfl | rfl <;> decide

end TstScrb

end AwsFpga.Rtl
