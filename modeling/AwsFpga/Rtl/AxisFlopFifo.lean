import AwsFpga.Lib.Lanes
import AwsFpga.Rtl.FlopFifo

/-!
# A stream through FIFOs of flops (`axis_flop_fifo.sv`)

Eight FIFOs carry the slices of the data and a ninth one the rest of a beat.
-/

open Lib

namespace AwsFpga.Rtl.AxisFlopFifo

structure Params where
  IN_FIFO : Bool
  DATA_WIDTH : Nat
  KEEP_WIDTH : Nat
  FIFO_DEPTH : Nat
  /-- The one of the FIFOs, which a macro may set. -/
  LESS_RST : Nat
  deep : 2 ≤ FIFO_DEPTH

structure Beat (p : Params) where
  data : BitVec p.DATA_WIDTH
  last : Bool
  keep : BitVec p.KEEP_WIDTH

structure In (p : Params) where
  sync_rst_n : Bool
  s_axis_valid : Bool
  s_axis : Beat p
  m_axis_ready : Bool

variable {p : Params}

def fifo (p : Params) : FifoModule :=
  if p.IN_FIFO then flop_fifo_in_regs p.FIFO_DEPTH p.LESS_RST else flop_fifo_regs p.FIFO_DEPTH

structure Regs (p : Params) where
  AXIS_MISC : (fifo p).Regs (p.KEEP_WIDTH + 1)
  /-- `gen_w_d[gi].AXIS_D`. -/
  AXIS_D : Nat → (fifo p).Regs (p.DATA_WIDTH / 8)

/-! ## The wires -/

/-- `{keep, last}`. -/
def misc (b : Beat p) : BitVec (p.KEEP_WIDTH + 1) := b.keep ++ BitVec.ofBool b.last

def w_d (gi : Nat) (b : Beat p) : BitVec (p.DATA_WIDTH / 8) := lane (p.DATA_WIDTH / 8) b.data gi

section

variable (i : In p) (s : Regs p)

def misc_out : FifoOut (p.KEEP_WIDTH + 1) := (fifo p).out (p.FIFO_DEPTH - 1) s.AXIS_MISC

def w_d_out (gi : Nat) : FifoOut (p.DATA_WIDTH / 8) := (fifo p).out (p.FIFO_DEPTH - 1) (s.AXIS_D gi)

def s_axis_ready : Bool :=
  !((misc_out s).watermark || (List.range 8).any fun gi => (w_d_out s gi).watermark)

def m_axis_valid : Bool :=
  (misc_out s).data_valid && (List.range 8).all fun gi => (w_d_out s gi).data_valid

def m_axis : Beat p where
  data := (of_lanes 8 fun gi => (w_d_out s gi).pop_data).setWidth p.DATA_WIDTH
  last := (misc_out s).pop_data.getLsbD 0
  keep := (misc_out s).pop_data.extractLsb' 1 p.KEEP_WIDTH

def push : Bool := i.s_axis_valid && s_axis_ready s

def pop : Bool := m_axis_valid s && i.m_axis_ready

def misc_in : FifoIn (p.KEEP_WIDTH + 1) :=
  ⟨i.sync_rst_n, p.FIFO_DEPTH - 1, push i s, misc i.s_axis, pop i s⟩

def w_d_in (gi : Nat) : FifoIn (p.DATA_WIDTH / 8) :=
  ⟨i.sync_rst_n, p.FIFO_DEPTH - 1, push i s, w_d gi i.s_axis, pop i s⟩

/-- A beat that comes in. -/
def s_beat : Option (Beat p) := if push i s then some i.s_axis else none

/-- A beat that goes out. -/
def m_beat : Option (Beat p) := if pop i s then some (m_axis s) else none

end

def axis : Circuit (In p) (Regs p) where
  reset := ⟨(fifo p).reset, fun _ => (fifo p).reset⟩
  step i s :=
    { AXIS_MISC := (fifo p).step (misc_in i s) s.AXIS_MISC
      AXIS_D := fun gi => (fifo p).step (w_d_in i s gi) (s.AXIS_D gi) }

/-! ## The nine FIFOs hold the parts of the same beats -/

/-- What the slices carry of a beat: all of it, if the data is cut into bytes. -/
def carried (b : Beat p) : Beat p :=
  { b with data := (of_lanes 8 fun gi => w_d gi b).setWidth p.DATA_WIDTH }

theorem carried_eq (h : 8 ∣ p.DATA_WIDTH) (b : Beat p) : carried b = b := by
  obtain ⟨c, hc⟩ := h
  have hdiv : p.DATA_WIDTH / 8 * 8 = p.DATA_WIDTH := by omega
  have hdata : (of_lanes 8 fun gi => w_d gi b).setWidth p.DATA_WIDTH = b.data := by
    apply BitVec.eq_of_getLsbD_eq
    intro k hk
    have hpos : 0 < p.DATA_WIDTH / 8 := by omega
    have hmod := Nat.mod_lt k hpos
    have hsplit := Nat.div_add_mod k (p.DATA_WIDTH / 8)
    have hlane : k / (p.DATA_WIDTH / 8) < 8 :=
      Nat.div_lt_of_lt_mul (by rw [hdiv]; exact hk)
    have hbit := congrArg (BitVec.getLsbD · (k % (p.DATA_WIDTH / 8)))
      (lane_of_lanes (fun gi => w_d gi b) hlane)
    unfold w_d at hbit
    rw [getLsbD_lane _ _ hmod, getLsbD_lane _ _ hmod, hsplit] at hbit
    rw [BitVec.getLsbD_setWidth, decide_eq_true hk, Bool.true_and]
    exact hbit
  unfold carried
  rw [hdata]

theorem fifo_stores (p : Params) :
    ∃ R : {WIDTH : Nat} → (fifo p).Regs WIDTH → List (BitVec WIDTH) → Prop,
      (fifo p).Stores p.FIFO_DEPTH R := by
  by_cases h : p.IN_FIFO = true
  · rw [show fifo p = flop_fifo_in_regs p.FIFO_DEPTH p.LESS_RST from if_pos h]
    exact ⟨_, flop_fifo_in_stores p.deep p.LESS_RST⟩
  · rw [show fifo p = flop_fifo_regs p.FIFO_DEPTH from if_neg h]
    exact ⟨_, flop_fifo_stores p.deep⟩

/-- What the axis does to the beats that are stored. -/
def port (i : In p) (s : Regs p) : QueueIn (Beat p) := ⟨!i.sync_rst_n, s_beat i s, pop i s⟩

section Stores

variable {R : {WIDTH : Nat} → (fifo p).Regs WIDTH → List (BitVec WIDTH) → Prop} {i : In p}
  {s : Regs p} {q : List (Beat p)}

variable (R s q) in
structure Holds : Prop where
  rest : R s.AXIS_MISC (q.map misc)
  slices : ∀ gi, R (s.AXIS_D gi) (q.map (w_d gi))

/-- What the outputs say when these beats are stored. -/
structure Shows (s : Regs p) (q : List (Beat p)) : Prop where
  valid : m_axis_valid s = !q.isEmpty
  ready : s_axis_ready s = decide (q.length < p.FIFO_DEPTH)
  head : ∀ b ∈ q.head?, m_axis s = carried b
  lockstep : ∀ gi, (w_d_out s gi).data_valid = (misc_out s).data_valid ∧
    (w_d_out s gi).watermark = (misc_out s).watermark

theorem misc_last (b : Beat p) : (misc b).getLsbD 0 = b.last := by
  unfold misc
  rw [BitVec.getLsbD_append, if_pos Nat.zero_lt_one]
  cases b.last <;> rfl

theorem misc_keep (b : Beat p) : (misc b).extractLsb' 1 p.KEEP_WIDTH = b.keep := by
  apply BitVec.eq_of_getLsbD_eq
  intro k hk
  unfold misc
  rw [BitVec.getLsbD_extractLsb', decide_eq_true hk, Bool.true_and, BitVec.getLsbD_append,
    if_neg (by omega), Nat.add_sub_cancel_left]

theorem Holds.shows (hR : (fifo p).Stores p.FIFO_DEPTH R) (h : Holds R s q) : Shows s q := by
  have hdeep := p.deep
  have hmisc := hR.out (p.FIFO_DEPTH - 1) h.rest
  have hw_d := fun gi => hR.out (p.FIFO_DEPTH - 1) (h.slices gi)
  have hvalid : (misc_out s).data_valid = !q.isEmpty := by
    rw [misc_out, hmisc.data_valid, List.isEmpty_map]
  have hfull : (misc_out s).watermark = decide (p.FIFO_DEPTH - 1 < q.length) := by
    rw [misc_out, hmisc.watermark, List.length_map]
  have hlock : ∀ gi, (w_d_out s gi).data_valid = (misc_out s).data_valid ∧
      (w_d_out s gi).watermark = (misc_out s).watermark := by
    intro gi
    rw [hvalid, hfull, w_d_out, (hw_d gi).data_valid, (hw_d gi).watermark, List.isEmpty_map,
      List.length_map]
    exact ⟨rfl, rfl⟩
  refine ⟨?_, ?_, ?_, hlock⟩
  · unfold m_axis_valid
    simp only [hlock, hvalid]
    cases q.isEmpty <;> rfl
  · have hroom : (!decide (p.FIFO_DEPTH - 1 < q.length)) = decide (q.length < p.FIFO_DEPTH) := by
      rw [← decide_not, decide_eq_decide]
      omega
    unfold s_axis_ready
    simp only [hlock, hfull]
    rw [← hroom]
    cases decide (p.FIFO_DEPTH - 1 < q.length) <;> rfl
  · intro b hb
    have hhead : ∀ {β : Type} (f : Beat p → β), f b ∈ (q.map f).head? := by
      intro β f
      rw [List.head?_map, Option.mem_def.mp hb]
      rfl
    have hdata : (fun gi => (w_d_out s gi).pop_data) = fun gi => w_d gi b :=
      funext fun gi => (hw_d gi).pop_data _ (hhead _)
    have hrest : (misc_out s).pop_data = misc b := hmisc.pop_data _ (hhead _)
    unfold m_axis carried
    rw [hdata, hrest, misc_last, misc_keep]

theorem Shows.legal (h : Shows s q) : Queue.Legal p.FIFO_DEPTH (port i s) q where
  push hp := by
    unfold port s_beat push at hp
    have hready : s_axis_ready s = true := by
      by_contra hno
      simp [hno] at hp
    rw [h.ready] at hready
    exact of_decide_eq_true hready
  pop hp := by
    unfold port pop at hp
    have hvalid : m_axis_valid s = true := (Bool.and_eq_true _ _ ▸ hp).1
    rw [h.valid] at hvalid
    rintro rfl
    exact Bool.false_ne_true hvalid

theorem Holds.step (hR : (fifo p).Stores p.FIFO_DEPTH R)
    (hlegal : Queue.Legal p.FIFO_DEPTH (port i s) q) (hlen : q.length ≤ p.FIFO_DEPTH)
    (h : Holds R s q) : Holds R (axis.step i s) (Queue.next (port i s) q) := by
  -- each FIFO is pushed its part of the beat
  have hpart : ∀ {WIDTH : Nat} (f : Beat p → BitVec WIDTH) (m : (fifo p).Regs WIDTH),
      R m (q.map f) → R ((fifo p).step
        ⟨i.sync_rst_n, p.FIFO_DEPTH - 1, push i s, f i.s_axis, pop i s⟩ m)
        ((Queue.next (port i s) q).map f) := by
    intro WIDTH f m hm
    have hport : FifoIn.port ⟨i.sync_rst_n, p.FIFO_DEPTH - 1, push i s, f i.s_axis, pop i s⟩ =
        ⟨!i.sync_rst_n, (s_beat i s).map f, pop i s⟩ := by
      unfold FifoIn.port FifoIn.pushed s_beat
      cases push i s <;> rfl
    have hnext := hR.step (hport ▸ hlegal.map f) (by rwa [List.length_map]) hm
    rwa [hport, Queue.next_map] at hnext
  exact ⟨hpart misc _ h.rest, fun gi => hpart (w_d gi) _ (h.slices gi)⟩

end Stores

/-! ## Runs -/

variable (ins : Nat → In p)

/-- The beats that are stored in cycle `n`. -/
def beats (n : Nat) : List (Beat p) := Queue.stored axis ins port n

/-- The beats that came in since the last reset. -/
def accepted : Nat → List (Beat p) :=
  axis.since ins (fun i => !i.sync_rst_n) (fun i s => (s_beat i s).toList)

/-- The beats that went out since the last reset. -/
def delivered : Nat → List (Beat p) :=
  axis.since ins (fun i => !i.sync_rst_n) (fun i s => (m_beat i s).toList)

/-- What the module does in a run. -/
structure Passes : Prop where
  room : ∀ n, (beats ins n).length ≤ p.FIFO_DEPTH
  /-- The nine FIFOs are in lockstep, and the handshakes follow what is stored. -/
  shows : ∀ n, Shows (axis.state ins n) (beats ins n)
  /-- No beat is lost, none comes twice, and the order stays. -/
  stream : 8 ∣ p.DATA_WIDTH → ∀ n, accepted ins n = delivered ins n ++ beats ins n

theorem passes : Passes ins := by
  obtain ⟨R, hR⟩ := fifo_stores p
  have hrel : ∀ n, (beats ins n).length ≤ p.FIFO_DEPTH ∧ Holds R (axis.state ins n) (beats ins n) :=
    Queue.stored_rel (c := axis) port ⟨hR.reset, fun _ => hR.reset⟩
      (fun _ _ _ hl hlen h => h.step hR hl hlen) (fun _ h => (h.shows hR).legal)
  have hshows := fun n => (hrel n).2.shows hR
  refine ⟨fun n => (hrel n).1, hshows, fun hbytes => ?_⟩
  apply Queue.pushed_eq port (fun n => (hshows n).legal.pop)
  · intro n
    change (m_beat (ins n) (axis.state ins n)).toList =
      if pop (ins n) (axis.state ins n) then (beats ins n).head?.toList else []
    unfold m_beat
    split
    case isTrue hpop =>
      obtain ⟨b, l, hq⟩ := List.exists_cons_of_ne_nil ((hshows n).legal.pop hpop)
      have hhead : (beats ins n).head? = some b := by rw [hq]; rfl
      rw [(hshows n).head b hhead, carried_eq hbytes, hhead]
    case isFalse => rfl
  · intro n
    rfl

/-- Used as they should be, the two FIFOs are the same queue, and through nine of either kind a
stream passes unchanged. -/
theorem flop_fifos :
    (∀ (WIDTH DEPTH LESS_RST : Nat) (ins : Nat → FifoIn WIDTH), 2 ≤ DEPTH →
      (∀ n, Queue.Legal DEPTH (ins n).port (words ins n)) →
      (∀ n, SameFifo DEPTH LESS_RST ins n) ∧ (flop_fifo_regs DEPTH).IsQueue DEPTH ins ∧
        (flop_fifo_in_regs DEPTH LESS_RST).IsQueue DEPTH ins) ∧
    ∀ (p : Params) (ins : Nat → In p), Passes ins :=
  ⟨fun _ _ LESS_RST _ hdepth hlegal => ⟨same_fifo hdepth LESS_RST hlegal,
    (flop_fifo_stores hdepth).isQueue hlegal, (flop_fifo_in_stores hdepth LESS_RST).isQueue hlegal⟩,
    fun _ ins => passes ins⟩

/-- Four entries are filled and then emptied in part. A reset takes the rest, and two words more
come in. -/
def filled (n : Nat) : FifoIn 8 where
  sync_rst_n := n ≠ 7
  cfg_watermark := 2
  push := n ∈ [0, 1, 2, 3, 5, 9, 10]
  push_data := BitVec.ofNat 8 n
  pop := n ∈ [4, 5, 6, 11]

theorem filled_legal (n : Nat) : Queue.Legal 4 (filled n).port (words filled n) where
  push h := by
    have hpush : (filled n).push = true := by
      by_contra hno
      simp [FifoIn.port, FifoIn.pushed, eq_false_of_ne_true hno] at h
    have hroom : ∀ k ∈ [0, 1, 2, 3, 5, 9, 10], (words filled k).length < 4 := by decide +kernel
    exact hroom n (of_decide_eq_true hpush)
  pop h := by
    have hsome : ∀ k ∈ [4, 5, 6, 11], words filled k ≠ [] := by decide +kernel
    exact hsome n (of_decide_eq_true h)

theorem filled_in_order :
    (∀ n, SameFifo 4 1 filled n) ∧ (flop_fifo_regs 4).IsQueue 4 filled ∧
      (flop_fifo_in_regs 4 1).IsQueue 4 filled ∧
      (flop_fifo_regs 4).popped filled 7 = [0, 1, 2] ∧ (flop_fifo_regs 4).popped filled 12 = [9] :=
  have h := flop_fifos.1 8 4 1 filled (by decide) filled_legal
  ⟨h.1, h.2.1, h.2.2, by decide +kernel, by decide +kernel⟩

end AwsFpga.Rtl.AxisFlopFifo
