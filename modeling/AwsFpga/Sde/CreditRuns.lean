import AwsFpga.Sde.Credits

/-!
# The credits of a slot in every run

Between two closes a slot takes its calls in any order. After `sde_mgmt_reset` the
hardware counts from its room again, but the driver goes on from what it used before.
-/

open Lib Lib.Credit AwsFpga.Pci

namespace AwsFpga.Sde

/-! ## Runs -/

/-- A slot under the calls of the driver: a step of a run is made on this element. -/
def slotBody (slot_id : Int) (call : SdeCall) (m : SdeMgmt) : Prog SdeApi SdeMgmt := do
  let r ← call.body slot_id m
  return r.2

/-- The calls between two closes. Descriptors are posted by the calls that waited for credits. -/
def Listed : SdeCall → Prop
  | .close => False
  | .post_desc .. => False
  | _ => True

/-- The condition: a reset comes before the driver used more than the room there is, and a
configuration before anything was posted since the reset. -/
def KeepsCredits (m : SdeMgmt) (dev : Device) : SdeCall → Prop
  | .reset => m.initialized = true → ∀ s, (m.desc_consumed s).toNat ≤ Engine.DESC_RAM_DEPTH
  | .cfg => m.initialized = true → ∀ s, (dev.dir s).Idle (m.desc_consumed s)
  | _ => True

def MayCall (call : SdeCall) (m : SdeMgmt) (dev : Device) : Prop :=
  Listed call ∧ KeepsCredits m dev call

theorem body_safe {slot_id : Int} {call : SdeCall} {m : SdeMgmt} {dev : Device} (h : Rest m dev)
    (hmay : MayCall call m dev) : Device.env.Safe Fits Rest (slotBody slot_id call m) dev := by
  have hbody : Device.env.Safe Fits (fun r dev => Rest r.2 dev) (call.body slot_id m) dev := by
    by_cases hinit : m.initialized = true
    · obtain ⟨hbuffer, hopen⟩ := h.live hinit
      cases call with
      | init direction packet_size layout => exact init_safe h
      | close => exact hmay.1.elim
      | reset => exact reset_safe hbuffer (hmay.2 hinit) hopen
      | cfg => exact cfg_safe hbuffer ⟨hopen.toBound, hmay.2 hinit⟩
      | post_desc => exact hmay.1.elim
      | start_read size => exact start_read_safe hbuffer hopen
      | write size => exact write_safe hbuffer hopen
      | _ => exact passive_safe h trivial
    · have hclosed : m.initialized = false := by simpa using hinit
      cases call with
      | init direction packet_size layout => exact init_safe h
      | _ =>
        rw [body_closed hclosed (by simp)]
        exact rest_pure h
  refine Env.safe_bind hbody fun r dev h => ?_
  exact Env.safe_pure (rest_stable r.2) h fun dev h => h

/-- No RAM holds more descriptors than it has room for, and between the calls the credits of a
direction are not more than what is free. -/
structure Credited (c : Env.Config SdeApi SdeMgmt × Device) : Prop where
  fifo : ∀ s, (c.2.dir s).fifo ≤ Engine.DESC_RAM_DEPTH
  credits : ∀ m, c.1 = .rest m → m.initialized = true → ∀ s,
    ((c.2.dir s).desc_limit - m.desc_consumed s).toNat ≤
      Engine.DESC_RAM_DEPTH - (c.2.dir s).fifo

theorem credited_of_ok {c : Env.Config SdeApi SdeMgmt × Device}
    (h : Env.Ok Device.env Fits Rest c) : Credited c := by
  have hfits : Fits c.2 := Env.ok_inv rest_stable h
  refine ⟨fun s => Engine.fifo_le (hfits s), ?_⟩
  obtain ⟨c, dev⟩ := c
  rintro m rfl hinit s
  have hroom := ((h.live hinit).2.account s).room
  have hsum : (avail (dev.dir s).desc_limit (m.desc_consumed s) + (dev.dir s).fifo) * dwords s ≤
      Engine.DESC_RAM_DEPTH * dwords s := by
    unfold Engine.level none_granted at hroom
    rw [Nat.add_mul]
    omega
  have := Nat.le_of_mul_le_mul_right hsum (dwords_pos s)
  exact Nat.le_sub_of_add_le this

/-- From any device whose RAMs are not over-full, before the slot is opened for the first time. -/
theorem credited_run {slot_id : Int} {dev : Device} {c : Env.Config SdeApi SdeMgmt × Device}
    (hfits : Fits dev)
    (hreach : Relation.ReflTransGen (Env.Step Device.env (slotBody slot_id) MayCall)
      (.rest .zero, dev) c) : Credited c := by
  have hstart : Env.Ok Device.env Fits Rest (.rest SdeMgmt.zero, dev) :=
    ⟨hfits, fun hinit => by cases hinit⟩
  exact credited_of_ok (Env.reaches_ok rest_stable (fun _ _ _ h hmay => body_safe h hmay) hreach hstart)

/-! ## Runs that happen -/

/-- A slot that was opened for packets of 64 bytes, with the next descriptor at the start of the
ring. -/
structure Ready (m : SdeMgmt) : Prop where
  initialized : m.initialized = true
  hw_ctrl : m.hw_ctrl = ⟨0, 0, 1, 2, true⟩
  status : m.c2h_status = 0x10800
  status_pa : (sde_mem_get_status m.mem .c2h).2 = 0x10800
  direction : m.direction = .c2h
  ctrl : m.c2h_buffer.ctrl = true
  subsystem : m.c2h_buffer.subsystem = .c2h
  num_desc : m.c2h_buffer.num_desc = 64
  pkt_size : m.c2h_buffer.pkt_size = 64
  num_buffers : m.c2h_buffer.num_buffers = 1
  buffers : m.c2h_buffer.buffers.isSome
  index : m.c2h_buffer.curr_desc_index_to_post = 0

theorem Ready.reset {m : SdeMgmt} (hm : Ready m) (md_read_index : Nat) :
    Ready { m with md_read_index } :=
  ⟨hm.initialized, hm.hw_ctrl, hm.status, hm.status_pa, hm.direction, hm.ctrl, hm.subsystem,
    hm.num_desc, hm.pkt_size, hm.num_buffers, hm.buffers, hm.index⟩

/-- Its device, where the memory of C2H is at 0x10000. -/
structure At (dev : Device) (d : Engine) : Prop where
  bar0 : dev.bar 0 = some APP_PF_BAR0
  bar4 : dev.bar 1 = some APP_PF_BAR4
  dir : dev.dir .c2h = d
  memory_va : d.memory_va = 0x10000
  memory_pa : d.memory_pa = 0x10000

section Can

variable {m : SdeMgmt} {dev : Device} {d : Engine}

theorem At.poke (h : At dev d) (offset : BitVec 64) (value : BitVec 32) :
    At (dev.poke 1 offset value) (d.poke .c2h offset value) := by
  have hne : ¬ (some APP_PF_BAR4 = some APP_PF_BAR0) := by decide
  have hmem : ∀ d : Engine, (d.poke .c2h offset value).memory_va = d.memory_va ∧
      (d.poke .c2h offset value).memory_pa = d.memory_pa := by
    intro d
    unfold Engine.poke
    split
    · unfold Engine.push
      split <;> exact ⟨rfl, rfl⟩
    · split
      · exact ⟨rfl, rfl⟩
      · split
        · exact ⟨rfl, rfl⟩
        · split
          · exact ⟨rfl, rfl⟩
          · split <;> exact ⟨rfl, rfl⟩
  refine ⟨?_, ?_, ?_, (hmem d).1.trans h.memory_va, (hmem d).2.trans h.memory_pa⟩
  · rw [poke_bar]
    exact h.bar0
  · rw [poke_bar]
    exact h.bar4
  · unfold Device.poke
    rw [h.bar4, if_neg hne, if_pos rfl]
    exact congrArg (·.poke .c2h offset value) h.dir

theorem post_dwords_can (h : At dev d) (f : Nat → BitVec 32) (left index : Nat) :
    ∃ dev', Device.env.Can (ofPci (post_dwords 1 (DESC_RAM_MAP_OFFSET .c2h) f left index)) dev 0 dev' ∧
      At dev' ((fun d => d.push .c2h)^[left] d) := by
  induction left generalizing dev d index with
  | zero => exact ⟨dev, ⟨rfl, rfl⟩, h⟩
  | succ left ih =>
    have hpoke := h.poke (DESC_RAM_MAP_OFFSET .c2h) (f index)
    rw [poke_desc, if_pos rfl] at hpoke
    obtain ⟨dev', hcan, hat⟩ := ih hpoke (index + 1)
    exact ⟨dev', ⟨(0 : Int), _, rfl, hcan⟩, hat⟩

theorem push_iterate (hacc : d.acc = 0) (n : Nat) :
    (fun d => d.push .c2h)^[n * 4] d = { d with fifo := d.fifo + n } := by
  induction n with
  | zero => rfl
  | succ n ih =>
    rw [Nat.succ_mul, Nat.add_comm, Function.iterate_add_apply, ih]
    obtain ⟨fifo, acc, cdt_limit, wb_ctl, lo, hi, va, pa, desc_limit⟩ := d
    obtain rfl : acc = 0 := hacc
    rfl

theorem checked_open {α : Type} (hm : Ready m) (fail : Int → Prog SdeApi α) (k : Prog SdeApi α) :
    checked 0 m fail k = k := by
  unfold checked
  rw [if_neg (by decide), if_neg (by rw [hm.initialized]; decide)]

theorem wait_loop_can (h : At dev d) {rounds credits : Nat}
    (hcredits : 64 ≤ (d.desc_limit - m.c2h_desc_consumed).toNat) :
    Device.env.Can (wait_loop m .c2h 64 (rounds + 1) credits) dev
      (d.desc_limit - m.c2h_desc_consumed).toNat dev := by
  have hload : Device.Answers (.status_load .c2h (m.status .c2h) .desc_limit) dev d.desc_limit dev :=
    ⟨rfl, fun _ => congrArg Engine.desc_limit h.dir.symm⟩
  refine Env.can_op_bind hload ?_
  have hge : ¬ (d.desc_limit - m.desc_consumed .c2h).toNat < 64 := Nat.not_lt.mpr hcredits
  dsimp only
  rw [if_neg hge]
  exact ⟨rfl, rfl⟩

theorem wait_credit_can (hm : Ready m) (h : At dev d)
    (hcredits : 64 ≤ (d.desc_limit - m.c2h_desc_consumed).toNat) :
    Device.env.Can (sde_mgmt_wait_desc_credit 0 .c2h 64 m) dev 0 dev := by
  unfold sde_mgmt_wait_desc_credit
  rw [checked_open hm, if_neg (by decide), show DESC_WAIT_MAX_ITERS = 999999 + 1 from rfl]
  refine Env.can_bind (wait_loop_can h hcredits) ?_
  rw [if_neg (Nat.not_lt.mpr hcredits)]
  exact ⟨rfl, rfl⟩

theorem post_loop_can (h : At dev d) (hacc : d.acc = 0) {b : SdeDmaBuffer}
    (hsubsystem : b.subsystem = .c2h) (hnum : b.num_desc = 64)
    (hindex : b.curr_desc_index_to_post = 0) : ∃ dev',
      Device.env.Can (post_loop (some ⟨0, 0, 1, 2, true⟩) 64 65 0 b) dev ⟨0, 64, b⟩ dev' ∧
        At dev' { d with fifo := d.fifo + 64 } := by
  obtain ⟨layout, subsystem, ctrl, va, desc, num_desc, size, buffers, num_buffers, pkt_size, cur,
    index⟩ := b
  obtain rfl : subsystem = .c2h := hsubsystem
  obtain rfl : num_desc = 64 := hnum
  obtain rfl : index = 0 := hindex
  obtain ⟨dev', hcan, hat⟩ := post_dwords_can h (fun k => desc (0 * (size / 4) + k)) (64 * 4) 0
  rw [push_iterate hacc] at hat
  refine ⟨dev', ?_, hat⟩
  have hall : (if (64 + 2 ^ 64 - 0) % 2 ^ 64 < 64 - 0 then (64 + 2 ^ 64 - 0) % 2 ^ 64 else 64 - 0) = 64 := by
    decide
  unfold post_loop
  rw [if_pos (by decide)]
  dsimp only
  rw [hall]
  refine Env.can_bind (a := 0) hcan ?_
  exact ⟨rfl, rfl⟩

theorem post_desc_can (hm : Ready m) (h : At dev d) (hacc : d.acc = 0) :
    ∃ dev', Device.env.Can (sde_mgmt_post_desc 0 .c2h 64 m) dev
      (0, 64, { m with c2h_desc_consumed := m.c2h_desc_consumed + 64 }) dev' ∧
        At dev' { d with fifo := d.fifo + 64 } := by
  obtain ⟨dev', hcan, hat⟩ := post_loop_can h hacc hm.subsystem hm.num_desc hm.index
  refine ⟨dev', ?_, hat⟩
  unfold sde_mgmt_post_desc
  rw [checked_open hm, if_neg (by decide)]
  refine Env.can_bind (a := ⟨0, 64, m.c2h_buffer⟩) ?_ ⟨rfl, rfl⟩
  unfold sde_dma_post_desc
  rw [show (m.buffer .c2h).ctrl = true from hm.ctrl, if_pos rfl, hm.hw_ctrl]
  exact hcan

theorem start_read_can (hm : Ready m) (h : At dev d) (hacc : d.acc = 0)
    (hcredits : 64 ≤ (d.desc_limit - m.c2h_desc_consumed).toNat) :
    ∃ dev', Device.env.Can (slotBody 0 (.start_read 4096) m) dev
      { m with c2h_desc_consumed := m.c2h_desc_consumed + 64 } dev' ∧
        Ready { m with c2h_desc_consumed := m.c2h_desc_consumed + 64 } ∧
        At dev' { d with fifo := d.fifo + 64 } := by
  obtain ⟨dev', hcan, hat⟩ := post_desc_can hm h hacc
  refine ⟨dev', Env.can_bind (a := (0, _)) ?_ ⟨rfl, rfl⟩, ?_, hat⟩
  rotate_left
  · exact ⟨hm.initialized, hm.hw_ctrl, hm.status, hm.status_pa, hm.direction, hm.ctrl, hm.subsystem,
      hm.num_desc, hm.pkt_size, hm.num_buffers, hm.buffers, hm.index⟩
  change Device.env.Can (sde_mgmt_start_read 0 4096 m) dev _ dev'
  unfold sde_mgmt_start_read transfer
  rw [checked_open hm, if_pos (by decide), show (m.buffer .c2h).pkt_size = 64 from hm.pkt_size,
    if_neg (by decide), show desc_for_size 4096 64 = 64 by decide]
  refine Env.can_bind (wait_credit_can hm h hcredits) ?_
  rw [if_neg (by decide)]
  exact Env.can_bind hcan ⟨rfl, rfl⟩

/-- The hardware pops all descriptors, and then writes its limit back. -/
theorem drain_moves (h : At dev d) (harmed : d.Armed) : ∃ dev',
    Relation.ReflTransGen Device.Moves dev dev' ∧
      At dev' { d with
        fifo := 0
        cdt_limit := d.cdt_limit + BitVec.ofNat 32 d.fifo
        desc_limit := d.cdt_limit + BitVec.ofNat 32 d.fifo } := by
  have hset : ∀ {dev : Device} {d : Engine} (d' : Engine), At dev d → d'.memory_va = 0x10000 →
      d'.memory_pa = 0x10000 → At (dev.set .c2h d') d' :=
    fun d' h hva hpa => ⟨h.bar0, h.bar4, (set_dir _ _).trans (if_pos rfl), hva, hpa⟩
  have hpops : ∀ n (d : Engine) (dev : Device), d.fifo = n → At dev d → ∃ dev',
      Relation.ReflTransGen Device.Moves dev dev' ∧
        At dev' { d with fifo := 0, cdt_limit := d.cdt_limit + BitVec.ofNat 32 d.fifo } := by
    intro n
    induction n with
    | zero =>
      intro d dev hfifo h
      refine ⟨dev, .refl, ?_⟩
      have heq : ({ d with fifo := 0, cdt_limit := d.cdt_limit + BitVec.ofNat 32 d.fifo } : Engine) = d := by
        rw [hfifo, BitVec.add_zero]
        rw [← hfifo]
      rw [heq]
      exact h
    | succ n ih =>
      intro d dev hfifo h
      have hpos : 0 < (dev.dir .c2h).fifo := by
        rw [h.dir, hfifo]
        exact Nat.succ_pos n
      have hpop := hset d.pop h h.memory_va h.memory_pa
      obtain ⟨dev', hmoves, hat⟩ := ih d.pop _ (by rw [Engine.pop, hfifo]; rfl) hpop
      have hmove : Device.Moves dev (dev.set .c2h d.pop) := h.dir ▸ Device.Moves.pop .c2h hpos
      refine ⟨dev', .head hmove hmoves, ?_⟩
      have heq : d.cdt_limit + 1 + BitVec.ofNat 32 (d.fifo - 1) =
          d.cdt_limit + BitVec.ofNat 32 d.fifo := by
        rw [hfifo, Nat.add_sub_cancel, BitVec.add_assoc, ← BitVec.ofNat_add_ofNat, BitVec.add_comm 1]
        rfl
      rw [← heq]
      exact hat
  obtain ⟨dev', hmoves, hat⟩ := hpops d.fifo d dev rfl h
  refine ⟨_, hmoves.tail (.write_back .c2h ?_), ?_⟩
  · rw [hat.dir]
    exact harmed
  · rw [hat.dir]
    exact hset _ hat h.memory_va h.memory_pa

/-! ### Configuring and resetting -/

theorem can_poke_bind {α : Type} {handle : Int} {offset : BitVec 64} {value : BitVec 32}
    {f : Int → Prog PciApi α} {a : α} {dev' : Device}
    (h : Device.env.Can (ofPci (f 0)) (dev.poke handle offset value) a dev') :
    Device.env.Can (ofPci (fpga_pci_poke handle offset value >>= f)) dev a dev' :=
  ⟨(0 : Int), _, (if_pos rfl).symm, h⟩

theorem can_peek_bind {α : Type} {handle : Int} {offset : BitVec 64} (data : BitVec 32)
    {f : Int × BitVec 32 → Prog PciApi α} {a : α} {dev' : Device}
    (h : Device.env.Can (ofPci (f (0, data))) dev a dev') :
    Device.env.Can (ofPci (fpga_pci_peek handle offset >>= f)) dev a dev' :=
  ⟨((0 : Int), data), dev, rfl, h⟩

theorem poke_all_can (handle : Int) (ws : List RegWrite) (dev : Device) :
    Device.env.Can (ofPci (poke_all handle ws)) dev 0
      (ws.foldl (fun dev w => dev.poke handle w.offset w.value) dev) := by
  induction ws generalizing dev with
  | nil => exact ⟨rfl, rfl⟩
  | cons w ws ih =>
    unfold poke_all
    rw [ofPci_bind]
    have hverify : Device.env.Can (ofPci (poke_and_verify handle w.offset w.value w.expected_value
        w.mask)) dev 0 (dev.poke handle w.offset w.value) := by
      unfold poke_and_verify
      refine can_poke_bind ?_
      rw [if_neg (by decide)]
      refine can_peek_bind w.expected_value ?_
      dsimp only
      rw [if_neg (by decide), if_neg (not_not.mpr rfl)]
      exact ⟨rfl, rfl⟩
    refine Env.can_bind hverify ?_
    rw [if_neg (by decide)]
    exact ih _

theorem At.pokes (h : At dev d) (ws : List RegWrite) :
    At (ws.foldl (fun dev w => dev.poke 1 w.offset w.value) dev)
      (ws.foldl (fun d w => d.poke .c2h w.offset w.value) d) := by
  induction ws generalizing dev d with
  | nil => exact h
  | cons w ws ih => exact ih (h.poke w.offset w.value)

theorem pokes_bar0 (h : dev.bar 0 = some APP_PF_BAR0) {ws : List RegWrite}
    (hws : ∀ w ∈ ws, w.offset ≠ SDE_GENERAL_PURPOSE_CFG_REG) :
    ws.foldl (fun dev w => dev.poke 0 w.offset w.value) dev = dev := by
  induction ws with
  | nil => rfl
  | cons w ws ih =>
    obtain ⟨hw, hws⟩ := List.forall_mem_cons.mp hws
    have hpoke : dev.poke 0 w.offset w.value = dev := by
      unfold Device.poke
      rw [if_pos h, if_neg fun hc => hw hc.1]
    rw [List.foldl_cons, hpoke]
    exact ih hws

theorem cfg_writes_can (bar : SdeHwCtrl → Int) (ws : List RegWrite) (dev : Device) :
    Device.env.Can (ofPci (cfg_writes (some ⟨0, 0, 1, 2, true⟩) bar ws)) dev 0
      (ws.foldl (fun dev w => dev.poke (bar ⟨0, 0, 1, 2, true⟩) w.offset w.value) dev) := by
  unfold cfg_writes
  dsimp only
  rw [if_neg (by decide)]
  exact poke_all_can _ ws dev

/-- What the configuration makes of the engine. -/
def configured (d : Engine) : Engine :=
  { d with
    wb_ctl := 0x7f4, status_addr_lo := 0x10800, status_addr_hi := 0
    cdt_limit := BitVec.ofNat 32 Engine.DESC_RAM_DEPTH }

theorem cfg_packets_can (hm : Ready m) (dev : Device) : ∃ m',
    Device.env.Can (sde_mgmt_cfg_packets m) dev (0, m') dev ∧ Ready m' ∧
      m'.c2h_desc_consumed = m.c2h_desc_consumed := by
  obtain ⟨buffers, hbuffers⟩ := Option.isSome_iff_exists.mp hm.buffers
  have hdesc : sde_dma_init_desc_buffer m.c2h_buffer = (0, { m.c2h_buffer with
      desc := init_desc buffers m.c2h_buffer
      curr_desc_index_to_post := 0
      current_buffer_index := 0 }) := by
    unfold sde_dma_init_desc_buffer
    rw [if_neg (by rw [hm.num_buffers]; decide)]
    split
    case h_1 hnone =>
      rw [hbuffers] at hnone
      cases hnone
    case h_2 buffers' hsome =>
      rw [hbuffers] at hsome
      cases hsome
      rfl
  refine ⟨m.set_buffer .c2h (sde_dma_init_desc_buffer m.c2h_buffer).2, ?_, ?_, rfl⟩
  · have hc2h : Device.env.Can (cfg_packets_of .c2h .h2c m) dev
        (0, m.set_buffer .c2h (sde_dma_init_desc_buffer m.c2h_buffer).2) dev := by
      unfold cfg_packets_of
      rw [if_pos (by rw [hm.direction]; decide)]
      have hret : (sde_dma_init_desc_buffer (m.buffer .c2h)).1 = 0 := congrArg Prod.fst hdesc
      exact ⟨Prod.ext hret.symm rfl, rfl⟩
    · refine Env.can_failOn hc2h ?_
      unfold cfg_packets_of
      rw [if_neg (fun hne => hne hm.direction)]
      exact ⟨rfl, rfl⟩
  · rw [hdesc]
    exact ⟨hm.initialized, hm.hw_ctrl, hm.status, hm.status_pa, hm.direction, hm.ctrl, hm.subsystem,
      hm.num_desc, hm.pkt_size, hm.num_buffers, hm.buffers, rfl⟩

theorem cfg_atg_can (hm : Ready m) (h : dev.bar 0 = some APP_PF_BAR0) :
    Device.env.Can (sde_mgmt_cfg_c2h_atg m) dev (0, m) dev := by
  have hbar0 : ∀ ws : List RegWrite, (∀ w ∈ ws, w.offset ≠ SDE_GENERAL_PURPOSE_CFG_REG) →
      Device.env.Can (ofPci (cfg_writes (some m.hw_ctrl) SdeHwCtrl.bar0_handle ws)) dev 0 dev := by
    intro ws hws
    have := cfg_writes_can SdeHwCtrl.bar0_handle ws dev
    rw [pokes_bar0 h hws] at this
    rw [hm.hw_ctrl]
    exact this
  unfold sde_mgmt_cfg_c2h_atg
  rw [hm.direction]
  refine Env.can_bind (hbar0 _ ?_) ?_
  · simp
    decide
  · refine Env.can_bind (hbar0 _ ?_) ⟨rfl, rfl⟩
    simp [RegWrite.full]
    decide

theorem cfg_can (hm : Ready m) (h : At dev d) : ∃ m' dev',
    Device.env.Can (slotBody 0 .cfg m) dev m' dev' ∧ Ready m' ∧
      m'.c2h_desc_consumed = m.c2h_desc_consumed ∧ At dev' (configured d) := by
  have hbar4 : ∀ (ws : List RegWrite) (dev : Device),
      Device.env.Can (ofPci (cfg_writes (some m.hw_ctrl) SdeHwCtrl.bar4_handle ws)) dev 0
        (ws.foldl (fun dev w => dev.poke 1 w.offset w.value) dev) := by
    intro ws dev
    rw [hm.hw_ctrl]
    exact cfg_writes_can _ ws dev
  have hc2h : ∃ dev', Device.env.Can (sde_mgmt_cfg_c2h m) dev (0, m) dev' ∧ At dev' (configured d) := by
    have hat := h.pokes (cfg_common .c2h 0x7f4 0x10800 ++
      [.full SDE_C2H_MD_RING_BADDR_LO_REG ((sde_mem_get_metadata m.mem).2.setWidth 32),
      .full SDE_C2H_MD_RING_BADDR_HI_REG (((sde_mem_get_metadata m.mem).2 >>> 32).setWidth 32),
      .full SDE_C2H_MD_RING_SZ_REG 0x400,
      .full SDE_C2H_MD_RING_RD_PTR_REG 0,
      .full SDE_C2H_MD_RING_WR_PTR_REG 0])
    refine ⟨_, Env.can_bind (a := 0) ?_ ⟨rfl, rfl⟩, hat⟩
    unfold sde_hw_cfg_c2h
    rw [hm.status_pa]
    exact hbar4 _ dev
  obtain ⟨dev₁, hc2h, hat₁⟩ := hc2h
  have hh2c : ∃ dev', Device.env.Can (sde_mgmt_cfg_h2c m) dev₁ (0, m) dev' ∧ At dev' (configured d) :=
    ⟨_, Env.can_bind (a := 0) (hbar4 _ dev₁) ⟨rfl, rfl⟩,
      hat₁.pokes (cfg_common .h2c 0x774 (sde_mem_get_status m.mem .h2c).2)⟩
  obtain ⟨dev₂, hh2c, hat₂⟩ := hh2c
  obtain ⟨m', hpackets, hm', hconsumed⟩ := cfg_packets_can hm dev₂
  refine ⟨m', dev₂, Env.can_bind (a := (0, m')) ?_ ⟨rfl, rfl⟩, hm', hconsumed, hat₂⟩
  change Device.env.Can (sde_mgmt_cfg 0 m) dev (0, m') dev₂
  unfold sde_mgmt_cfg
  rw [checked_open hm]
  exact Env.can_failOn hc2h (Env.can_failOn hh2c (Env.can_failOn (cfg_atg_can hm hat₂.bar0) hpackets))

/-! ### Opening -/

def powerOn : Device :=
  ⟨fun _ => none, fun _ => ⟨0, 0, BitVec.ofNat 32 Engine.DESC_RAM_DEPTH, 0, 0, 0, 0, 0, 0⟩⟩

theorem powerOn_fits : Fits powerOn := by
  intro s
  cases s <;> decide

/-- The engine under a slot that was just opened. -/
def openedEngine : Engine :=
  ⟨0, 0, BitVec.ofNat 32 Engine.DESC_RAM_DEPTH, 0, 0, 0, 0x10000, 0x10000, 0⟩

theorem map_works (s : SdeSubsystem) (size va pa : BitVec 64) (h : (dev.dir s).wb_ctl = 0) :
    Device.Answers (.map_anon (.writeback s) size) dev ((0 : Int), va, pa)
      (dev.set s { dev.dir s with memory_va := va, memory_pa := pa, desc_limit := 0 }) := by
  have hfree : ¬ (dev.dir s).WritesTo (Engine.status_offset + pa) := by
    rintro ⟨hctl, -⟩
    rw [h] at hctl
    exact hctl rfl
  unfold Device.Answers
  dsimp only
  rw [if_pos rfl]
  exact ⟨hfree, rfl⟩

theorem attach_works (bar_id : Int) (flags : BitVec 32) (handle : Int) (h : dev.bar handle = none) :
    Device.Answers (.pci (.attach 0 FPGA_APP_PF bar_id flags)) dev ((0 : Int), handle)
      { dev with bar := Function.update dev.bar handle (some bar_id) } := by
  unfold Device.Answers
  dsimp only
  rw [if_pos rfl]
  exact ⟨h, rfl⟩

theorem init_can : ∃ m dev,
    Device.env.Can (slotBody 0 (.init .c2h 64 .single) .zero) powerOn m dev ∧ Ready m ∧
      (∀ s, m.desc_consumed s = 0) ∧ At dev openedEngine := by
  have hcan : ∃ m dev, Device.env.Can (sde_mgmt_init 0 .c2h 64 .single .zero) powerOn (0, m) dev ∧
      Ready m ∧ (∀ s, m.desc_consumed s = 0) ∧ At dev openedEngine := by
    refine ⟨_, _, ⟨((0 : Int), (0x10000 : BitVec 64), (0x10000 : BitVec 64)), _,
      map_works .c2h (writeback_layout .c2h).memory_size 0x10000 0x10000 rfl,
      ((0 : Int), (0x20000 : BitVec 64), (0x20000 : BitVec 64)), _,
      map_works .h2c (writeback_layout .h2c).memory_size 0x20000 0x20000 rfl,
      true, _, rfl, ((0 : Int), (0x30000 : BitVec 64), (0x30000 : BitVec 64)), _, rfl,
      ((0 : Int), (0 : Int)), _, attach_works APP_PF_BAR0 0 0 rfl, ((0 : Int), (1 : Int)), _,
      attach_works APP_PF_BAR4 0 1 rfl, ((0 : Int), (2 : Int)), _,
      attach_works APP_PF_BAR4 BURST_CAPABLE 2 rfl, rfl, rfl⟩, ?_, ?_, ?_⟩
    · exact ⟨rfl, rfl, rfl, rfl, rfl, rfl, rfl, rfl, rfl, rfl, rfl, rfl⟩
    · intro s
      cases s <;> rfl
    · exact ⟨rfl, rfl, rfl, rfl, rfl⟩
  obtain ⟨m, dev, hcan, hm, hconsumed, hat⟩ := hcan
  exact ⟨m, dev, Env.can_bind hcan ⟨rfl, rfl⟩, hm, hconsumed, hat⟩

theorem store_can (h : At dev d) (m : SdeMgmt) (s : SdeSubsystem) (field : StatusField)
    (hstatus : m.c2h_status = 0x10800) (value : BitVec 32) {d' : Engine}
    (hd' : d' = if s = .c2h ∧ field = .desc_limit then { d with desc_limit := value } else d) :
    ∃ dev', Device.env.Can (status_store m s field value) dev () dev' ∧ At dev' d' := by
  by_cases hfield : field = .desc_limit
  · subst hfield
    refine ⟨_, ⟨(), _, rfl, rfl, rfl⟩, ?_⟩
    cases s with
    | c2h =>
      rw [if_pos ⟨rfl, rfl⟩] at hd'
      subst hd'
      have hva : m.status .c2h = (dev.dir .c2h).status_va := by
        rw [h.dir, Engine.status_va, h.memory_va]
        exact hstatus
      rw [if_pos hva, h.dir]
      exact ⟨h.bar0, h.bar4, (set_dir _ _).trans (if_pos rfl), h.memory_va, h.memory_pa⟩
    | h2c =>
      rw [if_neg (by simp)] at hd'
      subst hd'
      split
      · exact ⟨h.bar0, h.bar4, (set_dir _ _).trans ((if_neg (by decide)).trans h.dir), h.memory_va,
          h.memory_pa⟩
      · exact h
  · rw [if_neg fun hc => hfield hc.2] at hd'
    subst hd'
    refine ⟨dev, ⟨(), dev, ?_, rfl, rfl⟩, h⟩
    cases field with
    | desc_limit => exact absurd rfl hfield
    | _ => rfl

theorem hw_reset_can (hm : Ready m) (h : At dev d) : ∃ dev',
    Device.env.Can (ofPci (sde_hw_reset (some m.hw_ctrl))) dev 0 dev' ∧ At dev' d.reset := by
  have hset : At (dev.poke 0 SDE_GENERAL_PURPOSE_CFG_REG 1) d.reset := by
    have hdir : dev.poke 0 SDE_GENERAL_PURPOSE_CFG_REG 1 =
        { dev with dir := fun s => (dev.dir s).reset } := by
      unfold Device.poke
      rw [if_pos h.bar0, if_pos ⟨rfl, by decide⟩]
    rw [hdir]
    exact ⟨h.bar0, h.bar4, congrArg Engine.reset h.dir, h.memory_va, h.memory_pa⟩
  have hclear : ∀ dev : Device, dev.bar 0 = some APP_PF_BAR0 →
      dev.poke 0 SDE_GENERAL_PURPOSE_CFG_REG 0 = dev := by
    intro dev hbar
    unfold Device.poke
    rw [if_pos hbar, if_neg (by decide)]
  refine ⟨dev.poke 0 SDE_GENERAL_PURPOSE_CFG_REG 1, ?_, hset⟩
  rw [hm.hw_ctrl]
  unfold sde_hw_reset
  dsimp only
  rw [if_neg (by decide)]
  refine can_peek_bind 0 ?_
  dsimp only
  rw [if_neg (by decide)]
  have := poke_all_can 0 [⟨SDE_GENERAL_PURPOSE_CFG_REG, 1, GPCR_SDE_RESET_MASK, GPCR_SDE_RESET_MASK⟩,
    ⟨SDE_GENERAL_PURPOSE_CFG_REG, 0, 0, GPCR_SDE_RESET_MASK⟩] dev
  rw [List.foldl_cons, List.foldl_cons, List.foldl_nil, hclear _ hset.bar0] at this
  exact this

theorem reset_can (hm : Ready m) (h : At dev d) : ∃ dev',
    Device.env.Can (slotBody 0 .reset m) dev { m with md_read_index := 0 } dev' ∧
      At dev' { d.reset with desc_limit := BitVec.ofNat 32 SDE_NUM_DESC } := by
  obtain ⟨dev₀, h₀, at₀⟩ := hw_reset_can hm h
  have hkeep : ∀ {s field} {d : Engine} (value : BitVec 32), ¬ (s = .c2h ∧ field = .desc_limit) →
      d = if s = SdeSubsystem.c2h ∧ field = StatusField.desc_limit then
        { d with desc_limit := value } else d :=
    fun value hne => (if_neg hne).symm
  obtain ⟨dev₁, h₁, at₁⟩ := store_can at₀ m .c2h .status hm.status 0 (hkeep 0 (by decide))
  obtain ⟨dev₂, h₂, at₂⟩ := store_can at₁ m .c2h .desc_limit hm.status (BitVec.ofNat 32 SDE_NUM_DESC)
    (if_pos ⟨rfl, rfl⟩).symm
  obtain ⟨dev₃, h₃, at₃⟩ := store_can at₂ m .c2h .desc_completed hm.status 0 (hkeep 0 (by decide))
  obtain ⟨dev₄, h₄, at₄⟩ := store_can at₃ m .c2h .pkt_completed hm.status 0 (hkeep 0 (by decide))
  obtain ⟨dev₅, h₅, at₅⟩ := store_can at₄ m .c2h .meta_write hm.status 0 (hkeep 0 (by decide))
  obtain ⟨dev₆, h₆, at₆⟩ := store_can at₅ m .h2c .status hm.status 0 (hkeep 0 (by decide))
  obtain ⟨dev₇, h₇, at₇⟩ := store_can at₆ m .h2c .desc_limit hm.status (BitVec.ofNat 32 SDE_NUM_DESC)
    (hkeep _ (by decide))
  obtain ⟨dev₈, h₈, at₈⟩ := store_can at₇ m .h2c .desc_completed hm.status 0 (hkeep 0 (by decide))
  obtain ⟨dev₉, h₉, at₉⟩ := store_can at₈ m .h2c .pkt_completed hm.status 0 (hkeep 0 (by decide))
  refine ⟨dev₉, Env.can_bind (a := (0, { m with md_read_index := 0 })) ?_ ⟨rfl, rfl⟩, at₉⟩
  change Device.env.Can (sde_mgmt_reset 0 m) dev _ dev₉
  unfold sde_mgmt_reset
  rw [checked_open hm]
  refine Env.can_bind h₀ ?_
  rw [if_neg (by decide)]
  exact Env.can_bind h₁ (Env.can_bind h₂ (Env.can_bind h₃ (Env.can_bind h₄ (Env.can_bind h₅
    (Env.can_bind h₆ (Env.can_bind h₇ (Env.can_bind h₈ (Env.can_bind h₉ ⟨rfl, rfl⟩))))))))

end Can

/-! ## A run within the condition, and one that is not -/

/-- Opening, reset and the reading of 64 packets, which fill the RAM. -/
theorem credited_start_read : ∃ c, Credited c ∧ (c.2.dir .c2h).fifo = Engine.DESC_RAM_DEPTH := by
  obtain ⟨m, dev₁, hinit, hm, hconsumed, hat₁⟩ := init_can
  obtain ⟨dev₂, hreset, hat₂⟩ := reset_can hm hat₁
  obtain ⟨dev₃, hread, -, hat₃⟩ := start_read_can (hm.reset 0) hat₂ rfl (by
    rw [show m.c2h_desc_consumed = 0 from hconsumed .c2h]
    decide)
  have hkeeps : KeepsCredits m dev₁ .reset := by
    intro _ s
    rw [hconsumed s]
    decide
  refine ⟨_, credited_run powerOn_fits ((Env.can_method hinit ⟨trivial, trivial⟩).trans
    ((Env.can_method hreset ⟨trivial, hkeeps⟩).trans
      (Env.can_method hread ⟨trivial, trivial⟩))), ?_⟩
  exact congrArg Engine.fifo hat₃.dir

/-- Two rounds of 64 packets, a reset, and two more: the credits are 64 less what was used in all,
a very large number. -/
theorem not_credited : ¬ ∀ dev c, Fits dev →
    Relation.ReflTransGen (Env.Step Device.env (slotBody 0) fun call _ _ => Listed call)
      (.rest .zero, dev) c → Credited c := by
  intro hall
  have hmoves : ∀ {m : SdeMgmt} {dev dev' : Device}, Relation.ReflTransGen Device.Moves dev dev' →
      Relation.ReflTransGen (Env.Step Device.env (slotBody 0) fun call _ _ => Listed call)
        (.rest m, dev) (.rest m, dev') :=
    fun h => h.lift (fun dev => (Env.Config.rest _, dev)) fun _ _ hmove => .move hmove
  have hcall : ∀ {call : SdeCall} {m m' : SdeMgmt} {dev dev' : Device},
      Device.env.Can (slotBody 0 call m) dev m' dev' → Listed call →
      Relation.ReflTransGen (Env.Step Device.env (slotBody 0) fun call _ _ => Listed call)
        (.rest m, dev) (.rest m', dev') :=
    fun hcan hlisted => Env.can_method hcan hlisted
  obtain ⟨m, dev₁, h₁, hm₁, hconsumed, hat₁⟩ := init_can
  obtain ⟨dev₂, h₂, hat₂⟩ := reset_can hm₁ hat₁
  obtain ⟨m₃, dev₃, h₃, hm₃, hconsumed₃, hat₃⟩ := cfg_can (hm₁.reset 0) hat₂
  have hzero : m₃.c2h_desc_consumed = 0 := hconsumed₃.trans (hconsumed .c2h)
  obtain ⟨dev₄, h₄, hm₄, hat₄⟩ := start_read_can hm₃ hat₃ rfl (by dsimp only; rw [hzero]; decide)
  obtain ⟨dev₅, h₅, hat₅⟩ := drain_moves hat₄ ⟨by decide, rfl⟩
  obtain ⟨dev₆, h₆, hm₆, hat₆⟩ := start_read_can hm₄ hat₅ rfl (by dsimp only; rw [hzero]; decide)
  obtain ⟨dev₇, h₇, hat₇⟩ := drain_moves hat₆ ⟨by decide, rfl⟩
  -- The driver used 128, and the limit starts from 64 again.
  obtain ⟨dev₈, h₈, hat₈⟩ := reset_can hm₆ hat₇
  obtain ⟨dev₉, h₉, hm₉, hat₉⟩ := start_read_can (hm₆.reset 0) hat₈ rfl (by dsimp only; rw [hzero]; decide)
  obtain ⟨dev, h, hm, hat⟩ := start_read_can hm₉ hat₉ rfl (by dsimp only; rw [hzero]; decide)
  have hcredited := hall powerOn (.rest _, dev) powerOn_fits
    ((hcall h₁ trivial).trans ((hcall h₂ trivial).trans ((hcall h₃ trivial).trans
      ((hcall h₄ trivial).trans ((hmoves h₅).trans ((hcall h₆ trivial).trans ((hmoves h₇).trans
      ((hcall h₈ trivial).trans ((hcall h₉ trivial).trans (hcall h trivial))))))))))
  have hfifo := hcredited.fifo .c2h
  rw [hat.dir] at hfifo
  exact absurd hfifo (by decide)

end AwsFpga.Sde
