import AwsFpga.Rtl.SdePs

/-!
# Each request gets its answers (`sde_ps.sv`)

A write takes its own data and no other, and has one response after its last beat.
A read has its beats, the last one marked.
-/

open Lib Lib.Axi

namespace AwsFpga.Rtl

namespace SdePs

variable {p : PsParams} (i : PsIn) (s : SdePs p)

/-! ## The channels -/

def aw_accepted : List PcisAddr := fire i.awvalid s.awready i.aw

def w_accepted : List WBeat := fire i.wvalid (wready i s) i.w

def ar_accepted : List PcisAddr := fire i.arvalid s.arready i.ar

/-- The id of each response. -/
def b_sent : List (BitVec 5) := fire s.bvalid i.bready s.req.id

/-- The id and the last flag of each beat. -/
def r_sent : List (BitVec 5 × Bool) := fire s.rvalid i.rready (s.req.id, s.rlast)

/-- The beats that a read asks for. -/
def r_burst (a : PcisAddr) : List (BitVec 5 × Bool) :=
  List.replicate a.len.toNat (a.id, false) ++ [(a.id, true)]

variable (ins : Nat → PsIn)

/-- The accepted writes: complete bursts with their addresses, and what is left. -/
def writes (p : PsParams) (n : Nat) : List (PcisAddr × List WBeat) × List PcisAddr × List WBeat :=
  pair WBeat.last ((circuit p).passed ins aw_accepted n) ((circuit p).passed ins w_accepted n)

/-- What the host owes: it holds what it shows, and its bursts have the length of their address. -/
structure Compliant (p : PsParams) : Prop where
  aw : Held (fun n => (ins n).awvalid) (fun n => ((circuit p).state ins n).awready)
    fun n => (ins n).aw
  w : Held (fun n => (ins n).wvalid) (fun n => wready (ins n) ((circuit p).state ins n))
    fun n => (ins n).w
  ar : Held (fun n => (ins n).arvalid) (fun n => ((circuit p).state ins n).arready)
    fun n => (ins n).ar
  fits : ∀ n, Fits WBeat.last (fun a => a.len.toNat)
    ((circuit p).passed ins aw_accepted n) ((circuit p).passed ins w_accepted n)

/-! ## What one cycle can do -/

/-- A write that the machine can serve: not to the packet buffer, and to a register one beat only. -/
def servable (a : PcisAddr) : Prop :=
  within (a.addr.setWidth 14) H2C_PCIS_PKT_ADDR_START H2C_PCIS_PKT_ADDR_END = false ∧
    (PS_PCIS_CFG_ADDR_START ≤ (a.addr.setWidth 14).toNat → a.len = 0)

structure May : Prop where
  aw : i.awvalid → s.awready → servable i.aw
  /-- A read of one beat. -/
  ar : i.arvalid → s.arready → i.ar.len = 0

/-- The requests and the answers of a configuration block are those of the current request. -/
structure CfgOk (b : CfgBlock) : Prop where
  wr : (s.cfg b).wr_req ∨ (s.cfg b).pcis_wready →
    s.state = .CFG ∧ s.dec.cfg b ∧ s.req.rd_n_wr = false
  rd : (s.cfg b).rd_req ∨ (s.cfg b).pcis_rvalid → s.state = .CFG ∧ s.dec.cfg b ∧ s.req.rd_n_wr
  wr_once : (s.cfg b).pcis_wready → (s.cfg b).wr_req = false
  rd_once : (s.cfg b).pcis_rvalid → (s.cfg b).rd_req = false

structure Inv : Prop where
  state : s.state ≠ .WR_PKT ∧ s.state ≠ .RD_DUMMY ∧ s.state ≠ .WR_DUMMY
  dec : s.state ≠ .IDLE → s.state ≠ .AW_AR → s.dec = s.req.decode
  wr_dummy : s.dec.wr_dummy = false
  active : s.active →
    s.state = .WR_DESC ∨ s.state = .CFG ∨ (s.state = .RESP ∧ s.req.rd_n_wr ∧ s.rvalid = false)
  wr_desc : s.state = .WR_DESC → s.active ∧ s.req.rd_n_wr = false ∧
    (s.dec.c2h_wr_desc ∨ s.dec.h2c_wr_desc)
  cfg : s.state = .CFG → (∃ b, s.dec.cfg b) ∧ (s.req.rd_n_wr = false → s.req.len = 0)
  awready : s.awready = (!s.req.rd_n_wr && s.state = .DEC)
  arready : s.arready = (s.req.rd_n_wr && s.state = .DEC)
  /-- The request is still shown while it is decoded. -/
  aw : s.state = .AW_AR ∨ s.state = .DEC → s.req.rd_n_wr = false →
    i.awvalid ∧ s.req = .capture i.aw false
  ar : s.state = .AW_AR ∨ s.state = .DEC → s.req.rd_n_wr → i.arvalid ∧ s.req = .capture i.ar true
  bvalid : s.bvalid → s.state = .RESP ∧ s.req.rd_n_wr = false
  rvalid : s.rvalid → s.state = .RESP ∧ s.req.rd_n_wr ∧ s.rlast
  read_len : s.req.rd_n_wr → s.state = .CFG ∨ s.state = .RESP → s.read_len = 0
  blocks : ∀ b, CfgOk s b
  wvalid : ∀ b, (s.cfg b).wr_req ∨ (s.cfg b).pcis_wready → i.wvalid

/-- The moves of the machine. -/
inductive Moves : Prop where
  | stay_idle (hs : s.state = .IDLE) (hn : next_state i s = .IDLE)
  | capture (hs : s.state = .IDLE) (hn : next_state i s = .AW_AR) (hreq : i.awvalid ∨ i.arvalid)
  | to_dec (hs : s.state = .AW_AR) (hn : next_state i s = .DEC)
  | dec_desc (hs : s.state = .DEC) (hn : next_state i s = .WR_DESC)
    (hreq : s.req.rd_n_wr = false ∧ (s.dec.c2h_wr_desc ∨ s.dec.h2c_wr_desc))
  | dec_cfg (hs : s.state = .DEC) (hn : next_state i s = .CFG)
    (hreq : (∃ b, s.dec.cfg b) ∧ (s.req.rd_n_wr = false → s.req.len = 0))
  | dec_resp (hs : s.state = .DEC) (hn : next_state i s = .RESP) (hreq : s.req.rd_n_wr)
  | stay_desc (hs : s.state = .WR_DESC) (hn : next_state i s = .WR_DESC)
    (hbeat : i.wvalid → wready i s → i.w.last = false)
  | end_desc (hs : s.state = .WR_DESC) (hn : next_state i s = .RESP)
    (hbeat : i.wvalid ∧ i.w.last ∧ wready i s)
  | stay_cfg (hs : s.state = .CFG) (hn : next_state i s = .CFG) (hdone : ∀ b, cfg_done s b = false)
  | end_cfg (hs : s.state = .CFG) (hn : next_state i s = .RESP) (hdone : ∃ b, cfg_done s b)
  | stay_resp (hs : s.state = .RESP) (hn : next_state i s = .RESP)
    (hb : s.req.rd_n_wr = false → s.bvalid → i.bready = false)
    (hr : s.req.rd_n_wr → s.rvalid → i.rready = false)
  | end_resp (hs : s.state = .RESP) (hn : next_state i s = .IDLE)
    (hdone : (s.req.rd_n_wr = false ∧ s.bvalid ∧ i.bready) ∨ (s.req.rd_n_wr ∧ s.rvalid ∧ i.rready))

variable {i s}

/-! ### The apertures -/

theorem within_iff {addr : BitVec 14} {start stop : Nat} :
    within addr start stop = true ↔ start ≤ addr.toNat ∧ addr.toNat < stop := by
  simp [within]

theorem within_iff' {addr : BitVec 14} {start stop : Nat} :
    within addr start stop = false ↔ ¬(start ≤ addr.toNat ∧ addr.toNat < stop) := by
  rw [← within_iff, Bool.not_eq_true]

theorem cfg_addr {r : PcisReq} {b : CfgBlock} (h : r.decode.cfg b) :
    PS_PCIS_CFG_ADDR_START ≤ r.addr.toNat := by
  obtain ⟨hstart, -⟩ := within_iff.mp h
  cases b <;> simp only [CfgBlock.start, ps_cfg_start_val, pm_cfg_start_val, c2h_cfg_start_val,
    h2c_cfg_start_val] at hstart ⊢ <;> omega

theorem cfg_unique {r : PcisReq} {b b' : CfgBlock} (h : r.decode.cfg b) (h' : r.decode.cfg b') :
    b = b' := by
  have hb := within_iff.mp h
  have hb' := within_iff.mp h'
  cases b <;> cases b' <;> simp [CfgBlock.start, CfgBlock.stop] at hb hb' ⊢ <;> omega

/-- Every address of a write is in some aperture. -/
theorem decode_write (r : PcisReq) (hwr : r.rd_n_wr = false) :
    r.decode.c2h_wr_desc ∨ r.decode.h2c_wr_desc ∨ r.decode.h2c_wr_pkt ∨ ∃ b, r.decode.cfg b := by
  have hlt := r.addr.isLt
  by_contra hnot
  simp only [not_or, not_exists, Bool.not_eq_true, PcisReq.decode, hwr, Bool.not_false,
    Bool.true_and, within_iff'] at hnot
  obtain ⟨hc2h, hh2c, hpkt, hcfg⟩ := hnot
  have hps := hcfg .ps
  have hpm := hcfg .pm
  have hc := hcfg .c2h
  have hh := hcfg .h2c
  simp only [CfgBlock.start, CfgBlock.stop, c2h_desc_start_val, c2h_desc_end_val,
    h2c_desc_start_val, h2c_desc_end_val, h2c_pkt_start_val, h2c_pkt_end_val, ps_cfg_start_val,
    ps_cfg_end_val, pm_cfg_start_val, pm_cfg_end_val, c2h_cfg_start_val, c2h_cfg_end_val,
    h2c_cfg_start_val, h2c_cfg_end_val] at hc2h hh2c hpkt hps hpm hc hh
  omega

theorem decode_wr_dummy (r : PcisReq) : r.decode.wr_dummy = false := by
  have hlt := r.addr.isLt
  simp only [PcisReq.decode, c2h_desc_start_val, h2c_cfg_end_val, Nat.not_lt_zero, decide_false,
    Bool.false_or, show ¬0x4000 ≤ r.addr.toNat by omega, Bool.and_false]

theorem desc_not_cfg {r : PcisReq} (h : r.decode.c2h_wr_desc ∨ r.decode.h2c_wr_desc)
    (b : CfgBlock) : r.decode.cfg b = false := by
  cases hcfg : r.decode.cfg b with
  | false => rfl
  | true =>
    have haddr := cfg_addr hcfg
    simp [PcisReq.decode, within_iff] at h haddr
    omega

theorem decode_read {r : PcisReq} (hrd : r.rd_n_wr) :
    r.decode.c2h_wr_desc = false ∧ r.decode.h2c_wr_desc = false ∧ r.decode.h2c_wr_pkt = false := by
  simp [PcisReq.decode, hrd]

/-! ### Who takes data -/

theorem any_cfg_iff (f : CfgBlock → Bool) :
    (f .ps || f .pm || f .c2h || f .h2c) = true ↔ ∃ b, f b := by
  constructor
  · simp only [Bool.or_eq_true]
    rintro (((h | h) | h) | h)
    · exact ⟨.ps, h⟩
    · exact ⟨.pm, h⟩
    · exact ⟨.c2h, h⟩
    · exact ⟨.h2c, h⟩
  · rintro ⟨b, h⟩
    cases b <;> simp [h]

theorem wready_cases (h : Inv i s) (hready : wready i s) :
    s.state = .WR_DESC ∨ s.state = .CFG ∧ s.req.rd_n_wr = false ∧
      ∃ b, s.dec.cfg b ∧ (s.cfg b).pcis_wready := by
  have hcfg : ∀ b, (s.dec.cfg b && (s.cfg b).pcis_wready) = true →
      s.state = .CFG ∧ s.req.rd_n_wr = false ∧ ∃ b, s.dec.cfg b ∧ (s.cfg b).pcis_wready := by
    intro b hb
    rw [Bool.and_eq_true] at hb
    obtain ⟨hstate, -, hwr⟩ := (h.blocks b).wr (.inr hb.2)
    exact ⟨hstate, hwr, b, hb⟩
  have hdesc : s.active = true ∧ (s.dec.c2h_wr_desc ∨ s.dec.h2c_wr_desc) → s.state = .WR_DESC := by
    rintro ⟨hactive, hdesc⟩
    rcases h.active hactive with hstate | hstate | ⟨hstate, hrd, -⟩
    · exact hstate
    · obtain ⟨⟨b, hb⟩, -⟩ := h.cfg hstate
      rw [h.dec (by simp [hstate]) (by simp [hstate])] at hb hdesc
      rw [desc_not_cfg hdesc b] at hb
      cases hb
    · rw [h.dec (by simp [hstate]) (by simp [hstate])] at hdesc
      simp [decode_read hrd] at hdesc
  unfold wready at hready
  simp only [Bool.or_eq_true, h.wr_dummy, h2c_pcis_pkt_wready, Bool.and_false, Bool.false_eq_true,
    or_false] at hready
  rcases hready with ((((hc2h | hh2c) | hps) | hpm) | hc) | hh
  · left
    simp only [c2h_pcis_desc_wready, PsAcc.pcis_wready, c2h_acc_in, Bool.and_eq_true] at hc2h
    exact hdesc ⟨hc2h.2.1.1, .inl hc2h.1⟩
  · left
    simp only [h2c_pcis_desc_wready, PsAcc.pcis_wready, h2c_acc_in, Bool.and_eq_true] at hh2c
    exact hdesc ⟨hh2c.2.1.1, .inr hh2c.1⟩
  · exact .inr (hcfg .ps hps)
  · exact .inr (hcfg .pm hpm)
  · exact .inr (hcfg .c2h hc)
  · exact .inr (hcfg .h2c hh)

theorem wready_desc (h : Inv i s) (hstate : s.state = .WR_DESC) :
    wready i s = (s.dec.c2h_wr_desc && c2h_pcis_desc_wready i s ||
      s.dec.h2c_wr_desc && h2c_pcis_desc_wready i s) := by
  have hcfg : ∀ b, (s.cfg b).pcis_wready = false := by
    intro b
    by_contra hne
    have hstate' := ((h.blocks b).wr (.inr (Bool.not_eq_false _ ▸ hne))).1
    rw [hstate] at hstate'
    cases hstate'
  unfold wready
  simp [hcfg, h.wr_dummy, h2c_pcis_pkt_wready]

theorem wready_cfg (h : Inv i s) (hstate : s.state = .CFG) (hwr : s.req.rd_n_wr = false) :
    wready i s = true ↔ ∃ b, cfg_done s b := by
  constructor
  · intro hready
    rcases wready_cases h hready with hdesc | ⟨-, -, b, hb, hready⟩
    · rw [hstate] at hdesc
      cases hdesc
    · exact ⟨b, by simp [cfg_done, hb, hready, hwr]⟩
  · rintro ⟨b, hb⟩
    simp only [cfg_done, hwr, Bool.false_and, Bool.not_false, Bool.true_and, Bool.false_or] at hb
    unfold wready
    cases b <;> simp [hb]

/-! ### The moves of each state -/

theorem moves_idle (hs : s.state = .IDLE) : Moves i s := by
  by_cases hreq : (i.awvalid || i.arvalid) = true
  · exact .capture hs (by simp [next_state, hs, hreq]) (by simpa using hreq)
  · exact .stay_idle hs (by simp [next_state, hs, hreq])

theorem moves_dec_read (h : Inv i s) (hs : s.state = .DEC) (hrd : s.req.rd_n_wr = true) :
    Moves i s := by
  obtain ⟨hc2h, hh2c, hpkt⟩ := decode_read hrd
  rw [← h.dec (by simp [hs]) (by simp [hs])] at hc2h hh2c hpkt
  by_cases hcfg : (s.dec.cfg .ps || s.dec.cfg .pm || s.dec.cfg .c2h || s.dec.cfg .h2c) = true
  · refine .dec_cfg hs (by simp only [next_state, hs, hc2h, hh2c, hpkt, hcfg]; rfl) ?_
    exact ⟨(any_cfg_iff _).mp hcfg, by simp [hrd]⟩
  · rw [Bool.not_eq_true] at hcfg
    exact .dec_resp hs (by simp only [next_state, hs, hc2h, hh2c, hpkt, hcfg, hrd]; rfl) hrd

/-- A write is of descriptors or of a register, since none is of a packet. -/
theorem moves_dec_write (h : Inv i s) (hmay : May i s) (hs : s.state = .DEC)
    (hwr : s.req.rd_n_wr = false) : Moves i s := by
  have hdec := h.dec (by simp [hs]) (by simp [hs])
  obtain ⟨hvalid, hreq⟩ := h.aw (.inr hs) hwr
  obtain ⟨hnot_pkt, hlen⟩ := hmay.aw hvalid (by simp [h.awready, hs, hwr])
  by_cases hdesc : (s.dec.c2h_wr_desc || s.dec.h2c_wr_desc) = true
  · exact .dec_desc hs (by simp [next_state, hs, hdesc]) ⟨hwr, by simpa using hdesc⟩
  · rw [Bool.not_eq_true] at hdesc
    have hpkt : s.dec.h2c_wr_pkt = false := by
      rw [hdec, hreq]
      simp only [PcisReq.decode, PcisReq.capture, hnot_pkt, Bool.and_false]
    have hcfg : ∃ b, s.dec.cfg b := by
      have hall := decode_write s.req hwr
      rw [← hdec] at hall
      rcases hall with hyes | hyes | hyes | hyes
      · simp [hyes] at hdesc
      · simp [hyes] at hdesc
      · simp [hpkt] at hyes
      · exact hyes
    have hany := (any_cfg_iff _).mpr hcfg
    refine .dec_cfg hs (by simp only [next_state, hs, hdesc, hpkt, hany]; rfl) ⟨hcfg, fun _ => ?_⟩
    obtain ⟨b, hb⟩ := hcfg
    rw [hdec] at hb
    have haddr := cfg_addr hb
    rw [hreq] at haddr ⊢
    exact hlen haddr

theorem moves_desc (h : Inv i s) (hs : s.state = .WR_DESC) : Moves i s := by
  have hready := wready_desc h hs
  by_cases hbeat : (i.wvalid && i.w.last && wready i s) = true
  · have hn : next_state i s = .RESP := by
      rw [hready] at hbeat
      unfold next_state
      simp only [Bool.and_eq_true, Bool.or_eq_true] at hbeat
      rw [hs]
      rcases hbeat with ⟨⟨hv, hl⟩, ⟨hc, hr⟩ | ⟨hc, hr⟩⟩
      · simp [hv, hl, hc, hr]
      · simp [hv, hl, hc, hr]
    simp only [Bool.and_eq_true] at hbeat
    exact .end_desc hs hn ⟨hbeat.1.1, hbeat.1.2, hbeat.2⟩
  · refine .stay_desc hs ?_ fun hv hr => ?_
    · rw [hready] at hbeat
      unfold next_state
      rw [hs]
      dsimp only
      rw [if_neg, if_neg]
      · intro hyes
        simp only [Bool.and_eq_true] at hyes
        simp [hyes] at hbeat
      · intro hyes
        simp only [Bool.and_eq_true] at hyes
        simp [hyes] at hbeat
    · by_contra hne
      simp [hv, hr, hne] at hbeat

theorem moves_cfg (hs : s.state = .CFG) : Moves i s := by
  by_cases hdone : ∃ b, cfg_done s b
  · refine .end_cfg hs ?_ hdone
    unfold next_state
    rw [hs]
    obtain ⟨b, hb⟩ := hdone
    cases b <;> simp [hb]
  · have hno : ∀ b, cfg_done s b = false := fun b =>
      Bool.eq_false_iff.mpr fun hb => hdone ⟨b, hb⟩
    refine .stay_cfg hs ?_ hno
    unfold next_state
    rw [hs]
    simp [hno]

theorem moves_resp (hs : s.state = .RESP) : Moves i s := by
  by_cases hdone : (!s.req.rd_n_wr && s.bvalid && i.bready || s.req.rd_n_wr && s.rvalid && i.rready) = true
  · refine .end_resp hs (by simp only [next_state, hs, hdone]; rfl) ?_
    simpa [and_assoc] using hdone
  · refine .stay_resp hs (by simp only [next_state, hs, hdone]; rfl) ?_ ?_
    · intro hrd hb
      by_contra hne
      simp [hrd, hb, hne] at hdone
    · intro hrd hr
      by_contra hne
      simp [hrd, hr, hne] at hdone

theorem moves (h : Inv i s) (hmay : May i s) : Moves i s := by
  obtain ⟨hpkt, hrd_dummy, hwr_dummy⟩ := h.state
  cases hs : s.state with
  | IDLE => exact moves_idle hs
  | AW_AR => exact .to_dec hs (by simp [next_state, hs])
  | DEC =>
    cases hrd : s.req.rd_n_wr with
    | true => exact moves_dec_read h hs hrd
    | false => exact moves_dec_write h hmay hs hrd
  | WR_DESC => exact moves_desc h hs
  | WR_PKT => exact absurd hs hpkt
  | RD_DUMMY => exact absurd hs hrd_dummy
  | WR_DUMMY => exact absurd hs hwr_dummy
  | CFG => exact moves_cfg hs
  | RESP => exact moves_resp hs

/-! ### What a cycle keeps -/

/-- The host holds what was not taken in this cycle. -/
structure Keeps (i : PsIn) (s : SdePs p) (i' : PsIn) : Prop where
  aw : i.awvalid → s.awready = false → i'.awvalid ∧ i'.aw = i.aw
  w : i.wvalid → wready i s = false → i'.wvalid ∧ i'.w = i.w
  ar : i.arvalid → s.arready = false → i'.arvalid ∧ i'.ar = i.ar

variable {i' : PsIn}

theorem state_step : (step i s).state = next_state i s := rfl

theorem req_step : (step i s).req = next_req i s := rfl

theorem dec_step : (step i s).dec = if s.state = .AW_AR then s.req.decode else s.dec := rfl

theorem next_req_eq (hs : s.state ≠ .IDLE) : next_req i s = s.req := by
  simp [next_req, hs]

theorem not_active (h : Inv i s) (hdesc : s.state ≠ .WR_DESC) (hcfg : s.state ≠ .CFG)
    (hresp : s.state ≠ .RESP) : s.active = false := by
  by_contra hne
  rcases h.active (Bool.not_eq_false _ ▸ hne) with hs | hs | ⟨hs, -⟩
  · exact hdesc hs
  · exact hcfg hs
  · exact hresp hs

theorem not_bvalid (h : Inv i s) (hresp : s.state ≠ .RESP) : s.bvalid = false := by
  by_contra hne
  exact hresp (h.bvalid (Bool.not_eq_false _ ▸ hne)).1

theorem not_rvalid (h : Inv i s) (hresp : s.state ≠ .RESP) : s.rvalid = false := by
  by_contra hne
  exact hresp (h.rvalid (Bool.not_eq_false _ ▸ hne)).1

theorem not_rvalid_wr (h : Inv i s) (hwr : s.req.rd_n_wr = false) : s.rvalid = false := by
  by_contra hne
  simp [(h.rvalid (Bool.not_eq_false _ ▸ hne)).2.1] at hwr

theorem not_bvalid_rd (h : Inv i s) (hrd : s.req.rd_n_wr) : s.bvalid = false := by
  by_contra hne
  simp [(h.bvalid (Bool.not_eq_false _ ▸ hne)).2] at hrd

theorem stays_cfg (h : Inv i s) (hmay : May i s) {b : CfgBlock} (hs : s.state = .CFG)
    (hb : s.dec.cfg b) (hno : cfg_done s b = false) :
    next_state i s = .CFG ∧ (s.req.rd_n_wr = false → wready i s = false) := by
  have hall : ∀ b', cfg_done s b' = false := by
    intro b'
    by_contra hne
    have hdone : cfg_done s b' = true := Bool.not_eq_false _ ▸ hne
    have hb' : s.dec.cfg b' := by
      simp only [cfg_done, Bool.and_eq_true] at hdone
      exact hdone.1
    rw [h.dec (by simp [hs]) (by simp [hs])] at hb hb'
    rw [cfg_unique hb' hb, hno] at hdone
    cases hdone
  constructor
  · cases moves h hmay with
    | stay_cfg _ hn => exact hn
    | end_cfg _ _ hdone =>
      obtain ⟨b', hb'⟩ := hdone
      rw [hall b'] at hb'
      cases hb'
    | _ => simp_all
  · intro hwr
    by_contra hne
    obtain ⟨b', hb'⟩ := (wready_cfg h hs hwr).mp (Bool.not_eq_false _ ▸ hne)
    rw [hall b'] at hb'
    cases hb'

/-- A block has a request or an answer next only when the machine stays in `CFG` for it. -/
theorem block_wr_step (h : Inv i s) {b : CfgBlock}
    (hreq : ((step i s).cfg b).wr_req ∨ ((step i s).cfg b).pcis_wready) :
    s.state = .CFG ∧ s.dec.cfg b ∧ s.req.rd_n_wr = false ∧ i.wvalid ∧ cfg_done s b = false := by
  have hkept : (s.cfg b).wr_req →
      s.state = .CFG ∧ s.dec.cfg b ∧ s.req.rd_n_wr = false ∧ i.wvalid ∧ cfg_done s b = false := by
    intro hwr
    obtain ⟨hs, hb, hrd⟩ := (h.blocks b).wr (.inl hwr)
    have hready : (s.cfg b).pcis_wready = false := by
      by_contra hne
      rw [(h.blocks b).wr_once (Bool.not_eq_false _ ▸ hne)] at hwr
      cases hwr
    exact ⟨hs, hb, hrd, h.wvalid b (.inl hwr), by simp [cfg_done, hready, hrd]⟩
  rcases hreq with hwr | hready
  · simp only [step, CfgPort.step] at hwr
    split at hwr
    next hset =>
      simp only [Bool.and_eq_true, Bool.not_eq_true', decide_eq_true_eq] at hset
      obtain ⟨⟨⟨⟨⟨-, hready⟩, hs⟩, hb⟩, hrd⟩, hvalid⟩ := hset
      exact ⟨hs, hb, hrd, hvalid, by simp [cfg_done, hready, hrd]⟩
    next =>
      split at hwr
      · cases hwr
      · exact hkept hwr
  · simp only [step, CfgPort.step, Bool.and_eq_true] at hready
    exact hkept hready.1

theorem block_rd_step (h : Inv i s) {b : CfgBlock}
    (hreq : ((step i s).cfg b).rd_req ∨ ((step i s).cfg b).pcis_rvalid) :
    s.state = .CFG ∧ s.dec.cfg b ∧ s.req.rd_n_wr ∧ cfg_done s b = false := by
  have hkept : (s.cfg b).rd_req →
      s.state = .CFG ∧ s.dec.cfg b ∧ s.req.rd_n_wr ∧ cfg_done s b = false := by
    intro hread
    obtain ⟨hs, hb, hrd⟩ := (h.blocks b).rd (.inl hread)
    have hvalid : (s.cfg b).pcis_rvalid = false := by
      by_contra hne
      rw [(h.blocks b).rd_once (Bool.not_eq_false _ ▸ hne)] at hread
      cases hread
    exact ⟨hs, hb, hrd, by simp [cfg_done, hvalid, hrd]⟩
  rcases hreq with hread | hvalid
  · simp only [step, CfgPort.step] at hread
    split at hread
    next hset =>
      simp only [Bool.and_eq_true, Bool.not_eq_true', decide_eq_true_eq] at hset
      obtain ⟨⟨⟨⟨-, hvalid⟩, hs⟩, hb⟩, hrd⟩ := hset
      exact ⟨hs, hb, hrd, by simp [cfg_done, hvalid, hrd]⟩
    next =>
      split at hread
      · cases hread
      · exact hkept hread
  · simp only [step, CfgPort.step, Bool.and_eq_true] at hvalid
    exact hkept hvalid.1

theorem block_step (h : Inv i s) (hmay : May i s) (b : CfgBlock) : CfgOk (step i s) b where
  wr hreq := by
    obtain ⟨hs, hb, hrd, -, hno⟩ := block_wr_step h hreq
    have hreq' : (step i s).req = s.req := next_req_eq (by simp [hs])
    have hdec' : (step i s).dec = s.dec := by simp [step, hs]
    exact ⟨(stays_cfg h hmay hs hb hno).1, by rwa [hdec'], by rwa [hreq']⟩
  rd hreq := by
    obtain ⟨hs, hb, hrd, hno⟩ := block_rd_step h hreq
    have hreq' : (step i s).req = s.req := next_req_eq (by simp [hs])
    have hdec' : (step i s).dec = s.dec := by simp [step, hs]
    exact ⟨(stays_cfg h hmay hs hb hno).1, by rwa [hdec'], by rwa [hreq']⟩
  wr_once hready := by
    simp only [step, CfgPort.step, Bool.and_eq_true] at hready
    obtain ⟨-, hb, hrd⟩ := (h.blocks b).wr (.inl hready.1)
    simp [step, CfgPort.step, hready.1, hready.2, hb, hrd]
  rd_once hvalid := by
    simp only [step, CfgPort.step, Bool.and_eq_true] at hvalid
    obtain ⟨-, hb, hrd⟩ := (h.blocks b).rd (.inl hvalid.1)
    simp [step, CfgPort.step, hvalid.1, hvalid.2, hb, hrd]

theorem req_shown_step (h : Inv i s) (hmay : May i s) (hkeeps : Keeps i s i')
    (hs : (step i s).state = .AW_AR ∨ (step i s).state = .DEC) :
    ((step i s).req.rd_n_wr = false → i'.awvalid ∧ (step i s).req = .capture i'.aw false) ∧
      ((step i s).req.rd_n_wr → i'.arvalid ∧ (step i s).req = .capture i'.ar true) := by
  rw [state_step] at hs
  rw [req_step]
  cases moves h hmay with
  | capture hidle _ hany =>
    have haw : s.awready = false := by simp [h.awready, hidle]
    have har : s.arready = false := by simp [h.arready, hidle]
    unfold next_req
    cases hvalid : i.awvalid with
    | true =>
      obtain ⟨hvalid', haw'⟩ := hkeeps.aw hvalid haw
      simp [hidle, PcisReq.capture, hvalid', haw']
    | false =>
      rw [hvalid] at hany
      have hread : i.arvalid := by simpa using hany
      obtain ⟨hvalid', har'⟩ := hkeeps.ar hread har
      simp [hidle, hread, PcisReq.capture, hvalid', har']
  | to_dec hdec _ =>
    rw [next_req_eq (by simp [hdec])]
    have haw : s.awready = false := by simp [h.awready, hdec]
    have har : s.arready = false := by simp [h.arready, hdec]
    constructor
    · intro hrd
      obtain ⟨hvalid, heq⟩ := h.aw (.inl hdec) hrd
      obtain ⟨hvalid', haw'⟩ := hkeeps.aw hvalid haw
      exact ⟨hvalid', haw' ▸ heq⟩
    · intro hrd
      obtain ⟨hvalid, heq⟩ := h.ar (.inl hdec) hrd
      obtain ⟨hvalid', har'⟩ := hkeeps.ar hvalid har
      exact ⟨hvalid', har' ▸ heq⟩
  | _ => simp_all

theorem bvalid_step (h : Inv i s) (hmay : May i s) (hb : (step i s).bvalid) :
    (step i s).state = .RESP ∧ (step i s).req.rd_n_wr = false := by
  have hresp : s.state = .RESP := by
    by_contra hne
    simp [step, not_bvalid h hne, hne] at hb
  rw [state_step, req_step, next_req_eq (by simp [hresp])]
  have hwr : s.req.rd_n_wr = false := by
    by_contra hne
    simp [step, not_bvalid_rd h (Bool.not_eq_false _ ▸ hne), hne] at hb
  cases moves h hmay with
  | stay_resp _ hn => exact ⟨hn, hwr⟩
  | end_resp _ _ hdone =>
    rcases hdone with ⟨-, hvalid, hready⟩ | ⟨hrd, -⟩
    · simp [step, hvalid, hready] at hb
    · rw [hwr] at hrd
      cases hrd
  | _ => simp_all

theorem rvalid_step (h : Inv i s) (hmay : May i s) (hr : (step i s).rvalid) :
    (step i s).state = .RESP ∧ (step i s).req.rd_n_wr ∧ (step i s).rlast := by
  have hresp : s.state = .RESP := by
    by_contra hne
    simp [step, not_rvalid h hne, hne] at hr
  rw [state_step, req_step, next_req_eq (by simp [hresp])]
  have hrd : s.req.rd_n_wr = true := by
    by_contra hne
    rw [Bool.not_eq_true] at hne
    simp [step, not_rvalid_wr h hne, hne] at hr
  have hlen := h.read_len hrd (.inr hresp)
  have hlast : (step i s).rlast := by simp [step, hresp, hrd, hlen]
  cases moves h hmay with
  | stay_resp _ hn => exact ⟨hn, hrd, hlast⟩
  | end_resp _ _ hdone =>
    rcases hdone with ⟨hwr, -⟩ | ⟨-, hvalid, hready⟩
    · rw [hwr] at hrd
      cases hrd
    · simp [step, hvalid, hready, hlen] at hr
  | _ => simp_all

theorem read_len_step (h : Inv i s) (hmay : May i s) (hrd : (step i s).req.rd_n_wr)
    (hs : (step i s).state = .CFG ∨ (step i s).state = .RESP) : (step i s).read_len = 0 := by
  rw [state_step] at hs
  rw [req_step] at hrd
  have hdec : s.state = .DEC → (step i s).read_len = 0 := by
    intro hdec
    rw [next_req_eq (by simp [hdec])] at hrd
    have hready : s.arready := by simp [h.arready, hrd, hdec]
    obtain ⟨hvalid, -⟩ := h.ar (.inr hdec) hrd
    simp [step, hvalid, hready, hmay.ar hvalid hready]
  have hstay : s.state = .CFG ∨ s.state = .RESP → (s.rvalid → i.rready = false) →
      (step i s).read_len = 0 := by
    intro hs hno
    have hidle : s.state ≠ .IDLE := by rcases hs with hs | hs <;> simp [hs]
    rw [next_req_eq hidle] at hrd
    have hready : s.arready = false := by rcases hs with hs | hs <;> simp [h.arready, hs]
    have hfire : (s.rvalid && i.rready) = false := by
      cases hvalid : s.rvalid with
      | false => rfl
      | true => rw [hno hvalid]; rfl
    simp only [step, hready, Bool.and_false, Bool.false_eq_true, if_false, hfire]
    exact h.read_len hrd hs
  cases moves h hmay with
  | dec_cfg hd | dec_resp hd => exact hdec hd
  | stay_cfg hc | end_cfg hc =>
    refine hstay (.inl hc) fun hvalid => ?_
    rw [not_rvalid h (by simp [hc])] at hvalid
    cases hvalid
  | end_desc hd =>
    rw [next_req_eq (by simp [hd]), (h.wr_desc hd).2.1] at hrd
    cases hrd
  | stay_resp hr _ _ hno =>
    rw [next_req_eq (by simp [hr])] at hrd
    exact hstay (.inr hr) (hno hrd)
  | _ => simp_all

theorem decoded_step (h : Inv i s) (hmay : May i s) (hidle : (step i s).state ≠ .IDLE)
    (haw : (step i s).state ≠ .AW_AR) : (step i s).dec = (step i s).req.decode := by
  rw [req_step, dec_step]
  by_cases hs : s.state = .AW_AR
  · rw [if_pos hs, next_req_eq (by simp [hs])]
  · rw [if_neg hs]
    have hs' : s.state ≠ .IDLE := by
      intro hs'
      rw [state_step] at hidle haw
      cases moves h hmay <;> simp_all
    rw [next_req_eq hs', h.dec hs' hs]

theorem active_step (h : Inv i s) (hmay : May i s) (hyes : (step i s).active) :
    (step i s).state = .WR_DESC ∨ (step i s).state = .CFG ∨
      ((step i s).state = .RESP ∧ (step i s).req.rd_n_wr ∧ (step i s).rvalid = false) := by
  have hactive : (step i s).active =
    if s.state = .DEC then true else if next_state i s = .RESP then false else s.active := rfl
  have hidle := not_active h
  rw [hactive] at hyes
  rw [state_step]
  cases moves h hmay with
  | dec_resp hd hn hrd =>
    refine .inr (.inr ⟨hn, ?_, ?_⟩)
    · rwa [req_step, next_req_eq (by simp [hd])]
    · simp [step, not_rvalid h, hd]
  | end_resp hr hn hdone =>
    exfalso
    rw [if_neg (by simp [hr]), if_neg (by simp [hn])] at hyes
    rcases h.active hyes with hs | hs | ⟨-, hrd, hvalid⟩
    · simp [hr] at hs
    · simp [hr] at hs
    · rcases hdone with ⟨hwr, -⟩ | ⟨-, hvalid', -⟩
      · simp [hwr] at hrd
      · simp [hvalid] at hvalid'
  | _ => simp_all

theorem wr_desc_step (h : Inv i s) (hmay : May i s) (hn : (step i s).state = .WR_DESC) :
    (step i s).active ∧ (step i s).req.rd_n_wr = false ∧
      ((step i s).dec.c2h_wr_desc ∨ (step i s).dec.h2c_wr_desc) := by
  rw [state_step] at hn
  rw [req_step, dec_step]
  cases moves h hmay with
  | dec_desc hd _ hdesc =>
    rw [next_req_eq (by simp [hd])]
    simp only [hd, reduceCtorEq, if_false, step, if_true, true_and]
    exact hdesc
  | stay_desc hd _ _ =>
    rw [next_req_eq (by simp [hd])]
    obtain ⟨hactive, hwr, hdesc⟩ := h.wr_desc hd
    simp only [hd, reduceCtorEq, if_false, step, hn, hactive, true_and]
    exact ⟨hwr, hdesc⟩
  | _ => simp_all

theorem cfg_step (h : Inv i s) (hmay : May i s) (hn : (step i s).state = .CFG) :
    (∃ b, (step i s).dec.cfg b) ∧ ((step i s).req.rd_n_wr = false → (step i s).req.len = 0) := by
  rw [state_step] at hn
  rw [req_step, dec_step]
  cases moves h hmay with
  | dec_cfg hd _ hcfg =>
    rw [next_req_eq (by simp [hd]), if_neg (by simp [hd])]
    exact hcfg
  | stay_cfg hc _ _ =>
    rw [next_req_eq (by simp [hc]), if_neg (by simp [hc])]
    exact h.cfg hc
  | _ => simp_all

theorem inv_step (h : Inv i s) (hmay : May i s) (hkeeps : Keeps i s i') : Inv i' (step i s) := by
  have hm := moves h hmay
  constructor
  case state =>
    rw [state_step]
    cases hm <;> simp [*]
  case dec => exact decoded_step h hmay
  case wr_dummy =>
    rw [dec_step]
    split
    · exact decode_wr_dummy _
    · exact h.wr_dummy
  case active => exact active_step h hmay
  case wr_desc => exact wr_desc_step h hmay
  case cfg => exact cfg_step h hmay
  case awready =>
    have haw : (step i s).awready = (!s.req.rd_n_wr && s.state = .AW_AR) := rfl
    rw [haw, state_step, req_step]
    cases hm with
    | to_dec hs hn => simp [hs, hn, next_req_eq]
    | _ => simp [*]
  case arready =>
    have har : (step i s).arready = (s.req.rd_n_wr && s.state = .AW_AR) := rfl
    rw [har, state_step, req_step]
    cases hm with
    | to_dec hs hn => simp [hs, hn, next_req_eq]
    | _ => simp [*]
  case aw => exact fun hs => (req_shown_step h hmay hkeeps hs).1
  case ar => exact fun hs => (req_shown_step h hmay hkeeps hs).2
  case bvalid => exact bvalid_step h hmay
  case rvalid => exact rvalid_step h hmay
  case read_len => exact read_len_step h hmay
  case blocks => exact block_step h hmay
  case wvalid =>
    intro b hb
    obtain ⟨hs, hcfg, hrd, hvalid, hno⟩ := block_wr_step h hb
    exact (hkeeps.w hvalid ((stays_cfg h hmay hs hcfg hno).2 hrd)).1

/-! ## What is owed -/

/-- What the machine has taken and not answered: a write without all its data, a response, or the
beat of a read. -/
inductive Owes (s : SdePs p) :
    List PcisAddr × List WBeat → List (BitVec 5) → List (BitVec 5 × Bool) → Prop where
  | nothing (hs : s.state = .IDLE ∨ s.state = .AW_AR ∨ s.state = .DEC) : Owes s ([], []) [] []
  | data (a : PcisAddr) (beats : List WBeat) (hs : s.state = .WR_DESC ∨ s.state = .CFG)
    (hreq : s.req = .capture a false) (hlast : ∀ b ∈ beats, b.last = false)
    (hcfg : s.state = .CFG → beats = []) : Owes s ([a], beats) [] []
  | b (hs : s.state = .RESP) (hwr : s.req.rd_n_wr = false) : Owes s ([], []) [s.req.id] []
  | r (hs : s.state = .CFG ∨ s.state = .RESP) (hrd : s.req.rd_n_wr) :
    Owes s ([], []) [] [(s.req.id, true)]

theorem aw_accepted_nil (h : Inv i s) (hs : s.state ≠ .DEC) : aw_accepted i s = [] := by
  simp [aw_accepted, h.awready, hs]

theorem ar_accepted_nil (h : Inv i s) (hs : s.state ≠ .DEC) : ar_accepted i s = [] := by
  simp [ar_accepted, h.arready, hs]

theorem w_accepted_nil (h : Inv i s) (hdesc : s.state ≠ .WR_DESC)
    (hcfg : s.state = .CFG → s.req.rd_n_wr) : w_accepted i s = [] := by
  have hready : wready i s = false := by
    by_contra hne
    rcases wready_cases h (Bool.not_eq_false _ ▸ hne) with hs | ⟨hs, hwr, -⟩
    · exact hdesc hs
    · rw [hcfg hs] at hwr
      cases hwr
  simp [w_accepted, hready]

theorem b_sent_nil (h : Inv i s) (hs : s.state ≠ .RESP) : b_sent i s = [] := by
  simp [b_sent, not_bvalid h hs]

theorem r_sent_nil (h : Inv i s) (hs : s.state ≠ .RESP) : r_sent i s = [] := by
  simp [r_sent, not_rvalid h hs]

variable (i s) in
/-- The bursts that get complete in this cycle, and what is left. -/
def paired (o : List PcisAddr × List WBeat) : List (PcisAddr × List WBeat) × List PcisAddr × List WBeat :=
  pair WBeat.last (o.1 ++ aw_accepted i s) (o.2 ++ w_accepted i s)

variable {o : List PcisAddr × List WBeat} {b : List (BitVec 5)} {r : List (BitVec 5 × Bool)}

variable (i s) in
/-- What is owed after a cycle, and how it came to that. -/
def OwesNext (o : List PcisAddr × List WBeat) (b : List (BitVec 5)) (r : List (BitVec 5 × Bool)) :
    Prop :=
  ∃ b' r', Owes (step i s) (paired i s o).2 b' r' ∧
    b ++ (paired i s o).1.map (fun w => w.1.id) = b_sent i s ++ b' ∧
    r ++ (ar_accepted i s).flatMap r_burst = r_sent i s ++ r'

theorem owes_before (h : Inv i s) (ho : Owes s o b r) (hs : s.state = .IDLE ∨ s.state = .AW_AR)
    (hn : next_state i s = .IDLE ∨ next_state i s = .AW_AR ∨ next_state i s = .DEC) :
    OwesNext i s o b r := by
  have hdesc : s.state ≠ .WR_DESC := by rcases hs with hs | hs <;> simp [hs]
  have hcfg : s.state ≠ .CFG := by rcases hs with hs | hs <;> simp [hs]
  have hresp : s.state ≠ .RESP := by rcases hs with hs | hs <;> simp [hs]
  have hdec : s.state ≠ .DEC := by rcases hs with hs | hs <;> simp [hs]
  unfold OwesNext paired
  rw [aw_accepted_nil h hdec, ar_accepted_nil h hdec, b_sent_nil h hresp, r_sent_nil h hresp,
    w_accepted_nil h hdesc (fun hc => absurd hc hcfg)]
  cases ho with
  | nothing => exact ⟨[], [], .nothing hn, rfl, rfl⟩
  | data _ _ hs' => exact absurd hs' (by simp [hdesc, hcfg])
  | b hs' => exact absurd hs' hresp
  | r hs' => exact absurd hs' (by simp [hcfg, hresp])

theorem owes_dec (h : Inv i s) (hmay : May i s) (ho : Owes s o b r) (hs : s.state = .DEC)
    (hwr : s.req.rd_n_wr = false → next_state i s = .WR_DESC ∨ next_state i s = .CFG)
    (hrd : s.req.rd_n_wr → next_state i s = .CFG ∨ next_state i s = .RESP) :
    OwesNext i s o b r := by
  have hreq : (step i s).req = s.req := next_req_eq (by simp [hs])
  have hw := w_accepted_nil h (by simp [hs]) (fun hc => by simp [hs] at hc)
  unfold OwesNext paired
  rw [hw, b_sent_nil h (by simp [hs]), r_sent_nil h (by simp [hs])]
  cases ho with
  | nothing =>
    cases hkind : s.req.rd_n_wr with
    | false =>
      obtain ⟨hvalid, heq⟩ := h.aw (.inr hs) hkind
      have haw : aw_accepted i s = [i.aw] := by simp [aw_accepted, h.awready, hs, hkind, hvalid]
      have har : ar_accepted i s = [] := by simp [ar_accepted, h.arready, hkind]
      rw [haw, har]
      refine ⟨[], [], .data i.aw [] (hwr hkind) (hreq.trans heq) (by simp) (fun _ => rfl), rfl, rfl⟩
    | true =>
      obtain ⟨hvalid, heq⟩ := h.ar (.inr hs) hkind
      have haw : aw_accepted i s = [] := by simp [aw_accepted, h.awready, hkind]
      have hready : s.arready := by simp [h.arready, hs, hkind]
      have har : ar_accepted i s = [i.ar] := by simp [ar_accepted, hready, hvalid]
      have hburst : r_burst i.ar = [((step i s).req.id, true)] := by
        rw [hreq, heq]
        simp [r_burst, hmay.ar hvalid hready, PcisReq.capture]
      rw [haw, har, List.flatMap_singleton, hburst]
      exact ⟨[], _, .r (hrd hkind) (by rw [hreq, hkind]), rfl, rfl⟩
  | data _ _ hs' => simp [hs] at hs'
  | b hs' => simp [hs] at hs'
  | r hs' => simp [hs] at hs'

theorem owes_stay (h : Inv i s) (ho : Owes s o b r) (hs : s.state = .WR_DESC ∨ s.state = .CFG)
    (hn : next_state i s = s.state) (hbeat : ∀ w ∈ w_accepted i s, s.state = .WR_DESC ∧ w.last = false) :
    OwesNext i s o b r := by
  have hidle : s.state ≠ .IDLE := by rcases hs with hs | hs <;> simp [hs]
  have hdec : s.state ≠ .DEC := by rcases hs with hs | hs <;> simp [hs]
  have hresp : s.state ≠ .RESP := by rcases hs with hs | hs <;> simp [hs]
  have hreq : (step i s).req = s.req := next_req_eq hidle
  have hstate : (step i s).state = s.state := hn
  unfold OwesNext paired
  rw [aw_accepted_nil h hdec, ar_accepted_nil h hdec, b_sent_nil h hresp, r_sent_nil h hresp,
    List.append_nil]
  cases ho with
  | nothing hs' => simp [hidle, hdec] at hs'; rcases hs with hs | hs <;> simp [hs] at hs'
  | data a beats _ heq hlast hcfg =>
    have hall : ∀ w ∈ beats ++ w_accepted i s, w.last = false := by
      intro w hw
      rcases List.mem_append.mp hw with hw | hw
      · exact hlast w hw
      · exact (hbeat w hw).2
    have hpair : pair WBeat.last [a] (beats ++ w_accepted i s) = ([], [a], beats ++ w_accepted i s) := by
      simp [pair, burst_none hall]
    rw [hpair]
    refine ⟨[], [], .data a _ (hstate ▸ hs) (hreq.trans heq) hall fun hc => ?_, rfl, rfl⟩
    rw [hstate] at hc
    rw [hcfg hc, List.nil_append]
    refine List.eq_nil_iff_forall_not_mem.mpr fun w hw => ?_
    rw [hc] at hbeat
    cases (hbeat w hw).1
  | b hs' => exact absurd hs' hresp
  | r hs' hrd =>
    have hcfg : s.state = .CFG := by simpa [hresp] using hs'
    have hw : w_accepted i s = [] := w_accepted_nil h (by simp [hcfg]) fun _ => hrd
    rw [hw, ← hreq]
    exact ⟨[], _, .r (hstate ▸ .inl hcfg) (hreq ▸ hrd), rfl, rfl⟩

theorem owes_end (h : Inv i s) (ho : Owes s o b r) (hs : s.state = .WR_DESC ∨ s.state = .CFG)
    (hn : next_state i s = .RESP)
    (hbeat : s.req.rd_n_wr = false → w_accepted i s = [i.w] ∧ i.w.last) : OwesNext i s o b r := by
  have hidle : s.state ≠ .IDLE := by rcases hs with hs | hs <;> simp [hs]
  have hdec : s.state ≠ .DEC := by rcases hs with hs | hs <;> simp [hs]
  have hresp : s.state ≠ .RESP := by rcases hs with hs | hs <;> simp [hs]
  have hreq : (step i s).req = s.req := next_req_eq hidle
  unfold OwesNext paired
  rw [aw_accepted_nil h hdec, ar_accepted_nil h hdec, b_sent_nil h hresp, r_sent_nil h hresp,
    List.append_nil]
  cases ho with
  | nothing hs' => rcases hs with hs | hs <;> simp [hs] at hs'
  | data a beats _ heq hlast _ =>
    have hwr : s.req.rd_n_wr = false := by rw [heq]; rfl
    obtain ⟨hw, hlast'⟩ := hbeat hwr
    have hpair : pair WBeat.last [a] (beats ++ [i.w]) = ([(a, beats ++ [i.w])], [], []) := by
      simp [pair, burst_last hlast hlast']
    rw [hw, hpair]
    refine ⟨[(step i s).req.id], [], .b hn (hreq ▸ hwr), ?_, rfl⟩
    rw [hreq, heq]
    rfl
  | b hs' => exact absurd hs' hresp
  | r hs' hrd =>
    have hcfg : s.state = .CFG := by simpa [hresp] using hs'
    have hw : w_accepted i s = [] := w_accepted_nil h (by simp [hcfg]) fun _ => hrd
    rw [hw, ← hreq]
    exact ⟨[], _, .r (.inr hn) (hreq ▸ hrd), rfl, rfl⟩

theorem owes_resp (h : Inv i s) (ho : Owes s o b r) (hs : s.state = .RESP)
    (hstay : next_state i s = .RESP → b_sent i s = [] ∧ r_sent i s = [])
    (hdone : next_state i s ≠ .RESP → next_state i s = .IDLE ∧
      (s.req.rd_n_wr = false → b_sent i s = [s.req.id] ∧ r_sent i s = []) ∧
      (s.req.rd_n_wr → b_sent i s = [] ∧ r_sent i s = [(s.req.id, true)])) :
    OwesNext i s o b r := by
  have hreq : (step i s).req = s.req := next_req_eq (by simp [hs])
  have hw : w_accepted i s = [] := w_accepted_nil h (by simp [hs]) (fun hc => by simp [hs] at hc)
  unfold OwesNext paired
  rw [aw_accepted_nil h (by simp [hs]), ar_accepted_nil h (by simp [hs]), hw]
  by_cases hn : next_state i s = .RESP
  · obtain ⟨hb, hr⟩ := hstay hn
    rw [hb, hr]
    cases ho with
    | nothing hs' => simp [hs] at hs'
    | data _ _ hs' => simp [hs] at hs'
    | b _ hwr =>
      rw [← hreq]
      exact ⟨_, [], .b hn (hreq ▸ hwr), rfl, rfl⟩
    | r _ hrd =>
      rw [← hreq]
      exact ⟨[], _, .r (.inr hn) (hreq ▸ hrd), rfl, rfl⟩
  · obtain ⟨hidle, hwr', hrd'⟩ := hdone hn
    cases ho with
    | nothing hs' => simp [hs] at hs'
    | data _ _ hs' => simp [hs] at hs'
    | b _ hwr =>
      obtain ⟨hb, hr⟩ := hwr' hwr
      rw [hb, hr]
      exact ⟨[], [], .nothing (.inl hidle), rfl, rfl⟩
    | r _ hrd =>
      obtain ⟨hb, hr⟩ := hrd' hrd
      rw [hb, hr]
      exact ⟨[], [], .nothing (.inl hidle), rfl, rfl⟩

theorem not_taken_cfg (h : Inv i s) (hs : s.state = .CFG) (hdone : ∀ b, cfg_done s b = false) :
    w_accepted i s = [] := by
  have hready : wready i s = false := by
    by_contra hne
    rcases wready_cases h (Bool.not_eq_false _ ▸ hne) with hs' | ⟨-, hwr, -⟩
    · simp [hs] at hs'
    · obtain ⟨b, hb⟩ := (wready_cfg h hs hwr).mp (Bool.not_eq_false _ ▸ hne)
      simp [hdone b] at hb
  simp [w_accepted, hready]

theorem taken_cfg (h : Inv i s) (ho : Owes s o b r) (hs : s.state = .CFG)
    (hdone : ∃ b, cfg_done s b) (hwr : s.req.rd_n_wr = false)
    (hfits : ∀ a ∈ (paired i s o).2.1.head?, (paired i s o).2.2.length ≤ a.len.toNat) :
    w_accepted i s = [i.w] ∧ i.w.last := by
  obtain ⟨b, hb⟩ := hdone
  have hready : wready i s := (wready_cfg h hs hwr).mpr ⟨b, hb⟩
  have hvalid : i.wvalid := by
    simp only [cfg_done, hwr, Bool.false_and, Bool.not_false, Bool.true_and, Bool.false_or,
      Bool.and_eq_true] at hb
    exact h.wvalid b (.inr hb.2)
  have hw : w_accepted i s = [i.w] := by simp [w_accepted, hvalid, hready]
  refine ⟨hw, ?_⟩
  by_contra hne
  cases ho with
  | nothing hs' => simp [hs] at hs'
  | data a beats _ heq _ hcfg =>
    have hlen := (h.cfg hs).2 hwr
    rw [heq] at hlen
    have hpair : paired i s ([a], beats) = ([], [a], [i.w]) := by
      have hno : ∀ w ∈ [i.w], w.last = false := by
        simpa using hne
      unfold paired
      simp [aw_accepted_nil h (show s.state ≠ .DEC by simp [hs]), hw, hcfg hs, pair, burst_none hno]
    rw [hpair] at hfits
    have hle := hfits a rfl
    have hzero : a.len = 0 := hlen
    simp [hzero] at hle
  | b hs' => simp [hs] at hs'
  | r _ hrd => simp [hwr] at hrd

theorem not_sent_resp (h : Inv i s) (hb : s.req.rd_n_wr = false → s.bvalid → i.bready = false)
    (hr : s.req.rd_n_wr → s.rvalid → i.rready = false) : b_sent i s = [] ∧ r_sent i s = [] := by
  constructor
  · cases hvalid : s.bvalid with
    | false => simp [b_sent, hvalid]
    | true => simp [b_sent, hb (h.bvalid hvalid).2 hvalid]
  · cases hvalid : s.rvalid with
    | false => simp [r_sent, hvalid]
    | true => simp [r_sent, hr (h.rvalid hvalid).2.1 hvalid]

theorem owes_step (h : Inv i s) (hmay : May i s) (ho : Owes s o b r)
    (hfits : ∀ a ∈ (paired i s o).2.1.head?, (paired i s o).2.2.length ≤ a.len.toNat) :
    OwesNext i s o b r := by
  cases moves h hmay with
  | stay_idle hs hn => exact owes_before h ho (.inl hs) (.inl hn)
  | capture hs hn => exact owes_before h ho (.inl hs) (.inr (.inl hn))
  | to_dec hs hn => exact owes_before h ho (.inr hs) (.inr (.inr hn))
  | dec_desc hs hn hreq =>
    refine owes_dec h hmay ho hs (fun _ => .inl hn) fun hrd => ?_
    simp [hreq.1] at hrd
  | dec_cfg hs hn => exact owes_dec h hmay ho hs (fun _ => .inr hn) fun _ => .inl hn
  | dec_resp hs hn hrd =>
    refine owes_dec h hmay ho hs (fun hwr => ?_) fun _ => .inr hn
    simp [hrd] at hwr
  | stay_desc hs hn hbeat =>
    refine owes_stay h ho (.inl hs) (hn.trans hs.symm) fun w hw => ⟨hs, ?_⟩
    unfold w_accepted fire at hw
    split at hw
    case isTrue hfire =>
      rw [Bool.and_eq_true] at hfire
      rw [List.mem_singleton.mp hw]
      exact hbeat hfire.1 hfire.2
    case isFalse => simp at hw
  | end_desc hs hn hbeat =>
    obtain ⟨hvalid, hlast, hready⟩ := hbeat
    exact owes_end h ho (.inl hs) hn fun _ => ⟨by simp [w_accepted, hvalid, hready], hlast⟩
  | stay_cfg hs hn hdone =>
    refine owes_stay h ho (.inr hs) (hn.trans hs.symm) fun w hw => ?_
    rw [not_taken_cfg h hs hdone] at hw
    simp at hw
  | end_cfg hs hn hdone =>
    exact owes_end h ho (.inr hs) hn fun hwr => taken_cfg h ho hs hdone hwr hfits
  | stay_resp hs hn hb hr =>
    exact owes_resp h ho hs (fun _ => not_sent_resp h hb hr) fun hne => absurd hn hne
  | end_resp hs hn hdone =>
    refine owes_resp h ho hs (fun hn' => ?_) fun _ => ⟨hn, fun hwr => ?_, fun hrd => ?_⟩
    · simp [hn] at hn'
    · rcases hdone with ⟨-, hvalid, hready⟩ | ⟨hrd, -⟩
      · simp [b_sent, r_sent, hvalid, hready, not_rvalid_wr h hwr]
      · simp [hwr] at hrd
    · rcases hdone with ⟨hwr, -⟩ | ⟨-, hvalid, hready⟩
      · simp [hwr] at hrd
      · simp [b_sent, r_sent, hvalid, hready, not_bvalid_rd h hrd, (h.rvalid hvalid).2.2]

end SdePs

end AwsFpga.Rtl
