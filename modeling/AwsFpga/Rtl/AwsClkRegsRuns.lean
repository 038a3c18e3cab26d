import AwsFpga.Lib.LeadsTo
import AwsFpga.Rtl.AwsClkRegs

/-!
# The accesses to the registers of the clock generator

Every write and every read of a master is served once, and the converter comes back to idle. The
reset is released once, before all accesses.
-/

open Lib Lib.Axi

namespace AwsFpga.Rtl.AwsClkRegs

variable (p : Params) (ins : Nat → In)

/-- The writes whose data was taken before cycle `n`: the addresses in their order, each with the
data in its order. -/
def writes (n : Nat) : List (BitVec 8 × BitVec 32) :=
  (((circuit p).passed ins aw_taken n).map offset).zip ((circuit p).passed ins w_taken n)

/-- What a read that is taken in cycle `n` is to be answered: the register at its address after the
writes before it. The locks are those of two cycles later. -/
def answer (n : Nat) : List (BitVec 32) :=
  (ar_taken (ins n) ((circuit p).state ins n)).map fun addr =>
    reg_value p (ins (n + 2)).mmcm_lock_syncd ((writes p ins n).foldl Csrs.apply .initial)
      (offset addr)

/-- The answers to the reads that were taken before cycle `n`. -/
def answers (n : Nat) : List (BitVec 32) := (List.range n).flatMap (answer p ins)

/-- What the bus asks of a master, and of the reset that it comes first. -/
structure Legal : Prop where
  rst_n : ∀ n, (ins n).i_rst_n → (ins (n + 1)).i_rst_n
  aw : Held (fun n => (ins n).awvalid) (fun n => ((circuit p).state ins n).cnv.awready)
    fun n => (ins n).awaddr
  w : Held (fun n => (ins n).wvalid) (fun n => ((circuit p).state ins n).cnv.wready)
    fun n => (ins n).wdata
  ar : Held (fun n => (ins n).arvalid) (fun n => ((circuit p).state ins n).cnv.arready)
    fun n => (ins n).araddr

structure Serves : Prop where
  /-- An address is taken before its data, and the next one after it. -/
  in_turn : ∀ n, ((circuit p).passed ins w_taken n).length ≤
      ((circuit p).passed ins aw_taken n).length ∧
    ((circuit p).passed ins aw_taken n).length ≤
      ((circuit p).passed ins w_taken n).length + 1
  /-- Each write is applied once, two cycles before its data is taken. -/
  applied : ∀ n, (circuit p).passed ins (fun _ => applied) n = writes p ins (n + 2)
  csrs : ∀ n, ((circuit p).state ins n).csrs = (writes p ins (n + 2)).foldl Csrs.apply .initial
  /-- Each write whose data was taken has its B or shows it. -/
  b : ∀ n, ((circuit p).passed ins w_taken n).length =
    ((circuit p).passed ins b_sent n).length +
      (shown ((circuit p).state ins n).cnv.bvalid ()).length
  b_held : Held (fun n => ((circuit p).state ins n).cnv.bvalid) (fun n => (ins n).bready)
    fun _ => ()
  /-- Three cycles later each read has its R or shows it. -/
  r : ∀ n, answers p ins n = (circuit p).passed ins r_sent (n + 3) ++
    shown ((circuit p).state ins (n + 3)).cnv.rvalid
      ((circuit p).state ins (n + 3)).cnv.axil_bus_rdata_q
  r_held : Held (fun n => ((circuit p).state ins n).cnv.rvalid) (fun n => (ins n).rready)
    fun n => ((circuit p).state ins n).cnv.axil_bus_rdata_q
  /-- When it is idle every access has its response. -/
  idle : ∀ n, ((circuit p).state ins n).cnv.axl_fsm_state_q = .AXL_FSM_IDLE →
    ((circuit p).passed ins aw_taken n).length = ((circuit p).passed ins b_sent n).length ∧
      ((circuit p).passed ins ar_taken n).length = ((circuit p).passed ins r_sent n).length
  /-- Of a write and a read in the same cycle the write is served, and the read waits for its B. -/
  write_first : ∀ n, ((circuit p).state ins n).cnv.axl_fsm_state_q = .AXL_FSM_IDLE →
    (ins n).i_rst_n → (ins n).awvalid → (ins n).arvalid →
    aw_taken (ins (n + 1)) ((circuit p).state ins (n + 1)) = [(ins n).awaddr] ∧
      ∀ m, n ≤ m → (circuit p).passed ins b_sent m = (circuit p).passed ins b_sent n →
        ar_taken (ins m) ((circuit p).state ins m) = [] ∧
          (ins m).arvalid ∧ (ins m).araddr = (ins n).araddr

/-- A master that goes on with its accesses. -/
structure Finishes : Prop where
  w : ∀ n, ((circuit p).passed ins w_taken n).length <
      ((circuit p).passed ins aw_taken n).length → ∃ m, n ≤ m ∧ (ins m).wvalid
  b : ∀ n, ((circuit p).state ins n).cnv.bvalid → ∃ m, n ≤ m ∧ (ins m).bready
  r : ∀ n, ((circuit p).state ins n).cnv.rvalid → ∃ m, n ≤ m ∧ (ins m).rready

structure Returns : Prop where
  idle : ∀ n, ∃ m, n ≤ m ∧ ((circuit p).state ins m).cnv.axl_fsm_state_q = .AXL_FSM_IDLE
  /-- A read is taken, unless there are writes for ever. -/
  reads : ∀ n, (ins n).i_rst_n → (ins n).arvalid →
    (∃ m, n ≤ m ∧ ar_taken (ins m) ((circuit p).state ins m) = [(ins n).araddr]) ∨
      ∀ k, ∃ m, k ≤ m ∧ aw_taken (ins m) ((circuit p).state ins m) ≠ []

variable {p ins}

theorem power_on : Inv (circuit p).reset := Shows.initial

theorem inv_may (hlegal : Legal p ins) (n : Nat) :
    Inv ((circuit p).state ins n) ∧ May (ins n) ((circuit p).state ins n) := by
  induction n with
  | zero =>
    refine ⟨power_on, .inr rfl, ?_, ?_, ?_, ?_⟩ <;> intro h <;> cases h
  | succ n ih =>
    obtain ⟨hinv, hmay⟩ := ih
    exact ⟨(hinv.step hmay).1,
      May.next hinv hmay (hlegal.rst_n n) (hlegal.aw n) (hlegal.w n) (hlegal.ar n)⟩

section

variable (hlegal : Legal p ins)

include hlegal

theorem phase_succ (n : Nat) : phase ((circuit p).state ins (n + 1)) =
    (phase ((circuit p).state ins n)).next (ins n) :=
  ((inv_may hlegal n).1.step (inv_may hlegal n).2).2

theorem addressed_eq (n : Nat) : ((circuit p).passed ins aw_taken n).map offset =
    ((circuit p).passed ins (fun _ => applied) n).map Prod.fst ++
      addressed ((circuit p).state ins n) := by
  rw [Circuit.passed_map, Circuit.passed_map]
  exact Circuit.passed_eq addressed (fun n => (inv_may hlegal n).1) (fun n => (inv_may hlegal n).2)
    rfl (fun _ _ hm hi => aw_step hi hm) n

theorem written_eq (n : Nat) : ((circuit p).passed ins (fun _ => applied) n).map Prod.snd =
    (circuit p).passed ins w_taken n ++ written ((circuit p).state ins n) := by
  rw [Circuit.passed_map]
  exact Circuit.passed_eq written (fun n => (inv_may hlegal n).1) (fun n => (inv_may hlegal n).2)
    rfl (fun _ _ hm hi => w_step hi hm) n

theorem w_taken_later (n : Nat) : (circuit p).passed ins w_taken (n + 2) =
    ((circuit p).passed ins (fun _ => applied) n).map Prod.snd := by
  obtain ⟨hinv, hmay⟩ := inv_may hlegal n
  obtain ⟨hinv', hmay'⟩ := inv_may hlegal (n + 1)
  have hkept := wdata_kept (p := p) hinv hmay
  rw [written_eq hlegal, Circuit.passed_succ, Circuit.passed_succ, List.append_assoc,
    w_taken_eq hinv hmay, w_taken_eq hinv' hmay', phase_succ hlegal]
  unfold written
  rw [Circuit.state_succ]
  change _ ++ (_ ++ if _ then [(AwsClkRegs.step p (ins n) _).cfg_wdata_q] else []) = _
  cases hph : phase ((circuit p).state ins n) <;> simp [hph] at hkept ⊢
  exact hkept

theorem applied_eq (n : Nat) :
    (circuit p).passed ins (fun _ => applied) n = writes p ins (n + 2) := by
  unfold writes
  rw [w_taken_later hlegal, Circuit.passed_succ, Circuit.passed_succ, List.map_append,
    List.map_append, addressed_eq hlegal, List.append_assoc, List.append_assoc, zip_fst_snd]

theorem csrs_eq (n : Nat) :
    ((circuit p).state ins n).csrs = (writes p ins (n + 2)).foldl Csrs.apply .initial := by
  rw [← applied_eq hlegal]
  induction n with
  | zero => rfl
  | succ n ih =>
    rw [Circuit.passed_succ, List.foldl_append, ← ih, ← csrs_step_eq]
    rfl

theorem aw_count (n : Nat) : ((circuit p).passed ins aw_taken n).length =
    ((circuit p).passed ins w_taken n).length + (addressed ((circuit p).state ins n)).length +
      (written ((circuit p).state ins n)).length := by
  have haddr := congrArg List.length (addressed_eq hlegal n)
  have hdata := congrArg List.length (written_eq hlegal n)
  rw [List.length_append, List.length_map, List.length_map] at haddr
  rw [List.length_append, List.length_map] at hdata
  omega

theorem b_count (n : Nat) : ((circuit p).passed ins w_taken n).length =
    ((circuit p).passed ins b_sent n).length +
      (shown ((circuit p).state ins n).cnv.bvalid ()).length := by
  have hb := Circuit.passed_eq (fun s : ClkRegs => shown s.cnv.bvalid ())
    (fun n => (inv_may hlegal n).1) (fun n => (inv_may hlegal n).2) rfl
    (fun _ _ hm hi => b_step (p := p) hi hm) n
  rw [← Circuit.passed_map] at hb
  have hlen := congrArg List.length hb
  rwa [List.length_map, List.length_append] at hlen

/-! ## Reads -/

theorem writes_succ (n : Nat)
    (hw : phase ((circuit p).state ins n) ≠ .waddr ∧ phase ((circuit p).state ins n) ≠ .wready) :
    writes p ins (n + 1) = writes p ins n := by
  obtain ⟨hinv, hmay⟩ := inv_may hlegal n
  unfold writes
  rw [Circuit.passed_succ, Circuit.passed_succ, aw_taken_eq hinv hmay, w_taken_eq hinv hmay,
    if_neg hw.1, if_neg hw.2, List.append_nil, List.append_nil]

/-- Three cycles after its address is taken the value of the register is there. -/
theorem answer_eq (n : Nat) : answer p ins n = returned ((circuit p).state ins (n + 3)) := by
  obtain ⟨hinv, hmay⟩ := inv_may hlegal n
  unfold answer returned
  rw [ar_taken_eq hinv hmay]
  have hphase1 := phase_succ hlegal n
  have hphase2 := phase_succ hlegal (n + 1)
  have hphase3 := phase_succ hlegal (n + 2)
  by_cases hph : phase ((circuit p).state ins n) = .raddr
  · rw [hph] at hphase1
    change _ = Phase.rreq at hphase1
    rw [hphase1] at hphase2
    change _ = Phase.rpulse at hphase2
    rw [hphase2] at hphase3
    change _ = Phase.rack at hphase3
    rw [if_pos hph, if_pos hphase3]
    have hwrites : writes p ins (n + 2 + 2) = writes p ins n := by
      rw [writes_succ hlegal _ (by simp [hphase3]), writes_succ hlegal _ (by simp [hphase2]),
        writes_succ hlegal _ (by simp [hphase1]), writes_succ hlegal _ (by simp [hph])]
    have haddr : ((circuit p).state ins (n + 2)).cfg_addr_q =
        offset ((circuit p).state ins n).cnv.cfg_addr_q := by
      have hkept1 : ((circuit p).state ins (n + 1)).cnv.cfg_addr_q = _ :=
        Shows.addr_kept hinv (by simp [hph])
      have hkept2 : ((circuit p).state ins (n + 2)).cnv.cfg_addr_q = _ :=
        Shows.addr_kept (inv_may hlegal (n + 1)).1 (by simp [hphase1])
      rw [(inv_may hlegal (n + 2)).1.addr (by simp [hphase2]) (by simp [hphase2])
        (by simp [hphase2]), hkept2, hkept1]
    change _ = [reg_value p (ins (n + 2)).mmcm_lock_syncd ((circuit p).state ins (n + 2)).csrs
      ((circuit p).state ins (n + 2)).cfg_addr_q]
    rw [csrs_eq hlegal, hwrites, haddr]
    rfl
  · have hno : phase ((circuit p).state ins (n + 3)) ≠ .rack := by
      intro hrack
      rw [hphase3, Phase.next_rack, hphase2, Phase.next_rpulse, hphase1, Phase.next_rreq] at hrack
      exact hph hrack
    rw [if_neg hph, if_neg hno]
    rfl

theorem answers_eq (n : Nat) :
    answers p ins n = (circuit p).passed ins (fun _ => returned) (n + 3) := by
  induction n with
  | zero =>
    have hphase1 := phase_succ hlegal 0
    have hphase2 := phase_succ hlegal 1
    have hidle : phase ((circuit p).state ins 0) = .idle := rfl
    have hone : phase ((circuit p).state ins 1) ≠ .rack := by
      rw [hphase1, hidle]
      simp
    have htwo : phase ((circuit p).state ins 2) ≠ .rack := by
      rw [hphase2, hphase1, hidle]
      simp
    unfold answers
    simp [Circuit.passed_succ, returned, hone, htwo]
    simp [phase, circuit, CnvRegs.initial]
  | succ n ih =>
    unfold answers at ih ⊢
    rw [List.range_succ, List.flatMap_append, ih, List.flatMap_singleton, answer_eq hlegal,
      Circuit.passed_succ _ _ _ (n + 3)]

theorem returned_eq (n : Nat) : (circuit p).passed ins (fun _ => returned) n =
    (circuit p).passed ins r_sent n ++ shown ((circuit p).state ins n).cnv.rvalid
      ((circuit p).state ins n).cnv.axil_bus_rdata_q :=
  Circuit.passed_eq (fun s : ClkRegs => shown s.cnv.rvalid s.cnv.axil_bus_rdata_q)
    (fun n => (inv_may hlegal n).1) (fun n => (inv_may hlegal n).2) rfl
    (fun _ _ hm hi => r_step hi hm) n

theorem ar_count (n : Nat) : ((circuit p).passed ins ar_taken n).length =
    ((circuit p).passed ins r_sent n).length + reading ((circuit p).state ins n) :=
  Circuit.passed_length_eq reading (fun n => (inv_may hlegal n).1) (fun n => (inv_may hlegal n).2)
    rfl (fun _ _ hm hi => ar_step hi hm) n

/-! ## A write and a read in the same cycle -/

theorem idle_phase (n : Nat)
    (hidle : ((circuit p).state ins n).cnv.axl_fsm_state_q = .AXL_FSM_IDLE) :
    phase ((circuit p).state ins n) = .idle := by
  have hstate := (inv_may hlegal n).1.state
  rw [hidle] at hstate
  exact Phase.state_idle.mp hstate.symm

theorem aw_taken_next (n : Nat) (hidle : phase ((circuit p).state ins n) = .idle)
    (hrst : (ins n).i_rst_n) (haw : (ins n).awvalid) :
    aw_taken (ins (n + 1)) ((circuit p).state ins (n + 1)) = [(ins n).awaddr] := by
  have hready := (inv_may hlegal n).1.awready
  rw [hidle] at hready
  have hready' := (inv_may hlegal (n + 1)).1.awready
  rw [phase_succ hlegal, Phase.next_waddr.mpr ⟨hidle, hrst, haw⟩] at hready'
  obtain ⟨hvalid', haddr'⟩ := hlegal.aw n haw hready
  simp only at hvalid' haddr'
  unfold aw_taken
  rw [hready', hvalid', haddr']
  rfl

theorem ar_taken_next (n : Nat) (hidle : phase ((circuit p).state ins n) = .idle)
    (hrst : (ins n).i_rst_n) (haw : (ins n).awvalid = false) (har : (ins n).arvalid) :
    ar_taken (ins (n + 1)) ((circuit p).state ins (n + 1)) = [(ins n).araddr] := by
  have hready := (inv_may hlegal n).1.arready
  rw [hidle] at hready
  have hready' := (inv_may hlegal (n + 1)).1.arready
  rw [phase_succ hlegal, Phase.next_raddr.mpr ⟨hidle, hrst, haw, har⟩] at hready'
  obtain ⟨hvalid', haddr'⟩ := hlegal.ar n har hready
  simp only at hvalid' haddr'
  unfold ar_taken
  rw [hready', hvalid', haddr']
  rfl

theorem read_waits (n : Nat) (hvalid : (ins n).arvalid)
    (hno : phase ((circuit p).state ins n) ≠ .raddr) :
    (ins (n + 1)).arvalid ∧ (ins (n + 1)).araddr = (ins n).araddr := by
  have hready := (inv_may hlegal n).1.arready
  rw [decide_eq_false hno] at hready
  exact hlegal.ar n hvalid hready

theorem write_served (n : Nat) (hidle : phase ((circuit p).state ins n) = .idle)
    (hrst : (ins n).i_rst_n) (haw : (ins n).awvalid) (har : (ins n).arvalid) (m : Nat) (hm : n ≤ m)
    (hb : (circuit p).passed ins b_sent m = (circuit p).passed ins b_sent n) :
    ((ins m).arvalid ∧ (ins m).araddr = (ins n).araddr) ∧
      (m = n ∨ (phase ((circuit p).state ins m)).writing) := by
  induction m, hm using Nat.le_induction with
  | base => exact ⟨⟨har, rfl⟩, .inl rfl⟩
  | succ m hm ih =>
    rw [Circuit.passed_succ] at hb
    have hprefix : (circuit p).passed ins b_sent n <+: (circuit p).passed ins b_sent m :=
      Circuit.passed_prefix hm
    have hlen := congrArg List.length hb
    rw [List.length_append] at hlen
    have hle := hprefix.length_le
    have hnone : b_sent (ins m) ((circuit p).state ins m) = [] :=
      List.length_eq_zero_iff.mp (by omega)
    rw [hnone, List.append_nil] at hb
    obtain ⟨⟨hvalid, haddr⟩, hwriting⟩ := ih hb
    have hraddr : phase ((circuit p).state ins m) ≠ .raddr := by
      rcases hwriting with rfl | hwriting
      · simp [hidle]
      · intro hph
        rw [hph] at hwriting
        cases hwriting
    obtain ⟨hvalid', haddr'⟩ := read_waits hlegal m hvalid hraddr
    refine ⟨⟨hvalid', haddr'.trans haddr⟩, .inr ?_⟩
    rw [phase_succ hlegal]
    rcases hwriting with rfl | hwriting
    · rw [hidle, Phase.next_waddr.mpr ⟨rfl, hrst, haw⟩]
      rfl
    · apply Phase.writing_next hwriting
      intro hph
      have hbvalid := (inv_may hlegal m).1.bvalid
      rw [hph] at hbvalid
      unfold b_sent at hnone
      rw [hbvalid] at hnone
      cases hready : (ins m).bready with
      | false => rfl
      | true =>
        rw [hready] at hnone
        cases hnone

theorem serves_run : Serves p ins where
  in_turn n := by
    rw [aw_count hlegal]
    unfold addressed written
    cases phase ((circuit p).state ins n) <;> simp
  applied := applied_eq hlegal
  csrs := csrs_eq hlegal
  b := b_count hlegal
  b_held := by
    intro n hvalid hready
    obtain ⟨hinv, -⟩ := inv_may hlegal n
    obtain ⟨hinv', -⟩ := inv_may hlegal (n + 1)
    refine ⟨?_, rfl⟩
    have hph : phase ((circuit p).state ins n) = .bresp := by
      simpa [hinv.bvalid] using hvalid
    change ((circuit p).state ins (n + 1)).cnv.bvalid = true
    rw [hinv'.bvalid, phase_succ hlegal, hph]
    simpa using hready
  r n := by rw [answers_eq hlegal, returned_eq hlegal]
  r_held := by
    intro n hvalid hready
    obtain ⟨hinv, hmay⟩ := inv_may hlegal n
    obtain ⟨hinv', -⟩ := inv_may hlegal (n + 1)
    have hph : phase ((circuit p).state ins n) = .rresp := by
      simpa [hinv.rvalid] using hvalid
    refine ⟨?_, ?_⟩
    · change ((circuit p).state ins (n + 1)).cnv.rvalid = true
      rw [hinv'.rvalid, phase_succ hlegal, hph]
      simpa using hready
    · have hdata := rdata_step (p := p) hinv hmay
      rw [if_neg (by simp [hph])] at hdata
      exact hdata
  idle := by
    intro n hidle
    have hph := idle_phase hlegal n hidle
    have hbvalid := (inv_may hlegal n).1.bvalid
    rw [aw_count hlegal, b_count hlegal, ar_count hlegal, hbvalid]
    unfold addressed written reading
    simp [hph]
  write_first := by
    intro n hidle hrst haw har
    have hph := idle_phase hlegal n hidle
    refine ⟨aw_taken_next hlegal n hph hrst haw, ?_⟩
    · intro m hm hb
      obtain ⟨hwaits, hwriting⟩ := write_served hlegal n hph hrst haw har m hm hb
      refine ⟨?_, hwaits⟩
      obtain ⟨hinv, hmay⟩ := inv_may hlegal m
      rw [ar_taken_eq hinv hmay, if_neg]
      rcases hwriting with rfl | hwriting
      · simp [hph]
      · intro hraddr
        rw [hraddr] at hwriting
        cases hwriting

/-! ## Back to idle -/

/-- It is idle again after every cycle in phase `ph`. -/
def ReturnsFrom (p : Params) (ins : Nat → In) (ph : Phase) : Prop :=
  LeadsTo (fun n => phase ((circuit p).state ins n) = ph)
    fun n => phase ((circuit p).state ins n) = .idle

theorem ReturnsFrom.of_next {ph ph' : Phase} (hnext : ∀ i, ph.next i = ph')
    (h : ReturnsFrom p ins ph') : ReturnsFrom p ins ph := by
  apply LeadsTo.trans _ h
  apply LeadsTo.next
  intro n hph
  rw [phase_succ hlegal, hph, hnext]

theorem ReturnsFrom.of_wait {ph ph' : Phase} {go : In → Bool}
    (hnext : ∀ i, ph.next i = if go i then ph' else ph)
    (hgo : ∀ n, phase ((circuit p).state ins n) = ph → ∃ m, n ≤ m ∧ go (ins m))
    (h : ReturnsFrom p ins ph') : ReturnsFrom p ins ph := by
  have hwait : LeadsTo (fun n => phase ((circuit p).state ins n) = ph) fun n =>
      phase ((circuit p).state ins n) = ph ∧ go (ins n) := by
    apply LeadsTo.wait _ hgo
    intro n hph hno
    rw [phase_succ hlegal, hph, hnext, if_neg hno]
  apply LeadsTo.trans (hwait.trans _) h
  apply LeadsTo.next
  rintro n ⟨hph, hcome⟩
  rw [phase_succ hlegal, hph, hnext, if_pos hcome]

theorem returns_from (hfin : Finishes p ins) (ph : Phase) : ReturnsFrom p ins ph := by
  have hidle : ReturnsFrom p ins .idle := LeadsTo.of_imp fun _ h => h
  have hbresp : ReturnsFrom p ins .bresp := by
    apply ReturnsFrom.of_wait hlegal (fun _ => rfl) _ hidle
    intro n hph
    apply hfin.b
    rw [(inv_may hlegal n).1.bvalid, hph]
    rfl
  have hwready : ReturnsFrom p ins .wready := .of_next hlegal (fun _ => rfl) hbresp
  have hwack : ReturnsFrom p ins .wack := .of_next hlegal (fun _ => rfl) hwready
  have hwpulse : ReturnsFrom p ins .wpulse := .of_next hlegal (fun _ => rfl) hwack
  have hwreq : ReturnsFrom p ins .wreq := .of_next hlegal (fun _ => rfl) hwpulse
  have hwdata : ReturnsFrom p ins .wdata := by
    apply ReturnsFrom.of_wait hlegal (fun _ => rfl) _ hwreq
    intro n hph
    apply hfin.w
    have hone : (addressed ((circuit p).state ins n)).length = 1 := by simp [addressed, hph]
    rw [aw_count hlegal, hone]
    omega
  have hrresp : ReturnsFrom p ins .rresp := by
    apply ReturnsFrom.of_wait hlegal (fun _ => rfl) _ hidle
    intro n hph
    apply hfin.r
    rw [(inv_may hlegal n).1.rvalid, hph]
    rfl
  have hrack : ReturnsFrom p ins .rack := .of_next hlegal (fun _ => rfl) hrresp
  have hrpulse : ReturnsFrom p ins .rpulse := .of_next hlegal (fun _ => rfl) hrack
  have hrreq : ReturnsFrom p ins .rreq := .of_next hlegal (fun _ => rfl) hrpulse
  have hraddr : ReturnsFrom p ins .raddr := .of_next hlegal (fun _ => rfl) hrreq
  cases ph
  case waddr =>
    apply LeadsTo.trans _ (hwreq.or hwdata)
    apply LeadsTo.next
    intro n hph
    rw [phase_succ hlegal, hph]
    cases hvalid : (ins n).wvalid <;> simp [hvalid]
  all_goals assumption

theorem returns_run (hfin : Finishes p ins) : Returns p ins where
  idle := by
    intro n
    obtain ⟨m, hm, hph⟩ := returns_from hlegal hfin (phase ((circuit p).state ins n)) n rfl
    refine ⟨m, hm, ?_⟩
    rw [(inv_may hlegal m).1.state, hph]
    rfl
  reads := by
    intro n hrst hvalid
    by_cases htaken : ∃ m, n ≤ m ∧
        ar_taken (ins m) ((circuit p).state ins m) = [(ins n).araddr]
    · exact .inl htaken
    · right
      -- the read is shown for ever
      have hshown : ∀ m, n ≤ m → (ins m).i_rst_n ∧ (ins m).arvalid ∧
          (ins m).araddr = (ins n).araddr := by
        intro m hm
        induction m, hm using Nat.le_induction with
        | base => exact ⟨hrst, hvalid, rfl⟩
        | succ m hm ih =>
          obtain ⟨hrstm, hvalidm, haddr⟩ := ih
          have hno : phase ((circuit p).state ins m) ≠ .raddr := by
            intro hph
            apply htaken
            refine ⟨m, hm, ?_⟩
            have hready := (inv_may hlegal m).1.arready
            rw [hph] at hready
            unfold ar_taken
            rw [hvalidm, hready, haddr]
            rfl
          obtain ⟨hvalid', haddr'⟩ := read_waits hlegal m hvalidm hno
          exact ⟨hlegal.rst_n m hrstm, hvalid', haddr'.trans haddr⟩
      intro k
      obtain ⟨m, hm, hph⟩ := returns_from hlegal hfin _ (max n k) rfl
      obtain ⟨hrstm, hvalidm, haddr⟩ := hshown m (le_of_max_le_left hm)
      refine ⟨m + 1, Nat.le_succ_of_le (le_of_max_le_right hm), ?_⟩
      by_cases haw : (ins m).awvalid = true
      · rw [aw_taken_next hlegal m hph hrstm haw]
        exact List.cons_ne_nil _ _
      · have hread := ar_taken_next hlegal m hph hrstm (by simpa using haw) hvalidm
        rw [haddr] at hread
        exact absurd ⟨m + 1, Nat.le_succ_of_le (le_of_max_le_left hm), hread⟩ htaken

/-- The converter and the registers serve each access of a master once, and are idle again when it
goes on with them. -/
theorem accesses_served : Serves p ins ∧ (Finishes p ins → Returns p ins) :=
  ⟨serves_run hlegal, returns_run hlegal⟩

end

/-- All clocks. -/
def all_clocks : Params := ⟨1, 1, 1, 1⟩

/-- `G_RST_REG` is written once, and from the same cycle on it is read. -/
def write_and_read (n : Nat) : In where
  awvalid := n ≤ 1
  awaddr := 0x10
  wvalid := true
  wdata := 7
  bready := true
  arvalid := true
  araddr := 0x10
  rready := true
  i_rst_n := true
  mmcm_lock_syncd := 0

theorem write_and_read_legal : Legal all_clocks write_and_read where
  rst_n _ _ := rfl
  aw n hvalid hready := by
    have hn : n ≤ 1 := of_decide_eq_true hvalid
    rcases Nat.le_one_iff_eq_zero_or_eq_one.mp hn with rfl | rfl
    · exact ⟨rfl, rfl⟩
    · cases hready
  w _ _ _ := ⟨rfl, rfl⟩
  ar _ _ _ := ⟨rfl, rfl⟩

theorem write_and_read_served : Serves all_clocks write_and_read ∧ Returns all_clocks write_and_read ∧
    (circuit all_clocks).passed write_and_read r_sent 13 = [7] := by
  have hfin : Finishes all_clocks write_and_read :=
    ⟨fun n _ => ⟨n, Nat.le_refl n, rfl⟩, fun n _ => ⟨n, Nat.le_refl n, rfl⟩,
      fun n _ => ⟨n, Nat.le_refl n, rfl⟩⟩
  obtain ⟨hserves, hreturns⟩ := accesses_served write_and_read_legal
  exact ⟨hserves, hreturns hfin, by decide +kernel⟩

end AwsFpga.Rtl.AwsClkRegs
