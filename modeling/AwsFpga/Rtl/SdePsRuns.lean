import Mathlib.Tactic.IntervalCases
import AwsFpga.Rtl.SdePsSafe

/-!
# Whole runs of the PCIS port

What a cycle keeps holds in every cycle. What the host and the blocks give in time
brings the machine back to `IDLE`, so nothing stays owed.
-/

open Lib Lib.Axi

namespace AwsFpga.Rtl

namespace SdePs

variable {p : PsParams} (ins : Nat → PsIn)

/-- What comes in the end: data, the taking of answers, and acknowledgements. -/
structure Fair (p : PsParams) : Prop where
  w : LeadsTo (fun n => (writes ins p n).2.1 ≠ []) fun n => (ins n).wvalid
  b : LeadsTo (fun n => ((circuit p).state ins n).bvalid) fun n => (ins n).bready
  r : LeadsTo (fun n => ((circuit p).state ins n).rvalid) fun n => (ins n).rready
  c2h_desc : LeadsTo (fun n => ((circuit p).state ins n).C2H_DESC_ACC.acc_wr_req)
    fun n => (ins n).c2h_ps_desc_ack
  h2c_desc : LeadsTo (fun n => ((circuit p).state ins n).H2C_DESC_ACC.acc_wr_req)
    fun n => (ins n).h2c_ps_desc_ack
  cfg : ∀ b, b ≠ .ps → LeadsTo
    (fun n => (((circuit p).state ins n).cfg b).wr_req ∨ (((circuit p).state ins n).cfg b).rd_req)
    fun n => ((ins n).ps_cfg b).ack

/-- What the port owes to the host. -/
structure Answers (p : PsParams) : Prop where
  /-- Data is taken for the one write whose address was taken and whose data is missing. -/
  owner : ∀ n, w_accepted (ins n) ((circuit p).state ins n) ≠ [] →
    ∃ a, (writes ins p n).2.1 = [a] ∧ ((circuit p).state ins n).req = .capture a false ∧
      ((circuit p).state ins n).state ≠ .IDLE
  /-- Each complete write has its response, once and in order, when the machine is idle again. -/
  b : ∀ n, ∃ owed, (writes ins p n).1.map (fun w => w.1.id) =
      (circuit p).passed ins b_sent n ++ owed ∧
    (((circuit p).state ins n).state = .IDLE → owed = [] ∧ (writes ins p n).2 = ([], []))
  /-- And each read its beats. -/
  r : ∀ n, ∃ owed, ((circuit p).passed ins ar_accepted n).flatMap r_burst =
      (circuit p).passed ins r_sent n ++ owed ∧
    (((circuit p).state ins n).state = .IDLE → owed = [])
  /-- The machine never stays away from `IDLE`. -/
  idle : LeadsTo (fun _ => True) fun n => ((circuit p).state ins n).state = .IDLE

/-- A host that keeps the rules, blocks that answer, and requests that the machine can serve. -/
structure Good (p : PsParams) : Prop where
  compliant : Compliant ins p
  fair : Fair ins p
  may : ∀ n, May (ins n) ((circuit p).state ins n)

variable {ins}

theorem keeps_state (hc : Compliant ins p) (n : Nat) :
    Keeps (ins n) ((circuit p).state ins n) (ins (n + 1)) :=
  ⟨hc.aw n, hc.w n, hc.ar n⟩

theorem inv_reset (i : PsIn) : Inv i (reset p) := by
  constructor <;> simp [reset, CfgPort.reset]
  intro b
  constructor <;> simp

theorem inv_state (hg : Good ins p) (n : Nat) : Inv (ins n) ((circuit p).state ins n) := by
  induction n with
  | zero => exact inv_reset _
  | succ n ih => exact inv_step ih (hg.may n) (keeps_state hg.compliant n)

theorem moves_state (hg : Good ins p) (n : Nat) : Moves (ins n) ((circuit p).state ins n) :=
  moves (inv_state hg n) (hg.may n)

theorem writes_succ (n : Nat) :
    writes ins p (n + 1) =
      ((writes ins p n).1 ++ (paired (ins n) ((circuit p).state ins n) (writes ins p n).2).1,
        (paired (ins n) ((circuit p).state ins n) (writes ins p n).2).2) :=
  pair_append _ _ _ _

theorem owes_state (hg : Good ins p) (n : Nat) :
    ∃ b r, Owes ((circuit p).state ins n) (writes ins p n).2 b r ∧
      (writes ins p n).1.map (fun w => w.1.id) = (circuit p).passed ins b_sent n ++ b ∧
      ((circuit p).passed ins ar_accepted n).flatMap r_burst = (circuit p).passed ins r_sent n ++ r := by
  induction n with
  | zero => exact ⟨[], [], .nothing (.inl rfl), rfl, rfl⟩
  | succ n ih =>
    obtain ⟨b, r, ho, hb, hr⟩ := ih
    have hfits := (hg.compliant.fits (n + 1)).2
    change ∀ a ∈ (writes ins p (n + 1)).2.1.head?, (writes ins p (n + 1)).2.2.length ≤ _ at hfits
    rw [writes_succ] at hfits
    obtain ⟨b', r', ho', hb', hr'⟩ := owes_step (inv_state hg n) (hg.may n) ho hfits
    refine ⟨b', r', ?_, ?_, ?_⟩
    · rw [writes_succ]
      exact ho'
    · rw [writes_succ, Circuit.passed_succ, List.map_append, hb, List.append_assoc, hb',
        List.append_assoc]
    · rw [Circuit.passed_succ, Circuit.passed_succ, List.flatMap_append, hr, List.append_assoc, hr',
        List.append_assoc]

/-! ## Back to `IDLE` -/

/-- The machine is in `state` in cycle `n`. -/
def At (ins : Nat → PsIn) (p : PsParams) (state : PcisReqState) (n : Nat) : Prop :=
  ((circuit p).state ins n).state = state

theorem aw_ar_dec (hg : Good ins p) : LeadsTo (At ins p .AW_AR) (At ins p .DEC) := by
  refine LeadsTo.next fun n hs => ?_
  unfold At at hs
  cases moves_state hg n with
  | to_dec _ hn => exact hn
  | _ => simp_all

theorem dec_next (hg : Good ins p) : LeadsTo (At ins p .DEC)
    (fun n => (At ins p .WR_DESC n ∨ At ins p .CFG n) ∨ At ins p .RESP n) := by
  refine LeadsTo.next fun n hs => ?_
  unfold At at hs
  cases moves_state hg n with
  | dec_desc _ hn => exact .inl (.inl hn)
  | dec_cfg _ hn => exact .inl (.inr hn)
  | dec_resp _ hn => exact .inr hn
  | _ => simp_all

/-- The response to the request. -/
def response (s : SdePs p) (rd_n_wr : Bool) : Bool := if rd_n_wr then s.rvalid else s.bvalid

/-- The host takes it. -/
def response_ready (i : PsIn) (rd_n_wr : Bool) : Bool := if rd_n_wr then i.rready else i.bready

/-- The machine is in `RESP`, for a read or a write. -/
structure Responding (ins : Nat → PsIn) (p : PsParams) (rd_n_wr : Bool) (n : Nat) : Prop where
  state : At ins p .RESP n
  kind : ((circuit p).state ins n).req.rd_n_wr = rd_n_wr

theorem responding_step (hg : Good ins p) {rd_n_wr : Bool} {n : Nat} (h : Responding ins p rd_n_wr n)
    (hno : ¬(response ((circuit p).state ins n) rd_n_wr ∧ response_ready (ins n) rd_n_wr)) :
    Responding ins p rd_n_wr (n + 1) ∧ response ((circuit p).state ins (n + 1)) rd_n_wr := by
  obtain ⟨hs, rfl⟩ := h
  unfold At at hs
  have hkind : ((circuit p).state ins (n + 1)).req = ((circuit p).state ins n).req :=
    next_req_eq (by simp [hs])
  cases moves_state hg n with
  | stay_resp _ hn hb hr =>
    refine ⟨⟨hn, by rw [hkind]⟩, ?_⟩
    change response (step _ _) _ = true
    unfold response
    split
    case isTrue hrd =>
      have hlen := (inv_state hg n).read_len hrd (.inr hs)
      cases hvalid : ((circuit p).state ins n).rvalid with
      | false => simp [step, hs, hrd, hvalid]
      | true => simp [step, hs, hrd, hr hrd hvalid]
    case isFalse hwr =>
      rw [Bool.not_eq_true] at hwr
      cases hvalid : ((circuit p).state ins n).bvalid with
      | false => simp [step, hs, hwr, hvalid]
      | true => simp [step, hs, hwr, hb hwr hvalid]
  | end_resp _ _ hdone =>
    refine absurd ?_ hno
    rcases hdone with ⟨hwr, hvalid, hready⟩ | ⟨hrd, hvalid, hready⟩
    · simp [response, response_ready, hwr, hvalid, hready]
    · simp [response, response_ready, hrd, hvalid, hready]
  | _ => simp_all

theorem responding_end (hg : Good ins p) {rd_n_wr : Bool} {n : Nat} (h : Responding ins p rd_n_wr n)
    (hvalid : response ((circuit p).state ins n) rd_n_wr) (hready : response_ready (ins n) rd_n_wr) :
    At ins p .IDLE (n + 1) := by
  obtain ⟨hs, rfl⟩ := h
  unfold At at hs
  cases moves_state hg n with
  | stay_resp _ _ hb hr =>
    unfold response at hvalid
    unfold response_ready at hready
    split at hvalid
    case isTrue hrd => simp [hrd, hr hrd hvalid] at hready
    case isFalse hwr =>
      rw [Bool.not_eq_true] at hwr
      simp [hwr, hb hwr hvalid] at hready
  | end_resp _ hn => exact hn
  | _ => simp_all

theorem resp_idle (hg : Good ins p) : LeadsTo (At ins p .RESP) (At ins p .IDLE) := by
  intro n hs
  generalize hrd : ((circuit p).state ins n).req.rd_n_wr = rd_n_wr
  have hshown : LeadsTo (Responding ins p rd_n_wr)
      (fun n => Responding ins p rd_n_wr n ∧ response ((circuit p).state ins n) rd_n_wr) := by
    intro n h
    by_cases hvalid : response ((circuit p).state ins n) rd_n_wr = true
    · exact ⟨n, Nat.le_refl n, h, hvalid⟩
    · exact ⟨n + 1, Nat.le_succ n, responding_step hg h fun hyes => hvalid hyes.1⟩
  have htaken : ∀ n, response ((circuit p).state ins n) rd_n_wr →
      ∃ m, n ≤ m ∧ response_ready (ins m) rd_n_wr := by
    intro n hvalid
    cases rd_n_wr with
    | false => exact hg.fair.b n hvalid
    | true => exact hg.fair.r n hvalid
  refine LeadsTo.trans hshown (LeadsTo.trans (LeadsTo.wait ?_ fun n h => htaken n h.2) ?_) n ⟨hs, hrd⟩
  · rintro n ⟨h, -⟩ hnot
    exact responding_step hg h fun hyes => hnot hyes.2
  · refine LeadsTo.next ?_
    rintro n ⟨⟨h, hvalid⟩, hready⟩
    exact responding_end hg h hvalid hready

/-! ### Registers -/

theorem ack_comes (hg : Good ins p) (b : CfgBlock) : LeadsTo
    (fun n => (((circuit p).state ins n).cfg b).wr_req ∨ (((circuit p).state ins n).cfg b).rd_req)
    (fun n => (answer (ins n) ((circuit p).state ins n) b).ack) := by
  by_cases hps : b = .ps
  · subst hps
    intro n hreq
    by_cases hack : (answer (ins n) ((circuit p).state ins n) .ps).ack = true
    · exact ⟨n, Nat.le_refl n, hack⟩
    · refine ⟨n + 1, Nat.le_succ n, ?_⟩
      change ps_ps_cfg_ack (step _ _) = true
      change ¬ps_ps_cfg_ack ((circuit p).state ins n) = true at hack
      unfold ps_ps_cfg_ack at hack ⊢
      split
      · cases hwr : (((circuit p).state ins n).cfg .ps).wr_req with
        | true => simp [step, hwr]
        | false =>
          have hblock := (inv_state hg n).blocks .ps
          obtain ⟨-, -, hrd⟩ := hblock.rd (.inl (by simpa [hwr] using hreq))
          next hwr' =>
            simp only [step, CfgPort.step, hwr, hrd] at hwr'
            simp at hwr'
      · rfl
  · have hout : ∀ n, (answer (ins n) ((circuit p).state ins n) b) = (ins n).ps_cfg b := by
      intro n
      cases b <;> first | rfl | exact absurd rfl hps
    intro n hreq
    obtain ⟨m, hm, hack⟩ := hg.fair.cfg b hps n hreq
    exact ⟨m, hm, (congrArg CfgAnswer.ack (hout m)).trans hack⟩

/-- The machine is in `CFG`, with a read or a write for one block. -/
structure Serving (ins : Nat → PsIn) (p : PsParams) (b : CfgBlock) (rd_n_wr : Bool) (n : Nat) :
    Prop where
  state : At ins p .CFG n
  kind : ((circuit p).state ins n).req.rd_n_wr = rd_n_wr
  block : ((circuit p).state ins n).dec.cfg b

theorem serving_step (hg : Good ins p) {b : CfgBlock} {rd_n_wr : Bool} {n : Nat}
    (h : Serving ins p b rd_n_wr n) (hno : cfg_done ((circuit p).state ins n) b = false) :
    Serving ins p b rd_n_wr (n + 1) := by
  have hs := h.state
  unfold At at hs
  have hstay := (stays_cfg (inv_state hg n) (hg.may n) hs h.block hno).1
  refine ⟨hstay, ?_, ?_⟩
  · change (next_req _ _).rd_n_wr = _
    rw [next_req_eq (by simp [hs])]
    exact h.kind
  · change (if ((circuit p).state ins n).state = .AW_AR then _ else _ : PcisDecode).cfg b = true
    rw [if_neg (by simp [hs])]
    exact h.block

theorem serving_done (hg : Good ins p) {b : CfgBlock} {rd_n_wr : Bool} {n : Nat}
    (h : Serving ins p b rd_n_wr n) (hdone : cfg_done ((circuit p).state ins n) b) :
    At ins p .RESP (n + 1) := by
  have hs := h.state
  unfold At at hs
  cases moves_state hg n with
  | end_cfg _ hn => exact hn
  | stay_cfg _ _ hno => simp [hno b] at hdone
  | _ => simp_all

theorem data_comes (hg : Good ins p) {b : CfgBlock} {n : Nat} (h : Serving ins p b false n) :
    ∃ m, n ≤ m ∧ (ins m).wvalid := by
  obtain ⟨_, _, ho, -⟩ := owes_state hg n
  refine hg.fair.w n ?_
  have hs := h.state
  unfold At at hs
  change (writes ins p n).2.1 ≠ []
  generalize (writes ins p n).2 = o at ho ⊢
  cases ho with
  | nothing hs' => simp [hs] at hs'
  | data a beats => simp
  | b hs' => simp [hs] at hs'
  | r _ hrd => simp [h.kind] at hrd

theorem cfg_wr_req (hg : Good ins p) (b : CfgBlock) : LeadsTo (Serving ins p b false)
    (fun n => Serving ins p b false n ∧ (((circuit p).state ins n).cfg b).wr_req ∨
      At ins p .RESP n) := by
  intro n hserve
  cases hdone : cfg_done ((circuit p).state ins n) b with
  | true => exact ⟨n + 1, Nat.le_succ n, .inr (serving_done hg hserve hdone)⟩
  | false =>
    have hready : (((circuit p).state ins n).cfg b).pcis_wready = false := by
      simpa [cfg_done, hserve.block, hserve.kind] using hdone
    -- Without data the block keeps still.
    have hwait := LeadsTo.wait
      (P := fun n => Serving ins p b false n ∧ (((circuit p).state ins n).cfg b).wr_req = false ∧
        (((circuit p).state ins n).cfg b).pcis_wready = false)
      (G := fun n => (ins n).wvalid) ?_ fun n h => data_comes hg h.1
    · cases hwr : (((circuit p).state ins n).cfg b).wr_req with
      | true => exact ⟨n, Nat.le_refl n, .inl ⟨hserve, hwr⟩⟩
      | false =>
        obtain ⟨m, hm, ⟨hserve', hwr', hready'⟩, hvalid⟩ := hwait n ⟨hserve, hwr, hready⟩
        have hno : cfg_done ((circuit p).state ins m) b = false := by
          simp [cfg_done, hserve'.kind, hready']
        refine ⟨m + 1, Nat.le_succ_of_le hm, .inl ⟨serving_step hg hserve' hno, ?_⟩⟩
        have hs := hserve'.state
        unfold At at hs
        change ((step _ _).cfg b).wr_req = true
        simp [step, CfgPort.step, hs, hwr', hready', hserve'.block, hserve'.kind, hvalid]
    · rintro n ⟨hserve, hwr, hready⟩ hvalid
      have hno : cfg_done ((circuit p).state ins n) b = false := by
        simp [cfg_done, hserve.kind, hready]
      refine ⟨serving_step hg hserve hno, ?_, ?_⟩
      · change ((step _ _).cfg b).wr_req = false
        simp [step, CfgPort.step, hwr, hvalid]
      · change ((step _ _).cfg b).pcis_wready = false
        simp [step, CfgPort.step, hwr]

theorem cfg_rd_req (hg : Good ins p) (b : CfgBlock) : LeadsTo (Serving ins p b true)
    (fun n => Serving ins p b true n ∧ (((circuit p).state ins n).cfg b).rd_req ∨
      At ins p .RESP n) := by
  intro n hserve
  cases hdone : cfg_done ((circuit p).state ins n) b with
  | true => exact ⟨n + 1, Nat.le_succ n, .inr (serving_done hg hserve hdone)⟩
  | false =>
    have hvalid : (((circuit p).state ins n).cfg b).pcis_rvalid = false := by
      simpa [cfg_done, hserve.block, hserve.kind] using hdone
    cases hrd : (((circuit p).state ins n).cfg b).rd_req with
    | true => exact ⟨n, Nat.le_refl n, .inl ⟨hserve, hrd⟩⟩
    | false =>
      refine ⟨n + 1, Nat.le_succ n, .inl ⟨serving_step hg hserve hdone, ?_⟩⟩
      have hs := hserve.state
      unfold At at hs
      change ((step _ _).cfg b).rd_req = true
      simp [step, CfgPort.step, hs, hrd, hvalid, hserve.block, hserve.kind]

/-- The request to the block. -/
def asked (s : SdePs p) (b : CfgBlock) (rd_n_wr : Bool) : Bool :=
  if rd_n_wr then (s.cfg b).rd_req else (s.cfg b).wr_req

/-- Its answer, kept for one cycle. -/
def answered (s : SdePs p) (b : CfgBlock) (rd_n_wr : Bool) : Bool :=
  if rd_n_wr then (s.cfg b).pcis_rvalid else (s.cfg b).pcis_wready

theorem cfg_done_of_serving {b : CfgBlock} {rd_n_wr : Bool} {n : Nat} (h : Serving ins p b rd_n_wr n) :
    cfg_done ((circuit p).state ins n) b = answered ((circuit p).state ins n) b rd_n_wr := by
  unfold cfg_done answered
  rw [h.kind, h.block]
  cases rd_n_wr <;> simp

section Port

variable {s : SdePs p} {i : PsIn} {b : CfgBlock} {rd_n_wr : Bool}

theorem not_answered (h : CfgOk s b) (hreq : asked s b rd_n_wr) : answered s b rd_n_wr = false := by
  by_contra hne
  cases rd_n_wr with
  | false => simp [asked, h.wr_once (Bool.not_eq_false _ ▸ hne)] at hreq
  | true => simp [asked, h.rd_once (Bool.not_eq_false _ ▸ hne)] at hreq

theorem asked_step (hreq : asked s b rd_n_wr) (hack : (answer i s b).ack = false) :
    asked (step i s) b rd_n_wr := by
  cases rd_n_wr with
  | false =>
    have hwr : (s.cfg b).wr_req = true := hreq
    simp [asked, step, CfgPort.step, hwr, hack]
  | true =>
    have hrd : (s.cfg b).rd_req = true := hreq
    simp [asked, step, CfgPort.step, hrd, hack]

theorem answered_step (hreq : asked s b rd_n_wr) (hack : (answer i s b).ack) :
    answered (step i s) b rd_n_wr := by
  cases rd_n_wr with
  | false =>
    have hwr : (s.cfg b).wr_req = true := hreq
    simp [answered, step, CfgPort.step, hwr, hack]
  | true =>
    have hrd : (s.cfg b).rd_req = true := hreq
    simp [answered, step, CfgPort.step, hrd, hack]

end Port

theorem cfg_req (hg : Good ins p) (b : CfgBlock) (rd_n_wr : Bool) :
    LeadsTo (Serving ins p b rd_n_wr) (fun n =>
      Serving ins p b rd_n_wr n ∧ asked ((circuit p).state ins n) b rd_n_wr ∨ At ins p .RESP n) := by
  cases rd_n_wr with
  | false => exact cfg_wr_req hg b
  | true => exact cfg_rd_req hg b

theorem cfg_answer (hg : Good ins p) (b : CfgBlock) (rd_n_wr : Bool) :
    LeadsTo (Serving ins p b rd_n_wr) (At ins p .RESP) := by
  have hcome : ∀ n, asked ((circuit p).state ins n) b rd_n_wr →
      (((circuit p).state ins n).cfg b).wr_req ∨ (((circuit p).state ins n).cfg b).rd_req := by
    intro n hreq
    cases rd_n_wr with
    | false => exact .inl hreq
    | true => exact .inr hreq
  have hwait : ∀ n, Serving ins p b rd_n_wr n → asked ((circuit p).state ins n) b rd_n_wr →
      Serving ins p b rd_n_wr (n + 1) := by
    intro n hserve hreq
    refine serving_step hg hserve ?_
    rw [cfg_done_of_serving hserve]
    exact not_answered ((inv_state hg n).blocks b) hreq
  refine LeadsTo.trans (cfg_req hg b rd_n_wr) (LeadsTo.or ?_ (LeadsTo.of_imp fun _ h => h))
  refine LeadsTo.trans (LeadsTo.wait ?_ fun n h => ack_comes hg b n (hcome n h.2)) ?_
  · rintro n ⟨hserve, hreq⟩ hack
    exact ⟨hwait n hserve hreq, asked_step hreq (Bool.eq_false_iff.mpr hack)⟩
  · rintro n ⟨⟨hserve, hreq⟩, hack⟩
    have hserve' := hwait n hserve hreq
    refine ⟨n + 2, by omega, serving_done hg hserve' ?_⟩
    rw [cfg_done_of_serving hserve']
    exact answered_step hreq hack

theorem cfg_resp (hg : Good ins p) : LeadsTo (At ins p .CFG) (At ins p .RESP) := by
  intro n hs
  obtain ⟨⟨b, hb⟩, -⟩ := (inv_state hg n).cfg hs
  exact cfg_answer hg b _ n ⟨hs, rfl, hb⟩

/-! ### Descriptors -/

theorem desc_dw_pos (desc_type : Bool) : 0 < PsParams.desc_dw desc_type := by
  cases desc_type <;> decide

theorem desc_unique {r : PcisReq} (h : r.decode.c2h_wr_desc) : r.decode.h2c_wr_desc = false := by
  cases hh2c : r.decode.h2c_wr_desc with
  | false => rfl
  | true =>
    simp [PcisReq.decode, within_iff] at h hh2c
    omega

theorem wready_free {n : Nat} (hg : Good ins p) (hs : At ins p .WR_DESC n) :
    wready (ins n) ((circuit p).state ins n) =
      (((circuit p).state ins n).dec.c2h_wr_desc &&
          !((circuit p).state ins n).C2H_DESC_ACC.pcis_wvalid_q ||
        ((circuit p).state ins n).dec.h2c_wr_desc &&
          !((circuit p).state ins n).H2C_DESC_ACC.pcis_wvalid_q) := by
  have hinv := inv_state hg n
  rw [wready_desc hinv hs]
  have hactive := (hinv.wr_desc hs).1
  unfold c2h_pcis_desc_wready h2c_pcis_desc_wready PsAcc.pcis_wready c2h_acc_in h2c_acc_in
  rw [hactive]
  cases ((circuit p).state ins n).dec.c2h_wr_desc <;>
    cases ((circuit p).state ins n).dec.h2c_wr_desc <;> rfl

theorem free_or_later {acc : Nat → Bool} (h : LeadsTo (fun n => acc n) fun n => acc n = false) :
    LeadsTo (fun _ => True) fun n => acc n = false := by
  intro n _
  cases hn : acc n with
  | true => exact h n hn
  | false => exact ⟨n, Nat.le_refl n, hn⟩

theorem c2h_free (hg : Good ins p) : LeadsTo (fun _ => True)
    fun n => ((circuit p).state ins n).C2H_DESC_ACC.pcis_wvalid_q = false :=
  free_or_later (PsAcc.leadsTo_free (fun n => ((circuit p).state ins n).c2h_sync_rst_n)
    (desc_dw_pos _) (fun _ => rfl)
    (LeadsTo.trans hg.fair.c2h_desc (LeadsTo.of_imp fun _ h => .inl h)))

theorem h2c_free (hg : Good ins p) : LeadsTo (fun _ => True)
    fun n => ((circuit p).state ins n).H2C_DESC_ACC.pcis_wvalid_q = false :=
  free_or_later (PsAcc.leadsTo_free (fun n => ((circuit p).state ins n).h2c_sync_rst_n)
    (desc_dw_pos _) (fun _ => rfl)
    (LeadsTo.trans hg.fair.h2c_desc (LeadsTo.of_imp fun _ h => .inl h)))

/-- The beats that the current write still misses. -/
def left (ins : Nat → PsIn) (p : PsParams) (n : Nat) : Nat :=
  ((writes ins p n).2.1.map fun a => a.len.toNat + 1).sum - (writes ins p n).2.2.length

theorem desc_write (hg : Good ins p) {n : Nat} (hs : At ins p .WR_DESC n) :
    ∃ a beats, (writes ins p n).2 = ([a], beats) ∧ beats.length ≤ a.len.toNat ∧
      (∀ w ∈ beats, w.last = false) ∧ (writes ins p (n + 1)).2 =
        (pair WBeat.last [a] (beats ++ w_accepted (ins n) ((circuit p).state ins n))).2 := by
  have hinv := inv_state hg n
  obtain ⟨_, _, ho, -⟩ := owes_state hg n
  have hfits := (hg.compliant.fits n).2
  change ∀ a ∈ (writes ins p n).2.1.head?, (writes ins p n).2.2.length ≤ _ at hfits
  have hnext : (writes ins p (n + 1)).2 =
      (paired (ins n) ((circuit p).state ins n) (writes ins p n).2).2 := by
    rw [writes_succ]
  unfold At at hs
  have haw := aw_accepted_nil hinv (show ((circuit p).state ins n).state ≠ .DEC by simp [hs])
  rw [hnext]
  generalize (writes ins p n).2 = o at ho hfits ⊢
  cases ho with
  | nothing hs' => simp [hs] at hs'
  | b hs' => simp [hs] at hs'
  | r hs' => simp [hs] at hs'
  | data a beats _ _ hlast _ =>
    refine ⟨a, beats, rfl, hfits a rfl, hlast, ?_⟩
    unfold paired
    rw [haw, List.append_nil]

theorem desc_taken (hg : Good ins p) {n : Nat} (hs : At ins p .WR_DESC n) (hvalid : (ins n).wvalid)
    (hready : wready (ins n) ((circuit p).state ins n)) :
    At ins p .RESP (n + 1) ∨ At ins p .WR_DESC (n + 1) ∧ left ins p (n + 1) < left ins p n := by
  obtain ⟨a, beats, hwrites, hlen, hlast, hnext⟩ := desc_write hg hs
  have hw : w_accepted (ins n) ((circuit p).state ins n) = [(ins n).w] := by
    simp [w_accepted, hvalid, hready]
  unfold At at hs
  unfold left
  rw [hnext, hwrites, hw]
  cases moves_state hg n with
  | end_desc _ hn => exact .inl hn
  | stay_desc _ hn hbeat =>
    have hall : ∀ w ∈ beats ++ [(ins n).w], w.last = false := by
      intro w hmem
      rcases List.mem_append.mp hmem with hmem | hmem
      · exact hlast w hmem
      · rw [List.mem_singleton.mp hmem]
        exact hbeat hvalid hready
    right
    refine ⟨hn, ?_⟩
    simp only [pair, burst_none hall, List.map_cons, List.map_nil, List.sum_cons, List.sum_nil,
      List.length_append, List.length_singleton]
    omega
  | _ => simp_all

theorem desc_waits (hg : Good ins p) {n : Nat} (hs : At ins p .WR_DESC n)
    (hno : ¬((ins n).wvalid ∧ wready (ins n) ((circuit p).state ins n))) :
    At ins p .WR_DESC (n + 1) ∧ left ins p (n + 1) = left ins p n ∧
      ((circuit p).state ins (n + 1)).dec = ((circuit p).state ins n).dec := by
  obtain ⟨a, beats, hwrites, -, hlast, hnext⟩ := desc_write hg hs
  have hw : w_accepted (ins n) ((circuit p).state ins n) = [] := by
    unfold w_accepted fire
    rw [if_neg (by simpa using hno)]
  unfold At at hs
  cases moves_state hg n with
  | end_desc _ _ hbeat => exact absurd ⟨hbeat.1, hbeat.2.2⟩ hno
  | stay_desc _ hn _ =>
    refine ⟨hn, ?_, ?_⟩
    · unfold left
      rw [hnext, hwrites, hw, List.append_nil]
      simp [pair, burst_none hlast]
    · change (step _ _).dec = _
      simp [step, hs]
  | _ => simp_all

/-- The machine writes descriptors, and `k` beats are missing. -/
def Missing (ins : Nat → PsIn) (p : PsParams) (k n : Nat) : Prop :=
  At ins p .WR_DESC n ∧ left ins p n = k

theorem missing_stays (hg : Good ins p) {k n : Nat} (h : Missing ins p k n)
    (hno : ¬((ins n).wvalid ∧ wready (ins n) ((circuit p).state ins n))) :
    Missing ins p k (n + 1) ∧
      ((circuit p).state ins (n + 1)).dec = ((circuit p).state ins n).dec := by
  obtain ⟨hs, hleft, hdec⟩ := desc_waits hg h.1 hno
  exact ⟨⟨hs, hleft.trans h.2⟩, hdec⟩

theorem ready_comes (hg : Good ins p) (k : Nat) : LeadsTo (Missing ins p k)
    (fun n => Missing ins p k n ∧ wready (ins n) ((circuit p).state ins n)) := by
  have hc2h : LeadsTo (fun n => Missing ins p k n ∧ ((circuit p).state ins n).dec.c2h_wr_desc)
      (fun n => Missing ins p k n ∧ wready (ins n) ((circuit p).state ins n)) := by
    refine LeadsTo.trans (LeadsTo.wait ?_ fun n _ => c2h_free hg n trivial) (LeadsTo.of_imp ?_)
    · rintro n ⟨hmiss, hdesc⟩ hbusy
      have hinv := inv_state hg n
      have hs := hmiss.1
      unfold At at hs
      have hother : ((circuit p).state ins n).dec.h2c_wr_desc = false := by
        rw [hinv.dec (by simp [hs]) (by simp [hs])] at hdesc ⊢
        exact desc_unique hdesc
      obtain ⟨hmiss', hdec⟩ := missing_stays hg hmiss (by simp [wready_free hg hmiss.1, hbusy, hother])
      exact ⟨hmiss', hdec ▸ hdesc⟩
    · rintro n ⟨⟨hmiss, hdesc⟩, hfree⟩
      exact ⟨hmiss, by simp [wready_free hg hmiss.1, hdesc, hfree]⟩
  have hh2c : LeadsTo (fun n => Missing ins p k n ∧ ((circuit p).state ins n).dec.h2c_wr_desc)
      (fun n => Missing ins p k n ∧ wready (ins n) ((circuit p).state ins n)) := by
    refine LeadsTo.trans (LeadsTo.wait ?_ fun n _ => h2c_free hg n trivial) (LeadsTo.of_imp ?_)
    · rintro n ⟨hmiss, hdesc⟩ hbusy
      have hinv := inv_state hg n
      have hs := hmiss.1
      unfold At at hs
      have hother : ((circuit p).state ins n).dec.c2h_wr_desc = false := by
        rw [hinv.dec (by simp [hs]) (by simp [hs])] at hdesc ⊢
        by_contra hne
        simp [desc_unique (Bool.not_eq_false _ ▸ hne)] at hdesc
      obtain ⟨hmiss', hdec⟩ := missing_stays hg hmiss (by simp [wready_free hg hmiss.1, hbusy, hother])
      exact ⟨hmiss', hdec ▸ hdesc⟩
    · rintro n ⟨⟨hmiss, hdesc⟩, hfree⟩
      exact ⟨hmiss, by simp [wready_free hg hmiss.1, hdesc, hfree]⟩
  intro n hmiss
  rcases ((inv_state hg n).wr_desc hmiss.1).2.2 with hdesc | hdesc
  · exact hc2h n ⟨hmiss, hdesc⟩
  · exact hh2c n ⟨hmiss, hdesc⟩

theorem beat_comes (hg : Good ins p) {k n : Nat} (h : Missing ins p k n) :
    ∃ m, n ≤ m ∧ (ins m).wvalid := by
  obtain ⟨_, _, ho, -⟩ := owes_state hg n
  refine hg.fair.w n ?_
  have hs := h.1
  unfold At at hs
  change (writes ins p n).2.1 ≠ []
  generalize (writes ins p n).2 = o at ho ⊢
  cases ho with
  | nothing hs' => simp [hs] at hs'
  | data a beats => simp
  | b hs' => simp [hs] at hs'
  | r hs' => simp [hs] at hs'

theorem desc_resp (hg : Good ins p) : LeadsTo (At ins p .WR_DESC) (At ins p .RESP) := by
  refine LeadsTo.rank (left ins p) fun k => ?_
  refine LeadsTo.trans (ready_comes hg k) (LeadsTo.trans (LeadsTo.wait ?_ fun n h => beat_comes hg h.1)
    (LeadsTo.next ?_))
  · rintro n ⟨hmiss, hready⟩ hvalid
    obtain ⟨hmiss', hdec⟩ := missing_stays hg hmiss (by simp [hvalid])
    refine ⟨hmiss', ?_⟩
    -- The accumulator stays free as long as no beat comes.
    have hkeep : ∀ {dw : Nat} {start : BitVec 14} {i : PsAccIn} {acc : PsAcc dw} {rst_n : Bool},
        i.pcis_wvalid = false → acc.pcis_wvalid_q = false →
        (PsAcc.clocked start i acc rst_n).pcis_wvalid_q = false := by
      intro dw start i acc rst_n hi hacc
      unfold PsAcc.clocked
      split
      · simp [PsAcc.step, hi, hacc]
      · rfl
    have hno : (ins n).wvalid = false := by simpa using hvalid
    rw [wready_free hg hmiss.1] at hready
    rw [wready_free hg hmiss'.1, hdec]
    simp only [Bool.or_eq_true, Bool.and_eq_true, Bool.not_eq_true'] at hready ⊢
    rcases hready with ⟨hdesc, hfree⟩ | ⟨hdesc, hfree⟩
    · exact .inl ⟨hdesc, hkeep hno hfree⟩
    · exact .inr ⟨hdesc, hkeep hno hfree⟩
  · rintro n ⟨⟨hmiss, hready⟩, hvalid⟩
    rcases desc_taken hg hmiss.1 hvalid hready with hresp | ⟨hs, hless⟩
    · exact .inl hresp
    · exact .inr ⟨hs, hmiss.2 ▸ hless⟩

theorem comes_idle (hg : Good ins p) : LeadsTo (fun _ => True) (At ins p .IDLE) := by
  have hdesc := LeadsTo.trans (desc_resp hg) (resp_idle hg)
  have hcfg := LeadsTo.trans (cfg_resp hg) (resp_idle hg)
  have hdec := LeadsTo.trans (dec_next hg) (LeadsTo.or (LeadsTo.or hdesc hcfg) (resp_idle hg))
  have haw_ar := LeadsTo.trans (aw_ar_dec hg) hdec
  intro n _
  obtain ⟨hpkt, hrd_dummy, hwr_dummy⟩ := (inv_state hg n).state
  cases hs : ((circuit p).state ins n).state with
  | IDLE => exact ⟨n, Nat.le_refl n, hs⟩
  | AW_AR => exact haw_ar n hs
  | DEC => exact hdec n hs
  | WR_DESC => exact hdesc n hs
  | WR_PKT => exact absurd hs hpkt
  | RD_DUMMY => exact absurd hs hrd_dummy
  | WR_DUMMY => exact absurd hs hwr_dummy
  | CFG => exact hcfg n hs
  | RESP => exact resp_idle hg n hs

/-- Every request that the machine can serve gets its answers. -/
theorem answers_of_good (ins : Nat → PsIn) (hg : Good ins p) : Answers ins p where
  owner n hw := by
    obtain ⟨_, _, ho, -⟩ := owes_state hg n
    have hinv := inv_state hg n
    have hs : ((circuit p).state ins n).state = .WR_DESC ∨ ((circuit p).state ins n).state = .CFG ∧
        ((circuit p).state ins n).req.rd_n_wr = false := by
      by_contra hnot
      rw [not_or, not_and, Bool.not_eq_false] at hnot
      exact hw (w_accepted_nil hinv hnot.1 hnot.2)
    generalize (writes ins p n).2 = o at ho ⊢
    cases ho with
    | nothing hs' => rcases hs' with hs' | hs' | hs' <;> simp [hs'] at hs
    | data a beats hs' hreq =>
      refine ⟨a, rfl, hreq, ?_⟩
      rcases hs' with hs' | hs' <;> simp [hs']
    | b hs' => simp [hs'] at hs
    | r hs' hrd => rcases hs' with hs' | hs' <;> simp [hs', hrd] at hs
  b n := by
    obtain ⟨b, _, ho, hb, -⟩ := owes_state hg n
    refine ⟨b, hb, fun hs => ?_⟩
    generalize (writes ins p n).2 = o at ho ⊢
    cases ho with
    | nothing => exact ⟨rfl, rfl⟩
    | data _ _ hs' => simp [hs] at hs'
    | b hs' => simp [hs] at hs'
    | r hs' => simp [hs] at hs'
  r n := by
    obtain ⟨_, r, ho, -, hr⟩ := owes_state hg n
    refine ⟨r, hr, fun hs => ?_⟩
    generalize (writes ins p n).2 = o at ho
    cases ho with
    | nothing => rfl
    | data _ _ hs' => simp [hs] at hs'
    | b hs' => simp [hs] at hs'
    | r hs' => simp [hs] at hs'
  idle := comes_idle hg

/-- Both directions, with descriptors of 256 bits. -/
def both : PsParams := ⟨false, false, false, false⟩

/-- The host writes one descriptor, and then reads a register of the C2H block. -/
def desc_then_read (n : Nat) : PsIn where
  awvalid := n ≤ 2
  aw := ⟨1, 0, 0, 5⟩
  wvalid := n ≤ 3
  w := ⟨7, 0xffffffff, true⟩
  bready := true
  arvalid := 6 ≤ n && n ≤ 8
  ar := ⟨2, 0x3400, 0, 2⟩
  rready := true
  c2h_ps_desc_ack := true
  h2c_ps_desc_ack := true
  ps_cfg _ := ⟨true, 3⟩

theorem desc_then_read_writes (n : Nat) :
    (circuit both).passed desc_then_read aw_accepted n =
        (circuit both).passed desc_then_read aw_accepted (min n 4) ∧
      (circuit both).passed desc_then_read w_accepted n =
        (circuit both).passed desc_then_read w_accepted (min n 4) := by
  rcases Nat.le_total n 4 with hle | hge
  · rw [Nat.min_eq_left hle]
    exact ⟨rfl, rfl⟩
  · rw [Nat.min_eq_right hge]
    constructor
    · refine Circuit.passed_eq_of_nil (fun n hn => ?_) n hge
      simp [aw_accepted, desc_then_read, show ¬n ≤ 2 by omega]
    · refine Circuit.passed_eq_of_nil (fun n hn => ?_) n hge
      simp [w_accepted, desc_then_read, show ¬n ≤ 3 by omega]

theorem desc_then_read_compliant : Compliant desc_then_read both where
  aw n hvalid hready := by
    have hle : n ≤ 2 := by simpa [desc_then_read] using hvalid
    interval_cases n <;> revert hready <;> decide
  w n hvalid hready := by
    have hle : n ≤ 3 := by simpa [desc_then_read] using hvalid
    interval_cases n <;> revert hready <;> decide +kernel
  ar n hvalid hready := by
    have hle : 6 ≤ n ∧ n ≤ 8 := by simpa [desc_then_read] using hvalid
    obtain ⟨hge, hle⟩ := hle
    interval_cases n <;> revert hready <;> decide
  fits n := by
    rw [(desc_then_read_writes n).1, (desc_then_read_writes n).2]
    have hle : min n 4 ≤ 4 := Nat.min_le_right n 4
    generalize min n 4 = k at hle
    constructor
    all_goals interval_cases k <;> decide

theorem desc_then_read_fair : Fair desc_then_read both where
  w n hne := by
    change (writes desc_then_read both n).2.1 ≠ [] at hne
    unfold writes at hne
    rw [(desc_then_read_writes n).1, (desc_then_read_writes n).2] at hne
    rcases Nat.lt_or_ge n 4 with hlt | hge
    · exact ⟨n, Nat.le_refl n, by simp [desc_then_read]; omega⟩
    · rw [Nat.min_eq_right hge] at hne
      exact absurd (by decide) hne
  b n _ := ⟨n, Nat.le_refl n, rfl⟩
  r n _ := ⟨n, Nat.le_refl n, rfl⟩
  c2h_desc n _ := ⟨n, Nat.le_refl n, rfl⟩
  h2c_desc n _ := ⟨n, Nat.le_refl n, rfl⟩
  cfg _ _ n _ := ⟨n, Nat.le_refl n, rfl⟩

theorem answers_desc_then_read : Answers desc_then_read both ∧
    (circuit both).passed desc_then_read b_sent 14 = [1] ∧
    (circuit both).passed desc_then_read r_sent 14 = [(2, true)] := by
  refine ⟨answers_of_good desc_then_read ⟨desc_then_read_compliant, desc_then_read_fair, fun n => ?_⟩,
    by decide, by decide⟩
  have hservable : servable ⟨1, 0, 0, 5⟩ := ⟨by decide, fun _ => rfl⟩
  exact ⟨fun _ _ => hservable, fun _ _ => rfl⟩

/-- The host writes a register with two beats. -/
def long_register (n : Nat) : PsIn where
  awvalid := n ≤ 2
  aw := ⟨1, 0x3400, 1, 5⟩
  wvalid := true
  w := ⟨0, 1, 6 ≤ n⟩
  bready := true
  arvalid := false
  ar := ⟨0, 0, 0, 0⟩
  rready := true
  c2h_ps_desc_ack := true
  h2c_ps_desc_ack := true
  ps_cfg _ := ⟨true, 0⟩

/-- An idle machine that no block keeps busy. -/
structure Resting (s : SdePs p) : Prop where
  state : s.state = .IDLE
  active : s.active = false
  wr_dummy : s.dec.wr_dummy = false
  blocks : ∀ b, (s.cfg b).wr_req = false ∧ (s.cfg b).pcis_wready = false

theorem resting_wready {i : PsIn} {s : SdePs p} (h : Resting s) : wready i s = false := by
  have hready := fun b => (h.blocks b).2
  simp [wready, c2h_pcis_desc_wready, h2c_pcis_desc_wready, h2c_pcis_pkt_wready, PsAcc.pcis_wready,
    c2h_acc_in, h2c_acc_in, h.active, h.wr_dummy, hready]

theorem resting_step {i : PsIn} {s : SdePs p} (h : Resting s) (haw : i.awvalid = false)
    (har : i.arvalid = false) : Resting (step i s) where
  state := by simp [step, next_state, h.state, haw, har]
  active := by simp [step, next_state, h.state, haw, har, h.active]
  wr_dummy := by simp [step, h.state, h.wr_dummy]
  blocks b := by simp [step, CfgPort.step, h.state, h.blocks b]

theorem long_register_resting (n : Nat) (hn : 8 ≤ n) :
    Resting ((circuit both).state long_register n) := by
  obtain ⟨d, rfl⟩ := Nat.exists_eq_add_of_le hn
  clear hn
  induction d with
  | zero => exact ⟨by decide, by decide, by decide, by decide⟩
  | succ d ih =>
    have hlate : ¬8 + d ≤ 2 := by omega
    exact resting_step ih (decide_eq_false hlate) rfl

theorem long_register_writes (n : Nat) :
    (circuit both).passed long_register aw_accepted n =
        (circuit both).passed long_register aw_accepted (min n 8) ∧
      (circuit both).passed long_register w_accepted n =
        (circuit both).passed long_register w_accepted (min n 8) := by
  rcases Nat.le_total n 8 with hle | hge
  · rw [Nat.min_eq_left hle]
    exact ⟨rfl, rfl⟩
  · rw [Nat.min_eq_right hge]
    constructor
    · refine Circuit.passed_eq_of_nil (fun n hn => ?_) n hge
      simp [aw_accepted, long_register, show ¬n ≤ 2 by omega]
    · refine Circuit.passed_eq_of_nil (fun n hn => ?_) n hge
      simp [w_accepted, resting_wready (long_register_resting n hn)]

theorem long_register_compliant : Compliant long_register both where
  aw n hvalid hready := by
    have hle : n ≤ 2 := by simpa [long_register] using hvalid
    interval_cases n <;> revert hready <;> decide
  w n _ hready := by
    have hne : n ≠ 5 := by
      rintro rfl
      exact absurd hready (by decide)
    refine ⟨rfl, ?_⟩
    have hlast : decide (6 ≤ n + 1) = decide (6 ≤ n) := by
      rw [decide_eq_decide]
      omega
    simp only [long_register, hlast]
  ar n hvalid hready := by simp [long_register] at hvalid
  fits n := by
    rw [(long_register_writes n).1, (long_register_writes n).2]
    have hle : min n 8 ≤ 8 := Nat.min_le_right n 8
    generalize min n 8 = k at hle
    constructor
    all_goals interval_cases k <;> decide

theorem long_register_fair : Fair long_register both where
  w n _ := ⟨n, Nat.le_refl n, rfl⟩
  b n _ := ⟨n, Nat.le_refl n, rfl⟩
  r n _ := ⟨n, Nat.le_refl n, rfl⟩
  c2h_desc n _ := ⟨n, Nat.le_refl n, rfl⟩
  h2c_desc n _ := ⟨n, Nat.le_refl n, rfl⟩
  cfg _ _ n _ := ⟨n, Nat.le_refl n, rfl⟩

theorem not_answers : ¬ ∀ p ins, Compliant ins p → Fair ins p → Answers ins p := by
  intro h
  obtain ⟨owed, -, hidle⟩ := (h both long_register long_register_compliant long_register_fair).b 8
  have hopen := (hidle (by decide)).2
  have hwaiting : (writes long_register both 8).2 ≠ ([], []) := by decide
  exact hwaiting hopen

end SdePs

end AwsFpga.Rtl
