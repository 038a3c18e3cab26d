import AwsFpga.Rtl.SdePmWrite

/-!
# What the host answers (`sde_pm.sv`)

Write responses and read data come back with an ID, and go to the requester that
owns it. On both channels each requester has a valid register of its own, and all
of them share the register of the payload.
-/

open Lib Lib.Axi

namespace AwsFpga.Rtl

/-- The requesters of a channel, in the order in which their IDs are compared. -/
structure RespOwners (ρ : Type) where
  all : List ρ
  id : ρ → BitVec 3
  mem_all : ∀ r, r ∈ all
  id_inj : ∀ {r r'}, id r = id r' → r = r'

structure RespIn (ρ P : Type) where
  pcim_valid : Bool
  pcim_id : BitVec 3
  pcim_payload : P
  ready : ρ → Bool

structure Resp (ρ P : Type) where
  valid : ρ → Bool
  payload_q : P

namespace Resp

variable {ρ P : Type} (o : RespOwners ρ) (i : RespIn ρ P) (s : Resp ρ P)

def pipe_stall (r : ρ) : Bool := s.valid r && !i.ready r

/-- When the shared register is loaded: `valid` is not asked for. -/
def load : Bool := o.all.any fun r => i.pcim_id = o.id r && !pipe_stall i s r

def pcim_ready : Bool :=
  match o.all.find? fun r => i.pcim_id = o.id r with
  | some r => !pipe_stall i s r
  | none => false

def step : Resp ρ P where
  valid r := if !pipe_stall i s r then i.pcim_valid && i.pcim_id = o.id r else s.valid r
  payload_q := if load o i s then i.pcim_payload else s.payload_q

def circuit (zero : P) : Circuit (RespIn ρ P) (Resp ρ P) := ⟨⟨fun _ => false, zero⟩, step o⟩

/-! ## What is owed to one requester -/

def accepted (r : ρ) : List P :=
  fire (i.pcim_valid && i.pcim_id = o.id r) (pcim_ready o i s) i.pcim_payload

def delivered (r : ρ) : List P := fire (s.valid r) (i.ready r) s.payload_q

/-- Whoever stalls keeps what it is shown. -/
def Keeps : Prop := (∃ r, pipe_stall i s r) → load o i s → i.pcim_payload = s.payload_q

variable {o i s}

theorem pcim_ready_eq {r : ρ} (h : i.pcim_id = o.id r) : pcim_ready o i s = !pipe_stall i s r := by
  have hfind : o.all.find? (fun r => i.pcim_id = o.id r) = some r := by
    cases hf : o.all.find? fun r => i.pcim_id = o.id r with
    | none =>
      have hnone := List.find?_eq_none.mp hf r (o.mem_all r)
      simp [h] at hnone
    | some r' =>
      have hid := List.find?_some hf
      rw [decide_eq_true_eq, h] at hid
      rw [o.id_inj hid]
  rw [pcim_ready, hfind]

theorem load_of {r : ρ} (h : i.pcim_id = o.id r) (hstall : pipe_stall i s r = false) :
    load o i s := by
  unfold load
  rw [List.any_eq_true]
  exact ⟨r, o.mem_all r, by simp [h, hstall]⟩

theorem valid_step (r : ρ) : (step o i s).valid r =
    if !pipe_stall i s r then i.pcim_valid && i.pcim_id = o.id r else s.valid r := rfl

theorem payload_step : (step o i s).payload_q =
    if load o i s then i.pcim_payload else s.payload_q := rfl

theorem payload_of_keeps (hkeeps : Keeps o i s) {r : ρ} (hstall : pipe_stall i s r) :
    (step o i s).payload_q = s.payload_q := by
  rw [payload_step]
  split
  case isTrue hload => exact hkeeps ⟨r, hstall⟩ hload
  case isFalse => rfl

theorem resp_step (hkeeps : Keeps o i s) (r : ρ) :
    shown (s.valid r) s.payload_q ++ accepted o i s r =
      delivered i s r ++ shown ((step o i s).valid r) (step o i s).payload_q := by
  cases hstall : pipe_stall i s r with
  | true =>
    have hpayload := payload_of_keeps hkeeps hstall
    have hacc : accepted o i s r = [] := by
      unfold accepted
      by_cases hid : i.pcim_id = o.id r
      · rw [pcim_ready_eq hid, hstall]
        simp
      · simp [hid]
    have hstall' := hstall
    rw [pipe_stall, Bool.and_eq_true, Bool.not_eq_true'] at hstall'
    rw [valid_step, hstall, hpayload, hacc, hstall'.1, delivered, hstall'.1, hstall'.2]
    simp
  | false =>
    have hdel : delivered i s r = shown (s.valid r) s.payload_q := by
      unfold delivered
      unfold pipe_stall at hstall
      cases hvalid : s.valid r with
      | false => simp
      | true =>
        rw [hvalid, Bool.true_and, Bool.not_eq_false'] at hstall
        rw [hstall]
        simp
    rw [valid_step, hdel, hstall]
    by_cases hid : i.pcim_id = o.id r
    · rw [accepted, pcim_ready_eq hid, hstall, payload_step, if_pos (load_of hid hstall)]
      cases i.pcim_valid <;> simp [hid]
    · simp [accepted, hid]

/-! ## Whole runs -/

variable (o) (zero : P) (ins : Nat → RespIn ρ P)

/-- The host holds what it shows. -/
def HostHolds : Prop :=
  Held (fun n => (ins n).pcim_valid) (fun n => pcim_ready o (ins n) ((circuit o zero).state ins n))
    fun n => ((ins n).pcim_id, (ins n).pcim_payload)

structure Delivers : Prop where
  /-- Each requester gets the accepted responses of its ID once and in order, or is shown one now. -/
  resp : ∀ r n, (circuit o zero).passed ins (accepted o · · r) n =
    (circuit o zero).passed ins (delivered · · r) n ++
      shown (((circuit o zero).state ins n).valid r) ((circuit o zero).state ins n).payload_q
  held : ∀ r, Held (fun n => ((circuit o zero).state ins n).valid r) (fun n => (ins n).ready r)
    fun n => ((circuit o zero).state ins n).payload_q

variable {o zero ins}

theorem delivers_iff :
    Delivers o zero ins ↔ ∀ n, Keeps o (ins n) ((circuit o zero).state ins n) := by
  constructor
  · rintro h n ⟨r, hstall⟩ hload
    rw [pipe_stall, Bool.and_eq_true, Bool.not_eq_true'] at hstall
    have hsame : ((circuit o zero).state ins (n + 1)).payload_q =
        ((circuit o zero).state ins n).payload_q := (h.held r n hstall.1 hstall.2).2
    rw [← hsame, Circuit.state_succ]
    exact (if_pos hload).symm
  · intro hkeeps
    refine ⟨fun r n => ?_, fun r n hvalid hready => ?_⟩
    · exact Circuit.passed_eq (P := fun _ => True) (m := Keeps o)
        (fun s => shown (s.valid r) s.payload_q) (fun _ => trivial) hkeeps rfl
        (fun _ _ hk _ => resp_step hk r) n
    · have hstall : pipe_stall (ins n) ((circuit o zero).state ins n) r := by
        simp [pipe_stall, hvalid, hready]
      refine ⟨?_, payload_of_keeps (hkeeps n) hstall⟩
      simp only [Circuit.state_succ]
      change (step o (ins n) ((circuit o zero).state ins n)).valid r = true
      rw [valid_step, hstall]
      exact hvalid

end Resp

/-! ## The two channels -/

def b_owners : RespOwners WrRequester where
  all := WrRequester.all
  id := WrRequester.awid
  mem_all r := by cases r <;> decide
  id_inj {r r'} h := by cases r <;> cases r' <;> first | rfl | exact absurd h (by decide)

inductive RdRequester where
  | c2h_desc
  | h2c_desc
  | h2c_dm
  deriving DecidableEq

/-- `C2H_PCIM_DESC_ARID`, `H2C_PCIM_DESC_ARID` and `H2C_PCIM_DM_ARID`. -/
def RdRequester.arid : RdRequester → BitVec 3
  | .c2h_desc => 0
  | .h2c_desc => 1
  | .h2c_dm => 2

def r_owners : RespOwners RdRequester where
  all := [.c2h_desc, .h2c_desc, .h2c_dm]
  id := RdRequester.arid
  mem_all r := by cases r <;> decide
  id_inj {r r'} h := by cases r <;> cases r' <;> first | rfl | exact absurd h (by decide)

structure RBeat where
  data : BitVec 512
  resp : BitVec 2
  last : Bool
  deriving DecidableEq

/-- Both channels. A requester that stalls must not see a response that comes for another. -/
theorem resp_delivers_iff (b : Nat → RespIn WrRequester (BitVec 2))
    (r : Nat → RespIn RdRequester RBeat) :
    (Resp.Delivers b_owners 0 b ↔
      ∀ n, Resp.Keeps b_owners (b n) ((Resp.circuit b_owners 0).state b n)) ∧
    (Resp.Delivers r_owners ⟨0, 0, false⟩ r ↔
      ∀ n, Resp.Keeps r_owners (r n) ((Resp.circuit r_owners ⟨0, 0, false⟩).state r n)) :=
  ⟨Resp.delivers_iff, Resp.delivers_iff⟩

/-- An error for the data mover of C2H, whose FIFO of responses is full, then the response to a
write-back. -/
def two_responses (n : Nat) : RespIn WrRequester (BitVec 2) where
  pcim_valid := n < 2
  pcim_id := if n = 0 then 0 else 1
  pcim_payload := if n = 0 then 2 else 0
  ready r := r ≠ .c2h_dm

/-- A beat for the data mover of H2C, which stalls. Then nothing comes, under the ID of a reader of
descriptors. -/
def beat_then_idle (n : Nat) : RespIn RdRequester RBeat where
  pcim_valid := n = 0
  pcim_id := if n = 0 then 2 else 0
  pcim_payload := if n = 0 then ⟨1, 0, true⟩ else ⟨0, 0, false⟩
  ready r := r ≠ .h2c_dm

/-- Who stalls is shown what comes for others, also where it comes for nobody. -/
theorem not_resp_delivers :
    (¬ ∀ ins : Nat → RespIn WrRequester (BitVec 2),
      Resp.HostHolds b_owners 0 ins → Resp.Delivers b_owners 0 ins) ∧
    ¬ ∀ ins : Nat → RespIn RdRequester RBeat,
      Resp.HostHolds r_owners ⟨0, 0, false⟩ ins → Resp.Delivers r_owners ⟨0, 0, false⟩ ins := by
  constructor
  · intro h
    have hholds : Resp.HostHolds b_owners 0 two_responses := by
      intro n hvalid hready
      match n with
      | 0 => exact absurd hready (by decide)
      | 1 => exact absurd hready (by decide)
      | n + 2 => simp [two_responses] at hvalid
    have hchanged := ((h two_responses hholds).held .c2h_dm 1 (by decide) (by decide)).2
    exact absurd hchanged (by decide +kernel)
  · intro h
    have hholds : Resp.HostHolds r_owners ⟨0, 0, false⟩ beat_then_idle := by
      intro n hvalid hready
      match n with
      | 0 => exact absurd hready (by decide)
      | n + 1 => simp [beat_then_idle] at hvalid
    have hchanged := ((h beat_then_idle hholds).held .h2c_dm 1 (by decide) (by decide)).2
    exact absurd hchanged (by decide +kernel)

end AwsFpga.Rtl
