import AwsFpga.Lib.Report
import AwsFpga.Mgmt.Describe

/-!
# Which failures a describe reports

The calls of the last attempt, and those after it, have to succeed. The calls of
the reload come last, and their codes are lost.
-/

open Lib AwsFpga.Pci AwsFpga.Mbox

namespace AwsFpga.Mgmt

/-! ## Codes -/

def halCode : (o : HalOp) → o.Ans → Int
  | .pci o, r => pciCode o r
  | .mbox_init _, ret => (ret : Int)
  | .mbox_attach .., ret => (ret : Int)
  | .mbox_detach .., ret => (ret : Int)
  | .mbox_get_versions _, r => (r : Int × BitVec 32).1
  | .mbox_write .., ret => (ret : Int)
  | .mbox_read _, r => (r : Int × List (BitVec 32)).1

def Succeeded (e : HalApi.Event) : Prop := halCode e.1 e.2 = 0

/-- An attempt that failed is slept on before the next. -/
def IsSleep : HalOp → Prop
  | .pci (.msleep _) => True
  | _ => False

def IsResourceMap : HalOp → Prop
  | .pci (.get_resource_map ..) => True
  | _ => False

/-- A call that fails is followed by another attempt. -/
def FailuresRetried (t : List HalApi.Event) : Prop :=
  ∀ t₁ e t₂, t = t₁ ++ e :: t₂ → Succeeded e ∨ ∃ e' ∈ t₂, IsSleep e'.1

/-- The calls after the resource map was read, which are those of the reload, succeed. -/
def ReloadSucceeds (t : List HalApi.Event) : Prop :=
  ∀ t₁ e t₂, t = t₁ ++ e :: t₂ → (∃ e' ∈ t₁, IsResourceMap e'.1) → Succeeded e

/-- What a caller may rely on when a describe returned 0. -/
structure DescribeSound (slot_id : Int) (flags : BitVec 32) (s s' : FpgaMgmtState)
    (t : List HalApi.Event) (info : FpgaMgmtImageInfo) : Prop where
  calls : FailuresRetried t
  /-- The last response was accepted, and holds the metrics. -/
  response : ∃ cmd t₀ s₀ words, Exec (fpga_mgmt_cmd_init_metrics flags) s t₀ (cmd, 20) s₀ ∧
    t₀ <+: t ∧ (responses t).getLast? = some words ∧ verdict cmd words = 0 ∧
    fpga_mgmt_cmd_handle_metrics (4 * words.length) = 0
  /-- An image that waits for its reload got it. -/
  reload : ∀ words, (responses t).getLast? = some words →
    (AfiCmd.ofWords words).metrics.status = FPGA_STATUS_LOADING_RL →
    (∃ slot, slotIndex slot_id = some slot ∧
      ⟨.pci (.poke (s'.slots slot) FMB_REG_RL_RELOAD 1), (0 : Int)⟩ ∈ t) ∧
    info.status = FPGA_STATUS_BUSY

/-! ## The parts: 0 is returned exactly when every call succeeded -/

theorem mbox_attach_reports (slot : Fin FPGA_SLOT_MAX) :
    Reports halCode (fpga_mgmt_mbox_attach slot) id := by
  unfold fpga_mgmt_mbox_attach
  refine reports_get_bind fun s => ?_
  split
  · refine reports_bind (reports_op _) (fun r hr => ⟨_, if_pos hr, hr⟩) fun (ret, handle) hret => ?_
    obtain rfl : ret = 0 := hret
    dsimp only
    rw [if_neg (by simp)]
    refine reports_modify_bind ?_
    refine reports_bind (reports_op _) (fun r hr => ⟨_, if_pos hr, hr⟩) fun ret hret => ?_
    obtain rfl : ret = 0 := hret
    rw [if_neg (by simp)]
    exact reports_op _
  · exact reports_op _

theorem get_sh_version_reports (slot_id : Int) (slot : Fin FPGA_SLOT_MAX)
    (hslot : slotIndex slot_id = some slot) :
    Reports halCode (fpga_mgmt_get_sh_version slot_id) Prod.fst := by
  unfold fpga_mgmt_get_sh_version
  rw [hslot]
  refine reports_bind (mbox_attach_reports slot) (fun r hr => ⟨_, if_pos hr, hr⟩) fun ret hret => ?_
  obtain rfl : ret = 0 := hret
  rw [if_neg (by simp)]
  exact reports_get_bind fun s => reports_op _

/-! ## An attempt that is accepted -/

/-- The response that ended these calls was accepted as one to `cmd`, and is in the buffer. -/
def Accepted (cmd : AfiCmd) (t : List HalApi.Event) (out : CmdOut) : Prop :=
  ∃ words, ∃ rsp : AfiCmd, (responses t).getLast? = some words ∧ verdict cmd words = 0 ∧
    out.rsp = rsp.store words ∧ out.len = 4 * words.length

theorem accepted_append (cmd : AfiCmd) (t₁ t₂ : List HalApi.Event) (out : CmdOut)
    (h : Accepted cmd t₂ out) : Accepted cmd (t₁ ++ t₂) out := by
  obtain ⟨words, rsp, hlast, h⟩ := h
  refine ⟨words, rsp, ?_, h⟩
  unfold responses at hlast ⊢
  simp [List.filterMap_append, List.getLast?_append, hlast]

theorem send_cmd_loop_accepted (handle : Int) (cmd : AfiCmd) (retries : Nat) (rsp : AfiCmd)
    (len : Nat) (s s' : FpgaMgmtState) (t : List HalApi.Event) (out : CmdOut)
    (h : Exec (fpga_mgmt_send_cmd_loop handle cmd retries rsp len) s t out s')
    (hret : out.ret = 0) : (∀ e ∈ t, Succeeded e) ∧ Accepted cmd t out := by
  rw [fpga_mgmt_send_cmd_loop.eq_def, exec_mbox_read] at h
  obtain ⟨ret, words, t', rfl, h⟩ := h
  dsimp only at h
  split at h
  case isTrue hfail =>
    obtain ⟨rfl, rfl, rfl⟩ := (exec_pure _ _ _ _ _).mp h
    exact absurd hret hfail
  case isFalse hread =>
    obtain rfl : ret = 0 := not_not.mp hread
    have hfirst : Succeeded (⟨.mbox_read handle, (0, words)⟩ : HalApi.Event) := rfl
    split at h
    case isTrue hzero =>
      obtain ⟨rfl, rfl, rfl⟩ := (exec_pure _ _ _ _ _).mp h
      have hlen : 4 ≤ words.length := by
        by_contra hlt
        refine validate_header_short cmd (rsp.store words) (4 * words.length) ?_ hzero
        unfold sizeof_afi_cmd_hdr
        omega
      refine ⟨by simpa using hfirst, words, rsp, rfl, ?_, rfl, rfl⟩
      unfold verdict
      rw [← validate_header_store cmd rsp words hlen, hzero]
    case isFalse =>
      split at h
      case isTrue hfinal =>
        obtain ⟨rfl, rfl, rfl⟩ := (exec_pure _ _ _ _ _).mp h
        contradiction
      case isFalse =>
        cases retries with
        | zero =>
          obtain ⟨rfl, rfl, rfl⟩ := (exec_pure _ _ _ _ _).mp h
          exact absurd (show -ETIMEDOUT = 0 from hret) (by decide)
        | succ retries =>
          obtain ⟨hcalls, haccepted⟩ :=
            send_cmd_loop_accepted handle cmd retries _ _ s s' t' out h hret
          refine ⟨?_, accepted_append cmd [_] t' out haccepted⟩
          intro e he
          rcases List.mem_cons.mp he with rfl | he
          · exact hfirst
          · exact hcalls e he

theorem send_cmd_accepted (slot : Fin FPGA_SLOT_MAX) (cmd rsp : AfiCmd) (len : Nat)
    (s s' : FpgaMgmtState) (t : List HalApi.Event) (out : CmdOut)
    (h : Exec (fpga_mgmt_send_cmd slot cmd rsp len) s t out s') (hret : out.ret = 0) :
    (∀ e ∈ t, Succeeded e) ∧ Accepted cmd t out := by
  unfold fpga_mgmt_send_cmd at h
  rw [exec_get_bind, exec_mbox_write] at h
  obtain ⟨ret, t', rfl, h⟩ := h
  split at h
  case isTrue hfail =>
    obtain ⟨rfl, rfl, rfl⟩ := (exec_pure _ _ _ _ _).mp h
    exact absurd hret hfail
  case isFalse hwrite =>
    obtain ⟨hcalls, haccepted⟩ := send_cmd_loop_accepted _ _ _ _ _ _ _ _ _ h hret
    refine ⟨?_, accepted_append cmd [_] t' out haccepted⟩
    intro e he
    rcases List.mem_cons.mp he with rfl | he
    · exact not_not.mp hwrite
    · exact hcalls e he

theorem process_cmd_accepted (slot_id : Int) (cmd rsp : AfiCmd) (len : Nat)
    (s s' : FpgaMgmtState) (t : List HalApi.Event) (out : CmdOut)
    (h : Exec (fpga_mgmt_process_cmd slot_id cmd rsp len) s t out s') (hret : out.ret = 0) :
    (∀ e ∈ t, Succeeded e) ∧ Accepted cmd t out := by
  unfold fpga_mgmt_process_cmd at h
  split at h
  · obtain ⟨rfl, rfl, rfl⟩ := (exec_pure _ _ _ _ _).mp h
    exact absurd (show -EINVAL = 0 from hret) (by decide)
  rw [exec_bind] at h
  obtain ⟨t₁, ret, s₁, t₂, rfl, hattach, h⟩ := h
  split at h
  case isTrue hfail =>
    obtain ⟨rfl, rfl, rfl⟩ := (exec_pure _ _ _ _ _).mp h
    exact absurd hret hfail
  case isFalse hzero =>
    have hfirst := (mbox_attach_reports _ _ _ _ _ hattach).mp (not_not.mp hzero)
    obtain ⟨hcalls, haccepted⟩ := send_cmd_accepted _ _ _ _ _ _ _ _ h hret
    refine ⟨?_, accepted_append cmd t₁ t₂ out haccepted⟩
    intro e he
    exact (List.mem_append.mp he).elim (hfirst e) (hcalls e)

theorem describe_cmd_retry_last (slot_id : Int) (cmd : AfiCmd) (retries : Nat) (out : CmdOut)
    (s s' : FpgaMgmtState) (t : List HalApi.Event) (out' : CmdOut)
    (h : Exec (fpga_mgmt_describe_cmd_retry slot_id cmd retries out) s t out' s') :
    (t = [] ∧ out' = out ∧ s' = s) ∨
      ∃ t₁ e t₂ rsp len s₁, t = t₁ ++ e :: t₂ ∧ IsSleep e.1 ∧
        Exec (fpga_mgmt_process_cmd slot_id cmd rsp len) s₁ t₂ out' s' := by
  induction retries generalizing out s t with
  | zero => exact Or.inl ((exec_pure _ _ _ _ _).mp h)
  | succ retries ih =>
    unfold fpga_mgmt_describe_cmd_retry at h
    split at h
    case isFalse => exact Or.inl ((exec_pure _ _ _ _ _).mp h)
    case isTrue =>
      right
      rw [exec_bind] at h
      obtain ⟨t₁, u, s₁, t₂, rfl, hsleep, h⟩ := h
      rw [exec_bind] at h
      obtain ⟨t₃, out₁, s₂, t₄, rfl, hcmd, h⟩ := h
      obtain ⟨rfl, rfl⟩ := (exec_hal (.pci (.msleep _)) _).mp hsleep
      rcases ih out₁ s₂ t₄ h with ⟨rfl, rfl, rfl⟩ | ⟨t₅, e, t₆, rsp, len, s₃, rfl, hsleep', hlast⟩
      · exact ⟨[], ⟨.pci (.msleep FPGA_MGMT_RL_RELOAD_DELAY), u⟩, t₃, out.rsp, out.len, s₁, by simp, trivial, hcmd⟩
      · exact ⟨⟨.pci (.msleep FPGA_MGMT_RL_RELOAD_DELAY), u⟩ :: (t₃ ++ t₅), e, t₆, rsp, len, s₃, by simp, hsleep', hlast⟩

/-! ## Which failures are retried -/

theorem succeeded_of_sleep (e : HalApi.Event) (h : IsSleep e.1) : Succeeded e := by
  obtain ⟨o, r⟩ := e
  cases o with
  | pci o =>
    cases o with
    | msleep ms => rfl
    | _ => exact h.elim
  | _ => exact h.elim

theorem failuresRetried_nil : FailuresRetried [] := by
  intro t₁ e t₂ heq
  simp at heq

theorem failuresRetried_sleep (t : List HalApi.Event) (e : HalApi.Event) (hsleep : IsSleep e.1) :
    FailuresRetried (t ++ [e]) := by
  intro u₁ e' u₂ heq
  rcases List.eq_nil_or_concat u₂ with rfl | ⟨u, x, rfl⟩
  · left
    obtain ⟨-, h⟩ := List.append_inj' heq rfl
    obtain ⟨rfl, -⟩ := List.cons.inj h
    exact succeeded_of_sleep e hsleep
  · right
    rw [List.concat_eq_append, ← List.cons_append, ← List.append_assoc] at heq
    obtain ⟨-, h⟩ := List.append_inj' heq rfl
    obtain ⟨rfl, -⟩ := List.cons.inj h
    exact ⟨e, by simp, hsleep⟩

theorem failuresRetried_append (t u : List HalApi.Event) (ht : FailuresRetried t)
    (hu : ∀ e ∈ u, Succeeded e) : FailuresRetried (t ++ u) := by
  intro u₁ e u₂ heq
  rcases List.append_eq_append_iff.mp heq with ⟨w, rfl, hw⟩ | ⟨w, rfl, hw⟩
  · exact Or.inl (hu e (by simp [hw]))
  · cases w with
    | nil =>
      have hmem : e ∈ u := (show e :: u₂ = u from hw) ▸ List.mem_cons_self
      exact Or.inl (hu e hmem)
    | cons x w =>
      obtain ⟨rfl, rfl⟩ := List.cons.inj hw
      rcases ht u₁ e w rfl with h | ⟨e', he', h⟩
      · exact Or.inl h
      · exact Or.inr ⟨e', by simp [he'], h⟩

theorem failuresRetried_prepend (u t : List HalApi.Event) (hu : ∀ e ∈ u, Succeeded e)
    (ht : FailuresRetried t) : FailuresRetried (u ++ t) := by
  intro u₁ e u₂ heq
  rcases List.append_eq_append_iff.mp heq with ⟨w, rfl, hw⟩ | ⟨w, rfl, hw⟩
  · exact ht w e u₂ hw
  · cases w with
    | nil => exact ht [] e u₂ hw.symm
    | cons x w =>
      obtain ⟨rfl, -⟩ := List.cons.inj hw
      exact Or.inl (hu e (by simp))

/-! ## The parts of a describe -/

theorem init_metrics_succeeds (flags : BitVec 32) (s s' : FpgaMgmtState) (t : List HalApi.Event)
    (a : AfiCmd × Nat) (h : Exec (fpga_mgmt_cmd_init_metrics flags) s t a s') :
    ∀ e ∈ t, Succeeded e := by
  have hreports : Reports halCode (fpga_mgmt_cmd_init_metrics flags) fun _ => 0 := by
    unfold fpga_mgmt_cmd_init_metrics
    refine reports_bind (c := fun _ => 0) ?_ (fun a ha => absurd rfl ha) fun id _ => reports_pure rfl
    unfold afi_get_next_id
    refine reports_get_bind fun s => ?_
    refine reports_bind (c := fun _ => 0) ?_ (fun a ha => absurd rfl ha) fun id _ => ?_
    · split
      · exact reports_op (I := HalApi) (.pci .rand)
      · exact reports_pure rfl
    · exact reports_modify_bind (reports_pure rfl)
  exact (hreports _ _ _ _ h).mp rfl

/-- The attempts that end in success: only calls of earlier attempts failed. -/
theorem attempts_accepted (slot_id : Int) (cmd : AfiCmd) (retries : Nat) (rsp : AfiCmd) (len : Nat)
    (s s₁ s' : FpgaMgmtState) (t₁ t₂ : List HalApi.Event) (out out' : CmdOut)
    (hfirst : Exec (fpga_mgmt_process_cmd slot_id cmd rsp len) s t₁ out s₁)
    (hretry : Exec (fpga_mgmt_describe_cmd_retry slot_id cmd retries out) s₁ t₂ out' s')
    (hret : out'.ret = 0) : FailuresRetried (t₁ ++ t₂) ∧ Accepted cmd (t₁ ++ t₂) out' := by
  rcases describe_cmd_retry_last _ _ _ _ _ _ _ _ hretry with
    ⟨rfl, rfl, rfl⟩ | ⟨u₁, e, u₂, rsp', len', s₂, rfl, hsleep, hlast⟩
  · obtain ⟨hcalls, haccepted⟩ := process_cmd_accepted _ _ _ _ _ _ _ _ hfirst hret
    rw [List.append_nil]
    exact ⟨failuresRetried_append [] t₁ failuresRetried_nil hcalls, haccepted⟩
  · obtain ⟨hcalls, haccepted⟩ := process_cmd_accepted _ _ _ _ _ _ _ _ hlast hret
    have hsplit : t₁ ++ (u₁ ++ e :: u₂) = (t₁ ++ u₁) ++ [e] ++ u₂ := by simp
    rw [hsplit]
    exact ⟨failuresRetried_append _ _ (failuresRetried_sleep _ e hsleep) hcalls,
      accepted_append cmd _ u₂ out' haccepted⟩

theorem rl_reload_spec (slot : Fin FPGA_SLOT_MAX) (info : FpgaMgmtImageInfo)
    (s s' : FpgaMgmtState) (t : List HalApi.Event) (r : Int × FpgaMgmtImageInfo)
    (h : Exec (fpga_mgmt_rl_reload slot info) s t r s') :
    r.1 = 0 ∧ ((∀ e ∈ t, Succeeded e) →
      ⟨.pci (.poke (s'.slots slot) FMB_REG_RL_RELOAD 1), (0 : Int)⟩ ∈ t ∧
        r.2.status = FPGA_STATUS_BUSY) := by
  unfold fpga_mgmt_rl_reload at h
  rw [exec_bind] at h
  obtain ⟨t₁, ret, s₁, t₂, rfl, hattach, h⟩ := h
  have hreports := mbox_attach_reports slot _ _ _ _ hattach
  split at h
  case isTrue hfail =>
    obtain ⟨rfl, rfl, rfl⟩ := (exec_pure _ _ _ _ _).mp h
    refine ⟨rfl, fun hcalls => absurd (hreports.mpr fun e he => ?_) hfail⟩
    exact hcalls e (by simp [he])
  case isFalse =>
    rw [exec_get_bind, exec_pci_poke] at h
    obtain ⟨ret, t', rfl, h⟩ := h
    split at h
    case isTrue hfail =>
      obtain ⟨rfl, rfl, rfl⟩ := (exec_pure _ _ _ _ _).mp h
      refine ⟨rfl, fun hcalls => ?_⟩
      have hpoke := hcalls ⟨.pci (.poke (s'.slots slot) FMB_REG_RL_RELOAD 1), ret⟩ (by simp)
      exact absurd hpoke hfail
    case isFalse hzero =>
      obtain rfl : ret = 0 := not_not.mp hzero
      obtain ⟨rfl, rfl, rfl⟩ := (exec_pure _ _ _ _ _).mp h
      exact ⟨rfl, fun _ => ⟨by simp, rfl⟩⟩

/-! ## When a describe is sound -/

/-- Calls that neither sleep nor read the resource map. -/
def Plain (o : HalOp) : Prop := ¬ IsSleep o ∧ ¬ IsResourceMap o

theorem plain_of_attaches (o : HalOp) (h : Attaches o) : Plain o := by
  cases o with
  | pci o =>
    cases o with
    | attach => exact ⟨id, id⟩
    | _ => exact h.elim
  | mbox_init => exact ⟨id, id⟩
  | mbox_attach => exact ⟨id, id⟩
  | _ => exact h.elim

theorem mbox_attach_plain (slot : Fin FPGA_SLOT_MAX) :
    Calls Plain (fpga_mgmt_mbox_attach slot) :=
  calls_mono plain_of_attaches (mbox_attach_calls slot)

theorem rl_reload_plain (slot : Fin FPGA_SLOT_MAX) (info : FpgaMgmtImageInfo) :
    Calls Plain (fpga_mgmt_rl_reload slot info) := by
  unfold fpga_mgmt_rl_reload
  refine calls_bind (mbox_attach_plain _) fun ret => calls_ite (calls_pure _ _) ?_
  refine calls_get_bind fun s => calls_bind (calls_op ⟨id, id⟩) fun ret => ?_
  exact calls_ite (calls_pure _ _) (calls_pure _ _)

theorem get_sh_version_plain (slot_id : Int) : Calls Plain (fpga_mgmt_get_sh_version slot_id) := by
  unfold fpga_mgmt_get_sh_version
  split
  · exact calls_pure _ _
  · refine calls_bind (mbox_attach_plain _) fun ret => calls_ite (calls_pure _ _) ?_
    exact calls_get_bind fun s => calls_op ⟨id, id⟩

theorem init_metrics_plain (flags : BitVec 32) : Calls Plain (fpga_mgmt_cmd_init_metrics flags) := by
  unfold fpga_mgmt_cmd_init_metrics afi_get_next_id
  refine calls_bind (calls_get_bind fun s => calls_bind ?_ fun id => ?_) fun id => calls_pure _ _
  · exact calls_ite (calls_op ⟨id, id⟩) (calls_pure _ _)
  · exact calls_bind (calls_modify _ _) fun _ => calls_pure _ _

theorem send_cmd_loop_plain (handle : Int) (cmd : AfiCmd) (retries : Nat) (rsp : AfiCmd)
    (len : Nat) : Calls Plain (fpga_mgmt_send_cmd_loop handle cmd retries rsp len) := by
  induction retries generalizing rsp len with
  | zero =>
    unfold fpga_mgmt_send_cmd_loop
    refine calls_bind (calls_op ⟨id, id⟩) fun r => calls_ite (calls_pure _ _) ?_
    exact calls_ite (calls_pure _ _) (calls_ite (calls_pure _ _) (calls_pure _ _))
  | succ retries ih =>
    unfold fpga_mgmt_send_cmd_loop
    refine calls_bind (calls_op ⟨id, id⟩) fun r => calls_ite (calls_pure _ _) ?_
    exact calls_ite (calls_pure _ _) (calls_ite (calls_pure _ _) (ih _ _))

theorem process_cmd_plain (slot_id : Int) (cmd rsp : AfiCmd) (len : Nat) :
    Calls Plain (fpga_mgmt_process_cmd slot_id cmd rsp len) := by
  unfold fpga_mgmt_process_cmd
  split
  · exact calls_pure _ _
  · refine calls_bind (mbox_attach_plain _) fun ret => calls_ite (calls_pure _ _) ?_
    unfold fpga_mgmt_send_cmd
    refine calls_get_bind fun s => calls_bind (calls_op ⟨id, id⟩) fun ret => ?_
    exact calls_ite (calls_pure _ _) (send_cmd_loop_plain _ _ _ _ _)

/-- Calls of the attempts: they may sleep. -/
def NoResourceMap (o : HalOp) : Prop := ¬ IsResourceMap o

theorem noResourceMap_of_plain (o : HalOp) (h : Plain o) : NoResourceMap o := h.2

theorem describe_cmd_retry_calls (slot_id : Int) (cmd : AfiCmd) (retries : Nat) (out : CmdOut) :
    Calls NoResourceMap (fpga_mgmt_describe_cmd_retry slot_id cmd retries out) := by
  induction retries generalizing out with
  | zero => exact calls_pure _ _
  | succ retries ih =>
    unfold fpga_mgmt_describe_cmd_retry
    refine calls_ite (calls_bind (calls_op id) fun _ => ?_) (calls_pure _ _)
    exact calls_bind (calls_mono noResourceMap_of_plain (process_cmd_plain _ _ _ _)) fun out => ih out

/-- How a describe of `slot` goes: it stops with a code by the resource map, or an attempt was
accepted, and what follows the resource map is the reload, if the image waits for one. -/
inductive DescribeParts (slot : Fin FPGA_SLOT_MAX) (cmd : AfiCmd) (s' : FpgaMgmtState)
    (t : List HalApi.Event) (r : Int × FpgaMgmtImageInfo) : Prop where
  | stopped (code : r.1 ≠ 0)
    (early : ∀ t₁ e t₂, t = t₁ ++ e :: t₂ → ∀ e' ∈ t₁, ¬ IsResourceMap e'.1)
  | finished (t₁ : List HalApi.Event) (m : HalApi.Event) (t₂ : List HalApi.Event) (out : CmdOut)
    (info : FpgaMgmtImageInfo) (s₁ : FpgaMgmtState) (split : t = t₁ ++ m :: t₂)
    (map : IsResourceMap m.1) (before : ∀ e ∈ t₁, ¬ IsResourceMap e.1)
    (retried : FailuresRetried (t₁ ++ [m])) (accepted : Accepted cmd t₁ out)
    (metrics : fpga_mgmt_cmd_handle_metrics out.len = 0)
    (rest : Exec (if out.rsp.metrics.status = FPGA_STATUS_LOADING_RL then
      fpga_mgmt_rl_reload slot info else pure (0, info)) s₁ t₂ r s')

theorem early_of_none (t : List HalApi.Event) (h : ∀ e ∈ t, ¬ IsResourceMap e.1) :
    ∀ t₁ e t₂, t = t₁ ++ e :: t₂ → ∀ e' ∈ t₁, ¬ IsResourceMap e'.1 := by
  rintro t₁ e t₂ rfl e' he'
  exact h e' (by simp [he'])

theorem early_of_last (t : List HalApi.Event) (m : HalApi.Event)
    (h : ∀ e ∈ t, ¬ IsResourceMap e.1) :
    ∀ t₁ e t₂, t ++ [m] = t₁ ++ e :: t₂ → ∀ e' ∈ t₁, ¬ IsResourceMap e'.1 := by
  intro t₁ e t₂ heq e' he'
  rcases List.eq_nil_or_concat t₂ with rfl | ⟨u, x, rfl⟩
  · obtain ⟨rfl, -⟩ := List.append_inj' heq rfl
    exact h e' he'
  · rw [List.concat_eq_append, ← List.cons_append, ← List.append_assoc] at heq
    obtain ⟨rfl, -⟩ := List.append_inj' heq rfl
    exact h e' (by simp [he'])

theorem accepted_silent (cmd : AfiCmd) (t u : List HalApi.Event) (out : CmdOut)
    (h : Accepted cmd t out) (hu : ∀ e ∈ u, Silent e.1) : Accepted cmd (t ++ u) out := by
  obtain ⟨words, rsp, hlast, h⟩ := h
  refine ⟨words, rsp, ?_, h⟩
  have hnone := responses_silent u hu
  unfold responses at hlast hnone ⊢
  rw [List.filterMap_append, hnone, List.append_nil, hlast]

theorem describe_cmd_parts (slot_id : Int) (slot : Fin FPGA_SLOT_MAX)
    (hslot : slotIndex slot_id = some slot) (info : FpgaMgmtImageInfo) (flags : BitVec 32)
    (s s' : FpgaMgmtState) (t : List HalApi.Event) (r : Int × FpgaMgmtImageInfo)
    (h : Exec (fpga_mgmt_describe_cmd slot_id info flags) s t r s') :
    ∃ cmd t₀ s₀, Exec (fpga_mgmt_cmd_init_metrics flags) s t₀ (cmd, 20) s₀ ∧ t₀ <+: t ∧
      DescribeParts slot cmd s' t r := by
  unfold fpga_mgmt_describe_cmd at h
  rw [hslot] at h
  dsimp only at h
  rw [exec_bind] at h
  obtain ⟨t₀, ⟨cmd, len⟩, s₀, u, rfl, hinit, h⟩ := h
  obtain rfl := init_metrics_len flags s s₀ t₀ cmd len hinit
  refine ⟨cmd, t₀, s₀, hinit, List.prefix_append _ _, ?_⟩
  have hnone₀ := exec_calls (calls_mono noResourceMap_of_plain (init_metrics_plain flags)) hinit
  dsimp only at h
  rw [exec_bind] at h
  obtain ⟨t₁, out₁, s₁, u, rfl, hcmd, h⟩ := h
  have hnone₁ := exec_calls (calls_mono noResourceMap_of_plain (process_cmd_plain _ _ _ _)) hcmd
  rw [exec_bind] at h
  obtain ⟨t₂, out, s₂, u, rfl, hretry, h⟩ := h
  have hnone₂ := exec_calls (describe_cmd_retry_calls _ _ _ _) hretry
  have hnone : ∀ e ∈ t₀ ++ (t₁ ++ t₂), ¬ IsResourceMap e.1 := by
    intro e he
    simp only [List.mem_append] at he
    rcases he with he | he | he
    · exact hnone₀ e he
    · exact hnone₁ e he
    · exact hnone₂ e he
  split at h
  case isTrue hret =>
    obtain ⟨rfl, rfl, rfl⟩ := (exec_pure _ _ _ _ _).mp h
    exact .stopped hret (early_of_none _ (by simpa using hnone))
  split at h
  case isTrue hmetrics =>
    obtain ⟨rfl, rfl, rfl⟩ := (exec_pure _ _ _ _ _).mp h
    exact .stopped hmetrics (early_of_none _ (by simpa using hnone))
  case isFalse hret hmetrics =>
    obtain ⟨hretried, haccepted⟩ :=
      attempts_accepted _ _ _ _ _ _ _ _ _ _ _ _ hcmd hretry (not_not.mp hret)
    rw [exec_bind] at h
    obtain ⟨t₃, ⟨ret, sh_version⟩, s₃, u, rfl, hversion, h⟩ := h
    have hnone₃ := exec_calls (calls_mono noResourceMap_of_plain (get_sh_version_plain _)) hversion
    have hnone' : ∀ e ∈ t₀ ++ (t₁ ++ t₂) ++ t₃, ¬ IsResourceMap e.1 := by
      intro e he
      exact (List.mem_append.mp he).elim (hnone e) (hnone₃ e)
    have hreports := get_sh_version_reports slot_id slot hslot _ _ _ _ hversion
    dsimp only at h
    split at h
    case isTrue hfail =>
      obtain ⟨rfl, rfl, rfl⟩ := (exec_pure _ _ _ _ _).mp h
      exact .stopped hfail (early_of_none _ (by simpa using hnone'))
    case isFalse hzero =>
      have hcalls₃ := hreports.mp (not_not.mp hzero)
      rw [exec_get_resource_map] at h
      obtain ⟨ret, map, t', rfl, h⟩ := h
      dsimp only at h
      split at h
      case isTrue hfail =>
        obtain ⟨rfl, rfl, rfl⟩ := (exec_pure _ _ _ _ _).mp h
        refine .stopped hfail ?_
        simpa using early_of_last _ ⟨.pci (.get_resource_map slot_id FPGA_MGMT_PF), (ret, map)⟩ hnone'
      case isFalse hmap =>
        obtain rfl : ret = 0 := not_not.mp hmap
        refine .finished (t₀ ++ (t₁ ++ t₂) ++ t₃)
          ⟨.pci (.get_resource_map slot_id FPGA_MGMT_PF), (0, map)⟩ t' out _ s₃ (by simp) trivial
          hnone' ?_ ?_ (not_not.mp hmetrics) h
        · have hcalls₀ := init_metrics_succeeds _ _ _ _ _ hinit
          refine failuresRetried_append _ _ ?_ fun e he => List.mem_singleton.mp he ▸ rfl
          refine failuresRetried_append _ _ ?_ hcalls₃
          exact failuresRetried_prepend t₀ _ hcalls₀ hretried
        · refine accepted_silent cmd _ t₃ out ?_ (exec_calls (get_sh_version_silent _) hversion)
          exact accepted_append cmd t₀ (t₁ ++ t₂) out haccepted

theorem after_resourceMap (t₁ t₂ u₁ u₂ : List HalApi.Event) (m e : HalApi.Event)
    (hbefore : ∀ e ∈ t₁, ¬ IsResourceMap e.1) (heq : t₁ ++ m :: t₂ = u₁ ++ e :: u₂)
    (hmem : ∃ e' ∈ u₁, IsResourceMap e'.1) : ∃ w, t₂ = w ++ e :: u₂ := by
  rcases List.append_eq_append_iff.mp heq with ⟨w, rfl, hw⟩ | ⟨w, rfl, hw⟩
  · cases w with
    | nil =>
      obtain ⟨e', he', hmap⟩ := hmem
      exact absurd hmap (hbefore e' (by simpa using he'))
    | cons x w =>
      obtain ⟨-, rfl⟩ := List.cons.inj hw
      exact ⟨w, rfl⟩
  · obtain ⟨e', he', hmap⟩ := hmem
    exact absurd hmap (hbefore e' (by simp [he']))

/-- The metrics in the buffer are those of the response that was accepted last. -/
theorem accepted_status (words : List (BitVec 32)) (rsp : AfiCmd)
    (hlen : fpga_mgmt_cmd_handle_metrics (4 * words.length) = 0) :
    (rsp.store words).metrics.status = (AfiCmd.ofWords words).metrics.status := by
  have hagree := AfiCmd.agreeOn_store rsp .zero words
  have hbody : (rsp.store words).body 18 = (AfiCmd.ofWords words).body 18 := by
    refine hagree.dword 22 ?_
    unfold fpga_mgmt_cmd_handle_metrics sizeof_afi_cmd_hdr sizeof_afi_cmd_metrics_rsp at hlen
    split at hlen
    · exact absurd hlen (by decide)
    · change 92 ≤ 4 * words.length
      omega
  unfold AfiCmd.metrics
  rw [hbody]

theorem silent_of_resourceMap (o : HalOp) (h : IsResourceMap o) : Silent o := by
  cases o with
  | pci o => trivial
  | _ => exact h.elim

theorem reload_part (slot : Fin FPGA_SLOT_MAX) (info : FpgaMgmtImageInfo) (status : Int)
    (s s' : FpgaMgmtState) (t : List HalApi.Event) (r : Int × FpgaMgmtImageInfo)
    (h : Exec (if status = FPGA_STATUS_LOADING_RL then fpga_mgmt_rl_reload slot info
      else pure (0, info)) s t r s') :
    r.1 = 0 ∧ (∀ e ∈ t, Plain e.1 ∧ Silent e.1) ∧
      ((∀ e ∈ t, Succeeded e) → status = FPGA_STATUS_LOADING_RL →
        ⟨.pci (.poke (s'.slots slot) FMB_REG_RL_RELOAD 1), (0 : Int)⟩ ∈ t ∧
          r.2.status = FPGA_STATUS_BUSY) := by
  split at h
  case isTrue hloading =>
    obtain ⟨hret, hdone⟩ := rl_reload_spec slot info s s' t r h
    refine ⟨hret, fun e he => ⟨?_, ?_⟩, fun hcalls _ => hdone hcalls⟩
    · exact exec_calls (rl_reload_plain slot info) h e he
    · exact exec_calls (rl_reload_silent slot info) h e he
  case isFalse hother =>
    obtain ⟨rfl, rfl, rfl⟩ := (exec_pure _ _ _ _ _).mp h
    exact ⟨rfl, by simp, fun _ hloading => absurd hloading hother⟩

/-- A describe that returns 0 keeps what it says, exactly when the calls of the reload succeed. -/
theorem fpga_mgmt_describe_cmd_sound_iff (slot_id : Int) (info : FpgaMgmtImageInfo)
    (flags : BitVec 32) (s s' : FpgaMgmtState) (t : List HalApi.Event)
    (r : Int × FpgaMgmtImageInfo) (h : Exec (fpga_mgmt_describe_cmd slot_id info flags) s t r s') :
    (r.1 = 0 → DescribeSound slot_id flags s s' t r.2) ↔ ReloadSucceeds t := by
  cases hslot : slotIndex slot_id with
  | none =>
    unfold fpga_mgmt_describe_cmd at h
    rw [hslot] at h
    obtain ⟨rfl, rfl, rfl⟩ := (exec_pure _ _ _ _ _).mp h
    refine iff_of_true (fun hret => absurd (show -EINVAL = 0 from hret) (by decide)) ?_
    intro t₁ e t₂ heq
    simp at heq
  | some slot =>
  obtain ⟨cmd, t₀, s₀, hinit, hpre, hparts⟩ := describe_cmd_parts _ _ hslot _ _ _ _ _ _ h
  cases hparts with
  | stopped code early =>
    refine iff_of_true (fun hret => absurd hret code) fun t₁ e t₂ heq ⟨e', he', hmap⟩ => ?_
    exact absurd hmap (early t₁ e t₂ heq e' he')
  | finished t₁ m t₂ out info₁ s₁ split map before retried accepted metrics rest =>
    obtain ⟨hret, hcalls, hdone⟩ := reload_part slot info₁ _ s₁ s' t₂ r rest
    have hsilent : ∀ e ∈ m :: t₂, Silent e.1 := by
      intro e he
      rcases List.mem_cons.mp he with rfl | he
      · exact silent_of_resourceMap _ map
      · exact (hcalls e he).2
    obtain ⟨words, rsp, hlast, hverdict, hrsp, hlen⟩ := accepted_silent cmd t₁ _ out accepted hsilent
    rw [← split] at hlast
    rw [hlen] at metrics
    constructor
    · -- A failure in the reload would have to be slept on, and nothing sleeps there.
      intro hsound u₁ e u₂ heq hmem
      obtain ⟨w, rfl⟩ := after_resourceMap t₁ t₂ u₁ u₂ m e before (split.symm.trans heq) hmem
      rcases (hsound hret).calls u₁ e u₂ heq with hok | ⟨e', he', hsleep⟩
      · exact hok
      · exact absurd hsleep (hcalls e' (by simp [he'])).1.1
    · intro hreload _
      have hok : ∀ e ∈ t₂, Succeeded e := by
        intro e he
        obtain ⟨w, w', rfl⟩ := List.append_of_mem he
        exact hreload (t₁ ++ m :: w) e w' (by simp [split]) ⟨m, by simp, map⟩
      refine ⟨?_, ⟨cmd, t₀, s₀, words, hinit, hpre, hlast, hverdict, metrics⟩, ?_⟩
      · have hjoin : t₁ ++ m :: t₂ = (t₁ ++ [m]) ++ t₂ := by simp
        rw [split, hjoin]
        exact failuresRetried_append _ _ retried hok
      · intro words' hlast' hloading
        obtain rfl := Option.some.inj (hlast.symm.trans hlast')
        rw [hrsp, accepted_status words rsp metrics] at hdone
        obtain ⟨hpoke, hbusy⟩ := hdone hok hloading
        exact ⟨⟨slot, hslot, split ▸ List.mem_append_right _ (List.mem_cons_of_mem _ hpoke)⟩, hbusy⟩

/-! ## A reload that fails -/

/-- The mailbox of `mailbox`, on a bus whose pokes answer `ret`. -/
def mailboxPoke (ret : Int) : Prog.Handler HalApi (List (List (BitVec 32))) := fun o pending =>
  match o with
  | .pci (.poke ..) => (ret, pending)
  | o => mailbox o pending

/-- Metrics of an image that waits for its reload, in answer to command 7. -/
def loadingMetrics : List (BitVec 32) :=
  [AFI_CMD_API_VERSION, AFI_CMD_METRICS, 0x1000248, 7] ++ List.replicate 18 0 ++
    [BitVec.ofInt 32 FPGA_STATUS_LOADING_RL] ++ List.replicate 127 0

def reloadRun (ret : Int) : Prog.Outcome HalApi (List (List (BitVec 32)))
    ((Int × FpgaMgmtImageInfo) × FpgaMgmtState) :=
  ((fpga_mgmt_describe_cmd 0 .zero 0).run attached).exec (mailboxPoke ret) [loadingMetrics]

theorem reload_run_exec (ret : Int) :
    Exec (fpga_mgmt_describe_cmd 0 .zero 0) attached (reloadRun ret).trace (reloadRun ret).result.1
      (reloadRun ret).result.2 :=
  Prog.exec_runs (mailboxPoke ret) _ [loadingMetrics]

theorem reload_run_sound_iff :
    ((reloadRun 0).result.1.1 = 0 → DescribeSound 0 0 attached (reloadRun 0).result.2
      (reloadRun 0).trace (reloadRun 0).result.1.2) ↔ ReloadSucceeds (reloadRun 0).trace :=
  fpga_mgmt_describe_cmd_sound_iff 0 .zero 0 attached _ _ _ (reload_run_exec 0)

set_option maxRecDepth 4096 in
/-- The poke of the reload fails, and the describe returns 0. -/
theorem reload_run_unsound :
    ¬ ∀ slot_id info flags s s' t r, Exec (fpga_mgmt_describe_cmd slot_id info flags) s t r s' →
      r.1 = 0 → DescribeSound slot_id flags s s' t r.2 := by
  intro h
  have hsound := h 0 .zero 0 attached _ _ _ (reload_run_exec (-EINVAL)) rfl
  have hbusy := (hsound.reload loadingMetrics rfl rfl).2
  exact absurd hbusy (by decide)

end AwsFpga.Mgmt
