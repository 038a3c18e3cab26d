import AwsFpga.Mbox.Write
import AwsFpga.Mgmt.Image
import AwsFpga.Mgmt.SendCmd

/-!
# What the attempts of one describe write

`*len` goes into an attempt as the length of the command, and comes out as the
length of the response. The next attempt writes that many bytes.
-/

open Lib AwsFpga.Pci AwsFpga.Mbox

namespace AwsFpga.Mgmt

/-! ## Calls that neither write nor read a message -/

def Silent : HalOp → Prop
  | .mbox_write .. => False
  | .mbox_read _ => False
  | _ => True

theorem responses_silent (t : List HalApi.Event) (h : ∀ e ∈ t, Silent e.1) : responses t = [] := by
  unfold responses
  rw [List.filterMap_eq_nil_iff]
  rintro ⟨o, r⟩ he
  have ho : Silent o := h _ he
  cases o with
  | mbox_read handle => exact absurd ho id
  | _ => rfl

theorem lenAfter_silent (len : Nat) (t : List HalApi.Event) (h : ∀ e ∈ t, Silent e.1) :
    lenAfter len t = len := by
  rw [lenAfter, responses_silent t h]
  rfl

/-- The calls that attach a mailbox. -/
def Attaches : HalOp → Prop
  | .pci (.attach ..) => True
  | .mbox_init _ => True
  | .mbox_attach .. => True
  | _ => False

theorem mbox_attach_calls (slot : Fin FPGA_SLOT_MAX) :
    Calls Attaches (fpga_mgmt_mbox_attach slot) := by
  unfold fpga_mgmt_mbox_attach
  refine calls_get_bind fun s => calls_ite ?_ (calls_op trivial)
  refine calls_bind (calls_op trivial) fun ⟨ret, handle⟩ => ?_
  refine calls_ite (calls_pure _ _) (calls_bind (calls_modify _ _) fun _ => ?_)
  exact calls_bind (calls_op trivial) fun _ => calls_ite (calls_pure _ _) (calls_op trivial)

theorem silent_of_attaches (o : HalOp) (h : Attaches o) : Silent o := by
  cases o with
  | mbox_write => exact h
  | mbox_read => exact h
  | _ => trivial

theorem mbox_attach_silent (slot : Fin FPGA_SLOT_MAX) :
    Calls Silent (fpga_mgmt_mbox_attach slot) :=
  calls_mono silent_of_attaches (mbox_attach_calls slot)

theorem get_sh_version_silent (slot_id : Int) : Calls Silent (fpga_mgmt_get_sh_version slot_id) := by
  unfold fpga_mgmt_get_sh_version
  split
  · exact calls_pure _ _
  · refine calls_bind (mbox_attach_silent _) fun ret => calls_ite (calls_pure _ _) ?_
    exact calls_get_bind fun s => calls_op trivial

theorem rl_reload_silent (slot : Fin FPGA_SLOT_MAX) (info : FpgaMgmtImageInfo) :
    Calls Silent (fpga_mgmt_rl_reload slot info) := by
  unfold fpga_mgmt_rl_reload
  refine calls_bind (mbox_attach_silent _) fun ret => calls_ite (calls_pure _ _) ?_
  refine calls_get_bind fun s => calls_bind (calls_op trivial) fun ret => ?_
  exact calls_ite (calls_pure _ _) (calls_pure _ _)

theorem init_metrics_silent (flags : BitVec 32) :
    Calls Silent (fpga_mgmt_cmd_init_metrics flags) := by
  unfold fpga_mgmt_cmd_init_metrics afi_get_next_id
  refine calls_bind (calls_get_bind fun s => calls_bind ?_ fun id => ?_) fun id => calls_pure _ _
  · exact calls_ite (calls_op trivial) (calls_pure _ _)
  · exact calls_bind (calls_modify _ _) fun _ => calls_pure _ _

theorem init_metrics_len (flags : BitVec 32) (s s' : FpgaMgmtState) (t : List HalApi.Event)
    (cmd : AfiCmd) (len : Nat) (h : Exec (fpga_mgmt_cmd_init_metrics flags) s t (cmd, len) s') :
    len = 20 := by
  unfold fpga_mgmt_cmd_init_metrics at h
  rw [exec_bind] at h
  obtain ⟨_, id, _, _, rfl, -, h⟩ := h
  obtain ⟨-, h, -⟩ := (exec_pure _ _ _ _ _).mp h
  exact (Prod.mk.inj h).2

/-! ## Tracking the length -/

/-- Every write puts out the dwords of `cmd`, at the length that the response before it left. -/
def Tracked (cmd : AfiCmd) (len : Nat) (t : List HalApi.Event) : Prop :=
  ∀ t₁ handle msg l r t₂, t = t₁ ++ ⟨.mbox_write handle msg l, r⟩ :: t₂ →
    msg = cmd.dwords ∧ l = lenAfter len t₁

theorem tracked_of_no_write (cmd : AfiCmd) (len : Nat) (t : List HalApi.Event)
    (h : ∀ e ∈ t, ∀ handle msg l, e.1 ≠ .mbox_write handle msg l) : Tracked cmd len t := by
  rintro t₁ handle msg l r t₂ rfl
  exact absurd rfl (h ⟨.mbox_write handle msg l, r⟩ (by simp) handle msg l)

theorem tracked_silent (cmd : AfiCmd) (len : Nat) (t : List HalApi.Event)
    (h : ∀ e ∈ t, Silent e.1) : Tracked cmd len t := by
  refine tracked_of_no_write cmd len t fun e he handle msg l heq => ?_
  have hs := h e he
  rw [heq] at hs
  exact hs

theorem tracked_append (cmd : AfiCmd) (len : Nat) (t₁ t₂ : List HalApi.Event)
    (h₁ : Tracked cmd len t₁) (h₂ : Tracked cmd (lenAfter len t₁) t₂) :
    Tracked cmd len (t₁ ++ t₂) := by
  intro u handle msg l r v h
  rcases List.append_eq_append_iff.mp h with ⟨w, rfl, hw⟩ | ⟨w, rfl, hw⟩
  · -- The write is in the second part.
    obtain ⟨hmsg, hl⟩ := h₂ w handle msg l r v hw
    exact ⟨hmsg, by rw [hl, lenAfter_append]⟩
  · cases w with
    | nil =>
      obtain ⟨hmsg, hl⟩ := h₂ [] handle msg l r v hw.symm
      exact ⟨hmsg, by simpa [lenAfter, responses] using hl⟩
    | cons e w =>
      obtain ⟨rfl, rfl⟩ := List.cons.inj hw
      exact h₁ u handle msg l r w rfl

/-! ## The attempts -/

theorem send_cmd_tracked (slot : Fin FPGA_SLOT_MAX) (cmd rsp : AfiCmd) (len : Nat)
    (s s' : FpgaMgmtState) (t : List HalApi.Event) (out : CmdOut)
    (h : Exec (fpga_mgmt_send_cmd slot cmd rsp len) s t out s') :
    Tracked cmd len t ∧ out.len = lenAfter len t := by
  obtain ⟨ret, t', rfl, -, hread, hlen⟩ := fpga_mgmt_send_cmd_spec slot cmd rsp len s s' t out h
  have hfirst : lenAfter len [⟨.mbox_write (s.slots slot) cmd.dwords len, ret⟩] = len := rfl
  constructor
  · refine tracked_append cmd len [_] t' ?_ ?_
    · intro t₁ handle msg l r t₂ heq
      cases t₁ with
      | nil =>
        obtain ⟨he, -⟩ := List.cons.inj heq
        cases he
        exact ⟨rfl, rfl⟩
      | cons e t₁ => simp at heq
    · refine tracked_of_no_write cmd _ t' fun e he handle msg l heq => ?_
      rw [hread e he] at heq
      exact absurd heq (by simp)
  · rw [hlen]
    exact ((lenAfter_append len [_] t').trans (by rw [hfirst])).symm

theorem process_cmd_tracked (slot_id : Int) (cmd rsp : AfiCmd) (len : Nat) (s s' : FpgaMgmtState)
    (t : List HalApi.Event) (out : CmdOut)
    (h : Exec (fpga_mgmt_process_cmd slot_id cmd rsp len) s t out s') :
    Tracked cmd len t ∧ out.len = lenAfter len t := by
  unfold fpga_mgmt_process_cmd at h
  split at h
  · obtain ⟨rfl, rfl, rfl⟩ := (exec_pure _ _ _ _ _).mp h
    exact ⟨tracked_silent _ _ _ (by simp), rfl⟩
  rw [exec_bind] at h
  obtain ⟨t₁, ret, s₁, t₂, rfl, hattach, h⟩ := h
  have hsilent := exec_calls (mbox_attach_silent _) hattach
  split at h
  · obtain ⟨rfl, rfl, rfl⟩ := (exec_pure _ _ _ _ _).mp h
    rw [List.append_nil]
    exact ⟨tracked_silent cmd len t₁ hsilent, (lenAfter_silent len t₁ hsilent).symm⟩
  · obtain ⟨htrack, hlen⟩ := send_cmd_tracked _ cmd rsp len s₁ s' t₂ out h
    have hlen₁ := lenAfter_silent len t₁ hsilent
    refine ⟨tracked_append cmd len t₁ t₂ (tracked_silent cmd len t₁ hsilent) ?_, ?_⟩
    · rwa [hlen₁]
    · rw [hlen, lenAfter_append, hlen₁]

theorem describe_cmd_retry_tracked (slot_id : Int) (cmd : AfiCmd) (retries : Nat) (out : CmdOut)
    (s s' : FpgaMgmtState) (t : List HalApi.Event) (out' : CmdOut)
    (h : Exec (fpga_mgmt_describe_cmd_retry slot_id cmd retries out) s t out' s') :
    Tracked cmd out.len t := by
  induction retries generalizing out s t with
  | zero =>
    obtain ⟨rfl, rfl, rfl⟩ := (exec_pure _ _ _ _ _).mp h
    exact tracked_silent _ _ _ (by simp)
  | succ retries ih =>
    unfold fpga_mgmt_describe_cmd_retry at h
    split at h
    · rw [exec_bind] at h
      obtain ⟨t₁, _, s₁, t₂, rfl, hsleep, h⟩ := h
      rw [exec_bind] at h
      obtain ⟨t₃, out₁, s₂, t₄, rfl, hcmd, h⟩ := h
      have hsilent := exec_calls (P := Silent) (calls_op trivial) hsleep
      have hlen₁ := lenAfter_silent out.len t₁ hsilent
      obtain ⟨htrack, hlen⟩ := process_cmd_tracked _ _ _ _ _ _ _ _ hcmd
      refine tracked_append cmd _ t₁ _ (tracked_silent _ _ _ hsilent) ?_
      rw [hlen₁]
      refine tracked_append cmd _ t₃ t₄ htrack ?_
      rw [← hlen]
      exact ih out₁ s₂ t₄ h
    · obtain ⟨rfl, rfl, rfl⟩ := (exec_pure _ _ _ _ _).mp h
      exact tracked_silent _ _ _ (by simp)

theorem describe_cmd_tracked (slot_id : Int) (info : FpgaMgmtImageInfo) (flags : BitVec 32)
    (s s' : FpgaMgmtState) (t : List HalApi.Event) (r : Int × FpgaMgmtImageInfo)
    (h : Exec (fpga_mgmt_describe_cmd slot_id info flags) s t r s') :
    t = [] ∨ ∃ cmd t₀ s₀, Exec (fpga_mgmt_cmd_init_metrics flags) s t₀ (cmd, 20) s₀ ∧ t₀ <+: t ∧
      Tracked cmd 20 t := by
  unfold fpga_mgmt_describe_cmd at h
  split at h
  · exact Or.inl ((exec_pure _ _ _ _ _).mp h).1
  right
  rw [exec_bind] at h
  obtain ⟨t₀, ⟨cmd, len⟩, s₀, t₁, rfl, hinit, h⟩ := h
  obtain rfl := init_metrics_len flags s s₀ t₀ cmd len hinit
  refine ⟨cmd, t₀, s₀, hinit, List.prefix_append _ _, ?_⟩
  have hsilent := exec_calls (init_metrics_silent flags) hinit
  refine tracked_append cmd 20 t₀ t₁ (tracked_silent _ _ _ hsilent) ?_
  rw [lenAfter_silent 20 t₀ hsilent]
  dsimp only at h
  rw [exec_bind] at h
  obtain ⟨t₂, out, s₁, t₃, rfl, hcmd, h⟩ := h
  obtain ⟨htrack, hlen⟩ := process_cmd_tracked _ _ _ _ _ _ _ _ hcmd
  refine tracked_append cmd 20 t₂ t₃ htrack ?_
  rw [← hlen, exec_bind] at *
  obtain ⟨t₄, out', s₂, t₅, rfl, hretry, h⟩ := h
  refine tracked_append cmd _ t₄ t₅ (describe_cmd_retry_tracked _ _ _ _ _ _ _ _ hretry) ?_
  refine tracked_silent _ _ _ (exec_calls (P := Silent) ?_ h)
  refine calls_ite (calls_pure _ _) (calls_ite (calls_pure _ _) ?_)
  refine calls_bind (get_sh_version_silent _) fun ⟨ret, sh_version⟩ => ?_
  refine calls_ite (calls_pure _ _) (calls_bind (calls_op trivial) fun ⟨ret, map⟩ => ?_)
  exact calls_ite (calls_pure _ _) (calls_ite (rl_reload_silent _ _) (calls_pure _ _))

/-! ## The command on the mailbox -/

/-- Every write puts out the same registers: those of the command that was built. -/
def WritesCommand (flags : BitVec 32) (s : FpgaMgmtState) (t : List HalApi.Event) : Prop :=
  ∃ cmd, ∀ handle msg len r, ⟨.mbox_write handle msg len, r⟩ ∈ t →
    (∃ t₀ s₀, Exec (fpga_mgmt_cmd_init_metrics flags) s t₀ (cmd, 20) s₀ ∧ t₀ <+: t) ∧
      messagePokes msg len = messagePokes cmd.dwords 20

/-- Before each write, the response received last, if any, was as long as the command. -/
def ResponsesFit (t : List HalApi.Event) : Prop :=
  ∀ t₁ handle msg len r t₂ words, t = t₁ ++ ⟨.mbox_write handle msg len, r⟩ :: t₂ →
    (responses t₁).getLast? = some words → words.length = 5

theorem len_of_messagePokes_eq (cmd cmd' : AfiCmd) (len : Nat) (hmod : len % 4 = 0)
    (h : messagePokes cmd.dwords len = messagePokes cmd'.dwords 20) : len = 20 := by
  have hlen := congrArg List.length h
  simp only [messagePokes, AfiCmd.dwords, List.length_append, List.length_cons, List.length_map,
    List.length_take, List.length_ofFn, List.length_nil] at hlen
  omega

theorem writesCommand_iff (flags : BitVec 32) (s s₀ : FpgaMgmtState) (t t₀ : List HalApi.Event)
    (cmd : AfiCmd) (hinit : Exec (fpga_mgmt_cmd_init_metrics flags) s t₀ (cmd, 20) s₀)
    (hpre : t₀ <+: t) (htrack : Tracked cmd 20 t) : WritesCommand flags s t ↔ ResponsesFit t := by
  constructor
  · rintro ⟨cmd', hwrites⟩ t₁ handle msg len r t₂ words heq hlast
    obtain ⟨hmsg, hl⟩ := htrack t₁ handle msg len r t₂ heq
    have hlen : lenAfter 20 t₁ = 4 * words.length := by rw [lenAfter, hlast]
    obtain ⟨-, hpokes⟩ := hwrites handle msg len r (by rw [heq]; simp)
    rw [hmsg] at hpokes
    have := len_of_messagePokes_eq cmd cmd' len (by omega) hpokes
    omega
  · intro hfit
    refine ⟨cmd, fun handle msg len r hmem => ⟨⟨t₀, s₀, hinit, hpre⟩, ?_⟩⟩
    obtain ⟨t₁, t₂, heq⟩ := List.append_of_mem hmem
    obtain ⟨hmsg, hl⟩ := htrack t₁ handle msg len r t₂ heq
    have hlen : lenAfter 20 t₁ = 20 := by
      unfold lenAfter
      split
      · rfl
      · rename_i words hlast
        rw [hfit t₁ handle msg len r t₂ words heq hlast]
    rw [hmsg, hl, hlen]

/-- The attempts of one describe all put the built command on the mailbox, exactly when no
response before an attempt had another length. The driver puts out what it is given. -/
theorem fpga_mgmt_describe_cmd_writes_iff (slot_id : Int) (info : FpgaMgmtImageInfo)
    (flags : BitVec 32) (s s' : FpgaMgmtState) (t : List HalApi.Event)
    (r : Int × FpgaMgmtImageInfo) (h : Exec (fpga_mgmt_describe_cmd slot_id info flags) s t r s') :
    (∀ mbox handle msg len tp ret, (fpga_hal_mbox_write mbox handle msg len).Runs tp ret →
      wrPokes tp <+: messagePokes msg len ∧ (ret = 0 → wrPokes tp = messagePokes msg len)) ∧
    (WritesCommand flags s t ↔ ResponsesFit t) := by
  refine ⟨fpga_hal_mbox_write_pokes, ?_⟩
  rcases describe_cmd_tracked slot_id info flags s s' t r h with
    rfl | ⟨cmd, t₀, s₀, hinit, hpre, htrack⟩
  · refine ⟨fun _ t₁ _ _ _ _ t₂ _ heq => ?_, fun _ => ⟨.zero, fun _ _ _ _ hmem => ?_⟩⟩
    · simp at heq
    · simp at hmem
  · exact writesCommand_iff flags s s₀ t t₀ cmd hinit hpre htrack

/-! ## A malformed response before a retry -/

/-- Slot 0 is attached, and the next command has id 7. -/
def attached : FpgaMgmtState :=
  { FpgaMgmtState.start with initialized := true, slots := fun _ => 5, next_id := 7 }

/-- First four dwords of another protocol version, then an error response to the command. -/
def malformedThenError : List (List (BitVec 32)) :=
  [[1, AFI_CMD_METRICS, 0x1000000, 7],
    [AFI_CMD_API_VERSION, AFI_CMD_ERROR, 0x1000004, 7, BitVec.ofInt 32 FPGA_ERR_FAIL]]

def retryRun : Prog.Outcome HalApi (List (List (BitVec 32)))
    ((Int × FpgaMgmtImageInfo) × FpgaMgmtState) :=
  ((fpga_mgmt_describe_cmd 0 .zero 0).run attached).exec mailbox malformedThenError

theorem retry_run_exec :
    Exec (fpga_mgmt_describe_cmd 0 .zero 0) attached retryRun.trace retryRun.result.1
      retryRun.result.2 :=
  Prog.exec_runs mailbox _ malformedThenError

theorem retry_run_writes_iff :
    (∀ mbox handle msg len tp ret, (fpga_hal_mbox_write mbox handle msg len).Runs tp ret →
      wrPokes tp <+: messagePokes msg len ∧ (ret = 0 → wrPokes tp = messagePokes msg len)) ∧
    (WritesCommand 0 attached retryRun.trace ↔ ResponsesFit retryRun.trace) :=
  fpga_mgmt_describe_cmd_writes_iff 0 .zero 0 attached _ _ _ retry_run_exec

/-- The second attempt writes the 16 bytes of the response, not the 20 of the command. -/
theorem retry_run_short_write :
    ¬ ∀ slot_id info flags s s' t r,
      Exec (fpga_mgmt_describe_cmd slot_id info flags) s t r s' → WritesCommand flags s t := by
  intro h
  obtain ⟨cmd, hwrites⟩ := h 0 .zero 0 attached _ _ _ retry_run_exec
  have hmem : ∃ msg, (⟨.mbox_write 5 msg 16, (0 : Int)⟩ : HalApi.Event) ∈ retryRun.trace :=
    ⟨_, List.mem_of_getElem? (i := 5) rfl⟩
  obtain ⟨msg, hmem⟩ := hmem
  obtain ⟨-, hpokes⟩ := hwrites _ _ _ _ hmem
  have hlen := congrArg List.length hpokes
  simp only [messagePokes, AfiCmd.dwords, List.length_append, List.length_cons, List.length_map,
    List.length_take, List.length_ofFn, List.length_nil] at hlen
  omega

end AwsFpga.Mgmt
