import AwsFpga.Lib.Owned
import AwsFpga.Mgmt.Image
import AwsFpga.Sde.HwCtrl
import AwsFpga.System.Table

/-!
# Who holds the entries of the BAR table

Owners are the mailbox handles of the slots and the handles of initialised SDE
controls. The exits that leave an entry without an owner are the conditions of
`NoLeak`. In a run without them the allocated entries are the recorded ones.
-/

open Lib AwsFpga.Pci AwsFpga.Bars AwsFpga.Mbox AwsFpga.Mgmt AwsFpga.Sde

namespace AwsFpga.System

/-! ## One attach, one detach -/

section Calls

variable {ι : Type} [DecidableEq ι] {record : ι → Option Entry} {o : ι} {A A' : Set Entry}

theorem owned_attach {slot_id pf_id bar_id : Int} {flags : BitVec 32} {handle : Int}
    (h : Owned A record) (ho : record o = none)
    (he : Effect ⟨.attach slot_id pf_id bar_id flags, ((0 : Int), handle)⟩ A A') :
    Owned A' (Function.update record o (fpga_pci_bar_get handle)) := by
  cases he with
  | attached hget hfree =>
    rw [hget]
    exact h.take ho hfree
  | refused hret =>
    have hget : fpga_pci_bar_get handle = none := hret.resolve_left fun h0 => h0 rfl
    rw [hget, ← ho, Function.update_eq_self]
    exact h
  | other hkeep => exact hkeep.elim

/-- If the handle names an entry, the call succeeded. -/
def Worked (handle ret : Int) : Prop := (fpga_pci_bar_get handle).isSome → ret = 0

/-- No detach of an entry fails. -/
def Released : PciApi.Event → Prop
  | ⟨.detach handle, ret⟩ => Worked handle ret
  | _ => True

theorem owned_detach {handle ret : Int} (h : Owned A record)
    (ho : record o = fpga_pci_bar_get handle) (he : Effect ⟨.detach handle, (ret : Int)⟩ A A')
    (hrel : Worked handle ret) :
    Owned A' (Function.update record o none) := by
  cases he with
  | detached hget => exact h.give (ho.trans hget)
  | kept hret =>
    have hnone : record o = none := by
      rw [ho, ← Option.not_isSome_iff_eq_none]
      exact fun hsome => hret (hrel hsome)
    rw [← hnone, Function.update_eq_self]
    exact h
  | other hkeep => exact hkeep.elim

theorem attach_failed_keeps {slot_id pf_id bar_id : Int} {flags : BitVec 32} {ret handle : Int}
    (hret : ret ≠ 0) (he : Effect ⟨.attach slot_id pf_id bar_id flags, (ret, handle)⟩ A A') :
    A' = A := by
  cases he with
  | attached => exact absurd rfl hret
  | refused => rfl
  | other => rfl

end Calls

/-! ## The records -/

/-- Before `fpga_mgmt_init` ran, the handles of the slots are zeros that mean nothing. -/
def slotRecord (inited : Bool) (slots : Fin FPGA_SLOT_MAX → Int) (i : Fin FPGA_SLOT_MAX) :
    Option Entry :=
  if inited then fpga_pci_bar_get (slots i) else none

/-- The records of the library and those of all others. -/
def allRecords (inited : Bool) (slots : Fin FPGA_SLOT_MAX → Int)
    (rest : Nat × Fin 3 → Option Entry) : Fin FPGA_SLOT_MAX ⊕ Nat × Fin 3 → Option Entry :=
  Sum.elim (slotRecord inited slots) rest

theorem allRecords_set (slots : Fin FPGA_SLOT_MAX → Int) (rest : Nat × Fin 3 → Option Entry)
    (slot : Fin FPGA_SLOT_MAX) (handle : Int) :
    allRecords true (Function.update slots slot handle) rest =
      Function.update (allRecords true slots rest) (.inl slot) (fpga_pci_bar_get handle) := by
  funext o
  rcases o with i | ck
  · by_cases hi : i = slot
    · rw [hi, Function.update_self]
      simp [allRecords, slotRecord]
    · rw [Function.update_of_ne (fun h => hi (Sum.inl.inj h))]
      simp [allRecords, slotRecord, hi]
  · rw [Function.update_of_ne (by simp)]
    rfl

/-! ## The management library -/

/-- What holds of the library and the table between calls. -/
structure MgmtInv (inited : Bool) (rest : Nat × Fin 3 → Option Entry) (s : FpgaMgmtState)
    (A : Set Entry) : Prop where
  owned : Owned A (allRecords inited s.slots rest)
  fresh : inited = false → (∀ i, s.slots i = 0) ∧ s.initialized = false

variable {P : PciApi.Event → Prop} {inited : Bool} {rest : Nat × Fin 3 → Option Entry}

abbrev Keeps {α : Type} (P : PciApi.Event → Prop) (inited : Bool)
    (rest : Nat × Fin 3 → Option Entry) (m : MgmtM α) : Prop :=
  Preserves (HalEffect P) (MgmtInv inited rest) m

theorem pci_keeps (o : PciOp) (ho : KeepsTable o) : Keeps P inited rest (pci o) :=
  preserves_op fun _ _ _ he => effect_keeps ho he.1

theorem mbox_attach_preserves (slot : Fin FPGA_SLOT_MAX) :
    Keeps P inited rest (fpga_mgmt_mbox_attach slot) := by
  intro s t ret s' A A' h ht hinv
  unfold fpga_mgmt_mbox_attach at h
  rw [exec_get_bind] at h
  split at h
  case isFalse hslot =>
    have hkeep : Keeps P inited rest (Hal.mbox_attach (s.slots slot) true) :=
      preserves_op fun _ _ _ he => he
    exact hkeep _ _ _ _ _ _ h ht hinv
  case isTrue hslot =>
    cases inited with
    | false =>
      have := (hinv.fresh rfl).1 slot
      rw [hslot] at this
      cases this
    | true =>
      obtain ⟨⟨ret, handle⟩, t', rfl, hk⟩ := (exec_hal_bind _ _).mp h
      obtain ⟨B, ⟨he, -⟩, ht'⟩ := trace_cons.mp ht
      dsimp only at hk
      split at hk
      case isTrue hret =>
        obtain ⟨rfl, -, rfl⟩ := (exec_pure _ _ _ _ _).mp hk
        rw [trace_nil.mp ht', attach_failed_keeps hret he]
        exact hinv
      case isFalse hret =>
        obtain rfl : ret = 0 := not_not.mp hret
        simp only [set_handle, exec_modify_bind] at hk
        have hnone : allRecords true s.slots rest (.inl slot) = none := by
          simp [allRecords, slotRecord, hslot, fpga_pci_bar_get_init]
        have howned : MgmtInv true rest { s with slots := Function.update s.slots slot handle } B :=
          ⟨by rw [allRecords_set]; exact owned_attach hinv.owned hnone he, fun h => by cases h⟩
        have hkeep : Keeps P true rest (do
            let ret ← Hal.mbox_init { timeout := s.timeout, delay_msec := s.delay_msec }
            if ret ≠ 0 then return ret else Hal.mbox_attach handle true) :=
          preserves_bind (preserves_op fun _ _ _ he => he) fun (ret : Int) =>
            preserves_ite (preserves_pure _) (preserves_op fun _ _ _ he => he)
        exact hkeep _ _ _ _ _ _ hk ht' howned

theorem mbox_detach_preserves (hP : ∀ e, P e → Released e) (slot : Fin FPGA_SLOT_MAX) :
    Keeps P true rest (fpga_mgmt_mbox_detach slot) := by
  intro s t ret s' A A' h ht hinv
  unfold fpga_mgmt_mbox_detach at h
  rw [exec_get_bind] at h
  split at h
  case isFalse hslot => exact preserves_pure _ _ _ _ _ _ _ h ht hinv
  case isTrue hslot =>
    obtain ⟨_, t₁, rfl, h₁⟩ := (exec_hal_bind _ _).mp h
    obtain ⟨_, t₂, rfl, h₂⟩ := (exec_hal_bind _ _).mp h₁
    obtain ⟨B, hB, ht₁⟩ := trace_cons.mp ht
    obtain rfl : B = A := hB
    obtain ⟨C, ⟨he, hrel⟩, ht₂⟩ := trace_cons.mp ht₁
    simp only [set_handle, exec_modify_bind, exec_pure] at h₂
    obtain ⟨rfl, -, rfl⟩ := h₂
    rw [trace_nil.mp ht₂]
    refine ⟨?_, fun h => by cases h⟩
    rw [allRecords_set, fpga_pci_bar_get_init]
    refine owned_detach hinv.owned ?_ he (hP _ hrel)
    simp [allRecords, slotRecord]

/-! ## The commands -/

theorem next_id_keeps : Keeps P inited rest afi_get_next_id := by
  unfold afi_get_next_id
  refine preserves_get_bind fun s => preserves_bind ?_ fun id => preserves_bind ?_ fun _ => ?_
  · exact preserves_ite (pci_keeps .rand trivial) (preserves_pure _)
  · exact preserves_modify fun s A hinv => ⟨hinv.owned, hinv.fresh⟩
  · exact preserves_pure _

theorem send_cmd_loop_keeps (handle : Int) (cmd : AfiCmd) (retries : Nat) (rsp : AfiCmd)
    (len : Nat) : Keeps P inited rest (fpga_mgmt_send_cmd_loop handle cmd retries rsp len) := by
  induction retries generalizing rsp len with
  | zero =>
    unfold fpga_mgmt_send_cmd_loop
    refine preserves_bind (preserves_op fun _ _ _ he => he) fun ((ret : Int), words) => ?_
    exact preserves_ite (preserves_pure _)
      (preserves_ite (preserves_pure _) (preserves_ite (preserves_pure _) (preserves_pure _)))
  | succ retries ih =>
    unfold fpga_mgmt_send_cmd_loop
    refine preserves_bind (preserves_op fun _ _ _ he => he) fun ((ret : Int), words) => ?_
    exact preserves_ite (preserves_pure _)
      (preserves_ite (preserves_pure _) (preserves_ite (preserves_pure _) (ih _ _)))

theorem process_cmd_keeps (slot_id : Int) (cmd rsp : AfiCmd) (len : Nat) :
    Keeps P inited rest (fpga_mgmt_process_cmd slot_id cmd rsp len) := by
  unfold fpga_mgmt_process_cmd
  split
  · exact preserves_pure _
  · refine preserves_bind (mbox_attach_preserves _) fun (ret : Int) => ?_
    refine preserves_ite (preserves_pure _) (preserves_get_bind fun s => ?_)
    refine preserves_bind (preserves_op fun _ _ _ he => he) fun (ret : Int) => ?_
    exact preserves_ite (preserves_pure _) (send_cmd_loop_keeps _ _ _ _ _)

theorem describe_cmd_retry_keeps (slot_id : Int) (cmd : AfiCmd) (retries : Nat) (out : CmdOut) :
    Keeps P inited rest (fpga_mgmt_describe_cmd_retry slot_id cmd retries out) := by
  induction retries generalizing out with
  | zero => exact preserves_pure _
  | succ retries ih =>
    refine preserves_ite ?_ (preserves_pure _)
    refine preserves_bind (pci_keeps (.msleep _) trivial) fun _ => ?_
    exact preserves_bind (process_cmd_keeps _ _ _ _) fun out => ih out

theorem get_sh_version_keeps (slot_id : Int) :
    Keeps P inited rest (fpga_mgmt_get_sh_version slot_id) := by
  unfold fpga_mgmt_get_sh_version
  split
  · exact preserves_pure _
  · refine preserves_bind (mbox_attach_preserves _) fun (ret : Int) => ?_
    refine preserves_ite (preserves_pure _) (preserves_get_bind fun s => ?_)
    exact preserves_op fun _ _ _ he => he

theorem rl_reload_keeps (slot : Fin FPGA_SLOT_MAX) (info : FpgaMgmtImageInfo) :
    Keeps P inited rest (fpga_mgmt_rl_reload slot info) := by
  refine preserves_bind (mbox_attach_preserves _) fun (ret : Int) => ?_
  refine preserves_ite (preserves_pure _) (preserves_get_bind fun s => ?_)
  refine preserves_bind (pci_keeps (.poke ..) trivial) fun (ret : Int) => ?_
  exact preserves_ite (preserves_pure _) (preserves_pure _)

theorem describe_cmd_keeps (slot_id : Int) (info : FpgaMgmtImageInfo) (flags : BitVec 32) :
    Keeps P inited rest (fpga_mgmt_describe_cmd slot_id info flags) := by
  unfold fpga_mgmt_describe_cmd
  split
  · exact preserves_pure _
  · refine preserves_bind (preserves_bind next_id_keeps fun id => preserves_pure _) fun (cmd, len) => ?_
    refine preserves_bind (process_cmd_keeps _ _ _ _) fun out => ?_
    refine preserves_bind (describe_cmd_retry_keeps _ _ _ _) fun out => ?_
    refine preserves_ite (preserves_pure _) (preserves_ite (preserves_pure _) ?_)
    refine preserves_bind (get_sh_version_keeps _) fun ((ret : Int), sh_version) => ?_
    refine preserves_ite (preserves_pure _) ?_
    refine preserves_bind (pci_keeps (.get_resource_map ..) trivial) fun ((ret : Int), _) => ?_
    refine preserves_ite (preserves_pure _) ?_
    exact preserves_ite (rl_reload_keeps _ _) (preserves_pure _)

theorem describe_keeps (slot_id : Int) (info : FpgaMgmtImageInfo) (flags : BitVec 32) :
    Keeps P inited rest (fpga_mgmt_describe_local_image slot_id info flags) := by
  refine preserves_get_bind fun s => preserves_ite (preserves_pure _) ?_
  refine preserves_ite (preserves_pure _) ?_
  refine preserves_bind (describe_cmd_keeps _ _ _) fun ((ret : Int), info) => ?_
  refine preserves_ite (preserves_pure _) ?_
  exact preserves_bind (pci_keeps (.get_slot_spec _) trivial) fun _ => preserves_pure _

theorem load_keeps (opt : LoadLocalImageOptions) :
    Keeps P inited rest (fpga_mgmt_load_local_image_with_options opt) := by
  refine preserves_get_bind fun s => preserves_ite (preserves_pure _) ?_
  refine preserves_ite (preserves_pure _) ?_
  split
  · exact preserves_pure _
  · refine preserves_bind (preserves_bind next_id_keeps fun id => preserves_pure _) fun (cmd, len) => ?_
    exact preserves_bind (process_cmd_keeps _ _ _ _) fun out => preserves_pure _

theorem clear_keeps (slot_id : Int) :
    Keeps P inited rest (fpga_mgmt_clear_local_image slot_id) := by
  refine preserves_get_bind fun s => preserves_ite (preserves_pure _) ?_
  split
  · exact preserves_pure _
  · refine preserves_bind (preserves_bind next_id_keeps fun id => preserves_pure _) fun (cmd, len) => ?_
    exact preserves_bind (process_cmd_keeps _ _ _ _) fun out => preserves_pure _

/-! ## Opening and closing -/

theorem close_slots_keeps (hP : ∀ e, P e → Released e) (slots : List (Fin FPGA_SLOT_MAX)) :
    Keeps P true rest (close_slots slots) := by
  induction slots with
  | nil => exact preserves_pure _
  | cons slot slots ih => exact preserves_bind (mbox_detach_preserves hP slot) fun _ => ih

theorem close_keeps (hP : ∀ e, P e → Released e) : Keeps P inited rest fpga_mgmt_close := by
  intro s t ret s' A A' h ht hinv
  unfold fpga_mgmt_close at h
  rw [exec_get_bind] at h
  split at h
  case isTrue hclosed => exact preserves_pure _ _ _ _ _ _ _ h ht hinv
  case isFalse hopen =>
    cases inited with
    | false => exact absurd (hinv.fresh rfl).2 (by simpa using hopen)
    | true =>
      rw [exec_modify_bind] at h
      have hslots : Keeps P true rest (close_slots (List.finRange _)) := close_slots_keeps hP _
      have hloop := preserves_bind hslots fun _ => preserves_pure (0 : Int)
      exact hloop _ _ _ _ _ _ h ht ⟨hinv.owned, fun h => by cases h⟩

/-- A second `fpga_mgmt_init` forgets the handles: harmless when none of them names an entry. -/
theorem init_keeps {s s' : FpgaMgmtState} {th : List HalApi.Event} {ret : Int} {A A' : Set Entry}
    (h : Exec fpga_mgmt_init s th ret s') (ht : Trace (HalEffect P) th A A')
    (hinv : MgmtInv inited rest s A) (hnone : ∀ i, slotRecord inited s.slots i = none) :
    MgmtInv true rest s' A' := by
  unfold fpga_mgmt_init at h
  rw [exec_modify_bind] at h
  have hkeep : Keeps P true rest Hal.pci_init := pci_keeps .init trivial
  refine hkeep _ _ _ _ _ _ h ht ⟨?_, fun h => by cases h⟩
  have hsame : allRecords true (fun _ => PCI_BAR_HANDLE_INIT) rest =
      allRecords inited s.slots rest := by
    funext o
    rcases o with i | ck
    · exact (hnone i).symm
    · rfl
  rw [hsame]
  exact hinv.owned

/-! ## Virtual LEDs and DIPs -/

/-- No access to a register of an attached BAR fails. -/
def Accessed : PciApi.Event → Prop
  | ⟨.peek handle _, (ret, _)⟩ => Worked handle ret
  | ⟨.poke handle _ _, ret⟩ => Worked handle ret
  | _ => True

/-- One access through the BAR that it is given: it fails only when the call below does. -/
def OneAccess {α : Type} (access : Int → MgmtM (Int × α)) : Prop :=
  ∀ pci_bar s th r s', Exec (access pci_bar) s th r s' → s' = s ∧
    ∃ o ans, th = [⟨.pci o, ans⟩] ∧ KeepsTable o ∧ (Accessed ⟨o, ans⟩ → Worked pci_bar r.1)

theorem peek_low_access (offset : BitVec 64) (value : BitVec 16) :
    OneAccess (peek_low offset value) := by
  intro pci_bar s th r s' h
  unfold peek_low at h
  obtain ⟨⟨ret, read_data⟩, t', rfl, hk⟩ := (exec_hal_bind _ _).mp h
  dsimp only at hk
  split at hk
  · obtain ⟨rfl, rfl, rfl⟩ := (exec_pure _ _ _ _ _).mp hk
    exact ⟨rfl, .peek pci_bar offset, (ret, read_data), rfl, trivial, id⟩
  · obtain ⟨rfl, rfl, rfl⟩ := (exec_pure _ _ _ _ _).mp hk
    exact ⟨rfl, .peek pci_bar offset, (ret, read_data), rfl, trivial, fun _ _ => rfl⟩

theorem poke_access (offset : BitVec 64) (value : BitVec 32) :
    OneAccess fun pci_bar => do
      let ret ← Hal.pci_poke pci_bar offset value
      return (ret, ()) := by
  intro pci_bar s th r s' h
  obtain ⟨ret, t', rfl, hk⟩ := (exec_hal_bind _ _).mp h
  obtain ⟨rfl, rfl, rfl⟩ := (exec_pure _ _ _ _ _).mp hk
  exact ⟨rfl, .poke pci_bar offset value, ret, rfl, trivial, id⟩

theorem virtual_access_frame {α : Type} {slot_id : Int} {value : α}
    {access : Int → MgmtM (Int × α)} (haccess : OneAccess access) {s s' : FpgaMgmtState}
    {th : List HalApi.Event} {r : Int × α} {A A' : Set Entry}
    (h : Exec (virtual_access slot_id value access) s th r s')
    (ht : Trace (HalEffect fun e => Released e ∧ Accessed e) th A A') : s' = s ∧ A' = A := by
  unfold virtual_access at h
  obtain ⟨⟨ret, handle⟩, t₁, rfl, h₁⟩ := (exec_hal_bind _ _).mp h
  obtain ⟨B, ⟨hatt, -⟩, ht₁⟩ := trace_cons.mp ht
  dsimp only at h₁
  split at h₁
  case isTrue hret =>
    obtain ⟨rfl, -, rfl⟩ := (exec_pure _ _ _ _ _).mp h₁
    rw [trace_nil.mp ht₁, attach_failed_keeps hret hatt]
    exact ⟨rfl, rfl⟩
  case isFalse hret =>
    obtain rfl : ret = 0 := not_not.mp hret
    obtain ⟨t₂, r₂, s₂, t₃, rfl, hacc, h₂⟩ := (exec_bind _ _ _ _ _ _).mp h₁
    obtain ⟨rfl, o, ans, rfl, ho, hworked⟩ := haccess _ _ _ _ _ hacc
    obtain ⟨C, ⟨hop, -, hok⟩, ht₂⟩ := trace_cons.mp ht₁
    obtain rfl : C = B := effect_keeps ho hop
    split at h₂
    case isTrue hfail =>
      obtain ⟨rfl, -, rfl⟩ := (exec_pure _ _ _ _ _).mp h₂
      rw [trace_nil.mp ht₂]
      refine ⟨rfl, ?_⟩
      cases hatt with
      | attached hget hfree => exact absurd (hworked hok (by rw [hget]; rfl)) hfail
      | refused => rfl
      | other => rfl
    case isFalse hdone =>
      obtain ⟨ret₃, t₄, rfl, h₃⟩ := (exec_hal_bind _ _).mp h₂
      obtain ⟨rfl, -, rfl⟩ := (exec_pure _ _ _ _ _).mp h₃
      obtain ⟨D, ⟨hdet, hrel, -⟩, ht₃⟩ := trace_cons.mp ht₂
      rw [trace_nil.mp ht₃]
      refine ⟨rfl, ?_⟩
      cases hatt with
      | @attached _ _ _ _ _ i _ hget hfree =>
        cases hdet with
        | @detached _ j _ hget' =>
          obtain rfl : i = j := Option.some.inj (hget.symm.trans hget')
          exact Set.insert_sdiff_self_of_notMem hfree
        | kept hret => exact absurd (hrel (by rw [hget]; rfl)) hret
        | other ho => exact ho.elim
      | refused hnone =>
        have hget : fpga_pci_bar_get handle = none := hnone.resolve_left fun h0 => h0 rfl
        cases hdet with
        | detached hget' =>
          rw [hget] at hget'
          cases hget'
        | kept => rfl
        | other => rfl
      | other ho => exact ho.elim

/-! ## SDE controls -/

/-- The handles of `struct sde_hw_ctrl`. -/
def ctrlHandle (ctrl : SdeHwCtrl) : Fin 3 → Int
  | 0 => ctrl.bar0_handle
  | 1 => ctrl.bar4_handle
  | 2 => ctrl.bar4_wc_handle

def ctrlRecord (ctrl : SdeHwCtrl) (k : Fin 3) : Option Entry :=
  if ctrl.initialized then fpga_pci_bar_get (ctrlHandle ctrl k) else none

def ctrlRecords (ctrls : Nat → SdeHwCtrl) : Nat × Fin 3 → Option Entry :=
  fun ck => ctrlRecord (ctrls ck.1) ck.2

/-- An attach that answers 0 with a handle that names an entry took it. -/
def Took (ret handle : Int) : Prop := ret = 0 ∧ (fpga_pci_bar_get handle).isSome

def Refused : PciApi.Event → Prop
  | ⟨.attach .., (ret, _)⟩ => ret ≠ 0
  | _ => False

def TakesNone : PciApi.Event → Prop
  | ⟨.attach .., (ret, handle)⟩ => ¬ Took ret handle
  | _ => True

theorem takesNone_keeps {e : PciApi.Event} {A A' : Set Entry} (hnone : TakesNone e)
    (he : Effect e A A') (hdet : ∀ handle, e.1 ≠ .detach handle) : A' = A := by
  cases he with
  | attached hget hfree => exact absurd ⟨rfl, by rw [hget]; rfl⟩ hnone
  | refused => rfl
  | detached => exact absurd rfl (hdet _)
  | kept => rfl
  | other => rfl

section Ctrl

variable {ctrls : Nat → SdeHwCtrl} {ctrl : SdeHwCtrl} {c : Nat}
  {first : Fin FPGA_SLOT_MAX → Option Entry} {tp : List PciApi.Event} {A A' : Set Entry}
  {ret slot_id : Int}

instance ctrl_neZero : NeZero 3 := ⟨by decide⟩

/-- The three records of one control, written one after another. -/
def setRecords (record : Fin FPGA_SLOT_MAX ⊕ Nat × Fin 3 → Option Entry) (c : Nat)
    (e : Fin 3 → Option Entry) : Fin FPGA_SLOT_MAX ⊕ Nat × Fin 3 → Option Entry :=
  Function.update (Function.update (Function.update record (.inr (c, 0)) (e 0)) (.inr (c, 1)) (e 1))
    (.inr (c, 2)) (e 2)

theorem update_handle (record : Fin FPGA_SLOT_MAX ⊕ Nat × Fin 3 → Option Entry)
    (e : Option Entry) {k k' : Fin 3} (hk : k' ≠ k) :
    Function.update record (.inr (c, k)) e (.inr (c, k')) = record (.inr (c, k')) :=
  Function.update_of_ne (fun h => hk (Prod.mk.inj (Sum.inr.inj h)).2) ..

theorem setRecords_self (record : Fin FPGA_SLOT_MAX ⊕ Nat × Fin 3 → Option Entry)
    (e : Fin 3 → Option Entry) (k : Fin 3) : setRecords record c e (.inr (c, k)) = e k := by
  unfold setRecords
  obtain rfl | rfl | rfl : k = 0 ∨ k = 1 ∨ k = 2 := by omega
  · rw [update_handle _ _ (by decide), update_handle _ _ (by decide), Function.update_self]
  · rw [update_handle _ _ (by decide), Function.update_self]
  · rw [Function.update_self]

theorem setRecords_of_ne (record : Fin FPGA_SLOT_MAX ⊕ Nat × Fin 3 → Option Entry)
    (e : Fin 3 → Option Entry) {o : Fin FPGA_SLOT_MAX ⊕ Nat × Fin 3} (ho : ∀ k, o ≠ .inr (c, k)) :
    setRecords record c e o = record o := by
  unfold setRecords
  rw [Function.update_of_ne (ho 2), Function.update_of_ne (ho 1), Function.update_of_ne (ho 0)]

theorem setRecords_eq (ctrl : SdeHwCtrl) :
    setRecords (Sum.elim first (ctrlRecords ctrls)) c (ctrlRecord ctrl) =
      Sum.elim first (ctrlRecords (Function.update ctrls c ctrl)) := by
  funext o
  rcases o with i | ⟨c', k⟩
  · exact setRecords_of_ne _ _ fun k => Sum.inl_ne_inr
  · by_cases hc : c' = c
    · subst hc
      rw [setRecords_self, Sum.elim_inr, ctrlRecords, Function.update_self]
    · rw [setRecords_of_ne _ _ fun k h => hc (Prod.mk.inj (Sum.inr.inj h)).1]
      rw [Sum.elim_inr, Sum.elim_inr, ctrlRecords, ctrlRecords, Function.update_of_ne hc]

theorem lor_eq_zero {a b : Int} : Int.lor a b = 0 ↔ a = 0 ∧ b = 0 := by
  cases a with
  | ofNat m =>
    cases b with
    | ofNat n =>
      change ((m ||| n : Nat) : Int) = 0 ↔ (m : Int) = 0 ∧ (n : Int) = 0
      simp only [Int.natCast_eq_zero, Nat.or_eq_zero_iff]
    | negSucc n => exact iff_of_false (by rintro ⟨⟩) fun h => by cases h.2
  | negSucc m =>
    cases b with
    | ofNat n => exact iff_of_false (by rintro ⟨⟩) fun h => by cases h.1
    | negSucc n => exact iff_of_false (by rintro ⟨⟩) fun h => by cases h.1

theorem sde_hw_init_spec (h : (sde_hw_init slot_id).Runs tp (ret, ctrl)) :
    ∃ r₀ r₁ r₂, tp = [⟨.attach slot_id FPGA_APP_PF APP_PF_BAR0 0, (r₀, ctrl.bar0_handle)⟩,
        ⟨.attach slot_id FPGA_APP_PF APP_PF_BAR4 0, (r₁, ctrl.bar4_handle)⟩,
        ⟨.attach slot_id FPGA_APP_PF APP_PF_BAR4 BURST_CAPABLE, (r₂, ctrl.bar4_wc_handle)⟩] ∧
      (ctrl.initialized = true ↔ r₀ = 0 ∧ r₁ = 0 ∧ r₂ = 0) ∧ (ctrl.initialized = true ↔ ret = 0) := by
  unfold sde_hw_init at h
  simp only [runs_attach, Prog.runs_pure] at h
  obtain ⟨r₀, h₀, _, rfl, r₁, h₁, _, rfl, r₂, h₂, _, rfl, rfl, hr⟩ := h
  obtain ⟨rfl, rfl⟩ := Prod.mk.inj hr
  refine ⟨r₀, r₁, r₂, rfl, ?_, decide_eq_true_iff⟩
  simp only [decide_eq_true_eq, lor_eq_zero, and_assoc]

theorem ctrlRecord_closed (h : ctrl.initialized = false) (k : Fin 3) : ctrlRecord ctrl k = none := by
  simp [ctrlRecord, h]

/-- An attempt without a leak: all attaches worked, or none of them took an entry. -/
theorem sde_hw_init_frame (h : (sde_hw_init slot_id).Runs tp (ret, ctrl))
    (ht : Trace Effect tp A A') (htogether : (∀ e ∈ tp, ¬ Refused e) ∨ ∀ e ∈ tp, TakesNone e)
    (hret : ctrl.initialized = false) : A' = A := by
  obtain ⟨r₀, r₁, r₂, rfl, hinit, -⟩ := sde_hw_init_spec h
  simp only [trace_cons, trace_nil] at ht
  obtain ⟨A₀, he₀, A₁, he₁, A₂, he₂, rfl⟩ := ht
  rcases htogether with hall | htakes
  · obtain ⟨hok₀, hall₁⟩ := List.forall_mem_cons.mp hall
    obtain ⟨hok₁, hall₂⟩ := List.forall_mem_cons.mp hall₁
    obtain ⟨hok₂, -⟩ := List.forall_mem_cons.mp hall₂
    have hok : ctrl.initialized = true :=
      hinit.mpr ⟨not_not.mp hok₀, not_not.mp hok₁, not_not.mp hok₂⟩
    rw [hret] at hok
    cases hok
  · rw [takesNone_keeps (htakes _ (by simp)) he₂ (by simp),
      takesNone_keeps (htakes _ (by simp)) he₁ (by simp),
      takesNone_keeps (htakes _ (by simp)) he₀ (by simp)]

theorem sde_hw_init_owned (h : (sde_hw_init slot_id).Runs tp (ret, ctrl))
    (ht : Trace Effect tp A A') (hinv : Owned A (Sum.elim first (ctrlRecords ctrls)))
    (hnone : ∀ k, ctrlRecord (ctrls c) k = none)
    (htogether : (∀ e ∈ tp, ¬ Refused e) ∨ ∀ e ∈ tp, TakesNone e) :
    Owned A' (Sum.elim first (ctrlRecords (Function.update ctrls c ctrl))) := by
  cases hok : ctrl.initialized with
  | true =>
    obtain ⟨r₀, r₁, r₂, rfl, hinit, -⟩ := sde_hw_init_spec h
    simp only [trace_cons, trace_nil] at ht
    obtain ⟨A₀, he₀, A₁, he₁, A₂, he₂, rfl⟩ := ht
    rw [← setRecords_eq]
    obtain ⟨rfl, rfl, rfl⟩ := hinit.mp hok
    have hrec : ctrlRecord ctrl = fun k => fpga_pci_bar_get (ctrlHandle ctrl k) := by
      funext k
      simp [ctrlRecord, hok]
    rw [hrec]
    have hfree : ∀ k, Sum.elim first (ctrlRecords ctrls) (.inr (c, k)) = none := hnone
    have h₀ := owned_attach hinv (hfree 0) he₀
    have h₁ := owned_attach h₀ ((update_handle _ _ (by decide)).trans (hfree 1)) he₁
    refine owned_attach h₁ ?_ he₂
    rw [update_handle _ _ (by decide), update_handle _ _ (by decide), hfree 2]
  | false =>
    rw [sde_hw_init_frame h ht htogether hok, ← setRecords_eq]
    have hk : ctrlRecord ctrl = ctrlRecord (ctrls c) := by
      funext k
      rw [ctrlRecord_closed hok, hnone]
    rw [hk, setRecords_eq, Function.update_eq_self]
    exact hinv

theorem sde_hw_close_owned (h : (sde_hw_close (ctrls c)).Runs tp (ret, ctrl))
    (ht : Trace Effect tp A A') (hinv : Owned A (Sum.elim first (ctrlRecords ctrls)))
    (hrel : ∀ e ∈ tp, Released e) :
    Owned A' (Sum.elim first (ctrlRecords (Function.update ctrls c ctrl))) := by
  unfold sde_hw_close at h
  split at h
  case isFalse hclosed =>
    obtain ⟨rfl, hr⟩ := (Prog.runs_pure _ _ _).mp h
    obtain ⟨rfl, rfl⟩ := Prod.mk.inj hr
    rw [trace_nil.mp ht, Function.update_eq_self]
    exact hinv
  case isTrue hopen =>
    simp only [runs_detach, Prog.runs_pure] at h
    obtain ⟨r₀, _, rfl, r₁, _, rfl, r₂, _, rfl, rfl, hr⟩ := h
    obtain ⟨rfl, rfl⟩ := Prod.mk.inj hr
    simp only [trace_cons, trace_nil] at ht
    obtain ⟨A₀, he₀, A₁, he₁, A₂, he₂, rfl⟩ := ht
    rw [← setRecords_eq]
    have hrec : ∀ k, ctrlRecord (ctrls c) k = fpga_pci_bar_get (ctrlHandle (ctrls c) k) := by
      intro k
      simp [ctrlRecord, hopen]
    have hnone : ctrlRecord { ctrls c with initialized := false } = fun _ => none := by
      funext k
      exact ctrlRecord_closed rfl k
    rw [hnone]
    have hsum : ∀ k, Sum.elim first (ctrlRecords ctrls) (.inr (c, k)) =
      fpga_pci_bar_get (ctrlHandle (ctrls c) k) := hrec
    have hw₀ : Worked (ctrls c).bar0_handle r₀ := hrel ⟨.detach _, r₀⟩ (by simp)
    have hw₁ : Worked (ctrls c).bar4_handle r₁ := hrel ⟨.detach _, r₁⟩ (by simp)
    have hw₂ : Worked (ctrls c).bar4_wc_handle r₂ := hrel ⟨.detach _, r₂⟩ (by simp)
    have h₀ := owned_detach hinv (hsum 0) he₀ hw₀
    have h₁ := owned_detach h₀ ((update_handle _ _ (by decide)).trans (hsum 1)) he₁ hw₁
    refine owned_detach h₁ ?_ he₂ hw₂
    rw [update_handle _ _ (by decide), update_handle _ _ (by decide), hsum 2]
    rfl

end Ctrl

end AwsFpga.System
