import AwsFpga.System.Owners

/-!
# Runs of the whole user-space stack

A state has the BAR table, the mailbox driver, the management library and any
number of SDE controls. Each step is one public call, down to its system calls.
-/

open Lib AwsFpga.Pci AwsFpga.Bars AwsFpga.Mbox AwsFpga.Mgmt AwsFpga.Sde

namespace AwsFpga.System

/-! ## Calls and steps -/

inductive MgmtCall where
  | init
  | close
  | describe (slot_id : Int) (info : FpgaMgmtImageInfo) (flags : BitVec 32)
  | load (opt : LoadLocalImageOptions)
  | clear (slot_id : Int)
  | get_sh_version (slot_id : Int)
  | get_vLED_status (slot_id : Int) (status : BitVec 16)
  | get_vDIP_status (slot_id : Int) (value : BitVec 16)
  | set_vDIP (slot_id : Int) (value : BitVec 16)

def MgmtCall.run : MgmtCall → MgmtM Int
  | .init => fpga_mgmt_init
  | .close => fpga_mgmt_close
  | .describe slot_id info flags => Prod.fst <$> fpga_mgmt_describe_local_image slot_id info flags
  | .load opt => fpga_mgmt_load_local_image_with_options opt
  | .clear slot_id => fpga_mgmt_clear_local_image slot_id
  | .get_sh_version slot_id => Prod.fst <$> fpga_mgmt_get_sh_version slot_id
  | .get_vLED_status slot_id status => Prod.fst <$> fpga_mgmt_get_vLED_status slot_id status
  | .get_vDIP_status slot_id value => Prod.fst <$> fpga_mgmt_get_vDIP_status slot_id value
  | .set_vDIP slot_id value => Prod.fst <$> fpga_mgmt_set_vDIP slot_id value

def MgmtCall.IsVirtual : MgmtCall → Prop
  | .get_vLED_status .. => True
  | .get_vDIP_status .. => True
  | .set_vDIP .. => True
  | _ => False

def MgmtCall.inits : MgmtCall → Bool
  | .init => true
  | _ => false

inductive SysCall where
  | mgmt (call : MgmtCall)
  | sde_hw_init (c : Nat) (slot_id : Int)
  | sde_hw_close (c : Nat)

structure SysState where
  bars : BarTable
  mbox : FpgaHalMbox
  mgmt : FpgaMgmtState
  /-- `fpga_mgmt_init` was called. -/
  inited : Bool
  ctrls : Nat → SdeHwCtrl

def SysState.start : SysState where
  bars := .start
  mbox := { timeout := 0, delay_msec := 0 }
  mgmt := .start
  inited := false
  ctrls := fun _ => ⟨0, PCI_BAR_HANDLE_INIT, PCI_BAR_HANDLE_INIT, PCI_BAR_HANDLE_INIT, false⟩

/-- `ret` is what the call returned, `tp` the calls of `fpga_pci.h` it made, `t` the system calls
under these. -/
inductive SysStep (s : SysState) :
    SysCall → Int → List PciApi.Event → List OsApi.Event → SysState → Prop where
  | mgmt {call ret th tp t old mgmt' mbox' bars'} (run : Exec (MgmtCall.run call) s.mgmt th ret mgmt')
    (hal : Prog.Implements halImpl th s.mbox tp mbox')
    (table : Prog.Implements (barsImpl old) tp s.bars t bars') :
    SysStep s (.mgmt call) ret tp t
      { s with bars := bars', mbox := mbox', mgmt := mgmt',
               inited := s.inited || call.inits }
  | sde_hw_init {c slot_id ret ctrl tp t old bars'} (run : (sde_hw_init slot_id).Runs tp (ret, ctrl))
    (table : Prog.Implements (barsImpl old) tp s.bars t bars') :
    SysStep s (.sde_hw_init c slot_id) ret tp t
      { s with bars := bars', ctrls := Function.update s.ctrls c ctrl }
  | sde_hw_close {c ret ctrl tp t old bars'} (run : (sde_hw_close (s.ctrls c)).Runs tp (ret, ctrl))
    (table : Prog.Implements (barsImpl old) tp s.bars t bars') :
    SysStep s (.sde_hw_close c) ret tp t
      { s with bars := bars', ctrls := Function.update s.ctrls c ctrl }

/-! ## The conditions -/

/-- The steps that leave no entry without an owner. -/
def NoLeak (s : SysState) (tp : List PciApi.Event) : SysCall → Prop
  | .mgmt .init => ∀ i, slotRecord s.inited s.mgmt.slots i = none
  | .mgmt .close => ∀ e ∈ tp, Released e
  | .mgmt call => call.IsVirtual → ∀ e ∈ tp, Released e ∧ Accessed e
  | .sde_hw_init c _ => (∀ k, ctrlRecord (s.ctrls c) k = none) ∧
    ((∀ e ∈ tp, ¬ Refused e) ∨ ∀ e ∈ tp, TakesNone e)
  | .sde_hw_close _ => ∀ e ∈ tp, Released e

/-! ## The invariant -/

def SysState.records (s : SysState) : Fin FPGA_SLOT_MAX ⊕ Nat × Fin 3 → Option Entry :=
  allRecords s.inited s.mgmt.slots (ctrlRecords s.ctrls)

structure SysInv (s : SysState) : Prop where
  owned : Owned (allocated s.bars) s.records
  fresh : s.inited = false → (∀ i, s.mgmt.slots i = 0) ∧ s.mgmt.initialized = false

theorem sysInv_start : SysInv .start where
  owned := by
    have hfree : allocated SysState.start.bars = ∅ := by
      ext i
      simp [allocated, SysState.start, BarTable.start, FpgaPciBar.zero]
    rw [hfree]
    exact .empty fun o => by cases o <;> rfl
  fresh := fun _ => ⟨fun _ => rfl, rfl⟩

variable {s s' : SysState} {call : SysCall} {ret : Int} {tp : List PciApi.Event}
  {t : List OsApi.Event}

theorem virtual_call_frame {mc : MgmtCall} (hv : mc.IsVirtual) {m m' : FpgaMgmtState}
    {th : List HalApi.Event} {A A' : Set Entry} (h : Exec mc.run m th ret m')
    (ht : Trace (HalEffect fun e => Released e ∧ Accessed e) th A A') : m' = m ∧ A' = A := by
  have hfst : ∀ {α : Type} {slot_id : Int} {value : α} {access : Int → MgmtM (Int × α)},
      OneAccess access → Exec (Prod.fst <$> virtual_access slot_id value access) m th ret m' →
      m' = m ∧ A' = A := by
    intro α slot_id value access haccess hexec
    rw [map_eq_pure_bind, exec_bind] at hexec
    obtain ⟨t₁, r, m₁, t₂, rfl, hrun, hret⟩ := hexec
    obtain ⟨rfl, -, rfl⟩ := (exec_pure _ _ _ _ _).mp hret
    rw [List.append_nil] at ht
    exact virtual_access_frame haccess hrun ht
  cases mc with
  | get_vLED_status => exact hfst (peek_low_access _ _) h
  | get_vDIP_status => exact hfst (peek_low_access _ _) h
  | set_vDIP => exact hfst (poke_access _ _) h
  | _ => exact hv.elim

theorem command_keeps {mc : MgmtCall} (hv : ¬ mc.IsVirtual) (hinit : mc ≠ .init)
    (hclose : mc ≠ .close) {inited : Bool} {rest : Nat × Fin 3 → Option Entry} :
    Keeps (fun _ => True) inited rest mc.run := by
  cases mc with
  | init => exact absurd rfl hinit
  | close => exact absurd rfl hclose
  | describe slot_id info flags =>
    exact preserves_bind (describe_keeps _ _ _) fun _ => preserves_pure _
  | load opt => exact load_keeps opt
  | clear slot_id => exact clear_keeps slot_id
  | get_sh_version slot_id =>
    exact preserves_bind (get_sh_version_keeps _) fun _ => preserves_pure _
  | get_vLED_status => exact absurd trivial hv
  | get_vDIP_status => exact absurd trivial hv
  | set_vDIP => exact absurd trivial hv

theorem mgmtCall_inv {mc : MgmtCall} {m m' : FpgaMgmtState} {th : List HalApi.Event}
    {A A' : Set Entry} {inited : Bool} {rest : Nat × Fin 3 → Option Entry}
    (run : Exec mc.run m th ret m')
    (heffect : ∀ {P : PciApi.Event → Prop}, (∀ e ∈ tp, P e) → Trace (HalEffect P) th A A')
    (hinv : MgmtInv inited rest m A) (hs : s.inited = inited) (hm : s.mgmt = m)
    (hcond : NoLeak s tp (.mgmt mc)) : MgmtInv (inited || mc.inits) rest m' A' := by
  by_cases hv : mc.IsVirtual
  · have hcond' : mc.inits = false ∧ ∀ e ∈ tp, Released e ∧ Accessed e := by
      cases mc with
      | get_vLED_status => exact ⟨rfl, hcond trivial⟩
      | get_vDIP_status => exact ⟨rfl, hcond trivial⟩
      | set_vDIP => exact ⟨rfl, hcond trivial⟩
      | _ => exact hv.elim
    obtain ⟨rfl, rfl⟩ := virtual_call_frame hv run (heffect hcond'.2)
    rw [hcond'.1, Bool.or_false]
    exact hinv
  · by_cases hinit : mc = .init
    · subst hinit hs hm
      rw [MgmtCall.inits, Bool.or_true]
      exact init_keeps run (heffect fun _ _ => trivial) hinv hcond
    · have hinits : mc.inits = false := by
        cases mc <;> first | rfl | exact absurd rfl hinit
      rw [hinits, Bool.or_false]
      by_cases hclose : mc = .close
      · subst hclose
        exact close_keeps (fun _ => id) _ _ _ _ _ _ run (heffect hcond) hinv
      · exact command_keeps hv hinit hclose _ _ _ _ _ _ run (heffect fun _ _ => trivial) hinv

theorem sysInv_step (hinv : SysInv s) (hstep : SysStep s call ret tp t s')
    (ht : ∀ e ∈ t, Mappable e) (hcond : NoLeak s tp call) : SysInv s' := by
  cases hstep with
  | mgmt run hal table =>
    have hnew := mgmtCall_inv run (fun hP => halImpl_effect hal (barsImpl_effect table ht) hP)
      ⟨hinv.owned, hinv.fresh⟩ rfl rfl hcond
    exact ⟨hnew.owned, hnew.fresh⟩
  | sde_hw_init run table =>
    obtain ⟨hnone, htogether⟩ := hcond
    exact ⟨sde_hw_init_owned run (barsImpl_effect table ht) hinv.owned hnone htogether, hinv.fresh⟩
  | sde_hw_close run table =>
    exact ⟨sde_hw_close_owned run (barsImpl_effect table ht) hinv.owned hcond, hinv.fresh⟩

/-! ## Runs -/

/-- The states of the runs whose steps all meet the conditions. -/
inductive Run : SysState → Prop where
  | start : Run .start
  | step {s s' : SysState} {call : SysCall} {ret : Int} {tp : List PciApi.Event}
    {t : List OsApi.Event} (run : Run s) (hstep : SysStep s call ret tp t s') (ht : ∀ e ∈ t, Mappable e) (hcond : NoLeak s tp call) : Run s'

theorem sysInv_run (h : Run s) : SysInv s := by
  induction h with
  | start => exact sysInv_start
  | step _ hstep ht hcond ih => exact sysInv_step ih hstep ht hcond

/-- The allocated entries are those that some owner records. -/
def Accounted (s : SysState) : Prop :=
  ∀ i, (s.bars i).allocated = true ↔ ∃ o, s.records o = some i

/-! ## Samples -/

def onHal (tp : List PciApi.Event) : List HalApi.Event := tp.map fun e => ⟨HalOp.pci e.1, e.2⟩

theorem halImpl_pci (tp : List PciApi.Event) (mbox : FpgaHalMbox) :
    Prog.Implements halImpl (onHal tp) mbox tp mbox := by
  induction tp with
  | nil => exact .nil mbox
  | cons e tp ih =>
    have hcall : Exec (halImpl (.pci e.1)) mbox [e] e.2 mbox :=
      (exec_op (I := PciApi) e.1 e.2 mbox mbox [e]).mpr ⟨rfl, rfl⟩
    exact .cons hcall ih

/-- The attach of a virtual LED access. -/
def sampleAttach : PciApi.Event := ⟨.attach 0 FPGA_MGMT_PF MGMT_PF_BAR0 0, ((0 : Int), (0 : Int))⟩

theorem exec_sampleAttach {length : BitVec 64} (hlength : length ≠ 0) :
    Exec (barsImpl (-1) sampleAttach.1) BarTable.start (sampleCalls length) sampleAttach.2
      (Function.update BarTable.start 0 (sampleBar length)) :=
  exec_sample_free length (rfl : toIndex FPGA_PF_MAX 1 = some 1) hlength
    (rfl : first_free BarTable.start = some 0)

/-- The peek of a BAR that is too small for the register. -/
def failedPeek : PciApi.Event :=
  ⟨.peek 0 FPGA_VIRTUAL_LED_REG_OFFSET, (-EINVAL, BitVec.ofInt 32 (-1))⟩

/-- What the access leaves behind then. -/
def leaked : SysState :=
  { SysState.start with bars := Function.update BarTable.start 0 (sampleBar 64) }

theorem leaked_step : SysStep .start (.mgmt (.get_vLED_status 0 0)) (-EINVAL)
    [sampleAttach, failedPeek] (sampleCalls 64 ++ ([] ++ [])) leaked := by
  have hrun : Exec (MgmtCall.run (.get_vLED_status 0 0)) FpgaMgmtState.start
      (onHal [sampleAttach, failedPeek]) (-EINVAL) .start :=
    ⟨(0, 0), _, rfl, (-EINVAL, BitVec.ofInt 32 (-1)), _, rfl, rfl, rfl⟩
  have htable : Prog.Implements (barsImpl (-1)) [sampleAttach, failedPeek] BarTable.start
      (sampleCalls 64 ++ ([] ++ [])) (Function.update BarTable.start 0 (sampleBar 64)) :=
    .cons (exec_sampleAttach (by decide)) (.cons ⟨rfl, rfl⟩ (.nil _))
  exact .mgmt hrun (halImpl_pci _ _) htable

/-- A whole access: attach, peek, detach. -/
def goodAccess : List PciApi.Event :=
  [sampleAttach, ⟨.peek 0 FPGA_VIRTUAL_LED_REG_OFFSET, ((0 : Int), 5#32)⟩, ⟨.detach 0, (0 : Int)⟩]

def goodCalls : List OsApi.Event :=
  sampleCalls 4096 ++ ([⟨.load (0x7f0000000000 + 0xD0), 5#32⟩] ++
    ([⟨.munmap 0x7f0000000000 4096, (0 : Int)⟩] ++ []))

def goodEnd : SysState :=
  { SysState.start with
    bars := Function.update (Function.update BarTable.start 0 (sampleBar 4096)) 0 .zero }

theorem good_step : SysStep .start (.mgmt (.get_vLED_status 0 0)) 0 goodAccess goodCalls goodEnd := by
  have hrun : Exec (MgmtCall.run (.get_vLED_status 0 0)) FpgaMgmtState.start (onHal goodAccess) 0
      .start :=
    ⟨(0, 0), _, rfl, (0, 5#32), _, rfl, (0 : Int), _, rfl, rfl, rfl⟩
  have hpeek : Exec (barsImpl (-1) (.peek 0 FPGA_VIRTUAL_LED_REG_OFFSET))
      (Function.update BarTable.start 0 (sampleBar 4096))
      [⟨.load (0x7f0000000000 + 0xD0), 5#32⟩] ((0 : Int), 5#32)
      (Function.update BarTable.start 0 (sampleBar 4096)) :=
    ⟨5#32, [], rfl, rfl, rfl⟩
  have hdetach : Exec (barsImpl (-1) (.detach 0))
      (Function.update BarTable.start 0 (sampleBar 4096))
      [⟨.munmap 0x7f0000000000 4096, (0 : Int)⟩] (0 : Int) goodEnd.bars :=
    ⟨(0 : Int), [], rfl, rfl, rfl⟩
  have htable : Prog.Implements (barsImpl (-1)) goodAccess BarTable.start goodCalls goodEnd.bars :=
    .cons (exec_sampleAttach (by decide)) (.cons hpeek (.cons hdetach (.nil _)))
  exact .mgmt hrun (halImpl_pci _ _) htable

/-! ## No entry is lost -/

/-- In such a run no entry is ever lost; and a call of the virtual LEDs and DIPs, or an
`sde_hw_init` that fails, leaves the allocated entries as they were. -/
theorem run_accounted (h : Run s) : Accounted s ∧
    ∀ call ret tp t s', SysStep s call ret tp t s' → (∀ e ∈ t, Mappable e) → NoLeak s tp call →
      ((∃ mc, call = .mgmt mc ∧ mc.IsVirtual) ∨
        (∃ c slot_id, call = .sde_hw_init c slot_id) ∧ ret ≠ 0) →
        ∀ i, (s'.bars i).allocated = (s.bars i).allocated := by
  refine ⟨(sysInv_run h).owned.mem_iff, ?_⟩
  intro call ret tp t s' hstep ht hcond hkind i
  have hset : allocated s'.bars = allocated s.bars := by
    cases hstep with
    | @mgmt mc _ _ _ _ _ _ _ _ run hal table =>
      rcases hkind with ⟨mc', heq, hv⟩ | ⟨⟨_, _, heq⟩, _⟩
      · obtain rfl := SysCall.mgmt.inj heq
        have hcond' : ∀ e ∈ tp, Released e ∧ Accessed e := by
          cases mc with
          | get_vLED_status => exact hcond trivial
          | get_vDIP_status => exact hcond trivial
          | set_vDIP => exact hcond trivial
          | _ => exact hv.elim
        exact (virtual_call_frame hv run
          (halImpl_effect hal (barsImpl_effect table ht) hcond')).2
      · cases heq
    | sde_hw_init run table =>
      rcases hkind with ⟨_, heq, _⟩ | ⟨_, hret⟩
      · cases heq
      · obtain ⟨_, _, _, _, _, hok⟩ := sde_hw_init_spec run
        refine sde_hw_init_frame run (barsImpl_effect table ht) hcond.2 ?_
        rw [← Bool.not_eq_true, hok]
        exact hret
    | sde_hw_close run table =>
      rcases hkind with ⟨_, heq, _⟩ | ⟨⟨_, _, heq⟩, _⟩ <;> cases heq
  have hi : i ∈ allocated s'.bars ↔ i ∈ allocated s.bars := by rw [hset]
  exact Bool.eq_iff_iff.mpr hi

theorem run_accounted_good : Accounted .start ∧
    ∀ i, (goodEnd.bars i).allocated = (SysState.start.bars i).allocated := by
  obtain ⟨hacc, hkeep⟩ := run_accounted .start
  refine ⟨hacc, hkeep _ _ _ _ _ good_step ?_ ?_ (.inl ⟨_, rfl, trivial⟩)⟩
  · simp [goodCalls, sampleCalls, mappedCalls, Mappable, newMapping, made, sampleMapping,
      MAP_FAILED]
  · intro _
    simp [goodAccess, sampleAttach, Released, Accessed, Worked]

/-- After one failed peek the entry is allocated, and nobody records it. -/
theorem vLED_leak : ∃ s tp t, SysStep .start (.mgmt (.get_vLED_status 0 0)) (-EINVAL) tp t s ∧
    ¬ Accounted s := by
  refine ⟨leaked, _, _, leaked_step, ?_⟩
  intro h
  obtain ⟨o, ho⟩ := (h 0).mp rfl
  rcases o with i | ck <;> cases ho

end AwsFpga.System
