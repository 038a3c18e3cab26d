import AwsFpga.Lib.Meets
import AwsFpga.Sde.Mgmt

/-!
# Sequences of driver calls

A state is `priv_sde_mgmt`, and each step is one public call on one slot.
`sde_mgmt_init_and_cfg` is three calls one after another.
-/

open Lib AwsFpga.Pci

namespace AwsFpga.Sde

inductive SdeCall where
  | init (direction : SdeExampleDir) (packet_size : BitVec 64) (layout : SdeBufferLayout)
  | close
  | reset
  | check_status (s : SdeSubsystem)
  | set_dma_buffers (s : SdeSubsystem) (sde_buffers : List SdeBuffer) (num_buffers : Nat)
  | cfg
  | wait_desc_credit (s : SdeSubsystem) (num_desc : Nat)
  | post_desc (s : SdeSubsystem) (num_desc : Nat)
  | start_read (size : BitVec 64)
  | read_md
  /-- `rounds` is how often the loop may go round. -/
  | read_data (size rounds : Nat)
  | prepare_write (data : List (BitVec 8))
  | write (size : BitVec 64)

/-- The code and the element that a call leaves. -/
def SdeCall.body (slot_id : Int) (m : SdeMgmt) : SdeCall → Prog SdeApi (Int × SdeMgmt)
  | .init direction packet_size layout => sde_mgmt_init slot_id direction packet_size layout m
  | .close => sde_mgmt_close slot_id m
  | .reset => sde_mgmt_reset slot_id m
  | .check_status s => do
    let ret ← sde_mgmt_check_status slot_id s m
    return (ret, m)
  | .set_dma_buffers s sde_buffers num_buffers =>
    sde_mgmt_set_dma_buffers slot_id s sde_buffers num_buffers m
  | .cfg => sde_mgmt_cfg slot_id m
  | .wait_desc_credit s num_desc => do
    let ret ← sde_mgmt_wait_desc_credit slot_id s num_desc m
    return (ret, m)
  | .post_desc s num_desc => do
    let (ret, _, m) ← sde_mgmt_post_desc slot_id s num_desc m
    return (ret, m)
  | .start_read size => sde_mgmt_start_read slot_id size m
  | .read_md => do
    let (ret, _, m) ← sde_mgmt_read_md slot_id m
    return (ret, m)
  | .read_data size rounds => do
    let (ret, _, m) ← sde_mgmt_read_data slot_id size rounds m
    return (ret, m)
  | .prepare_write data => sde_mgmt_prepare_write slot_id data m
  | .write size => sde_mgmt_write slot_id size m

/-- The element of every slot. A slot number is not negative. -/
abbrev Slots : Type := Nat → SdeMgmt

def Slots.start : Slots := fun _ => .zero

/-- The call returned `ret` and made the calls `t` below. -/
def SlotStep (slots : Slots) (slot : Nat) (call : SdeCall) (ret : Int) (t : List SdeApi.Event)
    (slots' : Slots) : Prop :=
  ∃ m, (call.body slot (slots slot)).Runs t (ret, m) ∧ slots' = Function.update slots slot m

/-! ## Contracts of the parts -/

section Contracts

variable {α : Type} {A : (o : SdeOp) → o.Ans → Prop} {P : SdeOp → Prop}

theorem meets_ofPci {p : Prog PciApi α} (hp : p.AllCalls fun o => P (.pci o)) :
    (ofPci p).Meets A P fun _ => True := by
  induction p with
  | pure a => trivial
  | call o k ih => exact ⟨hp.1, fun r _ => ih r (hp.2 r)⟩

theorem meets_checked {slot_id : Int} {m : SdeMgmt} {fail : Int → Prog SdeApi α}
    {k : Prog SdeApi α} {Q : α → Prop} (hfail : ∀ ret, (fail ret).Meets A P Q)
    (hk : m.initialized = true → (k.Meets A P Q)) : (checked slot_id m fail k).Meets A P Q := by
  unfold checked
  split
  case isTrue => exact hfail _
  case isFalse =>
    split
    case isTrue => exact hfail _
    case isFalse hinit => exact hk (by simpa using hinit)

theorem meets_status_load {m : SdeMgmt} {s : SdeSubsystem} {field : StatusField}
    {f : BitVec 32 → Prog SdeApi α} {Q : α → Prop}
    (hP : P (.status_load s (m.status s) field)) (hf : ∀ value, (f value).Meets A P Q) :
    (status_load m s field >>= f).Meets A P Q :=
  Prog.meets_op_bind hP fun value _ => hf value

theorem wait_loop_meets {m : SdeMgmt} {s : SdeSubsystem} {num_desc : Nat}
    (hP : P (.status_load s (m.status s) .desc_limit)) (rounds credits_available : Nat) :
    (wait_loop m s num_desc rounds credits_available).Meets A P fun _ => True := by
  induction rounds generalizing credits_available with
  | zero => trivial
  | succ rounds ih =>
    unfold wait_loop
    refine meets_status_load hP fun desc_limit => ?_
    dsimp only
    split
    · exact ih _
    · trivial

end Contracts

theorem checked_closed {α : Type} {slot_id : Int} {m : SdeMgmt} (h : m.initialized = false)
    (fail : Int → Prog SdeApi α) (k : Prog SdeApi α) :
    checked slot_id m fail k = fail FPGA_ERR_SOFTWARE_PROBLEM := by
  unfold checked
  rw [if_pos h]
  exact ite_id _

theorem body_closed {slot_id : Int} {m : SdeMgmt} (h : m.initialized = false) {call : SdeCall}
    (hinit : ∀ d p l, call ≠ .init d p l) :
    call.body slot_id m = pure (FPGA_ERR_SOFTWARE_PROBLEM, m) := by
  have hret : ∀ k : Prog SdeApi (Int × SdeMgmt),
      checked slot_id m (fun ret => pure (ret, m)) k = pure (FPGA_ERR_SOFTWARE_PROBLEM, m) :=
    fun k => checked_closed h _ k
  cases call with
  | init direction packet_size layout => exact absurd rfl (hinit _ _ _)
  | check_status s => exact congrArg (· >>= _) (checked_closed h _ _)
  | wait_desc_credit s num_desc => exact congrArg (· >>= _) (checked_closed h _ _)
  | post_desc s num_desc => exact congrArg (· >>= _) (checked_closed h _ _)
  | read_md => exact congrArg (· >>= _) (checked_closed h _ _)
  | read_data size rounds => exact congrArg (· >>= _) (checked_closed h _ _)
  | _ => exact hret _

/-! ## What the calls leave alone -/

/-- Calls that map, unmap, attach and detach nothing. -/
def Plain : SdeOp → Prop
  | .pci (.attach ..) => False
  | .pci (.detach _) => False
  | .map_anon .. => False
  | .map_huge _ => False
  | .unmap .. => False
  | _ => True

/-- Besides, they touch no register and no status counter. -/
def Passive : SdeOp → Prop
  | .pci _ => False
  | .map_anon .. => False
  | .map_huge _ => False
  | .unmap .. => False
  | .status_store .. => False
  | _ => True

theorem passive_plain (o : SdeOp) (h : Passive o) : Plain o := by
  cases o with
  | pci => exact h.elim
  | map_anon => exact h.elim
  | map_huge => exact h.elim
  | unmap => exact h.elim
  | _ => trivial

/-- The calls of `sde_mgmt_cfg`: it writes no descriptor. -/
def CfgCall (ctrl : SdeHwCtrl) : SdeOp → Prop
  | .pci (.poke handle offset _) =>
    handle = ctrl.bar0_handle ∧ offset ≠ SDE_GENERAL_PURPOSE_CFG_REG ∨
      ∀ s, offset ≠ DESC_RAM_MAP_OFFSET s
  | .pci (.peek ..) => True
  | _ => False

theorem cfgCall_plain {ctrl : SdeHwCtrl} (o : SdeOp) (h : CfgCall ctrl o) : Plain o := by
  cases o with
  | pci o =>
    cases o with
    | attach => exact h
    | detach => exact h
    | _ => trivial
  | _ => exact h.elim

/-- What only opening and closing change. -/
structure Frame (m m' : SdeMgmt) : Prop where
  mem : m'.mem = m.mem
  hw_ctrl : m'.hw_ctrl = m.hw_ctrl
  initialized : m'.initialized = m.initialized

/-- What only these and posting change. -/
structure Same (m m' : SdeMgmt) : Prop extends Frame m m' where
  desc_consumed : ∀ s, m'.desc_consumed s = m.desc_consumed s
  status : ∀ s, m'.status s = m.status s
  subsystem : ∀ s, (m'.buffer s).subsystem = (m.buffer s).subsystem

theorem Same.refl (m : SdeMgmt) : Same m m := ⟨⟨rfl, rfl, rfl⟩, fun _ => rfl, fun _ => rfl, fun _ => rfl⟩

theorem Frame.refl (m : SdeMgmt) : Frame m m := (Same.refl m).toFrame

theorem Frame.trans {m m' m'' : SdeMgmt} (h : Frame m m') (h' : Frame m' m'') : Frame m m'' :=
  ⟨h'.mem.trans h.mem, h'.hw_ctrl.trans h.hw_ctrl, h'.initialized.trans h.initialized⟩

theorem Same.trans {m m' m'' : SdeMgmt} (h : Same m m') (h' : Same m' m'') : Same m m'' :=
  ⟨h.toFrame.trans h'.toFrame, fun s => (h'.desc_consumed s).trans (h.desc_consumed s),
    fun s => (h'.status s).trans (h.status s), fun s => (h'.subsystem s).trans (h.subsystem s)⟩

theorem set_buffer_same (m : SdeMgmt) (s : SdeSubsystem) {b : SdeDmaBuffer}
    (hb : b.subsystem = (m.buffer s).subsystem) : Same m (m.set_buffer s b) := by
  refine ⟨?_, ?_, ?_, ?_⟩
  · cases s
    · exact ⟨rfl, rfl, rfl⟩
    · exact ⟨rfl, rfl, rfl⟩
  · cases s <;> exact fun s' => (by cases s' <;> rfl)
  · cases s <;> exact fun s' => (by cases s' <;> rfl)
  · intro s'
    rw [SdeMgmt.set_buffer_buffer]
    split
    case isTrue h => rw [h, hb]
    case isFalse => rfl

theorem set_desc_consumed_frame (m : SdeMgmt) (s : SdeSubsystem) (desc_consumed : BitVec 32) :
    Frame m (m.set_desc_consumed s desc_consumed) := by
  cases s
  · exact ⟨rfl, rfl, rfl⟩
  · exact ⟨rfl, rfl, rfl⟩

theorem init_desc_subsystem (b : SdeDmaBuffer) :
    (sde_dma_init_desc_buffer b).2.subsystem = b.subsystem := by
  unfold sde_dma_init_desc_buffer
  split
  · rfl
  · split <;> rfl

theorem set_buffers_subsystem (sde_buffers : List SdeBuffer) (num_buffers : Nat) (b : SdeDmaBuffer) :
    (sde_dma_buffer_set_dma_buffers sde_buffers num_buffers b).2.subsystem = b.subsystem := by
  unfold sde_dma_buffer_set_dma_buffers
  split
  · rfl
  · split <;> rfl

section Frames

variable {A : (o : SdeOp) → o.Ans → Prop}

theorem fault_meets {α : Type} {P : SdeOp → Prop} (hP : ∀ f, P (.fault f)) (f : Fault) (Q : α → Prop) :
    (fault f).Meets A P Q :=
  ⟨hP f, fun e => nomatch e⟩

theorem poke_all_calls {P : PciOp → Prop} {handle : Int} {ws : List RegWrite}
    (hpoke : ∀ w ∈ ws, P (.poke handle w.offset w.value))
    (hpeek : ∀ offset, P (.peek handle offset)) : (poke_all handle ws).AllCalls P := by
  induction ws with
  | nil => trivial
  | cons w ws ih =>
    obtain ⟨hw, hws⟩ := List.forall_mem_cons.mp hpoke
    refine Prog.allCalls_bind ?_ fun (ret : Int) => Prog.allCalls_ite trivial (ih hws)
    refine ⟨hw, fun (ret : Int) => Prog.allCalls_ite trivial ?_⟩
    exact ⟨hpeek _, fun (ret, data) => Prog.allCalls_ite trivial (Prog.allCalls_ite trivial trivial)⟩

theorem hw_reset_plain (ctrl : SdeHwCtrl) :
    (ofPci (sde_hw_reset (some ctrl))).Meets A Plain fun _ => True := by
  refine meets_ofPci (Prog.allCalls_ite trivial ?_)
  refine ⟨trivial, fun (ret, data) => Prog.allCalls_ite trivial ?_⟩
  exact poke_all_calls (fun _ _ => trivial) fun _ => trivial

theorem cfg_bar0 (ctrl : SdeHwCtrl) {ws : List RegWrite}
    (h : ∀ w ∈ ws, w.offset ≠ SDE_GENERAL_PURPOSE_CFG_REG) :
    (ofPci (cfg_writes (some ctrl) SdeHwCtrl.bar0_handle ws)).Meets A (CfgCall ctrl)
      fun _ => True := by
  refine meets_ofPci (Prog.allCalls_ite trivial ?_)
  exact poke_all_calls (fun w hw => .inl ⟨rfl, h w hw⟩) fun _ => trivial

theorem cfg_bar4 (ctrl : SdeHwCtrl) {ws : List RegWrite}
    (h : ∀ w ∈ ws, ∀ s, w.offset ≠ DESC_RAM_MAP_OFFSET s) :
    (ofPci (cfg_writes (some ctrl) SdeHwCtrl.bar4_handle ws)).Meets A (CfgCall ctrl)
      fun _ => True := by
  refine meets_ofPci (Prog.allCalls_ite trivial ?_)
  exact poke_all_calls (fun w hw => .inr (h w hw)) fun _ => trivial

theorem cfg_offsets (s : SdeSubsystem) (wb_cfg_value : BitVec 32) (status_pa md_ring_pa : BitVec 64)
    (md_ring_size : BitVec 32) :
    ∀ w ∈ cfg_common s wb_cfg_value status_pa ++
      [.full SDE_C2H_MD_RING_BADDR_LO_REG (md_ring_pa.setWidth 32),
      .full SDE_C2H_MD_RING_BADDR_HI_REG ((md_ring_pa >>> 32).setWidth 32),
      .full SDE_C2H_MD_RING_SZ_REG md_ring_size,
      .full SDE_C2H_MD_RING_RD_PTR_REG 0,
      .full SDE_C2H_MD_RING_WR_PTR_REG 0], ∀ s', w.offset ≠ DESC_RAM_MAP_OFFSET s' := by
  intro w hw s'
  revert w
  cases s <;> cases s' <;> simp [cfg_common, RegWrite.full] <;> decide

theorem cfg_same (m : SdeMgmt) :
    (Prog.failOn (sde_mgmt_cfg_c2h m) fun m => Prog.failOn (sde_mgmt_cfg_h2c m) fun m =>
      Prog.failOn (sde_mgmt_cfg_c2h_atg m) sde_mgmt_cfg_packets).Meets A (CfgCall m.hw_ctrl)
      fun r => Same m r.2 := by
  have hpackets : ∀ s unused m, (cfg_packets_of s unused m).Meets A (CfgCall m.hw_ctrl)
      fun r => Same m r.2 := by
    intro s unused m
    unfold cfg_packets_of
    split
    · exact Prog.meets_pure (set_buffer_same m s (init_desc_subsystem _))
    · exact Prog.meets_pure (.refl m)
  have hatg : (sde_mgmt_cfg_c2h_atg m).Meets A (CfgCall m.hw_ctrl) fun r => r.2 = m := by
    refine Prog.meets_bind (cfg_bar0 _ ?_) fun (ret : Int) _ => ?_
    · simp
      decide
    · split
      · exact Prog.meets_pure rfl
      · split
        · refine Prog.meets_bind (cfg_bar0 _ ?_) fun (ret : Int) _ => Prog.meets_pure rfl
          simp [RegWrite.full]
          decide
        · exact Prog.meets_pure rfl
  refine Prog.meets_failOn (Prog.meets_bind (cfg_bar4 _ ?_) fun (ret : Int) _ => ?_)
  · exact cfg_offsets _ _ _ _ _
  refine Prog.meets_pure ⟨fun _ => .refl m, fun _ => ?_⟩
  refine Prog.meets_failOn (Prog.meets_bind (cfg_bar4 _
    fun w hw => cfg_offsets .h2c _ _ 0 0 w (List.mem_append_left _ hw)) fun (ret : Int) _ => ?_)
  refine Prog.meets_pure ⟨fun _ => .refl m, fun _ => ?_⟩
  refine Prog.meets_failOn (Prog.meets_mono hatg (fun _ h => h) ?_)
  rintro ⟨ret, m'⟩ rfl
  refine ⟨fun _ => .refl m', fun _ => ?_⟩
  refine Prog.meets_failOn (Prog.meets_mono (hpackets _ _ m') (fun _ h => h) fun r hr => ?_)
  refine ⟨fun _ => hr, fun _ => ?_⟩
  have := hpackets .h2c .c2h r.2
  rw [hr.hw_ctrl] at this
  exact Prog.meets_mono this (fun _ h => h) fun r' hr' => hr.trans hr'

theorem post_dwords_calls {P : PciOp → Prop} {handle : Int} {offset : BitVec 64}
    (h : ∀ value, P (.poke handle offset value)) (descriptor : Nat → BitVec 32) (left index : Nat) :
    (post_dwords handle offset descriptor left index).AllCalls P := by
  induction left generalizing index with
  | zero => trivial
  | succ left ih => exact ⟨h _, fun (ret : Int) => Prog.allCalls_ite trivial (ih _)⟩

theorem post_loop_plain (ctrl : Option SdeHwCtrl) (num_desc fuel posted_desc : Nat)
    (b : SdeDmaBuffer) :
    (post_loop ctrl num_desc fuel posted_desc b).Meets A Plain
      fun posted => posted.dma_buffer.subsystem = b.subsystem := by
  induction fuel generalizing posted_desc b with
  | zero =>
    unfold post_loop
    split
    · exact fault_meets (fun _ => trivial) _ _
    · rfl
  | succ fuel ih =>
    unfold post_loop
    split
    case isFalse => rfl
    case isTrue =>
      have hpost : ∀ f n s, (ofPci (sde_hw_post_descriptor ctrl f n s)).Meets A Plain
          fun _ => True := by
        intro f n s
        refine meets_ofPci ?_
        cases ctrl with
        | none => trivial
        | some ctrl => exact Prog.allCalls_ite trivial (post_dwords_calls (fun _ => trivial) _ _ _)
      refine Prog.meets_bind (hpost _ _ _) fun (ret : Int) _ => ?_
      split
      · rfl
      · split
        · exact fault_meets (fun _ => trivial) _ _
        · exact Prog.meets_mono (ih _ _) (fun _ h => h) fun _ h => h

theorem read_loop_passive (fuel size : Nat) (b : SdeDmaBuffer) :
    (read_loop fuel size b).Meets A Passive fun r => r.2.subsystem = b.subsystem := by
  induction fuel generalizing size b with
  | zero => exact fault_meets (fun _ => trivial) _ _
  | succ fuel ih =>
    unfold read_loop
    split
    · exact fault_meets (fun _ => trivial) _ _
    · refine Prog.meets_op_bind trivial fun bytes _ => ?_
      refine Prog.meets_ite (fun _ => fault_meets (fun _ => trivial) _ _) fun _ => ?_
      exact Prog.meets_ite (fun _ => Prog.meets_bind (ih _ _) fun r hr => hr) fun _ => rfl

theorem write_loop_passive (fuel : Nat) (data : List (BitVec 8)) (b : SdeDmaBuffer) :
    (write_loop fuel data b).Meets A Passive fun b' => b'.subsystem = b.subsystem := by
  induction fuel generalizing data b with
  | zero => exact fault_meets (fun _ => trivial) _ _
  | succ fuel ih =>
    unfold write_loop
    split
    · exact fault_meets (fun _ => trivial) _ _
    · refine Prog.meets_op_bind trivial fun _ _ => ?_
      refine Prog.meets_ite (fun _ => fault_meets (fun _ => trivial) _ _) fun _ => ?_
      exact Prog.meets_ite (fun _ => Prog.meets_mono (ih _ _) (fun _ h => h) fun _ h => h) fun _ => rfl

theorem wait_credit_passive (slot_id : Int) (s : SdeSubsystem) (num_desc : Nat) (m : SdeMgmt) :
    (sde_mgmt_wait_desc_credit slot_id s num_desc m).Meets A Passive fun _ => True := by
  refine meets_checked (fun _ => trivial) fun _ => ?_
  split
  · trivial
  · refine Prog.meets_bind (wait_loop_meets trivial _ _) fun credits _ => ?_
    split <;> trivial

theorem post_desc_frame (slot_id : Int) (s : SdeSubsystem) (num_desc : Nat) (m : SdeMgmt) :
    (sde_mgmt_post_desc slot_id s num_desc m).Meets A Plain fun r => Frame m r.2.2 := by
  refine meets_checked (fun _ => Prog.meets_pure (.refl m)) fun _ => ?_
  split
  · exact Prog.meets_pure (.refl m)
  · refine Prog.meets_bind (post_loop_plain _ _ _ _ _) fun posted hposted => ?_
    refine Prog.meets_pure ((set_buffer_same m s hposted).toFrame.trans ?_)
    exact set_desc_consumed_frame _ s _

theorem transfer_frame (slot_id : Int) (s : SdeSubsystem) (size : BitVec 64) (m : SdeMgmt) :
    (transfer slot_id s size m).Meets A Plain fun r => Frame m r.2 := by
  unfold transfer
  split
  · exact fault_meets (fun _ => trivial) _ _
  · refine Prog.meets_bind (Prog.meets_mono (wait_credit_passive _ _ _ _) passive_plain fun _ h => h)
      fun (ret : Int) _ => ?_
    split
    · exact Prog.meets_pure (.refl m)
    · exact Prog.meets_bind (post_desc_frame _ _ _ _) fun r hr => Prog.meets_pure hr

theorem wait_md_passive (m : SdeMgmt) (rounds : Nat) :
    (wait_md m rounds).Meets A Passive fun _ => True := by
  induction rounds with
  | zero => trivial
  | succ rounds ih =>
    refine Prog.meets_op_bind trivial fun status _ => ?_
    split
    · trivial
    · exact ih

theorem read_md_same (slot_id : Int) (m : SdeMgmt) :
    (sde_mgmt_read_md slot_id m).Meets A Passive fun r => Same m r.2.2 := by
  refine meets_checked (fun _ => Prog.meets_pure (.refl m)) fun _ => ?_
  refine Prog.meets_bind (wait_md_passive _ _) fun done _ => ?_
  split
  · exact Prog.meets_pure (.refl m)
  · iterate 5 refine Prog.meets_op_bind trivial fun _ _ => ?_
    exact Prog.meets_pure ⟨⟨rfl, rfl, rfl⟩, fun s => (by cases s <;> rfl),
      fun s => (by cases s <;> rfl), fun s => (by cases s <;> rfl)⟩

theorem read_data_same (slot_id : Int) (size rounds : Nat) (data : List (BitVec 8)) (m : SdeMgmt) :
    (read_data_loop slot_id size rounds data m).Meets A Passive fun r => Same m r.2.2 := by
  induction rounds generalizing data m with
  | zero =>
    unfold read_data_loop
    split
    · exact fault_meets (fun _ => trivial) _ _
    · exact Prog.meets_pure (.refl m)
  | succ rounds ih =>
    unfold read_data_loop
    split
    case isFalse => exact Prog.meets_pure (.refl m)
    case isTrue =>
      refine Prog.meets_bind (read_md_same _ _) ?_
      rintro ⟨ret, md, m'⟩ hm'
      dsimp only
      split
      · exact Prog.meets_pure hm'
      · refine Prog.meets_bind (read_loop_passive _ _ _) fun r hr => ?_
        refine Prog.meets_mono (ih _ _) (fun _ h => h) fun r' hr' => ?_
        exact (hm'.trans (set_buffer_same m' .c2h hr)).trans hr'

theorem prepare_write_same (rounds : Nat) (data : List (BitVec 8)) (m : SdeMgmt) :
    (prepare_write_loop rounds data m).Meets A Passive fun m' => Same m m' := by
  induction rounds generalizing data m with
  | zero =>
    unfold prepare_write_loop
    split
    · exact fault_meets (fun _ => trivial) _ _
    · exact Prog.meets_pure (.refl m)
  | succ rounds ih =>
    unfold prepare_write_loop
    split
    case isFalse => exact Prog.meets_pure (.refl m)
    case isTrue =>
      refine Prog.meets_bind (write_loop_passive _ _ _) fun b hb => ?_
      refine Prog.meets_mono (ih _ _) (fun _ h => h) fun m' hm' => ?_
      exact (set_buffer_same m .h2c hb).trans hm'

/-- The calls that look at the device and copy packet data. -/
def SdeCall.IsPassive : SdeCall → Prop
  | .check_status _ => True
  | .set_dma_buffers .. => True
  | .wait_desc_credit .. => True
  | .read_md => True
  | .read_data .. => True
  | .prepare_write _ => True
  | _ => False

theorem body_same (slot_id : Int) (m : SdeMgmt) {call : SdeCall} (h : call.IsPassive) :
    (call.body slot_id m).Meets A Passive fun r => Same m r.2 := by
  have hchecked : ∀ {k : Prog SdeApi (Int × SdeMgmt)}, k.Meets A Passive (fun r => Same m r.2) →
      (checked slot_id m (fun ret => pure (ret, m)) k).Meets A Passive fun r => Same m r.2 :=
    fun hk => meets_checked (fun _ => Prog.meets_pure (.refl m)) fun _ => hk
  cases call with
  | check_status s =>
    refine Prog.meets_bind (Q := fun _ => True) (meets_checked (fun _ => trivial) fun _ => ?_)
      fun _ _ => Prog.meets_pure (.refl m)
    refine Prog.meets_op_bind trivial fun status _ => ?_
    split <;> trivial
  | set_dma_buffers s sde_buffers num_buffers =>
    refine hchecked ?_
    split
    · exact Prog.meets_pure (.refl m)
    · split
      · exact Prog.meets_pure (.refl m)
      · exact Prog.meets_pure (set_buffer_same m s (set_buffers_subsystem _ _ _))
  | wait_desc_credit s num_desc =>
    exact Prog.meets_bind (wait_credit_passive _ _ _ _) fun _ _ => Prog.meets_pure (.refl m)
  | read_md => exact Prog.meets_bind (read_md_same _ _) fun r hr => Prog.meets_pure hr
  | read_data size rounds =>
    refine Prog.meets_bind (Q := fun r => Same m r.2.2)
      (meets_checked (fun _ => Prog.meets_pure (.refl m)) fun _ => ?_) fun r hr => Prog.meets_pure hr
    split
    · exact Prog.meets_pure (.refl m)
    · exact read_data_same _ _ _ _ _
  | prepare_write data =>
    refine hchecked ?_
    split
    · exact Prog.meets_pure (.refl m)
    · exact Prog.meets_bind (prepare_write_same _ _ _) fun m' hm' => Prog.meets_pure hm'
  | _ => exact h.elim

end Frames

/-! ## A slot that was opened -/

/-- The memory for buffers of the user: two mappings. -/
def userMem : SdeMem :=
  { SdeMem.zero with
    c2h_writeback := { writeback_layout .c2h with memory_va := 0x10000, memory_pa := 0x10000 }
    h2c_writeback := { writeback_layout .h2c with memory_va := 0x20000, memory_pa := 0x20000 }
    c2h_layout := .user_managed
    h2c_layout := .user_managed }

def userOpened (packet_size : BitVec 64) : SdeMgmt :=
  { SdeMgmt.zero with
    mem := userMem
    hw_ctrl := ⟨0, 0, 1, 2, true⟩
    c2h_buffer := sde_dma_buffer_init .user_managed .c2h packet_size userMem
    h2c_buffer := sde_dma_buffer_init .user_managed .h2c packet_size userMem
    c2h_status := (sde_mem_get_status userMem .c2h).1
    h2c_status := (sde_mem_get_status userMem .h2c).1
    metadata := (sde_mem_get_metadata userMem).1
    data_pattern := START_DOUBLE_WORD
    initialized := true }

def openCalls : List SdeApi.Event :=
  [⟨.map_anon (.writeback .c2h) (writeback_layout .c2h).memory_size,
    ((0 : Int), (0x10000 : BitVec 64), (0x10000 : BitVec 64))⟩,
  ⟨.map_anon (.writeback .h2c) (writeback_layout .h2c).memory_size,
    ((0 : Int), (0x20000 : BitVec 64), (0x20000 : BitVec 64))⟩,
  ⟨.pci (.attach 0 FPGA_APP_PF APP_PF_BAR0 0), ((0 : Int), (0 : Int))⟩,
  ⟨.pci (.attach 0 FPGA_APP_PF APP_PF_BAR4 0), ((0 : Int), (1 : Int))⟩,
  ⟨.pci (.attach 0 FPGA_APP_PF APP_PF_BAR4 BURST_CAPABLE), ((0 : Int), (2 : Int))⟩]

theorem userOpened_step {packet_size : BitVec 64} (hsize : packet_size.toNat ≤ 0x200000) :
    SlotStep .start 0 (.init .c2h packet_size .user_managed) 0 openCalls
      (Function.update Slots.start 0 (userOpened packet_size)) := by
  refine ⟨userOpened packet_size, ?_, rfl⟩
  change (sde_mgmt_init 0 .c2h packet_size .user_managed SdeMgmt.zero).Runs openCalls
    (0, userOpened packet_size)
  unfold sde_mgmt_init sde_mem_init
  rw [if_neg (by decide), if_neg (Nat.not_lt.mpr hsize)]
  exact ⟨((0 : Int), (0x10000 : BitVec 64), (0x10000 : BitVec 64)), _, rfl,
    ((0 : Int), (0x20000 : BitVec 64), (0x20000 : BitVec 64)), _, rfl,
    ((0 : Int), (0 : Int)), _, rfl, ((0 : Int), (1 : Int)), _, rfl, ((0 : Int), (2 : Int)), _, rfl,
    rfl, rfl⟩

end AwsFpga.Sde
