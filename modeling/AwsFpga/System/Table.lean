import AwsFpga.Lib.Effect
import AwsFpga.Mgmt.Lifecycle
import AwsFpga.Pci.Attach

/-!
# What the calls of `fpga_pci.h` do to the set of allocated entries

The table as its users see it: an attach takes an entry, a detach gives one
back. `fpga_pci.c` and the mailbox driver are shown to act so, and from there on
programs are judged by their calls alone.
-/

open Lib AwsFpga.Pci AwsFpga.Bars AwsFpga.Mbox AwsFpga.Mgmt

namespace AwsFpga.System

abbrev Entry : Type := Fin FPGA_PCI_BARS_MAX

def allocated (bars : BarTable) : Set Entry := {i | (bars i).allocated = true}

/-- Calls that take no entry and give none back. -/
def KeepsTable : PciOp → Prop
  | .attach .. => False
  | .detach _ => False
  | _ => True

inductive Effect : PciApi.Event → Set Entry → Set Entry → Prop where
  | attached {slot_id pf_id bar_id flags handle i A} (hget : fpga_pci_bar_get handle = some i)
    (hfree : i ∉ A) : Effect ⟨.attach slot_id pf_id bar_id flags, ((0 : Int), handle)⟩ A (insert i A)
  | refused {slot_id pf_id bar_id flags ret handle A}
    (hret : ret ≠ 0 ∨ fpga_pci_bar_get handle = none) :
    Effect ⟨.attach slot_id pf_id bar_id flags, ((ret : Int), handle)⟩ A A
  | detached {handle i A} (hget : fpga_pci_bar_get handle = some i) :
    Effect ⟨.detach handle, (0 : Int)⟩ A (A \ {i})
  | kept {handle ret A} (hret : ret ≠ 0) : Effect ⟨.detach handle, (ret : Int)⟩ A A
  | other {o r A} (ho : KeepsTable o) : Effect ⟨o, r⟩ A A

/-! ## The table acts so -/

/-- No mapping is one that `fpga_pci_bar_set_mem_base_size` refuses. -/
def Mappable (e : OsApi.Event) : Prop :=
  ∀ map, newMapping [e] = some map → map.mem_base ≠ 0 ∧ map.mem_size ≠ 0

theorem mappable_newMapping {t : List OsApi.Event} (h : ∀ e ∈ t, Mappable e) {map : Mapping}
    (hmap : newMapping t = some map) : map.mem_base ≠ 0 ∧ map.mem_size ≠ 0 := by
  obtain ⟨e, he, hsome⟩ := List.exists_of_findSome?_eq_some hmap
  refine h e he map ?_
  unfold newMapping
  rw [List.findSome?_cons, hsome]

variable {bars bars' : BarTable} {t : List OsApi.Event}

theorem attach_effect {slot_id pf_id bar_id : Int} {flags : BitVec 32} {old ret handle : Int}
    (h : Exec (Bars.fpga_pci_attach slot_id pf_id bar_id flags old) bars t (ret, handle) bars')
    (ht : ∀ e ∈ t, Mappable e) :
    Effect ⟨.attach slot_id pf_id bar_id flags, (ret, handle)⟩ (allocated bars)
      (allocated bars') := by
  cases fpga_pci_attach_spec _ _ _ _ _ h with
  | refused hret _ => exact .refused (.inl hret)
  | full => exact .refused (.inr fpga_pci_bar_get_init)
  | unset hpre hmap hfree hbad htail =>
    obtain ⟨hbase, hsize⟩ := mappable_newMapping ht (newMapping_mapped hpre hmap)
    rcases hbad with hbase' | hsize'
    · exact absurd hbase' hbase
    · exact absurd hsize' hsize
  | @attached _ _ _ map i hpre hmap hfree hbase hsize =>
    have hfresh : i ∉ allocated bars := by
      intro hi
      have := first_free_not_allocated hfree
      rw [hi] at this
      cases this
    have hset : allocated (Function.update bars i ⟨true, map.mem_base, map.mem_size⟩) =
        insert i (allocated bars) := by
      ext j
      by_cases hij : j = i
      · simp [allocated, hij]
      · simp [allocated, hij]
    rw [hset]
    exact .attached (toIndex_val i) hfresh

theorem detach_effect {handle ret : Int}
    (h : Exec (Bars.fpga_pci_detach handle) bars t ret bars') :
    Effect ⟨.detach handle, ret⟩ (allocated bars) (allocated bars') := by
  rcases fpga_pci_detach_spec h with ⟨hret, rfl⟩ | ⟨i, rfl, hget, rfl⟩
  · exact .kept hret
  · have hset : allocated (Function.update bars i .zero) = allocated bars \ {i} := by
      ext j
      by_cases hij : j = i
      · simp [allocated, hij, FpgaPciBar.zero]
      · simp [allocated, hij]
    rw [hset]
    exact .detached hget

theorem peek_table {handle : Int} {offset : BitVec 64} {value : BitVec 32} {r : Int × BitVec 32}
    (h : Exec (Bars.fpga_pci_peek handle offset value) bars t r bars') : bars' = bars := by
  unfold Bars.fpga_pci_peek at h
  rw [exec_get_bind] at h
  split at h
  · exact ((exec_pure _ _ _ _ _).mp h).2.2
  · obtain ⟨_, _, rfl, hk⟩ := (exec_op_bind (I := OsApi) _ _ _ _ _ _).mp h
    exact ((exec_pure _ _ _ _ _).mp hk).2.2

theorem poke_table {handle : Int} {offset : BitVec 64} {value : BitVec 32} {ret : Int}
    (h : Exec (Bars.fpga_pci_poke handle offset value) bars t ret bars') : bars' = bars := by
  unfold Bars.fpga_pci_poke at h
  rw [exec_get_bind] at h
  split at h
  · exact ((exec_pure _ _ _ _ _).mp h).2.2
  · obtain ⟨_, _, rfl, hk⟩ := (exec_op_bind (I := OsApi) _ _ _ _ _ _).mp h
    exact ((exec_pure _ _ _ _ _).mp hk).2.2

theorem keepsTable_exec {old : Int} {o : PciOp} {r : o.Ans}
    (h : Exec (barsImpl old o) bars t r bars') (ho : KeepsTable o) : bars' = bars := by
  have hos : ∀ (o : PciOp) (r : o.Ans), Exec (os (.sysfs o)) bars t r bars' → bars' = bars :=
    fun o r h => ((exec_op (I := OsApi) (.sysfs o) r bars bars' t).mp h).2
  cases o with
  | attach => exact ho.elim
  | detach => exact ho.elim
  | init => exact ((exec_pure _ _ _ _ _).mp h).2.2
  | peek => exact peek_table h
  | poke => exact poke_table h
  | get_slot_spec slot_id =>
    obtain ⟨_, _, rfl, hk⟩ := (exec_op_bind (I := OsApi) _ _ _ _ _ _).mp h
    exact ((exec_pure _ _ _ _ _).mp hk).2.2
  | get_resource_map slot_id pf_id => exact hos (.get_resource_map slot_id pf_id) r h
  | rescan_slot_app_pfs slot_id => exact hos (.rescan_slot_app_pfs slot_id) r h
  | msleep ms => exact hos (.msleep ms) r h
  | rand => exact hos (.rand) r h

/-- `fpga_pci.c` refines the set of entries, as long as every new mapping can be recorded. -/
theorem barsImpl_effect {old : Int} {tp : List PciApi.Event}
    (h : Prog.Implements (barsImpl old) tp bars t bars') (ht : ∀ e ∈ t, Mappable e) :
    Trace Effect tp (allocated bars) (allocated bars') := by
  refine h.trace allocated ?_ ht
  intro o b t r b' hcall ht'
  cases o with
  | attach => exact attach_effect hcall ht'
  | detach => exact detach_effect hcall
  | _ =>
    rw [keepsTable_exec hcall trivial]
    exact .other trivial

theorem effect_keeps {e : PciApi.Event} {A A' : Set Entry} (he : KeepsTable e.1)
    (h : Effect e A A') : A' = A := by
  cases h with
  | attached => exact he.elim
  | refused => exact he.elim
  | detached => exact he.elim
  | kept => exact he.elim
  | other => rfl

/-! ## The mailbox driver -/

theorem ack_event_keeps (handle : Int) (val event : BitVec 32) :
    (ack_event handle val event).AllCalls KeepsTable := by
  unfold ack_event
  exact Prog.allCalls_ite ⟨trivial, fun _ => trivial⟩ trivial

theorem mbox_attach_keeps (handle : Int) (clear_state : Bool) :
    (fpga_hal_mbox_attach handle clear_state).AllCalls KeepsTable := by
  unfold fpga_hal_mbox_attach fpga_hal_mbox_reset
  refine Prog.allCalls_ite ?_ trivial
  refine Prog.allCalls_bind ?_ fun ret => Prog.allCalls_ite trivial trivial
  refine ⟨trivial, fun (ret, val) => Prog.allCalls_ite trivial ?_⟩
  refine Prog.allCalls_bind (ack_event_keeps _ _ _) fun ret => Prog.allCalls_ite trivial ?_
  exact Prog.allCalls_bind (ack_event_keeps _ _ _) fun ret => Prog.allCalls_ite trivial trivial

theorem mbox_get_versions_keeps (handle : Int) :
    (fpga_hal_mbox_get_versions handle).AllCalls KeepsTable :=
  ⟨trivial, fun _ => Prog.allCalls_ite trivial trivial⟩

theorem mbox_read_data_keeps (handle : Int) (n : Nat) :
    (fpga_hal_mbox_read_data handle n).AllCalls KeepsTable := by
  induction n with
  | zero => trivial
  | succ n ih =>
    refine ⟨trivial, fun (ret, m32) => Prog.allCalls_ite trivial ?_⟩
    exact Prog.allCalls_bind ih fun _ => trivial

theorem err_rx_ack_keeps (handle ret : Int) (stored : List (BitVec 32)) :
    (err_rx_ack handle ret stored).AllCalls KeepsTable :=
  ⟨trivial, fun _ => trivial⟩

theorem mbox_read_async_keeps (handle : Int) :
    (fpga_hal_mbox_read_async handle).AllCalls KeepsTable := by
  have hack := err_rx_ack_keeps handle
  refine ⟨trivial, fun (ret, val) => Prog.allCalls_ite trivial (Prog.allCalls_ite trivial ?_)⟩
  refine ⟨trivial, fun ((ret : Int), mb_rd_len) => Prog.allCalls_ite (hack _ _) ?_⟩
  refine Prog.allCalls_ite (hack _ _) (Prog.allCalls_ite (hack _ _) ?_)
  refine ⟨trivial, fun (ret : Int) => Prog.allCalls_ite (hack _ _) ?_⟩
  refine Prog.allCalls_bind (mbox_read_data_keeps handle _) fun (ret, stored) => ?_
  exact Prog.allCalls_ite (hack _ _) ⟨trivial, fun _ => trivial⟩

theorem mbox_read_keeps (mbox : FpgaHalMbox) (handle : Int) :
    (fpga_hal_mbox_read mbox handle).AllCalls KeepsTable := by
  unfold fpga_hal_mbox_read
  generalize mbox.timeout.toNat = count
  induction count with
  | zero => trivial
  | succ count ih =>
    refine Prog.allCalls_bind (mbox_read_async_keeps handle) fun (ret, stored) => ?_
    exact Prog.allCalls_ite trivial (Prog.allCalls_ite trivial ⟨trivial, fun _ => ih⟩)

theorem mbox_tc_ack_keeps (handle : Int) :
    (fpga_hal_mbox_write_async_tc_ack handle).AllCalls KeepsTable := by
  refine ⟨trivial, fun (ret, val) => Prog.allCalls_ite trivial (Prog.allCalls_ite ?_ trivial)⟩
  exact ⟨trivial, fun (ret : Int) => Prog.allCalls_ite trivial trivial⟩

theorem mbox_write_data_keeps (handle : Int) (msg : List (BitVec 32)) :
    (fpga_hal_mbox_write_data handle msg).AllCalls KeepsTable := by
  induction msg with
  | nil => trivial
  | cons m32 rest ih => exact ⟨trivial, fun (ret : Int) => Prog.allCalls_ite trivial ih⟩

theorem mbox_write_keeps (mbox : FpgaHalMbox) (handle : Int) (msg : List (BitVec 32)) (len : Nat) :
    (fpga_hal_mbox_write mbox handle msg len).AllCalls KeepsTable := by
  have hasync : (fpga_hal_mbox_write_async handle msg len).AllCalls KeepsTable := by
    refine Prog.allCalls_ite trivial ?_
    refine Prog.allCalls_bind (mbox_tc_ack_keeps handle) fun (ret, _) => ?_
    refine Prog.allCalls_ite trivial ⟨trivial, fun (ret : Int) => Prog.allCalls_ite trivial ?_⟩
    refine Prog.allCalls_bind (mbox_write_data_keeps handle _) fun ret => ?_
    exact Prog.allCalls_ite trivial ⟨trivial, fun _ => trivial⟩
  unfold fpga_hal_mbox_write
  refine Prog.allCalls_bind hasync fun (ret : Int) => Prog.allCalls_ite trivial ?_
  generalize mbox.timeout.toNat = count
  induction count with
  | zero => trivial
  | succ count ih =>
    refine Prog.allCalls_bind (mbox_tc_ack_keeps handle) fun (ret, ack) => ?_
    exact Prog.allCalls_ite trivial (Prog.allCalls_ite trivial ⟨trivial, fun _ => ih⟩)

/-- What a call of the management library does, when the calls below it satisfy `P`. -/
def HalEffect (P : PciApi.Event → Prop) : HalApi.Event → Set Entry → Set Entry → Prop
  | ⟨.pci o, r⟩, A, A' => Effect ⟨o, r⟩ A A' ∧ P ⟨o, r⟩
  | _, A, A' => A' = A

theorem halImpl_effect {P : PciApi.Event → Prop} {th : List HalApi.Event} {tp : List PciApi.Event}
    {mbox mbox' : FpgaHalMbox} {A A' : Set Entry} (h : Prog.Implements halImpl th mbox tp mbox')
    (ht : Trace Effect tp A A') (hP : ∀ e ∈ tp, P e) : Trace (HalEffect P) th A A' := by
  refine h.lift ?_ (trace_and hP ht)
  intro o s t r s' x x' hcall htrace
  have hkeep : ∀ {α : Type} {p : Prog PciApi α} {a : α}, p.AllCalls KeepsTable →
      Exec (liftProg p) s t a s' → x' = x := by
    intro α p a hp hexec
    obtain ⟨hrun, -⟩ := (exec_liftProg _ _ _ _ _).mp hexec
    exact trace_frame (fun e y y' he hy => effect_keeps he hy.1) (Prog.runs_allCalls hp hrun) htrace
  cases o with
  | pci o =>
    obtain ⟨rfl, -⟩ := (exec_op (I := PciApi) _ _ _ _ _).mp hcall
    obtain ⟨y, hy, hnil⟩ := trace_cons.mp htrace
    rw [trace_nil.mp hnil]
    exact hy
  | mbox_init mbox =>
    obtain ⟨rfl, -, -⟩ : t = [] ∧ _ := (exec_pure _ _ _ _ _).mp hcall
    exact trace_nil.mp htrace
  | mbox_attach handle clear_state => exact hkeep (mbox_attach_keeps _ _) hcall
  | mbox_detach handle clear_state => exact hkeep (mbox_attach_keeps _ _) hcall
  | mbox_get_versions handle => exact hkeep (mbox_get_versions_keeps _) hcall
  | mbox_write handle msg len =>
    exact hkeep (mbox_write_keeps _ _ _ _) ((exec_get_bind _ _ _ _ _).mp hcall)
  | mbox_read handle => exact hkeep (mbox_read_keeps _ _) ((exec_get_bind _ _ _ _ _).mp hcall)

end AwsFpga.System
