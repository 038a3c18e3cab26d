import AwsFpga.Mbox.Hal

/-!
# What a mailbox write puts into the registers
-/

open Lib AwsFpga.Pci

namespace AwsFpga.Mbox

def IsWrReg (offset : BitVec 64) : Prop :=
  offset = FMB_REG_WR_INDEX ∨ offset = FMB_REG_WR_DATA ∨ offset = FMB_REG_WR_LEN

instance (offset : BitVec 64) : Decidable (IsWrReg offset) :=
  inferInstanceAs (Decidable (_ ∨ _ ∨ _))

def wrPoke? : PciApi.Event → Option (BitVec 64 × BitVec 32)
  | ⟨.poke _ offset value, _⟩ => if IsWrReg offset then some (offset, value) else none
  | _ => none

/-- The values written to the three registers of the write side, in order. -/
def wrPokes (t : List PciApi.Event) : List (BitVec 64 × BitVec 32) := t.filterMap wrPoke?

/-- A message of `len` bytes as it should go out. -/
def messagePokes (msg : List (BitVec 32)) (len : Nat) : List (BitVec 64 × BitVec 32) :=
  (FMB_REG_WR_INDEX, 0) :: (msg.take (len / 4)).map (fun m32 => (FMB_REG_WR_DATA, m32)) ++
    [(FMB_REG_WR_LEN, BitVec.ofNat 32 (len / 4))]

theorem wrPokes_append (t₁ t₂ : List PciApi.Event) :
    wrPokes (t₁ ++ t₂) = wrPokes t₁ ++ wrPokes t₂ := List.filterMap_append

/-! ## Calls that leave the write side alone -/

def NoWrPoke : PciOp → Prop
  | .poke _ offset _ => ¬ IsWrReg offset
  | _ => True

theorem wrPokes_nil (t : List PciApi.Event) (h : ∀ e ∈ t, NoWrPoke e.1) : wrPokes t = [] := by
  unfold wrPokes
  rw [List.filterMap_eq_nil_iff]
  rintro ⟨o, r⟩ he
  have ho : NoWrPoke o := h _ he
  cases o with
  | poke handle offset value => exact if_neg ho
  | _ => rfl

theorem tc_ack_noWrPoke (handle : Int) :
    (fpga_hal_mbox_write_async_tc_ack handle).AllCalls NoWrPoke := by
  unfold fpga_hal_mbox_write_async_tc_ack
  refine ⟨trivial, fun ⟨ret, val⟩ => ?_⟩
  change Prog.AllCalls (I := PciApi) NoWrPoke (if ret ≠ 0 then _ else _)
  split
  · trivial
  split
  · have hstatus : ¬ IsWrReg FMB_REG_STATUS := by decide
    refine ⟨hstatus, fun (ret : Int) => ?_⟩
    change Prog.AllCalls (I := PciApi) NoWrPoke (if ret ≠ 0 then _ else _)
    split <;> trivial
  · trivial

theorem write_loop_noWrPoke (mbox : FpgaHalMbox) (handle : Int) (count : Nat) :
    (fpga_hal_mbox_write_loop mbox handle count).AllCalls NoWrPoke := by
  induction count with
  | zero => trivial
  | succ count ih =>
    unfold fpga_hal_mbox_write_loop
    refine Prog.allCalls_bind (tc_ack_noWrPoke handle) fun ⟨ret, ack⟩ => ?_
    dsimp only
    split
    · trivial
    split
    · trivial
    · exact ⟨trivial, fun _ => ih⟩

/-! ## One message -/

theorem write_data_pokes (handle : Int) (msg : List (BitVec 32)) (t : List PciApi.Event) (ret : Int)
    (h : (fpga_hal_mbox_write_data handle msg).Runs t ret) :
    wrPokes t <+: msg.map (fun m32 => (FMB_REG_WR_DATA, m32)) ∧
      (ret = 0 → wrPokes t = msg.map fun m32 => (FMB_REG_WR_DATA, m32)) := by
  induction msg generalizing t with
  | nil =>
    obtain ⟨rfl, rfl⟩ := h
    exact ⟨List.prefix_refl _, fun _ => rfl⟩
  | cons m32 rest ih =>
    unfold fpga_hal_mbox_write_data at h
    rw [runs_poke] at h
    obtain ⟨ret', t', rfl, h⟩ := h
    have hcons : wrPokes (⟨.poke handle FMB_REG_WR_DATA m32, ret'⟩ :: t') =
        (FMB_REG_WR_DATA, m32) :: wrPokes t' := rfl
    rw [hcons, List.map_cons]
    split at h
    case isTrue hret =>
      obtain ⟨rfl, rfl⟩ := h
      refine ⟨?_, fun h0 => absurd h0 hret⟩
      exact List.prefix_cons_inj _ |>.mpr (List.nil_prefix)
    case isFalse =>
      obtain ⟨hpre, heq⟩ := ih t' h
      exact ⟨(List.prefix_cons_inj _).mpr hpre, fun h0 => by rw [heq h0]⟩

theorem write_async_pokes (handle : Int) (msg : List (BitVec 32)) (len : Nat)
    (t : List PciApi.Event) (ret : Int)
    (h : (fpga_hal_mbox_write_async handle msg len).Runs t ret) :
    wrPokes t <+: messagePokes msg len ∧ (ret = 0 → wrPokes t = messagePokes msg len) := by
  unfold fpga_hal_mbox_write_async at h
  dsimp only at h
  split at h
  case isTrue hlen =>
    obtain ⟨rfl, rfl⟩ := h
    exact ⟨List.nil_prefix, fun h0 => absurd h0 hlen⟩
  rw [Prog.runs_bind] at h
  obtain ⟨t₁, ⟨ret₁, ack⟩, t₂, rfl, htc, h⟩ := h
  rw [wrPokes_append, wrPokes_nil t₁ (Prog.runs_allCalls (tc_ack_noWrPoke handle) htc),
    List.nil_append]
  dsimp only at h
  split at h
  case isTrue hret =>
    obtain ⟨rfl, rfl⟩ := h
    exact ⟨List.nil_prefix, fun h0 => absurd h0 hret⟩
  rw [runs_poke] at h
  obtain ⟨ret₂, t₃, rfl, h⟩ := h
  have hcons : wrPokes (⟨.poke handle FMB_REG_WR_INDEX 0, ret₂⟩ :: t₃) =
      (FMB_REG_WR_INDEX, 0) :: wrPokes t₃ := rfl
  rw [hcons]
  unfold messagePokes
  rw [List.cons_append, List.prefix_cons_inj, List.cons.injEq]
  split at h
  case isTrue hret =>
    obtain ⟨rfl, rfl⟩ := h
    exact ⟨List.nil_prefix, fun h0 => absurd h0 hret⟩
  rw [Prog.runs_bind] at h
  obtain ⟨t₄, ret₃, t₅, rfl, hdata, h⟩ := h
  obtain ⟨hpre, heq⟩ := write_data_pokes handle _ t₄ ret₃ hdata
  rw [wrPokes_append]
  split at h
  case isTrue hret =>
    obtain ⟨rfl, rfl⟩ := h
    refine ⟨?_, fun h0 => absurd h0 hret⟩
    simpa [wrPokes] using hpre.trans (List.prefix_append _ _)
  case isFalse hret =>
    obtain ⟨ret₄, t₆, rfl, rfl, rfl⟩ := h
    rw [heq (not_not.mp hret)]
    exact ⟨List.prefix_refl _, fun _ => ⟨rfl, rfl⟩⟩

theorem fpga_hal_mbox_write_pokes (mbox : FpgaHalMbox) (handle : Int) (msg : List (BitVec 32))
    (len : Nat) (t : List PciApi.Event) (ret : Int)
    (h : (fpga_hal_mbox_write mbox handle msg len).Runs t ret) :
    wrPokes t <+: messagePokes msg len ∧ (ret = 0 → wrPokes t = messagePokes msg len) := by
  unfold fpga_hal_mbox_write at h
  rw [Prog.runs_bind] at h
  obtain ⟨t₁, ret₁, t₂, rfl, hasync, h⟩ := h
  obtain ⟨hpre, heq⟩ := write_async_pokes handle msg len t₁ ret₁ hasync
  rw [wrPokes_append]
  split at h
  case isTrue hret =>
    obtain ⟨rfl, rfl⟩ := h
    exact ⟨by simpa [wrPokes] using hpre, fun h0 => absurd h0 hret⟩
  case isFalse hret =>
    rw [wrPokes_nil t₂ (Prog.runs_allCalls (write_loop_noWrPoke mbox handle _) h),
      List.append_nil]
    exact ⟨hpre, fun _ => heq (not_not.mp hret)⟩

end AwsFpga.Mbox
