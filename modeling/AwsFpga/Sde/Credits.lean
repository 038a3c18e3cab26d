import AwsFpga.Lib.Credit
import AwsFpga.Sde.Calls
import AwsFpga.Sde.Engine
import AwsFpga.System.Owners

/-!
# Credits over the life of a slot

The driver posts as many descriptors as the limit that was written back last
allows. The room for them is in the descriptor RAM, which is emptied by the
hardware and by a reset.
-/

open Lib Lib.Credit AwsFpga.Pci

namespace AwsFpga.Sde

theorem dwords_pos (s : SdeSubsystem) : 0 < dwords s := by
  cases s <;> decide

/-! ## One engine -/

namespace Engine

variable {d : Engine} {s : SdeSubsystem} {used : BitVec 32} {granted sent : Nat}

/-- The account that the driver keeps with an engine, in dwords. -/
abbrev Account (d : Engine) (s : SdeSubsystem) (used : BitVec 32) (granted sent : Nat) : Prop :=
  Credit.Account DESC_RAM_DEPTH (dwords s) used d.cdt_limit d.desc_limit d.Armed granted sent
    (d.level s)

theorem pop_level (h : 0 < d.fifo) : d.pop.level s + dwords s = d.level s := by
  have hfifo : d.fifo = d.fifo - 1 + 1 := (Nat.sub_add_cancel h).symm
  unfold level
  rw [hfifo, Nat.add_mul]
  simp only [pop]
  omega

theorem push_level : (d.push s).level s = d.level s + 1 := by
  unfold push
  split
  case isTrue h =>
    simp only [level, Nat.add_mul]
    omega
  case isFalse => rfl

theorem fifo_le (h : d.level s ≤ DESC_RAM_DEPTH * dwords s) : d.fifo ≤ DESC_RAM_DEPTH := by
  unfold level at h
  exact Nat.le_of_mul_le_mul_right (by omega) (dwords_pos s)

theorem Account.pop (h : d.Account s used granted sent) (hgranted : granted ≤ DESC_RAM_DEPTH)
    (hfifo : 0 < d.fifo) : d.pop.Account s used granted sent := by
  refine Credit.Account.leave h (dwords_pos s) ?_ (pop_level hfifo)
  unfold DESC_RAM_DEPTH at *
  omega

theorem Account.push (h : d.Account s used granted sent) (hlt : sent < granted * dwords s) :
    (d.push s).Account s used granted (sent + 1) := by
  unfold Account
  rw [push_level]
  unfold Engine.push
  split <;> exact Credit.Account.send h hlt

theorem Account.write_back (h : d.Account s used granted sent) (harmed : d.Armed) :
    d.write_back.Account s used granted sent :=
  Credit.Account.refresh h harmed

/-- Nothing was posted since the reset, and the driver knows of no more room than there is. -/
structure Idle (d : Engine) (used : BitVec 32) : Prop where
  fifo : d.fifo = 0
  acc : d.acc = 0
  cdt_limit : d.cdt_limit = BitVec.ofNat 32 DESC_RAM_DEPTH
  used_le : used.toNat ≤ DESC_RAM_DEPTH
  desc_limit : avail d.desc_limit used ≤ avail d.cdt_limit used

theorem Idle.account (h : d.Idle used) : d.Account s used 0 0 := by
  have hlevel : d.level s = 0 := by
    unfold level
    rw [h.fifo, h.acc, Nat.zero_mul]
  have hlimit : d.cdt_limit.toNat = DESC_RAM_DEPTH := by
    rw [h.cdt_limit]
    rfl
  have hused := h.used_le
  rw [← hlimit] at hused
  unfold Account
  rw [hlevel]
  exact Credit.Account.restart hused hlimit h.desc_limit

theorem Idle.pop (h : d.Idle used) (hfifo : 0 < d.fifo) : d.pop.Idle used := by
  rw [h.fifo] at hfifo
  exact absurd hfifo (Nat.lt_irrefl 0)

theorem Idle.write_back (h : d.Idle used) : d.write_back.Idle used :=
  ⟨h.fifo, h.acc, h.cdt_limit, h.used_le, Nat.le_refl _⟩

theorem Idle.reset (h : d.Idle used) : d.reset.Idle used := by
  refine ⟨rfl, rfl, rfl, h.used_le, ?_⟩
  have hlimit := h.desc_limit
  rw [h.cdt_limit] at hlimit
  exact hlimit

theorem Idle.poke (h : d.Idle used) {offset : BitVec 64} (value : BitVec 32)
    (hoffset : offset ≠ DESC_RAM_MAP_OFFSET s) : (d.poke s offset value).Idle used := by
  unfold Engine.poke
  rw [if_neg hoffset]
  split
  · refine ⟨h.fifo, h.acc, rfl, h.used_le, ?_⟩
    have hlimit := h.desc_limit
    rw [h.cdt_limit] at hlimit
    exact hlimit
  · split
    · exact ⟨h.fifo, h.acc, h.cdt_limit, h.used_le, h.desc_limit⟩
    · split
      · exact ⟨h.fifo, h.acc, h.cdt_limit, h.used_le, h.desc_limit⟩
      · split
        · exact ⟨h.fifo, h.acc, h.cdt_limit, h.used_le, h.desc_limit⟩
        · exact h

/-- Just after a reset. -/
structure Cleared (d : Engine) (used : BitVec 32) : Prop where
  fifo : d.fifo = 0
  acc : d.acc = 0
  wb_ctl : d.wb_ctl = 0
  desc_limit : avail d.desc_limit used ≤ DESC_RAM_DEPTH

theorem Cleared.unarmed (h : d.Cleared used) : ¬ d.Armed := by
  rintro ⟨hctl, -⟩
  rw [h.wb_ctl] at hctl
  exact hctl rfl

theorem Cleared.account (h : d.Cleared used) : d.Account s used 0 0 := by
  have hlevel : d.level s = 0 := by
    unfold level
    rw [h.fifo, h.acc, Nat.zero_mul]
  unfold Account
  rw [hlevel]
  refine ⟨Nat.zero_le _, Nat.zero_le _, ?_, fun hlive => absurd hlive h.unarmed,
    fun hlive => absurd hlive h.unarmed⟩
  exact Nat.mul_le_mul_right _ h.desc_limit

theorem Cleared.pop (h : d.Cleared used) (hfifo : 0 < d.fifo) : d.pop.Cleared used := by
  rw [h.fifo] at hfifo
  exact absurd hfifo (Nat.lt_irrefl 0)

theorem Cleared.store (h : d.Cleared used) (hused : used.toNat ≤ DESC_RAM_DEPTH) :
    Cleared { d with desc_limit := BitVec.ofNat 32 DESC_RAM_DEPTH } used := by
  refine ⟨h.fifo, h.acc, h.wb_ctl, ?_⟩
  have hlimit : (BitVec.ofNat 32 DESC_RAM_DEPTH).toNat = DESC_RAM_DEPTH := rfl
  change avail (BitVec.ofNat 32 DESC_RAM_DEPTH) used ≤ DESC_RAM_DEPTH
  rw [avail_of_le (hlimit ▸ hused), hlimit]
  exact Nat.sub_le _ _

theorem Account.reset (h : d.Account s used 0 0) : d.reset.Cleared used := by
  refine ⟨rfl, rfl, rfl, ?_⟩
  have hroom : avail d.desc_limit used * dwords s ≤ DESC_RAM_DEPTH * dwords s := by
    have := h.room
    omega
  exact Nat.le_of_mul_le_mul_right hroom (dwords_pos s)

end Engine

/-! ## What the device does to the two engines -/

section Moves

variable {dev dev' : Device} {s : SdeSubsystem}

theorem set_dir (d : Engine) (s' : SdeSubsystem) :
    (dev.set s d).dir s' = if s' = s then d else dev.dir s' := by
  simp only [Device.set, Function.update_apply]

theorem moves_dir (h : Device.Moves dev dev') : dev'.bar = dev.bar ∧ ∀ s, dev'.dir s = dev.dir s ∨
    0 < (dev.dir s).fifo ∧ dev'.dir s = (dev.dir s).pop ∨
    (dev.dir s).Armed ∧ dev'.dir s = (dev.dir s).write_back := by
  cases h with
  | pop s₀ hfifo =>
    refine ⟨rfl, fun s => ?_⟩
    rw [set_dir]
    split
    case isTrue h =>
      subst h
      exact .inr (.inl ⟨hfifo, rfl⟩)
    case isFalse => exact .inl rfl
  | write_back s₀ harmed =>
    refine ⟨rfl, fun s => ?_⟩
    rw [set_dir]
    split
    case isTrue h =>
      subst h
      exact .inr (.inr ⟨harmed, rfl⟩)
    case isFalse => exact .inl rfl

theorem moves_status_va (h : Device.Moves dev dev') (s : SdeSubsystem) :
    (dev'.dir s).status_va = (dev.dir s).status_va := by
  obtain ⟨-, hdir⟩ := moves_dir h
  rcases hdir s with h | ⟨-, h⟩ | ⟨-, h⟩
  · rw [h]
  · rw [h]
    rfl
  · rw [h]
    rfl

end Moves

/-! ## What holds while a slot is open -/

/-- Neither RAM holds more than it has room for. -/
def Fits (dev : Device) : Prop := ∀ s, (dev.dir s).level s ≤ Engine.DESC_RAM_DEPTH * dwords s

/-- The handle and the status structs of the slot are those of the device. -/
structure Bound (m : SdeMgmt) (dev : Device) : Prop where
  bar0 : dev.bar m.hw_ctrl.bar0_handle = some APP_PF_BAR0
  status : ∀ s, m.status s = (dev.dir s).status_va

structure Open (m : SdeMgmt) (granted sent : SdeSubsystem → Nat) (dev : Device) : Prop
    extends Bound m dev where
  granted_le : ∀ s, granted s ≤ Engine.DESC_RAM_DEPTH
  account : ∀ s, (dev.dir s).Account s (m.desc_consumed s) (granted s) (sent s)

structure Quiet (m : SdeMgmt) (dev : Device) : Prop extends Bound m dev where
  idle : ∀ s, (dev.dir s).Idle (m.desc_consumed s)

structure Fresh (m : SdeMgmt) (dev : Device) : Prop extends Bound m dev where
  cleared : ∀ s, (dev.dir s).Cleared (m.desc_consumed s)

section Stable

variable {m m' : SdeMgmt} {granted sent : SdeSubsystem → Nat} {dev dev' : Device}

theorem fits_stable : Device.env.Stable Fits Fits where
  moves := by
    intro dev dev' h hmove s
    obtain ⟨-, hdir⟩ := moves_dir hmove
    have hs := h s
    rcases hdir s with heq | ⟨hfifo, heq⟩ | ⟨-, heq⟩
    · rw [heq]
      exact hs
    · rw [heq]
      have := Engine.pop_level (s := s) hfifo
      omega
    · rw [heq]
      exact hs
  inv := fun h => h

theorem Bound.moves (h : Bound m dev) (hmove : Device.Moves dev dev') : Bound m dev' where
  bar0 := by
    rw [(moves_dir hmove).1]
    exact h.bar0
  status := fun s => (h.status s).trans (moves_status_va hmove s).symm

theorem Open.fits (h : Open m granted sent dev) : Fits dev := fun s => (h.account s).level_le

theorem open_stable (m : SdeMgmt) (granted sent : SdeSubsystem → Nat) :
    Device.env.Stable Fits (Open m granted sent) where
  moves := by
    intro dev dev' h hmove
    refine ⟨h.toBound.moves hmove, h.granted_le, fun s => ?_⟩
    rcases (moves_dir hmove).2 s with heq | ⟨hfifo, heq⟩ | ⟨harmed, heq⟩
    · rw [heq]
      exact h.account s
    · rw [heq]
      exact (h.account s).pop (h.granted_le s) hfifo
    · rw [heq]
      exact (h.account s).write_back harmed
  inv := Open.fits

theorem quiet_stable (m : SdeMgmt) : Device.env.Stable Fits (Quiet m) where
  moves := by
    intro dev dev' h hmove
    refine ⟨h.toBound.moves hmove, fun s => ?_⟩
    rcases (moves_dir hmove).2 s with heq | ⟨hfifo, heq⟩ | ⟨-, heq⟩
    · rw [heq]
      exact h.idle s
    · rw [heq]
      exact (h.idle s).pop hfifo
    · rw [heq]
      exact (h.idle s).write_back
  inv := fun h s => (h.idle s).account.level_le

theorem fresh_stable (m : SdeMgmt) : Device.env.Stable Fits (Fresh m) where
  moves := by
    intro dev dev' h hmove
    refine ⟨h.toBound.moves hmove, fun s => ?_⟩
    rcases (moves_dir hmove).2 s with heq | ⟨hfifo, heq⟩ | ⟨harmed, heq⟩
    · rw [heq]
      exact h.cleared s
    · rw [heq]
      exact (h.cleared s).pop hfifo
    · exact absurd harmed (h.cleared s).unarmed
  inv := fun h s => (h.cleared s).account.level_le

/-- Nothing is being posted. -/
def none_granted : SdeSubsystem → Nat := fun _ => 0

theorem Bound.same (h : Bound m dev) (hm : Same m m') : Bound m' dev where
  bar0 := by
    rw [hm.hw_ctrl]
    exact h.bar0
  status := fun s => (hm.status s).trans (h.status s)

theorem Open.same (h : Open m granted sent dev) (hm : Same m m') : Open m' granted sent dev := by
  refine ⟨h.toBound.same hm, h.granted_le, fun s => ?_⟩
  rw [hm.desc_consumed]
  exact h.account s

theorem Quiet.open (h : Quiet m dev) : Open m none_granted none_granted dev :=
  ⟨h.toBound, fun _ => Nat.zero_le _, fun s => (h.idle s).account⟩

theorem Fresh.open (h : Fresh m dev) : Open m none_granted none_granted dev :=
  ⟨h.toBound, fun _ => Nat.zero_le _, fun s => (h.cleared s).account⟩

end Stable

/-! ## What the calls do -/

section Answers

variable {m : SdeMgmt} {granted sent : SdeSubsystem → Nat} {dev dev' : Device} {s : SdeSubsystem}

theorem answers_passive {o : SdeOp} (ho : Passive o) {r : o.Ans}
    (h : Device.Answers o dev r dev') : dev' = dev := by
  cases o with
  | status_load s va field =>
    cases field with
    | desc_limit => exact h.1
    | _ => exact h
  | pci => exact ho.elim
  | map_anon => exact ho.elim
  | map_huge => exact ho.elim
  | unmap => exact ho.elim
  | status_store => exact ho.elim
  | _ => exact h

theorem poke_bar (handle : Int) (offset : BitVec 64) (value : BitVec 32) :
    (dev.poke handle offset value).bar = dev.bar := by
  unfold Device.poke
  split
  · split <;> rfl
  · split <;> rfl

/-- A write to the window of the descriptors is seen by its own engine only. -/
theorem poke_desc (d : Engine) (s s' : SdeSubsystem) (value : BitVec 32) :
    d.poke s' (DESC_RAM_MAP_OFFSET s) value = if s' = s then d.push s' else d := by
  cases s <;> cases s' <;> rfl

theorem poke_status_va (d : Engine) (s : SdeSubsystem) (offset : BitVec 64) (value : BitVec 32) :
    (d.poke s offset value).status_va = d.status_va := by
  unfold Engine.poke
  split
  · unfold Engine.push
    split <;> rfl
  · split
    · rfl
    · split
      · rfl
      · split
        · rfl
        · split <;> rfl

theorem Bound.poke (h : Bound m dev) (handle : Int) (offset : BitVec 64) (value : BitVec 32) :
    Bound m (dev.poke handle offset value) where
  bar0 := by
    rw [poke_bar]
    exact h.bar0
  status := by
    intro s
    rw [h.status]
    unfold Device.poke
    split
    · split <;> rfl
    · split
      · exact (poke_status_va ..).symm
      · rfl

theorem Open.poke_desc (h : Open m granted sent dev) (hlt : sent s < granted s * dwords s)
    (handle : Int) (value : BitVec 32) :
    Open m granted (Function.update sent s (sent s + 1))
      (dev.poke handle (DESC_RAM_MAP_OFFSET s) value) := by
  refine ⟨h.toBound.poke .., h.granted_le, fun s' => ?_⟩
  have hlost : (dev.dir s').Account s' (m.desc_consumed s') (granted s')
      (Function.update sent s (sent s + 1) s') := by
    by_cases heq : s' = s
    · subst heq
      rw [Function.update_self]
      exact (h.account s').more (Nat.le_succ _) hlt
    · rw [Function.update_of_ne heq]
      exact h.account s'
  have hoffset : DESC_RAM_MAP_OFFSET s ≠ SDE_GENERAL_PURPOSE_CFG_REG := by
    cases s <;> decide
  unfold Device.poke
  split
  · rw [if_neg fun h => hoffset h.1]
    exact hlost
  · split
    · change ((dev.dir s').poke s' (DESC_RAM_MAP_OFFSET s) value).Account s' _ _ _
      rw [Sde.poke_desc]
      split
      case isTrue heq =>
        subst heq
        rw [Function.update_self]
        exact (h.account s').push hlt
      case isFalse => exact hlost
    · exact hlost

theorem Quiet.poke (h : Quiet m dev) {handle : Int} {offset : BitVec 64} {value : BitVec 32}
    (hcall : CfgCall m.hw_ctrl (.pci (.poke handle offset value))) :
    Quiet m (dev.poke handle offset value) := by
  refine ⟨h.toBound.poke .., fun s => ?_⟩
  unfold Device.poke
  split
  · split
    · exact (h.idle s).reset
    · exact h.idle s
  case isFalse hbar =>
    split
    · have hdesc : ∀ s, offset ≠ DESC_RAM_MAP_OFFSET s := by
        rcases hcall with ⟨rfl, -⟩ | hdesc
        · exact absurd h.bar0 hbar
        · exact hdesc
      exact (h.idle s).poke value (hdesc s)
    · exact h.idle s

theorem Open.poke_reset (h : Open m none_granted none_granted dev) {value : BitVec 32}
    (hvalue : value &&& GPCR_SDE_RESET_MASK ≠ 0) :
    Fresh m (dev.poke m.hw_ctrl.bar0_handle SDE_GENERAL_PURPOSE_CFG_REG value) := by
  refine ⟨h.toBound.poke .., fun s => ?_⟩
  unfold Device.poke
  rw [if_pos h.bar0, if_pos ⟨rfl, hvalue⟩]
  exact (h.account s).reset

theorem Fresh.poke (h : Fresh m dev) {value : BitVec 32} (hvalue : value &&& GPCR_SDE_RESET_MASK = 0) :
    dev.poke m.hw_ctrl.bar0_handle SDE_GENERAL_PURPOSE_CFG_REG value = dev := by
  unfold Device.poke
  rw [if_pos h.bar0, if_neg fun hc => hc.2 hvalue]

theorem Fresh.store (h : Fresh m dev) (hused : ∀ s, (m.desc_consumed s).toNat ≤ Engine.DESC_RAM_DEPTH)
    (s : SdeSubsystem) :
    Fresh m (dev.set s { dev.dir s with desc_limit := BitVec.ofNat 32 Engine.DESC_RAM_DEPTH }) := by
  refine ⟨⟨h.bar0, fun s' => ?_⟩, fun s' => ?_⟩
  · rw [h.status, set_dir]
    split
    case isTrue heq =>
      subst heq
      rfl
    case isFalse => rfl
  · rw [set_dir]
    split
    case isTrue heq =>
      subst heq
      exact (h.cleared s').store (hused s')
    case isFalse => exact h.cleared s'

end Answers

theorem safe_pci_bind {α : Type} {B : Device → Prop} (hB : Device.env.Stable Fits B) {dev : Device}
    (hb : B dev) {o : PciOp} {f : o.Ans → Prog PciApi α} {Q : α → Device → Prop}
    (h : ∀ dev r dev', B dev → Device.Answers (.pci o) dev r dev' →
      Device.env.Safe Fits Q (ofPci (f r)) dev') :
    Device.env.Safe Fits Q (ofPci (Prog.op (I := PciApi) o >>= f)) dev :=
  Env.safe_call hB hb h

/-! ## Posting -/

/-- Only this direction posts. -/
def only (s : SdeSubsystem) (n : Nat) : SdeSubsystem → Nat := fun s' => if s' = s then n else 0

@[simp] theorem only_self (s : SdeSubsystem) (n : Nat) : only s n s = n := if_pos rfl

theorem update_only (s : SdeSubsystem) (k k' : Nat) : Function.update (only s k) s k' = only s k' := by
  funext s'
  unfold only
  rw [Function.update_apply]
  split <;> rfl

theorem only_zero (s : SdeSubsystem) : only s 0 = none_granted := by
  funext s'
  exact ite_id 0

section Posting

variable {m : SdeMgmt} {dev : Device} {s : SdeSubsystem} {n k : Nat} {slot_id : Int}

theorem Open.grant (h : Open m none_granted none_granted dev) (hn : n ≤ Engine.DESC_RAM_DEPTH)
    (hle : n ≤ avail (dev.dir s).desc_limit (m.desc_consumed s)) :
    Open m (only s n) none_granted dev := by
  refine ⟨h.toBound, fun s' => ?_, fun s' => ?_⟩
  · unfold only
    split
    · exact hn
    · exact Nat.zero_le _
  · unfold only
    split
    case isTrue heq =>
      subst heq
      exact (h.account s').grant hle
    case isFalse => exact h.account s'

theorem Open.forgo (h : Open m (only s n) none_granted dev) : Open m none_granted none_granted dev :=
  ⟨h.toBound, fun _ => Nat.zero_le _, fun s' => (h.account s').forgo⟩

theorem Open.more {k' : Nat} (h : Open m (only s n) (only s k) dev) (hle : k ≤ k')
    (hmax : k' ≤ n * dwords s) : Open m (only s n) (only s k') dev := by
  refine ⟨h.toBound, h.granted_le, fun s' => ?_⟩
  refine (h.account s').more ?_ ?_
  · unfold only
    split
    · exact hle
    · exact Nat.le_refl _
  · unfold only
    split
    case isTrue heq =>
      subst heq
      exact hmax
    case isFalse => exact Nat.zero_le _

/-- What `sde_mgmt_post_desc` leaves when it is done, or gave up. -/
theorem Open.settle (h : Open m (only s n) (only s k) dev) (b : SdeDmaBuffer) :
    Open ((m.set_buffer s b).set_desc_consumed s
      ((m.set_buffer s b).desc_consumed s + BitVec.ofNat 32 n)) none_granted none_granted dev := by
  refine ⟨⟨?_, fun s' => ?_⟩, fun _ => Nat.zero_le _, fun s' => ?_⟩
  · rw [SdeMgmt.set_desc_consumed_hw_ctrl, SdeMgmt.set_buffer_hw_ctrl]
    exact h.bar0
  · rw [SdeMgmt.set_desc_consumed_status, SdeMgmt.set_buffer_status]
    exact h.status s'
  · rw [SdeMgmt.set_desc_consumed_desc_consumed, SdeMgmt.set_buffer_desc_consumed]
    have haccount := h.account s'
    split
    case isTrue heq =>
      subst heq
      rw [only_self] at haccount
      exact haccount.settle
    case isFalse heq =>
      rw [SdeMgmt.set_buffer_desc_consumed]
      unfold only at haccount
      rw [if_neg heq, if_neg heq] at haccount
      exact haccount

theorem checked_safe {α : Type} {fail : Int → Prog SdeApi α} {p : Prog SdeApi α}
    {Q : α → Device → Prop} (hfail : Device.env.Safe Fits Q (fail FPGA_ERR_SOFTWARE_PROBLEM) dev)
    (hp : m.initialized = true → Device.env.Safe Fits Q p dev) :
    Device.env.Safe Fits Q (checked slot_id m fail p) dev := by
  unfold checked
  split
  · exact hfail
  · split
    · exact hfail
    case isFalse h => exact hp (by simpa using h)

theorem wait_loop_safe (hn : n ≤ Engine.DESC_RAM_DEPTH) {rounds credits : Nat}
    (h : Open m none_granted none_granted dev) (hcredits : n ≤ credits → n = 0) :
    Device.env.Safe Fits (fun credits dev => Open m none_granted none_granted dev ∧
      (n ≤ credits → Open m (only s n) none_granted dev)) (wait_loop m s n rounds credits) dev := by
  induction rounds generalizing credits dev with
  | zero =>
    refine Env.safe_pure (open_stable _ _ _) h fun dev h => ⟨h, fun hle => ?_⟩
    rw [hcredits hle, only_zero]
    exact h
  | succ rounds ih =>
    refine Env.safe_op_bind (open_stable _ _ _) h fun dev (value : BitVec 32) dev' h hans => ?_
    obtain ⟨rfl, hvalue⟩ := hans
    have hlimit := hvalue (h.status s)
    dsimp only
    split
    case isTrue hlt => exact ih h fun hle => absurd hlt (Nat.not_lt.mpr hle)
    case isFalse hge =>
      have hle := Nat.not_lt.mp hge
      rw [hlimit] at hle
      refine Env.safe_pure (open_stable _ _ _) (h.grant hn hle) fun dev h => ?_
      exact ⟨h.forgo, fun _ => h⟩

theorem wait_credit_safe (h : Open m none_granted none_granted dev) :
    Device.env.Safe Fits (fun ret dev => Open m none_granted none_granted dev ∧
      (ret = 0 → Open m (only s n) none_granted dev))
      (sde_mgmt_wait_desc_credit slot_id s n m) dev := by
  have herror : ∀ ret : Int, ret ≠ 0 → ∀ {dev}, Open m none_granted none_granted dev →
      Device.env.Safe Fits (fun ret dev => Open m none_granted none_granted dev ∧
        (ret = 0 → Open m (only s n) none_granted dev)) (pure ret) dev :=
    fun ret hret dev h => Env.safe_pure (open_stable _ _ _) h
      fun dev h => ⟨h, fun hzero => absurd hzero hret⟩
  refine checked_safe (herror _ (by decide) h) fun _ => ?_
  split
  case isTrue => exact herror _ (by decide) h
  case isFalse hn =>
    have hn : n ≤ Engine.DESC_RAM_DEPTH := Nat.not_lt.mp hn
    refine Env.safe_bind (wait_loop_safe hn h fun hle => Nat.le_zero.mp hle) fun credits dev h => ?_
    split
    case isTrue => exact herror _ (by decide) h.1
    case isFalse hge =>
      refine Env.safe_pure (open_stable _ _ _) (h.2 (Nat.not_lt.mp hge)) fun dev h => ?_
      exact ⟨h.forgo, fun _ => h⟩

theorem post_dwords_safe {handle : Int} {descriptor : Nat → BitVec 32} {left index : Nat}
    (h : Open m (only s n) (only s k) dev) (hleft : k + left ≤ n * dwords s) :
    Device.env.Safe Fits (fun _ dev => Open m (only s n) (only s (k + left)) dev)
      (ofPci (post_dwords handle (DESC_RAM_MAP_OFFSET s) descriptor left index)) dev := by
  induction left generalizing k index dev with
  | zero => exact Env.safe_pure (open_stable _ _ _) h fun _ h => h
  | succ left ih =>
    refine safe_pci_bind (open_stable _ _ _) h fun dev (ret : Int) dev' h hans => ?_
    obtain rfl : dev' = if ret = 0 then
      dev.poke handle (DESC_RAM_MAP_OFFSET s) (descriptor index) else dev := hans
    by_cases hret : ret = 0
    · rw [if_pos hret, if_neg (not_not.mpr hret)]
      have hpoke := h.poke_desc (by rw [only_self, only_self]; omega) handle (descriptor index)
      rw [only_self, update_only] at hpoke
      rw [show k + (left + 1) = k + 1 + left by omega]
      exact ih hpoke (by omega)
    · rw [if_neg hret, if_pos hret]
      refine Env.safe_pure (open_stable _ _ _) h fun dev h => ?_
      exact h.more (by omega) hleft

theorem post_descriptor_safe {ctrl : Option SdeHwCtrl} {descriptor : Nat → BitVec 32} {num_desc : Nat}
    (h : Open m (only s n) (only s k) dev) (hleft : k + num_desc * dwords s ≤ n * dwords s) :
    Device.env.Safe Fits (fun _ dev => Open m (only s n) (only s (k + num_desc * dwords s)) dev)
      (ofPci (sde_hw_post_descriptor ctrl descriptor num_desc s)) dev := by
  have herror : ∀ ret : Int, Device.env.Safe Fits
      (fun _ dev => Open m (only s n) (only s (k + num_desc * dwords s)) dev)
      (ofPci (pure ret)) dev :=
    fun ret => Env.safe_pure (open_stable _ _ _) h fun dev h => h.more (Nat.le_add_right _ _) hleft
  cases ctrl with
  | none => exact herror _
  | some ctrl =>
    unfold sde_hw_post_descriptor
    dsimp only
    split
    · exact herror _
    · exact post_dwords_safe h hleft

theorem post_loop_safe {ctrl : Option SdeHwCtrl} {fuel posted_desc : Nat} {b : SdeDmaBuffer}
    (hb : b.subsystem = s) (hposted : posted_desc ≤ n)
    (h : Open m (only s n) (only s (posted_desc * dwords s)) dev) :
    Device.env.Safe Fits (fun r dev => r.num_desc = n ∧ r.dma_buffer.subsystem = s ∧
      ∃ k, Open m (only s n) (only s k) dev) (post_loop ctrl n fuel posted_desc b) dev := by
  induction fuel generalizing posted_desc b dev with
  | zero =>
    unfold post_loop
    split
    · exact Env.safe_call (open_stable _ _ _) h fun _ (r : Empty) => r.elim
    case isFalse hge =>
      have heq := Nat.le_antisymm hposted (Nat.not_lt.mp hge)
      exact Env.safe_pure (open_stable _ _ _) h fun dev h => ⟨heq, hb, _, h⟩
  | succ fuel ih =>
    unfold post_loop
    split
    case isFalse hge =>
      have heq := Nat.le_antisymm hposted (Nat.not_lt.mp hge)
      exact Env.safe_pure (open_stable _ _ _) h fun dev h => ⟨heq, hb, _, h⟩
    case isTrue hlt =>
      dsimp only
      generalize hpost : (if (b.num_desc + 2 ^ 64 - b.curr_desc_index_to_post) % 2 ^ 64 <
        n - posted_desc then (b.num_desc + 2 ^ 64 - b.curr_desc_index_to_post) % 2 ^ 64
        else n - posted_desc) = num_desc_to_post
      have hle : posted_desc + num_desc_to_post ≤ n := by
        split at hpost <;> omega
      have hleft : posted_desc * dwords s + num_desc_to_post * dwords s ≤ n * dwords s := by
        rw [← Nat.add_mul]
        exact Nat.mul_le_mul_right _ hle
      rw [hb]
      refine Env.safe_bind (post_descriptor_safe h hleft) fun (ret : Int) dev h => ?_
      rw [← Nat.add_mul] at h
      split
      · exact Env.safe_pure (open_stable _ _ _) h fun dev h => ⟨rfl, hb, _, h⟩
      · split
        · exact Env.safe_call (open_stable _ _ _) h fun _ (r : Empty) => r.elim
        · exact ih rfl hle h

end Posting

/-! ## Between the calls -/

structure Rest (m : SdeMgmt) (dev : Device) : Prop where
  fits : Fits dev
  live : m.initialized = true →
    (∀ s, (m.buffer s).subsystem = s) ∧ Open m none_granted none_granted dev

section Calls

variable {m : SdeMgmt} {dev : Device} {s : SdeSubsystem} {slot_id : Int}

theorem rest_stable (m : SdeMgmt) : Device.env.Stable Fits (Rest m) where
  moves := fun h hmove => ⟨fits_stable.moves h.fits hmove, fun hinit =>
    ⟨(h.live hinit).1, (open_stable _ _ _).moves (h.live hinit).2 hmove⟩⟩
  inv := Rest.fits

theorem rest_of_open (hbuffer : ∀ s, (m.buffer s).subsystem = s)
    (h : Open m none_granted none_granted dev) : Rest m dev :=
  ⟨h.fits, fun _ => ⟨hbuffer, h⟩⟩

theorem rest_pure {ret : Int} (h : Rest m dev) :
    Device.env.Safe Fits (fun r dev => Rest r.2 dev) (pure (ret, m) : Prog SdeApi (Int × SdeMgmt)) dev :=
  Env.safe_pure (rest_stable m) h fun _ h => h

theorem Rest.same {m' : SdeMgmt} (h : Rest m dev) (hm : Same m m') : Rest m' dev := by
  refine ⟨h.fits, fun hinit => ?_⟩
  rw [hm.initialized] at hinit
  obtain ⟨hbuffer, hopen⟩ := h.live hinit
  exact ⟨fun s => (hm.subsystem s).trans (hbuffer s), hopen.same hm⟩

theorem passive_safe (h : Rest m dev) {call : SdeCall} (hcall : call.IsPassive) :
    Device.env.Safe Fits (fun r dev => Rest r.2 dev) (call.body slot_id m) dev := by
  refine Env.safe_mono (Env.safe_of_meets (rest_stable m) ?_ (body_same slot_id m hcall) h) ?_
  · intro o dev r dev' ho h hans
    rw [answers_passive ho hans]
    exact h
  · exact fun r dev h => h.2.same h.1

theorem post_desc_safe {n : Nat} (hbuffer : ∀ s, (m.buffer s).subsystem = s)
    (h : Open m (only s n) none_granted dev) :
    Device.env.Safe Fits (fun r dev => Rest r.2.2 dev) (sde_mgmt_post_desc slot_id s n m) dev := by
  have herror : ∀ r : Int × Nat × SdeMgmt, r.2.2 = m →
      Device.env.Safe Fits (fun r dev => Rest r.2.2 dev) (pure r) dev := by
    rintro r rfl
    exact Env.safe_pure (open_stable _ _ _) h fun dev h => rest_of_open hbuffer h.forgo
  refine checked_safe (herror _ rfl) fun _ => ?_
  split
  · exact herror _ rfl
  · rw [← only_zero s, ← Nat.zero_mul (dwords s)] at h
    refine Env.safe_bind (post_loop_safe (hbuffer s) (Nat.zero_le n) h) ?_
    rintro ⟨ret, num_desc, b⟩ dev ⟨hnum, hb, k, h⟩
    dsimp only at hnum hb ⊢
    subst hnum
    refine Env.safe_pure (open_stable _ _ _) (h.settle b) fun dev h => rest_of_open ?_ h
    intro s'
    rw [SdeMgmt.set_desc_consumed_buffer, SdeMgmt.set_buffer_buffer]
    split
    case isTrue heq =>
      rw [heq]
      exact hb
    case isFalse => exact hbuffer s'

theorem transfer_safe {size : BitVec 64} (hbuffer : ∀ s, (m.buffer s).subsystem = s)
    (h : Open m none_granted none_granted dev) :
    Device.env.Safe Fits (fun r dev => Rest r.2 dev) (transfer slot_id s size m) dev := by
  unfold transfer
  split
  · exact Env.safe_call (open_stable _ _ _) h fun _ (r : Empty) => r.elim
  · refine Env.safe_bind (wait_credit_safe h) fun (ret : Int) dev h => ?_
    split
    · exact rest_pure (rest_of_open hbuffer h.1)
    case isFalse hret =>
      refine Env.safe_bind (post_desc_safe hbuffer (h.2 (not_not.mp hret))) ?_
      rintro ⟨ret, num_desc, m'⟩ dev h
      exact rest_pure h

theorem start_read_safe {size : BitVec 64} (hbuffer : ∀ s, (m.buffer s).subsystem = s)
    (h : Open m none_granted none_granted dev) :
    Device.env.Safe Fits (fun r dev => Rest r.2 dev) (sde_mgmt_start_read slot_id size m) dev := by
  refine checked_safe (rest_pure (rest_of_open hbuffer h)) fun _ => ?_
  split
  · exact transfer_safe hbuffer h
  · exact rest_pure (rest_of_open hbuffer h)

theorem write_safe {size : BitVec 64} (hbuffer : ∀ s, (m.buffer s).subsystem = s)
    (h : Open m none_granted none_granted dev) :
    Device.env.Safe Fits (fun r dev => Rest r.2 dev) (sde_mgmt_write slot_id size m) dev := by
  refine checked_safe (rest_pure (rest_of_open hbuffer h)) fun _ => ?_
  split
  · exact rest_pure (rest_of_open hbuffer h)
  · exact transfer_safe hbuffer h

/-! ### Reset -/

/-- The calls after the pulse of a reset. -/
def FreshCall (m : SdeMgmt) : SdeOp → Prop
  | .pci (.poke handle offset value) => handle = m.hw_ctrl.bar0_handle ∧
    offset = SDE_GENERAL_PURPOSE_CFG_REG ∧ value &&& GPCR_SDE_RESET_MASK = 0
  | .pci (.peek ..) => True
  | .status_store s va field value =>
    va = m.status s ∧ (field = .desc_limit → value = BitVec.ofNat 32 Engine.DESC_RAM_DEPTH)
  | _ => False

theorem answers_fresh (hused : ∀ s, (m.desc_consumed s).toNat ≤ Engine.DESC_RAM_DEPTH) (o : SdeOp)
    (dev : Device) (r : o.Ans) (dev' : Device) (ho : FreshCall m o) (h : Fresh m dev)
    (hans : Device.Answers o dev r dev') : Fresh m dev' := by
  cases o with
  | pci o =>
    cases o with
    | poke handle offset value =>
      obtain ⟨rfl, rfl, hvalue⟩ := ho
      revert r
      intro (ret : Int) hans
      obtain rfl : dev' = if ret = 0 then
        dev.poke m.hw_ctrl.bar0_handle SDE_GENERAL_PURPOSE_CFG_REG value else dev := hans
      rw [h.poke hvalue, ite_id]
      exact h
    | peek =>
      obtain rfl : dev' = dev := hans
      exact h
    | _ => exact ho.elim
  | status_store s va field value =>
    obtain ⟨rfl, hlimit⟩ := ho
    cases field with
    | desc_limit =>
      obtain rfl := hlimit rfl
      rw [show dev' = _ from hans, if_pos (h.status s)]
      exact h.store hused s
    | _ =>
      obtain rfl : dev' = dev := hans
      exact h
  | _ => exact ho.elim

theorem fresh_safe (hused : ∀ s, (m.desc_consumed s).toNat ≤ Engine.DESC_RAM_DEPTH) {α : Type}
    {p : Prog SdeApi α} {R : α → Prop} (hp : p.Meets (fun _ _ => True) (FreshCall m) R)
    (h : Fresh m dev) : Device.env.Safe Fits (fun a dev => R a ∧ Fresh m dev) p dev :=
  Env.safe_of_meets (fresh_stable m) (answers_fresh hused) hp h

theorem pulse_safe (h : Open m none_granted none_granted dev) {value expected_value mask : BitVec 32}
    (hvalue : value &&& GPCR_SDE_RESET_MASK ≠ 0) :
    Device.env.Safe Fits (fun ret dev => Open m none_granted none_granted dev ∧ (ret = 0 → Fresh m dev))
      (ofPci (poke_and_verify m.hw_ctrl.bar0_handle SDE_GENERAL_PURPOSE_CFG_REG value expected_value
        mask)) dev := by
  unfold poke_and_verify
  refine safe_pci_bind (open_stable _ _ _) h fun dev (ret : Int) dev' h hans => ?_
  obtain rfl : dev' = if ret = 0 then
    dev.poke m.hw_ctrl.bar0_handle SDE_GENERAL_PURPOSE_CFG_REG value else dev := hans
  by_cases hret : ret = 0
  · rw [if_pos hret, if_neg (not_not.mpr hret)]
    refine safe_pci_bind (fresh_stable m) (h.poke_reset hvalue) ?_
    intro dev (r : Int × BitVec 32) dev' h hans
    obtain rfl : dev' = dev := hans
    have hpure : ∀ ret : Int, Device.env.Safe Fits (fun ret dev =>
        Open m none_granted none_granted dev ∧ (ret = 0 → Fresh m dev)) (ofPci (pure ret)) dev' :=
      fun ret => Env.safe_pure (fresh_stable m) h fun dev h => ⟨h.open, fun _ => h⟩
    dsimp only
    split
    · exact hpure _
    · split
      · exact hpure _
      · exact hpure _
  · rw [if_neg hret, if_pos hret]
    exact Env.safe_pure (open_stable _ _ _) h fun dev h => ⟨h, fun hzero => absurd hzero hret⟩

theorem hw_reset_safe (hused : ∀ s, (m.desc_consumed s).toNat ≤ Engine.DESC_RAM_DEPTH)
    (h : Open m none_granted none_granted dev) :
    Device.env.Safe Fits (fun ret dev => Open m none_granted none_granted dev ∧ (ret = 0 → Fresh m dev))
      (ofPci (sde_hw_reset (some m.hw_ctrl))) dev := by
  have herror : ∀ ret : Int, ret ≠ 0 → ∀ {dev}, Open m none_granted none_granted dev →
      Device.env.Safe Fits (fun ret dev => Open m none_granted none_granted dev ∧
        (ret = 0 → Fresh m dev)) (ofPci (pure ret)) dev :=
    fun ret hret dev h => Env.safe_pure (open_stable _ _ _) h
      fun dev h => ⟨h, fun hzero => absurd hzero hret⟩
  have hset : ∀ gpcr value, SDE_SET_BITFIELD GPCR_SDE_RESET_MASK 0 value gpcr &&&
      GPCR_SDE_RESET_MASK = value &&& GPCR_SDE_RESET_MASK := by
    intro gpcr value
    rw [set_bitfield_and, BitVec.shiftLeft_zero]
  unfold sde_hw_reset
  dsimp only
  split
  · exact herror _ (by decide) h
  · refine safe_pci_bind (open_stable _ _ _) h fun dev (r : Int × BitVec 32) dev' h hans => ?_
    obtain rfl : dev' = dev := hans
    split
    case isTrue hret => exact herror _ hret h
    case isFalse =>
      unfold poke_all
      rw [ofPci_bind]
      refine Env.safe_bind (pulse_safe h ?_) fun (ret : Int) dev h => ?_
      · rw [hset]
        decide
      · split
        case isTrue hret => exact herror _ hret h.1
        case isFalse hret =>
          have hcalls : ∀ gpcr, (ofPci (poke_all m.hw_ctrl.bar0_handle
              [⟨SDE_GENERAL_PURPOSE_CFG_REG, SDE_SET_BITFIELD GPCR_SDE_RESET_MASK 0 0 gpcr, 0,
                GPCR_SDE_RESET_MASK⟩])).Meets (fun _ _ => True) (FreshCall m) fun _ => True := by
            intro gpcr
            refine meets_ofPci (poke_all_calls ?_ fun _ => trivial)
            intro w hw
            obtain rfl := List.mem_singleton.mp hw
            exact ⟨rfl, rfl, by rw [hset]; decide⟩
          refine Env.safe_mono (fresh_safe hused (hcalls _) (h.2 (not_not.mp hret))) ?_
          exact fun ret dev h => ⟨h.2.open, fun _ => h.2⟩

theorem reset_safe (hbuffer : ∀ s, (m.buffer s).subsystem = s)
    (hused : ∀ s, (m.desc_consumed s).toNat ≤ Engine.DESC_RAM_DEPTH)
    (h : Open m none_granted none_granted dev) :
    Device.env.Safe Fits (fun r dev => Rest r.2 dev) (sde_mgmt_reset slot_id m) dev := by
  refine checked_safe (rest_pure (rest_of_open hbuffer h)) fun _ => ?_
  refine Env.safe_bind (hw_reset_safe hused h) fun (ret : Int) dev h => ?_
  split
  · exact rest_pure (rest_of_open hbuffer h.1)
  case isFalse hret =>
    refine Env.safe_mono (fresh_safe hused (R := fun r => Same m r.2) ?_ (h.2 (not_not.mp hret))) ?_
    · iterate 9 refine Prog.meets_op_bind ⟨rfl, by decide⟩ fun _ _ => ?_
      exact Prog.meets_pure ⟨⟨rfl, rfl, rfl⟩, fun s => (by cases s <;> rfl),
        fun s => (by cases s <;> rfl), fun s => (by cases s <;> rfl)⟩
    · exact fun r dev h => (rest_of_open hbuffer h.2.open).same h.1

/-! ### Configuration -/

theorem cfg_safe (hbuffer : ∀ s, (m.buffer s).subsystem = s) (h : Quiet m dev) :
    Device.env.Safe Fits (fun r dev => Rest r.2 dev) (sde_mgmt_cfg slot_id m) dev := by
  refine checked_safe (rest_pure (rest_of_open hbuffer h.open)) fun _ => ?_
  refine Env.safe_mono (Env.safe_of_meets (quiet_stable m) ?_ (cfg_same m) h) ?_
  · intro o dev r dev' ho h hans
    cases o with
    | pci o =>
      cases o with
      | poke handle offset value =>
        revert r
        intro (ret : Int) hans
        obtain rfl : dev' = if ret = 0 then dev.poke handle offset value else dev := hans
        split
        · exact h.poke ho
        · exact h
      | peek =>
        obtain rfl : dev' = dev := hans
        exact h
      | _ => exact ho.elim
    | _ => exact ho.elim
  · exact fun r dev h => (rest_of_open hbuffer h.2.open).same h.1

end Calls

/-! ### Opening -/

/-- The memory is that of the engine, which does not write to it yet. -/
structure Mapped (s : SdeSubsystem) (w : SdeWritebackMem) (dev : Device) : Prop where
  status_va : w.status_va = (dev.dir s).status_va
  desc_limit : (dev.dir s).desc_limit = 0
  unarmed : ¬ (dev.dir s).Armed

/-- The memories mapped so far. -/
def Stage (ws : List (SdeSubsystem × SdeWritebackMem)) (dev : Device) : Prop :=
  Fits dev ∧ ∀ p ∈ ws, Mapped p.1 p.2 dev

section Opening

variable {dev : Device} {slot_id : Int} {ws : List (SdeSubsystem × SdeWritebackMem)}

theorem stage_stable (ws : List (SdeSubsystem × SdeWritebackMem)) :
    Device.env.Stable Fits (Stage ws) where
  moves := by
    rintro dev dev' ⟨hfits, hmapped⟩ hmove
    refine ⟨fits_stable.moves hfits hmove, fun p hp => ?_⟩
    obtain ⟨hva, hlimit, hunarmed⟩ := hmapped p hp
    rcases (moves_dir hmove).2 p.1 with heq | ⟨-, heq⟩ | ⟨harmed, -⟩
    · rw [← heq] at hva hlimit hunarmed
      exact ⟨hva, hlimit, hunarmed⟩
    · refine ⟨hva.trans (moves_status_va hmove p.1).symm, ?_, ?_⟩
      · rw [heq]
        exact hlimit
      · rw [heq]
        exact hunarmed
    · exact absurd harmed hunarmed
  inv := And.left

theorem writeback_init_safe {s : SdeSubsystem} (hs : ∀ p ∈ ws, p.1 ≠ s) (h : Stage ws dev) :
    Device.env.Safe Fits (fun r dev => Fits dev ∧ (r.1 = 0 → Stage (ws ++ [(s, r.2)]) dev))
      (writeback_init s) dev := by
  refine Env.safe_op_bind (stage_stable ws) h ?_
  intro dev (r : Int × BitVec 64 × BitVec 64) dev' h hans
  obtain ⟨ret, va, pa⟩ := r
  by_cases hret : ret = 0
  · obtain ⟨hfree, rfl⟩ : ¬ (dev.dir s).WritesTo (Engine.status_offset + pa) ∧
        dev' = dev.set s { dev.dir s with memory_va := va, memory_pa := pa, desc_limit := 0 } := by
      simpa [Device.env, Device.Answers, hret] using hans
    have hstage : Stage (ws ++ [(s, { writeback_layout s with memory_va := va, memory_pa := pa })])
        (dev.set s { dev.dir s with memory_va := va, memory_pa := pa, desc_limit := 0 }) := by
      refine ⟨fun s' => ?_, List.forall_mem_append.mpr ⟨fun p hp => ?_, ?_⟩⟩
      · rw [set_dir]
        split
        case isTrue heq =>
          subst heq
          exact h.1 s'
        case isFalse => exact h.1 s'
      · obtain ⟨hva, hlimit, hunarmed⟩ := h.2 p hp
        have hdir : (dev.set s { dev.dir s with memory_va := va, memory_pa := pa, desc_limit := 0 }).dir
            p.1 = dev.dir p.1 := (set_dir _ _).trans (if_neg (hs p hp))
        rw [← hdir] at hva hlimit hunarmed
        exact ⟨hva, hlimit, hunarmed⟩
      · intro p hp
        obtain rfl := List.mem_singleton.mp hp
        have hoffset : (writeback_layout s).status_offset = Engine.status_offset := by
          cases s <;> rfl
        refine ⟨?_, ?_, ?_⟩
        · rw [set_dir, if_pos rfl]
          exact congrArg (· + va) hoffset
        · rw [set_dir, if_pos rfl]
        · rw [set_dir, if_pos rfl]
          exact hfree
    exact Env.safe_pure (stage_stable _) hstage fun dev h => ⟨h.1, fun _ => h⟩
  · obtain rfl : dev' = dev := by
      simpa [Device.env, Device.Answers, hret] using hans
    exact Env.safe_pure fits_stable h.1 fun dev h => ⟨h, fun hzero => absurd hzero hret⟩

/-- Mappings and allocations that are for packet data. -/
def BufferCall : SdeOp → Prop
  | .map_anon (.buffer _) _ => True
  | .map_huge _ => True
  | .malloc _ => True
  | _ => False

theorem answers_buffer {dev' : Device} {o : SdeOp} (ho : BufferCall o) {r : o.Ans}
    (h : Device.Answers o dev r dev') : dev' = dev := by
  cases o with
  | map_anon purpose =>
    cases purpose with
    | writeback => exact ho.elim
    | buffer => exact h
  | map_huge => exact h
  | malloc => exact h
  | _ => exact ho.elim

theorem dma_buffer_init_meets (s : SdeSubsystem) (layout : SdeBufferLayout) (pkt_size : BitVec 64)
    (n : Nat) : (dma_buffer_init s layout pkt_size n).Meets (fun _ _ => True) BufferCall
      fun _ => True := by
  have hmap : ∀ left buffers, (map_buffers s pkt_size left buffers).Meets (fun _ _ => True)
      BufferCall fun _ => True := by
    intro left
    induction left with
    | zero => exact fun _ => trivial
    | succ left ih =>
      intro buffers
      unfold map_buffers
      refine Prog.meets_bind (Q := fun _ => True) ?_ fun r _ => ?_
      · split
        · exact ⟨trivial, fun _ _ => trivial⟩
        · exact ⟨trivial, fun _ _ => trivial⟩
      · exact Prog.meets_ite (fun _ => trivial) fun _ => ih _
  unfold dma_buffer_init
  refine Prog.meets_op_bind trivial fun (allocated : Bool) _ => ?_
  refine Prog.meets_ite (fun _ => trivial) fun _ => ?_
  exact Prog.meets_bind (hmap _ _) fun _ _ => trivial

theorem writeback_stage_safe {s : SdeSubsystem} {f : SdeWritebackMem → SdeMem}
    {k : SdeMem → Prog SdeApi (Int × SdeMem)} {Q : Int × SdeMem → Device → Prop}
    (hs : ∀ p ∈ ws, p.1 ≠ s) (h : Stage ws dev)
    (hfail : ∀ r dev, r.1 ≠ 0 → Fits dev → Q r dev)
    (hk : ∀ w dev, Stage (ws ++ [(s, w)]) dev → Device.env.Safe Fits Q (k (f w)) dev) :
    Device.env.Safe Fits Q (Prog.failOn (writeback_init s >>= fun w => pure (w.1, f w.2)) k) dev := by
  refine Env.safe_failOn (B := fun mem dev => ∃ w, mem = f w ∧ Stage (ws ++ [(s, w)]) dev) ?_ ?_
  · refine Env.safe_bind (writeback_init_safe hs h) ?_
    rintro ⟨ret, w⟩ dev ⟨hfits, hstage⟩
    by_cases hret : ret = 0
    · refine Env.safe_pure (stage_stable _) (hstage hret) fun dev h => ⟨fun hne => absurd hret hne, ?_⟩
      exact fun _ => ⟨w, rfl, h⟩
    · refine Env.safe_pure fits_stable hfits fun dev h => ⟨fun hne => ?_, fun hzero => absurd hzero hret⟩
      exact Env.safe_pure fits_stable h fun dev h => hfail _ dev hne h
  · rintro mem dev ⟨w, rfl, h⟩
    exact hk w dev h

theorem buffer_stage_safe {s : SdeSubsystem} {layout : SdeBufferLayout} {pkt_size : BitVec 64}
    {c : Prop} [Decidable c] {f : Option (List SdeBuffer) → Nat → SdeMem}
    {k : SdeMem → Prog SdeApi (Int × SdeMem)} {Q : Int × SdeMem → Device → Prop} (h : Stage ws dev)
    (hfail : ∀ r dev, r.1 ≠ 0 → Fits dev → Q r dev)
    (hk : ∀ b n dev, Stage ws dev → Device.env.Safe Fits Q (k (f b n)) dev) :
    Device.env.Safe Fits Q (Prog.failOn (if c then dma_buffer_init s layout pkt_size 0 >>= fun b =>
      pure (b.1, f b.2.1 b.2.2) else pure (0, f none 0)) k) dev := by
  refine Env.safe_failOn (B := fun mem dev => ∃ b n, mem = f b n ∧ Stage ws dev) ?_ ?_
  · split
    · refine Env.safe_bind (Env.safe_of_meets (stage_stable ws) ?_ (dma_buffer_init_meets ..) h) ?_
      · intro o dev r dev' ho h hans
        rw [answers_buffer ho hans]
        exact h
      · rintro ⟨ret, b, n⟩ dev ⟨-, h⟩
        refine Env.safe_pure (stage_stable ws) h fun dev h => ⟨fun hne => ?_, fun _ => ⟨b, n, rfl, h⟩⟩
        exact Env.safe_pure fits_stable h.1 fun dev h => hfail _ dev hne h
    · refine Env.safe_pure (stage_stable ws) h fun dev h => ⟨fun hne => absurd rfl hne, ?_⟩
      exact fun _ => ⟨none, 0, rfl, h⟩
  · rintro mem dev ⟨b, n, rfl, h⟩
    exact hk b n dev h

/-- Both memories are mapped. -/
def Memory (mem : SdeMem) (dev : Device) : Prop :=
  Stage [(.c2h, mem.c2h_writeback), (.h2c, mem.h2c_writeback)] dev

theorem sde_mem_init_safe {c2h_layout h2c_layout : SdeBufferLayout} {direction : SdeExampleDir}
    {pkt_size : BitVec 64} {mem : SdeMem} (h : Fits dev) :
    Device.env.Safe Fits (fun r dev => Fits dev ∧ (r.1 = 0 → Memory r.2 dev))
      (sde_mem_init c2h_layout h2c_layout direction pkt_size mem) dev := by
  have hfail : ∀ (r : Int × SdeMem) dev, r.1 ≠ 0 → Fits dev →
      Fits dev ∧ (r.1 = 0 → Memory r.2 dev) :=
    fun r dev hne h => ⟨h, fun hzero => absurd hzero hne⟩
  unfold sde_mem_init
  split
  · have herror : FPGA_ERR_SOFTWARE_PROBLEM ≠ 0 := by decide
    exact Env.safe_pure fits_stable h fun dev h => hfail _ dev herror h
  · refine writeback_stage_safe (f := fun w => { SdeMem.zero with c2h_writeback := w })
      (by simp) (show Stage [] dev from ⟨h, by simp⟩) hfail fun w₁ dev h => ?_
    refine writeback_stage_safe
      (f := fun w => { SdeMem.zero with c2h_writeback := w₁, h2c_writeback := w })
      (by simp) h hfail fun w₂ dev h => ?_
    refine buffer_stage_safe (f := fun buffers num_buffers => { SdeMem.zero with
      c2h_writeback := w₁, h2c_writeback := w₂, c2h_layout := c2h_layout,
      c2h_buffers := buffers, c2h_num_buffers := num_buffers }) h hfail fun b₁ n₁ dev h => ?_
    refine buffer_stage_safe (f := fun buffers num_buffers => { SdeMem.zero with
      c2h_writeback := w₁, h2c_writeback := w₂, c2h_layout := c2h_layout,
      c2h_buffers := b₁, c2h_num_buffers := n₁, h2c_layout := h2c_layout,
      h2c_buffers := buffers, h2c_num_buffers := num_buffers }) h hfail fun b₂ n₂ dev h => ?_
    exact Env.safe_pure (stage_stable _) h fun dev h => ⟨h.1, fun _ => h⟩

theorem attach_stable (mem : SdeMem) {c : Prop} (handle : Int) :
    Device.env.Stable Fits fun dev => Memory mem dev ∧ (c → dev.bar handle = some APP_PF_BAR0) where
  moves := by
    rintro dev dev' ⟨hmem, hbar⟩ hmove
    refine ⟨(stage_stable _).moves hmem hmove, fun hc => ?_⟩
    rw [(moves_dir hmove).1]
    exact hbar hc
  inv := fun h => h.1.1

theorem attach_keeps {dev' : Device} {mem : SdeMem} {pf_id bar_id : Int} {flags : BitVec 32}
    {c : Prop} {handle : Int} {r : Int × Int}
    (hans : Device.Answers (.pci (.attach slot_id pf_id bar_id flags)) dev r dev')
    (h : Memory mem dev ∧ (c → dev.bar handle = some APP_PF_BAR0)) :
    Memory mem dev' ∧ (c → dev'.bar handle = some APP_PF_BAR0) := by
  by_cases hret : r.1 = 0
  · obtain ⟨hfree, rfl⟩ : dev.bar r.2 = none ∧
        dev' = { dev with bar := Function.update dev.bar r.2 (some bar_id) } := by
      simpa [Device.Answers, hret] using hans
    obtain ⟨⟨hfits, hmapped⟩, hattached⟩ := h
    refine ⟨⟨hfits, fun p hp => ?_⟩, fun hc => ?_⟩
    · obtain ⟨hva, hlimit, hunarmed⟩ := hmapped p hp
      exact ⟨hva, hlimit, hunarmed⟩
    have hbar := hattached hc
    have hne : handle ≠ r.2 := by
      rintro rfl
      rw [hfree] at hbar
      cases hbar
    exact (Function.update_of_ne hne _ _).trans hbar
  · obtain rfl : dev' = dev := by
      simpa [Device.Answers, hret] using hans
    exact h

theorem sde_hw_init_safe {mem : SdeMem} (h : Memory mem dev) :
    Device.env.Safe Fits (fun r dev => Memory mem dev ∧
      (r.1 = 0 → dev.bar r.2.bar0_handle = some APP_PF_BAR0)) (ofPci (sde_hw_init slot_id)) dev := by
  refine safe_pci_bind (stage_stable _) h fun dev (r₀ : Int × Int) dev' h hans => ?_
  have h₀ : Memory mem dev' ∧ (r₀.1 = 0 → dev'.bar r₀.2 = some APP_PF_BAR0) := by
    have hnone : Memory mem dev ∧ (False → dev.bar 0 = some APP_PF_BAR0) := ⟨h, False.elim⟩
    refine ⟨(attach_keeps hans hnone).1, fun hret => ?_⟩
    obtain ⟨-, rfl⟩ : dev.bar r₀.2 = none ∧
        dev' = { dev with bar := Function.update dev.bar r₀.2 (some APP_PF_BAR0) } := by
      simpa [Device.Answers, hret] using hans
    exact Function.update_self ..
  refine safe_pci_bind (attach_stable mem _) h₀ fun dev (r₁ : Int × Int) dev' h hans => ?_
  refine safe_pci_bind (attach_stable mem _) (attach_keeps hans h) ?_
  intro dev (r₂ : Int × Int) dev' h hans
  refine Env.safe_pure (attach_stable mem _) (attach_keeps hans h) fun dev h => ⟨h.1, fun hret => ?_⟩
  obtain ⟨hret₀₁, -⟩ := System.lor_eq_zero.mp hret
  exact h.2 (System.lor_eq_zero.mp hret₀₁).1

theorem init_safe {direction : SdeExampleDir} {packet_size : BitVec 64} {layout : SdeBufferLayout}
    {m : SdeMgmt} (h : Rest m dev) :
    Device.env.Safe Fits (fun r dev => Rest r.2 dev)
      (sde_mgmt_init slot_id direction packet_size layout m) dev := by
  have hclosed : ∀ (ret : Int) (m : SdeMgmt) {dev}, Fits dev → m.initialized = false →
      Device.env.Safe Fits (fun r dev => Rest r.2 dev) (pure (ret, m)) dev := by
    intro ret m dev h hm
    exact rest_pure ⟨h, fun hinit => by rw [hm] at hinit; cases hinit⟩
  unfold sde_mgmt_init
  split
  · exact rest_pure h
  · refine Env.safe_failOn (B := fun m dev => ∃ mem,
      m = { SdeMgmt.zero with direction, mem } ∧ Memory mem dev) ?_ ?_
    · refine Env.safe_bind (sde_mem_init_safe h.fits) ?_
      rintro ⟨ret, mem⟩ dev ⟨hfits, hmem⟩
      by_cases hret : ret = 0
      · refine Env.safe_pure (stage_stable _) (hmem hret) fun dev h => ⟨fun hne => absurd hret hne, ?_⟩
        exact fun _ => ⟨mem, rfl, h⟩
      · refine Env.safe_pure fits_stable hfits fun dev h => ⟨fun _ => ?_, fun hzero => absurd hzero hret⟩
        exact hclosed _ _ h rfl
    · rintro _ dev ⟨mem, rfl, h⟩
      refine Env.safe_failOn (B := fun m dev => ∃ hw_ctrl,
        m = { SdeMgmt.zero with direction, mem, hw_ctrl } ∧ Memory mem dev ∧
          dev.bar hw_ctrl.bar0_handle = some APP_PF_BAR0) ?_ ?_
      · refine Env.safe_bind (sde_hw_init_safe h) ?_
        rintro ⟨ret, hw_ctrl⟩ dev h
        refine Env.safe_pure (attach_stable mem _) h fun dev h => ⟨fun _ => ?_, fun hret => ?_⟩
        · exact hclosed _ _ h.1.1 rfl
        · exact ⟨hw_ctrl, rfl, h.1, h.2 hret⟩
      · rintro _ dev ⟨hw_ctrl, rfl, h, hbar⟩
        refine Env.safe_pure (attach_stable (c := True) mem hw_ctrl.bar0_handle) ⟨h, fun _ => hbar⟩ ?_
        rintro dev ⟨⟨hfits, hmapped⟩, hbar⟩
        have hall : ∀ s, Mapped s (mem.writeback s) dev := by
          intro s
          cases s
          · exact hmapped (.c2h, mem.c2h_writeback) (by simp)
          · exact hmapped (.h2c, mem.h2c_writeback) (by simp)
        refine rest_of_open ?_ ⟨⟨hbar trivial, ?_⟩, fun _ => Nat.zero_le _, ?_⟩
        · intro s
          cases s <;> cases layout <;> rfl
        · intro s
          rw [← (hall s).status_va]
          cases s <;> rfl
        · intro s
          have hconsumed : avail (dev.dir s).desc_limit 0 = 0 := by
            rw [(hall s).desc_limit]
            rfl
          have haccount : (dev.dir s).Account s 0 0 0 := by
            refine ⟨Nat.zero_le _, Nat.zero_le _, ?_, fun hlive => absurd hlive (hall s).unarmed,
              fun hlive => absurd hlive (hall s).unarmed⟩
            rw [hconsumed, Nat.zero_mul, Nat.zero_add]
            exact hfits s
          cases s <;> exact haccount

end Opening

end AwsFpga.Sde
