import AwsFpga.Lib.Env
import AwsFpga.Sde.Post

/-!
# Posting while the engine runs

What is posted in a direction and what the engine knows of it. Which state that is, and what the
engine does meanwhile, is left open: a direction says what holds after so many dwords, and that a
write to its window leads from one number to the next.
-/

open Lib AwsFpga.Pci

namespace AwsFpga.Sde

/-- How many dwords a descriptor has. -/
def desc_size (s : SdeSubsystem) : Nat := desc_element_size s / 4

/-- The ring gives the dwords `dw`, round after round, and `posted` descriptors were posted. -/
structure RingOf (hw_ctrl : SdeHwCtrl) (s : SdeSubsystem) (dw : Nat → BitVec 32) (posted : Nat)
    (b : SdeDmaBuffer) : Prop where
  ring : DescRing hw_ctrl b
  subsystem : b.subsystem = s
  desc : ∀ j, b.desc (j % (b.num_desc * desc_size s)) = dw j
  index : b.curr_desc_index_to_post = posted % b.num_desc

/-- `A limit n` holds when `limit` descriptors may be posted and `n` dwords went out. -/
structure Posting {ε : Type} (E : Env SdeApi ε) (Inv : ε → Prop) (bar4_handle : Int)
    (s : SdeSubsystem) (dw : Nat → BitVec 32) (A : Nat → Nat → ε → Prop) : Prop where
  stable : ∀ limit n, E.Stable Inv (A limit n)
  poke : ∀ {limit n e} {ret : Int} {e'}, n < limit * desc_size s → A limit n e →
    E.answers (.pci (.poke bar4_handle (DESC_RAM_MAP_OFFSET s) (dw n))) e ret e' →
    ret = 0 ∧ A limit (n + 1) e'
  load : ∀ {limit n e va field r e'}, A limit n e → E.answers (.status_load s va field) e r e' →
    A limit n e'

section Posting

variable {ε : Type} {E : Env SdeApi ε} {Inv : ε → Prop} {hw_ctrl : SdeHwCtrl} {s : SdeSubsystem}
  {dw : Nat → BitVec 32} {A : Nat → Nat → ε → Prop} {b : SdeDmaBuffer} {m : SdeMgmt}
  {posted limit n : Nat} {e : ε} {slot_id : Int}

/-- From the index on, the ring goes on where it was left. -/
theorem RingOf.desc_dw (hr : RingOf hw_ctrl s dw posted b) {k : Nat}
    (hk : k < (b.num_desc - b.curr_desc_index_to_post) * desc_size s) :
    b.desc (b.curr_desc_index_to_post * desc_size s + k) = dw (posted * desc_size s + k) := by
  have hindex := hr.ring.index
  rw [← hr.desc]
  congr 1
  have hlt : b.curr_desc_index_to_post * desc_size s + k < b.num_desc * desc_size s := by
    have hsplit : (b.num_desc - b.curr_desc_index_to_post) * desc_size s +
        b.curr_desc_index_to_post * desc_size s = b.num_desc * desc_size s := by
      rw [← Nat.add_mul, Nat.sub_add_cancel hindex.le]
    omega
  have hround : posted * desc_size s + k = b.num_desc * desc_size s * (posted / b.num_desc) +
      (b.curr_desc_index_to_post * desc_size s + k) := by
    rw [hr.index, Nat.mul_right_comm, ← Nat.add_assoc, ← Nat.add_mul, Nat.div_add_mod]
  rw [hround, Nat.mul_add_mod, Nat.mod_eq_of_lt hlt]

theorem RingOf.advance (hr : RingOf hw_ctrl s dw posted b) (k : Nat) :
    RingOf hw_ctrl s dw (posted + k) (b.advance k) := by
  refine ⟨hr.ring.advance k, hr.subsystem, hr.desc, ?_⟩
  change (b.curr_desc_index_to_post + k) % b.num_desc = _
  rw [hr.index, Nat.mod_add_mod]
  rfl

theorem Posting.dwords (hp : Posting E Inv hw_ctrl.bar4_handle s dw A)
    {descriptor : Nat → BitVec 32} {left index : Nat}
    (hdesc : ∀ k < left, descriptor (index + k) = dw (n + k))
    (hleft : n + left ≤ limit * desc_size s) (ha : A limit n e) :
    E.Safe Inv (fun ret e => ret = 0 ∧ A limit (n + left) e)
      (ofPci (post_dwords hw_ctrl.bar4_handle (DESC_RAM_MAP_OFFSET s) descriptor left index)) e := by
  induction left generalizing index n e with
  | zero => exact Env.safe_pure (hp.stable _ _) ha fun e ha => ⟨rfl, ha⟩
  | succ left ih =>
    unfold post_dwords
    refine Env.safe_call (hp.stable _ _) ha ?_
    rintro e (ret : Int) e' ha hans
    rw [show descriptor index = dw n from hdesc 0 (Nat.succ_pos left)] at hans
    obtain ⟨rfl, ha'⟩ := hp.poke (by omega) ha hans
    rw [Nat.add_comm left, ← Nat.add_assoc]
    refine ih (fun k hk => ?_) (by omega) ha'
    rw [Nat.add_assoc, Nat.add_assoc, Nat.add_comm 1 k]
    exact hdesc (k + 1) (by omega)

theorem Posting.descriptor (hp : Posting E Inv hw_ctrl.bar4_handle s dw A)
    (hr : RingOf hw_ctrl s dw posted b) {piece : Nat}
    (hpiece : b.curr_desc_index_to_post + piece ≤ b.num_desc) (hlimit : posted + piece ≤ limit)
    (ha : A limit (posted * desc_size s) e) :
    E.Safe Inv (fun ret e => ret = 0 ∧ A limit ((posted + piece) * desc_size s) e)
      (ofPci (sde_hw_post_descriptor (some hw_ctrl)
        (fun k => b.desc (b.curr_desc_index_to_post * (b.desc_element_size / 4) + k)) piece
        b.subsystem)) e := by
  have hsize : b.desc_element_size / 4 = desc_size s := by
    rw [hr.ring.size, hr.subsystem]
    rfl
  unfold sde_hw_post_descriptor
  dsimp only
  rw [hr.ring.opened, if_neg (by decide), hsize, hr.subsystem, Nat.add_mul]
  refine hp.dwords (fun k hk => ?_) ?_ ha
  · rw [Nat.zero_add]
    refine hr.desc_dw (Nat.lt_of_lt_of_le hk (Nat.mul_le_mul_right _ ?_))
    omega
  · rw [← Nat.add_mul]
    exact Nat.mul_le_mul_right _ hlimit

/-- All that was asked for is posted, and the buffer is `b` then. -/
structure PostedAll (A : Nat → Nat → ε → Prop) (s : SdeSubsystem) (limit num_desc : Nat)
    (b : SdeDmaBuffer) (r : Posted) (e : ε) : Prop where
  ret : r.ret = 0
  num_desc : r.num_desc = num_desc
  dma_buffer : r.dma_buffer = b
  state : A limit (limit * desc_size s) e

theorem Posting.loop_done (hp : Posting E Inv hw_ctrl.bar4_handle s dw A) {num_desc posted_desc : Nat}
    (hr : RingOf hw_ctrl s dw posted b) (hposted : posted_desc ≤ num_desc)
    (hlimit : posted + (num_desc - posted_desc) = limit) (hge : ¬posted_desc < num_desc)
    (ha : A limit (posted * desc_size s) e) :
    E.Safe Inv (PostedAll A s limit num_desc (b.advance (num_desc - posted_desc)))
      (pure ⟨0, posted_desc, b⟩) e := by
  obtain rfl : posted_desc = num_desc := by omega
  obtain rfl : posted = limit := by omega
  refine Env.safe_pure (hp.stable _ _) ha fun e ha => ⟨rfl, rfl, ?_, ha⟩
  rw [Nat.sub_self]
  exact hr.ring.advance_zero.symm

theorem Posting.loop (hp : Posting E Inv hw_ctrl.bar4_handle s dw A)
    {num_desc fuel posted_desc : Nat} (hr : RingOf hw_ctrl s dw posted b)
    (hposted : posted_desc ≤ num_desc) (hlimit : posted + (num_desc - posted_desc) = limit)
    (ha : A limit (posted * desc_size s) e) :
    E.Safe Inv (PostedAll A s limit num_desc (b.advance (num_desc - posted_desc)))
      (post_loop (some hw_ctrl) num_desc fuel posted_desc b) e := by
  induction fuel generalizing posted_desc posted b e with
  | zero =>
    unfold post_loop
    split
    · exact Env.safe_call (hp.stable _ _) ha fun _ (r : Empty) => r.elim
    case isFalse hge => exact hp.loop_done hr hposted hlimit hge ha
  | succ fuel ih =>
    unfold post_loop
    split
    case isFalse hge => exact hp.loop_done hr hposted hlimit hge ha
    case isTrue hlt =>
    have hindex := hr.ring.index
    have havailable : (b.num_desc + 2 ^ 64 - b.curr_desc_index_to_post) % 2 ^ 64 =
        b.num_desc - b.curr_desc_index_to_post := by
      have := hr.ring.depth
      omega
    dsimp only
    rw [havailable]
    generalize hpiece : (if b.num_desc - b.curr_desc_index_to_post < num_desc - posted_desc then
      b.num_desc - b.curr_desc_index_to_post else num_desc - posted_desc) = piece
    have hle : b.curr_desc_index_to_post + piece ≤ b.num_desc ∧ posted_desc + piece ≤ num_desc := by
      split at hpiece <;> omega
    refine Env.safe_bind (hp.descriptor hr hle.1 (by omega) ha) ?_
    rintro ret e ⟨rfl, ha⟩
    rw [if_neg (by decide), if_neg (by omega)]
    have hrest := ih (hr.advance piece) hle.2 (by omega) ha
    rw [advance_advance, show piece + (num_desc - (posted_desc + piece)) = num_desc - posted_desc
      by omega] at hrest
    exact hrest

/-! ## A transfer -/

def IsStatusLoad (s : SdeSubsystem) : SdeOp → Prop
  | .status_load s' _ _ => s' = s
  | _ => False

theorem wait_credit_meets (s : SdeSubsystem) (num_desc : Nat) (m : SdeMgmt) :
    (sde_mgmt_wait_desc_credit slot_id s num_desc m).Meets (fun _ _ => True) (IsStatusLoad s)
      fun _ => True := by
  refine meets_checked (fun _ => trivial) fun _ => ?_
  split
  · trivial
  · have hload : IsStatusLoad s (.status_load s (m.status s) .desc_limit) := rfl
    refine Prog.meets_bind (wait_loop_meets hload _ _) fun credits _ => ?_
    split <;> trivial

theorem Posting.wait_credit {bar4_handle : Int} (hp : Posting E Inv bar4_handle s dw A)
    (num_desc : Nat) (m : SdeMgmt) (ha : A limit n e) :
    E.Safe Inv (fun _ e => A limit n e) (sde_mgmt_wait_desc_credit slot_id s num_desc m) e := by
  refine Env.safe_mono (Env.safe_of_meets (hp.stable _ _) ?_ (wait_credit_meets s num_desc m) ha)
    fun _ _ h => h.2
  intro o e r e' ho ha hans
  cases o with
  | status_load s' va field =>
    obtain rfl : s' = s := ho
    exact hp.load ha hans
  | _ => exact ho.elim

/-- What a transfer makes of the element of the slot, when it posts `more` descriptors. -/
inductive Moved (m : SdeMgmt) (s : SdeSubsystem) : (more : Nat) → SdeMgmt → Prop where
  | none : Moved m s 0 m
  | some (more : Nat) (desc_consumed : BitVec 32) : Moved m s more
      ((m.set_buffer s ((m.buffer s).advance more)).set_desc_consumed s desc_consumed)

/-- `more` descriptors are posted behind those before. -/
def Transferred (A : Nat → Nat → ε → Prop) (s : SdeSubsystem) (posted : Nat) (m m' : SdeMgmt)
    (e : ε) : Prop :=
  ∃ more, Moved m s more m' ∧ A (posted + more) ((posted + more) * desc_size s) e

theorem Posting.transfer_none {bar4_handle : Int} (hp : Posting E Inv bar4_handle s dw A)
    (ha : A posted (posted * desc_size s) e) {α : Type} {f : α → SdeMgmt} {r : α} (hr : f r = m) :
    E.Safe Inv (fun r e => Transferred A s posted m (f r) e) (pure r) e := by
  refine Env.safe_pure (hp.stable _ _) ha fun e ha => ⟨0, ?_, ha⟩
  rw [hr]
  exact .none

theorem Posting.post_desc (hp : Posting E Inv m.hw_ctrl.bar4_handle s dw A)
    (hr : RingOf m.hw_ctrl s dw posted (m.buffer s)) {num_desc : Nat}
    (hgrant : ∀ e, A posted (posted * desc_size s) e →
      A (posted + num_desc) (posted * desc_size s) e) (ha : A posted (posted * desc_size s) e) :
    E.Safe Inv (fun r e => Transferred A s posted m r.2.2 e)
      (sde_mgmt_post_desc slot_id s num_desc m) e := by
  unfold sde_mgmt_post_desc checked
  split
  case isTrue => exact hp.transfer_none ha rfl
  case isFalse =>
  split
  case isTrue => exact hp.transfer_none ha rfl
  case isFalse =>
  split
  case isTrue => exact hp.transfer_none ha rfl
  case isFalse =>
  unfold sde_dma_post_desc
  rw [hr.ring.ctrl, if_pos rfl]
  refine Env.safe_bind (hp.loop hr (Nat.zero_le _) rfl (hgrant e ha)) ?_
  rintro r e ⟨-, -, hbuffer, ha⟩
  refine Env.safe_pure (hp.stable _ _) ha fun e ha => ⟨num_desc, ?_, ha⟩
  rw [hbuffer]
  exact .some num_desc _

theorem Posting.transfer (hp : Posting E Inv m.hw_ctrl.bar4_handle s dw A)
    (hr : RingOf m.hw_ctrl s dw posted (m.buffer s)) (size : BitVec 64)
    (hgrant : ∀ e, A posted (posted * desc_size s) e →
      A (posted + desc_for_size size (m.buffer s).pkt_size) (posted * desc_size s) e)
    (ha : A posted (posted * desc_size s) e) :
    E.Safe Inv (fun r e => Transferred A s posted m r.2 e) (transfer slot_id s size m) e := by
  unfold Sde.transfer
  split
  · exact Env.safe_call (hp.stable _ _) ha fun _ (r : Empty) => r.elim
  · refine Env.safe_bind (hp.wait_credit _ m ha) fun ret e ha => ?_
    split
    case isTrue => exact hp.transfer_none ha rfl
    case isFalse =>
    refine Env.safe_bind (hp.post_desc hr hgrant ha) ?_
    rintro ⟨ret, num_desc, m'⟩ e ⟨more, hmoved, ha⟩
    exact Env.safe_pure (hp.stable _ _) ha fun e ha => ⟨more, hmoved, ha⟩

end Posting

/-! ## Configuration -/

section Cfg

variable {slot_id : Int} {m m' : SdeMgmt} {ret : Int} {t : List SdeApi.Event}

theorem cfg_c2h_same (h : (sde_mgmt_cfg_c2h m).Runs t (ret, m')) : m' = m := by
  obtain ⟨t₁, _, t₂, -, -, -, hr⟩ := (Prog.runs_bind _ _ _ _).mp h
  exact (Prod.mk.inj hr).2

theorem cfg_h2c_same (h : (sde_mgmt_cfg_h2c m).Runs t (ret, m')) : m' = m := by
  obtain ⟨t₁, _, t₂, -, -, -, hr⟩ := (Prog.runs_bind _ _ _ _).mp h
  exact (Prod.mk.inj hr).2

theorem cfg_c2h_atg_same (h : (sde_mgmt_cfg_c2h_atg m).Runs t (ret, m')) : m' = m := by
  obtain ⟨t₁, ret₁, t₂, -, -, h⟩ := (Prog.runs_bind _ _ _ _).mp h
  split at h
  · exact (Prod.mk.inj h.2).2
  · split at h
    · obtain ⟨t₃, ret₂, t₄, -, -, h⟩ := (Prog.runs_bind _ _ _ _).mp h
      exact (Prod.mk.inj h.2).2
    · exact (Prod.mk.inj h.2).2

theorem cfg_packets_leaves {s : SdeSubsystem} {unused : SdeExampleDir}
    (h : (cfg_packets_of s unused m).Runs t (0, m')) :
    ∃ b, m' = m.set_buffer s b ∧
      (m.direction ≠ unused → sde_dma_init_desc_buffer (m.buffer s) = (0, b)) := by
  unfold cfg_packets_of at h
  split at h
  case isTrue =>
    obtain ⟨hret, hm'⟩ := Prod.mk.inj h.2
    exact ⟨_, hm', fun _ => Prod.ext hret.symm rfl⟩
  case isFalse hunused =>
    obtain ⟨-, rfl⟩ := Prod.mk.inj h.2
    refine ⟨m'.buffer s, ?_, fun hused => absurd hused hunused⟩
    cases s <;> rfl

theorem cfg_leaves (h : (sde_mgmt_cfg slot_id m).Runs t (0, m')) :
    ∃ c2h_buffer h2c_buffer, m' = { m with c2h_buffer, h2c_buffer } ∧
      (m.direction ≠ .h2c → sde_dma_init_desc_buffer m.c2h_buffer = (0, c2h_buffer)) ∧
      (m.direction ≠ .c2h → sde_dma_init_desc_buffer m.h2c_buffer = (0, h2c_buffer)) := by
  unfold sde_mgmt_cfg checked at h
  split at h
  case isTrue => exact absurd (Prod.mk.inj h.2).1 (by decide)
  case isFalse =>
  split at h
  case isTrue => exact absurd (Prod.mk.inj h.2).1 (by decide)
  case isFalse =>
  obtain ⟨t₁, m₁, t₂, -, hc2h, h₁⟩ := (Prog.runs_failOn_zero _ _ _ _).mp h
  obtain ⟨t₃, m₂, t₄, -, hh2c, h₂⟩ := (Prog.runs_failOn_zero _ _ _ _).mp h₁
  obtain ⟨t₅, m₃, t₆, -, hatg, h₃⟩ := (Prog.runs_failOn_zero _ _ _ _).mp h₂
  obtain ⟨t₇, m₄, t₈, -, hpackets, h₄⟩ := (Prog.runs_failOn_zero _ _ _ _).mp h₃
  obtain rfl : m₃ = m :=
    (cfg_c2h_atg_same hatg).trans ((cfg_h2c_same hh2c).trans (cfg_c2h_same hc2h))
  obtain ⟨c2h_buffer, rfl, hinit_c2h⟩ := cfg_packets_leaves hpackets
  obtain ⟨h2c_buffer, rfl, hinit_h2c⟩ := cfg_packets_leaves h₄
  exact ⟨c2h_buffer, h2c_buffer, rfl, hinit_c2h, hinit_h2c⟩

end Cfg

end AwsFpga.Sde
