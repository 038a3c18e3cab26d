import Mathlib.Data.BitVec

/-!
# Flow control by credits

A receiver with room for `cap` items counts up a limit whenever one leaves it, and
a sender counts up what it used. Both counters run freely modulo `2 ^ w`, and their
difference is what may still be sent. The sender sees the limit late: `shown` is
the value it was last shown. An item is sent in `unit` parts.
-/

namespace Lib.Credit

variable {w : Nat}

def avail (limit used : BitVec w) : Nat := (limit - used).toNat

theorem avail_self_add {limit used : BitVec w} {n : Nat} (h : n ≤ avail limit used) :
    avail limit (used + BitVec.ofNat w n) = avail limit used - n := by
  have hlt : n < 2 ^ w := h.trans_lt (limit - used).isLt
  have hsub : limit - (used + BitVec.ofNat w n) = limit - used - BitVec.ofNat w n :=
    (sub_sub ..).symm
  have hn : (BitVec.ofNat w n).toNat = n := by
    rw [BitVec.toNat_ofNat, Nat.mod_eq_of_lt hlt]
  unfold avail
  rw [hsub, BitVec.toNat_sub_of_le, hn]
  rw [BitVec.le_def, hn]
  exact h

theorem avail_succ {limit used : BitVec w} (h : avail limit used + 1 < 2 ^ w) :
    avail (limit + 1) used = avail limit used + 1 := by
  unfold avail at h ⊢
  have hadd : limit + 1 - used = limit - used + 1 := add_sub_right_comm ..
  have hone : (1 : BitVec w).toNat = 1 :=
    (BitVec.toNat_ofNat 1 w).trans (Nat.mod_eq_of_lt (by omega))
  rw [hadd, BitVec.toNat_add, hone, Nat.mod_eq_of_lt h]

theorem avail_of_le {limit used : BitVec w} (h : used.toNat ≤ limit.toNat) :
    avail limit used = limit.toNat - used.toNat :=
  BitVec.toNat_sub_of_le (BitVec.le_def.mpr h)

/-! ## The account of the sender

`granted` items are being sent, `sent` parts of them went out, and the receiver
holds `level` parts. While `live`, the shown value may be replaced by the limit. -/

structure Account (cap unit : Nat) (used limit shown : BitVec w) (live : Prop)
    (granted sent level : Nat) : Prop where
  granted_le : granted ≤ avail shown used
  sent_le : sent ≤ granted * unit
  room : avail shown used * unit + level ≤ cap * unit + sent
  later : live → avail shown used ≤ avail limit used
  later_room : live → avail limit used * unit + level ≤ cap * unit + sent

namespace Account

variable {cap unit : Nat} {used limit shown : BitVec w} {live : Prop} {granted sent level : Nat}

theorem level_le (h : Account cap unit used limit shown live granted sent level) :
    level ≤ cap * unit := by
  have hsent := h.sent_le.trans (Nat.mul_le_mul_right unit h.granted_le)
  have hroom := h.room
  omega

theorem grant {n : Nat} (h : Account cap unit used limit shown live 0 0 level)
    (hn : n ≤ avail shown used) : Account cap unit used limit shown live n 0 level where
  granted_le := hn
  sent_le := Nat.zero_le _
  room := h.room
  later := h.later
  later_room := h.later_room

theorem forgo (h : Account cap unit used limit shown live granted 0 level) :
    Account cap unit used limit shown live 0 0 level where
  granted_le := Nat.zero_le _
  sent_le := Nat.zero_le _
  room := h.room
  later := h.later
  later_room := h.later_room

theorem more {sent' : Nat} (h : Account cap unit used limit shown live granted sent level)
    (hle : sent ≤ sent') (hmax : sent' ≤ granted * unit) :
    Account cap unit used limit shown live granted sent' level where
  granted_le := h.granted_le
  sent_le := hmax
  room := by
    have := h.room
    omega
  later := h.later
  later_room := fun hlive => by
    have := h.later_room hlive
    omega

theorem send (h : Account cap unit used limit shown live granted sent level)
    (hsent : sent < granted * unit) :
    Account cap unit used limit shown live granted (sent + 1) (level + 1) where
  granted_le := h.granted_le
  sent_le := hsent
  room := by
    have := h.room
    omega
  later := h.later
  later_room := fun hlive => by
    have := h.later_room hlive
    omega

theorem settle (h : Account cap unit used limit shown live granted sent level) :
    Account cap unit (used + BitVec.ofNat w granted) limit shown live 0 0 level := by
  have hshown := avail_self_add h.granted_le
  have hsplit : ∀ a, granted ≤ a → (a - granted) * unit + granted * unit = a * unit := by
    intro a ha
    rw [← Nat.add_mul, Nat.sub_add_cancel ha]
  refine ⟨Nat.zero_le _, Nat.zero_le _, ?_, fun hlive => ?_, fun hlive => ?_⟩
  · have hroom := h.room
    have hsent := h.sent_le
    rw [hshown]
    have := hsplit _ h.granted_le
    omega
  · rw [hshown, avail_self_add (h.granted_le.trans (h.later hlive))]
    exact Nat.sub_le_sub_right (h.later hlive) _
  · have hle := h.granted_le.trans (h.later hlive)
    have hroom := h.later_room hlive
    have hsent := h.sent_le
    rw [avail_self_add hle]
    have := hsplit _ hle
    omega

theorem leave {level' : Nat} (h : Account cap unit used limit shown live granted sent level)
    (hunit : 0 < unit) (hsmall : cap + granted + 1 < 2 ^ w) (hlevel : level' + unit = level) :
    Account cap unit used (limit + 1) shown live granted sent level' := by
  have hsucc : live → avail (limit + 1) used = avail limit used + 1 := by
    intro hlive
    refine avail_succ ?_
    have hroom := h.later_room hlive
    have hsent := h.sent_le
    have hle : avail limit used * unit ≤ (cap + granted) * unit := by
      rw [Nat.add_mul]
      omega
    have := Nat.le_of_mul_le_mul_right hle hunit
    omega
  refine ⟨h.granted_le, h.sent_le, ?_, fun hlive => ?_, fun hlive => ?_⟩
  · have := h.room
    omega
  · rw [hsucc hlive]
    exact Nat.le_succ_of_le (h.later hlive)
  · have := h.later_room hlive
    rw [hsucc hlive, Nat.add_mul, Nat.one_mul]
    omega

theorem refresh (h : Account cap unit used limit shown live granted sent level) (hlive : live) :
    Account cap unit used limit limit live granted sent level where
  granted_le := h.granted_le.trans (h.later hlive)
  sent_le := h.sent_le
  room := h.later_room hlive
  later := fun _ => Nat.le_refl _
  later_room := h.later_room

/-- An empty receiver at its first limit, when no more than that was used. -/
theorem restart {shown' : BitVec w} (hused : used.toNat ≤ limit.toNat) (hlimit : limit.toNat = cap)
    (hshown : avail shown' used ≤ avail limit used) :
    Account cap unit used limit shown' live 0 0 0 := by
  have hroom : avail limit used * unit ≤ cap * unit := by
    apply Nat.mul_le_mul_right
    rw [avail_of_le hused, hlimit]
    exact Nat.sub_le _ _
  refine ⟨Nat.zero_le _, Nat.zero_le _, ?_, fun _ => hshown, fun _ => hroom⟩
  exact (Nat.mul_le_mul_right unit hshown).trans hroom

end Account

end Lib.Credit
