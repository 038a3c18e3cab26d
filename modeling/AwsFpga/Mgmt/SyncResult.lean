import AwsFpga.Mgmt.Sync

/-!
# What a result of 0 says about a load or a clear

An error status is returned as its qualifier, which is 0 when a failed describe
left it so.
-/

open Lib AwsFpga.Pci

namespace AwsFpga.Mgmt

/-! ## Runs that start with one of the calls -/

section Runs

variable {β : Type} {t : List SyncApi.Event} {b : β}

theorem runs_describe (slot_id : Int) (info : FpgaMgmtImageInfo) (flags : BitVec 32)
    (f : Int × FpgaMgmtImageInfo → Prog SyncApi β) :
    (Sync.describe slot_id info flags >>= f).Runs t b ↔
      ∃ (p : Int × FpgaMgmtImageInfo) (t' : List SyncApi.Event),
        t = ⟨.describe slot_id info flags, p⟩ :: t' ∧ (f p).Runs t' b := Iff.rfl

theorem runs_get_sh_version (slot_id : Int) (f : Int × BitVec 32 → Prog SyncApi β) :
    (Sync.get_sh_version slot_id >>= f).Runs t b ↔
      ∃ (r : Int × BitVec 32) (t' : List SyncApi.Event),
        t = ⟨.get_sh_version slot_id, r⟩ :: t' ∧ (f r).Runs t' b := Iff.rfl

theorem runs_get_resource_map (slot_id pf_id : Int)
    (f : Int × FpgaPciResourceMap → Prog SyncApi β) :
    (Sync.get_resource_map slot_id pf_id >>= f).Runs t b ↔
      ∃ (r : Int × FpgaPciResourceMap) (t' : List SyncApi.Event),
        t = ⟨.get_resource_map slot_id pf_id, r⟩ :: t' ∧ (f r).Runs t' b := Iff.rfl

theorem runs_get_slot_spec (slot_id : Int) (f : Int × FpgaSlotSpec → Prog SyncApi β) :
    (Sync.get_slot_spec slot_id >>= f).Runs t b ↔
      ∃ (ret : Int) (spec : FpgaSlotSpec) (t' : List SyncApi.Event),
        t = ⟨.get_slot_spec slot_id, (ret, spec)⟩ :: t' ∧ (f (ret, spec)).Runs t' b :=
  ⟨fun ⟨(ret, spec), t', h⟩ => ⟨ret, spec, t', h⟩, fun ⟨ret, spec, t', h⟩ => ⟨(ret, spec), t', h⟩⟩

theorem runs_sync_msleep (ms : BitVec 32) (f : Unit → Prog SyncApi β) :
    (Sync.msleep ms >>= f).Runs t b ↔
      ∃ t', t = ⟨.msleep ms, ()⟩ :: t' ∧ (f ()).Runs t' b :=
  ⟨fun ⟨(), t', h⟩ => ⟨t', h⟩, fun ⟨t', h⟩ => ⟨(), t', h⟩⟩

end Runs

/-! ## Polls -/

def poll? : SyncApi.Event → Option (Int × FpgaMgmtImageInfo)
  | ⟨.describe .., p⟩ => some p
  | _ => none

/-- What the describes answered, in order. -/
def polls (t : List SyncApi.Event) : List (Int × FpgaMgmtImageInfo) := t.filterMap poll?

def lastPoll (t : List SyncApi.Event) : Option (Int × FpgaMgmtImageInfo) := (polls t).getLast?

/-- A failed describe, or a status that is neither the wanted one nor busy. -/
def IsErrorPoll (wanted : Int) (p : Int × FpgaMgmtImageInfo) : Prop :=
  p.1 ≠ 0 ∨ (p.2.status ≠ wanted ∧ p.2.status ≠ FPGA_STATUS_BUSY)

/-- The call ended on an error poll whose qualifier field holds 0. -/
def ErrorPollZero (wanted : Int) (t : List SyncApi.Event) : Prop :=
  ∃ p, lastPoll t = some p ∧ IsErrorPoll wanted p ∧ p.2.status_q = 0

/-- The last call is a successful lookup of the slot spec. -/
def EndsWithSpec (t : List SyncApi.Event) : Prop :=
  ∃ slot_id spec, t.getLast? = some ⟨.get_slot_spec slot_id, (0, spec)⟩

theorem polls_append (t₁ t₂ : List SyncApi.Event) : polls (t₁ ++ t₂) = polls t₁ ++ polls t₂ :=
  List.filterMap_append

theorem polls_describe (slot_id : Int) (info : FpgaMgmtImageInfo) (flags : BitVec 32)
    (p : Int × FpgaMgmtImageInfo) (t : List SyncApi.Event) :
    polls (⟨.describe slot_id info flags, p⟩ :: t) = p :: polls t := rfl

theorem mem_polls_iff (t : List SyncApi.Event) (p : Int × FpgaMgmtImageInfo) :
    p ∈ polls t ↔ ∃ slot_id info flags, ⟨.describe slot_id info flags, p⟩ ∈ t := by
  simp only [polls, List.mem_filterMap]
  constructor
  · rintro ⟨⟨o, r⟩, he, hp⟩
    cases o with
    | describe slot_id info flags =>
      obtain rfl := Option.some.inj hp
      exact ⟨slot_id, info, flags, he⟩
    | _ => exact absurd hp (by simp [poll?])
  · rintro ⟨slot_id, info, flags, he⟩
    exact ⟨_, he, rfl⟩

/-! ## The loop -/

/-- What the last poll makes the loop return. -/
inductive WaitResult (wanted : Int) (check : FpgaMgmtImageInfo → Int)
    (p : Int × FpgaMgmtImageInfo) : Except Int FpgaMgmtImageInfo → Prop where
  | reached (ok : p.1 = 0) (status : p.2.status = wanted) (checked : check p.2 = 0) :
    WaitResult wanted check p (.ok p.2)
  | mismatch (good : ¬ IsErrorPoll wanted p) (checked : check p.2 ≠ 0) :
    WaitResult wanted check p (.error (check p.2))
  | timeout (good : ¬ IsErrorPoll wanted p) : WaitResult wanted check p (.error (-ETIMEDOUT))
  | failed (error : IsErrorPoll wanted p) : WaitResult wanted check p (.error p.2.status_q)

structure WaitEnd (slot_id wanted : Int) (check : FpgaMgmtImageInfo → Int)
    (t : List SyncApi.Event) (r : Except Int FpgaMgmtImageInfo) : Prop where
  calls : ∀ e ∈ t, (∃ info p, e = ⟨.describe slot_id info 0, p⟩) ∨ ∃ ms, e = ⟨.msleep ms, ()⟩
  busy : ∀ p ∈ (polls t).dropLast, p.1 = 0 ∧ p.2.status = FPGA_STATUS_BUSY
  last : ∃ p, lastPoll t = some p ∧ WaitResult wanted check p r

theorem waitEnd_single (slot_id wanted : Int) (check : FpgaMgmtImageInfo → Int)
    (info : FpgaMgmtImageInfo) (p : Int × FpgaMgmtImageInfo) (r : Except Int FpgaMgmtImageInfo)
    (h : WaitResult wanted check p r) :
    WaitEnd slot_id wanted check [⟨.describe slot_id info 0, p⟩] r := by
  refine ⟨fun e he => ?_, ?_, p, rfl, h⟩
  · obtain rfl := List.mem_singleton.mp he
    exact Or.inl ⟨info, p, rfl⟩
  · rw [polls_describe]
    simp [polls]

theorem wait_for_image_step (slot_id wanted : Int) (hend : wanted ≠ FPGA_STATUS_END)
    (check : FpgaMgmtImageInfo → Int) (delay_msec : BitVec 32) (retries : Nat)
    (tmp_info : FpgaMgmtImageInfo) (t : List SyncApi.Event) (r : Except Int FpgaMgmtImageInfo)
    (h : (wait_for_image slot_id wanted check delay_msec retries tmp_info).Runs t r) :
    ∃ (p : Int × FpgaMgmtImageInfo) (t' : List SyncApi.Event),
      t = ⟨.describe slot_id tmp_info 0, p⟩ :: t' ∧
      (t' = [] ∧ WaitResult wanted check p r ∨
        p.1 = 0 ∧ p.2.status = FPGA_STATUS_BUSY ∧ ∃ n t'', retries = n + 1 ∧
          t' = ⟨.msleep delay_msec, ()⟩ :: t'' ∧
          (wait_for_image slot_id wanted check delay_msec n p.2).Runs t'' r) := by
  unfold wait_for_image at h
  rw [runs_describe] at h
  obtain ⟨p, t', rfl, h⟩ := h
  refine ⟨p, t', rfl, ?_⟩
  obtain ⟨ret, info⟩ := p
  dsimp only at h ⊢
  by_cases hret : ret = 0
  · rw [if_pos hret] at h
    split at h
    case isTrue hstatus =>
      have hgood : ¬ IsErrorPoll wanted (ret, info) := by simp [IsErrorPoll, hret, hstatus]
      left
      split at h
      case isTrue hcheck =>
        obtain ⟨rfl, rfl⟩ := h
        exact ⟨rfl, .mismatch hgood hcheck⟩
      case isFalse hcheck =>
        obtain ⟨rfl, rfl⟩ := h
        exact ⟨rfl, .reached hret hstatus (not_not.mp hcheck)⟩
    case isFalse hstatus =>
      split at h
      case isTrue hbusy =>
        have hgood : ¬ IsErrorPoll wanted (ret, info) := by simp [IsErrorPoll, hret, hbusy]
        cases retries with
        | zero =>
          obtain ⟨rfl, rfl⟩ := h
          exact Or.inl ⟨rfl, .timeout hgood⟩
        | succ n =>
          right
          dsimp only at h
          rw [runs_sync_msleep] at h
          obtain ⟨t'', rfl, h⟩ := h
          exact ⟨hret, hbusy, n, t'', rfl, rfl, h⟩
      case isFalse hbusy =>
        obtain ⟨rfl, rfl⟩ := h
        exact Or.inl ⟨rfl, .failed (Or.inr ⟨hstatus, hbusy⟩)⟩
  · -- A failed describe counts as the status `FPGA_STATUS_END`.
    rw [if_neg hret, if_neg (Ne.symm hend), if_neg (by decide)] at h
    obtain ⟨rfl, rfl⟩ := h
    exact Or.inl ⟨rfl, .failed (Or.inl hret)⟩

theorem wait_for_image_spec (slot_id wanted : Int) (hend : wanted ≠ FPGA_STATUS_END)
    (check : FpgaMgmtImageInfo → Int) (delay_msec : BitVec 32) (retries : Nat)
    (tmp_info : FpgaMgmtImageInfo) (t : List SyncApi.Event) (r : Except Int FpgaMgmtImageInfo)
    (h : (wait_for_image slot_id wanted check delay_msec retries tmp_info).Runs t r) :
    WaitEnd slot_id wanted check t r := by
  induction retries generalizing tmp_info t with
  | zero =>
    obtain ⟨p, t', rfl, ⟨rfl, hres⟩ | ⟨-, -, n, _, hn, -⟩⟩ :=
      wait_for_image_step _ _ hend _ _ _ _ _ _ h
    · exact waitEnd_single slot_id wanted check tmp_info p r hres
    · omega
  | succ retries ih =>
    obtain ⟨p, t', rfl, ⟨rfl, hres⟩ | ⟨hret, hbusy, n, t'', hn, rfl, h⟩⟩ :=
      wait_for_image_step _ _ hend _ _ _ _ _ _ h
    · exact waitEnd_single slot_id wanted check tmp_info p r hres
    obtain rfl : retries = n := by omega
    obtain ⟨hcalls, hinit, q, hlast, hres⟩ := ih p.2 t'' h
    have hpolls : polls (⟨.describe slot_id tmp_info 0, p⟩ :: ⟨.msleep delay_msec, ()⟩ :: t'') =
        p :: polls t'' := rfl
    have hne : polls t'' ≠ [] := by
      intro h0
      simp [lastPoll, h0] at hlast
    refine ⟨?_, ?_, q, ?_, hres⟩
    · intro e he
      rcases List.mem_cons.mp he with rfl | he
      · exact Or.inl ⟨_, _, rfl⟩
      rcases List.mem_cons.mp he with rfl | he
      · exact Or.inr ⟨_, rfl⟩
      · exact hcalls e he
    · rw [hpolls, List.dropLast_cons_of_ne_nil hne]
      intro q' hq'
      rcases List.mem_cons.mp hq' with rfl | hq'
      · exact ⟨hret, hbusy⟩
      · exact hinit q' hq'
    · rw [lastPoll, hpolls, List.getLast?_cons_of_ne_nil hne]
      exact hlast

/-! ## The whole function -/

theorem endsWithSpec_append (t₁ t₂ : List SyncApi.Event) (h : t₂ ≠ []) :
    EndsWithSpec (t₁ ++ t₂) ↔ EndsWithSpec t₂ := by
  unfold EndsWithSpec
  rw [List.getLast?_append_of_ne_nil _ h]

theorem not_endsWithSpec (t : List SyncApi.Event)
    (h : ∀ e ∈ t, ∀ slot_id spec, e ≠ ⟨.get_slot_spec slot_id, (0, spec)⟩) : ¬ EndsWithSpec t := by
  rintro ⟨slot_id, spec, hlast⟩
  exact h _ (List.mem_of_getLast? hlast) slot_id spec rfl

theorem not_endsWithSpec_of_last {t : List SyncApi.Event} {e : SyncApi.Event}
    (hlast : t.getLast? = some e) (h : ∀ slot_id spec, e ≠ ⟨.get_slot_spec slot_id, (0, spec)⟩) :
    ¬ EndsWithSpec t := by
  rintro ⟨slot_id, spec, hspec⟩
  exact h slot_id spec (Option.some.inj (hlast.symm.trans hspec))

theorem runs_return {code : Int} {info : Option FpgaMgmtImageInfo} {t : List SyncApi.Event}
    {ret : Int} {out : Option FpgaMgmtImageInfo}
    (h : (pure (code, info) : Prog SyncApi _).Runs t (ret, out)) : t = [] ∧ ret = code := by
  obtain ⟨rfl, h⟩ := h
  exact ⟨rfl, (Prod.mk.inj h).1⟩

theorem WaitEnd.not_spec_after {slot_id wanted : Int} {check : FpgaMgmtImageInfo → Int}
    {t₁ t₂ t : List SyncApi.Event} {e : SyncApi.Event} {r : Except Int FpgaMgmtImageInfo}
    (h : WaitEnd slot_id wanted check t₂ r) (calls : t = t₁ ++ e :: t₂) : ¬ EndsWithSpec t := by
  obtain ⟨q, hlast, -⟩ := h.last
  have hne : t₂ ≠ [] := by
    rintro rfl
    simp [lastPoll, polls] at hlast
  rw [calls, List.append_cons, endsWithSpec_append _ _ hne]
  refine not_endsWithSpec t₂ fun e he slot spec heq => ?_
  subst heq
  rcases h.calls _ he with ⟨info, p, heq⟩ | ⟨ms, heq⟩
  · cases heq
  · cases heq

theorem finish_image_spec (slot_id : Int) (prev_sh_version : BitVec 32)
    (app_map : FpgaPciResourceMap) (tmp_info : FpgaMgmtImageInfo) (t : List SyncApi.Event)
    (ret : Int) (out : Option FpgaMgmtImageInfo)
    (h : (finish_image slot_id prev_sh_version app_map tmp_info).Runs t (ret, out)) :
    t ≠ [] ∧ polls t = [] ∧ (ret = 0 ↔ EndsWithSpec t) := by
  unfold finish_image at h
  rw [runs_get_sh_version] at h
  obtain ⟨⟨ret₁, sh_version⟩, t₁, rfl, h⟩ := h
  have hpolls₁ : polls (⟨.get_sh_version slot_id, (ret₁, sh_version)⟩ :: t₁) = polls t₁ := rfl
  rw [hpolls₁]
  refine ⟨List.cons_ne_nil _ _, ?_⟩
  dsimp only at h
  split at h
  case isTrue hret =>
    obtain ⟨rfl, rfl⟩ := runs_return h
    exact ⟨rfl, iff_of_false hret (not_endsWithSpec_of_last rfl fun _ _ => nofun)⟩
  rw [Prog.runs_bind] at h
  obtain ⟨t₂, ret₂, t₃, rfl, hrescan, h⟩ := h
  -- A rescan, if there is one, is neither a poll nor a lookup.
  have hrescan : ∀ e ∈ t₂, e = ⟨.rescan_slot_app_pfs slot_id, ret₂⟩ := by
    split at hrescan
    · obtain ⟨rfl, -⟩ := hrescan
      simp
    · obtain ⟨r, t', rfl, rfl, rfl⟩ := hrescan
      simp
  have hpolls₂ : polls t₂ = [] := by
    unfold polls
    rw [List.filterMap_eq_nil_iff]
    intro e he
    rw [hrescan e he]
    rfl
  rw [polls_append, hpolls₂, List.nil_append]
  split at h
  case isTrue hret =>
    obtain ⟨rfl, rfl⟩ := runs_return h
    refine ⟨rfl, iff_of_false hret (not_endsWithSpec _ fun e he slot spec heq => ?_)⟩
    rw [List.append_nil] at he
    rcases List.mem_cons.mp he with rfl | he
    · cases heq
    · rw [hrescan e he] at heq
      cases heq
  rw [runs_get_slot_spec] at h
  obtain ⟨ret₃, spec, t₄, rfl, h⟩ := h
  have hends : EndsWithSpec (⟨.get_sh_version slot_id, (ret₁, sh_version)⟩ ::
      (t₂ ++ [⟨.get_slot_spec slot_id, (ret₃, spec)⟩])) ↔ ret₃ = 0 := by
    rw [← List.cons_append, endsWithSpec_append _ _ (List.cons_ne_nil _ _)]
    constructor
    · rintro ⟨slot, spec', hlast⟩
      cases hlast
      rfl
    · rintro rfl
      exact ⟨slot_id, spec, rfl⟩
  dsimp only at h
  split at h
  case isTrue hret =>
    obtain ⟨rfl, rfl⟩ := runs_return h
    exact ⟨rfl, hends.symm⟩
  case isFalse hret =>
    obtain ⟨rfl, rfl⟩ := runs_return h
    exact ⟨rfl, iff_of_true rfl (hends.mpr (not_not.mp hret))⟩

/-- How the shared body ends, around the call that `started` describes. -/
inductive SyncEnd (started : Int → SyncApi.Event) (slot_id wanted : Int)
    (check : FpgaMgmtImageInfo → Int) (t : List SyncApi.Event) (ret : Int) : Prop where
  | stopped (unpolled : polls t = []) (code : ret ≠ 0) (no_spec : ¬ EndsWithSpec t)
  | error (t₁ t₂ : List SyncApi.Event) (calls : t = t₁ ++ started 0 :: t₂)
      (before : polls t₁ = []) (wait : WaitEnd slot_id wanted check t₂ (.error ret))
  | reached (t₁ t₂ t₃ : List SyncApi.Event) (info : FpgaMgmtImageInfo)
      (calls : t = t₁ ++ started 0 :: (t₂ ++ t₃)) (before : polls t₁ = [])
      (wait : WaitEnd slot_id wanted check t₂ (.ok info)) (after : polls t₃ = [])
      (nonempty : t₃ ≠ []) (code : ret = 0 ↔ EndsWithSpec t₃)

theorem image_sync_spec (started : Int → SyncApi.Event) (hpoll : ∀ r, poll? (started r) = none)
    (hspec : ∀ r slot_id spec, started r ≠ ⟨.get_slot_spec slot_id, (0, spec)⟩)
    (start : Prog SyncApi Int) (hstart : ∀ t r, start.Runs t r → t = [started r])
    (slot_id wanted : Int) (hend : wanted ≠ FPGA_STATUS_END) (check : FpgaMgmtImageInfo → Int)
    (timeout delay_msec : BitVec 32) (t : List SyncApi.Event) (ret : Int)
    (out : Option FpgaMgmtImageInfo)
    (h : (image_sync slot_id wanted check start timeout delay_msec).Runs t (ret, out)) :
    SyncEnd started slot_id wanted check t ret := by
  unfold image_sync at h
  dsimp only at h
  split at h
  · obtain ⟨rfl, rfl⟩ := runs_return h
    exact .stopped rfl (by decide) (not_endsWithSpec _ (by simp))
  rw [runs_get_sh_version] at h
  obtain ⟨⟨ret₁, sh_version⟩, t₁, rfl, h⟩ := h
  dsimp only at h
  split at h
  case isTrue hret =>
    obtain ⟨rfl, rfl⟩ := runs_return h
    exact .stopped rfl hret (not_endsWithSpec_of_last rfl fun _ _ => nofun)
  rw [runs_get_resource_map] at h
  obtain ⟨⟨ret₂, app_map⟩, t₂, rfl, h⟩ := h
  dsimp only at h
  split at h
  case isTrue hret =>
    obtain ⟨rfl, rfl⟩ := runs_return h
    exact .stopped rfl hret (not_endsWithSpec_of_last rfl fun _ _ => nofun)
  rw [Prog.runs_bind] at h
  obtain ⟨t₃, ret₃, t₄, rfl, hrun, h⟩ := h
  obtain rfl := hstart t₃ ret₃ hrun
  split at h
  case isTrue hret =>
    obtain ⟨rfl, rfl⟩ := runs_return h
    have hpolls : polls [started ret] = [] := by simp [polls, hpoll]
    exact .stopped hpolls hret (not_endsWithSpec_of_last rfl (hspec ret))
  case isFalse hret =>
    obtain rfl : ret₃ = 0 := not_not.mp hret
    rw [Prog.runs_bind] at h
    obtain ⟨t₅, r, t₆, rfl, hwait, h⟩ := h
    let before : List SyncApi.Event := [⟨.get_sh_version slot_id, (ret₁, sh_version)⟩,
      ⟨.get_resource_map slot_id FPGA_APP_PF, (ret₂, app_map)⟩]
    have wait := wait_for_image_spec _ _ hend _ _ _ _ _ _ hwait
    cases r with
    | error e =>
      obtain ⟨rfl, rfl⟩ := runs_return h
      refine .error before t₅ ?_ rfl wait
      rw [List.append_nil]
      rfl
    | ok info =>
      obtain ⟨hne, hpolls, hcode⟩ := finish_image_spec _ _ _ _ _ _ _ h
      exact .reached before t₅ t₆ info rfl rfl wait hpolls hne hcode

/-! ## What a result of 0 should mean -/

/-- A result of 0 means that the operation was started, and that a later poll found the wanted
status in an image that is accepted. -/
def SyncSound (started : Int → SyncApi.Event) (slot_id wanted : Int)
    (accept : FpgaMgmtImageInfo → Prop) (t : List SyncApi.Event) (ret : Int) : Prop :=
  ret = 0 → ∃ t₁ t₂, t = t₁ ++ started 0 :: t₂ ∧ ∃ info info',
    ⟨.describe slot_id info 0, (0, info')⟩ ∈ t₂ ∧ info'.status = wanted ∧ accept info'

theorem polls_started (started : Int → SyncApi.Event) (hpoll : ∀ r, poll? (started r) = none)
    (t₁ t₂ : List SyncApi.Event) (before : polls t₁ = []) :
    polls (t₁ ++ started 0 :: t₂) = polls t₂ := by
  rw [polls_append, before, List.nil_append]
  exact List.filterMap_cons_none (hpoll 0)

theorem poll_busy_or_last (ps : List (Int × FpgaMgmtImageInfo)) (p q : Int × FpgaMgmtImageInfo)
    (hbusy : ∀ x ∈ ps.dropLast, x.1 = 0 ∧ x.2.status = FPGA_STATUS_BUSY)
    (hlast : ps.getLast? = some q) (hp : p ∈ ps) :
    p.2.status = FPGA_STATUS_BUSY ∨ p = q := by
  obtain ⟨init, rfl⟩ := List.getLast?_eq_some_iff.mp hlast
  rw [List.dropLast_concat] at hbusy
  rcases List.mem_append.mp hp with hp | hp
  · exact Or.inl (hbusy p hp).2
  · exact Or.inr (List.mem_singleton.mp hp)

theorem SyncEnd.checked {started : Int → SyncApi.Event} {slot_id wanted : Int}
    {check : FpgaMgmtImageInfo → Int} {t : List SyncApi.Event} {ret : Int}
    (h : SyncEnd started slot_id wanted check t ret)
    (hpoll : ∀ r, poll? (started r) = none) (hspec : EndsWithSpec t) :
    ∃ p, lastPoll t = some p ∧ check p.2 = 0 := by
  cases h with
  | stopped unpolled code no_spec => exact absurd hspec no_spec
  | error t₁ t₂ calls before wait => exact absurd hspec (wait.not_spec_after calls)
  | reached t₁ t₂ t₃ info calls before wait after nonempty code =>
    obtain ⟨q, hlast, hres⟩ := wait.last
    refine ⟨q, ?_, ?_⟩
    · rw [lastPoll, calls, polls_started started hpoll t₁ _ before, polls_append, after,
        List.append_nil]
      exact hlast
    · cases hres with
      | reached ok status checked => exact checked

section Sound

variable {started : Int → SyncApi.Event} {slot_id wanted : Int} {check : FpgaMgmtImageInfo → Int}
variable {accept : FpgaMgmtImageInfo → Prop} {t t₂ : List SyncApi.Event} {ret : Int}

theorem SyncSound.polled (h : SyncSound started slot_id wanted accept t ret) (h0 : ret = 0) :
    ∃ info : FpgaMgmtImageInfo, (0, info) ∈ polls t ∧ info.status = wanted ∧ accept info := by
  obtain ⟨u₁, u₂, hcalls, info, info', hmem, hstatus, hacc⟩ := h h0
  refine ⟨info', ?_, hstatus, hacc⟩
  rw [mem_polls_iff, hcalls]
  exact ⟨slot_id, info, 0, List.mem_append_right _ (List.mem_cons_of_mem _ hmem)⟩

theorem WaitEnd.wanted_last {r : Except Int FpgaMgmtImageInfo}
    (h : WaitEnd slot_id wanted check t₂ r) (hbusy : wanted ≠ FPGA_STATUS_BUSY)
    {p q : Int × FpgaMgmtImageInfo} (hlast : lastPoll t₂ = some q) (hp : p ∈ polls t₂)
    (hstatus : p.2.status = wanted) : p = q := by
  rcases poll_busy_or_last _ p q h.busy hlast hp with hb | hq
  · exact absurd (hstatus.symm.trans hb) hbusy
  · exact hq

theorem error_sound_iff (hbusy : wanted ≠ FPGA_STATUS_BUSY) (hpolls : polls t = polls t₂)
    (hno : ¬ EndsWithSpec t) (wait : WaitEnd slot_id wanted check t₂ (.error ret)) :
    SyncSound started slot_id wanted accept t ret ↔ ¬ (ErrorPollZero wanted t ∨
      (EndsWithSpec t ∧ ∃ p, lastPoll t = some p ∧ check p.2 = 0 ∧ ¬ accept p.2)) := by
  obtain ⟨q, hlast, hres⟩ := wait.last
  have hlast' : lastPoll t = some q := by rw [lastPoll, hpolls]; exact hlast
  constructor
  · rintro sound (⟨p, hp, herr, hzero⟩ | ⟨hspec, -⟩)
    · obtain rfl : p = q := Option.some.inj (hp.symm.trans hlast')
      -- No poll of this run found the wanted status.
      have hret : ret = 0 := by
        cases hres with
        | mismatch good checked => exact absurd herr good
        | timeout good => exact absurd herr good
        | failed error => exact hzero
      obtain ⟨info, hmem, hstatus, -⟩ := sound.polled hret
      rw [hpolls] at hmem
      obtain rfl := wait.wanted_last hbusy hlast hmem hstatus
      rcases herr with herr | ⟨herr, -⟩
      · exact herr rfl
      · exact herr hstatus
    · exact hno hspec
  · intro hgood h0
    exfalso
    apply hgood
    left
    refine ⟨q, hlast', ?_⟩
    subst h0
    generalize hr : Except.error (0 : Int) = r at hres
    cases hres with
    | reached => cases hr
    | mismatch good checked => exact absurd (Except.error.inj hr).symm checked
    | timeout good => exact absurd (Except.error.inj hr) (by decide)
    | failed error => exact ⟨error, (Except.error.inj hr).symm⟩

theorem reached_sound_iff (hbusy : wanted ≠ FPGA_STATUS_BUSY) {t₁ t₃ : List SyncApi.Event}
    {info : FpgaMgmtImageInfo} (calls : t = t₁ ++ started 0 :: (t₂ ++ t₃))
    (hpolls : polls t = polls t₂) (hspec : EndsWithSpec t ↔ ret = 0)
    (wait : WaitEnd slot_id wanted check t₂ (.ok info)) :
    SyncSound started slot_id wanted accept t ret ↔ ¬ (ErrorPollZero wanted t ∨
      (EndsWithSpec t ∧ ∃ p, lastPoll t = some p ∧ check p.2 = 0 ∧ ¬ accept p.2)) := by
  obtain ⟨q, hlast, hres⟩ := wait.last
  have hlast' : lastPoll t = some q := by rw [lastPoll, hpolls]; exact hlast
  generalize hr : Except.ok info = r at hres
  cases hres with
  | mismatch => cases hr
  | timeout => cases hr
  | failed => cases hr
  | reached ok status checked =>
    constructor
    · rintro sound (⟨p, hp, herr, -⟩ | ⟨hends, p, hp, -, hno⟩)
      · obtain rfl : p = q := Option.some.inj (hp.symm.trans hlast')
        rcases herr with herr | ⟨herr, -⟩
        · exact herr ok
        · exact herr status
      · obtain rfl : p = q := Option.some.inj (hp.symm.trans hlast')
        obtain ⟨info', hmem, hstatus, hacc⟩ := sound.polled (hspec.mp hends)
        rw [hpolls] at hmem
        obtain rfl := wait.wanted_last hbusy hlast hmem hstatus
        exact hno hacc
    · intro hgood h0
      have hacc : accept q.2 := by
        by_contra hno
        exact hgood (Or.inr ⟨hspec.mpr h0, q, hlast', checked, hno⟩)
      have hmem : q ∈ polls t₂ := List.mem_of_getLast? hlast
      obtain ⟨slot, info₀, flags, hmem⟩ := (mem_polls_iff t₂ q).mp hmem
      refine ⟨t₁, t₂ ++ t₃, calls, info₀, q.2, List.mem_append_left _ ?_, status, hacc⟩
      rcases wait.calls _ hmem with ⟨info₁, p, heq⟩ | ⟨ms, heq⟩
      · cases heq
        obtain ⟨ret', info'⟩ := q
        obtain rfl : ret' = 0 := ok
        exact hmem
      · cases heq

end Sound

/-- The result of 0 is a mistake when the call ended on an error poll with qualifier 0, or when
the image it waited for is not acceptable. -/
theorem syncEnd_sound_iff (started : Int → SyncApi.Event) (hpoll : ∀ r, poll? (started r) = none)
    (slot_id wanted : Int) (hbusy : wanted ≠ FPGA_STATUS_BUSY)
    (check : FpgaMgmtImageInfo → Int) (accept : FpgaMgmtImageInfo → Prop) (t : List SyncApi.Event)
    (ret : Int) (h : SyncEnd started slot_id wanted check t ret) :
    SyncSound started slot_id wanted accept t ret ↔ ¬ (ErrorPollZero wanted t ∨
      (EndsWithSpec t ∧ ∃ p, lastPoll t = some p ∧ check p.2 = 0 ∧ ¬ accept p.2)) := by
  cases h with
  | stopped unpolled code no_spec =>
    refine ⟨fun _ hbad => ?_, fun _ h0 => absurd h0 code⟩
    rcases hbad with ⟨p, hlast, -⟩ | ⟨hspec, -⟩
    · simp [lastPoll, unpolled] at hlast
    · exact no_spec hspec
  | error t₁ t₂ calls before wait =>
    have hpolls : polls t = polls t₂ := by rw [calls, polls_started started hpoll t₁ t₂ before]
    exact error_sound_iff hbusy hpolls (wait.not_spec_after calls) wait
  | reached t₁ t₂ t₃ info calls before wait after nonempty code =>
    have hpolls : polls t = polls t₂ := by
      rw [calls, polls_started started hpoll t₁ _ before, polls_append, after, List.append_nil]
    have hspec : EndsWithSpec t ↔ ret = 0 := by
      rw [calls, List.append_cons, ← List.append_assoc, endsWithSpec_append _ _ nonempty, code]
    exact reached_sound_iff hbusy calls hpolls hspec wait

/-! ## The id of the loaded image -/

theorem strncmp_eq_zero_iff (a b : List (BitVec 8)) (n : Nat) (ha : ∀ x ∈ a, x ≠ 0)
    (hb : b.length = n) : strncmp a b n = 0 ↔ a.take n = b.takeWhile (· ≠ 0) := by
  induction n generalizing a b with
  | zero =>
    obtain rfl := List.length_eq_zero_iff.mp hb
    simp [strncmp]
  | succ n ih =>
    obtain ⟨y, b, rfl⟩ := List.exists_cons_of_length_eq_add_one hb
    rw [List.takeWhile_cons]
    cases a with
    | nil =>
      by_cases hy : y = 0
      · simp [strncmp, hy]
      · have hne : ¬ y.toNat = 0 := fun h0 => hy (BitVec.eq_of_toNat_eq h0)
        simp [strncmp, hne]
        exact eq_comm
    | cons x a =>
      have hx : ¬ x = 0 := ha x (by simp)
      by_cases hxy : x = y
      · subst hxy
        have ih' := ih a b (fun z hz => ha z (by simp [hz])) (by simpa using hb)
        simp only [strncmp, List.headD_cons, ne_eq, not_true_eq_false, if_false, hx, List.tail_cons,
          ih', List.take_succ_cons, not_false_eq_true, decide_true, if_true, List.cons.injEq,
          true_and]
      · have hne : ¬ x.toNat = y.toNat := fun h => hxy (BitVec.eq_of_toNat_eq h)
        have hsub : ¬ (x.toNat : Int) - y.toNat = 0 := by omega
        simp only [strncmp, List.headD_cons, ne_eq, hxy, not_false_eq_true, if_true, hsub,
          List.take_succ_cons, false_iff]
        split
        · simp [hxy]
        · simp

theorem check_afi_id_zero_iff (opt : LoadLocalImageOptions) (info : FpgaMgmtImageInfo) :
    check_afi_id opt info = 0 ↔ (FPGA_CMD_PREFETCH &&& opt.flags ≠ FPGA_CMD_PREFETCH →
      opt.afi_id.bytes.take AFI_ID_STR_MAX = info.ids.afi_id_str) := by
  unfold check_afi_id FpgaMetaIds.afi_id_str
  rw [← strncmp_eq_zero_iff _ _ _ opt.afi_id.no_nul (by simp)]
  split
  · split
    · rename_i hflags hne
      simp only [ne_eq, hflags, not_false_eq_true, forall_true_left]
      exact iff_of_false (by decide) hne
    · rename_i hflags heq
      simp only [ne_eq, hflags, not_false_eq_true, forall_true_left, true_iff]
      exact not_not.mp heq
  · rename_i hflags
    simp [hflags]

theorem prefetch_masked (flags : BitVec 32) :
    FPGA_CMD_PREFETCH &&& (flags &&& FPGA_CMD_ALL_FLAGS) = FPGA_CMD_PREFETCH &&& flags := by
  rw [BitVec.and_comm flags, ← BitVec.and_assoc]
  rfl

/-! ## Load -/

/-- Without `FPGA_CMD_PREFETCH`, the loaded image must have the requested id. -/
def AcceptImage (opt : LoadLocalImageOptions) (info : FpgaMgmtImageInfo) : Prop :=
  FPGA_CMD_PREFETCH &&& opt.flags ≠ FPGA_CMD_PREFETCH → info.ids.afi_id_str = opt.afi_id.bytes

/-- The call went to its end with a requested id that is longer than the field of an id. -/
def OverlongId (opt : LoadLocalImageOptions) (t : List SyncApi.Event) : Prop :=
  FPGA_CMD_PREFETCH &&& opt.flags ≠ FPGA_CMD_PREFETCH ∧
    AFI_ID_STR_MAX < opt.afi_id.bytes.length ∧ EndsWithSpec t

theorem not_accept_iff (opt : LoadLocalImageOptions) (info : FpgaMgmtImageInfo)
    (h : check_afi_id opt info = 0) :
    ¬ AcceptImage opt info ↔ FPGA_CMD_PREFETCH &&& opt.flags ≠ FPGA_CMD_PREFETCH ∧
      AFI_ID_STR_MAX < opt.afi_id.bytes.length := by
  rw [check_afi_id_zero_iff] at h
  unfold AcceptImage
  rw [Classical.not_imp]
  refine and_congr_right fun hflags => ?_
  rw [← h hflags]
  constructor
  · intro hne
    by_contra hlen
    exact hne (List.take_of_length_le (by omega))
  · intro hlen heq
    have := congrArg List.length heq
    rw [List.length_take] at this
    omega

theorem load_sync_spec (initialized : Bool) (opt : LoadLocalImageOptions)
    (timeout delay_msec : BitVec 32) (t : List SyncApi.Event) (ret : Int)
    (out : Option FpgaMgmtImageInfo)
    (h : (fpga_mgmt_load_local_image_sync_with_options initialized opt timeout delay_msec).Runs t
      (ret, out)) :
    SyncEnd (fun r => ⟨.load opt, r⟩) opt.slot_id FPGA_STATUS_LOADED (check_afi_id opt) t ret := by
  unfold fpga_mgmt_load_local_image_sync_with_options at h
  split at h
  · obtain ⟨rfl, rfl⟩ := runs_return h
    exact .stopped rfl (by decide) (not_endsWithSpec _ (by simp))
  split at h
  · obtain ⟨rfl, rfl⟩ := runs_return h
    exact .stopped rfl (by decide) (not_endsWithSpec _ (by simp))
  have hcheck : check_afi_id { opt with flags := opt.flags &&& FPGA_CMD_ALL_FLAGS } =
      check_afi_id opt := by
    funext info
    simp only [check_afi_id, prefetch_masked]
  dsimp only at h
  rw [hcheck] at h
  refine image_sync_spec _ (fun _ => rfl) (fun _ _ _ heq => by cases heq) _ ?_ _ _ (by decide) _ _ _
    _ _ _ h
  rintro t r ⟨r', t', rfl, rfl, rfl⟩
  rfl

theorem load_sync_sound_iff (initialized : Bool) (opt : LoadLocalImageOptions)
    (timeout delay_msec : BitVec 32) (t : List SyncApi.Event) (ret : Int)
    (out : Option FpgaMgmtImageInfo)
    (h : (fpga_mgmt_load_local_image_sync_with_options initialized opt timeout delay_msec).Runs t
      (ret, out)) :
    SyncSound (fun r => ⟨.load opt, r⟩) opt.slot_id FPGA_STATUS_LOADED (AcceptImage opt) t ret ↔
      ¬ ErrorPollZero FPGA_STATUS_LOADED t ∧ ¬ OverlongId opt t := by
  have hend := load_sync_spec _ _ _ _ _ _ _ h
  rw [syncEnd_sound_iff _ (fun _ => rfl) _ _ (by decide) _ (AcceptImage opt) _ _ hend, not_or]
  refine and_congr_right fun _ => not_congr ?_
  constructor
  · rintro ⟨hspec, p, -, hcheck, hno⟩
    obtain ⟨hflags, hlen⟩ := (not_accept_iff opt p.2 hcheck).mp hno
    exact ⟨hflags, hlen, hspec⟩
  · rintro ⟨hflags, hlen, hspec⟩
    obtain ⟨p, hp, hcheck⟩ := hend.checked (fun _ => rfl) hspec
    exact ⟨hspec, p, hp, hcheck, (not_accept_iff opt p.2 hcheck).mpr ⟨hflags, hlen⟩⟩

/-! ## Clear -/

theorem clear_sync_sound_iff (initialized : Bool) (slot_id : Int) (timeout delay_msec : BitVec 32)
    (t : List SyncApi.Event) (ret : Int) (out : Option FpgaMgmtImageInfo)
    (h : (fpga_mgmt_clear_local_image_sync initialized slot_id timeout delay_msec).Runs t
      (ret, out)) :
    SyncSound (fun r => ⟨.clear slot_id, r⟩) slot_id FPGA_STATUS_CLEARED (fun _ => True) t ret ↔
      ¬ ErrorPollZero FPGA_STATUS_CLEARED t := by
  have hend : SyncEnd (fun r => ⟨.clear slot_id, r⟩) slot_id FPGA_STATUS_CLEARED (fun _ => 0) t
      ret := by
    unfold fpga_mgmt_clear_local_image_sync at h
    split at h
    · obtain ⟨rfl, rfl⟩ := runs_return h
      exact .stopped rfl (by decide) (not_endsWithSpec _ (by simp))
    refine image_sync_spec _ (fun _ => rfl) (fun _ _ _ heq => by cases heq) _ ?_ _ _ (by decide) _
      _ _ _ _ _ h
    rintro t r ⟨r', t', rfl, rfl, rfl⟩
    rfl
  rw [syncEnd_sound_iff _ (fun _ => rfl) _ _ (by decide) _ (fun _ => True) _ _ hend]
  simp

/-! ## Both functions -/

/-- On the library itself: the calls of a load are carried out by the functions below it, and
the result says what their answers say. -/
theorem load_sync_on_library (opt : LoadLocalImageOptions) (timeout delay_msec : BitVec 32)
    (s s' : FpgaMgmtState) (t : List HalApi.Event) (ret : Int) (out : Option FpgaMgmtImageInfo)
    (h : Exec ((fpga_mgmt_load_local_image_sync_with_options s.initialized opt timeout
      delay_msec).handle syncImpl) s t (ret, out) s') :
    ∃ ts, Prog.Implements syncImpl ts s t s' ∧
      (SyncSound (fun r => ⟨.load opt, r⟩) opt.slot_id FPGA_STATUS_LOADED (AcceptImage opt) ts ret ↔
        ¬ ErrorPollZero FPGA_STATUS_LOADED ts ∧ ¬ OverlongId opt ts) := by
  obtain ⟨ts, hrun, himpl⟩ := (Prog.exec_handle (I := SyncApi) syncImpl _ s s' t (ret, out)).mp h
  exact ⟨ts, himpl, load_sync_sound_iff _ _ _ _ _ _ _ hrun⟩

theorem clear_sync_on_library (slot_id : Int) (timeout delay_msec : BitVec 32)
    (s s' : FpgaMgmtState) (t : List HalApi.Event) (ret : Int) (out : Option FpgaMgmtImageInfo)
    (h : Exec ((fpga_mgmt_clear_local_image_sync s.initialized slot_id timeout delay_msec).handle
      syncImpl) s t (ret, out) s') :
    ∃ ts, Prog.Implements syncImpl ts s t s' ∧
      (SyncSound (fun r => ⟨.clear slot_id, r⟩) slot_id FPGA_STATUS_CLEARED (fun _ => True) ts ret ↔
        ¬ ErrorPollZero FPGA_STATUS_CLEARED ts) := by
  obtain ⟨ts, hrun, himpl⟩ := (Prog.exec_handle (I := SyncApi) syncImpl _ s s' t (ret, out)).mp h
  exact ⟨ts, himpl, clear_sync_sound_iff _ _ _ _ _ _ _ hrun⟩

/-- A result of 0 is right exactly when the call did not end on an error poll whose qualifier is
0, and, for a load, when no overlong id was asked for. -/
theorem image_sync_sound_iff (initialized : Bool) (timeout delay_msec : BitVec 32)
    (t : List SyncApi.Event) (ret : Int) (out : Option FpgaMgmtImageInfo) :
    (∀ opt, (fpga_mgmt_load_local_image_sync_with_options initialized opt timeout delay_msec).Runs t
        (ret, out) →
      (SyncSound (fun r => ⟨.load opt, r⟩) opt.slot_id FPGA_STATUS_LOADED (AcceptImage opt) t ret ↔
        ¬ ErrorPollZero FPGA_STATUS_LOADED t ∧ ¬ OverlongId opt t)) ∧
    (∀ slot_id, (fpga_mgmt_clear_local_image_sync initialized slot_id timeout delay_msec).Runs t
        (ret, out) →
      (SyncSound (fun r => ⟨.clear slot_id, r⟩) slot_id FPGA_STATUS_CLEARED (fun _ => True) t ret ↔
        ¬ ErrorPollZero FPGA_STATUS_CLEARED t)) :=
  ⟨fun opt => load_sync_sound_iff initialized opt timeout delay_msec t ret out,
    fun slot_id => clear_sync_sound_iff initialized slot_id timeout delay_msec t ret out⟩

/-! ## A describe that fails -/

/-- A slot whose describes give these answers, then time out. -/
def slotWith : Prog.Handler SyncApi (List (Int × FpgaMgmtImageInfo)) := fun o answers =>
  match o, answers with
  | .describe _ info _, [] => ((-ETIMEDOUT, info), [])
  | .describe .., p :: answers => (p, answers)
  | .get_sh_version _, answers => ((0, 0), answers)
  | .get_resource_map .., answers => ((0, ⟨0, 0, 0, 0⟩), answers)
  | .load _, answers => ((0 : Int), answers)
  | .clear _, answers => ((0 : Int), answers)
  | .rescan_slot_app_pfs _, answers => ((0 : Int), answers)
  | .get_slot_spec _, answers => ((0, ⟨⟨0, 0, 0, 0⟩, ⟨0, 0, 0, 0⟩⟩), answers)
  | .msleep _, answers => ((), answers)

/-- A request to load the image "a" into slot 0. -/
def loadA : LoadLocalImageOptions :=
  { slot_id := 0, afi_id := ⟨[0x61], by decide⟩, flags := 0, clock_mains := fun _ => 0 }

def loadRun : Prog.Outcome SyncApi (List (Int × FpgaMgmtImageInfo))
    (Int × Option FpgaMgmtImageInfo) :=
  (fpga_mgmt_load_local_image_sync_with_options true loadA 0 0).exec slotWith []

def clearRun : Prog.Outcome SyncApi (List (Int × FpgaMgmtImageInfo))
    (Int × Option FpgaMgmtImageInfo) :=
  (fpga_mgmt_clear_local_image_sync true 0 0 0).exec slotWith []

theorem load_clear_sound_iff :
    (SyncSound (fun r => ⟨.load loadA, r⟩) 0 FPGA_STATUS_LOADED (AcceptImage loadA) loadRun.trace
      loadRun.result.1 ↔
        ¬ ErrorPollZero FPGA_STATUS_LOADED loadRun.trace ∧ ¬ OverlongId loadA loadRun.trace) ∧
    (SyncSound (fun r => ⟨.clear 0, r⟩) 0 FPGA_STATUS_CLEARED (fun _ => True) clearRun.trace
      clearRun.result.1 ↔ ¬ ErrorPollZero FPGA_STATUS_CLEARED clearRun.trace) :=
  ⟨(image_sync_sound_iff true 0 0 _ _ _).1 loadA (Prog.exec_runs slotWith _ []),
    (image_sync_sound_iff true 0 0 _ _ _).2 0 (Prog.exec_runs slotWith _ [])⟩

/-- The first describe times out, and the load is reported as done. -/
theorem load_run_unsound :
    ¬ ((∀ initialized opt timeout delay_msec t ret out,
      (fpga_mgmt_load_local_image_sync_with_options initialized opt timeout delay_msec).Runs t
        (ret, out) →
      SyncSound (fun r => ⟨.load opt, r⟩) opt.slot_id FPGA_STATUS_LOADED (AcceptImage opt) t ret) ∧
    (∀ initialized slot_id timeout delay_msec t ret out,
      (fpga_mgmt_clear_local_image_sync initialized slot_id timeout delay_msec).Runs t (ret, out) →
      SyncSound (fun r => ⟨.clear slot_id, r⟩) slot_id FPGA_STATUS_CLEARED (fun _ => True) t
        ret)) := by
  rintro ⟨hload, -⟩
  have sound := hload true loadA 0 0 _ _ _ (Prog.exec_runs slotWith _ [])
  obtain ⟨t₁, t₂, ht, info, info', hmem, -⟩ := sound rfl
  have hpoll : ((0 : Int), info') ∈ polls loadRun.trace := by
    rw [mem_polls_iff]
    exact ⟨0, info, 0, ht ▸ List.mem_append_right _ (List.mem_cons_of_mem _ hmem)⟩
  have hpolls : polls loadRun.trace = [(-ETIMEDOUT, .zero)] := rfl
  rw [hpolls, List.mem_singleton] at hpoll
  exact absurd (Prod.mk.inj hpoll).1 (by decide)

end AwsFpga.Mgmt
