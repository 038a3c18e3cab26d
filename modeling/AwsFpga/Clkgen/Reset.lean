import AwsFpga.Clkgen.Layout
import AwsFpga.Clkgen.Utils

/-!
# Resets off means locked, or the wait gave up

`aws_clkgen_reset` returns what its last register access answered, and giving up on the
lock is not one.
-/

open Lib AwsFpga.Pci

namespace AwsFpga.Clkgen

open ClkgenGroup

/-- A read of LOCK that succeeded, and did not show all bits of the mask. -/
def IsUnlocked (handle : Int) (lock_mask : BitVec 32) : PciApi.Event → Bool
  | ⟨.peek h offset, (rc, value)⟩ =>
    h = handle ∧ offset = AWS_CLKGEN_LOCK_REG ∧ rc = 0 ∧ value &&& lock_mask ≠ lock_mask
  | _ => false

/-- The lock was not seen in as many reads as the loop makes. -/
def LockTimedOut (handle : Int) (lock_mask : BitVec 32) (t : List PciApi.Event) : Prop :=
  MAX_CLKGEN_LOOP_RETRIES ≤ t.countP (IsUnlocked handle lock_mask)

instance (handle : Int) (lock_mask : BitVec 32) (t : List PciApi.Event) :
    Decidable (LockTimedOut handle lock_mask t) :=
  inferInstanceAs (Decidable (_ ≤ _))

/-- LOCK was read with all bits of the mask, and SYSRST was written with 0 later. -/
def Released (handle : Int) (lock_mask : BitVec 32) (t : List PciApi.Event) : Prop :=
  ∃ t₁ value t₂ t₃, value &&& lock_mask = lock_mask ∧
    t = t₁ ++ ⟨.peek handle AWS_CLKGEN_LOCK_REG, (0, value)⟩ ::
      (t₂ ++ ⟨.poke handle AWS_CLKGEN_SYSRST_REG 0, (0 : Int)⟩ :: t₃)

/-- A return of 0 means released, and a wait that gave up is an error. -/
def ResetSound (handle : Int) (lock_mask : BitVec 32) (t : List PciApi.Event) (ret : Int) : Prop :=
  (ret = 0 → Released handle lock_mask t) ∧ (LockTimedOut handle lock_mask t → ret ≠ 0)

/-! ## The wait -/

/-- What the wait leaves, with `retries` rounds to go. -/
structure Waited (handle : Int) (lock_mask : BitVec 32) (retries : Nat) (t : List PciApi.Event)
    (rc : Int) (locked : Bool) : Prop where
  seen : locked → ∃ t₁ value, t = t₁ ++ [⟨.peek handle AWS_CLKGEN_LOCK_REG, (0, value)⟩] ∧
    value &&& lock_mask = lock_mask
  in_time : locked → t.countP (IsUnlocked handle lock_mask) < retries
  gave_up : locked = false → (rc = 0 ↔ retries ≤ t.countP (IsUnlocked handle lock_mask))

theorem wait_lock_runs {handle : Int} {lock_mask : BitVec 32} {retries : Nat} {t : List PciApi.Event}
    {rc : Int} {locked : Bool}
    (h : (aws_clkgen_wait_lock handle lock_mask retries 0).Runs t (rc, locked)) :
    Waited handle lock_mask retries t rc locked := by
  induction retries generalizing t with
  | zero =>
    obtain ⟨rfl, h⟩ := h
    obtain ⟨rfl, rfl⟩ := Prod.mk.inj h
    exact ⟨by simp, by simp, by simp⟩
  | succ retries ih =>
    unfold aws_clkgen_wait_lock at h
    rw [runs_peek] at h
    obtain ⟨rc₁, value, t₁, rfl, h⟩ := h
    dsimp only at h
    split at h
    case isTrue hrc =>
      obtain ⟨rfl, h⟩ := h
      obtain ⟨rfl, rfl⟩ := Prod.mk.inj h
      refine ⟨by simp, by simp, fun _ => ?_⟩
      simp [IsUnlocked, hrc]
    case isFalse hrc =>
    obtain rfl : rc₁ = 0 := not_not.mp hrc
    split at h
    case isTrue hlock =>
      obtain ⟨rfl, h⟩ := h
      obtain ⟨rfl, rfl⟩ := Prod.mk.inj h
      exact ⟨fun _ => ⟨[], value, rfl, hlock⟩, by simp [IsUnlocked, hlock], by simp⟩
    case isFalse hlock =>
      rw [runs_msleep] at h
      obtain ⟨t₂, rfl, h⟩ := h
      have hrest := ih h
      have hcount : List.countP (IsUnlocked handle lock_mask)
          (⟨.peek handle AWS_CLKGEN_LOCK_REG, (0, value)⟩ ::
            ⟨.msleep AWS_CLKGEN_LOOP_DELAY_MS, ()⟩ :: t₂) =
          t₂.countP (IsUnlocked handle lock_mask) + 1 := by
        simp [IsUnlocked, hlock]
      refine ⟨fun hl => ?_, fun hl => ?_, fun hl => ?_⟩
      · obtain ⟨t₃, value', rfl, hmask⟩ := hrest.seen hl
        exact ⟨_ :: _ :: t₃, value', rfl, hmask⟩
      · have := hrest.in_time hl
        omega
      · rw [hcount, hrest.gave_up hl]
        omega

/-! ## The release -/

/-- What `aws_clkgen_reset(handle, 0)` comes to. -/
structure ResetOutcome (handle : Int) (lock_mask : BitVec 32) (t : List PciApi.Event) (ret : Int) :
    Prop where
  gave_up : LockTimedOut handle lock_mask t → ret = 0
  released : ¬LockTimedOut handle lock_mask t → ret = 0 → Released handle lock_mask t

/-- Giving up is what makes the return code unsound, and nothing else does. -/
theorem ResetOutcome.sound_iff {handle : Int} {lock_mask : BitVec 32} {t : List PciApi.Event} {ret : Int}
    (h : ResetOutcome handle lock_mask t ret) :
    ResetSound handle lock_mask t ret ↔ ¬LockTimedOut handle lock_mask t := by
  constructor
  · rintro ⟨-, herr⟩ hlate
    exact herr hlate (h.gave_up hlate)
  · intro hin
    exact ⟨h.released hin, fun hlate => absurd hlate hin⟩

theorem outcome_of_stop {handle : Int} {lock_mask : BitVec 32} {t : List PciApi.Event} {ret : Int}
    (hret : ret ≠ 0) (hcount : t.countP (IsUnlocked handle lock_mask) = 0) :
    ResetOutcome handle lock_mask t ret where
  gave_up hlate := by
    unfold LockTimedOut MAX_CLKGEN_LOOP_RETRIES at hlate
    omega
  released _ h0 := absurd h0 hret

theorem ResetOutcome.extend {handle : Int} {lock_mask : BitVec 32} {pre t post : List PciApi.Event}
    {ret : Int} (h : ResetOutcome handle lock_mask t ret)
    (hpre : pre.countP (IsUnlocked handle lock_mask) = 0)
    (hpost : post.countP (IsUnlocked handle lock_mask) = 0) :
    ResetOutcome handle lock_mask (pre ++ t ++ post) ret := by
  have hiff : LockTimedOut handle lock_mask (pre ++ t ++ post) ↔ LockTimedOut handle lock_mask t := by
    unfold LockTimedOut
    rw [List.countP_append, List.countP_append, hpre, hpost, Nat.zero_add, Nat.add_zero]
  refine ⟨fun hlate => h.gave_up (hiff.mp hlate), fun hin h0 => ?_⟩
  obtain ⟨t₁, value, t₂, t₃, hmask, rfl⟩ := h.released (mt hiff.mpr hin) h0
  exact ⟨pre ++ t₁, value, t₂, t₃ ++ post, hmask, by simp⟩

theorem Waited.outcome {handle : Int} {lock_mask : BitVec 32} {t : List PciApi.Event} {rc : Int}
    (h : Waited handle lock_mask MAX_CLKGEN_LOOP_RETRIES t rc true) (ret : Int) :
    ResetOutcome handle lock_mask (t ++ [⟨.poke handle AWS_CLKGEN_SYSRST_REG 0, ret⟩]) ret := by
  have hcount : List.countP (IsUnlocked handle lock_mask)
      (t ++ [⟨.poke handle AWS_CLKGEN_SYSRST_REG 0, ret⟩]) =
        t.countP (IsUnlocked handle lock_mask) := by
    rw [List.countP_append]
    simp [IsUnlocked]
  have hin := h.in_time rfl
  refine ⟨fun hlate => ?_, fun _ h0 => ?_⟩
  · unfold LockTimedOut at hlate
    omega
  · obtain ⟨t₁, value, rfl, hmask⟩ := h.seen rfl
    exact ⟨t₁, value, [], [], hmask, by simp [h0]⟩

theorem reset_outcome {handle : Int} {priv : Private} {t : List PciApi.Event} {ret : Int}
    (h : (aws_clkgen_reset handle 0 priv).Runs t ret) :
    ResetOutcome handle (mmcm_get_expected_lock_mask priv).2 t ret := by
  unfold aws_clkgen_reset at h
  rw [runs_poke] at h
  obtain ⟨rc, t₁, rfl, h⟩ := h
  split at h
  case isTrue hrc =>
    obtain ⟨rfl, rfl⟩ := h
    exact outcome_of_stop hrc (by simp [IsUnlocked])
  case isFalse =>
  rw [if_pos rfl] at h
  dsimp only at h
  obtain ⟨t₂, ⟨rc₂, locked⟩, t₃, rfl, hwait, h⟩ := (Prog.runs_bind _ _ _ _).mp h
  have hwaited := wait_lock_runs hwait
  rw [← List.singleton_append]
  cases locked with
  | false =>
    obtain ⟨rfl, rfl⟩ := h
    rw [List.append_nil, ← List.append_nil ([_] ++ t₂)]
    refine ResetOutcome.extend ⟨fun hlate => ?_, fun hin h0 => ?_⟩ (by simp [IsUnlocked]) rfl
    · exact (hwaited.gave_up rfl).mpr hlate
    · exact absurd ((hwaited.gave_up rfl).mp h0) hin
  | true =>
    obtain ⟨ret', t₄, rfl, rfl, rfl⟩ := h
    rw [← List.append_nil ([_] ++ _)]
    exact (hwaited.outcome _).extend (by simp [IsUnlocked]) rfl

/-! ## The operations -/

/-- Every call but a read of LOCK. -/
def NoLock (o : PciOp) : Prop := ∀ handle, o ≠ .peek handle AWS_CLKGEN_LOCK_REG

theorem count_of_noLock {t : List PciApi.Event} (hno : ∀ e ∈ t, NoLock e.1) (handle : Int)
    (lock_mask : BitVec 32) : t.countP (IsUnlocked handle lock_mask) = 0 := by
  refine List.countP_eq_zero.mpr fun e he hunlocked => ?_
  obtain ⟨o, ans⟩ := e
  cases o with
  | peek h offset =>
    obtain ⟨rc, value⟩ := ans
    simp only [IsUnlocked, decide_eq_true_eq] at hunlocked
    obtain ⟨-, rfl, -⟩ := hunlocked
    exact hno _ he _ rfl
  | _ => simp [IsUnlocked] at hunlocked

theorem peek_noLock (handle : Int) {offset : BitVec 64} (h : offset ≠ AWS_CLKGEN_LOCK_REG) :
    NoLock (.peek handle offset) := by
  intro handle' heq
  cases heq
  exact h rfl

theorem poke_noLock (handle : Int) (offset : BitVec 64) (value : BitVec 32) :
    NoLock (.poke handle offset value) :=
  fun _ heq => PciOp.noConfusion heq

theorem msleep_noLock (ms : BitVec 32) : NoLock (.msleep ms) := fun _ heq => PciOp.noConfusion heq

theorem Layout.status_ne {handle : Int} {group : ClkgenGroup} {mmcm : FpgaClkgenMmcm}
    (h : Layout handle group mmcm) : mmcm.mmcm_base_offset + MMCM_STATUS_REG ≠ AWS_CLKGEN_LOCK_REG := by
  rw [h.base]
  cases group <;> decide

theorem wait_for_locked_noLock {mmcm : FpgaClkgenMmcm}
    (h : mmcm.mmcm_base_offset + MMCM_STATUS_REG ≠ AWS_CLKGEN_LOCK_REG) (retries : Nat) :
    (mmcm_wait_for_locked_loop mmcm retries).AllCalls NoLock := by
  induction retries with
  | zero => trivial
  | succ retries ih =>
    refine ⟨peek_noLock _ h, fun r => ?_⟩
    refine Prog.allCalls_ite trivial (Prog.allCalls_ite trivial ?_)
    exact ⟨msleep_noLock _, fun _ => ih⟩

theorem set_clk_divs_noLock (group : ClkgenGroup) (priv : Private) (i : Nat)
    (divs : List (BitVec 32 × BitVec 32)) :
    (aws_clkgen_set_clk_divs group priv i divs).AllCalls NoLock := by
  induction divs generalizing i with
  | nil => trivial
  | cons div rest ih =>
    obtain ⟨div, div_frac⟩ := div
    unfold aws_clkgen_set_clk_divs
    refine Prog.allCalls_ite trivial (Prog.allCalls_ite ?_ (ih (i + 1)))
    refine Prog.allCalls_andThen ?_ (ih (i + 1))
    exact Prog.allCalls_ite trivial ⟨poke_noLock _ _ _, fun _ => trivial⟩

theorem set_mmcm_noLock {handle : Int} {group : ClkgenGroup} {priv : Private}
    (h : Layout handle group (priv group)) (recipe : ClkgenRecipe) (reset : BitVec 32) :
    (aws_clkgen_set_mmcm group recipe reset priv).AllCalls NoLock := by
  have hwait := wait_for_locked_noLock h.status_ne MAX_CLKGEN_LOOP_RETRIES
  unfold aws_clkgen_set_mmcm
  refine Prog.allCalls_ite trivial (Prog.allCalls_ite trivial ?_)
  refine Prog.allCalls_andThen (Prog.allCalls_ite ?_ trivial) ?_
  · exact Prog.allCalls_andThen ⟨poke_noLock _ _ _, fun _ => trivial⟩ (set_clk_divs_noLock _ _ _ _)
  · exact Prog.allCalls_andThen hwait
      (Prog.allCalls_andThen ⟨poke_noLock _ _ _, fun _ => trivial⟩ hwait)

theorem set_freq_noLock {handle : Int} {group : ClkgenGroup} {priv : Private}
    (h : Layout handle group (priv group)) (req_freq reset : BitVec 32) :
    (aws_clkgen_set_freq group req_freq reset priv).AllCalls NoLock :=
  Prog.allCalls_ite trivial (set_mmcm_noLock h _ _)

theorem reset_on_noLock (handle : Int) (priv : Private) :
    (aws_clkgen_reset handle 1 priv).AllCalls NoLock := by
  refine ⟨poke_noLock _ _ _, fun (rc : Int) => ?_⟩
  refine Prog.allCalls_ite trivial ?_
  rw [if_neg (by decide)]
  exact ⟨poke_noLock _ _ _, fun _ => trivial⟩

/-- In every run of `p`, giving up is what makes the return code unsound. -/
def Releases (handle : Int) (lock_mask : BitVec 32) (p : Prog PciApi Int) : Prop :=
  ∀ t ret, p.Runs t ret → ResetOutcome handle lock_mask t ret

theorem releases_andThen {handle : Int} {lock_mask : BitVec 32} {p k : Prog PciApi Int}
    (hp : p.AllCalls NoLock) (hk : Releases handle lock_mask k) :
    Releases handle lock_mask (.andThen p k) := by
  intro t ret h
  obtain ⟨hret, hrun⟩ | ⟨t₁, t₂, rfl, hrun, hrest⟩ := (Prog.runs_andThen _ _ _ _).mp h
  · exact outcome_of_stop hret (count_of_noLock (Prog.runs_allCalls hp hrun) _ _)
  · have hpre := count_of_noLock (Prog.runs_allCalls hp hrun) handle lock_mask
    have hwhole := (hk t₂ ret hrest).extend hpre List.countP_nil
    rwa [List.append_nil] at hwhole

theorem set_groups_releases {set : ClkgenGroup → Private → Prog PciApi Int} {handle : Int}
    {priv : Private} (hset : ∀ group, (set group priv).AllCalls NoLock) :
    Releases handle (mmcm_get_expected_lock_mask priv).2 (aws_clkgen_set_groups set handle priv) := by
  refine releases_andThen (reset_on_noLock handle priv) ?_
  refine releases_andThen (hset clkgen_group_a) ?_
  refine releases_andThen (hset clkgen_group_b) ?_
  refine releases_andThen (hset clkgen_group_c) ?_
  refine releases_andThen (hset clkgen_group_hbm) ?_
  exact fun _ _ => reset_outcome

/-! ## Attach, body, detach -/

/-- The handle the first call answered. -/
def handleOf : List PciApi.Event → Int
  | ⟨.attach .., (_, handle)⟩ :: _ => handle
  | _ => PCI_BAR_HANDLE_INIT

/-- The calls around a body: the attach, the reads that look for the IP, and the detach. -/
def IsSetup : PciOp → Prop
  | .attach .. | .detach _ => True
  | .peek _ offset =>
    offset ∈ [AWS_CLKGEN_CLKS_AVAIL, AWS_CLKGEN_ID_REG, AWS_CLKGEN_VER_REG, AWS_CLKGEN_BLD_REG]
  | _ => False

theorem IsSetup.noLock {o : PciOp} (h : IsSetup o) : NoLock o := by
  rintro handle rfl
  revert h
  simp only [IsSetup]
  decide

theorem init_setup (group : ClkgenGroup) (handle : Int) (priv : Private) :
    (mmcm_init group handle priv).AllCalls IsSetup :=
  ⟨List.mem_cons_self, fun (_, _) => Prog.allCalls_ite trivial trivial⟩

theorem failOn_setup {σ : Type} {p : Prog PciApi (Int × σ)} {k : σ → Prog PciApi (Int × σ)}
    (hp : p.AllCalls IsSetup) (hk : ∀ s, (k s).AllCalls IsSetup) : (p.failOn k).AllCalls IsSetup :=
  Prog.allCalls_bind hp fun r => Prog.allCalls_ite trivial (hk r.2)

theorem mmcm_init_setup (handle : Int) (priv : Private) :
    (aws_clkgen_mmcm_init handle priv).AllCalls IsSetup := by
  refine failOn_setup (init_setup _ _ _) fun priv => ?_
  refine failOn_setup (init_setup _ _ _) fun priv => ?_
  exact failOn_setup (init_setup _ _ _) fun priv => init_setup _ _ _

theorem check_id_setup (handle : Int) : (aws_clkgen_check_id handle).AllCalls IsSetup := by
  have hreg : ∀ reg_offset expected, IsSetup (.peek handle reg_offset) →
      (aws_clkgen_check_reg handle reg_offset expected).AllCalls IsSetup := by
    intro reg_offset expected h
    exact ⟨h, fun (_, _) => Prog.allCalls_ite trivial trivial⟩
  refine Prog.allCalls_andThen (hreg _ _ (by simp [IsSetup])) ?_
  exact Prog.allCalls_andThen (hreg _ _ (by simp [IsSetup])) (hreg _ _ (by simp [IsSetup]))

theorem out_runs {handle rc ret : Int} {priv priv' : Private} {t : List PciApi.Event}
    (h : (aws_clkgen_out handle rc priv).Runs t (ret, priv')) :
    ret = rc ∧ priv' = priv ∧ ∀ e ∈ t, IsSetup e.1 := by
  unfold aws_clkgen_out at h
  split at h
  case isTrue =>
    rw [runs_detach] at h
    obtain ⟨ret', t', rfl, rfl, h⟩ := h
    obtain ⟨rfl, rfl⟩ := Prod.mk.inj h
    exact ⟨rfl, rfl, by simp [IsSetup]⟩
  case isFalse =>
    obtain ⟨rfl, h⟩ := h
    obtain ⟨rfl, rfl⟩ := Prod.mk.inj h
    exact ⟨rfl, rfl, by simp⟩

/-- An operation stopped with its setup, or its body ran on a device it had initialised. -/
theorem attached_runs {slot_id : Int} {body : Int → Private → Prog PciApi Int}
    {priv priv' : Private} {t : List PciApi.Event} {ret : Int}
    (h : (aws_clkgen_attached slot_id body priv).Runs t (ret, priv')) :
    (ret ≠ 0 ∧ ∀ e ∈ t, IsSetup e.1) ∨
      ∃ pre t' post, t = pre ++ t' ++ post ∧ (∀ e ∈ pre ++ post, IsSetup e.1) ∧
        (∀ group, Layout (handleOf t) group (priv' group)) ∧
        (body (handleOf t) priv').Runs t' ret := by
  unfold aws_clkgen_attached at h
  rw [runs_attach] at h
  obtain ⟨rc, handle, t₁, rfl, h⟩ := h
  have hattach : IsSetup (.attach slot_id AWS_CLKGEN_PF AWS_CLKGEN_BAR 0) := trivial
  dsimp only at h
  split at h
  case isTrue hrc =>
    obtain ⟨rfl, -, hout⟩ := out_runs h
    exact .inl ⟨hrc, List.forall_mem_cons.mpr ⟨hattach, hout⟩⟩
  case isFalse =>
  obtain ⟨t₂, ⟨rc₂, priv₂⟩, t₃, rfl, hinit, h⟩ := (Prog.runs_bind _ _ _ _).mp h
  have hinit_setup := Prog.runs_allCalls (mmcm_init_setup handle priv) hinit
  dsimp only at h
  split at h
  case isTrue hrc =>
    obtain ⟨rfl, -, hout⟩ := out_runs h
    refine .inl ⟨hrc, List.forall_mem_cons.mpr ⟨hattach, ?_⟩⟩
    exact List.forall_mem_append.mpr ⟨hinit_setup, hout⟩
  case isFalse hrc₂ =>
  obtain rfl : rc₂ = 0 := not_not.mp hrc₂
  obtain ⟨t₄, rc₃, t₅, rfl, hcheck, h⟩ := (Prog.runs_bind _ _ _ _).mp h
  have hcheck_setup := Prog.runs_allCalls (check_id_setup handle) hcheck
  split at h
  case isTrue =>
    obtain ⟨rfl, -, hout⟩ := out_runs h
    refine .inl ⟨by decide, List.forall_mem_cons.mpr ⟨hattach, ?_⟩⟩
    exact List.forall_mem_append.mpr ⟨hinit_setup, List.forall_mem_append.mpr ⟨hcheck_setup, hout⟩⟩
  case isFalse =>
    obtain ⟨t₆, rc₄, t₇, rfl, hbody, h⟩ := (Prog.runs_bind _ _ _ _).mp h
    obtain ⟨rfl, rfl, hout⟩ := out_runs h
    refine .inr ⟨⟨.attach slot_id AWS_CLKGEN_PF AWS_CLKGEN_BAR 0, (rc, handle)⟩ :: (t₂ ++ t₄), t₆, t₇,
      by simp, ?_, init_layout hinit, hbody⟩
    simp only [List.cons_append, List.forall_mem_cons, List.forall_mem_append]
    exact ⟨hattach, ⟨hinit_setup, hcheck_setup⟩, hout⟩

theorem attached_outcome {slot_id : Int} {body : Int → Private → Prog PciApi Int}
    {priv priv' : Private} {t : List PciApi.Event} {ret : Int}
    (hbody : ∀ handle priv, (∀ group, Layout handle group (priv group)) →
      Releases handle (mmcm_get_expected_lock_mask priv).2 (body handle priv))
    (h : (aws_clkgen_attached slot_id body priv).Runs t (ret, priv')) :
    ResetOutcome (handleOf t) (mmcm_get_expected_lock_mask priv').2 t ret := by
  obtain ⟨hret, hsetup⟩ | ⟨pre, t', post, ht, hsetup, hlayout, hrun⟩ := attached_runs h
  · exact outcome_of_stop hret (count_of_noLock (fun e he => (hsetup e he).noLock) _ _)
  · have hpre := count_of_noLock
      (fun e he => (hsetup e (List.mem_append_left post he)).noLock) (handleOf t)
      (mmcm_get_expected_lock_mask priv').2
    have hpost := count_of_noLock
      (fun e he => (hsetup e (List.mem_append_right pre he)).noLock) (handleOf t)
      (mmcm_get_expected_lock_mask priv').2
    have houtcome := (hbody _ _ hlayout t' ret hrun).extend hpre hpost
    rwa [← ht] at houtcome

theorem set_recipe_outcome {slot_id : Int} {recipe_a recipe_b recipe_c recipe_hbm reset : BitVec 32}
    {priv priv' : Private} {t : List PciApi.Event} {ret : Int}
    (h : (aws_clkgen_set_recipe slot_id recipe_a recipe_b recipe_c recipe_hbm reset priv).Runs t
      (ret, priv')) :
    ResetOutcome (handleOf t) (mmcm_get_expected_lock_mask priv').2 t ret := by
  unfold aws_clkgen_set_recipe at h
  dsimp only at h
  split at h
  case h_1 =>
    obtain ⟨rfl, h⟩ := h
    obtain ⟨rfl, -⟩ := Prod.mk.inj h
    exact outcome_of_stop (by decide) rfl
  case h_2 recipe _ =>
    refine attached_outcome (fun handle priv hlayout => ?_) h
    exact set_groups_releases fun group => set_mmcm_noLock (hlayout group) _ _

theorem set_dynamic_outcome {slot_id : Int}
    {clk_a_freq clk_b_freq clk_c_freq clk_hbm_freq reset : BitVec 32}
    {priv priv' : Private} {t : List PciApi.Event} {ret : Int}
    (h : (aws_clkgen_set_dynamic slot_id clk_a_freq clk_b_freq clk_c_freq clk_hbm_freq reset priv).Runs
      t (ret, priv')) :
    ResetOutcome (handleOf t) (mmcm_get_expected_lock_mask priv').2 t ret := by
  unfold aws_clkgen_set_dynamic at h
  dsimp only at h
  split at h
  case isTrue =>
    obtain ⟨rfl, h⟩ := h
    obtain ⟨rfl, -⟩ := Prod.mk.inj h
    exact outcome_of_stop (by decide) rfl
  case isFalse =>
    refine attached_outcome (fun handle priv hlayout => ?_) h
    exact set_groups_releases fun group => set_freq_noLock (hlayout group) _ _

theorem deassert_resets_outcome {slot_id : Int} {priv priv' : Private} {t : List PciApi.Event}
    {ret : Int} (h : (aws_clkgen_deassert_resets slot_id priv).Runs t (ret, priv')) :
    ResetOutcome (handleOf t) (mmcm_get_expected_lock_mask priv').2 t ret :=
  attached_outcome (fun _ _ _ _ _ => reset_outcome) h

theorem reset_toggle_outcome {slot_id : Int} {priv priv' : Private} {t : List PciApi.Event}
    {ret : Int} (h : (aws_clkgen_reset_toggle slot_id priv).Runs t (ret, priv')) :
    ResetOutcome (handleOf t) (mmcm_get_expected_lock_mask priv').2 t ret :=
  attached_outcome (fun handle priv _ =>
    releases_andThen (reset_on_noLock handle priv) fun _ _ => reset_outcome) h

/-- The return codes are sound in the runs where the wait for the lock does not give up. -/
theorem reset_sound_iff (priv : Private) (t : List PciApi.Event) (ret : Int) :
    (∀ handle, (aws_clkgen_reset handle 0 priv).Runs t ret →
      (ResetSound handle (mmcm_get_expected_lock_mask priv).2 t ret ↔
        ¬LockTimedOut handle (mmcm_get_expected_lock_mask priv).2 t)) ∧
    (∀ slot_id recipe_a recipe_b recipe_c recipe_hbm reset priv',
      (aws_clkgen_set_recipe slot_id recipe_a recipe_b recipe_c recipe_hbm reset priv).Runs t
        (ret, priv') →
      (ResetSound (handleOf t) (mmcm_get_expected_lock_mask priv').2 t ret ↔
        ¬LockTimedOut (handleOf t) (mmcm_get_expected_lock_mask priv').2 t)) ∧
    (∀ slot_id clk_a_freq clk_b_freq clk_c_freq clk_hbm_freq reset priv',
      (aws_clkgen_set_dynamic slot_id clk_a_freq clk_b_freq clk_c_freq clk_hbm_freq reset priv).Runs t
        (ret, priv') →
      (ResetSound (handleOf t) (mmcm_get_expected_lock_mask priv').2 t ret ↔
        ¬LockTimedOut (handleOf t) (mmcm_get_expected_lock_mask priv').2 t)) := by
  refine ⟨?_, ?_, ?_⟩
  · intro handle h
    exact (reset_outcome h).sound_iff
  · intro slot_id recipe_a recipe_b recipe_c recipe_hbm reset priv' h
    exact (set_recipe_outcome h).sound_iff
  · intro slot_id clk_a_freq clk_b_freq clk_c_freq clk_hbm_freq reset priv' h
    exact (set_dynamic_outcome h).sound_iff

/-- The operations that only switch the resets are sound in the same runs. -/
theorem toggle_sound_iff (slot_id : Int) (priv priv' : Private) (t : List PciApi.Event)
    (ret : Int) (h : (aws_clkgen_deassert_resets slot_id priv).Runs t (ret, priv') ∨
      (aws_clkgen_reset_toggle slot_id priv).Runs t (ret, priv')) :
    ResetSound (handleOf t) (mmcm_get_expected_lock_mask priv').2 t ret ↔
      ¬LockTimedOut (handleOf t) (mmcm_get_expected_lock_mask priv').2 t :=
  (h.elim deassert_resets_outcome reset_toggle_outcome).sound_iff

/-- A device with clock 0 of group A alone, on which LOCK reads `lock`. -/
def clkgenDevice (lock : BitVec 32) : Prog.Handler PciApi Unit
  | .peek _ offset, s =>
    let value :=
      if offset = AWS_CLKGEN_ID_REG then AWS_CLKGEN_ID
      else if offset = AWS_CLKGEN_VER_REG then AWS_CLKGEN_VER
      else if offset = AWS_CLKGEN_BLD_REG then AWS_CLKGEN_BLD
      else if offset = AWS_CLKGEN_CLKS_AVAIL then 2
      else if offset = AWS_CLKGEN_LOCK_REG then lock
      else MMCM_STATUS_LOCKED
    ((0, value), s)
  | o, s => (o.quiet, s)

def recipeRun (lock : BitVec 32) : Prog.Outcome PciApi Unit (Int × Private) :=
  (aws_clkgen_set_recipe 0 0 0 0 0 0 Private.zero).exec (clkgenDevice lock) ()

theorem recipeRun_runs (lock : BitVec 32) :
    (aws_clkgen_set_recipe 0 0 0 0 0 0 Private.zero).Runs (recipeRun lock).trace
      ((recipeRun lock).result.1, (recipeRun lock).result.2) :=
  Prog.exec_runs (clkgenDevice lock) _ ()

theorem reset_sound_of_locked :
    (recipeRun 1).result.1 = 0 ∧
      ResetSound (handleOf (recipeRun 1).trace) (mmcm_get_expected_lock_mask (recipeRun 1).result.2).2
        (recipeRun 1).trace (recipeRun 1).result.1 :=
  ⟨by decide +kernel,
    ((reset_sound_iff Private.zero _ _).2.1 0 0 0 0 0 0 _ (recipeRun_runs 1)).mpr (by decide +kernel)⟩

/-- LOCK stays 0: the recipe is set, SYSRST is not released, and 0 is returned. -/
theorem reset_unsound_of_unlocked :
    ∃ t ret priv', (aws_clkgen_set_recipe 0 0 0 0 0 0 Private.zero).Runs t (ret, priv') ∧
      ¬ResetSound (handleOf t) (mmcm_get_expected_lock_mask priv').2 t ret := by
  refine ⟨_, _, _, recipeRun_runs 0, fun hsound => ?_⟩
  exact hsound.2 (by decide +kernel) (by decide +kernel)

end AwsFpga.Clkgen
