import AwsFpga.Clkgen.Reset

/-!
# What a rejected request has written

The upper bounds are tested before the device is attached, and the lower bound of a group
only when the group is set.
-/

open Lib AwsFpga.Pci

namespace AwsFpga.Clkgen

open ClkgenGroup

/-- The operation itself answers the code: no call had answered it. -/
def Rejects (t : List PciApi.Event) (ret : Int) : Prop :=
  ret = FPGA_ERR_INVALID_CLKGEN_INPUTS ∧ ∀ e ∈ t, pciCode e.1 e.2 ≠ FPGA_ERR_INVALID_CLKGEN_INPUTS

def NoPoke (o : PciOp) : Prop := ∀ handle offset value, o ≠ .poke handle offset value

/-- No register of the clocks or the resets was written. -/
def Untouched (t : List PciApi.Event) : Prop := ∀ e ∈ t, NoPoke e.1

theorem IsSetup.noPoke {o : PciOp} (h : IsSetup o) : NoPoke o := by
  rintro handle offset value rfl
  exact h

/-! ## Codes that are passed on -/

section PassesOn

variable {α β : Type}

/-- `FPGA_ERR_INVALID_CLKGEN_INPUTS` is never the program's own. -/
def PassesOn (code : α → Int) (p : Prog PciApi α) : Prop :=
  ∀ t a, p.Runs t a → code a = FPGA_ERR_INVALID_CLKGEN_INPUTS →
    ∃ e ∈ t, pciCode e.1 e.2 = FPGA_ERR_INVALID_CLKGEN_INPUTS

theorem passesOn_pure {code : α → Int} {a : α} (h : code a ≠ FPGA_ERR_INVALID_CLKGEN_INPUTS) :
    PassesOn code (pure a : Prog PciApi α) := by
  rintro t b ⟨-, rfl⟩ hcode
  exact absurd hcode h

theorem passesOn_bind {code : α → Int} {code' : β → Int} {p : Prog PciApi α} {f : α → Prog PciApi β}
    (hp : PassesOn code p)
    (hf : ∀ a, code a ≠ FPGA_ERR_INVALID_CLKGEN_INPUTS → PassesOn code' (f a)) :
    PassesOn code' (p >>= f) := by
  intro t b h hcode
  obtain ⟨t₁, a, t₂, rfl, hrun, hrest⟩ := (Prog.runs_bind _ _ _ _).mp h
  by_cases ha : code a = FPGA_ERR_INVALID_CLKGEN_INPUTS
  · obtain ⟨e, he, hcode⟩ := hp t₁ a hrun ha
    exact ⟨e, List.mem_append_left _ he, hcode⟩
  · obtain ⟨e, he, hcode⟩ := hf a ha t₂ b hrest hcode
    exact ⟨e, List.mem_append_right _ he, hcode⟩

theorem passesOn_ite {code : α → Int} {c : Prop} [Decidable c] {p q : Prog PciApi α}
    (hp : PassesOn code p) (hq : PassesOn code q) : PassesOn code (if c then p else q) := by
  split
  · exact hp
  · exact hq

theorem passesOn_poke (handle : Int) (offset : BitVec 64) (value : BitVec 32) :
    PassesOn id (fpga_pci_poke handle offset value) := by
  rintro t rc ⟨rc', t', rfl, -, rfl⟩ hcode
  exact ⟨_, List.mem_cons_self, hcode⟩

theorem passesOn_peek (handle : Int) (offset : BitVec 64) :
    PassesOn Prod.fst (fpga_pci_peek handle offset) := by
  rintro t ⟨rc, value⟩ ⟨r, t', rfl, -, rfl⟩ hcode
  exact ⟨_, List.mem_cons_self, hcode⟩

theorem passesOn_msleep (ms : BitVec 32) : PassesOn (fun _ => 0) (msleep ms) :=
  fun _ _ _ hcode => absurd hcode (show (0 : Int) ≠ FPGA_ERR_INVALID_CLKGEN_INPUTS by decide)

theorem passesOn_andThen {p k : Prog PciApi Int} (hp : PassesOn id p) (hk : PassesOn id k) :
    PassesOn id (.andThen p k) :=
  passesOn_bind hp fun _ hrc => passesOn_ite (passesOn_pure hrc) hk

end PassesOn

theorem wait_for_locked_passesOn (mmcm : FpgaClkgenMmcm) (retries : Nat) :
    PassesOn id (mmcm_wait_for_locked_loop mmcm retries) := by
  induction retries with
  | zero => exact passesOn_pure (by decide)
  | succ retries ih =>
    unfold mmcm_wait_for_locked_loop
    refine passesOn_bind (passesOn_peek _ _) fun r hrc => ?_
    refine passesOn_ite (passesOn_pure hrc) (passesOn_ite (passesOn_pure (by decide)) ?_)
    exact passesOn_bind (passesOn_msleep _) fun _ _ => ih

theorem set_clk_divs_passesOn (group : ClkgenGroup) (priv : Private) (i : Nat)
    (divs : List (BitVec 32 × BitVec 32)) :
    PassesOn id (aws_clkgen_set_clk_divs group priv i divs) := by
  induction divs generalizing i with
  | nil => exact passesOn_pure (by decide)
  | cons div rest ih =>
    obtain ⟨div, div_frac⟩ := div
    have hrc : (mmcm_clk_avail group i priv).1 = 0 := by
      unfold mmcm_clk_avail
      split <;> rfl
    unfold aws_clkgen_set_clk_divs
    dsimp only
    rw [hrc]
    refine passesOn_ite (passesOn_pure (by decide)) (passesOn_ite ?_ (ih (i + 1)))
    refine passesOn_andThen ?_ (ih (i + 1))
    exact passesOn_ite (passesOn_pure (by decide)) (passesOn_poke _ _ _)

theorem set_mmcm_passesOn (group : ClkgenGroup) (recipe : ClkgenRecipe) (reset : BitVec 32)
    (priv : Private) : PassesOn id (aws_clkgen_set_mmcm group recipe reset priv) := by
  have hwait := wait_for_locked_passesOn (priv group) MAX_CLKGEN_LOOP_RETRIES
  unfold aws_clkgen_set_mmcm
  refine passesOn_ite (passesOn_pure (by decide)) (passesOn_ite (passesOn_pure (by decide)) ?_)
  refine passesOn_andThen (passesOn_ite ?_ (passesOn_pure (by decide))) ?_
  · exact passesOn_andThen (passesOn_poke _ _ _) (set_clk_divs_passesOn _ _ _ _)
  · exact passesOn_andThen hwait (passesOn_andThen (passesOn_poke _ _ _) hwait)

theorem set_freq_passesOn (group : ClkgenGroup) {req_freq reset : BitVec 32} (priv : Private)
    (h : reset ≠ 0 ∨ FREQ_TABLE[0].freq ≤ req_freq) :
    PassesOn id (aws_clkgen_set_freq group req_freq reset priv) := by
  have haccepted : ¬(reset = 0 ∧ req_freq < FREQ_TABLE[0].freq) := by
    rintro ⟨h0, hlt⟩
    rcases h with hreset | hle
    · exact hreset h0
    · exact absurd hlt (BitVec.not_lt.mpr hle)
  unfold aws_clkgen_set_freq
  rw [if_neg haccepted]
  exact set_mmcm_passesOn _ _ _ _

theorem wait_lock_passesOn (handle : Int) (lock_mask : BitVec 32) (retries : Nat) {rc : Int}
    (h : rc ≠ FPGA_ERR_INVALID_CLKGEN_INPUTS) :
    PassesOn Prod.fst (aws_clkgen_wait_lock handle lock_mask retries rc) := by
  induction retries generalizing rc with
  | zero => exact passesOn_pure h
  | succ retries ih =>
    unfold aws_clkgen_wait_lock
    refine passesOn_bind (passesOn_peek _ _) fun r hrc => ?_
    refine passesOn_ite (passesOn_pure hrc) (passesOn_ite (passesOn_pure hrc) ?_)
    exact passesOn_bind (passesOn_msleep _) fun _ _ => ih hrc

theorem reset_passesOn (handle : Int) (reset : BitVec 32) (priv : Private) :
    PassesOn id (aws_clkgen_reset handle reset priv) := by
  unfold aws_clkgen_reset
  refine passesOn_bind (passesOn_poke _ _ _) fun rc hrc => passesOn_ite (passesOn_pure hrc) ?_
  refine passesOn_ite ?_ (passesOn_poke _ _ _)
  refine passesOn_bind (wait_lock_passesOn _ _ _ (by decide)) fun r hrc => ?_
  exact passesOn_ite (passesOn_poke _ _ _) (passesOn_pure hrc)

theorem set_groups_passesOn {set : ClkgenGroup → Private → Prog PciApi Int} (handle : Int)
    {priv : Private} (hset : ∀ group, PassesOn id (set group priv)) :
    PassesOn id (aws_clkgen_set_groups set handle priv) := by
  refine passesOn_andThen (reset_passesOn _ _ _) ?_
  refine passesOn_andThen (hset _) (passesOn_andThen (hset _) ?_)
  exact passesOn_andThen (hset _) (passesOn_andThen (hset _) (reset_passesOn _ _ _))

/-- An operation whose groups only pass codes on rejects nothing once it has written. -/
theorem attached_untouched {slot_id : Int} {set : ClkgenGroup → Private → Prog PciApi Int}
    {priv priv' : Private} {t : List PciApi.Event} {ret : Int}
    (hset : ∀ priv group, PassesOn id (set group priv))
    (h : (aws_clkgen_attached slot_id (aws_clkgen_set_groups set) priv).Runs t (ret, priv'))
    (hrejects : Rejects t ret) : Untouched t := by
  obtain ⟨-, hsetup⟩ | ⟨pre, t', post, rfl, -, -, hrun⟩ := attached_runs h
  · exact fun e he => (hsetup e he).noPoke
  · obtain ⟨hret, hown⟩ := hrejects
    obtain ⟨e, he, hcode⟩ := set_groups_passesOn _ (hset priv') t' ret hrun hret
    exact absurd hcode (hown e (List.mem_append_left _ (List.mem_append_right _ he)))

/-! ## Where every call succeeds -/

section Can

variable {α β : Type}

/-- The program may return `a` with no call failing. -/
def Can (p : Prog PciApi α) (a : α) : Prop := ∃ t, (∀ e ∈ t, pciCode e.1 e.2 = 0) ∧ p.Runs t a

theorem can_pure (a : α) : Can (pure a : Prog PciApi α) a := ⟨[], by simp, rfl, rfl⟩

theorem can_bind {p : Prog PciApi α} {f : α → Prog PciApi β} {a : α} {b : β} (hp : Can p a)
    (hf : Can (f a) b) : Can (p >>= f) b := by
  obtain ⟨t₁, hok₁, hrun₁⟩ := hp
  obtain ⟨t₂, hok₂, hrun₂⟩ := hf
  exact ⟨t₁ ++ t₂, List.forall_mem_append.mpr ⟨hok₁, hok₂⟩,
    (Prog.runs_bind _ _ _ _).mpr ⟨t₁, a, t₂, rfl, hrun₁, hrun₂⟩⟩

theorem can_ite {c : Prop} [Decidable c] {p q : Prog PciApi α} {a : α} (hp : c → Can p a)
    (hq : ¬c → Can q a) : Can (if c then p else q) a := by
  split
  case isTrue hc => exact hp hc
  case isFalse hc => exact hq hc

theorem can_op (o : PciOp) (r : o.Ans) (h : pciCode o r = 0) :
    Can (Prog.op (I := PciApi) o) r :=
  ⟨[⟨o, r⟩], by simpa using h, (Prog.runs_op _ _ _).mpr rfl⟩

theorem can_poke (handle : Int) (offset : BitVec 64) (value : BitVec 32) :
    Can (fpga_pci_poke handle offset value) 0 :=
  can_op (.poke handle offset value) (0 : Int) rfl

theorem can_peek (handle : Int) (offset : BitVec 64) (value : BitVec 32) :
    Can (fpga_pci_peek handle offset) (0, value) :=
  can_op (.peek handle offset) (0, value) rfl

theorem can_andThen {p k : Prog PciApi Int} {rc : Int} (hp : Can p 0) (hk : Can k rc) :
    Can (.andThen p k) rc :=
  can_bind hp hk

theorem can_stop {p : Prog PciApi Int} (k : Prog PciApi Int) {rc : Int} (hp : Can p rc)
    (hrc : rc ≠ 0) : Can (.andThen p k) rc := by
  refine can_bind hp ?_
  rw [if_pos hrc]
  exact can_pure rc

end Can

theorem wait_for_locked_can (group : ClkgenGroup) (priv : Private) :
    Can (mmcm_wait_for_locked group priv) 0 :=
  can_bind (can_peek _ _ MMCM_STATUS_LOCKED) (can_pure 0)

theorem set_clk_divs_can (group : ClkgenGroup) (priv : Private) (i : Nat)
    (divs : List (BitVec 32 × BitVec 32)) :
    Can (aws_clkgen_set_clk_divs group priv i divs) 0 := by
  induction divs generalizing i with
  | nil => exact can_pure 0
  | cons div rest ih =>
    obtain ⟨div, div_frac⟩ := div
    unfold aws_clkgen_set_clk_divs
    by_cases hi : i ≥ (priv group).num_clocks
    · have hnone : mmcm_clk_avail group i priv = (0, false) := if_pos hi
      rw [hnone]
      exact ih (i + 1)
    · have hclock : mmcm_clk_avail group i priv = (0, decide ((priv group).clk_avails.getD i 0 ≠ 0)) :=
        if_neg hi
      rw [hclock]
      refine can_ite (fun hrc => absurd rfl hrc) fun _ => can_ite (fun _ => ?_) fun _ => ih (i + 1)
      refine can_andThen ?_ (ih (i + 1))
      unfold mmcm_set_clk_div
      exact can_ite (fun hge => absurd hge hi) fun _ => can_poke _ _ _

theorem set_mmcm_can (group : ClkgenGroup) (recipe : ClkgenRecipe) (reset : BitVec 32)
    (priv : Private) : Can (aws_clkgen_set_mmcm group recipe reset priv) 0 := by
  have hwait := wait_for_locked_can group priv
  unfold aws_clkgen_set_mmcm
  refine can_ite (fun hrc => absurd rfl hrc) fun _ => can_ite (fun _ => can_pure 0) fun _ => ?_
  refine can_andThen (can_ite (fun _ => ?_) fun _ => can_pure 0) ?_
  · exact can_andThen (can_poke _ _ _) (set_clk_divs_can _ _ _ _)
  · exact can_andThen hwait (can_andThen (can_poke _ _ _) hwait)

theorem set_freq_can (group : ClkgenGroup) (req_freq : BitVec 32) (priv : Private) :
    Can (aws_clkgen_set_freq group req_freq 0 priv)
      (if req_freq < FREQ_TABLE[0].freq then FPGA_ERR_INVALID_CLKGEN_INPUTS else 0) := by
  unfold aws_clkgen_set_freq
  by_cases hlow : req_freq < FREQ_TABLE[0].freq
  · rw [if_pos ⟨rfl, hlow⟩, if_pos hlow]
    exact can_pure _
  · rw [if_neg fun h => hlow h.2, if_neg hlow]
    exact set_mmcm_can _ _ _ _

theorem set_low_can (freq : ClkgenGroup → BitVec 32) (priv : Private) (last : Prog PciApi Int)
    (group : ClkgenGroup) (hlow : freq group < FREQ_TABLE[0].freq) (order : List ClkgenGroup)
    (hmem : group ∈ order) :
    Can (order.foldr (fun g k => .andThen (aws_clkgen_set_freq g (freq g) 0 priv) k) last)
      FPGA_ERR_INVALID_CLKGEN_INPUTS := by
  induction order with
  | nil => cases hmem
  | cons g rest ih =>
    have hg := set_freq_can g (freq g) priv
    by_cases hlow_g : freq g < FREQ_TABLE[0].freq
    · rw [if_pos hlow_g] at hg
      exact can_stop _ hg (by decide)
    · rw [if_neg hlow_g] at hg
      have hne : group ≠ g := by
        rintro rfl
        exact hlow_g hlow
      exact can_andThen hg (ih ((List.mem_cons.mp hmem).resolve_left hne))

/-! ## A rejection behind the reset -/

theorem init_can (handle : Int) (priv : Private) :
    ∃ priv', Can (aws_clkgen_mmcm_init handle priv) (0, priv') := by
  have hgroup : ∀ group priv, ∃ priv', Can (mmcm_init group handle priv) (0, priv') :=
    fun group priv => ⟨_, can_bind (can_peek _ _ 0) (can_pure _)⟩
  have hnext : ∀ {σ : Type} {p : Prog PciApi (Int × σ)} {k : σ → Prog PciApi (Int × σ)} {s r},
      Can p (0, s) → Can (k s) r → Can (p.failOn k) r := fun hp hk => can_bind hp hk
  obtain ⟨pa, ha⟩ := hgroup clkgen_group_a priv
  obtain ⟨pb, hb⟩ := hgroup clkgen_group_b pa
  obtain ⟨pc, hc⟩ := hgroup clkgen_group_c pb
  obtain ⟨pd, hd⟩ := hgroup clkgen_group_hbm pc
  exact ⟨pd, hnext ha (hnext hb (hnext hc hd))⟩

theorem check_id_can (handle : Int) : Can (aws_clkgen_check_id handle) 0 := by
  have hreg : ∀ reg_offset expected, Can (aws_clkgen_check_reg handle reg_offset expected) 0 := by
    intro reg_offset expected
    refine can_bind (can_peek _ _ expected) ?_
    simpa using can_pure (0 : Int)
  exact can_andThen (hreg _ _) (can_andThen (hreg _ _) (hreg _ _))

theorem out_can (handle rc : Int) (priv : Private) : Can (aws_clkgen_out handle rc priv) (rc, priv) :=
  can_ite (fun _ => can_bind (can_op (.detach handle) (0 : Int) rfl) (can_pure _)) fun _ => can_pure _

theorem attached_can (slot_id : Int) (body : Int → Private → Prog PciApi Int) (priv : Private) :
    ∃ priv', ∀ t' ret, (body 0 priv').Runs t' ret → (∀ e ∈ t', pciCode e.1 e.2 = 0) →
      ∃ t, t' ⊆ t ∧ (∀ e ∈ t, pciCode e.1 e.2 = 0) ∧
        (aws_clkgen_attached slot_id body priv).Runs t (ret, priv') := by
  obtain ⟨priv', t₂, hok₂, hinit⟩ := init_can 0 priv
  obtain ⟨t₃, hok₃, hcheck⟩ := check_id_can 0
  refine ⟨priv', fun t' ret hbody hok' => ?_⟩
  obtain ⟨t₄, hok₄, hout⟩ := out_can 0 ret priv'
  refine ⟨⟨.attach slot_id AWS_CLKGEN_PF AWS_CLKGEN_BAR 0, ((0 : Int), (0 : Int))⟩ ::
    (t₂ ++ (t₃ ++ (t' ++ t₄))), ?_, ?_, ?_⟩
  · intro e he
    simp [he]
  · simp only [List.forall_mem_cons, List.forall_mem_append]
    exact ⟨rfl, hok₂, hok₃, hok', hok₄⟩
  · refine (runs_attach _ _ _ _ _ _ _).mpr ⟨0, 0, _, rfl, ?_⟩
    refine (Prog.runs_bind _ _ _ _).mpr ⟨t₂, (0, priv'), _, rfl, hinit, ?_⟩
    refine (Prog.runs_bind _ _ _ _).mpr ⟨t₃, 0, _, rfl, hcheck, ?_⟩
    exact (Prog.runs_bind _ _ _ _).mpr ⟨t', ret, t₄, rfl, hbody, hout⟩

theorem reset_on_can (handle : Int) (priv : Private) :
    ∃ t, (∀ e ∈ t, pciCode e.1 e.2 = 0) ∧ (aws_clkgen_reset handle 1 priv).Runs t 0 ∧
      ⟨.poke handle AWS_CLKGEN_GRST_REG 0, (0 : Int)⟩ ∈ t := by
  obtain ⟨t, hok, hrun⟩ := can_poke handle AWS_CLKGEN_SYSRST_REG 0xFFFFFFFF
  refine ⟨⟨.poke handle AWS_CLKGEN_GRST_REG 0, (0 : Int)⟩ :: t, ?_, ?_, List.mem_cons_self⟩
  · exact List.forall_mem_cons.mpr ⟨rfl, hok⟩
  · exact (runs_poke _ _ _ _ _ _).mpr ⟨(0 : Int), t, rfl, hrun⟩

theorem low_not_untouched (slot_id : Int) (freq : ClkgenGroup → BitVec 32) (priv : Private)
    {group : ClkgenGroup} (hlow : freq group < FREQ_TABLE[0].freq) :
    ∃ t ret priv', (aws_clkgen_attached slot_id
        (aws_clkgen_set_groups fun group => aws_clkgen_set_freq group (freq group) 0) priv).Runs t
          (ret, priv') ∧ Rejects t ret ∧ ¬Untouched t := by
  obtain ⟨priv', hattached⟩ := attached_can slot_id
    (aws_clkgen_set_groups fun group => aws_clkgen_set_freq group (freq group) 0) priv
  obtain ⟨t₁, hok₁, hreset, hpoke⟩ := reset_on_can 0 priv'
  obtain ⟨t₂, hok₂, hlow_run⟩ := set_low_can freq priv' (aws_clkgen_reset 0 0 priv') group hlow groups
    (by cases group <;> decide)
  have hbody := (Prog.runs_andThen _ _ _ _).mpr (.inr ⟨t₁, t₂, rfl, hreset, hlow_run⟩)
  obtain ⟨t, hsub, hok, hrun⟩ := hattached (t₁ ++ t₂) FPGA_ERR_INVALID_CLKGEN_INPUTS hbody
    (List.forall_mem_append.mpr ⟨hok₁, hok₂⟩)
  refine ⟨t, _, priv', hrun, ⟨rfl, fun e he => ?_⟩, fun huntouched => ?_⟩
  · rw [hok e he]
    decide
  · exact huntouched _ (hsub (List.mem_append_left _ hpoke)) _ _ _ rfl

theorem set_recipe_untouched {slot_id : Int}
    {recipe_a recipe_b recipe_c recipe_hbm reset : BitVec 32} {priv priv' : Private}
    {t : List PciApi.Event} {ret : Int}
    (h : (aws_clkgen_set_recipe slot_id recipe_a recipe_b recipe_c recipe_hbm reset priv).Runs t
      (ret, priv'))
    (hrejects : Rejects t ret) : Untouched t := by
  unfold aws_clkgen_set_recipe at h
  dsimp only at h
  split at h
  case h_1 =>
    obtain ⟨rfl, -⟩ := h
    simp [Untouched]
  case h_2 recipe _ =>
    exact attached_untouched (fun priv group => set_mmcm_passesOn _ _ _ priv) h hrejects

/-! ## Which tests are made before the device is attached -/

theorem any_above_iff (freq : ClkgenGroup → BitVec 32) :
    (groups.any fun group => decide (maxFrequency group < freq group)) = true ↔
      ∃ group, maxFrequency group < freq group := by
  rw [List.any_eq_true]
  constructor
  · rintro ⟨group, -, habove⟩
    exact ⟨group, of_decide_eq_true habove⟩
  · rintro ⟨group, habove⟩
    exact ⟨group, by cases group <;> decide, decide_eq_true habove⟩

theorem set_dynamic_attached {slot_id : Int}
    {clk_a_freq clk_b_freq clk_c_freq clk_hbm_freq : BitVec 32} {priv : Private}
    (h : ¬∃ group, maxFrequency group <
      frequencies clk_a_freq clk_b_freq clk_c_freq clk_hbm_freq group) :
    aws_clkgen_set_dynamic slot_id clk_a_freq clk_b_freq clk_c_freq clk_hbm_freq 0 priv =
      aws_clkgen_attached slot_id (aws_clkgen_set_groups fun group => aws_clkgen_set_freq group
        (frequencies clk_a_freq clk_b_freq clk_c_freq clk_hbm_freq group) 0) priv := by
  unfold aws_clkgen_set_dynamic
  exact if_neg fun habove => h ((any_above_iff _).mp habove.2)

theorem set_dynamic_untouched {slot_id : Int}
    {clk_a_freq clk_b_freq clk_c_freq clk_hbm_freq reset : BitVec 32} {priv priv' : Private}
    {t : List PciApi.Event} {ret : Int}
    (hcond : reset ≠ 0 ∨
      (∃ group, maxFrequency group <
        frequencies clk_a_freq clk_b_freq clk_c_freq clk_hbm_freq group) ∨
      ∀ group, FREQ_TABLE[0].freq ≤ frequencies clk_a_freq clk_b_freq clk_c_freq clk_hbm_freq group)
    (h : (aws_clkgen_set_dynamic slot_id clk_a_freq clk_b_freq clk_c_freq clk_hbm_freq reset priv).Runs
      t (ret, priv'))
    (hrejects : Rejects t ret) : Untouched t := by
  unfold aws_clkgen_set_dynamic at h
  dsimp only at h
  split at h
  case isTrue =>
    obtain ⟨rfl, -⟩ := h
    simp [Untouched]
  case isFalse htested =>
    refine attached_untouched (fun priv group => set_freq_passesOn group priv ?_) h hrejects
    rcases hcond with hreset | habove | hall
    · exact .inl hreset
    · refine .inl fun h0 => htested ⟨h0, (any_above_iff _).mpr habove⟩
    · by_cases h0 : reset = 0
      · rw [if_pos h0]
        exact .inr (hall group)
      · exact .inl h0

/-- A rejection by `aws_clkgen_set_dynamic` leaves the device alone if no test is left to the groups;
one by `aws_clkgen_set_recipe` always does. -/
theorem rejected_untouched_iff (slot_id : Int) (reset : BitVec 32) (priv : Private) :
    (∀ clk_a_freq clk_b_freq clk_c_freq clk_hbm_freq,
      (∀ t ret priv',
        (aws_clkgen_set_dynamic slot_id clk_a_freq clk_b_freq clk_c_freq clk_hbm_freq reset priv).Runs t
          (ret, priv') → Rejects t ret → Untouched t) ↔
      (reset ≠ 0 ∨
        (∃ group, maxFrequency group <
          frequencies clk_a_freq clk_b_freq clk_c_freq clk_hbm_freq group) ∨
        ∀ group, FREQ_TABLE[0].freq ≤
          frequencies clk_a_freq clk_b_freq clk_c_freq clk_hbm_freq group)) ∧
    (∀ recipe_a recipe_b recipe_c recipe_hbm t ret priv',
      (aws_clkgen_set_recipe slot_id recipe_a recipe_b recipe_c recipe_hbm reset priv).Runs t
        (ret, priv') → Rejects t ret → Untouched t) := by
  refine ⟨?_, ?_⟩
  · intro clk_a_freq clk_b_freq clk_c_freq clk_hbm_freq
    constructor
    · intro hatomic
      by_contra hcond
      rw [not_or, not_or, not_not, not_forall] at hcond
      obtain ⟨rfl, hbelow, group, hlow⟩ := hcond
      obtain ⟨t, ret, priv', hrun, hrejects, htouched⟩ := low_not_untouched slot_id _ priv
        (BitVec.not_le.mp hlow)
      rw [← set_dynamic_attached hbelow] at hrun
      exact htouched (hatomic t ret priv' hrun hrejects)
    · intro hcond t ret priv' h hrejects
      exact set_dynamic_untouched hcond h hrejects
  · intro recipe_a recipe_b recipe_c recipe_hbm t ret priv' h hrejects
    exact set_recipe_untouched h hrejects

theorem rejected_untouched_of_recipe : Untouched [] :=
  (rejected_untouched_iff 0 0 Private.zero).2 7 0 0 0 [] FPGA_ERR_INVALID_CLKGEN_INPUTS Private.zero
    ⟨rfl, rfl⟩ ⟨rfl, by simp⟩

/-- Group B is asked for 50 MHz: the resets are on when the request is rejected. -/
theorem rejected_touched :
    ∃ t ret priv', (aws_clkgen_set_dynamic 0 100 50 100 100 0 Private.zero).Runs t (ret, priv') ∧
      Rejects t ret ∧ ¬Untouched t := by
  rw [set_dynamic_attached]
  · exact low_not_untouched 0 _ Private.zero (show frequencies 100 50 100 100 clkgen_group_b < _ by decide)
  · rintro ⟨group, habove⟩
    revert habove
    cases group <;> decide

end AwsFpga.Clkgen
