import AwsFpga.Clkgen.Reject

/-!
# A frequency is set, and read back

What the registers hold is what was last written to them. Both layouts give back what was
put in, except that a multiplier or divider of 0 is written as 1.
-/

open Lib AwsFpga.Pci

namespace AwsFpga.Clkgen

open ClkgenGroup

/-! ## The two layouts -/

theorem mask_bit {mask : BitVec 32} {s n : Nat}
    (h : ∀ j : Fin 32, mask.getLsbD j = decide (s ≤ j.val ∧ j.val < n)) (hn : n ≤ 32) (i : Nat) :
    mask.getLsbD i = decide (s ≤ i ∧ i < n) := by
  by_cases hi : i < 32
  · exact h ⟨i, hi⟩
  · rw [BitVec.getLsbD_of_ge _ _ (by omega), decide_eq_false (by omega)]

theorem bits_0xFF (i : Nat) : (0xFF#32).getLsbD i = decide (0 ≤ i ∧ i < 8) :=
  mask_bit (by decide) (by decide) i

theorem bits_0x3FF (i : Nat) : (0x3FF#32).getLsbD i = decide (0 ≤ i ∧ i < 10) :=
  mask_bit (by decide) (by decide) i

theorem bits_0xFF00 (i : Nat) : (0xFF00#32).getLsbD i = decide (8 ≤ i ∧ i < 16) :=
  mask_bit (by decide) (by decide) i

theorem bits_0x0FFF0000 (i : Nat) : (0x0FFF0000#32).getLsbD i = decide (16 ≤ i ∧ i < 28) :=
  mask_bit (by decide) (by decide) i

theorem bits_0x000FFF00 (i : Nat) : (0x000FFF00#32).getLsbD i = decide (8 ≤ i ∧ i < 20) :=
  mask_bit (by decide) (by decide) i

theorem bit_of_lt {x : BitVec 32} {n : Nat} (h : x.toNat < 2 ^ n) {i : Nat} (hi : n ≤ i) :
    x.getLsbD i = false :=
  Nat.testBit_lt_two_pow (Nat.lt_of_lt_of_le h (Nat.pow_le_pow_right (by decide) hi))

theorem masked_eq {x y mask : BitVec 32} {n : Nat} (hx : x.toNat < 2 ^ n)
    (hmask : ∀ i, mask.getLsbD i = decide (0 ≤ i ∧ i < n))
    (hbits : ∀ i < n, i < 32 → y.getLsbD i = x.getLsbD i) : y &&& mask = x := by
  refine BitVec.eq_of_getLsbD_eq fun i hi => ?_
  rw [BitVec.getLsbD_and, hmask]
  by_cases hlt : i < n
  · rw [hbits i hlt hi]
    simp [hlt]
  · rw [bit_of_lt hx (show n ≤ i by omega)]
    simp [hlt]

theorem shared_clock_fields {mult mult_frac div : BitVec 32} (hmult : mult.toNat < 2 ^ 8)
    (hfrac : mult_frac.toNat < 2 ^ 10) (hdiv : div.toNat < 2 ^ 8) :
    let value := (div &&& 0xFF#32) ||| ((mult <<< 8) &&& 0xFF00#32) |||
      ((mult_frac <<< 16) &&& 0x0FFF0000#32)
    (value >>> 8) &&& 0xFF#32 = mult ∧ (value >>> 16) &&& 0x3FF#32 = mult_frac ∧
      value &&& 0xFF#32 = div := by
  intro value
  have hbit : ∀ i, value.getLsbD i = (div.getLsbD i && decide (0 ≤ i ∧ i < 8) ||
      (decide (i < 32) && !decide (i < 8) && mult.getLsbD (i - 8)) && decide (8 ≤ i ∧ i < 16) ||
      (decide (i < 32) && !decide (i < 16) && mult_frac.getLsbD (i - 16)) &&
        decide (16 ≤ i ∧ i < 28)) := by
    intro i
    simp only [value, BitVec.getLsbD_or, BitVec.getLsbD_and, BitVec.getLsbD_shiftLeft]
    rw [bits_0xFF, bits_0xFF00, bits_0x0FFF0000]
  refine ⟨masked_eq hmult bits_0xFF fun i hi _ => ?_, masked_eq hfrac bits_0x3FF fun i hi _ => ?_,
    masked_eq hdiv bits_0xFF fun i hi _ => ?_⟩
  · rw [BitVec.getLsbD_ushiftRight, hbit]
    grind
  · rw [BitVec.getLsbD_ushiftRight, hbit]
    grind
  · rw [hbit]
    grind

theorem clk_div_fields {div div_frac : BitVec 32} (hfrac : div_frac.toNat < 2 ^ 10)
    (hdiv : div.toNat < 2 ^ 8) :
    let value := (div &&& 0xFF#32) ||| ((div_frac <<< 8) &&& 0x000FFF00#32)
    (value >>> 8) &&& 0x3FF#32 = div_frac ∧ value &&& 0xFF#32 = div := by
  intro value
  have hbit : ∀ i, value.getLsbD i = (div.getLsbD i && decide (0 ≤ i ∧ i < 8) ||
      (decide (i < 32) && !decide (i < 8) && div_frac.getLsbD (i - 8)) &&
        decide (8 ≤ i ∧ i < 20)) := by
    intro i
    simp only [value, BitVec.getLsbD_or, BitVec.getLsbD_and, BitVec.getLsbD_shiftLeft]
    rw [bits_0xFF, bits_0x000FFF00]
  refine ⟨masked_eq hfrac bits_0x3FF fun i hi _ => ?_, masked_eq hdiv bits_0xFF fun i hi _ => ?_⟩
  · rw [BitVec.getLsbD_ushiftRight, hbit]
    grind
  · rw [hbit]
    grind

theorem low_field {div : BitVec 32} (hdiv : div.toNat < 2 ^ 8) : div &&& 0xFF#32 = div :=
  masked_eq hdiv bits_0xFF fun _ _ _ => rfl

/-- What is written in place of a multiplier or divider. -/
def nonzero (x : BitVec 32) : BitVec 32 := if x = 0 then 1 else x

theorem nonzero_of_ne {x : BitVec 32} (h : x ≠ 0) : nonzero x = x := if_neg h

theorem nonzero_ne_zero (x : BitVec 32) : nonzero x ≠ 0 := by
  unfold nonzero
  split
  case isTrue => decide
  case isFalse h => exact h

theorem nonzero_lt {x : BitVec 32} (h : x.toNat < 2 ^ 8) : (nonzero x).toNat < 2 ^ 8 := by
  unfold nonzero
  split
  case isTrue => decide
  case isFalse => exact h

/-- The value of `MMCM_MAIN_CFG_REG`. -/
def mainCfgValue (mult mult_frac div : BitVec 32) : BitVec 32 :=
  (nonzero div &&& 0xFF) ||| ((nonzero mult <<< 8) &&& 0xFF00) ||| ((mult_frac <<< 16) &&& 0x0FFF0000)

/-- The value of the register of a clock. -/
def clkCfgValue (has_frac : Bool) (div div_frac : BitVec 32) : BitVec 32 :=
  if has_frac then (nonzero div &&& 0xFF) ||| ((div_frac <<< 8) &&& 0x000FFF00)
  else nonzero div &&& 0xFF

theorem set_shared_clock_eq (group : ClkgenGroup) (mult mult_frac div : BitVec 32) (priv : Private) :
    mmcm_set_shared_clock group mult mult_frac div priv =
      fpga_pci_poke (priv group).handle ((priv group).mmcm_base_offset + MMCM_MAIN_CFG_REG)
        (mainCfgValue mult mult_frac div) := rfl

theorem set_clk_div_eq {group : ClkgenGroup} {priv : Private} {i : Nat}
    (h : i < (priv group).num_clocks) (div div_frac : BitVec 32) :
    mmcm_set_clk_div group i div div_frac priv =
      fpga_pci_poke (priv group).handle
        ((priv group).mmcm_base_offset + (priv group).clk_cfg_regs.getD i 0)
        (clkCfgValue ((priv group).clk_div_has_frac.getD i false) div div_frac) :=
  if_neg (Nat.not_le.mpr h)

/-! ## Reading back -/

/-- What was last written to a register. -/
def written (handle : Int) (offset : BitVec 64) : List PciApi.Event → Option (BitVec 32)
  | [] => none
  | ⟨.poke h o value, rc⟩ :: t =>
    (written handle offset t).or
      (if h = handle ∧ o = offset ∧ pciCode (.poke h o value) rc = 0 then some value else none)
  | _ :: t => written handle offset t

/-- The reads of `t'` answer what `t` wrote last. -/
def Answers (t t' : List PciApi.Event) : Prop :=
  ∀ handle offset r, ⟨.peek handle offset, r⟩ ∈ t' →
    ∃ value, written handle offset t = some value ∧ r = (0, value)

/-- Behind `t`, the read `p` succeeds with `a`. -/
def ReadsBack {α : Type} (t : List PciApi.Event) (p : Prog PciApi (Int × Option α)) (a : α) : Prop :=
  (∃ t', Answers t t' ∧ p.Runs t' (0, some a)) ∧
    ∀ t' r, Answers t t' → p.Runs t' r → r = (0, some a)

theorem readsBack_peek {α : Type} {t : List PciApi.Event} {handle : Int} {offset : BitVec 64}
    {value : BitVec 32} (hwritten : written handle offset t = some value) (f : BitVec 32 → α) :
    ReadsBack t (do
      let (rc, value) ← fpga_pci_peek handle offset
      if rc ≠ 0 then return (rc, none) else return (0, some (f value))) (f value) := by
  constructor
  · refine ⟨[⟨.peek handle offset, (0, value)⟩], ?_, (runs_peek _ _ _ _ _).mpr ⟨0, value, [], rfl, ?_⟩⟩
    · intro h o r hmem
      rw [List.mem_singleton] at hmem
      cases hmem
      exact ⟨value, hwritten, rfl⟩
    · exact ⟨rfl, rfl⟩
  · intro t' r hanswers h
    rw [runs_peek] at h
    obtain ⟨rc, value', t'', rfl, h⟩ := h
    obtain ⟨value'', hwritten', heq⟩ := hanswers _ _ _ List.mem_cons_self
    obtain ⟨rfl, rfl⟩ := Prod.mk.inj heq
    rw [hwritten, Option.some.injEq] at hwritten'
    rw [hwritten']
    exact h.2

theorem get_shared_clock_readsBack {group : ClkgenGroup} {priv : Private} {t : List PciApi.Event}
    {mult mult_frac div : BitVec 32} (hmult : mult < 256) (hfrac : mult_frac < 1000) (hdiv : div < 256)
    (h : written (priv group).handle ((priv group).mmcm_base_offset + MMCM_MAIN_CFG_REG) t =
      some (mainCfgValue mult mult_frac div)) :
    ReadsBack t (mmcm_get_shared_clock group priv) (nonzero mult, mult_frac, nonzero div) := by
  have hread := readsBack_peek h fun value =>
    ((value >>> 8) &&& 0xFF, (value >>> 16) &&& 0x3FF, value &&& 0xFF)
  obtain ⟨hm, hf, hd⟩ := shared_clock_fields (nonzero_lt hmult)
    (Nat.lt_trans hfrac (by decide)) (nonzero_lt hdiv)
  have hvalue : ((mainCfgValue mult mult_frac div >>> 8) &&& 0xFF,
      (mainCfgValue mult mult_frac div >>> 16) &&& 0x3FF, mainCfgValue mult mult_frac div &&& 0xFF) =
        (nonzero mult, mult_frac, nonzero div) :=
    Prod.ext hm (Prod.ext hf hd)
  rwa [hvalue] at hread

theorem get_clk_div_readsBack {group : ClkgenGroup} {priv : Private} {t : List PciApi.Event} {i : Nat}
    {div div_frac : BitVec 32} (hi : i < (priv group).num_clocks) (hfrac : div_frac < 1000)
    (hdiv : div < 256)
    (h : written (priv group).handle
        ((priv group).mmcm_base_offset + (priv group).clk_cfg_regs.getD i 0) t =
      some (clkCfgValue ((priv group).clk_div_has_frac.getD i false) div div_frac)) :
    ReadsBack t (mmcm_get_clk_div group i priv)
      (nonzero div, if (priv group).clk_div_has_frac.getD i false then div_frac else 0) := by
  have hread := readsBack_peek h fun value => (value &&& 0xFF,
    if (priv group).clk_div_has_frac.getD i false then (value >>> 8) &&& 0x3FF else 0)
  unfold mmcm_get_clk_div
  dsimp only
  rw [if_neg (Nat.not_le.mpr hi)]
  cases hlayout : (priv group).clk_div_has_frac.getD i false with
  | false =>
    rw [hlayout] at hread
    have hlow := low_field (nonzero_lt hdiv)
    have hd : clkCfgValue false div div_frac &&& 0xFF = nonzero div := by
      change (nonzero div &&& 0xFF#32) &&& 0xFF#32 = nonzero div
      rw [hlow, hlow]
    rw [hd] at hread
    exact hread
  | true =>
    rw [hlayout] at hread
    obtain ⟨hf, hd⟩ := clk_div_fields (Nat.lt_trans hfrac (by decide)) (nonzero_lt hdiv)
    have hvalue : (clkCfgValue true div div_frac &&& 0xFF,
        if true then (clkCfgValue true div div_frac >>> 8) &&& 0x3FF else 0) =
          (nonzero div, if true then div_frac else 0) :=
      Prod.ext hd hf
    rw [hvalue] at hread
    exact hread

/-! ## What a group is written -/

/-- The clocks of a group, with their divider and its fraction. -/
def ClkgenRecipe.divs (recipe : ClkgenRecipe) : List (BitVec 32 × BitVec 32) :=
  [(recipe.div0, recipe.div0_frac), (recipe.div1, 0), (recipe.div2, 0)]

/-- The writes of a recipe: the shared clock, the clocks that are available, and the load. -/
def Writes (group : ClkgenGroup) (priv : Private) (recipe : ClkgenRecipe) : PciOp → Prop
  | .poke handle offset value => handle = (priv group).handle ∧
    ((offset = (priv group).mmcm_base_offset + MMCM_MAIN_CFG_REG ∧
        value = mainCfgValue recipe.mult recipe.mult_frac recipe.div) ∨
      (∃ i div div_frac, recipe.divs[i]? = some (div, div_frac) ∧
        (mmcm_clk_avail group i priv).2 = true ∧
        offset = (priv group).mmcm_base_offset + (priv group).clk_cfg_regs.getD i 0 ∧
        value = clkCfgValue ((priv group).clk_div_has_frac.getD i false) div div_frac) ∨
      offset = (priv group).mmcm_base_offset + MMCM_LOAD_CFG_REG)
  | _ => True

theorem avail_lt {group : ClkgenGroup} {i : Nat} {priv : Private}
    (h : (mmcm_clk_avail group i priv).2 = true) : i < (priv group).num_clocks := by
  unfold mmcm_clk_avail at h
  split at h
  case isTrue => cases h
  case isFalse hi => exact Nat.not_le.mp hi

theorem set_clk_divs_writes {group : ClkgenGroup} {priv : Private} {recipe : ClkgenRecipe} (i : Nat)
    {divs : List (BitVec 32 × BitVec 32)} (h : divs = recipe.divs.drop i) :
    (aws_clkgen_set_clk_divs group priv i divs).AllCalls (Writes group priv recipe) := by
  induction divs generalizing i with
  | nil => trivial
  | cons div rest ih =>
    obtain ⟨div, div_frac⟩ := div
    have hrest : rest = recipe.divs.drop (i + 1) := by
      rw [← List.tail_drop, ← h, List.tail_cons]
    have hdiv : recipe.divs[i]? = some (div, div_frac) := by
      rw [← List.head?_drop, ← h, List.head?_cons]
    unfold aws_clkgen_set_clk_divs
    refine Prog.allCalls_ite trivial ?_
    split
    case isFalse => exact ih (i + 1) hrest
    case isTrue havail =>
      rw [set_clk_div_eq (avail_lt havail)]
      refine Prog.allCalls_andThen ⟨⟨rfl, ?_⟩, fun _ => trivial⟩ (ih (i + 1) hrest)
      exact .inr (.inl ⟨i, div, div_frac, hdiv, havail, rfl, rfl⟩)

theorem wait_for_locked_writes (group : ClkgenGroup) (priv : Private) (recipe : ClkgenRecipe)
    (mmcm : FpgaClkgenMmcm) (retries : Nat) :
    (mmcm_wait_for_locked_loop mmcm retries).AllCalls (Writes group priv recipe) := by
  induction retries with
  | zero => trivial
  | succ retries ih =>
    refine ⟨trivial, fun (rc, _) => Prog.allCalls_ite trivial (Prog.allCalls_ite trivial ?_)⟩
    exact ⟨trivial, fun _ => ih⟩

theorem set_mmcm_writes (group : ClkgenGroup) (recipe : ClkgenRecipe) (priv : Private) :
    (aws_clkgen_set_mmcm group recipe 0 priv).AllCalls (Writes group priv recipe) := by
  have hwait := wait_for_locked_writes group priv recipe (priv group) MAX_CLKGEN_LOOP_RETRIES
  unfold aws_clkgen_set_mmcm
  refine Prog.allCalls_ite trivial (Prog.allCalls_ite trivial ?_)
  refine Prog.allCalls_andThen (Prog.allCalls_ite ?_ trivial) ?_
  · refine Prog.allCalls_andThen ⟨⟨rfl, .inl ⟨rfl, rfl⟩⟩, fun _ => trivial⟩ ?_
    exact set_clk_divs_writes 0 rfl
  · refine Prog.allCalls_andThen hwait (Prog.allCalls_andThen ?_ hwait)
    exact ⟨⟨rfl, .inr (.inr rfl)⟩, fun _ => trivial⟩

theorem mem_of_written {handle : Int} {offset : BitVec 64} {value : BitVec 32}
    {t : List PciApi.Event} (h : written handle offset t = some value) :
    ∃ e ∈ t, e.1 = .poke handle offset value := by
  induction t with
  | nil => cases h
  | cons e t ih =>
    obtain ⟨o, ans⟩ := e
    cases hlater : written handle offset t with
    | some value' =>
      have hvalue : value' = value := by
        cases o <;> simpa [written, hlater] using h
      obtain ⟨e, he, hop⟩ := ih (hvalue ▸ hlater)
      exact ⟨e, List.mem_cons_of_mem _ he, hop⟩
    | none =>
      cases o with
      | poke h' o' value' =>
        simp only [written, hlater, Option.none_or] at h
        split at h
        case isTrue hreg =>
          obtain ⟨rfl, rfl, -⟩ := hreg
          obtain rfl := Option.some.inj h
          exact ⟨_, List.mem_cons_self, rfl⟩
        case isFalse => cases h
      | _ => simp [written, hlater] at h

theorem isSome_written_of_mem {handle : Int} {offset : BitVec 64} {value : BitVec 32}
    {t : List PciApi.Event} (hmem : ⟨.poke handle offset value, (0 : Int)⟩ ∈ t) :
    (written handle offset t).isSome := by
  induction t with
  | nil => cases hmem
  | cons e t ih =>
    rcases List.mem_cons.mp hmem with rfl | hlater
    · simp [written, pciCode]
    · have hsome := ih hlater
      obtain ⟨o, ans⟩ := e
      cases o <;> simp [written, hsome]

theorem written_of_mem {handle : Int} {offset : BitVec 64} {value : BitVec 32} {t : List PciApi.Event}
    (hall : ∀ e ∈ t, ∀ value', e.1 = .poke handle offset value' → value' = value)
    (hmem : ⟨.poke handle offset value, (0 : Int)⟩ ∈ t) : written handle offset t = some value := by
  obtain ⟨value', hvalue⟩ := Option.isSome_iff_exists.mp (isSome_written_of_mem hmem)
  obtain ⟨e, he, hop⟩ := mem_of_written hvalue
  rw [hvalue, hall e he value' hop]

theorem set_mmcm_zero {group : ClkgenGroup} {recipe : ClkgenRecipe} {priv : Private}
    {t : List PciApi.Event} (hany : (mmcm_clk_avail_any group priv).2 = true)
    (h : (aws_clkgen_set_mmcm group recipe 0 priv).Runs t 0) :
    ⟨.poke (priv group).handle ((priv group).mmcm_base_offset + MMCM_MAIN_CFG_REG)
      (mainCfgValue recipe.mult recipe.mult_frac recipe.div), (0 : Int)⟩ ∈ t ∧
    ((mmcm_clk_avail group 0 priv).2 = true →
      ⟨.poke (priv group).handle ((priv group).mmcm_base_offset + (priv group).clk_cfg_regs.getD 0 0)
        (clkCfgValue ((priv group).clk_div_has_frac.getD 0 false) recipe.div0 recipe.div0_frac),
        (0 : Int)⟩ ∈ t) := by
  unfold aws_clkgen_set_mmcm at h
  dsimp only at h
  rw [if_neg (fun hrc => hrc rfl), if_neg (by rw [hany]; decide), if_pos rfl] at h
  obtain ⟨hrc, -⟩ | ⟨t₁, t₂, rfl, hwrite, -⟩ := (Prog.runs_andThen _ _ _ _).mp h
  · exact absurd rfl hrc
  unfold aws_clkgen_write_recipe at hwrite
  rw [set_shared_clock_eq] at hwrite
  obtain ⟨hrc, -⟩ | ⟨t₃, t₄, rfl, hshared, hclocks⟩ := (Prog.runs_andThen _ _ _ _).mp hwrite
  · exact absurd rfl hrc
  obtain rfl := (Prog.runs_op _ _ _).mp hshared
  refine ⟨List.mem_append_left _ List.mem_cons_self, fun havail => ?_⟩
  unfold aws_clkgen_set_clk_divs at hclocks
  dsimp only at hclocks
  have hrc : ¬(mmcm_clk_avail group 0 priv).1 ≠ 0 := by
    unfold mmcm_clk_avail
    split <;> simp
  rw [if_neg hrc, if_pos havail, set_clk_div_eq (avail_lt havail)] at hclocks
  obtain ⟨hrc, -⟩ | ⟨t₅, t₆, rfl, hclock, -⟩ := (Prog.runs_andThen _ _ _ _).mp hclocks
  · exact absurd rfl hrc
  obtain rfl := (Prog.runs_op _ _ _).mp hclock
  exact List.mem_append_left _ (List.mem_append_right _ List.mem_cons_self)

/-! ## Registers of a group are distinct -/

theorem clk_cfg_regs_ne {i : Nat} (hi : i < MAX_CLKS_IN_MMCM) :
    clk_cfg_regs.getD i 0 ≠ MMCM_MAIN_CFG_REG ∧ clk_cfg_regs.getD i 0 ≠ MMCM_LOAD_CFG_REG ∧
      ∀ j < MAX_CLKS_IN_MMCM, clk_cfg_regs.getD j 0 = clk_cfg_regs.getD i 0 → j = i := by
  have h : ∀ i : Fin MAX_CLKS_IN_MMCM, clk_cfg_regs.getD i 0 ≠ MMCM_MAIN_CFG_REG ∧
      clk_cfg_regs.getD i 0 ≠ MMCM_LOAD_CFG_REG ∧
        ∀ j : Fin MAX_CLKS_IN_MMCM, clk_cfg_regs.getD j 0 = clk_cfg_regs.getD i 0 → j = i := by
    decide
  obtain ⟨hmain, hload, hinj⟩ := h ⟨i, hi⟩
  exact ⟨hmain, hload, fun j hj heq => congrArg Fin.val (hinj ⟨j, hj⟩ heq)⟩

/-- The register of a clock of the group. -/
def clkReg (group : ClkgenGroup) (i : Nat) : BitVec 64 := baseOffset group + clk_cfg_regs.getD i 0

def mainReg (group : ClkgenGroup) : BitVec 64 := baseOffset group + MMCM_MAIN_CFG_REG

def loadReg (group : ClkgenGroup) : BitVec 64 := baseOffset group + MMCM_LOAD_CFG_REG

theorem writes_of_layout {handle : Int} {group : ClkgenGroup} {priv : Private} {recipe : ClkgenRecipe}
    (hlayout : Layout handle group (priv group)) {h : Int} {offset : BitVec 64} {value : BitVec 32}
    (hwrites : Writes group priv recipe (.poke h offset value)) :
    (offset = mainReg group ∧ value = mainCfgValue recipe.mult recipe.mult_frac recipe.div) ∨
      (∃ i div div_frac, recipe.divs[i]? = some (div, div_frac) ∧
        (mmcm_clk_avail group i priv).2 = true ∧ i < MAX_CLKS_IN_MMCM ∧ offset = clkReg group i ∧
        value = clkCfgValue (clk_div_has_frac.getD i false) div div_frac) ∨
      offset = loadReg group := by
  obtain ⟨-, ⟨rfl, rfl⟩ | ⟨i, div, div_frac, hdiv, havail, rfl, rfl⟩ | rfl⟩ := hwrites
  · rw [hlayout.base]
    exact .inl ⟨rfl, rfl⟩
  · have hi : i < numClocks group := hlayout.num_clocks ▸ avail_lt havail
    rw [hlayout.base, hlayout.regs i hi, hlayout.has_frac i hi]
    exact .inr (.inl ⟨i, div, div_frac, hdiv, havail, Nat.lt_of_lt_of_le hi (numClocks_le group),
      rfl, rfl⟩)
  · rw [hlayout.base]
    exact .inr (.inr rfl)

theorem base_add_inj {group : ClkgenGroup} {x y : BitVec 64}
    (h : baseOffset group + x = baseOffset group + y) : x = y := by
  rwa [BitVec.add_right_inj] at h

/-- The run of a group that was initialised. -/
structure GroupRun (handle : Int) (group : ClkgenGroup) (recipe : ClkgenRecipe) (priv : Private)
    (t : List PciApi.Event) (ret : Int) : Prop where
  layout : Layout handle group (priv group)
  run : (aws_clkgen_set_mmcm group recipe 0 priv).Runs t ret

namespace GroupRun

variable {handle : Int} {group : ClkgenGroup} {recipe : ClkgenRecipe} {priv : Private}
  {t : List PciApi.Event} {ret : Int}

theorem poke_cases (h : GroupRun handle group recipe priv t ret) {e : PciApi.Event} (he : e ∈ t)
    {handle' : Int} {offset : BitVec 64} {value : BitVec 32} (hop : e.1 = .poke handle' offset value) :
    (offset = mainReg group ∧ value = mainCfgValue recipe.mult recipe.mult_frac recipe.div) ∨
      (∃ i div div_frac, recipe.divs[i]? = some (div, div_frac) ∧
        (mmcm_clk_avail group i priv).2 = true ∧ i < MAX_CLKS_IN_MMCM ∧ offset = clkReg group i ∧
        value = clkCfgValue (clk_div_has_frac.getD i false) div div_frac) ∨
      offset = loadReg group := by
  have hwrites := Prog.runs_allCalls (set_mmcm_writes group recipe priv) h.run e he
  rw [hop] at hwrites
  exact writes_of_layout h.layout hwrites

theorem main_written (h : GroupRun handle group recipe priv t 0)
    (hany : (mmcm_clk_avail_any group priv).2 = true) :
    written handle (mainReg group) t =
      some (mainCfgValue recipe.mult recipe.mult_frac recipe.div) := by
  have hmem := (set_mmcm_zero hany h.run).1
  rw [h.layout.base, h.layout.handle] at hmem
  refine written_of_mem (fun e he value hop => ?_) hmem
  obtain ⟨-, hvalue⟩ | ⟨i, _, _, -, -, hi, hreg, -⟩ | hreg := h.poke_cases he hop
  · exact hvalue
  · exact absurd (base_add_inj hreg).symm (clk_cfg_regs_ne hi).1
  · exact absurd (base_add_inj hreg) (by decide)

theorem clk0_written (h : GroupRun handle group recipe priv t 0)
    (hany : (mmcm_clk_avail_any group priv).2 = true) (havail : (mmcm_clk_avail group 0 priv).2 = true) :
    written handle (clkReg group 0) t = some (clkCfgValue true recipe.div0 recipe.div0_frac) := by
  have hmem := (set_mmcm_zero hany h.run).2 havail
  have h0 : 0 < numClocks group := by cases group <;> decide
  rw [h.layout.base, h.layout.handle, h.layout.regs 0 h0, h.layout.has_frac 0 h0] at hmem
  refine written_of_mem (fun e he value hop => ?_) hmem
  obtain ⟨hreg, -⟩ | ⟨i, div, div_frac, hdiv, -, hi, hreg, hvalue⟩ | hreg := h.poke_cases he hop
  · exact absurd (base_add_inj hreg) (by decide)
  · obtain rfl := (clk_cfg_regs_ne hi).2.2 0 (by decide) (base_add_inj hreg)
    obtain ⟨rfl, rfl⟩ : recipe.div0 = div ∧ recipe.div0_frac = div_frac :=
      Prod.mk.inj (Option.some.inj hdiv)
    exact hvalue
  · exact absurd (base_add_inj hreg) (by decide)

theorem unavailable_not_written (h : GroupRun handle group recipe priv t ret) {i : Nat}
    (hi : i < MAX_CLKS_IN_MMCM) (hno : (mmcm_clk_avail group i priv).2 = false) :
    ∀ e ∈ t, ∀ handle' value, e.1 ≠ .poke handle' (clkReg group i) value := by
  intro e he handle' value hop
  obtain ⟨hreg, -⟩ | ⟨j, _, _, -, havail, hj, hreg, -⟩ | hreg := h.poke_cases he hop
  · exact (clk_cfg_regs_ne hi).1 (base_add_inj hreg)
  · obtain rfl := (clk_cfg_regs_ne hj).2.2 i hi (base_add_inj hreg)
    rw [hno] at havail
    cases havail
  · exact (clk_cfg_regs_ne hi).2.1 (base_add_inj hreg)

theorem low_field_ne_zero {has_frac : Bool} {div div_frac : BitVec 32} (hdiv : div.toNat < 2 ^ 8)
    (hfrac : div_frac.toNat < 2 ^ 10) : clkCfgValue has_frac div div_frac &&& 0xFF#32 ≠ 0 := by
  cases has_frac with
  | false =>
    have hlow := low_field (nonzero_lt hdiv)
    change (nonzero div &&& 0xFF#32) &&& 0xFF#32 ≠ 0
    rw [hlow, hlow]
    exact nonzero_ne_zero div
  | true =>
    have hlow := (clk_div_fields hfrac (nonzero_lt hdiv)).2
    change (_ : BitVec 32) &&& 0xFF#32 ≠ 0
    rw [show clkCfgValue true div div_frac &&& 0xFF#32 = nonzero div from hlow]
    exact nonzero_ne_zero div

end GroupRun

/-! ## The row of a frequency -/

/-- The row of the table with the greatest frequency that does not exceed the request. -/
def IsChoice (req_freq : BitVec 32) (row : FreqRow) : Prop :=
  row ∈ FREQ_TABLE ∧ row.freq ≤ req_freq ∧ ∀ row' ∈ FREQ_TABLE, row'.freq ≤ req_freq → row'.freq ≤ row.freq

theorem tableRow_eq {i : Nat} (hi : i < AWS_CLKGEN_TABLE_ROWS) : tableRow i = FREQ_TABLE[i] := by
  simp [tableRow, Vector.getD, hi]

theorem tableRow_sorted :
    ∀ i j : Fin AWS_CLKGEN_TABLE_ROWS, i ≤ j → (tableRow i).freq ≤ (tableRow j).freq := by
  decide

/-- What the registers can hold, and no 0 in a divider or multiplier. -/
structure RowFits (row : FreqRow) : Prop where
  mult : row.sharedMult ≠ 0 ∧ row.sharedMult < 256
  mult_frac : row.sharedMultFrac < 1000
  div : row.sharedDiv ≠ 0 ∧ row.sharedDiv < 256
  div0 : row.div0 ≠ 0 ∧ row.div0 < 256
  div0_frac : row.div0Frac < 1000

theorem tableRow_fits {i : Nat} (hi : i < AWS_CLKGEN_TABLE_ROWS) : RowFits (tableRow i) := by
  have h : ∀ i : Fin AWS_CLKGEN_TABLE_ROWS,
      ((tableRow i).sharedMult ≠ 0 ∧ (tableRow i).sharedMult < 256) ∧
      (tableRow i).sharedMultFrac < 1000 ∧
      ((tableRow i).sharedDiv ≠ 0 ∧ (tableRow i).sharedDiv < 256) ∧
      ((tableRow i).div0 ≠ 0 ∧ (tableRow i).div0 < 256) ∧ (tableRow i).div0Frac < 1000 := by
    decide
  obtain ⟨hmult, hmult_frac, hdiv, hdiv0, hdiv0_frac⟩ := h ⟨i, hi⟩
  exact ⟨hmult, hmult_frac, hdiv, hdiv0, hdiv0_frac⟩

theorem idx_choice_spec {req_freq : BitVec 32} {n : Nat}
    (h : ∃ j < n, (tableRow j).freq ≤ req_freq) :
    aws_clkgen_idx_choice req_freq n < n ∧
      (tableRow (aws_clkgen_idx_choice req_freq n)).freq ≤ req_freq ∧
        ∀ j < n, (tableRow j).freq ≤ req_freq → j ≤ aws_clkgen_idx_choice req_freq n := by
  induction n with
  | zero =>
    obtain ⟨j, hj, -⟩ := h
    exact absurd hj (Nat.not_lt_zero j)
  | succ n ih =>
    unfold aws_clkgen_idx_choice
    by_cases hn : (tableRow n).freq ≤ req_freq
    · rw [if_pos hn]
      exact ⟨Nat.lt_succ_self n, hn, fun j hj _ => Nat.le_of_lt_succ hj⟩
    · rw [if_neg hn]
      have hlower : ∀ j < n + 1, (tableRow j).freq ≤ req_freq → j < n := by
        intro j hj hle
        rcases Nat.lt_succ_iff_lt_or_eq.mp hj with hlt | rfl
        · exact hlt
        · exact absurd hle hn
      obtain ⟨j, hj, hle⟩ := h
      obtain ⟨hlt, hfreq, hlast⟩ := ih ⟨j, hlower j hj hle, hle⟩
      exact ⟨Nat.lt_succ_of_lt hlt, hfreq, fun j hj hle => hlast j (hlower j hj hle) hle⟩

theorem choice_of_accepted {req_freq : BitVec 32} (h : FREQ_TABLE[0].freq ≤ req_freq) :
    aws_clkgen_idx_choice req_freq AWS_CLKGEN_TABLE_ROWS < AWS_CLKGEN_TABLE_ROWS ∧
      IsChoice req_freq (tableRow (aws_clkgen_idx_choice req_freq AWS_CLKGEN_TABLE_ROWS)) := by
  obtain ⟨hlt, hfreq, hlast⟩ := idx_choice_spec (n := AWS_CLKGEN_TABLE_ROWS) ⟨0, by decide, h⟩
  refine ⟨hlt, ?_, hfreq, fun row' hmem hle => ?_⟩
  · rw [tableRow_eq hlt]
    exact Vector.getElem_mem hlt
  · obtain ⟨j, hj, rfl⟩ := Vector.getElem_of_mem hmem
    rw [← tableRow_eq hj] at hle ⊢
    exact tableRow_sorted ⟨j, hj⟩ ⟨_, hlt⟩ (hlast j hj hle)

theorem set_freq_runs {handle : Int} {group : ClkgenGroup} {req_freq : BitVec 32} {priv : Private}
    {t : List PciApi.Event} {ret : Int} (hlayout : Layout handle group (priv group))
    (h : (aws_clkgen_set_freq group req_freq 0 priv).Runs t ret) :
    (ret ≠ 0 ∧ t = []) ∨
      ∃ i < AWS_CLKGEN_TABLE_ROWS, IsChoice req_freq (tableRow i) ∧
        GroupRun handle group (tableRow i).recipe priv t ret := by
  unfold aws_clkgen_set_freq at h
  split at h
  case isTrue =>
    obtain ⟨rfl, rfl⟩ := h
    exact .inl ⟨by decide, rfl⟩
  case isFalse haccepted =>
    have hle : FREQ_TABLE[0].freq ≤ req_freq :=
      BitVec.not_lt.mp fun hlt => haccepted ⟨rfl, hlt⟩
    obtain ⟨hlt, hchoice⟩ := choice_of_accepted hle
    exact .inr ⟨_, hlt, hchoice, hlayout, h⟩

theorem divs_fit {row : FreqRow} (h : RowFits row) {i : Nat} {div div_frac : BitVec 32}
    (hdiv : row.recipe.divs[i]? = some (div, div_frac)) : div.toNat < 2 ^ 8 ∧ div_frac.toNat < 2 ^ 10 := by
  have h0 : row.div0Frac.toNat < 2 ^ 10 := Nat.lt_trans h.div0_frac (by decide)
  have hmem := List.mem_of_getElem? hdiv
  simp only [ClkgenRecipe.divs, FreqRow.recipe, List.mem_cons, Prod.mk.injEq, List.not_mem_nil,
    or_false] at hmem
  obtain ⟨rfl, rfl⟩ | ⟨rfl, rfl⟩ | ⟨rfl, rfl⟩ := hmem
  · exact ⟨h.div0.2, h0⟩
  · exact ⟨by decide, by decide⟩
  · exact ⟨by decide, by decide⟩

theorem GroupRun.dividers_ne_zero {handle : Int} {group : ClkgenGroup} {row : FreqRow}
    {priv : Private} {t : List PciApi.Event} {ret : Int} (h : GroupRun handle group row.recipe priv t ret)
    (hfits : RowFits row) {e : PciApi.Event} (he : e ∈ t) {handle' : Int} {offset : BitVec 64}
    {value : BitVec 32} (hop : e.1 = .poke handle' offset value) (hload : offset ≠ loadReg group) :
    value &&& 0xFF#32 ≠ 0 := by
  obtain ⟨-, rfl⟩ | ⟨i, div, div_frac, hdiv, -, -, -, rfl⟩ | hreg := h.poke_cases he hop
  · have hfields := shared_clock_fields (nonzero_lt hfits.mult.2)
      (Nat.lt_trans hfits.mult_frac (by decide)) (nonzero_lt hfits.div.2)
    have hdiv : mainCfgValue row.recipe.mult row.recipe.mult_frac row.recipe.div &&& 0xFF#32 =
        nonzero row.sharedDiv := hfields.2.2
    rw [hdiv]
    exact nonzero_ne_zero _
  · obtain ⟨hd, hf⟩ := divs_fit hfits hdiv
    exact GroupRun.low_field_ne_zero hd hf
  · exact absurd hreg hload

/-- The registers give back the row, as far as they were written: clock 0 where it is available, and
what the encodings keep, which a multiplier or divider of 0 is not. -/
theorem set_freq_readsBack :
    (∀ handle priv₀ t₀ priv group req_freq t ret,
      (aws_clkgen_mmcm_init handle priv₀).Runs t₀ (0, priv) →
      (aws_clkgen_set_freq group req_freq 0 priv).Runs t ret →
        (ret = 0 → (mmcm_clk_avail_any group priv).2 = true → ∃ row, IsChoice req_freq row ∧
          ReadsBack t (mmcm_get_shared_clock group priv)
            (row.sharedMult, row.sharedMultFrac, row.sharedDiv) ∧
          ((mmcm_clk_avail group 0 priv).2 = true →
            ReadsBack t (mmcm_get_clk_div group 0 priv) (row.div0, row.div0Frac))) ∧
        (∀ i < MAX_CLKS_IN_MMCM, (mmcm_clk_avail group i priv).2 = false →
          ∀ e ∈ t, ∀ handle' value, e.1 ≠ .poke handle' (clkReg group i) value) ∧
        ∀ e ∈ t, ∀ handle' offset value, e.1 = .poke handle' offset value →
          offset ≠ loadReg group → value &&& 0xFF#32 ≠ 0) ∧
    (∀ group mult mult_frac div priv t, mult < 256 → mult_frac < 1000 → div < 256 →
      (mmcm_set_shared_clock group mult mult_frac div priv).Runs t 0 →
        ReadsBack t (mmcm_get_shared_clock group priv) (nonzero mult, mult_frac, nonzero div)) ∧
    (∀ group i div div_frac priv t, div < 256 → div_frac < 1000 →
      (mmcm_set_clk_div group i div div_frac priv).Runs t 0 →
        ReadsBack t (mmcm_get_clk_div group i priv)
          (nonzero div, if (priv group).clk_div_has_frac.getD i false then div_frac else 0)) := by
  refine ⟨?_, ?_, ?_⟩
  · intro handle priv₀ t₀ priv group req_freq t ret hinit h
    obtain ⟨hret, rfl⟩ | ⟨i, hi, hchoice, hrun⟩ := set_freq_runs (init_layout hinit group) h
    · exact ⟨fun h0 => absurd h0 hret, by simp, by simp⟩
    have hfits := tableRow_fits hi
    refine ⟨fun h0 hany => ?_, ?_, ?_⟩
    · subst h0
      have hmain := hrun.main_written hany
      refine ⟨tableRow i, hchoice, ?_, fun havail => ?_⟩
      · rw [← hrun.layout.handle, mainReg, ← hrun.layout.base] at hmain
        have hread := get_shared_clock_readsBack hfits.mult.2 hfits.mult_frac hfits.div.2 hmain
        rwa [nonzero_of_ne hfits.mult.1, nonzero_of_ne hfits.div.1] at hread
      · have hclk := hrun.clk0_written hany havail
        have h0 : 0 < numClocks group := by cases group <;> decide
        have hfrac : (priv group).clk_div_has_frac.getD 0 false = true := hrun.layout.has_frac 0 h0
        rw [← hrun.layout.handle, clkReg, ← hrun.layout.base, ← hrun.layout.regs 0 h0, ← hfrac] at hclk
        have hread := get_clk_div_readsBack (avail_lt havail) hfits.div0_frac hfits.div0.2 hclk
        rwa [nonzero_of_ne hfits.div0.1, if_pos hfrac] at hread
    · exact fun i hi hno => hrun.unavailable_not_written hi hno
    · exact fun e he handle' offset value hop hload => hrun.dividers_ne_zero hfits he hop hload
  · intro group mult mult_frac div priv t hmult hfrac hdiv h
    rw [set_shared_clock_eq] at h
    obtain rfl := (Prog.runs_op _ _ _).mp h
    exact get_shared_clock_readsBack hmult hfrac hdiv (by simp [written, pciCode])
  · intro group i div div_frac priv t hdiv hfrac h
    have hi : i < (priv group).num_clocks := by
      by_contra hge
      unfold mmcm_set_clk_div at h
      dsimp only at h
      rw [if_pos (Nat.not_lt.mp hge)] at h
      exact absurd h.2 (by decide)
    rw [set_clk_div_eq hi] at h
    obtain rfl := (Prog.runs_op _ _ _).mp h
    exact get_clk_div_readsBack hi hfrac hdiv (by simp [written, pciCode])

/-- A locked device whose CLKS_AVAIL reads `clks_avail`. -/
def availDevice (clks_avail : BitVec 32) : Prog.Handler PciApi Unit
  | .peek _ offset, s =>
    ((0, if offset = AWS_CLKGEN_CLKS_AVAIL then clks_avail else MMCM_STATUS_LOCKED), s)
  | o, s => (o.quiet, s)

def initRun (clks_avail : BitVec 32) : Prog.Outcome PciApi Unit (Int × Private) :=
  (aws_clkgen_mmcm_init 0 Private.zero).exec (availDevice clks_avail) ()

/-- Group A is asked for 100 MHz. -/
def freqRun (clks_avail : BitVec 32) : Prog.Outcome PciApi Unit Int :=
  (aws_clkgen_set_freq clkgen_group_a 100 0 (initRun clks_avail).result.2).exec
    (availDevice clks_avail) ()

theorem initRun_runs (clks_avail : BitVec 32) (h : (initRun clks_avail).result.1 = 0) :
    (aws_clkgen_mmcm_init 0 Private.zero).Runs (initRun clks_avail).trace
      (0, (initRun clks_avail).result.2) := by
  rw [← h]
  exact Prog.exec_runs (availDevice clks_avail) _ ()

theorem freqRun_runs (clks_avail : BitVec 32) :
    (aws_clkgen_set_freq clkgen_group_a 100 0 (initRun clks_avail).result.2).Runs
      (freqRun clks_avail).trace (freqRun clks_avail).result :=
  Prog.exec_runs (availDevice clks_avail) _ ()

theorem set_freq_readsBack_freqRun :
    ∃ row, IsChoice 100 row ∧
      ReadsBack (freqRun 2).trace (mmcm_get_shared_clock clkgen_group_a (initRun 2).result.2)
        (row.sharedMult, row.sharedMultFrac, row.sharedDiv) ∧
      ((mmcm_clk_avail clkgen_group_a 0 (initRun 2).result.2).2 = true →
        ReadsBack (freqRun 2).trace (mmcm_get_clk_div clkgen_group_a 0 (initRun 2).result.2)
          (row.div0, row.div0Frac)) :=
  (set_freq_readsBack.1 0 Private.zero _ _ clkgen_group_a 100 _ _ (initRun_runs 2 (by decide))
    (freqRun_runs 2)).1 (by decide) (by decide)

theorem not_readsBack_of_none {t : List PciApi.Event} {group : ClkgenGroup} {i : Nat} {priv : Private}
    (h : written (priv group).handle
      ((priv group).mmcm_base_offset + (priv group).clk_cfg_regs.getD i 0) t = none)
    (a : BitVec 32 × BitVec 32) : ¬ReadsBack t (mmcm_get_clk_div group i priv) a := by
  rintro ⟨⟨t', hanswers, hrun⟩, -⟩
  unfold mmcm_get_clk_div at hrun
  dsimp only at hrun
  split at hrun
  case isTrue => exact absurd hrun.2 (by simp)
  case isFalse =>
    obtain ⟨rc, value, t'', rfl, -⟩ := (runs_peek _ _ _ _ _).mp hrun
    obtain ⟨value', hvalue, -⟩ := hanswers _ _ _ List.mem_cons_self
    rw [h] at hvalue
    cases hvalue

/-- A multiplier of 0 is read back as 1, and clock 0 is not written when only clock 1 is available. -/
theorem readsBack_fails :
    (∃ t, (mmcm_set_shared_clock clkgen_group_a 0 0 1 Private.zero).Runs t 0 ∧
      ¬ReadsBack t (mmcm_get_shared_clock clkgen_group_a Private.zero) (0, 0, 1)) ∧
    (freqRun 4).result = 0 ∧
      (mmcm_clk_avail_any clkgen_group_a (initRun 4).result.2).2 = true ∧
      ∀ row, ¬ReadsBack (freqRun 4).trace
        (mmcm_get_clk_div clkgen_group_a 0 (initRun 4).result.2) (row.div0, (row : FreqRow).div0Frac) := by
  refine ⟨?_, by decide, by decide, fun row => not_readsBack_of_none ?_ _⟩
  · have hwritten : written (Private.zero clkgen_group_a).handle
        ((Private.zero clkgen_group_a).mmcm_base_offset + MMCM_MAIN_CFG_REG)
        [⟨.poke 0 MMCM_MAIN_CFG_REG (mainCfgValue 0 0 1), (0 : Int)⟩] = some (mainCfgValue 0 0 1) := by
      decide
    have hread := get_shared_clock_readsBack (by decide) (by decide) (by decide) hwritten
    refine ⟨_, (Prog.runs_op _ _ _).mpr rfl, fun hclaim => ?_⟩
    obtain ⟨t', hanswers, hrun⟩ := hclaim.1
    exact absurd (hread.2 t' _ hanswers hrun) (by decide)
  · decide

end AwsFpga.Clkgen
