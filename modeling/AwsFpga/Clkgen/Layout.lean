import AwsFpga.Clkgen.Avail

/-!
# The registers an init leaves behind

After an init every group stands for its own registers of one device.
-/

open Lib AwsFpga.Pci

namespace AwsFpga.Clkgen

open ClkgenGroup

def baseOffset : ClkgenGroup → BitVec 64
  | clkgen_group_a => AWS_CLKGEN_BASE_A
  | clkgen_group_b => AWS_CLKGEN_BASE_B
  | clkgen_group_c => AWS_CLKGEN_BASE_C
  | clkgen_group_hbm => AWS_CLKGEN_BASE_HBM

/-- The record of `group` is about the device `handle`. -/
structure Layout (handle : Int) (group : ClkgenGroup) (mmcm : FpgaClkgenMmcm) : Prop where
  base : mmcm.mmcm_base_offset = baseOffset group
  handle : mmcm.handle = handle
  num_clocks : mmcm.num_clocks = numClocks group
  regs : ∀ i < numClocks group, mmcm.clk_cfg_regs.getD i 0 = clk_cfg_regs.getD i 0
  has_frac : ∀ i < numClocks group, mmcm.clk_div_has_frac.getD i false = clk_div_has_frac.getD i false

theorem getD_setIfInBounds {α : Type} {n : Nat} (xs : Vector α n) (v d : α) {i j : Nat} (hj : j < n) :
    (xs.setIfInBounds i v).getD j d = if i = j then v else xs.getD j d := by
  simp only [Vector.getD, Array.getD_eq_getD_getElem?, Vector.toArray_setIfInBounds,
    Array.getElem?_setIfInBounds]
  by_cases hij : i = j
  · simp [hij, hj]
  · simp [hij]

/-- What the loop has set after `n` clocks. -/
structure ClocksSet (before after : FpgaClkgenMmcm) (n : Nat) : Prop where
  base : after.mmcm_base_offset = before.mmcm_base_offset
  handle : after.handle = before.handle
  num_clocks : after.num_clocks = before.num_clocks
  regs : ∀ i < n, after.clk_cfg_regs.getD i 0 = clk_cfg_regs.getD i 0
  has_frac : ∀ i < n, after.clk_div_has_frac.getD i false = clk_div_has_frac.getD i false

theorem init_clocks_set (shifted : BitVec 32) (mmcm : FpgaClkgenMmcm) {n : Nat}
    (hn : n ≤ MAX_CLKS_IN_MMCM) :
    ClocksSet mmcm ((List.range n).foldl (mmcm_init_clock shifted) mmcm) n := by
  induction n with
  | zero => exact ⟨rfl, rfl, rfl, by simp, by simp⟩
  | succ n ih =>
    have ih := ih (by omega)
    rw [List.range_succ, List.foldl_append]
    generalize (List.range n).foldl (mmcm_init_clock shifted) mmcm = m at ih ⊢
    simp only [List.foldl_cons, List.foldl_nil, mmcm_init_clock]
    refine ⟨ih.base, ih.handle, ih.num_clocks, fun i hi => ?_, fun i hi => ?_⟩
    · rw [getD_setIfInBounds _ _ _ (by omega)]
      split
      case isTrue heq => rw [heq]
      case isFalse hne => exact ih.regs i (by omega)
    · rw [getD_setIfInBounds _ _ _ (by omega)]
      split
      case isTrue heq => rw [heq]
      case isFalse hne => exact ih.has_frac i (by omega)

theorem mmcm_init_group_base (group : ClkgenGroup) (mmcm : FpgaClkgenMmcm) :
    (mmcm_init_group group mmcm).mmcm_base_offset = baseOffset group ∧
      (mmcm_init_group group mmcm).handle = mmcm.handle := by
  cases group <;> exact ⟨rfl, rfl⟩

theorem numClocks_le (group : ClkgenGroup) : numClocks group ≤ MAX_CLKS_IN_MMCM := by
  cases group <;> decide

theorem mmcm_init_clocks_layout (group : ClkgenGroup) (handle : Int) (clks_avail_shifted : BitVec 32)
    (mmcm : FpgaClkgenMmcm) :
    Layout handle group (mmcm_init_clocks clks_avail_shifted
      (mmcm_init_group group { mmcm with handle := handle })) := by
  obtain ⟨hbase, hhandle⟩ := mmcm_init_group_base group { mmcm with handle := handle }
  obtain ⟨-, hnum, -⟩ := mmcm_init_group_eq group { mmcm with handle := handle }
  unfold mmcm_init_clocks
  rw [hnum]
  have hset := init_clocks_set clks_avail_shifted
    (mmcm_init_group group { mmcm with handle := handle }) (numClocks_le group)
  exact ⟨hset.base.trans hbase, hset.handle.trans hhandle, hset.num_clocks.trans hnum, hset.regs,
    hset.has_frac⟩

theorem mmcm_init_layout {group : ClkgenGroup} {handle : Int} {priv priv' : Private}
    {t : List PciApi.Event} (h : (mmcm_init group handle priv).Runs t (0, priv')) :
    Layout handle group (priv' group) ∧ ∀ g, g ≠ group → priv' g = priv g := by
  unfold mmcm_init at h
  rw [runs_peek] at h
  obtain ⟨rc, clks_avail, t', rfl, h⟩ := h
  dsimp only at h
  split at h
  case isTrue hrc => exact absurd (Prod.mk.inj h.2).1.symm hrc
  case isFalse =>
    obtain ⟨rfl, h⟩ := h
    obtain ⟨-, rfl⟩ := Prod.mk.inj h
    constructor
    · rw [Function.update_self]
      exact mmcm_init_clocks_layout group handle _ _
    · intro g hg
      exact Function.update_of_ne hg _ _

theorem init_layout {handle : Int} {priv priv' : Private} {t : List PciApi.Event}
    (h : (aws_clkgen_mmcm_init handle priv).Runs t (0, priv')) (group : ClkgenGroup) :
    Layout handle group (priv' group) := by
  simp only [aws_clkgen_mmcm_init, Prog.runs_failOn_zero] at h
  obtain ⟨_, pa, _, rfl, ha, _, pb, _, rfl, hb, _, pc, _, rfl, hc, hd⟩ := h
  obtain ⟨a, -⟩ := mmcm_init_layout ha
  obtain ⟨b, b_others⟩ := mmcm_init_layout hb
  obtain ⟨c, c_others⟩ := mmcm_init_layout hc
  obtain ⟨d, d_others⟩ := mmcm_init_layout hd
  cases group with
  | clkgen_group_a =>
    rw [d_others _ (by decide), c_others _ (by decide), b_others _ (by decide)]
    exact a
  | clkgen_group_b =>
    rw [d_others _ (by decide), c_others _ (by decide)]
    exact b
  | clkgen_group_c =>
    rw [d_others _ (by decide)]
    exact c
  | clkgen_group_hbm => exact d

end AwsFpga.Clkgen
