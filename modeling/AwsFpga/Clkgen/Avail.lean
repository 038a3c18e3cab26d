import AwsFpga.Clkgen.Mmcm

/-!
# Which clock groups are reported available

`any_clocks_available` is set by an init and cleared by nothing, so it remembers
every device of the process.
-/

open Lib AwsFpga.Pci

namespace AwsFpga.Clkgen

open ClkgenGroup

/-! ## What one value of CLKS_AVAIL says -/

def availBitStart : ClkgenGroup → Nat
  | clkgen_group_a => 1
  | clkgen_group_b => 4
  | clkgen_group_c => 6
  | clkgen_group_hbm => 8

def numClocks : ClkgenGroup → Nat
  | clkgen_group_a => 3
  | clkgen_group_b => 2
  | clkgen_group_c => 2
  | clkgen_group_hbm => 1

def lockBit : ClkgenGroup → Nat
  | clkgen_group_a => 0
  | clkgen_group_b => 4
  | clkgen_group_c => 6
  | clkgen_group_hbm => 8

/-- One of the bits of the group is set in the register. -/
def GroupAvail (group : ClkgenGroup) (clks_avail : BitVec 32) : Prop :=
  ∃ i < numClocks group, clks_avail.getLsbD (availBitStart group + i)

instance (group : ClkgenGroup) (v : BitVec 32) : Decidable (GroupAvail group v) :=
  inferInstanceAs (Decidable (∃ i < numClocks group, v.getLsbD (availBitStart group + i)))

/-- The lock bits of the groups that `avail` holds of. -/
def lockMask (avail : ClkgenGroup → Prop) [DecidablePred avail] : BitVec 32 :=
  groups.foldl (fun lock_mask group =>
    lock_mask ||| if avail group then 1#32 <<< lockBit group else 0) 0

theorem mmcm_init_group_eq (group : ClkgenGroup) (mmcm : FpgaClkgenMmcm) :
    (mmcm_init_group group mmcm).avail_bit_start = availBitStart group ∧
    (mmcm_init_group group mmcm).num_clocks = numClocks group ∧
    (mmcm_init_group group mmcm).lock_bit = lockBit group ∧
    (mmcm_init_group group mmcm).any_clocks_available = mmcm.any_clocks_available := by
  cases group <;> exact ⟨rfl, rfl, rfl, rfl⟩

/-! ## The loop of `mmcm_init` -/

theorem clock_avail_iff (v : BitVec 32) (start i : Nat) (h : start + i < 32) :
    (v >>> start) &&& (1#32 <<< i) ≠ 0 ↔ v.getLsbD (start + i) := by
  constructor
  · intro hne
    by_contra hbit
    apply hne
    ext j hj
    simp only [BitVec.getElem_and, BitVec.getElem_ushiftRight, BitVec.getElem_shiftLeft,
      BitVec.getElem_one]
    by_cases hji : j = i
    · subst hji
      simp [hbit]
    · have : ¬ (j - i = 0 ∧ ¬ j < i) := by omega
      grind
  · intro hbit h0
    have hb : ((v >>> start) &&& (1#32 <<< i)).getLsbD i = false := by rw [h0]; simp
    have hi : i < 32 := by omega
    simp [hi, hbit] at hb

/-- What the loop leaves after `n` clocks. -/
structure InitClocksInv (shifted : BitVec 32) (before after : FpgaClkgenMmcm) (n : Nat) : Prop where
  lock_bit : after.lock_bit = before.lock_bit
  any : after.any_clocks_available ≠ 0 ↔
    before.any_clocks_available ≠ 0 ∨ ∃ i < n, shifted &&& (1#32 <<< i) ≠ 0

theorem init_clocks_inv (shifted : BitVec 32) (mmcm : FpgaClkgenMmcm) (n : Nat) :
    InitClocksInv shifted mmcm
      ((List.range n).foldl (mmcm_init_clock shifted) mmcm) n := by
  induction n with
  | zero => exact ⟨rfl, by simp⟩
  | succ n ih =>
    rw [List.range_succ, List.foldl_append]
    generalize (List.range n).foldl (mmcm_init_clock shifted) mmcm = m at ih ⊢
    refine ⟨ih.lock_bit, ?_⟩
    simp only [List.foldl_cons, List.foldl_nil, mmcm_init_clock, Nat.lt_succ_iff_lt_or_eq]
    by_cases hn : shifted &&& (1#32 <<< n) = 0
    · simp only [hn, ne_eq, not_true_eq_false, if_false]
      rw [← ne_eq, ih.any]
      grind
    · simp only [hn, ne_eq, not_false_eq_true, if_true]
      grind

/-! ## One `mmcm_init` -/

/-- The record of `group` after an init that read `clks_avail`. -/
structure InitGroup (group : ClkgenGroup) (clks_avail : BitVec 32) (priv priv' : Private) :
    Prop where
  lock_bit : (priv' group).lock_bit = lockBit group
  any : (priv' group).any_clocks_available ≠ 0 ↔
    (priv group).any_clocks_available ≠ 0 ∨ GroupAvail group clks_avail
  others : ∀ g, g ≠ group → priv' g = priv g

theorem mmcm_init_clocks_spec (group : ClkgenGroup) (handle : Int) (clks_avail : BitVec 32)
    (priv : Private) :
    let mmcm := mmcm_init_group group { priv group with handle := handle }
    InitGroup group clks_avail priv (Function.update priv group
      (mmcm_init_clocks (clks_avail >>> mmcm.avail_bit_start) mmcm)) := by
  intro mmcm
  obtain ⟨hstart, hnum, hlock, hany⟩ := mmcm_init_group_eq group { priv group with handle := handle }
  have inv := init_clocks_inv (clks_avail >>> mmcm.avail_bit_start) mmcm mmcm.num_clocks
  refine ⟨?_, ?_, fun g hg => Function.update_of_ne hg _ _⟩
  · rw [Function.update_self]
    exact inv.lock_bit.trans hlock
  · rw [Function.update_self, mmcm_init_clocks, inv.any, hany, hstart, hnum]
    refine or_congr Iff.rfl (exists_congr fun i => and_congr_right fun hi => ?_)
    exact clock_avail_iff _ _ _ (by cases group <;> simp [numClocks, availBitStart] at hi ⊢ <;> omega)

theorem mmcm_init_runs (group : ClkgenGroup) (handle : Int) (priv : Private) (rc : Int)
    (priv' : Private) (t : List PciApi.Event)
    (h : (mmcm_init group handle priv).Runs t (rc, priv')) :
    ∃ clks_avail, t = [⟨.peek handle AWS_CLKGEN_CLKS_AVAIL, (rc, clks_avail)⟩] ∧
      (rc = 0 → InitGroup group clks_avail priv priv') ∧
      (rc ≠ 0 → ∀ g, (priv' g).any_clocks_available = (priv g).any_clocks_available) := by
  unfold mmcm_init at h
  rw [runs_peek] at h
  obtain ⟨rc', clks_avail, t', rfl, h⟩ := h
  dsimp only at h
  split at h
  case isTrue hrc =>
    obtain ⟨rfl, h⟩ := h
    obtain ⟨rfl, rfl⟩ := Prod.mk.inj h
    refine ⟨clks_avail, rfl, fun h0 => absurd h0 hrc, fun _ g => ?_⟩
    by_cases hg : g = group
    · subst hg
      rw [Function.update_self]
      exact (mmcm_init_group_eq g _).2.2.2
    · rw [Function.update_of_ne hg]
  case isFalse hrc =>
    obtain ⟨rfl, h⟩ := h
    obtain ⟨rfl, rfl⟩ := Prod.mk.inj h
    have h0 : rc' = 0 := not_not.mp hrc
    subst h0
    exact ⟨clks_avail, rfl, fun _ => mmcm_init_clocks_spec group handle clks_avail priv,
      fun h => absurd rfl h⟩

/-! ## Histories -/

/-- The calls of `fpga_clkgen_mmcm.h`. -/
inductive MmcmCall where
  | mmcm_init (group : ClkgenGroup) (handle : Int)
  | mmcm_clk_avail_any (group : ClkgenGroup)
  | mmcm_clk_avail (group : ClkgenGroup) (clk_index : Nat)
  | mmcm_is_locked (group : ClkgenGroup)
  | mmcm_wait_for_locked (group : ClkgenGroup)
  | mmcm_set_shared_clock (group : ClkgenGroup) (mult mult_frac div : BitVec 32)
  | mmcm_get_shared_clock (group : ClkgenGroup)
  | mmcm_set_clk_div (group : ClkgenGroup) (clk_index : Nat) (div div_frac : BitVec 32)
  | mmcm_get_clk_div (group : ClkgenGroup) (clk_index : Nat)
  | mmcm_load_cfg (group : ClkgenGroup) (reset : Bool)
  | mmcm_get_expected_lock_mask

/-- What a call leaves in the record. Only an init writes to it. -/
def MmcmCall.run (priv : Private) : MmcmCall → Prog PciApi Private
  | .mmcm_init group handle => Prod.snd <$> Clkgen.mmcm_init group handle priv
  | .mmcm_clk_avail_any _ | .mmcm_clk_avail .. | .mmcm_get_expected_lock_mask => pure priv
  | .mmcm_is_locked group => (fun _ => priv) <$> Clkgen.mmcm_is_locked group priv
  | .mmcm_wait_for_locked group => (fun _ => priv) <$> Clkgen.mmcm_wait_for_locked group priv
  | .mmcm_set_shared_clock group mult mult_frac div =>
    (fun _ => priv) <$> Clkgen.mmcm_set_shared_clock group mult mult_frac div priv
  | .mmcm_get_shared_clock group => (fun _ => priv) <$> Clkgen.mmcm_get_shared_clock group priv
  | .mmcm_set_clk_div group clk_index div div_frac =>
    (fun _ => priv) <$> Clkgen.mmcm_set_clk_div group clk_index div div_frac priv
  | .mmcm_get_clk_div group clk_index =>
    (fun _ => priv) <$> Clkgen.mmcm_get_clk_div group clk_index priv
  | .mmcm_load_cfg group reset => (fun _ => priv) <$> Clkgen.mmcm_load_cfg group reset priv

/-- The calls of a process so far, the last one first, each with what it did on the bus. -/
inductive History : List (MmcmCall × List PciApi.Event) → Private → Prop where
  | start : History [] Private.zero
  | call {hist priv t priv'} (c : MmcmCall) (prev : History hist priv)
      (run : (c.run priv).Runs t priv') : History ((c, t) :: hist) priv'

/-- A call of the history was an init that found a clock of `group`. -/
def FoundAvail (hist : List (MmcmCall × List PciApi.Event)) (group : ClkgenGroup) : Prop :=
  ∃ handle clks_avail, GroupAvail group clks_avail ∧
    (.mmcm_init group handle, [⟨.peek handle AWS_CLKGEN_CLKS_AVAIL, (0, clks_avail)⟩]) ∈ hist

theorem foundAvail_cons (c : MmcmCall) (t : List PciApi.Event)
    (hist : List (MmcmCall × List PciApi.Event)) (group : ClkgenGroup) :
    FoundAvail ((c, t) :: hist) group ↔ FoundAvail hist group ∨
      ∃ handle clks_avail, GroupAvail group clks_avail ∧ c = .mmcm_init group handle ∧
        t = [⟨.peek handle AWS_CLKGEN_CLKS_AVAIL, (0, clks_avail)⟩] := by
  simp only [FoundAvail, List.mem_cons, Prod.mk.injEq]
  constructor
  · rintro ⟨handle, v, hv, ⟨rfl, rfl⟩ | hmem⟩
    · exact Or.inr ⟨handle, v, hv, rfl, rfl⟩
    · exact Or.inl ⟨handle, v, hv, hmem⟩
  · rintro (⟨handle, v, hv, hmem⟩ | ⟨handle, v, hv, rfl, rfl⟩)
    · exact ⟨handle, v, hv, Or.inr hmem⟩
    · exact ⟨handle, v, hv, Or.inl ⟨rfl, rfl⟩⟩

theorem map_runs_const {α : Type} (p : Prog PciApi α) (priv priv' : Private)
    (t : List PciApi.Event) (h : ((fun _ => priv) <$> p).Runs t priv') : priv' = priv := by
  rw [map_eq_pure_bind, Prog.runs_bind] at h
  obtain ⟨_, _, _, rfl, -, rfl, rfl⟩ := h
  rfl

theorem run_of_not_init (c : MmcmCall) (hc : ∀ group handle, c ≠ .mmcm_init group handle)
    (priv priv' : Private) (t : List PciApi.Event) (h : (c.run priv).Runs t priv') :
    priv' = priv := by
  cases c with
  | mmcm_init group handle => exact absurd rfl (hc group handle)
  | mmcm_clk_avail_any _ | mmcm_clk_avail _ _ | mmcm_get_expected_lock_mask => exact h.2
  | mmcm_is_locked _ | mmcm_wait_for_locked _ | mmcm_set_shared_clock _ _ _ _
  | mmcm_get_shared_clock _ | mmcm_set_clk_div _ _ _ _ | mmcm_get_clk_div _ _
  | mmcm_load_cfg _ _ => exact map_runs_const _ _ _ _ h

theorem run_mmcm_init (group : ClkgenGroup) (handle : Int) (priv priv' : Private)
    (t : List PciApi.Event) (h : ((MmcmCall.mmcm_init group handle).run priv).Runs t priv') :
    ∃ rc, (mmcm_init group handle priv).Runs t (rc, priv') := by
  simp only [MmcmCall.run, map_eq_pure_bind, Prog.runs_bind] at h
  obtain ⟨t₁, ⟨rc, p⟩, t₂, rfl, h, rfl, rfl⟩ := h
  exact ⟨rc, by simpa using h⟩

/-- The flag is the memory of the whole process. -/
theorem any_clocks_available_iff (hist : List (MmcmCall × List PciApi.Event)) (priv : Private)
    (h : History hist priv) (group : ClkgenGroup) :
    (priv group).any_clocks_available ≠ 0 ↔ FoundAvail hist group := by
  induction h with
  | start => simp [Private.zero, FoundAvail]
  | @call hist priv t priv' c prev run ih =>
    rw [foundAvail_cons, ← ih]
    by_cases hc : ∃ g handle, c = .mmcm_init g handle
    · obtain ⟨g, handle, rfl⟩ := hc
      obtain ⟨rc, hrun⟩ := run_mmcm_init g handle priv priv' t run
      obtain ⟨v, rfl, hok, hfail⟩ := mmcm_init_runs g handle priv rc priv' t hrun
      by_cases hrc : rc = 0
      · subst hrc
        by_cases hg : group = g
        · subst hg
          rw [(hok rfl).any]
          refine or_congr Iff.rfl ⟨fun hv => ⟨handle, v, hv, rfl, rfl⟩, ?_⟩
          rintro ⟨handle', v', hv', -, ht⟩
          obtain rfl : v = v' := by cases ht; rfl
          exact hv'
        · rw [(hok rfl).others group hg]
          constructor
          · exact Or.inl
          · rintro (hv | ⟨_, _, _, hc, _⟩)
            · exact hv
            · cases hc
              exact absurd rfl hg
      · rw [hfail hrc group]
        constructor
        · exact Or.inl
        · rintro (hv | ⟨_, _, _, _, ht⟩)
          · exact hv
          · cases ht
            exact absurd rfl hrc
    · rw [run_of_not_init c (fun g handle hc' => hc ⟨g, handle, hc'⟩) priv priv' t run]
      constructor
      · exact Or.inl
      · rintro (hv | ⟨handle, _, _, hc', _⟩)
        · exact hv
        · exact absurd ⟨group, handle, hc'⟩ hc

/-! ## All four groups -/

/-- The four reads of an initialisation, one per group. -/
def initReads (handle : Int) (clks_avail : ClkgenGroup → BitVec 32) : List PciApi.Event :=
  groups.map fun group => ⟨.peek handle AWS_CLKGEN_CLKS_AVAIL, (0, clks_avail group)⟩

/-- What is reported after an initialisation depends on its own reads alone. -/
def AvailFromInit (clks_avail : ClkgenGroup → BitVec 32) (priv : Private) : Prop :=
  (∀ group, mmcm_clk_avail_any group priv = (0, decide (GroupAvail group (clks_avail group)))) ∧
  mmcm_get_expected_lock_mask priv = (0, lockMask fun group => GroupAvail group (clks_avail group))

theorem aws_clkgen_mmcm_init_runs (handle : Int) (priv priv' : Private) (t : List PciApi.Event)
    (h : (aws_clkgen_mmcm_init handle priv).Runs t (0, priv')) :
    ∃ clks_avail, t = initReads handle clks_avail ∧ ∀ group,
      (priv' group).lock_bit = lockBit group ∧
      ((priv' group).any_clocks_available ≠ 0 ↔
        (priv group).any_clocks_available ≠ 0 ∨ GroupAvail group (clks_avail group)) := by
  simp only [aws_clkgen_mmcm_init, Prog.runs_failOn_zero] at h
  obtain ⟨_, pa, _, rfl, ha, _, pb, _, rfl, hb, _, pc, _, rfl, hc, h⟩ := h
  obtain ⟨va, rfl, hoka, -⟩ := mmcm_init_runs _ _ _ _ _ _ ha
  obtain ⟨vb, rfl, hokb, -⟩ := mmcm_init_runs _ _ _ _ _ _ hb
  obtain ⟨vc, rfl, hokc, -⟩ := mmcm_init_runs _ _ _ _ _ _ hc
  obtain ⟨vh, rfl, hokh, -⟩ := mmcm_init_runs _ _ _ _ _ _ h
  have a := hoka rfl
  have b := hokb rfl
  have c := hokc rfl
  have d := hokh rfl
  let clks_avail : ClkgenGroup → BitVec 32
    | clkgen_group_a => va
    | clkgen_group_b => vb
    | clkgen_group_c => vc
    | clkgen_group_hbm => vh
  refine ⟨clks_avail, rfl, fun group => ?_⟩
  -- The init of a group is the only one of the four that touches its record.
  cases group with
  | clkgen_group_a =>
    rw [d.others _ (by decide), c.others _ (by decide), b.others _ (by decide)]
    exact ⟨a.lock_bit, a.any⟩
  | clkgen_group_b =>
    rw [d.others _ (by decide), c.others _ (by decide), ← a.others _ (by decide)]
    exact ⟨b.lock_bit, b.any⟩
  | clkgen_group_c =>
    rw [d.others _ (by decide), ← a.others _ (by decide), ← b.others _ (by decide)]
    exact ⟨c.lock_bit, c.any⟩
  | clkgen_group_hbm =>
    rw [← a.others _ (by decide), ← b.others _ (by decide), ← c.others _ (by decide)]
    exact ⟨d.lock_bit, d.any⟩

theorem lock_mask_eq (priv : Private) (avail : ClkgenGroup → Prop) [DecidablePred avail]
    (hlock : ∀ group, (priv group).lock_bit = lockBit group)
    (hany : ∀ group, (priv group).any_clocks_available ≠ 0 ↔ avail group) :
    mmcm_get_expected_lock_mask priv = (0, lockMask avail) := by
  simp only [mmcm_get_expected_lock_mask, lockMask, hlock, hany]

/-- After an initialisation the report is that of its own reads, except for the groups that
an earlier device had and this one lacks. -/
theorem aws_clkgen_mmcm_init_avail_iff (hist : List (MmcmCall × List PciApi.Event))
    (priv : Private) (hhist : History hist priv) (handle : Int) (t : List PciApi.Event)
    (priv' : Private) (hrun : (aws_clkgen_mmcm_init handle priv).Runs t (0, priv')) :
    ∃ clks_avail, t = initReads handle clks_avail ∧
      (AvailFromInit clks_avail priv' ↔
        ∀ group, FoundAvail hist group → GroupAvail group (clks_avail group)) := by
  obtain ⟨clks_avail, rfl, hgroup⟩ := aws_clkgen_mmcm_init_runs handle priv priv' t hrun
  refine ⟨clks_avail, rfl, ?_⟩
  have hany : ∀ group, (priv' group).any_clocks_available ≠ 0 ↔
      FoundAvail hist group ∨ GroupAvail group (clks_avail group) := by
    intro group
    rw [(hgroup group).2, any_clocks_available_iff hist priv hhist]
  constructor
  · rintro ⟨havail, -⟩ group hfound
    have h := congrArg Prod.snd (havail group)
    simp only [mmcm_clk_avail_any, decide_eq_decide] at h
    exact h.mp ((hany group).mpr (Or.inl hfound))
  · intro hcond
    have hiff : ∀ group, (priv' group).any_clocks_available ≠ 0 ↔
        GroupAvail group (clks_avail group) := fun group =>
      (hany group).trans ⟨fun h => h.elim (hcond group) id, Or.inr⟩
    refine ⟨fun group => ?_, lock_mask_eq priv' _ (fun group => (hgroup group).1) hiff⟩
    simp only [mmcm_clk_avail_any, decide_eq_decide.mpr (hiff group)]

/-! ## Two devices -/

/-- A bus whose CLKS_AVAIL registers all hold one value. -/
def clksAvailBus (clks_avail : BitVec 32) : Prog.Handler PciApi Unit := fun o _ =>
  match o with
  | .peek .. => ((0, clks_avail), ())
  | o => (o.quiet, ())

/-- The process initialises group A of a device that has it. -/
def firstDevice : Prog.Outcome PciApi Unit Private :=
  ((MmcmCall.mmcm_init clkgen_group_a 1).run Private.zero).exec (clksAvailBus 2) ()

/-- Then it initialises a device without any clock. -/
def secondDevice : Prog.Outcome PciApi Unit (Int × Private) :=
  (aws_clkgen_mmcm_init 2 firstDevice.result).exec (clksAvailBus 0) ()

theorem first_device_history :
    History [(.mmcm_init clkgen_group_a 1, firstDevice.trace)] firstDevice.result :=
  .call _ .start (Prog.exec_runs _ _ _)

theorem second_device_runs :
    (aws_clkgen_mmcm_init 2 firstDevice.result).Runs secondDevice.trace
      (0, secondDevice.result.2) :=
  Prog.exec_runs (clksAvailBus 0) _ ()

theorem second_device_avail_iff :
    ∃ clks_avail, secondDevice.trace = initReads 2 clks_avail ∧
      (AvailFromInit clks_avail secondDevice.result.2 ↔
        ∀ group, FoundAvail [(.mmcm_init clkgen_group_a 1, firstDevice.trace)] group →
          GroupAvail group (clks_avail group)) :=
  aws_clkgen_mmcm_init_avail_iff _ _ first_device_history 2 _ _ second_device_runs

/-- Group A is still reported, though every read of the second device was 0. -/
theorem second_device_stale :
    ¬ ∀ hist priv, History hist priv → ∀ handle t priv',
      (aws_clkgen_mmcm_init handle priv).Runs t (0, priv') →
      ∃ clks_avail, t = initReads handle clks_avail ∧ AvailFromInit clks_avail priv' := by
  intro h
  obtain ⟨clks_avail, ht, havail, -⟩ := h _ _ first_device_history 2 _ _ second_device_runs
  have ha : clks_avail clkgen_group_a = 0 := by
    injection ht with hread
    injection hread with _ hval
    exact (congrArg Prod.snd hval).symm
  have hg := havail clkgen_group_a
  rw [ha] at hg
  exact absurd hg (by decide)

end AwsFpga.Clkgen
