import Mathlib.Data.Multiset.AddSub
import Mathlib.Logic.Relation
import AwsFpga.Pci.Bars

/-!
# Attach and detach, over every run

Whatever the system calls answer, an attach either stops before `mmap`
succeeded, or it holds a new mapping for which it looks for an entry. The second
half goes wrong when the table is full, and when the mapping is one that
`fpga_pci_bar_set_mem_base_size` refuses.
-/

open Lib AwsFpga.Pci

namespace AwsFpga.Bars

/-! ## Mappings -/

structure Mapping where
  mem_base : BitVec 64
  mem_size : BitVec 64
  deriving DecidableEq

/-- What `mmap` made, going by its answer. -/
def made (length mem_base : BitVec 64) : Option Mapping :=
  if mem_base = MAP_FAILED then none else some ⟨mem_base, length⟩

/-- What `munmap` leaves, going by its answer. -/
def kept (maps : Multiset Mapping) (map : Mapping) (ret : Int) : Multiset Mapping :=
  if ret = 0 then maps.erase map else maps

def mapStep (maps : Multiset Mapping) : OsApi.Event → Multiset Mapping
  | ⟨.mmap length _, mem_base⟩ => (made length mem_base).elim maps (· ::ₘ maps)
  | ⟨.munmap mem_base length, ret⟩ => kept maps ⟨mem_base, length⟩ ret
  | _ => maps

def liveMappings (maps : Multiset Mapping) (t : List OsApi.Event) : Multiset Mapping :=
  t.foldl mapStep maps

/-- The mapping that a call made, if it made one. -/
def newMapping (t : List OsApi.Event) : Option Mapping :=
  t.findSome? fun
    | ⟨.mmap length _, mem_base⟩ => made length mem_base
    | _ => none

/-- No mapping is made or taken away. -/
def Quiet (t : List OsApi.Event) : Prop :=
  ∀ e ∈ t, match e with
    | ⟨.mmap length _, mem_base⟩ => made length mem_base = none
    | ⟨.munmap .., _⟩ => False
    | _ => True

theorem quiet_nil : Quiet [] := by
  intro e he
  cases he

theorem quiet_append {t₁ t₂ : List OsApi.Event} (h₁ : Quiet t₁) (h₂ : Quiet t₂) :
    Quiet (t₁ ++ t₂) := by
  intro e he
  rcases List.mem_append.mp he with he | he
  · exact h₁ e he
  · exact h₂ e he

theorem liveMappings_append (maps : Multiset Mapping) (t₁ t₂ : List OsApi.Event) :
    liveMappings maps (t₁ ++ t₂) = liveMappings (liveMappings maps t₁) t₂ :=
  List.foldl_append

theorem liveMappings_quiet {t : List OsApi.Event} (h : Quiet t) (maps : Multiset Mapping) :
    liveMappings maps t = maps := by
  induction t generalizing maps with
  | nil => rfl
  | cons e t ih =>
    have htail : Quiet t := fun e' he' => h e' (List.mem_cons_of_mem _ he')
    have hhead : mapStep maps e = maps := by
      have he := h e List.mem_cons_self
      unfold mapStep
      split
      · rw [he, Option.elim_none]
      · exact he.elim
      · rfl
    change liveMappings (mapStep maps e) t = maps
    rw [hhead, ih htail]

theorem newMapping_quiet {t : List OsApi.Event} (h : Quiet t) : newMapping t = none := by
  unfold newMapping
  rw [List.findSome?_eq_none_iff]
  intro e he
  have he := h e he
  split
  · exact he
  · rfl

theorem newMapping_append_quiet {t₁ t₂ : List OsApi.Event} (h : Quiet t₁) :
    newMapping (t₁ ++ t₂) = newMapping t₂ := by
  have h₁ := newMapping_quiet h
  unfold newMapping at h₁ ⊢
  rw [List.findSome?_append, h₁, Option.none_or]

/-! ## The table -/

theorem first_free_eq_none_iff (bars : BarTable) :
    first_free bars = none ↔ ∀ i, (bars i).allocated = true := by
  unfold first_free
  simp [List.find?_eq_none]

theorem first_free_not_allocated {bars : BarTable} {i : Fin FPGA_PCI_BARS_MAX}
    (h : first_free bars = some i) : (bars i).allocated = false := by
  have := List.find?_some h
  simpa using this

/-! ## How an attach ends -/

/-- The label `err_unmap`: its calls and its code. -/
inductive Unmapped (mem_base length : BitVec 64) (code : Int) : List OsApi.Event → Int → Prop where
  | unmapped (hbase : mem_base ≠ 0) (ret : Int) :
    Unmapped mem_base length code [⟨.munmap mem_base length, ret⟩] ret
  | skipped (hbase : mem_base = 0) : Unmapped mem_base length code [] code

/-- The calls of an attach that got as far as a mapping. -/
def mappedCalls (pre : List OsApi.Event) (fd closed : Int) (map : Mapping) : List OsApi.Event :=
  pre ++ [⟨.mmap map.mem_size fd, map.mem_base⟩, ⟨.close fd, closed⟩]

inductive Attached (bars : BarTable) : List OsApi.Event → Int → Int → BarTable → Prop where
  | refused {t ret handle} (hret : ret ≠ 0) (ht : Quiet t) : Attached bars t ret handle bars
  | full {pre fd closed map tail ret} (hpre : Quiet pre) (hmap : map.mem_base ≠ MAP_FAILED)
    (hfree : first_free bars = none) (htail : Unmapped map.mem_base map.mem_size (-ENOMEM) tail ret) :
    Attached bars (mappedCalls pre fd closed map ++ tail) ret PCI_BAR_HANDLE_INIT bars
  | unset {pre fd closed map tail ret i} (hpre : Quiet pre) (hmap : map.mem_base ≠ MAP_FAILED)
    (hfree : first_free bars = some i) (hbad : map.mem_base = 0 ∨ map.mem_size = 0)
    (htail : Unmapped map.mem_base map.mem_size (-EINVAL) tail ret) :
    Attached bars (mappedCalls pre fd closed map ++ tail) ret PCI_BAR_HANDLE_INIT
      (Function.update bars i { bars i with allocated := true })
  | attached {pre fd closed map i} (hpre : Quiet pre) (hmap : map.mem_base ≠ MAP_FAILED)
    (hfree : first_free bars = some i) (hbase : map.mem_base ≠ 0) (hsize : map.mem_size ≠ 0) :
    Attached bars (mappedCalls pre fd closed map) 0 i.val
      (Function.update bars i ⟨true, map.mem_base, map.mem_size⟩)

variable {bars bars' : BarTable} {t : List OsApi.Event} {ret handle : Int}

theorem append_mappedCalls (pre pre' : List OsApi.Event) (fd closed : Int) (map : Mapping) :
    pre ++ mappedCalls pre' fd closed map = mappedCalls (pre ++ pre') fd closed map := by
  simp only [mappedCalls, List.append_assoc]

theorem attached_prepend {pre : List OsApi.Event} (hpre : Quiet pre)
    (h : Attached bars t ret handle bars') : Attached bars (pre ++ t) ret handle bars' := by
  cases h with
  | refused hret ht => exact .refused hret (quiet_append hpre ht)
  | full hpre' hmap hfree htail =>
    rw [← List.append_assoc, append_mappedCalls]
    exact .full (quiet_append hpre hpre') hmap hfree htail
  | unset hpre' hmap hfree hbad htail =>
    rw [← List.append_assoc, append_mappedCalls]
    exact .unset (quiet_append hpre hpre') hmap hfree hbad htail
  | attached hpre' hmap hfree hbase hsize =>
    rw [append_mappedCalls]
    exact .attached (quiet_append hpre hpre') hmap hfree hbase hsize

theorem fpga_pci_check_file_id_spec (addr : Dbdf) (file : SysfsFile) (id : BitVec 16)
    (h : Exec (fpga_pci_check_file_id addr file id) bars t ret bars') : bars' = bars ∧ Quiet t := by
  unfold fpga_pci_check_file_id at h
  obtain ⟨r, t', rfl, hk⟩ := (exec_op_bind (I := OsApi) _ _ _ _ _ _).mp h
  have ht : t' = [] ∧ bars' = bars := by
    cases r with
    | open_failed errno =>
      obtain ⟨ht, -, hs⟩ := (exec_pure _ _ _ _ _).mp hk
      exact ⟨ht, hs⟩
    | parse_failed =>
      obtain ⟨ht, -, hs⟩ := (exec_pure _ _ _ _ _).mp hk
      exact ⟨ht, hs⟩
    | scanned tmp_id =>
      obtain ⟨ht, -, hs⟩ := (exec_pure _ _ _ _ _).mp hk
      exact ⟨ht, hs⟩
  obtain ⟨rfl, rfl⟩ := ht
  refine ⟨rfl, ?_⟩
  intro e he
  obtain rfl := List.mem_singleton.mp he
  trivial

theorem err_unmap_spec (mem_base length : BitVec 64) (code : Int)
    (h : Exec (err_unmap mem_base length code) bars t (ret, handle) bars') :
    bars' = bars ∧ handle = PCI_BAR_HANDLE_INIT ∧ Unmapped mem_base length code t ret := by
  unfold err_unmap at h
  split at h
  case isTrue hbase =>
    obtain ⟨r, t', rfl, hk⟩ := (exec_op_bind (I := OsApi) _ _ _ _ _ _).mp h
    obtain ⟨rfl, hr, rfl⟩ := (exec_pure _ _ _ _ _).mp hk
    obtain ⟨rfl, rfl⟩ := Prod.mk.inj hr
    exact ⟨rfl, rfl, .unmapped hbase ret⟩
  case isFalse hbase =>
    obtain ⟨rfl, hr, rfl⟩ := (exec_pure _ _ _ _ _).mp h
    obtain ⟨rfl, rfl⟩ := Prod.mk.inj hr
    exact ⟨rfl, rfl, .skipped (not_not.mp hbase)⟩

theorem fpga_pci_bar_alloc_spec (r : Option (Fin FPGA_PCI_BARS_MAX)) :
    Exec fpga_pci_bar_alloc bars t r bars' ↔ t = [] ∧ r = first_free bars ∧
      bars' = (first_free bars).elim bars
        fun i => Function.update bars i { bars i with allocated := true } := by
  unfold fpga_pci_bar_alloc
  rw [exec_get_bind]
  cases hfree : first_free bars with
  | none => simp only [exec_pure, Option.elim_none]
  | some i =>
    simp only [set_bar, exec_modify_bind, exec_pure, Option.elim_some]

theorem fpga_pci_bar_set_mem_base_size_spec (i : Fin FPGA_PCI_BARS_MAX)
    (mem_base mem_size : BitVec 64) :
    Exec (fpga_pci_bar_set_mem_base_size i mem_base mem_size) bars t ret bars' ↔ t = [] ∧
      if mem_base = 0 ∨ mem_size = 0 then ret = -EINVAL ∧ bars' = bars
      else ret = 0 ∧ bars' = Function.update bars i { bars i with mem_base, mem_size } := by
  unfold fpga_pci_bar_set_mem_base_size
  by_cases hbase : mem_base = 0
  · rw [if_pos hbase, if_pos (.inl hbase), exec_pure]
  · rw [if_neg hbase]
    by_cases hsize : mem_size = 0
    · rw [if_pos hsize, if_pos (.inr hsize), exec_pure]
    · rw [if_neg hsize, if_neg (not_or.mpr ⟨hbase, hsize⟩)]
      simp only [exec_get_bind, set_bar, exec_modify_bind, exec_pure]

theorem bar_attach_mapped_spec {pre : List OsApi.Event} (fd closed : Int) (map : Mapping)
    (hpre : Quiet pre) (hmap : map.mem_base ≠ MAP_FAILED)
    (h : Exec (bar_attach_mapped map.mem_base map.mem_size) bars t (ret, handle) bars') :
    Attached bars (mappedCalls pre fd closed map ++ t) ret handle bars' := by
  unfold bar_attach_mapped at h
  obtain ⟨t₁, r, bars₁, t₂, rfl, halloc, hk⟩ := (exec_bind _ _ _ _ _ _).mp h
  obtain ⟨rfl, rfl, rfl⟩ := (fpga_pci_bar_alloc_spec r).mp halloc
  cases hfree : first_free bars with
  | none =>
    rw [hfree] at hk
    obtain ⟨rfl, rfl, htail⟩ := err_unmap_spec _ _ _ hk
    exact .full hpre hmap hfree htail
  | some i =>
    rw [hfree] at hk
    obtain ⟨t₃, r, bars₂, t₄, rfl, hset, hk⟩ := (exec_bind _ _ _ _ _ _).mp hk
    obtain ⟨rfl, hcases⟩ := (fpga_pci_bar_set_mem_base_size_spec i _ _).mp hset
    split at hcases
    case isTrue hbad =>
      obtain ⟨rfl, rfl⟩ := hcases
      rw [if_pos (by decide)] at hk
      obtain ⟨rfl, rfl, htail⟩ := err_unmap_spec _ _ _ hk
      exact .unset hpre hmap hfree hbad htail
    case isFalse hgood =>
      obtain ⟨rfl, rfl⟩ := hcases
      rw [if_neg (by decide)] at hk
      obtain ⟨rfl, hr, rfl⟩ := (exec_pure _ _ _ _ _).mp hk
      obtain ⟨rfl, rfl⟩ := Prod.mk.inj hr
      have hbar : Attached bars (mappedCalls pre fd closed map) 0 i.val
          (Function.update bars i ⟨true, map.mem_base, map.mem_size⟩) :=
        .attached hpre hmap hfree (fun hbase => hgood (.inl hbase)) fun hsize => hgood (.inr hsize)
      simpa using hbar

theorem fpga_pci_bar_attach_spec (map : ResourceMap) (bar : Fin FPGA_BAR_PER_PF_MAX) (wc : Bool)
    (h : Exec (fpga_pci_bar_attach map bar wc) bars t (ret, handle) bars') :
    Attached bars t ret handle bars' := by
  unfold fpga_pci_bar_attach at h
  obtain ⟨t₁, r₁, bars₁, t₂, rfl, hvendor, hk⟩ := (exec_bind _ _ _ _ _ _).mp h
  obtain ⟨rfl, hq₁⟩ := fpga_pci_check_file_id_spec _ _ _ hvendor
  refine attached_prepend hq₁ ?_
  split at hk
  case isTrue hret =>
    obtain ⟨rfl, hr, rfl⟩ := (exec_pure _ _ _ _ _).mp hk
    obtain ⟨rfl, rfl⟩ := Prod.mk.inj hr
    exact .refused (by decide) quiet_nil
  obtain ⟨t₃, r₂, bars₂, t₄, rfl, hdevice, hk₂⟩ := (exec_bind _ _ _ _ _ _).mp hk
  obtain ⟨rfl, hq₂⟩ := fpga_pci_check_file_id_spec _ _ _ hdevice
  refine attached_prepend hq₂ ?_
  split at hk₂
  case isTrue hret =>
    obtain ⟨rfl, hr, rfl⟩ := (exec_pure _ _ _ _ _).mp hk₂
    obtain ⟨rfl, rfl⟩ := Prod.mk.inj hr
    exact .refused (by decide) quiet_nil
  obtain ⟨fd, t₅, rfl, hopen⟩ := (exec_op_bind (I := OsApi) _ _ _ _ _ _).mp hk₂
  have hq₃ : Quiet [⟨.open map.addr (.resource bar (map.resource_burstable bar && wc)), fd⟩] := by
    intro e he
    obtain rfl := List.mem_singleton.mp he
    trivial
  refine attached_prepend (t := t₅) hq₃ ?_
  split at hopen
  case isTrue hfd =>
    obtain ⟨rfl, hr, rfl⟩ := (exec_pure _ _ _ _ _).mp hopen
    obtain ⟨rfl, rfl⟩ := Prod.mk.inj hr
    exact .refused (by decide) quiet_nil
  obtain ⟨mem_base, t₆, rfl, hmap⟩ := (exec_op_bind (I := OsApi) _ _ _ _ _ _).mp hopen
  obtain ⟨closed, t₇, rfl, hclose⟩ := (exec_op_bind (I := OsApi) _ _ _ _ _ _).mp hmap
  split at hclose
  case isTrue hfailed =>
    obtain ⟨rfl, hr, rfl⟩ := (exec_pure _ _ _ _ _).mp hclose
    obtain ⟨rfl, rfl⟩ := Prod.mk.inj hr
    refine .refused (by decide) ?_
    intro e he
    rcases List.mem_cons.mp he with rfl | he
    · exact if_pos hfailed
    · obtain rfl := List.mem_singleton.mp he
      trivial
  case isFalse hmade =>
    exact bar_attach_mapped_spec fd closed ⟨mem_base, map.resource_size bar⟩ quiet_nil hmade hclose

/-- Every run of an attach ends in one of the four ways. -/
theorem fpga_pci_attach_spec (slot_id pf_id bar_id : Int) (flags : BitVec 32) (old : Int)
    (h : Exec (fpga_pci_attach slot_id pf_id bar_id flags old) bars t (ret, handle) bars') :
    Attached bars t ret handle bars' := by
  unfold fpga_pci_attach at h
  split at h
  case h_1 pf bar =>
    obtain ⟨⟨r, spec⟩, t₁, rfl, hspec⟩ := (exec_op_bind (I := OsApi) _ _ _ _ _ _).mp h
    have hq : Quiet [⟨.get_slot_spec slot_id, (r, spec)⟩] := by
      intro e he
      obtain rfl := List.mem_singleton.mp he
      trivial
    refine attached_prepend (t := t₁) hq ?_
    dsimp only at hspec
    split at hspec
    case isTrue hret =>
      obtain ⟨rfl, hr, rfl⟩ := (exec_pure _ _ _ _ _).mp hspec
      obtain ⟨rfl, rfl⟩ := Prod.mk.inj hr
      exact .refused hret quiet_nil
    split at hspec
    · split at hspec
      · exact fpga_pci_bar_attach_spec _ _ _ hspec
      · obtain ⟨rfl, hr, rfl⟩ := (exec_pure _ _ _ _ _).mp hspec
        obtain ⟨rfl, rfl⟩ := Prod.mk.inj hr
        exact .refused (by decide) quiet_nil
    · exact fpga_pci_bar_attach_spec _ _ _ hspec
  case h_2 =>
    obtain ⟨rfl, hr, rfl⟩ := (exec_pure _ _ _ _ _).mp h
    obtain ⟨rfl, rfl⟩ := Prod.mk.inj hr
    exact .refused (by decide) quiet_nil

/-! ## What an attach promises -/

/-- The contract of one attach: its code against the entry it names, and no trace of a failure. -/
structure AttachLaw (bars bars' : BarTable) (maps : Multiset Mapping) (t : List OsApi.Event)
    (ret handle : Int) : Prop where
  success_iff : ret = 0 ↔ ∃ i map, fpga_pci_bar_get handle = some i ∧ newMapping t = some map ∧
    bars' i = ⟨true, map.mem_base, map.mem_size⟩
  failure : ret ≠ 0 →
    (∀ i, (bars' i).allocated = (bars i).allocated) ∧ liveMappings maps t = maps

/-- A mapping was made that the table has no room for, or refuses. -/
def NoRoom (bars : BarTable) (t : List OsApi.Event) : Prop :=
  ∃ map, newMapping t = some map ∧
    ((∀ i, (bars i).allocated = true) ∨ map.mem_base = 0 ∨ map.mem_size = 0)

section Mapped

variable {pre tail : List OsApi.Event} {fd closed : Int} {map : Mapping}

theorem newMapping_mapped (hpre : Quiet pre) (hmap : map.mem_base ≠ MAP_FAILED) :
    newMapping (mappedCalls pre fd closed map ++ tail) = some map := by
  rw [mappedCalls, List.append_assoc, newMapping_append_quiet hpre]
  have hmade : made map.mem_size map.mem_base = some map := if_neg hmap
  simp [newMapping, hmade]

theorem liveMappings_mapped (hpre : Quiet pre) (hmap : map.mem_base ≠ MAP_FAILED)
    (maps : Multiset Mapping) :
    liveMappings maps (mappedCalls pre fd closed map ++ tail) =
      liveMappings (map ::ₘ maps) tail := by
  rw [mappedCalls, List.append_assoc, liveMappings_append, liveMappings_quiet hpre]
  have hmade : made map.mem_size map.mem_base = some map := if_neg hmap
  simp [liveMappings, mapStep, hmade]

theorem liveMappings_unmapped {code : Int}
    (htail : Unmapped map.mem_base map.mem_size code tail ret) (hret : ret ≠ 0)
    (maps : Multiset Mapping) : liveMappings (map ::ₘ maps) tail = map ::ₘ maps := by
  cases htail with
  | unmapped hbase => exact if_neg hret
  | skipped hbase => rfl

end Mapped

theorem fpga_pci_bar_get_init : fpga_pci_bar_get PCI_BAR_HANDLE_INIT = none := rfl

theorem attachLaw_iff (h : Attached bars t ret handle bars') (maps : Multiset Mapping) :
    AttachLaw bars bars' maps t ret handle ↔ ¬ NoRoom bars t := by
  cases h with
  | refused hret ht =>
    have hnone := newMapping_quiet ht
    constructor
    · rintro - ⟨map, hmap, -⟩
      rw [hnone] at hmap
      cases hmap
    · intro _
      refine ⟨?_, fun _ => ⟨fun _ => rfl, liveMappings_quiet ht maps⟩⟩
      constructor
      · intro h0
        exact absurd h0 hret
      · rintro ⟨i, map, -, hmap, -⟩
        rw [hnone] at hmap
        cases hmap
  | @full pre fd closed map tail _ hpre hmap hfree htail =>
    have hroom : NoRoom bars (mappedCalls pre fd closed map ++ tail) :=
      ⟨map, newMapping_mapped hpre hmap, .inl ((first_free_eq_none_iff bars).mp hfree)⟩
    refine iff_of_false ?_ (not_not.mpr hroom)
    rintro ⟨hsucc, hfail⟩
    by_cases hret : ret = 0
    · obtain ⟨i, _, hget, -⟩ := hsucc.mp hret
      rw [fpga_pci_bar_get_init] at hget
      cases hget
    · have hkept := (hfail hret).2
      rw [liveMappings_mapped hpre hmap, liveMappings_unmapped htail hret] at hkept
      exact (Multiset.lt_cons_self maps map).ne' hkept
  | @unset pre fd closed map tail _ i hpre hmap hfree hbad htail =>
    have hroom : NoRoom bars (mappedCalls pre fd closed map ++ tail) :=
      ⟨map, newMapping_mapped hpre hmap, .inr hbad⟩
    refine iff_of_false ?_ (not_not.mpr hroom)
    rintro ⟨hsucc, hfail⟩
    by_cases hret : ret = 0
    · obtain ⟨j, _, hget, -⟩ := hsucc.mp hret
      rw [fpga_pci_bar_get_init] at hget
      cases hget
    · have hsame := (hfail hret).1 i
      rw [Function.update_self, first_free_not_allocated hfree] at hsame
      cases hsame
  | @attached pre fd closed map i hpre hmap hfree hbase hsize =>
    have htail : newMapping (mappedCalls pre fd closed map ++ []) = some map :=
      newMapping_mapped hpre hmap
    have hnew : newMapping (mappedCalls pre fd closed map) = some map := by
      rwa [List.append_nil] at htail
    constructor
    · rintro - ⟨map', hmap', hbad⟩
      obtain rfl := Option.some.inj (hnew.symm.trans hmap')
      rcases hbad with hall | hbase' | hsize'
      · have := first_free_not_allocated hfree
        rw [hall i] at this
        cases this
      · exact hbase hbase'
      · exact hsize hsize'
    · intro _
      refine ⟨iff_of_true rfl ⟨i, map, toIndex_val i, hnew, Function.update_self ..⟩, ?_⟩
      intro hret
      exact absurd rfl hret

/-! ## Runs of attach and detach -/

theorem fpga_pci_detach_spec (h : Exec (fpga_pci_detach handle) bars t ret bars') :
    (ret ≠ 0 ∧ bars' = bars) ∨
      ∃ i, ret = 0 ∧ fpga_pci_bar_get handle = some i ∧ bars' = Function.update bars i .zero := by
  unfold fpga_pci_detach at h
  split at h
  case h_1 hget =>
    obtain ⟨-, rfl, rfl⟩ := (exec_pure _ _ _ _ _).mp h
    exact .inl ⟨by decide, rfl⟩
  case h_2 i hget =>
    rw [exec_get_bind] at h
    obtain ⟨r, t', rfl, hk⟩ := (exec_op_bind (I := OsApi) _ _ _ _ _ _).mp h
    split at hk
    case isTrue hret =>
      obtain ⟨-, rfl, rfl⟩ := (exec_pure _ _ _ _ _).mp hk
      exact .inl ⟨by decide, rfl⟩
    case isFalse hret =>
      simp only [fpga_pci_bar_free, hget, set_bar, bind_assoc, exec_modify_bind, pure_bind, ne_eq,
        not_true_eq_false, if_false, exec_pure] at hk
      obtain ⟨-, rfl, rfl⟩ := hk
      exact .inr ⟨i, rfl, hget, rfl⟩

/-- The table and the mappings, with the handles that attach returned and detach did not end. -/
structure PciState where
  bars : BarTable
  maps : Multiset Mapping
  live : List Int

def PciState.start : PciState := ⟨.start, 0, []⟩

inductive PciStep : PciState → PciState → Prop where
  | attach {s slot_id pf_id bar_id flags old t ret handle bars'}
    (h : Exec (fpga_pci_attach slot_id pf_id bar_id flags old) s.bars t (ret, handle) bars') :
    PciStep s ⟨bars', liveMappings s.maps t, if ret = 0 then handle :: s.live else s.live⟩
  | detach {s handle t ret bars'} (h : Exec (fpga_pci_detach handle) s.bars t ret bars') :
    PciStep s ⟨bars', liveMappings s.maps t,
      if ret = 0 then s.live.filter (· ≠ handle) else s.live⟩

def PciReachable (s : PciState) : Prop := Relation.ReflTransGen PciStep .start s

/-- The entries that live handles name. -/
def PciState.named (s : PciState) : List (Fin FPGA_PCI_BARS_MAX) :=
  s.live.filterMap fpga_pci_bar_get

structure HandlesInv (s : PciState) : Prop where
  distinct : s.named.Nodup
  allocated : ∀ i ∈ s.named, (s.bars i).allocated = true

theorem attached_entries (h : Attached bars t ret handle bars') :
    (∀ i, (bars i).allocated = true → (bars' i).allocated = true) ∧
      ∀ i, ret = 0 → fpga_pci_bar_get handle = some i →
        (bars i).allocated = false ∧ (bars' i).allocated = true := by
  cases h with
  | refused hret ht => exact ⟨fun _ => id, fun _ h0 => absurd h0 hret⟩
  | full hpre hmap hfree htail =>
    refine ⟨fun _ => id, ?_⟩
    intro i _ hget
    rw [fpga_pci_bar_get_init] at hget
    cases hget
  | @unset _ _ _ _ _ _ j hpre hmap hfree hbad htail =>
    constructor
    · intro i hi
      by_cases hij : i = j
      · rw [hij, Function.update_self]
      · rw [Function.update_of_ne hij, hi]
    · intro i _ hget
      rw [fpga_pci_bar_get_init] at hget
      cases hget
  | @attached _ _ _ _ j hpre hmap hfree hbase hsize =>
    constructor
    · intro i hi
      by_cases hij : i = j
      · rw [hij, Function.update_self]
      · rw [Function.update_of_ne hij, hi]
    · intro i _ hget
      rw [fpga_pci_bar_get, toIndex_val] at hget
      obtain rfl := Option.some.inj hget
      exact ⟨first_free_not_allocated hfree, by rw [Function.update_self]⟩

theorem fpga_pci_bar_get_inj {h₁ h₂ : Int} {i : Fin FPGA_PCI_BARS_MAX}
    (hget₁ : fpga_pci_bar_get h₁ = some i) (hget₂ : fpga_pci_bar_get h₂ = some i) : h₁ = h₂ := by
  rw [toIndex_eq_some_iff.mp hget₁, toIndex_eq_some_iff.mp hget₂]

theorem handlesInv_step {s s' : PciState} (hinv : HandlesInv s) (hstep : PciStep s s') :
    HandlesInv s' := by
  cases hstep with
  | @attach _ _ _ _ _ t ret handle bars' h =>
    obtain ⟨hkeep, hnew⟩ := attached_entries (fpga_pci_attach_spec _ _ _ _ _ h)
    have hold : ∀ i ∈ s.named, (bars' i).allocated = true := fun i hi =>
      hkeep i (hinv.allocated i hi)
    split
    case isFalse hret => exact ⟨hinv.distinct, hold⟩
    case isTrue hret =>
      cases hget : fpga_pci_bar_get handle with
      | none =>
        constructor <;> simp only [PciState.named, List.filterMap_cons_none hget]
        · exact hinv.distinct
        · exact hold
      | some i =>
        obtain ⟨hfree, halloc⟩ := hnew i hret hget
        have hfresh : i ∉ s.named := by
          intro hi
          rw [hinv.allocated i hi] at hfree
          cases hfree
        constructor <;> simp only [PciState.named, List.filterMap_cons_some hget]
        · exact List.nodup_cons.mpr ⟨hfresh, hinv.distinct⟩
        · intro j hj
          rcases List.mem_cons.mp hj with rfl | hj
          · exact halloc
          · exact hold j hj
  | @detach handle t ret bars' h =>
    rcases fpga_pci_detach_spec h with ⟨hret, rfl⟩ | ⟨i, hret, hget, rfl⟩
    · rw [if_neg hret]
      exact ⟨hinv.distinct, hinv.allocated⟩
    · rw [if_pos hret]
      have hsub : List.Sublist ((s.live.filter (· ≠ handle)).filterMap fpga_pci_bar_get) s.named :=
        List.filter_sublist.filterMap _
      refine ⟨hinv.distinct.sublist hsub, ?_⟩
      intro j hj
      have hij : j ≠ i := by
        rintro rfl
        obtain ⟨h', hmem, hget'⟩ := List.mem_filterMap.mp hj
        have hne := (List.mem_filter.mp hmem).2
        rw [fpga_pci_bar_get_inj hget' hget] at hne
        simp at hne
      change (Function.update s.bars i .zero j).allocated = true
      rw [Function.update_of_ne hij]
      exact hinv.allocated j (hsub.subset hj)

theorem handlesInv_reachable {s : PciState} (h : PciReachable s) : HandlesInv s := by
  induction h with
  | refl => exact ⟨List.nodup_nil, by intro i hi; cases hi⟩
  | tail _ hstep ih => exact handlesInv_step ih hstep

/-! ## Samples -/

/-- A slot whose BARs all have this size. -/
def sampleSpec (length : BitVec 64) : SlotSpec :=
  fun _ => ⟨⟨0, 0, 0, 0⟩, ⟨0, 0, 0, 0⟩, fun _ => false, fun _ => length⟩

def sampleMapping (length : BitVec 64) : Mapping := ⟨0x7f0000000000, length⟩

def sampleBar (length : BitVec 64) : FpgaPciBar :=
  ⟨true, (sampleMapping length).mem_base, (sampleMapping length).mem_size⟩

/-- The system calls of an attach to that slot, up to the new mapping. -/
def sampleCalls (length : BitVec 64) : List OsApi.Event :=
  mappedCalls [⟨.get_slot_spec 0, (0, sampleSpec length)⟩,
    ⟨.scan_id ⟨0, 0, 0, 0⟩ .vendor, .scanned 0⟩, ⟨.scan_id ⟨0, 0, 0, 0⟩ .device, .scanned 0⟩,
    ⟨.open ⟨0, 0, 0, 0⟩ (.resource 0 false), (3 : Int)⟩] 3 0 (sampleMapping length)

theorem sample_pf : toIndex FPGA_PF_MAX 0 = some 0 := rfl

section Sample

variable {length : BitVec 64} {pf_id : Int} {pf : Fin FPGA_PF_MAX}

theorem exec_sample (hpf : toIndex FPGA_PF_MAX pf_id = some pf)
    (h : Exec (bar_attach_mapped (sampleMapping length).mem_base (sampleMapping length).mem_size)
      bars t (ret, handle) bars') :
    Exec (fpga_pci_attach 0 pf_id 0 0 (-1)) bars (sampleCalls length ++ t) (ret, handle) bars' := by
  have hcheck : ∀ file, Exec (fpga_pci_check_file_id ⟨0, 0, 0, 0⟩ file 0) bars
      [⟨.scan_id ⟨0, 0, 0, 0⟩ file, .scanned 0⟩] 0 bars := by
    intro file
    exact (exec_op_bind (I := OsApi) _ _ _ _ _ _).mpr ⟨.scanned 0, [], rfl, rfl, rfl⟩
  have hbar : toIndex FPGA_BAR_PER_PF_MAX 0 = some 0 := rfl
  unfold fpga_pci_attach
  rw [hpf, hbar]
  refine (exec_op_bind (I := OsApi) _ _ _ _ _ _).mpr ⟨(0, sampleSpec length), _, rfl, ?_⟩
  refine (exec_bind _ _ _ _ _ _).mpr
    ⟨[⟨.scan_id _ .vendor, .scanned 0⟩], 0, bars, _, rfl, hcheck .vendor, ?_⟩
  refine (exec_bind _ _ _ _ _ _).mpr
    ⟨[⟨.scan_id _ .device, .scanned 0⟩], 0, bars, _, rfl, hcheck .device, ?_⟩
  refine (exec_op_bind (I := OsApi) _ _ _ _ _ _).mpr ⟨(3 : Int), _, rfl, ?_⟩
  refine (exec_op_bind (I := OsApi) _ _ _ _ _ _).mpr ⟨(sampleMapping length).mem_base, _, rfl, ?_⟩
  refine (exec_op_bind (I := OsApi) _ _ _ _ _ _).mpr ⟨(0 : Int), _, rfl, ?_⟩
  exact h

theorem exec_sample_free (length : BitVec 64) (hpf : toIndex FPGA_PF_MAX pf_id = some pf) (hlength : length ≠ 0)
    {i : Fin FPGA_PCI_BARS_MAX} (hfree : first_free bars = some i) :
    Exec (fpga_pci_attach 0 pf_id 0 0 (-1)) bars (sampleCalls length) (0, i.val)
      (Function.update bars i (sampleBar length)) := by
  have hmapped : Exec
      (bar_attach_mapped (sampleMapping length).mem_base (sampleMapping length).mem_size) bars []
      (0, i.val) (Function.update bars i (sampleBar length)) := by
    unfold bar_attach_mapped
    refine (exec_bind _ _ _ _ _ _).mpr ⟨[], some i, _, [], rfl,
      (fpga_pci_bar_alloc_spec _).mpr ⟨rfl, hfree.symm, by rw [hfree]⟩, ?_⟩
    have hgood : ¬ ((sampleMapping length).mem_base = 0 ∨ (sampleMapping length).mem_size = 0) :=
      not_or.mpr ⟨by simp only [sampleMapping]; decide, hlength⟩
    refine (exec_bind _ _ _ _ _ _).mpr ⟨[], 0, _, [], rfl,
      (fpga_pci_bar_set_mem_base_size_spec i _ _).mpr
        ⟨rfl, by rw [if_neg hgood]; exact ⟨rfl, rfl⟩⟩, ?_⟩
    rw [if_neg (by decide), exec_pure]
    refine ⟨rfl, rfl, ?_⟩
    simp only [Option.elim_some, Function.update_self, Function.update_idem, sampleBar]
  simpa using exec_sample hpf hmapped

theorem exec_sample_full (length : BitVec 64) (hpf : toIndex FPGA_PF_MAX pf_id = some pf)
    (hfree : first_free bars = none) :
    Exec (fpga_pci_attach 0 pf_id 0 0 (-1)) bars (sampleCalls length ++
      [⟨.munmap (sampleMapping length).mem_base (sampleMapping length).mem_size, (0 : Int)⟩])
      (0, -1) bars := by
  refine exec_sample hpf ?_
  unfold bar_attach_mapped
  refine (exec_bind _ _ _ _ _ _).mpr ⟨[], none, bars, _, rfl,
    (fpga_pci_bar_alloc_spec _).mpr ⟨rfl, hfree.symm, by rw [hfree]; rfl⟩, ?_⟩
  exact (exec_op_bind (I := OsApi) _ _ _ _ _ _).mpr ⟨(0 : Int), [], rfl, rfl, rfl⟩

end Sample

/-! ## The contract in every run -/

/-- In every run: live handles name different entries, and an attach keeps its contract exactly
when it made no mapping that finds no room. -/
theorem fpga_pci_attach_law {s : PciState} (hs : PciReachable s) :
    s.named.Nodup ∧ ∀ slot_id pf_id bar_id flags old t ret handle bars',
      Exec (fpga_pci_attach slot_id pf_id bar_id flags old) s.bars t (ret, handle) bars' →
        (AttachLaw s.bars bars' s.maps t ret handle ↔ ¬ NoRoom s.bars t) := by
  refine ⟨(handlesInv_reachable hs).distinct, ?_⟩
  intro slot_id pf_id bar_id flags old t ret handle bars' h
  exact attachLaw_iff (fpga_pci_attach_spec _ _ _ _ _ h) s.maps

theorem fpga_pci_attach_law_start : PciState.start.named.Nodup ∧
    AttachLaw .start (Function.update BarTable.start 0 (sampleBar 4096)) 0 (sampleCalls 4096) 0 0 := by
  obtain ⟨hdistinct, hlaw⟩ := fpga_pci_attach_law (s := .start) .refl
  refine ⟨hdistinct, (hlaw 0 0 0 0 (-1) _ _ _ _ (exec_sample_free 4096 rfl (by decide) (i := 0) rfl)).mpr ?_⟩
  rintro ⟨map, hmap, hbad⟩
  obtain rfl : sampleMapping 4096 = map := Option.some.inj hmap
  rcases hbad with hall | hbase | hsize
  · exact absurd (hall 0) (by decide)
  · exact absurd hbase (by decide)
  · exact absurd hsize (by decide)

/-- The table after `k` such attaches. -/
def filled (k : Nat) : BarTable := fun i =>
  if i.val < k then sampleBar 4096 else .zero

theorem first_free_filled (i : Fin FPGA_PCI_BARS_MAX) : first_free (filled i.val) = some i := by
  unfold first_free
  rw [List.find?_eq_some_iff_getElem]
  refine ⟨by simp [filled, FpgaPciBar.zero], i.val, by simp, by simp, ?_⟩
  intro j hj
  simp [filled, sampleBar, hj]

theorem filled_reachable {k : Nat} (hk : k ≤ FPGA_PCI_BARS_MAX) :
    ∃ s, PciReachable s ∧ s.bars = filled k := by
  induction k with
  | zero => exact ⟨.start, .refl, by funext i; rfl⟩
  | succ k ih =>
    obtain ⟨s, hs, hbars⟩ := ih (by omega)
    have hfree := first_free_filled ⟨k, hk⟩
    rw [← hbars] at hfree
    refine ⟨_, hs.tail (.attach (exec_sample_free 4096 sample_pf (by decide) hfree)), ?_⟩
    funext i
    change Function.update s.bars ⟨k, hk⟩ _ i = _
    rw [hbars]
    by_cases hi : i = ⟨k, hk⟩
    · rw [hi, Function.update_self]
      simp [filled]
    · rw [Function.update_of_ne hi]
      have : i.val ≠ k := fun h => hi (Fin.ext h)
      unfold filled
      split <;> split <;> first | rfl | omega

/-- The attach after 80 others: 0 is returned, with a handle that names nothing. -/
theorem fpga_pci_attach_full : ∃ s, PciReachable s ∧
    ∃ t, Exec (fpga_pci_attach 0 0 0 0 (-1)) s.bars t (0, -1) s.bars ∧
      ¬ AttachLaw s.bars s.bars s.maps t 0 (-1) := by
  obtain ⟨s, hs, hbars⟩ := filled_reachable (k := FPGA_PCI_BARS_MAX) (Nat.le_refl _)
  have hfull : first_free s.bars = none := by
    rw [first_free_eq_none_iff, hbars]
    intro i
    have := i.isLt
    simp [filled, sampleBar, this]
  refine ⟨s, hs, _, exec_sample_full 4096 rfl hfull, ?_⟩
  rintro ⟨hsucc, -⟩
  obtain ⟨i, _, hget, -⟩ := hsucc.mp rfl
  cases hget

end AwsFpga.Bars
