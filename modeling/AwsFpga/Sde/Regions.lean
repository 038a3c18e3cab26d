import AwsFpga.Sde.Calls
import AwsFpga.System.Owners

/-!
# The memory that the driver maps

`sde_mgmt_init` maps the memory of a slot and attaches its BARs, and
`sde_mgmt_close` gives both back. What was mapped is known by its address and
size, with the slot whose initialisation did it.
-/

open Lib AwsFpga.Pci AwsFpga.Bars AwsFpga.System

namespace AwsFpga.Sde

abbrev Region : Type := BitVec 64 × BitVec 64

structure Resources where
  /-- Of what is mapped, the slot that it was mapped for. -/
  mapped : Region → Option Nat
  /-- The allocated entries of the BAR table. -/
  bars : Set Entry
  /-- How often something was unmapped that was not mapped. -/
  strays : Nat

def Resources.start : Resources := ⟨fun _ => none, ∅, 0⟩

/-! ## What the calls do -/

def gained : SdeApi.Event → Option Region
  | ⟨.map_anon _ size_bytes, ((ret : Int), va, _)⟩ => if ret = 0 then some (va, size_bytes) else none
  | ⟨.map_huge _, ((ret : Int), va, _)⟩ => if ret = 0 then some (va, 2 * 1024 * 1024) else none
  | _ => none

def dropped : SdeApi.Event → Option Region
  | ⟨.unmap virtual_address size_bytes, _⟩ => some (virtual_address, size_bytes)
  | _ => none

def pciEvent : SdeApi.Event → Option PciApi.Event
  | ⟨.pci o, r⟩ => some ⟨o, r⟩
  | _ => none

def gains (t : List SdeApi.Event) : List Region := t.filterMap gained

def drops (t : List SdeApi.Event) : List Region := t.filterMap dropped

def pciEvents (t : List SdeApi.Event) : List PciApi.Event := t.filterMap pciEvent

section Append

variable (t₁ t₂ : List SdeApi.Event)

@[simp] theorem gains_append : gains (t₁ ++ t₂) = gains t₁ ++ gains t₂ := List.filterMap_append

@[simp] theorem drops_append : drops (t₁ ++ t₂) = drops t₁ ++ drops t₂ := List.filterMap_append

@[simp] theorem pciEvents_append : pciEvents (t₁ ++ t₂) = pciEvents t₁ ++ pciEvents t₂ :=
  List.filterMap_append

end Append

/-- A new mapping is where nothing is mapped. To unmap a whole mapping does not fail. -/
inductive Touches (slot : Nat) : SdeApi.Event → Resources → Resources → Prop where
  | gain {e r R} (he : gained e = some r) (hfree : R.mapped r = none) :
    Touches slot e R { R with mapped := Function.update R.mapped r (some slot) }
  | drop {e r R} (he : dropped e = some r) (hmapped : R.mapped r ≠ none) :
    Touches slot e R { R with mapped := Function.update R.mapped r none }
  | stray {e r R} (he : dropped e = some r) (hfree : R.mapped r = none) :
    Touches slot e R { R with strays := R.strays + 1 }
  | pci {e p R bars} (he : pciEvent e = some p) (heffect : Effect p R.bars bars) :
    Touches slot e R { R with bars }
  | other {e R} (hgained : gained e = none) (hdropped : dropped e = none)
    (hpci : pciEvent e = none) : Touches slot e R R

section Traces

variable {slot : Nat} {t : List SdeApi.Event} {R R' : Resources}

theorem gained_exclusive {e : SdeApi.Event} {r : Region} (h : gained e = some r) :
    dropped e = none ∧ pciEvent e = none := by
  obtain ⟨o, ans⟩ := e
  cases o <;> first | exact ⟨rfl, rfl⟩ | cases h

theorem dropped_exclusive {e : SdeApi.Event} {r : Region} (h : dropped e = some r) :
    gained e = none ∧ pciEvent e = none := by
  obtain ⟨o, ans⟩ := e
  cases o <;> first | exact ⟨rfl, rfl⟩ | cases h

theorem pci_exclusive {e : SdeApi.Event} {p : PciApi.Event} (h : pciEvent e = some p) :
    gained e = none ∧ dropped e = none := by
  obtain ⟨o, ans⟩ := e
  cases o <;> first | exact ⟨rfl, rfl⟩ | cases h

/-- The BAR table sees the calls of `fpga_pci.h` only. -/
theorem trace_bars (h : Trace (Touches slot) t R R') : Trace Effect (pciEvents t) R.bars R'.bars := by
  induction h with
  | nil R => exact .nil _
  | @cons e t R₀ R₁ R₂ head tail ih =>
    cases head with
    | gain he hfree =>
      rw [pciEvents, List.filterMap_cons_none (gained_exclusive he).2]
      exact ih
    | drop he hmapped =>
      rw [pciEvents, List.filterMap_cons_none (dropped_exclusive he).2]
      exact ih
    | stray he hfree =>
      rw [pciEvents, List.filterMap_cons_none (dropped_exclusive he).2]
      exact ih
    | pci he heffect =>
      rw [pciEvents, List.filterMap_cons_some he]
      exact .cons heffect ih
    | other _ _ hpci =>
      rw [pciEvents, List.filterMap_cons_none hpci]
      exact ih

theorem trace_gains (h : Trace (Touches slot) t R R') (hdrops : drops t = []) :
    R'.strays = R.strays ∧ (gains t).Nodup ∧
      (∀ r ∈ gains t, R.mapped r = none ∧ R'.mapped r = some slot) ∧
      ∀ r, r ∉ gains t → R'.mapped r = R.mapped r := by
  induction h with
  | nil R => simp [gains]
  | @cons e t R₀ R₁ R₂ head tail ih =>
    have hsplit : dropped e = none ∧ drops t = [] := by
      cases hd : dropped e with
      | none =>
        rw [drops, List.filterMap_cons_none hd] at hdrops
        exact ⟨rfl, hdrops⟩
      | some r =>
        rw [drops, List.filterMap_cons_some hd] at hdrops
        cases hdrops
    obtain ⟨hstrays, hnodup, hgained, hkept⟩ := ih hsplit.2
    cases head with
    | @gain r _ he hfree =>
      have hr : r ∉ gains t := by
        intro hr
        have := (hgained r hr).1
        dsimp only at this
        rw [Function.update_self] at this
        cases this
      rw [gains, List.filterMap_cons_some he]
      refine ⟨hstrays, List.nodup_cons.mpr ⟨hr, hnodup⟩, ?_, ?_⟩
      · intro r' hr'
        rcases List.mem_cons.mp hr' with rfl | hr'
        · refine ⟨hfree, ?_⟩
          rw [hkept r' hr]
          exact Function.update_self ..
        · have hne : r' ≠ r := fun heq => hr (heq ▸ hr')
          have := (hgained r' hr').1
          dsimp only at this
          rw [Function.update_of_ne hne] at this
          exact ⟨this, (hgained r' hr').2⟩
      · intro r' hr'
        obtain ⟨hne, hr'⟩ := not_or.mp (mt List.mem_cons.mpr hr')
        rw [hkept r' hr']
        exact Function.update_of_ne hne ..
    | drop he => rw [he] at hsplit; cases hsplit.1
    | stray he => rw [he] at hsplit; cases hsplit.1
    | pci he heffect =>
      rw [gains, List.filterMap_cons_none (pci_exclusive he).1]
      exact ⟨hstrays, hnodup, hgained, hkept⟩
    | other hnone =>
      rw [gains, List.filterMap_cons_none hnone]
      exact ⟨hstrays, hnodup, hgained, hkept⟩

theorem trace_drops (h : Trace (Touches slot) t R R') (hgains : gains t = [])
    (hnodup : (drops t).Nodup) (hmapped : ∀ r ∈ drops t, R.mapped r ≠ none) :
    R'.strays = R.strays ∧ (∀ r ∈ drops t, R'.mapped r = none) ∧
      ∀ r, r ∉ drops t → R'.mapped r = R.mapped r := by
  induction h with
  | nil R => simp [drops]
  | @cons e t R₀ R₁ R₂ head tail ih =>
    have hsplit : gained e = none ∧ gains t = [] := by
      cases hd : gained e with
      | none =>
        rw [gains, List.filterMap_cons_none hd] at hgains
        exact ⟨rfl, hgains⟩
      | some r =>
        rw [gains, List.filterMap_cons_some hd] at hgains
        cases hgains
    cases head with
    | gain he => rw [he] at hsplit; cases hsplit.1
    | @drop r _ he hr =>
      rw [drops, List.filterMap_cons_some he] at hnodup hmapped ⊢
      obtain ⟨hnot, hnodup'⟩ := List.nodup_cons.mp hnodup
      have hne : ∀ r' ∈ drops t, r' ≠ r := fun r' hr' heq => hnot (heq ▸ hr')
      obtain ⟨hstrays, hdropped, hkept⟩ := ih hsplit.2 hnodup' fun r' hr' => by
        dsimp only
        rw [Function.update_of_ne (hne r' hr')]
        exact hmapped r' (List.mem_cons_of_mem _ hr')
      refine ⟨hstrays, ?_, ?_⟩
      · intro r' hr'
        rcases List.mem_cons.mp hr' with rfl | hr'
        · rw [hkept r' hnot]
          exact Function.update_self ..
        · exact hdropped r' hr'
      · intro r' hr'
        obtain ⟨hne', hr'⟩ := not_or.mp (mt List.mem_cons.mpr hr')
        rw [hkept r' hr']
        exact Function.update_of_ne hne' ..
    | @stray r _ he hfree =>
      rw [drops, List.filterMap_cons_some he] at hmapped
      exact absurd hfree (hmapped r List.mem_cons_self)
    | pci he heffect =>
      rw [drops, List.filterMap_cons_none (pci_exclusive he).2] at hnodup hmapped ⊢
      exact ih hsplit.2 hnodup hmapped
    | other _ hdropped =>
      rw [drops, List.filterMap_cons_none hdropped] at hnodup hmapped ⊢
      exact ih hsplit.2 hnodup hmapped

end Traces

/-! ## What an initialisation maps -/

def wbRegion (w : SdeWritebackMem) : Region := (w.memory_va, w.memory_size)

def bufferRegion (b : SdeBuffer) : Region := (b.data_va, b.alloc_length.setWidth 64)

def bufferRegions (buffers : Option (List SdeBuffer)) (num_buffers : Nat) : List Region :=
  ((buffers.getD []).take num_buffers).map bufferRegion

/-- The mappings that `struct sde_mem` records, in the order in which it is filled and closed. -/
def regions (mem : SdeMem) : List Region :=
  [wbRegion mem.c2h_writeback, wbRegion mem.h2c_writeback] ++
    bufferRegions mem.c2h_buffers mem.c2h_num_buffers ++
    bufferRegions mem.h2c_buffers mem.h2c_num_buffers

/-- A mapping, an allocation or an attach that did not work. -/
def Failed : SdeApi.Event → Prop
  | ⟨.map_anon .., ((ret : Int), _)⟩ => ret ≠ 0
  | ⟨.map_huge _, ((ret : Int), _)⟩ => ret ≠ 0
  | ⟨.malloc _, (allocated : Bool)⟩ => allocated = false
  | ⟨.pci o, r⟩ => Refused ⟨o, r⟩
  | _ => False

/-- The calls `t` returned `ret`, and if it is 0 what they mapped took the list to `after`. -/
structure Maps (t : List SdeApi.Event) (ret : Int) (before after : List Region) : Prop where
  drops : drops t = []
  bars : pciEvents t = []
  gains : ret = 0 → after = before ++ gains t
  failed : ret ≠ 0 → ∃ e ∈ t, Failed e

section Maps

variable {t t₁ t₂ : List SdeApi.Event} {ret : Int} {before between after : List Region}

theorem Maps.nil : Maps [] 0 before before :=
  ⟨rfl, rfl, fun _ => (List.append_nil _).symm, fun h => absurd rfl h⟩

theorem Maps.append (h₁ : Maps t₁ 0 before between) (h₂ : Maps t₂ ret between after) :
    Maps (t₁ ++ t₂) ret before after where
  drops := by rw [drops_append, h₁.drops, h₂.drops, List.append_nil]
  bars := by rw [pciEvents_append, h₁.bars, h₂.bars, List.append_nil]
  gains := by
    intro hret
    rw [h₂.gains hret, h₁.gains rfl, gains_append, List.append_assoc]
  failed := by
    intro hret
    obtain ⟨e, he, hfailed⟩ := h₂.failed hret
    exact ⟨e, List.mem_append_right _ he, hfailed⟩

theorem Maps.stop (h : Maps t ret before between) (hret : ret ≠ 0) : Maps t ret before after :=
  ⟨h.drops, h.bars, fun h0 => absurd h0 hret, h.failed⟩

theorem writeback_init_maps {s : SdeSubsystem} {w : SdeWritebackMem}
    (h : (writeback_init s).Runs t (ret, w)) : Maps t ret before (before ++ [wbRegion w]) := by
  obtain ⟨⟨ret', va, pa⟩, t', rfl, rfl, hr⟩ := h
  obtain ⟨rfl, rfl⟩ := Prod.mk.inj hr
  refine ⟨rfl, rfl, fun h0 => ?_, fun hret => ⟨_, List.mem_cons_self, hret⟩⟩
  subst h0
  rfl

theorem map_buffers_maps (before : List Region) {s : SdeSubsystem} {pkt_size : BitVec 64} {left : Nat}
    {buffers buffers' : List SdeBuffer}
    (h : (map_buffers s pkt_size left buffers).Runs t (ret, buffers')) :
    Maps t ret (before ++ buffers.map bufferRegion) (before ++ buffers'.map bufferRegion) ∧
      (ret = 0 → buffers'.length = buffers.length + left) := by
  induction left generalizing t buffers with
  | zero =>
    obtain ⟨rfl, hr⟩ := h
    obtain ⟨rfl, rfl⟩ := Prod.mk.inj hr
    exact ⟨.nil, fun _ => rfl⟩
  | succ left ih =>
    unfold map_buffers at h
    obtain ⟨t₁, ⟨ret₁, va, pa⟩, t₂, rfl, hmap, hrest⟩ := (Prog.runs_bind _ _ _ _).mp h
    dsimp only at hrest
    generalize hb : (⟨va, pa, pkt_size.setWidth 32,
      if 0x1000 < pkt_size.toNat then 2 * 1024 * 1024 else pkt_size.setWidth 32⟩ : SdeBuffer) = b at hrest
    have hone : Maps t₁ ret₁ (before ++ buffers.map bufferRegion)
        (before ++ (buffers ++ [b]).map bufferRegion) := by
      rw [List.map_append, ← List.append_assoc, ← hb]
      split at hmap
      case isTrue hhuge =>
        obtain ⟨r, t', rfl, rfl, rfl⟩ := hmap
        refine ⟨rfl, rfl, fun h0 => ?_, fun hret => ⟨_, List.mem_cons_self, hret⟩⟩
        subst h0
        rw [if_pos hhuge]
        rfl
      case isFalse hanon =>
        obtain ⟨r, t', rfl, rfl, rfl⟩ := hmap
        refine ⟨rfl, rfl, fun h0 => ?_, fun hret => ⟨_, List.mem_cons_self, hret⟩⟩
        subst h0
        rw [if_neg hanon]
        rfl
    split at hrest
    case isTrue hret =>
      obtain ⟨rfl, hr⟩ := hrest
      obtain ⟨rfl, rfl⟩ := Prod.mk.inj hr
      rw [List.append_nil]
      exact ⟨hone, fun h0 => absurd h0 hret⟩
    case isFalse hret =>
      obtain rfl : ret₁ = 0 := not_not.mp hret
      obtain ⟨hmaps, hlength⟩ := ih hrest
      refine ⟨hone.append hmaps, fun h0 => ?_⟩
      rw [hlength h0, List.length_append, List.length_singleton]
      omega

theorem dma_buffer_init_maps {s : SdeSubsystem} {layout : SdeBufferLayout} {pkt_size : BitVec 64}
    {n num_buffers : Nat} {buffers : Option (List SdeBuffer)}
    (h : (dma_buffer_init s layout pkt_size n).Runs t (ret, buffers, num_buffers)) :
    Maps t ret before (before ++ bufferRegions buffers num_buffers) := by
  unfold dma_buffer_init at h
  obtain ⟨(allocated : Bool), t', rfl, hk⟩ := (Prog.runs_op_bind (I := SdeApi) _ _ _ _).mp h
  by_cases hfail : allocated = false
  · rw [if_pos hfail] at hk
    obtain ⟨rfl, hr⟩ := hk
    obtain ⟨rfl, -⟩ := Prod.mk.inj hr
    exact ⟨rfl, rfl, fun h0 => absurd h0 (by decide), fun _ => ⟨_, List.mem_cons_self, hfail⟩⟩
  · rw [if_neg hfail] at hk
    obtain ⟨t₁, ⟨ret₁, bs⟩, t₂, rfl, hmap, rfl, hr⟩ := (Prog.runs_bind _ _ _ _).mp hk
    obtain ⟨rfl, hbuffers⟩ := Prod.mk.inj hr
    obtain ⟨rfl, hnum⟩ := Prod.mk.inj hbuffers
    obtain ⟨hmaps, hlength⟩ := map_buffers_maps before hmap
    rw [List.map_nil, List.append_nil] at hmaps
    have hmalloc : ∀ e, gained e = none → dropped e = none → pciEvent e = none →
        Maps [e] 0 before before := by
      intro e hgained hdropped hpci
      refine ⟨List.filterMap_cons_none hdropped, List.filterMap_cons_none hpci, fun _ => ?_,
        fun h => absurd rfl h⟩
      rw [gains, List.filterMap_cons_none hgained, List.filterMap_nil, List.append_nil]
    rw [List.append_nil]
    refine (hmalloc ⟨.malloc _, allocated⟩ rfl rfl rfl).append ?_
    by_cases hret : ret = 0
    · have hall : bs.take num_buffers = bs := by
        apply List.take_of_length_le
        rw [hlength hret, hnum, List.length_nil, Nat.zero_add]
      rw [bufferRegions, Option.getD_some, hall]
      exact hmaps
    · exact hmaps.stop hret

theorem writeback_stage (before : List Region) {s : SdeSubsystem} {f : SdeWritebackMem → SdeMem} {r : Int × SdeMem}
    (h : (writeback_init s >>= fun w => pure (w.1, f w.2)).Runs t r) :
    ∃ w, r.2 = f w ∧ Maps t r.1 before (before ++ [wbRegion w]) := by
  obtain ⟨t₁, ⟨ret₁, w⟩, t₂, rfl, hwb, rfl, rfl⟩ := (Prog.runs_bind _ _ _ _).mp h
  rw [List.append_nil]
  exact ⟨w, rfl, writeback_init_maps hwb⟩

theorem buffer_stage (before : List Region) (s : SdeSubsystem) (layout : SdeBufferLayout)
    (pkt_size : BitVec 64) {c : Prop} [Decidable c] {f : Option (List SdeBuffer) → Nat → SdeMem} {r : Int × SdeMem}
    (h : (if c then dma_buffer_init s layout pkt_size 0 >>= fun b => pure (b.1, f b.2.1 b.2.2)
      else pure (0, f none 0)).Runs t r) :
    ∃ buffers num_buffers, r.2 = f buffers num_buffers ∧
      Maps t r.1 before (before ++ bufferRegions buffers num_buffers) := by
  split at h
  · obtain ⟨t₁, ⟨ret₁, bs, n⟩, t₂, rfl, hinit, rfl, rfl⟩ := (Prog.runs_bind _ _ _ _).mp h
    rw [List.append_nil]
    exact ⟨bs, n, rfl, dma_buffer_init_maps hinit⟩
  · obtain ⟨rfl, rfl⟩ := h
    refine ⟨none, 0, rfl, ?_⟩
    rw [show bufferRegions none 0 = [] from rfl, List.append_nil]
    exact .nil

theorem sde_mem_init_maps {c2h_layout h2c_layout : SdeBufferLayout} {direction : SdeExampleDir}
    {pkt_size : BitVec 64} {mem mem' : SdeMem}
    (h : (sde_mem_init c2h_layout h2c_layout direction pkt_size mem).Runs t (ret, mem')) :
    (ret ≠ 0 ∧ t = []) ∨ Maps t ret [] (regions mem') := by
  unfold sde_mem_init at h
  split at h
  case isTrue =>
    obtain ⟨rfl, hr⟩ := h
    obtain ⟨rfl, -⟩ := Prod.mk.inj hr
    exact .inl ⟨by decide, rfl⟩
  case isFalse =>
    right
    rcases Prog.runs_failOn h with ⟨hret, h₁⟩ | ⟨t₁, mem₁, t₂, rfl, h₁, h⟩
    · obtain ⟨w, -, hmaps⟩ := writeback_stage []
        (f := fun w => { SdeMem.zero with c2h_writeback := w }) h₁
      exact hmaps.stop hret
    obtain ⟨w₁, rfl, hmaps₁⟩ := writeback_stage []
        (f := fun w => { SdeMem.zero with c2h_writeback := w }) h₁
    refine hmaps₁.append ?_
    rcases Prog.runs_failOn h with ⟨hret, h₂⟩ | ⟨t₂, mem₂, t₃, rfl, h₂, h⟩
    · obtain ⟨w, -, hmaps⟩ := writeback_stage ([] ++ [wbRegion w₁])
        (f := fun w => { SdeMem.zero with c2h_writeback := w₁, h2c_writeback := w }) h₂
      exact hmaps.stop hret
    obtain ⟨w₂, rfl, hmaps₂⟩ := writeback_stage ([] ++ [wbRegion w₁])
        (f := fun w => { SdeMem.zero with c2h_writeback := w₁, h2c_writeback := w }) h₂
    refine hmaps₂.append ?_
    have hc2h := fun {t r} => buffer_stage ([] ++ [wbRegion w₁] ++ [wbRegion w₂]) .c2h c2h_layout
      pkt_size (t := t) (r := r) (c := direction ≠ .h2c ∧ c2h_layout ≠ .user_managed)
      (f := fun buffers num_buffers => { SdeMem.zero with
        c2h_writeback := w₁, h2c_writeback := w₂, c2h_layout := c2h_layout,
        c2h_buffers := buffers, c2h_num_buffers := num_buffers })
    rcases Prog.runs_failOn h with ⟨hret, h₃⟩ | ⟨t₃, mem₃, t₄, rfl, h₃, h⟩
    · obtain ⟨b, n, -, hmaps⟩ := hc2h h₃
      exact hmaps.stop hret
    obtain ⟨b₁, n₁, rfl, hmaps₃⟩ := hc2h h₃
    refine hmaps₃.append ?_
    have hh2c := fun {t r} => buffer_stage
      ([] ++ [wbRegion w₁] ++ [wbRegion w₂] ++ bufferRegions b₁ n₁) .h2c h2c_layout
      pkt_size (t := t) (r := r) (c := direction ≠ .c2h ∧ h2c_layout ≠ .user_managed)
      (f := fun buffers num_buffers => { SdeMem.zero with
        c2h_writeback := w₁, h2c_writeback := w₂, c2h_layout := c2h_layout,
        c2h_buffers := b₁, c2h_num_buffers := n₁, h2c_layout := h2c_layout
        h2c_buffers := buffers, h2c_num_buffers := num_buffers })
    rcases Prog.runs_failOn h with ⟨hret, h₄⟩ | ⟨t₄, mem₄, t₅, rfl, h₄, rfl, hr⟩
    · obtain ⟨b, n, -, hmaps⟩ := hh2c h₄
      exact hmaps.stop hret
    obtain ⟨rfl, rfl⟩ := Prod.mk.inj hr
    obtain ⟨b₂, n₂, rfl, hmaps₄⟩ := hh2c h₄
    rw [List.append_nil]
    exact hmaps₄

end Maps

/-! ## What opening and closing do -/

section Calls

variable {t : List SdeApi.Event} {ret : Int} {m m' : SdeMgmt} {slot_id : Int}

theorem unmap_buffers_drops {bs : List SdeBuffer} {ret₀ : Int}
    (h : (unmap_buffers bs ret₀).Runs t ret) :
    gains t = [] ∧ pciEvents t = [] ∧ drops t = bs.map bufferRegion := by
  induction bs generalizing t ret₀ with
  | nil =>
    obtain ⟨rfl, -⟩ := h
    exact ⟨rfl, rfl, rfl⟩
  | cons b bs ih =>
    obtain ⟨r, t', rfl, hrest⟩ := h
    obtain ⟨hgains, hbars, hdrops⟩ := ih hrest
    refine ⟨hgains, hbars, ?_⟩
    rw [List.map_cons, ← hdrops]
    rfl

theorem sde_mem_close_drops {mem mem' : SdeMem} (h : (sde_mem_close mem).Runs t (ret, mem')) :
    gains t = [] ∧ pciEvents t = [] ∧ drops t = regions mem := by
  unfold sde_mem_close at h
  obtain ⟨r₀, t₀, rfl, h₀⟩ := (Prog.runs_op_bind (I := SdeApi) _ _ _ _).mp h
  obtain ⟨r₁, t₁, rfl, h₁⟩ := (Prog.runs_op_bind (I := SdeApi) _ _ _ _).mp h₀
  obtain ⟨t₂, ret₂, t₃, rfl, hc2h, h₂⟩ := (Prog.runs_bind _ _ _ _).mp h₁
  obtain ⟨t₄, ret₄, t₅, rfl, hh2c, h₃⟩ := (Prog.runs_bind _ _ _ _).mp h₂
  obtain ⟨_, t₆, rfl, _, t₇, rfl, rfl, -⟩ := h₃
  obtain ⟨hgains, hbars, hdrops⟩ := unmap_buffers_drops hc2h
  obtain ⟨hgains', hbars', hdrops'⟩ := unmap_buffers_drops hh2c
  -- Two unmaps, then those of the buffers, then the two `free`.
  rw [show ∀ e e' t, e :: e' :: t = [e, e'] ++ t from fun _ _ _ => rfl]
  simp only [gains_append, pciEvents_append, drops_append, hgains, hbars, hdrops, hgains', hbars',
    hdrops']
  exact ⟨rfl, rfl, by rw [regions, List.append_assoc]; simp [drops, dropped, wbRegion, bufferRegions]⟩

section Registers

variable (tp : List PciApi.Event)

theorem gains_registers : gains (tp.map liftEvent) = [] :=
  List.filterMap_eq_nil_iff.mpr (List.forall_mem_map.mpr fun _ _ => rfl)

theorem drops_registers : drops (tp.map liftEvent) = [] :=
  List.filterMap_eq_nil_iff.mpr (List.forall_mem_map.mpr fun _ _ => rfl)

theorem pciEvents_registers : pciEvents (tp.map liftEvent) = tp :=
  List.filterMap_map.trans List.filterMap_some

end Registers

/-- What the register layer does touches no memory. -/
theorem only_registers {α : Type} {p : Prog PciApi α} {a : α} (h : (ofPci p).Runs t a) :
    gains t = [] ∧ drops t = [] ∧ p.Runs (pciEvents t) a := by
  obtain ⟨tp, hrun, rfl⟩ := runs_ofPci h
  rw [pciEvents_registers]
  exact ⟨gains_registers tp, drops_registers tp, hrun⟩

/-- How `sde_mgmt_init` ends. -/
inductive InitEnd (slot_id : Int) (m : SdeMgmt) (t : List SdeApi.Event) (ret : Int) (m' : SdeMgmt) :
    Prop where
  | rejected (hret : ret ≠ 0) (ht : t = []) (hm : m' = m)
  | failed (hret : ret ≠ 0) (hclosed : m'.initialized = false)
    (hctrl : m'.hw_ctrl.initialized = false) (hdrops : drops t = [])
    (hbars : pciEvents t = [] ∨ (sde_hw_init slot_id).Runs (pciEvents t) (ret, m'.hw_ctrl))
    (hfailed : t = [] ∨ ∃ e ∈ t, Failed e)
  | opened (hret : ret = 0) (hslot : slot_id < SDE_SLOT_MAX) (hopen : m'.initialized = true)
    (hdrops : drops t = []) (hgains : gains t = regions m'.mem)
    (hbars : (sde_hw_init slot_id).Runs (pciEvents t) (0, m'.hw_ctrl))

theorem failed_of_refused {p : PciApi.Event} (hp : p ∈ pciEvents t) (h : Refused p) :
    ∃ e ∈ t, Failed e := by
  obtain ⟨⟨o, r⟩, he, hpci⟩ := List.mem_filterMap.mp hp
  refine ⟨_, he, ?_⟩
  cases o with
  | pci o =>
    cases hpci
    exact h
  | _ => cases hpci

theorem hw_init_refused {ctrl : SdeHwCtrl} {tp : List PciApi.Event}
    (h : (sde_hw_init slot_id).Runs tp (ret, ctrl)) (hret : ret ≠ 0) : ∃ p ∈ tp, Refused p := by
  obtain ⟨r₀, r₁, r₂, rfl, hinit, hok⟩ := sde_hw_init_spec h
  by_contra hall
  push Not at hall
  obtain ⟨hok₀, hall₁⟩ := List.forall_mem_cons.mp hall
  obtain ⟨hok₁, hall₂⟩ := List.forall_mem_cons.mp hall₁
  obtain ⟨hok₂, -⟩ := List.forall_mem_cons.mp hall₂
  exact hret (hok.mp (hinit.mpr ⟨not_not.mp hok₀, not_not.mp hok₁, not_not.mp hok₂⟩))

theorem sde_mgmt_init_end {direction : SdeExampleDir} {packet_size : BitVec 64}
    {layout : SdeBufferLayout}
    (h : (sde_mgmt_init slot_id direction packet_size layout m).Runs t (ret, m')) :
    InitEnd slot_id m t ret m' := by
  unfold sde_mgmt_init at h
  split at h
  case isTrue =>
    obtain ⟨rfl, hr⟩ := h
    obtain ⟨rfl, rfl⟩ := Prod.mk.inj hr
    exact .rejected (by decide) rfl rfl
  case isFalse hslot =>
    rcases Prog.runs_failOn h with ⟨hret, hmem⟩ | ⟨t₁, m₁, t₂, rfl, hmem, hrest⟩
    · obtain ⟨t₁, ⟨ret₁, mem⟩, t₂, rfl, hmaps, rfl, hr⟩ := (Prog.runs_bind _ _ _ _).mp hmem
      obtain ⟨rfl, rfl⟩ := Prod.mk.inj hr
      rw [List.append_nil]
      rcases sde_mem_init_maps hmaps with ⟨-, rfl⟩ | hmaps
      · exact .failed hret rfl rfl rfl (.inl rfl) (.inl rfl)
      · exact .failed hret rfl rfl hmaps.drops (.inl hmaps.bars) (.inr (hmaps.failed hret))
    · obtain ⟨t₁, ⟨ret₁, mem⟩, t₃, rfl, hinit, rfl, hr⟩ := (Prog.runs_bind _ _ _ _).mp hmem
      obtain ⟨rfl, rfl⟩ := Prod.mk.inj hr
      rw [List.append_nil]
      have hmaps := (sde_mem_init_maps hinit).resolve_left fun h => h.1 rfl
      rcases Prog.runs_failOn hrest with ⟨hret, hhw⟩ | ⟨t₂, m₂, t₃, rfl, hhw, rfl, hr⟩
      · obtain ⟨t₂, ⟨ret₂, ctrl⟩, t₃, rfl, hpci, rfl, hr⟩ := (Prog.runs_bind _ _ _ _).mp hhw
        obtain ⟨rfl, rfl⟩ := Prod.mk.inj hr
        rw [List.append_nil]
        obtain ⟨hgains, hdrops, hruns⟩ := only_registers hpci
        have hbars : pciEvents (t₁ ++ t₂) = pciEvents t₂ := by
          rw [pciEvents_append, hmaps.bars, List.nil_append]
        obtain ⟨p, hp, hrefused⟩ := hw_init_refused hruns hret
        obtain ⟨-, -, -, -, -, hok⟩ := sde_hw_init_spec hruns
        refine .failed hret rfl ?_ ?_ ?_ (.inr (failed_of_refused (hbars ▸ hp) hrefused))
        · rw [← Bool.not_eq_true, hok]
          exact hret
        · rw [drops_append, hmaps.drops, hdrops, List.append_nil]
        · rw [hbars]
          exact .inr hruns
      · obtain ⟨t₂, ⟨ret₂, ctrl⟩, t₃, rfl, hpci, rfl, hr₂⟩ := (Prog.runs_bind _ _ _ _).mp hhw
        obtain ⟨rfl, rfl⟩ := Prod.mk.inj hr₂
        obtain ⟨rfl, rfl⟩ := Prod.mk.inj hr
        obtain ⟨hgains, hdrops, hruns⟩ := only_registers hpci
        simp only [List.append_nil]
        refine .opened rfl (Int.not_le.mp hslot) rfl ?_ ?_ ?_
        · rw [drops_append, hmaps.drops, hdrops, List.append_nil]
        · rw [gains_append, hgains, List.append_nil, hmaps.gains rfl, List.nil_append]
        · rw [pciEvents_append, hmaps.bars, List.nil_append]
          exact hruns

theorem hw_close_closed {ctrl ctrl' : SdeHwCtrl} {tp : List PciApi.Event}
    (h : (sde_hw_close ctrl).Runs tp (ret, ctrl')) : ctrl'.initialized = false := by
  have hensures : (sde_hw_close ctrl).Ensures fun r => r.2.initialized = false := by
    unfold sde_hw_close
    split
    case isTrue => exact fun _ _ _ => rfl
    case isFalse hclosed => exact Prog.ensures_pure (by simpa using hclosed)
  exact Prog.ensures_iff_runs.mp hensures _ _ h

theorem sde_mgmt_close_spec (h : (sde_mgmt_close slot_id m).Runs t (ret, m'))
    (hslot : slot_id < SDE_SLOT_MAX) (hinit : m.initialized = true) :
    gains t = [] ∧ drops t = regions m.mem ∧ m'.initialized = true ∧
      ∃ ret', (sde_hw_close m.hw_ctrl).Runs (pciEvents t) (ret', m'.hw_ctrl) := by
  unfold sde_mgmt_close checked at h
  rw [if_neg (Int.not_le.mpr hslot), hinit, if_neg (by decide)] at h
  obtain ⟨t₁, ⟨ret₁, ctrl⟩, t₂, rfl, hhw, h₁⟩ := (Prog.runs_bind _ _ _ _).mp h
  obtain ⟨t₂, ⟨ret₂, mem⟩, t₃, rfl, hmem, rfl, hr⟩ := (Prog.runs_bind _ _ _ _).mp h₁
  obtain ⟨rfl, rfl⟩ := Prod.mk.inj hr
  obtain ⟨hgains, hdrops, hruns⟩ := only_registers hhw
  obtain ⟨hgains', hbars', hdrops'⟩ := sde_mem_close_drops hmem
  simp only [List.append_nil, gains_append, drops_append, pciEvents_append, hgains, hdrops, hgains',
    hdrops', hbars']
  exact ⟨trivial, rfl, trivial, ret₁, hruns⟩

end Calls

/-! ## Runs over all slots -/

structure DriverState where
  slots : Slots
  /-- `sde_mgmt_close` went through since the slot was opened. -/
  closed : Nat → Bool
  res : Resources

namespace DriverState

def start : DriverState := ⟨.start, fun _ => false, .start⟩

/-- Open: what the initialisation took is not given back yet. -/
def Live (s : DriverState) (slot : Nat) : Prop :=
  (s.slots slot).initialized = true ∧ s.closed slot = false

/-- Closed, and not opened again. -/
def Closed (s : DriverState) (slot : Nat) : Prop :=
  (s.slots slot).initialized = true ∧ s.closed slot = true

end DriverState

def closedAfter (m : SdeMgmt) (closed : Bool) (ret : Int) : SdeCall → Bool
  | .init .. => if ret = 0 then false else closed
  | .close => m.initialized || closed
  | _ => closed

inductive DriverStep (s : DriverState) (slot : Nat) (call : SdeCall) (ret : Int)
    (t : List SdeApi.Event) : DriverState → Prop where
  | intro {slots res} (hcall : SlotStep s.slots slot call ret t slots)
    (htouch : Trace (Touches slot) t s.res res) :
    DriverStep s slot call ret t
      ⟨slots, Function.update s.closed slot (closedAfter (s.slots slot) (s.closed slot) ret call), res⟩

/-- An event that maps and attaches nothing. -/
def TakesNothing (e : SdeApi.Event) : Prop :=
  gained e = none ∧ ∀ p, pciEvent e = some p → TakesNone p

/-- The condition on a call: a slot is opened when it is not open, with every step working or with
none that takes anything, and after it was closed it is opened before anything else. -/
def Tidy (s : DriverState) (slot : Nat) (t : List SdeApi.Event) : SdeCall → Prop
  | .init .. => ¬ s.Live slot ∧ ((∀ e ∈ t, ¬ Failed e) ∨ ∀ e ∈ t, TakesNothing e)
  | _ => ¬ s.Closed slot

/-- Besides, no BAR stays attached because its detach failed. -/
def TidyBars (s : DriverState) (slot : Nat) (t : List SdeApi.Event) (call : SdeCall) : Prop :=
  Tidy s slot t call ∧ (call = .close → ∀ e ∈ t, ∀ p, pciEvent e = some p → Released p)

structure RegionsInv (s : DriverState) : Prop where
  strays : s.res.strays = 0
  mapped : ∀ r slot, s.res.mapped r = some slot ↔ s.Live slot ∧ r ∈ regions (s.slots slot).mem
  nodup : ∀ slot, s.Live slot → (regions (s.slots slot).mem).Nodup
  range : ∀ slot, (s.slots slot).initialized = true → (slot : Int) < SDE_SLOT_MAX

theorem regionsInv_start : RegionsInv .start where
  strays := rfl
  mapped := by simp [DriverState.start, Resources.start, DriverState.Live, Slots.start, SdeMgmt.zero]
  nodup := fun slot h => by cases h.1
  range := fun slot h => by cases h

/-- The controls of the slots own BAR entries. The management library has none here. -/
def barRecords (ctrls : Nat → SdeHwCtrl) : Fin FPGA_SLOT_MAX ⊕ Nat × Fin 3 → Option Entry :=
  Sum.elim (fun _ => none) (ctrlRecords ctrls)

def ctrls (slots : Slots) (slot : Nat) : SdeHwCtrl := (slots slot).hw_ctrl

theorem ctrls_update (slots : Slots) (slot : Nat) (m : SdeMgmt) :
    ctrls (Function.update slots slot m) = Function.update (ctrls slots) slot m.hw_ctrl :=
  Function.comp_update SdeMgmt.hw_ctrl slots slot m

structure BarsInv (s : DriverState) : Prop where
  bars : Owned s.res.bars (barRecords (ctrls s.slots))
  ctrl : ∀ slot, ¬ s.Live slot → (s.slots slot).hw_ctrl.initialized = false

theorem barsInv_start : BarsInv .start where
  bars := .empty fun o => by cases o <;> rfl
  ctrl := fun _ _ => rfl

section Steps

variable {s s' : DriverState} {slot : Nat} {call : SdeCall} {ret : Int} {t : List SdeApi.Event}

theorem regionsInv_update {m : SdeMgmt} {closed : Bool} {res : Resources} (hinv : RegionsInv s)
    (hstrays : res.strays = s.res.strays)
    (hothers : ∀ r slot', slot' ≠ slot → (res.mapped r = some slot' ↔ s.res.mapped r = some slot'))
    (hmine : ∀ r, res.mapped r = some slot ↔
      (m.initialized = true ∧ closed = false) ∧ r ∈ regions m.mem)
    (hnodup : m.initialized = true ∧ closed = false → (regions m.mem).Nodup)
    (hrange : m.initialized = true → (slot : Int) < SDE_SLOT_MAX) :
    RegionsInv ⟨Function.update s.slots slot m, Function.update s.closed slot closed, res⟩ where
  strays := hstrays.trans hinv.strays
  mapped := by
    intro r slot'
    unfold DriverState.Live
    by_cases heq : slot' = slot
    · subst heq
      simp only [Function.update_self]
      exact hmine r
    · simp only [Function.update_of_ne heq]
      exact (hothers r slot' heq).trans (hinv.mapped r slot')
  nodup := by
    intro slot'
    unfold DriverState.Live
    by_cases heq : slot' = slot
    · subst heq
      simp only [Function.update_self]
      exact hnodup
    · simp only [Function.update_of_ne heq]
      exact hinv.nodup slot'
  range := by
    intro slot'
    by_cases heq : slot' = slot
    · subst heq
      simp only [Function.update_self]
      exact hrange
    · simp only [Function.update_of_ne heq]
      exact hinv.range slot'

theorem barsInv_update {m : SdeMgmt} {closed : Bool} {res : Resources} (hinv : BarsInv s)
    (hbars : Owned res.bars (barRecords (Function.update (ctrls s.slots) slot m.hw_ctrl)))
    (hctrl : ¬ (m.initialized = true ∧ closed = false) → m.hw_ctrl.initialized = false) :
    BarsInv ⟨Function.update s.slots slot m, Function.update s.closed slot closed, res⟩ where
  bars := by
    rw [ctrls_update]
    exact hbars
  ctrl := by
    intro slot'
    unfold DriverState.Live
    by_cases heq : slot' = slot
    · subst heq
      simp only [Function.update_self]
      exact hctrl
    · simp only [Function.update_of_ne heq]
      exact hinv.ctrl slot'

theorem live_same {m : SdeMgmt} {closed : Bool} (hframe : Frame (s.slots slot) m)
    (hclosed : m.initialized = true → closed = s.closed slot) :
    (m.initialized = true ∧ closed = false) ↔ s.Live slot := by
  constructor
  · rintro ⟨h, h'⟩
    exact ⟨hframe.initialized ▸ h, hclosed h ▸ h'⟩
  · rintro ⟨h, h'⟩
    have hinit := hframe.initialized.trans h
    exact ⟨hinit, (hclosed hinit).trans h'⟩

theorem regionsInv_same {m : SdeMgmt} {closed : Bool} {res : Resources} (hinv : RegionsInv s)
    (hframe : Frame (s.slots slot) m) (hclosed : m.initialized = true → closed = s.closed slot)
    (hstrays : res.strays = s.res.strays) (hmapped : ∀ r, res.mapped r = s.res.mapped r) :
    RegionsInv ⟨Function.update s.slots slot m, Function.update s.closed slot closed, res⟩ := by
  have hlive := live_same hframe hclosed
  refine regionsInv_update hinv hstrays (fun r slot' _ => by rw [hmapped]) ?_ ?_ ?_
  · intro r
    rw [hmapped, hlive, hframe.mem]
    exact hinv.mapped r slot
  · rw [hlive, hframe.mem]
    exact hinv.nodup slot
  · rw [hframe.initialized]
    exact hinv.range slot

theorem barsInv_same {m : SdeMgmt} {closed : Bool} {res : Resources} (hinv : BarsInv s)
    (hframe : Frame (s.slots slot) m) (hclosed : m.initialized = true → closed = s.closed slot)
    (hbars : res.bars = s.res.bars) :
    BarsInv ⟨Function.update s.slots slot m, Function.update s.closed slot closed, res⟩ := by
  refine barsInv_update hinv ?_ ?_
  · have hsame : Function.update (ctrls s.slots) slot (s.slots slot).hw_ctrl = ctrls s.slots :=
      Function.update_eq_self ..
    rw [hframe.hw_ctrl, hsame, hbars]
    exact hinv.bars
  · rw [live_same hframe hclosed, hframe.hw_ctrl]
    exact hinv.ctrl slot

theorem trace_plain {R R' : Resources} (h : Trace (Touches slot) t R R')
    (ht : ∀ e ∈ t, Plain e.1) :
    R'.strays = R.strays ∧ (∀ r, R'.mapped r = R.mapped r) ∧ R'.bars = R.bars := by
  have hnone : ∀ e ∈ t, gained e = none ∧ dropped e = none ∧
      ∀ p, pciEvent e = some p → KeepsTable p.1 := by
    rintro ⟨o, r⟩ he
    have hplain := ht _ he
    cases o with
    | pci o =>
      refine ⟨rfl, rfl, ?_⟩
      rintro p hp
      cases hp
      cases o with
      | attach => exact hplain
      | detach => exact hplain
      | _ => trivial
    | map_anon => exact hplain.elim
    | map_huge => exact hplain.elim
    | unmap => exact hplain.elim
    | _ => exact ⟨rfl, rfl, fun p hp => by cases hp⟩
  have hgains : gains t = [] := List.filterMap_eq_nil_iff.mpr fun e he => (hnone e he).1
  have hdrops : drops t = [] := List.filterMap_eq_nil_iff.mpr fun e he => (hnone e he).2.1
  obtain ⟨hstrays, -, -, hmapped⟩ := trace_gains h hdrops
  refine ⟨hstrays, fun r => hmapped r (by rw [hgains]; exact List.not_mem_nil), ?_⟩
  have hpci : ∀ p ∈ pciEvents t, KeepsTable p.1 := by
    intro p hp
    obtain ⟨e, he, hpe⟩ := List.mem_filterMap.mp hp
    exact (hnone e he).2.2 p hpe
  exact trace_frame (fun e y y' hkeep hy => effect_keeps hkeep hy) hpci (trace_bars h)

theorem together (h : (∀ e ∈ t, ¬ Failed e) ∨ ∀ e ∈ t, TakesNothing e) :
    (∀ e ∈ pciEvents t, ¬ Refused e) ∨ ∀ e ∈ pciEvents t, TakesNone e := by
  rcases h with hworks | htakes
  · left
    intro p hp hrefused
    obtain ⟨e, he, hfailed⟩ := failed_of_refused hp hrefused
    exact hworks e he hfailed
  · right
    intro p hp
    obtain ⟨e, he, hpe⟩ := List.mem_filterMap.mp hp
    exact (htakes e he).2 p hpe

section Init

variable {m : SdeMgmt} {res : Resources} (hend : InitEnd slot (s.slots slot) t ret m)
  (htouch : Trace (Touches slot) t s.res res) (hlive : ¬ s.Live slot)
  (htidy : (∀ e ∈ t, ¬ Failed e) ∨ ∀ e ∈ t, TakesNothing e)
include hend htouch hlive htidy

theorem init_inv (hinv : RegionsInv s) :
    RegionsInv ⟨Function.update s.slots slot m,
      Function.update s.closed slot (if ret = 0 then false else s.closed slot), res⟩ := by
  have hnot : ∀ r, s.res.mapped r ≠ some slot := fun r hr => hlive ((hinv.mapped r slot).mp hr).1
  cases hend with
  | rejected hret ht hm =>
    subst ht hm
    rw [trace_nil.mp htouch, if_neg hret]
    exact regionsInv_same hinv (.refl _) (fun _ => rfl) rfl fun _ => rfl
  | failed hret hclosed hctrl hdrops hbars hfailed =>
    obtain ⟨hstrays, -, hgained, hkept⟩ := trace_gains htouch hdrops
    have hgains : gains t = [] := by
      rcases hfailed with rfl | ⟨e, he, hfail⟩
      · rfl
      · rcases htidy with hworks | htakes
        · exact absurd hfail (hworks e he)
        · exact List.filterMap_eq_nil_iff.mpr fun e he => (htakes e he).1
    have hmapped : ∀ r, res.mapped r = s.res.mapped r :=
      fun r => hkept r (by rw [hgains]; exact List.not_mem_nil)
    have hclosed' : ¬ (m.initialized = true ∧ (if ret = 0 then false else s.closed slot) = false) :=
      fun h => by rw [hclosed] at h; cases h.1
    refine regionsInv_update hinv hstrays (fun r slot' _ => by rw [hmapped]) ?_ ?_ ?_
    · intro r
      rw [hmapped]
      exact iff_of_false (hnot r) fun h => hclosed' h.1
    · exact fun h => absurd h hclosed'
    · intro h
      rw [hclosed] at h
      cases h
  | opened hret hslot hopen hdrops hgains hbars =>
    subst hret
    obtain ⟨hstrays, hnodup, hgained, hkept⟩ := trace_gains htouch hdrops
    rw [hgains] at hnodup hgained hkept
    rw [if_pos rfl]
    refine regionsInv_update hinv hstrays ?_ ?_ (fun _ => hnodup) fun _ => hslot
    · intro r slot' hne
      by_cases hr : r ∈ regions m.mem
      · rw [(hgained r hr).1, (hgained r hr).2]
        exact iff_of_false (fun h => hne (Option.some.inj h).symm) (by simp)
      · rw [hkept r hr]
    · intro r
      by_cases hr : r ∈ regions m.mem
      · exact iff_of_true (hgained r hr).2 ⟨⟨hopen, rfl⟩, hr⟩
      · rw [hkept r hr]
        exact iff_of_false (hnot r) fun h => hr h.2

theorem init_bars (hinv : BarsInv s) :
    BarsInv ⟨Function.update s.slots slot m,
      Function.update s.closed slot (if ret = 0 then false else s.closed slot), res⟩ := by
  have hnone : ∀ k, ctrlRecord (ctrls s.slots slot) k = none :=
    ctrlRecord_closed (hinv.ctrl slot hlive)
  cases hend with
  | rejected hret ht hm =>
    subst ht hm
    rw [trace_nil.mp htouch, if_neg hret]
    exact barsInv_same hinv (.refl _) (fun _ => rfl) rfl
  | failed hret hclosed hctrl hdrops hbars hfailed =>
    have hsame : res.bars = s.res.bars := by
      rcases hbars with hbars | hruns
      · have := trace_bars htouch
        rw [hbars] at this
        exact trace_nil.mp this
      · exact sde_hw_init_frame hruns (trace_bars htouch) (together htidy) hctrl
    refine barsInv_update hinv ?_ fun _ => hctrl
    have hrec : barRecords (Function.update (ctrls s.slots) slot m.hw_ctrl) =
        barRecords (ctrls s.slots) := by
      funext o
      rcases o with i | ⟨c, k⟩
      · rfl
      · change ctrlRecord (Function.update (ctrls s.slots) slot m.hw_ctrl c) k =
          ctrlRecord (ctrls s.slots c) k
        by_cases hc : c = slot
        · rw [hc, Function.update_self, ctrlRecord_closed hctrl, hnone]
        · rw [Function.update_of_ne hc]
    rw [hrec, hsame]
    exact hinv.bars
  | opened hret hslot hopen hdrops hgains hbars =>
    subst hret
    rw [if_pos rfl]
    refine barsInv_update hinv ?_ fun h => absurd ⟨hopen, rfl⟩ h
    exact sde_hw_init_owned hbars (trace_bars htouch) hinv.bars hnone (together htidy)

end Init

theorem close_inv {m : SdeMgmt} {res : Resources} (hinv : RegionsInv s)
    (hrun : (sde_mgmt_close slot (s.slots slot)).Runs t (ret, m))
    (htouch : Trace (Touches slot) t s.res res) (hlive : s.Live slot) :
    RegionsInv ⟨Function.update s.slots slot m, Function.update s.closed slot true, res⟩ := by
  obtain ⟨hgains, hdrops, -, -⟩ := sde_mgmt_close_spec hrun (hinv.range slot hlive.1) hlive.1
  have hmine : ∀ r ∈ regions (s.slots slot).mem, s.res.mapped r = some slot :=
    fun r hr => (hinv.mapped r slot).mpr ⟨hlive, hr⟩
  obtain ⟨hstrays, hdropped, hkept⟩ := trace_drops htouch hgains
    (by rw [hdrops]; exact hinv.nodup slot hlive)
    (by rw [hdrops]; exact fun r hr h => by rw [hmine r hr] at h; cases h)
  rw [hdrops] at hdropped hkept
  have hclosed : ¬ (m.initialized = true ∧ true = false) := by simp
  refine regionsInv_update hinv hstrays ?_ ?_ (fun h => absurd h hclosed) fun _ =>
    hinv.range slot hlive.1
  · intro r slot' hne
    by_cases hr : r ∈ regions (s.slots slot).mem
    · rw [hdropped r hr, hmine r hr]
      exact iff_of_false (by simp) fun h => hne (Option.some.inj h).symm
    · rw [hkept r hr]
  · intro r
    refine iff_of_false ?_ fun h => hclosed h.1
    by_cases hr : r ∈ regions (s.slots slot).mem
    · rw [hdropped r hr]
      simp
    · rw [hkept r hr]
      exact fun h => hr ((hinv.mapped r slot).mp h).2

theorem close_bars {m : SdeMgmt} {res : Resources} (hinv : BarsInv s)
    (hslot : (slot : Int) < SDE_SLOT_MAX)
    (hrun : (sde_mgmt_close slot (s.slots slot)).Runs t (ret, m))
    (htouch : Trace (Touches slot) t s.res res) (hlive : s.Live slot)
    (hrel : ∀ e ∈ t, ∀ p, pciEvent e = some p → Released p) :
    BarsInv ⟨Function.update s.slots slot m, Function.update s.closed slot true, res⟩ := by
  obtain ⟨-, -, -, ret', hbars⟩ := sde_mgmt_close_spec hrun hslot hlive.1
  refine barsInv_update hinv ?_ fun _ => hw_close_closed hbars
  refine sde_hw_close_owned hbars (trace_bars htouch) hinv.bars ?_
  intro p hp
  obtain ⟨e, he, hpe⟩ := List.mem_filterMap.mp hp
  exact hrel e he p hpe

theorem body_frame {slot_id : Int} {m : SdeMgmt} (hinit : ∀ d p l, call ≠ .init d p l)
    (hclose : call ≠ .close) :
    (call.body slot_id m).Meets (fun _ _ => True) Plain fun r => Frame m r.2 := by
  have hchecked : ∀ {k : Prog SdeApi (Int × SdeMgmt)},
      k.Meets (fun _ _ => True) Plain (fun r => Frame m r.2) →
      (checked slot_id m (fun ret => pure (ret, m)) k).Meets (fun _ _ => True) Plain
        fun r => Frame m r.2 :=
    fun hk => meets_checked (fun _ => Prog.meets_pure (.refl m)) fun _ => hk
  have hpassive : call.IsPassive →
      (call.body slot_id m).Meets (fun _ _ => True) Plain fun r => Frame m r.2 :=
    fun h => Prog.meets_mono (body_same slot_id m h) passive_plain fun _ hr => hr.toFrame
  cases call with
  | init direction packet_size layout => exact absurd rfl (hinit _ _ _)
  | close => exact absurd rfl hclose
  | reset =>
    refine hchecked (Prog.meets_bind (hw_reset_plain _) fun (ret : Int) _ => ?_)
    split
    · exact Prog.meets_pure (.refl m)
    · iterate 9 refine Prog.meets_op_bind trivial fun _ _ => ?_
      exact Prog.meets_pure ⟨rfl, rfl, rfl⟩
  | cfg => exact hchecked (Prog.meets_mono (cfg_same m) cfgCall_plain fun _ hr => hr.toFrame)
  | post_desc s num_desc =>
    exact Prog.meets_bind (post_desc_frame _ _ _ _) fun r hr => Prog.meets_pure hr
  | start_read size =>
    refine hchecked ?_
    split
    · exact transfer_frame _ _ _ _
    · exact Prog.meets_pure (.refl m)
  | write size =>
    refine hchecked ?_
    split
    · exact Prog.meets_pure (.refl m)
    · exact transfer_frame _ _ _ _
  | _ => exact hpassive trivial

/-- What one call does, by the three kinds of calls. -/
inductive CallEnd (s : DriverState) (slot : Nat) (t : List SdeApi.Event) :
    SdeCall → Int → SdeMgmt → Bool → Prop where
  | init {d p l ret m} (hend : InitEnd slot (s.slots slot) t ret m) :
    CallEnd s slot t (.init d p l) ret m (if ret = 0 then false else s.closed slot)
  | close {ret m} (hopen : (s.slots slot).initialized = true)
    (hrun : (sde_mgmt_close slot (s.slots slot)).Runs t (ret, m)) :
    CallEnd s slot t .close ret m true
  | other {call ret m closed} (hinit : ∀ d p l, call ≠ .init d p l)
    (hframe : Frame (s.slots slot) m) (hplain : ∀ e ∈ t, Plain e.1)
    (hclosed : m.initialized = true → closed = s.closed slot) :
    CallEnd s slot t call ret m closed

theorem step_end {m : SdeMgmt} (hrun : (call.body slot (s.slots slot)).Runs t (ret, m)) :
    CallEnd s slot t call ret m (closedAfter (s.slots slot) (s.closed slot) ret call) := by
  by_cases hinit : ∃ d p l, call = .init d p l
  · obtain ⟨direction, packet_size, layout, rfl⟩ := hinit
    exact .init (sde_mgmt_init_end hrun)
  · have hinit' : ∀ d p l, call ≠ .init d p l := fun d p l h => hinit ⟨d, p, l, h⟩
    by_cases hclose : call = .close
    · subst hclose
      by_cases hopen : (s.slots slot).initialized = true
      · rw [closedAfter, hopen, Bool.true_or]
        exact .close hopen hrun
      · have hclosed : (s.slots slot).initialized = false := by simpa using hopen
        rw [body_closed hclosed hinit'] at hrun
        obtain ⟨rfl, hr⟩ := hrun
        obtain ⟨-, rfl⟩ := Prod.mk.inj hr
        exact .other hinit' (.refl _) (by simp) fun h => absurd h hopen
    · obtain ⟨hplain, hframe⟩ :=
        Prog.runs_meets (body_frame hinit' hclose) hrun fun _ _ => trivial
      refine .other hinit' hframe hplain fun _ => ?_
      cases call with
      | init d p l => exact absurd rfl (hinit' d p l)
      | close => exact absurd rfl hclose
      | _ => rfl

theorem live_of_tidy (htidy : Tidy s slot t .close) (hopen : (s.slots slot).initialized = true) :
    s.Live slot := by
  refine ⟨hopen, ?_⟩
  rw [← Bool.not_eq_true]
  exact fun h => htidy ⟨hopen, h⟩

theorem step_inv (hinv : RegionsInv s) (hstep : DriverStep s slot call ret t s')
    (htidy : Tidy s slot t call) : RegionsInv s' := by
  obtain @⟨slots, res, ⟨m, hrun, rfl⟩, htouch⟩ := hstep
  have hend := step_end hrun
  generalize closedAfter (s.slots slot) (s.closed slot) ret call = closed at hend ⊢
  cases hend with
  | init hend => exact init_inv hend htouch htidy.1 htidy.2 hinv
  | close hopen hrun => exact close_inv hinv hrun htouch (live_of_tidy htidy hopen)
  | other _ hframe hplain hclosed =>
    obtain ⟨hstrays, hmapped, -⟩ := trace_plain htouch hplain
    exact regionsInv_same hinv hframe hclosed hstrays hmapped

theorem step_bars (hinv : BarsInv s) (hregions : RegionsInv s)
    (hstep : DriverStep s slot call ret t s') (htidy : TidyBars s slot t call) : BarsInv s' := by
  obtain @⟨slots, res, ⟨m, hrun, rfl⟩, htouch⟩ := hstep
  have hend := step_end hrun
  generalize closedAfter (s.slots slot) (s.closed slot) ret call = closed at hend ⊢
  cases hend with
  | init hend => exact init_bars hend htouch htidy.1.1 htidy.1.2 hinv
  | close hopen hrun =>
    exact close_bars hinv (hregions.range slot hopen) hrun htouch (live_of_tidy htidy.1 hopen)
      (htidy.2 rfl)
  | other _ hframe hplain hclosed =>
    obtain ⟨-, -, hbars⟩ := trace_plain htouch hplain
    exact barsInv_same hinv hframe hclosed hbars

end Steps

/-- The states of the runs whose calls all meet a condition. -/
inductive CallRun (C : DriverState → Nat → List SdeApi.Event → SdeCall → Prop) :
    DriverState → Prop where
  | start : CallRun C .start
  | step {s s' : DriverState} {slot : Nat} {call : SdeCall} {ret : Int} {t : List SdeApi.Event}
    (run : CallRun C s) (hstep : DriverStep s slot call ret t s') (hcall : C s slot t call) :
    CallRun C s'

theorem regionsInv_run {s : DriverState} (h : CallRun Tidy s) : RegionsInv s := by
  induction h with
  | start => exact regionsInv_start
  | step _ hstep htidy ih => exact step_inv ih hstep htidy

theorem tidy_of_bars {s : DriverState} (h : CallRun TidyBars s) : CallRun Tidy s := by
  induction h with
  | start => exact .start
  | step _ hstep htidy ih => exact .step ih hstep htidy.1

theorem barsInv_run {s : DriverState} (h : CallRun TidyBars s) : BarsInv s := by
  induction h with
  | start => exact barsInv_start
  | step run hstep htidy ih => exact step_bars ih (regionsInv_run (tidy_of_bars run)) hstep htidy

/-! ## Nothing is left and nothing is given back twice -/

/-- Nothing was unmapped that was not mapped, and only for slots that are open something is
mapped. -/
structure Returned (s : DriverState) : Prop where
  once : s.res.strays = 0
  unmapped : ∀ slot, ¬ s.Live slot → ∀ r, s.res.mapped r ≠ some slot

/-- Besides, a slot that is not open takes no call but `sde_mgmt_init`. -/
theorem returned_run {s : DriverState} (h : CallRun Tidy s) : Returned s ∧
    ∀ slot call ret t s', DriverStep s slot call ret t s' → Tidy s slot t call → ¬ s.Live slot →
      (∀ d p l, call ≠ .init d p l) → ret = FPGA_ERR_SOFTWARE_PROBLEM ∧ t = [] := by
  have hinv := regionsInv_run h
  refine ⟨⟨hinv.strays, ?_⟩, ?_⟩
  · exact fun slot hlive r hr => hlive ((hinv.mapped r slot).mp hr).1
  · intro slot call ret t s' hstep htidy hlive hinit
    obtain ⟨⟨m, hrun, -⟩, -⟩ := hstep
    have hclosed : (s.slots slot).initialized = false := by
      rw [← Bool.not_eq_true]
      intro hopen
      have hnot : ¬ s.Closed slot := by
        cases call with
        | init d p l => exact absurd rfl (hinit d p l)
        | _ => exact htidy
      cases hc : s.closed slot with
      | false => exact hlive ⟨hopen, hc⟩
      | true => exact hnot ⟨hopen, hc⟩
    rw [body_closed hclosed hinit] at hrun
    exact ⟨(Prod.mk.inj hrun.2).1, hrun.1⟩

/-- Where every detach works, a BAR that is attached belongs to a slot that is open. -/
theorem detached_run {s : DriverState} (h : CallRun TidyBars s) {i : Entry} (hi : i ∈ s.res.bars) :
    ∃ slot k, s.Live slot ∧ ctrlRecord (s.slots slot).hw_ctrl k = some i := by
  have hinv := barsInv_run h
  obtain ⟨o, ho⟩ := (hinv.bars.mem_iff i).mp hi
  rcases o with o | ⟨slot, k⟩
  · cases ho
  · have hrec : ctrlRecord (s.slots slot).hw_ctrl k = some i := ho
    refine ⟨slot, k, ?_, hrec⟩
    by_contra hlive
    rw [ctrlRecord_closed (hinv.ctrl slot hlive)] at hrec
    cases hrec

/-! ## Samples -/

/-- The two mappings of `openCalls`. -/
def writebackRegion : SdeSubsystem → Region
  | .c2h => (0x10000, (writeback_layout .c2h).memory_size)
  | .h2c => (0x20000, (writeback_layout .h2c).memory_size)

theorem writebacks_ne : writebackRegion .h2c ≠ writebackRegion .c2h := by decide

/-- What `openCalls` took. -/
def openedRes : Resources where
  mapped := Function.update (Function.update (fun _ => none) (writebackRegion .c2h) (some 0))
    (writebackRegion .h2c) (some 0)
  bars := insert 2 (insert 1 (insert 0 ∅))
  strays := 0

theorem openCalls_touch : Trace (Touches 0) openCalls .start openedRes := by
  refine .cons (.gain rfl rfl) (.cons (.gain rfl ?_) (.cons (.pci rfl (.attached rfl ?_))
    (.cons (.pci rfl (.attached rfl ?_)) (.cons (.pci rfl (.attached rfl ?_)) (.nil _)))))
  · exact Function.update_of_ne writebacks_ne (some 0) fun _ => none
  · simp [Resources.start]
  · simp [Resources.start]
  · simp [Resources.start]

def openedState : DriverState :=
  ⟨Function.update Slots.start 0 (userOpened 64), Function.update (fun _ => false) 0 false, openedRes⟩

theorem openedState_step :
    DriverStep .start 0 (.init .c2h 64 .user_managed) 0 openCalls openedState :=
  .intro (userOpened_step (by decide)) openCalls_touch

theorem openedState_run : CallRun Tidy openedState := by
  refine .step .start openedState_step ⟨fun h => (by cases h.1), .inl ?_⟩
  simp [openCalls, Failed, Refused]

/-- The calls of `sde_mgmt_close` on that slot. -/
def closeCalls : List SdeApi.Event :=
  [⟨.pci (.detach 0), (0 : Int)⟩, ⟨.pci (.detach 1), (0 : Int)⟩, ⟨.pci (.detach 2), (0 : Int)⟩,
  ⟨.unmap 0x10000 (writeback_layout .c2h).memory_size, (0 : Int)⟩,
  ⟨.unmap 0x20000 (writeback_layout .h2c).memory_size, (0 : Int)⟩, ⟨.free, ()⟩, ⟨.free, ()⟩]

theorem closeCalls_step : ∃ s, DriverStep openedState 0 .close 0 closeCalls s := by
  have hrun : ∃ m, (SdeCall.body 0 (userOpened 64) .close).Runs closeCalls (0, m) :=
    ⟨_, (0 : Int), _, rfl, (0 : Int), _, rfl, (0 : Int), _, rfl, (0 : Int), _, rfl, (0 : Int), _, rfl,
      (), _, rfl, (), _, rfl, rfl, rfl⟩
  have hc2h : openedRes.mapped (writebackRegion .c2h) ≠ none := by
    simp [openedRes, Function.update_of_ne writebacks_ne.symm]
  have hh2c : Function.update openedRes.mapped (writebackRegion .c2h) none
      (writebackRegion .h2c) ≠ none := by
    simp [openedRes, Function.update_of_ne writebacks_ne]
  obtain ⟨m, hrun⟩ := hrun
  exact ⟨_, .intro ⟨m, hrun, rfl⟩ (.cons (.pci rfl (.detached rfl)) (.cons (.pci rfl (.detached rfl))
    (.cons (.pci rfl (.detached rfl)) (.cons (.drop rfl hc2h) (.cons (.drop rfl hh2c)
    (.cons (.other rfl rfl rfl) (.cons (.other rfl rfl rfl) (.nil _))))))))⟩

theorem returned_open_close : ∃ s, DriverStep openedState 0 .close 0 closeCalls s ∧ Returned s := by
  obtain ⟨s, hstep⟩ := closeCalls_step
  have htidy : Tidy openedState 0 closeCalls .close := by
    intro h
    have hclosed : openedState.closed 0 = true := h.2
    simp [openedState] at hclosed
  exact ⟨s, hstep, (returned_run (.step openedState_run hstep htidy)).1⟩

/-- An initialisation whose second mapping fails leaves the first one, and after `sde_mgmt_close` a
call is not refused. -/
theorem not_returned :
    (∃ s t, DriverStep .start 0 (.init .c2h 64 .user_managed) FPGA_ERR_SOFTWARE_PROBLEM t s ∧
      ¬ Returned s) ∧
    ∃ s t s', DriverStep openedState 0 .close 0 closeCalls s ∧
      DriverStep s 0 (.check_status .c2h) 0 t s' := by
  constructor
  · have hrun : ∃ m t, (SdeCall.body 0 (Slots.start 0) (.init .c2h 64 .user_managed)).Runs t
        (FPGA_ERR_SOFTWARE_PROBLEM, m) ∧ m.initialized = false ∧
        Trace (Touches 0) t .start { Resources.start with
          mapped := Function.update (fun _ => none) (writebackRegion .c2h) (some 0) } :=
      ⟨_, _, ⟨((0 : Int), (0x10000 : BitVec 64), (0x10000 : BitVec 64)), _, rfl,
        (FPGA_ERR_SOFTWARE_PROBLEM, (0 : BitVec 64), (0 : BitVec 64)), _, rfl, rfl, rfl⟩, rfl,
        .cons (.gain rfl rfl) (.cons (.other rfl rfl rfl) (.nil _))⟩
    obtain ⟨m, t, hrun, hclosed, htouch⟩ := hrun
    refine ⟨_, t, .intro ⟨m, hrun, rfl⟩ htouch, fun h => ?_⟩
    refine h.unmapped 0 (fun hlive => ?_) (writebackRegion .c2h) ?_
    · have hinit : (Function.update Slots.start 0 m 0).initialized = true := hlive.1
      rw [Function.update_self, hclosed] at hinit
      cases hinit
    · simp
  · obtain ⟨s, hstep⟩ := closeCalls_step
    have hopen : (s.slots 0).initialized = true := by
      obtain @⟨slots, res, ⟨m, hrun, rfl⟩, htouch⟩ := hstep
      exact (sde_mgmt_close_spec hrun (by decide) rfl).2.2.1
    have hrun : (SdeCall.body 0 (s.slots 0) (.check_status .c2h)).Runs
        [⟨.status_load .c2h ((s.slots 0).status .c2h) .status, (0 : BitVec 32)⟩] (0, s.slots 0) := by
      change (sde_mgmt_check_status 0 .c2h (s.slots 0) >>= fun ret => pure (ret, s.slots 0)).Runs _ _
      unfold sde_mgmt_check_status checked
      rw [if_neg (by decide), if_neg (by simp [hopen])]
      exact ⟨(0 : BitVec 32), _, rfl, rfl, rfl⟩
    exact ⟨s, _, _, hstep, .intro ⟨_, hrun, rfl⟩ (.cons (.other rfl rfl rfl) (.nil _))⟩

end AwsFpga.Sde
