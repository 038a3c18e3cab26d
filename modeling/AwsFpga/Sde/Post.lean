import AwsFpga.Sde.Calls

/-!
# Posting descriptors over and over

The ring is gone through cyclically, in pieces that end where the ring does. A write that
fails ends the call in the middle of a piece, and the consumed counter does not know.
-/

open Lib AwsFpga.Pci

namespace AwsFpga.Sde

/-- A call of the register layer that answered 0, or a call of another kind. -/
def succeeds : SdeApi.Event → Bool
  | ⟨.pci o, r⟩ => pciCode o r = 0
  | _ => true

/-- A buffer of an open slot, with the index in its ring. -/
structure DescRing (hw_ctrl : SdeHwCtrl) (b : SdeDmaBuffer) : Prop where
  opened : hw_ctrl.initialized = true
  ctrl : b.ctrl = true
  index : b.curr_desc_index_to_post < b.num_desc
  /-- A `size_t`. -/
  depth : b.num_desc < 2 ^ 64
  size : b.desc_element_size = desc_element_size b.subsystem

/-- The dwords of descriptor `i`, in ascending order. -/
def desc_dwords (b : SdeDmaBuffer) (i : Nat) : List (BitVec 32) :=
  (List.range (b.desc_element_size / 4)).map fun k => b.desc (i * (b.desc_element_size / 4) + k)

/-- A dword that was written to the descriptors of the direction. -/
def poked (hw_ctrl : SdeHwCtrl) (b : SdeDmaBuffer) (value : BitVec 32) : SdeApi.Event :=
  ⟨.pci (.poke hw_ctrl.bar4_handle (DESC_RAM_MAP_OFFSET b.subsystem) value), (0 : Int)⟩

/-- The writes of `count` descriptors, taken cyclically from `first` on. -/
def desc_pokes (hw_ctrl : SdeHwCtrl) (b : SdeDmaBuffer) (first count : Nat) : List SdeApi.Event :=
  (List.range count).flatMap fun k =>
    (desc_dwords b ((first + k) % b.num_desc)).map (poked hw_ctrl b)

/-- `k` descriptors later. -/
def SdeDmaBuffer.advance (b : SdeDmaBuffer) (k : Nat) : SdeDmaBuffer :=
  { b with curr_desc_index_to_post := (b.curr_desc_index_to_post + k) % b.num_desc }

theorem advance_advance (b : SdeDmaBuffer) (j k : Nat) : (b.advance j).advance k = b.advance (j + k) := by
  simp only [SdeDmaBuffer.advance, Nat.mod_add_mod, Nat.add_assoc]

theorem DescRing.advance {hw_ctrl : SdeHwCtrl} {b : SdeDmaBuffer} (h : DescRing hw_ctrl b) (k : Nat) :
    DescRing hw_ctrl (b.advance k) :=
  ⟨h.opened, h.ctrl, Nat.mod_lt _ (Nat.zero_lt_of_lt h.index), h.depth, h.size⟩

theorem DescRing.advance_zero {hw_ctrl : SdeHwCtrl} {b : SdeDmaBuffer} (h : DescRing hw_ctrl b) :
    b.advance 0 = b := by
  unfold SdeDmaBuffer.advance
  rw [Nat.add_zero, Nat.mod_eq_of_lt h.index]

theorem descRing_of_init {hw_ctrl : SdeHwCtrl} {layout : SdeBufferLayout} (subsystem : SdeSubsystem)
    (pkt_size : BitVec 64) (mem : SdeMem) (hopen : hw_ctrl.initialized = true)
    (hlayout : layout ≠ .user_managed) :
    DescRing hw_ctrl (sde_dma_buffer_init layout subsystem pkt_size mem) := by
  unfold sde_dma_buffer_init
  dsimp only
  rw [if_pos hlayout]
  exact ⟨hopen, rfl, show 0 < SDE_NUM_DESC by decide, show SDE_NUM_DESC < 2 ^ 64 by decide, rfl⟩

theorem descRing_of_init_desc {hw_ctrl : SdeHwCtrl} {b b' : SdeDmaBuffer}
    (hopen : hw_ctrl.initialized = true) (hctrl : b.ctrl = true)
    (hnum : 0 < b.num_desc ∧ b.num_desc < 2 ^ 64)
    (hsize : b.desc_element_size = desc_element_size b.subsystem)
    (h : sde_dma_init_desc_buffer b = (0, b')) : DescRing hw_ctrl b' := by
  unfold sde_dma_init_desc_buffer at h
  split at h
  case isTrue => exact absurd (Prod.mk.inj h).1 (by decide)
  case isFalse =>
    split at h
    case h_1 => exact absurd (Prod.mk.inj h).1 (by decide)
    case h_2 =>
      obtain ⟨-, rfl⟩ := Prod.mk.inj h
      exact ⟨hopen, hctrl, hnum.1, hnum.2, hsize⟩

theorem desc_pokes_add (hw_ctrl : SdeHwCtrl) (b : SdeDmaBuffer) (first j k : Nat) :
    desc_pokes hw_ctrl b first (j + k) =
      desc_pokes hw_ctrl b first j ++ desc_pokes hw_ctrl b ((first + j) % b.num_desc) k := by
  unfold desc_pokes
  rw [List.range_add, List.flatMap_append, List.flatMap_map]
  congr 1
  congr 1
  funext i
  rw [Nat.mod_add_mod, Nat.add_assoc]

theorem desc_pokes_succeed {hw_ctrl : SdeHwCtrl} {b : SdeDmaBuffer} {first count : Nat} :
    ∀ e ∈ desc_pokes hw_ctrl b first count, succeeds e = true := by
  intro e he
  simp only [desc_pokes, List.mem_flatMap, List.mem_map] at he
  obtain ⟨k, -, value, -, rfl⟩ := he
  rfl

theorem desc_pokes_length (hw_ctrl : SdeHwCtrl) (b : SdeDmaBuffer) (first count : Nat) :
    (desc_pokes hw_ctrl b first count).length = count * (b.desc_element_size / 4) := by
  simp [desc_pokes, desc_dwords]

/-! ## One piece -/

theorem range_mul (n d : Nat) :
    List.range (n * d) = (List.range n).flatMap fun i => (List.range d).map fun k => i * d + k := by
  induction n with
  | zero => simp
  | succ n ih => rw [Nat.succ_mul, List.range_add, ih, List.range_succ, List.flatMap_append,
      List.flatMap_singleton]

theorem post_dwords_cases {handle : Int} {offset : BitVec 64} {descriptor : Nat → BitVec 32}
    {left index : Nat} {t : List PciApi.Event} {ret : Int}
    (h : (post_dwords handle offset descriptor left index).Runs t ret) :
    (ret = 0 ∧ t = (List.range left).map fun k => ⟨.poke handle offset (descriptor (index + k)), (0 : Int)⟩) ∨
      (ret ≠ 0 ∧ ∃ j < left, t = ((List.range j).map fun k =>
        ⟨.poke handle offset (descriptor (index + k)), (0 : Int)⟩) ++
          [⟨.poke handle offset (descriptor (index + j)), ret⟩]) := by
  induction left generalizing index t with
  | zero =>
    obtain ⟨rfl, rfl⟩ := h
    exact .inl ⟨rfl, rfl⟩
  | succ left ih =>
    obtain ⟨(ret₁ : Int), t', rfl, hrest⟩ := (runs_poke _ _ _ _ _ _).mp h
    have hshift : ∀ j, (List.range (j + 1)).map (fun k =>
        (⟨.poke handle offset (descriptor (index + k)), (0 : Int)⟩ : PciApi.Event)) =
          ⟨.poke handle offset (descriptor index), (0 : Int)⟩ :: (List.range j).map fun k =>
            ⟨.poke handle offset (descriptor (index + 1 + k)), (0 : Int)⟩ := by
      intro j
      rw [List.range_succ_eq_map, List.map_cons, List.map_map]
      congr 1
      apply List.map_congr_left
      intro k _
      rw [Function.comp_apply, Nat.succ_eq_add_one, Nat.add_assoc, Nat.add_comm 1 k]
    by_cases hret : ret₁ = 0
    · subst hret
      rw [if_neg (by simp)] at hrest
      obtain ⟨rfl, rfl⟩ | ⟨hfail, j, hj, rfl⟩ := ih hrest
      · exact .inl ⟨rfl, (hshift left).symm⟩
      · refine .inr ⟨hfail, j + 1, by omega, ?_⟩
        rw [hshift, List.cons_append, Nat.add_assoc, Nat.add_comm 1 j]
    · rw [if_pos hret] at hrest
      obtain ⟨rfl, rfl⟩ := hrest
      exact .inr ⟨hret, 0, by omega, rfl⟩

/-- What a failed call leaves: fewer writes than it was asked for. -/
structure PostFailed (dwords : Nat) (t : List SdeApi.Event) (ret : Int) : Prop where
  ret : ret ≠ 0
  fewer : t.countP succeeds < dwords
  failed : ∃ e ∈ t, succeeds e = false

theorem countP_desc_pokes (hw_ctrl : SdeHwCtrl) (b : SdeDmaBuffer) (first count : Nat) :
    (desc_pokes hw_ctrl b first count).countP succeeds = count * (b.desc_element_size / 4) := by
  rw [List.countP_eq_length.mpr desc_pokes_succeed, desc_pokes_length]

theorem post_descriptor_cases {hw_ctrl : SdeHwCtrl} {b : SdeDmaBuffer} {count : Nat}
    {t : List SdeApi.Event} {ret : Int} (hring : DescRing hw_ctrl b)
    (hcount : b.curr_desc_index_to_post + count ≤ b.num_desc)
    (h : (ofPci (sde_hw_post_descriptor (some hw_ctrl)
      (fun k => b.desc (b.curr_desc_index_to_post * (b.desc_element_size / 4) + k)) count
      b.subsystem)).Runs t ret) :
    (ret = 0 ∧ t = desc_pokes hw_ctrl b b.curr_desc_index_to_post count) ∨
      PostFailed (count * (b.desc_element_size / 4)) t ret := by
  obtain ⟨t', hrun, rfl⟩ := runs_ofPci h
  unfold sde_hw_post_descriptor at hrun
  dsimp only at hrun
  rw [hring.opened, if_neg (by decide), ← hring.size] at hrun
  obtain ⟨rfl, rfl⟩ | ⟨hret, j, hj, rfl⟩ := post_dwords_cases hrun
  · refine .inl ⟨rfl, ?_⟩
    unfold desc_pokes
    rw [range_mul, List.map_flatMap, List.map_flatMap]
    refine List.flatMap_congr fun k hk => ?_
    -- The piece does not wrap.
    have hin : b.curr_desc_index_to_post + k < b.num_desc := by
      have := List.mem_range.mp hk
      omega
    rw [Nat.mod_eq_of_lt hin, desc_dwords, List.map_map, List.map_map, List.map_map]
    apply List.map_congr_left
    intro i _
    have hidx : b.curr_desc_index_to_post * (b.desc_element_size / 4) +
        (0 + (k * (b.desc_element_size / 4) + i)) =
          (b.curr_desc_index_to_post + k) * (b.desc_element_size / 4) + i := by
      rw [Nat.zero_add, Nat.add_mul, Nat.add_assoc]
    exact congrArg (fun index => poked hw_ctrl b (b.desc index)) hidx
  · refine .inr ⟨hret, ?_, ⟨_, List.mem_map.mpr ⟨_, List.mem_append_right _ List.mem_cons_self, rfl⟩, ?_⟩⟩
    · have hlast : succeeds (liftEvent ⟨.poke hw_ctrl.bar4_handle (DESC_RAM_MAP_OFFSET b.subsystem)
          (b.desc (b.curr_desc_index_to_post * (b.desc_element_size / 4) + (0 + j))), ret⟩) = false :=
        decide_eq_false hret
      rw [List.map_append, List.countP_append, List.map_cons, List.map_nil,
        List.countP_cons_of_neg (by simp [hlast])]
      have hle := List.countP_le_length (p := succeeds) (l := List.map liftEvent ((List.range j).map
        fun k => ⟨.poke hw_ctrl.bar4_handle (DESC_RAM_MAP_OFFSET b.subsystem)
          (b.desc (b.curr_desc_index_to_post * (b.desc_element_size / 4) + (0 + k))), (0 : Int)⟩))
      rw [List.length_map, List.length_map, List.length_range] at hle
      rw [List.countP_nil]
      omega
    · exact decide_eq_false hret

/-! ## A call -/

/-- The end of a call that had `left` descriptors to post: they were posted, or a write failed. -/
def PostEnd (hw_ctrl : SdeHwCtrl) (b : SdeDmaBuffer) (num_desc left : Nat) (t : List SdeApi.Event)
    (r : Posted) : Prop :=
  r.num_desc = num_desc ∧
    ((r.ret = 0 ∧ r.dma_buffer = b.advance left ∧
      t = desc_pokes hw_ctrl b b.curr_desc_index_to_post left) ∨
    PostFailed (left * (b.desc_element_size / 4)) t r.ret)

theorem post_done {hw_ctrl : SdeHwCtrl} {b : SdeDmaBuffer} {num_desc posted_desc : Nat}
    {t : List SdeApi.Event} {r : Posted} (hring : DescRing hw_ctrl b) (hall : posted_desc = num_desc)
    (h : (pure ⟨0, posted_desc, b⟩ : Prog SdeApi Posted).Runs t r) :
    PostEnd hw_ctrl b num_desc (num_desc - posted_desc) t r := by
  subst hall
  obtain ⟨rfl, rfl⟩ := h
  rw [Nat.sub_self]
  exact ⟨rfl, .inl ⟨rfl, hring.advance_zero.symm, rfl⟩⟩

theorem PostEnd.round {hw_ctrl : SdeHwCtrl} {b : SdeDmaBuffer} {num_desc piece left : Nat}
    {t : List SdeApi.Event} {r : Posted} (h : PostEnd hw_ctrl (b.advance piece) num_desc left t r) :
    PostEnd hw_ctrl b num_desc (piece + left)
      (desc_pokes hw_ctrl b b.curr_desc_index_to_post piece ++ t) r := by
  obtain ⟨hnum, ⟨hret, hbuffer, rfl⟩ | hfailed⟩ := h
  · refine ⟨hnum, .inl ⟨hret, ?_, ?_⟩⟩
    · rw [hbuffer, advance_advance]
    · rw [desc_pokes_add]
      rfl
  · have hfewer := hfailed.fewer
    obtain ⟨e, he, hfail⟩ := hfailed.failed
    refine ⟨hnum, .inr ⟨hfailed.ret, ?_, e, List.mem_append_right _ he, hfail⟩⟩
    rw [List.countP_append, countP_desc_pokes, Nat.add_mul]
    exact Nat.add_lt_add_left hfewer _

theorem PostFailed.mono {dwords dwords' : Nat} {t : List SdeApi.Event} {ret : Int}
    (h : PostFailed dwords t ret) (hle : dwords ≤ dwords') : PostFailed dwords' t ret :=
  ⟨h.ret, Nat.lt_of_lt_of_le h.fewer hle, h.failed⟩

theorem post_loop_end {hw_ctrl : SdeHwCtrl} {b : SdeDmaBuffer} {num_desc fuel posted_desc : Nat}
    {t : List SdeApi.Event} {r : Posted} (hring : DescRing hw_ctrl b) (hposted : posted_desc ≤ num_desc)
    (hfuel : num_desc - posted_desc ≤ fuel)
    (h : (post_loop (some hw_ctrl) num_desc fuel posted_desc b).Runs t r) :
    PostEnd hw_ctrl b num_desc (num_desc - posted_desc) t r := by
  induction fuel generalizing posted_desc b t with
  | zero =>
    unfold post_loop at h
    rw [if_neg (by omega)] at h
    exact post_done hring (by omega) h
  | succ fuel ih =>
    unfold post_loop at h
    split at h
    case isFalse hall => exact post_done hring (by omega) h
    case isTrue hleft =>
    have hindex := hring.index
    have havailable : (b.num_desc + 2 ^ 64 - b.curr_desc_index_to_post) % 2 ^ 64 =
        b.num_desc - b.curr_desc_index_to_post := by
      have := hring.depth
      omega
    dsimp only at h
    rw [havailable] at h
    generalize hpiece : (if b.num_desc - b.curr_desc_index_to_post < num_desc - posted_desc then
      b.num_desc - b.curr_desc_index_to_post else num_desc - posted_desc) = piece at h
    have hpos : 0 < piece ∧ piece ≤ num_desc - posted_desc ∧
        b.curr_desc_index_to_post + piece ≤ b.num_desc := by
      split at hpiece <;> omega
    obtain ⟨t₁, ret, t₂, rfl, hpost, hrest⟩ := (Prog.runs_bind _ _ _ _).mp h
    obtain ⟨rfl, rfl⟩ | hfailed := post_descriptor_cases hring hpos.2.2 hpost
    · rw [if_neg (by simp), if_neg (by omega)] at hrest
      have hround := (ih (hring.advance piece) (by omega) (by omega) hrest).round
      rwa [show piece + (num_desc - (posted_desc + piece)) = num_desc - posted_desc by omega] at hround
    · rw [if_pos hfailed.ret] at hrest
      obtain ⟨rfl, rfl⟩ := hrest
      rw [List.append_nil]
      exact ⟨rfl, .inr (hfailed.mono (Nat.mul_le_mul_right _ hpos.2.1))⟩

theorem post_desc_end {hw_ctrl : SdeHwCtrl} {b : SdeDmaBuffer} {num_desc : Nat}
    {t : List SdeApi.Event} {r : Posted} (hring : DescRing hw_ctrl b)
    (h : (sde_dma_post_desc hw_ctrl num_desc b).Runs t r) :
    PostEnd hw_ctrl b num_desc num_desc t r := by
  unfold sde_dma_post_desc at h
  rw [hring.ctrl, if_pos rfl] at h
  exact post_loop_end hring (Nat.zero_le _) (by omega) h

def IsRegister (o : SdeOp) : Prop := ∃ p, o = .pci p

theorem ofPci_registers {α : Type} (p : Prog PciApi α) : (ofPci p).AllCalls IsRegister :=
  ofPci_allCalls (Prog.allCalls_of_forall (fun o => ⟨o, rfl⟩) p)

theorem post_loop_registers {hw_ctrl : SdeHwCtrl} {b : SdeDmaBuffer} {num_desc fuel posted_desc : Nat}
    (hring : DescRing hw_ctrl b) (hfuel : num_desc - posted_desc ≤ fuel) :
    (post_loop (some hw_ctrl) num_desc fuel posted_desc b).AllCalls IsRegister := by
  induction fuel generalizing posted_desc b with
  | zero =>
    unfold post_loop
    rw [if_neg (by omega)]
    trivial
  | succ fuel ih =>
    unfold post_loop
    split
    case isFalse => trivial
    case isTrue hleft =>
    have hindex := hring.index
    have hdepth := hring.depth
    refine Prog.allCalls_bind (ofPci_registers _) fun ret => Prog.allCalls_ite trivial ?_
    rw [if_neg (by omega)]
    refine ih (hring.advance _) ?_
    split <;> omega

theorem post_desc_registers {hw_ctrl : SdeHwCtrl} {b : SdeDmaBuffer} (hring : DescRing hw_ctrl b)
    (num_desc : Nat) : (sde_dma_post_desc hw_ctrl num_desc b).AllCalls IsRegister := by
  unfold sde_dma_post_desc
  rw [hring.ctrl, if_pos rfl]
  exact post_loop_registers hring (by omega)

/-! ## Many calls -/

/-- One call after another: the code and `*num_desc` of each, and the buffer. -/
def post_all (hw_ctrl : SdeHwCtrl) :
    (requests : List Nat) → SdeDmaBuffer → Prog SdeApi (List (Int × Nat) × SdeDmaBuffer)
  | [], b => return ([], b)
  | num_desc :: requests, b => do
    let posted ← sde_dma_post_desc hw_ctrl num_desc b
    let (results, b) ← post_all hw_ctrl requests posted.dma_buffer
    return ((posted.ret, posted.num_desc) :: results, b)

/-- Calls that all succeed go through the ring as one call would. -/
theorem post_all_runs {hw_ctrl : SdeHwCtrl} {b b' : SdeDmaBuffer} {requests : List Nat}
    {t : List SdeApi.Event} {results : List (Int × Nat)} (hring : DescRing hw_ctrl b)
    (hok : ∀ e ∈ t, succeeds e = true)
    (h : (post_all hw_ctrl requests b).Runs t (results, b')) :
    t = desc_pokes hw_ctrl b b.curr_desc_index_to_post requests.sum ∧
      results = requests.map (fun num_desc => (0, num_desc)) ∧ b' = b.advance requests.sum := by
  induction requests generalizing b t results with
  | nil =>
    obtain ⟨rfl, h⟩ := h
    obtain ⟨rfl, rfl⟩ := Prod.mk.inj h
    exact ⟨rfl, rfl, hring.advance_zero.symm⟩
  | cons num_desc requests ih =>
    obtain ⟨t₁, posted, t₂, rfl, hpost, hrest⟩ := (Prog.runs_bind _ _ _ _).mp h
    obtain ⟨t₃, ⟨results₃, b₃⟩, t₄, rfl, hall, rfl, hresult⟩ := (Prog.runs_bind _ _ _ _).mp hrest
    obtain ⟨rfl, rfl⟩ := Prod.mk.inj hresult
    rw [List.append_nil] at hok ⊢
    obtain ⟨hok₁, hok₃⟩ := List.forall_mem_append.mp hok
    obtain ⟨hnum, ⟨hret, hbuffer, rfl⟩ | hfailed⟩ := post_desc_end hring hpost
    · rw [hbuffer] at hall
      obtain ⟨rfl, rfl, rfl⟩ := ih (hring.advance num_desc) hok₃ hall
      rw [List.sum_cons, desc_pokes_add, ← advance_advance, hret, hnum]
      exact ⟨rfl, rfl, rfl⟩
    · obtain ⟨e, he, hfail⟩ := hfailed.failed
      rw [hok₁ e he] at hfail
      cases hfail

theorem exists_success {o : SdeOp} (h : IsRegister o) : ∃ r, succeeds ⟨o, r⟩ = true := by
  obtain ⟨p, rfl⟩ := h
  refine ⟨p.quiet, ?_⟩
  cases p <;> rfl

theorem post_all_can {hw_ctrl : SdeHwCtrl} {b : SdeDmaBuffer} (requests : List Nat)
    (hring : DescRing hw_ctrl b) : ∃ t results b', (post_all hw_ctrl requests b).Runs t (results, b') ∧
      ∀ e ∈ t, succeeds e = true := by
  induction requests generalizing b with
  | nil => exact ⟨[], [], b, ⟨rfl, rfl⟩, by simp⟩
  | cons num_desc requests ih =>
    obtain ⟨t₁, posted, hpost, hok₁⟩ := Prog.exists_run (post_desc_registers hring num_desc)
      fun _ => exists_success
    have hbuffer : posted.dma_buffer = b.advance num_desc := by
      obtain ⟨-, ⟨-, hbuffer, -⟩ | hfailed⟩ := post_desc_end hring hpost
      · exact hbuffer
      · obtain ⟨e, he, hfail⟩ := hfailed.failed
        exact absurd (hok₁ e he) (by simp [hfail])
    obtain ⟨t₂, results, b', hall, hok₂⟩ := ih (hring.advance num_desc)
    rw [← hbuffer] at hall
    refine ⟨t₁ ++ t₂, (posted.ret, posted.num_desc) :: results, b', ?_,
      List.forall_mem_append.mpr ⟨hok₁, hok₂⟩⟩
    refine (Prog.runs_bind _ _ _ _).mpr ⟨t₁, posted, t₂, rfl, hpost, ?_⟩
    exact (Prog.runs_bind _ _ _ _).mpr ⟨t₂, (results, b'), [], by simp, hall, rfl, rfl⟩

/-- Whatever the requests, the ring is posted cyclically: nothing is left out, repeated or split. -/
theorem post_all_cyclic (hw_ctrl : SdeHwCtrl) (b : SdeDmaBuffer) (requests : List Nat)
    (hring : DescRing hw_ctrl b) :
    (∃ t results b', (post_all hw_ctrl requests b).Runs t (results, b') ∧ ∀ e ∈ t, succeeds e = true) ∧
      ∀ t results b', (post_all hw_ctrl requests b).Runs t (results, b') →
        (∀ e ∈ t, succeeds e = true) →
        t = desc_pokes hw_ctrl b b.curr_desc_index_to_post requests.sum ∧
          results = requests.map (fun num_desc => (0, num_desc)) ∧ b' = b.advance requests.sum :=
  ⟨post_all_can requests hring, fun _ _ _ h hok => post_all_runs hring hok h⟩

/-! ## The consumed counter -/

/-- The descriptors of which all dwords were written. -/
def written_desc (m : SdeMgmt) (s : SdeSubsystem) (t : List SdeApi.Event) : Nat :=
  t.countP succeeds / ((m.buffer s).desc_element_size / 4)

/-- The counter moved by the descriptors that were written, and the index is behind them. -/
def CountsWritten (m m' : SdeMgmt) (s : SdeSubsystem) (t : List SdeApi.Event) : Prop :=
  m'.desc_consumed s = m.desc_consumed s + BitVec.ofNat 32 (written_desc m s t) ∧
    (m'.buffer s).curr_desc_index_to_post =
      ((m.buffer s).curr_desc_index_to_post + written_desc m s t) % (m.buffer s).num_desc

theorem elements_pos (s : SdeSubsystem) : 0 < desc_element_size s / 4 := by
  cases s <;> decide

/-- A failed write makes the counter wrong, and nothing else does. -/
theorem mgmt_post_desc_counts_iff (slot_id : Int) (s : SdeSubsystem) (num_desc : Nat) (m : SdeMgmt)
    (hring : DescRing m.hw_ctrl (m.buffer s)) (t : List SdeApi.Event) (ret : Int) (num_desc' : Nat)
    (m' : SdeMgmt) (h : (sde_mgmt_post_desc slot_id s num_desc m).Runs t (ret, num_desc', m')) :
    CountsWritten m m' s t ↔ ∀ e ∈ t, succeeds e = true := by
  have hdw : 0 < (m.buffer s).desc_element_size / 4 := by
    rw [hring.size]
    exact elements_pos _
  have hrefused : (t = [] ∧ m' = m) → (CountsWritten m m' s t ↔ ∀ e ∈ t, succeeds e = true) := by
    rintro ⟨rfl, rfl⟩
    refine iff_of_true ⟨?_, ?_⟩ (by simp)
    · simp [written_desc]
    · simp [written_desc, Nat.mod_eq_of_lt hring.index]
  unfold sde_mgmt_post_desc checked at h
  split at h
  case isTrue =>
    obtain ⟨rfl, h⟩ := h
    cases h
    exact hrefused ⟨rfl, rfl⟩
  case isFalse =>
  split at h
  case isTrue =>
    obtain ⟨rfl, h⟩ := h
    cases h
    exact hrefused ⟨rfl, rfl⟩
  case isFalse =>
  split at h
  case isTrue =>
    obtain ⟨rfl, h⟩ := h
    cases h
    exact hrefused ⟨rfl, rfl⟩
  case isFalse hmax =>
  obtain ⟨t₁, posted, t₂, rfl, hpost, rfl, hresult⟩ := (Prog.runs_bind _ _ _ _).mp h
  cases hresult
  rw [List.append_nil]
  obtain ⟨hnum, ⟨-, hbuffer, rfl⟩ | hfailed⟩ := post_desc_end hring hpost
  · have hwritten : written_desc m s (desc_pokes m.hw_ctrl (m.buffer s)
        (m.buffer s).curr_desc_index_to_post num_desc) = num_desc := by
      rw [written_desc, countP_desc_pokes, Nat.mul_div_cancel _ hdw]
    refine iff_of_true ⟨?_, ?_⟩ desc_pokes_succeed
    · rw [hwritten, hnum]
      simp
    · rw [hwritten, hbuffer]
      simp [SdeDmaBuffer.advance]
  · obtain ⟨e, he, hfail⟩ := hfailed.failed
    refine iff_of_false (fun hcounts => ?_) fun hok => ?_
    · have hfewer : written_desc m s t₁ < num_desc := by
        rw [written_desc, Nat.div_lt_iff_lt_mul hdw]
        exact hfailed.fewer
      have hcounter := hcounts.1
      rw [hnum] at hcounter
      rw [SdeMgmt.set_desc_consumed_desc_consumed, if_pos rfl, SdeMgmt.set_buffer_desc_consumed,
        BitVec.add_right_inj] at hcounter
      have hnat := congrArg BitVec.toNat hcounter
      simp only [BitVec.toNat_ofNat] at hnat
      unfold SDE_NUM_DESC at hmax
      omega
    · rw [hok e he] at hfail
      cases hfail

/-! ## A ring of three -/

/-- The first requests of an open slot with three descriptors. -/
def sampleCtrl : SdeHwCtrl := ⟨0, 0, 1, 2, true⟩

def sampleBuffer : SdeDmaBuffer :=
  { SdeDmaBuffer.zero with
    ctrl := true
    num_desc := 3
    desc_element_size := 16
    desc := fun k => BitVec.ofNat 32 k }

theorem sampleBuffer_ring : DescRing sampleCtrl sampleBuffer :=
  ⟨rfl, rfl, by decide, by decide, rfl⟩

/-- Two and two descriptors: the second call wraps. -/
theorem post_all_cyclic_sample :
    ∃ t results b', (post_all sampleCtrl [2, 2] sampleBuffer).Runs t (results, b') ∧
      results = [(0, 2), (0, 2)] ∧ b'.curr_desc_index_to_post = 1 ∧
      t = desc_pokes sampleCtrl sampleBuffer 0 4 := by
  obtain ⟨⟨t, results, b', hrun, hok⟩, hall⟩ :=
    post_all_cyclic sampleCtrl sampleBuffer [2, 2] sampleBuffer_ring
  obtain ⟨ht, hresults, rfl⟩ := hall t results b' hrun hok
  exact ⟨t, results, _, hrun, hresults, rfl, ht⟩

def sampleMgmt : SdeMgmt :=
  { SdeMgmt.zero with
    hw_ctrl := sampleCtrl
    c2h_buffer := sampleBuffer
    initialized := true }

theorem mgmt_post_desc_counts_sample :
    ∃ t m', (sde_mgmt_post_desc 0 .c2h 1 sampleMgmt).Runs t (0, 1, m') ∧
      CountsWritten sampleMgmt m' .c2h t := by
  have hrun : (sde_mgmt_post_desc 0 .c2h 1 sampleMgmt).Runs (desc_pokes sampleCtrl sampleBuffer 0 1)
      (0, 1, { sampleMgmt with c2h_buffer := sampleBuffer.advance 1, c2h_desc_consumed := 1 }) := by
    refine (Prog.runs_call (I := SdeApi) (.pci (.poke 1 0 0)) _ _ _).mpr ⟨(0 : Int), _, rfl, ?_⟩
    refine (Prog.runs_call (I := SdeApi) (.pci (.poke 1 0 1)) _ _ _).mpr ⟨(0 : Int), _, rfl, ?_⟩
    refine (Prog.runs_call (I := SdeApi) (.pci (.poke 1 0 2)) _ _ _).mpr ⟨(0 : Int), _, rfl, ?_⟩
    refine (Prog.runs_call (I := SdeApi) (.pci (.poke 1 0 3)) _ _ _).mpr ⟨(0 : Int), _, rfl, ?_⟩
    exact ⟨rfl, rfl⟩
  exact ⟨_, _, hrun, (mgmt_post_desc_counts_iff 0 .c2h 1 sampleMgmt sampleBuffer_ring _ 0 1 _ hrun).mpr
    desc_pokes_succeed⟩

/-- One descriptor, and its first dword is not written. -/
theorem mgmt_post_desc_miscounts :
    ∃ t ret num_desc' m', (sde_mgmt_post_desc 0 .c2h 1 sampleMgmt).Runs t (ret, num_desc', m') ∧
      ¬CountsWritten sampleMgmt m' .c2h t := by
  refine ⟨[⟨.pci (.poke 1 0 0), (-1 : Int)⟩], -1, 1, { sampleMgmt with c2h_desc_consumed := 1 }, ?_, ?_⟩
  · exact (Prog.runs_call (I := SdeApi) (.pci (.poke 1 0 0)) _ _ _).mpr ⟨(-1 : Int), [], rfl, rfl, rfl⟩
  · rintro ⟨hcounter, -⟩
    exact absurd hcounter (by decide)

end AwsFpga.Sde
