import AwsFpga.Sde.Calls

/-!
# Divisions and loops of the driver

A driver call divides by what an earlier call left, and its loops end when a
round moves something. The conditions under which both are so are on what is
passed to `sde_mgmt_init` and `sde_mgmt_set_dma_buffers`, and on which of them
came before.
-/

open Lib AwsFpga.Pci

namespace AwsFpga.Sde

/-- No division by 0, no loop that goes on for ever, and no round of a copy that moves nothing. -/
def Progress : SdeOp → Prop
  | .fault .divide_by_zero => False
  | .fault .diverge => False
  | .copy_from _ size => 0 < size
  | .copy_to _ bytes => bytes ≠ []
  | _ => True

/-- The device writes no metadata of an empty packet. -/
def NotEmpty : (o : SdeOp) → o.Ans → Prop
  | .md_length .., (length : BitVec 32) => length ≠ 0
  | _, _ => True

/-- What the divisions and the loops rely on. -/
structure BufferOk (b : SdeDmaBuffer) : Prop where
  pkt_size : b.pkt_size ≠ 0
  num_desc : b.layout ≠ .user_managed ∨ b.buffers.isSome → b.num_desc ≠ 0
  depth : b.num_desc ≤ SDE_NUM_DESC
  post : b.curr_desc_index_to_post < SDE_NUM_DESC
  copy : ∀ buffers, b.buffers = some buffers → b.current_buffer_index < b.num_buffers ∧
    ∀ i < b.num_buffers, (buffers.getD i no_buffer).length ≠ 0

def FaultFree (m : SdeMgmt) : Prop := m.initialized = true → ∀ s, BufferOk (m.buffer s)

section Indices

namespace SdeDmaBuffer

/-- The next descriptor to post is `i`. -/
def post_at (b : SdeDmaBuffer) (i : Nat) : SdeDmaBuffer := { b with curr_desc_index_to_post := i }

/-- The next buffer to copy is `i`. -/
def copy_at (b : SdeDmaBuffer) (i : Nat) : SdeDmaBuffer := { b with current_buffer_index := i }

end SdeDmaBuffer

variable {b : SdeDmaBuffer} {i : Nat}

@[simp] theorem post_at_num_desc : (b.post_at i).num_desc = b.num_desc := rfl

theorem BufferOk.post_at (h : BufferOk b) (hi : i < SDE_NUM_DESC) :
    BufferOk (b.post_at i) :=
  ⟨h.pkt_size, h.num_desc, h.depth, hi, h.copy⟩

theorem BufferOk.copy_at (h : BufferOk b) (hi : i < b.num_buffers) :
    BufferOk (b.copy_at i) :=
  ⟨h.pkt_size, h.num_desc, h.depth, h.post, fun buffers hb => ⟨hi, (h.copy buffers hb).2⟩⟩

end Indices

/-! ## Posting -/

theorem register_progress {α : Type} (p : Prog PciApi α) :
    (ofPci p).Meets NotEmpty Progress fun _ => True :=
  meets_ofPci (Prog.allCalls_of_forall (fun _ => trivial) p)

/-- Only at the end of the ring there is nothing to post. -/
theorem round_posts {ring i left : Nat} (hring : ring ≤ SDE_NUM_DESC) (hi : i < SDE_NUM_DESC)
    (hne : i ≠ ring) (hleft : 0 < left) :
    0 < (if (ring + 2 ^ 64 - i) % 2 ^ 64 < left then (ring + 2 ^ 64 - i) % 2 ^ 64 else left) := by
  simp only [SDE_NUM_DESC] at hring hi
  split <;> omega

theorem post_loop_inside (ctrl : Option SdeHwCtrl) (num_desc : Nat) {b : SdeDmaBuffer}
    (hdepth : b.num_desc ≤ SDE_NUM_DESC) (fuel posted_desc : Nat) {i : Nat} (hi : i < b.num_desc)
    (hfuel : num_desc ≤ posted_desc + fuel) :
    (post_loop ctrl num_desc fuel posted_desc (b.post_at i)).Meets NotEmpty Progress
      fun r => ∃ j < SDE_NUM_DESC, r.dma_buffer = b.post_at j := by
  induction fuel generalizing posted_desc i with
  | zero =>
    unfold post_loop
    rw [if_neg (by omega)]
    exact Prog.meets_pure ⟨i, by omega, rfl⟩
  | succ fuel ih =>
    unfold post_loop
    split
    case isFalse => exact Prog.meets_pure ⟨i, by omega, rfl⟩
    case isTrue hleft =>
      refine Prog.meets_bind (register_progress _) fun (ret : Int) _ => ?_
      have hpos := round_posts hdepth (by omega) (by omega : i ≠ b.num_desc)
        (by omega : 0 < num_desc - posted_desc)
      have hfuel' : ∀ posted, 0 < posted → num_desc ≤ posted_desc + posted + fuel :=
        fun posted h => by omega
      split
      · exact Prog.meets_pure ⟨i, by omega, rfl⟩
      · have hdesc : (b.post_at i).num_desc ≠ 0 := by
          rw [post_at_num_desc]
          omega
        rw [if_neg hdesc]
        exact ih _ (Nat.mod_lt _ (by omega)) (hfuel' _ hpos)

/-- One more round is enough from anywhere: set buffers can end the ring before the index. -/
theorem post_desc_progress (hw_ctrl : SdeHwCtrl) (num_desc : Nat) {b : SdeDmaBuffer}
    (hb : BufferOk b) (hdesc : b.num_desc ≠ 0) :
    (sde_dma_post_desc hw_ctrl num_desc b).Meets NotEmpty Progress
      fun r => ∃ j < SDE_NUM_DESC, r.dma_buffer = b.post_at j := by
  have hpost := hb.post
  unfold sde_dma_post_desc post_loop
  split
  case isFalse => exact Prog.meets_pure ⟨_, hpost, rfl⟩
  case isTrue hleft =>
    refine Prog.meets_bind (register_progress _) fun (ret : Int) _ => ?_
    split
    · exact Prog.meets_pure ⟨_, hpost, rfl⟩
    · exact post_loop_inside _ _ hb.depth _ _ (Nat.mod_lt _ (by omega)) (by omega)

/-! ## Copying -/

theorem read_loop_step {fuel size : Nat} {b : SdeDmaBuffer} {buffers : List SdeBuffer}
    (hbuffers : b.buffers = some buffers) (hnum : b.num_buffers ≠ 0) :
    read_loop (fuel + 1) size b = (do
      let buffer := buffers.getD b.current_buffer_index no_buffer
      let n := if size < buffer.length.toNat then size else buffer.length.toNat
      let bytes ← Prog.op (I := SdeApi) (.copy_from buffer.data_va n)
      let b := b.copy_at ((b.current_buffer_index + 1) % b.num_buffers)
      if 0 < size - n then do
        let (rest, b) ← read_loop fuel (size - n) b
        return (bytes.1 ++ rest, b)
      else
        return (bytes.1, b)) := by
  rw [read_loop, hbuffers]
  simp only [if_neg hnum]
  rw [← hbuffers]
  rfl

theorem write_loop_step {fuel : Nat} {data : List (BitVec 8)} {b : SdeDmaBuffer}
    {buffers : List SdeBuffer} (hbuffers : b.buffers = some buffers) (hnum : b.num_buffers ≠ 0) :
    write_loop (fuel + 1) data b = (do
      let buffer := buffers.getD b.current_buffer_index no_buffer
      let n := if data.length < buffer.length.toNat then data.length else buffer.length.toNat
      Prog.op (I := SdeApi) (.copy_to buffer.data_va (data.take n))
      let b := b.copy_at ((b.current_buffer_index + 1) % b.num_buffers)
      if 0 < data.length - n then write_loop fuel (data.drop n) b else return b) := by
  rw [write_loop, hbuffers]
  simp only [if_neg hnum]
  rw [← hbuffers]
  rfl

theorem copy_pos {b : SdeDmaBuffer} (hb : BufferOk b) {buffers : List SdeBuffer}
    (hbuffers : b.buffers = some buffers) :
    b.num_buffers ≠ 0 ∧ 0 < (buffers.getD b.current_buffer_index no_buffer).length.toNat := by
  obtain ⟨hi, hlength⟩ := hb.copy buffers hbuffers
  refine ⟨by omega, Nat.pos_iff_ne_zero.mpr fun h => hlength _ hi (BitVec.eq_of_toNat_eq h)⟩

theorem read_loop_progress {b : SdeDmaBuffer} (hb : BufferOk b) {fuel size : Nat}
    (hsize : 0 < size) (hfuel : size ≤ fuel) :
    (read_loop fuel size b).Meets NotEmpty Progress
      fun r => r.1.length = size ∧ BufferOk r.2 ∧ r.2.num_buffers = b.num_buffers := by
  induction fuel generalizing size b with
  | zero => omega
  | succ fuel ih =>
    cases hbuffers : b.buffers with
    | none =>
      rw [read_loop, hbuffers]
      exact ⟨trivial, fun r => nomatch r⟩
    | some buffers =>
      obtain ⟨hnum, hlength⟩ := copy_pos hb hbuffers
      rw [read_loop_step hbuffers hnum]
      have hnext := hb.copy_at (Nat.mod_lt (b.current_buffer_index + 1) (Nat.pos_iff_ne_zero.mpr hnum))
      dsimp only
      generalize hn : (if size < (buffers.getD b.current_buffer_index no_buffer).length.toNat
        then size else _) = n
      have hpos : 0 < n ∧ n ≤ size := by
        rw [← hn]
        split <;> omega
      refine Prog.meets_op_bind hpos.1 fun bytes _ => ?_
      split
      case isTrue hmore =>
        refine Prog.meets_bind (ih hnext hmore (by omega)) ?_
        rintro ⟨rest, b'⟩ ⟨hrest, hb', hnum'⟩
        refine Prog.meets_pure ⟨?_, hb', hnum'⟩
        rw [List.length_append, bytes.2, hrest]
        omega
      case isFalse hdone =>
        refine Prog.meets_pure ⟨?_, hnext, rfl⟩
        rw [bytes.2]
        omega

theorem write_loop_progress {b : SdeDmaBuffer} (hb : BufferOk b) {fuel : Nat}
    {data : List (BitVec 8)} (hdata : 0 < data.length) (hfuel : data.length ≤ fuel) :
    (write_loop fuel data b).Meets NotEmpty Progress
      fun b' => BufferOk b' ∧ b'.pkt_size = b.pkt_size := by
  induction fuel generalizing data b with
  | zero => omega
  | succ fuel ih =>
    cases hbuffers : b.buffers with
    | none =>
      rw [write_loop, hbuffers]
      exact ⟨trivial, fun r => nomatch r⟩
    | some buffers =>
      obtain ⟨hnum, hlength⟩ := copy_pos hb hbuffers
      rw [write_loop_step hbuffers hnum]
      have hnext := hb.copy_at (Nat.mod_lt (b.current_buffer_index + 1) (Nat.pos_iff_ne_zero.mpr hnum))
      dsimp only
      generalize hn : (if data.length < (buffers.getD b.current_buffer_index no_buffer).length.toNat
        then data.length else _) = n
      have hpos : 0 < n ∧ n ≤ data.length := by
        rw [← hn]
        split <;> omega
      refine Prog.meets_op_bind ?_ fun _ _ => ?_
      · apply List.ne_nil_of_length_pos
        rw [List.length_take]
        omega
      · split
        case isTrue hmore =>
          have hlen : (data.drop n).length = data.length - n := List.length_drop
          exact ih hnext (by omega) (by omega)
        case isFalse hdone => exact Prog.meets_pure ⟨hnext, rfl⟩

theorem le_copy_rounds (size num_buffers : Nat) : size ≤ copy_rounds size num_buffers := by
  unfold copy_rounds
  exact Nat.le_trans (Nat.le_succ size) (Nat.le_mul_of_pos_right _ (Nat.succ_pos num_buffers))

/-! ## Reading -/

theorem wait_md_progress (m : SdeMgmt) (rounds : Nat) :
    (wait_md m rounds).Meets NotEmpty Progress fun _ => True := by
  induction rounds with
  | zero => trivial
  | succ rounds ih =>
    refine Prog.meets_op_bind trivial fun status _ => ?_
    split
    · trivial
    · exact ih

theorem read_md_progress (slot_id : Int) (m : SdeMgmt) :
    (sde_mgmt_read_md slot_id m).Meets NotEmpty Progress fun r =>
      (r.1 = 0 → 0 < r.2.1.length.toNat) ∧
        ∃ i, r.2.2 = { m with md_read_index := i } := by
  have hfail : ∀ ret, ret ≠ 0 → ((pure (ret, no_md, m) : Prog SdeApi (Int × SdeMd × SdeMgmt)).Meets
      NotEmpty Progress fun r => (r.1 = 0 → 0 < r.2.1.length.toNat) ∧
        ∃ i, r.2.2 = { m with md_read_index := i }) :=
    fun ret hret => Prog.meets_pure ⟨fun h => absurd h hret, m.md_read_index, rfl⟩
  unfold sde_mgmt_read_md checked
  split
  · exact hfail _ (by decide)
  · split
    · exact hfail _ (by decide)
    · refine Prog.meets_bind (wait_md_progress _ _) fun done _ => ?_
      split
      · exact hfail _ (by decide)
      · refine Prog.meets_op_bind trivial fun status _ => ?_
        refine Prog.meets_op_bind trivial fun length hlength => ?_
        refine Prog.meets_op_bind trivial fun _ _ => ?_
        refine Prog.meets_op_bind trivial fun _ _ => Prog.meets_op_bind trivial fun _ _ => ?_
        refine Prog.meets_pure ⟨fun _ => ?_, _, rfl⟩
        exact Nat.pos_iff_ne_zero.mpr fun h => hlength (BitVec.eq_of_toNat_eq h)

/-- `m` with other copies and another metadata entry to read. -/
def ReadFrame (m m' : SdeMgmt) : Prop :=
  BufferOk m'.c2h_buffer ∧ m'.h2c_buffer = m.h2c_buffer

theorem read_data_progress (slot_id : Int) {size : Nat} {m : SdeMgmt} (hm : BufferOk m.c2h_buffer)
    {rounds : Nat} {data : List (BitVec 8)} (hrounds : size ≤ data.length + rounds) :
    (read_data_loop slot_id size rounds data m).Meets NotEmpty Progress
      fun r => ReadFrame m r.2.2 := by
  induction rounds generalizing data m with
  | zero =>
    unfold read_data_loop
    rw [if_neg (by omega)]
    exact Prog.meets_pure ⟨hm, rfl⟩
  | succ rounds ih =>
    unfold read_data_loop
    split
    case isFalse => exact Prog.meets_pure ⟨hm, rfl⟩
    case isTrue hleft =>
      refine Prog.meets_bind (read_md_progress slot_id m) ?_
      rintro ⟨ret, md, m'⟩ ⟨hlength, i, rfl⟩
      dsimp only
      split
      case isTrue => exact Prog.meets_pure ⟨hm, rfl⟩
      case isFalse hret =>
        have hpos := hlength (not_not.mp hret)
        generalize hn : (if md.length.toNat < size - data.length then md.length.toNat else _) = n
        have hn' : 0 < n := by
          rw [← hn]
          split <;> omega
        refine Prog.meets_bind (read_loop_progress hm hn' (le_copy_rounds _ _)) ?_
        rintro ⟨bytes, b⟩ ⟨hbytes, hb, -⟩
        refine ih (m := { m with md_read_index := i, c2h_buffer := b }) hb ?_
        rw [List.length_append, hbytes]
        omega

/-! ## The other calls -/

theorem prepare_write_progress {m : SdeMgmt} (hm : BufferOk m.h2c_buffer) {rounds : Nat}
    {data : List (BitVec 8)} (hrounds : data.length ≤ rounds) :
    (prepare_write_loop rounds data m).Meets NotEmpty Progress fun m' =>
      BufferOk m'.h2c_buffer ∧ m'.c2h_buffer = m.c2h_buffer := by
  induction rounds generalizing data m with
  | zero =>
    unfold prepare_write_loop
    rw [if_neg (by omega)]
    exact Prog.meets_pure ⟨hm, rfl⟩
  | succ rounds ih =>
    unfold prepare_write_loop
    split
    case isFalse => exact Prog.meets_pure ⟨hm, rfl⟩
    case isTrue hleft =>
      have hpkt : 0 < m.h2c_buffer.pkt_size.toNat :=
        Nat.pos_iff_ne_zero.mpr fun h => hm.pkt_size (BitVec.eq_of_toNat_eq h)
      dsimp only
      generalize hn : min m.h2c_buffer.pkt_size.toNat data.length = n
      have htake : (data.take n).length = n := by
        rw [List.length_take]
        omega
      refine Prog.meets_bind (write_loop_progress hm (by omega) (le_copy_rounds _ _)) ?_
      rintro b ⟨hb, -⟩
      refine ih (m := { m with h2c_buffer := b }) hb ?_
      rw [List.length_drop]
      omega

theorem set_buffer_faultFree {m : SdeMgmt} (hm : FaultFree m) (s : SdeSubsystem) {b : SdeDmaBuffer}
    (hb : m.initialized = true → BufferOk b) : FaultFree (m.set_buffer s b) := by
  intro hinit s'
  rw [SdeMgmt.set_buffer_initialized] at hinit
  rw [SdeMgmt.set_buffer_buffer]
  split
  · exact hb hinit
  · exact hm hinit s'

/-- The ring has descriptors: the user-managed layout gets them with its buffers. -/
def HasDesc (b : SdeDmaBuffer) : Prop := b.layout = .user_managed → b.buffers.isSome

theorem num_desc_ne {b : SdeDmaBuffer} (hb : BufferOk b) (hdesc : HasDesc b) : b.num_desc ≠ 0 := by
  apply hb.num_desc
  by_cases hlayout : b.layout = .user_managed
  · exact .inr (hdesc hlayout)
  · exact .inl hlayout

theorem desc_consumed_faultFree {m : SdeMgmt} (hm : FaultFree m) (s : SdeSubsystem)
    (desc_consumed : BitVec 32) : FaultFree (m.set_desc_consumed s desc_consumed) := by
  intro hinit s'
  rw [SdeMgmt.set_desc_consumed_initialized] at hinit
  rw [SdeMgmt.set_desc_consumed_buffer]
  exact hm hinit s'

theorem mgmt_post_desc_progress {slot_id : Int} {s : SdeSubsystem} {num_desc : Nat} {m : SdeMgmt}
    (hm : FaultFree m) (hdesc : HasDesc (m.buffer s)) :
    (sde_mgmt_post_desc slot_id s num_desc m).Meets NotEmpty Progress fun r => FaultFree r.2.2 := by
  refine meets_checked (fun ret => Prog.meets_pure hm) fun hinit => ?_
  split
  · exact Prog.meets_pure hm
  · have hb := hm hinit s
    refine Prog.meets_bind (post_desc_progress _ _ hb (num_desc_ne hb hdesc)) ?_
    rintro posted ⟨j, hj, hposted⟩
    refine Prog.meets_pure (desc_consumed_faultFree (set_buffer_faultFree hm s fun _ => ?_) _ _)
    rw [hposted]
    exact hb.post_at hj

theorem wait_credit_progress (slot_id : Int) (s : SdeSubsystem) (num_desc : Nat) (m : SdeMgmt) :
    (sde_mgmt_wait_desc_credit slot_id s num_desc m).Meets NotEmpty Progress fun _ => True := by
  refine meets_checked (fun _ => trivial) fun _ => ?_
  split
  · trivial
  · refine Prog.meets_bind (wait_loop_meets trivial _ _) fun credits _ => ?_
    split <;> trivial

theorem transfer_progress {slot_id : Int} {s : SdeSubsystem} {size : BitVec 64} {m : SdeMgmt}
    (hm : FaultFree m) (hinit : m.initialized = true) (hdesc : HasDesc (m.buffer s)) :
    (transfer slot_id s size m).Meets NotEmpty Progress fun r => FaultFree r.2 := by
  unfold transfer
  rw [if_neg (hm hinit s).pkt_size]
  refine Prog.meets_bind (wait_credit_progress _ _ _ _) fun (ret : Int) _ => ?_
  split
  · exact Prog.meets_pure hm
  · exact Prog.meets_bind (mgmt_post_desc_progress hm hdesc) fun r hr => Prog.meets_pure hr

theorem init_desc_buffer_ok {b : SdeDmaBuffer} (hb : BufferOk b) :
    BufferOk (sde_dma_init_desc_buffer b).2 := by
  unfold sde_dma_init_desc_buffer
  split
  · exact hb
  · split
    · exact hb
    · refine ⟨hb.pkt_size, hb.num_desc, hb.depth, by simp [SDE_NUM_DESC], fun buffers hbuffers => ?_⟩
      obtain ⟨hi, hlength⟩ := hb.copy buffers hbuffers
      exact ⟨Nat.zero_lt_of_lt hi, hlength⟩

theorem set_dma_buffers_ok {b : SdeDmaBuffer} (hb : BufferOk b) {sde_buffers : List SdeBuffer}
    {num_buffers : Nat} (hle : num_buffers ≤ SDE_NUM_DESC)
    (hindex : b.current_buffer_index < num_buffers)
    (hlength : ∀ i < num_buffers, (sde_buffers.getD i no_buffer).length ≠ 0) :
    BufferOk (sde_dma_buffer_set_dma_buffers sde_buffers num_buffers b).2 := by
  unfold sde_dma_buffer_set_dma_buffers
  split
  · exact hb
  · split
    · exact hb
    · refine ⟨hb.pkt_size, fun _ => by dsimp only; omega, hle, hb.post, ?_⟩
      rintro buffers hbuffers
      cases hbuffers
      exact ⟨hindex, hlength⟩

theorem cfg_packets_progress {s : SdeSubsystem} {unused : SdeExampleDir} {m : SdeMgmt}
    (hm : FaultFree m) :
    (cfg_packets_of s unused m).Meets NotEmpty Progress fun r => FaultFree r.2 := by
  unfold cfg_packets_of
  split
  · exact Prog.meets_pure (set_buffer_faultFree hm s fun hinit => init_desc_buffer_ok (hm hinit s))
  · exact Prog.meets_pure hm

theorem cfg_progress {slot_id : Int} {m : SdeMgmt} (hm : FaultFree m) :
    (sde_mgmt_cfg slot_id m).Meets NotEmpty Progress fun r => FaultFree r.2 := by
  refine meets_checked (fun ret => Prog.meets_pure hm) fun _ => ?_
  refine Prog.meets_failOn (Prog.meets_bind (register_progress _) fun (ret : Int) _ => ?_)
  refine Prog.meets_pure ⟨fun _ => hm, fun _ => ?_⟩
  refine Prog.meets_failOn (Prog.meets_bind (register_progress _) fun (ret : Int) _ => ?_)
  refine Prog.meets_pure ⟨fun _ => hm, fun _ => ?_⟩
  have hpackets : (sde_mgmt_cfg_packets m).Meets NotEmpty Progress fun r => FaultFree r.2 :=
    Prog.meets_failOn (Prog.meets_mono (cfg_packets_progress hm) (fun _ h => h) fun r hr =>
      ⟨fun _ => hr, fun _ => cfg_packets_progress hr⟩)
  have hatg : (sde_mgmt_cfg_c2h_atg m).Meets NotEmpty Progress fun r => r.2 = m := by
    refine Prog.meets_bind (register_progress _) fun (ret : Int) _ => ?_
    split
    · exact Prog.meets_pure rfl
    · split
      · exact Prog.meets_bind (register_progress _) fun (ret : Int) _ => Prog.meets_pure rfl
      · exact Prog.meets_pure rfl
  refine Prog.meets_failOn (Prog.meets_mono hatg (fun _ h => h) ?_)
  rintro ⟨ret, m'⟩ rfl
  exact ⟨fun _ => hm, fun _ => hpackets⟩

theorem set_dma_buffers_progress {slot_id : Int} {s : SdeSubsystem} {sde_buffers : List SdeBuffer}
    {num_buffers : Nat} {m : SdeMgmt} (hm : FaultFree m)
    (hindex : (m.buffer s).current_buffer_index < num_buffers)
    (hlength : ∀ i < num_buffers, (sde_buffers.getD i no_buffer).length ≠ 0) :
    (sde_mgmt_set_dma_buffers slot_id s sde_buffers num_buffers m).Meets NotEmpty Progress
      fun r => FaultFree r.2 := by
  refine meets_checked (fun ret => Prog.meets_pure hm) fun hinit => ?_
  split
  case isTrue => exact Prog.meets_pure hm
  case isFalse hle =>
    split
    · exact Prog.meets_pure hm
    · exact Prog.meets_pure (set_buffer_faultFree hm s fun _ =>
        set_dma_buffers_ok (hm hinit s) (Nat.le_of_not_lt hle) hindex hlength)

theorem reset_progress {slot_id : Int} {m : SdeMgmt} (hm : FaultFree m) :
    (sde_mgmt_reset slot_id m).Meets NotEmpty Progress fun r => FaultFree r.2 := by
  refine meets_checked (fun ret => Prog.meets_pure hm) fun _ => ?_
  refine Prog.meets_bind (register_progress _) fun (ret : Int) _ => ?_
  split
  · exact Prog.meets_pure hm
  · iterate 9 refine Prog.meets_op_bind trivial fun _ _ => ?_
    exact Prog.meets_pure hm

/-! ## Opening -/

/-- The buffers of a layout that the driver allocates. -/
def Allocated (pkt_size : BitVec 64) (buffers : Option (List SdeBuffer)) (num_buffers : Nat) : Prop :=
  ∀ bs, buffers = some bs → 0 < num_buffers ∧ bs.length = num_buffers ∧
    ∀ b ∈ bs, b.length = pkt_size.setWidth 32

theorem map_buffers_progress (s : SdeSubsystem) (pkt_size : BitVec 64) (left : Nat)
    {buffers : List SdeBuffer} (h : ∀ b ∈ buffers, b.length = pkt_size.setWidth 32) :
    (map_buffers s pkt_size left buffers).Meets NotEmpty Progress fun r => r.1 = 0 →
      r.2.length = buffers.length + left ∧ ∀ b ∈ r.2, b.length = pkt_size.setWidth 32 := by
  induction left generalizing buffers with
  | zero => exact Prog.meets_pure fun _ => ⟨rfl, h⟩
  | succ left ih =>
    unfold map_buffers
    have hmap : (if 0x1000 < pkt_size.toNat then fpga_dma_mem_map_huge (.buffer s)
        else fpga_dma_mem_map_anon (.buffer s) ((pkt_size.setWidth 32).setWidth 64)).Meets NotEmpty
        Progress fun _ => True := by
      split
      · exact ⟨trivial, fun _ _ => trivial⟩
      · exact ⟨trivial, fun _ _ => trivial⟩
    refine Prog.meets_bind hmap ?_
    rintro ⟨ret, va, pa⟩ -
    dsimp only
    split
    case isTrue hret => exact Prog.meets_pure fun h0 => absurd h0 hret
    case isFalse =>
      refine Prog.meets_mono (ih ?_) (fun _ h => h) fun r hr h0 => ?_
      · intro b hb
        rcases List.mem_append.mp hb with hb | hb
        · exact h b hb
        · rw [List.mem_singleton.mp hb]
      · obtain ⟨hlen, hall⟩ := hr h0
        refine ⟨?_, hall⟩
        rw [hlen, List.length_append, List.length_singleton]
        omega

theorem dma_buffer_init_progress {s : SdeSubsystem} {layout : SdeBufferLayout}
    (hlayout : layout ≠ .user_managed) (pkt_size : BitVec 64) :
    (dma_buffer_init s layout pkt_size 0).Meets NotEmpty Progress fun r =>
      r.1 = 0 → Allocated pkt_size r.2.1 r.2.2 := by
  have hmap : ∀ num_buffers, 0 < num_buffers → (do
      let allocated ← malloc (num_buffers * sizeof_sde_buffer)
      if allocated = false then
        return (SDE_ALLOCATION_FAILURE, none, num_buffers)
      else
        let mapped ← map_buffers s pkt_size num_buffers []
        return (mapped.1, some mapped.2, num_buffers) :
        Prog SdeApi (Int × Option (List SdeBuffer) × Nat)).Meets NotEmpty Progress fun r =>
      r.1 = 0 → Allocated pkt_size r.2.1 r.2.2 := by
    intro num_buffers hnum
    refine Prog.meets_op_bind trivial fun (allocated : Bool) _ => ?_
    split
    · exact Prog.meets_pure fun (h0 : SDE_ALLOCATION_FAILURE = 0) => absurd h0 (by decide)
    · refine Prog.meets_bind (map_buffers_progress s pkt_size num_buffers (by simp)) ?_
      rintro ⟨ret, buffers⟩ hbuffers
      refine Prog.meets_pure fun h0 => ?_
      rintro bs hbs
      cases hbs
      obtain ⟨hlen, hall⟩ := hbuffers h0
      exact ⟨hnum, by rw [hlen, List.length_nil, Nat.zero_add], hall⟩
  cases layout with
  | single => exact hmap 1 (by decide)
  | multi => exact hmap SDE_NUM_DESC (by decide)
  | user_managed => exact absurd rfl hlayout

theorem writeback_init_progress (s : SdeSubsystem) :
    (writeback_init s).Meets NotEmpty Progress fun _ => True :=
  ⟨trivial, fun _ _ => trivial⟩

theorem mem_init_progress {c2h_layout h2c_layout : SdeBufferLayout} {direction : SdeExampleDir}
    {pkt_size : BitVec 64} {mem : SdeMem} :
    (sde_mem_init c2h_layout h2c_layout direction pkt_size mem).Meets NotEmpty Progress fun r =>
      r.1 = 0 → pkt_size.toNat ≤ 0x200000 ∧
        ∀ s, Allocated pkt_size (sde_mem_get_buffers r.2 s).1 (sde_mem_get_buffers r.2 s).2 := by
  unfold sde_mem_init
  split
  case isTrue =>
    exact Prog.meets_pure fun (h0 : FPGA_ERR_SOFTWARE_PROBLEM = 0) => absurd h0 (by decide)
  case isFalse hsize =>
    have hnone : Allocated pkt_size none 0 := fun bs hbs => by cases hbs
    refine Prog.meets_failOn (Prog.meets_bind (writeback_init_progress .c2h) ?_)
    rintro ⟨ret, wb₀⟩ -
    refine Prog.meets_pure ⟨fun hret h0 => absurd h0 hret, fun _ => ?_⟩
    refine Prog.meets_failOn (Prog.meets_bind (writeback_init_progress .h2c) ?_)
    rintro ⟨ret, wb₁⟩ -
    refine Prog.meets_pure ⟨fun hret h0 => absurd h0 hret, fun _ => ?_⟩
    refine Prog.meets_failOn (Prog.meets_mono (Q := fun r => r.1 = 0 →
      Allocated pkt_size r.2.c2h_buffers r.2.c2h_num_buffers ∧ r.2.h2c_buffers = none) ?_
      (fun _ h => h) ?_)
    · dsimp only
      split
      case isTrue hdir =>
        refine Prog.meets_bind (dma_buffer_init_progress hdir.2 pkt_size) ?_
        rintro ⟨ret, buffers, num_buffers⟩ h
        exact Prog.meets_pure fun h0 => ⟨h h0, rfl⟩
      case isFalse => exact Prog.meets_pure fun _ => ⟨hnone, rfl⟩
    · rintro ⟨ret, mem⟩ hmem
      refine ⟨fun hret h0 => absurd h0 hret, fun h0 => ?_⟩
      obtain ⟨hc2h, hh2c⟩ := hmem h0
      refine Prog.meets_failOn (Prog.meets_mono (Q := fun r => r.1 = 0 →
        ∀ s, Allocated pkt_size (sde_mem_get_buffers r.2 s).1 (sde_mem_get_buffers r.2 s).2) ?_
        (fun _ h => h) ?_)
      · dsimp only
        split
        case isTrue hdir =>
          refine Prog.meets_bind (dma_buffer_init_progress hdir.2 pkt_size) ?_
          rintro ⟨ret, buffers, num_buffers⟩ h
          refine Prog.meets_pure fun h1 s => ?_
          cases s with
          | c2h => exact hc2h
          | h2c => exact h h1
        case isFalse =>
          refine Prog.meets_pure fun _ s => ?_
          cases s with
          | c2h => exact hc2h
          | h2c =>
            intro bs hbs
            rw [sde_mem_get_buffers, hh2c] at hbs
            cases hbs
      · rintro ⟨ret, mem⟩ hmem
        exact ⟨fun hret h0 => absurd h0 hret, fun h0 =>
          Prog.meets_pure fun _ => ⟨Nat.le_of_not_lt hsize, hmem h0⟩⟩

theorem dma_buffer_init_ok {layout : SdeBufferLayout} {s : SdeSubsystem} {packet_size : BitVec 64}
    {mem : SdeMem} (hpos : packet_size ≠ 0) (hsize : packet_size.toNat ≤ 0x200000)
    (hmem : Allocated packet_size (sde_mem_get_buffers mem s).1 (sde_mem_get_buffers mem s).2) :
    BufferOk (sde_dma_buffer_init layout s packet_size mem) := by
  unfold sde_dma_buffer_init
  split
  case isTrue hlayout =>
    refine ⟨hpos, fun _ => by simp [SDE_NUM_DESC], by simp, by simp [SdeDmaBuffer.zero, SDE_NUM_DESC], ?_⟩
    intro buffers hbuffers
    obtain ⟨hnum, hlen, hall⟩ := hmem buffers hbuffers
    refine ⟨hnum, fun i hi => ?_⟩
    have hi' : i < buffers.length := by
      rw [hlen]
      exact hi
    rw [List.getD_eq_getElem _ _ hi', hall _ (List.getElem_mem hi')]
    intro h
    apply hpos
    apply BitVec.eq_of_toNat_eq
    have htoNat := congrArg BitVec.toNat h
    simp at htoNat ⊢
    omega
  case isFalse hlayout =>
    have huser : layout = .user_managed := not_not.mp hlayout
    refine ⟨hpos, ?_, by simp [SdeDmaBuffer.zero], by simp [SdeDmaBuffer.zero, SDE_NUM_DESC], ?_⟩
    · rintro (h | h)
      · exact absurd huser h
      · cases h
    · intro buffers hbuffers
      cases hbuffers

theorem init_progress {slot_id : Int} {direction : SdeExampleDir} {packet_size : BitVec 64}
    {layout : SdeBufferLayout} {m : SdeMgmt} (hm : FaultFree m) (hpos : packet_size ≠ 0) :
    (sde_mgmt_init slot_id direction packet_size layout m).Meets NotEmpty Progress
      fun r => FaultFree r.2 := by
  unfold sde_mgmt_init
  split
  case isTrue => exact Prog.meets_pure hm
  case isFalse =>
    refine Prog.meets_failOn (Prog.meets_bind mem_init_progress ?_)
    rintro ⟨ret, mem⟩ hmem
    refine Prog.meets_pure ⟨fun _ hinit => (by cases hinit), fun h0 => ?_⟩
    obtain ⟨hsize, hbuffers⟩ := hmem h0
    refine Prog.meets_failOn (Prog.meets_bind (register_progress _) ?_)
    rintro ⟨ret, hw_ctrl⟩ -
    refine Prog.meets_pure ⟨fun _ hinit => (by cases hinit), fun _ => Prog.meets_pure fun _ s => ?_⟩
    cases s with
    | c2h => exact dma_buffer_init_ok hpos hsize (hbuffers .c2h)
    | h2c => exact dma_buffer_init_ok hpos hsize (hbuffers .h2c)

/-! ## Runs -/

/-- The condition on a call. `sde_mgmt_close` is not among the calls. -/
def CallsWell (m : SdeMgmt) : SdeCall → Prop
  | .init _ packet_size _ => packet_size ≠ 0
  | .close => False
  | .set_dma_buffers s sde_buffers num_buffers =>
    (m.buffer s).current_buffer_index < num_buffers ∧
      ∀ i < num_buffers, (sde_buffers.getD i no_buffer).length ≠ 0
  | .post_desc s _ => HasDesc (m.buffer s)
  | .start_read _ => HasDesc m.c2h_buffer
  | .write _ => HasDesc m.h2c_buffer
  -- As many rounds as there are bytes.
  | .read_data size rounds => size ≤ rounds
  | _ => True

theorem body_progress {slot_id : Int} {m : SdeMgmt} (hm : FaultFree m) {call : SdeCall}
    (hcall : CallsWell m call) :
    (call.body slot_id m).Meets NotEmpty Progress fun r => FaultFree r.2 := by
  cases call with
  | init direction packet_size layout => exact init_progress hm hcall
  | close => exact hcall.elim
  | reset => exact reset_progress hm
  | check_status s =>
    refine Prog.meets_bind (Q := fun _ => True) (meets_checked (fun _ => trivial) fun _ => ?_)
      fun _ _ => Prog.meets_pure hm
    refine Prog.meets_op_bind trivial fun status _ => ?_
    split <;> trivial
  | set_dma_buffers s sde_buffers num_buffers => exact set_dma_buffers_progress hm hcall.1 hcall.2
  | cfg => exact cfg_progress hm
  | wait_desc_credit s num_desc => 
    exact Prog.meets_bind (wait_credit_progress _ _ _ _) fun _ _ => Prog.meets_pure hm
  | post_desc s num_desc =>
    exact Prog.meets_bind (mgmt_post_desc_progress hm hcall) fun r hr => Prog.meets_pure hr
  | start_read size =>
    refine meets_checked (Q := fun (r : Int × SdeMgmt) => FaultFree r.2)
      (fun _ => Prog.meets_pure hm) fun hinit => ?_
    split
    · exact transfer_progress hm hinit hcall
    · exact Prog.meets_pure hm
  | read_md =>
    refine Prog.meets_bind (read_md_progress _ _) ?_
    rintro ⟨ret, md, m'⟩ ⟨-, i, rfl⟩
    exact Prog.meets_pure hm
  | read_data size rounds =>
    refine Prog.meets_bind (Q := fun r => FaultFree r.2.2)
      (meets_checked (fun _ => Prog.meets_pure hm) fun hinit => ?_) fun r hr => Prog.meets_pure hr
    split
    · exact Prog.meets_pure hm
    · refine Prog.meets_mono (read_data_progress _ (hm hinit .c2h) ?_) (fun _ h => h) ?_
      · rw [List.length_nil, Nat.zero_add]
        exact hcall
      · rintro ⟨ret, data, m'⟩ ⟨hc2h, hh2c⟩ _ s
        cases s with
        | c2h => exact hc2h
        | h2c =>
          change BufferOk m'.h2c_buffer
          rw [hh2c]
          exact hm hinit .h2c
  | prepare_write data =>
    refine meets_checked (Q := fun (r : Int × SdeMgmt) => FaultFree r.2)
      (fun _ => Prog.meets_pure hm) fun hinit => ?_
    split
    · exact Prog.meets_pure hm
    · refine Prog.meets_bind (prepare_write_progress (hm hinit .h2c) (Nat.le_refl _)) ?_
      rintro m' ⟨hh2c, hc2h⟩
      refine Prog.meets_pure fun _ s => ?_
      cases s with
      | c2h =>
        change BufferOk m'.c2h_buffer
        rw [hc2h]
        exact hm hinit .c2h
      | h2c => exact hh2c
  | write size =>
    refine meets_checked (Q := fun (r : Int × SdeMgmt) => FaultFree r.2)
      (fun _ => Prog.meets_pure hm) fun hinit => ?_
    split
    · exact Prog.meets_pure hm
    · exact transfer_progress hm hinit hcall

/-- The states of the runs whose calls all meet the condition, with no empty packet. -/
inductive CallsRun : Slots → Prop where
  | start : CallsRun .start
  | step {slots slots' : Slots} {slot : Nat} {call : SdeCall} {ret : Int} {t : List SdeApi.Event}
    (run : CallsRun slots) (hstep : SlotStep slots slot call ret t slots')
    (ht : ∀ e ∈ t, NotEmpty e.1 e.2) (hcall : CallsWell (slots slot) call) : CallsRun slots'

theorem faultFree_run {slots : Slots} (h : CallsRun slots) (slot : Nat) : FaultFree (slots slot) := by
  induction h generalizing slot with
  | start => exact fun hinit => (by cases hinit)
  | @step slots slots' called call ret t _ hstep ht hcall ih =>
    obtain ⟨m, hruns, rfl⟩ := hstep
    by_cases hslot : slot = called
    · rw [hslot, Function.update_self]
      exact (Prog.runs_meets (body_progress (ih called) hcall) hruns ht).2
    · rw [Function.update_of_ne hslot]
      exact ih slot

/-! ## Divisions and loops -/

/-- A call goes on whatever is answered: it divides by no 0, each round of a copy moves a byte, and
no loop is endless. -/
def GoesOn (slot_id : Int) (m : SdeMgmt) (call : SdeCall) : Prop :=
  (call.body slot_id m).Meets NotEmpty Progress fun _ => True

theorem goesOn_run {slots : Slots} (h : CallsRun slots) (slot : Nat) (call : SdeCall)
    (hcall : CallsWell (slots slot) call) : GoesOn slot (slots slot) call :=
  Prog.meets_mono (body_progress (faultFree_run h slot) hcall) (fun _ h => h) fun _ _ => trivial

/-! ## Samples -/

/-- The slot with one buffer of the user. -/
def userSet : SdeMgmt :=
  { userOpened 64 with
    c2h_buffer := { (userOpened 64).c2h_buffer with
      buffers := some [⟨0, 0x5000, 64, 64⟩], num_buffers := 1, num_desc := 1 } }

theorem userOpened_notEmpty : ∀ e ∈ openCalls, NotEmpty e.1 e.2 := by
  simp [openCalls, NotEmpty]

theorem goesOn_user_managed :
    GoesOn 0 (Function.update (Function.update Slots.start 0 (userOpened 64)) 0 userSet 0)
      (.start_read 1) := by
  have hopen : CallsRun (Function.update Slots.start 0 (userOpened 64)) :=
    .step .start (userOpened_step (by decide)) userOpened_notEmpty
      (show (64 : BitVec 64) ≠ 0 by decide)
  have hset : SlotStep (Function.update Slots.start 0 (userOpened 64)) 0
      (.set_dma_buffers .c2h [⟨0, 0x5000, 64, 64⟩] 1) 0 [] (Function.update _ 0 userSet) :=
    ⟨userSet, ⟨rfl, rfl⟩, rfl⟩
  exact goesOn_run (.step hopen hset (by simp) ⟨by decide, by decide⟩) 0 _ fun _ => rfl

/-- A packet size of 0 passes every check, and the next read divides by it. -/
theorem not_goesOn : ∃ slots t, SlotStep .start 0 (.init .c2h 0 .user_managed) 0 t slots ∧
    ¬ GoesOn 0 (slots 0) (.start_read 1) :=
  ⟨_, _, userOpened_step (by decide), fun h => h.1⟩

end AwsFpga.Sde
