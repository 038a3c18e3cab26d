import AwsFpga.Xvc.Server

/-!
# One pass over the receive buffer

A pass goes through the pipelined commands at the front of the buffer. Whether
it can go wrong is read off these commands: their bit counts, and the space their
replies take together.
-/

open Lib AwsFpga.Pci

namespace AwsFpga.Xvc

/-! ## Commands in a buffer -/

/-- The complete commands at the front of a buffer, and the bytes after them. -/
def commands : (fuel : Nat) → List Byte → List Command × List Byte
  | 0, cbuf => ([], cbuf)
  | fuel + 1, cbuf =>
    match next_command cbuf with
    | .command c => (c :: (commands fuel (cbuf.drop c.size)).1, (commands fuel (cbuf.drop c.size)).2)
    | _ => ([], cbuf)

/-- The bit count does not wrap when it is rounded up. -/
def Command.Sound : Command → Prop
  | .shift bits => bits.toNat ≤ 2 ^ 32 - 8
  | _ => True

/-- What a command stores at most. For `getinfo:` that is one byte more than the reply. -/
def Command.stored : Command → Nat
  | .getinfo => info_str.length + 1
  | c => c.reply_size

/-- The replies, one after another from `reply_len` on, stay in the reply buffer. -/
def RepliesFit : (reply_len : Nat) → List Command → Prop
  | _, [] => True
  | reply_len, c :: cs =>
    c.Sound ∧ reply_len + c.stored ≤ reply_max ∧ RepliesFit (reply_len + c.reply_size) cs

/-- The content of a buffer is harmless. -/
structure Harmless (buf : List Byte) : Prop where
  fit : RepliesFit 0 (commands (buf.length + 1) buf).1
  left : next_command (commands (buf.length + 1) buf).2 ≠ .assert_failed

theorem byte_count_of_sound {bits : BitVec 32} (h : bits.toNat ≤ 2 ^ 32 - 8) :
    byte_count bits = (bits.toNat + 7) / 8 := by
  have hlt := bits.isLt
  unfold byte_count
  rw [BitVec.toNat_udiv, BitVec.toNat_add]
  change (bits.toNat + 7) % 2 ^ 32 / 8 = _
  omega

theorem info_length : info_str.length = 21 := by decide

theorem next_command_size {cbuf : List Byte} {c : Command} (h : next_command cbuf = .command c) :
    c.size ≤ cbuf.length := by
  unfold next_command at h
  split at h
  case h_1 => split at h <;> cases h
  case h_2 i hi =>
    have hname : ∀ {name : List Byte}, cbuf.take (i + 1) = name → name.length ≤ cbuf.length := by
      intro name hname
      rw [← hname, List.length_take]
      omega
    dsimp only at h
    split at h
    case isTrue heq =>
      cases h
      exact hname heq
    split at h
    case isTrue =>
      split at h
      · cases h
      · split at h
        · split at h <;> cases h
        · cases h
          omega
    split at h
    case isTrue =>
      split at h
      · cases h
      · cases h
        change 11 ≤ _
        omega
    case isFalse => cases h

theorem command_size_pos (c : Command) : 0 < c.size := by
  cases c <;> simp only [Command.size] <;> omega

/-! ## Shifts -/

theorem bytes_at_of_le {buf : List Byte} {offset len : Nat} (h : offset + len ≤ buf.length) :
    bytes_at buf offset len = some ((buf.drop offset).take len) := if_pos h

theorem bytes_at_eq_some {buf out : List Byte} {offset len : Nat}
    (h : bytes_at buf offset len = some out) : offset + len ≤ buf.length := by
  unfold bytes_at at h
  split at h
  · assumption
  · cases h

theorem word_bytes_length (word : BitVec 32) (len : Nat) : (word_bytes word len).length = len := by
  simp [word_bytes]

variable {handle : Int} {num_bits left current_bit : Nat} {tms_buf tdi_buf : List Byte}
  {tms_store tdi_store : BitVec 32}

/-- Where the loop stands: `left` words to go, all but the last of them full. -/
structure AtWord (num_bits left current_bit : Nat) : Prop where
  left_eq : left = (num_bits - current_bit + 31) / 32
  aligned : left = 0 ∨ current_bit % 32 = 0

theorem atWord_succ (h : AtWord num_bits (left + 1) current_bit) :
    AtWord num_bits left (current_bit + min 32 (num_bits - current_bit)) ∧
      current_bit < num_bits ∧
      current_bit / 8 + (min 32 (num_bits - current_bit) + 7) / 8 ≤ (num_bits + 7) / 8 ∧
      (min 32 (num_bits - current_bit) + 7) / 8 +
        (num_bits - (current_bit + min 32 (num_bits - current_bit)) + 7) / 8 =
          (num_bits - current_bit + 7) / 8 := by
  obtain ⟨hleft, haligned⟩ := h
  have halign : current_bit % 32 = 0 := haligned.resolve_left (by omega)
  refine ⟨⟨?_, ?_⟩, ?_, ?_, ?_⟩ <;> omega

/-- With both vectors received, whatever the device does, nothing beyond them is read. -/
theorem shift_words_ensures (htms : (num_bits + 7) / 8 ≤ tms_buf.length)
    (htdi : (num_bits + 7) / 8 ≤ tdi_buf.length) (h : AtWord num_bits left current_bit) :
    (shift_words handle num_bits tms_buf tdi_buf left current_bit tms_store tdi_store).Ensures
      fun r => ∃ out, r = .ok out ∧ out.length ≤ (num_bits - current_bit + 7) / 8 := by
  induction left generalizing current_bit tms_store tdi_store with
  | zero => exact ⟨[], rfl, Nat.zero_le _⟩
  | succ left ih =>
    obtain ⟨hnext, hlt, hbound, hsum⟩ := atWord_succ h
    unfold shift_words
    refine Prog.ensures_bind (Prog.ensures_true _) fun status _ => ?_
    split
    case isTrue => exact ⟨[], rfl, Nat.zero_le _⟩
    dsimp only
    rw [bytes_at_of_le (hbound.trans htms), bytes_at_of_le (hbound.trans htdi)]
    refine Prog.ensures_bind (Prog.ensures_true _) fun (status, tdo_store) _ => ?_
    dsimp only
    split
    case isTrue => exact ⟨[], rfl, Nat.zero_le _⟩
    refine Prog.ensures_bind (ih hnext) ?_
    rintro _ ⟨out, rfl, hout⟩
    refine ⟨_, rfl, ?_⟩
    rw [List.length_append, word_bytes_length]
    omega

theorem shift_tms_tdi_ensures {bits : BitVec 32} (htms : (bits.toNat + 7) / 8 ≤ tms_buf.length)
    (htdi : (bits.toNat + 7) / 8 ≤ tdi_buf.length) :
    (shift_tms_tdi handle bits tms_buf tdi_buf).Ensures
      fun r => ∃ out, r = .ok out ∧ out.length ≤ (bits.toNat + 7) / 8 := by
  unfold shift_tms_tdi
  refine Prog.ensures_bind (Prog.ensures_true _) fun status _ => ?_
  split
  · exact ⟨[], rfl, Nat.zero_le _⟩
  · exact shift_words_ensures htms htdi (⟨rfl, .inr rfl⟩ : AtWord bits.toNat _ 0)

/-- A device on which every access works and no shift takes time. -/
def quietBus : Prog.Handler PciApi Unit := fun o s => (o.quiet, s)

theorem quiet_poke_if (c : Prop) [Decidable c] (offset : BitVec 64) (value : BitVec 32) :
    ((if c then fpga_pci_poke handle offset value else pure 0).exec quietBus ()).result = 0 := by
  split <;> rfl

theorem shift_words_quiet {out : List Byte} (h : AtWord num_bits left current_bit)
    (hout : ((shift_words handle num_bits tms_buf tdi_buf left current_bit tms_store tdi_store).exec
      quietBus ()).result = .ok out) :
    out.length = (num_bits - current_bit + 7) / 8 ∧
      (current_bit < num_bits →
        (num_bits + 7) / 8 ≤ tms_buf.length ∧ (num_bits + 7) / 8 ≤ tdi_buf.length) := by
  induction left generalizing current_bit tms_store tdi_store out with
  | zero =>
    obtain rfl : [] = out := Except.ok.inj hout
    have := h.left_eq
    refine ⟨?_, fun hlt => ?_⟩
    · rw [List.length_nil]
      omega
    · omega
  | succ left ih =>
    obtain ⟨hnext, hlt, hbound, hsum⟩ := atWord_succ h
    have hshift : ∀ tms tdi, ((xvc_shift_bits handle tms tdi).exec quietBus ()).result = (0, 0) :=
      fun _ _ => rfl
    unfold shift_words at hout
    dsimp only at hout
    rw [Prog.exec_bind_result, quiet_poke_if, if_neg (by decide)] at hout
    split at hout
    case h_1 tms tdi htms htdi =>
      rw [Prog.exec_bind_result, hshift, if_neg (by decide), Prog.exec_bind_result] at hout
      generalize hr : (Prog.exec quietBus (shift_words ..) _).result = r at hout
      cases r with
      | error f => cases hout
      | ok rest =>
        obtain ⟨hlen, hall⟩ := ih hnext hr
        obtain rfl := Except.ok.inj hout
        have htms' := bytes_at_eq_some htms
        have htdi' := bytes_at_eq_some htdi
        refine ⟨by rw [List.length_append, word_bytes_length, hlen, hsum], fun _ => ?_⟩
        by_cases hlast : current_bit + min 32 (num_bits - current_bit) < num_bits
        · exact hall hlast
        · have halign : current_bit % 32 = 0 := h.aligned.resolve_left (by omega)
          exact ⟨by omega, by omega⟩
    case h_2 => cases hout

theorem shift_tms_tdi_quiet {bits : BitVec 32} {out : List Byte}
    (hout : ((shift_tms_tdi handle bits tms_buf tdi_buf).exec quietBus ()).result = .ok out) :
    out.length = (bits.toNat + 7) / 8 ∧ (0 < bits.toNat →
      (bits.toNat + 7) / 8 ≤ tms_buf.length ∧ (bits.toNat + 7) / 8 ≤ tdi_buf.length) := by
  unfold shift_tms_tdi at hout
  dsimp only at hout
  rw [Prog.exec_bind_result, quiet_poke_if, if_neg (by decide)] at hout
  exact shift_words_quiet (⟨rfl, .inr rfl⟩ : AtWord bits.toNat _ 0) hout

/-! ## Stores -/

theorem store_reply_of_le (reply : Reply) {reply_len : Nat} {bytes : List Byte}
    (h : reply_len + bytes.length ≤ reply_max) :
    ∃ reply', store_reply reply reply_len bytes = .ok reply' := ⟨_, if_pos h⟩

theorem store_reply_le {reply reply' : Reply} {reply_len : Nat} {bytes : List Byte}
    (h : store_reply reply reply_len bytes = .ok reply') : reply_len + bytes.length ≤ reply_max := by
  unfold store_reply at h
  split at h
  · assumption
  · cases h

theorem set_uint_le_length (len : Nat) (value : BitVec 32) : (set_uint_le len value).length = len := by
  induction len generalizing value with
  | zero => rfl
  | succ len ih => rw [set_uint_le, List.length_cons, ih]

/-! ## Passes -/

theorem command_reply_ensures {cbuf : List Byte} {c : Command} (hsound : c.Sound)
    (hsize : c.size ≤ cbuf.length) :
    (command_reply handle cbuf c).Ensures fun r => ∃ out, r = .ok out ∧ out.length ≤ c.stored := by
  cases c with
  | getinfo => exact ⟨_, rfl, by simp [Command.stored]⟩
  | settck nsperiod =>
    refine ⟨_, rfl, ?_⟩
    rw [set_uint_le_length]
    exact Nat.le_refl 4
  | shift bits =>
    have hcount : byte_count bits = (bits.toNat + 7) / 8 := byte_count_of_sound hsound
    have hlen : 10 + byte_count bits * 2 ≤ cbuf.length := hsize
    have hstored : (Command.shift bits).stored = (bits.toNat + 7) / 8 := hcount
    rw [hstored]
    apply shift_tms_tdi_ensures
    · rw [List.length_drop]
      omega
    · rw [List.length_drop]
      omega

theorem command_reply_quiet {cbuf out : List Byte} {c : Command}
    (hlen : cbuf.length ≤ max_packet_len)
    (hout : ((command_reply handle cbuf c).exec quietBus ()).result = .ok out) :
    c.Sound ∧ out.length = c.stored := by
  cases c with
  | getinfo =>
    obtain rfl := Except.ok.inj hout
    exact ⟨trivial, by simp [Command.stored]⟩
  | settck nsperiod =>
    obtain rfl := Except.ok.inj hout
    exact ⟨trivial, set_uint_le_length 4 _⟩
  | shift bits =>
    obtain ⟨hcount, hread⟩ := shift_tms_tdi_quiet hout
    have hsound : bits.toNat ≤ 2 ^ 32 - 8 := by
      by_contra hwrap
      have hread' := (hread (by omega)).1
      rw [List.length_drop] at hread'
      unfold max_packet_len at hlen
      omega
    refine ⟨hsound, ?_⟩
    rw [hcount]
    exact (byte_count_of_sound hsound).symm

def PassEnd.IsFault : PassEnd → Prop
  | .fault _ => True
  | _ => False

theorem read_packet_pass_ensures {fuel : Nat} {s : Filled}
    (hfit : RepliesFit s.reply_len (commands fuel s.cbuf).1)
    (hleft : next_command (commands fuel s.cbuf).2 ≠ .assert_failed) :
    (read_packet_pass handle fuel s).Ensures fun r => ¬ r.IsFault := by
  induction fuel generalizing s with
  | zero => exact id
  | succ fuel ih =>
    unfold read_packet_pass
    unfold commands at hfit hleft
    cases hnext : next_command s.cbuf with
    | fill => exact id
    | bad => exact id
    | assert_failed =>
      rw [hnext] at hleft
      exact absurd hnext hleft
    | command c =>
      rw [hnext] at hfit hleft
      obtain ⟨hsound, hspace, hfit⟩ := hfit
      refine Prog.ensures_bind (command_reply_ensures hsound (next_command_size hnext)) ?_
      rintro _ ⟨out, rfl, hlen⟩
      obtain ⟨reply', hstore⟩ := store_reply_of_le s.reply
        ((Nat.add_le_add_left hlen s.reply_len).trans hspace)
      dsimp only
      rw [hstore]
      exact ih hfit hleft

theorem read_packet_pass_quiet {fuel : Nat} {s : Filled} (hlen : s.cbuf.length ≤ max_packet_len)
    (hfuel : s.cbuf.length < fuel)
    (hok : ¬ ((read_packet_pass handle fuel s).exec quietBus ()).result.IsFault) :
    RepliesFit s.reply_len (commands fuel s.cbuf).1 ∧
      next_command (commands fuel s.cbuf).2 ≠ .assert_failed := by
  induction fuel generalizing s with
  | zero => omega
  | succ fuel ih =>
    unfold read_packet_pass at hok
    unfold commands
    cases hnext : next_command s.cbuf with
    | fill => exact ⟨trivial, by simp [hnext]⟩
    | bad => exact ⟨trivial, by simp [hnext]⟩
    | assert_failed =>
      rw [hnext] at hok
      exact absurd trivial hok
    | command c =>
      rw [hnext] at hok
      dsimp only at hok
      rw [Prog.exec_bind_result] at hok
      generalize hr : ((command_reply handle s.cbuf c).exec quietBus ()).result = r at hok
      cases r with
      | error f => exact absurd trivial hok
      | ok out =>
        obtain ⟨hsound, hout⟩ := command_reply_quiet hlen hr
        dsimp only at hok
        cases hstore : store_reply s.reply s.reply_len out with
        | error f =>
          rw [hstore] at hok
          exact absurd trivial hok
        | ok reply' =>
          rw [hstore] at hok
          have hspace := store_reply_le hstore
          rw [hout] at hspace
          have hsize := next_command_size hnext
          have hpos := command_size_pos c
          have hrest := ih (by rw [List.length_drop]; omega) (by rw [List.length_drop]; omega) hok
          exact ⟨⟨hsound, hspace, hrest.1⟩, hrest.2⟩

/-- A pass over any content is safe on every device, exactly when the content is harmless. -/
theorem read_packet_once_safe_iff (handle : Int) (buf : RecvBuf) (reply : Reply)
    (calls : List ShiftCall) :
    (∀ t r, (read_packet_once handle buf reply calls).Runs t r → ¬ r.IsFault) ↔ Harmless buf := by
  rw [← Prog.ensures_iff_runs]
  constructor
  · intro h
    have hok := Prog.ensures_iff_runs.mp h _ _ (Prog.exec_runs quietBus _ ())
    obtain ⟨hfit, hleft⟩ := read_packet_pass_quiet buf.2 (Nat.lt_succ_self _) hok
    exact ⟨hfit, hleft⟩
  · intro h
    exact read_packet_pass_ensures h.fit h.left

/-- A shift of 2^32 - 1 bits: its byte count wraps to 0, and nothing was received to shift. -/
def wrapped_shift : RecvBuf := ⟨shift_str ++ [0xFF, 0xFF, 0xFF, 0xFF], by decide⟩

theorem wrapped_shift_fault : ∃ t, (read_packet_once 0 wrapped_shift (fun _ => 0) []).Runs t
    (.fault .read_beyond) :=
  ⟨_, Prog.exec_runs quietBus _ ()⟩

end AwsFpga.Xvc
