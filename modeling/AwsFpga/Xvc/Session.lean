import AwsFpga.Xvc.Stream

/-!
# What a client observes

The replies of a stream are those of its commands one by one. A connection sends
them whatever the chunks, as long as the replies that one pass makes fit the
reply buffer together. `reply_buf_size` gives room for a packet, not for those.
-/

open Lib AwsFpga.Pci

namespace AwsFpga.Xvc

variable {σ : Type} {h : Prog.Handler PciApi σ} {handle : Int}

/-! ## Replies -/

/-- The commands one after another, each by itself. -/
def reply_all (handle : Int) : List XvcCommand → Prog PciApi (List Byte)
  | [] => return []
  | c :: cs => do
    let out ← c.reply handle
    let outs ← reply_all handle cs
    return out ++ outs

def calls_all (cs : List XvcCommand) : List ShiftCall := cs.flatMap XvcCommand.calls

/-- No access of a shift fails or times out: each command gets all of its reply. -/
def Completes (h : Prog.Handler PciApi σ) (handle : Int) : List XvcCommand → σ → Prop
  | [], _ => True
  | c :: cs, d => ((c.reply handle).exec h d).result.length = c.command.reply_size ∧
    Completes h handle cs ((c.reply handle).exec h d).state

theorem reply_all_append (cs cs' : List XvcCommand) (d : σ) :
    ((reply_all handle (cs ++ cs')).exec h d).result = ((reply_all handle cs).exec h d).result ++
        ((reply_all handle cs').exec h ((reply_all handle cs).exec h d).state).result ∧
      ((reply_all handle (cs ++ cs')).exec h d).state =
        ((reply_all handle cs').exec h ((reply_all handle cs).exec h d).state).state := by
  induction cs generalizing d with
  | nil => exact ⟨rfl, rfl⟩
  | cons c cs ih =>
    simp only [List.cons_append, reply_all, Prog.exec_bind_result, Prog.exec_bind_state,
      Prog.exec_pure', ih, List.append_assoc, and_self]

theorem completes_append (cs cs' : List XvcCommand) (d : σ) :
    Completes h handle (cs ++ cs') d ↔
      Completes h handle cs d ∧ Completes h handle cs' ((reply_all handle cs).exec h d).state := by
  induction cs generalizing d with
  | nil => simp [Completes, reply_all]
  | cons c cs ih =>
    simp only [List.cons_append, Completes, reply_all, Prog.exec_bind_state, Prog.exec_pure', ih,
      and_assoc]

/-! ## One command in a buffer -/

theorem bytes_at_append {buf : List Byte} {offset len : Nat} (hlen : offset + len ≤ buf.length)
    (more : List Byte) : bytes_at (buf ++ more) offset len = bytes_at buf offset len := by
  have hmore : offset + len ≤ (buf ++ more).length := by
    rw [List.length_append]
    omega
  have htake : len ≤ (buf.drop offset).length := by
    rw [List.length_drop]
    omega
  rw [bytes_at_of_le hlen, bytes_at_of_le hmore, List.drop_append_of_le_length (by omega),
    List.take_append_of_le_length htake]

/-- A shift does not look at what follows the vectors. -/
theorem shift_words_append {num_bits left current_bit : Nat} {tms tdi x y : List Byte}
    {tms_store tdi_store : BitVec 32} (htms : (num_bits + 7) / 8 ≤ tms.length)
    (htdi : (num_bits + 7) / 8 ≤ tdi.length) (hat : AtWord num_bits left current_bit) :
    shift_words handle num_bits (tms ++ x) (tdi ++ y) left current_bit tms_store tdi_store =
      shift_words handle num_bits tms tdi left current_bit tms_store tdi_store := by
  induction left generalizing current_bit tms_store tdi_store with
  | zero => rfl
  | succ left ih =>
    obtain ⟨hnext, -, hbound, -⟩ := atWord_succ hat
    have hms := bytes_at_append (hbound.trans htms) x
    have hdi := bytes_at_append (hbound.trans htdi) y
    simp only [shift_words, hms, hdi, ih hnext]

theorem shift_byte_count {bits : BitVec 32} {n : Nat} (hn : n = (bits.toNat + 7) / 8)
    (hsize : 10 + (bits.toNat + 7) / 8 * 2 ≤ max_packet_len) : byte_count bits = n := by
  unfold max_packet_len at hsize
  rw [hn]
  exact byte_count_of_sound (by omega)

section

variable {bits : BitVec 32} {tms tdi : List Byte} (htms : tms.length = (bits.toNat + 7) / 8)
  (htdi : tdi.length = (bits.toNat + 7) / 8)
  (hsize : 10 + (bits.toNat + 7) / 8 * 2 ≤ max_packet_len) (m : List Byte)

theorem drop_to_tms :
    ((XvcCommand.shift bits tms tdi htms htdi hsize).encode ++ m).drop 10 = tms ++ (tdi ++ m) := by
  have hhead : (shift_str ++ set_uint_le 4 bits).length = 10 := by
    rw [List.length_append, set_uint_le_length]
    rfl
  have hbuf : (XvcCommand.shift bits tms tdi htms htdi hsize).encode ++ m =
      (shift_str ++ set_uint_le 4 bits) ++ (tms ++ (tdi ++ m)) := by
    simp only [XvcCommand.encode, List.append_assoc]
  rw [hbuf, ← hhead, List.drop_left]

theorem drop_to_tdi :
    ((XvcCommand.shift bits tms tdi htms htdi hsize).encode ++ m).drop (10 + byte_count bits) =
      tdi ++ m := by
  rw [← List.drop_drop, drop_to_tms, shift_byte_count htms hsize, List.drop_left]

end

/-- What `getinfo:` stores after its reply. -/
def XvcCommand.nul : XvcCommand → List Byte
  | .getinfo => [0]
  | _ => []

variable (h handle) in
theorem command_reply_encode (c : XvcCommand) (m : List Byte) (d : σ) :
    ((command_reply handle (c.encode ++ m) c.command).exec h d).result =
        .ok (((c.reply handle).exec h d).result ++ c.nul) ∧
      ((command_reply handle (c.encode ++ m) c.command).exec h d).state =
        ((c.reply handle).exec h d).state := by
  cases c with
  | getinfo => exact ⟨rfl, rfl⟩
  | settck nsperiod => exact ⟨congrArg Except.ok (List.append_nil _).symm, rfl⟩
  | shift bits tms tdi htms htdi hsize =>
    have hat : AtWord bits.toNat ((bits.toNat + 31) / 32) 0 := ⟨rfl, .inr rfl⟩
    have hshift : shift_tms_tdi handle bits (tms ++ (tdi ++ m)) (tdi ++ m) =
        shift_tms_tdi handle bits tms tdi := by
      simp only [shift_tms_tdi, shift_words_append htms.ge htdi.ge hat]
    have hensures : (shift_tms_tdi handle bits tms tdi).Ensures
        fun r => ∃ out, r = .ok out ∧ out.length ≤ (bits.toNat + 7) / 8 :=
      shift_tms_tdi_ensures htms.ge htdi.ge
    obtain ⟨out, hout, -⟩ := Prog.ensures_iff_runs.mp hensures _ _ (Prog.exec_runs h _ d)
    simp only [XvcCommand.command, command_reply, XvcCommand.reply, drop_to_tms, drop_to_tdi, hshift,
      Prog.exec_bind_result, Prog.exec_bind_state, hout, XvcCommand.nul, List.append_nil,
      Prog.exec_pure', and_self]

theorem shift_call_encode (c : XvcCommand) (m : List Byte) :
    shift_call (c.encode ++ m) c.command = c.calls := by
  cases c with
  | getinfo => rfl
  | settck nsperiod => rfl
  | shift bits tms tdi htms htdi hsize =>
    have hms : byte_count bits = tms.length := shift_byte_count htms hsize
    have hdi : byte_count bits = tdi.length := shift_byte_count htdi hsize
    have htake_tms : (tms ++ (tdi ++ m)).take (byte_count bits) = tms := by
      rw [hms, List.take_left]
    have htake_tdi : (tdi ++ m).take (byte_count bits) = tdi := by
      rw [hdi, List.take_left]
    simp only [XvcCommand.command, shift_call, drop_to_tms, drop_to_tdi, htake_tms, htake_tdi,
      XvcCommand.calls]

/-! ## Storing replies -/

/-- The bytes that a `send` would transmit. -/
def Filled.replied (s : Filled) : List Byte := (List.range s.reply_len).map s.reply

theorem store_reply_replied {reply reply' : Reply} {reply_len : Nat} {out extra : List Byte}
    (hstore : store_reply reply reply_len (out ++ extra) = .ok reply') :
    (List.range (reply_len + out.length)).map reply' = (List.range reply_len).map reply ++ out := by
  unfold store_reply at hstore
  split at hstore
  case isFalse => cases hstore
  case isTrue hle =>
    obtain rfl := Except.ok.inj hstore
    rw [List.range_add, List.map_append]
    congr 1
    · apply List.map_congr_left
      intro i hi
      rw [List.mem_range] at hi
      rw [if_neg (by omega)]
    · apply List.ext_getElem
      · simp
      · intro i hi hi'
        simp only [List.getElem_map, List.getElem_range]
        rw [if_pos (by omega), Nat.add_sub_cancel_left, List.getD_eq_getElem?_getD,
          List.getElem?_append_left hi', List.getElem?_eq_getElem hi', Option.getD_some]

/-! ## One pass -/

theorem reply_fit {reply_len : Nat} {c : XvcCommand} {out : List Byte}
    (hout : out.length = c.command.reply_size) :
    reply_len + (out ++ c.nul).length ≤ reply_max ↔ reply_len + c.command.stored ≤ reply_max := by
  rw [List.length_append, hout]
  cases c <;> rfl

section

variable {c : XvcCommand} {m : List Byte} {s : Filled} {fuel : Nat} {d : σ} {reply' : Reply}

theorem read_packet_pass_encode (fuel : Nat) (hbuf : s.cbuf = c.encode ++ m)
    (hstore : store_reply s.reply s.reply_len (((c.reply handle).exec h d).result ++ c.nul) =
      .ok reply') :
    let next := (read_packet_pass handle fuel
      ⟨m, s.reply_len + c.command.reply_size, reply', s.calls ++ c.calls⟩).exec h
        ((c.reply handle).exec h d).state
    ((read_packet_pass handle (fuel + 1) s).exec h d).result = next.result ∧
      ((read_packet_pass handle (fuel + 1) s).exec h d).state = next.state := by
  obtain ⟨hresult, hstate⟩ := command_reply_encode h handle c m d
  have hdrop : (c.encode ++ m).drop c.command.size = m := by
    rw [← c.encode_length, List.drop_left]
  intro next
  rw [read_packet_pass, hbuf, c.next_command_encode]
  simp only [Prog.exec_bind_result, Prog.exec_bind_state, hresult, hstate, hstore, hdrop,
    shift_call_encode, next, and_self]

theorem read_packet_pass_overflow (hbuf : s.cbuf = c.encode ++ m)
    (hspace : ¬ s.reply_len + (((c.reply handle).exec h d).result ++ c.nul).length ≤ reply_max) :
    ((read_packet_pass handle (fuel + 1) s).exec h d).result = .fault .reply_overflow := by
  obtain ⟨hresult, -⟩ := command_reply_encode h handle c m d
  have hstore : store_reply s.reply s.reply_len (((c.reply handle).exec h d).result ++ c.nul) =
      .error .reply_overflow := if_neg hspace
  unfold read_packet_pass
  rw [hbuf, c.next_command_encode]
  simp only [Prog.exec_bind_result, hresult, hstore, Prog.exec_pure']

end

variable (h handle) in
/-- A pass over complete commands, on a device that completes them. -/
theorem read_packet_pass_replies {done rest : List XvcCommand} {r : List Byte} {fuel : Nat}
    {s : Filled} {d : σ} (hpart : Partial r rest) (hbuf : s.cbuf = encodeAll done ++ r)
    (hfuel : s.cbuf.length < fuel) (hok : Completes h handle done d)
    (hfit : RepliesFit s.reply_len (done.map XvcCommand.command)) :
    ∃ s', ((read_packet_pass handle fuel s).exec h d).result = .filled s' ∧
      ((read_packet_pass handle fuel s).exec h d).state = ((reply_all handle done).exec h d).state ∧
      s'.cbuf = r ∧ s'.calls = s.calls ++ calls_all done ∧
      s'.replied = s.replied ++ ((reply_all handle done).exec h d).result := by
  induction done generalizing fuel s d with
  | nil =>
    obtain ⟨fuel, rfl⟩ := Nat.exists_eq_add_one_of_ne_zero (Nat.ne_zero_of_lt hfuel)
    have hcbuf : s.cbuf = r := hbuf
    have hpass : read_packet_pass handle (fuel + 1) s = pure (.filled s) := by
      unfold read_packet_pass
      rw [hcbuf, hpart.next_command]
    rw [hpass]
    exact ⟨s, rfl, rfl, hcbuf, (List.append_nil _).symm, (List.append_nil _).symm⟩
  | cons c done ih =>
    obtain ⟨fuel, rfl⟩ := Nat.exists_eq_add_one_of_ne_zero (Nat.ne_zero_of_lt hfuel)
    obtain ⟨hsound, hspace, hfit⟩ := hfit
    obtain ⟨hlen, hok⟩ := hok
    have hpos := c.encode_pos
    rw [encodeAll_cons] at hbuf
    rw [hbuf, List.length_append] at hfuel
    obtain ⟨reply', hstore⟩ := store_reply_of_le s.reply ((reply_fit hlen).mpr hspace)
    obtain ⟨hresult, hstate⟩ := read_packet_pass_encode fuel hbuf hstore
    have hfuel' : (encodeAll done ++ r).length < fuel := by omega
    obtain ⟨s', hs', hstate', hcbuf, hcalls, hreplied⟩ := ih
      (s := ⟨encodeAll done ++ r, s.reply_len + c.command.reply_size, reply', s.calls ++ c.calls⟩)
      rfl hfuel' hok hfit
    refine ⟨s', hresult.trans hs', ?_, hcbuf, ?_, ?_⟩
    · rw [hstate, hstate', reply_all]
      simp only [Prog.exec_bind_state, Prog.exec_pure']
    · rw [hcalls]
      exact List.append_assoc ..
    · have hone : Filled.replied ⟨encodeAll done ++ r, s.reply_len + c.command.reply_size, reply',
          s.calls ++ c.calls⟩ = s.replied ++ ((c.reply handle).exec h d).result := by
        rw [Filled.replied, ← hlen]
        exact store_reply_replied hstore
      rw [hreplied, hone, reply_all, List.append_assoc]
      simp only [Prog.exec_bind_result, Prog.exec_pure']

variable (h handle) in
theorem read_packet_pass_unfit {done : List XvcCommand} {r : List Byte} {fuel : Nat}
    {s : Filled} {d : σ} (hbuf : s.cbuf = encodeAll done ++ r)
    (hfuel : s.cbuf.length < fuel) (hok : Completes h handle done d)
    (hfit : ¬ RepliesFit s.reply_len (done.map XvcCommand.command)) :
    ((read_packet_pass handle fuel s).exec h d).result = .fault .reply_overflow := by
  induction done generalizing fuel s d with
  | nil => exact absurd trivial hfit
  | cons c done ih =>
    obtain ⟨fuel, rfl⟩ := Nat.exists_eq_add_one_of_ne_zero (Nat.ne_zero_of_lt hfuel)
    obtain ⟨hlen, hok⟩ := hok
    have hpos := c.encode_pos
    rw [encodeAll_cons] at hbuf
    rw [hbuf, List.length_append] at hfuel
    by_cases hspace : s.reply_len + c.command.stored ≤ reply_max
    · obtain ⟨reply', hstore⟩ := store_reply_of_le s.reply ((reply_fit hlen).mpr hspace)
      rw [(read_packet_pass_encode fuel hbuf hstore).1]
      refine ih rfl (by dsimp only; omega) hok ?_
      intro hrest
      exact hfit ⟨c.sound, hspace, hrest⟩
    · exact read_packet_pass_overflow hbuf (mt (reply_fit hlen).mp hspace)

/-! ## A connection -/

/-- The commands that a pass over `buf` takes, and what it leaves. -/
def taken (buf : List Byte) : List Command := (commands (buf.length + 1) buf).1

def left_over (buf : List Byte) : List Byte := (commands (buf.length + 1) buf).2

/-- `recv` writes what fits behind what is left, and answers 0 only at the end. -/
def Legal : (chunks : List (List Byte)) → (buf : List Byte) → Prop
  | [], _ => True
  | chunk :: chunks, buf => chunk ≠ [] ∧ (left_over buf ++ chunk).length ≤ max_packet_len ∧
    Legal chunks (left_over buf ++ chunk)

/-- A way in which `recv` splits the stream. -/
structure Split (cs : List XvcCommand) (chunks : List (List Byte)) : Prop where
  stream : chunks.flatten = encodeAll cs
  legal : Legal chunks []

/-- In each pass the replies fit. -/
def PassesFit : (chunks : List (List Byte)) → (buf : List Byte) → Prop
  | [], buf => RepliesFit 0 (taken buf)
  | chunk :: chunks, buf => RepliesFit 0 (taken buf) ∧ PassesFit chunks (left_over buf ++ chunk)

theorem taken_encodeAll (done : List XvcCommand) {rest : List XvcCommand} {r : List Byte} (hpart : Partial r rest) :
    taken (encodeAll done ++ r) = done.map XvcCommand.command ∧ left_over (encodeAll done ++ r) = r := by
  unfold taken left_over
  rw [commands_encodeAll hpart (Nat.lt_succ_self _)]
  exact ⟨rfl, rfl⟩

variable (h handle) in
theorem read_packet_send_replies {done rest : List XvcCommand} {r : List Byte} {d : σ}
    {reply : Reply} {calls : List ShiftCall} {sent : List Byte}
    {recv : Filled → List Byte → Prog PciApi Session} (hpart : Partial r rest)
    (hok : Completes h handle done d) (hfit : RepliesFit 0 (done.map XvcCommand.command)) :
    ∃ s', ((read_packet_send handle (encodeAll done ++ r) reply calls sent recv).exec h d).result =
        ((recv s' (sent ++ ((reply_all handle done).exec h d).result)).exec h
          ((reply_all handle done).exec h d).state).result ∧
      s'.cbuf = r ∧ s'.calls = calls ++ calls_all done := by
  obtain ⟨s', hs', hstate, hcbuf, hcalls, hreplied⟩ := read_packet_pass_replies h handle
    (s := ⟨encodeAll done ++ r, 0, reply, calls⟩) hpart rfl (Nat.lt_succ_self _) hok hfit
  refine ⟨s', ?_, hcbuf, hcalls⟩
  have hsent : (List.range s'.reply_len).map s'.reply = ((reply_all handle done).exec h d).result :=
    hreplied
  unfold read_packet_send read_packet_once
  rw [Prog.exec_bind_result, hs', hstate]
  dsimp only
  split
  · rw [hsent]
  case isFalse hkeep =>
    -- Nothing was consumed: no command, and no reply.
    cases done with
    | nil => rw [reply_all, Prog.exec_pure', List.append_nil]
    | cons c done =>
      have hpos := c.encode_pos
      rw [hcbuf, encodeAll_cons, List.length_append, List.length_append] at hkeep
      omega

theorem read_packet_send_unfit {done : List XvcCommand} {r : List Byte} {d : σ}
    {reply : Reply} {calls : List ShiftCall} {sent : List Byte}
    {recv : Filled → List Byte → Prog PciApi Session}
    (hok : Completes h handle done d) (hfit : ¬ RepliesFit 0 (done.map XvcCommand.command)) :
    ((read_packet_send handle (encodeAll done ++ r) reply calls sent recv).exec h d).result =
      ⟨calls, sent, .fault .reply_overflow⟩ := by
  have hresult := read_packet_pass_unfit h handle
    (s := ⟨encodeAll done ++ r, 0, reply, calls⟩) rfl (Nat.lt_succ_self _) hok hfit
  unfold read_packet_send read_packet_once
  rw [Prog.exec_bind_result, hresult]
  rfl

theorem calls_all_append (cs cs' : List XvcCommand) :
    calls_all (cs ++ cs') = calls_all cs ++ calls_all cs' := List.flatMap_append ..

section

variable {chunks : List (List Byte)} {buf : List Byte} {cs : List XvcCommand} {d : σ}
  {reply : Reply} {calls : List ShiftCall} {sent : List Byte}

/-- A connection whose passes all fit answers every command once and in order. -/
theorem read_packet_replies (hstream : buf ++ chunks.flatten = encodeAll cs)
    (hok : Completes h handle cs d) (hfit : PassesFit chunks buf) :
    ((read_packet handle chunks buf reply calls sent).exec h d).result =
      ⟨calls ++ calls_all cs, sent ++ ((reply_all handle cs).exec h d).result, .closed⟩ := by
  induction chunks generalizing buf cs d reply calls sent with
  | nil =>
    obtain rfl : buf = encodeAll cs := by rw [← hstream, List.flatten_nil, List.append_nil]
    have hnil : Partial [] [] := rfl
    have hbuf : encodeAll cs = encodeAll cs ++ [] := (List.append_nil _).symm
    rw [PassesFit, hbuf, (taken_encodeAll _ hnil).1] at hfit
    obtain ⟨s', hresult, -, hcalls⟩ := read_packet_send_replies h handle hnil hok hfit
    rw [read_packet, hbuf, hresult, hcalls]
    rfl
  | cons chunk chunks ih =>
    obtain ⟨done, rest, r, rfl, rfl, hrest, hpart⟩ := exists_partial hstream
    obtain ⟨hok, hok'⟩ := (completes_append done rest d).mp hok
    rw [PassesFit, (taken_encodeAll _ hpart).1, (taken_encodeAll _ hpart).2] at hfit
    obtain ⟨s', hresult, hcbuf, hcalls⟩ := read_packet_send_replies h handle
      hpart hok hfit.1
    rw [List.flatten_cons, ← List.append_assoc] at hrest
    rw [read_packet, hresult, hcbuf, ih hrest hok' hfit.2, hcalls, calls_all_append,
      (reply_all_append done rest d).1, List.append_assoc, List.append_assoc]

theorem read_packet_unfit (hstream : buf ++ chunks.flatten = encodeAll cs)
    (hok : Completes h handle cs d) (hfit : ¬ PassesFit chunks buf) :
    ((read_packet handle chunks buf reply calls sent).exec h d).result.ending =
      .fault .reply_overflow := by
  induction chunks generalizing buf cs d reply calls sent with
  | nil =>
    obtain rfl : buf = encodeAll cs := by rw [← hstream, List.flatten_nil, List.append_nil]
    have hnil : Partial [] [] := rfl
    have hbuf : encodeAll cs = encodeAll cs ++ [] := (List.append_nil _).symm
    rw [PassesFit, hbuf, (taken_encodeAll _ hnil).1] at hfit
    rw [read_packet, hbuf, read_packet_send_unfit hok hfit]
  | cons chunk chunks ih =>
    obtain ⟨done, rest, r, rfl, rfl, hrest, hpart⟩ := exists_partial hstream
    obtain ⟨hok, hok'⟩ := (completes_append done rest d).mp hok
    rw [PassesFit, (taken_encodeAll _ hpart).1, (taken_encodeAll _ hpart).2] at hfit
    by_cases hfirst : RepliesFit 0 (done.map XvcCommand.command)
    · obtain ⟨s', hresult, hcbuf, hcalls⟩ := read_packet_send_replies h handle
        hpart hok hfirst
      rw [List.flatten_cons, ← List.append_assoc] at hrest
      rw [read_packet, hresult, hcbuf]
      exact ih hrest hok' fun hchunks => hfit ⟨hfirst, hchunks⟩
    · rw [read_packet, read_packet_send_unfit hok hfirst]

end

/-! ## Byte by byte -/

def byte_by_byte (stream : List Byte) : List (List Byte) := stream.map fun b => [b]

theorem flatten_byte_by_byte (stream : List Byte) : (byte_by_byte stream).flatten = stream := by
  induction stream with
  | nil => rfl
  | cons b stream ih => exact congrArg (b :: ·) ih

theorem one_reply_fits (c : XvcCommand) : RepliesFit 0 [c.command] := by
  refine ⟨c.sound, ?_, trivial⟩
  rw [reply_max_eq]
  cases c with
  | getinfo => decide
  | settck nsperiod => exact (by decide : 0 + 4 ≤ 16384)
  | shift bits tms tdi htms htdi hsize =>
    have hstored : (XvcCommand.shift bits tms tdi htms htdi hsize).command.stored = byte_count bits :=
      rfl
    rw [hstored, shift_byte_count rfl hsize]
    unfold max_packet_len at hsize
    omega

/-- The buffer holds no more than the first of the commands still to come. -/
def WithinFirst (buf : List Byte) : List XvcCommand → Prop
  | [] => True
  | c :: _ => buf.length ≤ c.encode.length

theorem exists_one {cs : List XvcCommand} {buf m : List Byte} (hstream : buf ++ m = encodeAll cs)
    (hfirst : WithinFirst buf cs) : ∃ done rest r, cs = done ++ rest ∧ buf = encodeAll done ++ r ∧
      r ++ m = encodeAll rest ∧ Partial r rest ∧ RepliesFit 0 (done.map XvcCommand.command) := by
  obtain ⟨done, rest, r, rfl, rfl, hrest, hpart⟩ := exists_partial hstream
  refine ⟨done, rest, r, rfl, rfl, hrest, hpart, ?_⟩
  cases done with
  | nil => trivial
  | cons c done =>
    cases done with
    | nil => exact one_reply_fits c
    | cons c' done =>
      have hpos := c'.encode_pos
      have hle : (encodeAll (c :: c' :: done) ++ r).length ≤ c.encode.length := hfirst
      rw [encodeAll_cons, encodeAll_cons, List.length_append, List.length_append] at hle
      omega

theorem byte_by_byte_fits {cs : List XvcCommand} {buf m : List Byte}
    (hstream : buf ++ m = encodeAll cs) (hfirst : WithinFirst buf cs) :
    Legal (byte_by_byte m) buf ∧ PassesFit (byte_by_byte m) buf := by
  induction m generalizing cs buf with
  | nil =>
    obtain ⟨done, rest, r, rfl, rfl, -, hpart, hfit⟩ := exists_one hstream hfirst
    refine ⟨trivial, ?_⟩
    change RepliesFit 0 (taken _)
    rwa [(taken_encodeAll _ hpart).1]
  | cons b m ih =>
    obtain ⟨done, rest, r, rfl, rfl, hrest, hpart, hfit⟩ := exists_one hstream hfirst
    have hcons : r ++ b :: m = (r ++ [b]) ++ m := (List.append_assoc r [b] m).symm
    rw [hcons] at hrest
    -- There is a byte to come, so there is a command that it belongs to.
    obtain ⟨c, rest, rfl⟩ : ∃ c rest', rest = c :: rest' := by
      cases rest with
      | nil =>
        have hlen := congrArg List.length hrest
        simp [encodeAll] at hlen
      | cons c rest => exact ⟨c, rest, rfl⟩
    have hle : (r ++ [b]).length ≤ c.encode.length := by
      rw [List.length_append, List.length_singleton]
      exact hpart.2
    obtain ⟨hlegal, hpasses⟩ := ih hrest hle
    obtain ⟨htaken, hleft⟩ := taken_encodeAll done hpart
    constructor
    · change [b] ≠ [] ∧ _ ∧ Legal (byte_by_byte m) _
      rw [hleft]
      exact ⟨List.cons_ne_nil b [], hle.trans c.encode_le_max, hlegal⟩
    · change RepliesFit 0 (taken _) ∧ PassesFit (byte_by_byte m) _
      rw [htaken, hleft]
      exact ⟨hfit, hpasses⟩

theorem split_byte_by_byte (cs : List XvcCommand) :
    Split cs (byte_by_byte (encodeAll cs)) ∧ PassesFit (byte_by_byte (encodeAll cs)) [] := by
  have hfirst : WithinFirst [] cs := by
    cases cs with
    | nil => trivial
    | cons c cs => exact Nat.zero_le _
  obtain ⟨hlegal, hfit⟩ := byte_by_byte_fits (List.nil_append _) hfirst
  exact ⟨⟨flatten_byte_by_byte _, hlegal⟩, hfit⟩

/-! ## Splits -/

/-- A connection of its own, from what the reply buffer holds at its start. -/
def session (h : Prog.Handler PciApi σ) (handle : Int) (d : σ) (chunks : List (List Byte))
    (reply : Reply) : Session :=
  ((read_packet handle chunks [] reply [] []).exec h d).result

/-- The split cannot be observed. -/
def SplitInvariant (h : Prog.Handler PciApi σ) (handle : Int) (d : σ) (cs : List XvcCommand) : Prop :=
  ∀ chunks chunks' reply reply', Split cs chunks → Split cs chunks' →
    session h handle d chunks reply = session h handle d chunks' reply'

/-- Each command is processed once and in order. -/
def EachOnce (h : Prog.Handler PciApi σ) (handle : Int) (d : σ) (cs : List XvcCommand) : Prop :=
  ∀ chunks reply, Split cs chunks → session h handle d chunks reply =
    ⟨calls_all cs, ((reply_all handle cs).exec h d).result, .closed⟩

section

variable {cs : List XvcCommand} {d : σ} {chunks : List (List Byte)}

theorem session_replies (hsplit : Split cs chunks) (hok : Completes h handle cs d)
    (hfit : PassesFit chunks []) (reply : Reply) : session h handle d chunks reply =
      ⟨calls_all cs, ((reply_all handle cs).exec h d).result, .closed⟩ :=
  read_packet_replies (hsplit.stream : [] ++ chunks.flatten = _) hok hfit

theorem session_unfit (hsplit : Split cs chunks) (hok : Completes h handle cs d)
    (hfit : ¬ PassesFit chunks []) (reply : Reply) :
    (session h handle d chunks reply).ending = .fault .reply_overflow :=
  read_packet_unfit (hsplit.stream : [] ++ chunks.flatten = _) hok hfit

/-- Byte by byte the stream is served, so a split that is not is observed. -/
theorem not_splitInvariant (hsplit : Split cs chunks) (hok : Completes h handle cs d)
    (hfit : ¬ PassesFit chunks []) : ¬ SplitInvariant h handle d cs := by
  intro hinv
  obtain ⟨hbytes, hbytes_fit⟩ := split_byte_by_byte cs
  have hfault := session_unfit hsplit hok hfit fun _ => 0
  have hclosed := session_replies hbytes hok hbytes_fit fun _ => 0
  rw [hinv _ _ _ (fun _ => 0) hsplit hbytes, hclosed] at hfault
  cases hfault

end

theorem splits_agree_iff (cs : List XvcCommand) (d : σ) (hok : Completes h handle cs d) :
    (SplitInvariant h handle d cs ↔ ∀ chunks, Split cs chunks → PassesFit chunks []) ∧
      (EachOnce h handle d cs ↔ ∀ chunks, Split cs chunks → PassesFit chunks []) := by
  have heach : (∀ chunks, Split cs chunks → PassesFit chunks []) → EachOnce h handle d cs :=
    fun hfit chunks reply hsplit => session_replies hsplit hok (hfit chunks hsplit) reply
  constructor
  · constructor
    · intro hinv chunks hsplit
      by_contra hfit
      exact not_splitInvariant hsplit hok hfit hinv
    · intro hfit chunks chunks' reply reply' hsplit hsplit'
      rw [heach hfit chunks reply hsplit, heach hfit chunks' reply' hsplit']
  · refine ⟨?_, heach⟩
    intro hserved chunks hsplit
    by_contra hfit
    have hfault := session_unfit hsplit hok hfit fun _ => 0
    rw [hserved chunks _ hsplit] at hfault
    cases hfault

/-! ### Short streams -/

theorem repliesFit_of_sum {cs : List XvcCommand} {reply_len : Nat}
    (h : reply_len + (cs.map fun c => c.command.stored).sum ≤ reply_max) :
    RepliesFit reply_len (cs.map XvcCommand.command) := by
  induction cs generalizing reply_len with
  | nil => trivial
  | cons c cs ih =>
    have hle : c.command.reply_size ≤ c.command.stored := by
      cases c <;> simp [XvcCommand.command, Command.stored, Command.reply_size]
    rw [List.map_cons, List.sum_cons] at h
    exact ⟨c.sound, by omega, ih (by omega)⟩

theorem passesFit_of_sum {cs : List XvcCommand} {chunks : List (List Byte)} {buf : List Byte}
    (hstream : buf ++ chunks.flatten = encodeAll cs)
    (h : (cs.map fun c => c.command.stored).sum ≤ reply_max) : PassesFit chunks buf := by
  induction chunks generalizing buf cs with
  | nil =>
    obtain rfl : buf = encodeAll cs := by rw [← hstream, List.flatten_nil, List.append_nil]
    have hnil : Partial [] [] := rfl
    have hbuf : encodeAll cs = encodeAll cs ++ [] := (List.append_nil _).symm
    rw [PassesFit, hbuf, (taken_encodeAll _ hnil).1]
    exact repliesFit_of_sum (by omega)
  | cons chunk chunks ih =>
    obtain ⟨done, rest, r, rfl, rfl, hrest, hpart⟩ := exists_partial hstream
    rw [List.map_append, List.sum_append] at h
    rw [List.flatten_cons, ← List.append_assoc] at hrest
    rw [PassesFit, (taken_encodeAll _ hpart).1, (taken_encodeAll _ hpart).2]
    exact ⟨repliesFit_of_sum (by omega), ih hrest (by omega)⟩

/-- A device that gives back what it was last given to shift in. -/
def loopBus : Prog.Handler PciApi (BitVec 32) := fun o tdi =>
  match o with
  | .poke _ offset value => ((0 : Int), if offset = TDI_REG_OFFSET then value else tdi)
  | .peek _ offset => (((0 : Int), if offset = TDO_REG_OFFSET then tdi else 0), tdi)
  | o => (o.quiet, tdi)

/-- Two shifts, one of them of two words, between other commands. -/
def pipelined : List XvcCommand :=
  [.settck 100, .shift 12 [0xA5, 0x0F] [0x3C, 0x01] rfl rfl (by decide), .getinfo,
    .shift 40 [1, 2, 3, 4, 5] [6, 7, 8, 9, 10] rfl rfl (by decide)]

theorem splits_agree_pipelined :
    SplitInvariant loopBus 0 0 pipelined ∧ EachOnce loopBus 0 0 pipelined ∧
      calls_all pipelined =
        [⟨12, [0xA5, 0x0F], [0x3C, 0x01]⟩, ⟨40, [1, 2, 3, 4, 5], [6, 7, 8, 9, 10]⟩] ∧
      ((reply_all 0 pipelined).exec loopBus 0).result =
        [100, 0, 0, 0] ++ [0x3C, 0x01] ++ info_str ++ [6, 7, 8, 9, 10] := by
  have hfits : ∀ chunks, Split pipelined chunks → PassesFit chunks [] := fun chunks hsplit =>
    passesFit_of_sum (hsplit.stream : [] ++ chunks.flatten = _) (by decide)
  have hok : Completes loopBus 0 pipelined 0 := ⟨rfl, by decide, rfl, by decide, trivial⟩
  have hagree := splits_agree_iff pipelined 0 hok
  exact ⟨hagree.1.mpr hfits, hagree.2.mpr hfits, rfl, by decide⟩

/-! ### Streams that are served differently -/

theorem completes_getinfo (n : Nat) (d : σ) :
    Completes h handle (List.replicate n .getinfo) d := by
  induction n with
  | zero => trivial
  | succ n ih => exact ⟨rfl, ih⟩

theorem getinfo_length (n : Nat) :
    (encodeAll (List.replicate n .getinfo)).length = 8 * n := by
  induction n with
  | zero => rfl
  | succ n ih =>
    have hcons : encodeAll (List.replicate (n + 1) .getinfo) =
        getinfo_str ++ encodeAll (List.replicate n .getinfo) := rfl
    have hname : getinfo_str.length = 8 := by decide
    rw [hcons, List.length_append, ih, hname]
    omega

theorem repliesFit_getinfo {reply_len n : Nat}
    (h : RepliesFit reply_len (List.replicate (n + 1) .getinfo)) :
    reply_len + 21 * n + 22 ≤ 16384 := by
  induction n generalizing reply_len with
  | zero =>
    have hspace := h.2.1
    rw [reply_max_eq, Command.stored, info_length] at hspace
    omega
  | succ n ih =>
    have hrest := ih h.2.2
    rw [Command.reply_size, info_length] at hrest
    omega

theorem split_getinfo {n : Nat} (hpos : 0 < n) (hmax : 8 * n ≤ max_packet_len) :
    Split (List.replicate n .getinfo) [encodeAll (List.replicate n .getinfo)] := by
  have hnil : left_over [] = [] := rfl
  refine ⟨List.append_nil _, ?_, ?_, trivial⟩
  · intro hempty
    have hlen := congrArg List.length hempty
    rw [getinfo_length, List.length_nil] at hlen
    omega
  · rw [hnil, List.nil_append, getinfo_length]
    exact hmax

theorem unfit_getinfo {n : Nat} (hlong : 16362 < 21 * n) :
    ¬ PassesFit [encodeAll (List.replicate (n + 1) .getinfo)] [] := by
  rintro ⟨-, hfit⟩
  have hnil : Partial [] [] := rfl
  have hbuf : left_over [] ++ encodeAll (List.replicate (n + 1) .getinfo) =
      encodeAll (List.replicate (n + 1) .getinfo) ++ [] := (List.append_nil _).symm
  rw [hbuf, PassesFit, (taken_encodeAll _ hnil).1, List.map_replicate] at hfit
  have hle := repliesFit_getinfo hfit
  omega

/-- 6248 bytes of `getinfo:`, which fit the receive buffer, have 16401 bytes of replies. -/
theorem pipelined_getinfo : (encodeAll (List.replicate 781 .getinfo)).length ≤ max_packet_len ∧
    ¬ SplitInvariant quietBus 0 () (List.replicate 781 .getinfo) := by
  have hmax : 8 * 781 ≤ max_packet_len := by decide
  constructor
  · rw [getinfo_length]
    exact hmax
  · exact not_splitInvariant (split_getinfo (by omega) hmax) (completes_getinfo 781 ())
      (unfit_getinfo (by omega))

/-- A bus on which the writes fail. -/
def deadBus : Prog.Handler PciApi Unit := fun o s =>
  match o with
  | .poke .. => ((1 : Int), s)
  | o => (o.quiet, s)

/-- After a failed access the client gets what the reply buffer held there before. -/
theorem failed_shift_split :
    (session deadBus 0 () [encodeAll [.settck 1, .shift 8 [0] [0] rfl rfl (by decide)]]
      fun _ => 0).sent = [1, 0, 0, 0, 0] ∧
    (session deadBus 0 () [encodeAll [.settck 1], encodeAll [.shift 8 [0] [0] rfl rfl (by decide)]]
      fun _ => 0).sent = [1, 0, 0, 0, 1] := by
  constructor
  · rfl
  · rfl

end AwsFpga.Xvc
