import AwsFpga.Xvc.Pass

/-!
# A connection, however its bytes arrive

The stream of a client is a concatenation of commands. A buffer of it is some of
these commands and the beginning of the next one, wherever `recv` cut the stream.
-/

open Lib AwsFpga.Pci

namespace AwsFpga.Xvc

/-! ## What a client sends -/

inductive XvcCommand where
  | getinfo
  | settck (nsperiod : BitVec 32)
  | shift (bits : BitVec 32) (tms tdi : List Byte) (htms : tms.length = (bits.toNat + 7) / 8)
    (htdi : tdi.length = (bits.toNat + 7) / 8)
    (hsize : 10 + (bits.toNat + 7) / 8 * 2 ≤ max_packet_len)

namespace XvcCommand

def encode : XvcCommand → List Byte
  | .getinfo => getinfo_str
  | .settck nsperiod => settck_str ++ set_uint_le 4 nsperiod
  | .shift bits tms tdi .. => shift_str ++ (set_uint_le 4 bits ++ (tms ++ tdi))

/-- What the server makes of it. -/
def command : XvcCommand → Command
  | .getinfo => .getinfo
  | .settck nsperiod => .settck nsperiod
  | .shift bits .. => .shift bits

def calls : XvcCommand → List ShiftCall
  | .shift bits tms tdi .. => [⟨bits, tms, tdi⟩]
  | _ => []

/-- The reply to one command by itself. A shift whose access fails replies less. -/
def reply (handle : Int) : XvcCommand → Prog PciApi (List Byte)
  | .getinfo => return info_str
  | .settck nsperiod => return set_uint_le 4 (set_tck nsperiod)
  | .shift bits tms tdi .. => do
    match ← shift_tms_tdi handle bits tms tdi with
    | .ok out => return out
    | .error _ => return []

end XvcCommand

def encodeAll (cs : List XvcCommand) : List Byte := cs.flatMap XvcCommand.encode

/-! ## Numbers -/

theorem get_set_uint_le (value : BitVec 32) (rest : List Byte) :
    get_uint_le (set_uint_le 4 value ++ rest) 4 = value := by
  have htake : (set_uint_le 4 value ++ rest).take 4 = set_uint_le 4 value := rfl
  unfold get_uint_le
  rw [htake]
  apply BitVec.eq_of_getElem_eq
  intro i hi
  simp only [set_uint_le, List.foldr_cons, List.foldr_nil, BitVec.getElem_or,
    BitVec.getElem_shiftLeft, BitVec.getElem_setWidth, BitVec.getLsbD_setWidth,
    BitVec.getLsbD_ushiftRight]
  -- One case for each byte that the bit can come from.
  by_cases h8 : i < 8
  · simp [h8]; grind
  by_cases h16 : i < 16
  · simp [h8]; grind
  by_cases h24 : i < 24
  · simp [h8]; grind
  · simp [h8]; grind

/-! ## Finding a command -/

/-- The name ends at the first colon, and what comes after it is not looked at. -/
theorem findIdx_name {name : List Byte} {i : Nat} (hname : name.findIdx? (· = 0x3A#8) = some i)
    (hlen : name.length ≤ 30) (rest : List Byte) :
    ((name ++ rest).take 30).findIdx? (· = 0x3A#8) = some i := by
  rw [List.take_append, List.take_of_length_le hlen, List.findIdx?_append, hname]
  rfl

theorem next_command_getinfo (rest : List Byte) :
    next_command (getinfo_str ++ rest) = .command .getinfo := by
  unfold next_command
  rw [findIdx_name (i := 7) (by decide) (by decide)]
  rfl

theorem next_command_settck (rest : List Byte) :
    next_command (settck_str ++ rest) =
      if rest.length < 4 then .fill else .command (.settck (get_uint_le rest 4)) := by
  have hlen : (settck_str ++ rest).length < 7 + 4 ↔ rest.length < 4 := by
    rw [List.length_append]
    change 7 + rest.length < 7 + 4 ↔ _
    omega
  have htake : (settck_str ++ rest).take (6 + 1) = settck_str := rfl
  have hdrop : (settck_str ++ rest).drop 7 = rest := rfl
  unfold next_command
  rw [findIdx_name (i := 6) (by decide) (by decide)]
  dsimp only
  rw [htake, hdrop, if_neg (by decide), if_neg (by decide), if_pos rfl]
  simp only [hlen]

theorem next_command_shift (rest : List Byte) :
    next_command (shift_str ++ rest) =
      if rest.length < 4 then .fill
      else if rest.length < 4 + byte_count (get_uint_le rest 4) * 2 then
        if 10 + byte_count (get_uint_le rest 4) * 2 ≤ max_packet_len then .fill else .assert_failed
      else .command (.shift (get_uint_le rest 4)) := by
  have hlen : (shift_str ++ rest).length = 6 + rest.length := by
    rw [List.length_append]
    rfl
  have htake : (shift_str ++ rest).take (5 + 1) = shift_str := rfl
  have hdrop : (shift_str ++ rest).drop 6 = rest := rfl
  unfold next_command
  rw [findIdx_name (i := 5) (by decide) (by decide)]
  dsimp only
  rw [htake, hdrop, if_neg (by decide), if_pos rfl, hlen]
  have hshort : 6 + rest.length < 6 + 4 ↔ rest.length < 4 := by omega
  have hsize : 6 + rest.length < (Command.shift (get_uint_le rest 4)).size ↔
      rest.length < 4 + byte_count (get_uint_le rest 4) * 2 := by
    unfold Command.size
    dsimp only
    omega
  simp only [hshort, hsize]
  rfl

namespace XvcCommand

/-- The bit count of a command that a client sends does not wrap. -/
theorem sound (c : XvcCommand) : c.command.Sound := by
  cases c with
  | getinfo => trivial
  | settck nsperiod => trivial
  | shift bits tms tdi htms htdi hsize =>
    change bits.toNat ≤ 2 ^ 32 - 8
    unfold max_packet_len at hsize
    omega

theorem encode_length (c : XvcCommand) : c.encode.length = c.command.size := by
  cases c with
  | getinfo => rfl
  | settck nsperiod => rfl
  | shift bits tms tdi htms htdi hsize =>
    have hcount : byte_count bits = (bits.toNat + 7) / 8 :=
      byte_count_of_sound (shift bits tms tdi htms htdi hsize).sound
    have hlen : (encode (shift bits tms tdi htms htdi hsize)).length =
        6 + (4 + (tms.length + tdi.length)) := by
      simp only [encode, List.length_append, set_uint_le_length]
      rfl
    rw [hlen, command, Command.size, hcount, htms, htdi]
    omega

theorem encode_le_max (c : XvcCommand) : c.encode.length ≤ max_packet_len := by
  cases c with
  | getinfo => decide
  | settck nsperiod => exact (by decide : 11 ≤ max_packet_len)
  | shift bits tms tdi htms htdi hsize =>
    rw [encode_length, command, Command.size,
      byte_count_of_sound (shift bits tms tdi htms htdi hsize).sound]
    exact hsize

theorem encode_pos (c : XvcCommand) : 0 < c.encode.length := by
  rw [encode_length]
  exact command_size_pos _

theorem next_command_encode (c : XvcCommand) (m : List Byte) :
    next_command (c.encode ++ m) = .command c.command := by
  cases c with
  | getinfo => exact next_command_getinfo m
  | settck nsperiod =>
    have hlen : ¬ (set_uint_le 4 nsperiod ++ m).length < 4 := by
      rw [List.length_append, set_uint_le_length]
      omega
    rw [encode, List.append_assoc, next_command_settck, if_neg hlen, get_set_uint_le]
    rfl
  | shift bits tms tdi htms htdi hsize =>
    have hcount : byte_count bits = (bits.toNat + 7) / 8 :=
      byte_count_of_sound (shift bits tms tdi htms htdi hsize).sound
    have hlen : (set_uint_le 4 bits ++ (tms ++ tdi ++ m)).length =
        4 + (tms.length + tdi.length + m.length) := by
      simp only [List.length_append, set_uint_le_length]
    rw [encode, List.append_assoc, List.append_assoc, next_command_shift, get_set_uint_le,
      if_neg (by omega), if_neg (by omega)]
    rfl

theorem fill_of_short {name body l : List Byte} (hl : l <+: name ++ body)
    (hname : ∀ k < name.length, next_command (name.take k) = .fill)
    (hbody : ∀ b, b <+: body → b.length < body.length → next_command (name ++ b) = .fill)
    (hlt : l.length < (name ++ body).length) : next_command l = .fill := by
  obtain ⟨m, hm⟩ := hl
  by_cases hshort : l.length < name.length
  · have htake : l = name.take l.length := by
      have := congrArg (List.take l.length) hm
      rwa [List.take_left, List.take_append_of_le_length hshort.le] at this
    rw [htake]
    exact hname _ hshort
  · obtain ⟨b, rfl⟩ : name <+: l :=
      List.prefix_of_prefix_length_le ⟨body, rfl⟩ ⟨m, hm⟩ (by omega)
    rw [List.append_assoc, List.append_cancel_left_eq] at hm
    rw [List.length_append, List.length_append] at hlt
    exact hbody b ⟨m, hm⟩ (by omega)

theorem next_command_prefix (c : XvcCommand) {l : List Byte} (hl : l <+: c.encode)
    (hlt : l.length < c.encode.length) : next_command l = .fill := by
  cases c with
  | getinfo =>
    have hnil : getinfo_str = getinfo_str ++ [] := (List.append_nil _).symm
    rw [encode, hnil] at hl hlt
    refine fill_of_short hl (by decide) ?_ hlt
    rintro b - hb
    exact absurd hb (Nat.not_lt_zero _)
  | settck nsperiod =>
    refine fill_of_short hl (by decide) ?_ hlt
    intro b _ hb
    rw [set_uint_le_length] at hb
    rw [next_command_settck, if_pos hb]
  | shift bits tms tdi htms htdi hsize =>
    have hcount : byte_count bits = (bits.toNat + 7) / 8 :=
      byte_count_of_sound (shift bits tms tdi htms htdi hsize).sound
    refine fill_of_short hl (by decide) ?_ hlt
    intro b hb hlen
    simp only [List.length_append, set_uint_le_length] at hlen
    rw [next_command_shift]
    split
    · rfl
    -- The bit count was received, so it is known how much is missing.
    case isFalse hfour =>
      obtain ⟨b', rfl⟩ : set_uint_le 4 bits <+: b := by
        refine List.prefix_of_prefix_length_le ⟨_, rfl⟩ hb ?_
        rw [set_uint_le_length]
        omega
      rw [List.length_append, set_uint_le_length] at hlen
      rw [get_set_uint_le, List.length_append, set_uint_le_length, if_pos (by omega),
        if_pos (by omega)]

end XvcCommand

/-! ## Buffers of a stream -/

/-- The server is between two commands of `cs`, or inside the first of them. -/
def Partial (r : List Byte) : List XvcCommand → Prop
  | [] => r = []
  | c :: _ => r <+: c.encode ∧ r.length < c.encode.length

theorem Partial.next_command {r : List Byte} {cs : List XvcCommand} (h : Partial r cs) :
    next_command r = .fill := by
  cases cs with
  | nil =>
    obtain rfl : r = [] := h
    decide
  | cons c cs => exact c.next_command_prefix h.1 h.2

/-- Whatever part of a stream was received, it is some of the commands and a part of the next. -/
theorem exists_partial {cs : List XvcCommand} {l m : List Byte} (h : l ++ m = encodeAll cs) :
    ∃ done rest r, cs = done ++ rest ∧ l = encodeAll done ++ r ∧ r ++ m = encodeAll rest ∧
      Partial r rest := by
  induction cs generalizing l with
  | nil =>
    obtain ⟨rfl, rfl⟩ := List.append_eq_nil_iff.mp h
    exact ⟨[], [], [], rfl, rfl, rfl, rfl⟩
  | cons c cs ih =>
    have hcons : encodeAll (c :: cs) = c.encode ++ encodeAll cs := rfl
    by_cases hlt : l.length < c.encode.length
    · refine ⟨[], c :: cs, l, rfl, rfl, h, ?_, hlt⟩
      exact List.prefix_of_prefix_length_le ⟨m, h⟩ ⟨encodeAll cs, hcons⟩ hlt.le
    · obtain ⟨l', rfl⟩ : c.encode <+: l :=
        List.prefix_of_prefix_length_le ⟨encodeAll cs, hcons⟩ ⟨m, h⟩ (by omega)
      rw [hcons, List.append_assoc, List.append_cancel_left_eq] at h
      obtain ⟨done, rest, r, rfl, rfl, hr, hpart⟩ := ih h
      exact ⟨c :: done, rest, r, rfl, (List.append_assoc ..).symm, hr, hpart⟩

theorem encodeAll_cons (c : XvcCommand) (cs : List XvcCommand) (r : List Byte) :
    encodeAll (c :: cs) ++ r = c.encode ++ (encodeAll cs ++ r) := List.append_assoc ..

/-- A pass goes through exactly the complete commands of such a buffer. -/
theorem commands_encodeAll {done rest : List XvcCommand} {r : List Byte} (h : Partial r rest)
    {fuel : Nat} (hfuel : (encodeAll done ++ r).length < fuel) :
    commands fuel (encodeAll done ++ r) = (done.map XvcCommand.command, r) := by
  induction done generalizing fuel with
  | nil =>
    obtain ⟨fuel, rfl⟩ := Nat.exists_eq_add_one_of_ne_zero (Nat.ne_zero_of_lt hfuel)
    have hnil : encodeAll [] ++ r = r := rfl
    unfold commands
    rw [hnil, h.next_command]
    rfl
  | cons c done ih =>
    obtain ⟨fuel, rfl⟩ := Nat.exists_eq_add_one_of_ne_zero (Nat.ne_zero_of_lt hfuel)
    have hpos := c.encode_pos
    rw [encodeAll_cons, List.length_append] at hfuel
    unfold commands
    rw [encodeAll_cons, c.next_command_encode]
    dsimp only
    rw [← c.encode_length, List.drop_left, ih (by omega)]
    rfl

end AwsFpga.Xvc
