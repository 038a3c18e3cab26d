import AwsFpga.Pci.Api

/-!
# The virtual JTAG server (`virtual_jtag_server.c`, `virtual_jtag_pcie.c`)

A buffer is the list of the bytes in it. What C leaves undefined, and a failed
assertion, is a `Fault`, and nothing is said of what follows one. Nothing in the
program sets `pending_error` or `enable_status`, so their branches are left out.
-/

open Lib AwsFpga.Pci

namespace AwsFpga.Xvc

abbrev Byte : Type := BitVec 8

inductive Fault where
  /-- A store past the end of the reply buffer. -/
  | reply_overflow
  /-- A read of TMS or TDI past the bytes received. -/
  | read_beyond
  | assertion
  deriving DecidableEq

/-! ## Buffers -/

def max_packet_len : Nat := 10000

/-- The loop of `reply_buf_size`. An `unsigned` doubles at most 32 times. -/
def double_until (bytes : Nat) : Nat → Nat → Nat
  | 0, reply_max => reply_max
  | n + 1, reply_max => if reply_max < bytes then double_until bytes n (reply_max * 2) else reply_max

def reply_buf_size (reply_max bytes : Nat) : Nat :=
  if reply_max < bytes then double_until bytes 32 (if reply_max = 0 then 1 else reply_max)
  else reply_max

/-- `reply_max` from the first client on. -/
def reply_max : Nat := reply_buf_size 0 max_packet_len

theorem reply_max_eq : reply_max = 16384 := by decide

/-- `c->buf` up to `c->buf_len`. -/
abbrev RecvBuf : Type := {bytes : List Byte // bytes.length ≤ max_packet_len}

abbrev Reply : Type := Nat → Byte

/-- Stores at `reply_buf + reply_len`. -/
def store_reply (reply : Reply) (reply_len : Nat) (bytes : List Byte) : Except Fault Reply :=
  if reply_len + bytes.length ≤ reply_max then
    .ok fun i => if reply_len ≤ i then bytes.getD (i - reply_len) (reply i) else reply i
  else
    .error .reply_overflow

def get_uint_le (p : List Byte) (len : Nat) : BitVec 32 :=
  (p.take len).foldr (fun b value => (value <<< 8) ||| b.setWidth 32) 0

def set_uint_le : (len : Nat) → BitVec 32 → List Byte
  | 0, _ => []
  | len + 1, value => value.setWidth 8 :: set_uint_le len (value >>> 8)

/-! ## Shifting (`virtual_jtag_pcie.c`) -/

def LENGTH_REG_OFFSET : BitVec 64 := 0x00
def TMS_REG_OFFSET : BitVec 64 := 0x04
def TDI_REG_OFFSET : BitVec 64 := 0x08
def TDO_REG_OFFSET : BitVec 64 := 0x0C
def CONTROL_REG_OFFSET : BitVec 64 := 0x10

def set_tck (nsperiod : BitVec 32) : BitVec 32 := nsperiod

/-- Waits for the shift to complete, with `count` reads of the control register left. -/
def wait_shift (handle : Int) : (count : Nat) → Prog PciApi Int
  | 0 => return 0
  | count + 1 => do
    let (status, control_reg_data) ← fpga_pci_peek handle CONTROL_REG_OFFSET
    if status ≠ 0 then
      return status
    else if control_reg_data &&& 1 = 0 then
      return 0
    else if count = 0 then
      return -ETIMEDOUT
    else
      wait_shift handle count

def xvc_shift_bits (handle : Int) (tms_bits tdi_bits : BitVec 32) :
    Prog PciApi (Int × BitVec 32) := do
  let status ← fpga_pci_poke handle TMS_REG_OFFSET tms_bits
  if status ≠ 0 then
    return (status, 0)
  else
    let status ← fpga_pci_poke handle TDI_REG_OFFSET tdi_bits
    if status ≠ 0 then
      return (status, 0)
    else
      let status ← fpga_pci_poke handle CONTROL_REG_OFFSET 1
      if status ≠ 0 then
        return (status, 0)
      else
        let status ← wait_shift handle 100
        if status ≠ 0 then return (status, 0) else fpga_pci_peek handle TDO_REG_OFFSET

/-- The source of a `memcpy`: `none` when it leaves the bytes received. -/
def bytes_at (buf : List Byte) (offset len : Nat) : Option (List Byte) :=
  if offset + len ≤ buf.length then some ((buf.drop offset).take len) else none

/-- `memcpy` into a word. The bytes that are not copied stay. -/
def memcpy_word (word : BitVec 32) (src : List Byte) : BitVec 32 :=
  ((src.getD 3 (word.extractLsb' 24 8) ++ src.getD 2 (word.extractLsb' 16 8)) ++
    (src.getD 1 (word.extractLsb' 8 8) ++ src.getD 0 (word.extractLsb' 0 8))).setWidth 32

/-- `memcpy` out of a word. -/
def word_bytes (word : BitVec 32) (len : Nat) : List Byte :=
  (List.range len).map fun i => word.extractLsb' (8 * i) 8

/-- The loop of `shift_tms_tdi`: once for each 32 bits, `left` more times. `tms_buf` and `tdi_buf`
are what can be read from there on. It answers the bytes stored from `tdo_buf` on, and an access
that fails ends it. -/
def shift_words (handle : Int) (num_bits : Nat) (tms_buf tdi_buf : List Byte) :
    (left current_bit : Nat) → (tms_store tdi_store : BitVec 32) →
      Prog PciApi (Except Fault (List Byte))
  | 0, _, _, _ => return .ok []
  | left + 1, current_bit, tms_store, tdi_store => do
    let shift_num_bits := min 32 (num_bits - current_bit)
    let status ← (if num_bits - current_bit < 32 then
      fpga_pci_poke handle LENGTH_REG_OFFSET (BitVec.ofNat 32 shift_num_bits) else pure 0)
    if status ≠ 0 then
      return .ok []
    else
      let shift_num_bytes := (shift_num_bits + 7) / 8
      match bytes_at tms_buf (current_bit / 8) shift_num_bytes,
        bytes_at tdi_buf (current_bit / 8) shift_num_bytes with
      | some tms, some tdi =>
        let tms_store := memcpy_word tms_store tms
        let tdi_store := memcpy_word tdi_store tdi
        let (status, tdo_store) ← xvc_shift_bits handle tms_store tdi_store
        if status ≠ 0 then
          return .ok []
        else
          let rest ← shift_words handle num_bits tms_buf tdi_buf left
            (current_bit + shift_num_bits) tms_store tdi_store
          return rest.map (word_bytes tdo_store shift_num_bytes ++ ·)
      | _, _ => return .error .read_beyond

def shift_tms_tdi (handle : Int) (bitcount : BitVec 32) (tms_buf tdi_buf : List Byte) :
    Prog PciApi (Except Fault (List Byte)) := do
  let num_bits := bitcount.toNat
  let status ← (if num_bits ≥ 32 then fpga_pci_poke handle LENGTH_REG_OFFSET 0x20 else pure 0)
  if status ≠ 0 then
    return .ok []
  else
    shift_words handle num_bits tms_buf tdi_buf ((num_bits + 31) / 32) 0 0 0

/-! ## Commands -/

def ascii (s : String) : List Byte := s.toList.map fun c => BitVec.ofNat 8 c.toNat

def XVC_VERSION : Nat := 10

def getinfo_str : List Byte := ascii "getinfo:"
def shift_str : List Byte := ascii "shift:"
def settck_str : List Byte := ascii "settck:"

/-- The text of the reply to `getinfo:`. -/
def info_str : List Byte :=
  ascii ("xvcServer_v" ++ toString (XVC_VERSION / 10) ++ "." ++ toString (XVC_VERSION % 10) ++ ":" ++
    toString max_packet_len ++ "\n")

inductive Command where
  | getinfo
  | shift (bits : BitVec 32)
  | settck (nsperiod : BitVec 32)
  deriving DecidableEq

/-- `(bits + 7) / 8`, an `unsigned`. -/
def byte_count (bits : BitVec 32) : Nat := ((bits + 7) / 8).toNat

/-- How far a command takes `cbuf`. -/
def Command.size : Command → Nat
  | .getinfo => 8
  | .shift bits => 10 + byte_count bits * 2
  | .settck _ => 11

/-- How far it takes `reply_len`. -/
def Command.reply_size : Command → Nat
  | .getinfo => info_str.length
  | .shift bits => byte_count bits
  | .settck _ => 4

/-- What the loop of `read_packet` finds at `cbuf`. -/
inductive Next where
  | fill
  | bad
  | assert_failed
  | command (c : Command)
  deriving DecidableEq

/-- The name of a command is looked for in 30 bytes. `cbuf` is what is received and not consumed. -/
def next_command (cbuf : List Byte) : Next :=
  match (cbuf.take 30).findIdx? (· = 0x3A#8) with
  | none => if cbuf.length ≥ 30 then .bad else .fill
  | some i =>
    let name := cbuf.take (i + 1)
    if name = getinfo_str then
      .command .getinfo
    else if name = shift_str then
      if cbuf.length < 6 + 4 then
        .fill
      else
        let bits := get_uint_le (cbuf.drop 6) 4
        if cbuf.length < (Command.shift bits).size then
          if (Command.shift bits).size ≤ max_packet_len then .fill else .assert_failed
        else
          .command (.shift bits)
    else if name = settck_str then
      if cbuf.length < 7 + 4 then .fill else .command (.settck (get_uint_le (cbuf.drop 7) 4))
    else
      .bad

/-- What a command stores at `reply_buf + reply_len`. The text of `getinfo:` ends in a NUL. -/
def command_reply (handle : Int) (cbuf : List Byte) : Command → Prog PciApi (Except Fault (List Byte))
  | .getinfo => return .ok (info_str ++ [0])
  | .shift bits => shift_tms_tdi handle bits (cbuf.drop 10) (cbuf.drop (10 + byte_count bits))
  | .settck nsperiod => return .ok (set_uint_le 4 (set_tck nsperiod))

/-! ## Reading -/

/-- A call of `shift_tms_tdi`, with the vectors that its pointers name. -/
structure ShiftCall where
  bits : BitVec 32
  tms : List Byte
  tdi : List Byte
  deriving DecidableEq

def shift_call (cbuf : List Byte) : Command → List ShiftCall
  | .shift bits => [⟨bits, (cbuf.drop 10).take (byte_count bits),
      (cbuf.drop (10 + byte_count bits)).take (byte_count bits)⟩]
  | _ => []

/-- Where the loop leaves `cbuf` and the reply, and the shifts it made. -/
structure Filled where
  cbuf : List Byte
  reply_len : Nat
  reply : Reply
  calls : List ShiftCall

/-- A protocol error ends the pass after the shifts of the commands before. -/
inductive PassEnd where
  | fault (f : Fault)
  | error (calls : List ShiftCall)
  | filled (s : Filled)

/-- The `for` loop of `read_packet`. Each command is shorter than what is left, so `fuel` rounds
are enough for fewer bytes than that. -/
def read_packet_pass (handle : Int) : (fuel : Nat) → Filled → Prog PciApi PassEnd
  | 0, s => return .filled s
  | fuel + 1, s =>
    match next_command s.cbuf with
    | .fill => return .filled s
    | .bad => return .error s.calls
    | .assert_failed => return .fault .assertion
    | .command c => do
      match ← command_reply handle s.cbuf c with
      | .error f => return .fault f
      | .ok bytes =>
        match store_reply s.reply s.reply_len bytes with
        | .error f => return .fault f
        | .ok reply =>
          read_packet_pass handle fuel
            { cbuf := s.cbuf.drop c.size, reply_len := s.reply_len + c.reply_size, reply
              calls := s.calls ++ shift_call s.cbuf c }

/-- One pass over the buffer, from `read_more` to the end of the loop. -/
def read_packet_once (handle : Int) (buf : List Byte) (reply : Reply) (calls : List ShiftCall) :
    Prog PciApi PassEnd :=
  read_packet_pass handle (buf.length + 1) ⟨buf, 0, reply, calls⟩

/-! ## A connection -/

inductive Ending where
  | fault (f : Fault)
  | error
  | closed
  deriving DecidableEq

/-- What a connection did: its shifts, the bytes it sent, and how it ended. -/
structure Session where
  calls : List ShiftCall
  sent : List Byte
  ending : Ending

/-- One pass and the `send` after it, which transmits all it is given. Then `recv` is called: `fill`
is 1 after every pass. -/
def read_packet_send (handle : Int) (buf : List Byte) (reply : Reply) (calls : List ShiftCall)
    (sent : List Byte) (recv : Filled → List Byte → Prog PciApi Session) : Prog PciApi Session := do
  match ← read_packet_once handle buf reply calls with
  | .fault f => return ⟨calls, sent, .fault f⟩
  | .error calls => return ⟨calls, sent, .error⟩
  | .filled s =>
    if s.cbuf.length < buf.length then
      recv s (sent ++ (List.range s.reply_len).map s.reply)
    else
      recv s sent

/-- `read_packet`, for the chunks that `recv` delivers before it answers 0. -/
def read_packet (handle : Int) : (chunks : List (List Byte)) → (buf : List Byte) → Reply →
    List ShiftCall → (sent : List Byte) → Prog PciApi Session
  | [], buf, reply, calls, sent =>
    read_packet_send handle buf reply calls sent fun s sent => return ⟨s.calls, sent, .closed⟩
  | chunk :: chunks, buf, reply, calls, sent =>
    read_packet_send handle buf reply calls sent fun s sent =>
      read_packet handle chunks (s.cbuf ++ chunk) s.reply s.calls sent

end AwsFpga.Xvc
