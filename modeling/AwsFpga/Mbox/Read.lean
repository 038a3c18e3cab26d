import Mathlib.Logic.Function.Basic
import AwsFpga.Lib.Exec
import AwsFpga.Mbox.Hal

/-!
# What a mailbox read leaves with its caller

The functions of this file write through the caller's pointers `msg` and `len`. Those of
`Mbox.Hal` answer what was stored instead, and have the same runs.
-/

open Lib AwsFpga.Pci

namespace AwsFpga.Mbox

/-- What the pointers point to: the dwords from `msg` on, and `*len`. -/
structure MsgOut where
  msg : Nat → BitVec 32
  len : BitVec 32

namespace MsgOut

abbrev ReadM : Type → Type := SProg PciApi MsgOut

def peek (handle : Int) (offset : BitVec 64) : ReadM (Int × BitVec 32) :=
  liftProg (fpga_pci_peek handle offset)

def poke (handle : Int) (offset : BitVec 64) (value : BitVec 32) : ReadM Int :=
  liftProg (fpga_pci_poke handle offset value)

variable {α : Type}

theorem exec_peek (handle : Int) (offset : BitVec 64) (f : Int × BitVec 32 → ReadM α) (s s' : MsgOut)
    (t : List PciApi.Event) (b : α) :
    Exec (peek handle offset >>= f) s t b s' ↔ ∃ ret value t',
      t = ⟨.peek handle offset, (ret, value)⟩ :: t' ∧ Exec (f (ret, value)) s t' b s' := by
  constructor
  · intro h
    obtain ⟨⟨ret, value⟩, t', ht, h⟩ := (exec_op_bind _ _ _ _ _ _).mp h
    exact ⟨ret, value, t', ht, h⟩
  · rintro ⟨ret, value, t', ht, h⟩
    exact (exec_op_bind _ _ _ _ _ _).mpr ⟨(ret, value), t', ht, h⟩

theorem exec_poke (handle : Int) (offset : BitVec 64) (value : BitVec 32) (f : Int → ReadM α)
    (s s' : MsgOut) (t : List PciApi.Event) (b : α) :
    Exec (poke handle offset value >>= f) s t b s' ↔ ∃ (ret : Int) (t' : List PciApi.Event),
      t = ⟨.poke handle offset value, ret⟩ :: t' ∧ Exec (f ret) s t' b s' :=
  exec_op_bind _ _ _ _ _ _

/-! ## The functions -/

/-- The loop over `i`, with `n` rounds left and `m32` at dword `i`. A peek that fails does not write
its value. -/
def fpga_hal_mbox_read_data (handle : Int) : (i n : Nat) → ReadM Int
  | _, 0 => return 0
  | i, n + 1 => do
    let (ret, m32) ← peek handle FMB_REG_RD_DATA
    if ret ≠ 0 then
      return ret
    else
      modify fun out => { out with msg := Function.update out.msg i m32 }
      fpga_hal_mbox_read_data handle (i + 1) n

/-- The label `err_rx_ack`. -/
def err_rx_ack (handle : Int) (ret : Int) : ReadM Int := do
  let _ret2 ← poke handle FMB_REG_STATUS FMB_RX_EVT
  return ret

/-- The part of `fpga_hal_mbox_read_async` behind the test of the status. -/
def fpga_hal_mbox_read_rx (handle : Int) : ReadM Int := do
  let (ret, mb_rd_len) ← peek handle FMB_REG_RD_LEN
  if ret ≠ 0 then
    err_rx_ack handle ret
  else if mb_rd_len.toNat > FPGA_MBOX_MSG_DATA_LEN / 4 then
    err_rx_ack handle FPGA_ERR_AFI_CMD_MALFORMED
  else if fpga_hal_mbox_check_len (mb_rd_len <<< 2).toNat ≠ 0 then
    err_rx_ack handle (fpga_hal_mbox_check_len (mb_rd_len <<< 2).toNat)
  else
    let ret ← poke handle FMB_REG_RD_INDEX 0
    if ret ≠ 0 then
      err_rx_ack handle ret
    else
      let ret ← fpga_hal_mbox_read_data handle 0 mb_rd_len.toNat
      if ret ≠ 0 then
        err_rx_ack handle ret
      else
        let ret ← poke handle FMB_REG_STATUS FMB_RX_EVT
        if ret ≠ 0 then
          return ret
        else
          modify fun out => { out with len := mb_rd_len <<< 2 }
          return 0

def fpga_hal_mbox_read_async (handle : Int) : ReadM Int := do
  let (ret, val) ← peek handle FMB_REG_STATUS
  if ret ≠ 0 then
    return ret
  else if val &&& FMB_RX_EVT = 0 then
    return -EAGAIN
  else
    fpga_hal_mbox_read_rx handle

/-- The loop of `fpga_hal_mbox_read`, with `count` rounds left. -/
def fpga_hal_mbox_read_loop (mbox : FpgaHalMbox) (handle : Int) : (count : Nat) → ReadM Int
  | 0 => return -ETIMEDOUT
  | count + 1 => do
    let ret ← fpga_hal_mbox_read_async handle
    if ret = 0 then
      return 0
    else if ret ≠ -EAGAIN then
      return ret
    else
      liftProg (msleep mbox.delay_msec)
      fpga_hal_mbox_read_loop mbox handle count

def fpga_hal_mbox_read (mbox : FpgaHalMbox) (handle : Int) : ReadM Int :=
  fpga_hal_mbox_read_loop mbox handle mbox.timeout.toNat

/-! ## The data loop -/

/-- The dwords `words`, stored from dword `i` on. -/
def store (out : MsgOut) (i : Nat) (words : List (BitVec 32)) : MsgOut :=
  { out with msg := fun j => if j < i then out.msg j else words.getD (j - i) (out.msg j) }

theorem store_nil (out : MsgOut) (i : Nat) : out.store i [] = out := by
  simp [store]

theorem store_cons (out : MsgOut) (i : Nat) (m32 : BitVec 32) (words : List (BitVec 32)) :
    MsgOut.store { out with msg := Function.update out.msg i m32 } (i + 1) words =
      out.store i (m32 :: words) := by
  unfold store
  congr 1
  funext j
  rcases Nat.lt_trichotomy j i with hlt | rfl | hgt
  · have hne : j ≠ i := by omega
    simp [hlt, Nat.lt_succ_of_lt hlt, Function.update_of_ne hne]
  · simp
  · have hne : j ≠ i := by omega
    have hidx : j - i = j - (i + 1) + 1 := by omega
    rw [if_neg (by omega), if_neg (by omega), hidx, List.getD_cons_succ]
    simp only [Function.update_of_ne hne]

/-- The reads of the data register that answered `words`. -/
def dataReads (handle : Int) (words : List (BitVec 32)) : List PciApi.Event :=
  words.map fun m32 => ⟨.peek handle FMB_REG_RD_DATA, (0, m32)⟩

theorem read_data_exec {handle : Int} {i n : Nat} {out out' : MsgOut} {t : List PciApi.Event} {ret : Int}
    (h : Exec (fpga_hal_mbox_read_data handle i n) out t ret out') :
    ∃ words, words.length ≤ n ∧ out' = out.store i words ∧
      (ret = 0 → words.length = n ∧ t = dataReads handle words) ∧
      ∀ e ∈ t, e.1 = .peek handle FMB_REG_RD_DATA := by
  induction n generalizing i out t with
  | zero =>
    obtain ⟨rfl, rfl, rfl⟩ := (exec_pure _ _ _ _ _).mp h
    exact ⟨[], Nat.le_refl _, (store_nil _ i).symm, fun _ => ⟨rfl, rfl⟩, by simp⟩
  | succ n ih =>
    unfold fpga_hal_mbox_read_data at h
    rw [exec_peek] at h
    obtain ⟨ret', m32, t', rfl, h⟩ := h
    dsimp only at h
    split at h
    case isTrue hret =>
      obtain ⟨rfl, rfl, rfl⟩ := (exec_pure _ _ _ _ _).mp h
      exact ⟨[], Nat.zero_le _, (store_nil _ i).symm, fun h0 => absurd h0 hret, by simp⟩
    case isFalse hret =>
      obtain rfl : ret' = 0 := not_not.mp hret
      rw [exec_modify_bind] at h
      obtain ⟨words, hlen, hout, hall, hpeek⟩ := ih h
      refine ⟨m32 :: words, by simpa using hlen, ?_, fun h0 => ?_, ?_⟩
      · rw [hout, store_cons]
      · obtain ⟨hn, rfl⟩ := hall h0
        exact ⟨by rw [List.length_cons, hn], rfl⟩
      · simpa using hpeek

/-! ## One attempt -/

def IsRxAck (handle : Int) (e : PciApi.Event) : Bool := e.1 = .poke handle FMB_REG_STATUS FMB_RX_EVT

def IsStatusRead (handle : Int) (e : PciApi.Event) : Bool := e.1 = .peek handle FMB_REG_STATUS

/-- The status was read, and showed an RX event. -/
def RxSeen (handle : Int) (t : List PciApi.Event) : Prop :=
  ∃ val, ⟨.peek handle FMB_REG_STATUS, (0, val)⟩ ∈ t ∧ val &&& FMB_RX_EVT ≠ 0

/-- What comes behind the test of the status when the message `words` is read. -/
def messageReads (handle : Int) (mb_rd_len : BitVec 32) (words : List (BitVec 32)) :
    List PciApi.Event :=
  ⟨.peek handle FMB_REG_RD_LEN, (0, mb_rd_len)⟩ :: ⟨.poke handle FMB_REG_RD_INDEX 0, (0 : Int)⟩ ::
    (dataReads handle words ++ [⟨.poke handle FMB_REG_STATUS FMB_RX_EVT, (0 : Int)⟩])

/-- What holds of an attempt, given the calls behind the test of the status. -/
structure Stored (handle : Int) (out : MsgOut) (t : List PciApi.Event) (ret : Int) (out' : MsgOut) :
    Prop where
  bounded : ∀ i, FPGA_MBOX_MSG_DATA_LEN ≤ 4 * i → out'.msg i = out.msg i
  len_kept : ret ≠ 0 → out'.len = out.len
  message : ret = 0 → ∃ mb_rd_len words, t = messageReads handle mb_rd_len words ∧
    words.length = mb_rd_len.toNat ∧ out'.len.toNat = 4 * mb_rd_len.toNat ∧
    ∀ i (h : i < words.length), out'.msg i = words[i]

theorem store_bounded {out : MsgOut} {words : List (BitVec 32)}
    (h : 4 * words.length ≤ FPGA_MBOX_MSG_DATA_LEN) (i : Nat) (hi : FPGA_MBOX_MSG_DATA_LEN ≤ 4 * i) :
    (out.store 0 words).msg i = out.msg i := by
  have hnone : words[i - 0]? = none := List.getElem?_eq_none (by omega)
  change words.getD (i - 0) (out.msg i) = out.msg i
  rw [List.getD_eq_getElem?_getD, hnone, Option.getD_none]

theorem stored_of_fail {handle : Int} {out : MsgOut} {t : List PciApi.Event} {ret : Int}
    (hret : ret ≠ 0) {words : List (BitVec 32)} (h : 4 * words.length ≤ FPGA_MBOX_MSG_DATA_LEN) :
    Stored handle out t ret (out.store 0 words) where
  bounded := store_bounded h
  len_kept _ := rfl
  message h0 := absurd h0 hret

/-- Calls that neither read the status nor acknowledge. -/
def Quiet (handle : Int) (t : List PciApi.Event) : Prop :=
  ∀ e ∈ t, IsRxAck handle e = false ∧ IsStatusRead handle e = false

/-- Calls that acknowledge once, and do not read the status. -/
def AckedOnce (handle : Int) (t : List PciApi.Event) : Prop :=
  t.countP (IsRxAck handle) = 1 ∧ t.countP (IsStatusRead handle) = 0

theorem quiet_nil (handle : Int) : Quiet handle [] := by simp [Quiet]

theorem quiet_rd_len {handle : Int} {t : List PciApi.Event} (r : Int × BitVec 32) (h : Quiet handle t) :
    Quiet handle (⟨.peek handle FMB_REG_RD_LEN, r⟩ :: t) :=
  List.forall_mem_cons.mpr
    ⟨by simp [IsRxAck, IsStatusRead, FMB_REG_RD_LEN, FMB_REG_STATUS], h⟩

theorem quiet_rd_index {handle : Int} {t : List PciApi.Event} (r : Int) (h : Quiet handle t) :
    Quiet handle (⟨.poke handle FMB_REG_RD_INDEX 0, r⟩ :: t) :=
  List.forall_mem_cons.mpr
    ⟨by simp [IsRxAck, IsStatusRead, FMB_REG_RD_INDEX, FMB_REG_STATUS], h⟩

theorem quiet_data {handle : Int} {t : List PciApi.Event}
    (h : ∀ e ∈ t, e.1 = .peek handle FMB_REG_RD_DATA) : Quiet handle t := by
  intro e he
  simp [IsRxAck, IsStatusRead, h e he, FMB_REG_RD_DATA, FMB_REG_STATUS]

theorem acked_of_quiet {handle : Int} {t : List PciApi.Event} (h : Quiet handle t) (ret : Int) :
    AckedOnce handle (t ++ [⟨.poke handle FMB_REG_STATUS FMB_RX_EVT, ret⟩]) := by
  have hack : t.countP (IsRxAck handle) = 0 :=
    List.countP_eq_zero.mpr fun e he => by simp [(h e he).1]
  have hread : t.countP (IsStatusRead handle) = 0 :=
    List.countP_eq_zero.mpr fun e he => by simp [(h e he).2]
  constructor
  · rw [List.countP_append, hack]
    simp [IsRxAck]
  · rw [List.countP_append, hread]
    simp [IsStatusRead]

theorem err_rx_ack_exec {handle ret ret' : Int} {out out' : MsgOut} {pre t : List PciApi.Event}
    {words : List (BitVec 32)} (hret : ret ≠ 0) (hwords : 4 * words.length ≤ FPGA_MBOX_MSG_DATA_LEN)
    (hpre : Quiet handle pre) (h : Exec (err_rx_ack handle ret) (out.store 0 words) t ret' out') :
    Stored handle out (pre ++ t) ret' out' ∧ AckedOnce handle (pre ++ t) := by
  unfold err_rx_ack at h
  rw [exec_poke] at h
  obtain ⟨ret2, t', rfl, h⟩ := h
  obtain ⟨rfl, rfl, rfl⟩ := (exec_pure _ _ _ _ _).mp h
  exact ⟨stored_of_fail hret hwords, acked_of_quiet hpre ret2⟩

theorem stored_of_message {handle : Int} {out : MsgOut} {mb_rd_len : BitVec 32}
    {words : List (BitVec 32)} (hn : words.length = mb_rd_len.toNat)
    (hlen : ¬mb_rd_len.toNat > FPGA_MBOX_MSG_DATA_LEN / 4) :
    Stored handle out (messageReads handle mb_rd_len words) 0
      { out.store 0 words with len := mb_rd_len <<< 2 } where
  bounded := by
    unfold FPGA_MBOX_MSG_DATA_LEN at hlen
    exact store_bounded (by unfold FPGA_MBOX_MSG_DATA_LEN; omega)
  len_kept hne := absurd rfl hne
  message _ := by
    unfold FPGA_MBOX_MSG_DATA_LEN at hlen
    refine ⟨mb_rd_len, words, rfl, hn, ?_, fun i hi => ?_⟩
    · change (mb_rd_len <<< 2).toNat = _
      rw [BitVec.toNat_shiftLeft, Nat.shiftLeft_eq, Nat.mod_eq_of_lt (by omega)]
      omega
    · change words.getD (i - 0) (out.msg i) = words[i]
      rw [Nat.sub_zero, List.getD_eq_getElem?_getD, List.getElem?_eq_getElem hi, Option.getD_some]

/-- Behind an RX event: whatever fails, there is one acknowledgement. -/
theorem read_rx_exec {handle : Int} {out out' : MsgOut} {t : List PciApi.Event} {ret : Int}
    (h : Exec (fpga_hal_mbox_read_rx handle) out t ret out') :
    Stored handle out t ret out' ∧ AckedOnce handle t := by
  have hmalformed : FPGA_ERR_AFI_CMD_MALFORMED ≠ 0 := by decide
  have hnone : 4 * ([] : List (BitVec 32)).length ≤ FPGA_MBOX_MSG_DATA_LEN := Nat.zero_le _
  unfold fpga_hal_mbox_read_rx at h
  rw [exec_peek] at h
  obtain ⟨ret₁, mb_rd_len, t₁, rfl, h⟩ := h
  have hquiet₁ := quiet_rd_len (ret₁, mb_rd_len) (quiet_nil handle)
  rw [← store_nil out 0] at h
  dsimp only at h
  split at h
  case isTrue hret => exact err_rx_ack_exec hret hnone hquiet₁ h
  case isFalse hret₁ =>
  split at h
  case isTrue => exact err_rx_ack_exec hmalformed hnone hquiet₁ h
  case isFalse hlong =>
  split at h
  case isTrue hbad => exact err_rx_ack_exec hbad hnone hquiet₁ h
  case isFalse =>
  rw [exec_poke] at h
  obtain ⟨ret₂, t₂, rfl, h⟩ := h
  have hquiet₂ := quiet_rd_len (ret₁, mb_rd_len) (quiet_rd_index ret₂ (quiet_nil handle))
  split at h
  case isTrue hret => exact err_rx_ack_exec hret hnone hquiet₂ h
  case isFalse hret₂ =>
  rw [exec_bind, store_nil] at h
  obtain ⟨t₃, ret₃, out₃, t₄, rfl, hdata, h⟩ := h
  obtain ⟨words, hwords, rfl, hall, hpeek⟩ := read_data_exec hdata
  have hquiet₃ := quiet_rd_len (ret₁, mb_rd_len) (quiet_rd_index ret₂ (quiet_data hpeek))
  have hshort : 4 * words.length ≤ FPGA_MBOX_MSG_DATA_LEN := by
    unfold FPGA_MBOX_MSG_DATA_LEN at hlong ⊢
    omega
  split at h
  case isTrue hret => exact err_rx_ack_exec hret hshort hquiet₃ h
  case isFalse hret₃ =>
  rw [exec_poke] at h
  obtain ⟨ret₄, t₅, rfl, h⟩ := h
  have hacked := acked_of_quiet hquiet₃ ret₄
  split at h
  case isTrue hret =>
    obtain ⟨rfl, rfl, rfl⟩ := (exec_pure _ _ _ _ _).mp h
    exact ⟨stored_of_fail hret hshort, hacked⟩
  case isFalse hret₄ =>
    rw [exec_modify_bind] at h
    obtain ⟨rfl, rfl, rfl⟩ := (exec_pure _ _ _ _ _).mp h
    obtain rfl : ret₁ = 0 := not_not.mp hret₁
    obtain rfl : ret₂ = 0 := not_not.mp hret₂
    obtain rfl : ret₄ = 0 := not_not.mp hret₄
    obtain ⟨hn, rfl⟩ := hall (not_not.mp hret₃)
    exact ⟨stored_of_message hn hlong, hacked⟩

/-- What one attempt does. -/
structure Attempt (handle : Int) (out : MsgOut) (t : List PciApi.Event) (ret : Int) (out' : MsgOut) :
    Prop where
  bounded : ∀ i, FPGA_MBOX_MSG_DATA_LEN ≤ 4 * i → out'.msg i = out.msg i
  len_kept : ret ≠ 0 → out'.len = out.len
  message : ret = 0 → ∃ val mb_rd_len words,
    t = ⟨.peek handle FMB_REG_STATUS, (0, val)⟩ :: messageReads handle mb_rd_len words ∧
      words.length = mb_rd_len.toNat ∧ out'.len.toNat = 4 * mb_rd_len.toNat ∧
      ∀ i (h : i < words.length), out'.msg i = words[i]
  acked : RxSeen handle t → t.countP (IsRxAck handle) = 1
  not_acked : ¬RxSeen handle t → t.countP (IsRxAck handle) = 0
  status_reads : t.countP (IsStatusRead handle) = 1

theorem attempt_of_status {handle ret ret' : Int} {val : BitVec 32} (out : MsgOut) (hret : ret' ≠ 0)
    (hno : ret = 0 → val &&& FMB_RX_EVT = 0) :
    Attempt handle out [⟨.peek handle FMB_REG_STATUS, (ret, val)⟩] ret' out where
  bounded _ _ := rfl
  len_kept _ := rfl
  message h0 := absurd h0 hret
  acked := by
    rintro ⟨val', hmem, hevt⟩
    obtain ⟨rfl, rfl⟩ : ret = 0 ∧ val' = val := by
      rw [List.mem_singleton] at hmem
      cases hmem
      exact ⟨rfl, rfl⟩
    exact absurd (hno rfl) hevt
  not_acked _ := by simp [IsRxAck]
  status_reads := by simp [IsStatusRead]

theorem read_async_exec {handle : Int} {out out' : MsgOut} {t : List PciApi.Event} {ret : Int}
    (h : Exec (fpga_hal_mbox_read_async handle) out t ret out') : Attempt handle out t ret out' := by
  unfold fpga_hal_mbox_read_async at h
  rw [exec_peek] at h
  obtain ⟨ret₁, val, t₁, rfl, h⟩ := h
  dsimp only at h
  split at h
  case isTrue hret =>
    obtain ⟨rfl, rfl, rfl⟩ := (exec_pure _ _ _ _ _).mp h
    exact attempt_of_status _ hret fun h0 => absurd h0 hret
  case isFalse hret =>
  obtain rfl : ret₁ = 0 := not_not.mp hret
  split at h
  case isTrue hno =>
    obtain ⟨rfl, rfl, rfl⟩ := (exec_pure _ _ _ _ _).mp h
    exact attempt_of_status _ (by decide) fun _ => hno
  case isFalse hevt =>
    obtain ⟨hstored, hack, hread⟩ := read_rx_exec h
    have hseen : RxSeen handle (⟨.peek handle FMB_REG_STATUS, (0, val)⟩ :: t₁) :=
      ⟨val, List.mem_cons_self, hevt⟩
    refine ⟨hstored.bounded, hstored.len_kept, fun h0 => ?_, fun _ => ?_, fun hno => absurd hseen hno, ?_⟩
    · obtain ⟨mb_rd_len, words, rfl, hmessage⟩ := hstored.message h0
      exact ⟨val, mb_rd_len, words, rfl, hmessage⟩
    · rw [List.countP_cons, hack]
      simp [IsRxAck]
    · rw [List.countP_cons, hread]
      simp [IsStatusRead]

/-! ## The whole read -/

theorem read_loop_exec {mbox : FpgaHalMbox} {handle : Int} {count : Nat} {out out' : MsgOut}
    {t : List PciApi.Event} {ret : Int}
    (h : Exec (fpga_hal_mbox_read_loop mbox handle count) out t ret out') :
    t.countP (IsStatusRead handle) ≤ count := by
  induction count generalizing out t with
  | zero =>
    obtain ⟨rfl, -, -⟩ := (exec_pure _ _ _ _ _).mp h
    simp
  | succ count ih =>
    unfold fpga_hal_mbox_read_loop at h
    rw [exec_bind] at h
    obtain ⟨t₁, ret₁, out₁, t₂, rfl, hattempt, h⟩ := h
    have hone := (read_async_exec hattempt).status_reads
    rw [List.countP_append, hone]
    split at h
    case isTrue =>
      obtain ⟨rfl, -, -⟩ := (exec_pure _ _ _ _ _).mp h
      simp
    case isFalse =>
    split at h
    case isTrue =>
      obtain ⟨rfl, -, -⟩ := (exec_pure _ _ _ _ _).mp h
      simp
    case isFalse =>
      obtain ⟨⟨⟩, t₃, rfl, hloop⟩ := (exec_op_bind _ _ _ _ _ _).mp h
      have hrest := ih hloop
      have hsleep : IsStatusRead handle ⟨.msleep mbox.delay_msec, ()⟩ = false := by
        simp [IsStatusRead]
      rw [List.countP_cons_of_neg (by simp [hsleep])]
      omega

/-- One attempt stays inside the message buffer, sets `*len` for a whole message only and
acknowledges what it saw. A read makes as many attempts as the timeout says. -/
theorem read_attempts (mbox : FpgaHalMbox) (handle : Int) (out out' : MsgOut)
    (t : List PciApi.Event) (ret : Int) :
    (Exec (fpga_hal_mbox_read_async handle) out t ret out' → Attempt handle out t ret out') ∧
      (Exec (fpga_hal_mbox_read mbox handle) out t ret out' →
        t.countP (IsStatusRead handle) ≤ mbox.timeout.toNat) :=
  ⟨read_async_exec, read_loop_exec⟩

/-- A mailbox that holds a message of one dword. -/
def oneDword : Prog.Handler PciApi Unit
  | .peek _ offset, s => ((0, if offset = FMB_REG_RD_DATA then 0xabcd else 1), s)
  | o, s => (o.quiet, s)

def emptyOut : MsgOut := ⟨fun _ => 0, 0⟩

def oneDwordRun : Prog.Outcome PciApi Unit (Int × MsgOut) :=
  ((fpga_hal_mbox_read_async 0).run emptyOut).exec oneDword ()

theorem read_attempts_oneDword :
    (oneDwordRun.result.1 = 0 ∧ oneDwordRun.result.2.len = 4 ∧
        oneDwordRun.result.2.msg 0 = 0xabcd) ∧
      Attempt 0 emptyOut oneDwordRun.trace oneDwordRun.result.1 oneDwordRun.result.2 :=
  ⟨by decide, (read_attempts ⟨1, 1⟩ 0 emptyOut oneDwordRun.result.2 oneDwordRun.trace
    oneDwordRun.result.1).1 (Prog.exec_runs oneDword _ ())⟩

/-! ## The runs are those of `Mbox.Hal` -/

/-- From `cur`, `m` runs as `p` does, and leaves in the message of `out` what `p` answers. -/
def Stores (out cur : MsgOut) (m : ReadM Int) (p : Prog PciApi (Int × List (BitVec 32))) : Prop :=
  ∀ t ret out', Exec m cur t ret out' →
    ∃ stored, p.Runs t (ret, stored) ∧ out'.msg = (out.store 0 stored).msg

section Stores

variable {out cur : MsgOut} {handle : Int}

theorem stores_pure {ret : Int} {stored : List (BitVec 32)} (h : cur.msg = (out.store 0 stored).msg) :
    Stores out cur (pure ret) (pure (ret, stored)) := by
  intro t ret' out' hexec
  obtain ⟨rfl, rfl, rfl⟩ := (exec_pure _ _ _ _ _).mp hexec
  exact ⟨stored, ⟨rfl, rfl⟩, h⟩

theorem stores_peek {offset : BitVec 64} {f : Int × BitVec 32 → ReadM Int}
    {g : Int × BitVec 32 → Prog PciApi (Int × List (BitVec 32))}
    (h : ∀ ret value, Stores out cur (f (ret, value)) (g (ret, value))) :
    Stores out cur (peek handle offset >>= f) (fpga_pci_peek handle offset >>= g) := by
  intro t ret out' hexec
  obtain ⟨ret₁, value, t', rfl, hf⟩ := (exec_peek _ _ _ _ _ _ _).mp hexec
  obtain ⟨stored, hrun, hout⟩ := h ret₁ value t' ret out' hf
  exact ⟨stored, (runs_peek _ _ _ _ _).mpr ⟨ret₁, value, t', rfl, hrun⟩, hout⟩

theorem stores_poke {offset : BitVec 64} {value : BitVec 32} {f : Int → ReadM Int}
    {g : Int → Prog PciApi (Int × List (BitVec 32))} (h : ∀ ret, Stores out cur (f ret) (g ret)) :
    Stores out cur (poke handle offset value >>= f) (fpga_pci_poke handle offset value >>= g) := by
  intro t ret out' hexec
  obtain ⟨ret₁, t', rfl, hf⟩ := (exec_poke _ _ _ _ _ _ _ _).mp hexec
  obtain ⟨stored, hrun, hout⟩ := h ret₁ t' ret out' hf
  exact ⟨stored, (runs_poke _ _ _ _ _ _).mpr ⟨ret₁, t', rfl, hrun⟩, hout⟩

theorem stores_ite {c : Prop} [Decidable c] {m n : ReadM Int}
    {p q : Prog PciApi (Int × List (BitVec 32))} (hm : c → Stores out cur m p)
    (hn : ¬c → Stores out cur n q) :
    Stores out cur (if c then m else n) (if c then p else q) := by
  split
  case isTrue hc => exact hm hc
  case isFalse hc => exact hn hc

theorem stores_err_rx_ack {ret : Int} {stored : List (BitVec 32)}
    (h : cur.msg = (out.store 0 stored).msg) :
    Stores out cur (err_rx_ack handle ret) (Mbox.err_rx_ack handle ret stored) :=
  stores_poke fun _ => stores_pure h

end Stores

theorem read_data_runs {handle : Int} {i n : Nat} {out out' : MsgOut} {t : List PciApi.Event} {ret : Int}
    (h : Exec (fpga_hal_mbox_read_data handle i n) out t ret out') :
    ∃ stored, (Mbox.fpga_hal_mbox_read_data handle n).Runs t (ret, stored) ∧
      out' = out.store i stored := by
  induction n generalizing i out t with
  | zero =>
    obtain ⟨rfl, rfl, rfl⟩ := (exec_pure _ _ _ _ _).mp h
    exact ⟨[], ⟨rfl, rfl⟩, (store_nil _ i).symm⟩
  | succ n ih =>
    unfold fpga_hal_mbox_read_data at h
    unfold Mbox.fpga_hal_mbox_read_data
    rw [exec_peek] at h
    obtain ⟨ret', m32, t', rfl, h⟩ := h
    dsimp only at h
    split at h
    case isTrue hret =>
      obtain ⟨rfl, rfl, rfl⟩ := (exec_pure _ _ _ _ _).mp h
      refine ⟨[], (runs_peek _ _ _ _ _).mpr ⟨ret, m32, [], rfl, ?_⟩, (store_nil _ i).symm⟩
      simp [hret]
    case isFalse hret =>
      rw [exec_modify_bind] at h
      obtain ⟨stored, hrun, hout⟩ := ih h
      refine ⟨m32 :: stored, (runs_peek _ _ _ _ _).mpr ⟨ret', m32, t', rfl, ?_⟩,
        by rw [hout, store_cons]⟩
      dsimp only
      rw [if_neg hret, Prog.runs_bind]
      exact ⟨t', (ret, stored), [], (List.append_nil t').symm, hrun, rfl, rfl⟩

/-- Both models of a read make the same calls, and leave the same message. -/
theorem read_async_stores (handle : Int) (out : MsgOut) :
    Stores out out (fpga_hal_mbox_read_async handle) (Mbox.fpga_hal_mbox_read_async handle) := by
  have hnone : out.msg = (out.store 0 []).msg := by rw [store_nil]
  refine stores_peek fun ret val => ?_
  refine stores_ite (fun _ => stores_pure hnone) fun _ => ?_
  refine stores_ite (fun _ => stores_pure hnone) fun _ => ?_
  refine stores_peek fun ret mb_rd_len => ?_
  refine stores_ite (fun _ => stores_err_rx_ack hnone) fun _ => ?_
  refine stores_ite (fun _ => stores_err_rx_ack hnone) fun _ => ?_
  refine stores_ite (fun _ => stores_err_rx_ack hnone) fun _ => ?_
  refine stores_poke fun ret => ?_
  refine stores_ite (fun _ => stores_err_rx_ack hnone) fun _ => ?_
  intro t ret out' h
  obtain ⟨t₁, ret₁, out₁, t₂, rfl, hdata, h⟩ := (exec_bind _ _ _ _ _ _).mp h
  obtain ⟨words, hrun, rfl⟩ := read_data_runs hdata
  have hrest : Stores out (out.store 0 words)
      (if ret₁ ≠ 0 then err_rx_ack handle ret₁ else poke handle FMB_REG_STATUS FMB_RX_EVT >>= fun ret =>
        if ret ≠ 0 then pure ret
        else (modify fun out => { out with len := mb_rd_len <<< 2 }) >>= fun _ => pure 0)
      (if ret₁ ≠ 0 then Mbox.err_rx_ack handle ret₁ words
        else fpga_pci_poke handle FMB_REG_STATUS FMB_RX_EVT >>= fun ret => pure (ret, words)) := by
    refine stores_ite (fun _ => stores_err_rx_ack rfl) fun _ => stores_poke fun ret => ?_
    split
    case isTrue => exact stores_pure rfl
    case isFalse hret =>
      obtain rfl : ret = 0 := not_not.mp hret
      have hlast : Stores out { out.store 0 words with len := mb_rd_len <<< 2 } (pure 0)
          (pure (0, words)) := stores_pure rfl
      intro t ret out' h
      rw [exec_modify_bind] at h
      exact hlast t ret out' h
  obtain ⟨stored, hrun₂, hout⟩ := hrest t₂ ret out' h
  exact ⟨stored, (Prog.runs_bind _ _ _ _).mpr ⟨t₁, (ret₁, words), t₂, rfl, hrun, hrun₂⟩, hout⟩

end MsgOut

end AwsFpga.Mbox
