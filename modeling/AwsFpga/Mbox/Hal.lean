import AwsFpga.Pci.Api

/-!
# The mailbox driver (`fpga_hal_mbox.c`)

A message is a buffer of dwords. Lengths are in bytes, as in the source.
-/

open Lib AwsFpga.Pci

namespace AwsFpga.Mbox

/-! ## Registers (`fpga_hal_mbox_regs.h`) -/

def FMB_REG_SH_VERSION : BitVec 64 := 0x0
def FMB_REG_STATUS : BitVec 64 := 0xc
def FMB_REG_WR_INDEX : BitVec 64 := 0x20
def FMB_REG_WR_DATA : BitVec 64 := 0x24
def FMB_REG_WR_LEN : BitVec 64 := 0x28
def FMB_REG_RD_INDEX : BitVec 64 := 0x30
def FMB_REG_RD_DATA : BitVec 64 := 0x34
def FMB_REG_RD_LEN : BitVec 64 := 0x38
def FMB_REG_RL_RELOAD : BitVec 64 := 0x2000

def FMB_RX_EVT : BitVec 32 := 1
def FMB_TX_EVT : BitVec 32 := 2

def FPGA_MBOX_MSG_DATA_LEN : Nat := 4096

/-- `struct fpga_hal_mbox`, kept in the static `priv.mbox`. -/
structure FpgaHalMbox where
  timeout : BitVec 32
  delay_msec : BitVec 32

/-! ## Attach and detach -/

/-- Acknowledges one event, if it is pending. -/
def ack_event (handle : Int) (val evt : BitVec 32) : Prog PciApi Int :=
  if val &&& evt ≠ 0 then fpga_pci_poke handle FMB_REG_STATUS evt else return 0

def fpga_hal_mbox_reset (handle : Int) : Prog PciApi Int := do
  let (ret, val) ← fpga_pci_peek handle FMB_REG_STATUS
  if ret ≠ 0 then
    return -1
  else
    let ret ← ack_event handle val FMB_RX_EVT
    if ret ≠ 0 then
      return -1
    else
      let ret ← ack_event handle val FMB_TX_EVT
      if ret ≠ 0 then return -1 else return 0

def fpga_hal_mbox_attach (handle : Int) (clear_state : Bool) : Prog PciApi Int := do
  if clear_state then
    let ret ← fpga_hal_mbox_reset handle
    if ret ≠ 0 then return -1 else return 0
  else
    return 0

def fpga_hal_mbox_detach (handle : Int) (clear_state : Bool) : Prog PciApi Int :=
  fpga_hal_mbox_attach handle clear_state

/-- Answers the return code and `ver->sh_version`. -/
def fpga_hal_mbox_get_versions (handle : Int) : Prog PciApi (Int × BitVec 32) := do
  let (ret, sh_version) ← fpga_pci_peek handle FMB_REG_SH_VERSION
  if ret ≠ 0 then return (-1, sh_version) else return (0, sh_version)

/-! ## Reading a message -/

def fpga_hal_mbox_check_len (len : Nat) : Int :=
  if len < 4 then FPGA_ERR_AFI_CMD_MALFORMED
  else if len % 4 ≠ 0 then FPGA_ERR_AFI_CMD_MALFORMED
  else if len > FPGA_MBOX_MSG_DATA_LEN then FPGA_ERR_AFI_CMD_MALFORMED
  else 0

/-- The data loop of a read: the code it stopped with, and the dwords stored so far. -/
def fpga_hal_mbox_read_data (handle : Int) : Nat → Prog PciApi (Int × List (BitVec 32))
  | 0 => return (0, [])
  | n + 1 => do
    let (ret, m32) ← fpga_pci_peek handle FMB_REG_RD_DATA
    if ret ≠ 0 then
      return (ret, [])
    else
      let (ret, rest) ← fpga_hal_mbox_read_data handle n
      return (ret, m32 :: rest)

/-- The exit `err_rx_ack`: the event is acknowledged, the error returned. -/
def err_rx_ack (handle : Int) (ret : Int) (stored : List (BitVec 32)) :
    Prog PciApi (Int × List (BitVec 32)) := do
  let _ret2 ← fpga_pci_poke handle FMB_REG_STATUS FMB_RX_EVT
  return (ret, stored)

/-- Answers the return code and the dwords stored to `msg`. `*len` is set on success, to their
length in bytes. -/
def fpga_hal_mbox_read_async (handle : Int) : Prog PciApi (Int × List (BitVec 32)) := do
  let (ret, val) ← fpga_pci_peek handle FMB_REG_STATUS
  if ret ≠ 0 then
    return (ret, [])
  else if val &&& FMB_RX_EVT = 0 then
    return (-EAGAIN, [])
  else
    let (ret, mb_rd_len) ← fpga_pci_peek handle FMB_REG_RD_LEN
    if ret ≠ 0 then
      err_rx_ack handle ret []
    else if mb_rd_len.toNat > FPGA_MBOX_MSG_DATA_LEN / 4 then
      err_rx_ack handle FPGA_ERR_AFI_CMD_MALFORMED []
    else if fpga_hal_mbox_check_len (mb_rd_len <<< 2).toNat ≠ 0 then
      err_rx_ack handle (fpga_hal_mbox_check_len (mb_rd_len <<< 2).toNat) []
    else
      let ret ← fpga_pci_poke handle FMB_REG_RD_INDEX 0
      if ret ≠ 0 then
        err_rx_ack handle ret []
      else
        let (ret, stored) ← fpga_hal_mbox_read_data handle mb_rd_len.toNat
        if ret ≠ 0 then
          err_rx_ack handle ret stored
        else
          let ret ← fpga_pci_poke handle FMB_REG_STATUS FMB_RX_EVT
          return (ret, stored)

/-- The loop of `fpga_hal_mbox_read`, with `count` rounds left. -/
def fpga_hal_mbox_read_loop (mbox : FpgaHalMbox) (handle : Int) :
    (count : Nat) → Prog PciApi (Int × List (BitVec 32))
  | 0 => return (-ETIMEDOUT, [])
  | count + 1 => do
    let (ret, stored) ← fpga_hal_mbox_read_async handle
    if ret = 0 then
      return (0, stored)
    else if ret ≠ -EAGAIN then
      return (ret, stored)
    else
      -- Nothing was stored: `fpga_pci_peek` and `fpga_pci_poke` never answer `-EAGAIN`.
      msleep mbox.delay_msec
      fpga_hal_mbox_read_loop mbox handle count

def fpga_hal_mbox_read (mbox : FpgaHalMbox) (handle : Int) :
    Prog PciApi (Int × List (BitVec 32)) :=
  fpga_hal_mbox_read_loop mbox handle mbox.timeout.toNat

/-! ## Writing a message -/

/-- Test and clear the acknowledgement of a write: the return code and `*ack`. -/
def fpga_hal_mbox_write_async_tc_ack (handle : Int) : Prog PciApi (Int × Bool) := do
  let (ret, val) ← fpga_pci_peek handle FMB_REG_STATUS
  if ret ≠ 0 then
    return (-1, false)
  else if val &&& FMB_TX_EVT ≠ 0 then
    let ret ← fpga_pci_poke handle FMB_REG_STATUS FMB_TX_EVT
    if ret ≠ 0 then return (-1, false) else return (0, true)
  else
    return (0, false)

/-- The data loop of a write. -/
def fpga_hal_mbox_write_data (handle : Int) : List (BitVec 32) → Prog PciApi Int
  | [] => return 0
  | m32 :: rest => do
    let ret ← fpga_pci_poke handle FMB_REG_WR_DATA m32
    if ret ≠ 0 then return ret else fpga_hal_mbox_write_data handle rest

def fpga_hal_mbox_write_async (handle : Int) (msg : List (BitVec 32)) (len : Nat) :
    Prog PciApi Int := do
  let ret := fpga_hal_mbox_check_len len
  if ret ≠ 0 then
    return ret
  else
    let (ret, _ack) ← fpga_hal_mbox_write_async_tc_ack handle
    if ret ≠ 0 then
      return ret
    else
      let ret ← fpga_pci_poke handle FMB_REG_WR_INDEX 0
      if ret ≠ 0 then
        return ret
      else
        let ret ← fpga_hal_mbox_write_data handle (msg.take (len / 4))
        if ret ≠ 0 then
          return ret
        else
          fpga_pci_poke handle FMB_REG_WR_LEN (BitVec.ofNat 32 (len / 4))

/-- The acknowledgement loop of `fpga_hal_mbox_write`, with `count` rounds left. -/
def fpga_hal_mbox_write_loop (mbox : FpgaHalMbox) (handle : Int) : (count : Nat) → Prog PciApi Int
  | 0 => return -ETIMEDOUT
  | count + 1 => do
    let (ret, ack) ← fpga_hal_mbox_write_async_tc_ack handle
    if ret ≠ 0 then
      return ret
    else if ack then
      return 0
    else
      msleep mbox.delay_msec
      fpga_hal_mbox_write_loop mbox handle count

def fpga_hal_mbox_write (mbox : FpgaHalMbox) (handle : Int) (msg : List (BitVec 32)) (len : Nat) :
    Prog PciApi Int := do
  let ret ← fpga_hal_mbox_write_async handle msg len
  if ret ≠ 0 then
    return ret
  else
    fpga_hal_mbox_write_loop mbox handle mbox.timeout.toNat

end AwsFpga.Mbox
