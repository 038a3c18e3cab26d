import AwsFpga.Mgmt.Cmd

/-!
# What a verdict on a response depends on

The response buffer is reused. What a response does not reach still holds what an earlier
one left there.
-/

open Lib AwsFpga.Pci AwsFpga.Mbox

namespace AwsFpga.Mgmt

namespace AfiCmd

/-- Byte `i` of the buffer. The host is little endian. -/
def byte (cmd : AfiCmd) (i : Nat) (h : i < 4096 := by decide) : BitVec 8 :=
  (cmd ⟨i / 4, by omega⟩ >>> (8 * (i % 4))).setWidth 8

/-- Two buffers that cannot be told apart by the first `len` bytes. -/
def AgreeOn (len : Nat) (rsp rsp' : AfiCmd) : Prop :=
  ∀ i (h : i < 4096), i < len → rsp.byte i h = rsp'.byte i h

end AfiCmd

theorem dword_ext (x y : BitVec 32)
    (h : ∀ k < 4, (x >>> (8 * k)).setWidth 8 = (y >>> (8 * k)).setWidth 8) : x = y := by
  apply BitVec.eq_of_getLsbD_eq
  intro i hi
  have hbyte := congrArg (fun b => b.getLsbD (i % 8)) (h (i / 8) (by omega))
  simp only [BitVec.getLsbD_setWidth, BitVec.getLsbD_ushiftRight, Nat.div_add_mod] at hbyte
  simpa [Nat.mod_lt] using hbyte

theorem AfiCmd.AgreeOn.dword {len : Nat} {rsp rsp' : AfiCmd} (h : AfiCmd.AgreeOn len rsp rsp')
    (i : Fin 1024) (hi : 4 * i.val + 4 ≤ len) : rsp i = rsp' i := by
  apply dword_ext
  intro k hk
  have hbyte := h (4 * i.val + k) (by omega) (by omega)
  unfold AfiCmd.byte at hbyte
  have hdiv : (4 * i.val + k) / 4 = i.val := by omega
  have hmod : (4 * i.val + k) % 4 = k := by omega
  simpa only [hdiv, hmod] using hbyte

theorem AfiCmd.agreeOn_of_dwords (rsp rsp' : AfiCmd) (n : Nat)
    (h : ∀ i : Fin 1024, i.val < n → rsp i = rsp' i) : AfiCmd.AgreeOn (4 * n) rsp rsp' := by
  intro i hi hlen
  unfold AfiCmd.byte
  rw [h ⟨i / 4, by omega⟩ (by dsimp only; omega)]

theorem AfiCmd.agreeOn_store (rsp rsp' : AfiCmd) (words : List (BitVec 32)) :
    AfiCmd.AgreeOn (4 * words.length) (rsp.store words) (rsp'.store words) := by
  apply AfiCmd.agreeOn_of_dwords
  intro i hi
  simp [AfiCmd.store, List.getD_eq_getElem?_getD, hi]

/-! ## A length that covers the header -/

theorem fpga_mgmt_handle_afi_cmd_error_rsp_agree (rsp rsp' : AfiCmd) (len : Nat)
    (h : AfiCmd.AgreeOn len rsp rsp') :
    fpga_mgmt_handle_afi_cmd_error_rsp rsp len = fpga_mgmt_handle_afi_cmd_error_rsp rsp' len := by
  unfold fpga_mgmt_handle_afi_cmd_error_rsp
  by_cases hlen : len < sizeof_afi_cmd_hdr + 4
  · rw [if_pos hlen, if_pos hlen]
  · have hbody : rsp.body 0 = rsp'.body 0 := by
      unfold sizeof_afi_cmd_hdr at hlen
      exact h.dword 4 (by change 20 ≤ len; omega)
    rw [hbody]

theorem fpga_mgmt_afi_validate_header_agree (cmd rsp rsp' : AfiCmd) (len : Nat)
    (hlen : sizeof_afi_cmd_hdr ≤ len) (h : AfiCmd.AgreeOn len rsp rsp') :
    fpga_mgmt_afi_validate_header cmd rsp len = fpga_mgmt_afi_validate_header cmd rsp' len := by
  unfold sizeof_afi_cmd_hdr at hlen
  have hversion : rsp.version = rsp'.version := h.dword 0 (by change 4 ≤ len; omega)
  have hop : rsp.op = rsp'.op := h.dword 1 (by change 8 ≤ len; omega)
  have hflags : rsp.len_flags = rsp'.len_flags := h.dword 2 (by change 12 ≤ len; omega)
  have hid : rsp.id = rsp'.id := h.dword 3 (by change 16 ≤ len; omega)
  have herr := fpga_mgmt_handle_afi_cmd_error_rsp_agree rsp rsp' len h
  unfold fpga_mgmt_afi_validate_header afi_cmd_hdr_get_flags afi_cmd_hdr_get_len
  rw [hversion, hop, hflags, hid, herr]

/-! ## A length that ends inside the header -/

/-- A response whose header repeats the command, except for its id. -/
def echo (cmd : AfiCmd) (id : BitVec 32) : AfiCmd := Function.update cmd 3 id

theorem echo_own_malformed (cmd : AfiCmd) (len : Nat) (hlen : len < sizeof_afi_cmd_hdr) :
    fpga_mgmt_afi_validate_header cmd (echo cmd cmd.id) len = FPGA_ERR_AFI_CMD_MALFORMED := by
  have hecho : echo cmd cmd.id = cmd := Function.update_eq_self 3 cmd
  rw [hecho]
  unfold fpga_mgmt_afi_validate_header
  simp [hlen]

theorem echo_other_again (cmd : AfiCmd) (id : BitVec 32) (len : Nat) (hid : cmd.id ≠ id) :
    fpga_mgmt_afi_validate_header cmd (echo cmd id) len = -EAGAIN := by
  unfold fpga_mgmt_afi_validate_header
  have hversion : (echo cmd id).version = cmd.version := rfl
  have hop : (echo cmd id).op = cmd.op := rfl
  have hid' : (echo cmd id).id = id := rfl
  simp [hversion, hop, hid', hid]

/-- The last byte of an id is not received by a length below the header's. -/
theorem echo_agree (cmd : AfiCmd) (len : Nat) (hlen : len < sizeof_afi_cmd_hdr) :
    AfiCmd.AgreeOn len (echo cmd cmd.id) (echo cmd (cmd.id ^^^ BitVec.twoPow 32 31)) := by
  intro i hi hlt
  unfold sizeof_afi_cmd_hdr at hlen
  unfold AfiCmd.byte
  by_cases hword : i / 4 = 3
  · have hidx : (⟨i / 4, by omega⟩ : Fin 1024) = 3 := Fin.ext hword
    have hmod : i % 4 < 3 := by omega
    rw [hidx]
    unfold echo
    rw [Function.update_self, Function.update_self]
    apply BitVec.eq_of_getLsbD_eq
    intro j hj
    have hbit : 8 * (i % 4) + j ≠ 31 := by omega
    simp [BitVec.getLsbD_twoPow, Ne.symm hbit]
  · have hne : (⟨i / 4, by omega⟩ : Fin 1024) ≠ 3 := fun h => hword (congrArg Fin.val h)
    unfold echo
    rw [Function.update_of_ne hne, Function.update_of_ne hne]

theorem echo_other_id (cmd : AfiCmd) : cmd.id ≠ cmd.id ^^^ BitVec.twoPow 32 31 := by
  intro h
  have hbit := congrArg (fun b => b.getLsbD 31) h
  simp at hbit

/-- What lies beyond a response decides nothing, exactly when the response covers the header. -/
theorem validate_header_received_iff (cmd : AfiCmd) (len : Nat) :
    (∀ rsp rsp', AfiCmd.AgreeOn len rsp rsp' →
      fpga_mgmt_afi_validate_header cmd rsp len = fpga_mgmt_afi_validate_header cmd rsp' len) ↔
    sizeof_afi_cmd_hdr ≤ len := by
  constructor
  · intro hsame
    by_contra hlen
    have hshort := Nat.lt_of_not_le hlen
    have h := hsame _ _ (echo_agree cmd len hshort)
    rw [echo_own_malformed cmd len hshort, echo_other_again cmd _ len (echo_other_id cmd)] at h
    exact absurd h (by decide)
  · intro hlen rsp rsp' hagree
    exact fpga_mgmt_afi_validate_header_agree cmd rsp rsp' len hlen hagree

/-- The command has id 7. Only three dwords of a header arrive. -/
def cutShort (left : List (BitVec 32)) : AfiCmd :=
  (AfiCmd.zero.store left).store [AFI_CMD_API_VERSION, AFI_CMD_METRICS, 0x1000004]

/-- With the id of an earlier response in the buffer they are malformed, otherwise stale. -/
theorem cut_short_differs :
    ¬ ∀ cmd len rsp rsp', AfiCmd.AgreeOn len rsp rsp' →
      fpga_mgmt_afi_validate_header cmd rsp len = fpga_mgmt_afi_validate_header cmd rsp' len := by
  intro h
  have hagree : AfiCmd.AgreeOn 12 (cutShort [0, 0, 0, 7]) (cutShort []) :=
    AfiCmd.agreeOn_store (AfiCmd.zero.store [0, 0, 0, 7]) (AfiCmd.zero.store [])
      [AFI_CMD_API_VERSION, AFI_CMD_METRICS, 0x1000004]
  have heq := h (afi_cmd_hdr .zero AFI_CMD_METRICS 7 4) 12 _ _ hagree
  exact absurd heq (by decide)

end AwsFpga.Mgmt
