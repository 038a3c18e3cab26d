import AwsFpga.Xvc.Session

/-!
# Shift transactions

What the device sees of a shift is read off the accesses: a write of the control
register starts a transaction with what the other registers hold. The reply to a
shift is as long as its vectors, whether all of its transactions went through or not.
-/

open Lib AwsFpga.Pci

namespace AwsFpga.Xvc

/-! ## The device's side -/

/-- The registers that a transaction works with. -/
structure Word where
  length : BitVec 32
  tms : BitVec 32
  tdi : BitVec 32

/-- The registers as the accesses leave them, and the transactions: how they were started, and the
length and the TDO bits of those that were read back. -/
structure Jtag where
  regs : Word
  busy : Bool
  /-- Reads of the control register that found the transaction busy. -/
  polls : Nat
  /-- An access failed, or a transaction timed out. -/
  failed : Bool
  issued : List Word
  captured : List (BitVec 32 × BitVec 32)

def Jtag.poke (j : Jtag) (offset : BitVec 64) (value : BitVec 32) : Jtag :=
  if offset = LENGTH_REG_OFFSET then { j with regs := { j.regs with length := value } }
  else if offset = TMS_REG_OFFSET then { j with regs := { j.regs with tms := value } }
  else if offset = TDI_REG_OFFSET then { j with regs := { j.regs with tdi := value } }
  else if offset = CONTROL_REG_OFFSET ∧ value &&& 1 ≠ 0 then
    { j with busy := true, polls := 0, issued := j.issued ++ [j.regs] }
  else j

def Jtag.peek (j : Jtag) (offset : BitVec 64) (value : BitVec 32) : Jtag :=
  if offset = CONTROL_REG_OFFSET then
    if value &&& 1 = 0 then { j with busy := false }
    else { j with polls := j.polls + 1, failed := j.failed || decide (100 ≤ j.polls + 1) }
  else if offset = TDO_REG_OFFSET ∧ j.busy = false then
    { j with captured := j.captured ++ [(j.regs.length, value)] }
  else j

/-- An access that worked is one of the registers. One that failed left them alone. -/
def Jtag.step (j : Jtag) (e : PciApi.Event) : Jtag :=
  if pciCode e.1 e.2 = 0 then
    match e with
    | ⟨.poke _ offset value, _⟩ => j.poke offset value
    | ⟨.peek _ offset, r⟩ => j.peek offset (r : Int × BitVec 32).2
    | _ => j
  else
    { j with failed := true }

def Jtag.after (j : Jtag) (t : List PciApi.Event) : Jtag := t.foldl Jtag.step j

/-- The accesses `t`, made one after another when the registers hold `regs`. -/
def observe (regs : Word) (t : List PciApi.Event) : Jtag :=
  Jtag.after ⟨regs, false, 0, false, [], []⟩ t

/-! ## Bits -/

def bitOf (buf : List Byte) (i : Nat) : Bool := (buf.getD (i / 8) 0).getLsbD (i % 8)

/-- The first `n` bits of the two vectors. -/
def vector_bits (tms_buf tdi_buf : List Byte) (n : Nat) : List (Bool × Bool) :=
  (List.range n).map fun i => (bitOf tms_buf i, bitOf tdi_buf i)

/-- The bits that a transaction shifts. -/
def Word.bits (w : Word) : List (Bool × Bool) :=
  (List.range w.length.toNat).map fun i => (w.tms.getLsbD i, w.tdi.getLsbD i)

/-- The bytes of the TDO bits that a transaction captured. -/
def tdo_bytes (c : BitVec 32 × BitVec 32) : List Byte := word_bytes c.2 ((c.1.toNat + 7) / 8)

/-- The transactions shift the first `n` bits of the vectors, at most 32 at a time. -/
structure InOrder (tms_buf tdi_buf : List Byte) (n : Nat) (issued : List Word) : Prop where
  lengths : ∀ w ∈ issued, 1 ≤ w.length.toNat ∧ w.length.toNat ≤ 32
  bits : issued.flatMap Word.bits = vector_bits tms_buf tdi_buf n

theorem memcpy_word_bit (word : BitVec 32) (src : List Byte) {k : Nat} (hk : k < 32)
    (hlen : k / 8 < src.length) :
    (memcpy_word word src).getLsbD k = (src.getD (k / 8) 0).getLsbD (k % 8) := by
  have hd : ∀ d : Byte, src.getD (k / 8) d = src.getD (k / 8) 0 := by
    intro d
    simp only [List.getD_eq_getElem?_getD, List.getElem?_eq_getElem hlen, Option.getD_some]
  have hcases : k / 8 = 0 ∨ k / 8 = 1 ∨ k / 8 = 2 ∨ k / 8 = 3 := by omega
  unfold memcpy_word
  simp only [BitVec.getLsbD_setWidth, BitVec.getLsbD_append]
  rcases hcases with h | h | h | h <;> rw [h] at hd ⊢ <;> simp only [hd]
  · simp [hk, show k < 8 by omega, show k < 16 by omega, show k % 8 = k by omega]
  · simp [hk, show ¬ k < 8 by omega, show k < 16 by omega, show k % 8 = k - 8 by omega]
  · simp [hk, show ¬ k < 16 by omega, show k - 16 < 8 by omega, show k % 8 = k - 16 by omega]
  · simp [hk, show ¬ k < 16 by omega, show ¬ k - 16 < 8 by omega,
      show k % 8 = k - 16 - 8 by omega]

/-! ## One transaction -/

section Transaction

variable {handle : Int} {t : List PciApi.Event} (j : Jtag)

@[simp] theorem after_nil : j.after [] = j := rfl

@[simp] theorem after_cons (e : PciApi.Event) (t : List PciApi.Event) :
    j.after (e :: t) = (j.step e).after t := rfl

theorem after_append (t₁ t₂ : List PciApi.Event) : j.after (t₁ ++ t₂) = (j.after t₁).after t₂ :=
  List.foldl_append

theorem step_poke {offset : BitVec 64} {value : BitVec 32} {ret : Int} :
    j.step ⟨.poke handle offset value, ret⟩ =
      if ret = 0 then j.poke offset value else { j with failed := true } := rfl

theorem step_peek {offset : BitVec 64} {value : BitVec 32} {ret : Int} :
    j.step ⟨.peek handle offset, (ret, value)⟩ =
      if ret = 0 then j.peek offset value else { j with failed := true } := rfl

theorem poke_length (value : BitVec 32) :
    j.poke LENGTH_REG_OFFSET value = { j with regs := { j.regs with length := value } } := rfl

/-- A transaction of `w` was started. -/
def Jtag.started (j : Jtag) (w : Word) : Jtag :=
  { j with regs := w, busy := true, polls := 0, issued := j.issued ++ [w] }

theorem poke_started (tms tdi : BitVec 32) :
    ((j.poke TMS_REG_OFFSET tms).poke TDI_REG_OFFSET tdi).poke CONTROL_REG_OFFSET 1 =
      j.started ⟨j.regs.length, tms, tdi⟩ := rfl

/-- What waiting for a transaction comes to. -/
structure Waited (j j' : Jtag) (status : Int) : Prop where
  regs : j'.regs = j.regs
  issued : j'.issued = j.issued
  captured : j'.captured = j.captured
  done : status = 0 → j'.busy = false ∧ j'.failed = j.failed
  gave_up : status ≠ 0 → j'.failed = true

theorem step_busy {value : BitVec 32} (h : value &&& 1 ≠ 0) :
    j.step ⟨.peek handle CONTROL_REG_OFFSET, ((0 : Int), value)⟩ =
      { j with polls := j.polls + 1, failed := j.failed || decide (100 ≤ j.polls + 1) } := by
  rw [step_peek, if_pos rfl, Jtag.peek, if_pos rfl, if_neg h]

theorem step_failed {e : PciApi.Event} (h : pciCode e.1 e.2 ≠ 0) :
    j.step e = { j with failed := true } := if_neg h

theorem wait_round {count : Nat} {status : Int} (hpolls : j.polls + (count + 1) = 100)
    (h : (wait_shift handle (count + 1)).Runs t status) :
    Waited j (j.after t) status ∨ ∃ value t',
      t = ⟨.peek handle CONTROL_REG_OFFSET, ((0 : Int), value)⟩ :: t' ∧ value &&& 1 ≠ 0 ∧
        count ≠ 0 ∧ (wait_shift handle count).Runs t' status := by
  unfold wait_shift at h
  obtain ⟨ret, value, t', rfl, hk⟩ := (runs_peek _ _ _ _ _).mp h
  dsimp only at hk
  by_cases hret : ret = 0
  · subst hret
    rw [if_neg (by decide)] at hk
    by_cases hclear : value &&& 1 = 0
    · rw [if_pos hclear] at hk
      obtain ⟨rfl, rfl⟩ := (Prog.runs_pure _ _ _).mp hk
      left
      rw [after_cons, step_peek, if_pos rfl, Jtag.peek, if_pos rfl, if_pos hclear]
      exact ⟨rfl, rfl, rfl, fun _ => ⟨rfl, rfl⟩, fun hne => absurd rfl hne⟩
    · rw [if_neg hclear] at hk
      by_cases hcount : count = 0
      · rw [if_pos hcount] at hk
        obtain ⟨rfl, rfl⟩ := (Prog.runs_pure _ _ _).mp hk
        left
        rw [after_cons, step_busy _ hclear]
        refine ⟨rfl, rfl, rfl, fun h0 => absurd h0 (by decide), fun _ => ?_⟩
        have htimeout : 100 ≤ j.polls + 1 := by omega
        simp [htimeout]
      · rw [if_neg hcount] at hk
        exact .inr ⟨value, t', rfl, hclear, hcount, hk⟩
  · rw [if_pos hret] at hk
    obtain ⟨rfl, rfl⟩ := (Prog.runs_pure _ _ _).mp hk
    left
    rw [after_cons, step_failed _ (by exact hret)]
    exact ⟨rfl, rfl, rfl, fun h0 => absurd h0 hret, fun _ => rfl⟩

theorem wait_shift_spec {count : Nat} {status : Int} (hpolls : j.polls + (count + 1) = 100)
    (h : (wait_shift handle (count + 1)).Runs t status) : Waited j (j.after t) status := by
  induction count generalizing j t with
  | zero =>
    rcases wait_round j hpolls h with hend | ⟨_, _, -, -, hne, -⟩
    · exact hend
    · exact absurd rfl hne
  | succ count ih =>
    rcases wait_round j hpolls h with hend | ⟨value, t', rfl, hbusy, -, hrest⟩
    · exact hend
    · rw [after_cons, step_busy j hbusy]
      have hnext := ih { j with
        polls := j.polls + 1
        failed := j.failed || decide (100 ≤ j.polls + 1) } (by change j.polls + 1 + _ = _; omega) hrest
      refine ⟨hnext.regs, hnext.issued, hnext.captured, fun h0 => ?_, hnext.gave_up⟩
      obtain ⟨hdone, hfailed⟩ := hnext.done h0
      refine ⟨hdone, hfailed.trans ?_⟩
      have hlt : ¬ 100 ≤ j.polls + 1 := by omega
      simp [hlt]

/-- How `xvc_shift_bits` went: the transaction was read back, or it stopped. -/
inductive Shifted (j : Jtag) (w : Word) : Jtag → Int → BitVec 32 → Prop where
  | done {j' tdo} (hregs : j'.regs = w) (hissued : j'.issued = j.issued ++ [w])
    (hcaptured : j'.captured = j.captured ++ [(w.length, tdo)]) (hfailed : j'.failed = j.failed) :
    Shifted j w j' 0 tdo
  | stopped {j' status tdo} (hstatus : status ≠ 0)
    (hissued : j'.issued = j.issued ∨ j'.issued = j.issued ++ [w])
    (hcaptured : j'.captured = j.captured) (hfailed : j'.failed = true) :
    Shifted j w j' status tdo

theorem poke_or_stop {α : Type} {offset : BitVec 64} {value : BitVec 32} {stop : Int → α}
    {rest : Prog PciApi α} {a : α}
    (h : (do
      let status ← fpga_pci_poke handle offset value
      if status ≠ 0 then return stop status else rest).Runs t a) :
    (∃ status : Int, status ≠ 0 ∧ t = [(⟨.poke handle offset value, status⟩ : PciApi.Event)] ∧
        a = stop status) ∨
      ∃ t', t = (⟨.poke handle offset value, (0 : Int)⟩ : PciApi.Event) :: t' ∧
        rest.Runs t' a := by
  obtain ⟨(ret : Int), t', rfl, hk⟩ := (runs_poke _ _ _ _ _ _).mp h
  by_cases hret : ret = 0
  · subst hret
    rw [if_neg (by decide)] at hk
    exact .inr ⟨t', rfl, hk⟩
  · rw [if_pos hret] at hk
    obtain ⟨rfl, rfl⟩ := (Prog.runs_pure _ _ _).mp hk
    exact .inl ⟨ret, hret, rfl, rfl⟩

theorem xvc_shift_bits_spec {tms_bits tdi_bits tdo : BitVec 32} {status : Int}
    (h : (xvc_shift_bits handle tms_bits tdi_bits).Runs t (status, tdo)) :
    Shifted j ⟨j.regs.length, tms_bits, tdi_bits⟩ (j.after t) status tdo := by
  unfold xvc_shift_bits at h
  obtain ⟨ret, hret, rfl, hr⟩ | ⟨t₁, rfl, h₁⟩ := poke_or_stop h
  · cases hr
    rw [after_cons, step_failed _ (by exact hret)]
    exact .stopped hret (.inl rfl) rfl rfl
  rw [after_cons, step_poke, if_pos rfl]
  obtain ⟨ret, hret, rfl, hr⟩ | ⟨t₂, rfl, h₂⟩ := poke_or_stop h₁
  · cases hr
    rw [after_cons, step_failed _ (by exact hret)]
    exact .stopped hret (.inl rfl) rfl rfl
  rw [after_cons, step_poke, if_pos rfl]
  obtain ⟨ret, hret, rfl, hr⟩ | ⟨t₃, rfl, h₃⟩ := poke_or_stop h₂
  · cases hr
    rw [after_cons, step_failed _ (by exact hret)]
    exact .stopped hret (.inl rfl) rfl rfl
  rw [after_cons, step_poke, if_pos rfl, poke_started]
  obtain ⟨t₄, wstatus, t₅, rfl, hwait, h₄⟩ := (Prog.runs_bind _ _ _ _).mp h₃
  rw [after_append]
  have hwaited := wait_shift_spec (j.started ⟨j.regs.length, tms_bits, tdi_bits⟩) rfl hwait
  by_cases hdone : wstatus = 0
  · subst hdone
    rw [if_neg (by decide)] at h₄
    obtain rfl := (Prog.runs_op (I := PciApi) (.peek handle TDO_REG_OFFSET) _ (status, tdo)).mp h₄
    obtain ⟨hbusy, hfailed⟩ := hwaited.done rfl
    rw [after_cons, step_peek, after_nil]
    by_cases hstatus : status = 0
    · subst hstatus
      rw [if_pos rfl, Jtag.peek, if_neg (by decide), if_pos ⟨rfl, hbusy⟩]
      refine .done hwaited.regs hwaited.issued ?_ hfailed
      change (Jtag.after _ t₄).captured ++ _ = _
      rw [hwaited.captured, hwaited.regs]
      rfl
    · rw [if_neg hstatus]
      exact .stopped hstatus (.inr hwaited.issued) hwaited.captured rfl
  · rw [if_pos hdone] at h₄
    obtain ⟨rfl, hr⟩ := (Prog.runs_pure _ _ _).mp h₄
    cases hr
    exact .stopped hdone (.inr hwaited.issued) hwaited.captured (hwaited.gave_up hdone)

end Transaction

/-! ## All transactions of a shift -/

section Shift

variable {handle : Int} {num_bits left current_bit : Nat} {tms_buf tdi_buf : List Byte}
  {tms_store tdi_store : BitVec 32} {t : List PciApi.Event} {j : Jtag}

theorem vector_bits_add (m n : Nat) : vector_bits tms_buf tdi_buf (m + n) =
    vector_bits tms_buf tdi_buf m ++
      (List.range n).map fun k => (bitOf tms_buf (m + k), bitOf tdi_buf (m + k)) := by
  unfold vector_bits
  rw [List.range_add, List.map_append, List.map_map]
  rfl

theorem memcpy_word_at {buf src : List Byte} {word : BitVec 32} {n k : Nat}
    (haligned : current_bit % 32 = 0) (hn : n ≤ 32) (hk : k < n)
    (hsrc : bytes_at buf (current_bit / 8) ((n + 7) / 8) = some src) :
    (memcpy_word word src).getLsbD k = bitOf buf (current_bit + k) := by
  have hle := bytes_at_eq_some hsrc
  rw [bytes_at_of_le hle] at hsrc
  obtain rfl := Option.some.inj hsrc
  have hlen : k / 8 < ((buf.drop (current_bit / 8)).take ((n + 7) / 8)).length := by
    rw [List.length_take, List.length_drop]
    omega
  have hindex : (current_bit + k) / 8 = current_bit / 8 + k / 8 := by omega
  have hbit : (current_bit + k) % 8 = k % 8 := by omega
  rw [memcpy_word_bit _ _ (by omega) hlen, bitOf, hindex, hbit, List.getD_eq_getElem?_getD,
    List.getD_eq_getElem?_getD, List.getElem?_take_of_lt (by omega), List.getElem?_drop]

theorem inOrder_snoc {issued : List Word} {w : Word} {n : Nat}
    (h : InOrder tms_buf tdi_buf current_bit issued) (hlength : w.length.toNat = n)
    (hpos : 1 ≤ n) (hn : n ≤ 32)
    (htms : ∀ k < n, w.tms.getLsbD k = bitOf tms_buf (current_bit + k))
    (htdi : ∀ k < n, w.tdi.getLsbD k = bitOf tdi_buf (current_bit + k)) :
    InOrder tms_buf tdi_buf (current_bit + n) (issued ++ [w]) := by
  constructor
  · intro v hv
    rcases List.mem_append.mp hv with hv | hv
    · exact h.lengths v hv
    · obtain rfl := List.mem_singleton.mp hv
      omega
  · rw [List.flatMap_append, h.bits, vector_bits_add, List.flatMap_cons, List.flatMap_nil,
      List.append_nil, Word.bits, hlength]
    congr 1
    apply List.map_congr_left
    intro k hk
    have hk := List.mem_range.mp hk
    rw [htms k hk, htdi k hk]

/-- How a shift ends that is at `current_bit` and has `captured` some words: the bytes stored from
there on are those captured, and all of them unless something failed. -/
structure Rest (tms_buf tdi_buf : List Byte) (num_bits current_bit : Nat)
    (captured : List (BitVec 32 × BitVec 32)) (j : Jtag) (out : List Byte) : Prop where
  order : ∃ n ≤ num_bits, InOrder tms_buf tdi_buf n j.issued
  stored : j.captured.flatMap tdo_bytes = captured.flatMap tdo_bytes ++ out
  done : j.failed = false → InOrder tms_buf tdi_buf num_bits j.issued ∧
    out.length = (num_bits - current_bit + 7) / 8
  stopped : j.failed = true → out.length < (num_bits - current_bit + 7) / 8

theorem rest_stopped {captured : List (BitVec 32 × BitVec 32)} (hlt : current_bit < num_bits)
    (hfailed : j.failed = true) (horder : ∃ n ≤ num_bits, InOrder tms_buf tdi_buf n j.issued)
    (hcaptured : j.captured = captured) :
    Rest tms_buf tdi_buf num_bits current_bit captured j [] := by
  refine ⟨horder, ?_, fun h0 => ?_, fun _ => ?_⟩
  · rw [hcaptured, List.append_nil]
  · rw [hfailed] at h0
    cases h0
  · rw [List.length_nil]
    omega

theorem rest_end (hfailed : j.failed = false) (horder : InOrder tms_buf tdi_buf num_bits j.issued) :
    Rest tms_buf tdi_buf num_bits num_bits j.captured j [] := by
  refine ⟨⟨num_bits, Nat.le_refl _, horder⟩, (List.append_nil _).symm, fun _ => ⟨horder, ?_⟩,
    fun h1 => ?_⟩
  · simp
  · rw [hfailed] at h1
    cases h1

theorem Rest.word {captured : List (BitVec 32 × BitVec 32)} {length tdo : BitVec 32} {n : Nat}
    {out : List Byte} (hlen : length.toNat = n)
    (hsum : (n + 7) / 8 + (num_bits - (current_bit + n) + 7) / 8 = (num_bits - current_bit + 7) / 8)
    (h : Rest tms_buf tdi_buf num_bits (current_bit + n) (captured ++ [(length, tdo)]) j out) :
    Rest tms_buf tdi_buf num_bits current_bit captured j (word_bytes tdo ((n + 7) / 8) ++ out) := by
  refine ⟨h.order, ?_, fun h0 => ?_, fun h1 => ?_⟩
  · rw [h.stored, List.flatMap_append, List.flatMap_cons, List.flatMap_nil, List.append_nil,
      List.append_assoc, tdo_bytes, hlen]
  · obtain ⟨hall, hout⟩ := h.done h0
    refine ⟨hall, ?_⟩
    rw [List.length_append, word_bytes_length, hout, hsum]
  · have hout := h.stopped h1
    rw [List.length_append, word_bytes_length]
    omega

theorem set_length_spec {status : Int} (hlength : 32 ≤ num_bits - current_bit → j.regs.length = 32)
    (h : (if num_bits - current_bit < 32 then
      fpga_pci_poke handle LENGTH_REG_OFFSET (BitVec.ofNat 32 (min 32 (num_bits - current_bit)))
      else pure 0).Runs t status) :
    status ≠ 0 ∧ j.after t = { j with failed := true } ∨ status = 0 ∧ j.after t =
      { j with regs :=
        { j.regs with length := BitVec.ofNat 32 (min 32 (num_bits - current_bit)) } } := by
  split at h
  case isTrue hlt =>
    obtain rfl := (Prog.runs_op (I := PciApi) (.poke handle LENGTH_REG_OFFSET _) _ status).mp h
    rw [after_cons, after_nil, step_poke]
    by_cases hstatus : status = 0
    · rw [if_pos hstatus]
      exact .inr ⟨hstatus, rfl⟩
    · rw [if_neg hstatus]
      exact .inl ⟨hstatus, rfl⟩
  case isFalse hge =>
    obtain ⟨rfl, rfl⟩ := (Prog.runs_pure _ _ _).mp h
    have hmin : min 32 (num_bits - current_bit) = 32 := by omega
    refine .inr ⟨rfl, ?_⟩
    rw [after_nil, hmin]
    change j = { j with regs := { j.regs with length := 32 } }
    rw [← hlength (by omega)]

theorem shift_words_spec {r : Except Fault (List Byte)} (hbit : num_bits < 2 ^ 32)
    (htms : (num_bits + 7) / 8 ≤ tms_buf.length) (htdi : (num_bits + 7) / 8 ≤ tdi_buf.length)
    (hat : AtWord num_bits left current_bit) (hle : current_bit ≤ num_bits)
    (horder : InOrder tms_buf tdi_buf current_bit j.issued)
    (hlength : 32 ≤ num_bits - current_bit → j.regs.length = 32) (hfailed : j.failed = false)
    (h : (shift_words handle num_bits tms_buf tdi_buf left current_bit tms_store tdi_store).Runs
      t r) :
    ∃ out, r = .ok out ∧ Rest tms_buf tdi_buf num_bits current_bit j.captured (j.after t) out := by
  induction left generalizing current_bit tms_store tdi_store t r j with
  | zero =>
    obtain ⟨rfl, rfl⟩ := (Prog.runs_pure _ _ _).mp h
    have hend := hat.left_eq
    obtain rfl : current_bit = num_bits := by omega
    exact ⟨[], rfl, rest_end hfailed horder⟩
  | succ left ih =>
    obtain ⟨hnext, hlt, hbound, hsum⟩ := atWord_succ hat
    have haligned : current_bit % 32 = 0 := hat.aligned.resolve_left (by omega)
    unfold shift_words at h
    obtain ⟨t₁, status, t₂, rfl, hset, hk⟩ := (Prog.runs_bind _ _ _ _).mp h
    rw [after_append]
    rcases set_length_spec hlength hset with ⟨hstatus, hj⟩ | ⟨rfl, hj⟩
    · rw [if_pos hstatus] at hk
      obtain ⟨rfl, rfl⟩ := (Prog.runs_pure _ _ _).mp hk
      rw [hj]
      exact ⟨[], rfl, rest_stopped hlt rfl ⟨current_bit, hle, horder⟩ rfl⟩
    rw [if_neg (by decide)] at hk
    rw [hj]
    generalize hn : min 32 (num_bits - current_bit) = n at hk hnext hbound hsum ⊢
    dsimp only at hk
    obtain ⟨tms, htms_src⟩ : ∃ src, bytes_at tms_buf (current_bit / 8) ((n + 7) / 8) = some src :=
      ⟨_, bytes_at_of_le (hbound.trans htms)⟩
    obtain ⟨tdi, htdi_src⟩ : ∃ src, bytes_at tdi_buf (current_bit / 8) ((n + 7) / 8) = some src :=
      ⟨_, bytes_at_of_le (hbound.trans htdi)⟩
    rw [htms_src, htdi_src] at hk
    obtain ⟨t₃, ⟨status, tdo⟩, t₄, rfl, hshift, hk₂⟩ := (Prog.runs_bind _ _ _ _).mp hk
    rw [after_append]
    have hlen : (BitVec.ofNat 32 n).toNat = n := by
      rw [BitVec.toNat_ofNat]
      omega
    have hmore := inOrder_snoc (w := ⟨BitVec.ofNat 32 n, memcpy_word tms_store tms,
      memcpy_word tdi_store tdi⟩) horder hlen (by omega) (by omega)
      (fun k hk => memcpy_word_at haligned (by omega) hk htms_src)
      (fun k hk => memcpy_word_at haligned (by omega) hk htdi_src)
    have hspec := xvc_shift_bits_spec
      { j with regs := { j.regs with length := BitVec.ofNat 32 n } } hshift
    generalize Jtag.after { j with regs := { j.regs with length := BitVec.ofNat 32 n } } t₃ = j₃
      at hspec ⊢
    cases hspec with
    | stopped hstatus hissued hcaptured hfailed₃ =>
      rw [if_pos hstatus] at hk₂
      obtain ⟨rfl, rfl⟩ := (Prog.runs_pure _ _ _).mp hk₂
      refine ⟨[], rfl, rest_stopped hlt hfailed₃ ?_ hcaptured⟩
      rcases hissued with hissued | hissued
      · rw [after_nil, hissued]
        exact ⟨current_bit, hle, horder⟩
      · rw [after_nil, hissued]
        exact ⟨current_bit + n, by omega, hmore⟩
    | done hregs hissued hcaptured hfailed₃ =>
      rw [if_neg (not_not.mpr rfl)] at hk₂
      obtain ⟨t₅, r₅, t₆, rfl, hrest, hk₃⟩ := (Prog.runs_bind _ _ _ _).mp hk₂
      obtain ⟨rfl, rfl⟩ := (Prog.runs_pure _ _ _).mp hk₃
      obtain ⟨out, rfl, hout⟩ := ih hnext (by omega) (hissued ▸ hmore)
        (fun hfull => by
          have hn32 : n = 32 := by omega
          rw [hregs, hn32]
          rfl)
        (hfailed₃.trans hfailed) hrest
      rw [List.append_nil]
      rw [hcaptured] at hout
      exact ⟨_, rfl, hout.word hlen hsum⟩

/-- A shift from the start: the length register is set to 32 first when it takes a full word. -/
theorem shift_tms_tdi_spec {bits : BitVec 32} {r : Except Fault (List Byte)} (regs : Word)
    (htms : (bits.toNat + 7) / 8 ≤ tms_buf.length) (htdi : (bits.toNat + 7) / 8 ≤ tdi_buf.length)
    (h : (shift_tms_tdi handle bits tms_buf tdi_buf).Runs t r) :
    ∃ out, r = .ok out ∧
      Rest tms_buf tdi_buf bits.toNat 0 [] (observe regs t) out := by
  have hstart : ∀ regs, InOrder tms_buf tdi_buf 0 (observe regs []).issued :=
    fun _ => ⟨fun w hw => absurd hw List.not_mem_nil, rfl⟩
  have hat : AtWord bits.toNat ((bits.toNat + 31) / 32) 0 := ⟨rfl, .inr rfl⟩
  unfold shift_tms_tdi at h
  obtain ⟨t₁, status, t₂, rfl, hset, hk⟩ := (Prog.runs_bind _ _ _ _).mp h
  change ∃ out, r = .ok out ∧
    Rest tms_buf tdi_buf bits.toNat 0 [] (Jtag.after _ (t₁ ++ t₂)) out
  rw [after_append]
  split at hset
  case isTrue hge =>
    obtain rfl := (Prog.runs_op (I := PciApi) (.poke handle LENGTH_REG_OFFSET _) _ status).mp hset
    rw [after_cons, after_nil, step_poke]
    by_cases hstatus : status = 0
    · rw [if_neg (not_not.mpr hstatus)] at hk
      rw [if_pos hstatus, poke_length]
      exact shift_words_spec bits.isLt htms htdi hat (Nat.zero_le _)
        (hstart ⟨0x20, regs.tms, regs.tdi⟩) (fun _ => rfl) rfl hk
    · rw [if_pos hstatus] at hk
      obtain ⟨rfl, rfl⟩ := (Prog.runs_pure _ _ _).mp hk
      rw [if_neg hstatus]
      exact ⟨[], rfl, rest_stopped (by omega) rfl ⟨0, Nat.zero_le _, hstart regs⟩ rfl⟩
  case isFalse hlt =>
    obtain ⟨rfl, rfl⟩ := (Prog.runs_pure _ _ _).mp hset
    rw [if_neg (by decide)] at hk
    exact shift_words_spec bits.isLt htms htdi hat (Nat.zero_le _) (hstart regs)
      (fun hfull => absurd hfull (by omega)) rfl hk

end Shift

/-! ## The reply -/

section Reply

variable {handle : Int} {bits : BitVec 32} {t : List PciApi.Event} {fuel : Nat} {s s' : Filled}

theorem store_reply_spec {reply reply' : Reply} {reply_len : Nat} {bytes : List Byte}
    (h : store_reply reply reply_len bytes = .ok reply') (i : Nat) :
    reply' i = if reply_len ≤ i then bytes.getD (i - reply_len) (reply i) else reply i := by
  unfold store_reply at h
  split at h
  · obtain rfl := Except.ok.inj h
    rfl
  · cases h

theorem read_packet_pass_keeps (h : (read_packet_pass handle fuel s).Runs t (.filled s')) :
    s.reply_len ≤ s'.reply_len ∧ ∀ i < s.reply_len, s'.reply i = s.reply i := by
  induction fuel generalizing s t with
  | zero =>
    obtain ⟨-, hs⟩ := (Prog.runs_pure _ _ _).mp h
    obtain rfl := PassEnd.filled.inj hs
    exact ⟨Nat.le_refl _, fun _ _ => rfl⟩
  | succ fuel ih =>
    unfold read_packet_pass at h
    split at h
    · obtain ⟨-, hs⟩ := (Prog.runs_pure _ _ _).mp h
      obtain rfl := PassEnd.filled.inj hs
      exact ⟨Nat.le_refl _, fun _ _ => rfl⟩
    · obtain ⟨-, hs⟩ := (Prog.runs_pure _ _ _).mp h
      cases hs
    · obtain ⟨-, hs⟩ := (Prog.runs_pure _ _ _).mp h
      cases hs
    · obtain ⟨t₁, r, t₂, rfl, -, hk⟩ := (Prog.runs_bind _ _ _ _).mp h
      split at hk
      · obtain ⟨-, hs⟩ := (Prog.runs_pure _ _ _).mp hk
        cases hs
      · split at hk
        · obtain ⟨-, hs⟩ := (Prog.runs_pure _ _ _).mp hk
          cases hs
        case h_2 reply hstore =>
          obtain ⟨hlen, hkeeps⟩ := ih hk
          refine ⟨(Nat.le_add_right _ _).trans hlen, fun i hi => ?_⟩
          rw [hkeeps i (Nat.lt_add_right _ hi)]
          exact (store_reply_spec hstore i).trans (if_neg (Nat.not_le.mpr hi))

end Reply

/-- What a pass sends, as `read_packet_send` takes it out of the reply buffer. -/
def Filled.sent (s : Filled) : List Byte := (List.range s.reply_len).map s.reply

/-- The part of it for the command served when `s` was reached. -/
def sent_for (s s' : Filled) (c : Command) : List Byte := (s'.sent.drop s.reply_len).take c.reply_size

/-- The shift was done as asked, and what is sent for it is what its transactions captured. -/
structure Answered (tms_buf tdi_buf : List Byte) (bits : BitVec 32) (j : Jtag) (sent : List Byte) :
    Prop where
  order : InOrder tms_buf tdi_buf bits.toNat j.issued
  tdo : sent = j.captured.flatMap tdo_bytes

section Sent

variable {handle : Int} {bits : BitVec 32} {t : List PciApi.Event} {fuel : Nat} {s s' : Filled}

theorem sent_slice {n m : Nat} (reply : Reply) {len : Nat} (h : n + m ≤ len) :
    (((List.range len).map reply).drop n).take m = (List.range m).map fun i => reply (n + i) := by
  apply List.ext_getElem
  · simp only [List.length_take, List.length_drop, List.length_map, List.length_range]
    omega
  · intro i h₁ h₂
    simp

theorem shift_pass_spec (regs : Word) (hnext : next_command s.cbuf = .command (.shift bits))
    (hsound : (Command.shift bits).Sound)
    (h : (read_packet_pass handle (fuel + 1) s).Runs t (.filled s')) :
    ∃ t₁ t₂ out, t = t₁ ++ t₂ ∧ (command_reply handle s.cbuf (.shift bits)).Runs t₁ (.ok out) ∧
      Rest (s.cbuf.drop 10) (s.cbuf.drop (10 + byte_count bits)) bits.toNat 0 [] (observe regs t₁)
        out ∧
      (sent_for s s' (.shift bits)).length = byte_count bits ∧
      (out.length = byte_count bits → sent_for s s' (.shift bits) = out) := by
  have hcount : byte_count bits = (bits.toNat + 7) / 8 := byte_count_of_sound hsound
  have hsize : 10 + byte_count bits * 2 ≤ s.cbuf.length := next_command_size hnext
  unfold read_packet_pass at h
  rw [hnext] at h
  obtain ⟨t₁, r, t₂, rfl, hreply, hk⟩ := (Prog.runs_bind _ _ _ _).mp h
  obtain ⟨out, rfl, hrest⟩ := shift_tms_tdi_spec regs (by rw [List.length_drop]; omega)
    (by rw [List.length_drop]; omega) hreply
  dsimp only at hk
  split at hk
  · obtain ⟨-, hs⟩ := (Prog.runs_pure _ _ _).mp hk
    cases hs
  case h_2 reply hstore =>
    obtain ⟨hlen, hkeeps⟩ := read_packet_pass_keeps hk
    have hsent : sent_for s s' (.shift bits) =
        (List.range (byte_count bits)).map fun i => s'.reply (s.reply_len + i) :=
      sent_slice s'.reply hlen
    refine ⟨t₁, t₂, out, rfl, hreply, hrest, ?_, fun hout => ?_⟩
    · rw [hsent, List.length_map, List.length_range]
    · rw [hsent]
      apply List.ext_getElem
      · rw [List.length_map, List.length_range, hout]
      · intro i h₁ h₂
        rw [List.length_map, List.length_range] at h₁
        rw [List.getElem_map, List.getElem_range, hkeeps _ (Nat.add_lt_add_left h₁ _)]
        refine (store_reply_spec hstore _).trans ?_
        rw [if_pos (Nat.le_add_right _ _), Nat.add_sub_cancel_left, List.getD_eq_getElem?_getD,
          List.getElem?_eq_getElem h₂, Option.getD_some]

theorem answered_iff {tms_buf tdi_buf out sent : List Byte} {j : Jtag}
    (hsound : (Command.shift bits).Sound)
    (hrest : Rest tms_buf tdi_buf bits.toNat 0 [] j out) (hlen : sent.length = byte_count bits)
    (hsent : out.length = byte_count bits → sent = out) :
    Answered tms_buf tdi_buf bits j sent ↔ j.failed = false := by
  have hcount : byte_count bits = (bits.toNat + 7) / 8 := byte_count_of_sound hsound
  have hstored : j.captured.flatMap tdo_bytes = out := hrest.stored
  constructor
  · intro h
    by_contra hfailed
    -- A byte is sent that no transaction captured.
    have hshort := hrest.stopped (Bool.eq_true_of_not_eq_false hfailed)
    have heq := congrArg List.length (h.tdo.trans hstored)
    omega
  · intro h
    obtain ⟨hall, hout⟩ := hrest.done h
    refine ⟨hall, ?_⟩
    rw [hstored]
    apply hsent
    omega

end Sent

/-- Whatever the device does, the transactions of a shift are the vectors in order, all of them
unless something failed. The server sends what they captured exactly when nothing failed. -/
theorem shift_answered_iff (handle : Int) (bits : BitVec 32) (regs : Word)
    (t : List PciApi.Event) :
    (∀ (tms_buf tdi_buf : List Byte) (r : Except Fault (List Byte)),
      (bits.toNat + 7) / 8 ≤ tms_buf.length → (bits.toNat + 7) / 8 ≤ tdi_buf.length →
      (shift_tms_tdi handle bits tms_buf tdi_buf).Runs t r →
        (∃ n ≤ bits.toNat, InOrder tms_buf tdi_buf n (observe regs t).issued) ∧
        ((observe regs t).failed = false →
          InOrder tms_buf tdi_buf bits.toNat (observe regs t).issued)) ∧
    ∀ (fuel : Nat) (s s' : Filled), next_command s.cbuf = .command (.shift bits) →
      (Command.shift bits).Sound → (read_packet_pass handle (fuel + 1) s).Runs t (.filled s') →
        ∃ t₁ t₂ out, t = t₁ ++ t₂ ∧ (command_reply handle s.cbuf (.shift bits)).Runs t₁ (.ok out) ∧
          (Answered (s.cbuf.drop 10) (s.cbuf.drop (10 + byte_count bits)) bits (observe regs t₁)
            (sent_for s s' (.shift bits)) ↔ (observe regs t₁).failed = false) := by
  constructor
  · intro tms_buf tdi_buf r htms htdi h
    obtain ⟨out, -, hrest⟩ := shift_tms_tdi_spec regs htms htdi h
    exact ⟨hrest.order, fun h0 => (hrest.done h0).1⟩
  · intro fuel s s' hnext hsound h
    obtain ⟨t₁, t₂, out, rfl, hreply, hrest, hlen, hsent⟩ := shift_pass_spec regs hnext hsound h
    exact ⟨t₁, t₂, out, rfl, hreply, answered_iff hsound hrest hlen hsent⟩

/-- A receive buffer with one shift of 8 bits, over a reply buffer that is not empty. -/
def one_shift : Filled := ⟨shift_str ++ [8, 0, 0, 0, 0x05, 0x03], 0, fun _ => 0xAA, []⟩

theorem shift_answered_quiet :
    (∃ n ≤ 8, InOrder [0x05] [0x03] n (observe ⟨0, 0, 0⟩
      ((shift_tms_tdi 0 8 [0x05] [0x03]).exec quietBus ()).trace).issued) ∧
    ∃ s' t₁ t₂ out, ((read_packet_pass 0 2 one_shift).exec quietBus ()).trace = t₁ ++ t₂ ∧
      (command_reply 0 one_shift.cbuf (.shift 8)).Runs t₁ (.ok out) ∧
      (Answered [0x05, 0x03] [0x03] 8 (observe ⟨0, 0, 0⟩ t₁) (sent_for one_shift s' (.shift 8)) ↔
        (observe ⟨0, 0, 0⟩ t₁).failed = false) :=
  ⟨((shift_answered_iff 0 8 ⟨0, 0, 0⟩ _).1 [0x05] [0x03] _ (by decide) (by decide)
      (Prog.exec_runs quietBus (shift_tms_tdi 0 8 [0x05] [0x03]) ())).1,
    ⟨_, (shift_answered_iff 0 8 ⟨0, 0, 0⟩ _).2 1 one_shift _ (by decide)
      (show (8 : BitVec 32).toNat ≤ 2 ^ 32 - 8 by decide)
      (Prog.exec_runs quietBus (read_packet_pass 0 2 one_shift) ())⟩⟩

/-- Every write fails, and the byte that the reply buffer held is sent as TDO bits. -/
theorem shift_answered_stale :
    ¬ ∀ (handle : Int) (fuel : Nat) (s s' : Filled) (bits : BitVec 32) (regs : Word)
      (t : List PciApi.Event), next_command s.cbuf = .command (.shift bits) →
      (Command.shift bits).Sound → (read_packet_pass handle (fuel + 1) s).Runs t (.filled s') →
        ∃ t₁ t₂ out, t = t₁ ++ t₂ ∧ (command_reply handle s.cbuf (.shift bits)).Runs t₁ (.ok out) ∧
          Answered (s.cbuf.drop 10) (s.cbuf.drop (10 + byte_count bits)) bits (observe regs t₁)
            (sent_for s s' (.shift bits)) := by
  intro h
  obtain ⟨t₁, t₂, out, ht, hreply, hanswered⟩ := h 0 1 one_shift _ 8 ⟨0, 0, 0⟩ _ (by decide)
    (show (8 : BitVec 32).toNat ≤ 2 ^ 32 - 8 by decide)
    (Prog.exec_runs deadBus (read_packet_pass 0 2 one_shift) ())
  cases t₁ with
  | nil =>
    obtain ⟨ret, t', hnil, -⟩ := hreply
    cases hnil
  | cons e t =>
    -- The first access is all there is.
    obtain ⟨rfl, hrest⟩ := List.cons.inj ht
    obtain ⟨rfl, -⟩ := List.append_eq_nil_iff.mp hrest.symm
    exact absurd hanswered.tdo (by decide)

end AwsFpga.Xvc
