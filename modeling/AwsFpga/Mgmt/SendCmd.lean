import AwsFpga.Mgmt.Received

/-!
# Which response decides a command

`fpga_mgmt_send_cmd` reads at most `AFI_MAX_RETRIES + 1` responses, and the last
one decides. The opcode is looked at before the id.
-/

open Lib AwsFpga.Pci AwsFpga.Mbox

namespace AwsFpga.Mgmt

/-! ## Responses -/

/-- A message, alone in a buffer. -/
def AfiCmd.ofWords (words : List (BitVec 32)) : AfiCmd := AfiCmd.zero.store words

/-- The message a call received, if it is a read that succeeded. -/
def response? : HalApi.Event → Option (List (BitVec 32))
  | ⟨.mbox_read _, (ret, words)⟩ => if ret = 0 then some words else none
  | _ => none

def responses (t : List HalApi.Event) : List (List (BitVec 32)) := t.filterMap response?

/-- The message the last call received. -/
def lastResponse (t : List HalApi.Event) : Option (List (BitVec 32)) := t.getLast?.bind response?

/-- What `*len` holds after these calls, if it held `len` before: a read stores the length of
what it received. -/
def lenAfter (len : Nat) (t : List HalApi.Event) : Nat :=
  match (responses t).getLast? with
  | none => len
  | some words => 4 * words.length

/-- A successful response to `cmd`: at least a header, with `IS_RSP`, the opcode, the id and the
major version. -/
def IsResponseTo (cmd : AfiCmd) (words : List (BitVec 32)) : Prop :=
  let rsp := AfiCmd.ofWords words
  4 ≤ words.length ∧ MAJOR_VERSION rsp.version = MAJOR_VERSION cmd.version ∧ rsp.op = cmd.op ∧
    rsp.id = cmd.id ∧ afi_cmd_hdr_get_flags rsp &&& AFI_CMD_HDR_IS_RSP ≠ 0

/-- At least a header, with an id that is not the command's. -/
def OtherId (cmd : AfiCmd) (words : List (BitVec 32)) : Prop :=
  4 ≤ words.length ∧ (AfiCmd.ofWords words).id ≠ cmd.id

def IsErrorRsp (words : List (BitVec 32)) : Prop :=
  2 ≤ words.length ∧ (AfiCmd.ofWords words).op = AFI_CMD_ERROR

/-- What a caller may rely on, given the calls of one `fpga_mgmt_send_cmd` and its result. -/
structure SendCmdSound (cmd : AfiCmd) (t : List HalApi.Event) (ret : Int) : Prop where
  success : ret = 0 → ∃ words, lastResponse t = some words ∧ IsResponseTo cmd words
  /-- A stale response is drained: another read follows, or the retries are used up. -/
  stale : ∀ words, lastResponse t = some words → OtherId cmd words →
    ret = -ETIMEDOUT ∧ (responses t).length = AFI_MAX_RETRIES + 1
  error : ∀ words, lastResponse t = some words → IsErrorRsp words → ret ≠ 0

/-! ## When the code gets it wrong -/

/-- An error response whose error is 0. -/
def ErrorZero (cmd : AfiCmd) (words : List (BitVec 32)) : Prop :=
  let rsp := AfiCmd.ofWords words
  5 ≤ words.length ∧ MAJOR_VERSION rsp.version = MAJOR_VERSION cmd.version ∧
    rsp.op = AFI_CMD_ERROR ∧ rsp.body 0 AfiCmd.body_first = 0

/-- The code that an error response carries. -/
def errorCode (words : List (BitVec 32)) : Int :=
  fpga_mgmt_handle_afi_cmd_error_rsp (AfiCmd.ofWords words) (4 * words.length)

/-- A response with another id that is taken for an answer, as number `n`: of another major
version, or an error response. An error of `-EAGAIN` is retried like a stale response, and one
of `-ETIMEDOUT` in the last response reads like a timeout. -/
def StaleDecides (cmd : AfiCmd) (words : List (BitVec 32)) (n : Nat) : Prop :=
  let rsp := AfiCmd.ofWords words
  OtherId cmd words ∧ (MAJOR_VERSION rsp.version ≠ MAJOR_VERSION cmd.version ∨
    (rsp.op = AFI_CMD_ERROR ∧ errorCode words ≠ -EAGAIN ∧
      ¬ (errorCode words = -ETIMEDOUT ∧ n = AFI_MAX_RETRIES + 1)))

def Misjudged (cmd : AfiCmd) (t : List HalApi.Event) : Prop :=
  ∃ words, lastResponse t = some words ∧
    (ErrorZero cmd words ∨ StaleDecides cmd words (responses t).length)

/-! ## The verdict on one response -/

/-- With a whole header received, nothing older than the message is looked at. -/
theorem validate_header_store (cmd rsp : AfiCmd) (words : List (BitVec 32))
    (h : 4 ≤ words.length) :
    fpga_mgmt_afi_validate_header cmd (rsp.store words) (4 * words.length) =
      fpga_mgmt_afi_validate_header cmd (AfiCmd.ofWords words) (4 * words.length) := by
  apply fpga_mgmt_afi_validate_header_agree
  · unfold sizeof_afi_cmd_hdr
    omega
  · exact AfiCmd.agreeOn_store rsp AfiCmd.zero words

theorem validate_header_short (cmd rsp : AfiCmd) (len : Nat) (h : len < sizeof_afi_cmd_hdr) :
    fpga_mgmt_afi_validate_header cmd rsp len ≠ 0 := by
  unfold fpga_mgmt_afi_validate_header fpga_mgmt_handle_afi_cmd_error_rsp
  have : len < sizeof_afi_cmd_hdr + 4 := by omega
  simp only [this, h, if_true]
  repeat' split
  all_goals decide

/-- The verdict on a whole message. -/
def verdict (cmd : AfiCmd) (words : List (BitVec 32)) : Int :=
  fpga_mgmt_afi_validate_header cmd (AfiCmd.ofWords words) (4 * words.length)

theorem verdict_major (cmd : AfiCmd) (words : List (BitVec 32))
    (h : MAJOR_VERSION (AfiCmd.ofWords words).version ≠ MAJOR_VERSION cmd.version) :
    verdict cmd words = FPGA_ERR_AFI_CMD_MALFORMED := by
  unfold verdict fpga_mgmt_afi_validate_header
  rw [if_pos (Ne.symm h)]

theorem verdict_error (cmd : AfiCmd) (hop : cmd.op ≠ AFI_CMD_ERROR) (words : List (BitVec 32))
    (hmajor : MAJOR_VERSION (AfiCmd.ofWords words).version = MAJOR_VERSION cmd.version)
    (herr : (AfiCmd.ofWords words).op = AFI_CMD_ERROR) :
    verdict cmd words = errorCode words := by
  unfold verdict fpga_mgmt_afi_validate_header
  have hne : cmd.op ≠ (AfiCmd.ofWords words).op := by rw [herr]; exact hop
  rw [if_neg (by simp [hmajor]), if_pos hne, if_pos herr]
  rfl

theorem verdict_stale (cmd : AfiCmd) (words : List (BitVec 32))
    (hmajor : MAJOR_VERSION (AfiCmd.ofWords words).version = MAJOR_VERSION cmd.version)
    (herr : (AfiCmd.ofWords words).op ≠ AFI_CMD_ERROR)
    (hid : (AfiCmd.ofWords words).id ≠ cmd.id) : verdict cmd words = -EAGAIN := by
  unfold verdict fpga_mgmt_afi_validate_header
  rw [if_neg (by simp [hmajor])]
  by_cases hop : cmd.op ≠ (AfiCmd.ofWords words).op
  · rw [if_pos hop, if_neg herr]
  · rw [if_neg hop, if_pos (Ne.symm hid)]

theorem verdict_zero (cmd : AfiCmd) (words : List (BitVec 32)) (hlen : 4 ≤ words.length)
    (herr : (AfiCmd.ofWords words).op ≠ AFI_CMD_ERROR) (h : verdict cmd words = 0) :
    IsResponseTo cmd words := by
  unfold verdict fpga_mgmt_afi_validate_header at h
  dsimp only at h
  split at h
  · exact absurd h (by decide)
  rename_i hmajor
  split at h
  · exact absurd h (by decide)
  rename_i hop
  split at h
  · exact absurd h (by decide)
  rename_i hid
  split at h
  · exact absurd h (by decide)
  split at h
  · exact absurd h (by decide)
  split at h
  · exact absurd h (by decide)
  rename_i hrsp
  exact ⟨hlen, (not_not.mp hmajor).symm, (not_not.mp hop).symm, (not_not.mp hid).symm, hrsp⟩

theorem errorCode_zero_iff (words : List (BitVec 32)) (hlen : 4 ≤ words.length) :
    errorCode words = 0 ↔ 5 ≤ words.length ∧ (AfiCmd.ofWords words).body 0 = 0 := by
  unfold errorCode fpga_mgmt_handle_afi_cmd_error_rsp
  have hzero : ((AfiCmd.ofWords words).body 0).toInt = 0 ↔ (AfiCmd.ofWords words).body 0 = 0 := by
    rw [← BitVec.toInt_inj]
    simp
  split
  case isTrue h =>
    simp only [sizeof_afi_cmd_hdr] at h
    constructor
    · intro h0
      exact absurd h0 (by decide)
    · rintro ⟨h5, -⟩
      omega
  case isFalse h =>
    have h5 : 5 ≤ words.length := by simp only [sizeof_afi_cmd_hdr] at h; omega
    split
    case isTrue h11 =>
      constructor
      · intro h0
        exact absurd h0 (by decide)
      · rintro ⟨-, hb⟩
        rw [← hzero, h11.1] at hb
        exact absurd hb (by decide)
    case isFalse =>
      rw [hzero]
      simp [h5]

/-! ## The reads of one command -/

/-- How the loop of `fpga_mgmt_send_cmd` ends, with at most `n` responses read. -/
inductive LoopEnd (cmd : AfiCmd) (n : Nat) (t : List HalApi.Event) (ret : Int) : Prop where
  | read_failed (called : t ≠ []) (none : lastResponse t = none) (code : ret ≠ 0)
  | judged (words : List (BitVec 32)) (rsp : AfiCmd) (last : lastResponse t = some words)
      (code : ret = fpga_mgmt_afi_validate_header cmd (rsp.store words) (4 * words.length))
      (final : ret ≠ -EAGAIN)
  | drained (words : List (BitVec 32)) (rsp : AfiCmd) (last : lastResponse t = some words)
      (again : fpga_mgmt_afi_validate_header cmd (rsp.store words) (4 * words.length) = -EAGAIN)
      (code : ret = -ETIMEDOUT) (count : (responses t).length = n)

theorem lenAfter_append (len : Nat) (t₁ t₂ : List HalApi.Event) :
    lenAfter len (t₁ ++ t₂) = lenAfter (lenAfter len t₁) t₂ := by
  simp only [lenAfter, responses, List.filterMap_append, List.getLast?_append]
  cases (List.filterMap response? t₂).getLast? <;> rfl

theorem lastResponse_cons (e : HalApi.Event) (t : List HalApi.Event) (h : t ≠ []) :
    lastResponse (e :: t) = lastResponse t := by
  obtain ⟨e', t', rfl⟩ := List.exists_cons_of_ne_nil h
  simp [lastResponse, List.getLast?_cons_cons]

theorem ne_nil_of_lastResponse (t : List HalApi.Event) (words : List (BitVec 32))
    (h : lastResponse t = some words) : t ≠ [] := by
  rintro rfl
  exact absurd h (by simp [lastResponse])

theorem loopEnd_cons (cmd : AfiCmd) (n : Nat) (t : List HalApi.Event) (ret handle : Int)
    (words : List (BitVec 32)) (h : LoopEnd cmd n t ret) :
    LoopEnd cmd (n + 1) (⟨.mbox_read handle, (0, words)⟩ :: t) ret := by
  cases h with
  | read_failed called none code =>
    exact .read_failed (List.cons_ne_nil _ _) ((lastResponse_cons _ t called).trans none) code
  | judged last_words rsp last code final =>
    have hne := ne_nil_of_lastResponse t last_words last
    exact .judged last_words rsp ((lastResponse_cons _ t hne).trans last) code final
  | drained last_words rsp last again code count =>
    have hne := ne_nil_of_lastResponse t last_words last
    refine .drained last_words rsp ((lastResponse_cons _ t hne).trans last) again code ?_
    simp only [responses, List.filterMap_cons, response?, if_true, List.length_cons]
    rw [← count, responses]

/-- One round of the loop: it ends here, or the response is stale and the retries decide. -/
theorem fpga_mgmt_send_cmd_loop_step (handle : Int) (cmd : AfiCmd) (retries : Nat) (rsp : AfiCmd)
    (len : Nat) (s s' : FpgaMgmtState) (t : List HalApi.Event) (out : CmdOut)
    (h : Exec (fpga_mgmt_send_cmd_loop handle cmd retries rsp len) s t out s') :
    ((∀ n, LoopEnd cmd n t out.ret) ∧ (∃ r, t = [⟨.mbox_read handle, r⟩]) ∧
      out.len = lenAfter len t) ∨
    ∃ words t', t = ⟨.mbox_read handle, (0, words)⟩ :: t' ∧
      fpga_mgmt_afi_validate_header cmd (rsp.store words) (4 * words.length) = -EAGAIN ∧
      Exec (match retries with
        | 0 => return ⟨-ETIMEDOUT, rsp.store words, 4 * words.length⟩
        | retries + 1 =>
          fpga_mgmt_send_cmd_loop handle cmd retries (rsp.store words) (4 * words.length))
        s t' out s' := by
  unfold fpga_mgmt_send_cmd_loop at h
  rw [exec_mbox_read] at h
  obtain ⟨ret, words, t', rfl, h⟩ := h
  dsimp only at h
  split at h
  case isTrue hret =>
    obtain ⟨rfl, rfl, rfl⟩ := (exec_pure _ _ _ _ _).mp h
    have hnone : response? ⟨.mbox_read handle, (ret, words)⟩ = none := by simp [response?, hret]
    left
    refine ⟨fun n => ?_, ⟨_, rfl⟩, by simp [lenAfter, responses, hnone]⟩
    exact .read_failed (List.cons_ne_nil _ _) (by simp [lastResponse, hnone]) hret
  case isFalse hret =>
    obtain rfl : ret = 0 := not_not.mp hret
    split at h
    case isTrue hzero =>
      obtain ⟨rfl, rfl, rfl⟩ := (exec_pure _ _ _ _ _).mp h
      left
      refine ⟨fun n => .judged words rsp rfl hzero.symm ?_, ⟨_, rfl⟩, rfl⟩
      change (0 : Int) ≠ -EAGAIN
      decide
    case isFalse =>
      split at h
      case isTrue hfinal =>
        obtain ⟨rfl, rfl, rfl⟩ := (exec_pure _ _ _ _ _).mp h
        left
        exact ⟨fun n => .judged words rsp rfl rfl hfinal, ⟨_, rfl⟩, rfl⟩
      case isFalse hagain =>
        right
        exact ⟨words, t', rfl, not_not.mp hagain, h⟩

theorem fpga_mgmt_send_cmd_loop_spec (handle : Int) (cmd : AfiCmd) (retries : Nat) (rsp : AfiCmd)
    (len : Nat) (s s' : FpgaMgmtState) (t : List HalApi.Event) (out : CmdOut)
    (h : Exec (fpga_mgmt_send_cmd_loop handle cmd retries rsp len) s t out s') :
    LoopEnd cmd (retries + 1) t out.ret ∧ (∀ e ∈ t, e.1 = .mbox_read handle) ∧
      out.len = lenAfter len t := by
  induction retries generalizing rsp len t with
  | zero =>
    rcases fpga_mgmt_send_cmd_loop_step _ _ _ _ _ _ _ _ _ h with
      ⟨hend, ⟨r, rfl⟩, hlen⟩ | ⟨words, t', rfl, hagain, h⟩
    · exact ⟨hend _, by simp, hlen⟩
    · obtain ⟨rfl, rfl, rfl⟩ := (exec_pure _ _ _ _ _).mp h
      exact ⟨.drained words rsp rfl hagain rfl rfl, by simp, rfl⟩
  | succ retries ih =>
    rcases fpga_mgmt_send_cmd_loop_step _ _ _ _ _ _ _ _ _ h with
      ⟨hend, ⟨r, rfl⟩, hlen⟩ | ⟨words, t', rfl, hagain, h⟩
    · exact ⟨hend _, by simp, hlen⟩
    · obtain ⟨hend, hread, hlen⟩ := ih _ _ _ h
      refine ⟨loopEnd_cons cmd _ t' _ handle words hend, ?_, ?_⟩
      · intro e he
        rcases List.mem_cons.mp he with rfl | he
        · rfl
        · exact hread e he
      · rw [hlen]
        exact (lenAfter_append len [⟨.mbox_read handle, (0, words)⟩] t').symm

theorem exec_send_cmd_loop_read (handle : Int) (cmd : AfiCmd) (retries : Nat) (rsp : AfiCmd)
    (len : Nat) (s s' : FpgaMgmtState) (words : List (BitVec 32)) (t : List HalApi.Event)
    (out : CmdOut) (hwords : 4 ≤ words.length) :
    Exec (fpga_mgmt_send_cmd_loop handle cmd retries rsp len) s
        (⟨.mbox_read handle, (0, words)⟩ :: t) out s' ↔
      if verdict cmd words = 0 ∨ verdict cmd words ≠ -EAGAIN then
        t = [] ∧ out = ⟨verdict cmd words, rsp.store words, 4 * words.length⟩ ∧ s' = s
      else
        Exec (match retries with
          | 0 => return ⟨-ETIMEDOUT, rsp.store words, 4 * words.length⟩
          | retries + 1 =>
            fpga_mgmt_send_cmd_loop handle cmd retries (rsp.store words) (4 * words.length))
          s t out s' := by
  have hverdict := validate_header_store cmd rsp words hwords
  rw [← verdict] at hverdict
  rw [fpga_mgmt_send_cmd_loop.eq_def handle cmd retries rsp len, exec_mbox_read]
  constructor
  · rintro ⟨ret, words', t', heq, h⟩
    obtain ⟨he, rfl⟩ := List.cons.inj heq
    cases he
    dsimp only at h
    rw [if_neg (by simp), hverdict] at h
    by_cases hzero : verdict cmd words = 0
    · rw [if_pos hzero, exec_pure] at h
      rwa [if_pos (Or.inl hzero), hzero]
    · rw [if_neg hzero] at h
      by_cases hagain : verdict cmd words ≠ -EAGAIN
      · rw [if_pos hagain, exec_pure] at h
        rwa [if_pos (Or.inr hagain)]
      · rw [if_neg hagain] at h
        rwa [if_neg (not_or.mpr ⟨hzero, hagain⟩)]
  · intro h
    refine ⟨0, words, t, rfl, ?_⟩
    dsimp only
    rw [if_neg (by simp), hverdict]
    by_cases hzero : verdict cmd words = 0
    · rw [if_pos (Or.inl hzero), hzero] at h
      rwa [if_pos hzero, exec_pure]
    · rw [if_neg hzero]
      by_cases hagain : verdict cmd words ≠ -EAGAIN
      · rw [if_pos (Or.inr hagain)] at h
        rwa [if_pos hagain, exec_pure]
      · rw [if_neg (not_or.mpr ⟨hzero, hagain⟩)] at h
        rwa [if_neg hagain]

theorem exec_send_cmd_loop_failed (handle : Int) (cmd : AfiCmd) (retries : Nat) (rsp : AfiCmd)
    (len : Nat) (s s' : FpgaMgmtState) (ret : Int) (words : List (BitVec 32))
    (t : List HalApi.Event) (out : CmdOut) (hret : ret ≠ 0) :
    Exec (fpga_mgmt_send_cmd_loop handle cmd retries rsp len) s
        (⟨.mbox_read handle, (ret, words)⟩ :: t) out s' ↔
      t = [] ∧ out = ⟨ret, rsp.store words, len⟩ ∧ s' = s := by
  unfold fpga_mgmt_send_cmd_loop
  rw [exec_mbox_read]
  constructor
  · rintro ⟨ret', words', t', heq, h⟩
    obtain ⟨he, rfl⟩ := List.cons.inj heq
    cases he
    dsimp only at h
    rwa [if_pos hret, exec_pure] at h
  · intro h
    refine ⟨ret, words, t, rfl, ?_⟩
    dsimp only
    rwa [if_pos hret, exec_pure]

/-- When every response read covers the header, what the buffer held before decides nothing. -/
theorem fpga_mgmt_send_cmd_loop_fresh (handle : Int) (cmd : AfiCmd) (retries : Nat)
    (rsp rsp' : AfiCmd) (len len' : Nat) (s s' : FpgaMgmtState) (t : List HalApi.Event)
    (out : CmdOut) (hfit : ∀ words ∈ responses t, 4 ≤ words.length)
    (h : Exec (fpga_mgmt_send_cmd_loop handle cmd retries rsp len) s t out s') :
    ∃ out', Exec (fpga_mgmt_send_cmd_loop handle cmd retries rsp' len') s t out' s' ∧
      out'.ret = out.ret := by
  have hfirst := h
  rw [fpga_mgmt_send_cmd_loop.eq_def handle cmd retries rsp len, exec_mbox_read] at hfirst
  obtain ⟨ret, words, t', rfl, -⟩ := hfirst
  by_cases hret : ret = 0
  · subst hret
    have hwords : 4 ≤ words.length := hfit words (by simp [responses, response?])
    simp only [exec_send_cmd_loop_read _ _ _ _ _ _ _ _ _ _ hwords] at h ⊢
    split at h
    case isTrue hend =>
      obtain ⟨rfl, rfl, rfl⟩ := h
      refine ⟨⟨verdict cmd words, rsp'.store words, 4 * words.length⟩, ?_, rfl⟩
      rw [if_pos hend]
      exact ⟨rfl, rfl, rfl⟩
    case isFalse hagain =>
      simp only [if_neg hagain]
      cases retries with
      | zero =>
        obtain ⟨rfl, rfl, rfl⟩ := (exec_pure _ _ _ _ _).mp h
        exact ⟨⟨-ETIMEDOUT, rsp'.store words, 4 * words.length⟩,
          (exec_pure _ _ _ _ _).mpr ⟨rfl, rfl, rfl⟩, rfl⟩
      | succ retries =>
        have hrest : ∀ w ∈ responses t', 4 ≤ w.length := by
          intro w hw
          refine hfit w ?_
          unfold responses at hw ⊢
          simp [response?, hw]
        exact fpga_mgmt_send_cmd_loop_fresh handle cmd retries _ (rsp'.store words) _
          (4 * words.length) s s' t' out hrest h
  · simp only [exec_send_cmd_loop_failed _ _ _ _ _ _ _ _ _ _ _ hret] at h ⊢
    obtain ⟨rfl, rfl, rfl⟩ := h
    exact ⟨⟨ret, rsp'.store words, len'⟩, ⟨rfl, rfl, rfl⟩, rfl⟩

theorem fpga_mgmt_send_cmd_spec (slot : Fin FPGA_SLOT_MAX) (cmd rsp : AfiCmd) (len : Nat)
    (s s' : FpgaMgmtState) (t : List HalApi.Event) (out : CmdOut)
    (h : Exec (fpga_mgmt_send_cmd slot cmd rsp len) s t out s') :
    ∃ (ret : Int) (t' : List HalApi.Event),
      t = ⟨.mbox_write (s.slots slot) cmd.dwords len, ret⟩ :: t' ∧
      (ret ≠ 0 ∧ t' = [] ∧ out.ret = ret ∨
        ret = 0 ∧ LoopEnd cmd (AFI_MAX_RETRIES + 1) t' out.ret) ∧
      (∀ e ∈ t', e.1 = .mbox_read (s.slots slot)) ∧ out.len = lenAfter len t' := by
  unfold fpga_mgmt_send_cmd at h
  rw [exec_get_bind, exec_mbox_write] at h
  obtain ⟨ret, t', rfl, h⟩ := h
  refine ⟨ret, t', rfl, ?_⟩
  split at h
  case isTrue hret =>
    obtain ⟨rfl, rfl, rfl⟩ := (exec_pure _ _ _ _ _).mp h
    exact ⟨Or.inl ⟨hret, rfl, rfl⟩, by simp, rfl⟩
  case isFalse hret =>
    obtain ⟨hend, hread, hlen⟩ := fpga_mgmt_send_cmd_loop_spec _ _ _ _ _ _ _ _ _ h
    exact ⟨Or.inr ⟨not_not.mp hret, hend⟩, hread, hlen⟩

/-! ## The result of a command -/

theorem stale_verdict_iff (cmd : AfiCmd) (hop : cmd.op ≠ AFI_CMD_ERROR) (words : List (BitVec 32))
    (n : Nat) (hid : OtherId cmd words) (hne : verdict cmd words ≠ -EAGAIN) :
    (verdict cmd words = -ETIMEDOUT ∧ n = AFI_MAX_RETRIES + 1) ↔ ¬ StaleDecides cmd words n := by
  by_cases hmajor : MAJOR_VERSION (AfiCmd.ofWords words).version = MAJOR_VERSION cmd.version
  · by_cases herr : (AfiCmd.ofWords words).op = AFI_CMD_ERROR
    · rw [verdict_error cmd hop words hmajor herr] at hne ⊢
      simp [StaleDecides, hid, hmajor, herr, hne]
    · exact absurd (verdict_stale cmd words hmajor herr hid.2) hne
  · rw [verdict_major cmd words hmajor]
    simp only [StaleDecides, hid, hmajor, true_and, ne_eq, not_false_eq_true, true_or, not_true,
      iff_false]
    rintro ⟨h, -⟩
    exact absurd h (by decide)

theorem verdict_zero_iff (cmd : AfiCmd) (hop : cmd.op ≠ AFI_CMD_ERROR) (words : List (BitVec 32))
    (hlen : 4 ≤ words.length) (h : verdict cmd words = 0) :
    IsResponseTo cmd words ∧ ¬ IsErrorRsp words ∨ ErrorZero cmd words := by
  by_cases herr : (AfiCmd.ofWords words).op = AFI_CMD_ERROR
  · by_cases hmajor : MAJOR_VERSION (AfiCmd.ofWords words).version = MAJOR_VERSION cmd.version
    · rw [verdict_error cmd hop words hmajor herr, errorCode_zero_iff words hlen] at h
      exact Or.inr ⟨h.1, hmajor, herr, h.2⟩
    · rw [verdict_major cmd words hmajor] at h
      exact absurd h (by decide)
  · exact Or.inl ⟨verdict_zero cmd words hlen herr h, fun h => herr h.2⟩

theorem errorZero_verdict (cmd : AfiCmd) (hop : cmd.op ≠ AFI_CMD_ERROR) (words : List (BitVec 32))
    (h : ErrorZero cmd words) : verdict cmd words = 0 ∧ IsErrorRsp words := by
  obtain ⟨hlen, hmajor, herr, hbody⟩ := h
  have h2 : 2 ≤ words.length := by omega
  refine ⟨?_, h2, herr⟩
  rw [verdict_error cmd hop words hmajor herr]
  exact (errorCode_zero_iff words (by omega)).mpr ⟨hlen, hbody⟩

/-- A verdict that does not go into another round is right exactly when it is not one of the
two mistakes. -/
theorem judged_sound_iff (cmd : AfiCmd) (hop : cmd.op ≠ AFI_CMD_ERROR) (t : List HalApi.Event)
    (words : List (BitVec 32)) (hlen : 4 ≤ words.length) (last : lastResponse t = some words)
    (final : verdict cmd words ≠ -EAGAIN) :
    SendCmdSound cmd t (verdict cmd words) ↔ ¬ Misjudged cmd t := by
  have hwords : ∀ w, lastResponse t = some w → w = words := fun w hw =>
    Option.some.inj (hw.symm.trans last)
  constructor
  · rintro sound ⟨w, hw, hbad⟩
    obtain rfl := hwords w hw
    rcases hbad with hzero | hstale
    · obtain ⟨hv, herr⟩ := errorZero_verdict cmd hop w hzero
      exact sound.error w last herr hv
    · exact (stale_verdict_iff cmd hop w _ hstale.1 final).mp (sound.stale w last hstale.1) hstale
  · intro hgood
    refine ⟨fun h0 => ⟨words, last, ?_⟩, fun w hw hid => ?_, fun w hw herr h0 => ?_⟩
    · rcases verdict_zero_iff cmd hop words hlen h0 with ⟨hrsp, -⟩ | hzero
      · exact hrsp
      · exact absurd ⟨words, last, Or.inl hzero⟩ hgood
    · obtain rfl := hwords w hw
      exact (stale_verdict_iff cmd hop w _ hid final).mpr
        fun hstale => hgood ⟨w, last, Or.inr hstale⟩
    · obtain rfl := hwords w hw
      rcases verdict_zero_iff cmd hop w hlen h0 with ⟨-, hno⟩ | hzero
      · exact hno herr
      · exact hgood ⟨w, last, Or.inl hzero⟩

theorem not_misjudged_of_again (cmd : AfiCmd) (hop : cmd.op ≠ AFI_CMD_ERROR)
    (t : List HalApi.Event) (words : List (BitVec 32)) (last : lastResponse t = some words)
    (hagain : 4 ≤ words.length → verdict cmd words = -EAGAIN) : ¬ Misjudged cmd t := by
  rintro ⟨w, hw, hbad⟩
  obtain rfl : w = words := Option.some.inj (hw.symm.trans last)
  rcases hbad with hzero | ⟨hid, hmajor | ⟨herr, hcode, -⟩⟩
  · have hlen : 4 ≤ w.length := by have := hzero.1; omega
    rw [(errorZero_verdict cmd hop w hzero).1] at hagain
    exact absurd (hagain hlen) (by decide)
  · rw [verdict_major cmd w hmajor] at hagain
    exact absurd (hagain hid.1) (by decide)
  · have hv := hagain hid.1
    by_cases hmajor : MAJOR_VERSION (AfiCmd.ofWords w).version = MAJOR_VERSION cmd.version
    · rw [verdict_error cmd hop w hmajor herr] at hv
      exact hcode hv
    · rw [verdict_major cmd w hmajor] at hv
      exact absurd hv (by decide)

theorem loopEnd_sound_iff (cmd : AfiCmd) (hop : cmd.op ≠ AFI_CMD_ERROR) (t : List HalApi.Event)
    (ret : Int) (h : LoopEnd cmd (AFI_MAX_RETRIES + 1) t ret) :
    SendCmdSound cmd t ret ↔ ¬ Misjudged cmd t := by
  cases h with
  | read_failed called none code =>
    refine ⟨fun _ ⟨words, hlast, _⟩ => by simp [none] at hlast,
      fun _ => ⟨fun h0 => absurd h0 code, fun words hlast => ?_, fun words hlast => ?_⟩⟩
    all_goals simp [none] at hlast
  | judged words rsp last code final =>
    by_cases hlen : 4 ≤ words.length
    · rw [validate_header_store cmd rsp words hlen] at code
      rw [code] at final ⊢
      exact judged_sound_iff cmd hop t words hlen last final
    · -- Less than a header is malformed, and has no id to go by.
      have hshort : 4 * words.length < sizeof_afi_cmd_hdr := by
        simp only [sizeof_afi_cmd_hdr]
        omega
      have hne : ret ≠ 0 := by
        rw [code]
        exact validate_header_short cmd _ _ hshort
      refine ⟨fun _ ⟨w, hw, hbad⟩ => ?_, fun _ => ⟨fun h0 => absurd h0 hne, fun w hw hid => ?_,
        fun _ _ _ => hne⟩⟩
      · obtain rfl : w = words := Option.some.inj (hw.symm.trans last)
        rcases hbad with hzero | hstale
        · have := hzero.1
          omega
        · exact hlen hstale.1.1
      · obtain rfl : w = words := Option.some.inj (hw.symm.trans last)
        exact absurd hid.1 hlen
  | drained words rsp last again code count =>
    have hne : ret ≠ 0 := by
      rw [code]
      decide
    have hgood : ¬ Misjudged cmd t := not_misjudged_of_again cmd hop t words last fun hlen => by
      rw [validate_header_store cmd rsp words hlen] at again
      exact again
    exact ⟨fun _ => hgood, fun _ => ⟨fun h0 => absurd h0 hne, fun _ _ _ => ⟨code, count⟩,
      fun _ _ _ => hne⟩⟩

theorem lastResponse_write (handle : Int) (msg : List (BitVec 32)) (len : Nat) (ret : Int)
    (t : List HalApi.Event) :
    lastResponse (⟨.mbox_write handle msg len, ret⟩ :: t) = lastResponse t := by
  cases t with
  | nil => rfl
  | cons e t => exact lastResponse_cons _ _ (List.cons_ne_nil e t)

theorem sound_write_iff (cmd : AfiCmd) (handle : Int) (msg : List (BitVec 32)) (len : Nat)
    (code : Int) (t : List HalApi.Event) (ret : Int) :
    SendCmdSound cmd (⟨.mbox_write handle msg len, code⟩ :: t) ret ↔ SendCmdSound cmd t ret := by
  have hlast := lastResponse_write handle msg len code t
  have hcount : responses (⟨.mbox_write handle msg len, code⟩ :: t) = responses t := rfl
  constructor
  · intro h
    exact ⟨by simpa only [hlast] using h.success, by simpa only [hlast, hcount] using h.stale,
      by simpa only [hlast] using h.error⟩
  · intro h
    exact ⟨by simpa only [hlast] using h.success, by simpa only [hlast, hcount] using h.stale,
      by simpa only [hlast] using h.error⟩

theorem misjudged_write_iff (cmd : AfiCmd) (handle : Int) (msg : List (BitVec 32)) (len : Nat)
    (code : Int) (t : List HalApi.Event) :
    Misjudged cmd (⟨.mbox_write handle msg len, code⟩ :: t) ↔ Misjudged cmd t := by
  have hlast := lastResponse_write handle msg len code t
  have hcount : responses (⟨.mbox_write handle msg len, code⟩ :: t) = responses t := rfl
  simp only [Misjudged, hlast, hcount]

/-- The result of `fpga_mgmt_send_cmd` is right exactly when the last response was not
misjudged. -/
theorem fpga_mgmt_send_cmd_sound_iff (slot : Fin FPGA_SLOT_MAX) (cmd rsp : AfiCmd) (len : Nat)
    (s s' : FpgaMgmtState) (t : List HalApi.Event) (out : CmdOut) (hop : cmd.op ≠ AFI_CMD_ERROR)
    (h : Exec (fpga_mgmt_send_cmd slot cmd rsp len) s t out s') :
    SendCmdSound cmd t out.ret ↔ ¬ Misjudged cmd t := by
  obtain ⟨ret, t', rfl, ⟨hret, rfl, hout⟩ | ⟨rfl, hend⟩, -⟩ :=
    fpga_mgmt_send_cmd_spec slot cmd rsp len s s' t out h
  · -- The command was not written: no response, and an error.
    rw [sound_write_iff, misjudged_write_iff, hout]
    refine ⟨fun _ ⟨words, hlast, _⟩ => by simp [lastResponse] at hlast,
      fun _ => ⟨fun h0 => absurd h0 hret, fun words hlast => ?_, fun words hlast => ?_⟩⟩
    all_goals simp [lastResponse] at hlast
  · rw [sound_write_iff, misjudged_write_iff]
    exact loopEnd_sound_iff cmd hop t' out.ret hend

/-! ## A stale error response -/

/-- A metrics command with id 7. -/
def metricsCmd : AfiCmd := afi_cmd_hdr .zero AFI_CMD_METRICS 7 4

/-- An error response of an earlier command, with id 3 and error 0. -/
def staleError : List (BitVec 32) := [AFI_CMD_API_VERSION, AFI_CMD_ERROR, 0x1000004, 3, 0]

/-- The command is sent, and the stale response is what comes back. -/
def staleRun : Prog.Outcome HalApi (List (List (BitVec 32))) (CmdOut × FpgaMgmtState) :=
  ((fpga_mgmt_send_cmd 0 metricsCmd .zero 20).run .start).exec mailbox [staleError]

theorem stale_run_exec :
    Exec (fpga_mgmt_send_cmd 0 metricsCmd .zero 20) .start staleRun.trace staleRun.result.1
      staleRun.result.2 :=
  Prog.exec_runs mailbox _ [staleError]

theorem stale_run_sound_iff :
    SendCmdSound metricsCmd staleRun.trace staleRun.result.1.ret ↔
      ¬ Misjudged metricsCmd staleRun.trace :=
  fpga_mgmt_send_cmd_sound_iff 0 metricsCmd .zero 20 .start _ _ _ (by decide) stale_run_exec

/-- The stale error response is taken for success. -/
theorem stale_run_unsound :
    ¬ ∀ slot cmd rsp len s s' t out, cmd.op ≠ AFI_CMD_ERROR →
      Exec (fpga_mgmt_send_cmd slot cmd rsp len) s t out s' → SendCmdSound cmd t out.ret := by
  intro h
  have sound := h 0 metricsCmd .zero 20 .start _ _ _ (by decide) stale_run_exec
  have herr : IsErrorRsp staleError := ⟨by decide, by decide⟩
  exact sound.error staleError rfl herr rfl

end AwsFpga.Mgmt
