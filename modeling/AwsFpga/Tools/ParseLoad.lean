import AwsFpga.Tools.ParseFields

/-!
# Loading an image (`fpga_local_cmd_parse.c`)

What `parse_args_load_afi` accepts is as expected, apart from arguments that are not
converted: they leave the slot as it is, and a timeout is then whatever its variable
held.
-/

namespace AwsFpga.Tools

open Utils

def request_min : Int := timeout_min CLI_REQUEST_TIMEOUT_DFLT CLI_REQUEST_DELAY_MSEC_DFLT
def request_max : Int := timeout_max CLI_REQUEST_DELAY_MSEC_DFLT
def sync_min : Int := timeout_min CLI_SYNC_TIMEOUT_DFLT CLI_SYNC_DELAY_MSEC_DFLT
def sync_max : Int := timeout_max CLI_SYNC_DELAY_MSEC_DFLT

/-- What is expected of `fpga` when `parse_args_load_afi` returns 0. -/
structure LoadSound (opts : List Opt) (fpga : Ec2FpgaCmd) : Prop where
  slot : Field opts 'S' 0 (FPGA_SLOT_MAX - 1) id cli_init_fpga.afi_slot fpga.afi_slot
  request_timeout : Field opts 'r' request_min request_max
    (fun seconds => seconds * MSEC_PER_SEC / CLI_REQUEST_DELAY_MSEC_DFLT)
    cli_init_fpga.request_timeout fpga.request_timeout
  request_delay_msec : fpga.request_delay_msec = cli_init_fpga.request_delay_msec
  sync_timeout : Field opts 's' sync_min sync_max
    (fun seconds => seconds * MSEC_PER_SEC / CLI_SYNC_DELAY_MSEC_DFLT)
    cli_init_fpga.sync_timeout fpga.sync_timeout
  sync_delay_msec : fpga.sync_delay_msec = cli_init_fpga.sync_delay_msec
  clocks : fpga.clock_recipe = cli_init_fpga.clock_recipe ∧ fpga.clock_freq = cli_init_fpga.clock_freq
  virtual_dip : fpga.v_dip_switch = cli_init_fpga.v_dip_switch

/-- An option that is not refused for what it is, or for the number that its argument is. -/
structure LoadTakes (o : Opt) : Prop where
  known : o.opt ∈ ['S', 'I', 'r', 's', 'A', 'H', 'F', 'P']
  slot : o.opt = 'S' → InRange 0 (FPGA_SLOT_MAX - 1) o.optarg
  afi_id : o.opt = 'I' → o.optarg.length < AFI_ID_STR_MAX
  request : o.opt = 'r' → InRange request_min request_max o.optarg
  sync : o.opt = 's' → InRange sync_min sync_max o.optarg

/-- Options that are not refused, when it does not count that later arguments are not converted. -/
structure LoadPasses (opts : List Opt) : Prop where
  takes : ∀ o ∈ opts, LoadTakes o
  slot : ∃ arg, (args 'S' opts).head? = some arg ∧ Converts arg
  afi_id : ∃ arg, (args 'I' opts).getLast? = some arg ∧ arg ≠ []

/-- What an option that is taken does. -/
inductive LoadTaken (uninit : Int) (o : Opt) (fpga : Ec2FpgaCmd) : Ec2FpgaCmd → Prop
  | slot (opt : o.opt = 'S') (lt : converted o.optarg fpga.afi_slot < FPGA_SLOT_MAX) :
      LoadTaken uninit o fpga { fpga with afi_slot := converted o.optarg fpga.afi_slot }
  | afi_id (opt : o.opt = 'I') (lt : o.optarg.length < AFI_ID_STR_MAX) :
      LoadTaken uninit o fpga { fpga with afi_id := o.optarg }
  | request (opt : o.opt = 'r') (timeout : Int)
      (config : config_request_timeout (converted o.optarg uninit) = some timeout) :
      LoadTaken uninit o fpga
        { fpga with request_timeout := timeout, request_delay_msec := CLI_REQUEST_DELAY_MSEC_DFLT }
  | sync (opt : o.opt = 's') (timeout : Int)
      (config : config_sync_timeout (converted o.optarg uninit) = some timeout) :
      LoadTaken uninit o fpga
        { fpga with sync_timeout := timeout, sync_delay_msec := CLI_SYNC_DELAY_MSEC_DFLT }
  | flag (opt : o.opt ∈ ['A', 'H', 'F', 'P']) (async show_headers force_shell_reload prefetch : Bool) :
      LoadTaken uninit o fpga
        { fpga with
          async := async
          show_headers := show_headers
          force_shell_reload := force_shell_reload
          prefetch := prefetch }

section Load

variable {uninit : Int} {o : Opt} {fpga : Ec2FpgaCmd}

theorem load_taken (h : (load_afi_case uninit o fpga).2) :
    LoadTaken uninit o fpga (load_afi_case uninit o fpga).1 := by
  unfold load_afi_case at h ⊢
  split at h
  case isTrue hopt =>
    rw [slot_case, decide_eq_true_eq] at h
    rw [if_pos hopt]
    exact .slot hopt h
  case isFalse hS =>
  rw [if_neg hS]
  split at h
  case isTrue hopt =>
    rw [if_pos hopt]
    split at h
    case isTrue => cases h
    case isFalse hlt =>
      rw [if_neg hlt]
      exact .afi_id hopt (by omega)
  case isFalse hI =>
  rw [if_neg hI]
  split at h
  case isTrue hopt =>
    rw [if_pos hopt]
    cases hconfig : config_request_timeout (converted o.optarg uninit) with
    | none =>
      rw [hconfig] at h
      cases h
    | some timeout => exact .request hopt timeout hconfig
  case isFalse hr =>
  rw [if_neg hr]
  split at h
  case isTrue hopt =>
    rw [if_pos hopt]
    cases hconfig : config_sync_timeout (converted o.optarg uninit) with
    | none =>
      rw [hconfig] at h
      cases h
    | some timeout => exact .sync hopt timeout hconfig
  case isFalse hs =>
  rw [if_neg hs]
  split at h
  case isTrue hopt =>
    rw [if_pos hopt]
    exact .flag (by simp [hopt]) true fpga.show_headers fpga.force_shell_reload fpga.prefetch
  case isFalse hA =>
  rw [if_neg hA]
  split at h
  case isTrue hopt =>
    rw [if_pos hopt]
    exact .flag (by simp [hopt]) fpga.async true fpga.force_shell_reload fpga.prefetch
  case isFalse hH =>
  rw [if_neg hH]
  split at h
  case isTrue hopt =>
    rw [if_pos hopt]
    exact .flag (by simp [hopt]) fpga.async fpga.show_headers true fpga.prefetch
  case isFalse hF =>
  rw [if_neg hF]
  split at h
  case isTrue hopt =>
    rw [if_pos hopt]
    exact .flag (by simp [hopt]) true fpga.show_headers fpga.force_shell_reload true
  case isFalse => cases h

theorem config_timeout_some {timeout_dflt delay_msec seconds timeout : Int}
    (h : config_timeout timeout_dflt delay_msec seconds = some timeout) :
    timeout_min timeout_dflt delay_msec ≤ seconds ∧ seconds ≤ timeout_max delay_msec ∧
      timeout = timeout_delays delay_msec seconds := by
  unfold config_timeout at h
  split at h
  case isTrue => cases h
  case isFalse hin =>
    rw [Bool.or_eq_true, decide_eq_true_eq, decide_eq_true_eq, not_or, Int.not_lt, Int.not_lt] at hin
    cases h
    exact ⟨hin.1, hin.2, rfl⟩

theorem config_timeout_done {timeout_dflt delay_msec seconds : Int}
    (hmin : timeout_min timeout_dflt delay_msec ≤ seconds) (hmax : seconds ≤ timeout_max delay_msec) :
    config_timeout timeout_dflt delay_msec seconds = some (timeout_delays delay_msec seconds) := by
  have hnot : ¬(seconds < timeout_min timeout_dflt delay_msec ∨ timeout_max delay_msec < seconds) := by
    omega
  unfold config_timeout
  rw [if_neg (by rwa [Bool.or_eq_true, decide_eq_true_eq, decide_eq_true_eq])]

theorem request_delays {seconds : Int} (h : seconds ≤ request_max) :
    timeout_delays CLI_REQUEST_DELAY_MSEC_DFLT seconds =
      seconds * MSEC_PER_SEC / CLI_REQUEST_DELAY_MSEC_DFLT := by
  have hnot : ¬UINT_MAX < seconds * MSEC_PER_SEC / CLI_REQUEST_DELAY_MSEC_DFLT := by
    unfold request_max timeout_max at h
    simp only [UINT_MAX, MSEC_PER_SEC, CLI_REQUEST_DELAY_MSEC_DFLT] at h ⊢
    omega
  rw [timeout_delays, if_neg hnot]

theorem sync_delays {seconds : Int} (h : seconds ≤ sync_max) :
    timeout_delays CLI_SYNC_DELAY_MSEC_DFLT seconds =
      seconds * MSEC_PER_SEC / CLI_SYNC_DELAY_MSEC_DFLT := by
  have hnot : ¬UINT_MAX < seconds * MSEC_PER_SEC / CLI_SYNC_DELAY_MSEC_DFLT := by
    unfold sync_max timeout_max at h
    simp only [UINT_MAX, MSEC_PER_SEC, CLI_SYNC_DELAY_MSEC_DFLT] at h ⊢
    omega
  rw [timeout_delays, if_neg hnot]

theorem load_takes (h : (load_afi_case uninit o fpga).2) : LoadTakes o := by
  have htaken := load_taken h
  generalize (load_afi_case uninit o fpga).1 = next at htaken
  cases htaken with
  | slot opt lt =>
    exact ⟨by simp [opt], fun _ => slot_range lt, by simp [opt], by simp [opt], by simp [opt]⟩
  | afi_id opt lt => exact ⟨by simp [opt], by simp [opt], fun _ => lt, by simp [opt], by simp [opt]⟩
  | request opt timeout config =>
    refine ⟨by simp [opt], by simp [opt], by simp [opt], fun _ v hnum hmin hmax => ?_, by simp [opt]⟩
    rw [converted_of_numeral hnum hmin hmax] at config
    obtain ⟨hlo, hhi, -⟩ := config_timeout_some config
    exact ⟨hlo, hhi⟩
  | sync opt timeout config =>
    refine ⟨by simp [opt], by simp [opt], by simp [opt], by simp [opt], fun _ v hnum hmin hmax => ?_⟩
    rw [converted_of_numeral hnum hmin hmax] at config
    obtain ⟨hlo, hhi, -⟩ := config_timeout_some config
    exact ⟨hlo, hhi⟩
  | flag opt =>
    simp only [List.mem_cons, List.not_mem_nil, or_false] at opt
    rcases opt with opt | opt | opt | opt <;>
      exact ⟨by simp [opt], by simp [opt], by simp [opt], by simp [opt], by simp [opt]⟩

theorem load_keeps {α : Type} {get : Ec2FpgaCmd → α} {opt : Char}
    (hget : ∀ next, LoadTaken uninit o fpga next → o.opt ≠ opt → get next = get fpga)
    (h : (load_afi_case uninit o fpga).2) (hopt : o.opt ≠ opt) :
    get (load_afi_case uninit o fpga).1 = get fpga := hget _ (load_taken h) hopt

theorem load_slot_set (h : (load_afi_case uninit o fpga).2) (hopt : o.opt = 'S') :
    converted o.optarg fpga.afi_slot < FPGA_SLOT_MAX ∧
      (load_afi_case uninit o fpga).1.afi_slot = converted o.optarg fpga.afi_slot := by
  unfold load_afi_case at h ⊢
  rw [if_pos hopt] at h ⊢
  exact ⟨of_decide_eq_true h, rfl⟩

theorem load_id_set (h : (load_afi_case uninit o fpga).2) (hopt : o.opt = 'I') :
    (load_afi_case uninit o fpga).1.afi_id = o.optarg := by
  have htaken := load_taken h
  generalize (load_afi_case uninit o fpga).1 = next at htaken ⊢
  cases htaken with
  | afi_id => rfl
  | slot opt | request opt | sync opt | flag opt => simp [hopt] at opt

theorem load_request_set (h : (load_afi_case uninit o fpga).2) (hopt : o.opt = 'r') {v : Int}
    (hnum : Numeral o.optarg v) (hmin : 0 ≤ v) (hmax : v ≤ UINT_MAX) :
    (load_afi_case uninit o fpga).1.request_timeout =
      v * MSEC_PER_SEC / CLI_REQUEST_DELAY_MSEC_DFLT := by
  have htaken := load_taken h
  generalize (load_afi_case uninit o fpga).1 = next at htaken ⊢
  cases htaken with
  | request opt timeout config =>
    rw [converted_of_numeral hnum hmin hmax] at config
    obtain ⟨-, hhi, rfl⟩ := config_timeout_some config
    exact request_delays hhi
  | slot opt | afi_id opt | sync opt | flag opt => simp [hopt] at opt

theorem load_sync_set (h : (load_afi_case uninit o fpga).2) (hopt : o.opt = 's') {v : Int}
    (hnum : Numeral o.optarg v) (hmin : 0 ≤ v) (hmax : v ≤ UINT_MAX) :
    (load_afi_case uninit o fpga).1.sync_timeout =
      v * MSEC_PER_SEC / CLI_SYNC_DELAY_MSEC_DFLT := by
  have htaken := load_taken h
  generalize (load_afi_case uninit o fpga).1 = next at htaken ⊢
  cases htaken with
  | sync opt timeout config =>
    rw [converted_of_numeral hnum hmin hmax] at config
    obtain ⟨-, hhi, rfl⟩ := config_timeout_some config
    exact sync_delays hhi
  | slot opt | afi_id opt | request opt | flag opt => simp [hopt] at opt

/-- With a minute in the variable, an option is taken whose argument is not converted. -/
theorem load_done (htakes : LoadTakes o) {opts : List Opt} (hslot : SlotKnown (o :: opts) fpga.afi_slot) :
    (load_afi_case 60 o fpga).2 ∧ SlotKnown opts (load_afi_case 60 o fpga).1.afi_slot := by
  have hvalue : ∀ {lo hi : Int}, InRange lo hi o.optarg → lo ≤ 60 → 60 ≤ hi →
      lo ≤ converted o.optarg 60 ∧ converted o.optarg 60 ≤ hi := by
    intro lo hi hrange hlo hhi
    by_cases hconv : Converts o.optarg
    · obtain ⟨v, hnum, hmin, hmax⟩ := hconv
      rw [converted_of_numeral hnum hmin hmax]
      exact hrange v hnum hmin hmax
    · rw [converted_of_not hconv]
      exact ⟨hlo, hhi⟩
  have hknown := htakes.known
  simp only [List.mem_cons, List.not_mem_nil, or_false] at hknown
  rcases hknown with opt | opt | opt | opt | opt | opt | opt | opt
  · have hlt := slot_known_set opt (htakes.slot opt) hslot
    unfold load_afi_case
    rw [if_pos opt]
    exact ⟨decide_eq_true hlt, .inl hlt⟩
  · have hlt := htakes.afi_id opt
    have hkeep := slot_known_keep (by simp [opt]) hslot
    unfold load_afi_case
    simp [opt, Nat.not_le.mpr hlt, hkeep]
  · obtain ⟨hlo, hhi⟩ := hvalue (htakes.request opt) (by decide) (by decide)
    have hkeep := slot_known_keep (by simp [opt]) hslot
    unfold load_afi_case config_request_timeout
    simp [opt, config_timeout_done hlo hhi, hkeep]
  · obtain ⟨hlo, hhi⟩ := hvalue (htakes.sync opt) (by decide) (by decide)
    have hkeep := slot_known_keep (by simp [opt]) hslot
    unfold load_afi_case config_sync_timeout
    simp [opt, config_timeout_done hlo hhi, hkeep]
  all_goals
    have hkeep := slot_known_keep (by simp [opt]) hslot
    simp [load_afi_case, opt, hkeep]

end Load

section LoadRuns

variable {uninit : Nat → BitVec 32} {argv : List CString}

/-- What `parse_args_load_afi` comes to in its loop. -/
def load_loop (uninit : Nat → BitVec 32) (argv : List CString) : Ec2FpgaCmd × Bool :=
  parse_loop (fun k => load_afi_case (uninit k).toNat) 0 (load_afi_opts argv) cli_init_fpga

theorem parse_load_eq (uninit : Nat → BitVec 32) (argv : List CString) :
    parse_args_load_afi uninit argv cli_init_fpga =
      if (load_loop uninit argv).2 && (load_loop uninit argv).1.afi_slot ≠ no_slot &&
          (load_loop uninit argv).1.afi_id ≠ [] then
        (0, (load_loop uninit argv).1)
      else (-EINVAL, (load_loop uninit argv).1) := rfl

theorem parse_load_ok (h : (parse_args_load_afi uninit argv cli_init_fpga).1 = 0) :
    (load_loop uninit argv).2 ∧ (load_loop uninit argv).1.afi_slot ≠ no_slot ∧
      (load_loop uninit argv).1.afi_id ≠ [] ∧
      (parse_args_load_afi uninit argv cli_init_fpga).2 = (load_loop uninit argv).1 := by
  rw [parse_load_eq] at h ⊢
  split at h
  case isTrue hdone =>
    rw [if_pos hdone]
    rw [Bool.and_eq_true, Bool.and_eq_true, decide_eq_true_eq, decide_eq_true_eq] at hdone
    exact ⟨hdone.1.1, hdone.1.2, hdone.2, rfl⟩
  case isFalse => cases h

theorem load_field_slot {k : Nat} (o : Opt) (s : Ec2FpgaCmd)
    (h : (load_afi_case (uninit k).toNat o s).2) (hopt : o.opt ≠ 'S') :
    (load_afi_case (uninit k).toNat o s).1.afi_slot = s.afi_slot := by
  refine load_keeps (fun next htaken hopt => ?_) h hopt
  cases htaken with
  | slot opt => exact absurd opt hopt
  | afi_id | request | sync | flag => rfl

theorem load_loop_sound (hdone : (load_loop uninit argv).2)
    (hconv : ∀ o ∈ load_afi_opts argv, o.opt ∈ ['S', 'r', 's'] → Converts o.optarg) :
    LoadSound (load_afi_opts argv) (load_loop uninit argv).1 := by
  have hall : ∀ o ∈ ['S', 'r', 's'], ∀ arg ∈ args o (load_afi_opts argv), Converts arg := by
    intro o ho arg harg
    obtain ⟨opt, hmem, hopt, rfl⟩ := mem_args.mp harg
    exact hconv opt hmem (by rw [hopt]; exact ho)
  refine ⟨?_, ?_, ?_, ?_, ?_, ⟨?_, ?_⟩, ?_⟩
  · exact parse_loop_field 'S' Ec2FpgaCmd.afi_slot 0 (FPGA_SLOT_MAX - 1) id
      (fun k o s h hopt => load_field_slot o s h hopt)
      (fun k o s h hopt => (load_takes h).slot hopt)
      (fun k o s h hopt v hnum hmin hmax => by
        rw [(load_slot_set h hopt).2, converted_of_numeral hnum hmin hmax, id])
      hdone (hall 'S' (by simp))
  · refine parse_loop_field 'r' Ec2FpgaCmd.request_timeout request_min request_max
      (fun v => v * MSEC_PER_SEC / CLI_REQUEST_DELAY_MSEC_DFLT) (fun k o s h hopt => ?_)
      (fun k o s h hopt => (load_takes h).request hopt)
      (fun k o s h hopt v hnum hmin hmax => load_request_set h hopt hnum hmin hmax) hdone
      (hall 'r' (by simp))
    refine load_keeps (fun next htaken hopt => ?_) h hopt
    cases htaken with
    | request opt => exact absurd opt hopt
    | slot | afi_id | sync | flag => rfl
  · refine parse_loop_keeps_of Ec2FpgaCmd.request_delay_msec (fun x => x = CLI_REQUEST_DELAY_MSEC_DFLT)
      (fun k o s h hs => ?_) rfl hdone
    have htaken := load_taken h
    generalize (load_afi_case (uninit k).toNat o s).1 = next at htaken ⊢
    cases htaken with
    | request => rfl
    | slot | afi_id | sync | flag => exact hs
  · refine parse_loop_field 's' Ec2FpgaCmd.sync_timeout sync_min sync_max
      (fun v => v * MSEC_PER_SEC / CLI_SYNC_DELAY_MSEC_DFLT) (fun k o s h hopt => ?_)
      (fun k o s h hopt => (load_takes h).sync hopt)
      (fun k o s h hopt v hnum hmin hmax => load_sync_set h hopt hnum hmin hmax) hdone
      (hall 's' (by simp))
    refine load_keeps (fun next htaken hopt => ?_) h hopt
    cases htaken with
    | sync opt => exact absurd opt hopt
    | slot | afi_id | request | flag => rfl
  · refine parse_loop_keeps_of Ec2FpgaCmd.sync_delay_msec (fun x => x = CLI_SYNC_DELAY_MSEC_DFLT)
      (fun k o s h hs => ?_) rfl hdone
    have htaken := load_taken h
    generalize (load_afi_case (uninit k).toNat o s).1 = next at htaken ⊢
    cases htaken with
    | sync => rfl
    | slot | afi_id | request | flag => exact hs
  · refine parse_loop_keeps Ec2FpgaCmd.clock_recipe (fun k o s h => ?_) hdone
    have htaken := load_taken h
    generalize (load_afi_case (uninit k).toNat o s).1 = next at htaken ⊢
    cases htaken <;> rfl
  · refine parse_loop_keeps Ec2FpgaCmd.clock_freq (fun k o s h => ?_) hdone
    have htaken := load_taken h
    generalize (load_afi_case (uninit k).toNat o s).1 = next at htaken ⊢
    cases htaken <;> rfl
  · refine parse_loop_keeps Ec2FpgaCmd.v_dip_switch (fun k o s h => ?_) hdone
    have htaken := load_taken h
    generalize (load_afi_case (uninit k).toNat o s).1 = next at htaken ⊢
    cases htaken <;> rfl

theorem load_field_id {k : Nat} (o : Opt) (s : Ec2FpgaCmd)
    (h : (load_afi_case (uninit k).toNat o s).2) (hopt : o.opt ≠ 'I') :
    (load_afi_case (uninit k).toNat o s).1.afi_id = s.afi_id := by
  refine load_keeps (fun next htaken hopt => ?_) h hopt
  cases htaken with
  | afi_id opt => exact absurd opt hopt
  | slot | request | sync | flag => rfl

theorem load_loop_id (hdone : (load_loop uninit argv).2) :
    match (args 'I' (load_afi_opts argv)).getLast? with
    | none => (load_loop uninit argv).1.afi_id = []
    | some arg => (load_loop uninit argv).1.afi_id = arg :=
  parse_loop_last 'I' Ec2FpgaCmd.afi_id (fun arg x => x = arg)
    (fun _ o s h hopt => load_field_id o s h hopt) (fun _ _ _ h hopt => load_id_set h hopt) hdone

theorem load_passes (h : (parse_args_load_afi uninit argv cli_init_fpga).1 = 0) :
    LoadPasses (load_afi_opts argv) := by
  obtain ⟨hdone, hslot, hid, -⟩ := parse_load_ok h
  refine ⟨parse_loop_each LoadTakes (fun _ _ _ => load_takes) hdone, ?_, ?_⟩
  · have hlast := parse_loop_last 'S' Ec2FpgaCmd.afi_slot (fun _ _ => True)
      (fun k o s h hopt => load_field_slot o s h hopt) (fun _ _ _ _ _ => trivial) hdone
    have hfirst := parse_loop_first Ec2FpgaCmd.afi_slot
      (fun k o s h hopt => load_field_slot o s h hopt) (fun k o s h hopt => (load_slot_set h hopt).1)
      hdone (by decide)
    cases hargs : args 'S' (load_afi_opts argv) with
    | nil =>
      rw [hargs] at hlast
      exact absurd hlast hslot
    | cons arg rest => exact ⟨arg, rfl, hfirst arg (by rw [hargs]; rfl)⟩
  · have hlast := load_loop_id hdone
    cases hargs : (args 'I' (load_afi_opts argv)).getLast? with
    | none =>
      rw [hargs] at hlast
      exact absurd hlast hid
    | some arg =>
      rw [hargs] at hlast
      exact ⟨arg, rfl, hlast ▸ hid⟩

/-- Variables that hold a minute. -/
def minute (_ : Nat) : BitVec 32 := 60

theorem load_ok (h : LoadPasses (load_afi_opts argv)) :
    (parse_args_load_afi minute argv cli_init_fpga).1 = 0 := by
  have hend : (load_loop minute argv).2 ∧ (∀ o ∈ ([] : List Opt), LoadTakes o) ∧
      SlotKnown [] (load_loop minute argv).1.afi_slot := by
    refine parse_loop_done (fun opts (s : Ec2FpgaCmd) => (∀ o ∈ opts, LoadTakes o) ∧ SlotKnown opts s.afi_slot)
      (fun k o opts s hinv => ?_) ⟨h.takes, .inr h.slot⟩
    obtain ⟨ho, hopts⟩ := List.forall_mem_cons.mp hinv.1
    obtain ⟨hdone, hnext⟩ := load_done ho hinv.2
    exact ⟨hdone, hopts, hnext⟩
  obtain ⟨hdone, -, hslot⟩ := hend
  have hne : (load_loop minute argv).1.afi_slot ≠ no_slot := by
    intro heq
    have hlt := slot_known_nil hslot
    rw [heq] at hlt
    exact absurd hlt (by decide)
  have hid : (load_loop minute argv).1.afi_id ≠ [] := by
    have hlast := load_loop_id hdone
    obtain ⟨arg, harg, hne⟩ := h.afi_id
    rw [harg] at hlast
    rw [show (load_loop minute argv).1.afi_id = arg from hlast]
    exact hne
  rw [parse_load_eq, hdone, decide_eq_true hne, decide_eq_true hid]
  rfl

end LoadRuns

/-- What is expected of `parse_args_load_afi`, whatever its variables hold. -/
def LoadParses (argv : List CString) : Prop :=
  ∀ uninit, (parse_args_load_afi uninit argv cli_init_fpga).1 = 0 →
    LoadSound (load_afi_opts argv) (parse_args_load_afi uninit argv cli_init_fpga).2

theorem load_parses_iff (argv : List CString) : LoadParses argv ↔
    (LoadPasses (load_afi_opts argv) →
      ∀ o ∈ load_afi_opts argv, o.opt ∈ ['S', 'r', 's'] → Converts o.optarg) := by
  constructor
  · intro h hpasses o ho hopt
    have hsound := h _ (load_ok hpasses)
    have hmem : ∀ c, o.opt = c → o.optarg ∈ args c (load_afi_opts argv) := fun c hc =>
      mem_args.mpr ⟨o, ho, hc, rfl⟩
    simp only [List.mem_cons, List.not_mem_nil, or_false] at hopt
    rcases hopt with hopt | hopt | hopt
    · exact converts_of_field hsound.slot (by decide) (by decide) (hmem _ hopt)
    · exact converts_of_field hsound.request_timeout (by decide) (by decide) (hmem _ hopt)
    · exact converts_of_field hsound.sync_timeout (by decide) (by decide) (hmem _ hopt)
  · intro h uninit hret
    obtain ⟨hdone, -, -, hfpga⟩ := parse_load_ok hret
    rw [hfpga]
    exact load_loop_sound hdone (h (load_passes hret))

end AwsFpga.Tools
