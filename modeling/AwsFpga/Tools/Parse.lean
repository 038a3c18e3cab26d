import AwsFpga.Tools.Getopt

/-!
# The command line (`fpga_local_cmd_parse.c`)

The parsers of the commands that load an image, set the virtual DIP switch and load the
clock generator. Each goes through the options in a `while` with a `switch`, and fills
the structure `fpga`. What `string_to_uint` returns is not looked at in any of them.
-/

namespace AwsFpga.Tools

open Utils

/-- Recipes or frequencies of the clock groups. -/
structure Clocks where
  a : Int
  b : Int
  c : Int
  hbm : Int
  deriving DecidableEq

/-- `struct ec2_fpga_cmd`, as far as these parsers read and write it. -/
structure Ec2FpgaCmd where
  afi_slot : Int
  clock_recipe : Clocks
  clock_freq : Clocks
  afi_id : CString
  sync_timeout : Int
  sync_delay_msec : Int
  request_timeout : Int
  request_delay_msec : Int
  parser_completed : Bool
  async : Bool
  show_headers : Bool
  force_shell_reload : Bool
  prefetch : Bool
  v_dip_switch : BitVec 16
  deriving DecidableEq

def FPGA_SLOT_MAX : Int := 8
def AFI_ID_STR_MAX : Nat := 64
def CLI_SYNC_TIMEOUT_DFLT : Int := 30000
def CLI_SYNC_DELAY_MSEC_DFLT : Int := 2
def CLI_REQUEST_TIMEOUT_DFLT : Int := 500
def CLI_REQUEST_DELAY_MSEC_DFLT : Int := 60
def MSEC_PER_SEC : Int := 1000
def EINVAL : Int := 22

/-- `(uint32_t) -1`. -/
def no_slot : Int := UINT_MAX

def cli_init_fpga : Ec2FpgaCmd where
  afi_slot := no_slot
  clock_recipe := ⟨1, 2, 0, 2⟩
  clock_freq := ⟨125, 450, 300, 450⟩
  afi_id := []
  sync_timeout := CLI_SYNC_TIMEOUT_DFLT
  sync_delay_msec := CLI_SYNC_DELAY_MSEC_DFLT
  request_timeout := CLI_REQUEST_TIMEOUT_DFLT
  request_delay_msec := CLI_REQUEST_DELAY_MSEC_DFLT
  parser_completed := false
  async := false
  show_headers := false
  force_shell_reload := false
  prefetch := false
  v_dip_switch := 0

/-- What a variable is after `string_to_uint(&num, optarg)`. -/
def converted (optarg : CString) (num : Int) : Int := (string_to_uint (some optarg) num).2

/-! ## One option

A case of a `switch` leaves it at `break`, which is `true` here, or jumps out of the parser. -/

def get_parser_completed (opt : Char) (fpga : Ec2FpgaCmd) : Ec2FpgaCmd :=
  if opt = 'h' || opt = 'V' then { fpga with parser_completed := true } else fpga

/-- The case `'S'`, the same in all parsers. -/
def slot_case (optarg : CString) (fpga : Ec2FpgaCmd) : Ec2FpgaCmd × Bool :=
  ({ fpga with afi_slot := converted optarg fpga.afi_slot },
    converted optarg fpga.afi_slot < FPGA_SLOT_MAX)

/-- The bounds of a timeout in seconds, from its default and the length of a delay. -/
def timeout_min (timeout_dflt delay_msec : Int) : Int := timeout_dflt * delay_msec / MSEC_PER_SEC
def timeout_max (delay_msec : Int) : Int := UINT_MAX * delay_msec / MSEC_PER_SEC

/-- The number of delays in a timeout. -/
def timeout_delays (delay_msec timeout : Int) : Int :=
  if UINT_MAX < timeout * MSEC_PER_SEC / delay_msec then UINT_MAX
  else timeout * MSEC_PER_SEC / delay_msec

def config_timeout (timeout_dflt delay_msec timeout : Int) : Option Int :=
  if timeout < timeout_min timeout_dflt delay_msec || timeout_max delay_msec < timeout then none
  else some (timeout_delays delay_msec timeout)

def config_request_timeout : Int → Option Int :=
  config_timeout CLI_REQUEST_TIMEOUT_DFLT CLI_REQUEST_DELAY_MSEC_DFLT

def config_sync_timeout : Int → Option Int :=
  config_timeout CLI_SYNC_TIMEOUT_DFLT CLI_SYNC_DELAY_MSEC_DFLT

/-- `value32` is a variable of the block without a first value: `uninit` is what it holds. -/
def load_afi_case (uninit : Int) (o : Opt) (fpga : Ec2FpgaCmd) : Ec2FpgaCmd × Bool :=
  if o.opt = 'S' then slot_case o.optarg fpga
  else if o.opt = 'I' then
    if AFI_ID_STR_MAX ≤ o.optarg.length then (fpga, false) else ({ fpga with afi_id := o.optarg }, true)
  else if o.opt = 'r' then
    match config_request_timeout (converted o.optarg uninit) with
    | none => (fpga, false)
    | some timeout =>
      ({ fpga with request_timeout := timeout, request_delay_msec := CLI_REQUEST_DELAY_MSEC_DFLT }, true)
  else if o.opt = 's' then
    match config_sync_timeout (converted o.optarg uninit) with
    | none => (fpga, false)
    | some timeout =>
      ({ fpga with sync_timeout := timeout, sync_delay_msec := CLI_SYNC_DELAY_MSEC_DFLT }, true)
  else if o.opt = 'A' then ({ fpga with async := true }, true)
  else if o.opt = 'H' then ({ fpga with show_headers := true }, true)
  else if o.opt = 'F' then ({ fpga with force_shell_reload := true }, true)
  else if o.opt = 'P' then ({ fpga with prefetch := true, async := true }, true)
  else (get_parser_completed o.opt fpga, false)

/-- The digits of `-D`, put into `status` from the left. -/
def dip_digits (status : BitVec 16) : CString → Option (BitVec 16)
  | [] => some status
  | c :: cs =>
    if c = '1' then dip_digits (if cs ≠ [] then (status ||| 1) <<< 1 else status ||| 1) cs
    else if c = '0' then dip_digits (if cs ≠ [] then status <<< 1 else status) cs
    else none

/-- The variables of `parse_args_set_virtual_dip`. -/
structure DipVars where
  fpga : Ec2FpgaCmd
  status : BitVec 16
  vdip_arg_found : Bool
  deriving DecidableEq

def virtual_dip_case (o : Opt) (v : DipVars) : DipVars × Bool :=
  if o.opt = 'S' then ({ v with fpga := (slot_case o.optarg v.fpga).1 }, (slot_case o.optarg v.fpga).2)
  else if o.opt = 'D' then
    if o.optarg.length ≠ 16 then (v, false)
    else
      match dip_digits v.status o.optarg with
      | none => (v, false)
      | some status => (⟨{ v.fpga with v_dip_switch := status }, status, true⟩, true)
  else if o.opt = 'H' then ({ v with fpga := { v.fpga with show_headers := true } }, true)
  else ({ v with fpga := get_parser_completed o.opt v.fpga }, false)

/-- Where `a`, `b`, `c` and `m` go: recipes or frequencies. -/
structure ClockField where
  get : Ec2FpgaCmd → Clocks
  set : Clocks → Ec2FpgaCmd → Ec2FpgaCmd

def recipes : ClockField := ⟨Ec2FpgaCmd.clock_recipe, fun clocks fpga => { fpga with clock_recipe := clocks }⟩

def freqs : ClockField := ⟨Ec2FpgaCmd.clock_freq, fun clocks fpga => { fpga with clock_freq := clocks }⟩

/-- The two parsers for the clock generator differ in the fields that they fill. -/
def load_clkgen_case (field : ClockField) (o : Opt) (fpga : Ec2FpgaCmd) : Ec2FpgaCmd × Bool :=
  if o.opt = 'S' then slot_case o.optarg fpga
  else if o.opt = 'a' then
    (field.set { field.get fpga with a := converted o.optarg (field.get fpga).a } fpga, true)
  else if o.opt = 'b' then
    (field.set { field.get fpga with b := converted o.optarg (field.get fpga).b } fpga, true)
  else if o.opt = 'c' then
    (field.set { field.get fpga with c := converted o.optarg (field.get fpga).c } fpga, true)
  else if o.opt = 'm' then
    (field.set { field.get fpga with hbm := converted o.optarg (field.get fpga).hbm } fpga, true)
  else (get_parser_completed o.opt fpga, false)

/-! ## The parsers

They answer what they return and what `fpga` is then. -/

/-- The `while`: `k` options were seen before. -/
def parse_loop {σ : Type} (switch : Nat → Opt → σ → σ × Bool) : Nat → List Opt → σ → σ × Bool
  | _, [], s => (s, true)
  | k, o :: opts, s =>
    if (switch k o s).2 then parse_loop switch (k + 1) opts (switch k o s).1
    else ((switch k o s).1, false)

def load_afi_options : List LongOption :=
  [⟨"fpga-image-slot".toList, true, 'S'⟩, ⟨"fpga-image-id".toList, true, 'I'⟩,
    ⟨"request-timeout".toList, true, 'r'⟩, ⟨"sync-timeout".toList, true, 's'⟩,
    ⟨"async".toList, false, 'A'⟩, ⟨"headers".toList, false, 'H'⟩, ⟨"help".toList, false, 'h'⟩,
    ⟨"version".toList, false, 'V'⟩, ⟨"force-shell-reload".toList, false, 'F'⟩,
    ⟨"prefetch-image".toList, false, 'P'⟩]

def load_afi_opts (argv : List CString) : List Opt :=
  getopt_long "S:I:r:s:AH?hVFDP".toList load_afi_options argv

/-- `argv` begins behind the program's name, and `uninit k` is what `value32` holds in round `k`. -/
def parse_args_load_afi (uninit : Nat → BitVec 32) (argv : List CString) (fpga : Ec2FpgaCmd) :
    Int × Ec2FpgaCmd :=
  let (fpga, done) :=
    parse_loop (fun k => load_afi_case (uninit k).toNat) 0 (load_afi_opts argv) fpga
  if done && fpga.afi_slot ≠ no_slot && fpga.afi_id ≠ [] then (0, fpga) else (-EINVAL, fpga)

def virtual_dip_options : List LongOption :=
  [⟨"fpga-image-slot".toList, true, 'S'⟩, ⟨"virtual-dip".toList, true, 'D'⟩,
    ⟨"headers".toList, false, 'H'⟩, ⟨"help".toList, false, 'h'⟩, ⟨"version".toList, false, 'V'⟩]

def virtual_dip_opts (argv : List CString) : List Opt :=
  getopt_long "S:D:RH?hV".toList virtual_dip_options argv

def parse_args_set_virtual_dip (argv : List CString) (fpga : Ec2FpgaCmd) : Int × Ec2FpgaCmd :=
  let (v, done) := parse_loop (fun _ => virtual_dip_case) 0 (virtual_dip_opts argv) ⟨fpga, 0, false⟩
  if done && v.fpga.afi_slot ≠ no_slot && v.vdip_arg_found then (0, v.fpga) else (-EINVAL, v.fpga)

def clkgen_recipe_options : List LongOption :=
  [⟨"fpga-image-slot".toList, true, 'S'⟩, ⟨"help".toList, false, 'h'⟩,
    ⟨"version".toList, false, 'V'⟩, ⟨"clock-a-recipe".toList, true, 'a'⟩,
    ⟨"clock-b-recipe".toList, true, 'b'⟩, ⟨"clock-c-recipe".toList, true, 'c'⟩,
    ⟨"clock-hbm-recipe".toList, true, 'm'⟩]

def clkgen_dynamic_options : List LongOption :=
  [⟨"fpga-image-slot".toList, true, 'S'⟩, ⟨"help".toList, false, 'h'⟩,
    ⟨"version".toList, false, 'V'⟩, ⟨"clock-a0-freq".toList, true, 'a'⟩,
    ⟨"clock-b0-freq".toList, true, 'b'⟩, ⟨"clock-c0-freq".toList, true, 'c'⟩,
    ⟨"clock-hbm-freq".toList, true, 'm'⟩]

def load_clkgen_opts (long_options : List LongOption) (argv : List CString) : List Opt :=
  getopt_long "S:hV?a:b:c:m:".toList long_options argv

def parse_args_load_clkgen (long_options : List LongOption) (field : ClockField)
    (argv : List CString) (fpga : Ec2FpgaCmd) : Int × Ec2FpgaCmd :=
  let (fpga, done) :=
    parse_loop (fun _ => load_clkgen_case field) 0 (load_clkgen_opts long_options argv) fpga
  if done && fpga.afi_slot ≠ no_slot then (0, fpga) else (-EINVAL, fpga)

def parse_args_load_clkgen_recipe : List CString → Ec2FpgaCmd → Int × Ec2FpgaCmd :=
  parse_args_load_clkgen clkgen_recipe_options recipes

def parse_args_load_clkgen_dynamic : List CString → Ec2FpgaCmd → Int × Ec2FpgaCmd :=
  parse_args_load_clkgen clkgen_dynamic_options freqs

/-! ## Loops -/

section Loops

variable {σ : Type} {switch : Nat → Opt → σ → σ × Bool}

theorem parse_loop_cons (k : Nat) (o : Opt) (opts : List Opt) (s : σ) :
    parse_loop switch k (o :: opts) s =
      if (switch k o s).2 then parse_loop switch (k + 1) opts (switch k o s).1
      else ((switch k o s).1, false) := rfl

/-- As long as an invariant says that no option is refused, the loop comes to its end. -/
theorem parse_loop_done (inv : List Opt → σ → Prop)
    (hstep : ∀ k o opts s, inv (o :: opts) s → (switch k o s).2 ∧ inv opts (switch k o s).1)
    {k : Nat} {opts : List Opt} {s : σ} (h : inv opts s) :
    (parse_loop switch k opts s).2 ∧ inv [] (parse_loop switch k opts s).1 := by
  induction opts generalizing k s with
  | nil => exact ⟨rfl, h⟩
  | cons o opts ih =>
    obtain ⟨hdone, hinv⟩ := hstep k o opts s h
    rw [parse_loop_cons, if_pos hdone]
    exact ih hinv

theorem parse_loop_keeps_of {α : Type} (get : σ → α) (P : α → Prop)
    (hstep : ∀ k o s, (switch k o s).2 → P (get s) → P (get (switch k o s).1))
    {k : Nat} {opts : List Opt} {s : σ} (hs : P (get s)) (hdone : (parse_loop switch k opts s).2) :
    P (get (parse_loop switch k opts s).1) := by
  induction opts generalizing k s with
  | nil => exact hs
  | cons o opts ih =>
    rw [parse_loop_cons] at hdone ⊢
    split at hdone
    case isTrue htaken =>
      rw [if_pos htaken]
      exact ih (hstep k o s htaken hs) hdone
    case isFalse => cases hdone

theorem parse_loop_keeps {α : Type} (get : σ → α)
    (hstep : ∀ k o s, (switch k o s).2 → get (switch k o s).1 = get s)
    {k : Nat} {opts : List Opt} {s : σ} (hdone : (parse_loop switch k opts s).2) :
    get (parse_loop switch k opts s).1 = get s := by
  induction opts generalizing k s with
  | nil => rfl
  | cons o opts ih =>
    rw [parse_loop_cons] at hdone ⊢
    split at hdone
    case isTrue htaken =>
      rw [if_pos htaken, ih hdone, hstep k o s htaken]
    case isFalse => cases hdone

end Loops

end AwsFpga.Tools
