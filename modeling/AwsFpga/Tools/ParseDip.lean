import Mathlib.Data.List.Basic
import AwsFpga.Tools.ParseFields

/-!
# Setting the virtual DIP switch (`fpga_local_cmd_parse.c`)

The digits of a `-D` are shifted into a variable that is 0 before the first option only.
What is left in it of the `-D` before, its last digit, ends up in the top bit.
-/

namespace AwsFpga.Tools

open Utils

/-! ## Digits -/

/-- Sixteen digits of zero or one. -/
def IsDip (arg : CString) : Prop := arg.length = 16 ∧ ∀ c ∈ arg, c = '0' ∨ c = '1'

def dip_bit (c : Char) : BitVec 16 := if c = '1' then 1 else 0

def dip_push (status : BitVec 16) (c : Char) : BitVec 16 := status <<< 1 ||| dip_bit c

/-- The switches that the digits stand for. -/
def dip_value (arg : CString) : BitVec 16 := arg.foldl dip_push 0

theorem dip_digits_eq (status : BitVec 16) (c : Char) (cs : List Char)
    (h : ∀ d ∈ c :: cs, d = '0' ∨ d = '1') :
    dip_digits status (c :: cs) = some (cs.foldl dip_push (status ||| dip_bit c)) := by
  induction cs generalizing status c with
  | nil =>
    rcases h c (by simp) with rfl | rfl
    · simp [dip_digits, dip_bit]
    · simp [dip_digits, dip_bit]
  | cons d cs ih =>
    obtain ⟨hc, hcs⟩ := List.forall_mem_cons.mp h
    have hnext : dip_digits status (c :: d :: cs) =
        dip_digits ((status ||| dip_bit c) <<< 1) (d :: cs) := by
      rw [dip_digits]
      rcases hc with rfl | rfl
      · simp [dip_bit]
      · simp [dip_bit]
    rw [hnext, ih _ d hcs, List.foldl_cons, dip_push]

theorem dip_digits_some {status status' : BitVec 16} {arg : CString}
    (h : dip_digits status arg = some status') : ∀ c ∈ arg, c = '0' ∨ c = '1' := by
  induction arg generalizing status with
  | nil => exact nofun
  | cons c cs ih =>
    unfold dip_digits at h
    split at h
    case isTrue hc => exact List.forall_mem_cons.mpr ⟨.inr hc, ih h⟩
    case isFalse =>
      split at h
      case isTrue hc => exact List.forall_mem_cons.mpr ⟨.inl hc, ih h⟩
      case isFalse => cases h

theorem foldl_dip_push (x y : BitVec 16) (cs : List Char) :
    cs.foldl dip_push (x ||| y) = x <<< cs.length ||| cs.foldl dip_push y := by
  induction cs generalizing x y with
  | nil => simp
  | cons c cs ih =>
    have hpush : dip_push (x ||| y) c = x <<< 1 ||| dip_push y c := by
      rw [dip_push, dip_push, BitVec.shiftLeft_or_distrib, BitVec.or_assoc]
    rw [List.foldl_cons, List.foldl_cons, hpush, ih, ← BitVec.shiftLeft_add, List.length_cons,
      Nat.add_comm]

/-- What is in the variable before comes to stand above the digits. -/
theorem dip_digits_isDip {arg : CString} (h : IsDip arg) (status : BitVec 16) :
    dip_digits status arg = some (status <<< 15 ||| dip_value arg) := by
  obtain ⟨hlen, hall⟩ := h
  cases arg with
  | nil => cases hlen
  | cons c cs =>
    have hcs : cs.length = 15 := by simpa using hlen
    have hfirst : dip_push 0 c = dip_bit c := by simp [dip_push]
    rw [dip_digits_eq status c cs hall, foldl_dip_push, hcs, dip_value, List.foldl_cons, hfirst]

theorem dip_push_toNat {v : BitVec 16} {c : Char} {k : Nat} (hc : c = '0' ∨ c = '1')
    (hv : v.toNat < 2 ^ k) (hk : k < 16) : (dip_push v c).toNat = 2 * v.toNat + digit_value c := by
  have hpow : 2 ^ (k + 1) ≤ 2 ^ 16 := Nat.pow_le_pow_right (by decide) (by omega)
  have hshift : (v <<< 1).toNat = 2 * v.toNat := by
    rw [BitVec.toNat_shiftLeft, Nat.shiftLeft_eq, Nat.mod_eq_of_lt (by omega)]
    omega
  rcases hc with rfl | rfl
  · have hzero : digit_value '0' = 0 := rfl
    simp [dip_push, dip_bit, hshift, hzero]
  · have hone : digit_value '1' = 1 := rfl
    have hdisjoint : v <<< 1 &&& 1#16 = 0#16 := by
      rw [BitVec.and_one_eq_setWidth_ofBool_getLsbD]
      simp
    have hadd : v <<< 1 ||| 1#16 = v <<< 1 + 1#16 := (BitVec.add_eq_or_of_and_eq_zero _ _ hdisjoint).symm
    rw [dip_push, dip_bit, if_pos rfl, hone]
    change (v <<< 1 ||| 1#16).toNat = _
    rw [hadd, BitVec.toNat_add, hshift]
    change (2 * v.toNat + 1) % 2 ^ 16 = _
    rw [Nat.mod_eq_of_lt (by omega)]

theorem foldl_dip_push_toNat {cs : List Char} {v : BitVec 16} {k : Nat}
    (hall : ∀ c ∈ cs, c = '0' ∨ c = '1') (hv : v.toNat < 2 ^ k) (hk : k + cs.length ≤ 16) :
    (cs.foldl dip_push v).toNat = cs.foldl (fun value c => 2 * value + digit_value c) v.toNat ∧
      (cs.foldl dip_push v).toNat < 2 ^ (k + cs.length) := by
  induction cs generalizing v k with
  | nil => exact ⟨rfl, hv⟩
  | cons c cs ih =>
    obtain ⟨hc, hcs⟩ := List.forall_mem_cons.mp hall
    rw [List.length_cons] at hk ⊢
    have hpush := dip_push_toNat hc hv (by omega)
    have hlt : (dip_push v c).toNat < 2 ^ (k + 1) := by
      have hdigit : digit_value c ≤ 1 := by
        rcases hc with rfl | rfl <;> decide
      rw [hpush]
      omega
    obtain ⟨hvalue, hbound⟩ := ih hcs hlt (by omega)
    rw [List.foldl_cons, List.foldl_cons, ← hpush]
    have hadd : k + (cs.length + 1) = k + 1 + cs.length := by omega
    rw [hadd]
    exact ⟨hvalue, hbound⟩

theorem dip_value_toNat {arg : CString} (h : IsDip arg) : (dip_value arg).toNat = digits_value 2 arg :=
  (foldl_dip_push_toNat (k := 0) h.2 (by decide) (by rw [h.1])).1

theorem dip_bit_zero (c : Char) : (dip_bit c).getLsbD 0 = decide (c = '1') := by
  unfold dip_bit
  split <;> simp [*]

/-- The last digit is bit 0. -/
theorem dip_value_last (init : List Char) (c : Char) :
    (dip_value (init ++ [c])).getLsbD 0 = decide (c = '1') := by
  rw [dip_value, List.foldl_append, List.foldl_cons, List.foldl_nil, dip_push, BitVec.getLsbD_or,
    dip_bit_zero]
  simp

theorem dip_value_first {c : Char} {cs : List Char} (h : IsDip (c :: cs)) :
    (dip_value (c :: cs)).getLsbD 15 = decide (c = '1') := by
  obtain ⟨hlen, hall⟩ := h
  have hcs : cs.length = 15 := by simpa using hlen
  have hfirst : dip_push 0 c = dip_bit c ||| 0 := by simp [dip_push]
  have hrest : (cs.foldl dip_push 0).toNat < 2 ^ (0 + cs.length) :=
    (foldl_dip_push_toNat (List.forall_mem_cons.mp hall).2 (by decide) (by omega)).2
  have hbit : (cs.foldl dip_push 0).getLsbD 15 = false := by
    rw [hcs] at hrest
    exact Nat.testBit_lt_two_pow hrest
  rw [dip_value, List.foldl_cons, hfirst, foldl_dip_push, BitVec.getLsbD_or, hbit, hcs,
    BitVec.getLsbD_shiftLeft, ← dip_bit_zero]
  simp

/-- What the variable holds after some `-D`. -/
def dip_status (status : BitVec 16) (args : List CString) : BitVec 16 :=
  args.foldl (fun status arg => status <<< 15 ||| dip_value arg) status

/-- The top bit is the first digit of the last `-D`, or the last digit of the one before. -/
theorem dip_status_eq_iff {status : BitVec 16} {init : List CString} {prev last : CString}
    (hprev : IsDip prev) (hlast : IsDip last) :
    dip_status status (init ++ [prev, last]) = dip_value last ↔
      (prev.getLast? = some '1' → last.head? = some '1') := by
  obtain ⟨p, c, rfl⟩ : ∃ p c, prev = p ++ [c] := by
    have hne : prev ≠ [] := by
      rintro rfl
      cases hprev.1
    exact ⟨prev.dropLast, prev.getLast hne, (List.dropLast_concat_getLast hne).symm⟩
  obtain ⟨d, ds, rfl⟩ : ∃ d ds, last = d :: ds := by
    cases last with
    | nil => cases hlast.1
    | cons d ds => exact ⟨d, ds, rfl⟩
  have hstatus : dip_status status (init ++ [p ++ [c], d :: ds]) =
      (dip_status status init <<< 15 ||| dip_value (p ++ [c])) <<< 15 ||| dip_value (d :: ds) := by
    simp [dip_status, List.foldl_append]
  have hbit : (dip_status status init <<< 15 ||| dip_value (p ++ [c])).getLsbD 0 =
      decide (c = '1') := by
    rw [BitVec.getLsbD_or, dip_value_last]
    simp
  rw [hstatus, List.getLast?_concat, List.head?_cons, Option.some.injEq, Option.some.injEq]
  constructor
  · intro heq hc
    have htop := congrArg (fun v => v.getLsbD 15) heq
    rw [BitVec.getLsbD_or, BitVec.getLsbD_shiftLeft, dip_value_first hlast, Nat.sub_self, hbit] at htop
    simpa [hc] using htop
  · intro himp
    apply BitVec.eq_of_getLsbD_eq
    intro k hk
    rw [BitVec.getLsbD_or, BitVec.getLsbD_shiftLeft]
    rcases Nat.lt_or_ge k 15 with hlt | hge
    · simp [hlt]
    · obtain rfl : k = 15 := by omega
      rw [dip_value_first hlast, Nat.sub_self, hbit]
      by_cases hc : c = '1'
      · simp [himp hc]
      · simp [hc]

/-! ## The parser -/

/-- What is expected of `fpga` when `parse_args_set_virtual_dip` returns 0. -/
structure DipSound (opts : List Opt) (fpga : Ec2FpgaCmd) : Prop where
  slot : Field opts 'S' 0 (FPGA_SLOT_MAX - 1) id cli_init_fpga.afi_slot fpga.afi_slot
  digits : ∀ arg ∈ args 'D' opts, IsDip arg
  v_dip_switch : match (args 'D' opts).getLast? with
    | none => fpga.v_dip_switch = cli_init_fpga.v_dip_switch
    | some arg => fpga.v_dip_switch.toNat = digits_value 2 arg

structure DipTakes (o : Opt) : Prop where
  known : o.opt ∈ ['S', 'D', 'H']
  slot : o.opt = 'S' → InRange 0 (FPGA_SLOT_MAX - 1) o.optarg
  dip : o.opt = 'D' → IsDip o.optarg

structure DipPasses (opts : List Opt) : Prop where
  takes : ∀ o ∈ opts, DipTakes o
  slot : ∃ arg, (args 'S' opts).head? = some arg ∧ Converts arg
  dip : args 'D' opts ≠ []

/-- The digit that the last but one `-D` leaves behind does not show. -/
def NoCarry (opts : List Opt) : Prop :=
  ∀ init prev last, args 'D' opts = init ++ [prev, last] →
    prev.getLast? = some '1' → last.head? = some '1'

section Dip

variable {o : Opt} {v : DipVars}

theorem dip_takes (h : (virtual_dip_case o v).2) : DipTakes o := by
  unfold virtual_dip_case at h
  split at h
  case isTrue hopt =>
    exact ⟨by simp [hopt], fun _ => slot_range (of_decide_eq_true h), by simp [hopt]⟩
  case isFalse hS =>
    split at h
    case isTrue hopt =>
      refine ⟨by simp [hopt], fun hslot => absurd hslot hS, fun _ => ?_⟩
      split at h
      case isTrue => cases h
      case isFalse hlen =>
        cases hdigits : dip_digits v.status o.optarg with
        | none =>
          rw [hdigits] at h
          cases h
        | some status => exact ⟨by omega, dip_digits_some hdigits⟩
    case isFalse hD =>
      split at h
      case isTrue hopt => exact ⟨by simp [hopt], fun hslot => absurd hslot hS, fun hdip => absurd hdip hD⟩
      case isFalse => cases h

theorem dip_slot_set (h : (virtual_dip_case o v).2) (hopt : o.opt = 'S') :
    converted o.optarg v.fpga.afi_slot < FPGA_SLOT_MAX ∧
      (virtual_dip_case o v).1.fpga.afi_slot = converted o.optarg v.fpga.afi_slot := by
  unfold virtual_dip_case at h ⊢
  rw [if_pos hopt] at h ⊢
  exact ⟨of_decide_eq_true h, rfl⟩

theorem dip_set (h : (virtual_dip_case o v).2) (hopt : o.opt = 'D') :
    (virtual_dip_case o v).1 =
      ⟨{ v.fpga with v_dip_switch := v.status <<< 15 ||| dip_value o.optarg },
        v.status <<< 15 ||| dip_value o.optarg, true⟩ := by
  have hdip := (dip_takes h).dip hopt
  unfold virtual_dip_case
  simp [hopt, hdip.1, dip_digits_isDip hdip]

theorem dip_keeps (h : (virtual_dip_case o v).2) (hopt : o.opt ≠ 'D') :
    (virtual_dip_case o v).1.status = v.status ∧
      (virtual_dip_case o v).1.vdip_arg_found = v.vdip_arg_found ∧
      (virtual_dip_case o v).1.fpga.v_dip_switch = v.fpga.v_dip_switch := by
  have hknown := (dip_takes h).known
  simp only [List.mem_cons, List.not_mem_nil, or_false] at hknown
  rcases hknown with hknown | hknown | hknown
  · simp [virtual_dip_case, hknown, slot_case]
  · exact absurd hknown hopt
  · simp [virtual_dip_case, hknown]

theorem dip_slot (h : (virtual_dip_case o v).2) (hopt : o.opt ≠ 'S') :
    (virtual_dip_case o v).1.fpga.afi_slot = v.fpga.afi_slot := by
  by_cases hD : o.opt = 'D'
  · rw [dip_set h hD]
  · have hknown := (dip_takes h).known
    simp only [List.mem_cons, List.not_mem_nil, or_false] at hknown
    rcases hknown with hknown | hknown | hknown
    · exact absurd hknown hopt
    · exact absurd hknown hD
    · simp [virtual_dip_case, hknown]

theorem dip_done (htakes : DipTakes o) {opts : List Opt} (hslot : SlotKnown (o :: opts) v.fpga.afi_slot) :
    (virtual_dip_case o v).2 ∧ SlotKnown opts (virtual_dip_case o v).1.fpga.afi_slot := by
  have hknown := htakes.known
  simp only [List.mem_cons, List.not_mem_nil, or_false] at hknown
  rcases hknown with opt | opt | opt
  · have hlt := slot_known_set opt (htakes.slot opt) hslot
    unfold virtual_dip_case
    rw [if_pos opt]
    exact ⟨decide_eq_true hlt, .inl hlt⟩
  · have hdip := htakes.dip opt
    have hkeep := slot_known_keep (by simp [opt]) hslot
    simp [virtual_dip_case, opt, hdip.1, dip_digits_isDip hdip, hkeep]
  · have hkeep := slot_known_keep (by simp [opt]) hslot
    simp [virtual_dip_case, opt, hkeep]

end Dip

theorem dip_loop_status {opts : List Opt} {k : Nat} {v : DipVars}
    (hdone : (parse_loop (fun _ => virtual_dip_case) k opts v).2) :
    (parse_loop (fun _ => virtual_dip_case) k opts v).1.status =
        dip_status v.status (args 'D' opts) ∧
      (parse_loop (fun _ => virtual_dip_case) k opts v).1.vdip_arg_found =
        (v.vdip_arg_found || !(args 'D' opts).isEmpty) ∧
      (parse_loop (fun _ => virtual_dip_case) k opts v).1.fpga.v_dip_switch =
        if (args 'D' opts).isEmpty then v.fpga.v_dip_switch else dip_status v.status (args 'D' opts) := by
  induction opts generalizing k v with
  | nil => simp [parse_loop, args, dip_status]
  | cons o opts ih =>
    rw [parse_loop_cons] at hdone ⊢
    split at hdone
    case isFalse => cases hdone
    case isTrue htaken =>
      rw [if_pos htaken]
      obtain ⟨hstatus, hfound, hdip⟩ := ih hdone
      rw [hstatus, hfound, hdip]
      by_cases hopt : o.opt = 'D'
      · rw [args_cons_eq hopt, dip_set htaken hopt]
        cases hargs : args 'D' opts with
        | nil => simp [dip_status]
        | cons arg rest => simp [dip_status]
      · obtain ⟨hs, hf, hd⟩ := dip_keeps htaken hopt
        rw [args_cons_ne hopt, hs, hf, hd]
        exact ⟨rfl, rfl, rfl⟩

section DipRuns

variable {argv : List CString}

/-- What `parse_args_set_virtual_dip` comes to in its loop. -/
def dip_loop (argv : List CString) : DipVars × Bool :=
  parse_loop (fun _ => virtual_dip_case) 0 (virtual_dip_opts argv) ⟨cli_init_fpga, 0, false⟩

theorem parse_dip_eq (argv : List CString) :
    parse_args_set_virtual_dip argv cli_init_fpga =
      if (dip_loop argv).2 && (dip_loop argv).1.fpga.afi_slot ≠ no_slot &&
          (dip_loop argv).1.vdip_arg_found then
        (0, (dip_loop argv).1.fpga)
      else (-EINVAL, (dip_loop argv).1.fpga) := rfl

theorem parse_dip_ok (h : (parse_args_set_virtual_dip argv cli_init_fpga).1 = 0) :
    (dip_loop argv).2 ∧ (dip_loop argv).1.fpga.afi_slot ≠ no_slot ∧
      (dip_loop argv).1.vdip_arg_found ∧
      (parse_args_set_virtual_dip argv cli_init_fpga).2 = (dip_loop argv).1.fpga := by
  rw [parse_dip_eq] at h ⊢
  split at h
  case isTrue hdone =>
    rw [if_pos hdone]
    rw [Bool.and_eq_true, Bool.and_eq_true, decide_eq_true_eq] at hdone
    exact ⟨hdone.1.1, hdone.1.2, hdone.2, rfl⟩
  case isFalse => cases h

theorem dip_passes (h : (parse_args_set_virtual_dip argv cli_init_fpga).1 = 0) :
    DipPasses (virtual_dip_opts argv) := by
  obtain ⟨hdone, hslot, hfound, -⟩ := parse_dip_ok h
  refine ⟨parse_loop_each DipTakes (fun _ _ _ => dip_takes) hdone, ?_, ?_⟩
  · have hlast := parse_loop_last 'S' (fun v : DipVars => v.fpga.afi_slot) (fun _ _ => True)
      (fun _ _ _ => dip_slot) (fun _ _ _ _ _ => trivial) hdone
    have hfirst := parse_loop_first (fun v : DipVars => v.fpga.afi_slot) (fun _ _ _ => dip_slot)
      (fun _ _ _ h hopt => (dip_slot_set h hopt).1) hdone (by decide)
    cases hargs : args 'S' (virtual_dip_opts argv) with
    | nil =>
      rw [hargs] at hlast
      exact absurd hlast hslot
    | cons arg rest => exact ⟨arg, rfl, hfirst arg (by rw [hargs]; rfl)⟩
  · intro hnone
    have hstatus := (dip_loop_status hdone).2.1
    rw [hnone] at hstatus
    exact absurd (hfound.symm.trans hstatus) (by decide)

theorem dip_ok (h : DipPasses (virtual_dip_opts argv)) :
    (parse_args_set_virtual_dip argv cli_init_fpga).1 = 0 := by
  have hend : (dip_loop argv).2 ∧ (∀ o ∈ ([] : List Opt), DipTakes o) ∧
      SlotKnown [] (dip_loop argv).1.fpga.afi_slot := by
    refine parse_loop_done
      (fun opts (v : DipVars) => (∀ o ∈ opts, DipTakes o) ∧ SlotKnown opts v.fpga.afi_slot)
      (fun k o opts v hinv => ?_) ⟨h.takes, .inr h.slot⟩
    obtain ⟨ho, hopts⟩ := List.forall_mem_cons.mp hinv.1
    obtain ⟨hdone, hnext⟩ := dip_done ho hinv.2
    exact ⟨hdone, hopts, hnext⟩
  obtain ⟨hdone, -, hslot⟩ := hend
  have hne : (dip_loop argv).1.fpga.afi_slot ≠ no_slot := by
    intro heq
    have hlt := slot_known_nil hslot
    rw [heq] at hlt
    exact absurd hlt (by decide)
  have hfound : (dip_loop argv).1.vdip_arg_found = true := by
    have hempty : (args 'D' (virtual_dip_opts argv)).isEmpty = false := by
      rw [List.isEmpty_eq_false_iff]
      exact h.dip
    refine (dip_loop_status hdone).2.1.trans ?_
    rw [hempty]
    rfl
  rw [parse_dip_eq, hdone, decide_eq_true hne, hfound]
  rfl

/-- The switches are those of the last `-D` just when no digit of another shows. -/
theorem dip_switch_iff (hdone : (dip_loop argv).2) :
    (match (args 'D' (virtual_dip_opts argv)).getLast? with
      | none => (dip_loop argv).1.fpga.v_dip_switch = cli_init_fpga.v_dip_switch
      | some arg => (dip_loop argv).1.fpga.v_dip_switch.toNat = digits_value 2 arg) ↔
      NoCarry (virtual_dip_opts argv) := by
  have hall : ∀ arg ∈ args 'D' (virtual_dip_opts argv), IsDip arg := by
    intro arg harg
    obtain ⟨opt, hmem, hopt, rfl⟩ := mem_args.mp harg
    exact (parse_loop_each DipTakes (fun _ _ _ => dip_takes) hdone opt hmem).dip hopt
  have hswitch := (dip_loop_status hdone).2.2
  change (dip_loop argv).1.fpga.v_dip_switch = _ at hswitch
  rw [hswitch]
  unfold NoCarry
  rcases List.eq_nil_or_concat' (args 'D' (virtual_dip_opts argv)) with hnil | ⟨init, last, hargs⟩
  · rw [hnil]
    simp
  · have hlast : IsDip last := hall last (by rw [hargs]; simp)
    rw [hargs, List.getLast?_concat, if_neg (by simp)]
    dsimp only
    rw [← dip_value_toNat hlast, BitVec.toNat_inj]
    rcases List.eq_nil_or_concat' init with rfl | ⟨init', prev, rfl⟩
    · have hone : dip_status 0 ([] ++ [last]) = dip_value last := by simp [dip_status]
      rw [hone]
      refine iff_of_true rfl fun init prev last' heq => ?_
      have hlen := congrArg List.length heq
      simp at hlen
    · have hprev : IsDip prev := hall prev (by rw [hargs]; simp)
      have hpair : init' ++ [prev] ++ [last] = init' ++ [prev, last] := by simp
      rw [hpair, dip_status_eq_iff hprev hlast]
      constructor
      · intro himp init'' prev'' last'' heq
        obtain ⟨-, hpairs⟩ := List.append_inj' heq rfl
        cases hpairs
        exact himp
      · intro himp
        exact himp init' prev last rfl

theorem dip_loop_slot (hdone : (dip_loop argv).2)
    (hconv : ∀ arg ∈ args 'S' (virtual_dip_opts argv), Converts arg) :
    Field (virtual_dip_opts argv) 'S' 0 (FPGA_SLOT_MAX - 1) id cli_init_fpga.afi_slot
      (dip_loop argv).1.fpga.afi_slot :=
  parse_loop_field 'S' (fun v : DipVars => v.fpga.afi_slot) 0 (FPGA_SLOT_MAX - 1) id
    (fun _ _ _ => dip_slot) (fun _ _ _ h hopt => (dip_takes h).slot hopt)
    (fun _ _ _ h hopt v hnum hmin hmax => by
      rw [(dip_slot_set h hopt).2, converted_of_numeral hnum hmin hmax, id])
    hdone hconv

end DipRuns

/-- What is expected of `parse_args_set_virtual_dip`. -/
def DipParses (argv : List CString) : Prop :=
  (parse_args_set_virtual_dip argv cli_init_fpga).1 = 0 →
    DipSound (virtual_dip_opts argv) (parse_args_set_virtual_dip argv cli_init_fpga).2

theorem dip_parses_iff (argv : List CString) : DipParses argv ↔
    (DipPasses (virtual_dip_opts argv) →
      (∀ arg ∈ args 'S' (virtual_dip_opts argv), Converts arg) ∧ NoCarry (virtual_dip_opts argv)) := by
  constructor
  · intro h hpasses
    have hret := dip_ok hpasses
    have hsound := h hret
    obtain ⟨hdone, -, -, hfpga⟩ := parse_dip_ok hret
    rw [hfpga] at hsound
    exact ⟨fun arg harg => converts_of_field hsound.slot (by decide) (by decide) harg,
      (dip_switch_iff hdone).mp hsound.v_dip_switch⟩
  · intro h hret
    have hpasses := dip_passes hret
    obtain ⟨hconv, hcarry⟩ := h hpasses
    obtain ⟨hdone, -, -, hfpga⟩ := parse_dip_ok hret
    rw [hfpga]
    refine ⟨dip_loop_slot hdone hconv, fun arg harg => ?_, (dip_switch_iff hdone).mpr hcarry⟩
    obtain ⟨opt, hmem, hopt, rfl⟩ := mem_args.mp harg
    exact (hpasses.takes opt hmem).dip hopt

end AwsFpga.Tools
