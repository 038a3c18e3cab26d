import AwsFpga.Utils.Numbers

/-!
# Options (`getopt_long`)

What the calls of glibc's `getopt_long` give, one after the other, until -1. Arguments
that are no options are skipped (`POSIXLY_CORRECT` is not set), and no option string here
starts with one of `+`, `-` and `:`.
-/

namespace AwsFpga.Tools

open Utils

/-- What one call returns, and `optarg` after it. Nothing reads the argument of an option without
one. -/
structure Opt where
  opt : Char
  optarg : CString
  deriving DecidableEq

/-- `struct option`, with `flag` 0. -/
structure LongOption where
  name : CString
  required_argument : Bool
  val : Char
  deriving DecidableEq

/-- An option that is not known, or lacks its argument or has one too many. -/
def opt_err : Opt := ⟨'?', []⟩

section Getopt

variable (optstring : CString) (long_options : List LongOption)

/-- Whether the option string has a character, and whether a colon is behind it. -/
def short_option (c : Char) : Option Bool :=
  if c = ':' || c = ';' then none
  else
    match optstring.dropWhile fun o => o != c with
    | [] => none
    | _ :: ':' :: _ => some true
    | _ => some false

/-- The options in one argument, behind its minus sign, and whether the next argument is used up. -/
def short_options : CString → Option CString → List Opt × Bool
  | [], _ => ([], false)
  | c :: cs, next =>
    match short_option optstring c with
    | none => (opt_err :: (short_options cs next).1, (short_options cs next).2)
    | some false => (⟨c, []⟩ :: (short_options cs next).1, (short_options cs next).2)
    | some true =>
      if cs ≠ [] then ([⟨c, cs⟩], false)
      else
        match next with
        | none => ([opt_err], false)
        | some arg => ([⟨c, arg⟩], true)

/-- The option of that name, or those that the name abbreviates, when they are all alike. -/
def find_long (name : CString) : Option LongOption :=
  match long_options.find? fun o => o.name = name with
  | some o => some o
  | none =>
    match long_options.filter fun o => name.isPrefixOf o.name with
    | [] => none
    | o :: os =>
      if os.all fun o' => o'.required_argument = o.required_argument && o'.val = o.val then some o
      else none

/-- The option in an argument that starts with two minus signs. -/
def long_option (arg : CString) (next : Option CString) : Opt × Bool :=
  match find_long long_options (arg.takeWhile fun c => c != '=') with
  | none => (opt_err, false)
  | some o =>
    match arg.dropWhile fun c => c != '=' with
    | _ :: value => if o.required_argument then (⟨o.val, value⟩, false) else (opt_err, false)
    | [] =>
      if o.required_argument then
        match next with
        | none => (opt_err, false)
        | some value => (⟨o.val, value⟩, true)
      else (⟨o.val, []⟩, false)

/-- The options in one argument, and whether the next one is used up. -/
def argument_options (arg : CString) (next : Option CString) : List Opt × Bool :=
  match arg with
  | '-' :: '-' :: name =>
    ([(long_option long_options name next).1], (long_option long_options name next).2)
  | '-' :: cs => short_options optstring cs next
  | _ => ([], false)

/-- The results for the arguments behind the program's name. -/
def getopt_long : List CString → List Opt
  | [] => []
  | [arg] => if arg = ['-', '-'] then [] else (argument_options optstring long_options arg none).1
  | arg :: next :: rest =>
    if arg = ['-', '-'] then []
    else
      (argument_options optstring long_options arg (some next)).1 ++
        if (argument_options optstring long_options arg (some next)).2 then getopt_long rest
        else getopt_long (next :: rest)

end Getopt

example : getopt_long "S:H".toList [⟨"slot".toList, true, 'S'⟩]
    ["Load".toList, "-HS".toList, "1".toList, "--sl=2".toList, "-x".toList, "--".toList, "-H".toList] =
      [⟨'H', []⟩, ⟨'S', ['1']⟩, ⟨'S', ['2']⟩, opt_err] := by decide

end AwsFpga.Tools
