import MatchCheck.CommandLine.Basic

/-!
# Reading the command line

Arguments are read from left to right. A word that begins with two dashes is a flag, or the option
`--only` with its value behind an equals sign or in the next word; a word that begins with one dash
is a series of short flags; every other word is a value. Two dashes alone end the flags.

Values are collected first and settled when the next known flag or a value of another kind arrives,
or at the end. So an unknown flag is reported before an empty path in front of it.
-/

namespace MatchCheck.CommandLine

/-! ### What there is to be given -/

/-- A flag. -/
inductive Flag where
  | json
  | verbose
  | quiet
  | help
  | version
  | strict
  | noCache
  | watch
  | dryRun
deriving DecidableEq, Repr

/-- The name of a flag behind two dashes. -/
def Flag.long : Flag → String
  | json => "json"
  | verbose => "verbose"
  | quiet => "quiet"
  | help => "help"
  | version => "version"
  | strict => "strict"
  | noCache => "no-cache"
  | watch => "watch"
  | dryRun => "dry-run"

/-- The name of a flag behind one dash. -/
def Flag.short? : Flag → Option Char
  | verbose => some 'v'
  | quiet => some 'q'
  | help => some 'h'
  | version => some 'V'
  | _ => none

/-- A command by its name alone. -/
inductive Verb where
  | check
  | fix
  | tokens
  | validate
  | explain
deriving DecidableEq, Repr

/-- The name of a command. -/
def Verb.name : Verb → String
  | check => "check"
  | fix => "fix"
  | tokens => "tokens"
  | validate => "validate"
  | explain => "explain"

/-- The command of a name. -/
def Verb.ofName? (name : String) : Option Verb :=
  [check, fix, tokens, validate, explain].find? (·.name = name)

/-- The word that asks for help in place of a command. -/
def helpWord : String := "help"

/-- What the values of a command are. -/
inductive Slot where
  | paths
  | path
  | text
deriving DecidableEq, Repr

/-- Whether an empty value is allowed. -/
def Slot.admits (slot : Slot) (value : String) : Bool :=
  slot = .text || value ≠ ""

/-- What can be given at one level of the command line. -/
structure Form where
  flags : List Flag
  /-- Whether there is the option `--only`. -/
  hasOnly : Bool
  slot : Slot

/-- The flags that can be given in front of a command and behind it. -/
def commonFlags : List Flag :=
  [.json, .verbose, .quiet, .help]

/-- What can be given in front of the command. -/
def topForm : Form :=
  ⟨.version :: commonFlags, false, .text⟩

/-- What can be given behind a command. -/
def Verb.form : Verb → Form
  | check => ⟨[.strict, .noCache, .watch] ++ commonFlags, false, .paths⟩
  | fix => ⟨.dryRun :: commonFlags, true, .paths⟩
  | tokens | validate => ⟨commonFlags, false, .path⟩
  | explain => ⟨commonFlags, false, .text⟩

/-! ### Flags and values -/

/-- Values that are not settled yet. -/
inductive Pending where
  | nothing
  | only (value? : Option String)
  | values (values : List String)
deriving DecidableEq, Repr

/-- What was read at one level. -/
structure Reading where
  flags : List Flag
  verbosity : Nat
  only? : Option String
  values : List String
  pending : Pending
deriving DecidableEq, Repr

/-- Nothing was read yet. -/
def Reading.start : Reading :=
  ⟨[], 0, none, [], .nothing⟩

/-- Sets the option `--only`, which can be done once. -/
def Reading.setOnly (value : String) (r : Reading) : Except UsageError Reading :=
  if r.only?.isSome then .error .repeated else .ok { r with only? := some value }

/-- Settles the values that are pending. -/
def Form.settle (form : Form) (r : Reading) : Except UsageError Reading :=
  match r.pending with
  | .nothing => .ok r
  | .only none => .error .invalidValue
  | .only (some value) => Reading.setOnly value { r with pending := .nothing }
  | .values values =>
    if values.all form.slot.admits then
      .ok { r with values := r.values ++ values, pending := .nothing }
    else .error .invalidValue

/-- Takes a flag. A flag can be given once, apart from the one that is counted. -/
def Form.takeFlag (form : Form) (flag : Flag) (r : Reading) : Except UsageError Reading := do
  let r ← form.settle r
  match flag with
  | .help => .error .help
  | .version => .error .version
  | .verbose => .ok { r with verbosity := min 255 (r.verbosity + 1) }
  | flag => if flag ∈ r.flags then .error .repeated else .ok { r with flags := flag :: r.flags }

/-- Takes a name behind two dashes, with what stands behind an equals sign. -/
def Form.takeLong (form : Form) (name : String) (value? : Option String) (r : Reading) :
    Except UsageError Reading :=
  if form.hasOnly && name = "only" then do
    let r ← form.settle r
    match value? with
    | some value => r.setOnly value
    | none => .ok { r with pending := .only none }
  else
    match form.flags.find? (·.long = name) with
    | none => .error .unknownArgument
    | some flag => if value?.isSome then .error .unneededValue else form.takeFlag flag r

/-- Takes the flags of a series behind one dash. -/
def Form.takeShorts (form : Form) (r : Reading) (names : List Char) : Except UsageError Reading :=
  names.foldlM (fun r name =>
    match form.flags.find? (·.short? = some name) with
    | none => .error .unknownArgument
    | some flag => form.takeFlag flag r) r

/-- Whether a single value was given. -/
def Reading.hasValue (r : Reading) : Bool :=
  !r.values.isEmpty || (match r.pending with
    | .values _ => true
    | _ => false)

/-- Takes a value of the command. Where there can be several, those that stand together are settled
together. -/
def Form.takeValue (form : Form) (value : String) (r : Reading) : Except UsageError Reading :=
  match form.slot, r.pending with
  | .paths, .values values => .ok { r with pending := .values (values ++ [value]) }
  | .paths, _ => do return { ← form.settle r with pending := .values [value] }
  | _, _ =>
    if r.hasValue then .error .unknownArgument
    else do return { ← form.settle r with pending := .values [value] }

/-- What an argument is by its look. -/
inductive Look where
  | dashes
  | long (name : String) (value? : Option String)
  | shorts (names : List Char)
  | value
deriving DecidableEq, Repr

/-- Looks at an argument. A dash alone is a value. -/
def look (arg : String) : Look :=
  match arg.toList with
  | ['-', '-'] => .dashes
  | '-' :: '-' :: cs =>
    let value? := match cs.dropWhile (· ≠ '=') with
      | [] => none
      | _ :: value => some (String.ofList value)
    .long (String.ofList (cs.takeWhile (· ≠ '='))) value?
  | '-' :: c :: cs => .shorts (c :: cs)
  | _ => .value

/-- Reads the arguments of a command. -/
def Form.read (form : Form) (r : Reading) : List String → Except UsageError Reading
  | [] => form.settle r
  | arg :: args => do
    match look arg with
    | .dashes => form.settle (← args.foldlM (fun r value => form.takeValue value r) r)
    | .long name value? => form.read (← form.takeLong name value? r) args
    | .shorts names => form.read (← form.takeShorts r names) args
    | .value =>
      if r.pending = .only none then form.read { r with pending := .only (some arg) } args
      else form.read (← form.takeValue arg r) args

/-! ### The whole command line -/

/-- The paths that values name; without any, the current directory. -/
def pathsOf (values : List String) : List Path :=
  (if values.isEmpty then ["."] else values).map Path.ofString

/-- The only value of a command that needs one. -/
def singleValue (r : Reading) : Except UsageError String :=
  match r.values with
  | value :: _ => .ok value
  | [] => .error .missingArgument

/-- The command that was read. -/
def Verb.command (verb : Verb) (r : Reading) : Except UsageError Command :=
  let has (flag : Flag) : Bool := flag ∈ r.flags
  match verb with
  | check => .ok (.check (pathsOf r.values) (has .strict) (has .noCache) (has .watch))
  | fix => .ok (.fix (pathsOf r.values) r.only? (has .dryRun))
  | tokens => do return .tokens (.ofString (← singleValue r))
  | validate => do return .validate (.ofString (← singleValue r))
  | explain => do return .explain (← singleValue r)

/-- Reads what stands behind a command, given what was read in front of it. The flags of both sides
count; of the counted one, those behind the command replace those in front of it. -/
def Verb.read (verb : Verb) (top : Reading) (args : List String) :
    Except UsageError CommandLine := do
  let r ← verb.form.read .start args
  let command ← verb.command r
  let has (flag : Flag) : Bool := flag ∈ top.flags || flag ∈ r.flags
  return ⟨command, has .json, if r.verbosity = 0 then top.verbosity else r.verbosity, has .quiet⟩

/-- Reads what stands behind the word that asks for help: at most one command. -/
def readHelp : List String → UsageError
  | [] => .help
  | name :: rest =>
    if ((Verb.ofName? name).isSome || name = helpWord) && rest.isEmpty then .help
    else .unknownCommand

/-- The error when there is no command. -/
def noCommand (top : Reading) : UsageError :=
  if top.flags.isEmpty && top.verbosity = 0 then .noArguments else .missingCommand

/-- Reads what stands in front of the command, and then the command. -/
def readTop (top : Reading) : List String → Except UsageError CommandLine
  | [] => .error (noCommand top)
  | arg :: args =>
    match Verb.ofName? arg with
    | some verb => verb.read top args
    | none =>
      if arg = helpWord then .error (readHelp args)
      else do
        match look arg with
        | .dashes =>
          match args with
          | [] => .error (noCommand top)
          | word :: _ =>
            if (Verb.ofName? word).isSome || word = helpWord then .error .unknownArgument
            else .error .unknownCommand
        | .long name value? => readTop (← topForm.takeLong name value? top) args
        | .shorts names => readTop (← topForm.takeShorts top names) args
        | .value => .error .unknownCommand

/-- The command line that arguments spell. -/
def ofArgs (args : List String) : Except UsageError CommandLine :=
  readTop .start args

end MatchCheck.CommandLine
