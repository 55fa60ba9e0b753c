/-
CardinalitySearch.CommandLine.Options — the arguments of the command.

The command takes one path and options.  An option with a value is written
with a long name (`--seed 7`, `--seed=7`) or a short one (`-s 7`, `-s7`,
`-s=7`); a separate value must not look like an option.  A flag has a long
name and no value.  Each option is given at most once.  After `--` every
argument is a path.

Arguments are read from left to right and the first fault ends the reading, as
does a request for help.
-/
import CardinalitySearch.Noise
import CardinalitySearch.Text.Numeral

namespace CardinalitySearch.CommandLine

open Text

/-- The options that have a value. -/
inductive Setting where
  | seed
  | noise
  | maxSteps
  | timeOut
deriving DecidableEq

/-- The options without a value. -/
inductive Flag where
  | fixedNoise
  | allFalse
  | checkConsistency
deriving DecidableEq

/-- What the name of an option stands for. -/
inductive Switch where
  | help
  | flag (flag : Flag)
  | setting (setting : Setting)
deriving DecidableEq

/-- What the command was told to do. -/
structure Options where
  /-- The path of the problem. -/
  path : String
  /-- The seed of the random choices. -/
  seed : Nat := 42
  /-- The noise level at the start. -/
  noise : Nat := Noise.default.percent
  /-- The greatest number of steps. -/
  maxSteps : Option Nat := none
  /-- The number of seconds after which to stop. -/
  timeOut : Option Nat := none
  /-- Whether the noise level stays as it is. -/
  fixedNoise : Bool := false
  /-- Whether to start with every proposition false. -/
  allFalse : Bool := false
  /-- Whether to check the final state. -/
  checkConsistency : Bool := false
deriving DecidableEq

/-- Why arguments are refused. -/
inductive UsageError where
  /-- There is no path. -/
  | missingPath
  /-- The path is empty. -/
  | emptyPath
  /-- There is a second path. -/
  | surplusPath (path : String)
  /-- No option has this name. -/
  | unknownOption (argument : String)
  /-- An option lacks its value. -/
  | missingValue (setting : Setting)
  /-- A flag has a value. -/
  | unexpectedValue (flag : Flag)
  /-- The value of an option is not in its range. -/
  | invalidValue (setting : Setting) (value : String)
  /-- An option with a value is given twice. -/
  | repeatedSetting (setting : Setting)
  /-- A flag is given twice. -/
  | repeatedFlag (flag : Flag)
deriving DecidableEq

/-- A request that can be understood. -/
inductive Request where
  /-- Print how the command is used. -/
  | help
  /-- Solve a problem. -/
  | solve (options : Options)
deriving DecidableEq

/-- The arguments read so far. -/
structure Reading where
  /-- The path. -/
  path : Option String := none
  /-- The values of the options, as numbers. -/
  settings : List (Setting × Nat) := []
  /-- The flags. -/
  flags : List Flag := []
deriving DecidableEq

namespace Setting

/-- The long name. -/
def name : Setting → String
  | .seed => "seed"
  | .noise => "noise"
  | .maxSteps => "max-steps"
  | .timeOut => "time-out"

/-- The short name. -/
def letter : Setting → Char
  | .seed => 's'
  | .noise => 'n'
  | .maxSteps => 'm'
  | .timeOut => 't'

/-- Every option that has a value. -/
def all : List Setting :=
  [.seed, .noise, .maxSteps, .timeOut]

/-- Reads a percentage.  It is a signed number, so zero may have a minus sign. -/
def percentage? : List Char → Option Nat
  | '-' :: text => (digits? text).filter (· = 0)
  | text => numeral? Noise.maximum text

/-- Reads the value. -/
def value? (setting : Setting) (text : List Char) : Option Nat :=
  match setting with
  | .noise => percentage? text
  | .seed | .maxSteps | .timeOut => numeral? maxWord64 text

end Setting

namespace Flag

/-- The long name. -/
def name : Flag → String
  | .fixedNoise => "fixed-noise"
  | .allFalse => "all-false"
  | .checkConsistency => "check-consistency"

/-- Every flag. -/
def all : List Flag :=
  [.fixedNoise, .allFalse, .checkConsistency]

end Flag

namespace Switch

/-- The option with a long name. -/
def ofName? (name : String) : Option Switch :=
  if name = "help" then some .help
  else
    match Setting.all.find? (·.name = name) with
    | some s => some (.setting s)
    | none => (Flag.all.find? (·.name = name)).map .flag

/-- The option with a short name. -/
def ofLetter? (letter : Char) : Option Switch :=
  if letter = 'h' then some .help
  else (Setting.all.find? (·.letter = letter)).map .setting

end Switch

/-- An argument by its form. -/
inductive Argument where
  /-- The end of the options. -/
  | separator
  /-- A path, or the value of the option before it. -/
  | plain
  /-- The name of an option, with the value attached to it, if any. -/
  | option (switch : Switch) (attached : Option (List Char))
  /-- It looks like an option but names none. -/
  | unknown
deriving DecidableEq

namespace Argument

/-- A long name, up to the first equals sign, and the value after that. -/
def ofLong (text : List Char) : Argument :=
  let name := text.takeWhile (· ≠ '=')
  let attached :=
    match text.dropWhile (· ≠ '=') with
    | [] => none
    | _ :: value => some value
  match Switch.ofName? (String.ofList name) with
  | some switch => .option switch attached
  | none => .unknown

/-- A short name, and the value after it or after an equals sign.  What follows
a short request for help does not matter. -/
def ofShort (letter : Char) (text : List Char) : Argument :=
  let attached :=
    match text with
    | [] => none
    | '=' :: value => some value
    | value => some value
  match Switch.ofLetter? letter with
  | some .help => .option .help none
  | some switch => .option switch attached
  | none => .unknown

/-- The form of an argument before the end of the options. -/
def classify (text : List Char) : Argument :=
  match text with
  | ['-', '-'] => .separator
  | '-' :: '-' :: text => ofLong text
  | '-' :: letter :: text => ofShort letter text
  | _ => .plain

end Argument

namespace Reading

/-- Takes a path. -/
def addPath (r : Reading) (path : String) : Except UsageError Reading :=
  if r.path.isSome then .error (.surplusPath path)
  else if path.isEmpty then .error .emptyPath
  else .ok { r with path := some path }

/-- Takes a flag. -/
def addFlag (r : Reading) (flag : Flag) : Except UsageError Reading :=
  if flag ∈ r.flags then .error (.repeatedFlag flag)
  else .ok { r with flags := flag :: r.flags }

/-- Takes an option with its value. -/
def addSetting (r : Reading) (setting : Setting) (text : List Char) :
    Except UsageError Reading :=
  if (r.settings.lookup setting).isSome then .error (.repeatedSetting setting)
  else
    match setting.value? text with
    | some value => .ok { r with settings := (setting, value) :: r.settings }
    | none => .error (.invalidValue setting (String.ofList text))

/-- Reads the arguments after the end of the options. -/
def readPaths (r : Reading) : List String → Except UsageError Reading
  | [] => .ok r
  | path :: rest =>
    match r.addPath path with
    | .ok r => r.readPaths rest
    | .error e => .error e

/-- Reads arguments; `none` when help is asked for. -/
def read (r : Reading) : List String → Except UsageError (Option Reading)
  | [] => .ok (some r)
  | argument :: rest =>
    match Argument.classify argument.toList with
    | .separator => (r.readPaths rest).map some
    | .unknown => .error (.unknownOption argument)
    | .option .help (some _) => .error (.unknownOption argument)
    | .option .help none => .ok none
    | .option (.flag flag) (some _) => .error (.unexpectedValue flag)
    | .option (.flag flag) none =>
      match r.addFlag flag with
      | .ok r => r.read rest
      | .error e => .error e
    | .option (.setting setting) (some value) =>
      match r.addSetting setting value with
      | .ok r => r.read rest
      | .error e => .error e
    | .option (.setting setting) none =>
      match rest with
      | [] => .error (.missingValue setting)
      | value :: rest =>
        match Argument.classify value.toList with
        | .plain =>
          match r.addSetting setting value.toList with
          | .ok r => r.read rest
          | .error e => .error e
        | _ => .error (.missingValue setting)
    | .plain =>
      match r.addPath argument with
      | .ok r => r.read rest
      | .error e => .error e

/-- The options read, with the values of those that are not given. -/
def options? (r : Reading) : Option Options :=
  r.path.map fun path =>
    { path := path
      seed := (r.settings.lookup .seed).getD 42
      noise := (r.settings.lookup .noise).getD Noise.default.percent
      maxSteps := r.settings.lookup .maxSteps
      timeOut := r.settings.lookup .timeOut
      fixedNoise := .fixedNoise ∈ r.flags
      allFalse := .allFalse ∈ r.flags
      checkConsistency := .checkConsistency ∈ r.flags }

end Reading

/-- Reads the arguments of the command. -/
def Request.parse (arguments : List String) : Except UsageError Request :=
  match ({} : Reading).read arguments with
  | .error e => .error e
  | .ok none => .ok .help
  | .ok (some r) =>
    match r.options? with
    | some options => .ok (.solve options)
    | none => .error .missingPath

/-- The wording of a refusal. -/
def UsageError.message : UsageError → String
  | .missingPath => "the path of a problem is required"
  | .emptyPath => "the path of the problem is empty"
  | .surplusPath path => "unexpected argument '" ++ path ++ "'"
  | .unknownOption argument => "unexpected argument '" ++ argument ++ "'"
  | .missingValue setting => "a value is required for '--" ++ setting.name ++ "'"
  | .unexpectedValue flag => "'--" ++ flag.name ++ "' takes no value"
  | .invalidValue setting value =>
    "invalid value '" ++ value ++ "' for '--" ++ setting.name ++ "'"
  | .repeatedSetting setting => "'--" ++ setting.name ++ "' is given more than once"
  | .repeatedFlag flag => "'--" ++ flag.name ++ "' is given more than once"

/-- How the command is used. -/
def usage : List String :=
  [ "Usage: cardinality-search [OPTIONS] <INSTANCE>",
    "",
    "Options:",
    "  -s, --seed <SEED>            seed of the random choices (42)",
    "  -n, --noise <PERCENT>        percentage of random moves at the start (50)",
    "      --fixed-noise            keep the percentage of random moves as it is",
    "      --all-false              start with every proposition false",
    "  -m, --max-steps <STEPS>      stop after this many steps",
    "  -t, --time-out <SECONDS>     stop after this many seconds",
    "      --check-consistency      count every constraint anew after the search",
    "  -h, --help                   print this text" ]

end CardinalitySearch.CommandLine
