/-
CardinalitySearch.Main — the command.

Reads the arguments, the file and the clock, and prints the report; everything
else is done by the functions of the command line.  The clock is read before
every round of the search.  The random choices are those of xoshiro256++.
-/
import CardinalitySearch.CommandLine.Report

namespace CardinalitySearch.CommandLine

/-- The number of an error of the operating system, which may be given with its
sign reversed. -/
def errorNumber (code : UInt32) : Nat :=
  min code.toNat (0 - code).toNat

/-- The fault behind an error of the operating system. -/
def ReadFault.ofError : IO.Error → ReadFault
  | .noFileOrDirectory .. => .missing
  | .permissionDenied _ code _ => .system "Permission denied" (errorNumber code)
  | .inappropriateType _ code details =>
    match errorNumber code with
    | 20 => .notDirectory
    | 21 => .isDirectory
    | number => .system details number
  | e => .system (toString e) 0

/-- The contents at a path. -/
def readContents (path : String) : IO (Except ReadFault ByteArray) := do
  try
    return .ok (← IO.FS.readBinFile path)
  catch e =>
    return .error (.ofError e)

/-- Rounds of the search until it ends, with the time since `start` as clock. -/
partial def runFrom {σ : Type} [RandomSource σ] (start : Nat) (search : Search σ)
    (condition : StopTree Limit) : IO (Run σ (StopTree Limit)) := do
  let now ← IO.monoMsNow
  let run := search.round (condition.map (Limit.withClock fun _ => now - start))
  match run.verdict with
  | .unfinished => runFrom start run.search run.condition
  | _ => return run

/-- Carries out a request to solve. -/
def solveFile (o : Options) (G : Generator) : IO Report := do
  match o.load (decode (← readContents o.path)) with
  | .error report => return report
  | .ok P =>
    let start ← IO.monoMsNow
    let run ← runFrom start (o.search G P) (o.condition fun _ => 0)
    let stop ← IO.monoMsNow
    return o.report run (toString (stop - start))

/-- The report for a list of arguments. -/
def reportFor (arguments : List String) (G : Generator) : IO Report :=
  match Request.parse arguments with
  | .error e => return .refusal e
  | .ok .help => return .help
  | .ok (.solve o) => solveFile o G

end CardinalitySearch.CommandLine

/-- Prints the report and ends with its exit code. -/
def main (arguments : List String) : IO UInt32 := do
  let report ← CardinalitySearch.CommandLine.reportFor arguments
    CardinalitySearch.Xoshiro.generator
  for line in report.output do
    IO.println line
  for line in report.errors do
    IO.eprintln line
  return report.exitCode.toUInt32
