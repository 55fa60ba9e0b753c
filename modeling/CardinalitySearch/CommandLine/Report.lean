/-
CardinalitySearch.CommandLine.Report — what the command prints.

The command reads a problem, searches until a solution is found or a limit is
reached, and prints the solution or that there is none known, followed by the
statistics.  A problem that cannot be read ends it with exit code 1 and the
causes of the failure, the nearest one first; wrong arguments end it with exit
code 2.

All of this is a function of the arguments, of what reading a path gives, of
the clock, and of the generator that has a source for each seed.
-/
import CardinalitySearch.CommandLine.Options
import CardinalitySearch.Problem.Text
import CardinalitySearch.Random.Xoshiro
import CardinalitySearch.Search.Solve
import CardinalitySearch.Search.Statistics
import CardinalitySearch.Text.Pieces

namespace CardinalitySearch.CommandLine

/-- What the command leaves behind. -/
structure Report where
  /-- The exit code; zero is success. -/
  exitCode : Nat
  /-- The lines on standard output. -/
  output : List String
  /-- The lines on standard error. -/
  errors : List String
deriving DecidableEq

/-- Why a file cannot be read. -/
inductive ReadFault where
  /-- The operating system refuses, with its description and number of the error. -/
  | system (description : String) (code : Nat)
  /-- The contents are not UTF-8. -/
  | notText
deriving DecidableEq

namespace ReadFault

/-- There is nothing at the path. -/
def missing : ReadFault :=
  .system "No such file or directory" 2

/-- The path goes through something that is not a directory. -/
def notDirectory : ReadFault :=
  .system "Not a directory" 20

/-- There is a directory at the path. -/
def isDirectory : ReadFault :=
  .system "Is a directory" 21

/-- The wording of the fault. -/
def message : ReadFault → String
  | .system description code => description ++ " (os error " ++ toString code ++ ")"
  | .notText => "stream did not contain valid UTF-8"

end ReadFault

/-- The text whose UTF-8 form was read. -/
def decode : Except ReadFault ByteArray → Except ReadFault String
  | .error fault => .error fault
  | .ok bytes =>
    match String.fromUTF8? bytes with
    | some text => .ok text
    | none => .error .notText

namespace Report

/-- The lines of a message, which may hold line feeds: `lead` stands before the
first line and `indent` before every other one. -/
def messageLines (lead indent message : String) : List String :=
  match Text.pieces '\n' message.toList with
  | [] => []
  | first :: more =>
    (lead ++ String.ofList first) :: more.map fun line => indent ++ String.ofList line

/-- The lines of the causes of a failure; several causes are numbered. -/
def causeLines : List String → List String
  | [] => []
  | [cause] => "" :: "Caused by:" :: messageLines "    " "    " cause
  | causes =>
    "" :: "Caused by:" ::
      causes.zipIdx.flatMap fun (cause, i) =>
        messageLines ("    " ++ toString i ++ ": ") "       " cause

/-- A failure with its causes, the nearest one first. -/
def failure (context : String) (causes : List String) : Report where
  exitCode := 1
  output := []
  errors := messageLines "Error: " "" context ++ causeLines causes

/-- The refusal of arguments. -/
def refusal (e : UsageError) : Report where
  exitCode := 2
  output := []
  errors := messageLines "error: " "" e.message ++ ["", "For more information, try '--help'."]

/-- The answer to a request for help. -/
def help : Report where
  exitCode := 0
  output := usage
  errors := []

end Report

/-- How the command prints statistics. -/
def statisticsFormat : StatisticsFormat where
  lead := "%% "
  closing := none

/-- The lines of a solution, one for each proposition in order, and the line
after them. -/
def solutionLines (P : Problem) (solution : Assignment) : List String :=
  (P.names.toList.zipIdx.map fun (name, p) => name ++ " = " ++ toString (solution.value p) ++ ";")
    ++ ["----------"]

/-- The lines that answer a request to solve. -/
def answerLines (P : Problem) : Verdict → List String
  | .satisfiable solution => solutionLines P solution
  | .unknown | .unfinished => ["UNKNOWN"]

namespace Options

/-- What the search is told. -/
def settings (o : Options) : Settings where
  noise := o.noise
  adaptive := !o.fixedNoise

/-- The search of a problem. -/
def search (o : Options) (G : Generator) (P : Problem) : Search G.State :=
  let source := G.ofSeed o.seed
  let (a, source) :=
    if o.allFalse then (Assignment.allFalse P.propositionCount, source)
    else Assignment.random P.propositionCount source
  Search.ofAssignment P o.settings a source

/-- When the search is to stop. -/
def condition (o : Options) (clock : Nat → Nat) : StopTree Limit :=
  .both (.ofOption (o.maxSteps.map .steps))
    (.ofOption (o.timeOut.map fun seconds => Limit.timeBudget seconds clock))

/-- The problem in a text that was read, or the report that there is none. -/
def load (o : Options) : Except ReadFault String → Except Report Problem
  | .error fault => .error (.failure ("Error reading " ++ o.path) [fault.message])
  | .ok text =>
    match Problem.parse text with
    | .ok P => .ok P
    | .error e =>
      .error (.failure ("Failed to parse a problem from " ++ o.path)
        [e.message, e.cause.message])

/-- The report of a run that took the given number of milliseconds. -/
def report {σ τ : Type} (o : Options) (run : Run σ τ) (milliseconds : String) : Report :=
  let P := run.search.problem
  let answer := answerLines P run.verdict
  let complete : Report :=
    { exitCode := 0
      output := answer ++ run.search.statisticsLines statisticsFormat milliseconds
      errors := [] }
  if o.checkConsistency then
    match run.search.state.check P with
    | .inconsistent reason =>
      { exitCode := 1, output := answer, errors := Report.messageLines "Error: " "" reason.message }
    | .consistent | .undefined => complete
  else complete

/-- Loads, searches and reports. -/
def solve (o : Options) (G : Generator) (text : Except ReadFault String) (clock : Nat → Nat)
    (milliseconds : String) : Report :=
  match o.load text with
  | .error report => report
  | .ok P => o.report ((o.search G P).solve (o.condition clock)) milliseconds

end Options

/-- Carries out the command: `read` gives the contents at a path, `clock` the
milliseconds that have passed at each question whether to stop, `G` the random
choices for a seed. -/
def execute (arguments : List String) (read : String → Except ReadFault ByteArray)
    (clock : Nat → Nat) (milliseconds : String) (G : Generator := Xoshiro.generator) : Report :=
  match Request.parse arguments with
  | .error e => .refusal e
  | .ok .help => .help
  | .ok (.solve o) => o.solve G (decode (read o.path)) clock milliseconds

end CardinalitySearch.CommandLine
