import OpacityMigration.CommandLine.Envelope
import OpacityMigration.CommandLine.Help
import OpacityMigration.CommandLine.Parser

/-!
# Running a command line

`execute` runs a command on a file system and gives back all that can be printed about it, as text
and as data. `run` answers a whole command line: what is written to the two output streams, the
status with which the program ends, and the file system afterwards.

Text is printed line by line as files are handled, data once at the end. So a line that cannot be
printed breaks the run off, with the files handled up to there, while data that cannot be printed
find everything done.
-/

namespace OpacityMigration.CommandLine

open FileSystem (Sink)

/-- What the program is connected to. -/
structure Console where
  output : Sink
  /-- Whether the error stream is a terminal; only then is progress reported. -/
  terminal : Bool
deriving DecidableEq, Repr

structure Answer where
  status : Nat
  output : String
  errors : String
  after : FileSystem

/-- The status of a run that ends with a report: 2 if the user can mend it by other arguments or
another configuration, else 1. -/
def status : Report.Code → Nat
  | .invalidJson => 2
  | .invalidValue => 2
  | .invalidArgument => 2
  | .ioError => 1
  | .jsonError => 1
  | .unexpected => 1

/-- What a command does, with all that can be printed about it. -/
structure Performance where
  /-- What is noticed before anything is printed. -/
  opening : List Migration.Notice
  /-- The pieces in which text is printed, each with the file system at that time. -/
  pieces : List (String × FileSystem)
  /-- What is noticed at the end. -/
  closing : List Migration.Notice
  /-- The data, and the status with which to end. -/
  result : Except Failure (Json × Nat)
  after : FileSystem

namespace Performance

/-- What to print as text. -/
def text (p : Performance) : String :=
  String.join (p.pieces.map Prod.fst)

/-- What to print as data. -/
def envelope (p : Performance) : Json :=
  match p.result with
  | .ok (data, _) => dataEnvelope data
  | .error failure => reportEnvelope failure.report

/-- The status with which the command ends. -/
def ending (p : Performance) : Nat :=
  match p.result with
  | .ok (_, status) => status
  | .error failure => status failure.report.code

/-- What the error stream says of a failure when the answer is text. -/
def complaint (p : Performance) : String :=
  match p.result with
  | .ok _ => ""
  | .error failure => reportText failure.report

end Performance

def configure (fs : FileSystem) (target : Target) : Except Failure Config :=
  match fs.currentDirectory with
  | .error fault => .error (.refused fault .findCurrentDirectory)
  | .ok cwd => Config.resolve fs target.config cwd target.overrides

def execute (fs : FileSystem) (command : Command) : Performance :=
  match configure fs command.target with
  | .error failure => ⟨[], [], [], .error failure, fs⟩
  | .ok config =>
    match command with
    | .migrate _ dryRun check =>
      let preview := dryRun || check
      let run := Migration.migrate fs config !preview
      let pieces := run.trace.map fun (edit, fs) => (editLine edit, fs)
      let result := run.result.map fun summary =>
        (migrationData preview summary, if check && summary.filesChanged > 0 then 1 else 0)
      ⟨run.opening, pieces, run.closing, result, run.after⟩
    | .scan _ =>
      let notices := Migration.walkNotices fs config
      match Scan.scan fs config with
      | .error failure => ⟨notices, [], [], .error failure, fs⟩
      | .ok references =>
        ⟨notices, [(String.join (references.map referenceLine), fs)], [],
          .ok (scanData config.root references, 0), fs⟩

/-- Why a text cannot all be printed. -/
def unprinted? (output : Sink) (text : String) : Option FileSystem.Fault :=
  output.fault? (Utf8.encode text.toList)

/-- What is there of a text once it was printed. -/
def shown (output : Sink) (text : String) : String :=
  match unprinted? output text with
  | none => text
  | some _ => Utf8.lossyString (output.taken (Utf8.encode text.toList))

/-- The first piece that cannot be printed, as the reason and the file system at that time; `done`
is what was printed before. -/
def breaksAt (output : Sink) (done : String) :
    List (String × FileSystem) → Option (FileSystem.Fault × FileSystem)
  | [] => none
  | (text, fs) :: pieces =>
    match unprinted? output (done ++ text) with
    | some fault => some (fault, fs)
    | none => breaksAt output (done ++ text) pieces

/-- Lines on the error stream if it is a terminal. -/
def Console.progress (console : Console) (lines : List String) : String :=
  if console.terminal then textOfLines lines else ""

/-- The status of a run that breaks off because a line cannot be printed. -/
def brokenOff : Nat := 101

/-- Answers with text: what was done on standard output, a failure on the error stream. Where a
piece of the text cannot be printed, the run breaks off. -/
def answerText (console : Console) (p : Performance) : Answer :=
  match breaksAt console.output "" p.pieces with
  | some (fault, after) =>
    let progress := console.progress (p.opening.map Migration.Notice.text)
    ⟨brokenOff, shown console.output p.text,
      progress ++ "failed printing to stdout: " ++ fault.message ++ "\n", after⟩
  | none =>
    let progress := console.progress ((p.opening ++ p.closing).map Migration.Notice.text)
    ⟨p.ending, p.text, progress ++ p.complaint, p.after⟩

/-- Answers with a JSON envelope on standard output. If it cannot be printed the program fails; but
if nobody reads it, nothing more is said. -/
def answerJson (console : Console) (p : Performance) : Answer :=
  let progress :=
    console.progress
      ("alphafix is working..." :: (p.opening ++ p.closing).map Migration.Notice.text)
  let text := printed p.envelope
  match unprinted? console.output text with
  | none => ⟨p.ending, text, progress, p.after⟩
  | some .brokenPipe => ⟨p.ending, shown console.output text, progress, p.after⟩
  | some fault =>
    let report := (Failure.refused fault .writeOutput).report
    ⟨status report.code, shown console.output text, progress ++ reportText report, p.after⟩

def run (fs : FileSystem) (console : Console) (args : List Argument) : Answer :=
  match parse args with
  | .error misuse => ⟨2, "", misuse.text, fs⟩
  | .ok (.help topic) => ⟨0, shown console.output topic.text, "", fs⟩
  | .ok .version => ⟨0, shown console.output versionText, "", fs⟩
  | .ok (.run true command) => answerJson console (execute fs command)
  | .ok (.run false command) => answerText console (execute fs command)

end OpacityMigration.CommandLine
