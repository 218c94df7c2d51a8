import OpacityMigration.Call.Occurrence
import OpacityMigration.Migration.Walk
import OpacityMigration.Text.Place

/-!
# Scanning a tree

`scan` lists the deprecated calls in the files of a tree, file by file in the order of the walk and
in each file in the order of the text. It writes nothing.
-/

namespace OpacityMigration

structure Reference where
  /-- The path by which the file was reached. -/
  path : Path
  /-- Where the call starts. -/
  place : Text.Place
  matched : List Char
  replacement : List Char
deriving DecidableEq, Repr

namespace Scan

/-- The calls of a text as references to the file with the given path. -/
def references (path : Path) (text : List Char) : List Reference :=
  (Call.find text).map fun o => ⟨path, Text.locate text o.start, o.matched, o.replacement⟩

def scanFile (fs : FileSystem) (path : Path) : Except Failure (List Reference) :=
  match fs.readText path with
  | .error fault => .error (.refused fault (.readFile path))
  | .ok text => .ok (references path text)

def scan (fs : FileSystem) (config : Config) : Except Failure (List Reference) :=
  match Walk.walk fs config with
  | .error failure => .error failure
  | .ok paths => Walk.collect (scanFile fs) paths

/-- How many files the references are in: runs of references with the same file, as messages show
it, count once. -/
def countFiles : List Reference → Nat
  | [] => 0
  | [_] => 1
  | r :: s :: more =>
    if r.path.display = s.path.display then countFiles (s :: more) else countFiles (s :: more) + 1

end Scan

end OpacityMigration
