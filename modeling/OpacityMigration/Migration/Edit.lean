import OpacityMigration.Call.Rewrite
import OpacityMigration.Failure
import OpacityMigration.FileSystem.Basic

/-!
# Migrating files

A file is read, its text is rewritten, and where that changes the text it is written back, unless
the migration is only a preview. Files are handled one at a time, and the first failure ends a pass:
what was written stays written, what comes later is not read. A file that could be opened but not
written to its end stays as far as it was written.
-/

namespace OpacityMigration

structure Edit where
  /-- The path by which the file was reached. -/
  path : Path
  replacements : Nat
  written : Bool
deriving DecidableEq, Repr

namespace Migration

/-- What comes of a file when it gets its turn. -/
structure Turn where
  /-- There is an edit if the text changed. -/
  result : Except Failure (Option Edit)
  /-- The file system that the turn leaves behind, also if it fails. -/
  after : FileSystem

/-- The turn of the file that `path` leads to. -/
def takeTurn (fs : FileSystem) (path : Path) (write : Bool) : Turn :=
  match fs.readText path with
  | .error fault => ⟨.error (.refused fault (.readFile path)), fs⟩
  | .ok text =>
    let rewritten := Call.rewrite text
    if rewritten.content = text then ⟨.ok none, fs⟩
    else
      let edit : Edit := ⟨path, rewritten.replacements, write⟩
      if write then
        match fs.writeText path rewritten.content with
        | (some fault, after) => ⟨.error (.refused fault (.writeFile path)), after⟩
        | (none, after) => ⟨.ok (some edit), after⟩
      else ⟨.ok (some edit), fs⟩

/-- Migrates one file: the edit, if there is one, and the file system after it. -/
def migrateFile (fs : FileSystem) (path : Path) (write : Bool) :
    Except Failure (Option Edit × FileSystem) :=
  let turn := takeTurn fs path write
  turn.result.map fun edit => (edit, turn.after)

structure Pass where
  /-- The edits, in the order in which they were made, each with the file system right after it. -/
  trace : List (Edit × FileSystem)
  /-- Why the pass ended early, if it did. -/
  failure : Option Failure
  after : FileSystem

def Pass.edits (pass : Pass) : List Edit :=
  pass.trace.map Prod.fst

/-- Migrates files in order, up to the first failure; `done` holds the trace so far, newest
first. -/
def migrateFilesFrom (write : Bool) (done : List (Edit × FileSystem)) (fs : FileSystem) :
    List Path → Pass
  | [] => ⟨done.reverse, none, fs⟩
  | path :: paths =>
    match takeTurn fs path write with
    | ⟨.error failure, after⟩ => ⟨done.reverse, some failure, after⟩
    | ⟨.ok none, after⟩ => migrateFilesFrom write done after paths
    | ⟨.ok (some edit), after⟩ => migrateFilesFrom write ((edit, after) :: done) after paths

/-- Migrates files in order, up to the first failure. -/
def migrateFiles (write : Bool) (fs : FileSystem) (paths : List Path) : Pass :=
  migrateFilesFrom write [] fs paths

end Migration

end OpacityMigration
