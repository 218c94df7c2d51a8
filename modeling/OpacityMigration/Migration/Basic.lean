import OpacityMigration.Migration.Edit
import OpacityMigration.Migration.Walk

/-!
# Migrating a tree

`migrate` walks the tree of a configuration and migrates the files it finds. A run records what it
noticed on the way, the edits it made, its result, and the file system afterwards. A failure keeps
the edits made before it.
-/

namespace OpacityMigration.Migration

/-- What a run notices on its way. -/
inductive Notice
  | rootMissing (root : Path)
  | scanning (root : Path) (files : Nat)
  | replaced (replacements files : Nat) (preview : Bool)
deriving DecidableEq, Repr

def Notice.text : Notice → String
  | .rootMissing root => "[migrate] " ++ root.display ++ " does not exist, nothing to do"
  | .scanning root files =>
    "[migrate] Scanning " ++ root.display ++ " (" ++ toString files ++ " files)"
  | .replaced replacements files preview =>
    "[migrate] " ++ toString replacements ++ " replacement(s) in " ++ toString files ++
      " file(s)" ++ if preview then " (dry run)" else ""

structure Summary where
  root : Path
  filesScanned : Nat
  edits : List Edit
  applied : Bool
deriving DecidableEq, Repr

namespace Summary

def totalReplacements (s : Summary) : Nat :=
  s.edits.foldr (fun e total => e.replacements + total) 0

def filesChanged (s : Summary) : Nat :=
  s.edits.length

end Summary

/-- A run of the program over a tree, with a result of type `α`. -/
structure Run (α : Type) where
  /-- What is noticed before the first file is handled. -/
  opening : List Notice
  /-- The edits made, in order, also those before a failure, each with the file system right after
  it. -/
  trace : List (Edit × FileSystem)
  /-- What is noticed once all files are handled. -/
  closing : List Notice
  result : Except Failure α
  after : FileSystem

def Run.edits {α : Type} (run : Run α) : List Edit :=
  run.trace.map Prod.fst

def walkNotices (fs : FileSystem) (config : Config) : List Notice :=
  match fs.lookup config.root with
  | .error _ => [.rootMissing config.root]
  | .ok _ => []

/-- Migrates the tree of a configuration; without `write`, only says what would change. -/
def migrate (fs : FileSystem) (config : Config) (write : Bool) : Run Summary :=
  let missing := walkNotices fs config
  match Walk.walk fs config with
  | .error failure => ⟨missing, [], [], .error failure, fs⟩
  | .ok paths =>
    let opening := missing ++ [.scanning config.root paths.length]
    let pass := migrateFiles write fs paths
    match pass.failure with
    | some failure => ⟨opening, pass.trace, [], .error failure, pass.after⟩
    | none =>
      let summary : Summary := ⟨config.root, paths.length, pass.edits, write⟩
      ⟨opening, pass.trace,
        [.replaced summary.totalReplacements summary.filesChanged !write], .ok summary, pass.after⟩

end OpacityMigration.Migration
