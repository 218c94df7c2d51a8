import OpacityMigration.Config.Decoder
import OpacityMigration.Failure
import OpacityMigration.FileSystem.Basic

/-!
# The configuration of a run

A key is taken from the command line, else from the configuration file, else from the standard
configuration. Extensions are normalised at the end. A configuration file that is named has to be
there; one that is not named is used if it stands in the working directory.
-/

namespace OpacityMigration.Config

def fileName : Name :=
  Utf8.encode "alphafix.json".toList

structure Overrides where
  root : Option Path
  /-- No extensions mean that none were given. -/
  extensions : List String
deriving DecidableEq, Repr

/-- The given values as a configuration with missing keys. -/
def Overrides.draft (overrides : Overrides) : Draft where
  root := overrides.root
  extensions := if overrides.extensions.isEmpty then none else some overrides.extensions
  skipDirs := none

def readFile (fs : FileSystem) (path : Path) : Except Failure Draft :=
  match fs.readText path with
  | .error fault => .error (.refused fault (.readFile path))
  | .ok text => (decodeFile text).mapError (.notConfig path)

/-- The configuration file to use: the one that is named, or that of the directory `cwd` if it has
one. -/
def consulted? (fs : FileSystem) (named : Option Path) (cwd : Path) : Option Path :=
  match named with
  | some path => some path
  | none =>
    let path := cwd.child fileName
    if fs.isFile path then some path else none

/-- The configuration before its extensions are normalised. -/
def merged (fs : FileSystem) (named : Option Path) (cwd : Path) (overrides : Overrides) :
    Except Failure Config :=
  match consulted? fs named cwd with
  | none => .ok (overrides.draft.fill standard)
  | some path => (readFile fs path).map fun file => overrides.draft.fill (file.fill standard)

def resolve (fs : FileSystem) (named : Option Path) (cwd : Path) (overrides : Overrides) :
    Except Failure Config :=
  match merged fs named cwd overrides with
  | .error failure => .error failure
  | .ok config =>
    match Extension.normalize config.extensions with
    | .error fault => .error (.badExtensions fault)
    | .ok extensions => .ok { config with extensions }

end OpacityMigration.Config
