import OpacityMigration.Config.Basic
import OpacityMigration.Failure
import OpacityMigration.FileSystem.Basic

/-!
# Walking a tree

`walk` lists the wanted files below the root of a configuration, in the order of their paths, name
by name. Links to directories are not entered; links to regular files count as files. A root that
is not there has no files. A directory that cannot be listed makes the walk fail; in one that can
be listed but not searched nothing is found.
-/

namespace OpacityMigration.Walk

/-- Whether a file of this name has one of the extensions: the name is text and ends in a dot and
the extension. -/
def isWanted (extensions : List String) (name : Name) : Bool :=
  (Utf8.decode? name).isSome &&
    extensions.any fun extension => (Utf8.encode ('.' :: extension.toList)).isSuffixOf name

/-- Whether a directory of this name is not entered. Names are compared as messages show them. -/
def isSkipped (skipDirs : List String) (name : Name) : Bool :=
  skipDirs.contains (Utf8.lossyString name)

/-- The lists that `f` gives, one after the other, up to the first failure. -/
def collect {α β : Type} (f : α → Except Failure (List β)) : List α → Except Failure (List β)
  | [] => .ok []
  | a :: as =>
    match f a with
    | .error failure => .error failure
    | .ok bs =>
      match collect f as with
      | .error failure => .error failure
      | .ok cs => .ok (bs ++ cs)

/-- The wanted files below a node that `path` leads to. -/
def walkNode (fs : FileSystem) (config : Config) (path : Path) : Node → Except Failure (List Path)
  | .directory access names child =>
    if access.read then
      collect
        (fun name =>
          let entry := path.child name
          let found := access.search && entry.bytes.length ≤ FileSystem.maxPath
          if found && (child name).isDirectory then
            if isSkipped config.skipDirs name then .ok []
            else walkNode fs config entry (child name)
          else if fs.isFile entry && isWanted config.extensions name then .ok [entry]
          else .ok [])
        (ordered names)
    else .error (.refused .permissionDenied (.listDirectory path))
  | _ => .ok []

/-- The wanted files below the root of a configuration. -/
def walk (fs : FileSystem) (config : Config) : Except Failure (List Path) :=
  match fs.lookup config.root with
  | .error _ => .ok []
  | .ok node =>
    if node.isDirectory then walkNode fs config config.root node
    else .error (.rootNotDirectory config.root)

end OpacityMigration.Walk
