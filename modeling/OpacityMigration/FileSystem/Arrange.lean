import OpacityMigration.FileSystem.Basic

/-!
# Arranging file systems

A file system is built from an empty one by putting files, directories and links at paths. Links on
the way to an entry are followed, directories on the way are made as needed, and permissions do not
matter here: they hold for what runs on the finished tree. Where no entry can have the name that it
would get, nothing is put.

* `alterAt`: the tree is changed at one location, and keeps names that entries can have.
* `written`: the files that were opened for writing, and what they hold now.
-/

namespace OpacityMigration.FileSystem

theorem wellNamed_alterAt (fs : FileSystem) {there : Location}
    {change : Option Node → Option Node} (hchange : Node.KeepsNames change)
    (hthere : ∀ name ∈ there, EntryName name) :
    ((Node.alterAt change there (some fs.root)).getD .emptyDirectory).WellNamed := by
  have hnew := Node.WellNamed.alterAt hchange hthere (some fs.root)
    fun _ hold => Option.some.inj hold ▸ fs.wellNamed
  cases hroot : Node.alterAt change there (some fs.root) with
  | none => exact Node.wellNamed_emptyDirectory
  | some root => exact hnew root hroot

/-- The file system in which the node at a location is changed. -/
def alterAt (fs : FileSystem) (there : Location) (change : Option Node → Option Node)
    (hchange : Node.KeepsNames change) : FileSystem :=
  if hthere : ∀ name ∈ there, EntryName name then
    { fs with
      root := (Node.alterAt change there (some fs.root)).getD .emptyDirectory
      wellNamed := wellNamed_alterAt fs hchange hthere }
  else fs

/-- A file system that holds nothing but the working directory. -/
def empty (here : Location) : FileSystem :=
  let bare : FileSystem :=
    { root := .emptyDirectory
      wellNamed := Node.wellNamed_emptyDirectory
      content := fun _ => []
      workingDirectory := some here
      opened := [] }
  bare.alterAt here _ (Node.keepsNames_some Node.wellNamed_emptyDirectory)

/-- A number that no file of the tree has. -/
def freshId (fs : FileSystem) : FileId :=
  fs.root.files.foldl (fun n (_, id) => max n (id + 1)) 0

/-- The location at which an entry with the given steps belongs: links on the way to it are
followed, and the entry itself need not be there. -/
def locationFrom (root : Node) (here : Location) : List Path.Step → Location
  | [] => here
  | .enter name :: rest =>
    let there := here ++ [name]
    let next :=
      match rest, root.find? there with
      | _ :: _, some (.link _) =>
        (resolveFrom root true maxLinks here [.enter name]).toOption.getD there
      | _, _ => there
    locationFrom root next rest
  | .up :: rest => locationFrom root here.dropLast rest
  | _ :: rest => locationFrom root here rest

/-- The location at which an entry with the given path belongs. -/
def locationOf (fs : FileSystem) (p : Path) : Location :=
  locationFrom fs.root (if p.isAbsolute then [] else fs.workingDirectory.getD []) p.steps

def alter (fs : FileSystem) (p : Path) (change : Option Node → Option Node)
    (hchange : Node.KeepsNames change) : FileSystem :=
  fs.alterAt (fs.locationOf p) change hchange

def putFile (fs : FileSystem) (p : Path) (bytes : List UInt8) : FileSystem :=
  let id := fs.freshId
  { fs.alter p (fun _ => some (.file id .all)) (Node.keepsNames_some trivial) with
    content := fun other => if other = id then bytes else fs.content other }

/-- Puts a directory at a path; one that is there stays as it is. -/
def putDirectory (fs : FileSystem) (p : Path) : FileSystem :=
  fs.alter p Node.toDirectory Node.keepsNames_toDirectory

def putLink (fs : FileSystem) (p target : Path) : FileSystem :=
  fs.alter p (fun _ => some (.link target)) (Node.keepsNames_some trivial)

def remove (fs : FileSystem) (p : Path) : FileSystem :=
  fs.alter p (fun _ => none) Node.keepsNames_none

/-- Sets what the owner may do with the file or the directory at a path. -/
def setAccess (fs : FileSystem) (p : Path) (access : Access) : FileSystem :=
  fs.alter p (Node.withAccess access) (Node.keepsNames_withAccess access)

/-- The files that were opened for writing, in ascending order, and what they hold now. -/
def written (fs : FileSystem) : List (Location × List UInt8) :=
  (fs.root.files.filter fun (_, id) => fs.opened.contains id).map
    fun (location, id) => (location, fs.content id)

end OpacityMigration.FileSystem
