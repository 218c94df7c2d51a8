import OpacityMigration.FileSystem.Fault
import OpacityMigration.FileSystem.Node

/-!
# File systems

Looking paths up, and reading, writing and listing what they lead to.

A look-up goes through the steps of a path from the root or from the working directory. Each step
needs a directory that may be searched. A link is replaced by the steps of its target; where it is
the last step, that is up to the caller. At most `maxLinks` links are followed.

The file system keeps a record of the files that were opened for writing. Opening a file empties
it, and what is then written may come to an end before all of it is there: then the file holds a
beginning, and writing has failed.
-/

namespace OpacityMigration

structure FileSystem where
  root : Node
  wellNamed : root.WellNamed
  /-- What each regular file holds. -/
  content : FileId → List UInt8
  /-- Where paths without a slash in front start; `none` once that directory is removed. -/
  workingDirectory : Option Location
  /-- The files opened for writing so far, newest first. -/
  opened : List FileId
  /-- How the file opened last takes what is written to it, when these were opened so far. -/
  sink : List FileId → FileSystem.Sink := fun _ => .works

namespace FileSystem

def maxLinks : Nat := 40

def maxPath : Nat := 4095

/-! ## Looking paths up -/

/-- Goes on from the location `here`. `followLast` says whether a link is followed if it is the
last step, `links` how many more links may be followed. -/
def resolveFrom (root : Node) (followLast : Bool) (links : Nat) (here : Location)
    (steps : List Path.Step) : Except Fault Location :=
  match steps with
  | [] => .ok here
  | step :: rest =>
    match root.find? here with
    | some (.directory access names child) =>
      if step = .atDirectory then resolveFrom root followLast links here rest
      else if !access.search then .error .permissionDenied
      else
        match step with
        | .up => resolveFrom root followLast links here.dropLast rest
        | .enter name =>
          if maxName < name.length then .error .nameTooLong
          else if name ∈ names then
            match child name with
            | .link target =>
              if rest.isEmpty && !followLast then .ok (here ++ [name])
              else
                match links with
                | 0 => .error .tooManyLinks
                | links + 1 =>
                  resolveFrom root followLast links (if target.isAbsolute then [] else here)
                    (target.steps ++ rest)
            | _ => resolveFrom root followLast links (here ++ [name]) rest
          else .error .notFound
        | _ => resolveFrom root followLast links here rest
    | some _ => .error .notDirectory
    | none => .error .notFound
termination_by (links, steps.length)

def resolve (fs : FileSystem) (followLast : Bool) (p : Path) : Except Fault Location :=
  if p.holdsNul then .error .nulInName
  else if p.bytes.isEmpty then .error .notFound
  else if maxPath < p.bytes.length then .error .nameTooLong
  else
    match if p.isAbsolute then some [] else fs.workingDirectory with
    | none => .error .notFound
    | some here => resolveFrom fs.root followLast maxLinks here p.steps

/-- The node that a path leads to, links followed. -/
def lookup (fs : FileSystem) (p : Path) : Except Fault Node :=
  match fs.resolve true p with
  | .error fault => .error fault
  | .ok location =>
    match fs.root.find? location with
    | some node => .ok node
    | none => .error .notFound

/-- Whether a path leads to a regular file. A look-up that fails leads to none. -/
def isFile (fs : FileSystem) (p : Path) : Bool :=
  match fs.lookup p with
  | .ok node => node.isFile
  | .error _ => false

def fileId? (fs : FileSystem) (p : Path) : Option FileId :=
  match fs.lookup p with
  | .ok (.file id _) => some id
  | _ => none

/-- The working directory as an absolute path. -/
def currentDirectory (fs : FileSystem) : Except Fault Path :=
  match fs.workingDirectory with
  | none => .error .notFound
  | some [] => .ok ⟨[Path.separator]⟩
  | some names => .ok ⟨names.flatMap (Path.separator :: ·)⟩

/-! ## Reading and writing -/

def read (fs : FileSystem) (p : Path) : Except Fault (List UInt8) :=
  match fs.lookup p with
  | .error fault => .error fault
  | .ok (.file id access) =>
    if access.read then .ok (fs.content id) else .error .permissionDenied
  | .ok (.directory access _ _) =>
    if access.read then .error .isDirectory else .error .permissionDenied
  | .ok (.link _) => .error .notFound

def readText (fs : FileSystem) (p : Path) : Except Fault (List Char) :=
  match fs.read p with
  | .error fault => .error fault
  | .ok bytes =>
    match Utf8.decode? bytes with
    | some text => .ok text
    | none => .error .notText

/-- The file system after opening a file for writing and replacing what it holds. -/
def replace (fs : FileSystem) (id : FileId) (bytes : List UInt8) : FileSystem :=
  { fs with
    content := fun other => if other = id then bytes else fs.content other
    opened := id :: fs.opened }

/-- Opens a file for writing and writes `bytes` to it, all of them or as many as it takes. -/
def overwrite (fs : FileSystem) (id : FileId) (bytes : List UInt8) : Option Fault × FileSystem :=
  let sink := fs.sink (id :: fs.opened)
  (sink.fault? bytes, fs.replace id (sink.taken bytes))

/-- Writes a text to the file that a path leads to. There is a fault if that fails, and the file
system is what it leaves behind either way. -/
def writeText (fs : FileSystem) (p : Path) (text : List Char) : Option Fault × FileSystem :=
  match fs.lookup p with
  | .error fault => (some fault, fs)
  | .ok (.file id access) =>
    if access.write then fs.overwrite id (Utf8.encode text) else (some .permissionDenied, fs)
  | .ok (.directory ..) => (some .isDirectory, fs)
  | .ok (.link _) => (some .notFound, fs)

end FileSystem

end OpacityMigration
