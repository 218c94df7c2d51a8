import OpacityMigration.Text.Utf8

/-!
# Paths

A path is a sequence of bytes, names between slashes. It need not be text; messages show it with
each fault as `U+FFFD`. `steps` says what looking a path up does, name by name.
-/

namespace OpacityMigration

/-- The name of an entry of a directory. -/
abbrev Name := List UInt8

/-- A path as it is written. -/
structure Path where
  bytes : List UInt8
deriving DecidableEq, Repr

namespace Path

def separator : UInt8 := 0x2F

def ofString (s : String) : Path :=
  ⟨Utf8.encode s.toList⟩

/-- The path as messages show it. -/
def display (p : Path) : String :=
  Utf8.lossyString p.bytes

def endsWithSeparator (p : Path) : Bool :=
  p.bytes.getLast? == some separator

/-- The path of an entry of the directory `p`; no slash is added after a slash or to nothing. -/
def child (p : Path) (name : Name) : Path :=
  if p.bytes.isEmpty || p.endsWithSeparator then ⟨p.bytes ++ name⟩
  else ⟨p.bytes ++ separator :: name⟩

/-- Whether looking the path up starts at the root. -/
def isAbsolute (p : Path) : Bool :=
  p.bytes.head? == some separator

/-- The byte that no path may hold. -/
def holdsNul (p : Path) : Bool :=
  p.bytes.contains 0

/-- One step of looking a path up. -/
inductive Step
  | enter (name : Name)
  | up
  | stay
  /-- Stay, and be at a directory: what a slash at the end asks for. -/
  | atDirectory
deriving DecidableEq, Repr

/-- The parts of a sequence of bytes between slashes; `part` is the part begun, last byte first. -/
def partsFrom (part : List UInt8) : List UInt8 → List (List UInt8)
  | [] => [part.reverse]
  | b :: rest =>
    if b = separator then part.reverse :: partsFrom [] rest
    else partsFrom (b :: part) rest

/-- The step that a part of a path asks for; slashes in a row ask for none. -/
def step? (part : List UInt8) : Option Step :=
  if part = [] then none
  else if part = [0x2E] then some .stay
  else if part = [0x2E, 0x2E] then some .up
  else some (.enter part)

def steps (p : Path) : List Step :=
  (partsFrom [] p.bytes).filterMap step? ++ if p.endsWithSeparator then [.atDirectory] else []

end Path

end OpacityMigration
