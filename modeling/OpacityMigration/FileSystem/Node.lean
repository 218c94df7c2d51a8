import OpacityMigration.FileSystem.Path

/-!
# File trees

A file system is a tree of directories, regular files and symbolic links, together with what each
regular file holds. The tree knows a regular file by its number, so writing to a file changes
contents and leaves the tree as it is: no later look-up can come out differently.

Permissions are those of one user who owns everything.

The entries of a directory have names that entries can have (`Node.WellNamed`); without that, the
path of an entry would not lead to it. A file system carries the proof, so a change of its tree has
to keep it (`Node.KeepsNames`).

* `ordered`: the names of a directory in the order of their bytes, each once.
* `Node.WellNamed.alterAt`: changing a tree at one location keeps its names.
-/

namespace OpacityMigration

namespace FileSystem

def maxName : Nat := 255

/-- A name that an entry of a directory can have. -/
structure EntryName (name : Name) : Prop where
  ne_nil : name ≠ []
  /-- It is not `.`, which stands for the directory. -/
  ne_here : name ≠ [0x2E]
  /-- It is not `..`, which stands for the directory above. -/
  ne_above : name ≠ [0x2E, 0x2E]
  no_separator : Path.separator ∉ name
  no_nul : (0 : UInt8) ∉ name
  short : name.length ≤ maxName

instance (name : Name) : Decidable (EntryName name) :=
  decidable_of_iff
    (name ≠ [] ∧ name ≠ [0x2E] ∧ name ≠ [0x2E, 0x2E] ∧ Path.separator ∉ name ∧
      (0 : UInt8) ∉ name ∧ name.length ≤ maxName)
    ⟨fun ⟨h₁, h₂, h₃, h₄, h₅, h₆⟩ => ⟨h₁, h₂, h₃, h₄, h₅, h₆⟩,
      fun ⟨h₁, h₂, h₃, h₄, h₅, h₆⟩ => ⟨h₁, h₂, h₃, h₄, h₅, h₆⟩⟩

end FileSystem

/-- The number of a regular file. Two names that lead to one number lead to one file. -/
abbrev FileId := Nat

/-- The names that lead from the root of the tree to a node, without links. -/
abbrev Location := List Name

/-- What the owner may do with a file or a directory. -/
structure Access where
  /-- Read the file, or list the directory. -/
  read : Bool
  /-- Write to the file. -/
  write : Bool
  /-- Look entries of the directory up. -/
  search : Bool
deriving DecidableEq, Repr

def Access.all : Access := ⟨true, true, true⟩

/-- The permissions of the octal digit `n`: 4 to read, 2 to write, 1 to search. -/
def Access.ofDigit (n : Nat) : Access :=
  ⟨n.testBit 2, n.testBit 1, n.testBit 0⟩

inductive Node
  | file (id : FileId) (access : Access)
  /-- A directory has the entries `names`, in no particular order; `child` gives the node of each
  and means nothing for other names. -/
  | directory (access : Access) (names : List Name) (child : Name → Node)
  | link (target : Path)

namespace Node

def emptyDirectory : Node :=
  .directory .all [] fun _ => .link ⟨[]⟩

def isDirectory : Node → Bool
  | .directory .. => true
  | _ => false

def isFile : Node → Bool
  | .file .. => true
  | _ => false

/-- The node at a location below this one. -/
def find? : Node → Location → Option Node
  | node, [] => some node
  | .directory _ names child, name :: rest =>
    if name ∈ names then (child name).find? rest else none
  | _, _ :: _ => none

/-- The entries of all directories of the tree have names that entries can have. -/
def WellNamed : Node → Prop
  | .directory _ names child =>
    ∀ name ∈ names, FileSystem.EntryName name ∧ (child name).WellNamed
  | .file .. => True
  | .link _ => True

theorem WellNamed.of_find? {node below : Node} {here : Location} (h : node.WellNamed)
    (hfind : node.find? here = some below) : below.WellNamed := by
  induction here generalizing node with
  | nil =>
    obtain rfl : node = below := by cases node <;> exact Option.some.inj hfind
    exact h
  | cons name here ih =>
    rcases node with ⟨id, access⟩ | ⟨access, names, child⟩ | target
    · cases hfind
    · rw [Node.find?] at hfind
      split at hfind
      · rename_i hmem
        exact ih (h name hmem).2 hfind
      · cases hfind
    · cases hfind

theorem wellNamed_emptyDirectory : emptyDirectory.WellNamed :=
  fun _ hmem => absurd hmem List.not_mem_nil

end Node

/-- Inserts a name into names that ascend, unless it is there. -/
def insertName (name : Name) : List Name → List Name
  | [] => [name]
  | other :: names =>
    if name < other then name :: other :: names
    else if other < name then other :: insertName name names
    else other :: names

/-- The names in ascending order, each once. -/
def ordered (names : List Name) : List Name :=
  names.foldr insertName []

namespace Node

/-- The regular files of a tree, each with its location, in ascending order. -/
def files : Node → List (Location × FileId)
  | .file id _ => [([], id)]
  | .directory _ names child =>
    (ordered names).flatMap fun name =>
      (child name).files.map fun (location, id) => (name :: location, id)
  | .link _ => []

/-- The tree in which the node at a location is changed. `change` is given the node, if there is
one, and gives back the one to put there, if any. Directories on the way are made as needed. -/
def alterAt (change : Option Node → Option Node) : Location → Option Node → Option Node
  | [], node => change node
  | name :: rest, none =>
    match alterAt change rest none with
    | some new => some (.directory .all [name] fun _ => new)
    | none => none
  | name :: rest, some (.directory access names child) =>
    match alterAt change rest (if name ∈ names then some (child name) else none) with
    | some new =>
      some <| .directory access (if name ∈ names then names else name :: names) fun other =>
        if other = name then new else child other
    | none => some (.directory access (names.filter (· ≠ name)) child)
  | _ :: _, some other => some other

/-- Makes sure that there is a directory; one that is there stays as it is. -/
def toDirectory : Option Node → Option Node
  | some (.directory access names child) => some (.directory access names child)
  | _ => some .emptyDirectory

/-- Sets what the owner may do with a file or a directory. -/
def withAccess (access : Access) : Option Node → Option Node
  | some (.file id _) => some (.file id access)
  | some (.directory _ names child) => some (.directory access names child)
  | other => other

/-! ## Changes that keep the names of a tree -/

/-- A change of a node, or of none, that puts no directory with other names there. -/
def KeepsNames (change : Option Node → Option Node) : Prop :=
  ∀ node, (∀ old ∈ node, old.WellNamed) → ∀ new ∈ change node, new.WellNamed

theorem keepsNames_none : KeepsNames fun _ => none :=
  fun _ _ _ hnew => by cases hnew

theorem keepsNames_some {new : Node} (h : new.WellNamed) : KeepsNames fun _ => some new :=
  fun _ _ _ hnew => Option.some.inj hnew ▸ h

theorem keepsNames_toDirectory : KeepsNames toDirectory := by
  rintro (_ | ⟨id, access⟩ | ⟨access, names, child⟩ | target) h new ⟨⟩
  · exact wellNamed_emptyDirectory
  · exact wellNamed_emptyDirectory
  · exact h _ rfl
  · exact wellNamed_emptyDirectory

theorem keepsNames_withAccess (access : Access) : KeepsNames (withAccess access) := by
  rintro (_ | ⟨id, old⟩ | ⟨old, names, child⟩ | target) h new ⟨⟩
  · trivial
  · have hold : (directory old names child).WellNamed := h _ rfl
    exact hold
  · trivial

theorem wellNamed_setEntry {access : Access} {names : List Name} {child : Name → Node}
    {name : Name} {new : Node} (h : (directory access names child).WellNamed)
    (hname : FileSystem.EntryName name) (hnew : new.WellNamed) :
    (directory access (if name ∈ names then names else name :: names) fun other =>
      if other = name then new else child other).WellNamed := by
  intro other hother
  dsimp only
  by_cases heq : other = name
  · rw [if_pos heq, heq]
    exact ⟨hname, hnew⟩
  · rw [if_neg heq]
    refine h other ?_
    split at hother
    · exact hother
    · exact (List.mem_cons.mp hother).resolve_left heq

/-- Changing a tree at one location keeps its names, if the change does and the location has names
that entries can have. -/
theorem WellNamed.alterAt {change : Option Node → Option Node} (hchange : KeepsNames change)
    {there : Location} (hthere : ∀ name ∈ there, FileSystem.EntryName name) (node : Option Node)
    (h : ∀ old ∈ node, old.WellNamed) : ∀ new ∈ Node.alterAt change there node, new.WellNamed := by
  induction there generalizing node with
  | nil => exact hchange node h
  | cons name rest ih =>
    have hname := hthere name List.mem_cons_self
    have hrest := ih fun name hmem => hthere name (List.mem_cons_of_mem _ hmem)
    rcases node with _ | ⟨id, access⟩ | ⟨access, names, child⟩ | target
    · have hbelow := hrest none (by simp)
      rw [Node.alterAt]
      split
      · rename_i new hsome
        rintro _ ⟨⟩ other hother
        rw [List.mem_singleton.mp hother]
        exact ⟨hname, hbelow new hsome⟩
      · simp
    · exact h
    · have hentries : (directory access names child).WellNamed := h _ rfl
      have hbelow := hrest (if name ∈ names then some (child name) else none) (by
        intro old hold
        split at hold
        · rename_i hmem
          exact Option.some.inj hold ▸ (hentries name hmem).2
        · cases hold)
      rw [Node.alterAt]
      split
      · rename_i new hsome
        rintro _ ⟨⟩
        exact wellNamed_setEntry hentries hname (hbelow new hsome)
      · rintro _ ⟨⟩ other hother
        exact hentries other (List.mem_filter.mp hother).1
    · exact h

end Node

end OpacityMigration
