import OpacityMigration.Proofs.WalkContent

/-!
# Files that a walk passes over

A directory that may not be listed makes a walk fail. One that may be listed but not searched does
not: no entry of it can be looked up, so none counts, and the walk goes on without them. What lies
below the root is therefore said without permissions here: `unlocked` is the file system in which
every directory may be listed and searched, and `LiesBelow` are the files that a walk of the tree
should find there.

* `lookup_unlocked`: permissions do not change where a look-up leads, they only refuse it.
* `LiesBelow.lookup`: what the look-up of a file below the root can come to.
* `passed_over_iff`: a walk that succeeds has passed over the files whose look-up is refused.
-/

namespace OpacityMigration

open OpacityMigration.Path (Step)

/-- The tree in which every directory may be listed and searched. -/
def Node.unlock : Node → Node
  | .directory _ names child => .directory .all names fun name => (child name).unlock
  | .file id access => .file id access
  | .link target => .link target

theorem Node.unlock_eq_file {node : Node} {id : FileId} {access : Access} :
    node.unlock = .file id access ↔ node = .file id access := by
  cases node <;> simp [unlock]

theorem Node.WellNamed.unlock {node : Node} (h : node.WellNamed) : node.unlock.WellNamed := by
  induction node with
  | file id access => trivial
  | link target => trivial
  | directory access names child ih =>
    intro name hmem
    obtain ⟨hname, hchild⟩ := h name hmem
    exact ⟨hname, ih name hchild⟩

namespace FileSystem

def unlocked (fs : FileSystem) : FileSystem :=
  { fs with
    root := fs.root.unlock
    wellNamed := fs.wellNamed.unlock }

@[simp] theorem unlocked_root (fs : FileSystem) : fs.unlocked.root = fs.root.unlock := rfl

@[simp] theorem unlocked_workingDirectory (fs : FileSystem) :
    fs.unlocked.workingDirectory = fs.workingDirectory := rfl

/-! ## Look-ups without permissions -/

theorem find?_unlock (node : Node) (here : Location) :
    node.unlock.find? here = (node.find? here).map Node.unlock := by
  induction here generalizing node with
  | nil => cases node <;> rfl
  | cons name here ih =>
    rcases node with ⟨id, access⟩ | ⟨access, names, child⟩ | target
    · rfl
    · rw [Node.unlock, Node.find?, Node.find?]
      split
      · exact ih (child name)
      · rfl
    · rfl

theorem stepFrom_unlock (root : Node) (here : Location) (step : Step) :
    stepFrom root here step = .refused .permissionDenied ∨
      stepFrom root.unlock here step = stepFrom root here step := by
  rw [stepFrom, stepFrom, find?_unlock]
  rcases root.find? here with _ | ⟨id, access⟩ | ⟨access, names, child⟩ | target
  · exact Or.inr rfl
  · exact Or.inr rfl
  · simp only [Option.map_some, Node.unlock, Access.all, Bool.not_true, Bool.false_eq_true,
      if_false]
    by_cases hstay : step = .atDirectory
    · exact Or.inr (by rw [if_pos hstay, if_pos hstay])
    rw [if_neg hstay, if_neg hstay]
    by_cases hsearch : access.search = true
    · right
      rw [if_neg (by simp [hsearch])]
      cases step with
      | enter name =>
        simp only
        split
        · rfl
        · split
          · cases child name <;> rfl
          · rfl
      | _ => rfl
    · exact Or.inl (by rw [if_pos (by simp [hsearch])])
  · exact Or.inr rfl

/-- Permissions only refuse steps, and a step that is refused ends the look-up. -/
theorem resolveFrom_unlock (root : Node) (followLast : Bool) (links : Nat) (here : Location)
    (steps : List Step) :
    resolveFrom root followLast links here steps = .error .permissionDenied ∨
      resolveFrom root.unlock followLast links here steps =
        resolveFrom root followLast links here steps := by
  induction links, here, steps using stepwise root with
  | nil links here => exact Or.inr (by rw [resolveFrom, resolveFrom])
  | refused links here step rest fault h =>
    rw [resolveFrom_cons, resolveFrom_cons]
    rcases stepFrom_unlock root here step with hdenied | hsame
    · exact Or.inl (by rw [hdenied])
    · exact Or.inr (by rw [hsame, h])
  | goes links here step rest there h ih =>
    rw [resolveFrom_cons, resolveFrom_cons]
    rcases stepFrom_unlock root here step with hdenied | hsame
    · exact Or.inl (by rw [hdenied])
    · rw [hsame, h]
      exact ih
  | link links here step rest name target h ih =>
    rw [resolveFrom_cons, resolveFrom_cons]
    rcases stepFrom_unlock root here step with hdenied | hsame
    · exact Or.inl (by rw [hdenied])
    rw [hsame, h]
    simp only
    split
    · exact Or.inr rfl
    · cases links with
      | zero => exact Or.inr rfl
      | succ fewer => exact ih fewer rfl

theorem resolve_unlocked (fs : FileSystem) (p : Path) :
    fs.resolve true p = .error .permissionDenied ∨
      fs.unlocked.resolve true p = fs.resolve true p := by
  unfold resolve
  split
  · exact Or.inr rfl
  split
  · exact Or.inr rfl
  split
  · exact Or.inr rfl
  rw [unlocked_workingDirectory, unlocked_root]
  split
  · exact Or.inr rfl
  · exact resolveFrom_unlock _ _ _ _ _

/-- A look-up leads where it leads without permissions, unless they refuse it. -/
theorem lookup_unlocked (fs : FileSystem) (p : Path) :
    fs.lookup p = .error .permissionDenied ∨
      fs.unlocked.lookup p = (fs.lookup p).map Node.unlock := by
  unfold lookup
  rcases resolve_unlocked fs p with hdenied | hsame
  · exact Or.inl (by rw [hdenied])
  · right
    rw [hsame]
    cases fs.resolve true p with
    | error fault => rfl
    | ok there =>
      simp only [unlocked_root, find?_unlock]
      cases fs.root.find? there <;> rfl

end FileSystem

namespace Walk

open FileSystem

variable {fs : FileSystem} {config : Config} {d p : Path} {name : Name} {names : List Name}
  {node : Node} {paths : List Path}

/-! ## Files below a directory -/

/-- The names lead from the node down through directories, none with a name to skip, to a regular
file that counts by its name. Permissions do not matter. -/
inductive Holds (config : Config) : Node → List Name → Prop
  | file {access : Access} {names : List Name} {child : Name → Node} {name : Name} {id : FileId}
      {fileAccess : Access} (hmem : name ∈ names) (hfile : child name = .file id fileAccess)
      (hext : HasExtension config.extensions name) :
      Holds config (.directory access names child) [name]
  | directory {access : Access} {names : List Name} {child : Name → Node} {name : Name}
      {rest : List Name} (hmem : name ∈ names)
      (hskip : Utf8.lossyString name ∉ config.skipDirs) (hbelow : Holds config (child name) rest) :
      Holds config (.directory access names child) (name :: rest)

/-- The path of what the names lead to from the directory `d`. -/
def pathBelow (d : Path) (names : List Name) : Path :=
  names.foldl Path.child d

/-- `p` is the path of a file that lies below the root, as far as permissions do not matter. -/
def LiesBelow (fs : FileSystem) (config : Config) (p : Path) : Prop :=
  ∃ node names, fs.unlocked.lookup config.root = .ok node ∧ Holds config node names ∧
    p = pathBelow config.root names

theorem Holds.of_unlock (h : Holds config node.unlock names) : Holds config node names := by
  induction node generalizing names with
  | file id access => cases h
  | link target => cases h
  | directory access entries child ih =>
    rw [Node.unlock] at h
    cases h with
    | file hmem hfile hext => exact .file hmem (Node.unlock_eq_file.mp hfile) hext
    | directory hmem hskip hbelow => exact .directory hmem hskip (ih _ hbelow)

theorem Holds.entryName (h : Holds config node names) (hwell : node.WellNamed) :
    ∀ name ∈ names, EntryName name := by
  induction h with
  | @file _ _ _ name _ _ hmem _ _ =>
    intro name' hname'
    rw [List.mem_singleton.mp hname']
    exact (hwell name hmem).1
  | @directory _ _ _ name _ hmem _ _ ih =>
    intro name' hname'
    rcases List.mem_cons.mp hname' with rfl | hname'
    · exact (hwell name' hmem).1
    · exact ih (hwell name hmem).2 name' hname'

theorem Holds.isDirectory (h : Holds config node names) : node.isDirectory = true := by
  cases h <;> rfl

theorem length_le_pathBelow (hd : d.bytes ≠ []) (hnames : ∀ name ∈ names, EntryName name) :
    d.bytes.length ≤ (pathBelow d names).bytes.length := by
  induction names generalizing d with
  | nil => exact Nat.le_refl _
  | cons name rest ih =>
    have hlt := length_lt_child hd (hnames name List.mem_cons_self)
    have hle := ih (child_ne_nil hd (hnames name List.mem_cons_self))
      fun name' hname' => hnames name' (List.mem_cons_of_mem _ hname')
    exact (Nat.le_of_lt hlt).trans hle

theorem holdsNul_pathBelow (hd : d.bytes ≠ []) (hnames : ∀ name ∈ names, EntryName name) :
    (pathBelow d names).holdsNul = d.holdsNul := by
  induction names generalizing d with
  | nil => rfl
  | cons name rest ih =>
    have hname := hnames name List.mem_cons_self
    rw [pathBelow, List.foldl_cons, ← pathBelow,
      ih (child_ne_nil hd hname) fun name' hname' => hnames name' (List.mem_cons_of_mem _ hname'),
      holdsNul_child hd hname]

/-- Where an entry further down can be looked up, so can the directories on the way. -/
theorem lookup_of_lookup_pathBelow {below : Node} (hd : d.bytes ≠ [])
    (hnames : ∀ name ∈ names, EntryName name) (h : fs.lookup (pathBelow d names) = .ok below) :
    ∃ node, fs.lookup d = .ok node := by
  induction names generalizing d with
  | nil => exact ⟨below, h⟩
  | cons name rest ih =>
    have hname := hnames name List.mem_cons_self
    have hrest : ∀ name' ∈ rest, EntryName name' :=
      fun name' hname' => hnames name' (List.mem_cons_of_mem _ hname')
    obtain ⟨entry, hentry⟩ := ih (child_ne_nil hd hname) hrest h
    obtain ⟨access, entries, child, hlookup, -⟩ := directory_of_lookup_child hd hname hentry
    exact ⟨_, hlookup⟩

/-- A file that can be looked up is listed by a directory that the walk reaches, if the directories
that it reaches may be read. -/
theorem Holds.lists (hholds : Holds config node names) (h : fs.lookup d = .ok node)
    (hread : ∀ d', Relation.ReflTransGen (Enters fs config) d d' →
      ∀ access names, fs.directory? d' = some (access, names) → access.read = true)
    (hfile : fs.isFile (pathBelow d names) = true) :
    ∃ d', Relation.ReflTransGen (Enters fs config) d d' ∧
      Lists fs config d' (pathBelow d names) := by
  induction hholds generalizing d with
  | @file access entries child name id fileAccess hmem hnode hext =>
    have hname := (wellNamed_of_lookup h name hmem).1
    have hdir := directory?_eq_some.mpr ⟨child, h⟩
    have hreal : fs.isRealDirectory (d.child name) = false := by
      rw [Bool.eq_false_iff, Ne, isRealDirectory_child h hname, hnode]
      rintro ⟨-, hdirectory⟩
      cases hdirectory
    have hsearch := search_of_isFile h hname hfile
    exact ⟨d, .refl, (lists_iff hdir).mpr ⟨hsearch, name, hmem, hext, hreal, hfile, rfl⟩⟩
  | @directory access entries child name rest hmem hskip hbelow ih =>
    obtain ⟨hname, hwell⟩ := wellNamed_of_lookup h name hmem
    have hdir := directory?_eq_some.mpr ⟨child, h⟩
    obtain ⟨id, fileAccess, hlookup⟩ := isFile_eq_true.mp hfile
    obtain ⟨entry, hentry⟩ := lookup_of_lookup_pathBelow
      (child_ne_nil (ne_nil_of_lookup h) hname) (hbelow.entryName hwell) hlookup
    have hallows := allows_of_lookup_child h hname hentry
    have hreal : fs.isRealDirectory (d.child name) = true :=
      (isRealDirectory_child h hname).mpr ⟨hallows, hbelow.isDirectory⟩
    have hnext : Enters fs config d (d.child name) := (enters_iff hdir).mpr
      ⟨hread d .refl access entries hdir, hallows.1, name, hmem, hreal, hskip, rfl⟩
    obtain ⟨d', hreach, hlists⟩ := ih (lookup_of_isRealDirectory h hname hreal)
      (fun d' hreach => hread d' (.head hnext hreach)) hfile
    exact ⟨d', .head hnext hreach, hlists⟩

/-- Without permissions a file below a directory can be looked up, as long as its path is not too
long. -/
theorem Holds.lookup_unlocked (hholds : Holds config node names) (hwell : node.WellNamed)
    (h : fs.unlocked.lookup d = .ok node.unlock)
    (hshort : (pathBelow d names).bytes.length ≤ maxPath) :
    ∃ id access, fs.unlocked.lookup (pathBelow d names) = .ok (.file id access) := by
  induction hholds generalizing d with
  | @file access entries child name id fileAccess hmem hnode hext =>
    have hchild := lookup_child h (hwell name hmem).1 rfl hshort hmem (by simp [hnode, Node.unlock])
    rw [hnode] at hchild
    exact ⟨id, fileAccess, hchild⟩
  | @directory access entries child name rest hmem hskip hbelow ih =>
    obtain ⟨hname, hwell⟩ := hwell name hmem
    have hle := length_le_pathBelow (child_ne_nil (ne_nil_of_lookup h) hname)
      (hbelow.entryName hwell)
    have hlink : ∀ target, (child name).unlock ≠ .link target := by
      intro target heq
      have hdirectory := hbelow.isDirectory
      cases hnode : child name with
      | directory _ _ _ => simp [hnode, Node.unlock] at heq
      | file _ _ => simp [hnode, Node.isDirectory] at hdirectory
      | link _ => simp [hnode, Node.isDirectory] at hdirectory
    exact ih hwell (lookup_child h hname rfl (hle.trans hshort) hmem hlink) hshort

theorem lookup_of_long {here : Location} (h : Begins fs d here)
    (hnames : ∀ name ∈ names, EntryName name)
    (hlong : maxPath < (pathBelow d names).bytes.length) :
    fs.lookup (pathBelow d names) = .error .nameTooLong := by
  have hne : (pathBelow d names).bytes ≠ [] :=
    List.length_pos_iff.mp (Nat.zero_lt_of_lt hlong)
  rw [lookup, resolve, holdsNul_pathBelow h.ne_nil hnames, h.no_nul, if_neg Bool.false_ne_true,
    if_neg (by simpa using hne), if_pos hlong]

/-! ## What a walk passes over -/

/-- A file that lies below the root can be looked up, unless permissions refuse it or its path is
too long. -/
theorem LiesBelow.lookup (h : LiesBelow fs config p) :
    fs.isFile p = true ∨ fs.lookup p = .error .permissionDenied ∨
      maxPath < p.bytes.length ∧ fs.lookup p = .error .nameTooLong := by
  obtain ⟨node, names, hroot, hholds, rfl⟩ := h
  obtain ⟨there, hresolve, hfind⟩ := lookup_eq_ok.mp hroot
  rw [unlocked_root, find?_unlock, Option.map_eq_some_iff] at hfind
  obtain ⟨node, hfind, rfl⟩ := hfind
  have hnode := fs.wellNamed.of_find? hfind
  have hholds := hholds.of_unlock
  obtain ⟨here, hbegins, -⟩ := resolve_eq_ok.mp hresolve
  by_cases hshort : (pathBelow config.root names).bytes.length ≤ maxPath
  · obtain ⟨id, access, hlookup⟩ := hholds.lookup_unlocked hnode hroot hshort
    rcases FileSystem.lookup_unlocked fs (pathBelow config.root names) with hdenied | hsame
    · exact Or.inr (Or.inl hdenied)
    · left
      rw [hlookup] at hsame
      cases hlocked : fs.lookup (pathBelow config.root names) with
      | error fault =>
        rw [hlocked] at hsame
        cases hsame
      | ok below =>
        rw [hlocked] at hsame
        have hfile := Node.unlock_eq_file.mp (Except.ok.inj hsame).symm
        exact isFile_eq_true.mpr ⟨id, access, by rw [hlocked, hfile]⟩
  · have hbegins : Begins fs config.root here :=
      ⟨hbegins.no_nul, hbegins.ne_nil, hbegins.short, hbegins.start⟩
    have hlong := Nat.lt_of_not_le hshort
    exact Or.inr (Or.inr ⟨hlong, lookup_of_long hbegins (hholds.entryName hnode) hlong⟩)

theorem LiesBelow.mem_of_isFile (h : LiesBelow fs config p)
    (hcontent : Content fs config config.root paths) (hfile : fs.isFile p = true) : p ∈ paths := by
  obtain ⟨node, names, hroot, hholds, rfl⟩ := h
  obtain ⟨id, access, hlookup⟩ := isFile_eq_true.mp hfile
  obtain ⟨there, hresolve, hfind⟩ := lookup_eq_ok.mp hroot
  rw [unlocked_root, find?_unlock, Option.map_eq_some_iff] at hfind
  obtain ⟨node', hfind, rfl⟩ := hfind
  have hnames := hholds.of_unlock.entryName (fs.wellNamed.of_find? hfind)
  obtain ⟨node, hnode⟩ := lookup_of_lookup_pathBelow (ne_nil_of_lookup hroot) hnames hlookup
  rcases FileSystem.lookup_unlocked fs config.root with hdenied | hsame
  · rw [hnode] at hdenied
    cases hdenied
  · rw [hroot, hnode] at hsame
    rw [Except.ok.inj hsame] at hholds
    exact (hcontent.mem _).mpr (hholds.of_unlock.lists hnode hcontent.readable hfile)

/-- **What a walk passes over.** A walk that succeeds has listed every directory it has reached. Of
the files that lie below its root it has passed over those, and only those, whose look-up is
refused: by a directory on the way that may not be searched, or because the path is too long. -/
theorem passed_over_iff (fs : FileSystem) (config : Config)
    (hwalk : walk fs config = .ok paths) :
    (∀ d, Reached fs config d → ∀ access names, fs.directory? d = some (access, names) →
      access.read = true) ∧
    ∀ p, LiesBelow fs config p →
      (p ∉ paths ↔ fs.lookup p = .error .permissionDenied ∨
        maxPath < p.bytes.length ∧ fs.lookup p = .error .nameTooLong) := by
  have hcontent := content_walk hwalk
  refine ⟨hcontent.readable, fun p hlies => ⟨fun hnot => ?_, fun hrefused hmem => ?_⟩⟩
  · rcases hlies.lookup with hfile | hrefused
    · exact absurd (hlies.mem_of_isFile hcontent hfile) hnot
    · exact hrefused
  · obtain ⟨d, -, access, names, -, -, name, -, -, -, hfile, rfl⟩ := (hcontent.mem p).mp hmem
    obtain ⟨id, fileAccess, hlookup⟩ := isFile_eq_true.mp hfile
    rw [hlookup] at hrefused
    rcases hrefused with hdenied | ⟨-, hlong⟩
    · cases hdenied
    · cases hlong

/-- A directory with a file that may be listed but not searched. -/
def closedTree : FileSystem :=
  ((empty []).putFile (.ofString "lib/closed/a.dart") []).setAccess (.ofString "lib/closed")
    (.ofDigit 4)

theorem passed_over_closedTree :
    walk closedTree .standard = .ok [] ∧
      (∀ d, Reached closedTree .standard d → ∀ access names,
        closedTree.directory? d = some (access, names) → access.read = true) ∧
      ∀ p, LiesBelow closedTree .standard p →
        (p ∉ ([] : List Path) ↔ closedTree.lookup p = .error .permissionDenied ∨
          maxPath < p.bytes.length ∧ closedTree.lookup p = .error .nameTooLong) := by
  have hwalk : walk closedTree .standard = .ok [] := by cbv
  exact ⟨hwalk, passed_over_iff closedTree .standard hwalk⟩

/-- A walk may succeed and pass over a file: its directory may be listed, and each look-up in there
that is refused counts as no file. -/
theorem walk_passes_over_closedTree :
    (walk closedTree .standard = .ok [] ∧
      LiesBelow closedTree .standard (.ofString "lib/closed/a.dart")) ∧
    ¬ ∀ fs config paths, walk fs config = .ok paths →
      ∀ p, LiesBelow fs config p → p ∈ paths := by
  have hwalk : walk closedTree .standard = .ok [] := by cbv
  have hlies : LiesBelow closedTree .standard (.ofString "lib/closed/a.dart") := by
    refine ⟨_, [Utf8.encode "closed".toList, Utf8.encode "a.dart".toList], by cbv, ?_, by decide⟩
    refine .directory (by decide) (by decide) (.file (by decide) rfl ?_)
    exact ⟨['a'], "dart", by decide, rfl⟩
  refine ⟨⟨hwalk, hlies⟩, fun hall => ?_⟩
  cases hall closedTree .standard [] hwalk _ hlies

end Walk

end OpacityMigration
