import OpacityMigration.Proofs.PassedOver

/-!
# How a walk fails

A walk fails if its root is there and is no directory, or if it comes to a directory that may not be
listed. It goes down before it goes on, so of several such directories it comes to the first one in
the order of paths. A directory to skip and a link hide what lies behind them.

* `collect_eq_error`: a list is visited up to the first failure.
* `components_of_reaches`: the path of a directory begins those of the directories reached from it.
* `first_of_walkNode`: the directory that makes a walk fail.
* `walk_fails_exactly`: when and how a walk fails.
-/

namespace OpacityMigration.Walk

open FileSystem Relation

theorem collect_eq_error {α β : Type} {f : α → Except Failure (List β)} {as : List α}
    {failure : Failure} (h : collect f as = .error failure) :
    ∃ before a after, as = before ++ a :: after ∧ f a = .error failure ∧
      ∀ b ∈ before, ∃ bs, f b = .ok bs := by
  induction as with
  | nil => cases h
  | cons a as ih =>
    rw [collect] at h
    cases ha : f a with
    | error failure' =>
      rw [ha] at h
      cases h
      exact ⟨[], a, as, rfl, ha, by simp⟩
    | ok bs =>
      cases hrest : collect f as with
      | error failure' =>
        rw [ha, hrest] at h
        cases h
        obtain ⟨before, c, after, rfl, hc, hbefore⟩ := ih hrest
        refine ⟨a :: before, c, after, rfl, hc, ?_⟩
        intro b hb
        rcases List.mem_cons.mp hb with rfl | hb
        · exact ⟨bs, ha⟩
        · exact hbefore b hb
      | ok cs =>
        rw [ha, hrest] at h
        cases h

/-- The first failure of a visit in order: every other name whose visit fails is greater. -/
theorem exists_least_of_collect_ordered {β : Type} {f : Name → Except Failure (List β)}
    {names : List Name} {failure : Failure} (h : collect f (ordered names) = .error failure) :
    ∃ name ∈ names, f name = .error failure ∧
      ∀ other ∈ names, other = name ∨ name < other ∨ ∃ bs, f other = .ok bs := by
  obtain ⟨before, name, after, heq, hname, hbefore⟩ := collect_eq_error h
  have hmem : name ∈ ordered names := by simp [heq]
  refine ⟨name, mem_ordered.mp hmem, hname, ?_⟩
  intro other hother
  have hsorted := pairwise_ordered names
  have hother := mem_ordered.mpr hother
  rw [heq] at hsorted hother
  rcases List.mem_append.mp hother with hother | hother
  · exact Or.inr (Or.inr (hbefore other hother))
  · rcases List.mem_cons.mp hother with rfl | hother
    · exact Or.inl rfl
    · obtain ⟨-, hlater, -⟩ := List.pairwise_append.mp hsorted
      exact Or.inr (Or.inl ((List.pairwise_cons.mp hlater).1 other hother))

/-! ## Directories on the way -/

/-- A walk that goes on from `top` comes to the directory `d`, which may not be listed. -/
def Unlistable (fs : FileSystem) (config : Config) (top d : Path) : Prop :=
  ReflTransGen (Enters fs config) top d ∧
    ∃ access names, fs.directory? d = some (access, names) ∧ access.read = false

/-- Of these directories `d` is the first in the order of paths. -/
structure FirstUnlistable (fs : FileSystem) (config : Config) (top d : Path) : Prop where
  unlistable : Unlistable fs config top d
  first : ∀ d', Unlistable fs config top d' → d' = d ∨ d.Before d'

/-- Of the names that lead down from the root one is to be skipped, or one is the name of a link. -/
def Hidden (fs : FileSystem) (config : Config) (names : List Name) : Prop :=
  ∃ front name, front ++ [name] <+: names ∧
    (Utf8.lossyString name ∈ config.skipDirs ∨
      ∃ target, fs.nodeAt? (pathBelow config.root (front ++ [name])) = some (.link target))

variable {fs : FileSystem} {config : Config} {d d' top : Path} {name : Name} {names : List Name}
  {access : Access} {child : Name → Node} {node : Node} {failure : Failure}

theorem components_pathBelow (hd : d.bytes ≠ []) (hnames : ∀ name ∈ names, EntryName name) :
    (pathBelow d names).components = d.components ++ names.map .normal := by
  induction names generalizing d with
  | nil => exact (List.append_nil _).symm
  | cons name rest ih =>
    have hname := hnames name List.mem_cons_self
    have hrest : ∀ name ∈ rest, EntryName name :=
      fun name' hname' => hnames name' (List.mem_cons_of_mem _ hname')
    show (pathBelow (d.child name) rest).components = _
    rw [ih (child_ne_nil hd hname) hrest, Path.components_child hd hname, List.append_assoc]
    rfl

/-- Different names lead to different paths. -/
theorem pathBelow_injective {names' : List Name} (hd : d.bytes ≠ [])
    (hnames : ∀ name ∈ names, EntryName name) (hnames' : ∀ name ∈ names', EntryName name)
    (h : pathBelow d names = pathBelow d names') : names = names' := by
  have hcomponents := congrArg Path.components h
  rw [components_pathBelow hd hnames, components_pathBelow hd hnames'] at hcomponents
  have hinjective : Function.Injective Path.Component.normal := fun _ _ => Path.Component.normal.inj
  exact hinjective.list_map (List.append_cancel_left hcomponents)

/-- A walk goes on by names that are not to be skipped, and to directories, not to links. -/
theorem names_of_reaches (h : ReflTransGen (Enters fs config) top d) :
    ∃ names, d = pathBelow top names ∧ (∀ name ∈ names, EntryName name) ∧
      ∀ front name, front ++ [name] <+: names → Utf8.lossyString name ∉ config.skipDirs ∧
        fs.isRealDirectory (pathBelow top (front ++ [name])) = true := by
  induction h with
  | refl => exact ⟨[], rfl, by simp, by simp⟩
  | tail hreach hnext ih =>
    obtain ⟨names, rfl, hnames, hway⟩ := ih
    obtain ⟨access, entries, hdir, -, -, name, hmem, hreal, hskip, rfl⟩ := hnext
    obtain ⟨child, hlookup⟩ := directory?_eq_some.mp hdir
    have hname := (wellNamed_of_lookup hlookup name hmem).1
    have hchild : pathBelow top (names ++ [name]) = (pathBelow top names).child name :=
      List.foldl_append
    refine ⟨names ++ [name], hchild.symm, ?_, ?_⟩
    · intro other hother
      rcases List.mem_append.mp hother with hother | hother
      · exact hnames other hother
      · rwa [List.mem_singleton.mp hother]
    · intro front other hprefix
      rcases List.prefix_concat_iff.mp hprefix with heq | hprefix
      · obtain ⟨rfl, hlast⟩ := List.append_inj' heq rfl
        obtain rfl := List.singleton_inj.mp hlast
        exact ⟨hskip, hchild ▸ hreal⟩
      · exact hway front other hprefix

/-- The path of a directory begins those of the directories that are reached from it. -/
theorem components_of_reaches (hd : d.bytes ≠ []) (h : ReflTransGen (Enters fs config) d d') :
    d.components <+: d'.components := by
  obtain ⟨names, rfl, hnames, -⟩ := names_of_reaches h
  rw [components_pathBelow hd hnames]
  exact List.prefix_append _ _

/-- What is reached through a smaller name comes before what is reached through a greater one. -/
theorem before_of_reaches {a b : Name} {p q : Path} (hd : d.bytes ≠ []) (ha : EntryName a)
    (hb : EntryName b) (hlt : a < b)
    (hp : ReflTransGen (Enters fs config) (d.child a) p)
    (hq : ReflTransGen (Enters fs config) (d.child b) q) : p.Before q :=
  Path.before_of_lt hd ha hb hlt (components_of_reaches (child_ne_nil hd ha) hp)
    (components_of_reaches (child_ne_nil hd hb) hq)

/-- Nothing behind a name to skip or a link is reached. -/
theorem Hidden.not_reached (h : Hidden fs config names) (hroot : config.root.bytes ≠ [])
    (hnames : ∀ name ∈ names, EntryName name) :
    ¬ Reached fs config (pathBelow config.root names) := by
  intro hreached
  obtain ⟨names', heq, hnames', hway⟩ := names_of_reaches hreached
  obtain rfl := pathBelow_injective hroot hnames hnames' heq
  obtain ⟨front, name, hprefix, hskip | ⟨target, hlink⟩⟩ := h
  · exact (hway front name hprefix).1 hskip
  · have hreal := (hway front name hprefix).2
    rw [isRealDirectory, hlink] at hreal
    cases hreal

/-! ## The directory that makes a walk fail -/

theorem walkNode_of_visit (h : visit fs config d child name = .error failure) :
    (fs.isRealDirectory (d.child name) = true ∧ Utf8.lossyString name ∉ config.skipDirs) ∧
      walkNode fs config (d.child name) (child name) = .error failure := by
  unfold visit at h
  split at h
  · rename_i hreal
    split at h
    · cases h
    · rename_i hskip
      exact ⟨⟨hreal, isSkipped_eq_false.mp (by simpa using hskip)⟩, h⟩
  · split at h <;> cases h

/-- A directory to which a walk goes on, and whose visit succeeds, leads to none that may not be
listed. -/
theorem not_unlistable_of_visit (h : fs.lookup (d.child name) = .ok (child name))
    (hreal : fs.isRealDirectory (d.child name) = true)
    (hskip : Utf8.lossyString name ∉ config.skipDirs) {found : List Path}
    (hvisit : visit fs config d child name = .ok found) :
    ¬ Unlistable fs config (d.child name) d' := by
  rintro ⟨hreach, access, names, hdir, hread⟩
  rw [visit, if_pos hreal, if_neg (by simpa [isSkipped] using hskip)] at hvisit
  have hcontent := content_walkNode h hvisit
  rw [hcontent.readable d' hreach access names hdir] at hread
  cases hread

/-- What may not be listed below a directory that may be is reached through one of its entries. -/
theorem Unlistable.entry (h : Unlistable fs config d d')
    (hdir : fs.directory? d = some (access, names)) (hread : access.read = true) :
    ∃ name ∈ names, (fs.isRealDirectory (d.child name) = true ∧
      Utf8.lossyString name ∉ config.skipDirs) ∧ Unlistable fs config (d.child name) d' := by
  obtain ⟨hreach, access', names', hdir', hread'⟩ := h
  rcases ReflTransGen.cases_head hreach with rfl | ⟨next, hnext, hreach⟩
  · rw [hdir] at hdir'
    cases hdir'
    rw [hread] at hread'
    cases hread'
  · obtain ⟨-, -, name, hmem, hreal, hskip, rfl⟩ := (enters_iff hdir).mp hnext
    exact ⟨name, hmem, ⟨hreal, hskip⟩, hreach, access', names', hdir', hread'⟩

/-- A directory that may not be listed is the only one that a walk comes to from it. -/
theorem Unlistable.eq_self (h : Unlistable fs config d d')
    (hdir : fs.directory? d = some (access, names)) (hread : access.read = false) : d' = d := by
  rcases ReflTransGen.cases_head h.1 with heq | ⟨next, hnext, -⟩
  · exact heq.symm
  · obtain ⟨hread', -⟩ := (enters_iff hdir).mp hnext
    rw [hread] at hread'
    cases hread'

/-- A walk below a directory that fails has come to the first directory that may not be listed. The
induction is on the node of the directory: what lies below the entries that were visited before may
be listed, and what lies below the later ones has greater paths. -/
theorem first_of_walkNode (h : fs.lookup d = .ok node)
    (hwalk : walkNode fs config d node = .error failure) :
    ∃ d', failure = .refused .permissionDenied (.listDirectory d') ∧
      FirstUnlistable fs config d d' := by
  induction node generalizing d with
  | file id access => cases hwalk
  | link target => cases hwalk
  | directory access names child ih =>
    have hnames : ∀ name ∈ names, EntryName name :=
      fun name hmem => (wellNamed_of_lookup h name hmem).1
    have hdir : fs.directory? d = some (access, names) := directory?_eq_some.mpr ⟨child, h⟩
    rw [walkNode_directory h hnames] at hwalk
    cases hread : access.read with
    | false =>
      rw [hread, if_neg Bool.false_ne_true] at hwalk
      cases hwalk
      refine ⟨d, rfl, ⟨⟨.refl, access, names, hdir, hread⟩, fun d'' hd'' => ?_⟩⟩
      exact Or.inl (hd''.eq_self hdir hread)
    | true =>
      rw [hread, if_pos rfl] at hwalk
      obtain ⟨name, hmem, hvisit, hothers⟩ := exists_least_of_collect_ordered hwalk
      obtain ⟨⟨hreal, hskip⟩, hbelow⟩ := walkNode_of_visit hvisit
      have hlookup := lookup_of_isRealDirectory h (hnames name hmem) hreal
      obtain ⟨d', hfailure, ⟨⟨hreach, hlocked⟩, hfirst⟩⟩ := ih name hlookup hbelow
      have hnext := enters_child h hread (hnames name hmem) hmem hreal hskip
      refine ⟨d', hfailure, ⟨⟨.head hnext hreach, hlocked⟩, fun d'' hd'' => ?_⟩⟩
      obtain ⟨other, hother, ⟨hreal', hskip'⟩, hd''⟩ := hd''.entry hdir hread
      rcases hothers other hother with rfl | hlt | ⟨found, hfound⟩
      · exact hfirst d'' hd''
      · have hd := ne_nil_of_lookup h
        exact Or.inr (before_of_reaches hd (hnames name hmem) (hnames other hother) hlt
          hreach hd''.1)
      · have hlookup' := lookup_of_isRealDirectory h (hnames other hother) hreal'
        exact absurd hd'' (not_unlistable_of_visit hlookup' hreal' hskip' hfound)

/-! ## Walks that fail -/

theorem walk_of_directory (h : fs.lookup config.root = .ok node) (hdir : node.isDirectory = true) :
    walk fs config = walkNode fs config config.root node := by
  rw [walk, h]
  exact if_pos hdir

theorem walk_of_not_directory (h : fs.lookup config.root = .ok node)
    (hdir : node.isDirectory = false) :
    walk fs config = .error (.rootNotDirectory config.root) := by
  rw [walk, h]
  exact if_neg (by simp [hdir])

theorem walk_directory_eq_error (h : fs.lookup config.root = .ok node)
    (hdir : node.isDirectory = true) (hwalk : walk fs config = .error failure) :
    ∃ d, failure = .refused .permissionDenied (.listDirectory d) ∧
      FirstUnlistable fs config config.root d := by
  rw [walk_of_directory h hdir] at hwalk
  exact first_of_walkNode h hwalk

/-- A walk that fails does not start, or it comes to the first directory that may not be listed. -/
theorem walk_eq_error (hwalk : walk fs config = .error failure) :
    (failure = .rootNotDirectory config.root ∧
      ∃ node, fs.lookup config.root = .ok node ∧ node.isDirectory = false) ∨
    (∃ node, fs.lookup config.root = .ok node ∧ node.isDirectory = true) ∧
      ∃ d, failure = .refused .permissionDenied (.listDirectory d) ∧
        FirstUnlistable fs config config.root d := by
  cases h : fs.lookup config.root with
  | error fault =>
    rw [walk, h] at hwalk
    cases hwalk
  | ok node =>
    cases hdir : node.isDirectory with
    | true => exact Or.inr ⟨⟨node, rfl, hdir⟩, walk_directory_eq_error h hdir hwalk⟩
    | false =>
      rw [walk_of_not_directory h hdir] at hwalk
      cases hwalk
      exact Or.inl ⟨rfl, node, rfl, hdir⟩

/-- A walk that succeeds has come to no directory that may not be listed. -/
theorem exists_error_of_unlistable (h : Unlistable fs config config.root d) :
    ∃ failure, walk fs config = .error failure := by
  cases hwalk : walk fs config with
  | error failure => exact ⟨failure, rfl⟩
  | ok paths =>
    obtain ⟨hreach, access, names, hdir, hread⟩ := h
    rw [(content_walk hwalk).readable d hreach access names hdir] at hread
    cases hread

/-- **When and how a walk fails.** If the root cannot be looked up, nothing is found. The root is
refused exactly if it is there and no directory. The walk breaks off exactly if the root is a
directory and some reached directory may not be listed, and it reports the first one in the order of
paths. It fails in no other way. What stands behind a name to skip or a link is never to blame: if
every other directory may be listed, the walk succeeds. -/
theorem walk_fails_exactly (fs : FileSystem) (config : Config) :
    (∀ fault, fs.lookup config.root = .error fault → walk fs config = .ok []) ∧
    ((∃ failure, walk fs config = .error failure ∧ failure.report.code = .invalidArgument ∧
        failure.report.detail? "field" = some "path") ↔
      ∃ node, fs.lookup config.root = .ok node ∧ node.isDirectory = false) ∧
    ((∃ failure, walk fs config = .error failure ∧ failure.report.code = .ioError) ↔
      (∃ node, fs.lookup config.root = .ok node ∧ node.isDirectory = true) ∧
        ∃ d, Unlistable fs config config.root d) ∧
    (∀ failure, walk fs config = .error failure →
      failure.report.code = .invalidArgument ∨
      failure.report.code = .ioError ∧
        ∃ d, FirstUnlistable fs config config.root d ∧
          failure.report.context? = some ("read dir " ++ d.display)) ∧
    ∀ node, fs.lookup config.root = .ok node → node.isDirectory = true →
      (∀ names, (∀ name ∈ names, EntryName name) → Hidden fs config names →
        ¬ Unlistable fs config config.root (pathBelow config.root names)) ∧
      ((∀ names, (∀ name ∈ names, EntryName name) → ∀ access entries,
          fs.directory? (pathBelow config.root names) = some (access, entries) →
            access.read = false → Hidden fs config names) →
        ∃ paths, walk fs config = .ok paths) := by
  refine ⟨?_, ⟨?_, ?_⟩, ⟨?_, ?_⟩, fun failure hwalk => ?_, fun node h hdir => ⟨?_, ?_⟩⟩
  · intro fault h
    rw [walk, h]
  · rintro ⟨failure, hwalk, hcode, -⟩
    rcases walk_eq_error hwalk with ⟨-, hroot⟩ | ⟨-, d, rfl, -⟩
    · exact hroot
    · cases hcode
  · rintro ⟨node, h, hdir⟩
    exact ⟨_, walk_of_not_directory h hdir, rfl, rfl⟩
  · rintro ⟨failure, hwalk, hcode⟩
    rcases walk_eq_error hwalk with ⟨rfl, -⟩ | ⟨hroot, d, -, hd⟩
    · cases hcode
    · exact ⟨hroot, d, hd.unlistable⟩
  · rintro ⟨⟨node, h, hdir⟩, d, hd⟩
    obtain ⟨failure, hwalk⟩ := exists_error_of_unlistable hd
    obtain ⟨d', rfl, -⟩ := walk_directory_eq_error h hdir hwalk
    exact ⟨_, hwalk, rfl⟩
  · rcases walk_eq_error hwalk with ⟨rfl, -⟩ | ⟨-, d, rfl, hd⟩
    · exact Or.inl rfl
    · exact Or.inr ⟨rfl, d, hd, rfl⟩
  · intro names hnames hhidden hd
    exact hhidden.not_reached (ne_nil_of_lookup h) hnames hd.1
  · intro hall
    cases hwalk : walk fs config with
    | ok paths => exact ⟨paths, rfl⟩
    | error failure =>
      obtain ⟨d, -, hfirst⟩ := walk_directory_eq_error h hdir hwalk
      obtain ⟨hreach, access, entries, hentries, hread⟩ := hfirst.unlistable
      obtain ⟨names, rfl, hnames, -⟩ := names_of_reaches hreach
      have hhidden := hall names hnames access entries hentries hread
      exact absurd hreach (hhidden.not_reached (ne_nil_of_lookup h) hnames)

/-- Four directories that may not be listed: one in a directory, one beside that, one in a directory
to skip, and one behind a link. -/
def lockedTree : FileSystem :=
  let put (fs : FileSystem) (p : String) := fs.putFile (.ofString p) []
  let lock (fs : FileSystem) (p : String) := fs.setAccess (.ofString p) (.ofDigit 3)
  let locked := ["lib/a/x", "lib/a.b", "lib/build/in", "hidden"]
  let files := (locked.map (· ++ "/f.dart")).foldl put (.empty [])
  locked.foldl lock
    (files.putLink (.ofString "lib/link") (.ofString "../hidden"))

theorem walk_fails_lockedTree :
    let config : Config := ⟨.ofString "lib", ["dart"], ["build"]⟩
    let failure : Failure := .refused .permissionDenied (.listDirectory (.ofString "lib/a/x"))
    walk lockedTree config = .error failure ∧
      ((∃ node, lockedTree.lookup config.root = .ok node ∧ node.isDirectory = true) ∧
        ∃ d, Unlistable lockedTree config config.root d) ∧
      ∃ d, FirstUnlistable lockedTree config config.root d ∧
        failure.report.context? = some ("read dir " ++ d.display) := by
  intro config failure
  have hwalk : walk lockedTree config = .error failure := by cbv
  obtain ⟨-, -, hlocked, hfailures, -⟩ := walk_fails_exactly lockedTree config
  refine ⟨hwalk, hlocked.mp ⟨failure, hwalk, rfl⟩, ?_⟩
  rcases hfailures failure hwalk with hcode | ⟨-, hfirst⟩
  · cases hcode
  · exact hfirst

end OpacityMigration.Walk
