import Mathlib
import OpacityMigration.FileSystem.Arrange
import OpacityMigration.Proofs.PathOrder
import OpacityMigration.Proofs.Utf8
import OpacityMigration.Proofs.Walks

/-!
# What a walk finds

A walk goes down the tree of the file system, entry by entry. What it finds is said here without the
tree, by looking paths up: `Enters` relates a directory to the directories that the walk goes on to
from it, `Reached` is what can be reached from the root in this way, and `Lists` relates a directory
to the files of it that count.

* `content_walkNode`: below a directory a walk finds the files that the directories listed which are
  reached from it, in ascending order. The induction is on the node that the path leads to.
* `acc_enters`: from a directory a walk can only go on finitely often.
* `walk_finds_exactly`: what the walk of a tree gives.
-/

namespace OpacityMigration.Walk

open FileSystem

/-! ## Collecting lists -/

section Collecting

variable {α β : Type} {f g : α → Except Failure (List β)} {a : α} {as : List α} {cs : List β}

theorem collect_cons_eq_ok :
    collect f (a :: as) = .ok cs ↔
      ∃ bs rest, f a = .ok bs ∧ collect f as = .ok rest ∧ cs = bs ++ rest := by
  rw [collect]
  cases f a with
  | error failure => simp
  | ok bs =>
    cases collect f as with
    | error failure => simp
    | ok rest => simp [eq_comm]

theorem collect_congr (h : ∀ a ∈ as, f a = g a) : collect f as = collect g as := by
  induction as with
  | nil => rfl
  | cons a as ih =>
    rw [collect, collect, h a List.mem_cons_self,
      ih fun b hb => h b (List.mem_cons_of_mem _ hb)]

theorem exists_of_collect (h : collect f as = .ok cs) (ha : a ∈ as) : ∃ bs, f a = .ok bs := by
  induction as generalizing cs with
  | nil => cases ha
  | cons b as ih =>
    obtain ⟨bs, rest, hb, hrest, -⟩ := collect_cons_eq_ok.mp h
    rcases List.mem_cons.mp ha with rfl | ha
    · exact ⟨bs, hb⟩
    · exact ih hrest ha

theorem mem_collect {c : β} (h : collect f as = .ok cs) :
    c ∈ cs ↔ ∃ a ∈ as, ∃ bs, f a = .ok bs ∧ c ∈ bs := by
  induction as generalizing cs with
  | nil =>
    cases h
    simp
  | cons a as ih =>
    obtain ⟨bs, rest, ha, hrest, rfl⟩ := collect_cons_eq_ok.mp h
    rw [List.mem_append, ih hrest, List.exists_mem_cons_iff]
    simp [ha]

theorem pairwise_collect {R : β → β → Prop} (h : collect f as = .ok cs)
    (hwithin : ∀ a ∈ as, ∀ bs, f a = .ok bs → bs.Pairwise R)
    (hacross : as.Pairwise fun a a' =>
      ∀ bs bs', f a = .ok bs → f a' = .ok bs' → ∀ b ∈ bs, ∀ b' ∈ bs', R b b') :
    cs.Pairwise R := by
  induction as generalizing cs with
  | nil =>
    cases h
    exact List.Pairwise.nil
  | cons a as ih =>
    obtain ⟨bs, rest, ha, hrest, rfl⟩ := collect_cons_eq_ok.mp h
    obtain ⟨hfirst, hacross⟩ := List.pairwise_cons.mp hacross
    refine List.pairwise_append.mpr ⟨hwithin a List.mem_cons_self bs ha, ?_, ?_⟩
    · exact ih hrest (fun b hb => hwithin b (List.mem_cons_of_mem _ hb)) hacross
    · intro b hb b' hb'
      obtain ⟨a', ha', bs', hbs', hb'⟩ := (mem_collect hrest).mp hb'
      exact hfirst a' ha' bs bs' ha hbs' b hb b' hb'

end Collecting

/-! ## Where a walk goes -/

/-- A name of a file that counts: it is text and ends in a dot and one of the extensions. -/
def HasExtension (extensions : List String) (name : Name) : Prop :=
  ∃ stem, ∃ extension ∈ extensions, name = Utf8.encode (stem ++ '.' :: extension.toList)

/-- From the directory `d`, which may be read and searched, a walk goes on to `d'`, a directory in
it and not a link to one, whose name is not among those to skip. -/
def Enters (fs : FileSystem) (config : Config) (d d' : Path) : Prop :=
  ∃ access names, fs.directory? d = some (access, names) ∧ access.read = true ∧
    access.search = true ∧ ∃ name ∈ names, fs.isRealDirectory (d.child name) = true ∧
      Utf8.lossyString name ∉ config.skipDirs ∧ d' = d.child name

/-- The root and the directories to which a walk goes on from it. -/
def Reached (fs : FileSystem) (config : Config) (d : Path) : Prop :=
  Relation.ReflTransGen (Enters fs config) config.root d

/-- `p` is the path of an entry of the directory `d`, which may be searched. The entry counts by its
name, is no directory, and leads to a regular file, links followed. -/
def Lists (fs : FileSystem) (config : Config) (d p : Path) : Prop :=
  ∃ access names, fs.directory? d = some (access, names) ∧ access.search = true ∧
    ∃ name ∈ names, HasExtension config.extensions name ∧
      fs.isRealDirectory (d.child name) = false ∧ fs.isFile (d.child name) = true ∧
      p = d.child name

variable {fs : FileSystem} {config : Config} {d d' p : Path} {name : Name} {access : Access}
  {names : List Name} {child : Name → Node} {node : Node} {paths found : List Path}

theorem isWanted_iff {extensions : List String} :
    isWanted extensions name = true ↔ HasExtension extensions name := by
  simp only [isWanted, Bool.and_eq_true, List.any_eq_true, List.isSuffixOf_iff_suffix,
    Option.isSome_iff_exists, Utf8.decode?_eq_some]
  constructor
  · rintro ⟨⟨text, rfl⟩, extension, hext, front, hfront⟩
    obtain ⟨stem, rfl⟩ := Utf8.eq_append_of_encode hfront.symm
    exact ⟨stem, extension, hext, rfl⟩
  · rintro ⟨stem, extension, hext, rfl⟩
    exact ⟨⟨_, rfl⟩, extension, hext, Utf8.encode stem, (Utf8.encode_append _ _).symm⟩

theorem isSkipped_eq_false {skipDirs : List String} :
    isSkipped skipDirs name = false ↔ Utf8.lossyString name ∉ skipDirs := by
  simp [isSkipped]

theorem enters_iff (hdir : fs.directory? d = some (access, names)) :
    Enters fs config d d' ↔ access.read = true ∧ access.search = true ∧ ∃ name ∈ names,
      fs.isRealDirectory (d.child name) = true ∧ Utf8.lossyString name ∉ config.skipDirs ∧
        d' = d.child name := by
  constructor
  · rintro ⟨access', names', hdir', hread, hsearch, hentry⟩
    obtain ⟨rfl, rfl⟩ := Prod.mk.inj (Option.some.inj (hdir.symm.trans hdir'))
    exact ⟨hread, hsearch, hentry⟩
  · rintro ⟨hread, hsearch, hentry⟩
    exact ⟨access, names, hdir, hread, hsearch, hentry⟩

theorem lists_iff (hdir : fs.directory? d = some (access, names)) :
    Lists fs config d p ↔ access.search = true ∧ ∃ name ∈ names,
      HasExtension config.extensions name ∧ fs.isRealDirectory (d.child name) = false ∧
        fs.isFile (d.child name) = true ∧ p = d.child name := by
  constructor
  · rintro ⟨access', names', hdir', hsearch, hentry⟩
    obtain ⟨rfl, rfl⟩ := Prod.mk.inj (Option.some.inj (hdir.symm.trans hdir'))
    exact ⟨hsearch, hentry⟩
  · rintro ⟨hsearch, hentry⟩
    exact ⟨access, names, hdir, hsearch, hentry⟩

theorem not_enters (hdir : fs.directory? d = none) : ¬ Enters fs config d d' := by
  rintro ⟨access, names, hdir', -⟩
  rw [hdir] at hdir'
  cases hdir'

/-! ## Entries in the tree -/

theorem isRealDirectory_child (h : fs.lookup d = .ok (.directory access names child))
    (hname : EntryName name) :
    fs.isRealDirectory (d.child name) = true ↔
      (access.search = true ∧ (d.child name).bytes.length ≤ maxPath ∧ name ∈ names) ∧
        (child name).isDirectory = true := by
  rw [isRealDirectory, nodeAt?_child h hname]
  split
  · rename_i hall
    simp [hall]
  · rename_i hnot
    simp [hnot]

theorem lookup_of_isRealDirectory (h : fs.lookup d = .ok (.directory access names child))
    (hname : EntryName name) (hreal : fs.isRealDirectory (d.child name) = true) :
    fs.lookup (d.child name) = .ok (child name) := by
  obtain ⟨⟨hsearch, hshort, hmem⟩, hdirectory⟩ := (isRealDirectory_child h hname).mp hreal
  refine lookup_child h hname hsearch hshort hmem ?_
  intro target hlink
  rw [hlink] at hdirectory
  cases hdirectory

theorem enters_child (h : fs.lookup d = .ok (.directory access names child))
    (hread : access.read = true) (hname : EntryName name) (hmem : name ∈ names)
    (hreal : fs.isRealDirectory (d.child name) = true)
    (hskip : Utf8.lossyString name ∉ config.skipDirs) : Enters fs config d (d.child name) := by
  obtain ⟨⟨hsearch, -⟩, -⟩ := (isRealDirectory_child h hname).mp hreal
  exact (enters_iff (directory?_eq_some.mpr ⟨child, h⟩)).mpr
    ⟨hread, hsearch, name, hmem, hreal, hskip, rfl⟩

theorem search_of_isFile (h : fs.lookup d = .ok (.directory access names child))
    (hname : EntryName name) (hfile : fs.isFile (d.child name) = true) : access.search = true := by
  obtain ⟨id, fileAccess, hlookup⟩ := isFile_eq_true.mp hfile
  exact (allows_of_lookup_child h hname hlookup).1

/-- What a walk does with an entry of the directory `d`. -/
def visit (fs : FileSystem) (config : Config) (d : Path) (child : Name → Node) (name : Name) :
    Except Failure (List Path) :=
  if fs.isRealDirectory (d.child name) then
    if isSkipped config.skipDirs name then .ok []
    else walkNode fs config (d.child name) (child name)
  else if fs.isFile (d.child name) && isWanted config.extensions name then .ok [d.child name]
  else .ok []

/-- The walk of a directory visits the entries in the order of their names. -/
theorem walkNode_directory (h : fs.lookup d = .ok (.directory access names child))
    (hnames : ∀ name ∈ names, EntryName name) :
    walkNode fs config d (.directory access names child) =
      if access.read then collect (visit fs config d child) (ordered names)
      else .error (.refused .permissionDenied (.listDirectory d)) := by
  rw [walkNode, collect_congr (g := visit fs config d child)]
  intro name hname
  have hmem := mem_ordered.mp hname
  have hreal : (access.search && decide ((d.child name).bytes.length ≤ maxPath) &&
      (child name).isDirectory) = fs.isRealDirectory (d.child name) := by
    rw [Bool.eq_iff_iff, isRealDirectory_child h (hnames name hmem)]
    simp [hmem]
  rw [visit, ← hreal]

theorem walkNode_eq_ok (h : fs.lookup d = .ok (.directory access names child))
    (hnames : ∀ name ∈ names, EntryName name) :
    walkNode fs config d (.directory access names child) = .ok paths ↔
      access.read = true ∧ collect (visit fs config d child) (ordered names) = .ok paths := by
  rw [walkNode_directory h hnames]
  by_cases hread : access.read = true
  · rw [if_pos hread, and_iff_right hread]
  · rw [if_neg hread]
    simp [hread]

/-! ## What is found below a directory -/

/-- What a walk finds below `d`, or in it. -/
structure Content (fs : FileSystem) (config : Config) (d : Path) (found : List Path) : Prop where
  readable : ∀ d', Relation.ReflTransGen (Enters fs config) d d' →
    ∀ access names, fs.directory? d' = some (access, names) → access.read = true
  mem : ∀ p, p ∈ found ↔
    ∃ d', Relation.ReflTransGen (Enters fs config) d d' ∧ Lists fs config d' p
  increasing : found.Pairwise Path.Before
  below : ∀ p ∈ found, d.components <+: p.components

/-- A path that leads to no directory is neither entered nor listed. -/
theorem content_of_not_directory (hdir : fs.directory? d = none) : Content fs config d [] := by
  have hself : ∀ d', Relation.ReflTransGen (Enters fs config) d d' → d' = d := by
    intro d' hreach
    rcases Relation.ReflTransGen.cases_head hreach with heq | ⟨next, hnext, -⟩
    · exact heq.symm
    · exact absurd hnext (not_enters hdir)
  refine ⟨?_, ?_, List.Pairwise.nil, fun p hp => by cases hp⟩
  · intro d' hreach access names hdir'
    rw [hself d' hreach, hdir] at hdir'
    cases hdir'
  · intro p
    refine iff_of_false List.not_mem_nil ?_
    rintro ⟨d', hreach, access, names, hdir', -⟩
    rw [hself d' hreach, hdir] at hdir'
    cases hdir'

/-- What a visit of an entry of `d` finds, by what the entry is. -/
inductive Visited (fs : FileSystem) (config : Config) (d : Path) (name : Name) : List Path → Prop
  /-- The entry is a directory to which the walk goes on. -/
  | entered {found : List Path} (hreal : fs.isRealDirectory (d.child name) = true)
      (hskip : Utf8.lossyString name ∉ config.skipDirs)
      (hcontent : Content fs config (d.child name) found) : Visited fs config d name found
  | skipped (hreal : fs.isRealDirectory (d.child name) = true)
      (hskip : Utf8.lossyString name ∈ config.skipDirs) : Visited fs config d name []
  | listed (hreal : fs.isRealDirectory (d.child name) = false)
      (hfile : fs.isFile (d.child name) = true) (hext : HasExtension config.extensions name) :
      Visited fs config d name [d.child name]
  | unwanted (hreal : fs.isRealDirectory (d.child name) = false)
      (hnot : ¬ (fs.isFile (d.child name) = true ∧ HasExtension config.extensions name)) :
      Visited fs config d name []

theorem visited_of_visit
    (hcontent : ∀ found, fs.isRealDirectory (d.child name) = true →
      walkNode fs config (d.child name) (child name) = .ok found →
      Content fs config (d.child name) found)
    (h : visit fs config d child name = .ok found) : Visited fs config d name found := by
  unfold visit at h
  split at h
  · rename_i hreal
    split at h
    · rename_i hskip
      cases h
      exact .skipped hreal (by simpa [isSkipped] using hskip)
    · rename_i hskip
      exact .entered hreal (isSkipped_eq_false.mp (by simpa using hskip)) (hcontent found hreal h)
  · rename_i hreal
    have hreal := Bool.eq_false_iff.mpr hreal
    split at h
    · rename_i hboth
      cases h
      rw [Bool.and_eq_true, isWanted_iff] at hboth
      exact .listed hreal hboth.1 hboth.2
    · rename_i hnot
      cases h
      rw [Bool.and_eq_true, isWanted_iff] at hnot
      exact .unwanted hreal hnot

theorem Visited.content (h : Visited fs config d name found)
    (hreal : fs.isRealDirectory (d.child name) = true)
    (hskip : Utf8.lossyString name ∉ config.skipDirs) : Content fs config (d.child name) found := by
  cases h with
  | entered _ _ hcontent => exact hcontent
  | skipped _ hskip' => exact absurd hskip' hskip
  | listed hreal' _ _ => exact absurd (hreal.symm.trans hreal') Bool.true_eq_false.mp
  | unwanted hreal' _ => exact absurd (hreal.symm.trans hreal') Bool.true_eq_false.mp

theorem Visited.eq_singleton (h : Visited fs config d name found)
    (hreal : fs.isRealDirectory (d.child name) = false)
    (hfile : fs.isFile (d.child name) = true) (hext : HasExtension config.extensions name) :
    found = [d.child name] := by
  cases h with
  | entered hreal' _ _ => exact absurd (hreal'.symm.trans hreal) Bool.true_eq_false.mp
  | skipped hreal' _ => exact absurd (hreal'.symm.trans hreal) Bool.true_eq_false.mp
  | listed _ _ _ => rfl
  | unwanted _ hnot => exact absurd ⟨hfile, hext⟩ hnot

theorem Visited.increasing (h : Visited fs config d name found) : found.Pairwise Path.Before := by
  cases h with
  | entered hreal hskip hcontent => exact hcontent.increasing
  | skipped hreal hskip => exact List.Pairwise.nil
  | listed hreal hfile hext => exact List.pairwise_singleton _ _
  | unwanted hreal hnot => exact List.Pairwise.nil

theorem Visited.below (h : Visited fs config d name found) :
    ∀ p ∈ found, (d.child name).components <+: p.components := by
  intro p hp
  cases h with
  | entered hreal hskip hcontent => exact hcontent.below p hp
  | skipped hreal hskip => cases hp
  | listed hreal hfile hext =>
    rw [List.mem_singleton.mp hp]
  | unwanted hreal hnot => cases hp

section Entries

variable (h : fs.lookup d = .ok (.directory access names child))
  (hnames : ∀ name ∈ names, EntryName name)
  (hcollect : collect (visit fs config d child) (ordered names) = .ok paths)
  (hvisited : ∀ name ∈ names, ∀ found, visit fs config d child name = .ok found →
    Visited fs config d name found)

include h hcollect hvisited

/-- The directories to which the walk goes on from `d` have a content, which it collects. -/
theorem content_of_enters (henters : Enters fs config d d') :
    ∃ name ∈ names, ∃ found, visit fs config d child name = .ok found ∧
      Content fs config d' found := by
  obtain ⟨-, -, name, hmem, hreal, hskip, rfl⟩ :=
    (enters_iff (directory?_eq_some.mpr ⟨child, h⟩)).mp henters
  obtain ⟨found, hfound⟩ := exists_of_collect hcollect (mem_ordered.mpr hmem)
  exact ⟨name, hmem, found, hfound, (hvisited name hmem found hfound).content hreal hskip⟩

include hnames in
theorem lists_of_mem (hread : access.read = true) (hp : p ∈ paths) :
    ∃ d', Relation.ReflTransGen (Enters fs config) d d' ∧ Lists fs config d' p := by
  have hdir : fs.directory? d = some (access, names) := directory?_eq_some.mpr ⟨child, h⟩
  obtain ⟨name, hname, found, hfound, hp⟩ := (mem_collect hcollect).mp hp
  have hmem := mem_ordered.mp hname
  cases hvisited name hmem found hfound with
  | entered hreal hskip hcontent =>
    obtain ⟨d', hreach, hlists⟩ := (hcontent.mem p).mp hp
    have hnext := enters_child h hread (hnames name hmem) hmem hreal hskip
    exact ⟨d', .head hnext hreach, hlists⟩
  | skipped _ _ => cases hp
  | listed hreal hfile hext =>
    have hsearch := search_of_isFile h (hnames name hmem) hfile
    have hlists : Lists fs config d p :=
      (lists_iff hdir).mpr ⟨hsearch, name, hmem, hext, hreal, hfile, List.mem_singleton.mp hp⟩
    exact ⟨d, .refl, hlists⟩
  | unwanted _ _ => cases hp

theorem mem_of_lists (hreach : Relation.ReflTransGen (Enters fs config) d d')
    (hlists : Lists fs config d' p) : p ∈ paths := by
  rw [mem_collect hcollect]
  rcases Relation.ReflTransGen.cases_head hreach with rfl | ⟨next, hnext, hreach⟩
  · obtain ⟨-, name, hmem, hext, hreal, hfile, rfl⟩ :=
      (lists_iff (directory?_eq_some.mpr ⟨child, h⟩)).mp hlists
    obtain ⟨found, hfound⟩ := exists_of_collect hcollect (mem_ordered.mpr hmem)
    refine ⟨name, mem_ordered.mpr hmem, found, hfound, ?_⟩
    rw [(hvisited name hmem found hfound).eq_singleton hreal hfile hext]
    exact List.mem_singleton_self _
  · obtain ⟨name, hmem, found, hfound, hcontent⟩ :=
      content_of_enters h hcollect hvisited hnext
    exact ⟨name, mem_ordered.mpr hmem, found, hfound,
      (hcontent.mem p).mpr ⟨d', hreach, hlists⟩⟩

include hnames in
/-- The entries are visited in ascending order, and what lies below one comes before the next. -/
theorem increasing_of_visited : paths.Pairwise Path.Before := by
  refine pairwise_collect hcollect ?_ ?_
  · intro name hname found hfound
    exact (hvisited name (mem_ordered.mp hname) found hfound).increasing
  · refine (pairwise_ordered names).imp_of_mem ?_
    intro a b ha hb hlt found found' hfound hfound' p hp q hq
    have ha := mem_ordered.mp ha
    have hb := mem_ordered.mp hb
    exact Path.before_of_lt (ne_nil_of_lookup h) (hnames a ha) (hnames b hb) hlt
      ((hvisited a ha found hfound).below p hp) ((hvisited b hb found' hfound').below q hq)

include hnames in
/-- A directory that may be read has the content that the visits of its entries find. -/
theorem content_of_visited (hread : access.read = true) : Content fs config d paths := by
  refine ⟨?_, fun p => ⟨?_, ?_⟩, increasing_of_visited h hnames hcollect hvisited, ?_⟩
  · intro d' hreach access' names' hdir'
    rcases Relation.ReflTransGen.cases_head hreach with rfl | ⟨next, hnext, hreach⟩
    · rw [directory?_eq_some.mpr ⟨child, h⟩] at hdir'
      cases hdir'
      exact hread
    · obtain ⟨_, _, _, _, hcontent⟩ := content_of_enters h hcollect hvisited hnext
      exact hcontent.readable d' hreach access' names' hdir'
  · exact lists_of_mem h hnames hcollect hvisited hread
  · rintro ⟨d', hreach, hlists⟩
    exact mem_of_lists h hcollect hvisited hreach hlists
  · intro p hp
    obtain ⟨name, hname, found, hfound, hp⟩ := (mem_collect hcollect).mp hp
    have hmem := mem_ordered.mp hname
    refine List.IsPrefix.trans ?_ ((hvisited name hmem found hfound).below p hp)
    rw [Path.components_child (ne_nil_of_lookup h) (hnames name hmem)]
    exact List.prefix_append _ _

end Entries

theorem content_walkNode (h : fs.lookup d = .ok node)
    (hwalk : walkNode fs config d node = .ok paths) : Content fs config d paths := by
  induction node generalizing d paths with
  | file id access =>
    cases hwalk
    exact content_of_not_directory (by rw [directory?, h])
  | link target =>
    cases hwalk
    exact content_of_not_directory (by rw [directory?, h])
  | directory access names child ih =>
    have hnames : ∀ name ∈ names, EntryName name :=
      fun name hmem => (wellNamed_of_lookup h name hmem).1
    obtain ⟨hread, hcollect⟩ := (walkNode_eq_ok h hnames).mp hwalk
    refine content_of_visited h hnames hcollect (fun name hmem found hfound => ?_) hread
    refine visited_of_visit (fun below hreal hbelow => ?_) hfound
    exact ih name (lookup_of_isRealDirectory h (hnames name hmem) hreal) hbelow

/-- The content of the root; a root that is not there has none. -/
theorem content_walk (hwalk : walk fs config = .ok paths) :
    Content fs config config.root paths := by
  cases h : fs.lookup config.root with
  | error fault =>
    rw [walk, h] at hwalk
    cases hwalk
    exact content_of_not_directory (by rw [directory?, h])
  | ok node =>
    rw [walk, h] at hwalk
    simp only at hwalk
    split at hwalk
    · exact content_walkNode h hwalk
    · cases hwalk

/-! ## The end of a walk -/

/-- Going on from directory to directory comes to an end, since it goes down the tree. -/
theorem acc_enters (h : fs.lookup d = .ok node) :
    Acc (fun d' d => Enters fs config d d') d := by
  induction node generalizing d with
  | file id access => exact ⟨d, fun d' hnext => absurd hnext (not_enters (by rw [directory?, h]))⟩
  | link target => exact ⟨d, fun d' hnext => absurd hnext (not_enters (by rw [directory?, h]))⟩
  | directory access names child ih =>
    refine ⟨d, fun d' hnext => ?_⟩
    obtain ⟨-, -, name, hmem, hreal, -, rfl⟩ :=
      (enters_iff (directory?_eq_some.mpr ⟨child, h⟩)).mp hnext
    have hname := (wellNamed_of_lookup h name hmem).1
    exact ih name (lookup_of_isRealDirectory h hname hreal)

theorem wellFounded_enters (fs : FileSystem) (config : Config) :
    WellFounded fun d' d => Enters fs config d d' := by
  refine ⟨fun d => ?_⟩
  cases h : fs.lookup d with
  | ok node => exact acc_enters h
  | error fault => exact ⟨d, fun d' hnext => absurd hnext (not_enters (by rw [directory?, h]))⟩

theorem finite_enters (fs : FileSystem) (config : Config) (d : Path) :
    {d' | Enters fs config d d'}.Finite := by
  cases hdir : fs.directory? d with
  | none => exact Set.finite_empty.subset fun d' hnext => not_enters hdir hnext
  | some dir =>
    refine ((List.finite_toSet dir.2).image d.child).subset ?_
    intro d' hnext
    obtain ⟨-, -, name, hmem, -, -, rfl⟩ := (enters_iff hdir).mp hnext
    exact ⟨name, hmem, rfl⟩

/-- Each directory has finitely many entries, so the walk goes on to finitely many directories in
all. -/
theorem finite_reached (fs : FileSystem) (config : Config) (d : Path) :
    {d' | Relation.ReflTransGen (Enters fs config) d d'}.Finite := by
  induction d using (wellFounded_enters fs config).induction with
  | _ d ih =>
    have hbelow := (finite_enters fs config d).biUnion fun next hnext => ih next hnext
    refine (hbelow.insert d).subset ?_
    intro d' hreach
    rcases Relation.ReflTransGen.cases_head hreach with heq | ⟨next, hnext, hreach⟩
    · exact Or.inl heq.symm
    · exact Or.inr (Set.mem_biUnion hnext hreach)

/-! ## The walk of a tree -/

/-- **What a walk gives.** Whatever cycles the links of a tree form, a walk goes on from directory
to directory only finitely often, and reaches finitely many. If it succeeds, then with the files
that the reached directories list, no more and no less, each once and in ascending order. -/
theorem walk_finds_exactly (fs : FileSystem) (config : Config) :
    (WellFounded (fun d' d => Enters fs config d d') ∧ {d | Reached fs config d}.Finite) ∧
    ∀ paths, walk fs config = .ok paths →
      (∀ p, p ∈ paths ↔ ∃ d, Reached fs config d ∧ Lists fs config d p) ∧
      paths.Pairwise Path.Before ∧ paths.Nodup := by
  refine ⟨⟨wellFounded_enters fs config, finite_reached fs config config.root⟩, ?_⟩
  intro paths hwalk
  have hcontent := content_walk hwalk
  refine ⟨hcontent.mem, hcontent.increasing, ?_⟩
  refine hcontent.increasing.imp fun hbefore heq => ?_
  rw [heq] at hbefore
  exact Path.not_before_self _ hbefore

/-- A directory beside a file whose name it begins, a link back up the tree, a link to a file, a
directory to skip, and one that may be read but not searched. -/
def linkedTree : FileSystem :=
  let put (fs : FileSystem) (p : String) := fs.putFile (.ofString p) []
  let files := ["lib/a.dart", "lib/a/z.dart", "lib/build/c.dart", "lib/closed/b.dart"].foldl put
    (.empty [])
  ((files.putLink (.ofString "lib/a/loop") (.ofString "..")).putLink (.ofString "lib/link.dart")
    (.ofString "a/loop/a.dart")).setAccess (.ofString "lib/closed") (.ofDigit 4)

theorem walk_finds_linkedTree :
    let config : Config := ⟨.ofString "lib", ["dart"], ["build"]⟩
    let paths := ["lib/a/z.dart", "lib/a.dart", "lib/link.dart"].map Path.ofString
    walk linkedTree config = .ok paths ∧
      WellFounded (fun d' d => Enters linkedTree config d d') ∧
      (∀ p, p ∈ paths ↔ ∃ d, Reached linkedTree config d ∧ Lists linkedTree config d p) ∧
      paths.Pairwise Path.Before ∧ paths.Nodup := by
  intro config paths
  have hwalk : walk linkedTree config = .ok paths := by cbv
  have hfinds := walk_finds_exactly linkedTree config
  exact ⟨hwalk, hfinds.1.1, hfinds.2 paths hwalk⟩

end OpacityMigration.Walk
