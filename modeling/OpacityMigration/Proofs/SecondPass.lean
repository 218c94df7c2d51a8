import OpacityMigration.Proofs.CallCounts
import OpacityMigration.Proofs.PrefixLaw
import OpacityMigration.Proofs.Walks

/-!
# A second pass, and a second run

An argument may hold an opening. The first pass takes it for a part of the argument, and for the
second pass it is the first opening of its segment. So a second pass finds nothing only where no
segment has two openings, and a second run over a tree only where no segment of a file has more
openings than walked paths lead to the file: each of these is a pass in the first run.

* `idle_of_find`, `migrate_of_find`, `stateAt_of_editsBefore`: a run without edits.
* `StopsAt.again`: where a first run succeeds, a second one does if there is room for it.
* `content_of_failureAt_again`: one that fails all the same has changed a file.
* `second_pass_idle_iff`: when a second pass, and a second run, have nothing to do.
-/

namespace OpacityMigration.Migration

open Call

variable {fs : FileSystem} {path : Path} {paths : List Path} {write : Bool} {turn : Nat}

/-! ## A run without edits -/

/-- Where no walked file has a call, a run does nothing. -/
theorem idle_of_find
    (h : ∀ path ∈ paths, ∃ text, fs.readText path = .ok text ∧ find text = [])
    (hturn : turn ≤ paths.length) :
    editsBefore write fs paths turn = [] ∧ stateAt write fs paths turn = fs := by
  induction turn with
  | zero => exact ⟨rfl, rfl⟩
  | succ turn ih =>
    obtain ⟨hedits, hstate⟩ := ih (Nat.le_of_succ_le hturn)
    have hpath : paths[turn]? = some paths[turn] := List.getElem?_eq_getElem hturn
    obtain ⟨text, hread, hfind⟩ := h _ (List.mem_of_getElem? hpath)
    have hread' : (stateAt write fs paths turn).readText paths[turn] = .ok text := by
      rw [hstate, hread]
    obtain ⟨hedit, hnext⟩ := stateAt_succ_of_find hpath hread' hfind
    exact ⟨by rw [editsBefore_succ, hedits, hedit]; rfl, hnext.trans hstate⟩

/-- Such a run succeeds. -/
theorem stopsAt_of_find
    (h : ∀ path ∈ paths, ∃ text, fs.readText path = .ok text ∧ find text = []) :
    StopsAt write fs paths paths.length := by
  refine ⟨Nat.le_refl _, fun turn hturn => ?_, fun hlt => absurd hlt (Nat.lt_irrefl _)⟩
  have hpath : paths[turn]? = some paths[turn] := List.getElem?_eq_getElem hturn
  obtain ⟨text, hread, hfind⟩ := h _ (List.mem_of_getElem? hpath)
  have hm : migrateFile fs paths[turn] write = .ok (editOf paths[turn] text write, fs) := by
    rw [migrateFile_eq_ok_iff, takeTurn_of_readText hread, if_neg fun hw => hw.1 hfind]
  simp only [failureAt, hpath, (idle_of_find h hturn.le).2, hm]

theorem migrate_of_find {config : Config} (hwalk : Walk.walk fs config = .ok paths)
    (h : ∀ path ∈ paths, ∃ text, fs.readText path = .ok text ∧ find text = []) :
    (migrate fs config write).result = .ok ⟨config.root, paths.length, [], write⟩ ∧
      (migrate fs config write).after = fs := by
  have hstop : StopsAt write fs paths paths.length := stopsAt_of_find h
  obtain ⟨-, hafter, hresult⟩ := migrate_of_stopsAt hwalk hstop
  obtain ⟨hedits, hstate⟩ := @idle_of_find _ _ write _ h (Nat.le_refl _)
  rw [failureAt_length, hedits] at hresult
  rw [stateAt_succ_length, hstate] at hafter
  exact ⟨hresult, hafter⟩

theorem stateAt_of_editsBefore (h : StopsAt write fs paths paths.length)
    (hturn : turn ≤ paths.length) (hedits : editsBefore write fs paths turn = []) :
    stateAt write fs paths turn = fs := by
  induction turn with
  | zero => rfl
  | succ turn ih =>
    rw [editsBefore_succ, List.append_eq_nil_iff, Option.toList_eq_nil_iff] at hedits
    obtain ⟨hbefore, hedit⟩ := hedits
    have hpath : paths[turn]? = some paths[turn] := List.getElem?_eq_getElem hturn
    obtain ⟨id, original, -, -, hread⟩ := readText_stateAt h hturn hpath
    simp only [editAt, hpath, hread, editOf_eq_none] at hedit
    rw [(stateAt_succ_of_find hpath hread hedit).2, ih (Nat.le_of_succ_le hturn) hbefore]

/-! ## The state after a first run -/

theorem visits_of_sameTree {fs' : FileSystem} (h : fs.SameTree fs') (paths : List Path)
    (id : FileId) : visits fs' paths id = visits fs paths id := by
  simp only [visits, h.fileId?]

theorem visits_take_le (paths : List Path) (turn : Nat) (id : FileId) :
    visits fs (paths.take turn) id ≤ visits fs paths id :=
  (List.take_sublist turn paths).countP_le

/-- The file system after a first run that gets to the end. -/
def migrated (fs : FileSystem) (paths : List Path) : FileSystem :=
  stateAt true fs paths paths.length

/-- Every path got its turn. -/
theorem StopsAt.progress (h : StopsAt true fs paths paths.length) :
    Progress true fs paths (editsBefore true fs paths paths.length) (migrated fs paths) := by
  have hprogress := progress_stateAt h.le h.handled
  rwa [List.take_length] at hprogress

/-- A walked file holds a text, which the first run takes through a pass for each path to it. -/
theorem content_migrated (h : StopsAt true fs paths paths.length) {id : FileId} {text : List Char}
    (hcontent : fs.content id = Utf8.encode text) :
    (migrated fs paths).content id = Utf8.encode (afterPasses (visits fs paths id) text) := by
  have := h.progress.rewritten rfl id
  rwa [hcontent, rewritten_encode] at this

/-- What the first run needed of a walked path when it got its turn. -/
theorem StopsAt.lookup (h : StopsAt true fs paths paths.length) (hturn : turn < paths.length)
    (hpath : paths[turn]? = some path) :
    ∃ id access text, fs.lookup path = .ok (.file id access) ∧ access.read = true ∧
      fs.content id = Utf8.encode text ∧
      (find (afterPasses (visits fs (paths.take turn) id) text) ≠ [] → access.write = true) := by
  have hprogress := progress_stateAt hturn.le
    fun before hbefore => h.handled before (hbefore.trans hturn)
  obtain ⟨id, access, text, hlookup, hread, hcontent, hwrite⟩ :=
    exists_migrateFile_eq_ok.mp (migrateFile_of_failureAt hpath (h.handled turn hturn))
  rw [hprogress.sameTree.lookup] at hlookup
  have hrewritten := hprogress.rewritten rfl id
  rw [hcontent] at hrewritten
  obtain ⟨original, horiginal, rfl⟩ := hrewritten.text
  exact ⟨id, access, original, hlookup, hread, horiginal, fun hfind => (hwrite hfind rfl).1⟩

/-- What a turn of a second run meets: the text that the first run has made, after some more passes.
It finds no call where the first run found none, so it writes only to files that the first run has
written to. -/
theorem StopsAt.lookup_again (h : StopsAt true fs paths paths.length)
    (hok : ∀ before < turn, failureAt true (migrated fs paths) paths before = none)
    (hturn : turn < paths.length) (hpath : paths[turn]? = some path) :
    ∃ id access text passes,
      (stateAt true (migrated fs paths) paths turn).lookup path = .ok (.file id access) ∧
      access.read = true ∧
      (migrated fs paths).content id = Utf8.encode text ∧
      (stateAt true (migrated fs paths) paths turn).content id =
        Utf8.encode (afterPasses passes text) ∧
      (find (afterPasses passes text) ≠ [] → access.write = true) := by
  have hfirst := h.progress
  have hsecond := progress_stateAt hturn.le hok
  obtain ⟨id, access, original, hlookup, hread, hcontent, hwrite⟩ := h.lookup hturn hpath
  have htext := content_migrated h hcontent
  have hagain := hsecond.rewritten rfl id
  rw [htext, rewritten_encode] at hagain
  refine ⟨id, access, _, _, ?_, hread, htext, hagain, fun hfind => hwrite fun hnone => hfind ?_⟩
  · rw [hsecond.sameTree.lookup, hfirst.sameTree.lookup, hlookup]
  · rw [← afterPasses_add]
    exact find_afterPasses_of_le
      ((visits_take_le paths turn id).trans (Nat.le_add_left _ _)) hnone

/-- Where the first run succeeds, a second one does if all files take what is written to them. -/
theorem StopsAt.again (h : StopsAt true fs paths paths.length)
    (hworks : ∀ opened, fs.sink opened = .works) :
    StopsAt true (migrated fs paths) paths paths.length := by
  have hfirst := h.progress
  refine ⟨Nat.le_refl _, ?_, fun hlt => absurd hlt (Nat.lt_irrefl _)⟩
  intro turn
  induction turn using Nat.strongRecOn with
  | ind turn ih =>
    intro hturn
    have hok : ∀ before < turn, failureAt true (migrated fs paths) paths before = none :=
      fun before hbefore => ih before hbefore (hbefore.trans hturn)
    have hpath : paths[turn]? = some paths[turn] := List.getElem?_eq_getElem hturn
    obtain ⟨id, access, text, passes, hlookup, hread, -, hagain, hwrite⟩ :=
      h.lookup_again hok hturn hpath
    have htree := hfirst.sameTree.trans (progress_stateAt hturn.le hok).sameTree
    have hroom : ∀ opened bytes,
        ((stateAt true (migrated fs paths) paths turn).sink opened).fault? bytes = none := by
      intro opened bytes
      rw [htree.sink, hworks, FileSystem.Sink.fault?]
    obtain ⟨edit, fs', hm⟩ := (@exists_migrateFile_eq_ok _ _ true).mpr
      ⟨id, access, _, hlookup, hread, hagain, fun hfind _ => ⟨hwrite hfind, hroom _ _⟩⟩
    simp only [failureAt, hpath, hm]

/-! ## When nothing is left to do -/

/-- No segment of a walked file has more openings than walked paths lead to the file. -/
def FewOpenings (fs : FileSystem) (paths : List Path) : Prop :=
  ∀ path ∈ paths, ∀ id text, fs.fileId? path = some id → fs.content id = Utf8.encode text →
    ∀ s ∈ segments text, openings s ≤ visits fs paths id

theorem visits_pos {id : FileId} (hpath : path ∈ paths) (hid : fs.fileId? path = some id) :
    0 < visits fs paths id :=
  List.countP_pos_iff.mpr ⟨path, hpath, by simp [hid]⟩

/-- The first run then leaves no call in a walked file. -/
theorem FewOpenings.find (hfew : FewOpenings fs paths) (h : StopsAt true fs paths paths.length)
    (hpath : path ∈ paths) :
    ∃ text, (migrated fs paths).readText path = .ok text ∧ Call.find text = [] := by
  obtain ⟨turn, hturn⟩ := List.mem_iff_getElem?.mp hpath
  have hlt : turn < paths.length := (List.getElem?_eq_some_iff.mp hturn).1
  obtain ⟨id, access, text, hlookup, hread, hcontent, -⟩ := h.lookup hlt hturn
  have hid : fs.fileId? path = some id := by rw [FileSystem.fileId?, hlookup]
  rw [← h.progress.sameTree.lookup] at hlookup
  have hafter := content_migrated h hcontent
  refine ⟨_, FileSystem.readText_eq_ok.mpr ⟨id, access, hlookup, hread, hafter⟩, ?_⟩
  exact find_afterPasses.mpr (hfew path hpath id text hid hcontent)

theorem occurrences_afterPasses_le (passes : Nat) (text : List Char) :
    occurrences opening (afterPasses passes text) ≤ occurrences opening text := by
  induction passes with
  | zero => exact Nat.le_refl _
  | succ passes ih =>
    have hpass := (occurrences_rewrite (afterPasses passes text)).1
    rw [afterPasses_succ]
    omega

/-- A pass that finds a call does not lead back to an earlier text, nor to one that goes on after
it: there is an opening less. -/
theorem not_isPrefix_rewrite {passes : Nat} {text : List Char}
    (hfind : find (afterPasses passes text) ≠ []) :
    ¬ text <+: (rewrite (afterPasses passes text)).content := by
  intro hbegins
  have hcalls := List.length_pos_iff.mpr hfind
  rw [length_find] at hcalls
  have hlost := (occurrences_rewrite (afterPasses passes text)).1
  have hbefore := occurrences_afterPasses_le passes text
  have hkept := occurrences_le_of_isPrefix literal_opening hbegins
  omega

/-- A second run that fails has changed a file: it could open it, and then left a beginning of the
rewritten text in it. -/
theorem content_of_failureAt_again (h : StopsAt true fs paths paths.length) {stop : Nat}
    (hagain : StopsAt true (migrated fs paths) paths stop) (hlt : stop < paths.length) :
    (stateAt true (migrated fs paths) paths (stop + 1)).content ≠ (migrated fs paths).content := by
  obtain ⟨failure, hfailure⟩ := Option.ne_none_iff_exists'.mp (hagain.fails hlt)
  obtain ⟨path, hpath, hm⟩ := migrateFile_of_failureAt_eq_some hfailure
  obtain ⟨id, access, text, passes, hlookup, hread, hfirst, hsecond, hwrite⟩ :=
    h.lookup_again hagain.handled hlt hpath
  have htext := FileSystem.readText_eq_ok.mpr ⟨id, access, hlookup, hread, hsecond⟩
  rcases migrateFile_eq_error.mp hm with ⟨fault, hunread, -⟩ | ⟨_, fault, hread', hfind, -⟩
  · rw [htext] at hunread
    cases hunread
  · obtain rfl := Except.ok.inj (htext.symm.trans hread')
    rw [stateAt_succ hpath, afterTurn,
      after_takeTurn_of_lookup hlookup hread (hwrite hfind) hsecond hfind]
    intro hsame
    have hcontent := congrFun hsame id
    simp only [FileSystem.replace, if_true, hfirst] at hcontent
    refine not_isPrefix_rewrite hfind (Utf8.isPrefix_of_encode ?_)
    rw [← hcontent]
    exact FileSystem.Sink.taken_isPrefix _ _

/-- A second run that changes no file shows it. -/
theorem fewOpenings_of_content (h : StopsAt true fs paths paths.length) {stop : Nat}
    (hagain : StopsAt true (migrated fs paths) paths stop)
    (hsame : (stateAt true (migrated fs paths) paths (stop + 1)).content =
      (migrated fs paths).content) : FewOpenings fs paths := by
  rcases hagain.le.lt_or_eq with hlt | rfl
  · exact absurd hsame (content_of_failureAt_again h hagain hlt)
  rw [stateAt_succ_length, ← migrated] at hsame
  intro path hpath id text hid hcontent
  have hfirst := content_migrated h hcontent
  have hsecond := content_migrated hagain hfirst
  rw [hsame, hfirst, visits_of_sameTree h.progress.sameTree] at hsecond
  rcases afterPasses_eq_self.mp (Utf8.encode_injective hsecond).symm with hzero | hfind
  · exact absurd hzero (visits_pos hpath hid).ne'
  · exact find_afterPasses.mp hfind

theorem rewrite_eq_self {text : List Char} :
    (rewrite text).content = text ∧ (rewrite text).replacements = 0 ↔ find text = [] := by
  rw [rewrite_content_eq_self, ← length_find, List.length_eq_zero_iff, and_self]

/-- **A second pass.** It changes nothing exactly if no segment of the text had two openings.
Where a run succeeds, so does a second run, if all files take what is written to them. Whether or
not it succeeds, the second run changes no file exactly if no segment of a walked file had more
openings than walked paths lead to the file; and exactly then it succeeds without an edit. -/
theorem second_pass_idle_iff (text : List Char) :
    ((rewrite (rewrite text).content).content = (rewrite text).content ∧
        (rewrite (rewrite text).content).replacements = 0 ↔
      ∀ s ∈ segments text, openings s ≤ 1) ∧
    ∀ fs config paths summary, Walk.walk fs config = .ok paths →
      (migrate fs config true).result = .ok summary →
      ((∀ opened, fs.sink opened = .works) →
        ∃ again, (migrate (migrate fs config true).after config true).result = .ok again) ∧
      ((migrate (migrate fs config true).after config true).after.content =
        (migrate fs config true).after.content ↔ FewOpenings fs paths) ∧
      ((∃ again, (migrate (migrate fs config true).after config true).result = .ok again ∧
        again.edits = []) ↔ FewOpenings fs paths) := by
  constructor
  · rw [rewrite_eq_self]
    change find (afterPasses 1 text) = [] ↔ _
    exact find_afterPasses
  intro fs config paths summary hwalk hresult
  obtain ⟨stop, hstop⟩ := exists_stopsAt true fs paths
  obtain ⟨-, hafter, -⟩ := migrate_of_stopsAt hwalk hstop
  obtain rfl : stop = paths.length := (hstop.result_eq_ok hwalk).mp ⟨summary, hresult⟩
  rw [← Walk.walk_of_sameTree hstop.progress.sameTree] at hwalk
  rw [stateAt_succ_length, ← migrated] at hafter
  rw [hafter]
  have hidle : FewOpenings fs paths →
      (migrate (migrated fs paths) config true).result = .ok ⟨config.root, paths.length, [], true⟩ ∧
        (migrate (migrated fs paths) config true).after = migrated fs paths :=
    fun hfew => migrate_of_find hwalk fun path hpath => hfew.find hstop hpath
  obtain ⟨stop, hagain⟩ := exists_stopsAt true (migrated fs paths) paths
  obtain ⟨-, hafter', hresult'⟩ := migrate_of_stopsAt hwalk hagain
  refine ⟨fun hworks => ((hstop.again hworks).result_eq_ok hwalk).mpr rfl, ⟨?_, ?_⟩, ?_, ?_⟩
  · intro hsame
    rw [hafter'] at hsame
    exact fewOpenings_of_content hstop hagain hsame
  · intro hfew
    rw [(hidle hfew).2]
  · rintro ⟨again, hsecond, hnone⟩
    obtain rfl : stop = paths.length := (hagain.result_eq_ok hwalk).mp ⟨again, hsecond⟩
    rw [hagain.failureAt_eq_none.mpr rfl, hsecond] at hresult'
    cases hresult'
    refine fewOpenings_of_content hstop hagain ?_
    rw [stateAt_succ_length, stateAt_of_editsBefore hagain (Nat.le_refl _) hnone]
  · intro hfew
    exact ⟨_, (hidle hfew).1, rfl⟩

/-- A call in the argument of a call keeps a second pass busy. -/
theorem second_pass_nested :
    rewrite ".withOpacity(.withOpacity(x))".toList =
        ⟨".withValues(alpha: .withOpacity(x))".toList, 1⟩ ∧
      rewrite ".withValues(alpha: .withOpacity(x))".toList =
        ⟨".withValues(alpha: .withValues(alpha: x))".toList, 1⟩ ∧
      ¬ ∀ text, (rewrite (rewrite text).content).content = (rewrite text).content ∧
        (rewrite (rewrite text).content).replacements = 0 := by
  have hfirst : rewrite ".withOpacity(.withOpacity(x))".toList =
      ⟨".withValues(alpha: .withOpacity(x))".toList, 1⟩ := by
    rw [rewrite_eq_joined]
    decide
  have hsecond : rewrite ".withValues(alpha: .withOpacity(x))".toList =
      ⟨".withValues(alpha: .withValues(alpha: x))".toList, 1⟩ := by
    rw [rewrite_eq_joined]
    decide
  refine ⟨hfirst, hsecond, ?_⟩
  intro h
  have hcount := (h ".withOpacity(.withOpacity(x))".toList).2
  rw [hfirst, hsecond] at hcount
  exact absurd hcount Nat.one_ne_zero

end OpacityMigration.Migration
