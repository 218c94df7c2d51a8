import Mathlib
import OpacityMigration.FileSystem.Arrange
import OpacityMigration.Migration.Basic
import OpacityMigration.Proofs.FileMigration
import OpacityMigration.Proofs.Passes

/-!
# The files a migration got to

A migration goes through the walked paths in order and stops at the first whose file cannot be read
or written. Two paths may lead to one file, so a file may get several turns. `stateAt` is the file
system when a path gets its turn, and `StopsAt` says at which turn the migration stops. Induction
on the turns gives what the paths before it have done (`Progress`): a file went through one
rewriting pass for each of them that leads to it, and nothing else happened. The turn that fails
adds nothing to that, unless it could open its file and not write it to the end.

* `migrateFilesFrom_of_stopsAt`: the loop over the paths, turn by turn.
* `Progress.step`: one more path.
* `progress_stateAt`: all paths up to a turn.
* `stateAt_stop`: the turn that fails.
* `migrate_prefix_law`: what a migration leaves behind, wherever it stops.
* `stopped_file_neither_kept_nor_named`: what may become of the file at which it stops.
-/

namespace OpacityMigration.Migration

open Call

variable {fs fs' fs'' : FileSystem} {path : Path} {paths handled : List Path} {write : Bool}
  {edits : List Edit} {edit : Option Edit} {stop turn : Nat}

/-! ## Turns -/

/-- The file system after the turn of a path. -/
def afterTurn (write : Bool) (fs : FileSystem) (path : Path) : FileSystem :=
  (takeTurn fs path write).after

/-- The file system when the path with this index gets its turn. -/
def stateAt (write : Bool) (fs : FileSystem) (paths : List Path) (turn : Nat) : FileSystem :=
  (paths.take turn).foldl (afterTurn write) fs

/-- The edit that the text calls for which the path with this index leads to at its turn. -/
def editAt (write : Bool) (fs : FileSystem) (paths : List Path) (turn : Nat) : Option Edit :=
  match paths[turn]? with
  | none => none
  | some path =>
    match (stateAt write fs paths turn).readText path with
    | .ok text => editOf path text write
    | .error _ => none

/-- The failure of the path with this index at its turn. -/
def failureAt (write : Bool) (fs : FileSystem) (paths : List Path) (turn : Nat) : Option Failure :=
  match paths[turn]? with
  | none => none
  | some path =>
    match migrateFile (stateAt write fs paths turn) path write with
    | .ok _ => none
    | .error failure => some failure

/-- The path with the index `stop` is the first that fails at its turn, or none fails and `stop` is
the number of paths. -/
structure StopsAt (write : Bool) (fs : FileSystem) (paths : List Path) (stop : Nat) : Prop where
  le : stop ≤ paths.length
  handled : ∀ turn < stop, failureAt write fs paths turn = none
  fails : stop < paths.length → failureAt write fs paths stop ≠ none

theorem afterTurn_of_ok (h : migrateFile fs path write = .ok (edit, fs')) :
    afterTurn write fs path = fs' := by
  rw [afterTurn, migrateFile_eq_ok_iff.mp h]

@[simp] theorem stateAt_zero : stateAt write fs paths 0 = fs := rfl

/-- After the last turn nothing more happens. -/
theorem stateAt_succ_length :
    stateAt write fs paths (paths.length + 1) = stateAt write fs paths paths.length := by
  rw [stateAt, List.take_of_length_le (Nat.le_succ _), stateAt, List.take_length]

theorem stateAt_cons (h : migrateFile fs path write = .ok (edit, fs')) :
    stateAt write fs (path :: paths) (turn + 1) = stateAt write fs' paths turn := by
  rw [stateAt, List.take_succ_cons, List.foldl_cons, afterTurn_of_ok h, stateAt]

theorem stateAt_succ (h : paths[turn]? = some path) :
    stateAt write fs paths (turn + 1) = afterTurn write (stateAt write fs paths turn) path := by
  rw [stateAt, List.take_add_one, h, Option.toList_some, List.foldl_append, List.foldl_cons,
    List.foldl_nil, stateAt]

theorem editAt_cons (h : migrateFile fs path write = .ok (edit, fs')) :
    editAt write fs (path :: paths) (turn + 1) = editAt write fs' paths turn := by
  rw [editAt, editAt, stateAt_cons h, List.getElem?_cons_succ]

theorem failureAt_cons (h : migrateFile fs path write = .ok (edit, fs')) :
    failureAt write fs (path :: paths) (turn + 1) = failureAt write fs' paths turn := by
  rw [failureAt, failureAt, stateAt_cons h, List.getElem?_cons_succ]

theorem editAt_zero (h : migrateFile fs path write = .ok (edit, fs')) :
    editAt write fs (path :: paths) 0 = edit := by
  obtain ⟨-, text, -, -, hread, rfl, -⟩ := migrateFile_pass h
  rw [editAt, stateAt_zero, List.getElem?_cons_zero]
  simp only [hread]

theorem failureAt_zero_of_ok (h : migrateFile fs path write = .ok (edit, fs')) :
    failureAt write fs (path :: paths) 0 = none := by
  rw [failureAt, stateAt_zero, List.getElem?_cons_zero]
  simp only [h]

theorem failureAt_zero_of_error {failure : Failure}
    (h : migrateFile fs path write = .error failure) :
    failureAt write fs (path :: paths) 0 = some failure := by
  rw [failureAt, stateAt_zero, List.getElem?_cons_zero]
  simp only [h]

theorem failureAt_length : failureAt write fs paths paths.length = none := by
  simp [failureAt]

theorem StopsAt.failureAt_eq_none (h : StopsAt write fs paths stop) :
    failureAt write fs paths stop = none ↔ stop = paths.length := by
  constructor
  · intro hnone
    by_contra hne
    exact h.fails (Nat.lt_of_le_of_ne h.le hne) hnone
  · rintro rfl
    exact failureAt_length

theorem stopsAt_nil : StopsAt write fs [] stop ↔ stop = 0 := by
  constructor
  · rintro ⟨hle, -⟩
    exact Nat.le_zero.mp hle
  · rintro rfl
    exact ⟨Nat.le_refl _, fun turn h => absurd h (Nat.not_lt_zero _),
      fun h => absurd h (Nat.lt_irrefl _)⟩

theorem stopsAt_cons_of_ok (h : migrateFile fs path write = .ok (edit, fs')) :
    StopsAt write fs (path :: paths) stop ↔
      ∃ more, stop = more + 1 ∧ StopsAt write fs' paths more := by
  constructor
  · rintro ⟨hle, hok, hfails⟩
    cases stop with
    | zero => exact absurd (failureAt_zero_of_ok h) (hfails (Nat.succ_pos _))
    | succ more =>
      refine ⟨more, rfl, Nat.le_of_succ_le_succ hle, ?_, ?_⟩
      · intro turn hturn
        rw [← failureAt_cons h]
        exact hok (turn + 1) (Nat.succ_lt_succ hturn)
      · intro hlt
        rw [← failureAt_cons h]
        exact hfails (Nat.succ_lt_succ hlt)
  · rintro ⟨more, rfl, hle, hok, hfails⟩
    refine ⟨Nat.succ_le_succ hle, ?_, ?_⟩
    · intro turn hturn
      cases turn with
      | zero => exact failureAt_zero_of_ok h
      | succ turn =>
        rw [failureAt_cons h]
        exact hok turn (Nat.lt_of_succ_lt_succ hturn)
    · intro hlt
      rw [failureAt_cons h]
      exact hfails (Nat.lt_of_succ_lt_succ hlt)

theorem stopsAt_cons_of_error {failure : Failure}
    (h : migrateFile fs path write = .error failure) :
    StopsAt write fs (path :: paths) stop ↔ stop = 0 := by
  have hzero : failureAt write fs (path :: paths) 0 = some failure := failureAt_zero_of_error h
  constructor
  · rintro ⟨-, hok, -⟩
    by_contra hne
    have := hok 0 (Nat.pos_of_ne_zero hne)
    rw [hzero] at this
    cases this
  · rintro rfl
    refine ⟨Nat.zero_le _, fun turn hturn => absurd hturn (Nat.not_lt_zero _), fun _ => ?_⟩
    rw [hzero]
    exact Option.some_ne_none failure

/-- A migration stops somewhere. -/
theorem exists_stopsAt (write : Bool) (fs : FileSystem) (paths : List Path) :
    ∃ stop, StopsAt write fs paths stop := by
  induction paths generalizing fs with
  | nil => exact ⟨0, stopsAt_nil.mpr rfl⟩
  | cons path paths ih =>
    cases h : migrateFile fs path write with
    | error failure => exact ⟨0, (stopsAt_cons_of_error h).mpr rfl⟩
    | ok handled =>
      obtain ⟨edit, fs'⟩ := handled
      obtain ⟨stop, hstop⟩ := ih fs'
      exact ⟨stop + 1, (stopsAt_cons_of_ok h).mpr ⟨stop, rfl, hstop⟩⟩

def editsBefore (write : Bool) (fs : FileSystem) (paths : List Path) (turn : Nat) : List Edit :=
  (List.range turn).filterMap (editAt write fs paths)

/-- The edits with the file system right after each. -/
def traceBefore (write : Bool) (fs : FileSystem) (paths : List Path) (turn : Nat) :
    List (Edit × FileSystem) :=
  (List.range turn).filterMap fun turn =>
    (editAt write fs paths turn).map fun edit => (edit, stateAt write fs paths (turn + 1))

theorem map_fst_traceBefore :
    (traceBefore write fs paths turn).map Prod.fst = editsBefore write fs paths turn := by
  rw [traceBefore, List.map_filterMap, editsBefore]
  simp only [Option.map_map, Function.comp_def, Option.map_id']

theorem editAt_eq_some {e : Edit} :
    editAt write fs paths turn = some e ↔ ∃ path text, paths[turn]? = some path ∧
      (stateAt write fs paths turn).readText path = .ok text ∧ editOf path text write = some e := by
  unfold editAt
  cases hpath : paths[turn]? with
  | none => simp
  | some path => cases hread : (stateAt write fs paths turn).readText path <;> simp [hread]

/-- The edits of a migration say whether it writes. -/
theorem written_of_mem_editsBefore {e : Edit} (he : e ∈ editsBefore write fs paths turn) :
    e.written = write := by
  obtain ⟨before, -, hedit⟩ := List.mem_filterMap.mp he
  obtain ⟨path, text, -, -, hedit⟩ := editAt_eq_some.mp hedit
  obtain ⟨-, rfl⟩ := editOf_eq_some.mp hedit
  rfl

theorem editsBefore_succ :
    editsBefore write fs paths (turn + 1) =
      editsBefore write fs paths turn ++ (editAt write fs paths turn).toList := by
  rw [editsBefore, List.range_succ, List.filterMap_append, editsBefore]
  cases h : editAt write fs paths turn with
  | none => simp [h]
  | some e => simp [h]

theorem traceBefore_cons (h : migrateFile fs path write = .ok (edit, fs')) :
    traceBefore write fs (path :: paths) (turn + 1) =
      (edit.map (·, fs')).toList ++ traceBefore write fs' paths turn := by
  rw [traceBefore, List.range_succ_eq_map, List.filterMap_cons, editAt_zero h, stateAt_cons h,
    stateAt_zero, List.filterMap_map]
  simp only [Function.comp_def, editAt_cons h, stateAt_cons h]
  cases edit with
  | none => rfl
  | some e => rfl

theorem migrateFilesFrom_cons (done : List (Edit × FileSystem))
    (h : migrateFile fs path write = .ok (edit, fs')) :
    migrateFilesFrom write done fs (path :: paths) =
      migrateFilesFrom write ((edit.map (·, fs')).toList ++ done) fs' paths := by
  rw [migrateFilesFrom, migrateFile_eq_ok_iff.mp h]
  cases edit with
  | none => rfl
  | some edit => rfl

theorem migrateFilesFrom_of_error (done : List (Edit × FileSystem)) {failure : Failure}
    (h : migrateFile fs path write = .error failure) :
    migrateFilesFrom write done fs (path :: paths) =
      ⟨done.reverse, some failure, afterTurn write fs path⟩ := by
  have hresult := migrateFile_eq_error_iff.mp h
  rw [migrateFilesFrom, afterTurn]
  rcases hturn : takeTurn fs path write with ⟨result, after⟩
  rw [hturn] at hresult
  obtain rfl : result = .error failure := hresult
  rfl

theorem reverse_toList_append {α : Type} (a : Option α) (done : List α) :
    (a.toList ++ done).reverse = done.reverse ++ a.toList := by
  cases a with
  | none => simp
  | some a => simp

/-- The loop makes the edits of the turns before it stops, and ends in the state after the turn at
which it stops. -/
theorem migrateFilesFrom_of_stopsAt (h : StopsAt write fs paths stop)
    (done : List (Edit × FileSystem)) :
    migrateFilesFrom write done fs paths =
      ⟨done.reverse ++ traceBefore write fs paths stop, failureAt write fs paths stop,
        stateAt write fs paths (stop + 1)⟩ := by
  induction paths generalizing fs done stop with
  | nil =>
    rw [stopsAt_nil.mp h, migrateFilesFrom, traceBefore, List.range_zero, List.filterMap_nil,
      List.append_nil]
    rfl
  | cons path paths ih =>
    cases hm : migrateFile fs path write with
    | error failure =>
      rw [(stopsAt_cons_of_error hm).mp h, failureAt_zero_of_error hm, traceBefore, List.range_zero,
        List.filterMap_nil, List.append_nil, migrateFilesFrom_of_error done hm,
        stateAt_succ List.getElem?_cons_zero, stateAt_zero]
    | ok result =>
      obtain ⟨edit, fs'⟩ := result
      obtain ⟨more, rfl, hmore⟩ := (stopsAt_cons_of_ok hm).mp h
      rw [migrateFilesFrom_cons done hm, ih hmore, reverse_toList_append, List.append_assoc,
        traceBefore_cons hm, failureAt_cons hm, stateAt_cons hm]

/-! ## What the turns have done -/

/-- How many of the paths lead to the file. -/
def visits (fs : FileSystem) (paths : List Path) (id : FileId) : Nat :=
  paths.countP fun path => fs.fileId? path = some id

/-- A file that went through so many passes. Without a pass it need not hold a text. -/
def Rewritten (passes : Nat) (before after : List UInt8) : Prop :=
  (passes = 0 ∧ after = before) ∨
    ∃ text, before = Utf8.encode text ∧ after = Utf8.encode (afterPasses passes text)

/-- What the turns of the `handled` paths, which made the `edits`, have turned `fs` into. -/
structure Progress (write : Bool) (fs : FileSystem) (handled : List Path) (edits : List Edit)
    (fs' : FileSystem) : Prop where
  sameTree : fs.SameTree fs'
  /-- Each file went through a pass for each path that leads to it. -/
  rewritten : write = true → ∀ id, Rewritten (visits fs handled id) (fs.content id) (fs'.content id)
  preview : write = false → fs' = fs
  /-- Only the files of the edits were opened for writing, each in its turn. -/
  opened : fs'.opened =
    (if write then (edits.filterMap fun edit => fs.fileId? edit.path).reverse else []) ++ fs.opened

theorem visits_append (done : List Path) (id : FileId) :
    visits fs (done ++ [path]) id =
      visits fs done id + if fs.fileId? path = some id then 1 else 0 := by
  rw [visits, List.countP_append, List.countP_singleton, visits]
  simp

theorem Rewritten.text {passes : Nat} {before : List UInt8} {text : List Char}
    (h : Rewritten passes before (Utf8.encode text)) :
    ∃ original, before = Utf8.encode original ∧ text = afterPasses passes original := by
  rcases h with ⟨rfl, heq⟩ | ⟨original, hbefore, heq⟩
  · exact ⟨text, heq.symm, rfl⟩
  · exact ⟨original, hbefore, Utf8.encode_injective heq⟩

theorem rewritten_encode {passes : Nat} {text : List Char} {after : List UInt8} :
    Rewritten passes (Utf8.encode text) after ↔ after = Utf8.encode (afterPasses passes text) := by
  constructor
  · rintro (⟨rfl, rfl⟩ | ⟨original, hbefore, rfl⟩)
    · rfl
    · rw [Utf8.encode_injective hbefore]
  · rintro rfl
    exact Or.inr ⟨text, rfl, rfl⟩

theorem Progress.refl (write : Bool) (fs : FileSystem) : Progress write fs [] [] fs where
  sameTree := .refl fs
  rewritten _ _ := Or.inl ⟨rfl, rfl⟩
  preview _ := rfl
  opened := by cases write <;> rfl

theorem Progress.step (hprogress : Progress write fs handled edits fs')
    (h : migrateFile fs' path write = .ok (edit, fs'')) :
    Progress write fs (handled ++ [path]) (edits ++ edit.toList) fs'' := by
  obtain ⟨id, text, hid, hcontent, hread, hedit, htree, hopened, hafter⟩ := migrateFile_pass h
  have hid₀ : fs.fileId? path = some id := by rw [← hprogress.sameTree.fileId?, hid]
  refine ⟨hprogress.sameTree.trans htree, ?_, ?_, ?_⟩
  · intro hwrite other
    have hbefore := hprogress.rewritten hwrite other
    rw [visits_append, hafter, hid₀]
    by_cases hother : other = id
    · subst hother
      rw [hcontent] at hbefore
      obtain ⟨original, horiginal, rfl⟩ := hbefore.text
      rw [if_pos rfl, if_pos ⟨hwrite, rfl⟩]
      exact Or.inr ⟨original, horiginal, by rw [afterPasses_succ]⟩
    · rw [if_neg fun heq => hother (Option.some.inj heq).symm, if_neg fun heq => hother heq.2]
      exact hbefore
  · intro hwrite
    obtain ⟨text', -, -, hsame⟩ := migrateFile_eq_ok.mp h
    rw [if_neg (by simp [hwrite])] at hsame
    rw [hsame, hprogress.preview hwrite]
  · rw [hopened, hprogress.opened]
    cases edit with
    | none => simp
    | some e =>
      obtain ⟨-, rfl⟩ := editOf_eq_some.mp hedit.symm
      cases write with
      | false => simp
      | true => simp [hid₀]

theorem migrateFile_of_failureAt (hpath : paths[turn]? = some path)
    (hok : failureAt write fs paths turn = none) :
    ∃ edit fs', migrateFile (stateAt write fs paths turn) path write = .ok (edit, fs') := by
  simp only [failureAt, hpath] at hok
  cases hm : migrateFile (stateAt write fs paths turn) path write with
  | error failure =>
    rw [hm] at hok
    cases hok
  | ok result => exact ⟨result.1, result.2, rfl⟩

/-- What the turns before one have done, as long as none of them failed. -/
theorem progress_stateAt (hturn : turn ≤ paths.length)
    (hok : ∀ before < turn, failureAt write fs paths before = none) :
    Progress write fs (paths.take turn) (editsBefore write fs paths turn)
      (stateAt write fs paths turn) := by
  induction turn with
  | zero => exact .refl write fs
  | succ turn ih =>
    have hbefore := ih (Nat.le_of_succ_le hturn) fun before hb => hok before (Nat.lt_succ_of_lt hb)
    obtain ⟨path, hpath⟩ : ∃ path, paths[turn]? = some path := ⟨_, List.getElem?_eq_getElem hturn⟩
    obtain ⟨edit, fs', hm⟩ := migrateFile_of_failureAt hpath (hok turn (Nat.lt_succ_self turn))
    obtain ⟨-, text, -, -, hread, hedit, -⟩ := migrateFile_pass hm
    have heditAt : editAt write fs paths turn = edit := by
      simp only [editAt, hpath, hread, hedit]
    have hstep := hbefore.step hm
    rw [stateAt_succ hpath, afterTurn_of_ok hm, editsBefore_succ, heditAt, List.take_add_one, hpath,
      Option.toList_some]
    exact hstep

/-- A path that gets its turn leads to the text that the passes before made of the first one. -/
theorem readText_stateAt (h : StopsAt write fs paths stop) (hturn : turn < stop)
    (hpath : paths[turn]? = some path) :
    ∃ id original, fs.fileId? path = some id ∧ fs.content id = Utf8.encode original ∧
      (stateAt write fs paths turn).readText path =
        .ok (afterPasses (if write then visits fs (paths.take turn) id else 0) original) := by
  have hprogress := progress_stateAt (hturn.le.trans h.le)
    fun before hbefore => h.handled before (hbefore.trans hturn)
  obtain ⟨edit, fs', hm⟩ := migrateFile_of_failureAt hpath (h.handled turn hturn)
  obtain ⟨id, text, hid, hcontent, hread, -⟩ := migrateFile_pass hm
  rw [hprogress.sameTree.fileId?] at hid
  by_cases hwrite : write = true
  · have hrewritten := hprogress.rewritten hwrite id
    rw [hcontent] at hrewritten
    obtain ⟨original, horiginal, rfl⟩ := hrewritten.text
    refine ⟨id, original, hid, horiginal, ?_⟩
    rw [hread, if_pos hwrite]
  · rw [hprogress.preview (Bool.eq_false_iff.mpr hwrite)] at hcontent
    refine ⟨id, text, hid, hcontent, ?_⟩
    rw [hread, if_neg hwrite, afterPasses_zero]

/-- The edits of a migration are of files that are there from the start. -/
theorem fileId?_of_mem_editsBefore {e : Edit} (h : StopsAt write fs paths stop)
    (he : e ∈ editsBefore write fs paths stop) : ∃ id, fs.fileId? e.path = some id := by
  obtain ⟨turn, hturn, hedit⟩ := List.mem_filterMap.mp he
  obtain ⟨path, text, hpath, -, hedit⟩ := editAt_eq_some.mp hedit
  obtain ⟨-, rfl⟩ := editOf_eq_some.mp hedit
  obtain ⟨id, -, hid, -⟩ := readText_stateAt h (List.mem_range.mp hturn) hpath
  exact ⟨id, hid⟩

/-- A text without a call leaves everything as it is. -/
theorem stateAt_succ_of_find {text : List Char} (hpath : paths[turn]? = some path)
    (hread : (stateAt write fs paths turn).readText path = .ok text) (hfind : find text = []) :
    editAt write fs paths turn = none ∧
      stateAt write fs paths (turn + 1) = stateAt write fs paths turn := by
  constructor
  · simp only [editAt, hpath, hread, editOf_eq_none.mpr hfind]
  · rw [stateAt_succ hpath, afterTurn, takeTurn_of_readText hread, if_neg fun h => h.1 hfind]

theorem migrateFile_of_failureAt_eq_some {failure : Failure}
    (h : failureAt write fs paths turn = some failure) :
    ∃ path, paths[turn]? = some path ∧
      migrateFile (stateAt write fs paths turn) path write = .error failure := by
  unfold failureAt at h
  split at h
  · cases h
  · rename_i path hpath
    split at h
    · cases h
    · rename_i hm
      cases h
      exact ⟨path, hpath, hm⟩

theorem stateAt_stop {failure : Failure} (hpath : paths[turn]? = some path)
    (hfails : migrateFile (stateAt write fs paths turn) path write = .error failure) :
    Leaves write (stateAt write fs paths turn) path failure
      (stateAt write fs paths (turn + 1)) := by
  rw [stateAt_succ hpath, afterTurn]
  exact leaves_of_migrateFile_eq_error hfails

/-- Only what files hold changes, also in the turn that fails. -/
theorem StopsAt.sameTree (h : StopsAt write fs paths stop) :
    fs.SameTree (stateAt write fs paths (stop + 1)) := by
  have hbefore := (progress_stateAt h.le h.handled).sameTree
  rcases h.le.lt_or_eq with hlt | rfl
  · obtain ⟨failure, hfailure⟩ := Option.ne_none_iff_exists'.mp (h.fails hlt)
    obtain ⟨path, hpath, hm⟩ := migrateFile_of_failureAt_eq_some hfailure
    exact hbefore.trans (stateAt_stop hpath hm).sameTree
  · rw [stateAt_succ_length]
    exact hbefore

/-! ## A run -/

/-- What a run over the walked `paths` has done if it stops at the turn `stop`. -/
structure PrefixLaw (write : Bool) (fs : FileSystem) (config : Config) (paths : List Path)
    (stop : Nat) (run : Run Summary) : Prop where
  /-- It succeeds exactly if every path got its turn. -/
  succeeds : (∃ summary, run.result = .ok summary) ↔ stop = paths.length
  summary : ∀ summary, run.result = .ok summary →
    summary = ⟨config.root, paths.length, run.edits, write⟩
  /-- Else it fails as the path does at which it stops, reading or writing. -/
  fails : ∀ path, paths[stop]? = some path → ∃ failure,
    migrateFile (stateAt write fs paths stop) path write = .error failure ∧
    run.result = .error failure ∧ failure.report.code.text = "internal.io_error" ∧
    (failure.report.context? = some ("read " ++ path.display) ∨
      failure.report.context? = some ("write " ++ path.display)) ∧
    Leaves write (stateAt write fs paths stop) path failure run.after
  /-- The texts at the turns before have been edited, in the order of the walk. -/
  edits : run.edits = (List.range stop).filterMap (editAt write fs paths)
  progress : Progress write fs (paths.take stop) run.edits (stateAt write fs paths stop)
  /-- Names, links and permissions stay as they are, also if it fails. -/
  sameTree : fs.SameTree run.after
  /-- If every path got its turn, that is all. -/
  completes : stop = paths.length → run.after = stateAt write fs paths stop
  texts : ∀ turn < stop, ∀ path, paths[turn]? = some path →
    ∃ id original, fs.fileId? path = some id ∧ fs.content id = Utf8.encode original ∧
      (stateAt write fs paths turn).readText path =
        .ok (afterPasses (if write then visits fs (paths.take turn) id else 0) original)
  /-- A text without a call is not written, so its file is not opened for it. -/
  idle : ∀ turn path text, paths[turn]? = some path →
    (stateAt write fs paths turn).readText path = .ok text → find text = [] →
    editAt write fs paths turn = none ∧
      stateAt write fs paths (turn + 1) = stateAt write fs paths turn

theorem report_of_migrateFile {failure : Failure} (h : migrateFile fs path write = .error failure) :
    failure.report.code.text = "internal.io_error" ∧
      (failure.report.context? = some ("read " ++ path.display) ∨
        failure.report.context? = some ("write " ++ path.display)) := by
  rcases migrateFile_eq_error.mp h with ⟨fault, -, rfl⟩ | ⟨-, fault, -, -, -, -, rfl⟩
  · exact ⟨rfl, Or.inl rfl⟩
  · exact ⟨rfl, Or.inr rfl⟩

theorem trace_of_stopsAt {config : Config} (hwalk : Walk.walk fs config = .ok paths)
    (h : StopsAt write fs paths stop) :
    (migrate fs config write).trace = traceBefore write fs paths stop := by
  rw [migrate, hwalk]
  simp only [migrateFiles, migrateFilesFrom_of_stopsAt h, List.reverse_nil, List.nil_append]
  cases failureAt write fs paths stop with
  | none => rfl
  | some failure => rfl

theorem migrate_of_stopsAt {config : Config} (hwalk : Walk.walk fs config = .ok paths)
    (h : StopsAt write fs paths stop) :
    (migrate fs config write).edits = editsBefore write fs paths stop ∧
      (migrate fs config write).after = stateAt write fs paths (stop + 1) ∧
      (migrate fs config write).result =
        match failureAt write fs paths stop with
        | some failure => .error failure
        | none => .ok ⟨config.root, paths.length, editsBefore write fs paths stop, write⟩ := by
  refine ⟨by rw [Run.edits, trace_of_stopsAt hwalk h, map_fst_traceBefore], ?_⟩
  rw [migrate, hwalk]
  simp only [migrateFiles, migrateFilesFrom_of_stopsAt h, List.reverse_nil, List.nil_append,
    Pass.edits, map_fst_traceBefore]
  cases failureAt write fs paths stop with
  | none => exact ⟨rfl, rfl⟩
  | some failure => exact ⟨rfl, rfl⟩

theorem StopsAt.result_eq_ok {config : Config} (hwalk : Walk.walk fs config = .ok paths)
    (h : StopsAt write fs paths stop) :
    (∃ summary, (migrate fs config write).result = .ok summary) ↔ stop = paths.length := by
  obtain ⟨-, -, hresult⟩ := migrate_of_stopsAt hwalk h
  rw [← h.failureAt_eq_none, hresult]
  cases failureAt write fs paths stop with
  | none => exact iff_of_true ⟨_, rfl⟩ rfl
  | some failure => simp

/-- **The prefix law of a migration.** A walk that fails is the failure of the run, which then does
nothing. Else there is a turn at which the run stops, the first that fails or the end. The run has
done what the turns before it do. The turn that fails adds nothing, unless its file could be opened
and not be written to the end: then that file holds a beginning of what it was to hold. -/
theorem migrate_prefix_law (fs : FileSystem) (config : Config) (write : Bool) :
    (∀ failure, Walk.walk fs config = .error failure →
      (migrate fs config write).result = .error failure ∧ (migrate fs config write).edits = [] ∧
        (migrate fs config write).after = fs) ∧
    ∀ paths, Walk.walk fs config = .ok paths →
      (∃ stop, StopsAt write fs paths stop) ∧
      ∀ stop, StopsAt write fs paths stop →
        PrefixLaw write fs config paths stop (migrate fs config write) := by
  constructor
  · intro failure hwalk
    rw [migrate, hwalk]
    exact ⟨rfl, rfl, rfl⟩
  intro paths hwalk
  refine ⟨exists_stopsAt write fs paths, ?_⟩
  intro stop hstop
  obtain ⟨hedits, hafter, hresult⟩ := migrate_of_stopsAt hwalk hstop
  refine ⟨hstop.result_eq_ok hwalk, ?_, ?_, hedits, ?_, hafter ▸ hstop.sameTree, ?_,
    fun turn hturn path hpath => readText_stateAt hstop hturn hpath,
    fun turn path text hpath hread hfind => stateAt_succ_of_find hpath hread hfind⟩
  · intro summary hsummary
    rw [hresult] at hsummary
    cases hf : failureAt write fs paths stop with
    | none =>
      rw [hf] at hsummary
      rw [hedits]
      exact (Except.ok.inj hsummary).symm
    | some failure =>
      rw [hf] at hsummary
      cases hsummary
  · intro path hpath
    have hlt : stop < paths.length := (List.getElem?_eq_some_iff.mp hpath).1
    have hne := hstop.fails hlt
    simp only [failureAt, hpath] at hne hresult
    cases hm : migrateFile (stateAt write fs paths stop) path write with
    | ok result =>
      rw [hm] at hne
      exact absurd rfl hne
    | error failure =>
      rw [hm] at hresult
      obtain ⟨hcode, hcontext⟩ := report_of_migrateFile hm
      exact ⟨failure, rfl, hresult, hcode, hcontext, hafter ▸ stateAt_stop hpath hm⟩
  · rw [hedits]
    exact progress_stateAt hstop.le hstop.handled
  · rintro rfl
    rw [hafter, stateAt_succ_length]

/-! ## Where a run stops short -/

/-- A call that is the whole text of a file. -/
def oneCall : List Char := ".withOpacity(1)".toList

theorem find_oneCall : find oneCall ≠ [] := by
  have hcall : read? ".withOpacity(1)".toList = some (['1'], []) := by decide
  unfold oneCall
  rw [find_of_read? hcall]
  exact List.cons_ne_nil _ _

/-- The call in its modern form. -/
def modernCall : List Char := ".withValues(alpha: 1)".toList

theorem rewrite_oneCall : rewrite oneCall = ⟨modernCall, 1⟩ := by
  rw [rewrite_eq_joined]
  decide

/-- The turn of a file with one call that may be read and written and has room. -/
theorem migrateFile_oneCall {id : FileId} (hlookup : fs.lookup path = .ok (.file id .all))
    (hcontent : fs.content id = Utf8.encode oneCall)
    (hroom : fs.sink (id :: fs.opened) = .works) :
    migrateFile fs path true =
      .ok (some ⟨path, 1, true⟩, fs.replace id (Utf8.encode modernCall)) := by
  have hcount : (find oneCall).length = 1 := by rw [length_find, rewrite_oneCall]
  rw [migrateFile_eq_ok_iff, takeTurn_of_lookup hlookup rfl rfl hcontent find_oneCall,
    rewrite_oneCall, FileSystem.overwrite, hroom, editOf, if_neg find_oneCall, hcount]
  rfl

/-- A file with a call, and no room for what is written to it. -/
def fullDisk : FileSystem :=
  { (FileSystem.empty []).putFile (.ofString "lib/a.dart") (Utf8.encode oneCall) with
    sink := fun _ => .full }

/-- The file could be opened but not be written: it is empty then. -/
theorem migrate_fullDisk :
    Walk.walk fullDisk .standard = .ok [.ofString "lib/a.dart"] ∧
      StopsAt true fullDisk [.ofString "lib/a.dart"] 0 ∧
      (migrate fullDisk .standard true).result =
        .error (.refused .noSpace (.writeFile (.ofString "lib/a.dart"))) ∧
      fullDisk.content 0 = Utf8.encode oneCall ∧
      (migrate fullDisk .standard true).after.content 0 = [] := by
  have hwalk : Walk.walk fullDisk .standard = .ok [.ofString "lib/a.dart"] := by cbv
  have hlookup : fullDisk.lookup (.ofString "lib/a.dart") = .ok (.file 0 .all) := by cbv
  have hcontent : fullDisk.content 0 = Utf8.encode oneCall := by cbv
  have hturn : takeTurn fullDisk (.ofString "lib/a.dart") true =
      ⟨.error (.refused .noSpace (.writeFile (.ofString "lib/a.dart"))),
        fullDisk.replace 0 []⟩ := by
    rw [takeTurn_of_lookup hlookup rfl rfl hcontent find_oneCall, rewrite_oneCall]
    rfl
  have hm := migrateFile_eq_error_iff.mpr (congrArg Turn.result hturn)
  have hstop : StopsAt true fullDisk [.ofString "lib/a.dart"] 0 :=
    (stopsAt_cons_of_error hm).mpr rfl
  obtain ⟨-, hafter, hresult⟩ := migrate_of_stopsAt hwalk hstop
  rw [failureAt_zero_of_error hm] at hresult
  rw [stateAt_succ List.getElem?_cons_zero, stateAt_zero, afterTurn, hturn] at hafter
  refine ⟨hwalk, hstop, hresult, hcontent, ?_⟩
  rw [hafter]
  rfl

/-- The path of a file in a directory whose name is one byte. -/
def byteNamed (b : UInt8) : Path :=
  ⟨Utf8.encode "lib/".toList ++ b :: Utf8.encode "/a.dart".toList⟩

/-- Two files whose paths are no texts and are shown alike: one with a call, and one that holds no
text. -/
def alikePaths : FileSystem :=
  ((FileSystem.empty []).putFile (byteNamed 0xFE) (Utf8.encode oneCall)).putFile (byteNamed 0xFF)
    [0xFF]

/-- The second file cannot be read, and the report may as well be about the first. -/
theorem migrate_alikePaths :
    Walk.walk alikePaths .standard = .ok [byteNamed 0xFE, byteNamed 0xFF] ∧
      StopsAt true alikePaths [byteNamed 0xFE, byteNamed 0xFF] 1 ∧
      (migrate alikePaths .standard true).result =
        .error (.refused .notText (.readFile (byteNamed 0xFF))) := by
  have hwalk : Walk.walk alikePaths .standard = .ok [byteNamed 0xFE, byteNamed 0xFF] := by cbv
  have hlookup : alikePaths.lookup (byteNamed 0xFE) = .ok (.file 0 .all) := by cbv
  have hcontent : alikePaths.content 0 = Utf8.encode oneCall := by cbv
  have hfirst := migrateFile_oneCall hlookup hcontent rfl
  have hread : (alikePaths.replace 0 (Utf8.encode modernCall)).read (byteNamed 0xFF) =
      .ok [0xFF] := by cbv
  have hunread : (alikePaths.replace 0 (Utf8.encode modernCall)).readText (byteNamed 0xFF) =
      .error .notText := by
    rw [FileSystem.readText, hread]
    rfl
  have hsecond := migrateFile_eq_error_iff.mpr
    (congrArg Turn.result (@takeTurn_of_unread _ _ true _ hunread))
  have hstop : StopsAt true alikePaths [byteNamed 0xFE, byteNamed 0xFF] 1 :=
    (stopsAt_cons_of_ok hfirst).mpr ⟨0, rfl, (stopsAt_cons_of_error hsecond).mpr rfl⟩
  obtain ⟨-, -, hresult⟩ := migrate_of_stopsAt hwalk hstop
  rw [failureAt_cons hfirst, failureAt_zero_of_error hsecond] at hresult
  exact ⟨hwalk, hstop, hresult⟩

/-- A migration that stops need not leave the file as it was at which it stops, since a file that
could be opened is emptied before it is written. And the report need not name that file, since a
path that is no text is shown like others. -/
theorem stopped_file_neither_kept_nor_named :
    (Walk.walk fullDisk .standard = .ok [.ofString "lib/a.dart"] ∧
      StopsAt true fullDisk [.ofString "lib/a.dart"] 0 ∧
      fullDisk.content 0 = Utf8.encode oneCall ∧
      (migrate fullDisk .standard true).after.content 0 = []) ∧
    (Walk.walk alikePaths .standard = .ok [byteNamed 0xFE, byteNamed 0xFF] ∧
      StopsAt true alikePaths [byteNamed 0xFE, byteNamed 0xFF] 1 ∧
      (byteNamed 0xFE).display = (byteNamed 0xFF).display) ∧
    (¬ ∀ (fs : FileSystem) (config : Config) (paths : List Path) (stop : Nat),
      Walk.walk fs config = .ok paths → StopsAt true fs paths stop →
      ∀ id, Rewritten (visits fs (paths.take stop) id) (fs.content id)
        ((migrate fs config true).after.content id)) ∧
    ¬ ∀ (fs : FileSystem) (config : Config) (paths : List Path) (stop : Nat) (path : Path)
      (failure : Failure),
      Walk.walk fs config = .ok paths → StopsAt true fs paths stop → paths[stop]? = some path →
      (migrate fs config true).result = .error failure →
      ∃ context, failure.report.context? = some context ∧
        (Utf8.encode context.toList = Utf8.encode "read ".toList ++ path.bytes ∨
          Utf8.encode context.toList = Utf8.encode "write ".toList ++ path.bytes) := by
  obtain ⟨hwalk, hstop, -, hbefore, hafter⟩ := migrate_fullDisk
  obtain ⟨hwalk', hstop', hresult⟩ := migrate_alikePaths
  have hshown : (byteNamed 0xFE).display = (byteNamed 0xFF).display := by decide
  refine ⟨⟨hwalk, hstop, hbefore, hafter⟩, ⟨hwalk', hstop', hshown⟩, ?_, ?_⟩
  · intro hall
    rcases hall _ _ _ _ hwalk hstop 0 with ⟨-, hsame⟩ | ⟨text, htext, hrewritten⟩
    · rw [hafter, hbefore] at hsame
      revert hsame
      decide
    · rw [List.take_zero, visits, List.countP_nil, afterPasses_zero] at hrewritten
      rw [hafter, ← htext, hbefore] at hrewritten
      revert hrewritten
      decide
  · intro hall
    obtain ⟨context, hcontext, hnamed⟩ := hall _ _ _ _ _ _ hwalk' hstop' rfl hresult
    obtain rfl : "read " ++ (byteNamed 0xFF).display = context := Option.some.inj hcontext
    revert hnamed
    decide

end OpacityMigration.Migration
