import Mathlib
import OpacityMigration.FileSystem.Arrange
import OpacityMigration.Migration.Scan
import OpacityMigration.Proofs.PrefixLaw

/-!
# Previews of a migration

A migration without `write` is a preview. It changes nothing, so each of its turns meets the file
system as it was at the start. A scan reads the same files in the same order, and turn by turn the
two agree. A migration that writes changes what its later turns read, but only in the files that
earlier turns led to: if no two walked paths lead to one file, each turn reads what the preview
reads there.

* `stateAt_preview`: a preview stays where it starts.
* `scan_matches_preview`: a scan lists the calls that a preview counts.
* `StopsAt.preview`: a preview stops where the migration does, except for a file that is not
  written.
* `preview_predicts`: a preview reports what the migration goes on to do.
-/

namespace OpacityMigration.Migration

open Call FileSystem

variable {fs fs' : FileSystem} {path : Path} {paths : List Path} {stop turn : Nat}
  {text : List Char}

/-! ## Nothing changes in a preview -/

theorem migrateFile_preview (h : fs.readText path = .ok text) :
    migrateFile fs path false = .ok (editOf path text false, fs) := by
  rw [migrateFile_eq_ok_iff, takeTurn_of_readText h, if_neg fun hw => Bool.false_ne_true hw.2]

theorem afterTurn_preview (fs : FileSystem) (path : Path) : afterTurn false fs path = fs := by
  cases h : fs.readText path with
  | ok text => exact afterTurn_of_ok (migrateFile_preview h)
  | error fault => rw [afterTurn, takeTurn_of_unread h]

theorem stateAt_preview (fs : FileSystem) (paths : List Path) (turn : Nat) :
    stateAt false fs paths turn = fs := by
  rw [stateAt]
  induction paths.take turn with
  | nil => rfl
  | cons path rest ih => rw [List.foldl_cons, afterTurn_preview, ih]

theorem after_preview (fs : FileSystem) (config : Config) :
    (migrate fs config false).after = fs := by
  cases hwalk : Walk.walk fs config with
  | error failure => rw [migrate, hwalk]
  | ok paths =>
    obtain ⟨stop, hstop⟩ := exists_stopsAt false fs paths
    rw [(migrate_of_stopsAt hwalk hstop).2.1, stateAt_preview]

/-! ## Scans -/

/-- The references to the file that `path` leads to: the calls in its text, one after the other. -/
def IsBlock (fs : FileSystem) (path : Path) (block : List Reference) : Prop :=
  ∃ text, fs.readText path = .ok text ∧
    block = (find text).map (fun o => ⟨path, Text.locate text o.start, o.matched, o.replacement⟩) ∧
    (find text).Pairwise fun o o' => o.start < o'.start

/-- The edit that a preview reports for a file with these references. -/
def previewOf (path : Path) (block : List Reference) : Option Edit :=
  if block = [] then none else some ⟨path, block.length, false⟩

/-- The edits of a preview, one for each block that is not empty. -/
def previews (paths : List Path) (blocks : List (List Reference)) : List Edit :=
  (List.zipWith (fun path block => (previewOf path block).toList) paths blocks).flatten

theorem isBlock_references (h : fs.readText path = .ok text) :
    IsBlock fs path (Scan.references path text) := by
  refine ⟨text, h, rfl, ?_⟩
  exact (find_ordered text).imp_of_mem fun ho _ hle => (find_inside ho).1.trans_le hle

theorem previewOf_references :
    previewOf path (Scan.references path text) = editOf path text false := by
  simp [previewOf, Scan.references, editOf]

theorem previews_cons (path : Path) (paths : List Path) (block : List Reference)
    (blocks : List (List Reference)) :
    previews (path :: paths) (block :: blocks) =
      (previewOf path block).toList ++ previews paths blocks := by
  rw [previews, List.zipWith_cons_cons, List.flatten_cons, previews]

/-- Over the same paths a scan and a preview fail at the same one, or the scan lists a block for
each path and the preview an edit for each block that is not empty. -/
theorem collect_matches_preview (fs : FileSystem) (done : List (Edit × FileSystem))
    (paths : List Path) :
    (∃ failure, Walk.collect (Scan.scanFile fs) paths = .error failure ∧
      (migrateFilesFrom false done fs paths).failure = some failure) ∨
    ∃ blocks, Walk.collect (Scan.scanFile fs) paths = .ok blocks.flatten ∧
      List.Forall₂ (IsBlock fs) paths blocks ∧
      migrateFilesFrom false done fs paths =
        ⟨done.reverse ++ (previews paths blocks).map (·, fs), none, fs⟩ := by
  induction paths generalizing done with
  | nil => exact Or.inr ⟨[], rfl, .nil, by simp [migrateFilesFrom, previews]⟩
  | cons path paths ih =>
    cases hread : fs.readText path with
    | error fault =>
      refine Or.inl ⟨.refused fault (.readFile path), ?_, ?_⟩
      · simp only [Walk.collect, Scan.scanFile, hread]
      · simp only [migrateFilesFrom, takeTurn_of_unread hread]
    | ok text =>
      rw [migrateFilesFrom_cons done (migrateFile_preview hread)]
      rcases ih (((editOf path text false).map (·, fs)).toList ++ done) with
        ⟨failure, hscan, hpass⟩ | ⟨blocks, hscan, hblocks, hpass⟩
      · refine Or.inl ⟨failure, ?_, hpass⟩
        simp only [Walk.collect, Scan.scanFile, hread, hscan]
      · refine Or.inr ⟨Scan.references path text :: blocks, ?_,
          .cons (isBlock_references hread) hblocks, ?_⟩
        · simp only [Walk.collect, Scan.scanFile, hread, hscan, List.flatten_cons]
        · rw [hpass, reverse_toList_append, List.append_assoc, previews_cons, List.map_append,
            previewOf_references, Option.toList_map]

/-- What a scan and a preview come to over the paths of a walk. -/
theorem scan_preview_of_walk {config : Config} (hwalk : Walk.walk fs config = .ok paths) :
    (∃ failure, Walk.collect (Scan.scanFile fs) paths = .error failure ∧
      (migrate fs config false).result = .error failure) ∨
    ∃ blocks, Walk.collect (Scan.scanFile fs) paths = .ok blocks.flatten ∧
      List.Forall₂ (IsBlock fs) paths blocks ∧
      (migrate fs config false).edits = previews paths blocks ∧
      (migrate fs config false).result =
        .ok ⟨config.root, paths.length, previews paths blocks, false⟩ := by
  rw [migrate, hwalk]
  simp only [migrateFiles]
  rcases collect_matches_preview fs [] paths with
    ⟨failure, hscan, hpass⟩ | ⟨blocks, hscan, hblocks, hpass⟩
  · exact Or.inl ⟨failure, hscan, by rw [hpass]⟩
  · rw [List.reverse_nil, List.nil_append] at hpass
    have hedits : ((previews paths blocks).map (·, fs)).map Prod.fst = previews paths blocks := by
      rw [List.map_map, Function.comp_def, List.map_id']
    rw [hpass]
    exact Or.inr ⟨blocks, hscan, hblocks, hedits, by rw [Pass.edits, hedits]⟩

/-- The edits count every reference of the blocks. -/
theorem totalReplacements_previews {blocks : List (List Reference)} {root : Path} {files : Nat}
    {applied : Bool} (h : paths.length = blocks.length) :
    (Summary.mk root files (previews paths blocks) applied).totalReplacements =
      blocks.flatten.length := by
  rw [Summary.totalReplacements]
  induction paths generalizing blocks with
  | nil =>
    rw [List.length_eq_zero_iff.mp h.symm]
    rfl
  | cons path paths ih =>
    obtain ⟨block, blocks, rfl⟩ := List.exists_cons_of_length_eq_add_one h.symm
    have htail := ih (Nat.succ.inj h)
    simp only at htail
    rw [List.flatten_cons, List.length_append, ← htail]
    by_cases hblock : block = []
    · simp [previews_cons, previewOf, hblock]
    · simp [previews_cons, previewOf, hblock]

/-- **A scan is a preview in detail.** A scan only reads, and a preview leaves the file system as it
is. Started in the same state, both fail, and with the same failure, or both succeed. Then the
references are one block for each walked path, the preview has an edit for each block that is not
empty, and its total is the number of the references. -/
theorem scan_matches_preview (fs : FileSystem) (config : Config) :
    ((∃ failure, Scan.scan fs config = .error failure ∧
        (migrate fs config false).result = .error failure) ∨
      ∃ paths blocks summary, Walk.walk fs config = .ok paths ∧
        List.Forall₂ (IsBlock fs) paths blocks ∧
        Scan.scan fs config = .ok blocks.flatten ∧
        (migrate fs config false).result = .ok summary ∧
        summary.edits = previews paths blocks ∧
        (migrate fs config false).edits = previews paths blocks ∧
        summary.totalReplacements = blocks.flatten.length) ∧
    (migrate fs config false).after = fs := by
  refine ⟨?_, after_preview fs config⟩
  cases hwalk : Walk.walk fs config with
  | error failure =>
    exact Or.inl ⟨failure, by rw [Scan.scan, hwalk], by rw [migrate, hwalk]⟩
  | ok paths =>
    rw [Scan.scan, hwalk]
    rcases scan_preview_of_walk hwalk with
      ⟨failure, hscan, hresult⟩ | ⟨blocks, hscan, hblocks, hedits, hresult⟩
    · exact Or.inl ⟨failure, hscan, hresult⟩
    · exact Or.inr ⟨paths, blocks, _, rfl, hblocks, hscan, hresult, rfl, hedits,
        totalReplacements_previews hblocks.length_eq⟩

/-! ## Turns of a preview -/

/-- The edit of a preview in the place of one of a migration. -/
def asPreview (edit : Edit) : Edit :=
  { edit with written := false }

@[simp] theorem asPreview_replacements (edit : Edit) :
    (asPreview edit).replacements = edit.replacements := rfl

theorem asPreview_editOf (path : Path) (text : List Char) (write : Bool) :
    (editOf path text write).map asPreview = editOf path text false := by
  by_cases h : find text = []
  · simp [editOf, h]
  · simp [editOf, h, asPreview]

/-- What a path reads depends on the tree and on the file that the path leads to. -/
theorem readText_congr (htree : fs.SameTree fs')
    (hcontent : ∀ id, fs.fileId? path = some id → fs'.content id = fs.content id) :
    fs'.readText path = fs.readText path := by
  have hread : fs'.read path = fs.read path := by
    unfold FileSystem.read
    rw [htree.lookup]
    rcases h : fs.lookup path with fault | ⟨id, access⟩ | ⟨access, names, child⟩ | target
    · rfl
    · simp only
      rw [hcontent id (by rw [fileId?, h])]
    · rfl
    · rfl
  rw [readText, hread, readText]

/-- Where no two paths lead to one file, none in front of a path leads to the file it leads to. -/
theorem visits_eq_zero {id : FileId} (hapart : (paths.filterMap fs.fileId?).Nodup)
    (hpath : paths[turn]? = some path) (hid : fs.fileId? path = some id) :
    visits fs (paths.take turn) id = 0 := by
  rw [visits, List.countP_eq_zero]
  intro other hother heq
  obtain ⟨hlt, rfl⟩ := List.getElem?_eq_some_iff.mp hpath
  rw [← List.take_append_drop turn paths, List.filterMap_append, List.nodup_append] at hapart
  have hbefore : id ∈ (paths.take turn).filterMap fs.fileId? :=
    List.mem_filterMap.mpr ⟨other, hother, of_decide_eq_true heq⟩
  have hafter : id ∈ (paths.drop turn).filterMap fs.fileId? := by
    rw [List.drop_eq_getElem_cons hlt]
    exact List.mem_filterMap.mpr ⟨paths[turn], List.mem_cons_self, hid⟩
  exact hapart.2.2 id hbefore id hafter rfl

/-- Each turn of a migration reads what the preview reads there. -/
theorem readText_stateAt_eq {write : Bool} (hapart : (paths.filterMap fs.fileId?).Nodup)
    (h : StopsAt write fs paths stop) (hturn : turn ≤ stop) (hpath : paths[turn]? = some path) :
    (stateAt write fs paths turn).readText path = fs.readText path := by
  have hprogress := progress_stateAt (hturn.trans h.le)
    fun before hbefore => h.handled before (hbefore.trans_le hturn)
  refine readText_congr hprogress.sameTree fun id hid => ?_
  cases write with
  | false => rw [hprogress.preview rfl]
  | true =>
    have hrewritten := hprogress.rewritten rfl id
    rw [visits_eq_zero hapart hpath hid] at hrewritten
    rcases hrewritten with ⟨-, hsame⟩ | ⟨text, hbefore, hafter⟩
    · exact hsame
    · rw [hbefore, hafter, Call.afterPasses_zero]

theorem editAt_preview (hpath : paths[turn]? = some path)
    (hread : (stateAt true fs paths turn).readText path = fs.readText path) :
    editAt false fs paths turn = (editAt true fs paths turn).map asPreview := by
  simp only [editAt, hpath, hread, stateAt_preview]
  cases fs.readText path with
  | error fault => rfl
  | ok text => exact (asPreview_editOf path text true).symm

theorem failureAt_eq_some {write : Bool} {failure : Failure} (hpath : paths[turn]? = some path) :
    failureAt write fs paths turn = some failure ↔
      migrateFile (stateAt write fs paths turn) path write = .error failure := by
  simp only [failureAt, hpath]
  cases migrateFile (stateAt write fs paths turn) path write with
  | error other => simp
  | ok result => simp

/-- A preview fails where the migration does, unless it is the writing that fails. -/
theorem failureAt_preview (hpath : paths[turn]? = some path)
    (hread : (stateAt true fs paths turn).readText path = fs.readText path)
    (hwrite : ∀ fault, failureAt true fs paths turn ≠ some (.refused fault (.writeFile path))) :
    failureAt false fs paths turn = failureAt true fs paths turn := by
  cases h : failureAt true fs paths turn with
  | none =>
    obtain ⟨edit, fs', hm⟩ := migrateFile_of_failureAt hpath h
    obtain ⟨text, htext, -⟩ := migrateFile_eq_ok.mp hm
    rw [hread] at htext
    simp only [failureAt, hpath, stateAt_preview, migrateFile_preview htext]
  | some failure =>
    rw [failureAt_eq_some hpath] at h ⊢
    rw [stateAt_preview]
    rcases migrateFile_eq_error.mp h with ⟨fault, hfault, rfl⟩ | ⟨-, fault, -, -, -, -, rfl⟩
    · rw [hread] at hfault
      exact migrateFile_eq_error.mpr (Or.inl ⟨fault, hfault, rfl⟩)
    · exact absurd ((failureAt_eq_some hpath).mpr h) (hwrite fault)

/-- What a preview does where a migration stops, other than for a file that it cannot write. -/
theorem StopsAt.preview (hapart : (paths.filterMap fs.fileId?).Nodup)
    (h : StopsAt true fs paths stop)
    (hwrite : ∀ fault path,
      failureAt true fs paths stop ≠ some (.refused fault (.writeFile path))) :
    StopsAt false fs paths stop ∧
      failureAt false fs paths stop = failureAt true fs paths stop ∧
      editsBefore false fs paths stop = (editsBefore true fs paths stop).map asPreview := by
  have hpath : ∀ turn < paths.length, ∃ path, paths[turn]? = some path :=
    fun turn hturn => ⟨paths[turn], List.getElem?_eq_getElem hturn⟩
  have hstop : failureAt false fs paths stop = failureAt true fs paths stop := by
    rcases h.le.lt_or_eq with hlt | rfl
    · obtain ⟨path, hpath⟩ := hpath stop hlt
      exact failureAt_preview hpath (readText_stateAt_eq hapart h (Nat.le_refl _) hpath)
        fun fault => hwrite fault path
    · rw [failureAt_length, failureAt_length]
  refine ⟨⟨h.le, fun turn hturn => ?_, fun hlt => ?_⟩, hstop, ?_⟩
  · obtain ⟨path, hpath⟩ := hpath turn (hturn.trans_le h.le)
    have hread := readText_stateAt_eq hapart h hturn.le hpath
    have hnone := h.handled turn hturn
    rw [failureAt_preview hpath hread (by simp [hnone]), hnone]
  · rw [hstop]
    exact h.fails hlt
  · rw [editsBefore, editsBefore, List.map_filterMap]
    refine List.filterMap_congr fun turn hturn => ?_
    have hturn := List.mem_range.mp hturn
    obtain ⟨path, hpath⟩ := hpath turn (hturn.trans_le h.le)
    exact editAt_preview hpath (readText_stateAt_eq hapart h hturn.le hpath)

theorem totalReplacements_preview {root : Path} {files : Nat} {applied applied' : Bool}
    (edits : List Edit) :
    (Summary.mk root files (edits.map asPreview) applied).totalReplacements =
      (Summary.mk root files edits applied').totalReplacements := by
  simp only [Summary.totalReplacements, List.foldr_map, asPreview_replacements]

/-- **A preview predicts the migration.** Let no two walked paths lead to one file. Where the
migration succeeds, the preview does, and reports the same but for saying that nothing was written.
Where it fails, but not for a file that it cannot write, the preview fails in the same way and after
the same edits. -/
theorem preview_predicts (fs : FileSystem) (config : Config)
    (hapart : ∀ paths, Walk.walk fs config = .ok paths → (paths.filterMap fs.fileId?).Nodup) :
    (∀ summary, (migrate fs config true).result = .ok summary →
      summary.applied = true ∧ ∃ preview, (migrate fs config false).result = .ok preview ∧
        preview.root = summary.root ∧ preview.filesScanned = summary.filesScanned ∧
        preview.totalReplacements = summary.totalReplacements ∧
        preview.edits = summary.edits.map asPreview ∧ preview.applied = false ∧
        (migrate fs config false).edits = (migrate fs config true).edits.map asPreview) ∧
    ∀ failure, (migrate fs config true).result = .error failure →
      (∀ fault path, failure ≠ .refused fault (.writeFile path)) →
      (migrate fs config false).result = .error failure ∧
        (migrate fs config false).edits = (migrate fs config true).edits.map asPreview := by
  cases hwalk : Walk.walk fs config with
  | error failure =>
    rw [migrate, migrate, hwalk]
    refine ⟨?_, fun other hother _ => ⟨hother, rfl⟩⟩
    intro summary hsummary
    cases hsummary
  | ok paths =>
    obtain ⟨stop, hstop⟩ := exists_stopsAt true fs paths
    obtain ⟨hedits, -, hresult⟩ := migrate_of_stopsAt hwalk hstop
    have hpreview := hstop.preview (hapart paths hwalk)
    rw [hedits, hresult]
    cases hfailure : failureAt true fs paths stop with
    | none =>
      obtain ⟨hstop', hfailure', hedits'⟩ := hpreview (by simp [hfailure])
      obtain ⟨hseen, -, hresult'⟩ := migrate_of_stopsAt hwalk hstop'
      rw [hfailure', hfailure] at hresult'
      refine ⟨fun summary hsummary => ?_, fun failure hfailed => by cases hfailed⟩
      cases hsummary
      refine ⟨rfl, _, hresult', rfl, rfl, ?_, hedits', rfl, hseen.trans hedits'⟩
      rw [hedits']
      exact totalReplacements_preview _
    | some failure =>
      refine ⟨fun summary hsummary => (by cases hsummary), fun other hother hwrite => ?_⟩
      cases hother
      obtain ⟨hstop', hfailure', hedits'⟩ := hpreview (by simpa [hfailure] using hwrite)
      obtain ⟨hseen, -, hresult'⟩ := migrate_of_stopsAt hwalk hstop'
      rw [hfailure', hfailure] at hresult'
      exact ⟨hresult', hseen.trans hedits'⟩

/-- A file with a call, and one with the given bytes. -/
def twoFiles (bytes : List UInt8) : FileSystem :=
  ((empty []).putFile (.ofString "lib/a.dart") (Utf8.encode ".withOpacity(1)".toList)).putFile
    (.ofString "lib/b.dart") bytes

theorem walk_twoFiles (bytes : List UInt8) :
    Walk.walk (twoFiles bytes) .standard =
      .ok [.ofString "lib/a.dart", .ofString "lib/b.dart"] := by
  cbv

theorem apart_twoFiles (bytes : List UInt8) (h : Walk.walk (twoFiles bytes) .standard = .ok paths) :
    (paths.filterMap (twoFiles bytes).fileId?).Nodup := by
  have hids : [.ofString "lib/a.dart", .ofString "lib/b.dart"].filterMap (twoFiles bytes).fileId? =
      [0, 1] := by cbv
  rw [← Except.ok.inj ((walk_twoFiles bytes).symm.trans h), hids]
  decide

theorem migrateFile_twoFiles (bytes : List UInt8) :
    migrateFile (twoFiles bytes) (.ofString "lib/a.dart") true =
      .ok (some ⟨.ofString "lib/a.dart", 1, true⟩,
        (twoFiles bytes).replace 0 (Utf8.encode modernCall)) := by
  have hlookup : (twoFiles bytes).lookup (.ofString "lib/a.dart") = .ok (.file 0 .all) := by cbv
  exact migrateFile_oneCall hlookup (by cbv) rfl

/-- The first file is rewritten, and the run goes on to the second. -/
theorem migrateFiles_twoFiles (bytes : List UInt8) :
    ∃ fs, fs.read (.ofString "lib/b.dart") = .ok bytes ∧
      migrateFiles true (twoFiles bytes) [.ofString "lib/a.dart", .ofString "lib/b.dart"] =
        migrateFilesFrom true [(⟨.ofString "lib/a.dart", 1, true⟩, fs)] fs
          [.ofString "lib/b.dart"] := by
  refine ⟨(twoFiles bytes).replace 0 (Utf8.encode modernCall), by cbv, ?_⟩
  rw [migrateFiles, migrateFilesFrom_cons [] (migrateFile_twoFiles bytes)]
  rfl

theorem preview_predicts_twoFiles :
    (∀ bytes paths, Walk.walk (twoFiles bytes) .standard = .ok paths →
      (paths.filterMap (twoFiles bytes).fileId?).Nodup) ∧
    (∃ preview, (migrate (twoFiles []) .standard false).result = .ok preview ∧
      preview.totalReplacements = 1 ∧ preview.edits = [⟨.ofString "lib/a.dart", 1, false⟩]) ∧
    (migrate (twoFiles [0xff]) .standard false).result =
        .error (.refused .notText (.readFile (.ofString "lib/b.dart"))) ∧
      (migrate (twoFiles [0xff]) .standard false).edits = [⟨.ofString "lib/a.dart", 1, false⟩] := by
  refine ⟨fun bytes _ => apart_twoFiles bytes, ?_, ?_⟩
  · obtain ⟨fs, hread, hpass⟩ := migrateFiles_twoFiles []
    have htext : fs.readText (.ofString "lib/b.dart") = .ok [] := by
      rw [readText, hread]
      rfl
    have hmigrate : (migrate (twoFiles []) .standard true).result =
        .ok ⟨.ofString "lib", 2, [⟨.ofString "lib/a.dart", 1, true⟩], true⟩ := by
      rw [migrate, walk_twoFiles]
      simp only [hpass, migrateFilesFrom, takeTurn, htext, rewrite_nil, if_true]
      rfl
    obtain ⟨-, preview, hpreview, -, -, htotal, hedits, -⟩ :=
      (preview_predicts _ _ fun _ => apart_twoFiles []).1 _ hmigrate
    exact ⟨preview, hpreview, htotal, hedits⟩
  · obtain ⟨fs, hread, hpass⟩ := migrateFiles_twoFiles [0xff]
    have htext : fs.readText (.ofString "lib/b.dart") = .error .notText := by
      rw [readText, hread]
      rfl
    have hmigrate : (migrate (twoFiles [0xff]) .standard true).edits =
          [⟨.ofString "lib/a.dart", 1, true⟩] ∧
        (migrate (twoFiles [0xff]) .standard true).result =
          .error (.refused .notText (.readFile (.ofString "lib/b.dart"))) := by
      rw [migrate, walk_twoFiles]
      simp [hpass, migrateFilesFrom, takeTurn, htext, Run.edits]
    obtain ⟨hresult, hedits⟩ := (preview_predicts _ _ fun _ => apart_twoFiles [0xff]).2 _ hmigrate.2
      (by simp)
    rw [hmigrate.1] at hedits
    exact ⟨hresult, hedits⟩

end OpacityMigration.Migration
