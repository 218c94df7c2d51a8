import OpacityMigration.Proofs.FileCounts
import OpacityMigration.Proofs.ReferencePlaces

/-!
# How much a run can count

A run counts files, calls, lines and columns. None of these is greater than the load of the paths
that it goes through: the bytes of the files that they lead to, and one for each path. This holds
for a migration too, whose passes make texts longer: each call that a pass finds has a closing
parenthesis of its own, and a pass adds none.

* `length_find_afterPasses_le`: the calls of a text after some passes.
* `load`, `counts_of_migrate`, `counts_of_scan`: what migrations and scans count.
-/

namespace OpacityMigration

open Utf8 Call

/-! ## One text -/

theorem Utf8.length_le_size (text : List Char) : text.length ≤ size text := by
  induction text with
  | nil => exact Nat.le_refl 0
  | cons c text ih =>
    have := c.utf8Size_pos
    rw [List.length_cons, size_cons]
    omega

namespace Call

theorem length_segments_le (text : List Char) : (segments text).length ≤ size text := by
  induction text using segmentwise with
  | rest text h =>
    rw [segments_of_not_mem h]
    exact Nat.zero_le _
  | segment s text h ih =>
    rw [segments_append_closing h, List.length_cons, size_append, size_cons]
    have : (')' : Char).utf8Size = 1 := rfl
    omega

/-- No pass over a text finds more calls than the text has bytes. -/
theorem length_find_afterPasses_le (passes : Nat) (text : List Char) :
    (find (afterPasses passes text)).length ≤ size text := by
  rw [length_find, replacements_afterPasses]
  exact List.countP_le_length.trans (length_segments_le text)

theorem length_find_le (text : List Char) : (find text).length ≤ size text :=
  length_find_afterPasses_le 0 text

end Call

namespace Text

theorem line_locate_le (text : List Char) (offset : Nat) :
    (locate text offset).line ≤ size text + 1 := by
  have hcut := congrArg (List.count '\n') (cut_append text offset)
  rw [List.count_append, List.count_reverse] at hcut
  have hcount : text.count '\n' ≤ text.length := List.count_le_length
  have hlength := length_le_size text
  show (cut text offset).1.count '\n' + 1 ≤ size text + 1
  omega

theorem column_locate_le (text : List Char) (offset : Nat) :
    (locate text offset).column ≤ offset + 1 :=
  Nat.succ_le_succ (Nat.sub_le _ _)

end Text

/-! ## The files of a run -/

namespace Migration

variable {fs : FileSystem} {config : Config} {path : Path} {paths : List Path} {text : List Char}
  {write : Bool} {stop turn : Nat}

/-- How many bytes the file holds that a path leads to, if it leads to one. -/
def fileSize (fs : FileSystem) (path : Path) : Nat :=
  match fs.fileId? path with
  | some id => (fs.content id).length
  | none => 0

/-- The bytes of the files that paths lead to, and one for each path. -/
def load (fs : FileSystem) (paths : List Path) : Nat :=
  (paths.map fun path => fileSize fs path + 1).sum

theorem fileSize_of_content {id : FileId} (hid : fs.fileId? path = some id)
    (hcontent : fs.content id = encode text) : fileSize fs path = size text := by
  rw [fileSize, hid]
  simp only [hcontent, length_encode]

theorem fileSize_of_readText (h : fs.readText path = .ok text) : fileSize fs path = size text := by
  obtain ⟨id, access, hlookup, -, hcontent⟩ := FileSystem.readText_eq_ok.mp h
  exact fileSize_of_content (by rw [FileSystem.fileId?, hlookup]) hcontent

theorem load_cons (path : Path) (paths : List Path) :
    load fs (path :: paths) = fileSize fs path + 1 + load fs paths := by
  rw [load, List.map_cons, List.sum_cons, ← load]

theorem load_append (paths more : List Path) :
    load fs (paths ++ more) = load fs paths + load fs more := by
  rw [load, List.map_append, List.sum_append, ← load, ← load]

theorem fileSize_lt_load (h : path ∈ paths) : fileSize fs path < load fs paths := by
  have hmem : fileSize fs path + 1 ∈ paths.map fun path => fileSize fs path + 1 :=
    List.mem_map_of_mem h
  exact List.le_sum_of_mem hmem

theorem length_le_load (paths : List Path) : paths.length ≤ load fs paths := by
  induction paths with
  | nil => exact Nat.zero_le _
  | cons path paths ih =>
    rw [load_cons, List.length_cons]
    omega

/-! ## Migrations -/

/-- An edit replaces no more calls than its file had bytes at the start of the run. -/
theorem replacements_editAt_le (h : StopsAt write fs paths stop) (hturn : turn < stop)
    (hpath : paths[turn]? = some path) {e : Edit} (he : editAt write fs paths turn = some e) :
    e.replacements ≤ fileSize fs path := by
  obtain ⟨id, original, hid, hcontent, hread⟩ := readText_stateAt h hturn hpath
  obtain ⟨path', text, hpath', hread', hedit⟩ := editAt_eq_some.mp he
  obtain rfl := Option.some.inj (hpath.symm.trans hpath')
  obtain rfl := Except.ok.inj (hread.symm.trans hread')
  obtain ⟨-, rfl⟩ := editOf_eq_some.mp hedit
  rw [fileSize_of_content hid hcontent]
  exact length_find_afterPasses_le _ original

/-- The turns so far have replaced no more than their files allow. -/
theorem sum_replacements_le (h : StopsAt write fs paths stop) (hturn : turn ≤ stop) :
    ((editsBefore write fs paths turn).map Edit.replacements).sum ≤ load fs (paths.take turn) := by
  induction turn with
  | zero => exact Nat.le_refl 0
  | succ turn ih =>
    have hbefore := ih (Nat.le_of_succ_le hturn)
    obtain ⟨path, hpath⟩ : ∃ path, paths[turn]? = some path :=
      ⟨_, List.getElem?_eq_getElem (Nat.lt_of_lt_of_le hturn h.le)⟩
    have hlast : ((editAt write fs paths turn).toList.map Edit.replacements).sum ≤
        fileSize fs path := by
      cases hedit : editAt write fs paths turn with
      | none => exact Nat.zero_le _
      | some e => simpa using replacements_editAt_le h hturn hpath hedit
    have hload : load fs (paths.take (turn + 1)) =
        load fs (paths.take turn) + (fileSize fs path + 1) := by
      rw [List.take_add_one, hpath, Option.toList_some, load_append, load_cons]
      rfl
    rw [editsBefore_succ, List.map_append, List.sum_append, hload]
    omega

theorem totalReplacements_eq (s : Summary) :
    s.totalReplacements = (s.edits.map Edit.replacements).sum := by
  rw [List.sum, List.foldr_map]
  rfl

/-- What a migration that succeeds counts. -/
theorem counts_of_migrate (hwalk : Walk.walk fs config = .ok paths) {summary : Summary}
    (hresult : (migrate fs config write).result = .ok summary) :
    summary.filesScanned ≤ load fs paths ∧ summary.filesChanged ≤ load fs paths ∧
      summary.totalReplacements ≤ load fs paths ∧
      ∀ e ∈ summary.edits, e.replacements ≤ load fs paths := by
  obtain ⟨stop, hstop⟩ := exists_stopsAt write fs paths
  obtain rfl := (hstop.result_eq_ok hwalk).mp ⟨summary, hresult⟩
  rw [(migrate_of_stopsAt hwalk hstop).2.2, failureAt_length] at hresult
  obtain rfl := Except.ok.inj hresult
  have hsum := sum_replacements_le hstop (Nat.le_refl _)
  rw [List.take_length] at hsum
  have hedits : (editsBefore write fs paths paths.length).length ≤ paths.length := by
    rw [editsBefore]
    exact (List.length_filterMap_le _ _).trans (List.length_range).le
  refine ⟨length_le_load paths, hedits.trans (length_le_load paths), ?_, fun e he => ?_⟩
  · rw [totalReplacements_eq]
    exact hsum
  · exact (List.le_sum_of_mem (List.mem_map_of_mem he)).trans hsum

/-! ## Scans -/

theorem length_flatten_le {blocks : List (List Reference)}
    (h : List.Forall₂ (IsBlock fs) paths blocks) : blocks.flatten.length ≤ load fs paths := by
  induction h with
  | nil => exact Nat.zero_le _
  | @cons path block paths blocks hblock _ ih =>
    obtain ⟨text, hread, rfl, -⟩ := hblock
    have hfind := length_find_le text
    rw [List.flatten_cons, List.length_append, List.length_map, load_cons,
      fileSize_of_readText hread]
    omega

/-- What a scan that succeeds counts. -/
theorem counts_of_scan (hwalk : Walk.walk fs config = .ok paths) {found : List Reference}
    (hscan : Scan.scan fs config = .ok found) :
    found.length ≤ load fs paths ∧ Scan.countFiles found ≤ load fs paths ∧
      ∀ r ∈ found, r.place.line ≤ load fs paths ∧ r.place.column ≤ load fs paths := by
  have hlength : found.length ≤ load fs paths := by
    obtain ⟨paths', blocks, hwalk', hblocks, rfl⟩ := Scan.scan_eq_ok hscan
    obtain rfl := Except.ok.inj (hwalk.symm.trans hwalk')
    exact length_flatten_le hblocks
  refine ⟨hlength, ?_, fun r hr => ?_⟩
  · rw [Scan.countFiles_eq]
    have := CommandLine.length_destutter_le (found.map Scan.shown)
    rw [List.length_map] at this
    omega
  · obtain ⟨path, hpath, text, hread, href⟩ := (Scan.mem_scan hwalk hscan).mp hr
    obtain ⟨o, ho, rfl⟩ := List.mem_map.mp href
    have hsize : fileSize fs path < load fs paths := fileSize_lt_load hpath
    rw [fileSize_of_readText hread] at hsize
    have hstart := find_inside ho
    have hline := Text.line_locate_le text o.start
    have hcolumn := Text.column_locate_le text o.start
    dsimp only
    omega

end Migration

end OpacityMigration
