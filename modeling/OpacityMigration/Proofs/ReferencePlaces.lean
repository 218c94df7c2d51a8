import OpacityMigration.FileSystem.Arrange
import OpacityMigration.Proofs.CallSites
import OpacityMigration.Proofs.Lines
import OpacityMigration.Proofs.Previews
import OpacityMigration.Proofs.Segments
import OpacityMigration.Proofs.WalkContent

/-!
# Places of references

A reference names the place at which a call starts, and shows the line there as its context. The
calls of a file come in the order of their bytes, so the references to it come in the order of their
places. The context goes on with the call at the column of the reference: with all of it, if the
call stays on its line, else with what comes before its first line feed. What is taken off the end
of the line are carriage returns, and none of them is in a call that stays on its line.

* `scan_eq_ok`: the references of a scan, file by file.
* `position_increasing`: the references to one file.
* `showsMatch_of_mem`: what a context shows.
* `places_invert` and `contexts_show_matches` put these together.
-/

namespace OpacityMigration

open Migration Text Utf8

/-- What the context of a reference shows from the column of the reference on: the match, or the
part of it before its first line feed. -/
structure Reference.ShowsMatch (r : Reference) (shown : List Char) : Prop where
  column_pos : 1 ≤ r.place.column
  boundary : IsBoundary r.place.context (r.place.column - 1)
  from_column : (encode r.place.context).drop (r.place.column - 1) = encode shown
  opening : Call.opening <+: shown
  whole : '\n' ∉ r.matched → r.matched <+: shown
  broken : ∀ first rest, r.matched = first ++ '\n' :: rest → '\n' ∉ first → IsContext first shown

namespace Scan

variable {fs : FileSystem} {config : Config} {path : Path} {text before after : List Char}
  {r : Reference}
  {found block : List Reference} {o o' : Call.Occurrence}

/-! ## File by file -/

/-- The references of a scan are a block for each walked path. -/
theorem scan_eq_ok (h : scan fs config = .ok found) :
    ∃ paths blocks, Walk.walk fs config = .ok paths ∧
      List.Forall₂ (IsBlock fs) paths blocks ∧ found = blocks.flatten := by
  unfold scan at h
  split at h
  · cases h
  · rename_i paths hwalk
    rcases collect_matches_preview fs [] paths with
      ⟨failure, hcollect, -⟩ | ⟨blocks, hcollect, hblocks, -⟩
    · rw [hcollect] at h
      cases h
    · rw [hcollect] at h
      cases h
      exact ⟨paths, blocks, hwalk, hblocks, rfl⟩

theorem path_of_mem_references (h : r ∈ references path text) : r.path = path := by
  obtain ⟨o, -, rfl⟩ := List.mem_map.mp h
  rfl

/-- The references of a scan are those to the files that it reads. -/
theorem mem_scan {paths : List Path} (hwalk : Walk.walk fs config = .ok paths)
    (h : scan fs config = .ok found) :
    r ∈ found ↔ ∃ path ∈ paths, ∃ text, fs.readText path = .ok text ∧ r ∈ references path text := by
  rw [scan, hwalk] at h
  rw [Walk.mem_collect h]
  refine exists_congr fun path => and_congr_right fun _ => ?_
  rw [scanFile]
  cases fs.readText path with
  | error fault => simp
  | ok text => simp

/-! ## A file with two calls -/

/-- A tree with one file. -/
def oneSource (text : List Char) : FileSystem :=
  (FileSystem.empty []).putFile (.ofString "lib/a.dart") (encode text)

theorem walk_oneSource (text : List Char) :
    Walk.walk (oneSource text) .standard = .ok [.ofString "lib/a.dart"] := by
  cbv

theorem read_oneSource (text : List Char) :
    (oneSource text).read (.ofString "lib/a.dart") = .ok (encode text) := by
  cbv

theorem readText_oneSource (text : List Char) :
    (oneSource text).readText (.ofString "lib/a.dart") = .ok text := by
  rw [FileSystem.readText, read_oneSource]
  simp only [decode?_encode]

theorem scan_oneSource (text : List Char) :
    scan (oneSource text) .standard = .ok (references (.ofString "lib/a.dart") text) := by
  rw [scan, walk_oneSource]
  simp only [Walk.collect, scanFile, readText_oneSource, List.append_nil]

/-- Two calls, the first of which ends on the line of the second. -/
def twoCalls : List Char :=
  "é.withOpacity(1\r\n2).withOpacity(3)".toList

/-- The references to the file with these calls. -/
def twoReferences : List Reference :=
  [⟨.ofString "lib/a.dart", ⟨1, 3, "é.withOpacity(1".toList⟩, ".withOpacity(1\r\n2)".toList,
      ".withValues(alpha: 1\r\n2)".toList⟩,
    ⟨.ofString "lib/a.dart", ⟨2, 3, "2).withOpacity(3)".toList⟩, ".withOpacity(3)".toList,
      ".withValues(alpha: 3)".toList⟩]

theorem references_twoCalls : references (.ofString "lib/a.dart") twoCalls = twoReferences := by
  have hfirst : Call.read? ".withOpacity(1\r\n2).withOpacity(3)".toList =
      some ("1\r\n2".toList, ".withOpacity(3)".toList) := by decide
  have hsecond : Call.read? ".withOpacity(3)".toList = some (['3'], []) := by decide
  have hfind : Call.find twoCalls =
      [⟨2, 20, ".withOpacity(1\r\n2)".toList, ".withValues(alpha: 1\r\n2)".toList⟩,
        ⟨20, 35, ".withOpacity(3)".toList, ".withValues(alpha: 3)".toList⟩] := by
    have htext : twoCalls = 'é' :: ".withOpacity(1\r\n2).withOpacity(3)".toList := by decide
    rw [htext, Call.find_cons (by decide), Call.find_of_read? hfirst, Call.find_of_read? hsecond,
      Call.find_nil]
    decide
  rw [references, hfind]
  decide

theorem scan_twoCalls : scan (oneSource twoCalls) .standard = .ok twoReferences := by
  rw [scan_oneSource, references_twoCalls]

/-! ## The order of the places -/

theorem isBoundary_start (h : o ∈ Call.find text) : IsBoundary text o.start := by
  obtain ⟨before, -, after, htext, hstart, -⟩ := Call.isCallOf_of_mem_find h
  exact ⟨before, o.matched ++ after, by rw [htext, List.append_assoc], hstart⟩

theorem position_lt_iff {offset offset' : Nat} (h : IsBoundary text offset)
    (h' : IsBoundary text offset') :
    offset < offset' ↔ (locate text offset).position < (locate text offset').position := by
  obtain ⟨earlier, line, hmarks⟩ := marks_locate h
  obtain ⟨earlier', line', hmarks'⟩ := marks_locate h'
  exact hmarks.lt_iff hmarks'

/-- The references to one file come in the order of their places. -/
theorem position_increasing (h : IsBlock fs path block) :
    (block.map (·.place.position)).Pairwise (· < ·) := by
  obtain ⟨text, -, rfl, hincreasing⟩ := h
  rw [List.map_map, List.pairwise_map]
  refine hincreasing.imp_of_mem ?_
  intro o o' ho ho' hlt
  exact (position_lt_iff (isBoundary_start ho) (isBoundary_start ho')).mp hlt

/-- **Places can be inverted.** The place of a byte between two characters names the line of the
byte and its column there: the lines before, with their line feeds, and the column add up to the
byte, and the line that the column is counted from does not start after it. So bytes are in the
order of their places, line by line, and the references of a scan to one file are in the order of
theirs, and no two of them have one place. -/
theorem places_invert (text : List Char) :
    (∀ offset, IsBoundary text offset →
      size ((cut text offset).1.dropWhile onLine) ≤ offset ∧
      ∃ earlier line, (locate text offset).Marks text offset earlier line) ∧
    (∀ offset offset', IsBoundary text offset → IsBoundary text offset' →
      (offset < offset' ↔ (locate text offset).position < (locate text offset').position)) ∧
    ∀ fs config found, scan fs config = .ok found →
      ∃ paths blocks, Walk.walk fs config = .ok paths ∧ found = blocks.flatten ∧
        List.Forall₂ (fun path block => IsBlock fs path block ∧
          (block.map (·.place.position)).Pairwise (· < ·) ∧
          (block.map (·.place.position)).Nodup) paths blocks := by
  refine ⟨fun offset h => ⟨lineStart_le h, marks_locate h⟩,
    fun offset offset' => position_lt_iff, ?_⟩
  intro fs config found h
  obtain ⟨paths, blocks, hwalk, hblocks, hfound⟩ := scan_eq_ok h
  refine ⟨paths, blocks, hwalk, hfound, hblocks.imp ?_⟩
  intro path block hblock
  have hincreasing := position_increasing hblock
  exact ⟨hblock, hincreasing, hincreasing.imp ne_of_lt⟩

/-- The line feed in the first call, and the start of the second one. -/
theorem places_invert_twoCalls :
    (IsBoundary twoCalls 17 ∧ IsBoundary twoCalls 20) ∧
    (∃ earlier line, (locate twoCalls 17).Marks twoCalls 17 earlier line) ∧
    (locate twoCalls 17).position < (locate twoCalls 20).position ∧
    scan (oneSource twoCalls) .standard = .ok twoReferences ∧
    ∃ paths blocks, Walk.walk (oneSource twoCalls) .standard = .ok paths ∧
      twoReferences = blocks.flatten ∧
      List.Forall₂ (fun path block => IsBlock (oneSource twoCalls) path block ∧
        (block.map (·.place.position)).Pairwise (· < ·) ∧
        (block.map (·.place.position)).Nodup) paths blocks := by
  have hfeed : IsBoundary twoCalls 17 :=
    ⟨"é.withOpacity(1\r".toList, "\n2).withOpacity(3)".toList, by decide, by decide⟩
  have hcall : IsBoundary twoCalls 20 :=
    ⟨"é.withOpacity(1\r\n2)".toList, ".withOpacity(3)".toList, by decide, by decide⟩
  obtain ⟨hmarks, horder, hscan⟩ := places_invert twoCalls
  exact ⟨⟨hfeed, hcall⟩, (hmarks 17 hfeed).2, (horder 17 20 hfeed hcall).mp (by decide),
    scan_twoCalls, hscan _ _ _ scan_twoCalls⟩

/-! ## What contexts show -/

theorem feed_not_mem_opening : '\n' ∉ Call.opening := by decide

/-- No carriage return of an opening, or from before it, is taken off. -/
theorem trimReturns_opening (before after : List Char) :
    trimReturns (before ++ (Call.opening ++ after)) =
      before ++ (Call.opening ++ trimReturns after) := by
  have hlast : (before ++ Call.opening).getLast? ≠ some '\r' := by
    rw [List.getLast?_append_of_ne_nil before Call.opening_ne_nil]
    decide
  rw [← List.append_assoc, trimReturns_append hlast, List.append_assoc]

/-- The place of a call whose opening is followed by `body`: the context is what stands before the
call on its line, and what is left of the rest of the line. -/
theorem locate_call (before body after : List Char) :
    locate (before ++ (Call.opening ++ body ++ after)) (size before) =
      ⟨before.count '\n' + 1, size (lastLine before) + 1,
        lastLine before ++ (Call.opening ++ trimReturns (firstLine (body ++ after)))⟩ := by
  rw [locate_size, List.append_assoc, firstLine_append feed_not_mem_opening, trimReturns_opening]

theorem showsMatch_of_locate {body : List Char} (hplace : r.place = locate
      (before ++ (Call.opening ++ body ++ after)) (size before))
    (hmatched : r.matched = Call.opening ++ body) (hlast : body.getLast? ≠ some '\r') :
    r.ShowsMatch (Call.opening ++ trimReturns (firstLine (body ++ after))) := by
  rw [locate_call] at hplace
  have hcontext := congrArg Place.context hplace
  have hcolumn := congrArg Place.column hplace
  dsimp only at hcontext hcolumn
  constructor
  · rw [hcolumn]
    exact Nat.le_add_left 1 _
  · exact ⟨lastLine before, _, hcontext, by rw [hcolumn, Nat.add_sub_cancel]⟩
  · rw [hcontext, hcolumn, Nat.add_sub_cancel, encode_append,
      List.drop_left' (length_encode (lastLine before))]
  · exact List.prefix_append _ _
  · intro hwhole
    rw [hmatched, List.mem_append, not_or] at hwhole
    rw [hmatched, firstLine_append hwhole.2, trimReturns_append hlast, ← List.append_assoc]
    exact List.prefix_append _ _
  · intro first rest hbroken hfeed
    have hline : Call.opening ++ firstLine (body ++ after) = first := by
      rw [← firstLine_append feed_not_mem_opening, ← List.append_assoc, ← hmatched, hbroken,
        List.append_assoc, List.cons_append, firstLine_eq hfeed]
    have htrim : Call.opening ++ trimReturns (firstLine (body ++ after)) = trimReturns first := by
      rw [← hline]
      exact (trimReturns_opening [] _).symm
    rw [htrim]
    exact isContext_trimReturns first

theorem showsMatch_of_mem (h : r ∈ references path text) : ∃ shown, r.ShowsMatch shown := by
  obtain ⟨o, ho, rfl⟩ := List.mem_map.mp h
  obtain ⟨before, argument, after, htext, hstart, -, -, -, hmatched, -⟩ :=
    Call.isCallOf_of_mem_find ho
  rw [List.append_assoc] at hmatched
  have hlast : (argument ++ [')']).getLast? ≠ some '\r' := by
    rw [List.getLast?_concat]
    decide
  have hplace : locate text o.start =
      locate (before ++ (Call.opening ++ (argument ++ [')']) ++ after)) (size before) := by
    rw [← hmatched, hstart, htext, List.append_assoc]
  exact ⟨_, showsMatch_of_locate hplace hmatched hlast⟩

/-- **Contexts show matches.** The column of a reference falls between two characters of its
context, and the context goes on there with the match. If the match holds a line feed, the context
ends there with what comes before the first one, but for carriage returns. -/
theorem contexts_show_matches :
    (∀ path text, ∀ r ∈ references path text, ∃ shown, r.ShowsMatch shown) ∧
    ∀ fs config found, scan fs config = .ok found → ∀ r ∈ found,
      ∃ text, fs.readText r.path = .ok text ∧ r ∈ references r.path text ∧
        ∃ shown, r.ShowsMatch shown := by
  refine ⟨fun path text r => showsMatch_of_mem, ?_⟩
  intro fs config found h r hr
  obtain ⟨paths, -, hwalk, -⟩ := scan_eq_ok h
  obtain ⟨path, -, text, hread, hmem⟩ := (mem_scan hwalk h).mp hr
  obtain rfl := path_of_mem_references hmem
  exact ⟨text, hread, hmem, showsMatch_of_mem hmem⟩

/-- The first call breaks off at the end of its line, the second one is shown whole. -/
theorem contexts_show_matches_twoCalls :
    scan (oneSource twoCalls) .standard = .ok twoReferences ∧
    ∀ r ∈ twoReferences, r ∈ references r.path twoCalls ∧ ∃ shown, r.ShowsMatch shown := by
  obtain ⟨-, htree⟩ := contexts_show_matches
  refine ⟨scan_twoCalls, fun r hr => ?_⟩
  obtain ⟨-, -, -, hshown⟩ := htree _ _ _ scan_twoCalls r hr
  rw [← references_twoCalls] at hr
  have hpath := path_of_mem_references hr
  exact ⟨hpath ▸ hr, hshown⟩

end Scan

end OpacityMigration
