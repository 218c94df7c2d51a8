import Mathlib
import OpacityMigration.FileSystem.Arrange
import OpacityMigration.Proofs.Answers
import OpacityMigration.Proofs.Previews
import OpacityMigration.Proofs.WalkContent

/-!
# How many files a scan counts

A scan counts the files of its references by the paths that messages show, where a run of references
that show the same path counts once. The references to one file stand together, so the count is
right as long as no two files in a row are shown alike. Names that are no text can make them so:
each fault in a name is shown as `U+FFFD`, whatever byte it is.

* `destutter_shown`: what is left of the shown paths if runs count once.
* `eq_of_display`: of paths that are texts no two are shown alike.
* `scan_counts`: when a scan counts the files that a preview would change.
-/

namespace OpacityMigration

open Migration

namespace Scan

variable {fs : FileSystem} {path : Path} {paths : List Path} {block : List Reference}
  {blocks : List (List Reference)}

/-- Whether a path leads to a file whose text holds a call. -/
def holdsCall (fs : FileSystem) (path : Path) : Bool :=
  match fs.readText path with
  | .ok text => !(Call.find text).isEmpty
  | .error _ => false

/-- The paths that lead to files with calls. -/
def withCalls (fs : FileSystem) (paths : List Path) : List Path :=
  paths.filter (holdsCall fs)

/-- The path of a reference as messages show it. -/
def shown (r : Reference) : String :=
  r.path.display

/-! ## Runs of references -/

theorem countFiles_cons (r : Reference) (references : List Reference) :
    countFiles (r :: references) =
      ((references.map shown).destutter' (· ≠ ·) (shown r)).length := by
  induction references generalizing r with
  | nil => rfl
  | cons s more ih =>
    rw [countFiles, ih, List.map_cons]
    by_cases hsame : r.path.display = s.path.display
    · have hshown : shown r = shown s := hsame
      rw [if_pos hsame, List.destutter'_cons_neg _ (not_not.mpr hshown), hshown]
    · have hshown : shown r ≠ shown s := hsame
      rw [if_neg hsame, List.destutter'_cons_pos _ hshown, List.length_cons]

theorem countFiles_eq (references : List Reference) :
    countFiles references = ((references.map shown).destutter (· ≠ ·)).length := by
  cases references with
  | nil => rfl
  | cons r references => rw [countFiles_cons, List.map_cons, List.destutter_cons']

theorem destutter'_replicate_append (n : Nat) (a : String) (rest : List String) :
    (List.replicate n a ++ rest).destutter' (· ≠ ·) a = rest.destutter' (· ≠ ·) a := by
  induction n with
  | zero => rfl
  | succ n ih =>
    rw [List.replicate_succ, List.cons_append, List.destutter'_cons_neg _ (not_not.mpr rfl), ih]

/-! ## Blocks -/

theorem map_shown_block (h : IsBlock fs path block) :
    block.map shown = List.replicate block.length path.display := by
  obtain ⟨text, -, rfl, -⟩ := h
  rw [List.eq_replicate_iff]
  refine ⟨by rw [List.length_map], fun s hs => ?_⟩
  rw [List.map_map, List.mem_map] at hs
  obtain ⟨o, -, rfl⟩ := hs
  rfl

theorem holdsCall_block (h : IsBlock fs path block) : holdsCall fs path = true ↔ block ≠ [] := by
  obtain ⟨text, hread, rfl, -⟩ := h
  rw [holdsCall, hread]
  simp

/-- The paths with calls, each as often as it has references. -/
theorem withCalls_cons (h : IsBlock fs path block) (paths : List Path) :
    withCalls fs (path :: paths) = if block = [] then withCalls fs paths
      else path :: withCalls fs paths := by
  by_cases hblock : block = []
  · have hno : ¬ holdsCall fs path = true := fun hcall => (holdsCall_block h).mp hcall hblock
    rw [if_pos hblock, withCalls, List.filter_cons_of_neg hno, withCalls]
  · rw [if_neg hblock, withCalls, List.filter_cons_of_pos ((holdsCall_block h).mpr hblock),
      withCalls]

/-- After the shown path `a`, the blocks show a further path where the paths with calls do. -/
theorem destutter'_shown (h : List.Forall₂ (IsBlock fs) paths blocks) (a : String) :
    (blocks.flatten.map shown).destutter' (· ≠ ·) a =
      ((withCalls fs paths).map Path.display).destutter' (· ≠ ·) a := by
  induction h generalizing a with
  | nil => rfl
  | @cons path block paths blocks hblock _ ih =>
    rw [List.flatten_cons, List.map_append, map_shown_block hblock, withCalls_cons hblock]
    cases block with
    | nil => rw [if_pos rfl, ← ih]; rfl
    | cons r block =>
      rw [if_neg (List.cons_ne_nil r block), List.length_cons, List.replicate_succ,
        List.cons_append, List.map_cons]
      by_cases hne : a ≠ path.display
      · rw [List.destutter'_cons_pos _ hne, List.destutter'_cons_pos _ hne,
          destutter'_replicate_append, ih]
      · obtain rfl : a = path.display := not_not.mp hne
        rw [List.destutter'_cons_neg _ hne, List.destutter'_cons_neg _ hne,
          destutter'_replicate_append, ih]

theorem destutter_shown (h : List.Forall₂ (IsBlock fs) paths blocks) :
    (blocks.flatten.map shown).destutter (· ≠ ·) =
      ((withCalls fs paths).map Path.display).destutter (· ≠ ·) := by
  induction h with
  | nil => rfl
  | @cons path block paths blocks hblock hblocks ih =>
    rw [List.flatten_cons, List.map_append, map_shown_block hblock, withCalls_cons hblock]
    cases block with
    | nil => rw [if_pos rfl, ← ih]; rfl
    | cons r block =>
      rw [if_neg (List.cons_ne_nil r block), List.length_cons, List.replicate_succ,
        List.cons_append, List.map_cons, List.destutter_cons', List.destutter_cons',
        destutter'_replicate_append, destutter'_shown hblocks]

theorem length_previews (h : List.Forall₂ (IsBlock fs) paths blocks) :
    (previews paths blocks).length = (withCalls fs paths).length := by
  induction h with
  | nil => rfl
  | @cons path block paths blocks hblock _ ih =>
    rw [previews_cons, List.length_append, ih, withCalls_cons hblock, previewOf]
    by_cases hempty : block = []
    · rw [if_pos hempty, if_pos hempty, Option.toList_none, List.length_nil, Nat.zero_add]
    · rw [if_neg hempty, if_neg hempty, Option.toList_some, List.length_singleton,
        List.length_cons, Nat.add_comm]

/-! ## Paths shown alike -/

/-- Paths that are texts are shown as they are. -/
theorem eq_of_display {p q : Path} {text text' : List Char} (hp : p.bytes = Utf8.encode text)
    (hq : q.bytes = Utf8.encode text') (h : p.display = q.display) : p = q := by
  rw [Path.display, Path.display, Utf8.lossyString, Utf8.lossyString, hp, hq,
    Utf8.lossy_encode, Utf8.lossy_encode, String.ofList_inj] at h
  subst h
  exact congrArg Path.mk (hp.trans hq.symm)

/-- Walked paths that are texts are all shown differently. -/
theorem isChain_display {config : Config} (hwalk : Walk.walk fs config = .ok paths)
    (htexts : ∀ p ∈ paths, ∃ text, p.bytes = Utf8.encode text) :
    ((withCalls fs paths).map Path.display).IsChain (· ≠ ·) := by
  have hincreasing := (Walk.content_walk hwalk).increasing.filter (holdsCall fs)
  refine List.Pairwise.isChain (List.pairwise_map.mpr (hincreasing.imp_of_mem ?_))
  intro p q hp hq hbefore hdisplay
  obtain ⟨text, htext⟩ := htexts p (List.mem_of_mem_filter hp)
  obtain ⟨text', htext'⟩ := htexts q (List.mem_of_mem_filter hq)
  rw [eq_of_display htext htext' hdisplay] at hbefore
  exact Path.not_before_self q hbefore

end Scan

namespace CommandLine

open Scan

variable {fs : FileSystem} {config : Config} {paths : List Path}

/-! ## The counts of a scan and of a preview -/

theorem length_destutter_le (names : List String) :
    (names.destutter (· ≠ ·)).length ≤ names.length :=
  (List.destutter_sublist _ names).length_le

theorem length_destutter_eq_iff {names : List String} :
    (names.destutter (· ≠ ·)).length = names.length ↔ names.IsChain (· ≠ ·) := by
  rw [← List.destutter_eq_self_iff]
  constructor
  · exact (List.destutter_sublist _ names).eq_of_length
  · intro h
    rw [h]

/-- What a scan and a preview over the same paths come to. -/
theorem execute_scan_preview (check : Bool) {target : Target}
    (h : prepare fs target = .ok (config, paths)) :
    (∃ failure, (execute fs (.scan target)).result = .error failure ∧
      (execute fs (.migrate target true check)).result = .error failure) ∨
    ∃ blocks, List.Forall₂ (IsBlock fs) paths blocks ∧
      (execute fs (.scan target)).result = .ok (scanData config.root blocks.flatten, 0) ∧
      (execute fs (.migrate target true check)).result =
        .ok (migrationData true ⟨config.root, paths.length, previews paths blocks, false⟩,
          if check && (previews paths blocks).length > 0 then 1 else 0) := by
  have hscan := (execute_scan h).1
  have hpreview := (execute_migrate true check h (rfl : false = !(true || check))).2.1
  rcases scan_preview_of_walk (prepare_eq_ok.mp h).2 with
    ⟨failure, hcollect, hresult⟩ | ⟨blocks, hcollect, hblocks, -, hresult⟩
  · rw [hcollect] at hscan
    rw [hresult] at hpreview
    exact Or.inl ⟨failure, hscan, hpreview⟩
  · rw [hcollect] at hscan
    rw [hresult] at hpreview
    exact Or.inr ⟨blocks, hblocks, hscan, hpreview⟩

/-- **What a scan counts.** Started in the same state, a scan and a preview both fail, and with the
same failure, or both succeed. Then they count the same calls, and the preview counts the walked
paths whose file holds a call, but the scan counts those of them that stand in a row and are shown
alike as one. So its count is right exactly if no two in a row are shown alike; in particular if all
walked paths are texts. -/
theorem scan_counts (fs : FileSystem) (target : Target) (check : Bool) :
    (∃ failure, (execute fs (.scan target)).result = .error failure ∧
      (execute fs (.migrate target true check)).result = .error failure) ∨
    ∃ config paths data preview status calls files,
      configure fs target = .ok config ∧ Walk.walk fs config = .ok paths ∧
      (execute fs (.scan target)).result = .ok (data, 0) ∧
      (execute fs (.migrate target true check)).result = .ok (preview, status) ∧
      data.get? "total_references" = some (.ofNat calls) ∧
      preview.get? "total_replacements" = some (.ofNat calls) ∧
      data.get? "total_files" = some (.ofNat files) ∧
      preview.get? "files_changed" = some (.ofNat (withCalls fs paths).length) ∧
      files ≤ (withCalls fs paths).length ∧
      (files = (withCalls fs paths).length ↔
        ((withCalls fs paths).map Path.display).IsChain (· ≠ ·)) ∧
      ((∀ p ∈ paths, ∃ text, p.bytes = Utf8.encode text) →
        files = (withCalls fs paths).length) := by
  cases h : prepare fs target with
  | error failure =>
    exact Or.inl ⟨failure, (execute_of_prepare_error (.scan target) h).2.1,
      (execute_of_prepare_error (.migrate target true check) h).2.1⟩
  | ok prepared =>
    obtain ⟨config, paths⟩ := prepared
    obtain ⟨hconfig, hwalk⟩ := prepare_eq_ok.mp h
    rcases execute_scan_preview check h with hfails | ⟨blocks, hblocks, hscan, hpreview⟩
    · exact Or.inl hfails
    have hcalls : (Summary.mk config.root paths.length (previews paths blocks)
        false).totalReplacements = blocks.flatten.length :=
      totalReplacements_previews hblocks.length_eq
    have hfiles : countFiles blocks.flatten =
        (((withCalls fs paths).map Path.display).destutter (· ≠ ·)).length := by
      rw [countFiles_eq, destutter_shown hblocks]
    have hright : countFiles blocks.flatten = (withCalls fs paths).length ↔
        ((withCalls fs paths).map Path.display).IsChain (· ≠ ·) := by
      rw [hfiles, ← length_destutter_eq_iff, List.length_map]
    refine Or.inr ⟨config, paths, _, _, _, blocks.flatten.length, countFiles blocks.flatten,
      hconfig, hwalk, hscan, hpreview, rfl, ?_, rfl, ?_, ?_, hright, ?_⟩
    · rw [← hcalls]
      rfl
    · rw [← length_previews hblocks]
      rfl
    · rw [hfiles, ← List.length_map (f := Path.display)]
      exact length_destutter_le _
    · exact fun htexts => hright.mpr (isChain_display hwalk htexts)

/-- Two directories whose names are no text and are shown alike, each with a file with a call. -/
def alikeTree : FileSystem :=
  let call := Utf8.encode "x.withOpacity(1)".toList
  ((FileSystem.empty []).putFile (byteNamed 0xFE) call).putFile (byteNamed 0xFF) call

theorem prepare_alikeTree :
    prepare alikeTree .standard = .ok (.standard, [byteNamed 0xFE, byteNamed 0xFF]) := by
  have hfile : alikeTree.isFile (.ofString "/alphafix.json") = false := by cbv
  have hwalk : Walk.walk alikeTree .standard = .ok [byteNamed 0xFE, byteNamed 0xFF] := by cbv
  exact prepare_standard rfl hfile hwalk

theorem readText_alikeTree : ∀ b ∈ [0xFE, 0xFF],
    alikeTree.readText (byteNamed b) = .ok "x.withOpacity(1)".toList := by
  intro b hb
  rcases List.mem_pair.mp hb with rfl | rfl
  · cbv
  · cbv

theorem withCalls_alikeTree :
    withCalls alikeTree [byteNamed 0xFE, byteNamed 0xFF] =
      [byteNamed 0xFE, byteNamed 0xFF] := by
  have hfind : Call.find "x.withOpacity(1)".toList ≠ [] := by
    change Call.find ('x' :: oneCall) ≠ []
    rw [Call.find_cons (by decide), Ne, List.map_eq_nil_iff]
    exact find_oneCall
  have hholds : ∀ b ∈ [0xFE, 0xFF], holdsCall alikeTree (byteNamed b) = true := by
    intro b hb
    rw [holdsCall, readText_alikeTree b hb]
    simpa using hfind
  rw [withCalls, List.filter_eq_self]
  intro path hpath
  rcases List.mem_pair.mp hpath with rfl | rfl
  · exact hholds _ (by decide)
  · exact hholds _ (by decide)

theorem counts_alikeTree :
    ∃ data preview, (execute alikeTree (.scan .standard)).result = .ok (data, 0) ∧
      (execute alikeTree (.migrate .standard true false)).result = .ok (preview, 0) ∧
      data.get? "total_files" = some (.ofNat 1) ∧
      preview.get? "files_changed" = some (.ofNat 2) := by
  rcases execute_scan_preview false prepare_alikeTree with
    ⟨failure, hscan, -⟩ | ⟨blocks, hblocks, hscan, hpreview⟩
  · -- both files can be read
    have hfound := (execute_scan prepare_alikeTree).1
    rw [hscan] at hfound
    simp [Walk.collect, scanFile, readText_alikeTree, Except.map] at hfound
  have hfiles : countFiles blocks.flatten = 1 := by
    have hshown : [byteNamed 0xFE, byteNamed 0xFF].map Path.display =
        ["lib/\uFFFD/a.dart", "lib/\uFFFD/a.dart"] := by decide
    rw [countFiles_eq, destutter_shown hblocks, withCalls_alikeTree, hshown,
      List.destutter_pair, if_neg (not_not.mpr rfl), List.length_singleton]
  have hchanged : (previews [byteNamed 0xFE, byteNamed 0xFF] blocks).length = 2 := by
    rw [length_previews hblocks, withCalls_alikeTree]
    rfl
  refine ⟨_, _, hscan, hpreview, ?_, ?_⟩
  · rw [← hfiles]
    rfl
  · rw [← hchanged]
    rfl

/-- A scan may count two files as one: of a name that is no text their paths do not show which
bytes it has. -/
theorem scan_counts_alike :
    (∃ data preview, (execute alikeTree (.scan .standard)).result = .ok (data, 0) ∧
      (execute alikeTree (.migrate .standard true false)).result = .ok (preview, 0) ∧
      data.get? "total_files" = some (.ofNat 1) ∧
      preview.get? "files_changed" = some (.ofNat 2)) ∧
    ¬ ∀ fs target data preview, (execute fs (.scan target)).result = .ok (data, 0) →
      (execute fs (.migrate target true false)).result = .ok (preview, 0) →
      data.get? "total_files" = preview.get? "files_changed" := by
  refine ⟨counts_alikeTree, fun hall => ?_⟩
  obtain ⟨data, preview, hscan, hpreview, hfiles, hchanged⟩ := counts_alikeTree
  have heq := hall alikeTree .standard data preview hscan hpreview
  rw [hfiles, hchanged] at heq
  cases heq

end CommandLine

end OpacityMigration
