import OpacityMigration.CommandLine.Run
import OpacityMigration.Proofs.PrefixLaw

/-!
# What a command comes to

A command finds its configuration and walks the tree before it handles a file (`prepare`). What
comes of it is answered in text or in data, and an answer adds little to it: the status with which
the command ends, unless the answer cannot be printed. A text that cannot be printed breaks the run
off at one of its pieces; data that cannot be printed leave only a failure to report.

* `execute_of_prepare_error`: a command that does not get to its first file does nothing.
* `execute_migrate`, `execute_of_stopsAt`, `execute_scan`: what a command that gets there does.
* `answerText_eq`, `answerText_brokenOff`, `answerJson_eq`: the answers.
* `run_ends`: how a run ends; `run_of_works`: one whose answer can be printed.
-/

namespace OpacityMigration.CommandLine

open Migration
open FileSystem (Sink)

variable {fs : FileSystem} {target : Target} {config : Config}
  {paths : List Path} {failure : Failure} {console : Console} {p : Performance}
  {args : List Argument} {json : Bool} {command : Command}

/-! ## Before the first file -/

/-- The configuration of a command, and the paths that it goes through. -/
def prepare (fs : FileSystem) (target : Target) : Except Failure (Config × List Path) :=
  match configure fs target with
  | .error failure => .error failure
  | .ok config =>
    match Walk.walk fs config with
    | .error failure => .error failure
    | .ok paths => .ok (config, paths)

theorem prepare_eq_ok :
    prepare fs target = .ok (config, paths) ↔
      configure fs target = .ok config ∧ Walk.walk fs config = .ok paths := by
  constructor
  · intro h
    unfold prepare at h
    split at h
    · cases h
    · rename_i found hconfig
      split at h
      · cases h
      · rename_i hwalk
        cases h
        exact ⟨hconfig, hwalk⟩
  · rintro ⟨hconfig, hwalk⟩
    rw [prepare, hconfig]
    simp only [hwalk]

theorem prepare_eq_error :
    prepare fs target = .error failure ↔
      configure fs target = .error failure ∨
        ∃ config, configure fs target = .ok config ∧ Walk.walk fs config = .error failure := by
  unfold prepare
  cases configure fs target with
  | error other => simp
  | ok config =>
    cases hwalk : Walk.walk fs config with
    | error other => simp [hwalk]
    | ok paths => simp [hwalk]

/-- Without options, and without a configuration file in the working directory, the configuration is
the standard one. -/
theorem configure_standard {cwd : Path} (hcwd : fs.currentDirectory = .ok cwd)
    (hfile : fs.isFile (cwd.child Config.fileName) = false) :
    configure fs .standard = .ok .standard := by
  have hnone : Config.consulted? fs none cwd = none := by
    simp only [Config.consulted?, hfile, Bool.false_eq_true, if_false]
  rw [configure, hcwd]
  simp only [Target.standard, Config.resolve, Config.merged, hnone]
  rfl

/-- The same for a working directory at the top of the tree. -/
theorem prepare_standard (hcwd : fs.currentDirectory = .ok (.ofString "/"))
    (hfile : fs.isFile (.ofString "/alphafix.json") = false)
    (hwalk : Walk.walk fs .standard = .ok paths) :
    prepare fs .standard = .ok (.standard, paths) := by
  have hpath : (Path.ofString "/").child Config.fileName = .ofString "/alphafix.json" := by decide
  exact prepare_eq_ok.mpr ⟨configure_standard hcwd (hpath ▸ hfile), hwalk⟩

/-! ## Commands -/

/-- A command that does not get to its first file does nothing but fail. -/
theorem execute_of_prepare_error (command : Command)
    (h : prepare fs command.target = .error failure) :
    (execute fs command).text = "" ∧ (execute fs command).result = .error failure ∧
      (execute fs command).after = fs ∧ (execute fs command).pieces = [] := by
  rcases prepare_eq_error.mp h with hconfig | ⟨config, hconfig, hwalk⟩
  · rw [execute, hconfig]
    exact ⟨rfl, rfl, rfl, rfl⟩
  · rw [execute, hconfig]
    cases command with
    | migrate target dryRun check =>
      dsimp only
      rw [migrate, hwalk]
      exact ⟨rfl, rfl, rfl, rfl⟩
    | scan target =>
      dsimp only
      rw [Scan.scan, hwalk]
      exact ⟨rfl, rfl, rfl, rfl⟩

/-- A migration that gets to its first file; `write` says whether it is more than a preview. -/
theorem execute_migrate (dryRun check : Bool) {write : Bool}
    (h : prepare fs target = .ok (config, paths)) (hwrite : write = !(dryRun || check)) :
    (execute fs (.migrate target dryRun check)).text =
        String.join ((migrate fs config write).edits.map editLine) ∧
      (execute fs (.migrate target dryRun check)).result =
        (migrate fs config write).result.map (fun summary =>
          (migrationData (!write) summary,
            if check && summary.filesChanged > 0 then 1 else 0)) ∧
      (execute fs (.migrate target dryRun check)).after = (migrate fs config write).after ∧
      (execute fs (.migrate target dryRun check)).pieces =
        (migrate fs config write).trace.map fun (edit, fs) => (editLine edit, fs) := by
  have hpreview : (dryRun || check) = !write := by rw [hwrite, Bool.not_not]
  rw [execute, Command.target, (prepare_eq_ok.mp h).1]
  dsimp only
  rw [hpreview, Bool.not_not]
  refine ⟨?_, rfl, rfl, rfl⟩
  rw [Performance.text, Run.edits, List.map_map, List.map_map]
  rfl

/-- A migration with the turn at which it stops. -/
theorem execute_of_stopsAt (dryRun check : Bool) {write : Bool} {stop : Nat}
    (h : prepare fs target = .ok (config, paths)) (hwrite : write = !(dryRun || check))
    (hstop : StopsAt write fs paths stop) :
    (execute fs (.migrate target dryRun check)).text =
        String.join ((editsBefore write fs paths stop).map editLine) ∧
      (execute fs (.migrate target dryRun check)).after = stateAt write fs paths (stop + 1) ∧
      (execute fs (.migrate target dryRun check)).result =
        match failureAt write fs paths stop with
        | some failure => .error failure
        | none =>
          .ok (migrationData (!write)
              ⟨config.root, paths.length, editsBefore write fs paths stop, write⟩,
            if check && (editsBefore write fs paths stop).length > 0 then 1 else 0) := by
  obtain ⟨htext, hresult, hafter, -⟩ := execute_migrate dryRun check h hwrite
  obtain ⟨hedits, hstate, hends⟩ := migrate_of_stopsAt (prepare_eq_ok.mp h).2 hstop
  rw [htext, hresult, hafter, hedits, hstate, hends]
  cases failureAt write fs paths stop with
  | some failure => exact ⟨rfl, rfl, rfl⟩
  | none => exact ⟨rfl, rfl, rfl⟩

theorem execute_scan (h : prepare fs target = .ok (config, paths)) :
    (execute fs (.scan target)).result =
        (Walk.collect (Scan.scanFile fs) paths).map
          (fun references => (scanData config.root references, 0)) ∧
      ∀ references, Walk.collect (Scan.scanFile fs) paths = .ok references →
        (execute fs (.scan target)).text = String.join (references.map referenceLine) := by
  obtain ⟨hconfig, hwalk⟩ := prepare_eq_ok.mp h
  rw [execute, Command.target, hconfig]
  dsimp only
  rw [Scan.scan, hwalk]
  dsimp only
  cases Walk.collect (Scan.scanFile fs) paths with
  | error failure => exact ⟨rfl, fun references hcollect => by cases hcollect⟩
  | ok found =>
    refine ⟨rfl, fun references hcollect => ?_⟩
    cases hcollect
    exact String.empty_append

/-- A scan leaves the file system as it is, at every moment. -/
theorem after_scan (fs : FileSystem) (target : Target) :
    (execute fs (.scan target)).after = fs ∧
      ∀ piece ∈ (execute fs (.scan target)).pieces, piece.2 = fs := by
  unfold execute
  split
  · exact ⟨rfl, List.forall_mem_nil _⟩
  · dsimp only
    split
    · exact ⟨rfl, List.forall_mem_nil _⟩
    · exact ⟨rfl, fun piece hpiece => by rw [List.mem_singleton.mp hpiece]⟩

/-! ## Printing -/

@[simp] theorem unprinted?_empty (output : Sink) : unprinted? output "" = none := by
  cases output with
  | works => rfl
  | breaks n fault => rfl

/-- What follows does not help a text that cannot be printed. -/
theorem unprinted?_append {output : Sink} {text : String} {fault : FileSystem.Fault}
    (h : unprinted? output text = some fault) (more : String) :
    unprinted? output (text ++ more) = some fault := by
  obtain ⟨n, hlt, rfl⟩ := FileSystem.Sink.fault?_eq_some.mp h
  refine FileSystem.Sink.fault?_eq_some.mpr ⟨n, ?_, rfl⟩
  rw [String.toList_append, Utf8.encode_append, List.length_append]
  omega

/-- Printing breaks off at one of the pieces of a text that cannot be printed. -/
theorem breaksAt_eq_some {output : Sink} {done : String} {pieces : List (String × FileSystem)}
    {fault : FileSystem.Fault} {after : FileSystem}
    (h : breaksAt output done pieces = some (fault, after)) :
    unprinted? output (done ++ String.join (pieces.map Prod.fst)) = some fault ∧
      ∃ piece ∈ pieces, after = piece.2 := by
  induction pieces generalizing done with
  | nil => cases h
  | cons piece pieces ih =>
    obtain ⟨text, fs⟩ := piece
    rw [List.map_cons, String.join_cons, ← String.append_assoc]
    rw [breaksAt] at h
    split at h
    · rename_i hfault
      cases h
      exact ⟨unprinted?_append hfault _, _, List.mem_cons_self, rfl⟩
    · obtain ⟨hfault, piece, hmem, hafter⟩ := ih h
      exact ⟨hfault, piece, List.mem_cons_of_mem _ hmem, hafter⟩

theorem breaksAt_eq_none {output : Sink} {done : String} {pieces : List (String × FileSystem)}
    (hdone : unprinted? output done = none) (h : breaksAt output done pieces = none) :
    unprinted? output (done ++ String.join (pieces.map Prod.fst)) = none := by
  induction pieces generalizing done with
  | nil =>
    rw [List.map_nil, String.join_nil, String.append_empty]
    exact hdone
  | cons piece pieces ih =>
    obtain ⟨text, fs⟩ := piece
    rw [List.map_cons, String.join_cons, ← String.append_assoc]
    rw [breaksAt] at h
    split at h
    · cases h
    · rename_i hfits
      exact ih hfits h

/-! ## Answers -/

/-- The data of a command cannot be printed, and not because nobody reads them. -/
def DataLost (output : Sink) (p : Performance) : Prop :=
  ∃ fault, unprinted? output (printed p.envelope) = some fault ∧ fault ≠ .brokenPipe

theorem not_dataLost_works (p : Performance) : ¬ DataLost .works p := by
  rintro ⟨fault, hfault, -⟩
  cases hfault

theorem status_ne_zero (code : Report.Code) : status code ≠ 0 := by
  cases code <;> decide

/-- An answer with text, if all of it can be printed. -/
theorem answerText_eq (h : unprinted? console.output p.text = none) :
    (answerText console p).status = p.ending ∧ (answerText console p).output = p.text ∧
      (answerText console p).after = p.after := by
  unfold answerText
  split
  · rename_i fault after hbreaks
    have hfault := (breaksAt_eq_some hbreaks).1
    rw [String.empty_append] at hfault
    rw [Performance.text, hfault] at h
    cases h
  · exact ⟨rfl, rfl, rfl⟩

/-- A command breaks off at the piece of its text that cannot be printed. -/
theorem answerText_brokenOff (h : unprinted? console.output p.text ≠ none) :
    (answerText console p).status = brokenOff ∧
      (answerText console p).output = shown console.output p.text ∧
      ∃ fault after, breaksAt console.output "" p.pieces = some (fault, after) ∧
        (answerText console p).after = after := by
  unfold answerText
  split
  · rename_i fault after hbreaks
    exact ⟨rfl, rfl, fault, after, hbreaks, rfl⟩
  · rename_i hnone
    have hprinted := breaksAt_eq_none (unprinted?_empty _) hnone
    rw [String.empty_append] at hprinted
    exact absurd hprinted h

theorem answerJson_eq (console : Console) (p : Performance) :
    (answerJson console p).after = p.after ∧
      (answerJson console p).output = shown console.output (printed p.envelope) ∧
      (DataLost console.output p → (answerJson console p).status = 1) ∧
      (¬ DataLost console.output p → (answerJson console p).status = p.ending) := by
  unfold answerJson
  dsimp only
  split
  · rename_i hprinted
    refine ⟨rfl, by rw [shown, hprinted], ?_, fun _ => rfl⟩
    rintro ⟨fault, hfault, -⟩
    rw [hprinted] at hfault
    cases hfault
  · rename_i hclosed
    refine ⟨rfl, rfl, ?_, fun _ => rfl⟩
    rintro ⟨fault, hfault, hne⟩
    rw [hclosed] at hfault
    exact absurd (Option.some.inj hfault).symm hne
  · rename_i fault hne hfault
    exact ⟨rfl, rfl, fun _ => rfl, fun hkept => absurd ⟨fault, hfault, hne⟩ hkept⟩

/-- How a run of a command ends: it breaks off at a piece of its text that cannot be printed, it
loses its data, or it ends as the command does. -/
theorem run_ends (fs : FileSystem) (console : Console)
    (h : parse args = .ok (.run json command)) :
    (json = false ∧ unprinted? console.output (execute fs command).text ≠ none ∧
      (run fs console args).status = brokenOff ∧
      ∃ fault, breaksAt console.output "" (execute fs command).pieces =
        some (fault, (run fs console args).after)) ∨
    (json = true ∧ DataLost console.output (execute fs command) ∧
      (run fs console args).status = 1 ∧
      (run fs console args).after = (execute fs command).after) ∨
    ((json = true → ¬ DataLost console.output (execute fs command)) ∧
      (run fs console args).status = (execute fs command).ending ∧
      (run fs console args).after = (execute fs command).after ∧
      (json = false → (run fs console args).output = (execute fs command).text)) := by
  cases json with
  | true =>
    have hrun : run fs console args = answerJson console (execute fs command) := by rw [run, h]
    obtain ⟨hafter, -, hlost, hends⟩ := answerJson_eq console (execute fs command)
    rw [hrun]
    by_cases hdata : DataLost console.output (execute fs command)
    · exact Or.inr (Or.inl ⟨rfl, hdata, hlost hdata, hafter⟩)
    · exact Or.inr (Or.inr ⟨fun _ => hdata, hends hdata, hafter, fun hjson => by cases hjson⟩)
  | false =>
    have hrun : run fs console args = answerText console (execute fs command) := by rw [run, h]
    rw [hrun]
    by_cases hprints : unprinted? console.output (execute fs command).text = none
    · obtain ⟨hstatus, houtput, hafter⟩ := answerText_eq hprints
      exact Or.inr (Or.inr ⟨fun hjson => (by cases hjson), hstatus, hafter, fun _ => houtput⟩)
    · obtain ⟨hstatus, -, fault, after, hbreaks, hafter⟩ := answerText_brokenOff hprints
      exact Or.inl ⟨rfl, hprints, hstatus, fault, by rw [hbreaks, hafter]⟩

/-- Where the output works, a run ends as its command does, in text and in data. -/
theorem run_of_works (h : parse args = .ok (.run json command))
    (hworks : console.output = .works) :
    (run fs console args).status = (execute fs command).ending ∧
      (run fs console args).after = (execute fs command).after := by
  rcases run_ends fs console h with
    ⟨-, hbroken, -⟩ | ⟨-, hlost, -⟩ | ⟨-, hstatus, hafter, -⟩
  · rw [hworks] at hbroken
    exact absurd rfl hbroken
  · exact absurd (hworks ▸ hlost) (not_dataLost_works _)
  · exact ⟨hstatus, hafter⟩

end OpacityMigration.CommandLine
