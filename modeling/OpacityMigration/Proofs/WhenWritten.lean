import OpacityMigration.Proofs.Answers
import OpacityMigration.Proofs.PassedOver
import OpacityMigration.Proofs.TextAndData

/-!
# When a run may write

Only a migration that is no preview writes files. A failure that the user can mend, which makes a
run end with status 2, comes before the first file: the arguments, the configuration and the root
are all looked at by then. So such a run has neither written nor printed anything, and a migration
that wrote some files and then failed ends with status 1. Where a line of its text cannot be
printed, the run breaks off there, with what is written by then.

* `after_of_not_migrates`: commands that write nothing.
* `ending_le_one`: the statuses of a command that gets to its first file.
* `statuses_of_writing`: when a run may write, and how it then ends.
* `partial_migration_ends_otherwise`: migrations that leave files out and do not end with status 1.
-/

namespace OpacityMigration

namespace Migration

variable {fs : FileSystem} {path : Path} {paths : List Path} {write : Bool} {turn : Nat}
  {failure : Failure}

/-- In a preview nothing has changed at any edit. -/
theorem trace_preview (fs : FileSystem) (config : Config) :
    ∀ step ∈ (migrate fs config false).trace, step.2 = fs := by
  intro step hstep
  cases hwalk : Walk.walk fs config with
  | error failure =>
    rw [migrate, hwalk] at hstep
    cases hstep
  | ok paths =>
    obtain ⟨stop, hstop⟩ := exists_stopsAt false fs paths
    rw [trace_of_stopsAt hwalk hstop] at hstep
    obtain ⟨turn, -, hedit⟩ := List.mem_filterMap.mp hstep
    obtain ⟨edit, -, rfl⟩ := Option.map_eq_some_iff.mp hedit
    exact stateAt_preview fs paths (turn + 1)

theorem status_of_failureAt (h : failureAt write fs paths turn = some failure) :
    CommandLine.status failure.report.code = 1 := by
  obtain ⟨path, -, hm⟩ := migrateFile_of_failureAt_eq_some h
  rcases migrateFile_eq_error.mp hm with ⟨fault, -, rfl⟩ | ⟨-, fault, -, -, -, -, rfl⟩
  · rfl
  · rfl

end Migration

namespace CommandLine

open Migration

variable {fs : FileSystem} {console : Console} {args : List Argument} {command : Command}
  {target : Target} {config : Config} {paths : List Path} {failure : Failure}

/-! ## Commands -/

/-- A migration that is more than a preview. -/
def Command.Migrates (command : Command) : Prop :=
  ∃ target, command = .migrate target false false

/-- A command that does not migrate leaves everything as it is, at every moment. -/
theorem after_of_not_migrates (h : ¬ command.Migrates) :
    (execute fs command).after = fs ∧ ∀ piece ∈ (execute fs command).pieces, piece.2 = fs := by
  cases command with
  | scan target => exact after_scan fs target
  | migrate target dryRun check =>
    have hpreview : (dryRun || check) = true := by
      rw [← Bool.not_eq_false, Bool.or_eq_false_iff]
      rintro ⟨rfl, rfl⟩
      exact h ⟨target, rfl⟩
    cases hprepare : prepare fs target with
    | error failure =>
      obtain ⟨-, -, hafter, hpieces⟩ :=
        execute_of_prepare_error (.migrate target dryRun check) hprepare
      rw [hpieces]
      exact ⟨hafter, List.forall_mem_nil _⟩
    | ok prepared =>
      have hwrite : false = !(dryRun || check) := by rw [hpreview, Bool.not_true]
      obtain ⟨-, -, hafter, hpieces⟩ := execute_migrate dryRun check hprepare hwrite
      rw [hafter, hpieces]
      refine ⟨after_preview fs _, fun piece hpiece => ?_⟩
      obtain ⟨step, hstep, rfl⟩ := List.mem_map.mp hpiece
      exact trace_preview fs _ step hstep

theorem status_of_collect (h : Walk.collect (Scan.scanFile fs) paths = .error failure) :
    status failure.report.code = 1 := by
  induction paths with
  | nil => cases h
  | cons path paths ih =>
    rw [Walk.collect, Scan.scanFile] at h
    cases hread : fs.readText path with
    | error fault =>
      rw [hread] at h
      cases h
      rfl
    | ok text =>
      rw [hread] at h
      cases hrest : Walk.collect (Scan.scanFile fs) paths with
      | error other =>
        simp only [hrest] at h
        cases h
        exact ih hrest
      | ok references =>
        simp only [hrest] at h
        cases h

/-- A command that gets to its first file ends with status 0 or 1. -/
theorem ending_le_one (h : prepare fs command.target = .ok (config, paths)) :
    (execute fs command).ending ≤ 1 := by
  cases command with
  | migrate target dryRun check =>
    change prepare fs target = _ at h
    obtain ⟨stop, hstop⟩ := exists_stopsAt (!(dryRun || check)) fs paths
    obtain ⟨-, -, hresult⟩ := execute_of_stopsAt dryRun check h rfl hstop
    rw [Performance.ending, hresult]
    cases hfails : failureAt (!(dryRun || check)) fs paths stop with
    | some failure => exact (status_of_failureAt hfails).le
    | none =>
      dsimp only
      split
      · exact Nat.le_refl 1
      · exact Nat.zero_le 1
  | scan target =>
    change prepare fs target = _ at h
    rw [Performance.ending, (execute_scan h).1]
    cases hcollect : Walk.collect (Scan.scanFile fs) paths with
    | error failure => exact (status_of_collect hcollect).le
    | ok references => exact Nat.zero_le 1

/-! ## Statuses -/

theorem status_eq_two {code : Report.Code} :
    status code = 2 ↔ code ∈ [.invalidJson, .invalidValue, .invalidArgument] := by
  cases code <;> decide

/-- A command that ends with status 2 does not get to its first file. -/
theorem prepare_of_ending_eq_two (h : (execute fs command).ending = 2) :
    ∃ failure, prepare fs command.target = .error failure ∧
      failure.report.code ∈ [.invalidJson, .invalidValue, .invalidArgument] := by
  cases hprepare : prepare fs command.target with
  | error failure =>
    rw [Performance.ending, (execute_of_prepare_error command hprepare).2.1] at h
    exact ⟨failure, rfl, status_eq_two.mp h⟩
  | ok prepared =>
    have hle := ending_le_one hprepare
    omega

theorem ending_eq_two : (execute fs command).ending = 2 ↔
    ∃ failure, (execute fs command).result = .error failure ∧
      failure.report.code ∈ [.invalidJson, .invalidValue, .invalidArgument] := by
  constructor
  · intro h
    obtain ⟨failure, hprepare, hcode⟩ := prepare_of_ending_eq_two h
    exact ⟨failure, (execute_of_prepare_error command hprepare).2.1, hcode⟩
  · rintro ⟨failure, hresult, hcode⟩
    rw [Performance.ending, hresult]
    exact status_eq_two.mpr hcode

/-- Whether a migration of the target, started in `fs`, succeeds and leaves this file system. -/
def Completes (fs : FileSystem) (target : Target) (after : FileSystem) : Prop :=
  ∃ config summary, configure fs target = .ok config ∧
    (migrate fs config true).result = .ok summary ∧ after = (migrate fs config true).after

theorem completes_of_ending (h : (execute fs (.migrate target false false)).ending = 0) :
    Completes fs target (execute fs (.migrate target false false)).after := by
  cases hprepare : prepare fs target with
  | error failure =>
    obtain ⟨-, hresult, -⟩ := execute_of_prepare_error (.migrate target false false) hprepare
    rw [Performance.ending, hresult] at h
    exact absurd h (status_ne_zero _)
  | ok prepared =>
    obtain ⟨config, paths⟩ := prepared
    obtain ⟨-, hresult, hafter, -⟩ :=
      execute_migrate false false hprepare (rfl : true = !(false || false))
    cases hm : (migrate fs config true).result with
    | error failure =>
      rw [Performance.ending, hresult, hm] at h
      exact absurd h (status_ne_zero _)
    | ok summary => exact ⟨config, summary, (prepare_eq_ok.mp hprepare).1, hm, hafter⟩

/-! ## Runs -/

/-- A command line that does not ask for a run has nothing written. -/
theorem run_of_not_run (fs : FileSystem) (console : Console)
    (h : ∀ json command, parse args ≠ .ok (.run json command)) :
    (run fs console args).after = fs ∧
      (((∃ misuse, parse args = .error misuse) ∧ (run fs console args).status = 2 ∧
        (run fs console args).output = "") ∨
      ((∀ misuse, parse args ≠ .error misuse) ∧ (run fs console args).status = 0)) := by
  cases hparse : parse args with
  | error misuse =>
    rw [run, hparse]
    exact ⟨rfl, Or.inl ⟨⟨misuse, rfl⟩, rfl, rfl⟩⟩
  | ok request =>
    cases request with
    | help topic =>
      rw [run, hparse]
      exact ⟨rfl, Or.inr ⟨by simp, rfl⟩⟩
    | version =>
      rw [run, hparse]
      exact ⟨rfl, Or.inr ⟨by simp, rfl⟩⟩
    | run json command => exact absurd hparse (h json command)

/-- Only a migration that is no preview writes. -/
theorem migrates_of_after_ne (h : (run fs console args).after ≠ fs) :
    ∃ json command, parse args = .ok (.run json command) ∧ command.Migrates := by
  by_contra hnone
  by_cases hrun : ∃ json command, parse args = .ok (.run json command)
  · obtain ⟨json, command, hrun⟩ := hrun
    have hidle := @after_of_not_migrates fs command fun hmigrates =>
      hnone ⟨json, command, hrun, hmigrates⟩
    rcases run_ends fs console hrun with
      ⟨-, -, -, fault, hbreaks⟩ | ⟨-, -, -, hafter⟩ | ⟨-, -, hafter, -⟩
    · obtain ⟨-, piece, hpiece, hafter⟩ := breaksAt_eq_some hbreaks
      exact h (hafter.trans (hidle.2 piece hpiece))
    · exact h (hafter.trans hidle.1)
    · exact h (hafter.trans hidle.1)
  · exact h (run_of_not_run fs console fun json command heq => hrun ⟨json, command, heq⟩).1

/-- A run of a command ends with status 2 if the command does and can say so. Then it is a failure
before the first file, and nothing was written or printed as text. -/
theorem run_status_eq_two (fs : FileSystem) (console : Console) {json : Bool}
    (h : parse args = .ok (.run json command)) :
    ((run fs console args).status = 2 ↔
      (json = true → ¬ DataLost console.output (execute fs command)) ∧
        (execute fs command).ending = 2) ∧
    ((run fs console args).status = 2 → (run fs console args).after = fs ∧
      (json = false → (run fs console args).output = "")) := by
  rcases run_ends fs console h with
    ⟨-, htext, hstatus, -⟩ | ⟨hjson, hlost, hstatus, -⟩ | ⟨hkept, hstatus, hafter, houtput⟩
  · -- what breaks off has something to print, so it has got to its first file
    have hfar : (execute fs command).ending ≠ 2 := by
      intro htwo
      obtain ⟨failure, hprepare, -⟩ := prepare_of_ending_eq_two htwo
      rw [(execute_of_prepare_error command hprepare).1] at htext
      exact htext (unprinted?_empty _)
    rw [hstatus]
    exact ⟨iff_of_false (by decide) fun htwo => hfar htwo.2, fun htwo => absurd htwo (by decide)⟩
  · rw [hstatus]
    exact ⟨iff_of_false (by decide) fun htwo => htwo.1 hjson hlost,
      fun htwo => absurd htwo (by decide)⟩
  · rw [hstatus]
    refine ⟨(and_iff_right hkept).symm, fun htwo => ?_⟩
    obtain ⟨failure, hprepare, -⟩ := prepare_of_ending_eq_two htwo
    obtain ⟨htext, -, hidle, -⟩ := execute_of_prepare_error command hprepare
    exact ⟨hafter.trans hidle, fun hjson => (houtput hjson).trans htext⟩

/-- Status 2 stands for arguments that are not understood, or for a failure that the user can
mend. -/
theorem run_status_eq_two_iff (fs : FileSystem) (console : Console) (args : List Argument) :
    (run fs console args).status = 2 ↔
      (∃ misuse, parse args = .error misuse) ∨
      ∃ json command failure, parse args = .ok (.run json command) ∧
        (json = true → ¬ DataLost console.output (execute fs command)) ∧
        (execute fs command).result = .error failure ∧
        failure.report.code ∈ [.invalidJson, .invalidValue, .invalidArgument] := by
  by_cases hrun : ∃ json command, parse args = .ok (.run json command)
  · obtain ⟨json, command, hrun⟩ := hrun
    rw [(run_status_eq_two fs console hrun).1, ending_eq_two, hrun]
    constructor
    · rintro ⟨hroom, failure, hresult, hcode⟩
      exact Or.inr ⟨json, command, failure, rfl, hroom, hresult, hcode⟩
    · rintro (⟨misuse, hmisuse⟩ | ⟨json', command', failure, heq, hroom, hresult, hcode⟩)
      · cases hmisuse
      · cases heq
        exact ⟨hroom, failure, hresult, hcode⟩
  · have hnone : ∀ json command, parse args ≠ .ok (.run json command) :=
      fun json command heq => hrun ⟨json, command, heq⟩
    obtain ⟨-, ⟨hmisuse, hstatus, -⟩ | ⟨hunderstood, hstatus⟩⟩ := run_of_not_run fs console hnone
    · exact iff_of_true hstatus (Or.inl hmisuse)
    · rw [hstatus]
      refine iff_of_false (by decide) ?_
      rintro (⟨misuse, hmisuse⟩ | ⟨json, command, failure, heq, -⟩)
      · exact hunderstood misuse hmisuse
      · exact hnone json command heq

theorem untouched_of_status_two (h : (run fs console args).status = 2) :
    (run fs console args).after = fs ∧
      ((∀ command, parse args ≠ .ok (.run true command)) → (run fs console args).output = "") := by
  by_cases hrun : ∃ json command, parse args = .ok (.run json command)
  · obtain ⟨json, command, hrun⟩ := hrun
    obtain ⟨hafter, houtput⟩ := (run_status_eq_two fs console hrun).2 h
    refine ⟨hafter, fun htext => houtput ?_⟩
    rw [← Bool.not_eq_true]
    rintro rfl
    exact htext command hrun
  · obtain ⟨hafter, ⟨-, -, houtput⟩ | ⟨-, hstatus⟩⟩ := run_of_not_run fs console
      fun json command heq => hrun ⟨json, command, heq⟩
    · exact ⟨hafter, fun _ => houtput⟩
    · rw [hstatus] at h
      cases h

/-- A migration that wrote but is not complete ends with status 1, unless it broke off. -/
theorem run_status_of_partial {json : Bool}
    (h : parse args = .ok (.run json (.migrate target false false)))
    (hwrites : (run fs console args).after ≠ fs)
    (hpartial : ¬ Completes fs target (run fs console args).after) :
    (run fs console args).status = 1 ∨
      (json = false ∧ (run fs console args).status = brokenOff ∧
        ∃ fault, breaksAt console.output "" (execute fs (.migrate target false false)).pieces =
          some (fault, (run fs console args).after)) := by
  rcases run_ends fs console h with
    ⟨hjson, -, hstatus, hbreaks⟩ | ⟨-, -, hstatus, -⟩ | ⟨-, hstatus, hafter, -⟩
  · exact Or.inr ⟨hjson, hstatus, hbreaks⟩
  · exact Or.inl hstatus
  · left
    rw [hafter] at hwrites hpartial
    cases hprepare : prepare fs target with
    | error failure =>
      exact absurd (execute_of_prepare_error (.migrate target false false) hprepare).2.2.1 hwrites
    | ok prepared =>
      have hle : (execute fs (.migrate target false false)).ending ≤ 1 := ending_le_one hprepare
      have hpos : (execute fs (.migrate target false false)).ending ≠ 0 :=
        fun hzero => hpartial (completes_of_ending hzero)
      omega

/-- **When a run may write, and how it then ends.** Only a migration that is no preview writes. A
run ends with status 2 if its arguments are not understood or if its command fails for them, for the
configuration or for the root; then it has written nothing and, unless it answers with data, printed
nothing. A migration that wrote but is not complete ends with status 1, unless a line of its text
could not be printed: then it has broken off there. -/
theorem statuses_of_writing (fs : FileSystem) (console : Console) (args : List Argument) :
    ((run fs console args).after ≠ fs →
      ∃ json command, parse args = .ok (.run json command) ∧ command.Migrates) ∧
    ((run fs console args).status = 2 ↔
      (∃ misuse, parse args = .error misuse) ∨
      ∃ json command failure, parse args = .ok (.run json command) ∧
        (json = true → ¬ DataLost console.output (execute fs command)) ∧
        (execute fs command).result = .error failure ∧
        failure.report.code ∈ [.invalidJson, .invalidValue, .invalidArgument]) ∧
    ((run fs console args).status = 2 → (run fs console args).after = fs ∧
      ((∀ command, parse args ≠ .ok (.run true command)) → (run fs console args).output = "")) ∧
    ∀ json target, parse args = .ok (.run json (.migrate target false false)) →
      (run fs console args).after ≠ fs → ¬ Completes fs target (run fs console args).after →
      (run fs console args).status = 1 ∨
        (json = false ∧ (run fs console args).status = brokenOff ∧
          ∃ fault, breaksAt console.output "" (execute fs (.migrate target false false)).pieces =
            some (fault, (run fs console args).after)) :=
  ⟨migrates_of_after_ne, run_status_eq_two_iff fs console args, untouched_of_status_two,
    fun _ _ => run_status_of_partial⟩

/-! ## Migrations that do not get through -/

/-- Two files with a call each. -/
def filesWithCalls : FileSystem :=
  twoFiles (Utf8.encode oneCall)

/-- `filesWithCalls` after its first file. -/
def afterFirst : FileSystem :=
  filesWithCalls.replace 0 (Utf8.encode modernCall)

theorem migrateFile_filesWithCalls :
    migrateFile filesWithCalls (.ofString "lib/a.dart") true =
        .ok (some ⟨.ofString "lib/a.dart", 1, true⟩, afterFirst) ∧
      migrateFile afterFirst (.ofString "lib/b.dart") true =
        .ok (some ⟨.ofString "lib/b.dart", 1, true⟩,
          afterFirst.replace 1 (Utf8.encode modernCall)) := by
  have hlookup : afterFirst.lookup (.ofString "lib/b.dart") = .ok (.file 1 .all) := by cbv
  exact ⟨migrateFile_twoFiles (Utf8.encode oneCall), migrateFile_oneCall hlookup (by cbv) rfl⟩

theorem prepare_filesWithCalls :
    prepare filesWithCalls .standard =
      .ok (.standard, [.ofString "lib/a.dart", .ofString "lib/b.dart"]) :=
  prepare_twoFiles (Utf8.encode oneCall)

theorem stopsAt_filesWithCalls :
    StopsAt true filesWithCalls [.ofString "lib/a.dart", .ofString "lib/b.dart"] 2 := by
  obtain ⟨hfirst, hsecond⟩ := migrateFile_filesWithCalls
  exact (stopsAt_cons_of_ok hfirst).mpr
    ⟨1, rfl, (stopsAt_cons_of_ok hsecond).mpr ⟨0, rfl, stopsAt_nil.mpr rfl⟩⟩

/-- The line of the first file cannot be printed, so the second is not migrated. -/
theorem run_filesWithCalls :
    (run filesWithCalls ⟨.full, false⟩ []).status = brokenOff ∧
      (run filesWithCalls ⟨.full, false⟩ []).after = afterFirst := by
  obtain ⟨hfirst, -⟩ := migrateFile_filesWithCalls
  have hpieces :=
    (execute_migrate false false prepare_filesWithCalls (rfl : true = !(false || false))).2.2.2
  rw [trace_of_stopsAt (prepare_eq_ok.mp prepare_filesWithCalls).2 stopsAt_filesWithCalls,
    traceBefore_cons hfirst] at hpieces
  have hbreaks : breaksAt .full "" (execute filesWithCalls .standard).pieces =
      some (.noSpace, afterFirst) := by
    rw [Command.standard, hpieces]
    rfl
  have hrun : run filesWithCalls ⟨.full, false⟩ [] =
      answerText ⟨.full, false⟩ (execute filesWithCalls .standard) := rfl
  rw [hrun, answerText, hbreaks]
  exact ⟨rfl, rfl⟩

theorem not_completes_afterFirst : ¬ Completes filesWithCalls .standard afterFirst := by
  rintro ⟨config, summary, hconfig, -, hafter⟩
  obtain ⟨hfirst, hsecond⟩ := migrateFile_filesWithCalls
  obtain ⟨hstandard, hwalk⟩ := prepare_eq_ok.mp prepare_filesWithCalls
  obtain rfl : config = .standard := Except.ok.inj (hconfig.symm.trans hstandard)
  rw [(migrate_of_stopsAt hwalk stopsAt_filesWithCalls).2.1, stateAt_cons hfirst,
    stateAt_cons hsecond] at hafter
  have hcontent := congrFun (congrArg FileSystem.content hafter) 1
  revert hcontent
  decide

/-- A file with a call, and another one in a directory that may be listed but not searched. -/
def halfClosed : FileSystem :=
  (((FileSystem.empty []).putFile (.ofString "lib/a.dart") (Utf8.encode oneCall)).putFile
    (.ofString "lib/closed/b.dart") (Utf8.encode oneCall)).setAccess (.ofString "lib/closed")
    (.ofDigit 4)

/-- The second file is passed over, and the run succeeds. -/
theorem run_halfClosed :
    Walk.LiesBelow halfClosed .standard (.ofString "lib/closed/b.dart") ∧
      (run halfClosed ⟨.works, false⟩ []).status = 0 ∧
      (run halfClosed ⟨.works, false⟩ []).after =
        halfClosed.replace 0 (Utf8.encode modernCall) := by
  have hwalk : Walk.walk halfClosed .standard = .ok [.ofString "lib/a.dart"] := by cbv
  have hfile : halfClosed.isFile (.ofString "/alphafix.json") = false := by cbv
  have hlookup : halfClosed.lookup (.ofString "lib/a.dart") = .ok (.file 0 .all) := by cbv
  have hfirst := migrateFile_oneCall hlookup (by cbv) rfl
  have hstop : StopsAt true halfClosed [.ofString "lib/a.dart"] 1 :=
    (stopsAt_cons_of_ok hfirst).mpr ⟨0, rfl, stopsAt_nil.mpr rfl⟩
  obtain ⟨-, hafter, hresult⟩ := execute_of_stopsAt false false
    (prepare_standard rfl hfile hwalk) (rfl : true = !(false || false)) hstop
  obtain ⟨hstatus, hends⟩ :=
    @run_of_works halfClosed ⟨.works, false⟩ [] false .standard rfl rfl
  refine ⟨?_, ?_, ?_⟩
  · refine ⟨_, [Utf8.encode "closed".toList, Utf8.encode "b.dart".toList], by cbv, ?_, by decide⟩
    refine .directory (by decide) (by decide) (.file (by decide) rfl ?_)
    exact ⟨['b'], "dart", by decide, rfl⟩
  · rw [hstatus, Performance.ending, Command.standard, hresult, failureAt_cons hfirst]
    rfl
  · rw [hends, Command.standard, hafter, stateAt_cons hfirst]
    rfl

/-- A migration that does not get to all files need not end with status 1. Where the line of a file
cannot be printed the run breaks off, with another status; and where a look-up is refused the file
is passed over, so the run succeeds without it. -/
theorem partial_migration_ends_otherwise :
    (parse [] = .ok (.run false .standard) ∧
      (run filesWithCalls ⟨.full, false⟩ []).status = 101 ∧
      (run filesWithCalls ⟨.full, false⟩ []).after.readText (.ofString "lib/a.dart") =
        .ok modernCall ∧
      (run filesWithCalls ⟨.full, false⟩ []).after.readText (.ofString "lib/b.dart") =
        .ok oneCall) ∧
    (Walk.LiesBelow halfClosed .standard (.ofString "lib/closed/b.dart") ∧
      (run halfClosed ⟨.works, false⟩ []).status = 0 ∧
      (run halfClosed ⟨.works, false⟩ []).after.readText (.ofString "lib/a.dart") =
        .ok modernCall ∧
      (run halfClosed ⟨.works, false⟩ []).after.unlocked.readText
        (.ofString "lib/closed/b.dart") = .ok oneCall) ∧
    ¬ ∀ fs console args json target, parse args = .ok (.run json (.migrate target false false)) →
      (run fs console args).after ≠ fs → ¬ Completes fs target (run fs console args).after →
      (run fs console args).status = 1 := by
  obtain ⟨hstatus, hafter⟩ := run_filesWithCalls
  obtain ⟨hlies, hstatus', hafter'⟩ := run_halfClosed
  refine ⟨⟨rfl, hstatus, ?_, ?_⟩, ⟨hlies, hstatus', ?_, ?_⟩, fun hall => ?_⟩
  · rw [hafter]
    cbv
  · rw [hafter]
    cbv
  · rw [hafter']
    cbv
  · rw [hafter']
    cbv
  · have hchanged : afterFirst.content 0 ≠ filesWithCalls.content 0 := by decide
    have hone := hall filesWithCalls ⟨.full, false⟩ [] false .standard rfl
      (fun hsame => hchanged (by rw [← hafter, hsame]))
      (by rw [hafter]; exact not_completes_afterFirst)
    rw [hstatus] at hone
    cases hone

end CommandLine

end OpacityMigration
