import OpacityMigration.Proofs.Answers
import OpacityMigration.Proofs.DataOption
import OpacityMigration.Proofs.Previews

/-!
# Answers with text and with data

A command does the same whether it answers with text or with data. The text of a success is its
data, written out: a line for each edit of a migration, a line for each reference of a scan. A
failure has no data but a report, and the text of a migration that fails still has a line for each
edit that it has applied.

* `dataText`: the text that data stand for.
* `text_eq_dataText`: the text of a command that succeeds.
* `lines_of_failure`: the text of a migration that fails.
* `text_and_data_agree`: both ways to answer tell of one run.
-/

namespace OpacityMigration.CommandLine

open Migration

variable {fs : FileSystem} {args : List Argument} {command : Command} {target : Target}
  {failure : Failure} {data : Json} {ending : Nat}

/-! ## Data as text -/

/-- The items of the list under a key. -/
def listed (key : String) (data : Json) : List Json :=
  match data.get? key with
  | some (.array items) => items
  | _ => []

/-- The text under a key; a number stands for its digits. -/
def textUnder (key : String) (item : Json) : String :=
  match item.get? key with
  | some (.string text) => text
  | some (.number n) => String.ofList n.text
  | _ => ""

/-- The line for an edit among the data of a migration. -/
def editText (preview : Bool) (edit : Json) : String :=
  (if preview then "would update " else "updated ") ++ textUnder "file" edit ++ "\n"

/-- The line for a reference among the data of a scan. -/
def referenceText (reference : Json) : String :=
  textUnder "file" reference ++ ":" ++ textUnder "line" reference ++ ":" ++
    textUnder "column" reference ++ ": " ++ textUnder "matched" reference ++ " -> " ++
    textUnder "replacement" reference ++ "\n"

/-- The text that the data of a command stand for. -/
def dataText (data : Json) : String :=
  match data.get? "command", data.get? "dry_run" with
  | some (.string "migrate"), some (.bool preview) =>
    String.join ((listed "edits" data).map (editText preview))
  | some (.string "scan"), _ => String.join ((listed "references" data).map referenceText)
  | _, _ => ""

theorem editText_toJson (e : Edit) : editText (!e.written) e.toJson = editLine e := by
  obtain ⟨path, replacements, written⟩ := e
  cases written with
  | true => rfl
  | false => rfl

theorem dataText_migrationData {preview : Bool} {summary : Summary}
    (h : ∀ e ∈ summary.edits, e.written = !preview) :
    dataText (migrationData preview summary) = String.join (summary.edits.map editLine) := by
  have hlines : dataText (migrationData preview summary) =
      String.join ((summary.edits.map Edit.toJson).map (editText preview)) := rfl
  rw [hlines, List.map_map]
  congr 1
  refine List.map_congr_left fun e he => ?_
  rw [Function.comp_apply, ← editText_toJson, h e he, Bool.not_not]

theorem dataText_scanData (root : Path) (references : List Reference) :
    dataText (scanData root references) = String.join (references.map referenceLine) := by
  have hlines : dataText (scanData root references) =
      String.join ((references.map Reference.toJson).map referenceText) := rfl
  rw [hlines, List.map_map]
  -- a reference holds all that its line shows
  rfl

/-! ## Success -/

/-- The text of a command that succeeds is its data, written out. -/
theorem text_eq_dataText (h : (execute fs command).result = .ok (data, ending)) :
    (execute fs command).text = dataText data := by
  cases hprepare : prepare fs command.target with
  | error failure =>
    rw [(execute_of_prepare_error command hprepare).2.1] at h
    cases h
  | ok prepared =>
    obtain ⟨config, paths⟩ := prepared
    cases command with
    | migrate target dryRun check =>
      change prepare fs target = _ at hprepare
      obtain ⟨stop, hstop⟩ := exists_stopsAt (!(dryRun || check)) fs paths
      obtain ⟨htext, -, hresult⟩ := execute_of_stopsAt dryRun check hprepare rfl hstop
      rw [hresult] at h
      split at h
      · cases h
      · cases h
        rw [htext, dataText_migrationData]
        intro e he
        rw [written_of_mem_editsBefore he, Bool.not_not]
    | scan target =>
      change prepare fs target = _ at hprepare
      obtain ⟨hresult, htext⟩ := execute_scan hprepare
      rw [hresult] at h
      cases hcollect : Walk.collect (Scan.scanFile fs) paths with
      | error failure =>
        rw [hcollect] at h
        cases h
      | ok references =>
        rw [hcollect] at h
        cases h
        rw [htext references hcollect, dataText_scanData]

/-! ## Failure -/

/-- The edits that a migration has applied when it fails, and what it leaves: none if it does not
get to its first file, else those of the turns before the one that fails. -/
def AppliedBefore (fs : FileSystem) (target : Target) (failure : Failure) (edits : List Edit)
    (after : FileSystem) : Prop :=
  (prepare fs target = .error failure ∧ edits = [] ∧ after = fs) ∨
    ∃ config paths stop, prepare fs target = .ok (config, paths) ∧ StopsAt true fs paths stop ∧
      failureAt true fs paths stop = some failure ∧ edits = editsBefore true fs paths stop ∧
      after = stateAt true fs paths (stop + 1)

/-- The openings of files for writing that go with applied edits: one for each edit, and then one
for the file that could not be written, if it could be opened. -/
def Openings (fs : FileSystem) (failure : Failure) (edits : List Edit)
    (after : FileSystem) : Prop :=
  (∀ e ∈ edits, ∃ id, fs.fileId? e.path = some id) ∧
    ∃ torn : Option FileId,
      after.opened =
        torn.toList ++ (edits.filterMap fun e => fs.fileId? e.path).reverse ++ fs.opened ∧
      ∀ id ∈ torn, ∃ path fault, failure = .refused fault (.writeFile path) ∧
        fs.fileId? path = some id

theorem AppliedBefore.openings {edits : List Edit} {after : FileSystem}
    (h : AppliedBefore fs target failure edits after) : Openings fs failure edits after := by
  rcases h with ⟨-, rfl, rfl⟩ | ⟨config, paths, stop, -, hstop, hfails, rfl, rfl⟩
  · exact ⟨List.forall_mem_nil _, none, rfl, by simp⟩
  refine ⟨fun e he => fileId?_of_mem_editsBefore hstop he, ?_⟩
  have hprogress := progress_stateAt hstop.le hstop.handled
  have hopened := hprogress.opened
  rw [if_pos rfl] at hopened
  obtain ⟨path, hpath, hm⟩ := migrateFile_of_failureAt_eq_some hfails
  rcases (stateAt_stop hpath hm).opened with hsame | ⟨id, fault, rfl, hid, hopens⟩
  · exact ⟨none, by rw [hsame, hopened]; rfl, by simp⟩
  · rw [hprogress.sameTree.fileId?] at hid
    refine ⟨some id, ?_, fun other hother => ?_⟩
    · rw [hopens, hopened]
      rfl
    · cases hother
      exact ⟨path, fault, rfl, hid⟩

/-- The text of a migration that fails. -/
theorem lines_of_failure (h : (execute fs (.migrate target false false)).result = .error failure) :
    ∃ edits,
      AppliedBefore fs target failure edits (execute fs (.migrate target false false)).after ∧
      (execute fs (.migrate target false false)).text =
        String.join (edits.map fun e => "updated " ++ e.path.display ++ "\n") := by
  cases hprepare : prepare fs target with
  | error other =>
    obtain ⟨htext, hresult, hafter, -⟩ :=
      execute_of_prepare_error (.migrate target false false) hprepare
    cases hresult.symm.trans h
    exact ⟨[], Or.inl ⟨hprepare, rfl, hafter⟩, htext⟩
  | ok prepared =>
    obtain ⟨config, paths⟩ := prepared
    obtain ⟨stop, hstop⟩ := exists_stopsAt true fs paths
    obtain ⟨htext, hafter, hresult⟩ :=
      execute_of_stopsAt false false hprepare (rfl : true = !(false || false)) hstop
    have hfails : failureAt true fs paths stop = some failure := by
      rw [hresult] at h
      split at h
      · rename_i hfails
        cases h
        exact hfails
      · cases h
    refine ⟨editsBefore true fs paths stop,
      Or.inr ⟨config, paths, stop, hprepare, hstop, hfails, rfl, hafter⟩, ?_⟩
    rw [htext]
    congr 1
    refine List.map_congr_left fun e he => ?_
    rw [editLine, written_of_mem_editsBefore he, if_pos rfl]

/-! ## One run -/

/-- The answers with text and with data of one command, both with an output that works. -/
structure OneRun (fs : FileSystem) (command : Command) (text data : Answer) : Prop where
  status : text.status = data.status
  after : text.after = data.after
  /-- On success the text is the data, written out. -/
  succeeds : ∀ value ending, (execute fs command).result = .ok (value, ending) →
    data.status = ending ∧ data.output = printed (dataEnvelope value) ∧
      (dataEnvelope value).get? "success" = some (.bool true) ∧
      (dataEnvelope value).get? "data" = some value ∧ text.output = dataText value
  /-- On failure the envelope says so. -/
  fails : ∀ failure, (execute fs command).result = .error failure →
    data.status = CommandLine.status failure.report.code ∧
      data.output = printed (reportEnvelope failure.report) ∧
      (reportEnvelope failure.report).get? "success" = some (.bool false)
  /-- A migration that fails has printed a line for each edit that it has applied. -/
  applied : ∀ target failure, command = .migrate target false false →
    (execute fs command).result = .error failure →
    ∃ edits, AppliedBefore fs target failure edits data.after ∧
      Openings fs failure edits data.after ∧
      text.output = String.join (edits.map fun e => "updated " ++ e.path.display ++ "\n")

theorem oneRun (fs : FileSystem) (command : Command) (terminal terminal' : Bool) :
    OneRun fs command (answerText ⟨.works, terminal⟩ (execute fs command))
      (answerJson ⟨.works, terminal'⟩ (execute fs command)) := by
  obtain ⟨hstatus, houtput, hafter⟩ :=
    @answerText_eq ⟨.works, terminal⟩ (execute fs command) rfl
  obtain ⟨hafter', houtput', -, hstatus'⟩ := answerJson_eq ⟨.works, terminal'⟩ (execute fs command)
  have hstatus' := hstatus' (not_dataLost_works _)
  refine ⟨hstatus.trans hstatus'.symm, hafter.trans hafter'.symm, ?_, ?_, ?_⟩
  · intro value ending h
    rw [hstatus', houtput', houtput, Performance.ending, Performance.envelope, h]
    exact ⟨rfl, rfl, rfl, rfl, text_eq_dataText h⟩
  · intro failure h
    rw [hstatus', houtput', Performance.ending, Performance.envelope, h]
    exact ⟨rfl, rfl, rfl⟩
  · rintro target failure rfl h
    obtain ⟨edits, happlied, htext⟩ := lines_of_failure h
    rw [hafter', houtput]
    exact ⟨edits, happlied, happlied.openings, htext⟩

/-- A terminal shows progress, and nothing else depends on it. -/
theorem run_terminal (fs : FileSystem) (output : FileSystem.Sink) (terminal terminal' : Bool)
    (args : List Argument) :
    (run fs ⟨output, terminal⟩ args).status = (run fs ⟨output, terminal'⟩ args).status ∧
      (run fs ⟨output, terminal⟩ args).output = (run fs ⟨output, terminal'⟩ args).output ∧
      (run fs ⟨output, terminal⟩ args).after = (run fs ⟨output, terminal'⟩ args).after := by
  unfold run
  split
  · exact ⟨rfl, rfl, rfl⟩
  · exact ⟨rfl, rfl, rfl⟩
  · exact ⟨rfl, rfl, rfl⟩
  · rename_i command _
    obtain ⟨hafter, houtput, hlost, hends⟩ := answerJson_eq ⟨output, terminal⟩ (execute fs command)
    obtain ⟨hafter', houtput', hlost', hends'⟩ :=
      answerJson_eq ⟨output, terminal'⟩ (execute fs command)
    refine ⟨?_, houtput.trans houtput'.symm, hafter.trans hafter'.symm⟩
    by_cases hdata : DataLost output (execute fs command)
    · exact (hlost hdata).trans (hlost' hdata).symm
    · exact (hends hdata).trans (hends' hdata).symm
  · rename_i command _
    by_cases hprints : unprinted? output (execute fs command).text = none
    · obtain ⟨hstatus, houtput, hafter⟩ := @answerText_eq ⟨output, terminal⟩ _ hprints
      obtain ⟨hstatus', houtput', hafter'⟩ := @answerText_eq ⟨output, terminal'⟩ _ hprints
      exact ⟨hstatus.trans hstatus'.symm, houtput.trans houtput'.symm, hafter.trans hafter'.symm⟩
    · obtain ⟨hstatus, hshown, fault, after, hbreaks, hafter⟩ :=
        @answerText_brokenOff ⟨output, terminal⟩ _ hprints
      obtain ⟨hstatus', hshown', fault', after', hbreaks', hafter'⟩ :=
        @answerText_brokenOff ⟨output, terminal'⟩ _ hprints
      cases hbreaks.symm.trans hbreaks'
      exact ⟨hstatus.trans hstatus'.symm, hshown.trans hshown'.symm, hafter.trans hafter'.symm⟩

/-- **Text and data tell of one run.** A command line that asks for text asks for the data of the
same command with the option `--json` in front, and both ways to ask for a command come to the same:
the status, the files, and what the answer says. Whether there is a terminal changes none of it. -/
theorem text_and_data_agree (h : parse args = .ok (.run false command)) (fs : FileSystem) :
    parse (argument "--json" :: args) = .ok (.run true command) ∧
      (∀ dataArgs, parse dataArgs = .ok (.run true command) → ∀ terminal terminal',
        OneRun fs command (run fs ⟨.works, terminal⟩ args)
          (run fs ⟨.works, terminal'⟩ dataArgs)) ∧
      ∀ output terminal terminal' anyArgs,
        (run fs ⟨output, terminal⟩ anyArgs).status = (run fs ⟨output, terminal'⟩ anyArgs).status ∧
          (run fs ⟨output, terminal⟩ anyArgs).output =
            (run fs ⟨output, terminal'⟩ anyArgs).output ∧
          (run fs ⟨output, terminal⟩ anyArgs).after =
            (run fs ⟨output, terminal'⟩ anyArgs).after := by
  refine ⟨parse_json h, ?_, run_terminal fs⟩
  intro dataArgs hdata terminal terminal'
  have htext : run fs ⟨.works, terminal⟩ args =
      answerText ⟨.works, terminal⟩ (execute fs command) := by rw [run, h]
  have hjson : run fs ⟨.works, terminal'⟩ dataArgs =
      answerJson ⟨.works, terminal'⟩ (execute fs command) := by rw [run, hdata]
  rw [htext, hjson]
  exact oneRun fs command terminal terminal'

theorem prepare_twoFiles (bytes : List UInt8) :
    prepare (twoFiles bytes) .standard =
      .ok (.standard, [.ofString "lib/a.dart", .ofString "lib/b.dart"]) := by
  have hfile : (twoFiles bytes).isFile (.ofString "/alphafix.json") = false := by cbv
  exact prepare_standard rfl hfile (walk_twoFiles bytes)

theorem text_and_data_agree_twoFiles :
    parse [] = .ok (.run false .standard) ∧
      (execute (twoFiles [0xff]) .standard).result =
        .error (.refused .notText (.readFile (.ofString "lib/b.dart"))) ∧
      OneRun (twoFiles [0xff]) .standard (run (twoFiles [0xff]) ⟨.works, true⟩ [])
        (run (twoFiles [0xff]) ⟨.works, false⟩ [argument "--json"]) := by
  have hparse : parse [] = .ok (.run false .standard) := rfl
  obtain ⟨hdata, hagree, -⟩ := text_and_data_agree hparse (twoFiles [0xff])
  refine ⟨hparse, ?_, hagree _ hdata true false⟩
  obtain ⟨fs, hread, hpass⟩ := migrateFiles_twoFiles [0xff]
  have htext : fs.readText (.ofString "lib/b.dart") = .error .notText := by
    rw [FileSystem.readText, hread]
    rfl
  have hresult := (execute_migrate false false (prepare_twoFiles [0xff]) rfl).2.1
  rw [Command.standard, hresult, migrate, walk_twoFiles]
  simp only [Bool.or_self, Bool.not_false, hpass, migrateFilesFrom, takeTurn, htext]
  rfl

end OpacityMigration.CommandLine
