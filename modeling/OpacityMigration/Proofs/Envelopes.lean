import OpacityMigration.Proofs.JsonRoundTrip
import OpacityMigration.Proofs.Loads
import OpacityMigration.Proofs.ScanLines

/-!
# Envelopes are read back

A run that answers with data prints one document and a line feed. Whatever names, texts and
messages it holds, reading it gives the envelope that was printed, and the envelope says all about
the run: its data if it succeeds, else the report of its failure, whose code goes with the status of
the run.

Only a count can stand in the way, as the reader takes integers of 64 bits. A report holds none, and
those of data are bounded by the load of the paths that the command goes through.

* `Succeeds`, `Envelope`: what a command comes to, and the envelope that says so.
* `Counts`: the numbers of a value are counts; `Counts.parse_iff`: when such a value is read back.
* `json_answer_reads_back` puts these together.
-/

namespace OpacityMigration

open Migration

/-! ## Values that hold counts -/

namespace Json

/-- The numbers in a value are these counts, and the value is nested no deeper than so. -/
structure Counts (limit : Nat) (v : Json) (counts : List Nat) : Prop where
  depth_le : v.depth ≤ limit
  numbers : v.numbers = counts.map fun n => .integer n

variable {limit : Nat} {v : Json} {counts : List Nat}

theorem isWord_natCast {n : Nat} : (Number.integer n).IsWord ↔ n < significandBound := by
  simp only [Number.IsWord]
  omega

theorem Counts.isWord_iff (h : Counts limit v counts) :
    (∀ n ∈ v.numbers, n.IsWord) ↔ ∀ n ∈ counts, n < significandBound := by
  rw [h.numbers, List.forall_mem_map]
  exact forall₂_congr fun n _ => isWord_natCast

/-- Such a value is read back from a text of its lexemes exactly if its counts have 64 bits. -/
theorem Counts.parse_iff (h : Counts limit v counts) (hlimit : limit ≤ maxDepth)
    {text : List Char} (htext : Spaced v.lexemes text) :
    parse text = .ok v ↔ ∀ n ∈ v.numbers, n.IsWord := by
  have hreals : v.NoReals := by
    intro n hn
    rw [h.numbers] at hn
    obtain ⟨m, -, rfl⟩ := List.mem_map.mp hn
    exact ⟨m, rfl⟩
  rw [parse_spaced_iff hreals htext]
  exact ⟨Fits.numbers, fun hall => ⟨by have := h.depth_le; omega, hall⟩⟩

/-- A document may be followed by a line feed. -/
theorem Spaced.endLine {lexemes : List (List Char)} {text : List Char} (h : Spaced lexemes text) :
    Spaced lexemes (text ++ ['\n']) := by
  induction h with
  | done hspace =>
    refine .done fun c hc => ?_
    rcases List.mem_append.mp hc with hc | hc
    · exact hspace c hc
    · rw [List.mem_singleton.mp hc]
      rfl
  | lexeme hspace _ ih =>
    rw [List.append_assoc, List.append_assoc]
    exact .lexeme hspace ih

end Json

namespace CommandLine

open Scan (oneSource twoCalls twoReferences walk_oneSource readText_oneSource scan_twoCalls)

variable {fs : FileSystem} {command : Command} {config : Config} {paths : List Path}

/-! ## What a command comes to -/

/-- A command succeeds with these data, and ends with this status. -/
inductive Succeeds (fs : FileSystem) : Command → Json → Nat → Prop
  | migrate {target : Target} {dryRun check : Bool} {config : Config} {summary : Summary}
      (hconfig : configure fs target = .ok config)
      (hresult : (Migration.migrate fs config !(dryRun || check)).result = .ok summary) :
      Succeeds fs (.migrate target dryRun check) (migrationData (dryRun || check) summary)
        (if check && summary.filesChanged > 0 then 1 else 0)
  | scan {target : Target} {config : Config} {references : List Reference}
      (hconfig : configure fs target = .ok config)
      (hresult : Scan.scan fs config = .ok references) :
      Succeeds fs (.scan target) (scanData config.root references) 0

theorem succeeds_iff {data : Json} {ending : Nat} :
    Succeeds fs command data ending ↔ (execute fs command).result = .ok (data, ending) := by
  constructor
  · intro h
    cases h with
    | migrate hconfig hresult =>
      rw [execute, Command.target, hconfig]
      dsimp only
      rw [hresult]
      rfl
    | scan hconfig hresult =>
      rw [execute, Command.target, hconfig]
      dsimp only
      rw [hresult]
  · intro h
    rw [execute] at h
    split at h
    · cases h
    · rename_i config hconfig
      cases command with
      | migrate target dryRun check =>
        dsimp only at h
        cases hresult : (Migration.migrate fs config !(dryRun || check)).result with
        | error failure =>
          rw [hresult] at h
          cases h
        | ok summary =>
          rw [hresult] at h
          cases h
          exact .migrate hconfig hresult
      | scan target =>
        dsimp only at h
        cases hresult : Scan.scan fs config with
        | error failure =>
          rw [hresult] at h
          cases h
        | ok references =>
          rw [hresult] at h
          cases h
          exact .scan hconfig hresult

/-- The members of an error. There are hints exactly if the report has some, in its order. -/
def errorMembers (r : Report) : List (String × Json) :=
  [("code", .string r.code.text), ("message", .string r.message), ("details", r.details)] ++
    if r.hints = [] then [] else [("hints", .array (r.hints.map hintJson))]

/-- The envelope of a command, and the status that goes with it. The status of a failure follows
from the code as it is written. -/
inductive Envelope (fs : FileSystem) (command : Command) : Json → Nat → Prop
  | success {data : Json} {ending : Nat} (h : Succeeds fs command data ending) :
      Envelope fs command (.object [("success", .bool true), ("data", data)]) ending
  | failure {failure : Failure} {code : Report.Code}
      (h : (execute fs command).result = .error failure)
      (hcode : Report.Code.ofText? failure.report.code.text = some code) :
      Envelope fs command
        (.object [("success", .bool false), ("error", .object (errorMembers failure.report))])
        (status code)

theorem reportEnvelope_eq (r : Report) :
    reportEnvelope r =
      .object [("success", .bool false), ("error", .object (errorMembers r))] := by
  cases hhints : r.hints with
  | nil => simp [reportEnvelope, errorMembers, hhints, Json.optionalMember]
  | cons hint hints => simp [reportEnvelope, errorMembers, hhints, Json.optionalMember]

theorem ofText?_text (code : Report.Code) : Report.Code.ofText? code.text = some code := by
  cases code <;> decide

theorem envelope_execute (fs : FileSystem) (command : Command) :
    Envelope fs command (execute fs command).envelope (execute fs command).ending := by
  rw [Performance.envelope, Performance.ending]
  cases hresult : (execute fs command).result with
  | ok result =>
    obtain ⟨data, ending⟩ := result
    exact .success (succeeds_iff.mpr hresult)
  | error failure =>
    dsimp only
    rw [reportEnvelope_eq]
    exact .failure hresult (ofText?_text _)

/-! ## The counts in an envelope -/

theorem counts_migrationData (dryRun : Bool) (s : Summary) :
    (migrationData dryRun s).Counts 3
      (s.edits.map Edit.replacements ++ [s.filesChanged, s.filesScanned, s.totalReplacements]) := by
  have hedits : Json.depthOfItems (s.edits.map Edit.toJson) ≤ 1 := by
    rw [Json.depthOfItems_le, List.forall_mem_map]
    exact fun e _ => Nat.le_refl 1
  constructor
  · simp only [migrationData, Json.depth, Json.depthOfMembers, Json.ofNat]
    omega
  · simp [migrationData, Json.numbers, Json.numbersOfMembers, Json.numbersOfItems_eq,
      List.flatMap_map, Edit.toJson, Json.ofNat]
    exact List.map_eq_flatMap.symm

theorem counts_scanData (root : Path) (references : List Reference) :
    (scanData root references).Counts 3
      ((references.flatMap fun r => [r.place.column, r.place.line]) ++
        [Scan.countFiles references, references.length]) := by
  have hreferences : Json.depthOfItems (references.map Reference.toJson) ≤ 1 := by
    rw [Json.depthOfItems_le, List.forall_mem_map]
    exact fun r _ => Nat.le_refl 1
  constructor
  · simp only [scanData, Json.depth, Json.depthOfMembers, Json.ofNat]
    omega
  · simp [scanData, Json.numbers, Json.numbersOfMembers, Json.numbersOfItems_eq,
      List.flatMap_map, List.map_flatMap, Reference.toJson, Json.ofNat]

/-- The data of a command hold counts, and the load of its paths bounds them. -/
theorem Succeeds.counts {data : Json} {ending : Nat} (h : Succeeds fs command data ending) :
    ∃ counts config paths, data.Counts 3 counts ∧ prepare fs command.target = .ok (config, paths) ∧
      ∀ n ∈ counts, n ≤ load fs paths := by
  cases h with
  | @migrate target dryRun check config summary hconfig hresult =>
    obtain ⟨paths, hwalk⟩ : ∃ paths, Walk.walk fs config = .ok paths := by
      cases hwalk : Walk.walk fs config with
      | error failure =>
        rw [Migration.migrate, hwalk] at hresult
        cases hresult
      | ok paths => exact ⟨paths, rfl⟩
    obtain ⟨hscanned, hchanged, htotal, hedits⟩ := counts_of_migrate hwalk hresult
    refine ⟨_, config, paths, counts_migrationData _ summary,
      prepare_eq_ok.mpr ⟨hconfig, hwalk⟩, ?_⟩
    rw [List.forall_mem_append, List.forall_mem_map]
    exact ⟨hedits, by simp [hscanned, hchanged, htotal]⟩
  | @scan target config references hconfig hresult =>
    obtain ⟨paths, -, hwalk, -⟩ := Scan.scan_eq_ok hresult
    obtain ⟨hlength, hfiles, hplaces⟩ := counts_of_scan hwalk hresult
    refine ⟨_, config, paths, counts_scanData _ references,
      prepare_eq_ok.mpr ⟨hconfig, hwalk⟩, ?_⟩
    rw [List.forall_mem_append, List.forall_mem_flatMap]
    refine ⟨fun r hr => ?_, by simp [hlength, hfiles]⟩
    obtain ⟨hline, hcolumn⟩ := hplaces r hr
    simp [hline, hcolumn]

/-- The report of a failure holds no number. Hints are what is nested deepest in it. -/
theorem counts_report (f : Failure) : (Json.object (errorMembers f.report)).Counts 3 [] := by
  have two : 2 ≤ 3 := by decide
  cases f with
  | refused fault activity => exact ⟨two, rfl⟩
  | rootNotDirectory root => exact ⟨Nat.le_refl 3, rfl⟩
  | notConfig path error => exact ⟨two, rfl⟩
  | badExtensions fault =>
    cases fault with
    | blank written => exact ⟨two, rfl⟩
    | none => exact ⟨two, rfl⟩

/-- A value under an envelope's second key. -/
theorem counts_envelope (success : Bool) (key : String) {v : Json} {counts : List Nat}
    (h : v.Counts 3 counts) :
    (Json.object [("success", .bool success), (key, v)]).Counts 4 counts := by
  constructor
  · have := h.depth_le
    simp only [Json.depth, Json.depthOfMembers]
    omega
  · simpa [Json.numbers, Json.numbersOfMembers] using h.numbers

/-- The counts in an envelope are those of the data; the envelope of a failure has none. -/
theorem Envelope.counts {value : Json} {ending : Nat} (h : Envelope fs command value ending) :
    ∃ counts, value.Counts 4 counts ∧
      (∀ failure, (execute fs command).result = .error failure → counts = []) ∧
      ∀ config paths, prepare fs command.target = .ok (config, paths) →
        ∀ n ∈ counts, n ≤ load fs paths := by
  cases h with
  | success hsucceeds =>
    obtain ⟨counts, config, paths, hcounts, hprepare, hle⟩ := hsucceeds.counts
    refine ⟨counts, counts_envelope true "data" hcounts, ?_, ?_⟩
    · intro failure hresult
      rw [succeeds_iff.mp hsucceeds] at hresult
      cases hresult
    · intro config' paths' hprepare'
      rw [hprepare] at hprepare'
      cases hprepare'
      exact hle
  | @failure f code =>
    exact ⟨[], counts_envelope false "error" (counts_report f), fun _ _ => rfl,
      fun _ _ _ => List.forall_mem_nil _⟩

/-! ## Answers -/

theorem run_json {args : List Argument} (terminal : Bool)
    (h : parse args = .ok (.run true command)) :
    (run fs ⟨.works, terminal⟩ args).output.toList =
        (execute fs command).envelope.pretty ++ ['\n'] ∧
      (run fs ⟨.works, terminal⟩ args).status = (execute fs command).ending := by
  have hrun : run fs ⟨.works, terminal⟩ args =
      answerJson ⟨.works, terminal⟩ (execute fs command) := by rw [run, h]
  obtain ⟨-, houtput, -, hstatus⟩ := answerJson_eq ⟨.works, terminal⟩ (execute fs command)
  rw [hrun, houtput, hstatus (not_dataLost_works _)]
  exact ⟨String.toList_ofList, rfl⟩

/-- An answer that can be read back, as far as numbers can. -/
structure ReadsBack (fs : FileSystem) (command : Command) (answer : Answer) (value : Json) :
    Prop where
  /-- The output is one document and a line feed. -/
  output : answer.output.toList = value.pretty ++ ['\n']
  /-- The value that was printed says what the command came to, as the status does. -/
  envelope : Envelope fs command value answer.status
  /-- Reading gives that value exactly if its numbers have 64 bits. -/
  parse_iff : ∀ text ∈ [value.pretty, answer.output.toList],
    Json.parse text = .ok value ↔ ∀ n ∈ value.numbers, n.IsWord
  /-- So a failure is always read back. -/
  failure : ∀ failure, (execute fs command).result = .error failure →
    ∀ text ∈ [value.pretty, answer.output.toList], Json.parse text = .ok value
  /-- And so are data if the sizes of the files can be added up in 64 bits. -/
  data : ∀ config paths, prepare fs command.target = .ok (config, paths) →
    load fs paths < Json.significandBound →
    ∀ text ∈ [value.pretty, answer.output.toList], Json.parse text = .ok value

/-- **What is printed as data is read back.** -/
theorem json_answer_reads_back (fs : FileSystem) (terminal : Bool) {args : List Argument}
    {command : Command} (h : parse args = .ok (.run true command)) :
    ∃ value, ReadsBack fs command (run fs ⟨.works, terminal⟩ args) value := by
  obtain ⟨houtput, hstatus⟩ := @run_json fs command args terminal h
  have henvelope := envelope_execute fs command
  rw [← hstatus] at henvelope
  obtain ⟨counts, hcounts, hfailure, hload⟩ := henvelope.counts
  have hiff : ∀ text ∈ [(execute fs command).envelope.pretty,
      (run fs ⟨.works, terminal⟩ args).output.toList],
      Json.parse text = .ok (execute fs command).envelope ↔
        ∀ n ∈ (execute fs command).envelope.numbers, n.IsWord := by
    have hspaced := Json.spaced_pretty (execute fs command).envelope
    intro text htext
    rcases List.mem_pair.mp htext with rfl | rfl
    · exact hcounts.parse_iff (by decide) hspaced
    · rw [houtput]
      exact hcounts.parse_iff (by decide) hspaced.endLine
  refine ⟨(execute fs command).envelope, houtput, henvelope, hiff, ?_, ?_⟩
  · intro failure hresult text htext
    rw [hiff text htext, hcounts.isWord_iff, hfailure failure hresult]
    exact List.forall_mem_nil _
  · intro config paths hprepare hlt text htext
    rw [hiff text htext, hcounts.isWord_iff]
    exact fun n hn => Nat.lt_of_le_of_lt (hload config paths hprepare n hn) hlt

theorem load_oneSource (text : List Char) :
    load (oneSource text) [.ofString "lib/a.dart"] = Utf8.size text + 1 := by
  rw [load_cons, fileSize_of_readText (readText_oneSource text)]
  rfl

/-- A scan of two calls, one of which breaks off at the end of a line. -/
theorem json_answer_reads_back_twoCalls :
    parse [argument "--json", argument "scan"] = .ok (.run true (.scan .standard)) ∧
      Json.parse (run (oneSource twoCalls) ⟨.works, false⟩
          [argument "--json", argument "scan"]).output.toList =
        .ok (.object
          [("success", .bool true), ("data", scanData (.ofString "lib") twoReferences)]) := by
  have hparse : parse [argument "--json", argument "scan"] =
      .ok (.run true (.scan .standard)) := rfl
  obtain ⟨value, hback⟩ := json_answer_reads_back (oneSource twoCalls) false hparse
  have hprepare : prepare (oneSource twoCalls) .standard =
      .ok (.standard, [.ofString "lib/a.dart"]) :=
    prepare_eq_ok.mpr ⟨configure_oneSource twoCalls, walk_oneSource twoCalls⟩
  have hload : load (oneSource twoCalls) [.ofString "lib/a.dart"] < Json.significandBound := by
    rw [load_oneSource]
    decide
  have hvalue : value = .object
      [("success", .bool true), ("data", scanData (.ofString "lib") twoReferences)] := by
    have hresult := succeeds_iff.mp (.scan (configure_oneSource twoCalls) scan_twoCalls)
    have henvelope := hback.envelope
    generalize (run (oneSource twoCalls) _ _).status = ending at henvelope
    cases henvelope with
    | success h =>
      cases (succeeds_iff.mp h).symm.trans hresult
      rfl
    | failure h => cases h.symm.trans hresult
  refine ⟨hparse, ?_⟩
  rw [hback.data _ _ hprepare hload _ (by simp), hvalue]

end CommandLine

end OpacityMigration
