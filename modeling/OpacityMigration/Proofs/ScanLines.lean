import OpacityMigration.Proofs.Answers
import OpacityMigration.Proofs.ReferencePlaces
import OpacityMigration.Proofs.Utf8

/-!
# The lines of a scan

A scan prints an entry for each reference and ends each with a line feed. Whoever reads what it
prints line by line gets the entries back if no entry holds a line feed of its own, and only then:
a text has one line more than line feeds. The path of an entry holds one only if the bytes of the
path do, its numbers never do, and its two calls have one argument.

* `lines_ended_iff`: when entries that are ended by line feeds are lines.
* `feed_mem_entry_iff`: when an entry holds a line feed.
* `callsOnLines_iff`: when no entry of a scan does.
* `execute_scan_eq_ok`: what a scan prints.
* `scan_lines_iff` puts these together.
-/

namespace OpacityMigration

namespace Text

variable {entries : List (List Char)}

/-! ## Entries and lines -/

/-- Entries, each ended by a line feed. -/
def ended (entries : List (List Char)) : List Char :=
  entries.flatMap (· ++ ['\n'])

@[simp] theorem ended_cons (entry : List Char) (entries : List (List Char)) :
    ended (entry :: entries) = entry ++ '\n' :: ended entries := by
  simp [ended]

/-- A line feed for each entry, and those that the entries hold. -/
theorem count_ended (entries : List (List Char)) :
    (ended entries).count '\n' = (entries.map (List.count '\n')).sum + entries.length := by
  induction entries with
  | nil => rfl
  | cons entry entries ih =>
    rw [ended_cons, List.count_append, List.count_cons_self, ih, List.map_cons, List.sum_cons,
      List.length_cons]
    omega

theorem lines_ended_iff :
    lines (ended entries) = entries ++ [[]] ↔ ∀ entry ∈ entries, '\n' ∉ entry := by
  constructor
  · intro h
    have hlength := congrArg List.length h
    rw [length_lines, count_ended, List.length_append, List.length_singleton] at hlength
    have hnone : (entries.map (List.count '\n')).sum = 0 := by omega
    intro entry hentry
    rw [← List.count_eq_zero]
    exact List.sum_eq_zero_iff.mp hnone _ (List.mem_map_of_mem hentry)
  · intro h
    induction entries with
    | nil => rfl
    | cons entry entries ih =>
      obtain ⟨hfirst, hmore⟩ := List.forall_mem_cons.mp h
      rw [ended_cons, lines_line hfirst, ih hmore, List.cons_append]

end Text

namespace CommandLine

open Text Scan

variable {fs : FileSystem} {target : Target} {config : Config} {paths : List Path} {path : Path}
  {text : List Char} {r : Reference} {found : List Reference} {o : Call.Occurrence}

/-! ## Entries -/

/-- What a scan prints of a reference before the line feed. -/
def entry (r : Reference) : List Char :=
  r.path.display.toList ++ ':' :: (toString r.place.line).toList ++
    ':' :: (toString r.place.column).toList ++ [':', ' '] ++ r.matched ++ [' ', '-', '>', ' '] ++
    r.replacement

theorem toList_referenceLine (r : Reference) : (referenceLine r).toList = entry r ++ ['\n'] := by
  simp [referenceLine, entry]

theorem toList_join_referenceLine (found : List Reference) :
    (String.join (found.map referenceLine)).toList = ended (found.map entry) := by
  induction found with
  | nil => rfl
  | cons r found ih =>
    rw [List.map_cons, String.join_cons, String.toList_append, toList_referenceLine, ih,
      List.map_cons, ended_cons, List.append_assoc, List.singleton_append]

theorem feed_not_mem_toDigits (n : Nat) : '\n' ∉ Nat.toDigits 10 n := by
  intro h
  have hdigit : Char.isDigit '\n' = true := Nat.isDigit_of_mem_toDigits (by decide) (by decide) h
  exact absurd hdigit (by decide)

/-- A call and its modern form hold the same line feeds. -/
theorem feed_mem_replacement_iff (h : r ∈ references path text) :
    '\n' ∈ r.replacement ↔ '\n' ∈ r.matched := by
  obtain ⟨o, ho, rfl⟩ := List.mem_map.mp h
  obtain ⟨-, argument, -, -, -, -, -, -, hmatched, hreplacement⟩ := Call.isCallOf_of_mem_find ho
  have hmodern : '\n' ∉ Call.modernOpening := by decide
  simp only [hmatched, hreplacement, List.mem_append, feed_not_mem_opening, hmodern]

theorem feed_mem_entry_iff (h : r ∈ references path text) :
    '\n' ∈ entry r ↔ '\n' ∈ path.display.toList ∨ '\n' ∈ r.matched := by
  obtain rfl := path_of_mem_references h
  simp [entry, feed_not_mem_toDigits, feed_mem_replacement_iff h]

/-- Where the path of a file holds no line feed, the entries of its references hold those of their
calls. -/
theorem feed_mem_entry_iff_of_path (h : r ∈ references path text) (hpath : 0x0A ∉ path.bytes) :
    '\n' ∈ entry r ↔ '\n' ∈ r.matched := by
  have hdisplay : '\n' ∉ path.display.toList := by
    rw [Path.display, Utf8.lossyString, String.toList_ofList]
    exact fun hfeed => hpath (Utf8.feed_of_mem_lossy hfeed)
  rw [feed_mem_entry_iff h, or_iff_right hdisplay]

/-! ## What is printed -/

theorem execute_scan_eq_error {failure : Failure} (hconfig : configure fs target = .ok config)
    (hfound : scan fs config = .error failure) :
    (execute fs (.scan target)).result = .error failure ∧
      (execute fs (.scan target)).text = "" := by
  rw [execute, Command.target, hconfig]
  dsimp only
  rw [hfound]
  exact ⟨rfl, rfl⟩

theorem execute_scan_eq_ok (hconfig : configure fs target = .ok config)
    (hfound : scan fs config = .ok found) :
    (execute fs (.scan target)).result = .ok (scanData config.root found, 0) ∧
      (execute fs (.scan target)).text.toList = ended (found.map entry) := by
  rw [← toList_join_referenceLine, execute, Command.target, hconfig]
  dsimp only
  rw [hfound]
  exact ⟨rfl, rfl⟩

theorem output_eq_text {args : List Argument} {command : Command} {terminal : Bool}
    (h : parse args = .ok (.run false command)) :
    (run fs ⟨.works, terminal⟩ args).output = (execute fs command).text := by
  rw [run, h]
  exact (answerText_eq rfl).2.1

/-- No call that is found in a walked file holds a line feed. -/
def CallsOnLines (fs : FileSystem) (paths : List Path) : Prop :=
  ∀ path ∈ paths, ∀ text, fs.readText path = .ok text → ∀ o ∈ Call.find text, '\n' ∉ o.matched

/-- No entry holds a line feed exactly if no call does, where no path does. -/
theorem callsOnLines_iff (hwalk : Walk.walk fs config = .ok paths)
    (hfound : scan fs config = .ok found) (hpaths : ∀ path ∈ paths, 0x0A ∉ path.bytes) :
    CallsOnLines fs paths ↔ ∀ r ∈ found, '\n' ∉ entry r := by
  constructor
  · intro h r hr
    obtain ⟨path, hpath, text, hread, hmem⟩ := (mem_scan hwalk hfound).mp hr
    rw [feed_mem_entry_iff_of_path hmem (hpaths path hpath)]
    obtain ⟨o, ho, rfl⟩ := List.mem_map.mp hmem
    exact h path hpath text hread o ho
  · intro h path hpath text hread o ho
    have hmem := List.mem_map_of_mem (f := fun o => Reference.mk path (locate text o.start)
      o.matched o.replacement) ho
    have hentry := h _ ((mem_scan hwalk hfound).mpr ⟨path, hpath, text, hread, hmem⟩)
    rwa [feed_mem_entry_iff_of_path hmem (hpaths path hpath)] at hentry

/-- What a scan prints when it finds references along paths, and how that reads line by line. -/
structure PrintsEntries (fs : FileSystem) (target : Target) (paths : List Path)
    (found : List Reference) : Prop where
  total : ∃ data, (execute fs (.scan target)).result = .ok (data, 0) ∧
    data.get? "total_references" = some (.ofNat found.length)
  text : (execute fs (.scan target)).text.toList = ended (found.map entry)
  output : ∀ args terminal, parse args = .ok (.run false (.scan target)) →
    (run fs ⟨.works, terminal⟩ args).output = (execute fs (.scan target)).text
  feeds : (execute fs (.scan target)).text.toList.count '\n' =
    ((found.map entry).map (List.count '\n')).sum + found.length
  /-- The lines are the entries, and nothing after the last line feed. -/
  lines_iff : lines (execute fs (.scan target)).text.toList = found.map entry ++ [[]] ↔
    ∀ r ∈ found, '\n' ∉ entry r
  calls_iff : (∀ path ∈ paths, 0x0A ∉ path.bytes) →
    (lines (execute fs (.scan target)).text.toList = found.map entry ++ [[]] ↔
      CallsOnLines fs paths)

theorem printsEntries (hconfig : configure fs target = .ok config)
    (hwalk : Walk.walk fs config = .ok paths) (hfound : scan fs config = .ok found) :
    PrintsEntries fs target paths found := by
  obtain ⟨hresult, htext⟩ := execute_scan_eq_ok hconfig hfound
  have hlines : lines (execute fs (.scan target)).text.toList = found.map entry ++ [[]] ↔
      ∀ r ∈ found, '\n' ∉ entry r := by
    rw [htext, lines_ended_iff, List.forall_mem_map]
  constructor
  · exact ⟨_, hresult, rfl⟩
  · exact htext
  · intro args terminal h
    exact output_eq_text h
  · rw [htext, count_ended, List.length_map]
  · exact hlines
  · intro hpaths
    rw [hlines, callsOnLines_iff hwalk hfound hpaths]

/-- **The lines of a scan.** A scan fails and prints nothing, or it prints an entry for each
reference, each ended by a line feed. Read line by line these are the entries and nothing else
exactly if no entry holds a line feed; where no walked path holds one, exactly if no call that is
found in a walked file does. -/
theorem scan_lines_iff (fs : FileSystem) (target : Target) :
    (∃ failure, (execute fs (.scan target)).result = .error failure ∧
      (execute fs (.scan target)).text = "") ∨
    ∃ config paths found, configure fs target = .ok config ∧ Walk.walk fs config = .ok paths ∧
      scan fs config = .ok found ∧ PrintsEntries fs target paths found := by
  cases h : prepare fs target with
  | error failure =>
    obtain ⟨htext, hresult, -⟩ := execute_of_prepare_error (.scan target) h
    exact Or.inl ⟨failure, hresult, htext⟩
  | ok prepared =>
    obtain ⟨config, paths⟩ := prepared
    obtain ⟨hconfig, hwalk⟩ := prepare_eq_ok.mp h
    cases hfound : scan fs config with
    | error failure => exact Or.inl ⟨failure, execute_scan_eq_error hconfig hfound⟩
    | ok found =>
      exact Or.inr ⟨config, paths, found, hconfig, hwalk, hfound,
        printsEntries hconfig hwalk hfound⟩

theorem configure_oneSource (text : List Char) :
    configure (oneSource text) .standard = .ok .standard := by
  have hfile : (oneSource text).isFile (.ofString "/alphafix.json") = false := by cbv
  exact (prepare_eq_ok.mp (prepare_standard rfl hfile (walk_oneSource text))).1

/-- A call that breaks off at the end of its line breaks its entry, so that two references are
printed on four lines. -/
theorem scan_lines_twoCalls :
    (Walk.walk (oneSource twoCalls) .standard = .ok [.ofString "lib/a.dart"] ∧
      scan (oneSource twoCalls) .standard = .ok twoReferences ∧ twoReferences.length = 2 ∧
      lines (run (oneSource twoCalls) ⟨.works, false⟩ [argument "scan"]).output.toList =
        ["lib/a.dart:1:3: .withOpacity(1\r".toList, "2) -> .withValues(alpha: 1\r".toList,
          "2)".toList, "lib/a.dart:2:3: .withOpacity(3) -> .withValues(alpha: 3)".toList, []]) ∧
    ¬ ∀ fs target config paths found, configure fs target = .ok config →
      Walk.walk fs config = .ok paths → scan fs config = .ok found →
      (∀ path ∈ paths, 0x0A ∉ path.bytes) →
      lines (execute fs (.scan target)).text.toList = found.map entry ++ [[]] := by
  have htext := (execute_scan_eq_ok (configure_oneSource twoCalls) scan_twoCalls).2
  refine ⟨⟨walk_oneSource twoCalls, scan_twoCalls, rfl, ?_⟩, fun hall => ?_⟩
  · have hparse : parse [argument "scan"] = .ok (.run false (.scan .standard)) := rfl
    rw [output_eq_text hparse, htext]
    decide +kernel
  · have hlines := hall _ _ _ _ _ (configure_oneSource twoCalls) (walk_oneSource twoCalls)
      scan_twoCalls (by decide)
    rw [htext, lines_ended_iff] at hlines
    exact absurd hlines (by decide)

end CommandLine

end OpacityMigration
