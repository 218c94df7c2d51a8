import OpacityMigration.Json.Printer
import OpacityMigration.Migration.Basic
import OpacityMigration.Migration.Scan

/-!
# Answers

An answer is printed as text, or as a JSON envelope that holds either the data of a run or the
report of its failure.
-/

namespace OpacityMigration

def Edit.toJson (e : Edit) : Json :=
  .object
    [("file", .string e.path.display), ("replacements", .ofNat e.replacements),
      ("written", .bool e.written)]

def Reference.toJson (r : Reference) : Json :=
  .object
    [("column", .ofNat r.place.column), ("context", .string (String.ofList r.place.context)),
      ("file", .string r.path.display), ("line", .ofNat r.place.line),
      ("matched", .string (String.ofList r.matched)),
      ("replacement", .string (String.ofList r.replacement))]

namespace CommandLine

def migrationData (dryRun : Bool) (s : Migration.Summary) : Json :=
  .object
    [("applied", .bool s.applied), ("command", .string "migrate"), ("dry_run", .bool dryRun),
      ("edits", .array (s.edits.map Edit.toJson)), ("files_changed", .ofNat s.filesChanged),
      ("files_scanned", .ofNat s.filesScanned), ("root", .string s.root.display),
      ("total_replacements", .ofNat s.totalReplacements)]

def scanData (root : Path) (references : List Reference) : Json :=
  .object
    [("command", .string "scan"), ("references", .array (references.map Reference.toJson)),
      ("root", .string root.display), ("total_files", .ofNat (Scan.countFiles references)),
      ("total_references", .ofNat references.length)]

def dataEnvelope (data : Json) : Json :=
  .object [("success", .bool true), ("data", data)]

def hintJson (hint : String) : Json :=
  .object [("message", .string hint)]

def reportEnvelope (r : Report) : Json :=
  let hints := if r.hints.isEmpty then none else some (Json.array (r.hints.map hintJson))
  .object
    [("success", .bool false),
      ("error", .object <|
        [("code", .string r.code.text), ("message", .string r.message), ("details", r.details)] ++
          Json.optionalMember "hints" hints)]

/-- A JSON value as a text that ends with a line feed. -/
def printed (value : Json) : String :=
  String.ofList (value.pretty ++ ['\n'])

/-- The line that says what became of a file. -/
def editLine (e : Edit) : String :=
  (if e.written then "updated " else "would update ") ++ e.path.display ++ "\n"

/-- The line that says where a call stands and what it would become. -/
def referenceLine (r : Reference) : String :=
  r.path.display ++ ":" ++ toString r.place.line ++ ":" ++ toString r.place.column ++ ": " ++
    String.ofList r.matched ++ " -> " ++ String.ofList r.replacement ++ "\n"

/-- A further line of a report, if there is something to write there. -/
def reportLine (start : String) (value : Option String) : String :=
  match value with
  | none => ""
  | some text => "\n  " ++ start ++ text

def reportText (r : Report) : String :=
  "error: " ++ r.message ++ " (" ++ r.code.text ++ ")" ++
    reportLine "" (r.detail? "problem") ++ reportLine "" (r.detail? "error") ++
    reportLine "while: " r.context? ++
    String.join (r.hints.map fun hint => reportLine "hint: " (some hint)) ++ "\n"

end CommandLine

end OpacityMigration
