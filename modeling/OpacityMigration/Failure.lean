import OpacityMigration.Config.Extension
import OpacityMigration.FileSystem.Path
import OpacityMigration.FileSystem.Fault
import OpacityMigration.Json.Fault
import OpacityMigration.Report

/-!
# Failures of a run

Why a run cannot go on, as a cause with what it is about. `Failure.report` says how a cause is
reported.
-/

namespace OpacityMigration

/-- What the operating system was asked to do. -/
inductive Activity
  | readFile (path : Path)
  | writeFile (path : Path)
  | listDirectory (path : Path)
  | findCurrentDirectory
  | writeOutput
deriving DecidableEq, Repr

def Activity.text : Activity → String
  | .readFile path => "read " ++ path.display
  | .writeFile path => "write " ++ path.display
  | .listDirectory path => "read dir " ++ path.display
  | .findCurrentDirectory => "read current dir"
  | .writeOutput => "write stdout"

inductive Failure
  /-- The operating system refused an activity. -/
  | refused (fault : FileSystem.Fault) (activity : Activity)
  /-- The root of the tree is there and is no directory. -/
  | rootNotDirectory (root : Path)
  /-- A configuration file is none. -/
  | notConfig (path : Path) (error : Json.Error)
  /-- The extensions of the configuration make no sense. -/
  | badExtensions (fault : Extension.Fault)
deriving Repr

namespace Failure

def report : Failure → Report
  | .refused fault activity => .ioError fault.message (some activity.text)
  | .rootNotDirectory root =>
    (Report.invalidArgument "path" ("'" ++ root.display ++ "' is not a directory") none
      none).withHint "Pass --path <DIR> or set \"root\" in alphafix.json"
  | .notConfig path error => .invalidJson path.display error.message
  | .badExtensions (.blank written) =>
    .invalidValue "extensions" (some written) "Extension must not be empty"
  | .badExtensions .none =>
    .invalidValue "extensions" none "At least one file extension is required"

end Failure

end OpacityMigration
