import OpacityMigration.Json.Basic

/-!
# Reports of failures

A report is what a user is told about a failure: a code, a message, details as a JSON object whose
members depend on the code, and hints. Members without a value are left out. The members are
written in the order of their names.
-/

namespace OpacityMigration

inductive Report.Code
  | invalidJson
  | invalidValue
  | invalidArgument
  | ioError
  | jsonError
  | unexpected
deriving DecidableEq, Repr

def Report.Code.text : Report.Code → String
  | .invalidJson => "config.invalid_json"
  | .invalidValue => "config.invalid_value"
  | .invalidArgument => "validation.invalid_argument"
  | .ioError => "internal.io_error"
  | .jsonError => "internal.json_error"
  | .unexpected => "internal.unexpected"

structure Report where
  code : Report.Code
  message : String
  details : Json
  /-- What the user may do, in the order in which the hints were added. -/
  hints : List String
deriving Repr

namespace Report

def Code.ofText? (text : String) : Option Code :=
  [Code.invalidJson, .invalidValue, .invalidArgument, .ioError, .jsonError, .unexpected].find?
    (·.text = text)

/-- A configuration file is not what it should be. -/
def invalidJson (path error : String) : Report where
  code := .invalidJson
  message := "Invalid JSON in configuration"
  details := .object [("error", .string error), ("path", .string path)]
  hints := []

/-- A value of the configuration does not make sense. -/
def invalidValue (key : String) (value : Option String) (problem : String) : Report where
  code := .invalidValue
  message := "Invalid configuration value"
  details := .object <|
    [("key", .string key), ("problem", .string problem)] ++
      Json.optionalMember "value" (value.map Json.string)
  hints := []

/-- An argument does not make sense. -/
def invalidArgument (field problem : String) (id : Option String)
    (tried : Option (List String)) : Report where
  code := .invalidArgument
  message := "Invalid argument"
  details := .object <|
    ("field", .string field) :: Json.optionalMember "id" (id.map Json.string) ++
      ("problem", .string problem) ::
      Json.optionalMember "tried" (tried.map fun ts => .array (ts.map Json.string))
  hints := []

/-- The members of a report about an error and what it interrupted. -/
def interrupted (error : String) (context : Option String) : Json :=
  .object (Json.optionalMember "context" (context.map Json.string) ++ [("error", .string error)])

/-- Reading or writing failed. -/
def ioError (error : String) (context : Option String) : Report where
  code := .ioError
  message := "IO error"
  details := interrupted error context
  hints := []

def jsonError (error : String) (context : Option String) : Report where
  code := .jsonError
  message := "JSON error"
  details := interrupted error context
  hints := []

/-- Something failed that should not. -/
def unexpected (error : String) : Report where
  code := .unexpected
  message := "Unexpected error"
  details := .object [("error", .string error)]
  hints := []

def withHint (r : Report) (hint : String) : Report :=
  { r with hints := r.hints ++ [hint] }

def detail? (r : Report) (key : String) : Option String :=
  (r.details.get? key).bind Json.string?

/-- What the failure interrupted, if the details say so. -/
def context? (r : Report) : Option String :=
  r.detail? "context"

end Report

end OpacityMigration
