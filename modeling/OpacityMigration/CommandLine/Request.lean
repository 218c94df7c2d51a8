import OpacityMigration.Config.Resolve
import OpacityMigration.Text.Terminal

/-!
# What a command line asks for

A command line asks for help, for the version, or for a run of a command; or it is not understood.
-/

namespace OpacityMigration.CommandLine

inductive Topic
  | program
  | migrate
  | scan
  | help
deriving DecidableEq, Repr

/-- The options that say which tree to work on. -/
structure Target where
  path : Option Path
  extensions : List String
  config : Option Path
deriving DecidableEq, Repr

/-- The target of a command without options. -/
def Target.standard : Target := ⟨none, [], none⟩

/-- The values that go before those of the configuration file. -/
def Target.overrides (target : Target) : Config.Overrides :=
  ⟨target.path, target.extensions⟩

inductive Command
  | migrate (target : Target) (dryRun check : Bool)
  | scan (target : Target)
deriving DecidableEq, Repr

def Command.target : Command → Target
  | .migrate target _ _ => target
  | .scan target => target

/-- The command of a command line without one. -/
def Command.standard : Command := .migrate .standard false false

inductive Request
  | help (topic : Topic)
  | version
  | run (json : Bool) (command : Command)
deriving DecidableEq, Repr

inductive Flag
  | json
  | dryRun
  | check
deriving DecidableEq, Repr

inductive Setting
  | path
  | extension
  | config
deriving DecidableEq, Repr

def Flag.shown : Flag → String
  | .json => "--json"
  | .dryRun => "--dry-run"
  | .check => "--check"

def Setting.shown : Setting → String
  | .path => "--path <DIR>"
  | .extension => "--extension <EXT>"
  | .config => "--config <FILE>"

inductive Misuse
  | unknownCommand (shown : String)
  | unexpected (shown : String)
  | valueMissing (setting : Setting)
  | repeated (shown : String)
  | valueUnneeded (value shown : String)
  | notText
deriving DecidableEq, Repr

/-- The wording of a misuse. What was given is shown without commands for the terminal. -/
def Misuse.text : Misuse → String
  | .unknownCommand shown => "error: unrecognized subcommand '" ++ Text.plain shown ++ "'"
  | .unexpected shown => "error: unexpected argument '" ++ Text.plain shown ++ "' found"
  | .valueMissing setting =>
    "error: a value is required for '" ++ setting.shown ++ "' but none was supplied"
  | .repeated shown => "error: the argument '" ++ shown ++ "' cannot be used multiple times"
  | .valueUnneeded value shown =>
    "error: unexpected value '" ++ Text.plain value ++ "' for '" ++ shown ++
      "' found; no more were expected"
  | .notText => "error: invalid UTF-8 was detected in one or more arguments"

end OpacityMigration.CommandLine
