import OpacityMigration.CommandLine.Request

/-!
# Help

The texts that the program prints about itself, line by line.
-/

namespace OpacityMigration.CommandLine

def programHelp : List String :=
  [ "Migrate Flutter .withOpacity(x) calls to .withValues(alpha: x)",
    "",
    "Usage: alphafix [OPTIONS] [COMMAND]",
    "",
    "Commands:",
    "  migrate  Rewrite .withOpacity(x) to .withValues(alpha: x) in place",
    "  scan     List .withOpacity(...) occurrences without writing",
    "  help     Print this message or the help of the given subcommand(s)",
    "",
    "Options:",
    "      --json     Print a JSON envelope instead of plain text",
    "  -h, --help     Print help",
    "  -V, --version  Print version" ]

def migrateHelp : List String :=
  [ "Rewrite .withOpacity(x) to .withValues(alpha: x) in place",
    "",
    "Usage: alphafix migrate [OPTIONS]",
    "",
    "Options:",
    "      --json             Print a JSON envelope instead of plain text",
    "      --path <DIR>       Root directory to walk (default: \"lib\")",
    "      --extension <EXT>  File extension to include; repeat for several (default: \"dart\")",
    "      --config <FILE>    JSON config file (default: ./alphafix.json when present)",
    "      --dry-run          Report files that would change without writing them",
    "      --check            Like --dry-run, but exit with status 1 when any file would change",
    "  -h, --help             Print help" ]

def scanHelp : List String :=
  [ "List .withOpacity(...) occurrences without writing",
    "",
    "Usage: alphafix scan [OPTIONS]",
    "",
    "Options:",
    "      --json             Print a JSON envelope instead of plain text",
    "      --path <DIR>       Root directory to walk (default: \"lib\")",
    "      --extension <EXT>  File extension to include; repeat for several (default: \"dart\")",
    "      --config <FILE>    JSON config file (default: ./alphafix.json when present)",
    "  -h, --help             Print help" ]

def helpHelp : List String :=
  [ "Print this message or the help of the given subcommand(s)",
    "",
    "Usage: alphafix help [COMMAND]...",
    "",
    "Arguments:",
    "  [COMMAND]...  Print help for the subcommand(s)" ]

def Topic.lines : Topic → List String
  | .program => programHelp
  | .migrate => migrateHelp
  | .scan => scanHelp
  | .help => helpHelp

/-- Lines, each ended by a line feed. -/
def textOfLines (lines : List String) : String :=
  String.join (lines.map (· ++ "\n"))

def Topic.text (topic : Topic) : String :=
  textOfLines topic.lines

def versionText : String := "alphafix 0.1.0\n"

end OpacityMigration.CommandLine
