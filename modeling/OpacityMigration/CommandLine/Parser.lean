import OpacityMigration.CommandLine.Request

/-!
# Understanding a command line

Arguments are taken from left to right. An option whose value is the next argument is settled only
when the next option that is known comes, or the end: a value that is missing, repeated or no text
shows then, and an argument that is not known shows first. A value written behind `=` is settled at
once.
-/

namespace OpacityMigration.CommandLine

abbrev Argument := List UInt8

/-- The ASCII text `s` as an argument. -/
def argument (s : String) : Argument :=
  Utf8.encode s.toList

inductive Form
  /-- The argument `--`, after which nothing is an option. -/
  | separator
  /-- A name behind `--`, and the value behind `=`. -/
  | long (name : Argument) (value : Option Argument)
  /-- Letters behind `-`. -/
  | short (letters : Argument)
  | plain

def form (arg : Argument) : Form :=
  match arg with
  | [] => .plain
  | [_] => .plain
  | a :: b :: rest =>
    if a ≠ 0x2D then .plain
    else if b ≠ 0x2D then .short (b :: rest)
    else if rest = [] then .separator
    else
      match rest.dropWhile (· ≠ 0x3D) with
      | [] => .long rest none
      | _ :: value => .long (rest.takeWhile (· ≠ 0x3D)) (some value)

/-- Where options stand: before a command, or after one. -/
inductive Scope
  | program
  | migrate
  | scan
deriving DecidableEq, Repr

/-- What there is help about in a scope. -/
def Scope.topic : Scope → Topic
  | .program => .program
  | .migrate => .migrate
  | .scan => .scan

inductive Meaning
  | flag (f : Flag)
  | setting (s : Setting)
  | help
  | version
deriving DecidableEq, Repr

def Scope.options : Scope → List (String × Meaning)
  | .program => [("json", .flag .json), ("help", .help), ("version", .version)]
  | .migrate =>
    [("json", .flag .json), ("path", .setting .path), ("extension", .setting .extension),
      ("config", .setting .config), ("dry-run", .flag .dryRun), ("check", .flag .check),
      ("help", .help)]
  | .scan =>
    [("json", .flag .json), ("path", .setting .path), ("extension", .setting .extension),
      ("config", .setting .config), ("help", .help)]

def Scope.meaning? (scope : Scope) (name : Argument) : Option Meaning :=
  (scope.options.find? fun (known, _) => argument known = name).map Prod.snd

def Meaning.shown : Meaning → String
  | .flag f => f.shown
  | .setting s => s.shown
  | .help => "--help"
  | .version => "--version"

/-- What letters behind a dash ask for. The first letter decides. -/
def Scope.letters (scope : Scope) (letters : Argument) : Except Misuse Request :=
  match Utf8.pieces letters with
  | some c :: _ =>
    if c = 'h' then .ok (.help scope.topic)
    else if c = 'V' ∧ scope = .program then .ok .version
    else .error (.unexpected (String.ofList ['-', c]))
  | _ => .error (.unexpected ("-" ++ Utf8.lossyString letters))

structure Draft where
  json : Bool
  dryRun : Bool
  check : Bool
  target : Target
  /-- An option with a value that is not settled yet, and its value if that has come. -/
  pending : Option (Setting × Option Argument)

namespace Draft

def empty : Draft :=
  ⟨false, false, false, .standard, none⟩

def set (d : Draft) (setting : Setting) (value : Argument) : Except Misuse Draft :=
  match setting with
  | .path =>
    if d.target.path.isSome then .error (.repeated setting.shown)
    else if value = [] then .error (.valueMissing setting)
    else .ok { d with target.path := some ⟨value⟩ }
  | .config =>
    if d.target.config.isSome then .error (.repeated setting.shown)
    else if value = [] then .error (.valueMissing setting)
    else .ok { d with target.config := some ⟨value⟩ }
  | .extension =>
    match Utf8.decode? value with
    | none => .error .notText
    | some text =>
      .ok { d with target.extensions := d.target.extensions ++ [String.ofList text] }

/-- Settles the option that is pending. -/
def settle (d : Draft) : Except Misuse Draft :=
  match d.pending with
  | none => .ok d
  | some (setting, none) => .error (.valueMissing setting)
  | some (setting, some value) => { d with pending := none }.set setting value

def switch (d : Draft) (f : Flag) : Except Misuse Draft :=
  let repeated : Except Misuse Draft := .error (.repeated f.shown)
  match f with
  | .json => if d.json then repeated else .ok { d with json := true }
  | .dryRun => if d.dryRun then repeated else .ok { d with dryRun := true }
  | .check => if d.check then repeated else .ok { d with check := true }

end Draft

inductive Progress
  | goOn (d : Draft)
  /-- The command line asks for this, whatever follows. -/
  | asks (request : Request)

/-- Takes an option that is written out. -/
def takeLong (scope : Scope) (d : Draft) (name : Argument) (value : Option Argument) :
    Except Misuse Progress :=
  match scope.meaning? name, value with
  | none, _ => .error (.unexpected ("--" ++ Utf8.lossyString name))
  | some (.setting s), some value => do return .goOn (← (← d.settle).set s value)
  | some (.setting s), none => do return .goOn { (← d.settle) with pending := some (s, none) }
  | some meaning, some value => .error (.valueUnneeded (Utf8.lossyString value) meaning.shown)
  | some (.flag f), none => do return .goOn (← (← d.settle).switch f)
  | some .help, none => do
    let _ ← d.settle
    return .asks (.help scope.topic)
  | some .version, none => do
    let _ ← d.settle
    return .asks .version

/-- Takes an option that is given by its letter. -/
def takeShort (scope : Scope) (d : Draft) (letters : Argument) : Except Misuse Progress := do
  let request ← scope.letters letters
  let _ ← d.settle
  return .asks request

def Draft.request (d : Draft) (json : Bool) : Scope → Request
  | .scan => .run (json || d.json) (.scan d.target)
  | _ => .run (json || d.json) (.migrate d.target d.dryRun d.check)

/-- Takes the arguments after a command. `json` says whether the option came before it. -/
def parseOptions (scope : Scope) (json : Bool) (d : Draft) :
    List Argument → Except Misuse Request
  | [] => d.settle.map (·.request json scope)
  | arg :: args => do
    match form arg with
    | .separator =>
      match args with
      | [] => d.settle.map (·.request json scope)
      | arg :: _ => .error (.unexpected (Utf8.lossyString arg))
    | .long name value =>
      match ← takeLong scope d name value with
      | .goOn d => parseOptions scope json d args
      | .asks request => .ok request
    | .short letters =>
      match ← takeShort scope d letters with
      | .goOn d => parseOptions scope json d args
      | .asks request => .ok request
    | .plain =>
      match d.pending with
      | some (setting, none) =>
        parseOptions scope json { d with pending := some (setting, some arg) } args
      | _ => .error (.unexpected (Utf8.lossyString arg))

def topic? (arg : Argument) : Option Topic :=
  if arg = argument "migrate" then some .migrate
  else if arg = argument "scan" then some .scan
  else if arg = argument "help" then some .help
  else none

/-- What `help` and the arguments after it ask for: at most one command, as none has commands of
its own. -/
def parseHelp : List Argument → Except Misuse Request
  | [] => .ok (.help .program)
  | arg :: args =>
    match topic? arg, args with
    | none, _ => .error (.unknownCommand (Utf8.lossyString arg))
    | some topic, [] => .ok (.help topic)
    | some _, next :: _ => .error (.unknownCommand (Utf8.lossyString next))

/-- Takes the arguments up to the command and leaves the others to it. -/
def parseFrom (d : Draft) : List Argument → Except Misuse Request
  | [] => .ok (.run d.json .standard)
  | arg :: args => do
    match form arg with
    | .separator =>
      match args with
      | [] => .ok (.run d.json .standard)
      | arg :: _ =>
        if (topic? arg).isSome then .error (.unexpected (Utf8.lossyString arg))
        else .error (.unknownCommand (Utf8.lossyString arg))
    | .long name value =>
      match ← takeLong .program d name value with
      | .goOn d => parseFrom d args
      | .asks request => .ok request
    | .short letters =>
      match ← takeShort .program d letters with
      | .goOn d => parseFrom d args
      | .asks request => .ok request
    | .plain =>
      match topic? arg with
      | some .migrate => parseOptions .migrate d.json .empty args
      | some .scan => parseOptions .scan d.json .empty args
      | some .help => parseHelp args
      | _ => .error (.unknownCommand (Utf8.lossyString arg))

def parse (args : List Argument) : Except Misuse Request :=
  parseFrom .empty args

end OpacityMigration.CommandLine
