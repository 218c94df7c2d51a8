import OpacityMigration.Json.Basic
import OpacityMigration.Text.Place
import OpacityMigration.Text.Quoted

/-!
# What can be wrong with a JSON text

A reader that cannot go on names a cause and the text it has not read. From both follows the
message: the cause, and the line and column that reading has reached, counted in bytes.
-/

namespace OpacityMigration.Json

/-- What a reader found where it expected something else. -/
inductive Found
  | null
  | boolean (value : Bool)
  | number (value : Number)
  | string (value : String)
  | sequence
  | map
deriving Repr

def Found.text : Found → String
  | .null => "null"
  | .boolean true => "boolean `true`"
  | .boolean false => "boolean `false`"
  | .number (.integer i) => "integer `" ++ String.ofList (Number.integer i).text ++ "`"
  | .number (.real s m) => "floating point `" ++ String.ofList (Number.real s m).text ++ "`"
  | .string s => "string " ++ Text.quoted s
  | .sequence => "sequence"
  | .map => "map"

/-- What a value is found to be. -/
def found : Json → Found
  | .null => .null
  | .bool b => .boolean b
  | .number n => .number n
  | .string s => .string s
  | .array _ => .sequence
  | .object _ => .map

inductive Cause
  | endInValue
  | endInString
  | endInList
  | endInObject
  | expectedValue
  | expectedWord
  | expectedListEnd
  | expectedObjectEnd
  | expectedColon
  | expectedKey
  | trailingComma
  | trailingCharacters
  | badNumber
  | numberTooLarge
  | controlCharacter
  | badEscape
  | loneSurrogate
  | brokenPair
  | nestedTooDeep
  | wrongType (found : Found) (expected : String)
  | wrongLength (length : Nat) (expected : String)
  | unknownField (name : String) (known : List String)
  | repeatedField (name : String)
  | missingField (name : String)
deriving Repr

/-- A name in a message. -/
def named (name : String) : String :=
  "`" ++ name ++ "`"

def Cause.text : Cause → String
  | .endInValue => "EOF while parsing a value"
  | .endInString => "EOF while parsing a string"
  | .endInList => "EOF while parsing a list"
  | .endInObject => "EOF while parsing an object"
  | .expectedValue => "expected value"
  | .expectedWord => "expected ident"
  | .expectedListEnd => "expected `,` or `]`"
  | .expectedObjectEnd => "expected `,` or `\x7d`"
  | .expectedColon => "expected `:`"
  | .expectedKey => "key must be a string"
  | .trailingComma => "trailing comma"
  | .trailingCharacters => "trailing characters"
  | .badNumber => "invalid number"
  | .numberTooLarge => "number out of range"
  | .controlCharacter => "control character (\\u0000-\\u001F) found while parsing a string"
  | .badEscape => "invalid escape"
  | .loneSurrogate => "lone leading surrogate in hex escape"
  | .brokenPair => "unexpected end of hex escape"
  | .nestedTooDeep => "recursion limit exceeded"
  | .wrongType found expected => "invalid type: " ++ found.text ++ ", expected " ++ expected
  | .wrongLength length expected =>
    "invalid length " ++ toString length ++ ", expected " ++ expected
  | .unknownField name known =>
    "unknown field " ++ named name ++ ", expected one of " ++
      String.intercalate ", " (known.map named)
  | .repeatedField name => "duplicate field " ++ named name
  | .missingField name => "missing field " ++ named name

/-- A point at which reading cannot go on. -/
structure Fault where
  cause : Cause
  rest : List Char
  /-- How many bytes of it still count as read. -/
  ahead : Nat
deriving Repr

/-- A fault that shows before `rest`. -/
def Fault.before (cause : Cause) (rest : List Char) : Fault :=
  ⟨cause, rest, 0⟩

/-- A fault that shows on the first byte of `rest`. -/
def Fault.on (cause : Cause) (rest : List Char) : Fault :=
  ⟨cause, rest, 1⟩

/-- Why and where a text was refused. -/
structure Error where
  cause : Cause
  line : Nat
  /-- How many bytes of the line were read. -/
  column : Nat
deriving Repr

/-- The error that a fault in reading `text` amounts to. -/
def Fault.error (text : List Char) (fault : Fault) : Error :=
  let total := Utf8.size text
  let place := Text.locate text (min total (total - Utf8.size fault.rest + fault.ahead))
  ⟨fault.cause, place.line, place.column - 1⟩

def Error.message (e : Error) : String :=
  e.cause.text ++ " at line " ++ toString e.line ++ " column " ++ toString e.column

end OpacityMigration.Json
