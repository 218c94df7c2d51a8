import OpacityMigration.Text.Utf8

/-!
# Text without commands for a terminal

A terminal takes some characters as commands: controls, and the sequences that an escape character
opens. `plain` leaves them out of a text. White space stays.

* An escape sequence ends with a character from `0` to `~`.
* A control sequence, opened by `[` after the escape character, ends with one from `@` to `~`.
* A title, opened by `]`, ends with a bell.
* A device sequence, opened by `P`, has parameters and then data. Data also follow `X`, `^` and
  `_` at once. Data end with the byte `0x9C`, also where that is a part of a character, and the
  rest of the character goes with it.
* Every sequence ends with cancel or substitute and with the next escape character.

White space inside an escape or control sequence interrupts it: text is shown again up to the next
control, where the sequence goes on, or up to a character beyond ASCII, with which it is given up.
-/

namespace OpacityMigration.Text

/-- What a character of a text belongs to. -/
inductive Reading
  | text
  /-- An escape sequence of which only the escape character has been read. -/
  | escape
  /-- An escape sequence with more to come. -/
  | intermediate
  | control
  | title
  /-- A device sequence of which no parameters have been read. -/
  | device
  | parameters
  /-- What stands between the parameters and the data of a device sequence. -/
  | separators
  | data
deriving DecidableEq, Repr

/-- White space other than the space. -/
def isMotion (c : Char) : Bool :=
  c == '\t' || c == '\n' || c == '\x0c' || c == '\r'

/-- An ASCII character that shows, or makes space. -/
def isShown (c : Char) : Bool :=
  isMotion c || (' ' ≤ c && c ≤ '~')

/-- What ends every sequence: cancel and substitute. -/
def isCancel (c : Char) : Bool :=
  c == '\x18' || c == '\x1a'

/-- Whether a sequence may be interrupted by white space. -/
def Reading.isInterruptible : Reading → Bool
  | .escape => true
  | .intermediate => true
  | .control => true
  | _ => false

/-- What the character `c` right after the escape character opens. -/
def Reading.opened (c : Char) : Reading :=
  if c = '[' then .control
  else if c = ']' then .title
  else if c = 'P' then .device
  else if c = 'X' ∨ c = '^' ∨ c = '_' then .data
  else if ' ' ≤ c ∧ c ≤ '/' then .intermediate
  else if '0' ≤ c ∧ c ≤ '~' then .text
  else .escape

/-- What is read after the ASCII character `c`. -/
def Reading.next (reading : Reading) (c : Char) : Reading :=
  match reading with
  | .text => .text
  | .escape => .opened c
  | .intermediate => if '0' ≤ c ∧ c ≤ '~' then .text else .intermediate
  | .control => if '@' ≤ c ∧ c ≤ '~' then .text else .control
  | .title => if c = '\x07' then .text else .title
  | .device =>
    if ' ' ≤ c ∧ c ≤ '/' then .separators
    else if '0' ≤ c ∧ c ≤ '?' then .parameters
    else if '@' ≤ c ∧ c ≤ '~' then .data
    else .device
  | .parameters =>
    if ' ' ≤ c ∧ c ≤ '/' then .separators
    else if '<' ≤ c ∧ c ≤ '~' then .data
    else .parameters
  | .separators => if '0' ≤ c ∧ c ≤ '~' then .data else .separators
  | .data => .data

/-- What is read after a character beyond ASCII that belongs to a sequence. -/
def Reading.nextWide (reading : Reading) (c : Char) : Reading :=
  if reading = .data ∧ 0x9C ∈ Utf8.encodeChar c then .text else reading

/-- The characters of a text that are no commands. `interrupted` says whether text is shown
although a sequence is being read. -/
def plainFrom (interrupted : Bool) (reading : Reading) : List Char → List Char
  | [] => []
  | c :: rest =>
    let showing := interrupted || reading == .text
    if '\x7f' < c then
      if showing then c :: plainFrom false .text rest
      else plainFrom false (reading.nextWide c) rest
    else if c = '\x1b' then plainFrom false .escape rest
    else if isCancel c then plainFrom false .text rest
    else if showing && isShown c then c :: plainFrom interrupted reading rest
    else if reading.isInterruptible && isMotion c then c :: plainFrom true reading rest
    else plainFrom false (reading.next c) rest

/-- A text without commands for a terminal. -/
def plain (s : String) : String :=
  String.ofList (plainFrom false .text s.toList)

end OpacityMigration.Text
