import OpacityMigration.Text.Utf8

/-!
# Places in a text

A byte of a text lies on a line, at a column of that line. Lines end at line feeds and are counted
from 1; columns are counted in bytes from 1. The context of a place is its line without the line
feed and without the carriage returns before it.
-/

namespace OpacityMigration.Text

structure Place where
  /-- The line, counted from 1. -/
  line : Nat
  /-- The byte of the line, counted from 1. -/
  column : Nat
  context : List Char
deriving DecidableEq, Repr

/-- Moves characters from `text` to `before`, newest first, until `offset` bytes have gone over or
the next character would take too many. -/
def cutFrom (before : List Char) (offset : Nat) : List Char → List Char × List Char
  | [] => (before, [])
  | c :: rest =>
    if offset < c.utf8Size then (before, c :: rest)
    else cutFrom (c :: before) (offset - c.utf8Size) rest

/-- The text before byte `offset`, last character first, and the text from there on. -/
def cut (text : List Char) (offset : Nat) : List Char × List Char :=
  cutFrom [] offset text

/-- A character that belongs to a line. -/
def onLine (c : Char) : Bool :=
  c != '\n'

/-- A line without the carriage returns at its end. -/
def trimReturns (line : List Char) : List Char :=
  (line.reverse.dropWhile (· == '\r')).reverse

/-- The place of byte `offset` in `text`. -/
def locate (text : List Char) (offset : Nat) : Place :=
  let (before, after) := cut text offset
  let head := before.takeWhile onLine
  let lineStart := Utf8.size (before.dropWhile onLine)
  { line := before.count '\n' + 1
    column := offset - lineStart + 1
    context := trimReturns (head.reverse ++ after.takeWhile onLine) }

theorem cutFrom_append (before : List Char) (offset : Nat) (text : List Char) :
    (cutFrom before offset text).1.reverse ++ (cutFrom before offset text).2 =
      before.reverse ++ text := by
  induction text generalizing before offset with
  | nil => simp [cutFrom]
  | cons c rest ih =>
    unfold cutFrom
    split
    · simp
    · simp [ih]

theorem cutFrom_size (before a b : List Char) :
    cutFrom before (Utf8.size a) (a ++ b) = (a.reverse ++ before, b) := by
  induction a generalizing before with
  | nil =>
    cases b with
    | nil => simp [cutFrom]
    | cons c b => simp [cutFrom, Char.utf8Size_pos]
  | cons c a ih =>
    have h : ¬ c.utf8Size + Utf8.size a < c.utf8Size := by omega
    simp [cutFrom, h, ih]

/-- Nothing is lost where a text is cut. -/
theorem cut_append (text : List Char) (offset : Nat) :
    (cut text offset).1.reverse ++ (cut text offset).2 = text := by
  simp [cut, cutFrom_append]

/-- A cut between two characters falls there. -/
theorem cut_size (a b : List Char) : cut (a ++ b) (Utf8.size a) = (a.reverse, b) := by
  simp [cut, cutFrom_size]

end OpacityMigration.Text
