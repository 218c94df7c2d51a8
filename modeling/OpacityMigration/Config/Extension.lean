import OpacityMigration.Text.Blank

/-!
# Extensions

An extension may be written with blanks around it and dots before it. `normalize` strips these,
keeps the first of several that are then the same, and refuses an extension of which nothing is
left, and the empty list.
-/

namespace OpacityMigration.Extension

/-- An extension without blanks around it and then without dots before it. -/
def strip (written : String) : String :=
  String.ofList ((Text.trim written.toList).dropWhile (· == '.'))

inductive Fault
  /-- Nothing is left of this one. -/
  | blank (written : String)
  /-- There are none. -/
  | none
deriving DecidableEq, Repr

/-- Strips extensions and appends those that are not there yet to `done`, newest first. -/
def normalizeFrom (done : List String) : List String → Except Fault (List String)
  | [] => .ok done.reverse
  | written :: more =>
    let extension := strip written
    if extension.isEmpty then .error (.blank written)
    else if extension ∈ done then normalizeFrom done more
    else normalizeFrom (extension :: done) more

/-- Strips extensions and leaves out repetitions. -/
def normalize (extensions : List String) : Except Fault (List String) :=
  if extensions.isEmpty then .error .none else normalizeFrom [] extensions

end OpacityMigration.Extension
