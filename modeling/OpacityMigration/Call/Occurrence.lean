import OpacityMigration.Call.Basic
import OpacityMigration.Text.Utf8

/-!
# The calls of a text

`find` lists the deprecated calls that a rewriting pass would replace, each with its place in the
text as a range of bytes, its text, and the modern call.

* `find_of_read?`, `find_cons`, `find_nil` are the three equations of the search; `findFrom_eq`
  says that searching a text that starts later in a file only moves the ranges.
-/

namespace OpacityMigration.Call

/-- One deprecated call inside a text. -/
structure Occurrence where
  /-- The byte at which the call starts. -/
  start : Nat
  /-- The byte after the call. -/
  stop : Nat
  matched : List Char
  /-- The modern call with the same argument. -/
  replacement : List Char
deriving DecidableEq, Repr

/-- The same occurrence, `n` bytes later. -/
def Occurrence.shift (n : Nat) (o : Occurrence) : Occurrence :=
  { o with start := o.start + n, stop := o.stop + n }

/-- The occurrence of the call with the given argument at byte `start`. -/
def Occurrence.ofArgument (start : Nat) (argument : List Char) : Occurrence where
  start := start
  stop := start + Utf8.size (deprecated argument)
  matched := deprecated argument
  replacement := modern argument

/-- Lists the calls of `text`, which starts at byte `offset`, after `found`, newest first. -/
def findFrom (offset : Nat) (found : List Occurrence) (text : List Char) : List Occurrence :=
  match _h : read? text with
  | some (argument, rest) =>
    let o := Occurrence.ofArgument offset argument
    findFrom o.stop (o :: found) rest
  | none =>
    match text with
    | [] => found.reverse
    | c :: rest => findFrom (offset + c.utf8Size) found rest
termination_by text.length
decreasing_by
  · have := length_of_read? _h
    omega
  · simp

/-- The deprecated calls of `text`, leftmost first and none inside another. -/
def find (text : List Char) : List Occurrence :=
  findFrom 0 [] text

theorem Occurrence.shift_ofArgument (n start : Nat) (argument : List Char) :
    (ofArgument start argument).shift n = ofArgument (start + n) argument := by
  simp [shift, ofArgument, Nat.add_right_comm]

theorem Occurrence.shift_shift (m n : Nat) (o : Occurrence) :
    (o.shift m).shift n = o.shift (m + n) := by
  simp [shift, Nat.add_assoc]

theorem findFrom_of_read? (offset : Nat) (found : List Occurrence)
    {text argument rest : List Char} (h : read? text = some (argument, rest)) :
    findFrom offset found text = findFrom (offset + Utf8.size (deprecated argument))
      (Occurrence.ofArgument offset argument :: found) rest := by
  rw [findFrom]
  split
  · simp_all [Occurrence.ofArgument]
  · simp_all

theorem findFrom_cons (offset : Nat) (found : List Occurrence) {c : Char} {rest : List Char}
    (h : read? (c :: rest) = none) :
    findFrom offset found (c :: rest) = findFrom (offset + c.utf8Size) found rest := by
  rw [findFrom]
  split
  · simp_all
  · rfl

@[simp] theorem findFrom_nil (offset : Nat) (found : List Occurrence) :
    findFrom offset found [] = found.reverse := by
  rw [findFrom]
  rfl

theorem findFrom_eq (offset : Nat) (found : List Occurrence) (text : List Char) :
    findFrom offset found text = found.reverse ++ (find text).map (Occurrence.shift offset) := by
  induction hn : text.length using Nat.strongRecOn generalizing text offset found with
  | ind n ih =>
    subst hn
    cases h : read? text with
    | some call =>
      obtain ⟨argument, rest⟩ := call
      have hrest : rest.length < text.length := by
        have := length_of_read? h
        omega
      rw [find, findFrom_of_read? _ _ h, findFrom_of_read? _ _ h,
        ih _ hrest _ _ rest rfl, ih _ hrest (0 + _) _ rest rfl]
      simp [Occurrence.shift_ofArgument, Occurrence.shift_shift, Nat.add_comm, Function.comp_def]
    | none =>
      cases text with
      | nil => simp [find]
      | cons c rest =>
        rw [find, findFrom_cons _ _ h, findFrom_cons _ _ h,
          ih _ (by simp) _ _ rest rfl, ih _ (by simp) (0 + _) _ rest rfl]
        simp [Occurrence.shift_shift, Nat.add_comm, Function.comp_def]

theorem find_of_read? {text argument rest : List Char} (h : read? text = some (argument, rest)) :
    find text = Occurrence.ofArgument 0 argument ::
      (find rest).map (Occurrence.shift (Utf8.size (deprecated argument))) := by
  rw [find, findFrom_of_read? _ _ h, findFrom_eq]
  simp

theorem find_cons {c : Char} {rest : List Char} (h : read? (c :: rest) = none) :
    find (c :: rest) = (find rest).map (Occurrence.shift c.utf8Size) := by
  rw [find, findFrom_cons _ _ h, findFrom_eq]
  simp

@[simp] theorem find_nil : find [] = [] := by
  simp [find]

end OpacityMigration.Call
