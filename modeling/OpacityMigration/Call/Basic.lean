/-!
# Deprecated opacity calls

A deprecated call is the text `.withOpacity(`, an argument, and `)`. The argument is one character
or more, none of them `)`; it may span lines. Its modern form keeps the argument as it stands:
`.withValues(alpha: `, the argument, and `)`. Nothing else of the language is looked at, so in
`.withOpacity(f(a))` the argument is `f(a`.

* `read?_eq_some`: `read?` takes a call off the front of a text exactly when the text starts with
  one, and then in only one way.
-/

namespace OpacityMigration.Call

/-- What comes before the argument of a deprecated call. -/
def opening : List Char := ".withOpacity(".toList

/-- What comes before the argument of a modern call. -/
def modernOpening : List Char := ".withValues(alpha: ".toList

/-- The deprecated call with the given argument. -/
def deprecated (argument : List Char) : List Char :=
  opening ++ argument ++ [')']

/-- The modern call with the given argument. -/
def modern (argument : List Char) : List Char :=
  modernOpening ++ argument ++ [')']

/-- A character that an argument may hold. -/
def isArgument (c : Char) : Bool :=
  c != ')'

/-- The argument of the deprecated call that `text` starts with, and the text after the call. -/
def read? (text : List Char) : Option (List Char × List Char) :=
  match opening.isPrefixOf? text with
  | none => none
  | some body =>
    match body.takeWhile isArgument, body.dropWhile isArgument with
    | c :: argument, _ :: rest => some (c :: argument, rest)
    | _, _ => none

theorem isPrefixOf?_eq_some {start text rest : List Char} :
    start.isPrefixOf? text = some rest ↔ text = start ++ rest := by
  induction start generalizing text with
  | nil =>
    change some text = some rest ↔ text = rest
    exact Option.some_inj
  | cons c start ih =>
    cases text with
    | nil =>
      change none = some rest ↔ [] = c :: start ++ rest
      simp
    | cons d text =>
      change (if c == d then start.isPrefixOf? text else none) = some rest ↔ _
      by_cases h : c = d
      · subst h
        simp [ih]
      · simp [h, Ne.symm h]

/-- Up to the first `)` and from there on is how a body with an argument falls apart. -/
theorem takeWhile_isArgument {argument rest : List Char} (h : ')' ∉ argument) :
    (argument ++ ')' :: rest).takeWhile isArgument = argument ∧
      (argument ++ ')' :: rest).dropWhile isArgument = ')' :: rest := by
  induction argument with
  | nil => simp [isArgument]
  | cons c argument ih =>
    have hc : isArgument c = true := by
      simp only [List.mem_cons, not_or] at h
      simpa [isArgument] using Ne.symm h.1
    obtain ⟨h₁, h₂⟩ := ih (by simp at h; exact h.2)
    simp [hc, h₁, h₂]

theorem read?_deprecated {argument rest : List Char} (hne : argument ≠ []) (h : ')' ∉ argument) :
    read? (deprecated argument ++ rest) = some (argument, rest) := by
  obtain ⟨h₁, h₂⟩ := @takeWhile_isArgument argument rest h
  have hp : opening.isPrefixOf? (deprecated argument ++ rest) = some (argument ++ ')' :: rest) :=
    isPrefixOf?_eq_some.2 (by simp [deprecated])
  cases argument with
  | nil => exact absurd rfl hne
  | cons c argument => simp only [read?, hp, h₁, h₂]

theorem read?_eq_some {text argument rest : List Char} :
    read? text = some (argument, rest) ↔
      text = deprecated argument ++ rest ∧ argument ≠ [] ∧ ')' ∉ argument := by
  constructor
  · intro h
    unfold read? at h
    split at h
    · contradiction
    · next body hbody =>
      rw [isPrefixOf?_eq_some] at hbody
      split at h
      · next c arg d r htake hdrop =>
        obtain ⟨rfl, rfl⟩ : c :: arg = argument ∧ r = rest := by simpa using h
        have hd : d = ')' := by
          have := List.head?_dropWhile_not isArgument body
          rw [hdrop] at this
          simpa [isArgument] using this
        have hbody' : body = (c :: arg) ++ d :: r := by
          rw [← htake, ← hdrop, List.takeWhile_append_dropWhile]
        refine ⟨by simp [hbody, hbody', hd, deprecated], by simp, ?_⟩
        intro hmem
        have := List.all_takeWhile (p := isArgument) (l := body)
        rw [htake, List.all_eq_true] at this
        exact absurd (this _ hmem) (by decide)
      · contradiction
  · rintro ⟨rfl, hne, h⟩
    exact read?_deprecated hne h

/-- A call takes up at least the fourteen characters around its argument. -/
theorem length_of_read? {text argument rest : List Char} (h : read? text = some (argument, rest)) :
    text.length = rest.length + argument.length + 14 := by
  obtain ⟨rfl, -, -⟩ := read?_eq_some.1 h
  have : opening.length = 13 := by decide
  simp only [deprecated, List.length_append, this, List.length_singleton]
  omega

end OpacityMigration.Call
