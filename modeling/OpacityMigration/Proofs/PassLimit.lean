import OpacityMigration.Proofs.Passes

/-!
# Where repeated passes end

A pass replaces the first opening of a segment, the next pass the one that is then the first, and so
on, until no opening is left that a character of the segment follows. What a pass has put into a
segment is no opening and starts none, so later passes go over it.

* `modernAll`: a segment with all these openings replaced at once.
* `iterate_modernise_eq`: as many passes as a segment has openings come to the same.
* `passesNeeded_le_iff`: how many passes find something to do.
* `passes_converge`: what each pass reports, when passes stop changing a text, and the text then.
-/

namespace OpacityMigration.Call

/-! ## All openings of a segment at once -/

/-- The segment with each opening replaced that a character of the segment follows. -/
def modernAll (s : List Char) : List Char :=
  match s with
  | [] => []
  | c :: rest =>
    match _h : opening.isPrefixOf? (c :: rest) with
    | some (d :: after) => modernOpening ++ modernAll (d :: after)
    | _ => c :: modernAll rest
termination_by s.length
decreasing_by
  · rw [isPrefixOf?_eq_some] at _h
    have := List.length_pos_of_ne_nil opening_ne_nil
    rw [_h, List.length_append]
    omega
  · simp

@[simp] theorem modernAll_nil : modernAll [] = [] := by
  rw [modernAll]

theorem modernAll_opening_append {after : List Char} (h : after ≠ []) :
    modernAll (opening ++ after) = modernOpening ++ modernAll after := by
  obtain ⟨name, hname, -⟩ := opening_eq_dot
  obtain ⟨d, after, rfl⟩ := List.exists_cons_of_ne_nil h
  have hp : opening.isPrefixOf? ('.' :: (name ++ d :: after)) = some (d :: after) := by
    rw [isPrefixOf?_eq_some, hname, List.cons_append]
  rw [hname, List.cons_append, modernAll]
  split
  · next heq =>
    rw [hp, Option.some.injEq, List.cons.injEq] at heq
    obtain ⟨rfl, rfl⟩ := heq
    rfl
  · next hnot => exact absurd hp (hnot d after)

theorem modernAll_cons {c : Char} {s : List Char} (h : ∀ after, c :: s ≠ opening ++ after) :
    modernAll (c :: s) = c :: modernAll s := by
  rw [modernAll]
  split
  · next heq => exact absurd (isPrefixOf?_eq_some.mp heq) (h _)
  · rfl

theorem modernAll_of_no_dot {s : List Char} (h : '.' ∉ s) : modernAll s = s := by
  induction s with
  | nil => exact modernAll_nil
  | cons c s ih =>
    obtain ⟨hc, hs⟩ := List.ne_and_not_mem_of_not_mem_cons h
    rw [modernAll_cons (ne_opening_append_of_ne_dot (Ne.symm hc) s), ih hs]

/-- An opening at the end of a segment stays. -/
theorem modernAll_opening : modernAll opening = opening := by
  obtain ⟨name, hname, hdot⟩ := opening_eq_dot
  have hp : opening.isPrefixOf? ('.' :: name) = some [] := by
    rw [isPrefixOf?_eq_some, hname, List.append_nil]
  rw [hname, modernAll]
  split
  · next heq =>
    rw [hp] at heq
    cases heq
  · rw [modernAll_of_no_dot hdot]

/-- Induction along a segment through all its openings. -/
@[elab_as_elim]
theorem alongOpenings {motive : List Char → Prop} (s : List Char) (nil : motive [])
    (last : motive opening)
    (replaced : ∀ after, after ≠ [] → motive after → motive (opening ++ after))
    (char : ∀ c s, (∀ after, c :: s ≠ opening ++ after) → motive s → motive (c :: s)) :
    motive s := by
  induction hn : s.length using Nat.strongRecOn generalizing s with
  | ind n ih =>
    cases s using openingwise with
    | nil => exact nil
    | here after =>
      by_cases hne : after = []
      · rw [hne, List.append_nil]
        exact last
      · have := List.length_pos_of_ne_nil opening_ne_nil
        rw [List.length_append] at hn
        exact replaced after hne (ih after.length (by omega) after rfl)
    | char c s hnot _ => exact char c s hnot (ih s.length (by simp [← hn]) s rfl)

/-! ## Passes over a segment -/

theorem modernise_append_of_no_dot {x : List Char} (h : '.' ∉ x) (s : List Char) :
    modernise (x ++ s) = x ++ modernise s := by
  induction x with
  | nil => rfl
  | cons c x ih =>
    obtain ⟨hc, hx⟩ := List.ne_and_not_mem_of_not_mem_cons h
    rw [List.cons_append, modernise_cons (ne_opening_append_of_ne_dot (Ne.symm hc) _), ih hx,
      List.cons_append]

/-- A pass goes over what an earlier one has put in. -/
theorem modernise_modernOpening_append (s : List Char) :
    modernise (modernOpening ++ s) = modernOpening ++ modernise s := by
  obtain ⟨name, hname, hdot⟩ := modernOpening_eq_dot
  have hnot := modernOpening_append_ne s
  rw [hname, List.cons_append] at hnot ⊢
  rw [modernise_cons hnot, modernise_append_of_no_dot hdot, List.cons_append]

theorem iterate_modernise_modernOpening_append (passes : Nat) (s : List Char) :
    modernise^[passes] (modernOpening ++ s) = modernOpening ++ modernise^[passes] s := by
  induction passes generalizing s with
  | zero => rfl
  | succ passes ih =>
    rw [Function.iterate_succ_apply, Function.iterate_succ_apply, modernise_modernOpening_append,
      ih]

theorem iterate_modernise_cons (passes : Nat) {c : Char} {s : List Char}
    (h : ∀ after, c :: s ≠ opening ++ after) :
    modernise^[passes] (c :: s) = c :: modernise^[passes] s := by
  induction passes generalizing s with
  | zero => rfl
  | succ passes ih =>
    rw [Function.iterate_succ_apply, Function.iterate_succ_apply, modernise_cons h,
      ih (cons_modernise_ne h)]

/-- As many passes as a segment has openings replace all of them. -/
theorem iterate_modernise_eq {passes : Nat} {s : List Char} (h : openings s ≤ passes) :
    modernise^[passes] s = modernAll s := by
  induction s using alongOpenings generalizing passes with
  | nil => rw [modernAll_nil, Function.iterate_fixed rfl]
  | last => rw [modernAll_opening, Function.iterate_fixed modernise_opening]
  | replaced after hne ih =>
    rw [openings_opening_append hne] at h
    obtain ⟨passes, rfl⟩ := Nat.exists_eq_succ_of_ne_zero (by omega : passes ≠ 0)
    rw [Function.iterate_succ_apply, modernise_opening_append hne,
      iterate_modernise_modernOpening_append, ih (by omega), modernAll_opening_append hne]
  | char c s hnot ih =>
    rw [openings_cons_of_not hnot] at h
    rw [iterate_modernise_cons passes hnot, ih h, modernAll_cons hnot]

/-! ## Passes over a text -/

theorem afterPasses_eq_joined (passes : Nat) (text : List Char) :
    afterPasses passes text = joined ((segments text).map modernise^[passes]) (remainder text) := by
  have hrem : remainder (afterPasses passes text) = remainder text := by
    induction passes with
    | zero => rfl
    | succ passes ih => rw [afterPasses_succ, (cut_rewrite _).2, ih]
  rw [← segments_afterPasses, ← hrem, joined_segments]

/-- The most openings that a segment of the text has, and none for a text without segments. -/
def passesNeeded (text : List Char) : Nat :=
  ((segments text).map openings).foldr max 0

theorem passesNeeded_le_iff {text : List Char} {passes : Nat} :
    passesNeeded text ≤ passes ↔ ∀ s ∈ segments text, openings s ≤ passes := by
  rw [passesNeeded]
  induction segments text with
  | nil => simp
  | cons s ss ih => rw [List.map_cons, List.foldr_cons, Nat.max_le, ih, List.forall_mem_cons]

/-- A pass that comes after others changes nothing exactly if they were enough. -/
theorem rewrite_afterPasses_eq_self {passes : Nat} {text : List Char} :
    (rewrite (afterPasses passes text)).content = afterPasses passes text ↔
      passesNeeded text ≤ passes := by
  rw [rewrite_content_eq_self, find_afterPasses, passesNeeded_le_iff]

/-- **Where repeated passes end.** The pass after `passes` others replaces one call in each segment
that has more than `passes` openings. It keeps the text exactly if no segment has more. The text
that all further passes keep is the one with each opening replaced that a character of its segment
follows. So one pass is enough exactly if no segment has two openings. -/
theorem passes_converge (text : List Char) :
    (∀ passes, (rewrite (afterPasses passes text)).replacements =
      (segments text).countP (passes + 1 ≤ openings ·)) ∧
    (∀ passes, (rewrite (afterPasses passes text)).content = afterPasses passes text ↔
      passesNeeded text ≤ passes) ∧
    (∀ more, afterPasses (passesNeeded text + more) text =
      joined ((segments text).map modernAll) (remainder text)) ∧
    ((rewrite (rewrite text).content).content = (rewrite text).content ↔
      ∀ s ∈ segments text, openings s ≤ 1) := by
  refine ⟨fun passes => replacements_afterPasses passes text,
    fun passes => rewrite_afterPasses_eq_self, ?_, ?_⟩
  · intro more
    rw [afterPasses_eq_joined]
    congr 1
    apply List.map_congr_left
    intro s hs
    apply iterate_modernise_eq
    have := passesNeeded_le_iff.mp (Nat.le_refl (passesNeeded text)) s hs
    omega
  · rw [← passesNeeded_le_iff]
    exact @rewrite_afterPasses_eq_self 1 text

end OpacityMigration.Call
