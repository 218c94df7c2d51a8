import OpacityMigration.Proofs.Occurrences
import OpacityMigration.Proofs.Segments
import Mathlib.Data.List.Infix
import Mathlib.Logic.Function.Iterate

/-!
# Passes one after the other

A pass replaces one opening of a segment, the first, and what it leaves of the segment lies before
a later pass as it stood. So `openings s`, the number of openings of the segment `s` that a
character of it follows, falls by one with every pass until it is zero.

* `cut_rewrite`: a pass keeps the cut of a text.
* `openings_modernise`, `modernise_eq_self`: what a pass does to the openings of a segment.
* `replacements_afterPasses`: after `k` passes, a pass changes the segments that had more than `k`
  openings. `find_afterPasses` says when nothing is left to do.
-/

namespace OpacityMigration.Call

/-! ## Openings of a segment -/

/-- How many openings of a segment have a character of it after them. -/
def openings (s : List Char) : Nat :=
  s.tails.countP fun u => opening <+: u ∧ u ≠ opening

theorem openings_cons (c : Char) (s : List Char) :
    openings (c :: s) =
      openings s + if opening <+: c :: s ∧ c :: s ≠ opening then 1 else 0 := by
  simp [openings, List.countP_cons]

theorem openings_cons_of_not {c : Char} {s : List Char} (h : ∀ after, c :: s ≠ opening ++ after) :
    openings (c :: s) = openings s := by
  have hnot : ¬ (opening <+: c :: s ∧ c :: s ≠ opening) := by
    rintro ⟨⟨after, heq⟩, -⟩
    exact h after heq.symm
  rw [openings_cons, if_neg hnot, Nat.add_zero]

theorem openings_append_of_no_dot {x : List Char} (h : '.' ∉ x) (s : List Char) :
    openings (x ++ s) = openings s := by
  induction x with
  | nil => rfl
  | cons c x ih =>
    obtain ⟨hc, hx⟩ := List.ne_and_not_mem_of_not_mem_cons h
    rw [List.cons_append, openings_cons_of_not (ne_opening_append_of_ne_dot (Ne.symm hc) _), ih hx]

theorem openings_opening : openings opening = 0 := by decide

theorem openings_opening_append {after : List Char} (h : after ≠ []) :
    openings (opening ++ after) = openings after + 1 := by
  obtain ⟨name, hname, hdot⟩ := opening_eq_dot
  have hcount : opening <+: '.' :: (name ++ after) ∧ '.' :: (name ++ after) ≠ opening := by
    rw [← List.cons_append, ← hname]
    exact ⟨List.prefix_append _ _, by simpa using h⟩
  calc openings (opening ++ after)
      = openings ('.' :: (name ++ after)) := by rw [hname, List.cons_append]
    _ = openings after + 1 := by
        rw [openings_cons, if_pos hcount, openings_append_of_no_dot hdot]

/-- The modern opening holds no opening, and none starts in it. -/
theorem openings_modernOpening_append (after : List Char) :
    openings (modernOpening ++ after) = openings after := by
  obtain ⟨name, hname, hdot⟩ := modernOpening_eq_dot
  have hnot := modernOpening_append_ne after
  rw [hname, List.cons_append] at hnot ⊢
  rw [openings_cons_of_not hnot, openings_append_of_no_dot hdot]

/-- An opening that starts before a dot stops before it. -/
theorem eq_opening_append_of_dot {x y rest : List Char} (hx : x ≠ [])
    (h : x ++ '.' :: y = opening ++ rest) : ∃ z, x = opening ++ z := by
  obtain ⟨name, hname, hdot⟩ := opening_eq_dot
  obtain ⟨c, x, rfl⟩ := List.exists_cons_of_ne_nil hx
  rw [hname, List.cons_append, List.cons_append, List.cons.injEq] at h
  obtain ⟨z, rfl⟩ := (isPrefix_append_cons_iff hdot).mp ⟨rest, h.2.symm⟩
  exact ⟨z, by rw [hname, h.1, List.cons_append]⟩

/-! ## A pass over the openings -/

/-- Where no opening starts, none starts after a pass over what follows. -/
theorem cons_modernise_ne {c : Char} {s : List Char} (h : ∀ after, c :: s ≠ opening ++ after) :
    ∀ after, c :: modernise s ≠ opening ++ after := by
  intro rest heq
  have hmodern := modernised_modernise s
  generalize modernise s = m at hmodern heq
  cases hmodern with
  | absent _ => exact h rest heq
  | last _ => exact h rest heq
  | @replaced before after _ hne =>
    obtain ⟨name, hname, -⟩ := modernOpening_eq_dot
    rw [hname, List.append_assoc, List.cons_append, ← List.cons_append] at heq
    obtain ⟨z, hz⟩ := eq_opening_append_of_dot (List.cons_ne_nil c before) heq
    refine h (z ++ opening ++ after) ?_
    rw [List.append_assoc, ← List.cons_append, hz]
    simp only [List.append_assoc]

theorem openings_modernise (s : List Char) : openings (modernise s) = openings s - 1 := by
  induction s using openingwise with
  | nil => rfl
  | here after =>
    by_cases hne : after = []
    · rw [hne, List.append_nil, modernise_opening, openings_opening]
    · rw [modernise_opening_append hne, openings_modernOpening_append, openings_opening_append hne,
        Nat.add_sub_cancel]
  | char c s hnot ih =>
    rw [modernise_cons hnot, openings_cons_of_not (cons_modernise_ne hnot),
      openings_cons_of_not hnot, ih]

/-- A pass keeps the segments without openings, and only these. -/
theorem modernise_eq_self {s : List Char} : modernise s = s ↔ openings s = 0 := by
  induction s using openingwise with
  | nil => exact iff_of_true rfl rfl
  | here after =>
    by_cases hne : after = []
    · rw [hne, List.append_nil]
      exact iff_of_true modernise_opening openings_opening
    · rw [modernise_opening_append hne, openings_opening_append hne]
      exact iff_of_false (modernOpening_append_ne after after) (Nat.succ_ne_zero _)
  | char c s hnot ih => rw [modernise_cons hnot, openings_cons_of_not hnot, List.cons_inj_right, ih]

theorem not_mem_modernise {s : List Char} (h : ')' ∉ s) : ')' ∉ modernise s := by
  have hmodern := modernised_modernise s
  generalize modernise s = m at hmodern ⊢
  cases hmodern with
  | absent _ => exact h
  | last _ => exact h
  | replaced _ _ =>
    have : ')' ∉ modernOpening := by decide
    simp only [List.mem_append, not_or] at h ⊢
    exact ⟨⟨h.1.1, this⟩, h.2⟩

/-! ## Repeated passes -/

theorem cut_rewrite (text : List Char) :
    segments (rewrite text).content = (segments text).map modernise ∧
      remainder (rewrite text).content = remainder text := by
  rw [rewrite_eq_joined]
  refine segments_joined ?_ (not_mem_remainder text)
  intro s hs
  obtain ⟨s', hs', rfl⟩ := List.mem_map.mp hs
  exact not_mem_modernise (not_mem_of_mem_segments hs')

/-- The text after so many passes over it. -/
def afterPasses (passes : Nat) (text : List Char) : List Char :=
  (fun t => (rewrite t).content)^[passes] text

@[simp] theorem afterPasses_zero (text : List Char) : afterPasses 0 text = text := rfl

@[simp] theorem afterPasses_succ (passes : Nat) (text : List Char) :
    afterPasses (passes + 1) text = (rewrite (afterPasses passes text)).content :=
  Function.iterate_succ_apply' _ _ _

theorem size_le_size_afterPasses (passes : Nat) (text : List Char) :
    Utf8.size text ≤ Utf8.size (afterPasses passes text) := by
  induction passes with
  | zero => exact Nat.le_refl _
  | succ passes ih =>
    rw [afterPasses_succ, size_rewrite]
    omega

theorem afterPasses_add (more passes : Nat) (text : List Char) :
    afterPasses (more + passes) text = afterPasses more (afterPasses passes text) :=
  Function.iterate_add_apply _ more passes text

/-- Passes that are not needed do nothing, and the first one that is needed shows. -/
theorem afterPasses_eq_self {passes : Nat} {text : List Char} :
    afterPasses passes text = text ↔ passes = 0 ∨ find text = [] := by
  constructor
  · intro h
    by_contra hne
    obtain ⟨hpasses, hfind⟩ := not_or.mp hne
    obtain ⟨more, rfl⟩ := Nat.exists_eq_succ_of_ne_zero hpasses
    have hfirst : Utf8.size text < Utf8.size (rewrite text).content := by
      have := List.length_pos_iff.mpr hfind
      rw [size_rewrite]
      omega
    have hrest := size_le_size_afterPasses more (rewrite text).content
    rw [Nat.succ_eq_add_one, afterPasses_add more 1] at h
    rw [afterPasses_succ, afterPasses_zero] at h
    rw [h] at hrest
    omega
  · rintro (rfl | hfind)
    · rfl
    · exact Function.iterate_fixed (rewrite_content_eq_self.mpr hfind) passes

theorem segments_afterPasses (passes : Nat) (text : List Char) :
    segments (afterPasses passes text) = (segments text).map modernise^[passes] := by
  induction passes with
  | zero => simp
  | succ passes ih =>
    rw [afterPasses_succ, (cut_rewrite _).1, ih, List.map_map, Function.iterate_succ']

theorem openings_iterate_modernise (passes : Nat) (s : List Char) :
    openings (modernise^[passes] s) = openings s - passes := by
  induction passes with
  | zero => rfl
  | succ passes ih => rw [Function.iterate_succ_apply', openings_modernise, ih, Nat.sub_sub]

/-- After `k` passes, the next one changes the segments that had more than `k` openings. -/
theorem replacements_afterPasses (passes : Nat) (text : List Char) :
    (rewrite (afterPasses passes text)).replacements =
      (segments text).countP (passes < openings ·) := by
  rw [rewrite_eq_joined, segments_afterPasses]
  simp only [List.countP_map]
  refine List.countP_congr ?_
  intro s _
  simp only [Function.comp_apply, ne_eq, modernise_eq_self, openings_iterate_modernise,
    decide_eq_true_eq]
  omega

/-- Nothing is left to do after as many passes as a segment has openings. -/
theorem find_afterPasses {passes : Nat} {text : List Char} :
    find (afterPasses passes text) = [] ↔ ∀ s ∈ segments text, openings s ≤ passes := by
  rw [← List.length_eq_zero_iff, length_find, replacements_afterPasses, List.countP_eq_zero]
  simp

/-- A pass that finds nothing leaves nothing for those after it. -/
theorem find_afterPasses_of_le {passes more : Nat} {text : List Char} (hle : passes ≤ more)
    (h : find (afterPasses passes text) = []) : find (afterPasses more text) = [] := by
  rw [find_afterPasses] at h ⊢
  exact fun s hs => (h s hs).trans hle

end OpacityMigration.Call
