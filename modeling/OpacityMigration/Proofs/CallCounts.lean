import OpacityMigration.Proofs.Occurrences
import OpacityMigration.Proofs.Segments
import Mathlib.Data.List.Infix

/-!
# Calls are neither made up nor lost

A pass takes openings of deprecated calls away and puts openings of modern calls in their place.
Both start with their only dot and hold no `)`, so none of them goes across the front of another
one, nor across the end of a segment: what a pass joins makes no new opening, and breaks none but
the one that it replaces.

* `occurrences_append_of_not_mem`, `occurrences_around_literal`: the occurrences of an opening in a
  text, part by part.
* `occurrences_modernise`, `count_modernise`: what a pass does to those in a segment, and to the
  other characters.
* `rewrite_conserves_calls`: the same for a text.
-/

namespace OpacityMigration.Call

/-! ## Occurrences of a literal -/

/-- At how many places the text goes on with the literal. -/
def occurrences (literal text : List Char) : Nat :=
  text.tails.countP (literal <+: ·)

theorem occurrences_cons (literal : List Char) (c : Char) (s : List Char) :
    occurrences literal (c :: s) =
      occurrences literal s + if literal <+: c :: s then 1 else 0 := by
  simp [occurrences, List.countP_cons]

/-- What an opening looks like: it starts with its only dot and ends before any `)`. -/
structure Literal (literal : List Char) : Prop where
  dot : ∃ name, literal = '.' :: name ∧ '.' ∉ name
  no_closing : ')' ∉ literal

theorem literal_opening : Literal opening :=
  ⟨opening_eq_dot, not_mem_opening⟩

theorem literal_modernOpening : Literal modernOpening :=
  ⟨modernOpening_eq_dot, by decide⟩

theorem Literal.ne_nil {literal : List Char} (h : Literal literal) : literal ≠ [] := by
  obtain ⟨name, rfl, -⟩ := h.dot
  exact List.cons_ne_nil _ _

variable {literal : List Char}

theorem occurrences_nil (h : Literal literal) : occurrences literal [] = 0 := by
  simp [occurrences, h.ne_nil]

/-- A text has the occurrences of all that it starts with. -/
theorem occurrences_le_of_isPrefix (h : Literal literal) {t u : List Char} (hbegins : t <+: u) :
    occurrences literal t ≤ occurrences literal u := by
  obtain ⟨rest, rfl⟩ := hbegins
  induction t with
  | nil =>
    rw [occurrences_nil h]
    exact Nat.zero_le _
  | cons c t ih =>
    rw [List.cons_append, occurrences_cons, occurrences_cons]
    refine Nat.add_le_add ih ?_
    by_cases hc : literal <+: c :: t
    · have hmore : literal <+: c :: (t ++ rest) := hc.trans (List.prefix_append (c :: t) rest)
      rw [if_pos hc, if_pos hmore]
    · rw [if_neg hc]
      exact Nat.zero_le _

/-- A character that is not in the literal keeps the occurrences before it apart from those after
it. -/
theorem occurrences_append_of_not_mem {c : Char} (h : Literal literal) (hc : c ∉ literal)
    (x y : List Char) :
    occurrences literal (x ++ c :: y) = occurrences literal x + occurrences literal y := by
  induction x with
  | nil =>
    have hnot : ¬ literal <+: c :: y := by
      have := isPrefix_append_cons_iff (x := []) (y := y) hc
      rw [List.nil_append, List.prefix_nil] at this
      exact fun hp => h.ne_nil (this.mp hp)
    rw [List.nil_append, occurrences_cons, if_neg hnot, occurrences_nil h, Nat.zero_add,
      Nat.add_zero]
  | cons d x ih =>
    have hiff := isPrefix_append_cons_iff (x := d :: x) (y := y) hc
    rw [List.cons_append] at hiff ⊢
    simp only [occurrences_cons, hiff, ih]
    omega

/-- No occurrence goes across a dot, because it would start with another one. -/
theorem occurrences_append_dot (h : Literal literal) (x y : List Char) :
    occurrences literal (x ++ '.' :: y) =
      occurrences literal x + occurrences literal ('.' :: y) := by
  induction x with
  | nil => rw [List.nil_append, occurrences_nil h, Nat.zero_add]
  | cons d x ih =>
    obtain ⟨name, hname, hdot⟩ := h.dot
    have hiff : literal <+: d :: (x ++ '.' :: y) ↔ literal <+: d :: x := by
      rw [hname, List.cons_prefix_cons, List.cons_prefix_cons, isPrefix_append_cons_iff hdot]
    rw [List.cons_append, occurrences_cons, occurrences_cons, ih]
    simp only [hiff]
    omega

theorem occurrences_append_of_no_dot (h : Literal literal) {x : List Char} (hx : '.' ∉ x)
    (y : List Char) : occurrences literal (x ++ y) = occurrences literal y := by
  obtain ⟨name, hname, -⟩ := h.dot
  induction x with
  | nil => rfl
  | cons d x ih =>
    obtain ⟨hd, hx⟩ := List.ne_and_not_mem_of_not_mem_cons hx
    have hnot : ¬ literal <+: d :: (x ++ y) := by
      rw [hname, List.cons_prefix_cons]
      exact fun hp => hd hp.1
    rw [List.cons_append, occurrences_cons, if_neg hnot, Nat.add_zero, ih hx]

/-- The occurrences around a literal are those before it, those after it, and it may be one. -/
theorem occurrences_around_literal {other : List Char} (h : Literal literal)
    (hother : Literal other) (before after : List Char) :
    occurrences literal (before ++ other ++ after) =
      occurrences literal before + occurrences literal after +
        if literal <+: other ++ after then 1 else 0 := by
  obtain ⟨name, rfl, hdot⟩ := hother.dot
  rw [List.append_assoc, List.cons_append, occurrences_append_dot h, occurrences_cons,
    occurrences_append_of_no_dot h hdot, Nat.add_assoc]

/-! ## A pass over a segment -/

/-- One opening of a segment that a pass changes becomes a modern one. -/
theorem occurrences_modernise (s : List Char) :
    occurrences opening (modernise s) + (if modernise s = s then 0 else 1) =
        occurrences opening s ∧
      occurrences modernOpening (modernise s) =
        occurrences modernOpening s + if modernise s = s then 0 else 1 := by
  have hmodern := modernised_modernise s
  generalize modernise s = m at hmodern ⊢
  cases hmodern with
  | absent _ => simp
  | last _ => simp
  | @replaced before after _ _ =>
    have hne : before ++ modernOpening ++ after ≠ before ++ opening ++ after := by
      rw [List.append_assoc, List.append_assoc, Ne, List.append_cancel_left_eq]
      exact modernOpening_append_ne after after
    obtain ⟨hopening, hmodernOpening⟩ := openings_differ after
    constructor
    · rw [occurrences_around_literal literal_opening literal_modernOpening,
        occurrences_around_literal literal_opening literal_opening, if_neg hopening, if_neg hne,
        if_pos (List.prefix_append opening after)]
    · rw [occurrences_around_literal literal_modernOpening literal_modernOpening,
        occurrences_around_literal literal_modernOpening literal_opening, if_neg hmodernOpening,
        if_neg hne, if_pos (List.prefix_append modernOpening after)]

/-- A character that both openings hold equally often is as frequent after a pass as before. -/
theorem count_modernise {c : Char} (hc : modernOpening.count c = opening.count c) (s : List Char) :
    (modernise s).count c = s.count c := by
  have hmodern := modernised_modernise s
  generalize modernise s = m at hmodern ⊢
  cases hmodern with
  | absent _ => rfl
  | last _ => rfl
  | replaced _ _ => simp only [List.count_append, hc]

/-! ## A pass over a text -/

theorem occurrences_rewrite (text : List Char) :
    occurrences opening (rewrite text).content + (rewrite text).replacements =
        occurrences opening text ∧
      occurrences modernOpening (rewrite text).content =
        occurrences modernOpening text + (rewrite text).replacements := by
  induction text using segmentwise with
  | rest t ht =>
    rw [rewrite_of_not_mem ht]
    exact ⟨rfl, rfl⟩
  | segment s text hs ih =>
    obtain ⟨hopening, hmodernOpening⟩ := occurrences_modernise s
    rw [rewrite_append_closing hs]
    simp only [occurrences_append_of_not_mem literal_opening literal_opening.no_closing,
      occurrences_append_of_not_mem literal_modernOpening literal_modernOpening.no_closing]
    omega

theorem count_rewrite {c : Char} (hc : modernOpening.count c = opening.count c)
    (text : List Char) : (rewrite text).content.count c = text.count c := by
  induction text using segmentwise with
  | rest t ht => rw [rewrite_of_not_mem ht]
  | segment s text hs ih =>
    rw [rewrite_append_closing hs, List.count_append, List.count_append, List.count_cons,
      List.count_cons, count_modernise hc, ih]

/-- **A pass keeps the calls.** It takes away as many openings of deprecated calls as it reports
replacements, adds as many openings of modern calls, and keeps the number of closing parentheses and
of line feeds. What it reports is the number of calls that are found. -/
theorem rewrite_conserves_calls (text : List Char) :
    occurrences ".withOpacity(".toList (rewrite text).content + (rewrite text).replacements =
        occurrences ".withOpacity(".toList text ∧
      occurrences ".withValues(alpha: ".toList (rewrite text).content =
        occurrences ".withValues(alpha: ".toList text + (rewrite text).replacements ∧
      (rewrite text).content.count ')' = text.count ')' ∧
      (rewrite text).content.count '\n' = text.count '\n' ∧
      (rewrite text).replacements = (find text).length := by
  obtain ⟨hopening, hmodernOpening⟩ := occurrences_rewrite text
  refine ⟨hopening, hmodernOpening, ?_, ?_, (length_find text).symm⟩
  · apply count_rewrite
    decide
  · apply count_rewrite
    decide

end OpacityMigration.Call
