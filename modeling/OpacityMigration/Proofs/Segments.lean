import OpacityMigration.Call.Rewrite
import Mathlib.Data.List.Basic

/-!
# A rewriting pass, segment by segment

Every `)` of a text closes a segment, the text back to the `)` before it; what follows the last `)`
is the remainder. A call starts and ends in one segment, because its argument holds no `)`. A pass
therefore works on each segment by itself, and there it changes the first opening and nothing else,
if a character of the segment follows: up to the `)` all that follows belongs to the argument.

* `segments`, `remainder`, `joined`: the cut of a text at its `)`, and back. `joined_segments` and
  `segments_joined` say that there is exactly one such cut.
* `firstOpening?_eq_some`: what `firstOpening?` finds, and that it is the first.
* `rewrite_append_closing`, `rewrite_of_not_mem`: a pass over the first segment, and over the
  remainder. `rewrite_closed_form` puts them together.
-/

namespace OpacityMigration.Call

/-! ## Cutting a text at its closing parentheses -/

/-- The parts of a text that a `)` follows, without it. -/
def segments (text : List Char) : List (List Char) :=
  (text.splitOn ')').dropLast

/-- The part of a text that no `)` follows. -/
def remainder (text : List Char) : List Char :=
  (text.splitOn ')').getLastD []

/-- The text with the given segments and the given remainder. -/
def joined (segments : List (List Char)) (remainder : List Char) : List Char :=
  segments.flatMap (· ++ [')']) ++ remainder

@[simp] theorem joined_nil (t : List Char) : joined [] t = t := rfl

@[simp] theorem joined_cons (s : List Char) (ss : List (List Char)) (t : List Char) :
    joined (s :: ss) t = s ++ ')' :: joined ss t := by
  simp [joined]

theorem segments_of_not_mem {t : List Char} (h : ')' ∉ t) : segments t = [] := by
  rw [segments, List.splitOn_eq_singleton h]
  rfl

theorem remainder_of_not_mem {t : List Char} (h : ')' ∉ t) : remainder t = t := by
  rw [remainder, List.splitOn_eq_singleton h]
  rfl

theorem segments_append_closing {s : List Char} (h : ')' ∉ s) (text : List Char) :
    segments (s ++ ')' :: text) = s :: segments text := by
  rw [segments, List.splitOn_append_cons_self_of_not_mem h,
    List.dropLast_cons_of_ne_nil (List.splitOn_ne_nil _ _)]
  rfl

theorem remainder_append_closing {s : List Char} (h : ')' ∉ s) (text : List Char) :
    remainder (s ++ ')' :: text) = remainder text := by
  obtain ⟨t, ts, hcut⟩ := List.exists_cons_of_ne_nil (List.splitOn_ne_nil ')' text)
  rw [remainder, remainder, List.splitOn_append_cons_self_of_not_mem h, hcut]
  simp

/-- Induction on the first `)` of a text, and on what follows it. -/
@[elab_as_elim]
theorem segmentwise {motive : List Char → Prop} (text : List Char)
    (rest : ∀ t, ')' ∉ t → motive t)
    (segment : ∀ s text, ')' ∉ s → motive text → motive (s ++ ')' :: text)) : motive text := by
  induction hn : text.length using Nat.strongRecOn generalizing text with
  | ind n ih =>
    by_cases h : ')' ∈ text
    · obtain ⟨s, more, rfl, hs⟩ := List.eq_append_cons_of_mem h
      refine segment s more hs (ih more.length ?_ more rfl)
      rw [← hn, List.length_append, List.length_cons]
      omega
    · exact rest text h

/-- Nothing is lost where a text is cut. -/
theorem joined_segments (text : List Char) : joined (segments text) (remainder text) = text := by
  induction text using segmentwise with
  | rest t ht => rw [segments_of_not_mem ht, remainder_of_not_mem ht, joined_nil]
  | segment s text hs ih =>
    rw [segments_append_closing hs, remainder_append_closing hs, joined_cons, ih]

theorem not_mem_of_mem_segments {text s : List Char} (h : s ∈ segments text) : ')' ∉ s := by
  induction text using segmentwise with
  | rest t ht => simp [segments_of_not_mem ht] at h
  | segment s' text hs ih =>
    rw [segments_append_closing hs] at h
    rcases List.mem_cons.mp h with rfl | h
    · exact hs
    · exact ih h

theorem not_mem_remainder (text : List Char) : ')' ∉ remainder text := by
  induction text using segmentwise with
  | rest t ht => rwa [remainder_of_not_mem ht]
  | segment s text hs ih => rwa [remainder_append_closing hs]

theorem segments_joined {ss : List (List Char)} {t : List Char} (hs : ∀ s ∈ ss, ')' ∉ s)
    (ht : ')' ∉ t) : segments (joined ss t) = ss ∧ remainder (joined ss t) = t := by
  induction ss with
  | nil => exact ⟨segments_of_not_mem ht, remainder_of_not_mem ht⟩
  | cons s ss ih =>
    obtain ⟨hss, hrem⟩ := ih fun s hmem => hs s (List.mem_cons_of_mem _ hmem)
    have hfirst : ')' ∉ s := hs s List.mem_cons_self
    rw [joined_cons, segments_append_closing hfirst, remainder_append_closing hfirst]
    exact ⟨by rw [hss], hrem⟩

theorem segments_append (a b : List Char) :
    segments (a ++ ')' :: b) = segments (a ++ [')']) ++ segments b := by
  induction a using segmentwise with
  | rest t ht =>
    have hnil : segments [] = [] := segments_of_not_mem (by simp)
    rw [segments_append_closing ht, segments_append_closing ht, hnil]
    rfl
  | segment s text hs ih =>
    rw [List.append_assoc, List.cons_append, List.append_assoc, List.cons_append,
      segments_append_closing hs, segments_append_closing hs, ih, List.cons_append]

theorem remainder_append (a b : List Char) : remainder (a ++ ')' :: b) = remainder b := by
  induction a using segmentwise with
  | rest t ht => exact remainder_append_closing ht b
  | segment s text hs ih =>
    rw [List.append_assoc, List.cons_append, remainder_append_closing hs, ih]

theorem joined_append (ss ss' : List (List Char)) (t : List Char) :
    joined (ss ++ ss') t = joined ss [] ++ joined ss' t := by
  simp [joined]

/-- The first `)` of a text stands in one place. -/
theorem append_closing_inj {s s' text text' : List Char} (hs : ')' ∉ s) (hs' : ')' ∉ s')
    (h : s ++ ')' :: text = s' ++ ')' :: text') : s = s' ∧ text = text' := by
  have htake := (@takeWhile_isArgument s text hs).1
  rw [h, (@takeWhile_isArgument s' text' hs').1] at htake
  subst htake
  exact ⟨rfl, List.cons_inj_right _ |>.mp (List.append_cancel_left h)⟩

/-! ## The first opening of a segment -/

/-- What stands before the first opening in `s`, and what follows that opening. -/
def firstOpening? : List Char → Option (List Char × List Char)
  | [] => none
  | c :: s =>
    match opening.isPrefixOf? (c :: s) with
    | some after => some ([], after)
    | none => (firstOpening? s).map fun (before, after) => (c :: before, after)

/-- No opening in the text starts further to the left than the one after `before`. -/
def IsFirst (before after : List Char) : Prop :=
  ∀ a b, before ++ opening ++ after = a ++ opening ++ b → before.length ≤ a.length

/-- The first opening of a segment is replaced, if a character of the segment follows it. -/
inductive Modernised : List Char → List Char → Prop
  | replaced {before after : List Char} (h : IsFirst before after) (hne : after ≠ []) :
      Modernised (before ++ opening ++ after) (before ++ modernOpening ++ after)
  | last {before : List Char} (h : IsFirst before []) :
      Modernised (before ++ opening) (before ++ opening)
  | absent {s : List Char} (h : ∀ a b, s ≠ a ++ opening ++ b) : Modernised s s

/-- The segment with its first opening replaced, if a character of the segment follows it. -/
def modernise (s : List Char) : List Char :=
  match firstOpening? s with
  | some (before, c :: argument) => before ++ modernOpening ++ c :: argument
  | _ => s

theorem isPrefixOf?_eq_none {start text : List Char} :
    start.isPrefixOf? text = none ↔ ∀ rest, text ≠ start ++ rest := by
  rw [Option.eq_none_iff_forall_ne_some]
  exact forall_congr' fun rest => not_congr isPrefixOf?_eq_some

/-- What does not hold a character starts before that character only if it also stops there. -/
theorem isPrefix_append_cons_iff {s x y : List Char} {c : Char} (h : c ∉ s) :
    s <+: x ++ c :: y ↔ s <+: x := by
  constructor
  · intro hs
    rcases Nat.le_total s.length x.length with hle | hle
    · exact List.prefix_of_prefix_length_le hs (List.prefix_append x _) hle
    · have hx : x <+: s := List.prefix_of_prefix_length_le (List.prefix_append x _) hs hle
      obtain ⟨more, rfl⟩ := hx
      rw [List.prefix_append_right_inj] at hs
      cases more with
      | nil => simp
      | cons d more =>
        obtain ⟨rfl, -⟩ := List.cons_prefix_cons.mp hs
        exact absurd (List.mem_append_right x List.mem_cons_self) h
  · intro hs
    exact hs.trans (List.prefix_append x _)

theorem opening_ne_nil : opening ≠ [] := by decide

theorem not_mem_opening : ')' ∉ opening := by decide

theorem firstOpening?_opening (after : List Char) :
    firstOpening? (opening ++ after) = some ([], after) := by
  cases h : opening ++ after with
  | nil => exact absurd (List.append_eq_nil_iff.mp h).1 opening_ne_nil
  | cons c s => rw [firstOpening?, isPrefixOf?_eq_some.mpr h.symm]

theorem firstOpening?_cons {c : Char} {s : List Char} (h : ∀ after, c :: s ≠ opening ++ after) :
    firstOpening? (c :: s) = (firstOpening? s).map fun (before, after) => (c :: before, after) := by
  rw [firstOpening?, isPrefixOf?_eq_none.mpr h]

/-- Induction along a segment up to its first opening. -/
@[elab_as_elim]
theorem openingwise {motive : List Char → Prop} (s : List Char) (nil : motive [])
    (here : ∀ after, motive (opening ++ after))
    (char : ∀ c s, (∀ after, c :: s ≠ opening ++ after) → motive s → motive (c :: s)) :
    motive s := by
  induction s with
  | nil => exact nil
  | cons c s ih =>
    by_cases h : ∃ after, c :: s = opening ++ after
    · obtain ⟨after, h⟩ := h
      rw [h]
      exact here after
    · exact char c s (fun after heq => h ⟨after, heq⟩) ih

/-- `firstOpening?` finds an opening, and none starts further to the left. -/
theorem firstOpening?_eq_some {s before after : List Char}
    (h : firstOpening? s = some (before, after)) :
    s = before ++ opening ++ after ∧ IsFirst before after := by
  induction s using openingwise generalizing before with
  | nil => simp [firstOpening?] at h
  | here rest =>
    rw [firstOpening?_opening] at h
    obtain ⟨rfl, rfl⟩ : [] = before ∧ rest = after := by simpa using h
    exact ⟨rfl, fun a b _ => Nat.zero_le _⟩
  | char c s hnot ih =>
    rw [firstOpening?_cons hnot, Option.map_eq_some_iff] at h
    obtain ⟨⟨before', after'⟩, hs, heq⟩ := h
    obtain ⟨rfl, rfl⟩ : c :: before' = before ∧ after' = after := by simpa using heq
    obtain ⟨rfl, hfirst⟩ := ih hs
    refine ⟨rfl, ?_⟩
    intro a b hab
    cases a with
    | nil => exact absurd hab (hnot b)
    | cons d a => simpa using hfirst a b (List.cons.inj hab).2

/-- `firstOpening?` overlooks no opening. -/
theorem firstOpening?_append_isSome (before after : List Char) :
    (firstOpening? (before ++ opening ++ after)).isSome = true := by
  induction before with
  | nil => simp [firstOpening?_opening]
  | cons c before ih =>
    by_cases hp : ∃ rest, c :: before ++ opening ++ after = opening ++ rest
    · obtain ⟨rest, hp⟩ := hp
      rw [hp, firstOpening?_opening]
      rfl
    · have hnot := firstOpening?_cons (s := before ++ opening ++ after) fun rest hr => hp ⟨rest, hr⟩
      rw [List.cons_append, List.cons_append, hnot, Option.isSome_map]
      exact ih

theorem firstOpening?_eq_none {s : List Char} (h : ∀ a b, s ≠ a ++ opening ++ b) :
    firstOpening? s = none := by
  cases hs : firstOpening? s with
  | none => rfl
  | some found =>
    obtain ⟨before, after⟩ := found
    exact absurd (firstOpening?_eq_some hs).1 (h before after)

/-! ## One segment in modern form -/

theorem modernised_modernise (s : List Char) : Modernised s (modernise s) := by
  rw [modernise]
  rcases hs : firstOpening? s with _ | ⟨before, _ | ⟨c, argument⟩⟩
  · apply Modernised.absent
    rintro a b rfl
    have := firstOpening?_append_isSome a b
    rw [hs] at this
    cases this
  · obtain ⟨rfl, hfirst⟩ := firstOpening?_eq_some hs
    rw [List.append_nil]
    exact .last hfirst
  · obtain ⟨rfl, hfirst⟩ := firstOpening?_eq_some hs
    exact .replaced hfirst (List.cons_ne_nil c argument)

theorem modernise_of_no_opening {s : List Char} (h : ∀ a b, s ≠ a ++ opening ++ b) :
    modernise s = s := by
  rw [modernise, firstOpening?_eq_none h]

theorem modernise_opening_append {after : List Char} (h : after ≠ []) :
    modernise (opening ++ after) = modernOpening ++ after := by
  obtain ⟨c, argument, rfl⟩ := List.exists_cons_of_ne_nil h
  rw [modernise, firstOpening?_opening]
  rfl

/-- Neither opening starts with the other one. -/
theorem openings_differ (after : List Char) :
    ¬ opening <+: modernOpening ++ after ∧ ¬ modernOpening <+: opening ++ after := by
  have hdiffer : ¬ opening <+: modernOpening := by decide
  refine ⟨fun h => hdiffer ?_, fun h => hdiffer ?_⟩
  · exact List.prefix_of_prefix_length_le h (List.prefix_append _ _) (by decide)
  · exact List.prefix_of_prefix_length_le (List.prefix_append _ _) h (by decide)

theorem modernOpening_append_ne (s : List Char) : ∀ after, modernOpening ++ s ≠ opening ++ after :=
  fun after heq => (openings_differ s).1 ⟨after, heq.symm⟩

theorem modernise_opening : modernise opening = opening := by
  have h := firstOpening?_opening []
  rw [List.append_nil] at h
  rw [modernise, h]

theorem modernise_cons {c : Char} {s : List Char} (h : ∀ after, c :: s ≠ opening ++ after) :
    modernise (c :: s) = c :: modernise s := by
  rw [modernise, modernise, firstOpening?_cons h]
  rcases firstOpening? s with _ | ⟨before, _ | ⟨d, argument⟩⟩
  · rfl
  · rfl
  · rfl

/-- An opening starts with its only dot, so no two openings overlap. -/
theorem opening_eq_dot : ∃ name, opening = '.' :: name ∧ '.' ∉ name :=
  ⟨opening.tail, by decide, by decide⟩

theorem modernOpening_eq_dot : ∃ name, modernOpening = '.' :: name ∧ '.' ∉ name :=
  ⟨modernOpening.tail, by decide, by decide⟩

/-- No opening starts at another character than a dot. -/
theorem ne_opening_append_of_ne_dot {c : Char} (h : c ≠ '.') (s : List Char) :
    ∀ after, c :: s ≠ opening ++ after := by
  intro after heq
  obtain ⟨name, hname, -⟩ := opening_eq_dot
  rw [hname] at heq
  exact h (List.cons.inj heq).1

theorem modernise_of_no_dot {s : List Char} (h : '.' ∉ s) : modernise s = s := by
  obtain ⟨name, hname, -⟩ := opening_eq_dot
  apply modernise_of_no_opening
  rintro a b rfl
  simp [hname] at h

/-! ## A pass over a segment -/

theorem read?_of_not_mem {t : List Char} (h : ')' ∉ t) : read? t = none := by
  cases hr : read? t with
  | none => rfl
  | some call =>
    obtain ⟨argument, rest⟩ := call
    rw [(read?_eq_some.mp hr).1] at h
    simp [deprecated] at h

theorem rewrite_of_not_mem {t : List Char} (h : ')' ∉ t) : rewrite t = ⟨t, 0⟩ := by
  induction t with
  | nil => exact rewrite_nil
  | cons c t ih =>
    rw [rewrite_cons (read?_of_not_mem h), ih fun ht => h (List.mem_cons_of_mem _ ht)]

/-- A call that starts a text fills the first segment from there on. -/
theorem read?_append_closing {s text argument rest : List Char} (hs : ')' ∉ s) :
    read? (s ++ ')' :: text) = some (argument, rest) ↔
      s = opening ++ argument ∧ argument ≠ [] ∧ rest = text := by
  rw [read?_eq_some]
  constructor
  · rintro ⟨heq, hne, harg⟩
    have hcall : ')' ∉ opening ++ argument := by
      rw [List.mem_append]
      exact not_or.mpr ⟨not_mem_opening, harg⟩
    have heq' : s ++ ')' :: text = (opening ++ argument) ++ ')' :: rest := by
      simpa [deprecated] using heq
    obtain ⟨rfl, rfl⟩ := append_closing_inj hs hcall heq'
    exact ⟨rfl, hne, rfl⟩
  · rintro ⟨rfl, hne, rfl⟩
    refine ⟨by simp [deprecated], hne, fun harg => hs (List.mem_append_right _ harg)⟩

/-- A pass turns the first segment into its modern form and goes on after it. -/
theorem rewrite_append_closing {s : List Char} (hs : ')' ∉ s) (text : List Char) :
    rewrite (s ++ ')' :: text) = ⟨modernise s ++ ')' :: (rewrite text).content,
      (rewrite text).replacements + if modernise s = s then 0 else 1⟩ := by
  induction s with
  | nil =>
    have hr : read? (')' :: text) = none := by
      cases hr : read? (')' :: text) with
      | none => rfl
      | some call =>
        obtain ⟨hempty, -⟩ := (read?_append_closing (s := []) hs).mp hr
        exact absurd (List.append_eq_nil_iff.mp hempty.symm).1 opening_ne_nil
    rw [List.nil_append, rewrite_cons hr]
    rfl
  | cons c s ih =>
    have ih := ih fun h => hs (List.mem_cons_of_mem _ h)
    cases hr : read? ((c :: s) ++ ')' :: text) with
    | some call =>
      obtain ⟨argument, rest⟩ := call
      obtain ⟨heq, hne, rfl⟩ := (read?_append_closing hs).mp hr
      rw [rewrite_of_read? hr, heq, modernise_opening_append hne,
        if_neg (modernOpening_append_ne _ _)]
      simp [modern]
    | none =>
      rw [List.cons_append] at hr ⊢
      rw [rewrite_cons hr, ih]
      by_cases hp : c :: s = opening
      · -- the opening ends where the `)` stands, and no other starts inside it
        have hdot : '.' ∉ s := by
          obtain ⟨name, hname, hdot⟩ := opening_eq_dot
          rwa [(List.cons.inj (hp.trans hname)).2]
        rw [hp, modernise_opening, modernise_of_no_dot hdot, ← hp]
        simp
      · have hnot : ∀ after, c :: s ≠ opening ++ after := by
          intro after heq
          by_cases hafter : after = []
          · exact hp (by rw [heq, hafter, List.append_nil])
          · have := (read?_append_closing hs).mpr ⟨heq, hafter, @rfl _ text⟩
            rw [List.cons_append, hr] at this
            cases this
        simp [modernise_cons hnot]

/-! ## A pass over a text -/

theorem rewrite_eq_joined (text : List Char) :
    rewrite text = ⟨joined ((segments text).map modernise) (remainder text),
      (segments text).countP fun s => modernise s ≠ s⟩ := by
  induction text using segmentwise with
  | rest t ht =>
    rw [rewrite_of_not_mem ht, segments_of_not_mem ht, remainder_of_not_mem ht]
    rfl
  | segment s text hs ih =>
    rw [rewrite_append_closing hs, segments_append_closing hs, remainder_append_closing hs, ih]
    by_cases hsame : modernise s = s
    · simp [hsame]
    · simp [hsame]

theorem rewrite_append (a b : List Char) :
    rewrite (a ++ ')' :: b) = ⟨(rewrite (a ++ [')'])).content ++ (rewrite b).content,
      (rewrite (a ++ [')'])).replacements + (rewrite b).replacements⟩ := by
  have hrem : remainder (a ++ [')']) = [] := by
    rw [remainder_append, remainder_of_not_mem (by simp)]
  rw [rewrite_eq_joined, rewrite_eq_joined (a ++ [')']), rewrite_eq_joined b, segments_append,
    remainder_append, hrem, List.map_append, joined_append, List.countP_append]

/-- **The closed form of a pass.** A text is in one way a sequence of segments, each closed by a
`)`, and a remainder without one. A pass replaces the first opening of each segment, where a
character of the segment follows it, keeps all else, and counts the segments it changed. So it may
be taken apart at every `)`. -/
theorem rewrite_closed_form (text : List Char) :
    (∀ ss t, joined ss t = text ∧ (∀ s ∈ ss, ')' ∉ s) ∧ ')' ∉ t ↔
      ss = segments text ∧ t = remainder text) ∧
    (∀ s, Modernised s (modernise s)) ∧
    (rewrite text).content = joined ((segments text).map modernise) (remainder text) ∧
    (rewrite text).replacements = (segments text).countP (fun s => modernise s ≠ s) ∧
    ∀ more,
      (rewrite (text ++ ')' :: more)).content =
        (rewrite (text ++ [')'])).content ++ (rewrite more).content ∧
      (rewrite (text ++ ')' :: more)).replacements =
        (rewrite (text ++ [')'])).replacements + (rewrite more).replacements := by
  refine ⟨?_, modernised_modernise, by rw [rewrite_eq_joined], by rw [rewrite_eq_joined], ?_⟩
  · intro ss t
    constructor
    · rintro ⟨rfl, hss, ht⟩
      obtain ⟨h₁, h₂⟩ := segments_joined hss ht
      exact ⟨h₁.symm, h₂.symm⟩
    · rintro ⟨rfl, rfl⟩
      exact ⟨joined_segments text, fun s => not_mem_of_mem_segments, not_mem_remainder text⟩
  · intro more
    rw [rewrite_append]
    exact ⟨rfl, rfl⟩

end OpacityMigration.Call
