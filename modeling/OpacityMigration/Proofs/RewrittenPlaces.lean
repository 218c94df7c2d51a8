import OpacityMigration.Proofs.CallCounts
import OpacityMigration.Proofs.Lines

/-!
# Places in a rewritten text

A pass makes each call six bytes longer and touches no line feed. So the modern call that takes the
place of an occurrence starts later by six bytes for each occurrence before it, on the same line,
and its column grows by six for each of those whose opening is on that line too. An argument may
hold line feeds: what counts is where the opening stands, as the bytes that are added are in it.

An occurrence cuts both texts. What stands before it is searched and rewritten as if it were alone
(`find_eq_append`), so the columns are compared by what a pass does to a last line
(`size_lastLine_rewrite`).

* `rewrite_keeps_lines` puts these together.
-/

namespace OpacityMigration

open Utf8

/-! ## Last lines -/

namespace Text

theorem lastLine_append (before after : List Char) :
    lastLine (before ++ after) =
      if '\n' ∈ after then lastLine after else lastLine before ++ after := by
  induction after using List.reverseRecOn with
  | nil => rw [List.append_nil, if_neg List.not_mem_nil, List.append_nil]
  | append_singleton after c ih =>
    have hlast (text : List Char) :
        lastLine (text ++ [c]) = if c = '\n' then [] else lastLine text ++ [c] := by
      rw [lastLine, List.rtakeWhile_concat, ← lastLine]
      simp only [onLine_iff, ite_not]
    rw [← List.append_assoc, hlast, hlast, ih]
    by_cases hc : c = '\n'
    · have hfeed : '\n' ∈ after ++ [c] := by simp [hc]
      rw [if_pos hc, if_pos hc, if_pos hfeed]
    · have hfeed : '\n' ∈ after ++ [c] ↔ '\n' ∈ after := by simp [Ne.symm hc]
      rw [if_neg hc, if_neg hc]
      by_cases hafter : '\n' ∈ after
      · rw [if_pos hafter, if_pos (hfeed.mpr hafter)]
      · rw [if_neg hafter, if_neg (hfeed.not.mpr hafter), List.append_assoc]

/-- A text without line feeds is its last line. -/
theorem lastLine_of_not_mem {text : List Char} (h : '\n' ∉ text) : lastLine text = text := by
  rw [← List.nil_append text, lastLine_append, if_neg h]
  rfl

theorem size_lastLine_append (before after : List Char) :
    size (lastLine (before ++ after)) =
      size (lastLine after) + if '\n' ∈ after then 0 else size (lastLine before) := by
  rw [lastLine_append]
  split
  · rfl
  · rename_i h
    rw [size_append, lastLine_of_not_mem h, Nat.add_comm]

/-- No line feed is among the bytes from `start` up to `stop`. -/
def NoFeed (text : List Char) (start stop : Nat) : Prop :=
  0x0A ∉ ((encode text).take stop).drop start

instance (text : List Char) (start stop : Nat) : Decidable (NoFeed text start stop) :=
  inferInstanceAs (Decidable (_ ∉ _))

theorem noFeed_append (front text : List Char) (start stop : Nat) :
    NoFeed (front ++ text) (start + size front) (stop + size front) ↔ NoFeed text start stop := by
  rw [NoFeed, encode_append, ← length_encode, Nat.add_comm start, Nat.add_comm stop,
    List.take_length_add_append, List.drop_length_add_append]
  rfl

/-- Up to the end of `before` it does not matter what follows. -/
theorem noFeed_before (before after : List Char) (start : Nat) :
    NoFeed (before ++ after) start (size before) ↔ NoFeed before start (size before) := by
  rw [NoFeed, NoFeed, encode_append, ← length_encode, List.take_left, List.take_length]

theorem noFeed_after (before after : List Char) :
    NoFeed (before ++ after) (size before) (size (before ++ after)) ↔ '\n' ∉ after := by
  rw [NoFeed, ← length_encode, ← length_encode, List.take_length, encode_append, List.drop_left,
    feed_mem_encode_iff]

end Text

namespace Call

open Text

variable {text : List Char} {o : Occurrence} {os os' : List Occurrence}

/-! ## What a pass does to a last line -/

theorem feed_mem_rewrite_iff (text : List Char) :
    '\n' ∈ (rewrite text).content ↔ '\n' ∈ text := by
  rw [← List.count_pos_iff, ← List.count_pos_iff, count_rewrite (by decide)]

/-- How many of the occurrences have their opening on the line of byte `stop`. -/
def countOnLine (text : List Char) (stop : Nat) (os : List Occurrence) : Nat :=
  os.countP fun o => NoFeed text (o.start + size opening) stop

theorem countOnLine_shift (front text : List Char) (os : List Occurrence) :
    countOnLine (front ++ text) (size (front ++ text)) (os.map (Occurrence.shift (size front))) =
      countOnLine text (size text) os := by
  rw [countOnLine, countOnLine, List.countP_map]
  refine List.countP_congr fun o _ => ?_
  have hstart : (o.shift (size front)).start + size opening =
      o.start + size opening + size front := Nat.add_right_comm _ _ _
  rw [Function.comp_apply, decide_eq_true_iff, decide_eq_true_iff, hstart, size_append,
    Nat.add_comm (size front), noFeed_append]

theorem countOnLine_before (before after : List Char) (os : List Occurrence) :
    countOnLine (before ++ after) (size before) os = countOnLine before (size before) os := by
  refine List.countP_congr fun o _ => ?_
  rw [decide_eq_true_iff, decide_eq_true_iff, noFeed_before]

/-- The last line of a modern call is longer than that of the deprecated one if the opening is on
it. -/
theorem size_lastLine_modern (argument : List Char) :
    size (lastLine (modern argument)) =
      size (lastLine (deprecated argument)) + if '\n' ∈ argument then 0 else 6 := by
  have hopenings : size (lastLine modernOpening) = size (lastLine opening) + 6 := by decide
  simp only [modern, deprecated, List.append_assoc, size_lastLine_append, hopenings]
  by_cases h : '\n' ∈ argument
  · simp [h]
  · simp [h]
    omega

theorem countOnLine_call (argument rest : List Char) (os : List Occurrence) :
    countOnLine (deprecated argument ++ rest) (size (deprecated argument ++ rest))
        (.ofArgument 0 argument :: os.map (Occurrence.shift (size (deprecated argument)))) =
      countOnLine rest (size rest) os +
        if '\n' ∈ rest then 0 else if '\n' ∈ argument then 0 else 1 := by
  have hopening : (Occurrence.ofArgument 0 argument).start + size opening = size opening :=
    Nat.zero_add _
  have hfirst : NoFeed (deprecated argument ++ rest)
      ((Occurrence.ofArgument 0 argument).start + size opening)
      (size (deprecated argument ++ rest)) ↔ '\n' ∉ argument ∧ '\n' ∉ rest := by
    have htext : deprecated argument ++ rest = opening ++ (argument ++ [')'] ++ rest) := by
      simp [deprecated]
    rw [hopening, htext, noFeed_after]
    simp
  rw [countOnLine, List.countP_cons, ← countOnLine, countOnLine_shift]
  simp only [hfirst, decide_eq_true_iff]
  by_cases hrest : '\n' ∈ rest
  · simp [hrest]
  · by_cases hargument : '\n' ∈ argument
    · simp [hrest, hargument]
    · simp [hrest, hargument]

/-- The last line of a text grows by six bytes for each occurrence whose opening is on it. -/
theorem size_lastLine_rewrite (text : List Char) :
    size (lastLine (rewrite text).content) =
      size (lastLine text) + 6 * countOnLine text (size text) (find text) := by
  induction text using callwise with
  | nil =>
    rw [rewrite_nil, find_nil]
    rfl
  | call argument rest h ih =>
    rw [rewrite_of_read? h, find_of_read? h, countOnLine_call, size_lastLine_append,
      size_lastLine_append, ih, size_lastLine_modern]
    simp only [feed_mem_rewrite_iff]
    by_cases hrest : '\n' ∈ rest
    · simp [hrest]
    · by_cases hargument : '\n' ∈ argument
      · simp [hrest, hargument]
        omega
      · simp [hrest, hargument]
        omega
  | char c rest h ih =>
    have hcount := countOnLine_shift [c] rest (find rest)
    rw [rewrite_cons h, find_cons h]
    show size (lastLine ([c] ++ (rewrite rest).content)) = size (lastLine ([c] ++ rest)) +
      6 * countOnLine ([c] ++ rest) (size ([c] ++ rest))
        ((find rest).map (Occurrence.shift (size [c])))
    rw [hcount, size_lastLine_append, size_lastLine_append, ih]
    simp only [feed_mem_rewrite_iff]
    omega

/-! ## The text before an occurrence -/

/-- What starts with no call does not start with one when less of it is looked at. -/
theorem read?_eq_none_of_append {front rest : List Char} (h : read? (front ++ rest) = none) :
    read? front = none := by
  cases hfront : read? front with
  | none => rfl
  | some found =>
    obtain ⟨argument, more⟩ := found
    obtain ⟨rfl, hne, harg⟩ := read?_eq_some.mp hfront
    rw [List.append_assoc, read?_deprecated hne harg] at h
    cases h

/-- What stands before an occurrence is searched and rewritten by itself. -/
theorem find_eq_append (h : find text = os ++ o :: os') :
    ∃ before argument after, text = before ++ (deprecated argument ++ after) ∧
      find before = os ∧ o = .ofArgument (size before) argument ∧
      (rewrite text).content =
        (rewrite before).content ++ (modern argument ++ (rewrite after).content) := by
  induction text using callwise generalizing os o os' with
  | nil => simp at h
  | call argument rest hr ih =>
    rw [find_of_read? hr] at h
    cases os with
    | nil =>
      obtain ⟨rfl, -⟩ := List.cons.inj h
      exact ⟨[], argument, rest, rfl, find_nil, rfl, by simp [rewrite_of_read? hr]⟩
    | cons first os =>
      obtain ⟨rfl, hmore⟩ := List.cons.inj h
      obtain ⟨os₁, more, hsplit, rfl, hmap⟩ := List.map_eq_append_iff.mp hmore
      obtain ⟨o₁, os₂, rfl, rfl, rfl⟩ := List.map_eq_cons_iff.mp hmap
      obtain ⟨before, argument', after, rfl, rfl, rfl, hcontent⟩ := ih hsplit
      obtain ⟨-, hne, harg⟩ := read?_eq_some.mp hr
      have hbefore : read? (deprecated argument ++ before) = some (argument, before) :=
        read?_deprecated hne harg
      refine ⟨deprecated argument ++ before, argument', after, ?_, ?_, ?_, ?_⟩
      · rw [List.append_assoc]
      · rw [find_of_read? hbefore]
      · rw [Occurrence.shift_ofArgument, size_append, Nat.add_comm]
      · rw [rewrite_of_read? hr, rewrite_of_read? hbefore, hcontent, List.append_assoc]
  | char c rest hr ih =>
    rw [find_cons hr] at h
    obtain ⟨os₁, more, hsplit, rfl, hmap⟩ := List.map_eq_append_iff.mp h
    obtain ⟨o₁, os₂, rfl, rfl, rfl⟩ := List.map_eq_cons_iff.mp hmap
    obtain ⟨before, argument', after, rfl, rfl, rfl, hcontent⟩ := ih hsplit
    have hbefore : read? (c :: before) = none := read?_eq_none_of_append hr
    refine ⟨c :: before, argument', after, rfl, ?_, ?_, ?_⟩
    · rw [find_cons hbefore]
    · rw [Occurrence.shift_ofArgument, size_cons, Nat.add_comm]
    · rw [rewrite_cons hr, rewrite_cons hbefore, hcontent, List.cons_append]

/-- Occurrence number `i` with both texts around it. -/
theorem find_getElem? {i : Nat} (h : (find text)[i]? = some o) :
    ∃ before argument after, text = before ++ (deprecated argument ++ after) ∧
      find before = (find text).take i ∧ o = .ofArgument (size before) argument ∧
      (rewrite text).content =
        (rewrite before).content ++ (modern argument ++ (rewrite after).content) ∧
      size before + 6 * i = size (rewrite before).content := by
  obtain ⟨hi, ho⟩ := List.getElem?_eq_some_iff.mp h
  have hsplit : find text = (find text).take i ++ o :: (find text).drop (i + 1) := by
    rw [← ho, ← List.drop_eq_getElem_cons hi, List.take_append_drop]
  obtain ⟨before, argument, after, htext, hbefore, hoccurrence, hcontent⟩ := find_eq_append hsplit
  refine ⟨before, argument, after, htext, hbefore, hoccurrence, hcontent, ?_⟩
  rw [size_rewrite, hbefore, List.length_take_of_le (Nat.le_of_lt hi)]

/-! ## Occurrences in the rewritten text -/

/-- Where the modern call stands that takes the place of `o`, the occurrence `i` of a text. -/
structure Occurrence.Moves (o : Occurrence) (text : List Char) (i : Nat) : Prop where
  start : IsBoundary (rewrite text).content (o.start + 6 * i)
  stop : IsBoundary (rewrite text).content (o.stop + 6 * (i + 1))
  stands : ((encode (rewrite text).content).take (o.stop + 6 * (i + 1))).drop (o.start + 6 * i) =
    encode o.replacement
  line_eq : (locate (rewrite text).content (o.start + 6 * i)).line = (locate text o.start).line
  /-- An occurrence before it counts if its opening is on the line on which `o` starts. -/
  column_eq : (locate (rewrite text).content (o.start + 6 * i)).column =
    (locate text o.start).column + 6 * countOnLine text o.start ((find text).take i)

/-- **A pass keeps the lines of the calls.** The modern call for occurrence number `i` starts six
bytes later for each of the `i` occurrences before it, and stops six bytes later for these and for
itself. It is on the line of the occurrence, at a column that is larger by six for each of those
occurrences after whose opening no line feed comes up to the start of this one. -/
theorem rewrite_keeps_lines {i : Nat} (h : (find text)[i]? = some o) : o.Moves text i := by
  obtain ⟨before, argument, after, htext, hbefore, rfl, hcontent, hsize⟩ := find_getElem? h
  have hstop : size before + size (deprecated argument) + 6 * (i + 1) =
      size ((rewrite before).content ++ modern argument) := by
    rw [size_append, ← hsize, size_modern]
    omega
  have hcontent' : (rewrite text).content =
      (rewrite before).content ++ modern argument ++ (rewrite after).content := by
    rw [hcontent, List.append_assoc]
  have hplace := locate_size before (deprecated argument ++ after)
  have hplace' := locate_size (rewrite before).content (modern argument ++ (rewrite after).content)
  have hcount := countOnLine_before before (deprecated argument ++ after) (find before)
  rw [← htext] at hplace hcount
  rw [← hcontent, ← hsize] at hplace'
  rw [hbefore] at hcount
  constructor
  · exact ⟨_, _, hcontent, hsize⟩
  · exact ⟨_, _, hcontent', hstop⟩
  · dsimp only [Occurrence.ofArgument]
    rw [hstop, hsize, hcontent', ← length_encode, ← length_encode,
      encode_append _ (rewrite after).content, List.take_left, encode_append, List.drop_left]
  · dsimp only [Occurrence.ofArgument]
    rw [hplace, hplace', count_rewrite (by decide)]
  · dsimp only [Occurrence.ofArgument]
    rw [hplace, hplace', hcount, size_lastLine_rewrite, hbefore, Nat.add_right_comm]

/-- Three calls, the first of which ends on the line of the other two. -/
def threeCalls : List Char :=
  "é.withOpacity(1\n2).withOpacity(3).withOpacity(4)".toList

/-- The third call starts twelve bytes later, and six columns, as only the second one opens on its
line. -/
theorem rewrite_keeps_lines_threeCalls :
    (find threeCalls)[2]? =
        some ⟨34, 49, ".withOpacity(4)".toList, ".withValues(alpha: 4)".toList⟩ ∧
      Occurrence.Moves ⟨34, 49, ".withOpacity(4)".toList, ".withValues(alpha: 4)".toList⟩
        threeCalls 2 ∧
      countOnLine threeCalls 34 ((find threeCalls).take 2) = 1 ∧
      (locate threeCalls 34).line = 2 ∧ (locate threeCalls 34).column = 18 := by
  have hfirst : read? ".withOpacity(1\n2).withOpacity(3).withOpacity(4)".toList =
      some ("1\n2".toList, ".withOpacity(3).withOpacity(4)".toList) := by decide
  have hsecond : read? ".withOpacity(3).withOpacity(4)".toList =
      some (['3'], ".withOpacity(4)".toList) := by decide
  have hthird : read? ".withOpacity(4)".toList = some (['4'], []) := by decide
  have hfind : find threeCalls =
      [⟨2, 19, ".withOpacity(1\n2)".toList, ".withValues(alpha: 1\n2)".toList⟩,
        ⟨19, 34, ".withOpacity(3)".toList, ".withValues(alpha: 3)".toList⟩,
        ⟨34, 49, ".withOpacity(4)".toList, ".withValues(alpha: 4)".toList⟩] := by
    have htext : threeCalls =
        'é' :: ".withOpacity(1\n2).withOpacity(3).withOpacity(4)".toList := by decide
    rw [htext, find_cons (by decide), find_of_read? hfirst, find_of_read? hsecond,
      find_of_read? hthird, find_nil]
    decide
  have hoccurrence : (find threeCalls)[2]? =
      some ⟨34, 49, ".withOpacity(4)".toList, ".withValues(alpha: 4)".toList⟩ := by
    rw [hfind]
    rfl
  refine ⟨hoccurrence, rewrite_keeps_lines hoccurrence, ?_, by decide, by decide⟩
  rw [hfind]
  decide

end Call

end OpacityMigration
