import OpacityMigration.Text.Place
import Mathlib.Data.List.DropRight
import Mathlib.Data.Prod.Lex

/-!
# Places and lines

The lines of a text are what stands before, between and after its line feeds. A place is found by
looking back from a byte to the line feed before it, counting the line feeds on the way, and on to
the next one. Said with the lines of the text: the place of a byte names the line that the byte is
on, or the line feed after it, and the lines before that line, with their line feeds, are as many
bytes as the byte comes after.

* `length_lines`, `linesSize_lines`: how many lines a text has, and how many bytes they are.
* `locate_size`: the place between two parts of a text.
* `Place.Marks`, `marks_locate`: what a place says of its byte.
* `Place.Marks.lt_iff`: the bytes of a text are in the order of their places.
-/

namespace OpacityMigration.Text

open Utf8

variable {text before after line : List Char} {offset offset' : Nat} {p p' : Place}

/-! ## Lines -/

/-- What stands before, between and after the line feeds of a text. -/
def lines (text : List Char) : List (List Char) :=
  text.splitOn '\n'

/-- How many bytes lines are, each with its line feed. -/
def linesSize (ls : List (List Char)) : Nat :=
  ls.foldr (fun line bytes => size line + 1 + bytes) 0

@[simp] theorem linesSize_nil : linesSize [] = 0 := rfl

@[simp] theorem linesSize_cons (line : List Char) (ls : List (List Char)) :
    linesSize (line :: ls) = size line + 1 + linesSize ls := rfl

@[simp] theorem linesSize_append (ls ls' : List (List Char)) :
    linesSize (ls ++ ls') = linesSize ls + linesSize ls' := by
  induction ls with
  | nil => simp
  | cons line ls ih => simp [ih, Nat.add_assoc]

theorem lines_of_not_mem (h : '\n' ∉ text) : lines text = [text] :=
  List.splitOn_eq_singleton h

theorem lines_append (before after : List Char) :
    lines (before ++ '\n' :: after) = lines before ++ lines after :=
  List.splitOn_append_cons_self before after

theorem lines_line (h : '\n' ∉ line) (after : List Char) :
    lines (line ++ '\n' :: after) = line :: lines after :=
  List.splitOn_append_cons_self_of_not_mem h after

/-- A character is on the first line, or ends it. -/
theorem lines_cons (c : Char) (text : List Char) :
    ∃ line ls, lines text = line :: ls ∧
      lines (c :: text) = if c = '\n' then [] :: line :: ls else (c :: line) :: ls := by
  obtain ⟨line, ls, h⟩ := List.exists_cons_of_ne_nil (List.splitOn_ne_nil '\n' text)
  refine ⟨line, ls, h, ?_⟩
  rw [lines, List.splitOn_cons_eq_if_modifyHead, h]
  by_cases hc : c = '\n'
  · simp [hc]
  · simp [hc]

/-- A text has one line more than line feeds. -/
theorem length_lines (text : List Char) : (lines text).length = text.count '\n' + 1 := by
  induction text with
  | nil => rfl
  | cons c text ih =>
    obtain ⟨line, ls, htext, hcons⟩ := lines_cons c text
    rw [htext] at ih
    rw [hcons, List.count_cons]
    by_cases hc : c = '\n'
    · simpa [hc] using ih
    · simpa [hc] using ih

/-- The lines of a text are its bytes, but for a line feed after the last one. -/
theorem linesSize_lines (text : List Char) : linesSize (lines text) = size text + 1 := by
  induction text with
  | nil => rfl
  | cons c text ih =>
    obtain ⟨line, ls, htext, hcons⟩ := lines_cons c text
    rw [htext, linesSize_cons] at ih
    rw [hcons, size_cons]
    by_cases hc : c = '\n'
    · have hsize : '\n'.utf8Size = 1 := by decide
      simp only [hc, if_true, linesSize_cons, size_nil, hsize]
      omega
    · simp only [hc, if_false, linesSize_cons, size_cons]
      omega

/-! ## Boundaries of characters -/

/-- A character of the text starts at byte `offset`, or the text ends there. -/
def IsBoundary (text : List Char) (offset : Nat) : Prop :=
  ∃ before after, text = before ++ after ∧ offset = size before

/-! ## Carriage returns -/

/-- A line without the carriage returns at its end, which leave none. -/
def IsContext (line context : List Char) : Prop :=
  (∃ n, line = context ++ List.replicate n '\r') ∧ context.getLast? ≠ some '\r'

theorem isContext_trimReturns (line : List Char) : IsContext line (trimReturns line) := by
  constructor
  · refine ⟨(line.rtakeWhile (· == '\r')).length, ?_⟩
    have hreturns : line.rtakeWhile (· == '\r') =
        List.replicate (line.rtakeWhile (· == '\r')).length '\r' := by
      rw [List.eq_replicate_iff]
      exact ⟨rfl, fun c hc => by simpa using List.mem_rtakeWhile_imp hc⟩
    rw [← hreturns]
    exact List.rdropWhile_append_rtakeWhile.symm
  · intro hlast
    obtain ⟨hne, hreturn⟩ := List.mem_getLast?_eq_getLast hlast
    have hnot := List.rdropWhile_last_not (· == '\r') line hne
    exact hnot (beq_iff_eq.mpr hreturn.symm)

/-- What ends in another character is kept when carriage returns are taken off what follows. -/
theorem trimReturns_append (h : before.getLast? ≠ some '\r') (after : List Char) :
    trimReturns (before ++ after) = before ++ trimReturns after := by
  have hkept : before.rdropWhile (· == '\r') = before := by
    rw [List.rdropWhile_eq_self_iff]
    intro hne hreturn
    rw [List.getLast?_eq_some_getLast hne, beq_iff_eq.mp hreturn] at h
    exact h rfl
  unfold trimReturns
  rw [List.reverse_append, List.dropWhile_append]
  split
  · rename_i hnone
    rw [List.isEmpty_iff.mp hnone, List.reverse_nil, List.append_nil]
    exact hkept
  · rw [List.reverse_append, List.reverse_reverse]

/-! ## The place between two parts of a text -/

/-- The part of a text after its last line feed. -/
def lastLine (text : List Char) : List Char :=
  text.rtakeWhile onLine

/-- The part of a text before its first line feed. -/
def firstLine (text : List Char) : List Char :=
  text.takeWhile onLine

theorem onLine_iff {c : Char} : onLine c = true ↔ c ≠ '\n' := by
  simp [onLine]

theorem not_mem_lastLine (text : List Char) : '\n' ∉ lastLine text := by
  intro h
  exact onLine_iff.mp (List.mem_rtakeWhile_imp h) rfl

theorem not_mem_firstLine (text : List Char) : '\n' ∉ firstLine text := by
  intro h
  exact onLine_iff.mp (List.mem_takeWhile_imp h) rfl

theorem firstLine_append (h : '\n' ∉ before) (after : List Char) :
    firstLine (before ++ after) = before ++ firstLine after := by
  refine List.takeWhile_append_of_pos ?_
  intro c hc
  exact onLine_iff.mpr fun hfeed => h (hfeed ▸ hc)

theorem firstLine_eq (h : '\n' ∉ line) (after : List Char) :
    firstLine (line ++ '\n' :: after) = line := by
  rw [firstLine_append h]
  exact List.append_nil line

/-- A text is its last line, or a line feed stands before that. -/
theorem eq_lastLine_or (text : List Char) :
    text = lastLine text ∨ ∃ front, text = front ++ '\n' :: lastLine text := by
  have hcut : text.rdropWhile onLine ++ lastLine text = text :=
    List.rdropWhile_append_rtakeWhile
  by_cases hfront : text.rdropWhile onLine = []
  · rw [hfront, List.nil_append] at hcut
    exact .inl hcut.symm
  · have hlast : (text.rdropWhile onLine).getLast hfront = '\n' := by
      have hnot := List.rdropWhile_last_not onLine text hfront
      rwa [onLine_iff, not_not] at hnot
    refine .inr ⟨(text.rdropWhile onLine).dropLast, ?_⟩
    rw [← hlast, ← List.singleton_append, ← List.append_assoc, List.dropLast_append_getLast, hcut]

/-- A text is its first line, or a line feed stands after that. -/
theorem eq_firstLine_or (text : List Char) :
    text = firstLine text ∨ ∃ back, text = firstLine text ++ '\n' :: back := by
  have hcut : firstLine text ++ text.dropWhile onLine = text :=
    List.takeWhile_append_dropWhile
  cases hback : text.dropWhile onLine with
  | nil =>
    rw [hback, List.append_nil] at hcut
    exact .inl hcut.symm
  | cons c back =>
    have hc : c = '\n' := by
      have hnot := List.head?_dropWhile_not onLine text
      rw [hback] at hnot
      simpa [onLine] using hnot
    rw [hback, hc] at hcut
    exact .inr ⟨back, hcut.symm⟩

theorem size_reverse (text : List Char) : size text.reverse = size text := by
  induction text with
  | nil => rfl
  | cons c text ih =>
    rw [List.reverse_cons, size_append, ih, size_cons, size_cons, size_nil, Nat.add_zero,
      Nat.add_comm]

/-- The line of a byte between two characters does not start after it. -/
theorem lineStart_le (h : IsBoundary text offset) :
    size ((cut text offset).1.dropWhile onLine) ≤ offset := by
  obtain ⟨before, after, rfl, rfl⟩ := h
  have hcut := congrArg size (@List.takeWhile_append_dropWhile _ onLine before.reverse)
  rw [size_append, size_reverse] at hcut
  rw [cut_size]
  show size (before.reverse.dropWhile onLine) ≤ size before
  omega

theorem locate_size (before after : List Char) :
    locate (before ++ after) (size before) =
      ⟨before.count '\n' + 1, size (lastLine before) + 1,
        trimReturns (lastLine before ++ firstLine after)⟩ := by
  have hcut : before.rdropWhile onLine ++ lastLine before = before :=
    List.rdropWhile_append_rtakeWhile
  have hstart : size (before.reverse.dropWhile onLine) = size (before.rdropWhile onLine) :=
    (size_reverse _).symm
  have hsize : size (before.rdropWhile onLine) + size (lastLine before) = size before := by
    rw [← size_append, hcut]
  have hcolumn : size before - size (before.rdropWhile onLine) = size (lastLine before) := by
    omega
  rw [locate, cut_size]
  simp only [List.count_reverse, hstart, hcolumn]
  rfl

/-- The line between two parts of a text, with the lines before and after it. -/
theorem lines_around (before after : List Char) :
    ∃ ls ls', lines (before ++ after) = ls ++ (lastLine before ++ firstLine after) :: ls' ∧
      ls.length = before.count '\n' ∧ size before = linesSize ls + size (lastLine before) := by
  obtain ⟨ls', hrest⟩ : ∃ ls', lines (lastLine before ++ after) =
      (lastLine before ++ firstLine after) :: ls' := by
    have hline : '\n' ∉ lastLine before ++ firstLine after := by
      rw [List.mem_append]
      exact not_or.mpr ⟨not_mem_lastLine before, not_mem_firstLine after⟩
    rcases eq_firstLine_or after with hafter | ⟨back, hafter⟩
    · refine ⟨[], ?_⟩
      rw [← lines_of_not_mem hline, ← hafter]
    · refine ⟨lines back, ?_⟩
      rw [← lines_line hline, List.append_assoc, ← hafter]
  rcases eq_lastLine_or before with hbefore | ⟨front, hbefore⟩
  · refine ⟨[], ls', ?_, ?_, ?_⟩
    · rw [List.nil_append, ← hrest, ← hbefore]
    · rw [List.length_nil, eq_comm, List.count_eq_zero, hbefore]
      exact not_mem_lastLine before
    · rw [linesSize_nil, Nat.zero_add, ← hbefore]
  · refine ⟨lines front, ls', ?_, ?_, ?_⟩
    · rw [← hrest, ← lines_append, ← List.cons_append, ← List.append_assoc, ← hbefore]
    · have hcount : (lastLine before).count '\n' = 0 :=
        List.count_eq_zero.mpr (not_mem_lastLine before)
      rw [length_lines, hbefore, List.count_append, List.count_cons_self]
      omega
    · have hsize : size before = size (front ++ '\n' :: lastLine before) := congrArg size hbefore
      have hfeed : '\n'.utf8Size = 1 := by decide
      rw [size_append, size_cons, hfeed] at hsize
      rw [linesSize_lines]
      omega

/-! ## Places as marks of bytes -/

/-- The place of byte `offset` said with the lines of the text: `line` is the line it names, and
`earlier` are the lines before. The line starts and stops between two characters. -/
structure Place.Marks (p : Place) (text : List Char) (offset : Nat) (earlier : List (List Char))
    (line : List Char) : Prop where
  lines_eq : ∃ later, lines text = earlier ++ line :: later
  line_eq : p.line = earlier.length + 1
  column_pos : 1 ≤ p.column
  column_le : p.column ≤ size line + 1
  offset_eq : offset = linesSize earlier + (p.column - 1)
  start : IsBoundary text (linesSize earlier)
  stop : IsBoundary text (linesSize earlier + size line)
  context : IsContext line p.context

theorem marks_locate (h : IsBoundary text offset) :
    ∃ earlier line, (locate text offset).Marks text offset earlier line := by
  obtain ⟨before, after, rfl, rfl⟩ := h
  obtain ⟨earlier, later, hlines, hlength, hsize⟩ := lines_around before after
  have hbefore : before.rdropWhile onLine ++ lastLine before = before :=
    List.rdropWhile_append_rtakeWhile
  have hafter : firstLine after ++ after.dropWhile onLine = after :=
    List.takeWhile_append_dropWhile
  rw [locate_size]
  refine ⟨earlier, lastLine before ++ firstLine after, ?_⟩
  exact
    { lines_eq := ⟨later, hlines⟩
      line_eq := congrArg (· + 1) hlength.symm
      column_pos := Nat.le_add_left 1 _
      column_le := by
        rw [size_append]
        exact Nat.add_le_add_right (Nat.le_add_right _ _) 1
      offset_eq := hsize
      start := by
        refine ⟨before.rdropWhile onLine, lastLine before ++ after, ?_, ?_⟩
        · rw [← List.append_assoc, hbefore]
        · have hfront := congrArg size hbefore
          rw [size_append] at hfront
          omega
      stop := by
        refine ⟨before ++ firstLine after, after.dropWhile onLine, ?_, ?_⟩
        · rw [List.append_assoc, hafter]
        · rw [size_append, size_append]
          omega
      context := isContext_trimReturns _ }

/-! ## The order of places -/

/-- The line and the column, compared in this order. -/
def Place.position (p : Place) : Nat ×ₗ Nat :=
  toLex (p.line, p.column)

theorem Place.position_lt_iff :
    p.position < p'.position ↔ p.line < p'.line ∨ p.line = p'.line ∧ p.column < p'.column :=
  Prod.Lex.toLex_lt_toLex

namespace Place.Marks

variable {earlier earlier' : List (List Char)} {line line' : List Char}

/-- A line that is named by a smaller number ends before another one starts. -/
theorem lt_of_line_lt (h : p.Marks text offset earlier line)
    (h' : p'.Marks text offset' earlier' line') (hlt : p.line < p'.line) : offset < offset' := by
  obtain ⟨later, hlines⟩ := h.lines_eq
  obtain ⟨later', hlines'⟩ := h'.lines_eq
  have hlength := h.line_eq
  have hlength' := h'.line_eq
  have hprefix : earlier ++ [line] <+: lines text :=
    ⟨later, by rw [hlines, List.append_assoc, List.singleton_append]⟩
  have hprefix' : earlier' <+: lines text := ⟨line' :: later', hlines'.symm⟩
  obtain ⟨between, hbetween⟩ := List.prefix_of_prefix_length_le hprefix hprefix' (by
    rw [List.length_append, List.length_singleton]
    omega)
  have hsize := congrArg linesSize hbetween
  simp only [linesSize_append, linesSize_cons, linesSize_nil] at hsize
  have hoffset := h.offset_eq
  have hoffset' := h'.offset_eq
  have hcolumn := h.column_le
  omega

/-- What stands before a line does not depend on the place that names it. -/
theorem linesSize_eq (h : p.Marks text offset earlier line)
    (h' : p'.Marks text offset' earlier' line') (heq : p.line = p'.line) :
    linesSize earlier = linesSize earlier' := by
  obtain ⟨later, hlines⟩ := h.lines_eq
  obtain ⟨later', hlines'⟩ := h'.lines_eq
  have hlength : earlier.length = earlier'.length := by
    have := h.line_eq
    have := h'.line_eq
    omega
  rw [(List.append_inj (hlines.symm.trans hlines') hlength).1]

/-- The bytes of a text are in the order of their places. -/
theorem lt_iff (h : p.Marks text offset earlier line)
    (h' : p'.Marks text offset' earlier' line') : offset < offset' ↔ p.position < p'.position := by
  rw [Place.position_lt_iff]
  rcases Nat.lt_trichotomy p.line p'.line with hlt | heq | hgt
  · exact iff_of_true (h.lt_of_line_lt h' hlt) (.inl hlt)
  · have hearlier := h.linesSize_eq h' heq
    have hoffset := h.offset_eq
    have hoffset' := h'.offset_eq
    have hcolumn := h.column_pos
    have hcolumn' := h'.column_pos
    omega
  · have hoffset := h'.lt_of_line_lt h hgt
    omega

end Place.Marks

end OpacityMigration.Text
