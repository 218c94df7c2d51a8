import OpacityMigration.Json.Lexeme
import OpacityMigration.Json.Printer
import Mathlib.Tactic.SplitIfs

/-!
# Strings are read back

What the printer writes for a character, the reader reads as that character, whether it stands for
itself, is a letter after a backslash, or a number. The closing quote of a string is none of these,
because a quote in the string is escaped.

* `escape_form`, `readStringFrom_escape`: how a character is written, and that it is read back.
* `readString_escape`: a string of any characters, with whatever comes after it.
-/

namespace OpacityMigration.Json

/-- The reader goes over an escape and takes the character it stands for. -/
theorem readStringFrom_backslash (done : List Char) {body rest : List Char} {c : Char}
    (h : readEscape body = .ok (c, rest)) :
    readStringFrom done ('\\' :: body) = readStringFrom (c :: done) rest := by
  rw [readStringFrom, if_neg (by decide), if_pos rfl]
  split
  · next fault hfault =>
    rw [h] at hfault
    cases hfault
  · next d more hread =>
    rw [h] at hread
    cases hread
    rfl

theorem readStringFrom_plain (done rest : List Char) {c : Char} (hquote : c ≠ '"')
    (hslash : c ≠ '\\') (hcontrol : ¬ c < ' ') :
    readStringFrom done (c :: rest) = readStringFrom (c :: done) rest := by
  rw [readStringFrom, if_neg hquote, if_neg hslash, if_neg hcontrol]

theorem readEscape_letter {letter c : Char} (rest : List Char) (hu : letter ≠ 'u')
    (h : escaped? letter = some c) : readEscape (letter :: rest) = .ok (c, rest) := by
  simp only [readEscape, if_neg hu, h]

/-- The two digits that the printer writes after `00` are the number of a control character. -/
theorem hexValues?_hexDigit :
    ∀ n < 32, hexValues? '0' '0' (hexDigit (n / 16)) (hexDigit n) = some n := by
  decide

theorem readEscape_number {c : Char} (rest : List Char) (h : c < ' ') :
    readEscape ('u' :: '0' :: '0' :: hexDigit (c.toNat / 16) :: hexDigit c.toNat :: rest) =
      .ok (c, rest) := by
  have hlt : c.toNat < 32 := h
  have hhex : readHex ('0' :: '0' :: hexDigit (c.toNat / 16) :: hexDigit c.toNat :: rest) =
      .ok (c.toNat, rest) := by
    simp only [readHex, hexValues?_hexDigit c.toNat hlt]
  have htrailing : isTrailing c.toNat = false := by
    simp only [isTrailing, Bool.and_eq_false_iff, decide_eq_false_iff_not]
    omega
  have hleading : isLeading c.toNat = false := by
    simp only [isLeading, Bool.and_eq_false_iff, decide_eq_false_iff_not]
    omega
  simp only [readEscape, if_true, readNumbered, hhex, htrailing, hleading, Bool.false_eq_true,
    if_false, Char.ofNat_toNat]

/-- The three ways in which a character of a string is written. -/
inductive Escape (c : Char) : List Char → Prop
  | letter {letter : Char} (hu : letter ≠ 'u') (h : escaped? letter = some c) :
      Escape c ['\\', letter]
  | number (h : c < ' ') :
      Escape c ['\\', 'u', '0', '0', hexDigit (c.toNat / 16), hexDigit c.toNat]
  | plain (hquote : c ≠ '"') (hslash : c ≠ '\\') (hcontrol : ¬ c < ' ') : Escape c [c]

theorem escape_form (c : Char) : Escape c (escape c) := by
  unfold escape
  split_ifs with hquote hslash hback hfeed hline hreturn htab hcontrol
  · subst hquote
    exact .letter (by decide) (by decide)
  · subst hslash
    exact .letter (by decide) (by decide)
  · subst hback
    exact .letter (by decide) (by decide)
  · subst hfeed
    exact .letter (by decide) (by decide)
  · subst hline
    exact .letter (by decide) (by decide)
  · subst hreturn
    exact .letter (by decide) (by decide)
  · subst htab
    exact .letter (by decide) (by decide)
  · exact .number hcontrol
  · exact .plain hquote hslash hcontrol

/-- The reader takes one character off what the printer writes for it. -/
theorem readStringFrom_escape (done rest : List Char) (c : Char) :
    readStringFrom done (escape c ++ rest) = readStringFrom (c :: done) rest := by
  have hform := escape_form c
  generalize escape c = written at hform ⊢
  cases hform with
  | letter hu h => exact readStringFrom_backslash done (readEscape_letter rest hu h)
  | number h => exact readStringFrom_backslash done (readEscape_number rest h)
  | plain hquote hslash hcontrol => exact readStringFrom_plain done rest hquote hslash hcontrol

/-- A string is read back from what the printer writes between the quotes. -/
theorem readString_escape (s : String) (rest : List Char) :
    readString (s.toList.flatMap escape ++ '"' :: rest) = .ok (s, rest) := by
  have hall : ∀ (cs done : List Char), readStringFrom done (cs.flatMap escape ++ '"' :: rest) =
      .ok (String.ofList (done.reverse ++ cs), rest) := by
    intro cs
    induction cs with
    | nil =>
      intro done
      rw [List.flatMap_nil, List.nil_append, readStringFrom, if_pos rfl, List.append_nil]
    | cons c cs ih =>
      intro done
      rw [List.flatMap_cons, List.append_assoc, readStringFrom_escape, ih, List.reverse_cons,
        List.append_assoc, List.singleton_append]
  rw [readString, hall, List.reverse_nil, List.nil_append, String.ofList_toList]

end OpacityMigration.Json
