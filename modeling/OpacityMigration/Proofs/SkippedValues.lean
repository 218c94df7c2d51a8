import OpacityMigration.Json.Skip
import OpacityMigration.Proofs.JsonDocuments
import Mathlib.Data.List.DropRight
import Mathlib.Tactic.SplitIfs

/-!
# Values that are passed over

A value that nobody asks for is passed over without being read. What can be read can be passed
over, and both leave the same rest. Reading asks for more: numbers that are not too large, halves of
pairs together in strings, and containers that are not too deep in others. Both go over a text in
the same order, so the proof goes along the reader, with what is due for the one beside what is due
for the other.

* `skipScalar?_of_readScalar?`: values that are no containers, with the strings before it
  (`skipString_of_readStringFrom`) and the numbers (`readNumeral_of_readNumber`).
* `nextItem_eq_first`, `nextItem_eq_later`, `nextMember_eq_first`, `nextMember_eq_later`: what comes
  next in a container.
* `passes_of_readFrom`, `skipValue_of_readValue`: all values.
-/

namespace OpacityMigration.Json

variable {text body rest : List Char}

/-! ## Strings -/

theorem readTrailing_eq_ok {leading : Nat} {c : Char}
    (h : readTrailing leading text = .ok (c, rest)) :
    ∃ digits n, text = '\\' :: 'u' :: digits ∧ readHex digits = .ok (n, rest) := by
  unfold readTrailing at h
  split at h
  · cases h
  · rename_i d more
    split at h
    · rename_i hbackslash
      split at h
      · cases h
      · rename_i u digits
        split at h
        · rename_i hu
          split at h
          · cases h
          · rename_i n more' hhex
            split at h
            · simp only [Except.ok.injEq, Prod.mk.injEq] at h
              exact ⟨digits, n, by rw [hbackslash, hu], by rw [hhex, h.2]⟩
            · cases h
        · cases h
    · cases h

theorem skipEscape_number {digits : List Char} {n : Nat} (h : readHex digits = .ok (n, rest)) :
    skipEscape ('u' :: digits) = .ok rest := by
  rw [skipEscape, if_pos rfl, h]
  rfl

/-- Where a character is read after a backslash, one escape is passed over, or two: the halves of a
pair. -/
theorem skipEscape_of_readEscape {c : Char} (h : readEscape text = .ok (c, rest)) :
    skipEscape text = .ok rest ∨
      ∃ escape, skipEscape text = .ok ('\\' :: escape) ∧ skipEscape escape = .ok rest := by
  unfold readEscape at h
  split at h
  · cases h
  · rename_i letter digits
    split at h
    · rename_i hletter
      unfold readNumbered at h
      split at h
      · cases h
      · rename_i n more hhex
        have hskip := skipEscape_number hhex
        rw [hletter]
        split at h
        · cases h
        · split at h
          · obtain ⟨digits', n', rfl, hhex'⟩ := readTrailing_eq_ok h
            exact Or.inr ⟨_, hskip, skipEscape_number hhex'⟩
          · simp only [Except.ok.injEq, Prod.mk.injEq] at h
            exact Or.inl (h.2 ▸ hskip)
    · rename_i hletter
      split at h
      · rename_i d hescaped
        simp only [Except.ok.injEq, Prod.mk.injEq] at h
        rw [skipEscape, if_neg hletter, hescaped, h.2]
        exact Or.inl rfl
      · cases h

theorem skipString_backslash {more : List Char} (h : skipEscape text = .ok more) :
    skipString ('\\' :: text) = skipString more := by
  conv => lhs; rw [skipString]
  rw [if_neg (by decide), if_pos rfl]
  split <;> simp_all

theorem skipString_of_readStringFrom {done : List Char} {s : String}
    (h : readStringFrom done text = .ok (s, rest)) : skipString text = .ok rest := by
  fun_induction readStringFrom done text with
  | case1 => cases h
  | case2 done more =>
    simp only [Except.ok.injEq, Prod.mk.injEq] at h
    rw [skipString, if_pos rfl, h.2]
  | case3 => cases h
  | case4 done after d more hescape hquote ih =>
    rw [← ih h]
    rcases skipEscape_of_readEscape hescape with hskip | ⟨escape, hfirst, hsecond⟩
    · exact skipString_backslash hskip
    · rw [skipString_backslash hfirst, skipString_backslash hsecond]
  | case5 => cases h
  | case6 done c more hquote hbackslash hcontrol ih =>
    rw [skipString, if_neg hquote, if_neg hbackslash, if_neg hcontrol]
    exact ih h

/-! ## Numbers -/

section

variable {ending : Cause} (ending' : Cause)

theorem readWhole_ok {digits : List Char} (h : readWhole ending text = .ok (digits, rest)) :
    readWhole ending' text = .ok (digits, rest) := by
  cases text with
  | nil => cases h
  | cons c more => exact h

theorem readFraction_ok {digits : List Char} (h : readFraction ending text = .ok (digits, rest)) :
    readFraction ending' text = .ok (digits, rest) := by
  unfold readFraction at h ⊢
  split at h
  · exact h
  · split at h
    · rename_i hpoint
      rw [if_pos hpoint]
      split at h
      · cases h
      · exact h
    · rename_i hpoint
      rwa [if_neg hpoint]

theorem readExponent_ok {exponent : Option (Bool × List Char)}
    (h : readExponent ending text = .ok (exponent, rest)) :
    readExponent ending' text = .ok (exponent, rest) := by
  unfold readExponent at h ⊢
  split at h
  · exact h
  · rename_i e more
    split at h
    · rename_i he
      rw [if_pos he]
      cases hsign : readSign more with
      | mk negative digits =>
        simp only [hsign] at h ⊢
        split at h
        · cases h
        · exact h
    · rename_i he
      rwa [if_neg he]

/-- The cause of refusing a text that ends too soon decides nothing else. -/
theorem readNumeral_ok {negative : Bool} {numeral : Numeral}
    (h : readNumeral ending negative text = .ok (numeral, rest)) :
    readNumeral ending' negative text = .ok (numeral, rest) := by
  unfold readNumeral at h ⊢
  split at h
  · cases h
  · rename_i hwhole
    split at h
    · cases h
    · rename_i hfraction
      split at h
      · cases h
      · rename_i hexponent
        simp only [readWhole_ok ending' hwhole, readFraction_ok ending' hfraction,
          readExponent_ok ending' hexponent]
        exact h

end

theorem readNumeral_of_readNumber {negative : Bool} {n : Number}
    (h : readNumber negative text = .ok (n, rest)) :
    (readNumeral .badNumber negative text).map Prod.snd = .ok rest := by
  unfold readNumber at h
  split at h
  · cases h
  · rename_i numeral more hnumeral
    split at h
    · simp only [Except.ok.injEq, Prod.mk.injEq] at h
      rw [readNumeral_ok .badNumber hnumeral, ← h.2]
      rfl
    · cases h

/-! ## Values that are no containers -/

theorem skipScalar?_of_readScalar? {v : Json} (h : readScalar? text = some (.ok (v, rest))) :
    skipScalar? text = some (.ok rest) := by
  unfold readScalar? at h
  split at h
  · cases h
  · rename_i c more
    rw [skipScalar?]
    split_ifs at h ⊢ with hnull htrue hfalse hminus hdigit hquote
    · rw [(word_eq_ok (Option.some.inj h)).1]
    · rw [(word_eq_ok (Option.some.inj h)).1]
    · rw [(word_eq_ok (Option.some.inj h)).1]
    · obtain ⟨n, hnumber, -⟩ := map_eq_ok (Option.some.inj h)
      rw [readNumeral_of_readNumber hnumber]
    · obtain ⟨n, hnumber, -⟩ := map_eq_ok (Option.some.inj h)
      rw [readNumeral_of_readNumber hnumber]
    · obtain ⟨s, hstring, -⟩ := map_eq_ok (Option.some.inj h)
      rw [skipString_of_readStringFrom hstring]

/-! ## Inside containers -/

section

variable {item member : List Char} {first : Bool}

theorem nextItem_eq_closed (h : nextItem first text = .ok (.closed rest)) :
    skipSpace text = ']' :: rest := by
  unfold nextItem at h
  split at h
  · cases h
  · rename_i hskip
    split at h
    · rename_i hclosing
      cases h
      rw [hskip, hclosing]
    · split at h
      · cases h
      · split at h
        · split at h
          · cases h
          · split at h <;> cases h
        · cases h

/-- The first item starts where space ends. -/
theorem nextItem_eq_first (h : nextItem true text = .ok (.entry item)) :
    ∃ c more, item = c :: more ∧ skipSpace text = c :: more ∧ c ≠ ']' := by
  unfold nextItem at h
  split at h
  · cases h
  · rename_i c more hskip
    split at h
    · cases h
    · rename_i hclosing
      rw [if_pos rfl] at h
      cases h
      exact ⟨c, more, rfl, hskip, hclosing⟩

/-- A later item comes after a comma. -/
theorem nextItem_eq_later (h : nextItem false text = .ok (.entry item)) :
    ∃ more, skipSpace text = ',' :: more ∧ skipSpace more = item := by
  unfold nextItem at h
  split at h
  · cases h
  · rename_i c more hskip
    split at h
    · cases h
    · rw [if_neg (by decide)] at h
      split at h
      · rename_i hcomma
        split at h
        · cases h
        · rename_i hmore
          split at h
          · cases h
          · cases h
            exact ⟨more, by rw [hskip, hcomma], hmore⟩
      · cases h

theorem nextMember_eq_closed (h : nextMember first text = .ok (.closed rest)) :
    skipSpace text = '\x7d' :: rest := by
  unfold nextMember at h
  split at h
  · cases h
  · rename_i hskip
    split at h
    · rename_i hclosing
      cases h
      rw [hskip, hclosing]
    · split at h
      · split at h <;> cases h
      · split at h
        · split at h
          · cases h
          · split at h
            · cases h
            · split at h <;> cases h
        · cases h

theorem nextMember_eq_first (h : nextMember true text = .ok (.entry member)) :
    skipSpace text = '"' :: member := by
  unfold nextMember at h
  split at h
  · cases h
  · rename_i c more hskip
    split at h
    · cases h
    · rw [if_pos rfl] at h
      split at h
      · rename_i hquote
        cases h
        rw [hskip, hquote]
      · cases h

theorem nextMember_eq_later (h : nextMember false text = .ok (.entry member)) :
    ∃ more, skipSpace text = ',' :: more ∧ skipSpace more = '"' :: member := by
  unfold nextMember at h
  split at h
  · cases h
  · rename_i c more hskip
    split at h
    · cases h
    · rw [if_neg (by decide)] at h
      split at h
      · rename_i hcomma
        split at h
        · cases h
        · rename_i hmore
          split at h
          · rename_i hquote
            cases h
            exact ⟨more, by rw [hskip, hcomma], by rw [hmore, hquote]⟩
          · split at h <;> cases h
      · cases h

theorem readColon_eq_ok (h : readColon text = .ok rest) : skipSpace text = ':' :: rest := by
  unfold readColon at h
  split at h
  · cases h
  · rename_i hskip
    split at h
    · rename_i hcolon
      cases h
      rw [hskip, hcolon]
    · cases h

end

/-! ## All values -/

section

variable {outer : List Bracket} {after value more : List Char} {c d : Char}

theorem skipFrom_done (text : List Char) : skipFrom .close [] text = .ok text := by
  rw [skipFrom]

theorem skipFrom_scalar (hskip : skipSpace text = c :: body)
    (hscalar : skipScalar? (c :: body) = some (.ok rest)) :
    skipFrom .value outer text = skipFrom .close outer rest := by
  conv => lhs; rw [skipFrom]
  split
  · simp_all
  · split <;> simp_all

theorem skipFrom_array (hskip : skipSpace text = '[' :: body) (hbody : skipSpace body = d :: more) :
    skipFrom .value outer text =
      if d = ']' then skipFrom .close outer more
      else skipFrom .value (.array :: outer) (d :: more) := by
  have hscalar : skipScalar? ('[' :: body) = none := by simp [skipScalar?]
  conv => lhs; rw [skipFrom]
  split
  · simp_all
  · rename_i hcons
    obtain ⟨rfl, rfl⟩ := List.cons.inj (hskip.symm.trans hcons)
    rw [hscalar]
    simp only [if_true]
    split <;> simp_all

theorem skipFrom_object (hskip : skipSpace text = '\x7b' :: body)
    (hbody : skipSpace body = d :: more) :
    skipFrom .value outer text =
      if d = '\x7d' then skipFrom .close outer more else skipFrom .member outer (d :: more) := by
  have hscalar : skipScalar? ('\x7b' :: body) = none := by simp [skipScalar?]
  conv => lhs; rw [skipFrom]
  split
  · simp_all
  · rename_i hcons
    obtain ⟨rfl, rfl⟩ := List.cons.inj (hskip.symm.trans hcons)
    rw [hscalar]
    simp only [if_true]
    rw [if_neg (by decide)]
    split <;> simp_all

theorem skipFrom_member (hskip : skipSpace text = '"' :: body) (hkey : skipString body = .ok after)
    (hcolon : skipSpace after = ':' :: value) :
    skipFrom .member outer text = skipFrom .value (.object :: outer) value := by
  conv => lhs; rw [skipFrom]
  split
  · simp_all
  · rename_i hcons
    obtain ⟨rfl, rfl⟩ := List.cons.inj (hskip.symm.trans hcons)
    rw [if_pos rfl]
    split
    · simp_all
    · rename_i hok
      obtain rfl := Except.ok.inj (hkey.symm.trans hok)
      split
      · simp_all
      · rename_i hvalue
        obtain ⟨rfl, rfl⟩ := List.cons.inj (hcolon.symm.trans hvalue)
        rw [if_pos rfl]

theorem skipFrom_closeArray (hskip : skipSpace text = c :: body) :
    skipFrom .close (.array :: outer) text =
      if c = ']' then skipFrom .close outer body
      else if c = ',' then skipFrom .value (.array :: outer) body
      else .error (.on .expectedListEnd (c :: body)) := by
  conv => lhs; rw [skipFrom]
  split <;> simp_all

theorem skipFrom_closeObject (hskip : skipSpace text = c :: body) :
    skipFrom .close (.object :: outer) text =
      if c = '\x7d' then skipFrom .close outer body
      else if c = ',' then skipFrom .member outer body
      else .error (.on .expectedObjectEnd (c :: body)) := by
  conv => lhs; rw [skipFrom]
  split <;> simp_all

end

theorem skipSpace_skipSpace (text : List Char) : skipSpace (skipSpace text) = skipSpace text :=
  List.dropWhile_idempotent _ _

/-- The bracket of an open container, which is all that passing over its contents asks for. -/
def Open.bracket : Open → Bracket
  | .array _ => .array
  | .object _ _ => .object

/-- What is due in reading can be passed over, with `rest` left, however much space stands before a
value or a member. A member starts at its opening quote there, not after it. -/
def Due.Passes (due : Due) (outer : List Open) (text rest : List Char) : Prop :=
  match due with
  | .value => ∀ text', skipSpace text' = skipSpace text →
    skipFrom .value (outer.map Open.bracket) text' = .ok rest
  | .key _ => ∀ text', skipSpace text' = '"' :: text →
    skipFrom .member (outer.map Open.bracket) text' = .ok rest
  | .close _ => skipFrom .close (outer.map Open.bracket) text = .ok rest

theorem passes_of_readFrom {due : Due} {outer : List Open} {v : Json}
    (h : readFrom due outer text = .ok (v, rest)) : due.Passes outer text rest := by
  -- only the steps of the reader that go on are left: the others are no result
  fun_induction readFrom due outer text with
  | case3 outer text c body hskip v' after hscalar ih =>
    intro text' htext
    rw [skipFrom_scalar (htext.trans hskip) (skipScalar?_of_readScalar? hscalar)]
    exact ih h
  | case6 outer text body _ after hnext hskip _ ih =>
    intro text' htext
    rw [skipFrom_array (htext.trans hskip) (nextItem_eq_closed hnext), if_pos rfl]
    exact ih h
  | case7 outer text body _ item hnext hskip _ ih =>
    intro text' htext
    obtain ⟨c, more, rfl, hitem, hclosing⟩ := nextItem_eq_first hnext
    rw [skipFrom_array (htext.trans hskip) hitem, if_neg hclosing]
    exact ih h _ rfl
  | case10 outer text body _ after hnext hskip _ _ ih =>
    intro text' htext
    rw [skipFrom_object (htext.trans hskip) (nextMember_eq_closed hnext), if_pos rfl]
    exact ih h
  | case11 outer text body _ member hnext hskip _ _ ih =>
    intro text' htext
    rw [skipFrom_object (htext.trans hskip) (nextMember_eq_first hnext), if_neg (by decide)]
    exact ih h _ rfl
  | case15 outer text members key after hkey value hcolon ih =>
    intro text' htext
    rw [skipFrom_member htext (skipString_of_readStringFrom hkey) (readColon_eq_ok hcolon)]
    exact ih h _ rfl
  | case16 text v' =>
    cases h
    exact skipFrom_done _
  | case18 text v' items outer after hnext ih =>
    show skipFrom .close (.array :: outer.map Open.bracket) text = .ok rest
    rw [skipFrom_closeArray (nextItem_eq_closed hnext), if_pos rfl]
    exact ih h
  | case19 text v' items outer item hnext ih =>
    show skipFrom .close (.array :: outer.map Open.bracket) text = .ok rest
    obtain ⟨more, hcomma, hitem⟩ := nextItem_eq_later hnext
    rw [skipFrom_closeArray hcomma, if_neg (by decide), if_pos rfl]
    exact ih h _ (by rw [← hitem, skipSpace_skipSpace])
  | case21 text v' members key outer after hnext ih =>
    show skipFrom .close (.object :: outer.map Open.bracket) text = .ok rest
    rw [skipFrom_closeObject (nextMember_eq_closed hnext), if_pos rfl]
    exact ih h
  | case22 text v' members key outer member hnext ih =>
    show skipFrom .close (.object :: outer.map Open.bracket) text = .ok rest
    obtain ⟨more, hcomma, hmember⟩ := nextMember_eq_later hnext
    rw [skipFrom_closeObject hcomma, if_neg (by decide), if_pos rfl]
    exact ih h _ hmember
  | _ => cases h

/-- **What can be read can be passed over**, and both leave the same rest. -/
theorem skipValue_of_readValue {v : Json} (h : readValue text = .ok (v, rest)) :
    skipValue text = .ok rest :=
  passes_of_readFrom h text rfl

end OpacityMigration.Json
