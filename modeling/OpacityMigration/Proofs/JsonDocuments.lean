import OpacityMigration.Json.Reader
import Mathlib.Tactic.SplitIfs

/-!
# Reading a document value by value

The reader of documents keeps the open containers on a stack. Said without the stack, it goes on in
one of two ways inside a container: `inArray` with the items read so far, `inObject` with the
members. Reading a value and going on, and opening a container, are equations of these two.

* `readFrom_container`, `readFrom_array`, `readFrom_object`: what opens a container.
* `readFrom_item`, `readFrom_member`: what follows a value in a container.
* `isScalar_of_readScalar?`, `readFrom_null`, `readFrom_string`: values that are no containers.
-/

namespace OpacityMigration.Json

variable {outer : List Open} {text body rest : List Char}

/-- Goes on in an array after the given items, newest first. -/
def inArray (outer : List Open) (first : Bool) (items : List Json) (text : List Char) :
    Except Fault (Json × List Char) :=
  match nextItem first text with
  | .error fault => .error fault
  | .ok (.closed rest) => readFrom (.close (.array items.reverse)) outer rest
  | .ok (.entry item) => readFrom .value (.array items :: outer) item

/-- Goes on in an object after the given members, newest first. -/
def inObject (outer : List Open) (first : Bool) (members : List (String × Json))
    (text : List Char) : Except Fault (Json × List Char) :=
  match nextMember first text with
  | .error fault => .error fault
  | .ok (.closed rest) => readFrom (.close (.object members.reverse)) outer rest
  | .ok (.entry member) => readFrom (.key members) outer member

theorem map_eq_ok {α β : Type} {found : Except Fault (α × List Char)} {f : α → β} {b : β}
    (h : (found.map fun (a, rest) => (f a, rest)) = .ok (b, rest)) :
    ∃ a, found = .ok (a, rest) ∧ f a = b := by
  cases found with
  | error fault => cases h
  | ok pair =>
    obtain ⟨a, rest'⟩ := pair
    simp only [Except.map, Except.ok.injEq, Prod.mk.injEq] at h
    obtain ⟨rfl, rfl⟩ := h
    exact ⟨a, rfl, rfl⟩

theorem word_eq_ok {α : Type} {found : Except Fault (List Char)} {v w : α}
    (h : found.map (v, ·) = .ok (w, rest)) : found = .ok rest ∧ v = w := by
  cases found with
  | error fault => cases h
  | ok more =>
    simp only [Except.map, Except.ok.injEq, Prod.mk.injEq] at h
    exact ⟨by rw [h.2], h.1⟩

/-- The values that are read as no containers. -/
inductive IsScalar (rest : List Char) : Json → Prop
  | null : IsScalar rest .null
  | bool (b : Bool) : IsScalar rest (.bool b)
  | number {negative : Bool} {body : List Char} {n : Number}
      (h : readNumber negative body = .ok (n, rest)) : IsScalar rest (.number n)
  | string (s : String) : IsScalar rest (.string s)

theorem isScalar_of_readScalar? {v : Json} (h : readScalar? text = some (.ok (v, rest))) :
    IsScalar rest v := by
  unfold readScalar? at h
  split at h
  · cases h
  · split_ifs at h
    · obtain ⟨-, rfl⟩ := word_eq_ok (Option.some.inj h)
      exact .null
    · obtain ⟨-, rfl⟩ := word_eq_ok (Option.some.inj h)
      exact .bool true
    · obtain ⟨-, rfl⟩ := word_eq_ok (Option.some.inj h)
      exact .bool false
    · obtain ⟨n, hread, rfl⟩ := map_eq_ok (Option.some.inj h)
      exact .number hread
    · obtain ⟨n, hread, rfl⟩ := map_eq_ok (Option.some.inj h)
      exact .number hread
    · obtain ⟨s, -, rfl⟩ := map_eq_ok (Option.some.inj h)
      exact .string s

theorem readFrom_done (v : Json) (text : List Char) :
    readFrom (.close v) [] text = .ok (v, text) := by
  rw [readFrom]

theorem readFrom_item (v : Json) (items : List Json) (text : List Char) :
    readFrom (.close v) (.array items :: outer) text = inArray outer false (v :: items) text := by
  rw [readFrom, inArray]
  split <;> simp_all

theorem readFrom_member (v : Json) (members : List (String × Json)) (key : String)
    (text : List Char) :
    readFrom (.close v) (.object members key :: outer) text =
      inObject outer false ((key, v) :: members) text := by
  rw [readFrom, inObject]
  split <;> simp_all

theorem readFrom_key {members : List (String × Json)} {key : String} {after value : List Char}
    (hkey : readString text = .ok (key, after)) (hcolon : readColon after = .ok value) :
    readFrom (.key members) outer text = readFrom .value (.object members key :: outer) value := by
  conv => lhs; rw [readFrom]
  split
  · simp_all
  · split <;> simp_all

/-! ## Values -/

/-- A value that is no container. -/
theorem readFrom_scalar {c : Char} {v : Json} (hskip : skipSpace text = c :: body)
    (hread : readScalar? (c :: body) = some (.ok (v, rest))) :
    readFrom .value outer text = readFrom (.close v) outer rest := by
  conv => lhs; rw [readFrom]
  split
  · simp_all
  · split <;> simp_all

theorem readFrom_broken {c : Char} {fault : Fault} (hskip : skipSpace text = c :: body)
    (hread : readScalar? (c :: body) = some (.error fault)) :
    readFrom .value outer text = .error fault := by
  rw [readFrom]
  split
  · simp_all
  · split <;> simp_all

theorem readFrom_nothing (hskip : skipSpace text = []) :
    readFrom .value outer text = .error (.on .endInValue []) := by
  rw [readFrom]
  split
  · rfl
  · simp_all

theorem readFrom_null (hskip : skipSpace text = 'n' :: body)
    (hread : readWord "ull".toList body = .ok rest) :
    readFrom .value outer text = readFrom (.close .null) outer rest := by
  apply readFrom_scalar hskip
  rw [readScalar?, if_pos rfl, hread]
  rfl

theorem readFrom_string {s : String} (hskip : skipSpace text = '"' :: body)
    (hread : readString body = .ok (s, rest)) :
    readFrom .value outer text = readFrom (.close (.string s)) outer rest := by
  apply readFrom_scalar hskip
  simp [readScalar?, hread, Except.map]

/-- What is no other value has to open a container, and not too deep in others. -/
theorem readFrom_container {c : Char} (hskip : skipSpace text = c :: body)
    (hscalar : readScalar? (c :: body) = none) :
    readFrom .value outer text =
      if c = '[' then
        if maxDepth ≤ outer.length then .error (.on .nestedTooDeep (c :: body))
        else inArray outer true [] body
      else if c = '\x7b' then
        if maxDepth ≤ outer.length then .error (.on .nestedTooDeep (c :: body))
        else inObject outer true [] body
      else .error (.on .expectedValue (c :: body)) := by
  rw [readFrom]
  split
  · rename_i hnil
    rw [hskip] at hnil
    cases hnil
  · rename_i c' body' hcons
    obtain ⟨rfl, rfl⟩ := List.cons.inj (hskip.symm.trans hcons)
    rw [hscalar]
    simp only
    split
    · rw [inArray]
      split
      · rfl
      · split <;> simp_all
    · split
      · rw [inObject]
        split
        · rfl
        · split <;> simp_all
      · rfl

theorem readFrom_array (hskip : skipSpace text = '[' :: body) (hdepth : outer.length < maxDepth) :
    readFrom .value outer text = inArray outer true [] body := by
  have hscalar : readScalar? ('[' :: body) = none := by simp [readScalar?]
  rw [readFrom_container hskip hscalar, if_pos rfl, if_neg (Nat.not_le.mpr hdepth)]

theorem readFrom_object (hskip : skipSpace text = '\x7b' :: body)
    (hdepth : outer.length < maxDepth) :
    readFrom .value outer text = inObject outer true [] body := by
  have hscalar : readScalar? ('\x7b' :: body) = none := by simp [readScalar?]
  rw [readFrom_container hskip hscalar, if_neg (by decide), if_pos rfl,
    if_neg (Nat.not_le.mpr hdepth)]

/-! ## Reading inside containers -/

section

variable {inner : List Open}

theorem depth_of_append {stack : List Open} (hstack : inner ++ outer = stack)
    (hdepth : ¬ maxDepth ≤ stack.length) : inner.length < maxDepth := by
  rw [← hstack, List.length_append] at hdepth
  omega

/-- What is read inside containers is read by itself, and then handed to the innermost of them. -/
theorem readFrom_append {due : Due} {w : Json}
    (h : readFrom due (inner ++ outer) text = .ok (w, rest)) :
    ∃ v more, readFrom due inner text = .ok (v, more) ∧
      readFrom (.close v) outer more = .ok (w, rest) := by
  generalize hstack : inner ++ outer = stack at h
  fun_induction readFrom due stack text generalizing inner with
  | case3 stack text c body hskip v after hscalar ih =>
    obtain ⟨v', more, hread, hclose⟩ := ih hstack h
    exact ⟨v', more, by rw [readFrom_scalar hskip hscalar, hread], hclose⟩
  | case6 stack text body hdepth after hnext hskip _ ih =>
    obtain ⟨v', more, hread, hclose⟩ := ih hstack h
    refine ⟨v', more, ?_, hclose⟩
    rw [readFrom_array hskip (depth_of_append hstack hdepth), inArray, hnext]
    exact hread
  | case7 stack text body hdepth item hnext hskip _ ih =>
    obtain ⟨v', more, hread, hclose⟩ := @ih (.array [] :: inner) (by rw [← hstack]; rfl) h
    refine ⟨v', more, ?_, hclose⟩
    rw [readFrom_array hskip (depth_of_append hstack hdepth), inArray, hnext]
    exact hread
  | case10 stack text body hdepth after hnext hskip _ _ ih =>
    obtain ⟨v', more, hread, hclose⟩ := ih hstack h
    refine ⟨v', more, ?_, hclose⟩
    rw [readFrom_object hskip (depth_of_append hstack hdepth), inObject, hnext]
    exact hread
  | case11 stack text body hdepth member hnext hskip _ _ ih =>
    obtain ⟨v', more, hread, hclose⟩ := ih hstack h
    refine ⟨v', more, ?_, hclose⟩
    rw [readFrom_object hskip (depth_of_append hstack hdepth), inObject, hnext]
    exact hread
  | case15 stack text members key after hkey value hcolon ih =>
    obtain ⟨v', more, hread, hclose⟩ := @ih (.object members key :: inner) (by rw [← hstack]; rfl) h
    exact ⟨v', more, by rw [readFrom_key hkey hcolon, hread], hclose⟩
  | case16 text v =>
    obtain ⟨rfl, rfl⟩ := List.append_eq_nil_iff.mp hstack
    exact ⟨v, text, readFrom_done v text, by rw [readFrom_done, h]⟩
  | case18 text v items stack after hnext ih =>
    rcases List.append_eq_cons_iff.mp hstack with ⟨rfl, rfl⟩ | ⟨inner', rfl, rfl⟩
    · exact ⟨v, text, readFrom_done v text, by rw [readFrom_item, inArray, hnext]; exact h⟩
    · obtain ⟨v', more, hread, hclose⟩ := ih rfl h
      exact ⟨v', more, by rw [readFrom_item, inArray, hnext]; exact hread, hclose⟩
  | case19 text v items stack item hnext ih =>
    rcases List.append_eq_cons_iff.mp hstack with ⟨rfl, rfl⟩ | ⟨inner', rfl, rfl⟩
    · exact ⟨v, text, readFrom_done v text, by rw [readFrom_item, inArray, hnext]; exact h⟩
    · obtain ⟨v', more, hread, hclose⟩ := @ih (.array (v :: items) :: inner') rfl h
      exact ⟨v', more, by rw [readFrom_item, inArray, hnext]; exact hread, hclose⟩
  | case21 text v members key stack after hnext ih =>
    rcases List.append_eq_cons_iff.mp hstack with ⟨rfl, rfl⟩ | ⟨inner', rfl, rfl⟩
    · exact ⟨v, text, readFrom_done v text, by rw [readFrom_member, inObject, hnext]; exact h⟩
    · obtain ⟨v', more, hread, hclose⟩ := ih rfl h
      exact ⟨v', more, by rw [readFrom_member, inObject, hnext]; exact hread, hclose⟩
  | case22 text v members key stack member hnext ih =>
    rcases List.append_eq_cons_iff.mp hstack with ⟨rfl, rfl⟩ | ⟨inner', rfl, rfl⟩
    · exact ⟨v, text, readFrom_done v text, by rw [readFrom_member, inObject, hnext]; exact h⟩
    · obtain ⟨v', more, hread, hclose⟩ := ih rfl h
      exact ⟨v', more, by rw [readFrom_member, inObject, hnext]; exact hread, hclose⟩
  | _ => cases h

end

theorem readFrom_key_eq_ok {members : List (String × Json)} {w : Json}
    (h : readFrom (.key members) outer text = .ok (w, rest)) :
    ∃ key after value, readString text = .ok (key, after) ∧ readColon after = .ok value ∧
      readFrom .value (.object members key :: outer) value = .ok (w, rest) := by
  rw [readFrom] at h
  split at h
  · cases h
  · rename_i key after hkey
    split at h
    · cases h
    · rename_i value hcolon
      exact ⟨key, after, value, hkey, hcolon, h⟩

/-! ## Documents -/

theorem finish_eq_ok {α : Type} {found : Except Fault (α × List Char)} {a : α} :
    finish found = .ok a ↔ ∃ rest, found = .ok (a, rest) ∧ skipSpace rest = [] := by
  constructor
  · intro h
    unfold finish at h
    split at h
    · cases h
    · rename_i b rest
      split at h
      · rename_i hrest
        cases h
        exact ⟨rest, rfl, hrest⟩
      · cases h
  · rintro ⟨rest, rfl, hrest⟩
    rw [finish]
    simp only [hrest]

theorem parse_eq_ok {v : Json} :
    parse text = .ok v ↔ ∃ rest, readValue text = .ok (v, rest) ∧ skipSpace rest = [] := by
  rw [← finish_eq_ok, parse]
  cases finish (readValue text) with
  | error fault =>
    constructor
    · intro h
      cases h
    · intro h
      cases h
  | ok w =>
    constructor
    · intro h
      cases h
      rfl
    · intro h
      cases h
      rfl

end OpacityMigration.Json
