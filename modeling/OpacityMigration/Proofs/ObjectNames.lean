import OpacityMigration.Proofs.SkippedValues
import Mathlib.Tactic.SplitIfs

/-!
# The names in an object

Which names the members of an object have can be said without reading their values: a text is an
object if it opens as one, each member has a name and a value that can be passed over, and nothing
is left behind the closing bracket. Of a document these are the names of its members. A text whose
values cannot be read, being too deep or too large, still has its names.

* `Members`, `IsObject`: the members up to the closing bracket, and whole objects.
* `IsObject.unique`: a text has its names once.
* `members_of_inObject`, `array_of_inArray`: how objects and arrays are read.
* `isObject_iff`: objects among documents.
-/

namespace OpacityMigration.Json

variable {text rest : List Char}

/-- The members up to the closing bracket of an object, with the names in `names`, and the text
after it. Of the values only the form is asked for. -/
inductive Members : Bool → List Char → List String → List Char → Prop
  | closed {first : Bool} {text rest : List Char}
      (hnext : nextMember first text = .ok (.closed rest)) : Members first text [] rest
  | member {first : Bool} {text member after value more rest : List Char} {name : String}
      {names : List String} (hnext : nextMember first text = .ok (.entry member))
      (hname : readString member = .ok (name, after)) (hcolon : readColon after = .ok value)
      (hvalue : skipValue value = .ok more) (hmore : Members false more names rest) :
      Members first text (name :: names) rest

/-- The text is an object, and `names` are the names of its members in order. -/
def IsObject (text : List Char) (names : List String) : Prop :=
  ∃ body rest, skipSpace text = '\x7b' :: body ∧ Members true body names rest ∧ skipSpace rest = []

theorem Members.unique {first : Bool} {names names' : List String} {rest' : List Char}
    (h : Members first text names rest) (h' : Members first text names' rest') :
    names = names' ∧ rest = rest' := by
  induction h generalizing names' with
  | closed hnext =>
    cases h' with
    | closed hnext' =>
      cases hnext.symm.trans hnext'
      exact ⟨rfl, rfl⟩
    | member hnext' => cases hnext.symm.trans hnext'
  | member hnext hname hcolon hvalue hmore ih =>
    cases h' with
    | closed hnext' => cases hnext.symm.trans hnext'
    | member hnext' hname' hcolon' hvalue' hmore' =>
      cases hnext.symm.trans hnext'
      cases hname.symm.trans hname'
      cases hcolon.symm.trans hcolon'
      cases hvalue.symm.trans hvalue'
      obtain ⟨rfl, rfl⟩ := ih hmore'
      exact ⟨rfl, rfl⟩

theorem IsObject.unique {names names' : List String} (h : IsObject text names)
    (h' : IsObject text names') : names = names' := by
  obtain ⟨body, rest, hskip, hmembers, -⟩ := h
  obtain ⟨body', rest', hskip', hmembers', -⟩ := h'
  obtain ⟨-, rfl⟩ := List.cons.inj (hskip.symm.trans hskip')
  exact (hmembers.unique hmembers').1

/-- The members that are read after others. -/
theorem members_of_inObject {first : Bool} {members : List (String × Json)} {w : Json}
    (h : inObject [] first members text = .ok (w, rest)) :
    ∃ members', w = .object (members.reverse ++ members') ∧
      Members first text (members'.map Prod.fst) rest := by
  induction hn : text.length using Nat.strongRecOn generalizing text first members with
  | ind n ih =>
    unfold inObject at h
    split at h
    · cases h
    · rename_i after hnext
      rw [readFrom_done] at h
      cases h
      exact ⟨[], by rw [List.append_nil], .closed hnext⟩
    · rename_i member hnext
      obtain ⟨name, after, value, hname, hcolon, hvalue⟩ := readFrom_key_eq_ok h
      obtain ⟨v, more, hread, hclose⟩ :=
        @readFrom_append [.object members name] value rest [] .value w hvalue
      have hskip := skipValue_of_readValue hread
      have hlength : more.length < n := by
        have h₁ := bound_of_nextMember hnext
        have h₂ := length_of_readString hname
        have h₃ := length_of_readColon hcolon
        have h₄ := length_of_skipValue hskip
        simp only [Next.bound, Bool.false_eq_true, if_false] at h₁
        omega
      rw [readFrom_member] at hclose
      obtain ⟨members', rfl, hmembers⟩ := ih more.length hlength hclose rfl
      exact ⟨(name, v) :: members', by simp, .member hnext hname hcolon hskip hmembers⟩

/-- An array is read as an array. -/
theorem array_of_inArray {first : Bool} {items : List Json} {w : Json}
    (h : inArray [] first items text = .ok (w, rest)) : ∃ items', w = .array items' := by
  induction hn : text.length using Nat.strongRecOn generalizing text first items with
  | ind n ih =>
    unfold inArray at h
    split at h
    · cases h
    · rw [readFrom_done] at h
      cases h
      exact ⟨_, rfl⟩
    · rename_i item hnext
      obtain ⟨v, more, hread, hclose⟩ :=
        @readFrom_append [.array items] item rest [] .value w h
      have hlength : more.length < n := by
        have h₁ := bound_of_nextItem hnext
        have h₂ := length_of_skipValue (skipValue_of_readValue hread)
        simp only [Next.bound] at h₁
        split at h₁ <;> omega
      rw [readFrom_item] at hclose
      exact ih more.length hlength hclose rfl

/-- No object is read as a value that is no container. -/
theorem readScalar?_ne_object {members : List (String × Json)} :
    readScalar? text ≠ some (.ok (.object members, rest)) := by
  intro h
  cases isScalar_of_readScalar? h

/-- Only what opens as an object is read as one. -/
theorem inObject_of_readValue {members : List (String × Json)}
    (h : readValue text = .ok (.object members, rest)) :
    ∃ body, skipSpace text = '\x7b' :: body ∧
      inObject [] true [] body = .ok (.object members, rest) := by
  rw [readValue] at h
  cases hskip : skipSpace text with
  | nil =>
    rw [readFrom_nothing hskip] at h
    cases h
  | cons c body =>
    cases hscalar : readScalar? (c :: body) with
    | some found =>
      cases found with
      | error fault =>
        rw [readFrom_broken hskip hscalar] at h
        cases h
      | ok pair =>
        obtain ⟨v, more⟩ := pair
        rw [readFrom_scalar hskip hscalar, readFrom_done] at h
        cases h
        exact absurd hscalar readScalar?_ne_object
    | none =>
      rw [readFrom_container hskip hscalar] at h
      split_ifs at h with harray hdepth hobject hdepth
      · obtain ⟨items, hitems⟩ := array_of_inArray h
        cases hitems
      · rw [hobject]
        exact ⟨body, rfl, h⟩

/-- A document is an object exactly if its text is one, and the names are those of its members. -/
theorem isObject_iff {v : Json} {names : List String} (h : parse text = .ok v) :
    IsObject text names ↔ ∃ members, v = .object members ∧ names = members.map Prod.fst := by
  obtain ⟨rest, hread, hrest⟩ := parse_eq_ok.mp h
  constructor
  · rintro ⟨body, rest', hskip, hmembers, hrest'⟩
    rw [readValue, readFrom_object hskip (by decide)] at hread
    obtain ⟨members, rfl, hread'⟩ := members_of_inObject hread
    exact ⟨members, rfl, (hmembers.unique hread').1⟩
  · rintro ⟨members, rfl, rfl⟩
    obtain ⟨body, hskip, hbody⟩ := inObject_of_readValue hread
    obtain ⟨members', hmembers, hnames⟩ := members_of_inObject hbody
    cases hmembers
    exact ⟨body, rest, hskip, hnames, hrest⟩

end OpacityMigration.Json
