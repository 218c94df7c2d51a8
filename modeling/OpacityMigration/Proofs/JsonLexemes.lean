import OpacityMigration.Json.Reader
import OpacityMigration.Proofs.JsonStrings
import Mathlib.Data.List.TakeWhile

/-!
# The lexemes of a JSON text

However a value is laid out, its text is the same sequence of lexemes with space before, between and
after them. A reader that starts in such a text at a lexeme finds that lexeme next, and stops in
such a text again, at what follows.

* `lexemes`, `Spaced`: the lexemes of a value, and the texts that consist of given lexemes.
* `spaced_compact`, `spaced_pretty`: the two layouts, without space and over several lines.
* `Reads`: a reader takes given lexemes off a text. What stands between them is taken off by
  `nextItem_entry`, `nextMember_entry`, `readColon_of_spaced` and their like.
-/

namespace OpacityMigration.Json

/-! ## Lexemes -/

mutual

/-- The lexemes of a value, in order. -/
def lexemes : Json → List (List Char)
  | .null => ["null".toList]
  | .bool true => ["true".toList]
  | .bool false => ["false".toList]
  | .number n => [n.text]
  | .string s => [quote s]
  | .array [] => [['['], [']']]
  | .array (item :: items) => ['['] :: (lexemes item ++ (moreItems items ++ [[']']]))
  | .object [] => [['{'], ['}']]
  | .object ((key, value) :: members) =>
    ['{'] :: quote key :: [':'] :: (lexemes value ++ (moreMembers members ++ [['}']]))

/-- The lexemes of items that come after another one. -/
def moreItems : List Json → List (List Char)
  | [] => []
  | item :: items => [','] :: (lexemes item ++ moreItems items)

/-- The lexemes of members that come after another one. -/
def moreMembers : List (String × Json) → List (List Char)
  | [] => []
  | (key, value) :: members => [','] :: quote key :: [':'] :: (lexemes value ++ moreMembers members)

end

/-- The value on one line and without space. -/
def compact (value : Json) : List Char :=
  value.lexemes.flatten

/-- The text consists of the lexemes, with space before, between and after them. -/
inductive Spaced : List (List Char) → List Char → Prop
  | done {space : List Char} (h : ∀ c ∈ space, isSpace c = true) : Spaced [] space
  | lexeme {space lexeme text : List Char} {lexemes : List (List Char)}
      (h : ∀ c ∈ space, isSpace c = true) (hrest : Spaced lexemes text) :
      Spaced (lexeme :: lexemes) (space ++ (lexeme ++ text))

variable {first : Bool} {c : Char} {lexeme text : List Char} {rest : List (List Char)}

namespace Spaced

theorem append_left {space : List Char} (h : ∀ c ∈ space, isSpace c = true)
    (htext : Spaced rest text) : Spaced rest (space ++ text) := by
  have both {more : List Char} (hmore : ∀ c ∈ more, isSpace c = true) :
      ∀ c ∈ space ++ more, isSpace c = true := by
    intro c hc
    exact (List.mem_append.mp hc).elim (h c) (hmore c)
  cases htext with
  | done hspace => exact .done (both hspace)
  | lexeme hspace hrest =>
    rw [← List.append_assoc]
    exact .lexeme (both hspace) hrest

/-- A lexeme at the front. -/
theorem cons (lexeme : List Char) (h : Spaced rest text) :
    Spaced (lexeme :: rest) (lexeme ++ text) :=
  @Spaced.lexeme [] lexeme text rest (by simp) h

theorem newLine (depth : Nat) (h : Spaced rest text) :
    Spaced rest (Json.newLine depth ++ text) := by
  refine append_left ?_ h
  intro c hc
  rcases List.mem_cons.mp hc with rfl | hc
  · rfl
  · rw [List.eq_of_mem_replicate hc]
    rfl

/-- A key, its colon and a blank in front of the value. -/
theorem member (key : String) (h : Spaced rest text) :
    Spaced (quote key :: [':'] :: rest) (quote key ++ (": ".toList ++ text)) := by
  have hblank : ∀ c ∈ [' '], isSpace c = true := by
    intro c hc
    rw [List.mem_singleton.mp hc]
    rfl
  exact cons (quote key) (cons [':'] (h.append_left hblank))

end Spaced

/-! ## Layouts -/

theorem spaced_compact (v : Json) : Spaced v.lexemes v.compact := by
  rw [compact]
  induction v.lexemes with
  | nil => exact .done (by simp)
  | cons lexeme lexemes ih => exact .cons lexeme ih

mutual

theorem spaced_prettyAt (depth : Nat) (v : Json) {rest : List (List Char)} {text : List Char}
    (h : Spaced rest text) : Spaced (v.lexemes ++ rest) (prettyAt depth v ++ text) := by
  match v with
  | .null | .bool true | .bool false | .number n | .string s =>
    exact Spaced.cons _ h
  | .array [] => exact Spaced.cons ['['] (Spaced.cons [']'] h)
  | .array (item :: items) =>
    have hclose := (Spaced.cons [']'] h).newLine depth
    have hitem := spaced_prettyAt (depth + 1) item (spaced_prettyItems (depth + 1) items hclose)
    simpa only [lexemes, prettyAt, List.append_assoc, List.cons_append, List.nil_append] using
      Spaced.cons ['['] (hitem.newLine (depth + 1))
  | .object [] => exact Spaced.cons ['{'] (Spaced.cons ['}'] h)
  | .object ((key, value) :: members) =>
    have hclose := (Spaced.cons ['}'] h).newLine depth
    have hvalue :=
      spaced_prettyAt (depth + 1) value (spaced_prettyMembers (depth + 1) members hclose)
    simpa only [lexemes, prettyAt, List.append_assoc, List.cons_append, List.nil_append] using
      Spaced.cons ['{'] ((hvalue.member key).newLine (depth + 1))

theorem spaced_prettyItems (depth : Nat) (items : List Json) {rest : List (List Char)}
    {text : List Char} (h : Spaced rest text) :
    Spaced (moreItems items ++ rest) (prettyItems depth items ++ text) := by
  match items with
  | [] => exact h
  | item :: items =>
    have hitem := spaced_prettyAt depth item (spaced_prettyItems depth items h)
    simpa only [moreItems, prettyItems, List.append_assoc, List.cons_append, List.nil_append] using
      Spaced.cons [','] (hitem.newLine depth)

theorem spaced_prettyMembers (depth : Nat) (members : List (String × Json))
    {rest : List (List Char)} {text : List Char} (h : Spaced rest text) :
    Spaced (moreMembers members ++ rest) (prettyMembers depth members ++ text) := by
  match members with
  | [] => exact h
  | (key, value) :: members =>
    have hvalue := spaced_prettyAt depth value (spaced_prettyMembers depth members h)
    simpa only [moreMembers, prettyMembers, List.append_assoc, List.cons_append,
      List.nil_append] using Spaced.cons [','] ((hvalue.member key).newLine depth)

end

theorem spaced_pretty (v : Json) : Spaced v.lexemes v.pretty := by
  have hempty : Spaced [] [] := .done (by simp)
  have := spaced_prettyAt 0 v hempty
  rwa [List.append_nil, List.append_nil] at this

/-! ## Reading lexeme by lexeme -/

/-- In a text of these lexemes the reader takes them off, gives `a`, and stops before what follows
them. -/
def Reads {α : Type} (read : List Char → Except Fault (α × List Char))
    (lexemes : List (List Char)) (a : α) : Prop :=
  ∀ rest text, Spaced (lexemes ++ rest) text →
    ∃ more, read text = .ok (a, more) ∧ Spaced rest more

/-- What is read may be passed on through a function. -/
theorem Reads.map {α β : Type} {read : List Char → Except Fault (α × List Char)}
    {lexemes : List (List Char)} {a : α} (h : Reads read lexemes a) (f : α → β) :
    Reads (fun text => (read text).map fun (a, rest) => (f a, rest)) lexemes (f a) := by
  intro rest text htext
  obtain ⟨more, hread, hmore⟩ := h rest text htext
  refine ⟨more, ?_, hmore⟩
  show (read text).map _ = _
  rw [hread]
  rfl

theorem skipSpace_of_spaced (h : Spaced ((c :: lexeme) :: rest) text) (hc : isSpace c = false) :
    ∃ more, skipSpace text = c :: (lexeme ++ more) ∧ Spaced rest more := by
  cases h with
  | @lexeme space _ more _ hspace hrest =>
    refine ⟨more, ?_, hrest⟩
    rw [skipSpace, List.dropWhile_append_of_pos hspace, List.cons_append,
      List.dropWhile_cons_of_neg (by simp [hc])]

/-- After the last lexeme nothing but space is left. -/
theorem skipSpace_of_spaced_nil (h : Spaced [] text) : skipSpace text = [] := by
  cases h with
  | done hspace => exact List.dropWhile_eq_nil_iff.mpr hspace

/-- A string is read after its opening quote. -/
theorem readString_of_spaced {s : String} (h : Spaced (quote s :: rest) text) :
    ∃ body more, skipSpace text = '"' :: body ∧ readString body = .ok (s, more) ∧
      Spaced rest more := by
  obtain ⟨more, hskip, hrest⟩ := skipSpace_of_spaced h rfl
  have hbody : s.toList.flatMap escape ++ ['"'] ++ more =
      s.toList.flatMap escape ++ '"' :: more := by
    rw [List.append_assoc, List.singleton_append]
  exact ⟨_, more, hskip, hbody ▸ readString_escape s more, hrest⟩

/-- What stands before an item or a member. -/
def separator (first : Bool) : List (List Char) :=
  if first then [] else [[',']]

theorem nextItem_closed (h : Spaced ([']'] :: rest) text) :
    ∃ more, nextItem first text = .ok (.closed more) ∧ Spaced rest more := by
  obtain ⟨more, hskip, hrest⟩ := skipSpace_of_spaced h rfl
  refine ⟨more, ?_, hrest⟩
  simp [nextItem, hskip]

theorem nextItem_entry (h : Spaced (separator first ++ (c :: lexeme) :: rest) text)
    (hc : isSpace c = false) (hclose : c ≠ ']') :
    ∃ item, nextItem first text = .ok (.entry item) ∧ Spaced ((c :: lexeme) :: rest) item := by
  cases first with
  | true =>
    obtain ⟨more, hskip, hrest⟩ := skipSpace_of_spaced h hc
    refine ⟨_, ?_, Spaced.cons (c :: lexeme) hrest⟩
    simp [nextItem, hskip, hclose]
  | false =>
    obtain ⟨more, hskip, hrest⟩ := skipSpace_of_spaced h rfl
    obtain ⟨more', hskip', hrest'⟩ := skipSpace_of_spaced hrest hc
    refine ⟨_, ?_, Spaced.cons (c :: lexeme) hrest'⟩
    simp [nextItem, hskip, hskip', hclose]

theorem nextMember_closed (h : Spaced (['}'] :: rest) text) :
    ∃ more, nextMember first text = .ok (.closed more) ∧ Spaced rest more := by
  obtain ⟨more, hskip, hrest⟩ := skipSpace_of_spaced h rfl
  refine ⟨more, ?_, hrest⟩
  simp [nextMember, hskip]

theorem nextMember_entry {key : String} (h : Spaced (separator first ++ quote key :: rest) text) :
    ∃ member more, nextMember first text = .ok (.entry member) ∧
      readString member = .ok (key, more) ∧ Spaced rest more := by
  cases first with
  | true =>
    obtain ⟨body, more, hskip, hread, hrest⟩ := readString_of_spaced h
    refine ⟨body, more, ?_, hread, hrest⟩
    simp [nextMember, hskip]
  | false =>
    obtain ⟨after, hcomma, hafter⟩ := skipSpace_of_spaced h rfl
    obtain ⟨body, more, hskip, hread, hrest⟩ := readString_of_spaced hafter
    refine ⟨body, more, ?_, hread, hrest⟩
    simp [nextMember, hcomma, hskip]

theorem readColon_of_spaced (h : Spaced ([':'] :: rest) text) :
    ∃ more, readColon text = .ok more ∧ Spaced rest more := by
  obtain ⟨more, hskip, hrest⟩ := skipSpace_of_spaced h rfl
  refine ⟨more, ?_, hrest⟩
  simp [readColon, hskip]

/-- A text of nothing but these lexemes is read to its end. -/
theorem finish_of_reads {α : Type} {read : List Char → Except Fault (α × List Char)}
    {lexemes : List (List Char)} {a : α} (hread : Reads read lexemes a)
    (h : Spaced lexemes text) : finish (read text) = .ok a := by
  rw [← List.append_nil lexemes] at h
  obtain ⟨more, hok, hmore⟩ := hread [] text h
  simp only [finish, hok, skipSpace_of_spaced_nil hmore]

end OpacityMigration.Json
