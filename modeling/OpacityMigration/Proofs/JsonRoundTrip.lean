import OpacityMigration.Proofs.JsonDocuments
import OpacityMigration.Proofs.JsonLexemes
import OpacityMigration.Proofs.JsonNumerals

/-!
# Values are read back

A value can be read back from any text of its lexemes, so from what the printer writes, if the
reader goes as deep as its containers are nested and its numbers are integers of 64 bits. Strings
ask for nothing: any key and any text comes back as it is. The reader gives no value that asks for
more.

* `depth`, `numbers`, `Fits`: what a value asks of the reader.
* `recovers`: the reader goes over the lexemes of a value and has it then, wherever it stands.
* `fits_of_readFrom`: what the reader gives fits.
* `parse_spaced`, `parse_spaced_iff`: documents, in any layout.
-/

namespace OpacityMigration.Json

/-! ## What a value asks for -/

mutual

/-- How deep the containers of a value are nested. -/
def depth : Json → Nat
  | .null | .bool _ | .number _ | .string _ => 0
  | .array items => depthOfItems items + 1
  | .object members => depthOfMembers members + 1

def depthOfItems : List Json → Nat
  | [] => 0
  | item :: items => max (depth item) (depthOfItems items)

def depthOfMembers : List (String × Json) → Nat
  | [] => 0
  | (_, value) :: members => max (depth value) (depthOfMembers members)

end

mutual

/-- The numbers in a value, in the order in which they are written. -/
def numbers : Json → List Number
  | .number n => [n]
  | .null | .bool _ | .string _ => []
  | .array items => numbersOfItems items
  | .object members => numbersOfMembers members

def numbersOfItems : List Json → List Number
  | [] => []
  | item :: items => numbers item ++ numbersOfItems items

def numbersOfMembers : List (String × Json) → List Number
  | [] => []
  | (_, value) :: members => numbers value ++ numbersOfMembers members

end

/-- Inside so many containers the value is not nested too deep, and its numbers are allowed. -/
structure Fits (allowed : Number → Prop) (outside : Nat) (v : Json) : Prop where
  depth_le : outside + v.depth ≤ maxDepth
  numbers : ∀ n ∈ v.numbers, allowed n

section

variable {allowed : Number → Prop} {outside : Nat}

theorem depthOfItems_le {items : List Json} {bound : Nat} :
    depthOfItems items ≤ bound ↔ ∀ item ∈ items, item.depth ≤ bound := by
  induction items with
  | nil => simp [depthOfItems]
  | cons item items ih => rw [depthOfItems, Nat.max_le, ih, List.forall_mem_cons]

theorem numbersOfItems_eq (items : List Json) : numbersOfItems items = items.flatMap numbers := by
  induction items with
  | nil => rfl
  | cons item items ih => rw [numbersOfItems, ih, List.flatMap_cons]

theorem depthOfMembers_eq (members : List (String × Json)) :
    depthOfMembers members = depthOfItems (members.map Prod.snd) := by
  induction members with
  | nil => rfl
  | cons member members ih => rw [depthOfMembers, ih, List.map_cons, depthOfItems]

theorem numbersOfMembers_eq (members : List (String × Json)) :
    numbersOfMembers members = numbersOfItems (members.map Prod.snd) := by
  induction members with
  | nil => rfl
  | cons member members ih => rw [numbersOfMembers, ih, List.map_cons, numbersOfItems]

theorem fits_number {n : Number} :
    Fits allowed outside (.number n) ↔ outside ≤ maxDepth ∧ allowed n := by
  constructor
  · rintro ⟨hle, hall⟩
    exact ⟨hle, hall n (List.mem_singleton_self n)⟩
  · rintro ⟨hle, hn⟩
    exact ⟨hle, List.forall_mem_singleton.mpr hn⟩

theorem fits_array {items : List Json} :
    Fits allowed outside (.array items) ↔
      outside < maxDepth ∧ ∀ item ∈ items, Fits allowed (outside + 1) item := by
  have hdepth : outside + (depthOfItems items + 1) ≤ maxDepth ↔
      outside < maxDepth ∧ ∀ item ∈ items, outside + 1 + item.depth ≤ maxDepth := by
    have hiff := @depthOfItems_le items (maxDepth - (outside + 1))
    constructor
    · intro h
      have hall := hiff.mp (by omega)
      exact ⟨by omega, fun item hitem => by have := hall item hitem; omega⟩
    · rintro ⟨hlt, hall⟩
      have := hiff.mpr fun item hitem => by have := hall item hitem; omega
      omega
  have hnumbers : (Json.array items).numbers = items.flatMap numbers := by
    rw [numbers, numbersOfItems_eq]
  constructor
  · rintro ⟨hle, hall⟩
    obtain ⟨hlt, hles⟩ := hdepth.mp hle
    rw [hnumbers] at hall
    exact ⟨hlt, fun item hitem =>
      ⟨hles item hitem, fun n hn => hall n (List.mem_flatMap.mpr ⟨item, hitem, hn⟩)⟩⟩
  · rintro ⟨hlt, hall⟩
    refine ⟨hdepth.mpr ⟨hlt, fun item hitem => (hall item hitem).depth_le⟩, ?_⟩
    rw [hnumbers]
    intro n hn
    obtain ⟨item, hitem, hn⟩ := List.mem_flatMap.mp hn
    exact (hall item hitem).numbers n hn

/-- An object asks for what its values ask for. -/
theorem fits_object {members : List (String × Json)} :
    Fits allowed outside (.object members) ↔
      outside < maxDepth ∧ ∀ member ∈ members, Fits allowed (outside + 1) member.2 := by
  have hdepth : (Json.object members).depth = (Json.array (members.map Prod.snd)).depth := by
    rw [depth, depth, depthOfMembers_eq]
  have hnumbers : (Json.object members).numbers = (Json.array (members.map Prod.snd)).numbers := by
    rw [numbers, numbers, numbersOfMembers_eq]
  have hvalues : Fits allowed outside (.object members) ↔
      Fits allowed outside (.array (members.map Prod.snd)) := by
    constructor
    · rintro ⟨hle, hall⟩
      exact ⟨hdepth ▸ hle, hnumbers ▸ hall⟩
    · rintro ⟨hle, hall⟩
      exact ⟨hdepth ▸ hle, hnumbers ▸ hall⟩
  rw [hvalues, fits_array, List.forall_mem_map]

end

/-! ## Values that are no containers -/

variable {outer : List Open} {text : List Char} {rest : List (List Char)}

/-- A value may stand before these lexemes: there are none, or a comma or a closing bracket comes
first. -/
def EndsValue (rest : List (List Char)) : Prop :=
  ∀ lexeme ∈ rest.head?, lexeme = [','] ∨ lexeme = [']'] ∨ lexeme = ['}']

theorem readWord_append (word after : List Char) : readWord word (word ++ after) = .ok after := by
  induction word with
  | nil => rw [List.nil_append, readWord]
  | cons c word ih => rw [List.cons_append, readWord, if_pos rfl, ih]

theorem isSpace_eq_true {c : Char} :
    isSpace c = true ↔ c = ' ' ∨ c = '\n' ∨ c = '\t' ∨ c = '\r' := by
  simp [isSpace, or_assoc]

/-- So a numeral ends there, whether space comes next or a lexeme. -/
theorem endsNumeral_of_spaced (h : Spaced rest text) (hrest : EndsValue rest) :
    EndsNumeral text := by
  have hspace {c : Char} (hc : isSpace c = true) :
      c.isDigit = false ∧ c ≠ '.' ∧ c ≠ 'e' ∧ c ≠ 'E' := by
    rcases isSpace_eq_true.mp hc with rfl | rfl | rfl | rfl <;> decide
  intro c hc
  cases h with
  | done hall => exact hspace (hall c (List.mem_of_head? hc))
  | @lexeme space lexeme text _ hall _ =>
    cases space with
    | cons d space =>
      obtain rfl : d = c := Option.some.inj hc
      exact hspace (hall d List.mem_cons_self)
    | nil =>
      rcases hrest lexeme rfl with rfl | rfl | rfl
      all_goals
        obtain rfl := Option.some.inj hc
        decide

theorem readScalar?_word {n : Number} (h : n.IsWord) {after : List Char}
    (hafter : EndsNumeral after) :
    readScalar? (n.text ++ after) = some (.ok (.number n, after)) := by
  obtain ⟨negative, k, htext, hread⟩ := readNumber_word h hafter
  rw [htext]
  cases negative with
  | true => simp [readScalar?, hread, Except.map]
  | false =>
    obtain ⟨c, digits, hform⟩ := List.exists_cons_of_ne_nil (@Nat.toDigits_ne_nil k 10)
    have hdigit : c.isDigit = true := isDigit_of_mem (hform ▸ List.mem_cons_self)
    have hne {d : Char} (hd : d.isDigit = false) : c ≠ d := by
      rintro rfl
      rw [hdigit] at hd
      cases hd
    rw [hform, List.cons_append] at hread
    simp [hform, readScalar?, hne (d := 'n') rfl, hne (d := 't') rfl, hne (d := 'f') rfl,
      hne (d := '-') rfl, hdigit, hread, Except.map]

/-- How the first lexeme of a value starts: not with space, and not as the end of a list. -/
def StartsValue (c : Char) : Prop :=
  isSpace c = false ∧ c ≠ ']'

theorem startsValue_text {n : Number} (h : n.IsWord) :
    ∃ c digits, n.text = c :: digits ∧ StartsValue c := by
  obtain ⟨negative, k, htext, -⟩ := @readNumber_word [] n h (by simp [EndsNumeral])
  cases negative with
  | true => exact ⟨'-', _, htext, rfl, by decide⟩
  | false =>
    obtain ⟨c, digits, hform⟩ := List.exists_cons_of_ne_nil (@Nat.toDigits_ne_nil k 10)
    have hdigit : c.isDigit = true := isDigit_of_mem (hform ▸ List.mem_cons_self)
    refine ⟨c, digits, by rw [htext, hform]; rfl, ?_, ?_⟩
    · rw [Bool.eq_false_iff]
      intro hspace
      rcases isSpace_eq_true.mp hspace with rfl | rfl | rfl | rfl <;> revert hdigit <;> decide
    · rintro rfl
      revert hdigit
      decide

theorem startsValue_lexemes {outside : Nat} (v : Json) (h : v.Fits Number.IsWord outside) :
    ∃ c lexeme more, v.lexemes = (c :: lexeme) :: more ∧ StartsValue c := by
  match v with
  | .null => exact ⟨'n', _, _, rfl, rfl, by decide⟩
  | .bool true => exact ⟨'t', _, _, rfl, rfl, by decide⟩
  | .bool false => exact ⟨'f', _, _, rfl, rfl, by decide⟩
  | .number n =>
    obtain ⟨c, digits, htext, hstarts⟩ := startsValue_text (fits_number.mp h).2
    exact ⟨c, digits, [], by rw [lexemes, htext], hstarts⟩
  | .string s => exact ⟨'"', _, _, rfl, rfl, by decide⟩
  | .array [] => exact ⟨'[', _, _, rfl, rfl, by decide⟩
  | .array (_ :: _) => exact ⟨'[', _, _, rfl, rfl, by decide⟩
  | .object [] => exact ⟨'{', _, _, rfl, rfl, by decide⟩
  | .object ((_, _) :: _) => exact ⟨'{', _, _, rfl, rfl, by decide⟩

/-! ## Reading what was written -/

/-- A value of one lexeme that the reader knows. -/
theorem readFrom_lexeme {c : Char} {lexeme : List Char} {v : Json}
    (h : Spaced ((c :: lexeme) :: rest) text) (hc : isSpace c = false)
    (hread : ∀ more, Spaced rest more →
      readScalar? (c :: (lexeme ++ more)) = some (.ok (v, more))) :
    ∃ more, readFrom .value outer text = readFrom (.close v) outer more ∧ Spaced rest more := by
  obtain ⟨more, hskip, hmore⟩ := skipSpace_of_spaced h hc
  exact ⟨more, readFrom_scalar hskip (hread more hmore), hmore⟩

/-- With these containers open and these lexemes after it, the reader goes over the lexemes of a
value and has it then. -/
def Recovers (outer : List Open) (v : Json) (rest : List (List Char)) : Prop :=
  ∀ text, Spaced (v.lexemes ++ rest) text →
    ∃ more, readFrom .value outer text = readFrom (.close v) outer more ∧ Spaced rest more

/-- In an array the next item is read and kept. -/
theorem inArray_item {outside : Nat} {first : Bool} {item : Json} (done : List Json)
    (h : Spaced (separator first ++ (item.lexemes ++ rest)) text)
    (hfits : item.Fits Number.IsWord outside) (hitem : Recovers (.array done :: outer) item rest) :
    ∃ more, inArray outer first done text = inArray outer false (item :: done) more ∧
      Spaced rest more := by
  obtain ⟨c, lexeme, lexemes, hform, hspace, hclosing⟩ := startsValue_lexemes item hfits
  rw [hform, List.cons_append] at h
  obtain ⟨entry, hnext, hentry⟩ := nextItem_entry h hspace hclosing
  rw [← List.cons_append, ← hform] at hentry
  obtain ⟨more, hread, hmore⟩ := hitem entry hentry
  exact ⟨more, by rw [inArray, hnext, ← readFrom_item, ← hread], hmore⟩

/-- In an object the next key and its value are read and kept. -/
theorem inObject_member {first : Bool} {key : String} {value : Json} (done : List (String × Json))
    (h : Spaced (separator first ++ quote key :: [':'] :: (value.lexemes ++ rest)) text)
    (hvalue : Recovers (.object done key :: outer) value rest) :
    ∃ more, inObject outer first done text = inObject outer false ((key, value) :: done) more ∧
      Spaced rest more := by
  obtain ⟨member, after, hnext, hkey, hafter⟩ := nextMember_entry h
  obtain ⟨entry, hcolon, hentry⟩ := readColon_of_spaced hafter
  obtain ⟨more, hread, hmore⟩ := hvalue entry hentry
  refine ⟨more, ?_, hmore⟩
  rw [inObject, hnext, ← readFrom_member, ← hread, ← readFrom_key hkey hcolon]

theorem inArray_closed {first : Bool} (done : List Json) (h : Spaced ([']'] :: rest) text) :
    ∃ more, inArray outer first done text = readFrom (.close (.array done.reverse)) outer more ∧
      Spaced rest more := by
  obtain ⟨more, hnext, hmore⟩ := @nextItem_closed first _ _ h
  exact ⟨more, by rw [inArray, hnext], hmore⟩

theorem inObject_closed {first : Bool} (done : List (String × Json))
    (h : Spaced (['}'] :: rest) text) :
    ∃ more, inObject outer first done text = readFrom (.close (.object done.reverse)) outer more ∧
      Spaced rest more := by
  obtain ⟨more, hnext, hmore⟩ := @nextMember_closed first _ _ h
  exact ⟨more, by rw [inObject, hnext], hmore⟩

theorem endsValue_moreItems (items : List Json) : EndsValue (moreItems items ++ [']'] :: rest) := by
  cases items with
  | nil => exact fun lexeme hlexeme => Or.inr (Or.inl (Option.some.inj hlexeme).symm)
  | cons item items => exact fun lexeme hlexeme => Or.inl (Option.some.inj hlexeme).symm

theorem endsValue_moreMembers (members : List (String × Json)) :
    EndsValue (moreMembers members ++ ['}'] :: rest) := by
  cases members with
  | nil => exact fun lexeme hlexeme => Or.inr (Or.inr (Option.some.inj hlexeme).symm)
  | cons member members => exact fun lexeme hlexeme => Or.inl (Option.some.inj hlexeme).symm

mutual

/-- **The reader goes over the lexemes of a value** and has it then, in any containers. -/
theorem recovers (v : Json) {outer : List Open} {rest : List (List Char)}
    (hfits : v.Fits Number.IsWord outer.length) (hrest : EndsValue rest) :
    Recovers outer v rest := by
  intro text h
  match v with
  | .null =>
    refine @readFrom_lexeme outer text rest 'n' "ull".toList _ h rfl fun more _ => ?_
    rw [readScalar?, if_pos rfl, readWord_append]
    rfl
  | .bool true =>
    refine @readFrom_lexeme outer text rest 't' "rue".toList _ h rfl fun more _ => ?_
    rw [readScalar?, if_neg (by decide), if_pos rfl, readWord_append]
    rfl
  | .bool false =>
    refine @readFrom_lexeme outer text rest 'f' "alse".toList _ h rfl fun more _ => ?_
    rw [readScalar?, if_neg (by decide), if_neg (by decide), if_pos rfl, readWord_append]
    rfl
  | .number n =>
    have hword := (fits_number.mp hfits).2
    obtain ⟨c, digits, htext, hspace, -⟩ := startsValue_text hword
    rw [lexemes, htext, List.singleton_append] at h
    refine readFrom_lexeme h hspace fun more hmore => ?_
    rw [← List.cons_append, ← htext, readScalar?_word hword (endsNumeral_of_spaced hmore hrest)]
  | .string s =>
    rw [lexemes, List.singleton_append] at h
    obtain ⟨body, more, hskip, hread, hmore⟩ := readString_of_spaced h
    exact ⟨more, readFrom_string hskip hread, hmore⟩
  | .array items =>
    obtain ⟨hdepth, hall⟩ := fits_array.mp hfits
    obtain ⟨body, hskip, hbody⟩ : ∃ body, skipSpace text = '[' :: body ∧
        Spaced ((Json.array items).lexemes.tail ++ rest) body := by
      cases items <;> exact skipSpace_of_spaced h rfl
    rw [readFrom_array hskip hdepth]
    match items with
    | [] => exact inArray_closed [] hbody
    | item :: items =>
      obtain ⟨hitem, hitems⟩ := List.forall_mem_cons.mp hall
      have hfirst : Spaced (separator true ++ (item.lexemes ++ (moreItems items ++ [']'] :: rest)))
          body := by
        simpa [lexemes, separator] using hbody
      obtain ⟨after, hread, hafter⟩ :=
        inArray_item [] hfirst hitem (recovers item hitem (endsValue_moreItems items))
      rw [hread]
      exact inArray_moreItems items [item] hafter hitems
  | .object members =>
    obtain ⟨hdepth, hall⟩ := fits_object.mp hfits
    obtain ⟨body, hskip, hbody⟩ : ∃ body, skipSpace text = '{' :: body ∧
        Spaced ((Json.object members).lexemes.tail ++ rest) body := by
      cases members <;> exact skipSpace_of_spaced h rfl
    rw [readFrom_object hskip hdepth]
    match members with
    | [] => exact inObject_closed [] hbody
    | (key, value) :: members =>
      obtain ⟨hvalue, hmembers⟩ := List.forall_mem_cons.mp hall
      have hfirst : Spaced (separator true ++ quote key :: [':'] ::
          (value.lexemes ++ (moreMembers members ++ ['}'] :: rest))) body := by
        simpa [lexemes, separator] using hbody
      obtain ⟨after, hread, hafter⟩ :=
        inObject_member [] hfirst (recovers value hvalue (endsValue_moreMembers members))
      rw [hread]
      exact inObject_moreMembers members [(key, value)] hafter hmembers

theorem inArray_moreItems (items : List Json) {outer : List Open} (done : List Json)
    {rest : List (List Char)} {text : List Char}
    (h : Spaced (moreItems items ++ [']'] :: rest) text)
    (hfits : ∀ item ∈ items, item.Fits Number.IsWord (outer.length + 1)) :
    ∃ more, inArray outer false done text =
        readFrom (.close (.array (done.reverse ++ items))) outer more ∧ Spaced rest more := by
  match items with
  | [] =>
    rw [List.append_nil]
    exact inArray_closed done h
  | item :: items =>
    obtain ⟨hitem, hitems⟩ := List.forall_mem_cons.mp hfits
    have hnext : Spaced (separator false ++ (item.lexemes ++ (moreItems items ++ [']'] :: rest)))
        text := by
      simpa [moreItems, separator] using h
    obtain ⟨after, hread, hafter⟩ :=
      inArray_item done hnext hitem (recovers item hitem (endsValue_moreItems items))
    obtain ⟨more, hclose, hmore⟩ := inArray_moreItems items (item :: done) hafter hitems
    refine ⟨more, ?_, hmore⟩
    rw [hread, hclose, List.reverse_cons, List.append_assoc, List.singleton_append]

theorem inObject_moreMembers (members : List (String × Json)) {outer : List Open}
    (done : List (String × Json)) {rest : List (List Char)} {text : List Char}
    (h : Spaced (moreMembers members ++ ['}'] :: rest) text)
    (hfits : ∀ member ∈ members, member.2.Fits Number.IsWord (outer.length + 1)) :
    ∃ more, inObject outer false done text =
        readFrom (.close (.object (done.reverse ++ members))) outer more ∧ Spaced rest more := by
  match members with
  | [] =>
    rw [List.append_nil]
    exact inObject_closed done h
  | (key, value) :: members =>
    obtain ⟨hvalue, hmembers⟩ := List.forall_mem_cons.mp hfits
    have hnext : Spaced (separator false ++ quote key :: [':'] ::
        (value.lexemes ++ (moreMembers members ++ ['}'] :: rest))) text := by
      simpa [moreMembers, separator] using h
    obtain ⟨after, hread, hafter⟩ :=
      inObject_member done hnext (recovers value hvalue (endsValue_moreMembers members))
    obtain ⟨more, hclose, hmore⟩ :=
      inObject_moreMembers members ((key, value) :: done) hafter hmembers
    refine ⟨more, ?_, hmore⟩
    rw [hread, hclose, List.reverse_cons, List.append_assoc, List.singleton_append]

end

/-! ## What the reader gives -/

/-- The numbers that the reader gives: its integers are words. -/
def Number.IsRead : Number → Prop
  | .integer i => (Number.integer i).IsWord
  | .real .. => True

/-- What an open container holds so far fits inside so many others. -/
def Open.Fits (outside : Nat) : Open → Prop
  | .array items => ∀ item ∈ items, item.Fits Number.IsRead (outside + 1)
  | .object members _ => ∀ member ∈ members, member.2.Fits Number.IsRead (outside + 1)

/-- The open containers are not nested too deep, and what they hold fits. -/
def StackFits : List Open → Prop
  | [] => True
  | container :: outer => outer.length < maxDepth ∧ container.Fits outer.length ∧ StackFits outer

/-- What has been read of what is due fits inside the open containers. -/
def Due.Fits (outer : List Open) : Due → Prop
  | .value => True
  | .key members =>
    outer.length < maxDepth ∧ ∀ member ∈ members, member.2.Fits Number.IsRead (outer.length + 1)
  | .close v => v.Fits Number.IsRead outer.length

theorem StackFits.length_le {outer : List Open} (h : StackFits outer) :
    outer.length ≤ maxDepth := by
  cases outer with
  | nil => exact Nat.zero_le maxDepth
  | cons container outer => exact h.1

theorem fits_of_readScalar? {outside : Nat} {v : Json} {text rest : List Char}
    (h : readScalar? text = some (.ok (v, rest))) (hle : outside ≤ maxDepth) :
    v.Fits Number.IsRead outside := by
  have plain {w : Json} (hdepth : w.depth = 0) (hnumbers : w.numbers = []) :
      w.Fits Number.IsRead outside := by
    refine ⟨by omega, ?_⟩
    rw [hnumbers]
    exact List.forall_mem_nil _
  cases isScalar_of_readScalar? h with
  | null => exact plain rfl rfl
  | bool b => exact plain rfl rfl
  | string s => exact plain rfl rfl
  | @number negative body n hread =>
    refine fits_number.mpr ⟨hle, ?_⟩
    cases n with
    | integer i => exact isWord_of_readNumber hread
    | real sign magnitude => trivial

theorem fits_closeArray {outside : Nat} {items : List Json} (hlt : outside < maxDepth)
    (h : (Open.array items).Fits outside) : (Json.array items.reverse).Fits Number.IsRead outside :=
  fits_array.mpr ⟨hlt, fun item hitem => h item (List.mem_reverse.mp hitem)⟩

theorem fits_closeObject {outside : Nat} {members : List (String × Json)} (hlt : outside < maxDepth)
    (h : ∀ member ∈ members, member.2.Fits Number.IsRead (outside + 1)) :
    (Json.object members.reverse).Fits Number.IsRead outside :=
  fits_object.mpr ⟨hlt, fun member hmember => h member (List.mem_reverse.mp hmember)⟩

/-- Each step keeps what is open and what is due within the bounds. -/
theorem fits_of_readFrom {due : Due} {outer : List Open} {v : Json} {text rest : List Char}
    (h : readFrom due outer text = .ok (v, rest)) (hstack : StackFits outer)
    (hdue : due.Fits outer) : v.Fits Number.IsRead 0 := by
  fun_induction readFrom due outer text with
  | case3 outer text c body _ v' after hscalar ih =>
    exact ih h hstack (fits_of_readScalar? hscalar hstack.length_le)
  | case6 outer text body hdepth after _ _ _ ih =>
    exact ih h hstack (fits_closeArray (Nat.not_le.mp hdepth) (List.forall_mem_nil _))
  | case7 outer text body hdepth item _ _ _ ih =>
    exact ih h ⟨Nat.not_le.mp hdepth, List.forall_mem_nil _, hstack⟩ trivial
  | case10 outer text body hdepth after _ _ _ _ ih =>
    exact ih h hstack (fits_closeObject (Nat.not_le.mp hdepth) (List.forall_mem_nil _))
  | case11 outer text body hdepth member _ _ _ _ ih =>
    exact ih h hstack ⟨Nat.not_le.mp hdepth, List.forall_mem_nil _⟩
  | case15 outer text members key after _ value _ ih =>
    exact ih h ⟨hdue.1, hdue.2, hstack⟩ trivial
  | case16 text v' =>
    cases h
    exact hdue
  | case18 text v' items outer after _ ih =>
    obtain ⟨hlt, hitems, hstack⟩ := hstack
    exact ih h hstack (fits_closeArray hlt (List.forall_mem_cons.mpr ⟨hdue, hitems⟩))
  | case19 text v' items outer item _ ih =>
    obtain ⟨hlt, hitems, hstack⟩ := hstack
    exact ih h ⟨hlt, List.forall_mem_cons.mpr ⟨hdue, hitems⟩, hstack⟩ trivial
  | case21 text v' members key outer after _ ih =>
    obtain ⟨hlt, hmembers, hstack⟩ := hstack
    exact ih h hstack (fits_closeObject hlt (List.forall_mem_cons.mpr ⟨hdue, hmembers⟩))
  | case22 text v' members key outer member _ ih =>
    obtain ⟨hlt, hmembers, hstack⟩ := hstack
    exact ih h hstack ⟨hlt, List.forall_mem_cons.mpr ⟨hdue, hmembers⟩⟩
  | _ => cases h

/-! ## Documents -/

/-- A value is read back from any layout of its lexemes. -/
theorem parse_spaced {v : Json} {text : List Char} (h : Spaced v.lexemes text)
    (hfits : v.Fits Number.IsWord 0) : parse text = .ok v := by
  rw [← List.append_nil v.lexemes] at h
  obtain ⟨more, hread, hmore⟩ := @recovers v [] [] hfits (by simp [EndsValue]) text h
  exact parse_eq_ok.mpr ⟨more, hread.trans (readFrom_done v more), skipSpace_of_spaced_nil hmore⟩

theorem fits_of_parse {v : Json} {text : List Char} (h : parse text = .ok v) :
    v.Fits Number.IsRead 0 := by
  obtain ⟨rest, hread, -⟩ := parse_eq_ok.mp h
  exact fits_of_readFrom hread trivial trivial

/-- The numbers of the value are integers. -/
def NoReals (v : Json) : Prop :=
  ∀ n ∈ v.numbers, ∃ i, n = .integer i

/-- **What is read back**: a value without binary numbers comes back from a text of its lexemes
exactly if it is not nested too deep and its integers have 64 bits. -/
theorem parse_spaced_iff {v : Json} (hreals : v.NoReals) {text : List Char}
    (h : Spaced v.lexemes text) : parse text = .ok v ↔ v.Fits Number.IsWord 0 := by
  refine ⟨fun hparse => ?_, parse_spaced h⟩
  obtain ⟨hdepth, hnumbers⟩ := fits_of_parse hparse
  refine ⟨hdepth, fun n hn => ?_⟩
  obtain ⟨i, rfl⟩ := hreals n hn
  exact hnumbers _ hn

end OpacityMigration.Json
