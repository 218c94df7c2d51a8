import OpacityMigration.Config.Decoder
import OpacityMigration.Proofs.JsonDocuments
import Mathlib.Logic.Function.Basic

/-!
# Configuration files are JSON documents

A configuration file is decoded while it is read, key by key. Said of the document as a whole: what
can be decoded is a JSON document, an object with members under the keys or a list with their
values, and each key has the value that it has there, or none if it is absent or `null` there.

* `Given`: what is taken from a document for a key.
* `readNullable_given`, `readField_takes`: the reader of a key's value goes over it as the reader of
  documents does.
* `readMembers_takes`, `readItems_takes`: the same for the loops over members and items.
* `decodeFile_takes`: what a configuration file says.
-/

namespace OpacityMigration.Config

open Json (Fault Open readFrom inArray inObject map_eq_ok)

/-! ## What a document says -/

/-- The value that a document has for a key: under its name in an object, in its place in a list. -/
def Key.valueIn? (v : Json) (key : Key) : Option Json :=
  match v with
  | .object members => members.lookup key.name
  | .array items => items[Key.all.idxOf key]?
  | _ => none

def IsPath (p : Path) (v : Json) : Prop :=
  ∃ s, v = .string s ∧ p = .ofString s

def IsTexts (strings : List String) (v : Json) : Prop :=
  v = .array (strings.map Json.string)

/-- What is taken from the value that a key has in a document, `Form` saying what a value has to be:
nothing, if the key is absent or `null`. -/
inductive Given {α : Type} (Form : α → Json → Prop) : Option Json → Option α → Prop
  | absent : Given Form none none
  | null : Given Form (some .null) none
  | value {a : α} {v : Json} (h : Form a v) : Given Form (some v) (some a)

/-- The draft has the values that the keys are given. -/
structure Draft.Takes (draft : Draft) (value : Key → Option Json) : Prop where
  root : Given IsPath (value .root) draft.root
  extensions : Given IsTexts (value .extensions) draft.extensions
  skipDirs : Given IsTexts (value .skipDirs) draft.skipDirs

/-- The fields have these values, and those keys are read that are given one. -/
structure Fields.Take (fields : Fields) (value : Key → Option Json) : Prop where
  draft : fields.draft.Takes value
  has : ∀ key, fields.has key = (value key).isSome

/-! ## Values -/

variable {α : Type} {outer : List Open} {text rest : List Char}

/-- What one reader takes off the front of a text, the reader of documents takes off as a value of
that form, and both go on with the same text. -/
def Agrees (read : List Char → Except Fault (α × List Char)) (Form : α → Json → Prop) : Prop :=
  ∀ (outer : List Open) (text : List Char) (a : α) (rest : List Char),
    outer.length < Json.maxDepth → read text = .ok (a, rest) →
    ∃ v, Form a v ∧ readFrom .value outer text = readFrom (.close v) outer rest

theorem readText_string {expected s : String} (h : readText expected text = .ok (s, rest)) :
    readFrom .value outer text = readFrom (.close (.string s)) outer rest := by
  unfold readText at h
  split at h
  · cases h
  · rename_i c body hskip
    split at h
    · rename_i hquote
      rw [hquote] at hskip
      exact Json.readFrom_string hskip h
    · cases h

theorem agrees_readPath : Agrees readPath IsPath := by
  intro outer text p rest hdepth h
  obtain ⟨s, hread, rfl⟩ := map_eq_ok h
  exact ⟨.string s, ⟨s, rfl, rfl⟩, readText_string hread⟩

/-- The strings of a list, after those read so far. -/
theorem readTextsFrom_array {items strings : List String}
    (h : readTextsFrom items text = .ok (strings, rest)) :
    inArray outer items.isEmpty (items.map Json.string) text =
      readFrom (.close (.array (strings.map Json.string))) outer rest := by
  fun_induction readTextsFrom items text with
  | case1 => cases h
  | case2 items text rest' hnext =>
    cases h
    rw [inArray, hnext, List.map_reverse]
  | case3 => cases h
  | case4 items text item hnext s rest' hread ih =>
    rw [inArray, hnext]
    simp only
    rw [readText_string hread, Json.readFrom_item]
    exact ih h

theorem agrees_readTexts : Agrees readTexts IsTexts := by
  intro outer text strings rest hdepth h
  refine ⟨_, rfl, ?_⟩
  unfold readTexts at h
  split at h
  · cases h
  · rename_i c body hskip
    split at h
    · rename_i hbracket
      rw [hbracket] at hskip
      rw [Json.readFrom_array hskip hdepth]
      exact readTextsFrom_array h
    · cases h

theorem readNullable_given {read : List Char → Except Fault (α × List Char)}
    {Form : α → Json → Prop} {given : Option α} (hread : Agrees read Form)
    (hdepth : outer.length < Json.maxDepth)
    (h : readNullable .file read text = .ok (given, rest)) :
    ∃ v, Given Form (some v) given ∧
      readFrom .value outer text = readFrom (.close v) outer rest := by
  unfold readNullable at h
  split at h
  · rename_i _ body _ hskip
    cases hword : Json.readWord "ull".toList body with
    | error fault =>
      rw [hword] at h
      cases h
    | ok more =>
      rw [hword] at h
      cases h
      exact ⟨.null, .null, Json.readFrom_null hskip hword⟩
  · obtain ⟨a, hok, rfl⟩ := map_eq_ok h
    obtain ⟨v, hform, hgo⟩ := hread outer text a rest hdepth hok
    exact ⟨v, .value hform, hgo⟩

/-- The value of a key is put into its field. -/
theorem readField_takes {fields fields' : Fields} {key : Key} {value : Key → Option Json}
    (hdepth : outer.length < Json.maxDepth) (htake : fields.Take value)
    (h : readField .file fields key text = .ok (fields', rest)) :
    ∃ v, readFrom .value outer text = readFrom (.close v) outer rest ∧
      fields'.Take (Function.update value key (some v)) := by
  have hhas := htake.has
  obtain ⟨hroot, hextensions, hskipDirs⟩ := htake.draft
  cases key with
  | root =>
    rw [readField] at h
    obtain ⟨given, hread, rfl⟩ :=
      map_eq_ok (f := fun v => { fields with root := some v }) h
    obtain ⟨v, hgiven, hgo⟩ := readNullable_given agrees_readPath hdepth hread
    refine ⟨v, hgo, ⟨hgiven, hextensions, hskipDirs⟩, ?_⟩
    rintro (_ | _ | _)
    exacts [rfl, hhas .extensions, hhas .skipDirs]
  | extensions =>
    rw [readField] at h
    obtain ⟨given, hread, rfl⟩ :=
      map_eq_ok (f := fun v => { fields with extensions := some v }) h
    obtain ⟨v, hgiven, hgo⟩ := readNullable_given agrees_readTexts hdepth hread
    refine ⟨v, hgo, ⟨hroot, hgiven, hskipDirs⟩, ?_⟩
    rintro (_ | _ | _)
    exacts [hhas .root, rfl, hhas .skipDirs]
  | skipDirs =>
    rw [readField] at h
    obtain ⟨given, hread, rfl⟩ :=
      map_eq_ok (f := fun v => { fields with skipDirs := some v }) h
    obtain ⟨v, hgiven, hgo⟩ := readNullable_given agrees_readTexts hdepth hread
    refine ⟨v, hgo, ⟨hroot, hextensions, hgiven⟩, ?_⟩
    rintro (_ | _ | _)
    exacts [hhas .root, hhas .extensions, rfl]

theorem take_empty {value : Key → Option Json} (h : ∀ key, value key = none) :
    Fields.empty.Take value := by
  refine ⟨⟨?_, ?_, ?_⟩, fun key => ?_⟩
  · rw [h]
    exact .absent
  · rw [h]
    exact .absent
  · rw [h]
    exact .absent
  · rw [h]
    cases key <;> rfl

theorem depth_one (container : Open) : [container].length < Json.maxDepth := by
  show 1 < Json.maxDepth
  decide

/-! ## Objects -/

theorem name_of_ofName? {name : String} {key : Key} (h : Key.ofName? name = some key) :
    key.name = name := by
  simpa using List.find?_some h

theorem name_injective {key key' : Key} (h : key.name = key'.name) : key = key' := by
  cases key <;> cases key' <;> first | rfl | exact absurd h (by decide)

/-- A member with a new key is found under that key, and no other is. -/
theorem lookup_member {members : List (String × Json)} {key : Key} {v : Json}
    (hnew : members.reverse.lookup key.name = none) :
    (fun key' : Key => ((key.name, v) :: members).reverse.lookup key'.name) =
      Function.update (fun key' : Key => members.reverse.lookup key'.name) key (some v) := by
  funext key'
  rw [List.reverse_cons, List.lookup_append]
  by_cases hkey : key' = key
  · subst hkey
    rw [Function.update_self, hnew]
    simp
  · have hname : (key'.name == key.name) = false := by
      simpa using fun heq => hkey (name_injective heq)
    rw [Function.update_of_ne hkey]
    simp [List.lookup_cons, hname]

/-- The members after those read so far. -/
theorem readMembers_takes {first : Bool} {fields fields' : Fields}
    (members : List (String × Json))
    (htake : fields.Take fun key => members.reverse.lookup key.name)
    (h : readMembers .file first fields text = .ok (fields', rest)) :
    ∃ members', inObject [] first members text = .ok (.object members', rest) ∧
      fields'.Take fun key => members'.lookup key.name := by
  fun_induction readMembers .file first fields text generalizing members with
  | case3 first fields text rest' hnext hmissing =>
    cases h
    refine ⟨members.reverse, ?_, htake⟩
    rw [inObject, hnext]
    exact Json.readFrom_done _ _
  | case8 first fields text member hnext name after hname key hkey hnew value hcolon fields₁ rest₁
      hfield ih =>
    obtain ⟨v, hgo, htake₁⟩ := readField_takes (depth_one (.object members name)) htake hfield
    have habsent : members.reverse.lookup key.name = none := by
      have hhas := htake.has key
      rw [Bool.eq_false_iff.mpr hnew] at hhas
      simpa using hhas.symm
    rw [← lookup_member habsent] at htake₁
    obtain ⟨members', hread, htake'⟩ := ih _ htake₁ h
    refine ⟨members', ?_, htake'⟩
    rw [inObject, hnext]
    simp only
    rw [Json.readFrom_key hname hcolon, hgo, Json.readFrom_member, ← name_of_ofName? hkey]
    exact hread
  | case9 => cases h
  | case10 _ _ _ _ _ _ _ _ _ hform => exact absurd rfl hform
  | case11 _ _ _ _ _ _ _ _ _ hform => exact absurd rfl hform
  | case12 _ _ _ _ _ _ _ _ _ hform => exact absurd rfl hform
  | _ => cases h

/-! ## Lists -/

theorem idxOf_of_drop {index : Nat} {key : Key} {keys : List Key}
    (h : Key.all.drop index = key :: keys) : Key.all.idxOf key = index := by
  match index, h with
  | 0, h | 1, h | 2, h =>
    obtain ⟨rfl, -⟩ := List.cons.inj h
    decide
  | _ + 3, h => simp [Key.all] at h

theorem idxOf_injective {key key' : Key} (h : Key.all.idxOf key = Key.all.idxOf key') :
    key = key' := by
  cases key <;> cases key' <;> first | rfl | exact absurd h (by decide)

/-- The next item is found in the place of its key, and no other is. -/
theorem getElem?_item {items : List Json} {key : Key} {v : Json}
    (hlength : items.length = Key.all.idxOf key) :
    (fun key' => (v :: items).reverse[Key.all.idxOf key']?) =
      Function.update (fun key' => items.reverse[Key.all.idxOf key']?) key (some v) := by
  funext key'
  rw [List.reverse_cons, List.getElem?_append, List.length_reverse, hlength]
  by_cases hkey : key' = key
  · subst hkey
    simp
  · have hne : Key.all.idxOf key' ≠ Key.all.idxOf key := fun h => hkey (idxOf_injective h)
    rw [Function.update_of_ne hkey]
    split
    · rfl
    · rw [List.getElem?_eq_none (by simp; omega), List.getElem?_eq_none (by simp; omega)]

theorem nextItem_of_closing (hskip : Json.skipSpace text = ']' :: rest) (first : Bool) :
    Json.nextItem first text = .ok (.closed rest) := by
  simp [Json.nextItem, hskip]

/-- The items after those read so far. -/
theorem readItems_takes {index : Nat} {keys : List Key} {fields fields' : Fields}
    (items : List Json) (hlength : items.length = index) (hkeys : Key.all.drop index = keys)
    (htake : fields.Take fun key => items.reverse[Key.all.idxOf key]?)
    (h : readItems .file index fields text keys = .ok (fields', rest)) :
    ∃ items', inArray [] (index == 0) items text = .ok (.array items', rest) ∧
      fields'.Take fun key => items'[Key.all.idxOf key]? := by
  induction keys generalizing index fields text items with
  | nil =>
    rw [readItems] at h
    split at h
    · cases h
    · rename_i c more hskip
      split at h
      · rename_i hclosing
        cases h
        rw [hclosing] at hskip
        refine ⟨items.reverse, ?_, htake⟩
        rw [inArray, nextItem_of_closing hskip]
        exact Json.readFrom_done _ _
      · split at h
        · split at h
          · cases h
          · split at h <;> cases h
        · cases h
  | cons key keys ih =>
    rw [readItems] at h
    split at h
    · cases h
    · cases h
    · rename_i item hnext
      split at h
      · cases h
      · rename_i fields₁ rest₁ hfield
        have hindex := idxOf_of_drop hkeys
        obtain ⟨v, hgo, htake₁⟩ := readField_takes (depth_one (.array items)) htake hfield
        rw [← getElem?_item (hlength.trans hindex.symm)] at htake₁
        have hdrop : Key.all.drop (index + 1) = keys := by
          rw [← List.tail_drop, hkeys, List.tail_cons]
        have hcount : (v :: items).length = index + 1 := by rw [List.length_cons, hlength]
        obtain ⟨items', hread, htake'⟩ := ih (v :: items) hcount hdrop htake₁ h
        refine ⟨items', ?_, htake'⟩
        rw [inArray, hnext]
        simp only
        rw [hgo, Json.readFrom_item]
        exact hread

/-! ## Files -/

theorem readFields_takes {fields : Fields} (h : readFields .file text = .ok (fields, rest)) :
    ∃ v, Json.readValue text = .ok (v, rest) ∧ fields.Take (Key.valueIn? v) := by
  unfold readFields at h
  split at h
  · cases h
  · rename_i c body hskip
    split at h
    · rename_i hbracket
      rw [hbracket] at hskip
      obtain ⟨items, hread, htake⟩ := readItems_takes [] rfl rfl (take_empty fun _ => rfl) h
      refine ⟨.array items, ?_, htake⟩
      rw [Json.readValue, Json.readFrom_array hskip (by decide)]
      exact hread
    · split at h
      · rename_i hbracket
        rw [hbracket] at hskip
        obtain ⟨members, hread, htake⟩ := readMembers_takes [] (take_empty fun _ => rfl) h
        refine ⟨.object members, ?_, htake⟩
        rw [Json.readValue, Json.readFrom_object hskip (by decide)]
        exact hread
      · cases h

/-- **What a configuration file says.** It is a JSON document, and each key has the value that it
has in the document, or none if it is absent or `null` there. -/
theorem decodeFile_takes {draft : Draft} (h : decodeFile text = .ok draft) :
    ∃ v, Json.parse text = .ok v ∧ draft.Takes (Key.valueIn? v) := by
  unfold decodeFile decode at h
  cases hread : readFields .file text with
  | error fault =>
    rw [hread] at h
    cases h
  | ok pair =>
    obtain ⟨fields, rest⟩ := pair
    obtain ⟨v, hvalue, htake⟩ := readFields_takes hread
    rw [hread, Json.finish] at h
    cases hrest : Json.skipSpace rest with
    | nil =>
      simp only [hrest] at h
      cases h
      refine ⟨v, ?_, htake.draft⟩
      rw [Json.parse, hvalue, Json.finish]
      simp only [hrest]
      rfl
    | cons c more =>
      simp only [hrest] at h
      cases h

end OpacityMigration.Config
