import OpacityMigration.Proofs.ConfigDocuments
import OpacityMigration.Proofs.ConfigForms
import OpacityMigration.Proofs.SkippedValues

/-!
# Fields key by key

What is read for a key goes into the field of that key and leaves the others as they are, and no key
is read twice. So what was read for a key stays. The two forms of a configuration read a value in
the same way, but for `null`, which only a configuration file may have: a complete configuration
takes exactly the values that are not read as `null`.

* `Fields.get`, `Fields.set`, `readField_eq_ok`: the field of a key, and how it is read.
* `readNullable_complete_iff`, `readField_complete_iff`: the value of a key in both forms.
* `skipValue_of_readField`: the value of a key is a value.
* `Fields.Extends`, `extends_of_readMembers`, `extends_of_readItems`: what is read stays.
-/

namespace OpacityMigration.Config

open Json (Fault map_eq_ok skipSpace skipValue)

variable {form : Form} {first : Bool} {index : Nat} {fields fields' : Fields} {key key' : Key}
  {keys : List Key} {text body rest : List Char} {c : Config}

/-! ## The field of a key -/

/-- What the value of a key is read as. -/
def Key.Value : Key → Type
  | .root => Path
  | .extensions => List String
  | .skipDirs => List String

def readKey : (key : Key) → List Char → Except Fault (key.Value × List Char)
  | .root => readPath
  | .extensions => readTexts
  | .skipDirs => readTexts

namespace Fields

/-- The field of a key: whether it was read, and its value if it was not `null`. -/
def get (fields : Fields) : (key : Key) → Option (Option key.Value)
  | .root => fields.root
  | .extensions => fields.extensions
  | .skipDirs => fields.skipDirs

def set (fields : Fields) : (key : Key) → Option key.Value → Fields
  | .root, v => { fields with root := some v }
  | .extensions, v => { fields with extensions := some v }
  | .skipDirs, v => { fields with skipDirs := some v }

@[simp] theorem get_set (fields : Fields) (key : Key) (v : Option key.Value) :
    (fields.set key v).get key = some v := by
  cases key <;> rfl

theorem get_set_of_ne (h : key' ≠ key) (fields : Fields) (v : Option key.Value) :
    (fields.set key v).get key' = fields.get key' := by
  cases key <;> cases key' <;> first | rfl | exact absurd rfl h

theorem has_eq (fields : Fields) (key : Key) : fields.has key = (fields.get key).isSome := by
  cases key <;> rfl

/-- The field of the key was read, and not as `null`. -/
def Valued (fields : Fields) (key : Key) : Prop :=
  ∃ a, fields.get key = some (some a)

theorem valued_full (c : Config) (key : Key) : (full c).Valued key := by
  cases key with
  | root => exact ⟨c.root, rfl⟩
  | extensions => exact ⟨c.extensions, rfl⟩
  | skipDirs => exact ⟨c.skipDirs, rfl⟩

theorem exists_full (h : ∀ key, fields.Valued key) : ∃ c, fields = full c := by
  obtain ⟨root, hroot⟩ := h .root
  obtain ⟨extensions, hextensions⟩ := h .extensions
  obtain ⟨skipDirs, hskipDirs⟩ := h .skipDirs
  obtain ⟨_, _, _⟩ := fields
  cases hroot
  cases hextensions
  cases hskipDirs
  exact ⟨⟨root, extensions, skipDirs⟩, rfl⟩

theorem draft_eq_iff : fields.draft = c.draft ↔ fields = full c := by
  obtain ⟨root, extensions, skipDirs⟩ := fields
  simp [draft, Config.draft, full, Option.join_eq_some_iff]

end Fields

/-! ## Values -/

theorem readField_eq (form : Form) (fields : Fields) (key : Key) (text : List Char) :
    readField form fields key text =
      (readNullable form (readKey key) text).map fun (v, rest) => (fields.set key v, rest) := by
  cases key <;> rfl

theorem readField_eq_ok :
    readField form fields key text = .ok (fields', rest) ↔
      ∃ v, readNullable form (readKey key) text = .ok (v, rest) ∧ fields.set key v = fields' := by
  rw [readField_eq]
  constructor
  · exact map_eq_ok
  · rintro ⟨v, hread, rfl⟩
    rw [hread]
    rfl

/-- No value of a key starts as `null` does. -/
theorem readKey_of_null (hskip : skipSpace text = 'n' :: body) :
    ∃ fault, readKey key text = .error fault := by
  have htext : ∀ expected, ∃ fault, readText expected text = .error fault := by
    intro expected
    simp [readText, hskip]
  have htexts : ∃ fault, readTexts text = .error fault := by
    simp [readTexts, hskip]
  cases key with
  | root =>
    obtain ⟨fault, hfault⟩ := htext "path string"
    exact ⟨fault, by rw [readKey, readPath, hfault]; rfl⟩
  | extensions => exact htexts
  | skipDirs => exact htexts

theorem readNullable_complete {α : Type} (read : List Char → Except Fault (α × List Char))
    (text : List Char) :
    readNullable .complete read text = (read text).map fun (a, rest) => (some a, rest) := by
  unfold readNullable
  split
  · rename_i hform _
    cases hform
  · rfl

theorem readNullable_null {α : Type} {read : List Char → Except Fault (α × List Char)}
    (hskip : skipSpace text = 'n' :: body) :
    readNullable .file read text = (Json.readWord "ull".toList body).map (none, ·) := by
  unfold readNullable
  split
  · rename_i hnull
    obtain ⟨-, rfl⟩ := List.cons.inj (hskip.symm.trans hnull)
    rfl
  · rename_i hnull
    exact absurd hskip (hnull _ rfl)

theorem readNullable_file {α : Type} (read : List Char → Except Fault (α × List Char))
    (h : ∀ body, skipSpace text ≠ 'n' :: body) :
    readNullable .file read text = (read text).map fun (a, rest) => (some a, rest) := by
  unfold readNullable
  split
  · rename_i hskip
    exact absurd hskip (h _)
  · rfl

/-- A complete configuration needs the value that a configuration file may do without. -/
theorem readNullable_complete_iff {v : Option key.Value} :
    readNullable .complete (readKey key) text = .ok (v, rest) ↔
      (∃ a, v = some a) ∧ readNullable .file (readKey key) text = .ok (v, rest) := by
  rw [readNullable_complete]
  by_cases hnull : ∃ body, skipSpace text = 'n' :: body
  · obtain ⟨body, hskip⟩ := hnull
    obtain ⟨fault, hfault⟩ := @readKey_of_null key text body hskip
    constructor
    · intro h
      rw [hfault] at h
      cases h
    · rintro ⟨⟨a, rfl⟩, h⟩
      rw [readNullable_null hskip] at h
      cases (Json.word_eq_ok h).2
  · rw [readNullable_file _ (not_exists.mp hnull)]
    constructor
    · intro h
      obtain ⟨a, -, ha⟩ := map_eq_ok h
      exact ⟨⟨a, ha.symm⟩, h⟩
    · exact And.right

theorem readField_complete_iff :
    readField .complete fields key text = .ok (fields', rest) ↔
      readField .file fields key text = .ok (fields', rest) ∧ fields'.Valued key := by
  constructor
  · intro h
    obtain ⟨v, hread, rfl⟩ := readField_eq_ok.mp h
    obtain ⟨⟨a, rfl⟩, hfile⟩ := readNullable_complete_iff.mp hread
    exact ⟨readField_eq_ok.mpr ⟨some a, hfile, rfl⟩, a, Fields.get_set fields key (some a)⟩
  · rintro ⟨h, a, ha⟩
    obtain ⟨v, hread, rfl⟩ := readField_eq_ok.mp h
    rw [Fields.get_set] at ha
    exact readField_eq_ok.mpr
      ⟨v, readNullable_complete_iff.mpr ⟨⟨a, Option.some.inj ha⟩, hread⟩, rfl⟩

theorem skipValue_of_readNullable {α : Type} {read : List Char → Except Fault (α × List Char)}
    {Form : α → Json → Prop} {given : Option α} (hread : Agrees read Form)
    (h : readNullable .file read text = .ok (given, rest)) : skipValue text = .ok rest := by
  obtain ⟨v, -, hvalue⟩ :=
    @readNullable_given α [] text rest read Form given hread (by decide) h
  rw [Json.readFrom_done] at hvalue
  exact Json.skipValue_of_readValue hvalue

/-- A value that is read for a key can be passed over. -/
theorem skipValue_of_readField (h : readField .file fields key text = .ok (fields', rest)) :
    skipValue text = .ok rest := by
  obtain ⟨v, hread, -⟩ := readField_eq_ok.mp h
  cases key with
  | root => exact skipValue_of_readNullable agrees_readPath hread
  | extensions => exact skipValue_of_readNullable agrees_readTexts hread
  | skipDirs => exact skipValue_of_readNullable agrees_readTexts hread

/-! ## Lists and objects -/

theorem readFields_array (hskip : skipSpace text = '[' :: body) :
    readFields form text = readItems form 0 .empty body Key.all := by
  simp [readFields, hskip]

theorem readFields_object (hskip : skipSpace text = '\x7b' :: body) :
    readFields form text = readMembers form true .empty body := by
  simp [readFields, hskip]

theorem readFields_eq_ok (h : readFields form text = .ok (fields, rest)) :
    (∃ body, skipSpace text = '[' :: body ∧
      readItems form 0 .empty body Key.all = .ok (fields, rest)) ∨
    ∃ body, skipSpace text = '\x7b' :: body ∧
      readMembers form true .empty body = .ok (fields, rest) := by
  unfold readFields at h
  split at h
  · cases h
  · rename_i bracket body hskip
    split at h
    · rename_i harray
      exact Or.inl ⟨body, by rw [hskip, harray], h⟩
    · split at h
      · rename_i hobject
        exact Or.inr ⟨body, by rw [hskip, hobject], h⟩
      · cases h

theorem nodup_all : Key.all.Nodup := by decide

theorem mem_all (key : Key) : key ∈ Key.all := by
  cases key <;> decide

theorem get_empty (key : Key) : Fields.empty.get key = none := by
  cases key <;> rfl

theorem readItems_cons {item : List Char}
    (hnext : Json.nextItem (index == 0) text = .ok (.entry item))
    (hfield : readField form fields key item = .ok (fields', rest)) :
    readItems form index fields text (key :: keys) =
      readItems form (index + 1) fields' rest keys := by
  rw [readItems, hnext]
  simp only [hfield]

theorem readItems_eq_ok (h : readItems form index fields text (key :: keys) = .ok (fields', rest)) :
    ∃ item fields₁ more, Json.nextItem (index == 0) text = .ok (.entry item) ∧
      readField form fields key item = .ok (fields₁, more) ∧
      readItems form (index + 1) fields₁ more keys = .ok (fields', rest) := by
  rw [readItems] at h
  split at h
  · cases h
  · cases h
  · rename_i item hnext
    split at h
    · cases h
    · rename_i fields₁ more hfield
      exact ⟨item, fields₁, more, hnext, hfield, h⟩

theorem fields_of_readItems_nil (h : readItems form index fields text [] = .ok (fields', rest)) :
    fields' = fields := by
  rw [readItems] at h
  split at h
  · cases h
  · split at h
    · cases h
      rfl
    · split at h
      · split at h
        · cases h
        · split at h <;> cases h
      · cases h

/-! ## What is read stays -/

/-- What was read into `fields` is in `fields'`. -/
def Fields.Extends (fields' fields : Fields) : Prop :=
  ∀ key v, fields.get key = some v → fields'.get key = some v

theorem extends_of_readField (hnew : fields.get key = none)
    (h : readField form fields key text = .ok (fields', rest)) : fields'.Extends fields := by
  obtain ⟨v, -, rfl⟩ := readField_eq_ok.mp h
  intro key' v' hget
  have hne : key' ≠ key := by
    rintro rfl
    rw [hnew] at hget
    cases hget
  rw [Fields.get_set_of_ne hne]
  exact hget

theorem get_of_not_has (h : ¬ fields.has key = true) : fields.get key = none := by
  rw [Fields.has_eq] at h
  simpa using h

theorem extends_of_readMembers (h : readMembers form first fields text = .ok (fields', rest)) :
    fields'.Extends fields := by
  fun_induction readMembers form first fields text with
  | case3 =>
    cases h
    exact fun key v hget => hget
  | case8 first fields text member hnext name after hname key hkey hnew value hcolon fields₁ rest₁
      hfield ih =>
    intro key v hget
    exact ih h key v (extends_of_readField (get_of_not_has hnew) hfield key v hget)
  | case12 first fields text member hnext name after hname hkey hform value hcolon rest₁ hskip ih =>
    exact ih h
  | _ => cases h

/-- The keys of the items to come are still unread. -/
theorem unread_of_readField (hkey : key ∉ keys) (hnew : ∀ key ∈ keys, fields.get key = none)
    (h : readField form fields key text = .ok (fields', rest)) :
    ∀ key ∈ keys, fields'.get key = none := by
  intro key' hkey'
  obtain ⟨v, -, rfl⟩ := readField_eq_ok.mp h
  have hne : key' ≠ key := by
    rintro rfl
    exact hkey hkey'
  rw [Fields.get_set_of_ne hne]
  exact hnew key' hkey'

theorem extends_of_readItems (hnodup : keys.Nodup) (hnew : ∀ key ∈ keys, fields.get key = none)
    (h : readItems form index fields text keys = .ok (fields', rest)) : fields'.Extends fields := by
  induction keys generalizing index fields text with
  | nil =>
    obtain rfl := fields_of_readItems_nil h
    exact fun key v hget => hget
  | cons key keys ih =>
    obtain ⟨item, fields₁, more, -, hfield, hmore⟩ := readItems_eq_ok h
    obtain ⟨hkey, hnodup⟩ := List.nodup_cons.mp hnodup
    obtain ⟨hfresh, hnew⟩ := List.forall_mem_cons.mp hnew
    intro key' v hget
    exact ih hnodup (unread_of_readField hkey hnew hfield) hmore key' v
      (extends_of_readField hfresh hfield key' v hget)

end OpacityMigration.Config
