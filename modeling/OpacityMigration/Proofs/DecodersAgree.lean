import OpacityMigration.Proofs.KeyFields
import OpacityMigration.Proofs.ObjectNames

/-!
# The two forms of a configuration

A configuration file is read as a complete configuration is, but for two points: it may lack a
value, by a missing key or by `null`, and it may not have members under other names. So the loops
over items and members go on in the same way as long as no value is missing and no other name shows.
A value that was read as `null` stays so, hence fields that are full in the end have been read with
a value each. A complete configuration passes over the members under other names, and there a
configuration file is refused.

* `readMembers_complete`, `readItems_complete`: from a configuration file to a complete one.
* `valued_of_readMembers`, `valued_of_readItems`: a complete configuration has all values.
* `readMembers_file`, `readItems_file`: from a complete configuration to a configuration file.
* `decodeFile_eq_ok`, `decodeComplete_eq_ok`: the same said of texts, which `complete_of_file`,
  `file_of_complete` and `decoders_agree` put together.
-/

namespace OpacityMigration.Config

open Json (Fault Members IsObject skipSpace)

variable {form : Form} {first : Bool} {index : Nat} {fields fields' : Fields} {key : Key}
  {keys : List Key} {text body rest : List Char} {c : Config}

/-! ## From a configuration file to a complete configuration -/

/-- A field that is full in the end was not read as `null`. -/
theorem valued_of_extends (hext : (Fields.full c).Extends fields')
    (h : readField form fields key text = .ok (fields', rest)) : fields'.Valued key := by
  obtain ⟨v, -, rfl⟩ := readField_eq_ok.mp h
  obtain ⟨a, hfull⟩ := Fields.valued_full c key
  have hkept := hext key v (Fields.get_set fields key v)
  rw [hfull] at hkept
  exact ⟨a, by rw [Fields.get_set, ← Option.some.inj hkept]⟩

theorem readMembers_complete (h : readMembers .file first fields text = .ok (Fields.full c, rest)) :
    readMembers .complete first fields text = .ok (Fields.full c, rest) := by
  fun_induction readMembers .file first fields text with
  | case3 first fields text rest' hnext hmissing =>
    cases h
    exact readMembers_closed hnext (missing?_full .complete c)
  | case8 first fields text member hnext name after hname key hkey hnew value hcolon fields₁ rest₁
      hfield ih =>
    have hcomplete := readField_complete_iff.mpr
      ⟨hfield, valued_of_extends (extends_of_readMembers h) hfield⟩
    rw [readMembers_entry hnext hname hkey (Bool.eq_false_iff.mpr hnew) hcolon hcomplete]
    exact ih h
  | case12 _ _ _ _ _ _ _ _ _ hform => exact absurd rfl hform
  | _ => cases h

theorem readItems_complete (hnodup : keys.Nodup) (hnew : ∀ key ∈ keys, fields.get key = none)
    (h : readItems .file index fields text keys = .ok (Fields.full c, rest)) :
    readItems .complete index fields text keys = .ok (Fields.full c, rest) := by
  induction keys generalizing index fields text with
  | nil => exact h
  | cons key keys ih =>
    obtain ⟨item, fields₁, more, hnext, hfield, hmore⟩ := readItems_eq_ok h
    obtain ⟨hkey, hnodup⟩ := List.nodup_cons.mp hnodup
    have hnew₁ := unread_of_readField hkey (List.forall_mem_cons.mp hnew).2 hfield
    have hcomplete := readField_complete_iff.mpr
      ⟨hfield, valued_of_extends (extends_of_readItems hnodup hnew₁ hmore) hfield⟩
    rw [readItems_cons hnext hcomplete]
    exact ih hnodup hnew₁ hmore

theorem readFields_complete (h : readFields .file text = .ok (Fields.full c, rest)) :
    readFields .complete text = .ok (Fields.full c, rest) := by
  rcases readFields_eq_ok h with ⟨body, hskip, hitems⟩ | ⟨body, hskip, hmembers⟩
  · rw [readFields_array hskip]
    exact readItems_complete nodup_all (fun key _ => get_empty key) hitems
  · rw [readFields_object hskip]
    exact readMembers_complete hmembers

/-! ## A complete configuration has all values -/

theorem has_of_missing? (h : missing? .complete fields = none) (key : Key) :
    fields.has key = true := by
  have hall : Key.all.find? (!fields.has ·) = none := h
  simpa using List.find?_eq_none.mp hall key (mem_all key)

/-- Reading the value of a key fills its field and leaves the others as they are. -/
theorem valued_or_of_readField (h : readField .complete fields key text = .ok (fields', rest))
    (key' : Key) :
    fields'.Valued key' ∨ key' ≠ key ∧ fields'.get key' = fields.get key' := by
  by_cases hkey : key' = key
  · rw [hkey]
    exact Or.inl (readField_complete_iff.mp h).2
  · obtain ⟨v, -, rfl⟩ := readField_eq_ok.mp h
    exact Or.inr ⟨hkey, Fields.get_set_of_ne hkey fields v⟩

theorem valued_of_readItems (hkeys : ∀ key, key ∈ keys ∨ fields.Valued key)
    (h : readItems .complete index fields text keys = .ok (fields', rest)) (key : Key) :
    fields'.Valued key := by
  induction keys generalizing index fields text with
  | nil =>
    obtain rfl := fields_of_readItems_nil h
    exact (hkeys key).resolve_left List.not_mem_nil
  | cons next keys ih =>
    obtain ⟨item, fields₁, more, -, hfield, hmore⟩ := readItems_eq_ok h
    refine ih (fun key' => ?_) hmore
    rcases valued_or_of_readField hfield key' with hvalued | ⟨hne, hget⟩
    · exact Or.inr hvalued
    · rw [Fields.Valued, hget]
      exact (hkeys key').imp_left fun hmem => List.mem_of_ne_of_mem hne hmem

theorem valued_of_readMembers (hnull : ∀ key, fields.get key = none ∨ fields.Valued key)
    (h : readMembers .complete first fields text = .ok (fields', rest)) (key : Key) :
    fields'.Valued key := by
  fun_induction readMembers .complete first fields text with
  | case3 first fields text rest' hnext hmissing =>
    cases h
    refine (hnull key).resolve_left fun hnone => ?_
    have hhas := has_of_missing? hmissing key
    rw [Fields.has_eq, hnone] at hhas
    cases hhas
  | case8 first fields text member hnext name after hname key' hkey hnew value hcolon fields₁ rest₁
      hfield ih =>
    refine ih (fun key₁ => ?_) h
    rcases valued_or_of_readField hfield key₁ with hvalued | ⟨-, hget⟩
    · exact Or.inr hvalued
    · rw [Fields.Valued, hget]
      exact hnull key₁
  | case12 first fields text member hnext name after hname hkey hform value hcolon rest₁ hskip ih =>
    exact ih hnull h
  | _ => cases h

/-! ## From a complete configuration to a configuration file -/

theorem readItems_file (h : readItems .complete index fields text keys = .ok (fields', rest)) :
    readItems .file index fields text keys = .ok (fields', rest) := by
  induction keys generalizing index fields text with
  | nil => exact h
  | cons key keys ih =>
    obtain ⟨item, fields₁, more, hnext, hfield, hmore⟩ := readItems_eq_ok h
    rw [readItems_cons hnext (readField_complete_iff.mp hfield).1]
    exact ih hmore

/-- A configuration file has no members under other names. -/
theorem readMembers_unknown {member after : List Char} {name : String}
    (hmember : Json.nextMember first text = .ok (.entry member))
    (hname : Json.readString member = .ok (name, after)) (hkey : Key.ofName? name = none) :
    readMembers .file first fields text =
      .error (.before (.unknownField name Config.keys) (settle '\x7d' after)) := by
  rw [readMembers]
  split
  · simp_all
  · simp_all
  · split
    · simp_all
    · split
      · simp_all
      · have hoptional : Form.file.optional = true := rfl
        rw [if_pos hoptional]
        simp_all

/-- How a configuration file reads the members that a complete configuration has read: in the same
way, or up to one of another name. -/
inductive FileReads (first : Bool) (fields fields' : Fields) (text rest : List Char)
    (names : List String) : Prop
  | same (h : readMembers .file first fields text = .ok (fields', rest))
      (hknown : ∀ name ∈ names, Key.ofName? name ≠ none)
  | unknown {fault : Fault} {name : String} (h : readMembers .file first fields text = .error fault)
      (hcause : fault.cause = .unknownField name Config.keys) (hmem : name ∈ names)
      (hkey : Key.ofName? name = none)

theorem readMembers_file (h : readMembers .complete first fields text = .ok (fields', rest)) :
    ∃ names, Members first text names rest ∧ FileReads first fields fields' text rest names := by
  fun_induction readMembers .complete first fields text with
  | case3 first fields text rest' hnext hmissing =>
    cases h
    exact ⟨[], .closed hnext, .same (readMembers_closed hnext rfl) (by simp)⟩
  | case8 first fields text member hnext name after hname key hkey hnew value hcolon fields₁ rest₁
      hfield ih =>
    obtain ⟨names, hmembers, hreads⟩ := ih h
    have hfile := (readField_complete_iff.mp hfield).1
    have hstep := readMembers_entry hnext hname hkey (Bool.eq_false_iff.mpr hnew) hcolon hfile
    refine ⟨name :: names, .member hnext hname hcolon (skipValue_of_readField hfile) hmembers, ?_⟩
    cases hreads with
    | same hread hknown =>
      refine .same (hstep.trans hread) (List.forall_mem_cons.mpr ⟨?_, hknown⟩)
      rw [hkey]
      exact Option.some_ne_none key
    | unknown hread hcause hmem hother =>
      exact .unknown (hstep.trans hread) hcause (List.mem_cons_of_mem name hmem) hother
  | case12 first fields text member hnext name after hname hkey hform value hcolon rest₁ hskip ih =>
    obtain ⟨names, hmembers, -⟩ := ih h
    exact ⟨name :: names, .member hnext hname hcolon hskip hmembers,
      .unknown (readMembers_unknown hnext hname hkey) rfl List.mem_cons_self hkey⟩
  | _ => cases h

theorem full_of_readFields (h : readFields .complete text = .ok (fields, rest)) :
    ∃ c, fields = Fields.full c := by
  refine Fields.exists_full fun key => ?_
  rcases readFields_eq_ok h with ⟨body, -, hitems⟩ | ⟨body, -, hmembers⟩
  · exact valued_of_readItems (fun key => Or.inl (mem_all key)) hitems key
  · exact valued_of_readMembers (fun key => Or.inl (get_empty key)) hmembers key

/-! ## Decoded texts -/

theorem decode_eq_ok {draft : Draft} :
    decode form text = .ok draft ↔
      ∃ fields rest, readFields form text = .ok (fields, rest) ∧ skipSpace rest = [] ∧
        fields.draft = draft := by
  have hdecode : decode form text = .ok draft ↔
      ∃ fields, Json.finish (readFields form text) = .ok fields ∧ fields.draft = draft := by
    rw [decode]
    cases Json.finish (readFields form text) with
    | error fault =>
      constructor
      · intro h
        cases h
      · rintro ⟨fields, h, -⟩
        cases h
    | ok fields =>
      constructor
      · intro h
        exact ⟨fields, rfl, Except.ok.inj h⟩
      · rintro ⟨fields', h, rfl⟩
        cases h
        rfl
  rw [hdecode]
  constructor
  · rintro ⟨fields, hfinish, hdraft⟩
    obtain ⟨rest, hread, hrest⟩ := Json.finish_eq_ok.mp hfinish
    exact ⟨fields, rest, hread, hrest, hdraft⟩
  · rintro ⟨fields, rest, hread, hrest, hdraft⟩
    exact ⟨fields, Json.finish_eq_ok.mpr ⟨rest, hread, hrest⟩, hdraft⟩

theorem decodeFile_eq_ok :
    decodeFile text = .ok c.draft ↔
      ∃ rest, readFields .file text = .ok (Fields.full c, rest) ∧ skipSpace rest = [] := by
  rw [decodeFile, decode_eq_ok]
  constructor
  · rintro ⟨fields, rest, hread, hrest, hdraft⟩
    rw [Fields.draft_eq_iff.mp hdraft] at hread
    exact ⟨rest, hread, hrest⟩
  · rintro ⟨rest, hread, hrest⟩
    exact ⟨Fields.full c, rest, hread, hrest, rfl⟩

theorem decodeComplete_eq_ok :
    decodeComplete text = .ok c ↔
      ∃ rest, readFields .complete text = .ok (Fields.full c, rest) ∧ skipSpace rest = [] := by
  rw [decodeComplete]
  constructor
  · intro h
    cases hdecode : decode .complete text with
    | error error =>
      rw [hdecode] at h
      cases h
    | ok draft =>
      obtain ⟨fields, rest, hread, hrest, hdraft⟩ := decode_eq_ok.mp hdecode
      obtain ⟨c', rfl⟩ := full_of_readFields hread
      rw [hdecode, ← hdraft] at h
      obtain rfl : c' = c := Except.ok.inj h
      exact ⟨rest, hread, hrest⟩
  · rintro ⟨rest, hread, hrest⟩
    rw [decode_eq_ok.mpr ⟨Fields.full c, rest, hread, hrest, rfl⟩]
    rfl

theorem decodeFile_eq_error {fault : Fault} (h : readFields .file text = .error fault) :
    decodeFile text = .error (fault.error text) := by
  rw [decodeFile, decode, h]
  rfl

theorem ofName?_eq_none_iff {name : String} : Key.ofName? name = none ↔ name ∉ Config.keys := by
  rw [Config.keys, Key.ofName?, List.find?_eq_none]
  simp

/-- A configuration file with a value for every key is a complete configuration with these. -/
theorem complete_of_file (h : decodeFile text = .ok c.draft) : decodeComplete text = .ok c := by
  obtain ⟨rest, hread, hrest⟩ := decodeFile_eq_ok.mp h
  exact decodeComplete_eq_ok.mpr ⟨rest, readFields_complete hread, hrest⟩

/-- What a complete configuration is as a configuration file. -/
theorem decodeFile_of_complete (h : decodeComplete text = .ok c) :
    (decodeFile text = .ok c.draft ∧
      ∀ names, IsObject text names → ∀ name ∈ names, name ∈ Config.keys) ∨
    ∃ error name names, decodeFile text = .error error ∧
      error.cause = .unknownField name Config.keys ∧
      IsObject text names ∧ name ∈ names ∧ name ∉ Config.keys := by
  obtain ⟨rest, hread, hrest⟩ := decodeComplete_eq_ok.mp h
  rcases readFields_eq_ok hread with ⟨body, hskip, hitems⟩ | ⟨body, hskip, hmembers⟩
  · have hitems := readItems_file hitems
    rw [← readFields_array hskip] at hitems
    refine Or.inl ⟨decodeFile_eq_ok.mpr ⟨rest, hitems, hrest⟩, ?_⟩
    -- a list is no object
    rintro names ⟨body', -, hskip', -⟩
    cases hskip.symm.trans hskip'
  · obtain ⟨names, hmembers, hreads⟩ := readMembers_file hmembers
    have hobject : IsObject text names := ⟨body, rest, hskip, hmembers, hrest⟩
    cases hreads with
    | same hfile hknown =>
      rw [← readFields_object hskip] at hfile
      refine Or.inl ⟨decodeFile_eq_ok.mpr ⟨rest, hfile, hrest⟩, ?_⟩
      intro names' hobject' name hmem
      rw [hobject'.unique hobject] at hmem
      by_contra hname
      exact hknown name hmem (ofName?_eq_none_iff.mpr hname)
    | @unknown fault name hfile hcause hmem hkey =>
      rw [← readFields_object hskip] at hfile
      exact Or.inr ⟨fault.error text, name, names, decodeFile_eq_error hfile, hcause, hobject, hmem,
        ofName?_eq_none_iff.mp hkey⟩

/-- A complete configuration is a configuration file with its values, or none at all, exactly if it
is an object with a member under another name. -/
theorem file_of_complete (h : decodeComplete text = .ok c) :
    (decodeFile text = .ok c.draft ∨
      ∃ error name, decodeFile text = .error error ∧
        error.cause = .unknownField name Config.keys) ∧
    ((∃ error, decodeFile text = .error error) ↔
      ∃ names, IsObject text names ∧ ∃ name ∈ names, name ∉ Config.keys) := by
  rcases decodeFile_of_complete h with
    ⟨hfile, hknown⟩ | ⟨error, name, names, herror, hcause, hobject, hmem, hname⟩
  · refine ⟨Or.inl hfile, ?_⟩
    constructor
    · rintro ⟨error, herror⟩
      cases hfile.symm.trans herror
    · rintro ⟨names, hobject, name, hmem, hname⟩
      exact absurd (hknown names hobject name hmem) hname
  · exact ⟨Or.inr ⟨error, name, herror, hcause⟩,
      iff_of_true ⟨error, herror⟩ ⟨names, hobject, name, hmem, hname⟩⟩

/-- **The two forms of a configuration agree.** A configuration file with a value for every key is a
complete configuration with these values. A complete configuration is a configuration file with its
values, or none at all: exactly if it is an object with a member under another name, which is what
the error is about. For a text that is a document this is said of the members of the document. -/
theorem decoders_agree (text : List Char) :
    (∀ c, decodeFile text = .ok c.draft → decodeComplete text = .ok c) ∧
    ∀ c, decodeComplete text = .ok c →
      (decodeFile text = .ok c.draft ∨
        ∃ error name, decodeFile text = .error error ∧
          error.cause = .unknownField name Config.keys) ∧
      ((∃ error, decodeFile text = .error error) ↔
        ∃ names, IsObject text names ∧ ∃ name ∈ names, name ∉ Config.keys) ∧
      ∀ v, Json.parse text = .ok v →
        ((∃ error, decodeFile text = .error error) ↔
          ∃ members, v = .object members ∧ ∃ name ∈ members.map Prod.fst, name ∉ Config.keys) := by
  refine ⟨fun c => complete_of_file, ?_⟩
  intro c h
  obtain ⟨hfile, hrefused⟩ := file_of_complete h
  refine ⟨hfile, hrefused, ?_⟩
  intro v hparse
  rw [hrefused]
  constructor
  · rintro ⟨names, hobject, hname⟩
    obtain ⟨members, hv, rfl⟩ := (Json.isObject_iff hparse).mp hobject
    exact ⟨members, hv, hname⟩
  · rintro ⟨members, hv, hname⟩
    exact ⟨_, (Json.isObject_iff hparse).mpr ⟨members, hv, rfl⟩, hname⟩

/-- A configuration with an escape in a key, and under another name a number that is too large to be
read. -/
def wide : List Char :=
  "\x7b\"sk\\u0069pDirs\":[],\"depth\":[1e999],\"root\":\"lib\",\"extensions\":[\"dart\"]\x7d"
    |>.toList

theorem eq_ok_of_toOption {ε α : Type} {found : Except ε α} {a : α}
    (h : found.toOption = some a) : found = .ok a := by
  cases found with
  | error e => cases h
  | ok b =>
    cases h
    rfl

/-- The standard configuration as it is printed has both forms. `wide` is a complete configuration
only. -/
theorem decoders_agree_wide :
    (decodeFile standard.toJson.compact = .ok standard.draft ∧
      decodeComplete standard.toJson.compact = .ok standard) ∧
    decodeComplete wide = .ok standard ∧
    (∃ error name, decodeFile wide = .error error ∧
      error.cause = .unknownField name Config.keys) ∧
    ∃ names, IsObject wide names ∧ ∃ name ∈ names, name ∉ Config.keys := by
  have hroot : Path.ofString standard.root.display = standard.root := by decide
  have hfile : decodeFile standard.toJson.compact = .ok standard.draft :=
    decode_of_spaced hroot (Json.spaced_compact _)
  have hcomplete : decodeComplete wide = .ok standard := eq_ok_of_toOption (by decide +kernel)
  have hrefused : decodeFile wide ≠ .ok standard.draft := by
    intro h
    have hnone : (decodeFile wide).toOption = none := by decide +kernel
    rw [h] at hnone
    cases hnone
  obtain ⟨hread, hiff, -⟩ := (decoders_agree wide).2 standard hcomplete
  obtain ⟨error, name, herror, hcause⟩ := hread.resolve_left hrefused
  exact ⟨⟨hfile, (decoders_agree standard.toJson.compact).1 standard hfile⟩, hcomplete,
    ⟨error, name, herror, hcause⟩, hiff.mp ⟨error, herror⟩⟩

end OpacityMigration.Config
