import OpacityMigration.Config.Resolve
import OpacityMigration.FileSystem.Arrange
import OpacityMigration.Proofs.FileMigration
import OpacityMigration.Proofs.JsonLexemes

/-!
# Written configurations are configuration files

A configuration is written as an object with its three keys. Both forms of a configuration read it
back, in every layout: a complete configuration needs each key and a configuration file admits them,
and no other key is there. So a run that is given the text as its configuration file, and nothing on
the command line, has that configuration, up to the spelling of the extensions.

* `reads_readField`, `readMembers_key`: the value of a key, and a member of the object.
* `decode_of_spaced`: a written configuration is read as the draft without gaps, in both forms.
* `written_config_resolves`: the same for a run.
-/

namespace OpacityMigration.Config

open Json

variable {form : Form} {first : Bool} {text : List Char} {rest : List (List Char)}

/-! ## Values -/

theorem reads_readText (expected s : String) : Reads (readText expected) [quote s] s := by
  intro rest text h
  obtain ⟨body, more, hskip, hread, hmore⟩ := readString_of_spaced h
  refine ⟨more, ?_, hmore⟩
  simp [readText, hskip, hread]

theorem reads_readPath (s : String) : Reads readPath [quote s] (.ofString s) :=
  (reads_readText "path string" s).map Path.ofString

theorem readTextsFrom_closed {items : List String} {more : List Char}
    (h : nextItem items.isEmpty text = .ok (.closed more)) :
    readTextsFrom items text = .ok (items.reverse, more) := by
  rw [readTextsFrom]
  split
  · simp_all
  · simp_all
  · simp_all

theorem readTextsFrom_entry {items : List String} {s : String} {item more : List Char}
    (hitem : nextItem items.isEmpty text = .ok (.entry item))
    (hread : readText "a string" item = .ok (s, more)) :
    readTextsFrom items text = readTextsFrom (s :: items) more := by
  rw [readTextsFrom]
  split
  · simp_all
  · simp_all
  · split <;> simp_all

/-- An item of a list of strings, the first or a later one. -/
theorem readTextsFrom_quote {items : List String} {s : String}
    (h : Spaced (separator items.isEmpty ++ quote s :: rest) text) :
    ∃ more, readTextsFrom items text = readTextsFrom (s :: items) more ∧ Spaced rest more := by
  obtain ⟨item, hitem, hspaced⟩ := nextItem_entry h rfl (by decide)
  obtain ⟨more, hread, hmore⟩ := reads_readText "a string" s rest item hspaced
  exact ⟨more, readTextsFrom_entry hitem hread, hmore⟩

/-- The items after the first, up to the closing bracket. -/
theorem readTextsFrom_moreItems {items : List String} (hitems : items ≠ []) (strings : List String)
    (h : Spaced (moreItems (strings.map Json.string) ++ [']'] :: rest) text) :
    ∃ more, readTextsFrom items text = .ok (items.reverse ++ strings, more) ∧
      Spaced rest more := by
  induction strings generalizing items text with
  | nil =>
    obtain ⟨more, hclosed, hmore⟩ := nextItem_closed h
    exact ⟨more, by rw [readTextsFrom_closed hclosed, List.append_nil], hmore⟩
  | cons s strings ih =>
    have hfirst : items.isEmpty = false := by simpa using hitems
    obtain ⟨text', hstep, htext'⟩ :=
      @readTextsFrom_quote text (moreItems (strings.map Json.string) ++ [']'] :: rest) items s
        (by rw [hfirst]; exact h)
    obtain ⟨more, hread, hmore⟩ := ih (List.cons_ne_nil s items) htext'
    refine ⟨more, ?_, hmore⟩
    rw [hstep, hread, List.reverse_cons, List.append_assoc, List.singleton_append]

theorem readTexts_eq {body : List Char} (h : skipSpace text = '[' :: body) :
    readTexts text = readTextsFrom [] body := by
  simp [readTexts, h]

theorem reads_readTexts (strings : List String) :
    Reads readTexts (Json.array (strings.map Json.string)).lexemes strings := by
  intro rest text h
  cases strings with
  | nil =>
    obtain ⟨body, hskip, hbody⟩ := skipSpace_of_spaced h rfl
    obtain ⟨more, hclosed, hmore⟩ := nextItem_closed hbody
    exact ⟨more, by rw [readTexts_eq hskip]; exact readTextsFrom_closed hclosed, hmore⟩
  | cons s strings =>
    simp only [List.map_cons, lexemes, List.cons_append, List.nil_append, List.append_assoc] at h
    obtain ⟨body, hskip, hbody⟩ := skipSpace_of_spaced h rfl
    obtain ⟨text', hstep, htext'⟩ := @readTextsFrom_quote body _ [] s hbody
    obtain ⟨more, hread, hmore⟩ :=
      readTextsFrom_moreItems (List.cons_ne_nil s []) strings htext'
    exact ⟨more, by rw [readTexts_eq hskip]; exact hstep.trans hread, hmore⟩

/-- A value that does not start as `null` does is read as itself in both forms. -/
theorem reads_readNullable {α : Type} {read : List Char → Except Fault (α × List Char)}
    {c : Char} {lexeme : List Char} {lexemes : List (List Char)} {a : α}
    (h : Reads read ((c :: lexeme) :: lexemes) a) (hspace : isSpace c = false) (hnull : c ≠ 'n') :
    Reads (readNullable form read) ((c :: lexeme) :: lexemes) (some a) := by
  intro rest text htext
  obtain ⟨more, hread, hmore⟩ := h rest text htext
  obtain ⟨_, hskip, -⟩ := skipSpace_of_spaced htext hspace
  refine ⟨more, ?_, hmore⟩
  unfold readNullable
  split
  · next hword =>
    rw [hskip] at hword
    exact absurd (List.cons.inj hword).1 hnull
  · rw [hread]
    rfl

/-! ## Members -/

/-- The value that a configuration has under a key. -/
def valueOf (c : Config) : Key → Json
  | .root => .string c.root.display
  | .extensions => .array (c.extensions.map Json.string)
  | .skipDirs => .array (c.skipDirs.map Json.string)

theorem toJson_eq (c : Config) :
    c.toJson = .object (Key.all.map fun key => (key.name, valueOf c key)) := rfl

/-- The fields with the value that a configuration has under a key. -/
def Fields.put (fields : Fields) (c : Config) : Key → Fields
  | .root => { fields with root := some (some c.root) }
  | .extensions => { fields with extensions := some (some c.extensions) }
  | .skipDirs => { fields with skipDirs := some (some c.skipDirs) }

theorem reads_nullableTexts (strings : List String) :
    Reads (readNullable form readTexts) (Json.array (strings.map Json.string)).lexemes
      (some strings) := by
  have hread := reads_readTexts strings
  cases strings with
  | nil => exact reads_readNullable hread rfl (by decide)
  | cons s strings => exact reads_readNullable hread rfl (by decide)

theorem reads_readField {c : Config} (hroot : Path.ofString c.root.display = c.root)
    (fields : Fields) (key : Key) :
    Reads (readField form fields key) (valueOf c key).lexemes (fields.put c key) := by
  cases key with
  | root =>
    have hpath := reads_readPath c.root.display
    rw [hroot] at hpath
    have hread : Reads (readNullable form readPath) [quote c.root.display] (some c.root) :=
      reads_readNullable hpath rfl (by decide)
    exact hread.map fun v => { fields with root := some v }
  | extensions =>
    exact (reads_nullableTexts c.extensions).map fun v => { fields with extensions := some v }
  | skipDirs =>
    exact (reads_nullableTexts c.skipDirs).map fun v => { fields with skipDirs := some v }

theorem readMembers_entry {fields fields' : Fields} {key : Key} {name : String}
    {member after value more : List Char} (hmember : nextMember first text = .ok (.entry member))
    (hname : readString member = .ok (name, after)) (hkey : Key.ofName? name = some key)
    (hnew : fields.has key = false) (hcolon : readColon after = .ok value)
    (hfield : readField form fields key value = .ok (fields', more)) :
    readMembers form first fields text = readMembers form false fields' more := by
  rw [readMembers]
  split
  · simp_all
  · simp_all
  · split
    · simp_all
    · split
      · split
        · simp_all
        · split
          · simp_all
          · split <;> simp_all
      · simp_all

theorem readMembers_closed {fields : Fields} {more : List Char}
    (hclosed : nextMember first text = .ok (.closed more)) (hall : missing? form fields = none) :
    readMembers form first fields text = .ok (fields, more) := by
  rw [readMembers]
  split
  · simp_all
  · simp_all
  · simp_all

theorem ofName?_name (key : Key) : Key.ofName? key.name = some key := by
  cases key <;> decide

/-- A member of a written configuration is read into its field. -/
theorem readMembers_key {c : Config} (hroot : Path.ofString c.root.display = c.root)
    {fields : Fields} {key : Key} (hnew : fields.has key = false)
    (h : Spaced (separator first ++
      quote key.name :: [':'] :: ((valueOf c key).lexemes ++ rest)) text) :
    ∃ more, readMembers form first fields text = readMembers form false (fields.put c key) more ∧
      Spaced rest more := by
  obtain ⟨member, after, hmember, hname, hafter⟩ := nextMember_entry h
  obtain ⟨value, hcolon, hvalue⟩ := readColon_of_spaced hafter
  obtain ⟨more, hfield, hmore⟩ := reads_readField hroot fields key rest value hvalue
  exact ⟨more, readMembers_entry hmember hname (ofName?_name key) hnew hcolon hfield, hmore⟩

/-! ## Configurations -/

/-- The fields with all values of a configuration. -/
def Fields.full (c : Config) : Fields :=
  ⟨some (some c.root), some (some c.extensions), some (some c.skipDirs)⟩

theorem missing?_full (form : Form) (c : Config) : missing? form (Fields.full c) = none := by
  rw [missing?]
  split <;> rfl

/-- Both forms read a written configuration. -/
theorem reads_readFields {c : Config} (hroot : Path.ofString c.root.display = c.root) :
    Reads (readFields form) c.toJson.lexemes (Fields.full c) := by
  intro rest text h
  simp only [toJson_eq, Key.all, List.map_cons, List.map_nil, lexemes, moreMembers,
    List.cons_append, List.nil_append, List.append_assoc] at h
  obtain ⟨body, hskip, hbody⟩ := skipSpace_of_spaced h rfl
  have hfields : readFields form text = readMembers form true .empty body := by
    simp [readFields, hskip]
  obtain ⟨text₁, hfirst, h₁⟩ :=
    @readMembers_key form true _ _ c hroot .empty .root rfl hbody
  obtain ⟨text₂, hsecond, h₂⟩ :=
    @readMembers_key form false _ _ c hroot (Fields.empty.put c .root) .extensions rfl h₁
  obtain ⟨text₃, hthird, h₃⟩ :=
    @readMembers_key form false _ _ c hroot ((Fields.empty.put c .root).put c .extensions) .skipDirs
      rfl h₂
  obtain ⟨more, hclosed, hmore⟩ := nextMember_closed h₃
  refine ⟨more, ?_, hmore⟩
  rw [hfields, hfirst, hsecond, hthird]
  exact readMembers_closed hclosed (missing?_full form c)

theorem decode_of_spaced {c : Config} (hroot : Path.ofString c.root.display = c.root)
    (h : Spaced c.toJson.lexemes text) : decode form text = .ok c.draft := by
  rw [decode, finish_of_reads (reads_readFields hroot) h]
  rfl

/-! ## Runs -/

/-- A path that is text is read back from what is shown of it. -/
theorem ofString_display {p : Path} {root : List Char} (h : Utf8.decode? p.bytes = some root) :
    Path.ofString p.display = p := by
  have hbytes := Utf8.decode?_eq_some.mp h
  rw [Path.display, Utf8.lossyString, hbytes, Utf8.lossy_encode, Path.ofString,
    String.toList_ofList, ← hbytes]

variable {fs : FileSystem} {path cwd : Path}

/-- The command line that gives neither a root nor extensions. -/
def Overrides.none : Overrides :=
  ⟨Option.none, []⟩

theorem readFile_of_spaced {c : Config} (hroot : Path.ofString c.root.display = c.root)
    (h : Spaced c.toJson.lexemes text) (hread : fs.read path = .ok (Utf8.encode text)) :
    readFile fs path = .ok c.draft := by
  have htext : fs.readText path = .ok text := by
    rw [FileSystem.readText, hread]
    simp only [Utf8.decode?_encode]
  rw [readFile, htext]
  simp only [decodeFile, decode_of_spaced hroot h]
  rfl

theorem merged_of_spaced {c : Config} (hroot : Path.ofString c.root.display = c.root)
    (h : Spaced c.toJson.lexemes text) (hread : fs.read path = .ok (Utf8.encode text)) :
    merged fs (some path) cwd .none = .ok c := by
  rw [merged, consulted?]
  simp only [readFile_of_spaced hroot h hread]
  rfl

/-- **A written configuration is a configuration file.** In whatever layout it is written, the two
printed ones among them, it is read back as it was. A run that is given the text as its
configuration file, and nothing on the command line, has the configuration with its extensions
normalised, or fails as their normalisation does. It has the very same configuration if they are
normalised already. -/
theorem written_config_resolves {c : Config} {root : List Char}
    (hroot : Utf8.decode? c.root.bytes = some root) :
    Spaced c.toJson.lexemes c.toJson.compact ∧ Spaced c.toJson.lexemes c.toJson.pretty ∧
    ∀ text, Spaced c.toJson.lexemes text → decodeComplete text = .ok c ∧
      ∀ fs path cwd, fs.read path = .ok (Utf8.encode text) →
        resolve fs (some path) cwd .none =
          (match Extension.normalize c.extensions with
            | .ok extensions => .ok { c with extensions }
            | .error fault => .error (.badExtensions fault)) ∧
        (Extension.normalize c.extensions = .ok c.extensions →
          resolve fs (some path) cwd .none = .ok c) := by
  have hshown := ofString_display hroot
  refine ⟨spaced_compact _, spaced_pretty _, ?_⟩
  intro text htext
  constructor
  · rw [decodeComplete, decode_of_spaced hshown htext]
    rfl
  · intro fs path cwd hread
    have hresolve : resolve fs (some path) cwd .none =
        (match Extension.normalize c.extensions with
          | .ok extensions => .ok { c with extensions }
          | .error fault => .error (.badExtensions fault)) := by
      rw [resolve, merged_of_spaced hshown htext hread]
      simp only
      cases Extension.normalize c.extensions <;> rfl
    refine ⟨hresolve, ?_⟩
    intro hnormal
    rw [hresolve, hnormal]

/-- A configuration with characters that are escaped, one beyond 16 bits, and an extension with its
dot. -/
def unusual : Config where
  root := .ofString "li\"b\\\n😀"
  extensions := ["dart", ".d\x01"]
  skipDirs := ["gen"]

/-- A file `c.json` with the given bytes. -/
def oneFile (bytes : List UInt8) : FileSystem :=
  (FileSystem.empty []).putFile (.ofString "c.json") bytes

theorem read_oneFile (bytes : List UInt8) :
    (oneFile bytes).read (.ofString "c.json") = .ok bytes := by
  cbv

theorem written_config_resolves_unusual :
    Utf8.decode? unusual.root.bytes = some "li\"b\\\n😀".toList ∧
    Spaced unusual.toJson.lexemes unusual.toJson.pretty ∧
    decodeComplete unusual.toJson.pretty = .ok unusual ∧
    (oneFile (Utf8.encode unusual.toJson.pretty)).read (.ofString "c.json") =
      .ok (Utf8.encode unusual.toJson.pretty) ∧
    resolve (oneFile (Utf8.encode unusual.toJson.pretty)) (some (.ofString "c.json"))
      (.ofString "") .none = .ok { unusual with extensions := ["dart", "d\x01"] } := by
  have hroot : Utf8.decode? unusual.root.bytes = some "li\"b\\\n😀".toList :=
    Utf8.decode?_encode _
  have hnormal : Extension.normalize unusual.extensions = .ok ["dart", "d\x01"] := by decide
  have hread := read_oneFile (Utf8.encode unusual.toJson.pretty)
  obtain ⟨-, hpretty, hforms⟩ := written_config_resolves hroot
  obtain ⟨hcomplete, hfile⟩ := hforms _ hpretty
  obtain ⟨hresolve, -⟩ := hfile _ _ (.ofString "") hread
  rw [hnormal] at hresolve
  exact ⟨hroot, hpretty, hcomplete, hread, hresolve⟩

end OpacityMigration.Config
