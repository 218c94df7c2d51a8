import OpacityMigration.Proofs.ConfigDocuments
import OpacityMigration.Proofs.ConfigForms
import OpacityMigration.Proofs.ExtensionLists

/-!
# Where the values of a configuration come from

There are three sources: what is given on the command line, the configuration file, and the standard
configuration. Each key is taken from the first source that has it. Nothing of what is taken is
looked at before that, so a value that is not taken never matters, whatever it is.

* `Consults`: what is consulted beside the command line.
* `resolve_of_consults`: a resolved configuration, key by key.
* `Unmasked`: when two configuration files differ only in what is not taken.
* `resolve_precedence`: precedence, masking, and how the resolution fails.
-/

namespace OpacityMigration.Config

/-- What the configuration file says, or nothing if none is consulted. -/
inductive Consults (fs : FileSystem) (named : Option Path) (cwd : Path) : Draft → Prop
  | nothing (h : consulted? fs named cwd = none) : Consults fs named cwd .empty
  | file {path : Path} {draft : Draft} (h : consulted? fs named cwd = some path)
      (hread : readFile fs path = .ok draft) : Consults fs named cwd draft

/-- The configuration with its extensions normalised. -/
def normalised (c : Config) : Except Failure Config :=
  match Extension.normalize c.extensions with
  | .error fault => .error (.badExtensions fault)
  | .ok extensions => .ok { c with extensions }

/-- The two drafts differ at most in keys that the overrides set. -/
structure Unmasked (overrides : Overrides) (file file' : Draft) : Prop where
  root : overrides.root = none → file.root = file'.root
  extensions : overrides.extensions = [] → file.extensions = file'.extensions
  skipDirs : file.skipDirs = file'.skipDirs

variable {fs fs' : FileSystem} {named named' : Option Path} {cwd cwd' path : Path}
  {overrides : Overrides} {file file' : Draft} {base c : Config} {failure : Failure}
  {fault : FileSystem.Fault} {text : List Char}

/-! ## Merging -/

/-- Each key is taken from the first source that has it. -/
theorem draft_fill (overrides : Overrides) (file : Draft) (base : Config) :
    overrides.draft.fill (file.fill base) =
      { root := (overrides.root.or file.root).getD base.root
        extensions :=
          if overrides.extensions = [] then file.extensions.getD base.extensions
          else overrides.extensions
        skipDirs := file.skipDirs.getD base.skipDirs } := by
  obtain ⟨root, extensions⟩ := overrides
  cases root <;> cases extensions <;> rfl

theorem Unmasked.fill_eq (h : Unmasked overrides file file') (base : Config) :
    overrides.draft.fill (file.fill base) = overrides.draft.fill (file'.fill base) := by
  obtain ⟨root, extensions⟩ := overrides
  obtain ⟨hroot, hextensions, hskipDirs⟩ := h
  rw [draft_fill, draft_fill, hskipDirs]
  congr 1
  · cases root with
    | none => rw [hroot rfl]
    | some root => rfl
  · cases extensions with
    | nil => rw [hextensions rfl]
    | cons e es => rfl

theorem merged_of_consults (h : Consults fs named cwd file) :
    merged fs named cwd overrides = .ok (overrides.draft.fill (file.fill standard)) := by
  cases h with
  | nothing h =>
    rw [merged, h]
    rfl
  | file h hread =>
    rw [merged, h]
    simp only [hread]
    rfl

theorem consults_of_merged (h : merged fs named cwd overrides = .ok c) :
    ∃ file, Consults fs named cwd file ∧ c = overrides.draft.fill (file.fill standard) := by
  unfold merged at h
  split at h
  · rename_i hnothing
    cases h
    exact ⟨.empty, .nothing hnothing, rfl⟩
  · rename_i path hpath
    cases hread : readFile fs path with
    | error failure =>
      rw [hread] at h
      cases h
    | ok file =>
      rw [hread] at h
      cases h
      exact ⟨file, .file hpath hread, rfl⟩

/-! ## Resolving -/

theorem normalised_eq_ok :
    normalised base = .ok c ↔
      ∃ extensions, Extension.normalize base.extensions = .ok extensions ∧
        c = { base with extensions } := by
  unfold normalised
  cases Extension.normalize base.extensions <;> simp [eq_comm]

theorem normalised_eq_error :
    normalised c = .error failure ↔
      ∃ fault, Extension.normalize c.extensions = .error fault ∧
        failure = .badExtensions fault := by
  unfold normalised
  cases Extension.normalize c.extensions <;> simp [eq_comm]

theorem resolve_of_merged (h : merged fs named cwd overrides = .ok c) :
    resolve fs named cwd overrides = normalised c := by
  rw [resolve, h]
  rfl

theorem resolve_of_consults (h : Consults fs named cwd file) :
    resolve fs named cwd overrides =
      normalised (overrides.draft.fill (file.fill standard)) :=
  resolve_of_merged (merged_of_consults h)

theorem resolve_of_readFile (h : consulted? fs named cwd = some path)
    (hread : readFile fs path = .error failure) :
    resolve fs named cwd overrides = .error failure := by
  rw [resolve, merged, h]
  simp only [hread]
  rfl

theorem readFile_eq_ok :
    readFile fs path = .ok file ↔
      ∃ text, fs.readText path = .ok text ∧ decodeFile text = .ok file := by
  unfold readFile
  cases fs.readText path with
  | error fault => simp
  | ok text => cases hdecode : decodeFile text <;> simp [Except.mapError, hdecode]

theorem readFile_of_readText (h : fs.readText path = .error fault) :
    readFile fs path = .error (.refused fault (.readFile path)) := by
  rw [readFile, h]

theorem readFile_of_decodeFile {error : Json.Error} (h : fs.readText path = .ok text)
    (hdecode : decodeFile text = .error error) :
    readFile fs path = .error (.notConfig path error) := by
  rw [readFile, h]
  simp only [hdecode]
  rfl

theorem resolve_eq_ok :
    resolve fs named cwd overrides = .ok c ↔
      ∃ given, merged fs named cwd overrides = .ok { c with extensions := given } ∧
        Extension.normalize given = .ok c.extensions := by
  cases hmerged : merged fs named cwd overrides with
  | error failure => simp [resolve, hmerged]
  | ok base =>
    rw [resolve_of_merged hmerged, normalised_eq_ok]
    constructor
    · rintro ⟨extensions, hnormal, rfl⟩
      exact ⟨base.extensions, rfl, hnormal⟩
    · rintro ⟨given, hgiven, hnormal⟩
      cases hgiven
      exact ⟨c.extensions, hnormal, rfl⟩

/-! ## Without a configuration file -/

theorem consults_empty (h : fs.isFile (cwd.child fileName) = false) :
    Consults fs none cwd .empty :=
  .nothing (by simp [consulted?, h])

/-- The standard extensions are in order, so only those that are given can be refused. -/
theorem normalised_standard_fails_iff :
    (∃ failure, normalised (overrides.draft.fill standard) = .error failure) ↔
      ∃ w ∈ overrides.extensions, Extension.strip w = "" := by
  have hfault : (∃ failure, normalised (overrides.draft.fill standard) = .error failure) ↔
      ∃ fault, Extension.normalize (overrides.draft.fill standard).extensions = .error fault := by
    simp [normalised_eq_error]
  have hextensions : (overrides.draft.fill standard).extensions =
      if overrides.extensions = [] then ["dart"] else overrides.extensions :=
    congrArg Config.extensions (draft_fill overrides .empty standard)
  rw [hfault, Extension.exists_error_iff, hextensions]
  by_cases hnone : overrides.extensions = []
  · rw [if_pos hnone, hnone]
    decide
  · rw [if_neg hnone, or_iff_right hnone]

/-! ## Precedence -/

/-- **Where the values come from.** Each key of the configuration is taken from the command line,
else from the configuration file, if that is a document with this key and another value than `null`,
else from the standard configuration; only then are the extensions normalised. So what a file says
under a key that the command line sets does not matter, not even if no configuration could have it.
A file that cannot be read or that is no configuration makes the resolution fail, whatever is given
on the command line. Where no file is named, that of the directory is used as if it were named, and
if there is none, only what is given on the command line can be refused. -/
theorem resolve_precedence (fs : FileSystem) (named : Option Path) (cwd : Path) :
    ((∀ file overrides, Consults fs named cwd file →
        resolve fs named cwd overrides = normalised
          { root := (overrides.root.or file.root).getD standard.root
            extensions :=
              if overrides.extensions = [] then file.extensions.getD standard.extensions
              else overrides.extensions
            skipDirs := file.skipDirs.getD standard.skipDirs }) ∧
      ∀ path file, readFile fs path = .ok file →
        ∃ text v, fs.readText path = .ok text ∧ Json.parse text = .ok v ∧
          file.Takes (Key.valueIn? v)) ∧
    (∀ fs' named' cwd' overrides file file', Consults fs named cwd file →
      Consults fs' named' cwd' file' → Unmasked overrides file file' →
        resolve fs named cwd overrides = resolve fs' named' cwd' overrides) ∧
    (∀ path, consulted? fs named cwd = some path →
      (∀ fault, fs.readText path = .error fault →
        ∃ failure, (∀ overrides, resolve fs named cwd overrides = .error failure) ∧
          failure.report.code = .ioError ∧
          failure.report.context? = some ("read " ++ path.display)) ∧
      ∀ text, fs.readText path = .ok text → (∀ file, decodeFile text ≠ .ok file) →
        ∃ failure, (∀ overrides, resolve fs named cwd overrides = .error failure) ∧
          failure.report.code = .invalidJson) ∧
    (fs.isFile (cwd.child fileName) = true → ∀ cwd' overrides,
      resolve fs none cwd overrides = resolve fs (some (cwd.child fileName)) cwd' overrides) ∧
    (fs.isFile (cwd.child fileName) = false → ∀ overrides,
      resolve fs none cwd overrides = normalised (overrides.draft.fill standard) ∧
      ((∃ failure, resolve fs none cwd overrides = .error failure) ↔
        ∃ w ∈ overrides.extensions, Extension.strip w = "")) := by
  refine ⟨⟨?_, ?_⟩, ?_, fun path hpath => ⟨?_, ?_⟩, ?_, ?_⟩
  · intro file overrides hfile
    rw [resolve_of_consults hfile, draft_fill]
  · intro path file hread
    obtain ⟨text, htext, hdecode⟩ := readFile_eq_ok.mp hread
    obtain ⟨v, hparse, htakes⟩ := decodeFile_takes hdecode
    exact ⟨text, v, htext, hparse, htakes⟩
  · intro fs' named' cwd' overrides file file' hfile hfile' hunmasked
    rw [resolve_of_consults hfile, resolve_of_consults hfile', hunmasked.fill_eq]
  · intro fault hfault
    exact ⟨_, fun overrides => resolve_of_readFile hpath (readFile_of_readText hfault), rfl, rfl⟩
  · intro text htext hnone
    cases hdecode : decodeFile text with
    | ok file => exact absurd hdecode (hnone file)
    | error error =>
      have hread := readFile_of_decodeFile htext hdecode
      exact ⟨_, fun overrides => resolve_of_readFile hpath hread, rfl⟩
  · intro hfile cwd' overrides
    have hconsulted : consulted? fs none cwd = consulted? fs (some (cwd.child fileName)) cwd' := by
      simp [consulted?, hfile]
    rw [resolve, resolve, merged, merged, hconsulted]
  · intro hfile overrides
    have hresolve : resolve fs none cwd overrides = normalised (overrides.draft.fill standard) :=
      resolve_of_consults (consults_empty hfile)
    rw [hresolve]
    exact ⟨rfl, normalised_standard_fails_iff⟩

theorem consults_oneFile (hroot : Path.ofString c.root.display = c.root) :
    Consults (oneFile (Utf8.encode c.toJson.compact)) (some (.ofString "c.json")) cwd c.draft :=
  .file rfl (readFile_of_spaced hroot (Json.spaced_compact _) (read_oneFile _))

/-- Two configuration files, neither of which would do on its own. -/
theorem resolve_masks_extensions :
    let c : Config := ⟨.ofString "a", [], ["gen"]⟩
    let c' : Config := ⟨.ofString "b", ["dart", " ."], ["gen"]⟩
    let fs := oneFile (Utf8.encode c.toJson.compact)
    let fs' := oneFile (Utf8.encode c'.toJson.compact)
    let named : Path := .ofString "c.json"
    let overrides : Overrides := ⟨some (.ofString "src"), [".dart"]⟩
    (Consults fs (some named) named c.draft ∧ Consults fs' (some named) named c'.draft ∧
      Unmasked overrides c.draft c'.draft) ∧
    resolve fs (some named) named overrides = resolve fs' (some named) named overrides ∧
    resolve fs (some named) named overrides = .ok ⟨.ofString "src", ["dart"], ["gen"]⟩ := by
  intro c c' fs fs' named overrides
  have hfile : Consults fs (some named) named c.draft :=
    consults_oneFile (by decide)
  have hfile' : Consults fs' (some named) named c'.draft :=
    consults_oneFile (by decide)
  have hunmasked : Unmasked overrides c.draft c'.draft := ⟨nofun, nofun, rfl⟩
  obtain ⟨⟨hprecedence, -⟩, hmasking, -⟩ := resolve_precedence fs (some named) named
  refine ⟨⟨hfile, hfile', hunmasked⟩, ?_, ?_⟩
  · exact hmasking fs' (some named) named overrides _ _ hfile hfile' hunmasked
  · rw [hprecedence _ overrides hfile]
    rfl

end OpacityMigration.Config
