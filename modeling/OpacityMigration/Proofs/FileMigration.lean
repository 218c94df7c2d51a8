import OpacityMigration.Migration.Edit
import OpacityMigration.Proofs.Occurrences

/-!
# Migrating one file

What one file's migration does, read off its text: whether there is an edit, which one, and what
the file holds afterwards. A look-up depends on the tree and the working directory only
(`SameTree`), and migrating a file leaves both as they are.

* `migrateFile_eq_ok`, `migrateFile_eq_error`: all the ways in which a migration of a file ends.
* `migrateFile_pass`: one that succeeds is a rewriting pass over the file that the path leads to.
* `leaves_of_migrateFile_eq_error`: one that fails changes nothing, or leaves that file torn.
* `find_rewrite_agree`: what is found in a text, what a pass over it replaces and what migrating a
  file with it reports are the same calls.
-/

namespace OpacityMigration

namespace FileSystem

/-! ## Look-ups -/

/-- Nothing differs but what files hold and which were opened. -/
structure SameTree (fs fs' : FileSystem) : Prop where
  root : fs'.root = fs.root
  workingDirectory : fs'.workingDirectory = fs.workingDirectory
  sink : fs'.sink = fs.sink

namespace SameTree

variable {fs fs' fs'' : FileSystem}

theorem refl (fs : FileSystem) : SameTree fs fs := ⟨rfl, rfl, rfl⟩

theorem trans (h : SameTree fs fs') (h' : SameTree fs' fs'') : SameTree fs fs'' :=
  ⟨h'.root.trans h.root, h'.workingDirectory.trans h.workingDirectory, h'.sink.trans h.sink⟩

theorem lookup (h : SameTree fs fs') (p : Path) : fs'.lookup p = fs.lookup p := by
  unfold FileSystem.lookup FileSystem.resolve
  rw [h.root, h.workingDirectory]

theorem fileId? (h : SameTree fs fs') (p : Path) : fs'.fileId? p = fs.fileId? p := by
  unfold FileSystem.fileId?
  rw [h.lookup]

end SameTree

theorem sameTree_replace (fs : FileSystem) (id : FileId) (bytes : List UInt8) :
    SameTree fs (fs.replace id bytes) := ⟨rfl, rfl, rfl⟩

/-! ## Reading and writing texts -/

theorem read_eq_ok {fs : FileSystem} {p : Path} {bytes : List UInt8} :
    fs.read p = .ok bytes ↔ ∃ id access, fs.lookup p = .ok (.file id access) ∧
      access.read = true ∧ fs.content id = bytes := by
  unfold read
  rcases fs.lookup p with fault | ⟨id, access⟩ | ⟨access, names, child⟩ | target
  · simp
  · cases hr : access.read with
    | false => simp [hr]
    | true => simp [hr]
  · cases hr : access.read with
    | false => simp [hr]
    | true => simp [hr]
  · simp

theorem readText_eq_ok {fs : FileSystem} {p : Path} {text : List Char} :
    fs.readText p = .ok text ↔ ∃ id access, fs.lookup p = .ok (.file id access) ∧
      access.read = true ∧ fs.content id = Utf8.encode text := by
  rw [← read_eq_ok]
  unfold readText
  cases fs.read p with
  | error fault => simp
  | ok bytes =>
    rw [Except.ok.injEq, ← Utf8.decode?_eq_some]
    simp only
    cases Utf8.decode? bytes with
    | none => simp
    | some found => simp

theorem Sink.taken_of_fault? {sink : Sink} {bytes : List UInt8} (h : sink.fault? bytes = none) :
    sink.taken bytes = bytes := by
  cases sink with
  | works => rfl
  | breaks n fault =>
    rw [Sink.fault?] at h
    split at h
    · rename_i hle
      exact List.take_of_length_le hle
    · cases h

theorem Sink.taken_isPrefix (sink : Sink) (bytes : List UInt8) : sink.taken bytes <+: bytes := by
  cases sink with
  | works => exact List.prefix_rfl
  | breaks n fault => exact List.take_prefix n bytes

theorem Sink.fault?_eq_some {sink : Sink} {bytes : List UInt8} {fault : Fault} :
    sink.fault? bytes = some fault ↔ ∃ n < bytes.length, sink = .breaks n fault := by
  cases sink with
  | works => simp [Sink.fault?]
  | breaks n other =>
    rw [Sink.fault?]
    split
    · rename_i hle
      refine iff_of_false (by simp) ?_
      rintro ⟨_, hlt, ⟨⟩⟩
      exact absurd hle (Nat.not_le.mpr hlt)
    · rename_i hlt
      simp [Nat.not_le.mp hlt]

theorem writeText_of_lookup {fs : FileSystem} {p : Path} {text : List Char} {id : FileId}
    {access : Access} (h : fs.lookup p = .ok (.file id access)) :
    fs.writeText p text =
      if access.write then fs.overwrite id (Utf8.encode text)
      else (some .permissionDenied, fs) := by
  rw [writeText, h]

theorem writeText_eq_done {fs fs' : FileSystem} {p : Path} {text : List Char} :
    fs.writeText p text = (none, fs') ↔ ∃ id access, fs.lookup p = .ok (.file id access) ∧
      access.write = true ∧ (fs.sink (id :: fs.opened)).fault? (Utf8.encode text) = none ∧
      fs' = fs.replace id (Utf8.encode text) := by
  unfold writeText
  rcases fs.lookup p with fault | ⟨id, access⟩ | ⟨access, names, child⟩ | target
  · simp
  · simp only [Except.ok.injEq, Node.file.injEq]
    constructor
    · intro h
      split at h
      · rename_i hw
        obtain ⟨hfault, rfl⟩ := Prod.mk.inj h
        exact ⟨id, access, ⟨rfl, rfl⟩, hw, hfault, by rw [Sink.taken_of_fault? hfault]⟩
      · cases h
    · rintro ⟨_, _, ⟨rfl, rfl⟩, hw, hfault, rfl⟩
      rw [if_pos hw, overwrite, hfault, Sink.taken_of_fault? hfault]
  · simp
  · simp

/-- Writing `bytes` to a file, open already, has failed: the file holds a beginning of them. -/
def Torn (fs : FileSystem) (id : FileId) (bytes : List UInt8) (fault : Fault)
    (fs' : FileSystem) : Prop :=
  ∃ n < bytes.length, fs.sink (id :: fs.opened) = .breaks n fault ∧
    fs' = fs.replace id (bytes.take n)

theorem Torn.sameTree {fs fs' : FileSystem} {id : FileId} {bytes : List UInt8} {fault : Fault}
    (h : Torn fs id bytes fault fs') : fs.SameTree fs' := by
  obtain ⟨n, -, -, rfl⟩ := h
  exact fs.sameTree_replace id _

end FileSystem

namespace Migration

open Call

variable {fs fs' : FileSystem} {path : Path} {write : Bool}

/-! ## The ends of a file's migration -/

/-- The edit that a file with the given text calls for. -/
def editOf (path : Path) (text : List Char) (write : Bool) : Option Edit :=
  if find text = [] then none else some ⟨path, (find text).length, write⟩

theorem editOf_eq_none {text : List Char} : editOf path text write = none ↔ find text = [] := by
  simp [editOf]

theorem editOf_eq_some {text : List Char} {e : Edit} :
    editOf path text write = some e ↔ find text ≠ [] ∧ e = ⟨path, (find text).length, write⟩ := by
  by_cases h : find text = []
  · simp [editOf, h]
  · simp [editOf, h, eq_comm]

theorem takeTurn_of_readText {text : List Char} (h : fs.readText path = .ok text) :
    takeTurn fs path write =
      if find text ≠ [] ∧ write = true then
        match fs.writeText path (rewrite text).content with
        | (some fault, after) => ⟨.error (.refused fault (.writeFile path)), after⟩
        | (none, after) => ⟨.ok (editOf path text write), after⟩
      else ⟨.ok (editOf path text write), fs⟩ := by
  unfold takeTurn
  rw [h]
  simp only [rewrite_content_eq_self, ← length_find]
  by_cases hf : find text = []
  · rw [if_pos hf, if_neg fun hw => hw.1 hf, editOf, if_pos hf]
  · rw [if_neg hf, editOf, if_neg hf]
    cases write with
    | false => rw [if_neg Bool.false_ne_true, if_neg fun hw => Bool.false_ne_true hw.2]
    | true =>
      refine (if_pos rfl).trans (Eq.trans ?_ (if_pos ⟨hf, rfl⟩).symm)
      rcases fs.writeText path (rewrite text).content with ⟨_ | fault, after⟩
      · rfl
      · rfl

theorem takeTurn_of_unread {fault : FileSystem.Fault} (h : fs.readText path = .error fault) :
    takeTurn fs path write = ⟨.error (.refused fault (.readFile path)), fs⟩ := by
  rw [takeTurn, h]

/-- The turn of a file with a call that may be read and written. -/
theorem takeTurn_of_lookup {id : FileId} {access : Access} {text : List Char}
    (hlookup : fs.lookup path = .ok (.file id access)) (hread : access.read = true)
    (hwrite : access.write = true) (hcontent : fs.content id = Utf8.encode text)
    (hfind : find text ≠ []) :
    takeTurn fs path true =
      match fs.overwrite id (Utf8.encode (rewrite text).content) with
      | (some fault, after) => ⟨.error (.refused fault (.writeFile path)), after⟩
      | (none, after) => ⟨.ok (editOf path text true), after⟩ := by
  have htext := FileSystem.readText_eq_ok.mpr ⟨id, access, hlookup, hread, hcontent⟩
  rw [takeTurn_of_readText htext, if_pos ⟨hfind, rfl⟩, FileSystem.writeText_of_lookup hlookup,
    if_pos hwrite]

/-- Whether or not that succeeds, the file then holds what it takes. -/
theorem after_takeTurn_of_lookup {id : FileId} {access : Access} {text : List Char}
    (hlookup : fs.lookup path = .ok (.file id access)) (hread : access.read = true)
    (hwrite : access.write = true) (hcontent : fs.content id = Utf8.encode text)
    (hfind : find text ≠ []) :
    (takeTurn fs path true).after =
      fs.replace id ((fs.sink (id :: fs.opened)).taken (Utf8.encode (rewrite text).content)) := by
  rw [takeTurn_of_lookup hlookup hread hwrite hcontent hfind, FileSystem.overwrite]
  cases (fs.sink (id :: fs.opened)).fault? (Utf8.encode (rewrite text).content) with
  | none => rfl
  | some fault => rfl

theorem migrateFile_eq_ok_iff {edit : Option Edit} :
    migrateFile fs path write = .ok (edit, fs') ↔ takeTurn fs path write = ⟨.ok edit, fs'⟩ := by
  rw [migrateFile]
  rcases takeTurn fs path write with ⟨_ | edit', after⟩
  · simp [Except.map]
  · simp [Except.map]

theorem migrateFile_eq_error_iff {failure : Failure} :
    migrateFile fs path write = .error failure ↔
      (takeTurn fs path write).result = .error failure := by
  rw [migrateFile]
  cases (takeTurn fs path write).result with
  | error other => simp [Except.map]
  | ok edit => simp [Except.map]

theorem migrateFile_eq_ok {edit : Option Edit} :
    migrateFile fs path write = .ok (edit, fs') ↔
      ∃ text, fs.readText path = .ok text ∧ edit = editOf path text write ∧
        if find text ≠ [] ∧ write = true then
          fs.writeText path (rewrite text).content = (none, fs')
        else fs' = fs := by
  rw [migrateFile_eq_ok_iff]
  cases hr : fs.readText path with
  | error fault => simp [takeTurn_of_unread hr]
  | ok text =>
    rw [takeTurn_of_readText hr]
    simp only [Except.ok.injEq, exists_eq_left']
    split
    · rcases fs.writeText path (rewrite text).content with ⟨_ | fault, after⟩
      · simp [eq_comm]
      · simp
    · simp [eq_comm]

/-- A migration succeeds if the file holds a text that may be read and, if need be, written, and if
all that is written is taken. -/
theorem exists_migrateFile_eq_ok :
    (∃ edit fs', migrateFile fs path write = .ok (edit, fs')) ↔
      ∃ id access text, fs.lookup path = .ok (.file id access) ∧ access.read = true ∧
        fs.content id = Utf8.encode text ∧
        (find text ≠ [] → write = true → access.write = true ∧
          (fs.sink (id :: fs.opened)).fault? (Utf8.encode (rewrite text).content) = none) := by
  constructor
  · rintro ⟨edit, fs', h⟩
    obtain ⟨text, hread, -, hafter⟩ := migrateFile_eq_ok.mp h
    obtain ⟨id, access, hlookup, haccess, hcontent⟩ := FileSystem.readText_eq_ok.mp hread
    refine ⟨id, access, text, hlookup, haccess, hcontent, ?_⟩
    intro hfind hwrite
    rw [if_pos ⟨hfind, hwrite⟩] at hafter
    obtain ⟨id', access', hlookup', hmay, htaken, -⟩ := FileSystem.writeText_eq_done.mp hafter
    rw [hlookup] at hlookup'
    cases hlookup'
    exact ⟨hmay, htaken⟩
  · rintro ⟨id, access, text, hlookup, haccess, hcontent, hmay⟩
    have hread := FileSystem.readText_eq_ok.mpr ⟨id, access, hlookup, haccess, hcontent⟩
    by_cases hw : find text ≠ [] ∧ write = true
    · refine ⟨_, fs.replace id (Utf8.encode (rewrite text).content),
        migrateFile_eq_ok.mpr ⟨text, hread, rfl, ?_⟩⟩
      rw [if_pos hw]
      obtain ⟨hmay, htaken⟩ := hmay hw.1 hw.2
      exact FileSystem.writeText_eq_done.mpr ⟨id, access, hlookup, hmay, htaken, rfl⟩
    · exact ⟨_, fs, migrateFile_eq_ok.mpr ⟨text, hread, rfl, by rw [if_neg hw]⟩⟩

theorem migrateFile_eq_error {failure : Failure} :
    migrateFile fs path write = .error failure ↔
      (∃ fault, fs.readText path = .error fault ∧ failure = .refused fault (.readFile path)) ∨
      ∃ text fault, fs.readText path = .ok text ∧ find text ≠ [] ∧ write = true ∧
        (fs.writeText path (rewrite text).content).1 = some fault ∧
        failure = .refused fault (.writeFile path) := by
  rw [migrateFile_eq_error_iff]
  constructor
  · intro h
    cases hr : fs.readText path with
    | error fault =>
      rw [takeTurn_of_unread hr] at h
      exact Or.inl ⟨fault, rfl, (Except.error.inj h).symm⟩
    | ok text =>
      rw [takeTurn_of_readText hr] at h
      split at h
      · rename_i hw
        rcases hwritten : fs.writeText path (rewrite text).content with ⟨_ | fault, after⟩
        · rw [hwritten] at h
          cases h
        · rw [hwritten] at h
          exact Or.inr
            ⟨text, fault, rfl, hw.1, hw.2, by rw [hwritten], (Except.error.inj h).symm⟩
      · cases h
  · rintro (⟨fault, hr, rfl⟩ | ⟨text, fault, hr, hne, hw, hfault, rfl⟩)
    · rw [takeTurn_of_unread hr]
    · rw [takeTurn_of_readText hr, if_pos ⟨hne, hw⟩]
      rcases hwritten : fs.writeText path (rewrite text).content with ⟨_, after⟩
      rw [hwritten] at hfault
      cases hfault
      rfl

/-- The ways in which the turn of a path fails, each with the failure and what it leaves behind: the
file cannot be read, it may not be written, or it was opened for that and takes only a beginning of
the rewritten text. -/
inductive Leaves (write : Bool) (fs : FileSystem) (path : Path) : Failure → FileSystem → Prop
  | unread {fault : FileSystem.Fault} (hread : fs.readText path = .error fault) :
      Leaves write fs path (.refused fault (.readFile path)) fs
  | unopened {id : FileId} {access : Access} {text : List Char} (hwrite : write = true)
      (hlookup : fs.lookup path = .ok (.file id access)) (haccess : access.write = false)
      (hread : fs.readText path = .ok text) (hfind : find text ≠ []) :
      Leaves write fs path (.refused .permissionDenied (.writeFile path)) fs
  | torn {id : FileId} {access : Access} {text : List Char} {fault : FileSystem.Fault}
      {fs' : FileSystem} (hwrite : write = true)
      (hlookup : fs.lookup path = .ok (.file id access)) (haccess : access.write = true)
      (hread : fs.readText path = .ok text) (hfind : find text ≠ [])
      (htorn : fs.Torn id (Utf8.encode (rewrite text).content) fault fs') :
      Leaves write fs path (.refused fault (.writeFile path)) fs'

theorem leaves_of_migrateFile_eq_error {failure : Failure}
    (h : migrateFile fs path write = .error failure) :
    Leaves write fs path failure (takeTurn fs path write).after := by
  rcases migrateFile_eq_error.mp h with
    ⟨fault, hread, rfl⟩ | ⟨text, fault, hread, hfind, rfl, hfault, rfl⟩
  · rw [takeTurn_of_unread hread]
    exact .unread hread
  obtain ⟨id, access, hlookup, hmayRead, hcontent⟩ := FileSystem.readText_eq_ok.mp hread
  rw [FileSystem.writeText_of_lookup hlookup] at hfault
  cases haccess : access.write with
  | false =>
    rw [haccess, if_neg Bool.false_ne_true] at hfault
    obtain rfl : FileSystem.Fault.permissionDenied = fault := Option.some.inj hfault
    have hafter : (takeTurn fs path true).after = fs := by
      rw [takeTurn_of_readText hread, if_pos ⟨hfind, rfl⟩, FileSystem.writeText_of_lookup hlookup,
        haccess, if_neg Bool.false_ne_true]
    rw [hafter]
    exact .unopened rfl hlookup haccess hread hfind
  | true =>
    rw [haccess, if_pos rfl] at hfault
    obtain ⟨n, hlt, hsink⟩ := FileSystem.Sink.fault?_eq_some.mp hfault
    rw [after_takeTurn_of_lookup hlookup hmayRead haccess hcontent hfind, hsink]
    exact .torn rfl hlookup haccess hread hfind ⟨n, hlt, hsink, rfl⟩

theorem Leaves.sameTree {failure : Failure} (h : Leaves write fs path failure fs') :
    fs.SameTree fs' := by
  cases h with
  | unread _ => exact .refl fs
  | unopened _ _ _ _ _ => exact .refl fs
  | torn _ _ _ _ _ htorn => exact htorn.sameTree

/-- No file was opened for writing, or the one that could not be written. -/
theorem Leaves.opened {failure : Failure} (h : Leaves write fs path failure fs') :
    fs'.opened = fs.opened ∨ ∃ id fault, failure = .refused fault (.writeFile path) ∧
      fs.fileId? path = some id ∧ fs'.opened = id :: fs.opened := by
  cases h with
  | unread _ => exact Or.inl rfl
  | unopened _ _ _ _ _ => exact Or.inl rfl
  | @torn id _ _ fault _ _ hlookup _ _ _ htorn =>
    obtain ⟨n, -, -, rfl⟩ := htorn
    exact Or.inr ⟨id, fault, rfl, by rw [FileSystem.fileId?, hlookup], rfl⟩

/-! ## A file's migration as a pass -/

/-- A migration that succeeds is a pass over the text of the file that the path leads to. The file
is opened for writing if the pass is not a preview and there is an edit; no other file changes. -/
theorem migrateFile_pass {edit : Option Edit} (h : migrateFile fs path write = .ok (edit, fs')) :
    ∃ id text, fs.fileId? path = some id ∧ fs.content id = Utf8.encode text ∧
      fs.readText path = .ok text ∧ edit = editOf path text write ∧ fs.SameTree fs' ∧
      fs'.opened = (if edit.isSome && write then [id] else []) ++ fs.opened ∧
      ∀ other, fs'.content other =
        if write = true ∧ other = id then Utf8.encode (rewrite text).content
        else fs.content other := by
  obtain ⟨text, hread, rfl, hafter⟩ := migrateFile_eq_ok.mp h
  obtain ⟨id, access, hlookup, -, hcontent⟩ := FileSystem.readText_eq_ok.mp hread
  have hid : fs.fileId? path = some id := by rw [FileSystem.fileId?, hlookup]
  refine ⟨id, text, hid, hcontent, hread, rfl, ?_⟩
  split at hafter
  · rename_i hw
    obtain ⟨hne, rfl⟩ := hw
    obtain ⟨id', access', hlookup', -, -, rfl⟩ := FileSystem.writeText_eq_done.mp hafter
    obtain ⟨rfl, rfl⟩ : id = id' ∧ access = access' := by
      rw [hlookup] at hlookup'
      cases hlookup'
      exact ⟨rfl, rfl⟩
    refine ⟨fs.sameTree_replace id _, by simp [editOf, hne, FileSystem.replace], ?_⟩
    intro other
    by_cases ho : other = id
    · simp [FileSystem.replace, ho]
    · simp [FileSystem.replace, ho]
  · rename_i hw
    subst hafter
    refine ⟨.refl _, ?_, ?_⟩
    · by_cases hf : find text = []
      · simp [editOf, hf]
      · simp [show write = false by simpa [hf] using hw]
    · intro other
      split
      · -- the text is not written, so there is no call and the pass keeps it
        rename_i ho
        have hf : find text = [] := by_contra fun hf => hw ⟨hf, ho.1⟩
        rw [ho.2, hcontent, rewrite_content_eq_self.mpr hf]
      · rfl

/-- **Finding and rewriting agree.** A pass over a text replaces as many calls as are found in it,
puts the modern call in the place of each and keeps all other bytes, in their order, and so adds six
bytes for each. The text stays the same exactly if nothing is found, and exactly then migrating a
file with it makes no edit; an edit reports the calls that are found, one at least. -/
theorem find_rewrite_agree (text : List Char) :
    (rewrite text).replacements = (find text).length ∧
    ((find text).Pairwise fun o o' => o.stop ≤ o'.start) ∧
    (∀ o ∈ find text, o.start < o.stop ∧ o.stop ≤ (Utf8.encode text).length) ∧
    Utf8.encode (rewrite text).content = (find text).foldr replaceRange (Utf8.encode text) ∧
    (Utf8.encode (rewrite text).content).length =
      (Utf8.encode text).length + 6 * (find text).length ∧
    ((rewrite text).content = text ↔ (find text).length = 0) ∧
    ((rewrite text).content = text ↔ (rewrite text).changed = false) ∧
    ∀ fs path write edit fs', fs.readText path = .ok text →
      migrateFile fs path write = .ok (edit, fs') →
      (edit = none ↔ (rewrite text).replacements = 0) ∧
      ∀ e, edit = some e → e.replacements = (find text).length ∧ 1 ≤ e.replacements := by
  have hlength := length_find text
  have hsame : (rewrite text).content = text ↔ (find text).length = 0 := by
    rw [rewrite_content_eq_self, List.length_eq_zero_iff]
  refine ⟨hlength.symm, find_ordered text, ?_, encode_rewrite text, ?_, hsame, ?_, ?_⟩
  · intro o ho
    rw [Utf8.length_encode]
    exact find_inside ho
  · rw [Utf8.length_encode, Utf8.length_encode, size_rewrite]
  · rw [hsame, hlength]
    simp [Rewrite.changed]
  · intro fs path write edit fs' hread h
    obtain ⟨text', hread', rfl, -⟩ := migrateFile_eq_ok.mp h
    obtain rfl : text = text' := Except.ok.inj (hread.symm.trans hread')
    refine ⟨by rw [editOf_eq_none, ← hlength, List.length_eq_zero_iff], ?_⟩
    intro e he
    obtain ⟨hne, rfl⟩ := editOf_eq_some.mp he
    exact ⟨rfl, List.length_pos_iff.mpr hne⟩

end Migration

end OpacityMigration
