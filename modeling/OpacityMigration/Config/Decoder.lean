import OpacityMigration.Config.Basic
import OpacityMigration.Json.Skip

/-!
# Reading configurations

A configuration is written as an object with the keys `root`, `extensions` and `skipDirs`, or as a
list of the three values in this order. There are two forms. In a configuration file each key may
be missing or `null`, and no other key may occur. In a complete configuration each key is required
and other keys are passed over. A key may occur once in both.

The text is decoded while it is read, so the first problem in reading order decides the error.
-/

namespace OpacityMigration.Config

open Json (Fault Next)

/-- What a text has to be. -/
structure Form where
  /-- How messages name what was expected. -/
  title : String
  /-- Whether keys may be missing and no others may occur, or the other way round. -/
  optional : Bool
deriving Repr

def Form.file : Form := ⟨"struct ConfigFile", true⟩

def Form.complete : Form := ⟨"struct MigrateConfig", false⟩

inductive Key
  | root
  | extensions
  | skipDirs
deriving DecidableEq, Repr

def Key.name : Key → String
  | .root => "root"
  | .extensions => "extensions"
  | .skipDirs => "skipDirs"

/-- The keys in the order of a configuration written as a list. -/
def Key.all : List Key :=
  [.root, .extensions, .skipDirs]

def Key.ofName? (name : String) : Option Key :=
  Key.all.find? (·.name = name)

/-- The names that a message gives as the known ones. -/
def keys : List String :=
  Key.all.map Key.name

/-- The values read so far. A key that was read as `null` is there without a value. -/
structure Fields where
  root : Option (Option Path)
  extensions : Option (Option (List String))
  skipDirs : Option (Option (List String))

namespace Fields

def empty : Fields :=
  ⟨none, none, none⟩

def has (fields : Fields) : Key → Bool
  | .root => fields.root.isSome
  | .extensions => fields.extensions.isSome
  | .skipDirs => fields.skipDirs.isSome

def draft (fields : Fields) : Draft :=
  ⟨fields.root.join, fields.extensions.join, fields.skipDirs.join⟩

end Fields

/-! ## Values -/

/-- The fault of a text that starts with another kind of value than expected. A value that is no
container is read first. -/
def mismatch (expected : String) (text : List Char) : Fault :=
  match Json.readScalar? text with
  | some (.ok (v, rest)) => .before (.wrongType (Json.found v) expected) rest
  | some (.error fault) => fault
  | none =>
    match text with
    | '[' :: _ => .before (.wrongType .sequence expected) text
    | '\x7b' :: _ => .before (.wrongType .map expected) text
    | _ => .on .expectedValue text

def readText (expected : String) (text : List Char) : Except Fault (String × List Char) :=
  match Json.skipSpace text with
  | [] => .error (.on .endInValue [])
  | c :: rest => if c = '"' then Json.readString rest else .error (mismatch expected (c :: rest))

def readPath (text : List Char) : Except Fault (Path × List Char) :=
  (readText "path string" text).map fun (s, rest) => (.ofString s, rest)

theorem length_of_readText {expected : String} {text rest : List Char} {s : String}
    (h : readText expected text = .ok (s, rest)) : rest.length < text.length := by
  unfold readText at h
  split at h
  · contradiction
  · next hc =>
    split at h
    · have := Json.length_of_readString h
      have := Json.length_of_skipSpace hc
      omega
    · contradiction

/-- Reads the items of a list of strings, after those in `items`, newest first. -/
def readTextsFrom (items : List String) (text : List Char) :
    Except Fault (List String × List Char) :=
  match _hn : Json.nextItem items.isEmpty text with
  | .error fault => .error fault
  | .ok (.closed rest) => .ok (items.reverse, rest)
  | .ok (.entry item) =>
    match _ht : readText "a string" item with
    | .error fault => .error fault
    | .ok (s, rest) => readTextsFrom (s :: items) rest
termination_by text.length
decreasing_by
  have h₁ := Json.bound_of_nextItem _hn
  have h₂ := length_of_readText _ht
  simp only [Next.bound] at h₁
  split at h₁ <;> omega

def readTexts (text : List Char) : Except Fault (List String × List Char) :=
  match Json.skipSpace text with
  | [] => .error (.on .endInValue [])
  | c :: rest =>
    if c = '[' then readTextsFrom [] rest else .error (mismatch "a sequence" (c :: rest))

/-- Reads a value, or `null` where the form admits it. -/
def readNullable {α : Type} (form : Form) (read : List Char → Except Fault (α × List Char))
    (text : List Char) : Except Fault (Option α × List Char) :=
  match form.optional, Json.skipSpace text with
  | true, 'n' :: rest => (Json.readWord "ull".toList rest).map (none, ·)
  | _, _ => (read text).map fun (a, rest) => (some a, rest)

/-- Reads the value of `key` into its field. -/
def readField (form : Form) (fields : Fields) (key : Key) (text : List Char) :
    Except Fault (Fields × List Char) :=
  match key with
  | .root =>
    (readNullable form readPath text).map fun (v, rest) => ({ fields with root := some v }, rest)
  | .extensions =>
    (readNullable form readTexts text).map fun (v, rest) =>
      ({ fields with extensions := some v }, rest)
  | .skipDirs =>
    (readNullable form readTexts text).map fun (v, rest) =>
      ({ fields with skipDirs := some v }, rest)

theorem length_of_readTextsFrom {items strings : List String} {text rest : List Char}
    (h : readTextsFrom items text = .ok (strings, rest)) : rest.length < text.length := by
  fun_induction readTextsFrom items text with
  | case1 => contradiction
  | case2 items text rest' hn =>
    have := Json.bound_of_nextItem hn
    simp only [Except.ok.injEq, Prod.mk.injEq] at h
    simp only [Next.bound] at this
    rw [← h.2]
    omega
  | case3 => contradiction
  | case4 items text item hn s rest' ht ih =>
    have h₁ := Json.bound_of_nextItem hn
    have h₂ := length_of_readText ht
    have h₃ := ih h
    simp only [Next.bound] at h₁
    split at h₁ <;> omega

theorem length_of_readTexts {text rest : List Char} {strings : List String}
    (h : readTexts text = .ok (strings, rest)) : rest.length < text.length := by
  unfold readTexts at h
  split at h
  · contradiction
  · next hc =>
    split at h
    · have := length_of_readTextsFrom h
      have := Json.length_of_skipSpace hc
      omega
    · contradiction

theorem length_of_map {α β : Type} {found : Except Fault (α × List Char)} {f : α → β} {b : β}
    {rest text : List Char}
    (h : found.map (fun (a, rest) => (f a, rest)) = .ok (b, rest))
    (hle : ∀ a r, found = .ok (a, r) → r.length < text.length) : rest.length < text.length := by
  cases found with
  | error fault => simp [Except.map] at h
  | ok r =>
    simp only [Except.map, Except.ok.injEq, Prod.mk.injEq] at h
    rw [← h.2]
    exact hle r.1 r.2 rfl

theorem length_of_readPath {text rest : List Char} {p : Path}
    (h : readPath text = .ok (p, rest)) : rest.length < text.length :=
  length_of_map h fun _ _ => length_of_readText

theorem length_of_readNullable {α : Type} {form : Form}
    {read : List Char → Except Fault (α × List Char)} {text rest : List Char} {a : Option α}
    (hread : ∀ a r, read text = .ok (a, r) → r.length < text.length)
    (h : readNullable form read text = .ok (a, rest)) : rest.length < text.length := by
  unfold readNullable at h
  split at h
  · next word _ hc =>
    cases hx : Json.readWord "ull".toList word with
    | error fault =>
      rw [hx] at h
      contradiction
    | ok r =>
      have := Json.length_of_readWord hx
      have := Json.length_of_skipSpace hc
      simp only [hx, Except.map, Except.ok.injEq, Prod.mk.injEq] at h
      rw [← h.2]
      omega
  · exact length_of_map h hread

theorem length_of_readField {form : Form} {fields fields' : Fields} {key : Key}
    {text rest : List Char} (h : readField form fields key text = .ok (fields', rest)) :
    rest.length < text.length := by
  unfold readField at h
  split at h
  · exact length_of_map (f := fun v => { fields with root := some v }) h fun _ _ =>
      length_of_readNullable fun _ _ => length_of_readPath
  · exact length_of_map (f := fun v => { fields with extensions := some v }) h fun _ _ =>
      length_of_readNullable fun _ _ => length_of_readTexts
  · exact length_of_map (f := fun v => { fields with skipDirs := some v }) h fun _ _ =>
      length_of_readNullable fun _ _ => length_of_readTexts

/-! ## Objects and lists -/

/-- The text at which a problem with the members of a container shows: space and a closing
bracket that comes next are still read. -/
def settle (bracket : Char) (text : List Char) : List Char :=
  match Json.skipSpace text with
  | [] => []
  | c :: rest => if c = bracket then rest else c :: rest

/-- The first key that a configuration of this form lacks. -/
def missing? (form : Form) (fields : Fields) : Option Key :=
  if form.optional then none else Key.all.find? (!fields.has ·)

/-- Reads the members of an object, after those that `fields` were read from. -/
def readMembers (form : Form) (first : Bool) (fields : Fields) (text : List Char) :
    Except Fault (Fields × List Char) :=
  match _hn : Json.nextMember first text with
  | .error fault => .error fault
  | .ok (.closed rest) =>
    match missing? form fields with
    | some key => .error (.before (.missingField key.name) rest)
    | none => .ok (fields, rest)
  | .ok (.entry member) =>
    match _hk : Json.readString member with
    | .error fault => .error fault
    | .ok (name, rest) =>
      match Key.ofName? name with
      | some key =>
        if fields.has key then
          .error (.before (.repeatedField key.name) (settle '\x7d' rest))
        else
          match _hc : Json.readColon rest with
          | .error fault => .error fault
          | .ok value =>
            match _hf : readField form fields key value with
            | .error fault => .error fault
            | .ok (fields, rest) => readMembers form false fields rest
      | none =>
        if form.optional then
          .error (.before (.unknownField name keys) (settle '\x7d' rest))
        else
          match _hc : Json.readColon rest with
          | .error fault => .error fault
          | .ok value =>
            match _hs : Json.skipValue value with
            | .error fault => .error fault
            | .ok rest => readMembers form false fields rest
termination_by text.length
decreasing_by
  · have h₁ := Json.bound_of_nextMember _hn
    have h₂ := Json.length_of_readString _hk
    have h₃ := Json.length_of_readColon _hc
    have h₄ := length_of_readField _hf
    simp only [Next.bound, Bool.false_eq_true, if_false] at h₁
    omega
  · have h₁ := Json.bound_of_nextMember _hn
    have h₂ := Json.length_of_readString _hk
    have h₃ := Json.length_of_readColon _hc
    have h₄ := Json.length_of_skipValue _hs
    simp only [Next.bound, Bool.false_eq_true, if_false] at h₁
    omega

/-- Reads the items of a configuration written as a list: those of `keys`, the `index`-th of all
being the first of them. -/
def readItems (form : Form) (index : Nat) (fields : Fields) (text : List Char) :
    List Key → Except Fault (Fields × List Char)
  | [] =>
    match Json.skipSpace text with
    | [] => .error (.on .endInList [])
    | c :: rest =>
      if c = ']' then .ok (fields, rest)
      else if c = ',' then
        match Json.skipSpace rest with
        | [] => .error (.on .trailingCharacters [])
        | d :: more =>
          if d = ']' then .error (.on .trailingComma (d :: more))
          else .error (.on .trailingCharacters (d :: more))
      else .error (.on .trailingCharacters (c :: rest))
  | key :: keys =>
    match Json.nextItem (index == 0) text with
    | .error fault => .error fault
    | .ok (.closed rest) =>
      .error (.before (.wrongLength index (form.title ++ " with 3 elements")) rest)
    | .ok (.entry item) =>
      match readField form fields key item with
      | .error fault => .error fault
      | .ok (fields, rest) => readItems form (index + 1) fields rest keys

/-- Reads a configuration off the front of a text. -/
def readFields (form : Form) (text : List Char) : Except Fault (Fields × List Char) :=
  match Json.skipSpace text with
  | [] => .error (.on .endInValue [])
  | c :: rest =>
    if c = '[' then readItems form 0 .empty rest Key.all
    else if c = '\x7b' then readMembers form true .empty rest
    else .error (mismatch form.title (c :: rest))

def decode (form : Form) (text : List Char) : Except Json.Error Draft :=
  ((Json.finish (readFields form text)).map Fields.draft).mapError (Fault.error text)

def decodeFile (text : List Char) : Except Json.Error Draft :=
  decode .file text

def decodeComplete (text : List Char) : Except Json.Error Config :=
  (decode .complete text).map (·.fill standard)

end OpacityMigration.Config
