import OpacityMigration.Json.Fault

/-!
# The words, numbers and strings of JSON

Readers for what is not nested. Each takes a lexeme off the front of a text and gives back its
meaning and the rest of the text, or a fault. The lemmas named `length_of_…` say that the rest is
shorter.
-/

namespace OpacityMigration.Json

/-- A character that may stand between lexemes. -/
def isSpace (c : Char) : Bool :=
  c == ' ' || c == '\n' || c == '\t' || c == '\r'

/-- The text from its next lexeme on. -/
def skipSpace (text : List Char) : List Char :=
  text.dropWhile isSpace

/-- Reads the characters of `word`. -/
def readWord : List Char → List Char → Except Fault (List Char)
  | [], text => .ok text
  | _ :: _, [] => .error (.before .endInValue [])
  | w :: word, c :: rest =>
    if w = c then readWord word rest else .error (.on .expectedWord (c :: rest))

/-! ## Strings -/

def hexValue? (c : Char) : Option Nat :=
  if '0' ≤ c ∧ c ≤ '9' then some (c.toNat - '0'.toNat)
  else if 'a' ≤ c ∧ c ≤ 'f' then some (c.toNat - 'a'.toNat + 10)
  else if 'A' ≤ c ∧ c ≤ 'F' then some (c.toNat - 'A'.toNat + 10)
  else none

def hexValues? (a b c d : Char) : Option Nat := do
  return (((← hexValue? a) * 16 + (← hexValue? b)) * 16 + (← hexValue? c)) * 16 + (← hexValue? d)

/-- The fault of four bytes that are no digits, or of a text that has not as many. -/
def hexFault (text : List Char) : Fault :=
  if Utf8.size text < 4 then .before .endInString [] else ⟨.badEscape, text, 4⟩

def readHex (text : List Char) : Except Fault (Nat × List Char) :=
  match text with
  | a :: b :: c :: d :: rest =>
    match hexValues? a b c d with
    | some n => .ok (n, rest)
    | none => .error (hexFault text)
  | _ => .error (hexFault text)

/-- The first half of a pair that stands for one character. -/
def isLeading (n : Nat) : Bool :=
  0xD800 ≤ n && n ≤ 0xDBFF

/-- The second half of such a pair. -/
def isTrailing (n : Nat) : Bool :=
  0xDC00 ≤ n && n ≤ 0xDFFF

def pairChar (leading trailing : Nat) : Char :=
  Char.ofNat (0x10000 + (leading - 0xD800) * 0x400 + (trailing - 0xDC00))

/-- Reads the second half of a pair, which has to follow the first at once. -/
def readTrailing (leading : Nat) : List Char → Except Fault (Char × List Char)
  | [] => .error (.before .endInString [])
  | c :: text =>
    if c = '\\' then
      match text with
      | [] => .error (.before .endInString [])
      | u :: digits =>
        if u = 'u' then
          match readHex digits with
          | .error fault => .error fault
          | .ok (n, rest) =>
            if isTrailing n then .ok (pairChar leading n, rest)
            else .error (.before .loneSurrogate rest)
        else .error (.on .brokenPair (u :: digits))
    else .error (.on .brokenPair (c :: text))

/-- Reads the character that is given by number. -/
def readNumbered (text : List Char) : Except Fault (Char × List Char) :=
  match readHex text with
  | .error fault => .error fault
  | .ok (n, rest) =>
    if isTrailing n then .error (.before .loneSurrogate rest)
    else if isLeading n then readTrailing n rest
    else .ok (Char.ofNat n, rest)

/-- The character that a letter after a backslash stands for. -/
def escaped? (letter : Char) : Option Char :=
  match letter with
  | '"' => some '"'
  | '\\' => some '\\'
  | '/' => some '/'
  | 'b' => some '\x08'
  | 'f' => some '\x0c'
  | 'n' => some '\n'
  | 'r' => some '\r'
  | 't' => some '\t'
  | _ => none

/-- Reads what stands after a backslash. -/
def readEscape : List Char → Except Fault (Char × List Char)
  | [] => .error (.before .endInString [])
  | letter :: rest =>
    if letter = 'u' then readNumbered rest
    else
      match escaped? letter with
      | some c => .ok (c, rest)
      | none => .error (.on .badEscape (letter :: rest))

theorem length_of_readHex {text : List Char} {n : Nat} {rest : List Char}
    (h : readHex text = .ok (n, rest)) : rest.length < text.length := by
  unfold readHex at h
  split at h
  · split at h
    · simp only [Except.ok.injEq, Prod.mk.injEq] at h
      simp [← h.2]
      omega
    · contradiction
  · contradiction

theorem length_of_readTrailing {leading : Nat} {text : List Char} {c : Char} {rest : List Char}
    (h : readTrailing leading text = .ok (c, rest)) : rest.length < text.length := by
  unfold readTrailing at h
  split at h
  · contradiction
  · split at h
    · split at h
      · contradiction
      · split at h
        · split at h
          · contradiction
          · next hx =>
            have := length_of_readHex hx
            split at h
            · simp only [Except.ok.injEq, Prod.mk.injEq] at h
              simp only [← h.2, List.length_cons]
              omega
            · contradiction
        · contradiction
    · contradiction

theorem length_of_readNumbered {text : List Char} {c : Char} {rest : List Char}
    (h : readNumbered text = .ok (c, rest)) : rest.length < text.length := by
  unfold readNumbered at h
  split at h
  · contradiction
  · next hx =>
    have := length_of_readHex hx
    split at h
    · contradiction
    · split at h
      · have := length_of_readTrailing h
        omega
      · simp only [Except.ok.injEq, Prod.mk.injEq] at h
        simpa [← h.2] using this

theorem length_of_readEscape {text : List Char} {c : Char} {rest : List Char}
    (h : readEscape text = .ok (c, rest)) : rest.length < text.length := by
  unfold readEscape at h
  split at h
  · contradiction
  · split at h
    · have := length_of_readNumbered h
      simp only [List.length_cons]
      omega
    · split at h
      · simp only [Except.ok.injEq, Prod.mk.injEq] at h
        simp [← h.2]
      · contradiction

/-- Reads a string up to its closing quote; `done` holds its characters so far, newest first. -/
def readStringFrom (done : List Char) (text : List Char) : Except Fault (String × List Char) :=
  match text with
  | [] => .error (.before .endInString [])
  | c :: rest =>
    if c = '"' then .ok (String.ofList done.reverse, rest)
    else if c = '\\' then
      match _h : readEscape rest with
      | .error fault => .error fault
      | .ok (d, rest) => readStringFrom (d :: done) rest
    else if c < ' ' then .error (.on .controlCharacter (c :: rest))
    else readStringFrom (c :: done) rest
termination_by text.length
decreasing_by
  · have := length_of_readEscape _h
    simp only [List.length_cons]
    omega
  · simp

/-- Reads a string after its opening quote. -/
def readString (text : List Char) : Except Fault (String × List Char) :=
  readStringFrom [] text

theorem length_of_readStringFrom {done text : List Char} {s : String} {rest : List Char}
    (h : readStringFrom done text = .ok (s, rest)) : rest.length < text.length := by
  fun_induction readStringFrom done text with
  | case1 => contradiction
  | case2 =>
    simp only [Except.ok.injEq, Prod.mk.injEq] at h
    simp [← h.2]
  | case3 => contradiction
  | case4 done rest' d rest'' hx _ ih =>
    have := length_of_readEscape hx
    have := ih h
    simp only [List.length_cons]
    omega
  | case5 => contradiction
  | case6 done c rest' _ _ _ ih =>
    have := ih h
    simp only [List.length_cons]
    omega

theorem length_of_readString {text : List Char} {s : String} {rest : List Char}
    (h : readString text = .ok (s, rest)) : rest.length < text.length :=
  length_of_readStringFrom h

/-- Goes over what stands after a backslash, whatever character it stands for. -/
def skipEscape : List Char → Except Fault (List Char)
  | [] => .error (.before .endInString [])
  | letter :: rest =>
    if letter = 'u' then (readHex rest).map Prod.snd
    else if (escaped? letter).isSome then .ok rest
    else .error (.on .badEscape (letter :: rest))

theorem length_of_skipEscape {text rest : List Char} (h : skipEscape text = .ok rest) :
    rest.length < text.length := by
  unfold skipEscape at h
  split at h
  · contradiction
  · split at h
    · next letter body _ =>
      cases hx : readHex body with
      | error fault => simp [hx, Except.map] at h
      | ok found =>
        obtain ⟨n, r⟩ := found
        have := length_of_readHex hx
        simp only [hx, Except.map, Except.ok.injEq] at h
        simp only [← h, List.length_cons]
        omega
    · split at h
      · simp only [Except.ok.injEq] at h
        simp [← h]
      · contradiction

/-- Goes over a string after its opening quote. -/
def skipString (text : List Char) : Except Fault (List Char) :=
  match text with
  | [] => .error (.before .endInString [])
  | c :: rest =>
    if c = '"' then .ok rest
    else if c = '\\' then
      match _h : skipEscape rest with
      | .error fault => .error fault
      | .ok rest => skipString rest
    else if c < ' ' then .error (.before .controlCharacter (c :: rest))
    else skipString rest
termination_by text.length
decreasing_by
  · have := length_of_skipEscape _h
    simp only [List.length_cons]
    omega
  · simp

theorem length_of_skipString {text rest : List Char} (h : skipString text = .ok rest) :
    rest.length < text.length := by
  fun_induction skipString text with
  | case1 => contradiction
  | case2 =>
    simp only [Except.ok.injEq] at h
    simp [← h]
  | case3 => contradiction
  | case4 rest' rest'' hx _ ih =>
    have := length_of_skipEscape hx
    have := ih h
    simp only [List.length_cons]
    omega
  | case5 => contradiction
  | case6 c rest' _ _ _ ih =>
    have := ih h
    simp only [List.length_cons]
    omega

/-! ## Numbers -/

structure Numeral where
  negative : Bool
  whole : List Char
  fraction : List Char
  /-- The sign and the digits of the exponent. -/
  exponent : Option (Bool × List Char)
deriving Repr

/-- Takes a sign off the front of a text. -/
def readSign (text : List Char) : Bool × List Char :=
  match text with
  | [] => (false, text)
  | c :: rest => if c = '+' then (false, rest) else if c = '-' then (true, rest) else (false, text)

/-- Reads the exponent of a numeral, if there is one. `ending` is the cause of refusing a text
that ends too soon. -/
def readExponent (ending : Cause) (text : List Char) :
    Except Fault (Option (Bool × List Char) × List Char) :=
  match text with
  | [] => .ok (none, text)
  | e :: rest =>
    if e = 'e' ∨ e = 'E' then
      let (negative, digits) := readSign rest
      match digits with
      | [] => .error (.before ending [])
      | d :: _ =>
        if d.isDigit then
          .ok (some (negative, digits.takeWhile Char.isDigit), digits.dropWhile Char.isDigit)
        else .error (.on .badNumber digits)
    else .ok (none, text)

/-- Reads the fraction of a numeral, if there is one. -/
def readFraction (ending : Cause) (text : List Char) : Except Fault (List Char × List Char) :=
  match text with
  | [] => .ok ([], text)
  | c :: rest =>
    if c = '.' then
      match rest with
      | [] => .error (.before ending [])
      | d :: _ =>
        if d.isDigit then .ok (rest.takeWhile Char.isDigit, rest.dropWhile Char.isDigit)
        else .error (.on .badNumber rest)
    else .ok ([], text)

/-- Reads the digits before the point: a zero alone, or digits that start with none. -/
def readWhole (ending : Cause) (text : List Char) : Except Fault (List Char × List Char) :=
  match text with
  | [] => .error (.before ending [])
  | c :: rest =>
    if c = '0' then
      match rest with
      | [] => .ok (['0'], rest)
      | d :: _ => if d.isDigit then .error (.on .badNumber rest) else .ok (['0'], rest)
    else if c.isDigit then .ok (text.takeWhile Char.isDigit, text.dropWhile Char.isDigit)
    else .error (.on .badNumber text)

/-- Reads a numeral after its sign. -/
def readNumeral (ending : Cause) (negative : Bool) (text : List Char) :
    Except Fault (Numeral × List Char) :=
  match readWhole ending text with
  | .error fault => .error fault
  | .ok (whole, text) =>
    match readFraction ending text with
    | .error fault => .error fault
    | .ok (fraction, text) =>
      match readExponent ending text with
      | .error fault => .error fault
      | .ok (exponent, text) => .ok (⟨negative, whole, fraction, exponent⟩, text)

theorem length_dropWhile_le (p : Char → Bool) (text : List Char) :
    (text.dropWhile p).length ≤ text.length :=
  (List.dropWhile_sublist p).length_le

theorem length_of_readWhole {ending : Cause} {text digits rest : List Char}
    (h : readWhole ending text = .ok (digits, rest)) : rest.length < text.length := by
  unfold readWhole at h
  split at h
  · contradiction
  · split at h
    · split at h
      · simp only [Except.ok.injEq, Prod.mk.injEq] at h
        simp [← h.2]
      · split at h
        · contradiction
        · simp only [Except.ok.injEq, Prod.mk.injEq] at h
          simp [← h.2]
    · split at h
      · next c body _ hc =>
        simp only [Except.ok.injEq, Prod.mk.injEq, List.dropWhile_cons, hc, if_true] at h
        have := length_dropWhile_le Char.isDigit body
        simp only [← h.2, List.length_cons]
        omega
      · contradiction

theorem length_of_readFraction {ending : Cause} {text digits rest : List Char}
    (h : readFraction ending text = .ok (digits, rest)) : rest.length ≤ text.length := by
  unfold readFraction at h
  split at h
  · simp_all
  · split at h
    · split at h
      · contradiction
      · next d body =>
        split at h
        · simp only [Except.ok.injEq, Prod.mk.injEq] at h
          have := length_dropWhile_le Char.isDigit (d :: body)
          simp only [← h.2, List.length_cons] at this ⊢
          omega
        · contradiction
    · simp_all

theorem length_readSign_le (text : List Char) : (readSign text).2.length ≤ text.length := by
  unfold readSign
  split
  · simp
  · split
    · simp
    · split <;> simp

theorem length_of_readExponent {ending : Cause} {text rest : List Char}
    {exponent : Option (Bool × List Char)}
    (h : readExponent ending text = .ok (exponent, rest)) : rest.length ≤ text.length := by
  unfold readExponent at h
  split at h
  · simp_all
  · next e body =>
    split at h
    · have hlen := length_readSign_le body
      simp only at h
      split at h
      · contradiction
      · next d more hdigits =>
        split at h
        · simp only [Except.ok.injEq, Prod.mk.injEq] at h
          have := length_dropWhile_le Char.isDigit (readSign body).2
          simp only [← h.2, List.length_cons]
          omega
        · contradiction
    · simp_all

theorem length_of_readNumeral {ending : Cause} {negative : Bool} {text rest : List Char}
    {numeral : Numeral} (h : readNumeral ending negative text = .ok (numeral, rest)) :
    rest.length < text.length := by
  unfold readNumeral at h
  split at h
  · contradiction
  · next h₁ =>
    split at h
    · contradiction
    · next h₂ =>
      split at h
      · contradiction
      · next h₃ =>
        simp only [Except.ok.injEq, Prod.mk.injEq] at h
        have := length_of_readWhole h₁
        have := length_of_readFraction h₂
        have := length_of_readExponent h₃
        rw [← h.2]
        omega

end OpacityMigration.Json
