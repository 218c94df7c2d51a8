import OpacityMigration.Json.Numeral

/-!
# Integers are read back

The printer writes an integer in decimal and without a zero in front, so the reader takes all its
digits and no more, if what comes after them is no part of a numeral. The significand that it
collects from them has 64 bits, and that is the only bound: the integers that are read back are the
words of 64 bits, signed or unsigned, and the reader gives no other integer.

* `Number.IsWord`, `EndsNumeral`: those integers, and what may come after one.
* `readNumeral_toDigits`, `collect_toDigits`: the digits of a number, and their value.
* `readNumber_word`, `isWord_of_readNumber`: words are read back, and nothing else is an integer.
-/

namespace OpacityMigration.Json

/-- An integer of 64 bits, signed or unsigned. -/
def Number.IsWord : Number → Prop
  | .integer i => -(negativeBound : Int) ≤ i ∧ i < significandBound
  | .real .. => False

/-- A numeral does not go on with this text. -/
def EndsNumeral (text : List Char) : Prop :=
  ∀ c ∈ text.head?, c.isDigit = false ∧ c ≠ '.' ∧ c ≠ 'e' ∧ c ≠ 'E'

variable {negative : Bool} {text rest : List Char} {n : Nat}

/-! ## The digits of a number -/

theorem isDigit_of_mem {c : Char} (h : c ∈ Nat.toDigits 10 n) : c.isDigit = true :=
  Nat.isDigit_of_mem_toDigits (by decide) (by decide) h

/-- A number other than zero is written without a zero in front. -/
theorem head?_toDigits_ne (h : 0 < n) : (Nat.toDigits 10 n).head? ≠ some '0' := by
  induction n using Nat.strongRecOn with
  | ind n ih =>
    by_cases hlt : n < 10
    · have hdigit : ∀ k < 10, 0 < k → Nat.digitChar k ≠ '0' := by decide
      rw [Nat.toDigits_of_lt_base hlt]
      simpa using hdigit n hlt h
    · have hquot : (Nat.toDigits 10 (n / 10)).head? ≠ some '0' := ih (n / 10) (by omega) (by omega)
      obtain ⟨c, digits, hform⟩ := List.exists_cons_of_ne_nil (@Nat.toDigits_ne_nil (n / 10) 10)
      rw [Nat.toDigits_of_base_le (by decide) (by omega), hform, List.cons_append, List.head?_cons]
      rwa [hform, List.head?_cons] at hquot

/-- The digits of a number are zero alone, or start with none. -/
theorem toDigits_form (n : Nat) :
    Nat.toDigits 10 n = ['0'] ∨
      ∃ c digits, Nat.toDigits 10 n = c :: digits ∧ c ≠ '0' ∧ c.isDigit = true := by
  rcases Nat.eq_zero_or_pos n with rfl | hpos
  · exact Or.inl (Nat.toDigits_zero 10)
  · obtain ⟨c, digits, hform⟩ := List.exists_cons_of_ne_nil (@Nat.toDigits_ne_nil n 10)
    have hhead := head?_toDigits_ne hpos
    rw [hform, List.head?_cons] at hhead
    have hmem : c ∈ Nat.toDigits 10 n := by
      rw [hform]
      exact List.mem_cons_self
    exact Or.inr ⟨c, digits, hform, fun hc => hhead (congrArg some hc), isDigit_of_mem hmem⟩

theorem takeWhile_isDigit (h : EndsNumeral rest) : rest.takeWhile Char.isDigit = [] := by
  cases rest with
  | nil => rfl
  | cons c rest => exact List.takeWhile_cons_of_neg (by simp [(h c rfl).1])

theorem dropWhile_isDigit (h : EndsNumeral rest) : rest.dropWhile Char.isDigit = rest := by
  cases rest with
  | nil => rfl
  | cons c rest => exact List.dropWhile_cons_of_neg (by simp [(h c rfl).1])

/-! ## Reading the digits -/

theorem readWhole_toDigits (ending : Cause) (n : Nat) (h : EndsNumeral rest) :
    readWhole ending (Nat.toDigits 10 n ++ rest) = .ok (Nat.toDigits 10 n, rest) := by
  unfold readWhole
  rcases toDigits_form n with hzero | ⟨c, digits, hform, hc, hdigit⟩
  · rw [hzero, List.singleton_append]
    dsimp only
    rw [if_pos rfl]
    cases rest with
    | nil => rfl
    | cons d rest => simp only [(h d rfl).1, Bool.false_eq_true, if_false]
  · have hall : ∀ d ∈ c :: digits, d.isDigit = true := by
      rw [← hform]
      exact fun d => isDigit_of_mem
    rw [hform, List.cons_append]
    dsimp only
    rw [if_neg hc, if_pos hdigit, ← List.cons_append,
      List.takeWhile_append_of_pos hall, List.dropWhile_append_of_pos hall, takeWhile_isDigit h,
      dropWhile_isDigit h, List.append_nil]

theorem readFraction_of_ends (ending : Cause) (h : EndsNumeral text) :
    readFraction ending text = .ok ([], text) := by
  cases text with
  | nil => rfl
  | cons c text =>
    unfold readFraction
    exact if_neg (h c rfl).2.1

theorem readExponent_of_ends (ending : Cause) (h : EndsNumeral text) :
    readExponent ending text = .ok (none, text) := by
  cases text with
  | nil => rfl
  | cons c text =>
    obtain ⟨-, -, hlower, hupper⟩ := h c rfl
    rw [readExponent, if_neg (not_or.mpr ⟨hlower, hupper⟩)]

/-- The digits of a number are a numeral without fraction and exponent. -/
theorem readNumeral_toDigits (ending : Cause) (negative : Bool) (n : Nat) (h : EndsNumeral rest) :
    readNumeral ending negative (Nat.toDigits 10 n ++ rest) =
      .ok (⟨negative, Nat.toDigits 10 n, [], none⟩, rest) := by
  rw [readNumeral, readWhole_toDigits ending n h]
  simp only [readFraction_of_ends ending h, readExponent_of_ends ending h]

/-! ## The value of the digits -/

theorem le_ofDigitChars (digits : List Char) (start : Nat) :
    start ≤ Nat.ofDigitChars 10 digits start := by
  induction digits generalizing start with
  | nil => exact Nat.le_refl start
  | cons d digits ih =>
    rw [Nat.ofDigitChars_cons]
    exact Nat.le_trans (by omega) (ih _)

/-- All digits go into the significand if their value has 64 bits: no significand on the way is
greater. -/
theorem collect_of_lt {start : Nat} (taken : Nat) {digits : List Char}
    (h : Nat.ofDigitChars 10 digits start < significandBound) :
    collect start taken digits = (Nat.ofDigitChars 10 digits start, taken + digits.length) := by
  induction digits generalizing start taken with
  | nil => rfl
  | cons d digits ih =>
    have hnext : start * 10 + digitValue d = 10 * start + (d.toNat - '0'.toNat) := by
      rw [digitValue, Nat.mul_comm]
    rw [Nat.ofDigitChars_cons, ← hnext] at h
    have hlt : start * 10 + digitValue d < significandBound :=
      Nat.lt_of_le_of_lt (le_ofDigitChars _ _) h
    rw [collect, if_pos hlt, ih (taken + 1) h, Nat.ofDigitChars_cons, ← hnext, List.length_cons,
      Nat.add_assoc, Nat.add_comm 1]

theorem collect_toDigits (h : n < significandBound) :
    collect 0 0 (Nat.toDigits 10 n) = (n, (Nat.toDigits 10 n).length) := by
  have hvalue : Nat.ofDigitChars 10 (Nat.toDigits 10 n) 0 = n := Nat.ofDigitChars_ten_toDigits
  rw [collect_of_lt 0 (by rw [hvalue]; exact h), hvalue, Nat.zero_add]

theorem value?_toDigits {i : Int} (h : n < significandBound)
    (hvalue : integer? negative n = some i) :
    Numeral.value? ⟨negative, Nat.toDigits 10 n, [], none⟩ = some (.integer i) := by
  simp [Numeral.value?, collect_toDigits h, hvalue]

/-- A significand stays below its bound whatever the digits are. -/
theorem collect_lt {start : Nat} (taken : Nat) (digits : List Char) (h : start < significandBound) :
    (collect start taken digits).1 < significandBound := by
  induction digits generalizing start taken with
  | nil => exact h
  | cons d digits ih =>
    rw [collect]
    split
    · rename_i hnext
      exact ih (taken + 1) hnext
    · exact h

/-! ## Integers -/

theorem readNumber_toDigits {i : Int} (h : n < significandBound)
    (hvalue : integer? negative n = some i) (hrest : EndsNumeral rest) :
    readNumber negative (Nat.toDigits 10 n ++ rest) = .ok (.integer i, rest) := by
  rw [readNumber, readNumeral_toDigits .endInValue negative n hrest]
  simp only [value?_toDigits h hvalue]

/-- How a word is written: a sign and digits, or digits. Without the sign they are read back. -/
theorem readNumber_word {number : Number} (h : number.IsWord) (hrest : EndsNumeral rest) :
    ∃ negative n, number.text = (if negative then ['-'] else []) ++ Nat.toDigits 10 n ∧
      readNumber negative (Nat.toDigits 10 n ++ rest) = .ok (number, rest) := by
  match number with
  | .integer (.ofNat n) =>
    have hlt : n < significandBound := Int.ofNat_lt.mp h.2
    exact ⟨false, n, rfl, readNumber_toDigits hlt rfl hrest⟩
  | .integer (.negSucc n) =>
    have hle : n + 1 ≤ negativeBound := by
      have := h.1
      omega
    have hlt : n + 1 < significandBound := Nat.lt_of_le_of_lt hle (by decide)
    have hvalue : integer? true (n + 1) = some (.negSucc n) := by
      rw [integer?, if_pos rfl, if_pos ⟨n.succ_pos, hle⟩]
      rfl
    exact ⟨true, n + 1, rfl, readNumber_toDigits hlt hvalue hrest⟩
  | .real .. => exact h.elim

theorem isWord_of_integer? {i : Int} (hvalue : integer? negative n = some i)
    (h : n < significandBound) : (Number.integer i).IsWord := by
  have hbounds : (negativeBound : Int) = 0x8000_0000_0000_0000 ∧
      (significandBound : Int) = 0x1_0000_0000_0000_0000 := ⟨rfl, rfl⟩
  unfold integer? at hvalue
  simp only [Number.IsWord]
  split at hvalue
  · split at hvalue
    · obtain rfl := Option.some.inj hvalue
      omega
    · cases hvalue
  · obtain rfl := Option.some.inj hvalue
    omega

theorem isWord_of_value? {numeral : Numeral} {i : Int} (h : numeral.value? = some (.integer i)) :
    (Number.integer i).IsWord := by
  unfold Numeral.value? at h
  dsimp only at h
  split at h
  · rename_i j hinteger
    obtain rfl := Number.integer.inj (Option.some.inj h)
    split at hinteger
    · exact isWord_of_integer? hinteger (collect_lt 0 _ (by decide))
    · cases hinteger
  · obtain ⟨m, -, hreal⟩ := Option.map_eq_some_iff.mp h
    cases hreal

/-- The reader gives no integer but a word. -/
theorem isWord_of_readNumber {i : Int} (h : readNumber negative text = .ok (.integer i, rest)) :
    (Number.integer i).IsWord := by
  unfold readNumber at h
  split at h
  · cases h
  · rename_i numeral after _
    split at h
    · rename_i number hvalue
      cases h
      exact isWord_of_value? hvalue
    · cases h

end OpacityMigration.Json
