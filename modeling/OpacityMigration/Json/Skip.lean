import OpacityMigration.Json.Reader

/-!
# Passing over JSON values

A value that nobody asks for is only checked for its form: numbers may be of any size, halves of
pairs may stand alone in strings, and containers may be nested to any depth.
-/

namespace OpacityMigration.Json

/-- Passes over a value that is no container. `none` if the text starts with no such value. -/
def skipScalar? : List Char → Option (Except Fault (List Char))
  | [] => none
  | c :: rest =>
    if c = 'n' then some (readWord "ull".toList rest)
    else if c = 't' then some (readWord "rue".toList rest)
    else if c = 'f' then some (readWord "alse".toList rest)
    else if c = '-' then some ((readNumeral .badNumber true rest).map Prod.snd)
    else if c.isDigit then some ((readNumeral .badNumber false (c :: rest)).map Prod.snd)
    else if c = '"' then some (skipString rest)
    else none

inductive Bracket
  | array
  | object
deriving DecidableEq

/-- What is due while a value is passed over. -/
inductive Passing
  | value
  /-- A member of an object. -/
  | member
  /-- A comma or a closing bracket after a value, or the end. -/
  | close

theorem length_of_skipScalar? {text rest : List Char} (h : skipScalar? text = some (.ok rest)) :
    rest.length < text.length := by
  unfold skipScalar? at h
  split at h
  · contradiction
  · next c body =>
    have word {w : List Char} (h : some (readWord w body) = some (Except.ok rest)) :
        rest.length < (c :: body).length := by
      have := length_of_readWord (Option.some.inj h)
      simp only [List.length_cons]
      omega
    split at h
    · exact word h
    split at h
    · exact word h
    split at h
    · exact word h
    split at h
    · cases hx : readNumeral .badNumber true body with
      | error fault => simp [hx, Except.map] at h
      | ok r =>
        have := length_of_readNumeral hx
        simp only [hx, Except.map, Option.some.injEq, Except.ok.injEq] at h
        simp only [← h, List.length_cons]
        omega
    split at h
    · cases hx : readNumeral .badNumber false (c :: body) with
      | error fault => simp [hx, Except.map] at h
      | ok r =>
        have := length_of_readNumeral hx
        simp only [hx, Except.map, Option.some.injEq, Except.ok.injEq] at h
        simpa only [← h] using this
    split at h
    · have := length_of_skipString (Option.some.inj h)
      simp only [List.length_cons]
      omega
    · contradiction

/-- Goes on until the outermost value is complete. -/
def skipFrom (due : Passing) (outer : List Bracket) (text : List Char) :
    Except Fault (List Char) :=
  match due with
  | .value =>
    match _h : skipSpace text with
    | [] => .error (.on .endInValue [])
    | c :: rest =>
      match _hs : skipScalar? (c :: rest) with
      | some (.error fault) => .error fault
      | some (.ok rest) => skipFrom .close outer rest
      | none =>
        if c = '[' then
          match _hr : skipSpace rest with
          | [] => .error (.on .endInList [])
          | d :: more =>
            if d = ']' then skipFrom .close outer more
            else skipFrom .value (.array :: outer) (d :: more)
        else if c = '\x7b' then
          match _hr : skipSpace rest with
          | [] => .error (.on .endInObject [])
          | d :: more =>
            if d = '\x7d' then skipFrom .close outer more
            else skipFrom .member outer (d :: more)
        else .error (.on .expectedValue (c :: rest))
  | .member =>
    match _h : skipSpace text with
    | [] => .error (.on .endInObject [])
    | c :: rest =>
      if c = '"' then
        match _hk : skipString rest with
        | .error fault => .error fault
        | .ok rest =>
          match _hr : skipSpace rest with
          | [] => .error (.on .endInObject [])
          | d :: more =>
            if d = ':' then skipFrom .value (.object :: outer) more
            else .error (.on .expectedColon (d :: more))
      else .error (.on .expectedKey (c :: rest))
  | .close =>
    match outer with
    | [] => .ok text
    | .array :: outer =>
      match _h : skipSpace text with
      | [] => .error (.on .endInList [])
      | c :: rest =>
        if c = ']' then skipFrom .close outer rest
        else if c = ',' then skipFrom .value (.array :: outer) rest
        else .error (.on .expectedListEnd (c :: rest))
    | .object :: outer =>
      match _h : skipSpace text with
      | [] => .error (.on .endInObject [])
      | c :: rest =>
        if c = '\x7d' then skipFrom .close outer rest
        else if c = ',' then skipFrom .member outer rest
        else .error (.on .expectedObjectEnd (c :: rest))
termination_by text.length
decreasing_by
  · have h₁ := length_of_skipScalar? _hs
    have h₂ := length_of_skipSpace _h
    simp only [List.length_cons] at h₁
    omega
  · have h₁ := length_of_skipSpace _hr
    have h₂ := length_of_skipSpace _h
    omega
  · have h₁ := length_skipSpace_le rest
    have h₂ := length_of_skipSpace _h
    rw [_hr] at h₁
    omega
  · have h₁ := length_of_skipSpace _hr
    have h₂ := length_of_skipSpace _h
    omega
  · have h₁ := length_skipSpace_le rest
    have h₂ := length_of_skipSpace _h
    rw [_hr] at h₁
    omega
  · have h₁ := length_of_skipSpace _hr
    have h₂ := length_of_skipString _hk
    have h₃ := length_of_skipSpace _h
    omega
  all_goals exact length_of_skipSpace _h

/-- Passes over one value at the front of a text. -/
def skipValue (text : List Char) : Except Fault (List Char) :=
  skipFrom .value [] text

theorem length_of_skipFrom {due : Passing} {outer : List Bracket} {text rest : List Char}
    (h : skipFrom due outer text = .ok rest) :
    rest.length ≤ text.length ∧ (due ≠ .close → rest.length < text.length) := by
  suffices H : rest.length < text.length ∨ (due = .close ∧ rest.length ≤ text.length) by
    rcases H with H | ⟨hd, H⟩
    · exact ⟨Nat.le_of_lt H, fun _ => H⟩
    · exact ⟨H, fun hne => absurd hd hne⟩
  have open_ {c d : Char} {body more text : List Char} (h₁ : skipSpace text = c :: body)
      (h₂ : skipSpace body = d :: more) : more.length + 1 < text.length := by
    have := length_of_skipSpace h₁
    have := length_of_skipSpace h₂
    omega
  fun_induction skipFrom due outer text with
  | case3 _ _ _ _ hr _ hs ih =>
    have hs := length_of_skipScalar? hs
    have hr := length_of_skipSpace hr
    simp only [List.length_cons] at hs
    rcases ih h with ih | ⟨-, ih⟩ <;> omega
  | case5 _ _ _ _ h₁ _ h₂ ih => rcases ih h with ih | ⟨-, ih⟩ <;> have := open_ h₁ h₂ <;> omega
  | case6 _ _ _ _ _ h₂ _ h₁ _ ih =>
    have := open_ h₁ h₂
    rcases ih h with ih | ⟨-, ih⟩ <;> simp only [List.length_cons] at ih <;> omega
  | case8 _ _ _ _ h₁ _ _ h₂ ih => rcases ih h with ih | ⟨-, ih⟩ <;> have := open_ h₁ h₂ <;> omega
  | case9 _ _ _ _ _ h₂ _ h₁ _ _ ih =>
    have := open_ h₁ h₂
    rcases ih h with ih | ⟨-, ih⟩ <;> simp only [List.length_cons] at ih <;> omega
  | case14 _ _ _ _ hk _ h₁ h₂ ih =>
    have := length_of_skipString hk
    have := length_of_skipSpace h₁
    have := length_of_skipSpace h₂
    rcases ih h with ih | ⟨-, ih⟩ <;> omega
  | case17 => exact .inr ⟨rfl, by simp_all⟩
  | case19 _ _ _ h₁ ih | case20 _ _ _ h₁ _ ih | case23 _ _ _ h₁ ih | case24 _ _ _ h₁ _ ih =>
    have := length_of_skipSpace h₁
    rcases ih h with ih | ⟨-, ih⟩ <;> omega
  | _ => contradiction

theorem length_of_skipValue {text rest : List Char} (h : skipValue text = .ok rest) :
    rest.length < text.length :=
  (length_of_skipFrom h).2 (by simp)

end OpacityMigration.Json
