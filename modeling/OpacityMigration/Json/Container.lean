import OpacityMigration.Json.Numeral

/-!
# Inside a container

What may stand between the items of a list and the members of an object. The lemmas say how much
of a text each reader takes, so that loops over items and members end.
-/

namespace OpacityMigration.Json

theorem length_skipSpace_le (text : List Char) : (skipSpace text).length ≤ text.length :=
  length_dropWhile_le _ _

theorem length_of_skipSpace {text : List Char} {c : Char} {rest : List Char}
    (h : skipSpace text = c :: rest) : rest.length < text.length := by
  have := length_skipSpace_le text
  simp only [h, List.length_cons] at this
  omega

inductive Next
  /-- Its closing bracket, and the text after it. -/
  | closed (rest : List Char)
  /-- An item or a member, and the text from it on. -/
  | entry (text : List Char)

/-- How many characters are left of the text that comes next, the bracket or comma before it
counted where it is known to be there. -/
def Next.bound (first : Bool) : Next → Nat
  | .closed rest => rest.length + 1
  | .entry text => if first then text.length else text.length + 1

/-- What comes next in a list: right after its opening bracket, or after an item. -/
def nextItem (first : Bool) (text : List Char) : Except Fault Next :=
  match skipSpace text with
  | [] => .error (.on .endInList [])
  | c :: rest =>
    if c = ']' then .ok (.closed rest)
    else if first then .ok (.entry (c :: rest))
    else if c = ',' then
      match skipSpace rest with
      | [] => .error (.on .endInValue [])
      | d :: more =>
        if d = ']' then .error (.on .trailingComma (d :: more)) else .ok (.entry (d :: more))
    else .error (.on .expectedListEnd (c :: rest))

/-- What comes next in an object: right after its opening bracket, or after a member. The opening
quote of a member's key is read. -/
def nextMember (first : Bool) (text : List Char) : Except Fault Next :=
  match skipSpace text with
  | [] => .error (.on .endInObject [])
  | c :: rest =>
    if c = '\x7d' then .ok (.closed rest)
    else if first then
      if c = '"' then .ok (.entry rest) else .error (.on .expectedKey (c :: rest))
    else if c = ',' then
      match skipSpace rest with
      | [] => .error (.on .endInValue [])
      | d :: more =>
        if d = '"' then .ok (.entry more)
        else if d = '\x7d' then .error (.on .trailingComma (d :: more))
        else .error (.on .expectedKey (d :: more))
    else .error (.on .expectedObjectEnd (c :: rest))

def readColon (text : List Char) : Except Fault (List Char) :=
  match skipSpace text with
  | [] => .error (.on .endInObject [])
  | c :: rest => if c = ':' then .ok rest else .error (.on .expectedColon (c :: rest))

theorem bound_of_nextItem {first : Bool} {text : List Char} {next : Next}
    (h : nextItem first text = .ok next) : next.bound first ≤ text.length := by
  unfold nextItem at h
  split at h
  · contradiction
  · next c rest hc =>
    have hle := length_skipSpace_le text
    simp only [hc, List.length_cons] at hle
    split at h
    · obtain rfl := Except.ok.inj h
      exact hle
    split at h
    · next hf =>
      obtain rfl := Except.ok.inj h
      simpa [Next.bound, hf] using hle
    split at h
    · split at h
      · contradiction
      · next d more hd =>
        have hle' := length_skipSpace_le rest
        simp only [hd, List.length_cons] at hle'
        split at h
        · contradiction
        · obtain rfl := Except.ok.inj h
          simp only [Next.bound, List.length_cons]
          split <;> omega
    · contradiction

theorem bound_of_nextMember {first : Bool} {text : List Char} {next : Next}
    (h : nextMember first text = .ok next) : next.bound false ≤ text.length := by
  unfold nextMember at h
  split at h
  · contradiction
  · next c rest hc =>
    have hle := length_skipSpace_le text
    simp only [hc, List.length_cons] at hle
    split at h
    · obtain rfl := Except.ok.inj h
      exact hle
    split at h
    · split at h
      · obtain rfl := Except.ok.inj h
        exact hle
      · contradiction
    split at h
    · split at h
      · contradiction
      · next d more hd =>
        have hle' := length_skipSpace_le rest
        simp only [hd, List.length_cons] at hle'
        split at h
        · obtain rfl := Except.ok.inj h
          simp only [Next.bound, Bool.false_eq_true, if_false]
          omega
        · split at h <;> contradiction
    · contradiction

theorem length_of_readColon {text rest : List Char} (h : readColon text = .ok rest) :
    rest.length < text.length := by
  unfold readColon at h
  split at h
  · contradiction
  · next hc =>
    split at h
    · obtain rfl := Except.ok.inj h
      exact length_of_skipSpace hc
    · contradiction

end OpacityMigration.Json
